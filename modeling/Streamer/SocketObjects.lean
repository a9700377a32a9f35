import Streamer.Lib.Machine
import Streamer.Lib.Ownership

/-!
# `Socket` objects and their descriptors (`src/Socket.cpp`)

The constructors, the destructor, the move operations, `create_tcp`, `accept` and `close`, as they
read and write `fd_`. An object is named by its place (a variable, a member, an element), of any type
`α`. Of the kernel there is what it was asked and gave: the descriptors that `::socket` and `::accept`
returned and the calls of `::close`.
-/

namespace Streamer
open Ownership

structure Sockets (α : Type) where
  /-- `fd_` of the object in a place; `none` where there is no object. -/
  fd : α → Option Int := fun _ => none
  calls : List (Event Int) := []

/-- What the thread does. The result is that of the system call that `create_tcp` and `accept` make. -/
inductive SocketOp (α : Type) where
  /-- `Socket x;` -/
  | default (x : α)
  /-- `Socket x = Socket::create_tcp();` -/
  | createTcp (x : α) (result : Int)
  /-- `Socket x = y.accept(client_ip, client_port);` -/
  | accept (x y : α) (result : Int)
  /-- `Socket x(std::move(y));` -/
  | moveConstruct (x y : α)
  /-- `x = std::move(y);` -/
  | moveAssign (x y : α)
  | close (x : α)
  | destroy (x : α)
deriving DecidableEq, Repr

namespace Sockets
variable {α : Type} [DecidableEq α]

def isValid (s : Sockets α) (x : α) : Bool := (s.fd x).any (0 ≤ ·)

/-- `Socket(int fd)`. -/
def construct (s : Sockets α) (x : α) (fd : Int) : Sockets α :=
  { s with fd := Function.update s.fd x (some fd) }

def close (s : Sockets α) (x : α) : Sockets α :=
  match s.fd x with
  | none => s
  | some fd =>
    if 0 ≤ fd then
      { fd := Function.update s.fd x (some (-1)), calls := s.calls ++ [.returned fd] }
    else s

/-- `fd_ = other.fd_; other.fd_ = -1;` -/
def takeFrom (s : Sockets α) (x y : α) : Sockets α :=
  { s with fd := Function.update (Function.update s.fd x (s.fd y)) y (some (-1)) }

def moveAssign (s : Sockets α) (x y : α) : Sockets α :=
  if x ≠ y then (s.close x).takeFrom x y else s

def destroy (s : Sockets α) (x : α) : Sockets α :=
  let s := s.close x
  { s with fd := Function.update s.fd x none }

/-- The object that `create_tcp` and `accept` make of the result of their system call. -/
def ofResult (s : Sockets α) (x : α) (result : Int) : Sockets α :=
  if result < 0 then s.construct x (-1)
  else { s.construct x result with calls := s.calls ++ [.given result] }

def createTcp (s : Sockets α) (x : α) (result : Int) : Sockets α := s.ofResult x result

def accept (s : Sockets α) (x y : α) (result : Int) : Sockets α :=
  if !s.isValid y then s.construct x (-1) else s.ofResult x result

/-- An object is constructed where there is none, and used where there is one. -/
def step (s : Sockets α) : SocketOp α → Option (Sockets α)
  | .default x => if s.fd x = none then some (s.construct x (-1)) else none
  | .createTcp x result => if s.fd x = none then some (s.createTcp x result) else none
  | .accept x y result =>
    if s.fd x = none ∧ s.fd y ≠ none then some (s.accept x y result) else none
  | .moveConstruct x y => if s.fd x = none ∧ s.fd y ≠ none then some (s.takeFrom x y) else none
  | .moveAssign x y => if s.fd x ≠ none ∧ s.fd y ≠ none then some (s.moveAssign x y) else none
  | .close x => if s.fd x ≠ none then some (s.close x) else none
  | .destroy x => if s.fd x ≠ none then some (s.destroy x) else none

/-- The kernel gives no descriptor that is open: a call that returns one returns one that was not
obtained before, or was closed since. -/
def Fresh (s : Sockets α) : SocketOp α → Prop
  | .createTcp _ result => 0 ≤ result → ¬ Outstanding result s.calls
  | .accept _ y result => s.isValid y = true ∧ 0 ≤ result → ¬ Outstanding result s.calls
  | _ => True

instance (s : Sockets α) (op : SocketOp α) : Decidable (s.Fresh op) :=
  match op with
  | .createTcp _ _ => inferInstanceAs (Decidable (_ → _))
  | .accept _ _ _ => inferInstanceAs (Decidable (_ → _))
  | .default _ | .moveConstruct _ _ | .moveAssign _ _ | .close _ | .destroy _ => .isTrue trivial

end Sockets
end Streamer

import Streamer.Lib.Machine
import Streamer.Socket

/-!
# One direction of a connection

`send_all` at one end, `recv_all` at the other, any number of calls at each. A step is the start of a
call or one system call of it, so the two loops go on in any order, each at its own pace
(`src/Socket.cpp`). Every call keeps the answers that the kernel has given it.
-/

namespace Streamer
open Text Kernel

/-- A call of `send_all`; an invalid socket makes no system call. -/
structure SendCall where
  data : Bytes
  valid : Bool
  totalSent : Nat := 0
  answers : List Answer := []
deriving DecidableEq, Repr

/-- The bytes that the kernel has accepted in the call. -/
def SendCall.accepted (call : SendCall) : Bytes := call.data.take call.totalSent

/-- A call of `recv_all` and what it has stored in the buffer. -/
structure RecvCall where
  length : Nat
  valid : Bool
  stored : Bytes := []
  answers : List Answer := []
deriving DecidableEq, Repr

/-- The end of the connection that sends: its call under way, and the calls that have returned. -/
structure Sender where
  fd : Int
  calling : Option SendCall := none
  returned : List (SendCall × Bool) := []
deriving DecidableEq, Repr

namespace Sender

def ret (s : Sender) (call : SendCall) (ok : Bool) : Sender :=
  { s with calling := none, returned := s.returned ++ [(call, ok)] }

/-- `while (total_sent < length)`. -/
def test (s : Sender) (call : SendCall) : Sender :=
  if call.totalSent < call.data.length then { s with calling := some call } else s.ret call true

/-- `send_all` up to its first system call. -/
def sendAll (s : Sender) (data : Bytes) : Option Sender :=
  if s.calling.isSome then none
  else if 0 ≤ s.fd then some (s.test { data := data, valid := true })
  else some (s.ret { data := data, valid := false } false)

/-- The body of the loop: the bytes that the kernel takes, and the sender at its next system call. -/
def send (s : Sender) (a : Answer) : Option (Bytes × Sender) :=
  match s.calling with
  | none => none
  | some call =>
    let call := { call with answers := call.answers ++ [a] }
    match a with
    | .fails e =>
      if e = .EINTR then some ([], s.test call)  -- interrupted by signal, retry
      else some ([], s.ret call false)
    | .moves k =>
      let bytes := min k (call.data.length - call.totalSent)
      if bytes = 0 then some ([], s.ret call false)  -- connection closed
      else some ((call.data.drop call.totalSent).take bytes,
        s.test { call with totalSent := call.totalSent + bytes })

def close (s : Sender) : Option Sender := if s.calling.isSome then none else some { s with fd := -1 }

def calls (s : Sender) : List SendCall := s.returned.map Prod.fst ++ s.calling.toList

/-- All that the kernel has accepted. -/
def stream (s : Sender) : Bytes := s.calls.flatMap SendCall.accepted

end Sender

/-- The end of the connection that receives. -/
structure Receiver where
  fd : Int
  calling : Option RecvCall := none
  returned : List (RecvCall × Int) := []
deriving DecidableEq, Repr

namespace Receiver

def ret (r : Receiver) (call : RecvCall) (result : Int) : Receiver :=
  { r with calling := none, returned := r.returned ++ [(call, result)] }

/-- `while (total_recv < length)`. -/
def test (r : Receiver) (call : RecvCall) : Receiver :=
  if call.stored.length < call.length then { r with calling := some call } else r.ret call 1

/-- `recv_all` up to its first system call. -/
def recvAll (r : Receiver) (length : Nat) : Option Receiver :=
  if r.calling.isSome then none
  else if 0 ≤ r.fd then some (r.test { length := length, valid := true })
  else some (r.ret { length := length, valid := false } (-1))

/-- The body of the loop: the receiver at its next system call, and the bytes left unread. The answer
that the call keeps is what `::recv` returns. -/
def recv (r : Receiver) (fin : Bool) (inbox : Bytes) (a : Answer) : Option (Receiver × Bytes) :=
  match r.calling with
  | none => none
  | some call =>
    match Kernel.recv (call.length - call.stored.length) fin inbox a with
    | .error e =>
      let call := { call with answers := call.answers ++ [.fails e] }
      if e = .EINTR then some (r.test call, inbox) else some (r.ret call (-1), inbox)
    | .ok chunk =>
      let call := { call with
        stored := call.stored ++ chunk
        answers := call.answers ++ [.moves chunk.length] }
      if chunk = [] then some (r.ret call 0, inbox)  -- peer closed the socket cleanly
      else some (r.test call, inbox.drop chunk.length)

def close (r : Receiver) : Option Receiver := if r.calling.isSome then none else some { r with fd := -1 }

def calls (r : Receiver) : List RecvCall := r.returned.map Prod.fst ++ r.calling.toList

/-- All that has been read. -/
def taken (r : Receiver) : Bytes := r.calls.flatMap RecvCall.stored

end Receiver

structure Connection where
  sender : Sender
  receiver : Receiver
  /-- What the kernel has accepted and the receiver has not read. -/
  inbox : Bytes := []
  /-- The sender has ended its stream. -/
  fin : Bool := false
deriving DecidableEq, Repr

namespace Connection

inductive Label where
  | sendAll (data : Bytes)
  | send (a : Answer)
  | recvAll (length : Nat)
  | recv (a : Answer)
  | shutdown | closeSender | closeReceiver
deriving DecidableEq, Repr

def step (c : Connection) : Label → Option Connection
  | .sendAll data => (c.sender.sendAll data).map fun s => { c with sender := s }
  | .send a =>
    match c.sender.send a with
    | none => none
    | some (bytes, s) =>
      -- after a shutdown the kernel takes no more bytes
      if c.fin ∧ bytes ≠ [] then none else some { c with sender := s, inbox := c.inbox ++ bytes }
  | .recvAll length => (c.receiver.recvAll length).map fun r => { c with receiver := r }
  | .recv a =>
    (c.receiver.recv c.fin c.inbox a).map fun (r, inbox) => { c with receiver := r, inbox := inbox }
  | .shutdown => some { c with fin := true }
  | .closeSender => c.sender.close.map fun s => { c with sender := s, fin := true }
  | .closeReceiver => c.receiver.close.map fun r => { c with receiver := r }

/-- Before the first call, with the descriptors of the two ends. -/
def opened (senderFd receiverFd : Int) : Connection :=
  { sender := { fd := senderFd }, receiver := { fd := receiverFd } }

end Connection
end Streamer

import Streamer.Server

/-!
# Several servers in one process

`running_instance_` is one static pointer for all `Server` objects of a process. Here a call is
one step: a `start()` has come to its accept loop or has returned false at the place that
`StartOutcome` names, a `stop()` has returned. Objects are numbered by construction; a number
whose object was destroyed is what a dangling pointer holds.
-/

namespace Streamer

inductive StartOutcome where
  | initFails | socketFails | bindFails | listenFails | runs
deriving DecidableEq, Repr

/-- `start()` returns false after its store to `running_instance_`. -/
def StartOutcome.failsLate : StartOutcome → Bool
  | .socketFails | .bindFails | .listenFails => true
  | _ => false

structure ServerObject where
  alive : Bool := true
  isRunning : Bool := false
deriving DecidableEq, Repr

structure Process where
  servers : List ServerObject := []
  runningInstance : Option Nat := none
deriving DecidableEq, Repr

inductive Operation where
  | construct
  | start (i : Nat) (outcome : StartOutcome)
  | stop (i : Nat)
  | destroy (i : Nat)
deriving DecidableEq, Repr

inductive SignalEffect where
  | ignored
  | stops (i : Nat)
  /-- `stop()` is called on an object that is no more. -/
  | dangling
deriving DecidableEq, Repr

namespace Process

def alive (p : Process) (i : Nat) : Bool := (p.servers[i]?.map (·.alive)).getD false

def running (p : Process) (i : Nat) : Bool := (p.servers[i]?.map (·.isRunning)).getD false

def start (p : Process) (i : Nat) : StartOutcome → Process
  | .initFails => p
  | .socketFails | .bindFails | .listenFails => { p with runningInstance := some i }
  | .runs => { servers := p.servers.modify i ({ · with isRunning := true }), runningInstance := some i }

def stop (p : Process) (i : Nat) : Process :=
  if p.running i then
    { servers := p.servers.modify i ({ · with isRunning := false }), runningInstance := none }
  else p

/-- The destructor stops the server first. -/
def destroy (p : Process) (i : Nat) : Process :=
  { p.stop i with servers := (p.stop i).servers.modify i ({ · with alive := false }) }

def step (p : Process) : Operation → Option Process
  | .construct => some { p with servers := p.servers ++ [{}] }
  | .start i outcome => if p.alive i then some (p.start i outcome) else none
  | .stop i => if p.alive i then some (p.stop i) else none
  | .destroy i => if p.alive i then some (p.destroy i) else none

/-- What `handle_signal` does with the pointer it loads. -/
def handleSignal (p : Process) : SignalEffect :=
  match p.runningInstance with
  | none => .ignored
  | some i => if p.alive i then .stops i else .dangling

end Process
end Streamer

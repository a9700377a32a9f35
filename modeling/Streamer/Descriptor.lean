import Streamer.Server

/-!
# The descriptor of a session

`fd_` is a plain `int` that two threads use: the worker in `run()`, and the thread that ends the
session (`Server::stop()` or `cleanup_finished_sessions()`, and then the destructors). A step is
one load of `fd_`, one store to it, one atomic operation on `is_active_` or one system call. In
between the number of a closed descriptor can be given to another owner.
-/

namespace Streamer

inductive SysCall where
  | recv | send | shutdown | close
deriving DecidableEq, Repr

/-- Inside a call on the `Socket`: the test of `fd_`, the load for the argument, the system call
on the loaded value (`true` is the descriptor of the session, `false` is `-1`), and `fd_ = -1` at
the end of `close()`. -/
inductive IoPc where
  | check | load | call (fd : Bool) | store
deriving DecidableEq, Repr

inductive WorkerPc where
  | activate | loopTest | serve | deactivate
  | io (c : SysCall) (pc : IoPc)
  | exited
deriving DecidableEq, Repr

/-- `ClientSession::stop()` called by the server, the one in the destructor, and `~Socket()`. -/
inductive Stage where
  | stop | destructor | socket
deriving DecidableEq, Repr

inductive EnderPc where
  | idle
  | exchange (stage : Stage)
  | io (stage : Stage) (c : SysCall) (pc : IoPc)
  | join
  | destroyed
deriving DecidableEq, Repr

/-- Whose the number is. -/
inductive NumberState where
  | ours | free | other
deriving DecidableEq, Repr

structure Descriptor where
  /-- `fd_` holds the number; else it is `-1`. -/
  fd : Bool := true
  isActive : Bool := true
  number : NumberState := .ours
  /-- The calls of `::close` on the number that the session has made. -/
  closes : Nat := 0
  /-- A system call of the session went to the number when it had another owner. -/
  misused : Bool := false
  worker : WorkerPc := .activate
  ender : EnderPc := .idle
deriving DecidableEq, Repr

/-- How a call or a request goes on: another system call, a good end, a bad end. -/
inductive Turn where
  | more | done | fails
deriving DecidableEq, Repr

inductive FdLabel where
  | worker (turn : Turn)
  | ender (turn : Turn)
  /-- Another owner gets the free number, or gives it back. -/
  | takeNumber | releaseNumber
deriving DecidableEq, Repr

namespace Descriptor

/-- A system call; on `-1` it fails with `EBADF`. -/
def sysCall (s : Descriptor) (c : SysCall) (fd : Bool) : Descriptor :=
  if fd then
    let s := { s with misused := s.misused || decide (s.number = .other) }
    if c = .close then { s with closes := s.closes + 1, number := .free } else s
  else s

/-- A step inside a call on the `Socket`: where it goes on, `none` when the call has returned. -/
def ioStep (s : Descriptor) (c : SysCall) (turn : Turn) : IoPc → Descriptor × Option IoPc
  | .check => (s, if s.fd then some .load else none)
  | .load => (s, some (.call s.fd))
  | .call fd =>
    (s.sysCall c fd,
      match c with
      | .close => some .store
      | .shutdown => none
      | .recv | .send => if fd && turn = .more then some .load else none)
  | .store => ({ s with fd := false }, none)

/-- `recv_line` gives a line only where its last `recv` was made on a descriptor. -/
def gotLine (pc : IoPc) (turn : Turn) : Bool := decide (pc = .call true ∧ turn = .done)

/-- `run()`. What a request does is its sends and, at the end, perhaps a store to `is_active_`. -/
def workerStep (s : Descriptor) (turn : Turn) : Option Descriptor :=
  match s.worker with
  | .activate => some { s with worker := .loopTest, isActive := true }
  | .loopTest => some { s with worker := if s.isActive then .io .recv .check else .deactivate }
  | .serve =>
    match turn with
    | .more => some { s with worker := .io .send .check }
    | .done => some { s with worker := .loopTest }
    | .fails => some { s with worker := .loopTest, isActive := false }
  | .deactivate => some { s with worker := .io .close .check, isActive := false }
  | .io c pc =>
    match s.ioStep c turn pc with
    | (s, some pc) => some { s with worker := .io c pc }
    | (s, none) =>
      match c with
      | .recv => some { s with worker := if gotLine pc turn then .serve else .deactivate }
      | .send => some { s with worker := .serve }
      | .shutdown => none
      | .close => some { s with worker := .exited }
  | .exited => none

/-- What comes after a stage. -/
def Stage.next : Stage → EnderPc
  | .stop => .join
  | .destructor => .io .socket .close .check
  | .socket => .destroyed

/-- The thread that ends the session: `stop()`, or the reaping of a session that is not active any
more; then the join and the destructors. -/
def enderStep (s : Descriptor) (turn : Turn) : Option Descriptor :=
  match s.ender with
  | .idle =>
    if turn = .done then some { s with ender := .exchange .stop }
    else if s.isActive then some s else some { s with ender := .join }
  | .exchange stage =>
    if s.isActive then some { s with isActive := false, ender := .io stage .shutdown .check }
    else some { s with ender := Stage.next stage }
  | .io stage c pc =>
    match s.ioStep c turn pc with
    | (s, some pc) => some { s with ender := .io stage c pc }
    | (s, none) =>
      match c with
      | .shutdown => some { s with ender := .io stage .close .check }
      | .close => some { s with ender := Stage.next stage }
      | .recv | .send => none
  | .join => if s.worker = .exited then some { s with ender := .exchange .destructor } else none
  | .destroyed => none

def step (s : Descriptor) : FdLabel → Option Descriptor
  | .worker turn => s.workerStep turn
  | .ender turn => s.enderStep turn
  | .takeNumber => if s.number = .free then some { s with number := .other } else none
  | .releaseNumber => if s.number = .other then some { s with number := .free } else none

end Descriptor
end Streamer

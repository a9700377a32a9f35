import Streamer.Server

/-!
# Signals on the threads of the server

Each thread is a stack: the accept loop or `run()` at the bottom, above it the handlers that
interrupt it. Only the top of a stack moves. A handler blocks its own signal and no other, so
`SIGTERM` may interrupt the handler of `SIGINT`. A call of the logger is two steps, the lock and
the unlock of `Logger::mutex_`; everything else goes on as `Server.step` says, a handler as one
more caller of `stop()`.
-/

namespace Streamer

inductive ThreadId where
  | accept
  | worker (i : Nat)
deriving DecidableEq, Repr

inductive Signum where
  | SIGINT | SIGTERM
deriving DecidableEq, Repr

inductive Code where
  | base
  | handler (signum : Signum) (caller : Nat)
deriving DecidableEq, Repr

def Code.caller : Code → Option Nat
  | .base => none
  | .handler _ c => some c

def Code.signum : Code → Option Signum
  | .base => none
  | .handler signum _ => some signum

/-- Inside `log_string`: before the lock, and before the unlock. -/
inductive LogPc where
  | lock | unlock
deriving DecidableEq, Repr

structure Frame where
  code : Code
  log : Option LogPc := none
deriving DecidableEq, Repr

structure SignalledServer where
  server : Server := .new
  /-- Who holds `Logger::mutex_`. -/
  logger : Option ThreadId := none
  stack : ThreadId → List Frame := fun t => if t = .accept then [⟨.base, none⟩] else []
  /-- The threads to which the signals so far were delivered; the handler of the `c`-th is the
  caller `c`. -/
  delivered : List ThreadId := []

inductive SignalLabel where
  | signal (t : ThreadId) (signum : Signum)
  /-- The code at the bottom of the stack calls the logger. -/
  | log (t : ThreadId)
  /-- The top of the stack moves; `ok` and `outcome` are the results of calls that can fail. -/
  | move (t : ThreadId) (ok : Bool) (outcome : ServeOutcome)
deriving DecidableEq, Repr

/-- `start()`, `accept_loop()` and the calls on sockets in them may log here. -/
def StartPc.mayLog : StartPc → Bool
  | .init | .createTcp | .reuseAddress | .bind | .listen | .loopTest | .accept | .setTimeouts => true
  | _ => false

/-- `run()` and its handlers may log here. -/
def ThreadPc.mayLog : ThreadPc → Bool
  | .loopTest | .recvLine | .handle | .deactivate => true
  | _ => false

/-- `stop()` logs when it comes here; at `sessionShutdown` it is `ClientSession::stop()` that does. -/
def StopPc.logs : StopPc → Bool
  | .shutdown | .session 0 | .sessionShutdown _ | .workersUnlock => true
  | _ => false

def StartPc.isReturned : StartPc → Bool
  | .returned _ => true
  | _ => false

namespace SignalledServer

def new : SignalledServer := {}

def setStack (s : SignalledServer) (t : ThreadId) (fs : List Frame) : SignalledServer :=
  { s with stack := fun t' => if t' = t then fs else s.stack t' }

def mayLog (s : SignalledServer) : ThreadId → Bool
  | .accept => s.server.start.mayLog
  | .worker i => (s.server.sessions[i]?.map (·.thread.mayLog)).getD false

def baseStep (s : SignalledServer) (fs : List Frame) (ok : Bool) (outcome : ServeOutcome) :
    ThreadId → Option SignalledServer
  | .accept => (s.server.startStep ok).map fun server =>
    if s.server.start = .emplace then
      -- the thread of the session begins, and the number of sessions is logged under the lock
      ({ s with server := server }.setStack .accept (⟨.base, some .lock⟩ :: fs)).setStack
        (.worker (s.server.sessions.length - 1)) [⟨.base, none⟩]
    else { s with server := server }.setStack .accept
      (if server.start.isReturned then fs else ⟨.base, none⟩ :: fs)
  | .worker i => (s.server.step (.session i outcome)).map fun server =>
    { s with server := server }.setStack (.worker i)
      (if server.threadExited i then fs else ⟨.base, none⟩ :: fs)

/-- `handle_signal` after its log line: the load of `running_instance_`, and `stop()`. -/
def handlerStep (s : SignalledServer) (t : ThreadId) (fs : List Frame) (signum : Signum) (c : Nat) :
    Option SignalledServer :=
  match s.server.stops c with
  | .idle =>
    if s.server.runningInstance then (s.server.step (.signal c)).map fun server =>
      { s with server := server }
    else some (s.setStack t fs)
  | .returned _ => some (s.setStack t fs)
  | _ => (s.server.stopStep c).map fun server =>
    { s with server := server }.setStack t
      (⟨.handler signum c, if (server.stops c).logs then some .lock else none⟩ :: fs)

def step (s : SignalledServer) : SignalLabel → Option SignalledServer
  | .signal t signum =>
    if s.server.handlersInstalled ∧ s.stack t ≠ [] ∧ ∀ f ∈ s.stack t, f.code.signum ≠ some signum then
      some { s.setStack t (⟨.handler signum s.delivered.length, some .lock⟩ :: s.stack t) with
        delivered := s.delivered ++ [t] }
    else none
  | .log t =>
    match s.stack t with
    | ⟨.base, none⟩ :: fs => if s.mayLog t then some (s.setStack t (⟨.base, some .lock⟩ :: fs)) else none
    | _ => none
  | .move t ok outcome =>
    match s.stack t with
    | [] => none
    | ⟨code, some .lock⟩ :: fs =>
      if s.logger = none then some { s.setStack t (⟨code, some .unlock⟩ :: fs) with logger := some t }
      else none
    | ⟨code, some .unlock⟩ :: fs => some { s.setStack t (⟨code, none⟩ :: fs) with logger := none }
    | ⟨.base, none⟩ :: fs => s.baseStep fs ok outcome t
    | ⟨.handler signum c, none⟩ :: fs => s.handlerStep t fs signum c

/-! ### What a thread waits for -/

def waitsLogger (s : SignalledServer) (t : ThreadId) : Bool :=
  match s.stack t with
  | ⟨_, some .lock⟩ :: _ => true
  | _ => false

def waitsWorkers (s : SignalledServer) (t : ThreadId) : Bool :=
  match s.stack t with
  | ⟨.base, none⟩ :: _ => t = .accept && (s.server.start = .cleanupLock || s.server.start = .workersLock)
  | ⟨.handler _ c, none⟩ :: _ => s.server.stops c = .workersLock
  | _ => false

/-- The thread holds `workers_mutex_`: one of its frames has locked it. -/
def holdsWorkers (s : SignalledServer) (t : ThreadId) : Bool :=
  match s.server.mutex with
  | none => false
  | some .accept => t = .accept
  | some (.stop c) => (s.stack t).any (·.code.caller = some c)

/-- The session whose thread is joined. -/
def joins (s : SignalledServer) (t : ThreadId) : Option Nat :=
  match s.stack t with
  | ⟨.base, none⟩ :: _ =>
    match t, s.server.start with
    | .accept, .cleanupJoin k => s.server.workers[k]?
    | _, _ => none
  | ⟨.handler _ c, none⟩ :: _ =>
    match s.server.stops c with
    | .join k => s.server.workers[k]?
    | _ => none
  | _ => none

end SignalledServer
end Streamer

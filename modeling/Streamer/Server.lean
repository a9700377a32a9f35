import Streamer.Lib.Machine

/-!
# `Server` (`src/Server.cpp`)

One `Server` object as a machine: the thread that runs `start()` and the accept loop, the session
threads, and any number of callers of `stop()` (other threads, the destructor, the signal
handler). A step is one atomic operation, one system call, one lock or unlock, or one operation on
`workers_` under the lock; a lock is taken only when it is free, a join goes on only when the
thread has ended. A `Label` says who moves and how a call that can fail turns out.

Sessions are numbered by creation. A session thread is kept as far as the server can see it: the
loads and stores of `is_active_`, and whether its connection still works.
-/

namespace Streamer

/-- Where `start()` stands: the step that comes next. -/
inductive StartPc where
  | init | publish | handlers | createTcp | reuseAddress | bind | listen | setRunning
  | loopTest | accept | recheck
  | setTimeouts | makeSession
  | cleanupLock | cleanup (i : Nat) | cleanupJoin (i : Nat)
  | workersLock | emplace | workersUnlock
  | returned (ok : Bool)
deriving DecidableEq, Repr

/-- Where a call of `stop()` stands. `returned won` tells the call that did the shutdown from one that
found nothing to do. -/
inductive StopPc where
  | idle | exchange
  | shutdown | close | workersLock
  | session (i : Nat) | sessionShutdown (i : Nat) | sessionClose (i : Nat)
  | join (i : Nat) | clear | clearInstance | workersUnlock
  | returned (won : Bool)
deriving DecidableEq, Repr

inductive ThreadPc where
  | none | activate | loopTest | recvLine | handle | deactivate | close | exited
deriving DecidableEq, Repr

inductive ListenState where
  | none | created | bound | listening | shut | closed
deriving DecidableEq, Repr

inductive Holder where
  | accept
  | stop (caller : Nat)
deriving DecidableEq, Repr

structure SessionWorker where
  isActive : Bool := true
  /-- The connection has been neither shut down nor closed on this side. -/
  connected : Bool := true
  thread : ThreadPc := .none
  joined : Bool := false
deriving DecidableEq, Repr

structure Server where
  start : StartPc := .init
  isRunning : Bool := false
  /-- `running_instance_` points to this server. -/
  runningInstance : Bool := false
  handlersInstalled : Bool := false
  listenState : ListenState := .none
  mutex : Option Holder := none
  sessions : List SessionWorker := []
  /-- `workers_`: the numbers of its sessions. -/
  workers : List Nat := []
  stops : Nat → StopPc := fun _ => .idle
  /-- `start()` has stored `running_instance_`. -/
  published : Bool := false
  /-- The call was made after that. -/
  afterPublish : Nat → Bool := fun _ => false
  accepted : Nat := 0

/-- How a turn of a session thread turns out: a request is read and served, it makes the session
inactive (`QUIT`, a failed send), or there is none (`recv_line` fails). -/
inductive ServeOutcome where
  | served | ends | gone
deriving DecidableEq, Repr

inductive Label where
  /-- The thread in `start()` moves; `ok` is the result of a call that can fail. -/
  | start (ok : Bool)
  | session (i : Nat) (outcome : ServeOutcome)
  | call (caller : Nat)
  /-- `handle_signal` is called for `SIGINT` or `SIGTERM`. Its `stop()` goes on as a caller of its own; that
  the thread below the handler stands still meanwhile is in `Signals`. -/
  | signal (caller : Nat)
  | stop (caller : Nat)
deriving DecidableEq, Repr

namespace Server

def setStop (s : Server) (c : Nat) (pc : StopPc) : Server :=
  { s with stops := fun c' => if c' = c then pc else s.stops c' }

def modifySession (s : Server) (i : Nat) (f : SessionWorker → SessionWorker) : Server :=
  { s with sessions := s.sessions.modify i f }

def sessionActive (s : Server) (i : Nat) : Bool := (s.sessions[i]?.map (·.isActive)).getD false

def threadExited (s : Server) (i : Nat) : Bool := (s.sessions[i]?.map (·.thread)) == some .exited

/-- `start()` and `accept_loop()`, with `cleanup_finished_sessions()`. -/
def startStep (s : Server) (ok : Bool) : Option Server :=
  match s.start with
  | .init => some { s with start := if ok then .publish else .returned false }
  | .publish => some { s with start := .handlers, runningInstance := true, published := true }
  | .handlers => some { s with start := .createTcp, handlersInstalled := true }
  | .createTcp =>
    if ok then some { s with start := .reuseAddress, listenState := .created }
    else some { s with start := .returned false }
  | .reuseAddress => some { s with start := .bind }
  | .bind =>
    if ok then some { s with start := .listen, listenState := .bound }
    else some { s with start := .returned false, listenState := .closed }
  | .listen =>
    if ok then some { s with start := .setRunning, listenState := .listening }
    else some { s with start := .returned false, listenState := .closed }
  | .setRunning => some { s with start := .loopTest, isRunning := true }
  | .loopTest => some { s with start := if s.isRunning then .accept else .returned true }
  | .accept =>
    if ok then
      -- a socket that was shut down or closed gives no connection
      if s.listenState = .listening then
        some { s with start := .setTimeouts, accepted := s.accepted + 1 }
      else none
    else some { s with start := .recheck }
  | .recheck => some { s with start := if s.isRunning then .loopTest else .returned true }
  | .setTimeouts => some { s with start := .makeSession }
  | .makeSession => some { s with start := .cleanupLock, sessions := s.sessions ++ [{}] }
  | .cleanupLock =>
    if s.mutex = none then some { s with start := .cleanup 0, mutex := some .accept } else none
  | .cleanup i =>
    match s.workers[i]? with
    | none => some { s with start := .workersLock, mutex := none }
    | some w => some { s with start := if s.sessionActive w then .cleanup (i + 1) else .cleanupJoin i }
  | .cleanupJoin i =>
    match s.workers[i]? with
    | none => none
    | some w =>
      if s.threadExited w then
        some { s.modifySession w ({ · with joined := true }) with
          start := .cleanup i, workers := s.workers.eraseIdx i }
      else none
  | .workersLock =>
    if s.mutex = none then some { s with start := .emplace, mutex := some .accept } else none
  | .emplace =>
    -- the session made last is the one that is not yet registered
    some { s.modifySession (s.sessions.length - 1) ({ · with thread := .activate }) with
      start := .workersUnlock, workers := s.workers ++ [s.sessions.length - 1] }
  | .workersUnlock => some { s with start := .loopTest, mutex := none }
  | .returned _ => none

/-- `stop()`, with `ClientSession::stop()` for each session. -/
def stopStep (s : Server) (c : Nat) : Option Server :=
  match s.stops c with
  | .idle => none
  | .exchange =>
    if s.isRunning then some ({ s with isRunning := false }.setStop c .shutdown)
    else some (s.setStop c (.returned false))
  | .shutdown => some ({ s with listenState := .shut }.setStop c .close)
  | .close => some ({ s with listenState := .closed }.setStop c .workersLock)
  | .workersLock =>
    if s.mutex = none then some ({ s with mutex := some (.stop c) }.setStop c (.session 0)) else none
  | .session i =>
    match s.workers[i]? with
    | none => some (s.setStop c (.join 0))
    | some w =>
      if s.sessionActive w then
        some ((s.modifySession w ({ · with isActive := false })).setStop c (.sessionShutdown i))
      else some (s.setStop c (.session (i + 1)))
  | .sessionShutdown i =>
    some ((match s.workers[i]? with
      | none => s
      | some w => s.modifySession w ({ · with connected := false })).setStop c (.sessionClose i))
  | .sessionClose i => some (s.setStop c (.session (i + 1)))
  | .join i =>
    match s.workers[i]? with
    | none => some (s.setStop c .clear)
    | some w =>
      if s.threadExited w then
        some ((s.modifySession w ({ · with joined := true })).setStop c (.join (i + 1)))
      else none
  | .clear => some ({ s with workers := [] }.setStop c .clearInstance)
  | .clearInstance => some ({ s with runningInstance := false }.setStop c .workersUnlock)
  | .workersUnlock => some ({ s with mutex := none }.setStop c (.returned true))
  | .returned _ => none

def serveStep (x : SessionWorker) (outcome : ServeOutcome) : Option SessionWorker :=
  match x.thread with
  | .none => none
  | .activate => some { x with thread := .loopTest, isActive := true }
  | .loopTest => some { x with thread := if x.isActive then .recvLine else .deactivate }
  | .recvLine =>
    if outcome = .gone then some { x with thread := .deactivate }
    else if x.connected then some { x with thread := .handle }
    else none
  | .handle =>
    some { x with thread := .loopTest, isActive := if outcome = .ends then false else x.isActive }
  | .deactivate => some { x with thread := .close, isActive := false }
  | .close => some { x with thread := .exited, connected := false }
  | .exited => none

def step (s : Server) : Label → Option Server
  | .start ok => s.startStep ok
  | .session i outcome =>
    (s.sessions[i]?.bind (serveStep · outcome)).map fun x => s.modifySession i fun _ => x
  | .call c =>
    if s.stops c = .idle then
      some { s.setStop c .exchange with
        afterPublish := fun c' => if c' = c then s.published else s.afterPublish c' }
    else none
  | .signal c =>
    if s.handlersInstalled ∧ s.stops c = .idle then
      if s.runningInstance then
        some { s.setStop c .exchange with
          afterPublish := fun c' => if c' = c then s.published else s.afterPublish c' }
      else some s
    else none
  | .stop c => s.stopStep c

def new : Server := {}

end Server
end Streamer

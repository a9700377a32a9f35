import Streamer.Server
import Streamer.Worker

/-!
# A server with what its sessions do

`Server` sees of a session its flag and where its thread stands. Here every session thread is a
`Worker` of its own, and the thread in `start()` goes on as `Server.startStep` says; nobody calls
`stop()`. An exception that leaves `run()` or `accept_loop()` finds no handler: the process is
`terminated` and nothing moves any more. What the threads log is left out, and with it the lock of the
logger, which each of them takes for a line and gives back (`Logger.lean`).
-/

namespace Streamer
open Text Kernel Filesystem

/-- How the calls on the media directory turn out for one session, by their number: the file
system that the call sees, what the directory iteration gives (nothing where it cannot be opened),
the stream that is opened. -/
structure MediaCalls where
  fs : Nat → FileSystem
  iteration : Nat → List (Except Exn DirEntry)
  stream : Nat → Bytes → Option FileStream

def FileManager.mediaOf (fm : FileManager) (calls : MediaCalls) : Media where
  listFiles n := fm.listFilesFrom (calls.fs n) (calls.iteration n)
  getFileSize n := fm.getFileSize (calls.fs n)
  openBinaryFile n filename := (fm.resolveSafePath (calls.fs n) filename).bind fun _ =>
    calls.stream n filename

/-- Where the server sees the thread. -/
def SessionPc.thread : SessionPc → ThreadPc
  | .activate => .activate
  | .loopTest => .loopTest
  | .recvLine | .recv _ => .recvLine
  | .deactivate => .deactivate
  | .close => .close
  | .exited => .exited
  | _ => .handle

def SessionPc.isThrown : SessionPc → Bool
  | .thrown _ => true
  | _ => false

/-- What a session is built with may differ from call to call: the memory that is left for the
buffer does. -/
def Worker.stepAt (cfg : Nat → ClientSession.Config) (w : Worker) : Option Worker :=
  step (cfg w.session.clock) w

def SessionWorker.see (x : SessionWorker) (w : Worker) : SessionWorker :=
  { x with isActive := w.session.isActive, connected := w.session.socket.isValid, thread := w.pc.thread }

structure LiveServer where
  server : Server := .new
  sessions : List Worker := []
  /-- `client_sock`, from `accept` to the making of its session. -/
  clientSock : Option Socket := none
  /-- How often the thread of a session has been joined. -/
  joins : Nat → Nat := fun _ => 0
  terminated : Bool := false

inductive LiveLabel where
  /-- The thread in `start()` moves; `ok` is the result of a call that can fail, but for `accept`. -/
  | start (ok : Bool)
  /-- `accept` gives a connection: what the client sends on it, and how the calls on it turn out. -/
  | accept (client : Socket)
  | session (i : Nat)
deriving DecidableEq, Repr

namespace LiveServer

def new : LiveServer := {}

def startStep (s : LiveServer) (ok : Bool) : Option LiveServer :=
  match s.server.start with
  | .accept =>
    if ok then none
    else (s.server.startStep false).map fun server => { s with server := server }
  | .makeSession =>
    match s.clientSock with
    | none => none
    | some client =>
      (s.server.startStep ok).map fun server =>
        { s with server := server, sessions := s.sessions ++ [.new client], clientSock := none }
  | .cleanupJoin i =>
    (s.server.startStep ok).map fun server =>
      { s with
        server := server
        joins := fun w => if s.server.workers[i]? = some w then s.joins w + 1 else s.joins w }
  | .emplace =>
    -- the constructor of `std::thread` throws
    if ok then (s.server.startStep ok).map fun server => { s with server := server }
    else some { s with terminated := true }
  | _ => (s.server.startStep ok).map fun server => { s with server := server }

def acceptStep (s : LiveServer) (client : Socket) : Option LiveServer :=
  if s.server.start = .accept ∧ client.isValid = true then
    (s.server.startStep true).map fun server => { s with server := server, clientSock := some client }
  else none

def started (s : LiveServer) (i : Nat) : Bool :=
  (s.server.sessions[i]?.map (·.thread != .none)).getD false

variable (cfg : Nat → Nat → ClientSession.Config)

def sessionStep (s : LiveServer) (i : Nat) : Option LiveServer :=
  if s.started i then
    (s.sessions[i]?.bind (Worker.stepAt (cfg i))).map fun w =>
      { s with
        server := s.server.modifySession i (·.see w)
        sessions := s.sessions.set i w
        terminated := w.pc.isThrown }
  else none

def step (s : LiveServer) (l : LiveLabel) : Option LiveServer :=
  if s.terminated then none
  else match l with
    | .start ok => s.startStep ok
    | .accept client => s.acceptStep client
    | .session i => s.sessionStep cfg i

end LiveServer
end Streamer

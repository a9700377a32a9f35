import Streamer.ClientSession

/-!
# A session thread, step by step

`run()` as the steps of its thread: one system call, one call on the `FileManager`, one load or
store of `is_active_`, the allocation of the buffer. `ClientSession.run` is what these steps come
to when nobody stops the session (`Proofs/WorkerRun.lean`). An exception that leaves `run()` ends
in `thrown`. The calls of the logger are no steps here.
-/

namespace Streamer
open Text Kernel Filesystem

/-- The local variables of the loop in `handle_get`. -/
structure Transfer where
  file : FileStream
  fileSize : Nat
  nth : Nat := 0
  totalSent : Nat := 0
  good : Bool := true

/-- What follows a send: the result is not looked at (`ERROR` lines, `BYE`), or a failure makes
the session inactive. -/
inductive AfterSend where
  | loop | quit | list
  | header (file : FileStream) (fileSize : Nat)
  | chunk (t : Transfer)

inductive SessionPc where
  | activate | loopTest
  /-- `recv_line`: its test of the socket, and its loop with `line` read so far. -/
  | recvLine
  | recv (line : Bytes)
  | dispatch (line : Bytes)
  | listFiles
  | getFileSize (filename : Bytes)
  | openBinaryFile (filename : Bytes) (fileSize : Nat)
  /-- `send_all`: its test of the socket, and its loop with `total` bytes sent. -/
  | sendAll (site : Site) (data : Bytes) (after : AfterSend)
  | send (site : Site) (data : Bytes) (total : Nat) (after : AfterSend)
  | allocate (file : FileStream) (fileSize : Nat)
  | streamTest (t : Transfer)
  | read (t : Transfer)
  | endTransfer (t : Transfer)
  /-- `is_active_ = false` in a handler. -/
  | setInactive
  | deactivate | close
  | exited
  | thrown (x : Exn)

def AfterSend.next (ok : Bool) : AfterSend → SessionPc
  | .loop => .loopTest
  | .quit => .setInactive
  | .list => if ok then .loopTest else .setInactive
  | .header file fileSize => if ok then .allocate file fileSize else .setInactive
  | .chunk t => if ok then .streamTest t else .setInactive

structure Worker where
  session : ClientSession
  pc : SessionPc

namespace Worker

def new (socket : Socket) : Worker := ⟨.new socket, .activate⟩

def sendError (site : Site) (message : Bytes) : SessionPc :=
  .sendAll site (Protocol.buildErrorResponse message) .loop

/-- The switch of `run()`. -/
def dispatch (r : Request) : SessionPc :=
  match r.type with
  | .LIST => .listFiles
  | .GET =>
    if r.argument.isEmpty then sendError .emptyFilename (ascii "EMPTY_FILENAME")
    else .getFileSize r.argument
  | .QUIT => .sendAll .bye (Protocol.buildOkResponse (ascii "BYE")) .quit
  | .UNKNOWN => sendError .invalidRequest (ascii "INVALID_REQUEST")

/-- One `recv` of `recv_line`. -/
def recvStep (s : ClientSession) (line : Bytes) : Worker :=
  match s.socket.recvs with
  | [] => ⟨s.emit .recvLine, .deactivate⟩
  | a :: sched =>
    if line.length < 4096 then
      let rest : ClientSession := { s with socket := { s.socket with recvs := sched } }
      match Kernel.recv 1 s.socket.fin s.socket.inbox a with
      | .error e => if e = .EINTR then ⟨rest, .recv line⟩ else ⟨rest.emit .recvLine, .deactivate⟩
      | .ok [] => ⟨rest.emit .recvLine, if line.isEmpty then .deactivate else .dispatch line⟩
      | .ok (ch :: _) =>
        let rest : ClientSession :=
          { s with socket := { s.socket with recvs := sched, inbox := s.socket.inbox.tail } }
        if ch = newline then ⟨rest.emit .recvLine, .dispatch (dropCr line)⟩
        else ⟨rest, .recv (line ++ [ch])⟩
    else ⟨s.emit .recvLine, .deactivate⟩

/-- One `send` of `send_all`. -/
def sendStep (s : ClientSession) (site : Site) (data : Bytes) (total : Nat) (after : AfterSend) :
    Worker :=
  let returns (s : ClientSession) (ok : Bool) : Worker :=
    ⟨s.emit (.send site data (data.take total) ok), after.next ok⟩
  match s.socket.sends with
  | [] => returns s (decide (data.length ≤ total))
  | a :: sched =>
    if total < data.length then
      let rest : ClientSession := { s with socket := { s.socket with sends := sched } }
      match a with
      | .fails e => if e = .EINTR then ⟨rest, .send site data total after⟩ else returns rest false
      | .moves k =>
        let bytes := min k (data.length - total)
        if bytes = 0 then returns rest false
        else
          ⟨{ rest with socket := { rest.socket with sent := s.socket.sent ++ (data.drop total).take bytes } },
            .send site data (total + bytes) after⟩
    else returns s true

/-- A step of the thread; `none` when `run()` is over. -/
def step (cfg : ClientSession.Config) (w : Worker) : Option Worker :=
  let s := w.session
  match w.pc with
  | .activate => some ⟨{ s with isActive := true }, .loopTest⟩
  | .loopTest => some ⟨s, if s.isActive then .recvLine else .deactivate⟩
  | .recvLine => if s.socket.isValid then some ⟨s, .recv []⟩ else some ⟨s.emit .recvLine, .deactivate⟩
  | .recv line => some (recvStep s line)
  | .dispatch line =>
    let r := Protocol.parseRequest line
    some ⟨s.emit (.request r), dispatch r⟩
  | .listFiles =>
    match cfg.fileManager.listFiles s.clock with
    | .error x => some ⟨s.tick, .thrown x⟩
    | .ok files => some ⟨s.tick, .sendAll .list (Protocol.buildListResponse files) .list⟩
  | .getFileSize filename =>
    match cfg.fileManager.getFileSize s.clock filename with
    | none => some ⟨s.tick, sendError .fileNotFound (ascii "FILE_NOT_FOUND")⟩
    | some size => some ⟨s.tick, .openBinaryFile filename size.toNat⟩
  | .openBinaryFile filename fileSize =>
    match cfg.fileManager.openBinaryFile s.clock filename with
    | none => some ⟨s.tick, sendError .fileOpenFailed (ascii "FILE_OPEN_FAILED")⟩
    | some file =>
      some ⟨s.tick, .sendAll (.header fileSize) (Protocol.buildGetHeader fileSize) (.header file fileSize)⟩
  | .sendAll site data after =>
    if s.socket.isValid then some ⟨s, .send site data 0 after⟩
    else some ⟨s.emit (.send site data [] false), after.next false⟩
  | .send site data total after => some (sendStep s site data total after)
  | .allocate file fileSize =>
    match cfg.allocate with
    | some x => some ⟨s, .thrown x⟩
    | none => some ⟨s, .streamTest { file := file, fileSize := fileSize }⟩
  | .streamTest t =>
    some ⟨s,
      if s.isActive && decide (t.totalSent < t.fileSize) && t.good then .read t else .endTransfer t⟩
  | .read t =>
    let bytesToRead := min cfg.chunkSize (t.fileSize - t.totalSent)
    let buffer := t.file.read t.nth t.totalSent bytesToRead
    let t' := { t with
      nth := t.nth + 1
      totalSent := (t.totalSent + buffer.length) % 2 ^ 64
      good := buffer.length == bytesToRead }
    some ⟨s.emit (.read bytesToRead buffer),
      if buffer.isEmpty then .endTransfer t else .sendAll .chunk buffer (.chunk t')⟩
  | .endTransfer t =>
    if t.totalSent = t.fileSize then some ⟨s.emit (.successful t.totalSent), .loopTest⟩
    else some ⟨if s.isActive then s.emit (.premature t.totalSent t.fileSize) else s, .loopTest⟩
  | .setInactive => some ⟨{ s with isActive := false }, .loopTest⟩
  | .deactivate => some ⟨{ s with isActive := false }, .close⟩
  | .close => some ⟨{ s with socket := s.socket.close }, .exited⟩
  | .exited | .thrown _ => none

end Worker
end Streamer

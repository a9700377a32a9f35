import Streamer.FileManager
import Streamer.Protocol
import Streamer.Socket

/-!
# `ClientSession` (`src/ClientSession.cpp`)

`run` reads request lines and answers them until the peer goes away, a `QUIT` comes or the session is
stopped. What surrounds a session is a parameter: the answers of the kernel are in the socket, the
media files are a `Media` (every look at them is a separate call, so they may change between two
looks), `stops` says at which loads of `is_active_` another thread's `stop` has come in between.

An exception that leaves a handler is the first component of its result. `trace` records what the
session does: the results about sends, reads and log lines are results about it.
-/

namespace Streamer
open Text Kernel Filesystem

/-- An open `std::ifstream`: what its `nth` read gives when `pos` bytes have been read before and
`len` bytes are asked for. A read that gives less leaves the stream not `good()`. -/
structure FileStream where
  read : (nth pos len : Nat) → Bytes
  read_le : ∀ nth pos len, (read nth pos len).length ≤ len

def FileStream.ofContent (content : Bytes) : FileStream where
  read _ pos len := (content.drop pos).take len
  read_le _ _ _ := List.length_take_le _ _

/-- The calls of a session on its `FileManager`, numbered in the order in which they are made. -/
structure Media where
  listFiles : Nat → Except Exn (List MediaFileInfo)
  getFileSize : Nat → Bytes → Option UInt64
  openBinaryFile : Nat → Bytes → Option FileStream

/-- The media directory of an unchanging file system. -/
def FileManager.media (fm : FileManager) (fs : FileSystem) : Media where
  listFiles _ := fm.listFiles fs
  getFileSize _ := fm.getFileSize fs
  openBinaryFile _ filename := (fm.openBinaryFile fs filename).map .ofContent

inductive Site where
  | list | emptyFilename | fileNotFound | fileOpenFailed
  | header (fileSize : Nat)
  | chunk | bye | invalidRequest
deriving DecidableEq, Repr

inductive Event where
  /-- `recv_line` is called for the next request. -/
  | recvLine
  | request (r : Request)
  /-- `send_all(data)` returned `ok`; the kernel took `accepted`. -/
  | send (site : Site) (data accepted : Bytes) (ok : Bool)
  | read (asked : Nat) (got : Bytes)
  | successful (totalSent : Nat)
  | premature (totalSent fileSize : Nat)
deriving DecidableEq, Repr

structure ClientSession where
  socket : Socket
  isActive : Bool
  /-- For the coming loads of `is_active_`: has another thread called `stop` since the last one? -/
  stops : List Bool
  clock : Nat
  trace : List Event
deriving DecidableEq, Repr

namespace ClientSession

/-- What a session is built with. `memory` bounds the buffer that can be allocated. -/
structure Config where
  fileManager : Media
  chunkSize : Nat
  memory : Nat
  chunk_pos : 0 < chunkSize

/-- The `chunk_size_` of the constructor. -/
def Config.new (fileManager : Media) (chunkSize memory : Nat) : Config where
  fileManager := fileManager
  chunkSize := if 0 < chunkSize then chunkSize else DEFAULT_CHUNK_SIZE
  memory := memory
  chunk_pos := by split <;> [assumption; decide]

def new (socket : Socket) (stops : List Bool := []) : ClientSession := ⟨socket, true, stops, 0, []⟩

def emit (s : ClientSession) (e : Event) : ClientSession := { s with trace := s.trace ++ [e] }

def tick (s : ClientSession) : ClientSession := { s with clock := s.clock + 1 }

def stop (s : ClientSession) : ClientSession :=
  if s.isActive then { s with isActive := false, socket := s.socket.close } else s

def loadActive (s : ClientSession) : Bool × ClientSession :=
  match s.stops with
  | [] => (s.isActive, s)
  | stopped :: stops =>
    let s := { s with stops := stops }
    let s := if stopped then s.stop else s
    (s.isActive, s)

def send (s : ClientSession) (site : Site) (data : Bytes) : Bool × ClientSession :=
  let (r, socket) := s.socket.sendAll data
  let accepted := socket.sent.drop s.socket.sent.length
  (r.ok, { s with socket := socket }.emit (.send site data accepted r.ok))

/-- An `ERROR` line. The result of the send is not looked at. -/
def sendError (s : ClientSession) (site : Site) (message : Bytes) : ClientSession :=
  (s.send site (Protocol.buildErrorResponse message)).2

/-- `std::vector<char> buffer(chunk_size_)`. -/
def Config.allocate (cfg : Config) : Option Exn :=
  if VECTOR_MAX_SIZE < cfg.chunkSize then some .lengthError
  else if cfg.memory < cfg.chunkSize then some .badAlloc
  else none

def endTransfer (fileSize totalSent : Nat) (s : ClientSession) : ClientSession :=
  if totalSent = fileSize then s.emit (.successful totalSent)
  else
    let (active, s) := s.loadActive
    if active then s.emit (.premature totalSent fileSize) else s

/-- The loop of `handle_get` and what follows it. `nth` reads have been made and `totalSent` bytes
read and sent, `good` is `file_stream->good()`. Every turn but the last sends a byte, so
`fileSize + 1` turns are enough (`streamLoop_streams`). -/
def streamLoop (chunkSize : Nat) (file : FileStream) (fileSize : Nat) :
    (fuel nth totalSent : Nat) → (good : Bool) → ClientSession → ClientSession
  | 0, _, _, _, s => s
  | fuel + 1, nth, totalSent, good, s =>
    let (active, s) := s.loadActive
    if active && decide (totalSent < fileSize) && good then
      let bytesToRead := min chunkSize (fileSize - totalSent)
      let buffer := file.read nth totalSent bytesToRead
      let s := s.emit (.read bytesToRead buffer)
      if buffer.isEmpty then endTransfer fileSize totalSent s
      else
        let (ok, s) := s.send .chunk buffer
        if !ok then { s with isActive := false }
        else streamLoop chunkSize file fileSize fuel (nth + 1) ((totalSent + buffer.length) % 2 ^ 64)
          (buffer.length == bytesToRead) s
    else endTransfer fileSize totalSent s

variable (cfg : Config)

def handleList (s : ClientSession) : Option Exn × ClientSession :=
  match cfg.fileManager.listFiles s.clock with
  | .error x => (some x, s.tick)
  | .ok files =>
    let (ok, s) := s.tick.send .list (Protocol.buildListResponse files)
    (none, if !ok then { s with isActive := false } else s)

/-- The rest of `handle_get`, once the file is open. -/
def transfer (s : ClientSession) (file : FileStream) (fileSize : Nat) : Option Exn × ClientSession :=
  let (ok, s) := s.send (.header fileSize) (Protocol.buildGetHeader fileSize)
  if !ok then (none, { s with isActive := false })
  else
    match cfg.allocate with
    | some x => (some x, s)
    | none => (none, streamLoop cfg.chunkSize file fileSize (fileSize + 1) 0 0 true s)

def handleGet (s : ClientSession) (filename : Bytes) : Option Exn × ClientSession :=
  if filename.isEmpty then (none, s.sendError .emptyFilename (ascii "EMPTY_FILENAME"))
  else
    match cfg.fileManager.getFileSize s.clock filename with
    | none => (none, s.tick.sendError .fileNotFound (ascii "FILE_NOT_FOUND"))
    | some size =>
      let s := s.tick
      match cfg.fileManager.openBinaryFile s.clock filename with
      | none => (none, s.tick.sendError .fileOpenFailed (ascii "FILE_OPEN_FAILED"))
      | some file => transfer cfg s.tick file size.toNat

def handle (s : ClientSession) (request : Request) : Option Exn × ClientSession :=
  match request.type with
  | .LIST => handleList cfg s
  | .GET => handleGet cfg s request.argument
  | .QUIT => (none, { (s.send .bye (Protocol.buildOkResponse (ascii "BYE"))).2 with isActive := false })
  | .UNKNOWN => (none, s.sendError .invalidRequest (ascii "INVALID_REQUEST"))

def recvLine (s : ClientSession) : Bool × Bytes × ClientSession :=
  let (ok, line, socket) := s.socket.recvLine
  (ok, line, { s with socket := socket }.emit .recvLine)

def disconnect (s : ClientSession) : ClientSession :=
  { s with isActive := false, socket := s.socket.close }

/-- The loop of `run` and what follows it. A line that is read uses up an answer of the kernel, so
`recvs.length + 1` turns are enough. -/
def runLoop : (fuel : Nat) → ClientSession → Option Exn × ClientSession
  | 0, s => (none, s)
  | fuel + 1, s =>
    let (active, s) := s.loadActive
    if active then
      let (ok, line, s) := s.recvLine
      if ok then
        let request := Protocol.parseRequest line
        match handle cfg (s.emit (.request request)) request with
        | (some x, s) => (some x, s)
        | (none, s) => runLoop fuel s
      else (none, s.disconnect)
    else (none, s.disconnect)

/-- `run`: the exception that leaves it, if any, and the session after it. -/
def run (s : ClientSession) : Option Exn × ClientSession :=
  runLoop cfg (s.socket.recvs.length + 1) { s with isActive := true }

end ClientSession
end Streamer

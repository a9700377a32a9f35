import Streamer.CommandLine
import Streamer.Lib.Monitor

/-!
# `Logger` (`src/Logger.cpp`)

The one logger of the process: its fields, the files it has appended to, and what it has written to
`std::cout` and `std::cerr`. Each operation is here twice: as one function, and cut into the steps that a
thread makes while it has `mutex_` (`next`): a load or a store of a field, an insertion, a call on a stream.
What the calls of an operation answer stands in the `LogCall`: the time, the number of the thread, whether
standard output is a terminal and whether the file opens.

An insertion goes into the buffer of the stream, or to the file at once where it is long. A write to the
file can fail after some bytes: the stream then takes no more, but what is in its buffer stays there, and
`close` writes it (again) before the next file is opened. Insertions into `std::cout` do not fail.
-/

namespace Streamer
open Text

namespace LogLevel

/-- `static_cast<int>(level)`. -/
def toInt : LogLevel → Nat
  | DEBUG => 0
  | INFO => 1
  | WARN => 2
  | ERROR => 3

def levelToString : LogLevel → Bytes
  | DEBUG => ascii "DEBUG"
  | INFO => ascii "INFO "
  | WARN => ascii "WARN "
  | ERROR => ascii "ERROR"

def levelToColor : LogLevel → Bytes
  | DEBUG => ascii "\x1b[36m"
  | INFO => ascii "\x1b[32m"
  | WARN => ascii "\x1b[33m"
  | ERROR => ascii "\x1b[31m"

end LogLevel

/-- An open `std::ofstream`. -/
structure LogStream where
  path : Bytes
  /-- What waits to be written to the file. -/
  buffer : Bytes := []
  bad : Bool := false
deriving DecidableEq, Repr

structure Logger where
  minLevel : LogLevel := .INFO
  enableConsole : Bool := true
  isTty : Bool := false
  fileStream : Option LogStream := none
  files : Bytes → Bytes := fun _ => []
  /-- For the coming writes to a file: `some k` fails after `k` bytes, `none` and the writes after the
  list do not fail. -/
  writes : List (Option Nat) := []
  /-- An insertion of so many bytes does not wait in the buffer. -/
  direct : Nat := 1024
  cout : Bytes := []
  cerr : Bytes := []

/-- The arguments of `log_string`, with the thread that calls it and the time of the call. -/
structure LogRecord where
  level : LogLevel
  message : Bytes
  threadId : Bytes
  timestamp : Bytes
deriving DecidableEq, Repr

namespace LogRecord

def plainLine (r : LogRecord) : Bytes :=
  ascii "[" ++ r.timestamp ++ ascii "] [" ++ r.level.levelToString ++ ascii "] [T:" ++ r.threadId ++
    ascii "] " ++ r.message

/-- The insertions into `std::cout`. -/
def consoleLine (isTty : Bool) (r : LogRecord) : List Bytes :=
  if isTty then
    [ascii "\x1b[90m[", r.timestamp, ascii "]\x1b[0m ", r.level.levelToColor, ascii "[",
      r.level.levelToString, ascii "]", ascii "\x1b[0m", ascii " ", ascii "\x1b[35m[T:", r.threadId,
      ascii "]\x1b[0m ", r.message, [newline]]
  else [r.plainLine, [newline]]

end LogRecord

inductive LogCall where
  | init (logFilePath : Bytes) (minLevel : LogLevel) (enableConsole isTty opens : Bool)
  | setLevel (level : LogLevel)
  | getLevel
  | logString (r : LogRecord)
deriving DecidableEq, Repr

namespace Logger

def append (l : Logger) (path data : Bytes) : Logger :=
  { l with files := fun p => if p = path then l.files p ++ data else l.files p }

/-- What is in the buffer and then `data` are written to the file. -/
def write (l : Logger) (stream : LogStream) (data : Bytes) : Logger :=
  match l.writes.head?.getD none with
  | none =>
    { l.append stream.path (stream.buffer ++ data) with
      writes := l.writes.tail
      fileStream := some { stream with buffer := [] } }
  | some k =>
    { l.append stream.path ((stream.buffer ++ data).take k) with
      writes := l.writes.tail
      fileStream := some { stream with bad := true } }

/-- `file_stream_ << data`. -/
def insert (l : Logger) (data : Bytes) : Logger :=
  match l.fileStream with
  | none => l
  | some stream =>
    if stream.bad then l
    else if data.length < l.direct then
      { l with fileStream := some { stream with buffer := stream.buffer ++ data } }
    else l.write stream data

/-- `file_stream_.flush()`. -/
def flush (l : Logger) : Logger :=
  match l.fileStream with
  | none => l
  | some stream => if stream.bad || stream.buffer.isEmpty then l else l.write stream []

/-- `file_stream_.close()`, which does not ask whether a write has failed before. -/
def closeFile (l : Logger) : Logger :=
  match l.fileStream with
  | none => l
  | some stream =>
    let l := if stream.buffer.isEmpty then l else l.write stream []
    { l with fileStream := none }

/-- `file_stream_.open(log_file_path, out | app)`, which answers `opens`. -/
def openFile (l : Logger) (path : Bytes) (opens : Bool) : Logger :=
  if opens then { l with fileStream := some { path := path } }
  else { l with
    fileStream := none
    cerr := l.cerr ++ ascii "[Logger] Failed to open log file: " ++ path ++ [newline] }

def init (l : Logger) (logFilePath : Bytes) (minLevel : LogLevel) (enableConsole isTty opens : Bool) :
    Logger :=
  let l := { l with minLevel := minLevel, enableConsole := enableConsole, isTty := isTty }
  if !logFilePath.isEmpty then
    let l := if l.fileStream.isSome then l.closeFile else l
    l.openFile logFilePath opens
  else l

def logString (l : Logger) (r : LogRecord) : Logger :=
  if r.level.toInt < l.minLevel.toInt then l
  else
    let l := if l.fileStream.isSome then ((l.insert r.plainLine).insert [newline]).flush else l
    if l.enableConsole then { l with cout := l.cout ++ (r.consoleLine l.isTty).flatten } else l

/-- A call as one function; `get_level` has a result. -/
def apply : LogCall → Logger → Logger × Option LogLevel
  | .init path level console tty opens, l => (l.init path level console tty opens, none)
  | .setLevel level, l => ({ l with minLevel := level }, none)
  | .getLevel, l => (l, some l.minLevel)
  | .logString r, l => (l.logString r, none)

/-- A line whose write fails after two bytes, and is written whole when the same file is opened again. -/
example :
    let l : Logger := { fileStream := some ⟨ascii "log", [], false⟩, writes := [some 2] }
    let r : LogRecord := ⟨.INFO, ascii "hi", ascii "1", ascii "12:00"⟩
    ((l.logString r).init (ascii "log") .INFO true false true).files (ascii "log") =
      ascii "[1" ++ r.plainLine ++ [newline] := by
  decide +kernel

/-- Where a call stands that has `mutex_`. -/
inductive Pc where
  | initLevel (path : Bytes) (level : LogLevel) (console tty opens : Bool)
  | initConsole (path : Bytes) (console tty opens : Bool)
  | initTty (path : Bytes) (tty opens : Bool)
  | initFile (path : Bytes) (opens : Bool)
  | closeFile (path : Bytes) (opens : Bool)
  | openFile (path : Bytes) (opens : Bool)
  | setLevel (level : LogLevel)
  | getLevel
  | test (r : LogRecord)
  | file (r : LogRecord)
  | insertLine (r : LogRecord)
  | insertNewline (r : LogRecord)
  | flush (r : LogRecord)
  | console (r : LogRecord)
  | insertConsole (chunks : List Bytes)
deriving DecidableEq, Repr

def enter : LogCall → Pc
  | .init path level console tty opens => .initLevel path level console tty opens
  | .setLevel level => .setLevel level
  | .getLevel => .getLevel
  | .logString r => .test r

def next : Pc → Logger → Logger × (Pc ⊕ Option LogLevel)
  | .initLevel path level console tty opens, l =>
    ({ l with minLevel := level }, .inl (.initConsole path console tty opens))
  | .initConsole path console tty opens, l =>
    ({ l with enableConsole := console }, .inl (.initTty path tty opens))
  | .initTty path tty opens, l => ({ l with isTty := tty }, .inl (.initFile path opens))
  | .initFile path opens, l =>
    (l, if !path.isEmpty then
        if l.fileStream.isSome then .inl (.closeFile path opens) else .inl (.openFile path opens)
      else .inr none)
  | .closeFile path opens, l => (l.closeFile, .inl (.openFile path opens))
  | .openFile path opens, l => (l.openFile path opens, .inr none)
  | .setLevel level, l => ({ l with minLevel := level }, .inr none)
  | .getLevel, l => (l, .inr (some l.minLevel))
  | .test r, l => (l, if r.level.toInt < l.minLevel.toInt then .inr none else .inl (.file r))
  | .file r, l => (l, if l.fileStream.isSome then .inl (.insertLine r) else .inl (.console r))
  | .insertLine r, l => (l.insert r.plainLine, .inl (.insertNewline r))
  | .insertNewline r, l => (l.insert [newline], .inl (.flush r))
  | .flush r, l => (l.flush, .inl (.console r))
  | .console r, l =>
    (l, if l.enableConsole then .inl (.insertConsole (r.consoleLine l.isTty)) else .inr none)
  | .insertConsole (chunk :: chunks), l =>
    ({ l with cout := l.cout ++ chunk }, .inl (.insertConsole chunks))
  | .insertConsole [], l => (l, .inr none)

end Logger
end Streamer

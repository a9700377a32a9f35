import Streamer.Types

/-!
# The command lines (`src/client_main.cpp`, `src/server_main.cpp`)

What the two `main` functions make of their arguments, up to the point where they open a socket or
start the server. The arguments are those after the name of the program. `Exit` is an early return:
its code, and the line that goes to `std::cerr`.
-/

namespace Streamer
open Text

structure Exit where
  code : Nat
  error : Bytes
deriving DecidableEq, Repr

/-- `arg == "-x" || arg == "--long"`. -/
def isOption (short long : String) (arg : Bytes) : Bool := arg == ascii short || arg == ascii long

/-- `arg[0] == '-'`; the empty argument begins with its terminating null byte. -/
def beginsWithDash (arg : Bytes) : Bool := arg.head? == some 45

/-! ### The client -/

structure ClientArguments where
  host : Bytes := ascii "127.0.0.1"
  port : UInt16 := 8080
  getFile : Bytes := []
  outputDir : Bytes := ascii "downloads"
  listMode : Bool := false
deriving DecidableEq, Repr

/-- `static_cast<uint16_t>(std::atoi(arg))`. -/
def clientPort (arg : Bytes) : UInt16 := UInt16.ofInt (atoi arg)

/-- The loop of the list mode. -/
def listArguments (hostSet : Bool) (a : ClientArguments) : List Bytes → ClientArguments
  | [] => a
  | arg :: args =>
    if isOption "-l" "--list" arg then listArguments hostSet a args
    else if isOption "-s" "--server" arg then
      match args with
      | [] => a
      | value :: args => listArguments hostSet { a with host := value } args
    else if isOption "-p" "--port" arg then
      match args with
      | [] => a
      | value :: args => listArguments hostSet { a with port := clientPort value } args
    else if !beginsWithDash arg then
      if !hostSet then listArguments true { a with host := arg } args
      else listArguments hostSet { a with port := clientPort arg } args
    else listArguments hostSet a args

/-- The loop of the flag syntax. -/
def flagArguments (a : ClientArguments) : List Bytes → Except Exit ClientArguments
  | [] => .ok a
  | arg :: args =>
    if isOption "-s" "--server" arg then
      match args with
      | [] => .ok a
      | value :: args => flagArguments { a with host := value } args
    else if isOption "-p" "--port" arg then
      match args with
      | [] => .ok a
      | value :: args => flagArguments { a with port := clientPort value } args
    else if isOption "-g" "--get" arg then
      match args with
      | [] => .ok a
      | value :: args => flagArguments { a with getFile := value } args
    else if isOption "-o" "--output-dir" arg then
      match args with
      | [] => .ok a
      | value :: args => flagArguments { a with outputDir := value } args
    else .error ⟨1, ascii "Error: Unknown option '" ++ arg ++ ascii "'"⟩

/-- The positional syntax, which needs three arguments, or else the flag syntax. -/
def getArguments : List Bytes → Except Exit ClientArguments
  | host :: port :: file :: rest =>
    if !beginsWithDash host then
      .ok { host := host, port := clientPort port, getFile := file
            outputDir := rest.head?.getD (ascii "downloads") }
    else flagArguments {} (host :: port :: file :: rest)
  | args => flagArguments {} args

def clientArguments (args : List Bytes) : Except Exit ClientArguments :=
  if args.head?.any (isOption "-h" "--help") then .error ⟨0, []⟩
  else if args.any (isOption "-l" "--list") then .ok (listArguments false { listMode := true } args)
  else getArguments args

/-- `main` up to the creation of the socket. -/
def clientMain (args : List Bytes) : Except Exit ClientArguments :=
  match clientArguments args with
  | .error e => .error e
  | .ok a =>
    if !a.listMode && a.getFile.isEmpty then
      .error ⟨1, ascii "Error: Please specify target filename or use --list."⟩
    else if a.port = 0 then .error ⟨1, ascii "Error: Invalid port number."⟩
    else .ok a

/-! ### The server -/

inductive LogLevel where
  | DEBUG | INFO | WARN | ERROR
deriving DecidableEq, Repr

structure ServerConfig where
  port : UInt16 := 8080
  mediaDir : Bytes := ascii "media"
  chunkSize : UInt64 := UInt64.ofNat DEFAULT_CHUNK_SIZE
  backlog : Int := 128
  logFile : Bytes := ascii "logs/server.log"
  /-- The local variable `log_level_str` of `main`. -/
  logLevelStr : Bytes := ascii "info"
deriving DecidableEq, Repr

/-- `static_cast<uint16_t>(std::strtoul(arg, nullptr, 10))`. -/
def serverPort (arg : Bytes) : UInt16 := (strtoul arg).toUInt16

def serverArguments (config : ServerConfig) : List Bytes → Except Exit ServerConfig
  | [] => .ok config
  | arg :: args =>
    if isOption "-h" "--help" arg then .error ⟨0, []⟩
    else if isOption "-p" "--port" arg then
      match args with
      | [] => .error ⟨1, ascii "Error: --port requires an argument"⟩
      | value :: args =>
        if serverPort value = 0 then .error ⟨1, ascii "Error: Invalid port number: " ++ value⟩
        else serverArguments { config with port := serverPort value } args
    else if isOption "-d" "--media-dir" arg then
      match args with
      | [] => .error ⟨1, ascii "Error: --media-dir requires an argument"⟩
      | value :: args => serverArguments { config with mediaDir := value } args
    else if isOption "-c" "--chunk-size" arg then
      match args with
      | [] => .error ⟨1, ascii "Error: --chunk-size requires an argument"⟩
      | value :: args =>
        if strtoul value = 0 then .error ⟨1, ascii "Error: Invalid chunk size: " ++ value⟩
        else serverArguments { config with chunkSize := strtoul value } args
    else if isOption "-b" "--backlog" arg then
      match args with
      | [] => .error ⟨1, ascii "Error: --backlog requires an argument"⟩
      | value :: args => serverArguments { config with backlog := atoi value } args
    else if isOption "-l" "--log-file" arg then
      match args with
      | [] => .error ⟨1, ascii "Error: --log-file requires an argument"⟩
      | value :: args => serverArguments { config with logFile := value } args
    else if arg == ascii "--log-level" then
      match args with
      | [] => .error ⟨1, ascii "Error: --log-level requires an argument"⟩
      | value :: args => serverArguments { config with logLevelStr := value } args
    else .error ⟨1, ascii "Error: Unknown option '" ++ arg ++ ascii "'"⟩

def ServerConfig.level (config : ServerConfig) : LogLevel :=
  if config.logLevelStr = ascii "debug" then .DEBUG
  else if config.logLevelStr = ascii "info" then .INFO
  else if config.logLevelStr = ascii "warn" then .WARN
  else if config.logLevelStr = ascii "error" then .ERROR
  else .INFO

/-- `main` up to the start of the logger and the server. -/
def serverMain (args : List Bytes) : Except Exit (ServerConfig × LogLevel) :=
  (serverArguments {} args).map fun config => (config, config.level)

end Streamer

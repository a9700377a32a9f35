import Streamer.Client
import Streamer.CommandLine

/-!
# The client, step by step

`main` of `src/client_main.cpp` from the connected socket on, with `do_list` and `do_get`, as steps: one
system call, one call on the destination, or the code between two of them. What the steps come to is
`clientProgram` (`Proofs/ClientRun.lean`). An exception finds no handler: the process ends in `thrown`, and
what the output stream still holds then is among the bytes that the disk counts as `lost`.

A receive that has to wait is no step (`advance true`). Its answer `.moves k` says how many bytes it
will have got, so it waits until that many have come or the stream has ended.
-/

namespace Streamer
open Text Kernel

/-- The bytes that the coming receive of at most `len` bytes gets are not all there. -/
def Socket.blocks (s : Socket) (len : Nat) : Bool :=
  match s.recvs with
  | .moves k :: _ => !s.fin && decide (s.inbox.length < min (max k 1) len)
  | _ => false

inductive Query where
  | list | get
deriving DecidableEq, Repr

/-- What a line is read for: the header of a reply, or a row of the catalogue with `left` more to come. -/
inductive LineUse where
  | header (query : Query)
  | row (left : Nat)
deriving DecidableEq, Repr

/-- What was sent: the request, or `QUIT` at the end, of `do_get` where there is a file to close. -/
inductive SendUse where
  | request (query : Query)
  | quit (out : Option OutFile)
deriving DecidableEq, Repr

/-- The local variables of the loop in `do_get`. -/
structure Reception where
  fileSize : Nat
  totalReceived : Nat := 0
  out : OutFile
deriving DecidableEq, Repr

def Reception.toRecv (r : Reception) : Nat := min CHUNK_SIZE (r.fileSize - r.totalReceived)

inductive ClientPc where
  | main (listMode : Bool)
  /-- `do_list` has returned `ok`, or was not called. -/
  | listed (ok : Bool)
  | createDirectories
  /-- `send_all`: its test of the socket, and its loop with `total` bytes sent. -/
  | sendAll (data : Bytes) (use : SendUse)
  | send (data : Bytes) (total : Nat) (use : SendUse)
  /-- `recv_line`: its test of the socket, and its loop with `line` read so far. -/
  | recvLine (use : LineUse)
  | recv (line : Bytes) (use : LineUse)
  | header (query : Query) (header : Bytes)
  | rowTest (left : Nat)
  | openFile (fileSize : Nat)
  | receiveTest (r : Reception)
  /-- `recv_all`: its test of the socket, and its loop with `buf` received so far. -/
  | recvAll (r : Reception)
  | recvBuffer (r : Reception) (buf : Bytes)
  | write (r : Reception) (buffer : Bytes)
  | canonical (out : OutFile)
  | closeFile (out : OutFile) (res : Except Exn Bool)
  | close (ok : Bool)
  /-- An exception has left `main`: the process ends, and with it the connection. -/
  | terminate (x : Exn)
  | exited (ok : Bool)
  | thrown (x : Exn)

def Query.returns (query : Query) (ok : Bool) : ClientPc :=
  match query with
  | .list => .listed ok
  | .get => .close ok

structure ClientThread where
  socket : Socket
  disk : LocalDisk
  getFile : Bytes
  listing : Listing := {}
  pc : ClientPc

namespace ClientThread

/-- `main` after `connect`, with what it has made of its arguments. -/
def new (listMode : Bool) (getFile : Bytes) (disk : LocalDisk) (socket : Socket) : ClientThread :=
  { socket := socket, disk := disk, getFile := getFile, pc := .main listMode }

/-- `send_string` has returned `ok`; at the end of `do_list` and `do_get` nobody looks at it. -/
def sent (c : ClientThread) (ok : Bool) : SendUse → ClientThread
  | .request query => { c with pc := if ok then .recvLine (.header query) else query.returns false }
  | .quit none => { c with pc := .listed true }
  | .quit (some out) => { c with pc := .closeFile out (.ok true) }

/-- One `send` of `send_all`. -/
def sendStep (c : ClientThread) (data : Bytes) (total : Nat) (use : SendUse) : ClientThread :=
  match c.socket.sends with
  | [] => c.sent (decide (data.length ≤ total)) use
  | a :: sched =>
    if total < data.length then
      let rest : ClientThread := { c with socket := { c.socket with sends := sched } }
      match a with
      | .fails e => if e = .EINTR then { rest with pc := .send data total use } else rest.sent false use
      | .moves k =>
        let bytes := min k (data.length - total)
        if bytes = 0 then rest.sent false use
        else { rest with
          socket := { rest.socket with sent := c.socket.sent ++ (data.drop total).take bytes }
          pc := .send data (total + bytes) use }
    else c.sent true use

/-- `recv_line` has returned. -/
def lineRead (c : ClientThread) (ok : Bool) (line : Bytes) : LineUse → ClientThread
  | .header query => { c with pc := if ok then .header query line else query.returns false }
  | .row left =>
    if ok then
      { c with listing := { c.listing with rows := c.listing.rows ++ [listRow line] }, pc := .rowTest left }
    else { c with pc := .listed false }  -- premature end of file list

/-- One `recv` of `recv_line`. -/
def recvStep (c : ClientThread) (line : Bytes) (use : LineUse) : ClientThread :=
  match c.socket.recvs with
  | [] => c.lineRead false line use
  | a :: sched =>
    if line.length < 4096 then
      let rest : ClientThread := { c with socket := { c.socket with recvs := sched } }
      match Kernel.recv 1 c.socket.fin c.socket.inbox a with
      | .error e => if e = .EINTR then { rest with pc := .recv line use } else rest.lineRead false line use
      | .ok [] => rest.lineRead (!line.isEmpty) line use
      | .ok (ch :: _) =>
        let rest : ClientThread :=
          { c with socket := { c.socket with recvs := sched, inbox := c.socket.inbox.tail } }
        if ch = newline then rest.lineRead true (dropCr line) use
        else { rest with pc := .recv (line ++ [ch]) use }
    else c.lineRead false line use

/-- The tests of the reply line in `do_list` and in `do_get`. -/
def readHeader (c : ClientThread) (query : Query) (header : Bytes) : ClientThread :=
  if !(ascii "OK").isPrefixOf header then { c with pc := query.returns false }
  else
    match substr header 3 with
    | .error x => { c with pc := .terminate x }
    | .ok rest =>
      let (ok, number) := extractUnsigned rest
      match query with
      | .list => { c with listing := ⟨number, []⟩, pc := .rowTest number }
      | .get => { c with pc := if !ok then .close false else .openFile number }

/-- `recv_all` has returned `res`. -/
def bufferRead (c : ClientThread) (r : Reception) (res : Int) (buffer : Bytes) : ClientThread :=
  { c with pc :=
      if res = 0 then .closeFile r.out (.ok false)
      else if res < 0 then .closeFile r.out (.ok false)
      else .write r buffer }

/-- One `recv` of `recv_all`. -/
def recvAllStep (c : ClientThread) (r : Reception) (buf : Bytes) : ClientThread :=
  match c.socket.recvs with
  | [] => c.bufferRead r (if r.toRecv ≤ buf.length then 1 else -1) buf
  | a :: sched =>
    if buf.length < r.toRecv then
      let rest : ClientThread := { c with socket := { c.socket with recvs := sched } }
      match Kernel.recv (r.toRecv - buf.length) c.socket.fin c.socket.inbox a with
      | .error e => if e = .EINTR then { rest with pc := .recvBuffer r buf } else rest.bufferRead r (-1) buf
      | .ok [] => rest.bufferRead r 0 buf
      | .ok chunk => { c with
          socket := { c.socket with recvs := sched, inbox := c.socket.inbox.drop chunk.length }
          pc := .recvBuffer r (buf ++ chunk) }
    else c.bufferRead r 1 buf

/-- A step of the client; `none` when the process is over. -/
def step (c : ClientThread) : Option ClientThread :=
  match c.pc with
  | .main listMode =>
    some { c with pc :=
      if listMode then .sendAll (ascii "LIST\n") (.request .list) else .listed true }
  | .listed ok =>
    some { c with pc := if ok && !c.getFile.isEmpty then .createDirectories else .close ok }
  | .createDirectories =>
    some { c with pc :=
      if !c.disk.creates then .close false
      else .sendAll (ascii "GET " ++ c.getFile ++ [newline]) (.request .get) }
  | .sendAll data use =>
    some (if c.socket.isValid then { c with pc := .send data 0 use } else c.sent false use)
  | .send data total use => some (c.sendStep data total use)
  | .recvLine use =>
    some (if c.socket.isValid then { c with pc := .recv [] use } else c.lineRead false [] use)
  | .recv line use => some (c.recvStep line use)
  | .header query header => some (c.readHeader query header)
  | .rowTest 0 => some { c with pc := .sendAll (ascii "QUIT\n") (.quit none) }
  | .rowTest (left + 1) => some { c with pc := .recvLine (.row left) }
  | .openFile fileSize =>
    some { c with pc :=
      if !c.disk.opens then .close false
      else .receiveTest { fileSize := fileSize, out := ⟨[], false, c.disk.writes⟩ } }
  | .receiveTest r =>
    some { c with pc := if r.totalReceived < r.fileSize then .recvAll r else .canonical r.out }
  | .recvAll r =>
    some (if c.socket.isValid then { c with pc := .recvBuffer r [] } else c.bufferRead r (-1) [])
  | .recvBuffer r buf => some (c.recvAllStep r buf)
  | .write r buffer =>
    some { c with pc := .receiveTest { r with
      totalReceived := r.totalReceived + r.toRecv
      out := r.out.write buffer } }
  | .canonical out =>
    some { c with pc :=
      if !c.disk.resolves then .closeFile out (.error .filesystemError)
      else .sendAll (ascii "QUIT\n") (.quit (some out)) }
  | .closeFile out res =>
    some { c with
      disk := c.disk.close out
      pc := match res with
        | .ok ok => .close ok
        | .error x => .terminate x }
  | .close ok => some { c with socket := c.socket.close, pc := .exited ok }
  | .terminate x => some { c with socket := c.socket.close, pc := .thrown x }
  | .exited _ | .thrown _ => none

/-- The client stands before a receive whose bytes are not there. -/
def waits (c : ClientThread) : Bool :=
  match c.pc with
  | .recv line _ => decide (line.length < 4096) && c.socket.blocks 1
  | .recvBuffer r buf => decide (buf.length < r.toRecv) && c.socket.blocks (r.toRecv - buf.length)
  | _ => false

/-- A step; where `blocking` is set none is made while the client waits. -/
def advance (blocking : Bool) (c : ClientThread) : Option ClientThread :=
  if blocking && c.waits then none else c.step

end ClientThread

/-- `main` from the connected socket on, as one function: what `do_list` and `do_get` return or throw
(`return ok ? 0 : 1`), the rows of the catalogue, the socket and the destination afterwards. -/
def clientProgram (listMode : Bool) (getFile : Bytes) (disk : LocalDisk) (sock : Socket) :
    Except Exn Bool × Listing × Socket × LocalDisk :=
  let (res, listing, sock) := if listMode then doList sock else (.ok true, {}, sock)
  match res with
  | .error x => (.error x, listing, sock.close, disk)
  | .ok ok =>
    if ok && !getFile.isEmpty then
      let (res, sock, disk) := doGet disk sock getFile
      (res, listing, sock.close, disk)
    else (.ok ok, listing, sock.close, disk)

end Streamer

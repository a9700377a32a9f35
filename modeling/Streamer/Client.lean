import Streamer.Protocol
import Streamer.Socket

/-!
# The client (`src/client_main.cpp`)

`do_list` and `do_get` on a connected socket. What they print is kept where it carries data: the
rows of the catalogue. The destination of a download is a `LocalDisk`, which says how the calls on
it turn out: creating the directory, opening the file, each write, the flush when the stream is
closed and `canonical`.
-/

namespace Streamer
open Text Kernel

/-- `s.substr(pos)`. -/
def substr (s : Bytes) (pos : Nat) : Except Exn Bytes :=
  if s.length < pos then .error .outOfRange else .ok (s.drop pos)

/-! ### `do_list` -/

structure Listing where
  count : Nat := 0
  rows : List MediaFileInfo := []
deriving DecidableEq, Repr

/-- `line_iss >> name >> size`. -/
def listRow (line : Bytes) : MediaFileInfo :=
  let (name, rest) := extractWord line
  ⟨name, if name.isEmpty then 0 else (extractUnsigned rest).2.toUInt64⟩

def listLoop : (count : Nat) → Socket → (rows : List MediaFileInfo) → Bool × List MediaFileInfo × Socket
  | 0, sock, rows => (true, rows, sock)
  | count + 1, sock, rows =>
    let (ok, line, sock) := sock.recvLine
    if !ok then (false, rows, sock)  -- premature end of file list
    else listLoop count sock (rows ++ [listRow line])

def doList (sock : Socket) : Except Exn Bool × Listing × Socket :=
  let (ok, sock) := sock.sendString (ascii "LIST\n")
  if !ok then (.ok false, {}, sock)
  else
    let (ok, header, sock) := sock.recvLine
    if !ok then (.ok false, {}, sock)
    else if !(ascii "OK").isPrefixOf header then (.ok false, {}, sock)
    else
      match substr header 3 with
      | .error x => (.error x, {}, sock)
      | .ok rest =>
        let count := (extractUnsigned rest).2
        let (ok, rows, sock) := listLoop count sock []
        if !ok then (.ok false, ⟨count, rows⟩, sock)
        else
          let (_, sock) := sock.sendString (ascii "QUIT\n")
          (.ok true, ⟨count, rows⟩, sock)

/-! ### `do_get` -/

/-- The destination of a download and how the coming calls on it turn out. -/
structure LocalDisk where
  /-- `create_directories` reports no error. -/
  creates : Bool
  opens : Bool
  /-- For the coming writes: `some k` fails after `k` bytes, `none` and the writes after the list do
  not fail. -/
  writes : List (Option Nat)
  /-- The bytes that are lost when the stream is flushed and closed, or that it still holds when an
  exception of `canonical` ends the process. -/
  lost : Nat
  /-- `canonical(out_path)` does not throw. -/
  resolves : Bool
  file : Option Bytes
deriving DecidableEq, Repr

structure OutFile where
  data : Bytes
  bad : Bool
  writes : List (Option Nat)
deriving DecidableEq, Repr

/-- `outfile.write`, which does nothing after a failure. -/
def OutFile.write (out : OutFile) (buffer : Bytes) : OutFile :=
  if out.bad then out
  else match out.writes with
    | some k :: writes => ⟨out.data ++ buffer.take k, true, writes⟩
    | none :: writes => ⟨out.data ++ buffer, false, writes⟩
    | [] => ⟨out.data ++ buffer, false, []⟩

def LocalDisk.close (disk : LocalDisk) (out : OutFile) : LocalDisk :=
  { disk with writes := out.writes, file := some (out.data.take (out.data.length - disk.lost)) }

def CHUNK_SIZE : Nat := 64 * 1024

/-- The loop of `do_get`. A turn receives `CHUNK_SIZE` bytes or all that is left, so
`fileSize / CHUNK_SIZE + 2` turns are enough, the last of them to find that nothing is left. -/
def receiveLoop (fileSize : Nat) : (fuel totalReceived : Nat) → Socket → OutFile → Bool × Socket × OutFile
  | 0, _, sock, out => (false, sock, out)
  | fuel + 1, totalReceived, sock, out =>
    if totalReceived < fileSize then
      let toRecv := min CHUNK_SIZE (fileSize - totalReceived)
      let (res, buffer, sock) := sock.recvAll toRecv
      if res = 0 then (false, sock, out)  -- server disconnected prematurely
      else if res < 0 then (false, sock, out)
      else receiveLoop fileSize fuel (totalReceived + toRecv) sock (out.write buffer)
    else (true, sock, out)

/-- The rest of `do_get`, once the reply line has come. An exception of `canonical` leaves the stream
unclosed: the bytes that it still holds are among those that the disk counts as `lost`. -/
def download (disk : LocalDisk) (sock : Socket) (header : Bytes) : Except Exn Bool × Socket × LocalDisk :=
  if !(ascii "OK").isPrefixOf header then (.ok false, sock, disk)
  else
    match substr header 3 with
    | .error x => (.error x, sock, disk)
    | .ok rest =>
      let (ok, fileSize) := extractUnsigned rest
      if !ok then (.ok false, sock, disk)
      else if !disk.opens then (.ok false, sock, disk)
      else
        let (ok, sock, out) :=
          receiveLoop fileSize (fileSize / CHUNK_SIZE + 2) 0 sock ⟨[], false, disk.writes⟩
        if !ok then (.ok false, sock, disk.close out)
        else if !disk.resolves then (.error .filesystemError, sock, disk.close out)
        else
          let (_, sock) := sock.sendString (ascii "QUIT\n")
          (.ok true, sock, disk.close out)

def doGet (disk : LocalDisk) (sock : Socket) (filename : Bytes) : Except Exn Bool × Socket × LocalDisk :=
  if !disk.creates then (.ok false, sock, disk)
  else
    let (ok, sock) := sock.sendString (ascii "GET " ++ filename ++ [newline])
    if !ok then (.ok false, sock, disk)
    else
      let (ok, header, sock) := sock.recvLine
      if !ok then (.ok false, sock, disk)
      else download disk sock header

theorem recvLine_okHeader {s : Socket} {n m : Nat} {rest : Bytes} (hn : n < 2 ^ 64)
    (hv : s.isValid = true) (hin : s.inbox = ascii "OK " ++ decimal n ++ newline :: rest)
    (hs : Lively ((ascii "OK " ++ decimal n).length + 1 + m) s.recvs) :
    (∃ recvs, s.recvLine = (true, ascii "OK " ++ decimal n, { s with inbox := rest, recvs := recvs }) ∧
      Lively m recvs) ∧
    (ascii "OK").isPrefixOf (ascii "OK " ++ decimal n) = true ∧
    substr (ascii "OK " ++ decimal n) 3 = .ok (decimal n) ∧ extractUnsigned (decimal n) = (true, n) := by
  refine ⟨?_, rfl, rfl, extractUnsigned_decimal (w := []) (by simp) hn⟩
  have hnl : newline ∉ ascii "OK " ++ decimal n := by
    simp only [List.mem_append, not_or]
    exact ⟨by decide, newline_not_mem_decimal n⟩
  have hlen : (ascii "OK " ++ decimal n).length < 4096 := by
    have h1 := length_decimal_le hn
    have h2 : (ascii "OK ").length = 3 := rfl
    rw [List.length_append]
    omega
  obtain ⟨recvs, hline, hlive⟩ := Socket.recvLine_newline 4096 hv hin hnl hlen hs
  rw [dropCr_append_decimal] at hline
  exact ⟨recvs, hline, hlive⟩

end Streamer

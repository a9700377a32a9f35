import Streamer.Types

/-!
# The text protocol (`src/Protocol.cpp`)

`parse_request` and the builders of the replies. A request is a line; a reply is a line, followed by
the entries of the catalogue or by the bytes of a file.
-/

namespace Streamer
open Text

inductive CommandType where
  | LIST | GET | QUIT | UNKNOWN
deriving DecidableEq, Repr

structure Request where
  type : CommandType := .UNKNOWN
  argument : Bytes := []
deriving DecidableEq, Repr

def trim (str : Bytes) : Bytes := strip isSpace str

namespace Protocol

def parseRequest (rawLine : Bytes) : Request :=
  let line := trim rawLine
  if line.isEmpty then {}
  else
    let (cmd, rest) := extractWord line
    let cmd := cmd.map toUpper
    if cmd = ascii "LIST" then { type := .LIST }
    else if cmd = ascii "GET" then
      -- `std::getline(iss >> std::ws, filename)`
      let filename := (rest.dropWhile isSpace).takeWhile (· != newline)
      { type := .GET, argument := trim filename }
    else if cmd = ascii "QUIT" ∨ cmd = ascii "EXIT" ∨ cmd = ascii "CLOSE" then { type := .QUIT }
    else { type := .UNKNOWN, argument := cmd }

def buildListEntry (file : MediaFileInfo) : Bytes :=
  file.filename ++ ascii " " ++ decimal file.sizeBytes.toNat ++ [newline]

def buildListResponse (files : List MediaFileInfo) : Bytes :=
  ascii "OK " ++ decimal files.length ++ [newline] ++ files.flatMap buildListEntry

def buildGetHeader (fileSize : Nat) : Bytes := ascii "OK " ++ decimal fileSize ++ [newline]

def buildErrorResponse (errorMessage : Bytes) : Bytes := ascii "ERROR " ++ errorMessage ++ [newline]

def buildOkResponse (message : Bytes) : Bytes :=
  if message.isEmpty then ascii "OK" ++ [newline] else ascii "OK " ++ message ++ [newline]

/-! ### Requests -/

/-- White space after a line changes nothing. -/
theorem parseRequest_append_space {w : Bytes} (hw : ∀ b ∈ w, isSpace b = true) (line : Bytes) :
    parseRequest (line ++ w) = parseRequest line := by
  unfold parseRequest trim
  rw [strip_append_of_all hw]

/-- So it does not matter whether the `\r` before a newline was dropped. -/
theorem parseRequest_dropCr (line : Bytes) : parseRequest (dropCr line) = parseRequest line := by
  rcases eq_dropCr_or line with h | h
  · rw [h]
  · conv => rhs; rw [h, parseRequest_append_space (List.forall_mem_singleton.2 rfl)]

theorem strip_dropWhile (l : Bytes) : strip isSpace (l.dropWhile isSpace) = strip isSpace l := by
  unfold strip; rw [List.dropWhile_idempotent]

theorem newline_not_mem_get {f : Bytes} (hf : newline ∉ f) : newline ∉ ascii "GET " ++ f := by
  simp only [List.mem_append, not_or]
  exact ⟨by decide, hf⟩

/-- The line of a `GET` is cut after the last visible character of the name. -/
theorem trim_get (f : Bytes) :
    trim (ascii "GET " ++ f) =
      if f.rdropWhile isSpace = [] then ascii "GET" else ascii "GET " ++ f.rdropWhile isSpace := by
  have hd : (ascii "GET " ++ f).dropWhile isSpace = ascii "GET " ++ f := by
    have : ascii "GET " = 71 :: [69, 84, 32] := rfl
    rw [this, List.cons_append, List.dropWhile_cons_of_neg (by decide)]
  have hf : ascii "GET " ++ f = (ascii "GET " ++ f.rdropWhile isSpace) ++ f.rtakeWhile isSpace := by
    rw [List.append_assoc, List.rdropWhile_append_rtakeWhile]
  have hw : ∀ b ∈ f.rtakeWhile isSpace, isSpace b = true := fun b => List.mem_rtakeWhile_imp
  rw [trim, strip, hd, hf, rdropWhile_append_of_all hw]
  split
  · rename_i h
    rw [h]; decide
  · rename_i h
    rw [List.rdropWhile_eq_self_iff]
    intro hne
    rw [List.getLast_append_of_ne_nil hne h]
    exact List.rdropWhile_last_not isSpace f h

/-- The server reads back the name that the client's `"GET " + name` carries, trimmed. -/
theorem parseRequest_get {f : Bytes} (hf : newline ∉ f) :
    parseRequest (ascii "GET " ++ f) = { type := .GET, argument := trim f } := by
  have hw : ∀ b ∈ f.rtakeWhile isSpace, isSpace b = true := fun b => List.mem_rtakeWhile_imp
  have htrim : trim f = trim (f.rdropWhile isSpace) := by
    conv => lhs; rw [← List.rdropWhile_append_rtakeWhile (p := isSpace) (l := f)]
    exact strip_append_of_all hw
  unfold parseRequest
  rw [trim_get]
  split
  · rename_i h
    rw [htrim, h]; decide
  · rename_i h
    have hword : extractWord (ascii "GET " ++ f.rdropWhile isSpace) =
        (ascii "GET", 32 :: f.rdropWhile isSpace) := by
      have hvisible : ∀ b ∈ ascii "GET", isSpace b = false := by
        simpa using List.all_eq_true.1 (show (ascii "GET").all (!isSpace ·) = true from rfl)
      exact extractWord_append hvisible (by decide) rfl
    have hempty : (ascii "GET " ++ f.rdropWhile isSpace).isEmpty = false := rfl
    have hsp : (32 :: f.rdropWhile isSpace).dropWhile isSpace =
        (f.rdropWhile isSpace).dropWhile isSpace :=
      List.dropWhile_cons_of_pos (by decide)
    have hall : ∀ b ∈ (f.rdropWhile isSpace).dropWhile isSpace, (b != newline) = true := by
      intro b hb
      have hb' : b ∈ f := (List.rdropWhile_prefix isSpace f).subset ((List.dropWhile_sublist _).subset hb)
      exact bne_iff_ne.2 fun e => hf (e ▸ hb')
    have hG : (ascii "GET").map toUpper = ascii "GET" := rfl
    have hL : ascii "GET" ≠ ascii "LIST" := by decide
    simp only [hword, hempty, hsp, hG, hL, Bool.false_eq_true, if_false, if_true,
      List.takeWhile_eq_self_iff.2 hall]
    rw [htrim, trim, strip_dropWhile, trim]

end Protocol
end Streamer

import Streamer.Lib.PrefixFree
import Streamer.Proofs.CutReplies
import Streamer.Proofs.Download

/-!
# Replies say where they end

Who knows what was asked can tell where the reply ends: one to `GET` has the length that its first line
announces, one to `LIST` the number of lines, and the others are one line. So a client that sends many
requests on one connection gets from the stream the reply to each of them, whatever files there are,
unless a name in the catalogue has a newline in it.
-/

namespace Streamer
open Text Filesystem

/-- No name in the catalogue has a newline in it. -/
def Separable (fm : FileManager) (fs : FileSystem) : Prop :=
  ∀ files, fm.listFiles fs = .ok files → ∀ f ∈ files, newline ∉ f.filename

/-- The replies that a request can get. -/
def repliesTo (r : Request) : Set Bytes := {b | ∃ fm fs, Separable fm fs ∧ b = reply fm fs r}

/-- How many bytes follow the first line of a reply to `GET`. -/
def bodyLength (l : Bytes) : Nat :=
  if (ascii "OK").isPrefixOf l then (extractUnsigned (l.drop 3)).2 else 0

theorem getReply_framed (fm : FileManager) (fs : FileSystem) (filename : Bytes) :
    ∃ l b, newline ∉ l ∧ b.length = bodyLength l ∧ getReply fm fs filename = l ++ newline :: b := by
  have herror (message : Bytes) (hm : newline ∉ message) : ∃ l b, newline ∉ l ∧
      b.length = bodyLength l ∧ Protocol.buildErrorResponse message = l ++ newline :: b := by
    refine ⟨ascii "ERROR " ++ message, [], ?_, rfl, rfl⟩
    simp only [List.mem_append, not_or]
    exact ⟨by decide, hm⟩
  unfold getReply
  split
  · exact herror _ (by decide)
  split
  · exact herror _ (by decide)
  · exact herror _ (by decide)
  · rename_i c hd
    obtain ⟨size, -, hsize⟩ := FileManager.getFileSize_eq_some hd
    have hnum : extractUnsigned (decimal c.length) = (true, c.length) :=
      extractUnsigned_decimal (w := []) (by simp) (hsize ▸ size.toNat_lt)
    refine ⟨ascii "OK " ++ decimal c.length, c, newline_not_mem_header _, ?_, by
      simp [Protocol.buildGetHeader]⟩
    have hstart : (ascii "OK").isPrefixOf (ascii "OK " ++ decimal c.length) = true := rfl
    rw [bodyLength, if_pos hstart,
      show (ascii "OK " ++ decimal c.length).drop 3 = decimal c.length from rfl, hnum]

theorem listReply_framed {fm : FileManager} {fs : FileSystem} (hs : Separable fm fs) :
    ∃ l b, newline ∉ l ∧ (∃ ls : List Bytes, ls.length = (extractUnsigned (l.drop 3)).2 ∧
      (∀ l' ∈ ls, newline ∉ l') ∧ b = ls.flatMap (· ++ [newline])) ∧
      listReply fm fs = l ++ newline :: b := by
  obtain ⟨files, hfiles⟩ := fm.listFiles_ok fs
  have hnum : extractUnsigned (decimal files.length) = (true, files.length) :=
    extractUnsigned_decimal (w := []) (by simp) (listFiles_listable hfiles).length_lt
  refine ⟨ascii "OK " ++ decimal files.length, _, newline_not_mem_header _,
    ⟨files.map entryLine, ?_, ?_, rfl⟩, ?_⟩
  · rw [show (ascii "OK " ++ decimal files.length).drop 3 = decimal files.length from rfl, hnum,
      List.length_map]
  · intro l hl
    obtain ⟨f, hf, rfl⟩ := List.mem_map.1 hl
    simp only [entryLine, List.mem_append, not_or]
    exact ⟨⟨hs files hfiles f hf, by decide⟩, newline_not_mem_decimal _⟩
  · rw [listReply, hfiles]
    dsimp only
    rw [buildListResponse_eq]
    simp [unlines]

theorem repliesTo_prefixFree (r : Request) : PrefixFree (repliesTo r) := by
  obtain ⟨type, argument⟩ := r
  cases type with
  | GET =>
    refine (PrefixFree.headed newline _ fun l => PrefixFree.length (bodyLength l)).mono ?_
    rintro _ ⟨fm, fs, -, rfl⟩
    exact getReply_framed fm fs argument
  | LIST =>
    refine (PrefixFree.headed newline _ fun l =>
      PrefixFree.lines newline (extractUnsigned (l.drop 3)).2).mono ?_
    rintro _ ⟨fm, fs, hs, rfl⟩
    exact listReply_framed hs
  | QUIT =>
    refine (PrefixFree.singleton (Protocol.buildOkResponse (ascii "BYE"))).mono ?_
    rintro _ ⟨fm, fs, -, rfl⟩
    rfl
  | UNKNOWN =>
    refine (PrefixFree.singleton (Protocol.buildErrorResponse (ascii "INVALID_REQUEST"))).mono ?_
    rintro _ ⟨fm, fs, -, rfl⟩
    rfl

/-- What the lines that are answered can get. -/
def possibleReplies : List Bytes → List (Set Bytes)
  | [] => []
  | line :: rest =>
    if 4096 ≤ line.length then []
    else
      let r := Protocol.parseRequest (dropCr line)
      repliesTo r :: if r.type = .QUIT then [] else possibleReplies rest

theorem possibleReplies_prefixFree (ls : List Bytes) : ∀ S ∈ possibleReplies ls, PrefixFree S := by
  induction ls with
  | nil => exact nofun
  | cons line rest ih =>
    intro S hS
    unfold possibleReplies at hS
    split at hS
    · cases hS
    rcases List.mem_cons.1 hS with rfl | hS
    · exact repliesTo_prefixFree _
    split at hS
    · cases hS
    · exact ih S hS

theorem replies_possible {fm : FileManager} {fs : FileSystem} (hs : Separable fm fs) (ls : List Bytes) :
    List.Forall₂ (· ∈ ·) (replies fm fs ls) (possibleReplies ls) := by
  induction ls with
  | nil => exact .nil
  | cons line rest ih =>
    unfold replies possibleReplies
    split
    · exact .nil
    refine .cons ⟨fm, fs, hs, rfl⟩ ?_
    split
    · exact .nil
    · exact ih

/-- Two media directories that answer a stream of requests with the same bytes, or the one with a
beginning of what the other sends, give the same reply to every request. -/
theorem replies_determined {fm fm' : FileManager} {fs fs' : FileSystem} (hs : Separable fm fs)
    (hs' : Separable fm' fs') {requests : List Bytes}
    (h : (replies fm fs requests).flatten <+: (replies fm' fs' requests).flatten) :
    replies fm fs requests = replies fm' fs' requests :=
  PrefixFree.eq_of_flatten_prefix (possibleReplies_prefixFree requests) (replies_possible hs requests)
    (replies_possible hs' requests) h

/-- A session that answers all of its input: no exception, and a kernel that keeps moving bytes. -/
structure Answerable (fm : FileManager) (fs : FileSystem) (chunkSize memory : Nat) (socket : Socket) :
    Prop where
  allocates : (ClientSession.Config.new (fm.media fs) chunkSize memory).allocate = none
  valid : socket.isValid = true
  sent : socket.sent = []
  fin : socket.fin = true
  recvs : Kernel.Lively (socket.inbox.length + 1) socket.recvs
  sends : Kernel.Lively (replies fm fs (lines socket.inbox)).flatten.length socket.sends

theorem Answerable.run_sent {fm : FileManager} {fs : FileSystem} {chunkSize memory : Nat} {socket : Socket}
    (h : Answerable fm fs chunkSize memory socket) :
    (ClientSession.run (.new (fm.media fs) chunkSize memory) (.new socket)).2.socket.sent =
      (replies fm fs (lines socket.inbox)).flatten := by
  obtain ⟨-, hout, -⟩ := (ClientSession.run_runs (.new (fm.media fs) chunkSize memory)
    (.new socket)).sends_replies (n := 0) rfl h.allocates
      ⟨rfl, rfl, h.valid, h.fin, fun _ => h.recvs, h.sends⟩
  refine hout.trans ?_
  show socket.sent ++ _ = _
  rw [h.sent]
  rfl

/-- What a client gets determines the reply to each of its requests: if a session on one media directory
sends the same bytes as a session on another one for the same requests, or a beginning of them, every
request has the same reply in both. -/
theorem sent_determines_replies (fm fm' : FileManager) (fs fs' : FileSystem)
    (chunkSize chunkSize' memory memory' : Nat) (socket socket' : Socket) (hs : Separable fm fs)
    (hs' : Separable fm' fs') (hserved : Answerable fm fs chunkSize memory socket)
    (hserved' : Answerable fm' fs' chunkSize' memory' socket') (hsame : socket.inbox = socket'.inbox)
    (h : (ClientSession.run (.new (fm.media fs) chunkSize memory) (.new socket)).2.socket.sent <+:
      (ClientSession.run (.new (fm'.media fs') chunkSize' memory') (.new socket')).2.socket.sent) :
    replies fm fs (lines socket.inbox) = replies fm' fs' (lines socket'.inbox) := by
  rw [hserved.run_sent, hserved'.run_sent, ← hsame] at h
  rw [← hsame]
  exact replies_determined hs hs' h

theorem separable_of_listFiles {fm : FileManager} {fs : FileSystem} {files : List MediaFileInfo}
    (h : fm.listFiles fs = .ok files) (hall : ∀ f ∈ files, newline ∉ f.filename) : Separable fm fs := by
  intro files' h'
  obtain rfl : files = files' := Except.ok.inj (h.symm.trans h')
  exact hall

/-- The directory of `sampleTree` with one more file in it. -/
def largerTree : List (Loc × Node) :=
  [([], .dir [ascii "m"]), ([ascii "m"], .dir [ascii "a", ascii "b"]),
    ([ascii "m", ascii "a"], .file (ascii "hi") true), ([ascii "m", ascii "b"], .file [] true)]

def largerFs : FileSystem := .ofNodes largerTree 40 (by decide)

open ClientSession in
/-- Requests that do not show the difference. -/
theorem sample_sent_determines_replies :
    replies sampleManager sampleFs (lines (ascii "GET a\nGET ../b\nQUIT\n")) =
      replies sampleManager largerFs (lines (ascii "GET a\nGET ../b\nQUIT\n")) := by
  have hfiles : sampleManager.listFiles sampleFs = .ok [⟨ascii "a", 2⟩] := by decide +kernel
  have hfiles' : sampleManager.listFiles largerFs = .ok [⟨ascii "a", 2⟩, ⟨ascii "b", 0⟩] := by
    decide +kernel
  refine sent_determines_replies sampleManager sampleManager sampleFs largerFs 1 4 1 4
    (connection (ascii "GET a\nGET ../b\nQUIT\n") 1 99 99)
    (connection (ascii "GET a\nGET ../b\nQUIT\n") 3 99 99)
    (separable_of_listFiles hfiles (by decide)) (separable_of_listFiles hfiles' (by decide))
    ⟨?_, ?_, ?_, ?_, ?_, ?_⟩ ⟨?_, ?_, ?_, ?_, ?_, ?_⟩ rfl ?_ <;> decide +kernel

end Streamer

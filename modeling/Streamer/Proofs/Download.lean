import Mathlib.Data.List.Infix
import Streamer.Client
import Streamer.Proofs.Failures

/-!
# A download, end to end

The two parties are `do_get` and `run` on the two ends of one connection. An end's `inbox` is all
that ever arrives there, so a reliable byte stream is the pair of prefix conditions `Delivered`:
what arrives at an end is a prefix of what the other end has sent, all of it when the end of the
stream is seen. The client's loop is summed up by `doGet_true` (what it has read when it returns
true), the server's by `Answers` and `Runs.sends_parts`; the file is the same because the header
line ends where the server ended it and the body has the length it announces.
-/

namespace Streamer
open Text Kernel Filesystem

/-! ### The client's loop -/

/-- How many writes the loop makes for `n` bytes. -/
def chunks (n : Nat) : Nat := (n + CHUNK_SIZE - 1) / CHUNK_SIZE

/-- One of the writes of a file of `n` bytes fails, or the flush at the end loses some of them. -/
def LocalDisk.WritesFail (disk : LocalDisk) (n : Nat) : Prop :=
  (∃ w ∈ disk.writes.take (chunks n), w ≠ none) ∨ (0 < disk.lost ∧ 0 < n)

instance (disk : LocalDisk) (n : Nat) : Decidable (disk.WritesFail n) :=
  inferInstanceAs (Decidable ((∃ w ∈ disk.writes.take (chunks n), w ≠ none) ∨ (0 < disk.lost ∧ 0 < n)))

/-- The next `m` writes succeed. -/
def OutFile.Sound (m : Nat) (out : OutFile) : Prop := out.bad = false ∧ ∀ w ∈ out.writes.take m, w = none

theorem OutFile.Sound.write {m : Nat} {out : OutFile} (h : out.Sound (m + 1)) (buffer : Bytes) :
    (out.write buffer).Sound m ∧ (out.write buffer).data = out.data ++ buffer := by
  obtain ⟨hb, hw⟩ := h
  unfold OutFile.write
  simp only [hb, Bool.false_eq_true, if_false]
  split
  · rename_i k writes hwr
    have := hw (some k) (by rw [hwr]; simp)
    cases this
  · rename_i hwr
    refine ⟨⟨rfl, ?_⟩, rfl⟩
    intro w hm
    exact hw w (by rw [hwr, List.take_succ_cons]; exact List.mem_cons_of_mem _ hm)
  · exact ⟨⟨rfl, by simp⟩, rfl⟩

theorem chunks_turn {n : Nat} (hn : 0 < n) : chunks n = chunks (n - min CHUNK_SIZE n) + 1 := by
  unfold chunks CHUNK_SIZE
  omega

section Receive
variable {fileSize fuel total : Nat} {sock : Socket} {out : OutFile}

/-- When the loop ends well it has taken exactly the missing bytes off the stream. -/
theorem receiveLoop_true (hle : total ≤ fileSize)
    (h : (receiveLoop fileSize fuel total sock out).1 = true) :
    ∃ body rest recvs, sock.inbox = body ++ rest ∧ body.length = fileSize - total ∧
      (receiveLoop fileSize fuel total sock out).2.1 = { sock with inbox := rest, recvs := recvs } ∧
      (out.Sound (chunks (fileSize - total)) →
        (receiveLoop fileSize fuel total sock out).2.2.data = out.data ++ body) := by
  induction fuel generalizing total sock out with
  | zero => cases h
  | succ fuel ih =>
    unfold receiveLoop at h ⊢
    dsimp only at h ⊢
    split
    · rename_i hlt
      rw [if_pos hlt] at h
      split
      · rename_i h0; rw [if_pos h0] at h; cases h
      rename_i h0
      rw [if_neg h0] at h
      split
      · rename_i h1; rw [if_pos h1] at h; cases h
      rename_i h1
      rw [if_neg h1] at h
      obtain ⟨taken, rest, recvs, hin, hlen, hbuf, hrecv⟩ := Socket.recvAll_done h0 h1
      rw [hbuf, hrecv] at h ⊢
      obtain ⟨body, rest', recvs', hin', hlen', hsock, hdata⟩ := ih (by omega) h
      dsimp only at hin' hsock
      refine ⟨taken ++ body, rest', recvs', by rw [hin, hin', List.append_assoc], ?_, hsock, ?_⟩
      · rw [List.length_append, hlen, hlen']; omega
      · intro hs
        rw [chunks_turn (by omega)] at hs
        obtain ⟨hs', hd⟩ := hs.write taken
        rw [Nat.sub_sub] at hs'
        rw [hdata hs', hd, List.append_assoc]
    · exact ⟨[], sock.inbox, sock.recvs, rfl, by simp; omega, rfl, fun _ => by simp⟩

theorem receiveLoop_lively {n : Nat} (sock : Socket) (out : OutFile) (hv : sock.isValid = true)
    (hin : fileSize - total ≤ sock.inbox.length)
    (hrecvs : Lively (fileSize - total + n) sock.recvs) (hfuel : fileSize - total ≤ fuel * CHUNK_SIZE) :
    (receiveLoop fileSize (fuel + 1) total sock out).1 = true := by
  induction fuel generalizing total sock out with
  | zero =>
    have : ¬ total < fileSize := by omega
    simp [receiveLoop, this]
  | succ fuel ih =>
    unfold receiveLoop
    dsimp only
    split
    · rename_i hlt
      obtain ⟨hres, hlive⟩ :=
          Socket.recvAll_lively (n := fileSize - total - min CHUNK_SIZE (fileSize - total) + n) hv
        (Nat.le_trans (Nat.min_le_right CHUNK_SIZE _) hin) (hrecvs.mono (by omega))
      rw [if_neg (by rw [hres]; decide), if_neg (by rw [hres]; decide)]
      obtain ⟨taken, rest, recvs, hin', hlen, hbuf, hrecv⟩ :=
        Socket.recvAll_done (by rw [hres]; decide) (by rw [hres]; decide)
      rw [hrecv] at hlive ⊢
      refine ih _ _ hv ?_ (hlive.mono (by omega)) ?_
      · rw [hin'] at hin; simp at hin ⊢; omega
      · rw [Nat.succ_mul] at hfuel; omega
    · rfl

/-- The turns that `download` allows are enough. -/
theorem le_turns (n : Nat) : n - 0 ≤ (n / CHUNK_SIZE + 1) * CHUNK_SIZE := by
  have := Nat.lt_div_mul_add (a := n) (show 0 < CHUNK_SIZE by decide)
  rw [Nat.add_mul]
  omega

theorem receiveLoop_sent : (receiveLoop fileSize fuel total sock out).2.1.sent = sock.sent := by
  have hrecv (sock : Socket) (n : Nat) : (sock.recvAll n).2.2.sent = sock.sent := by
    unfold Socket.recvAll
    split <;> rfl
  induction fuel generalizing total sock out with
  | zero => rfl
  | succ fuel ih =>
    unfold receiveLoop
    dsimp only
    split
    · split
      · exact hrecv _ _
      split
      · exact hrecv _ _
      · exact ih.trans (hrecv _ _)
    · rfl

end Receive

def getRequest (filename : Bytes) : Bytes := ascii "GET " ++ filename ++ [newline]

theorem download_true {disk : LocalDisk} {sock : Socket} {header : Bytes}
    (h : (download disk sock header).1 = .ok true) :
    ∃ body rest q, sock.inbox = body ++ rest ∧ ascii "OK" <+: header ∧
      extractUnsigned (header.drop 3) = (true, body.length) ∧
      (download disk sock header).2.1.sent = sock.sent ++ q ∧ q <+: ascii "QUIT\n" ∧
      (¬ disk.WritesFail body.length → (download disk sock header).2.2.file = some body) := by
  unfold download at h ⊢
  split at h
  · cases h
  rename_i hstart
  rw [if_neg hstart]
  by_cases hlen : header.length < 3
  · simp [substr, hlen] at h
  simp only [substr, hlen, if_false] at h ⊢
  split at h
  · cases h
  rename_i hnum
  rw [if_neg hnum]
  split at h
  · cases h
  rename_i hopens
  rw [if_neg hopens]
  split at h
  · cases h
  rename_i hloop
  rw [if_neg hloop]
  split at h
  · cases h
  rename_i hresolves
  rw [if_neg hresolves]
  obtain ⟨body, rest, recvs, hin, hbody, hsock, hdata⟩ :=
    receiveLoop_true (Nat.zero_le _) (by simpa using hloop)
  obtain ⟨q, hq, -, hquit⟩ :=
      Socket.sendAll_spec { sock with inbox := rest, recvs := recvs } (ascii "QUIT\n")
  refine ⟨body, rest, q, hin, by simpa using hstart, ?_, ?_, hq, ?_⟩
  · exact Prod.ext (by simpa using hnum) (by simpa using hbody.symm)
  · rw [hsock]
    exact congrArg Socket.sent hquit
  · intro hw
    simp only [LocalDisk.WritesFail, not_or, not_exists, not_and, not_not, not_lt, hbody] at hw
    have := hdata ⟨rfl, hw.1⟩
    rw [LocalDisk.close, this, List.nil_append, List.take_of_length_le]
    omega

/-- What the client has read when `do_get` returns true: a header line `l`, with its newline or at the
end of the stream, that announces the length of the `body` behind it. -/
structure Fetched (inbox l header body rest : Bytes) : Prop where
  no_newline : newline ∉ l
  line : inbox = l ++ newline :: (body ++ rest) ∧ header = dropCr l ∨ inbox = l ∧
    body ++ rest = [] ∧ header = l
  ok : ascii "OK" <+: header
  size : extractUnsigned (header.drop 3) = (true, body.length)

theorem doGet_true {disk : LocalDisk} {sock : Socket} {filename : Bytes}
    (h : (doGet disk sock filename).1 = .ok true) :
    ∃ l header body rest q, Fetched sock.inbox l header body rest ∧
      (doGet disk sock filename).2.1.sent = sock.sent ++ getRequest filename ++ q ∧ q <+: ascii "QUIT\n" ∧
      (¬ disk.WritesFail body.length → (doGet disk sock filename).2.2.file = some body) := by
  unfold doGet at h ⊢
  dsimp only at h ⊢
  split at h
  · cases h
  rename_i hcreates
  rw [if_neg hcreates]
  split at h
  · cases h
  rename_i hsend
  rw [if_neg hsend]
  rw [Bool.not_eq_true, Bool.not_eq_false'] at hsend
  obtain ⟨sends, hsent⟩ := Socket.sendString_true hsend
  rw [hsent] at h ⊢
  split at h
  · cases h
  rename_i hline
  rw [if_neg hline]
  rw [Bool.not_eq_true, Bool.not_eq_false'] at hline
  obtain ⟨l, rest, hl, -, hsock', hcase⟩ := Socket.recvLine_true hline
  rw [hsock'] at h ⊢
  obtain ⟨body, tail, q, hin, hstart, hnum, hsent, hq, hfile⟩ := download_true h
  obtain rfl : rest = body ++ tail := hin
  exact ⟨l, _, body, tail, q, ⟨hl, hcase.imp_right fun h => ⟨h.1, h.2.2.2⟩, hstart, hnum⟩,
    hsent, hq, hfile⟩

namespace Fetched
variable {inbox l header body rest : Bytes}

theorem header_prefix (h : Fetched inbox l header body rest) : header <+: l ∧ l <+: inbox := by
  rcases h.line with ⟨hin, hh⟩ | ⟨hin, -, hh⟩
  · exact ⟨hh ▸ dropCr_prefix l, hin ▸ List.prefix_append _ _⟩
  · exact ⟨hh ▸ List.prefix_rfl, hin ▸ List.prefix_rfl⟩

/-- A stream that begins with `OK n` and `n` bytes gives exactly these bytes. -/
theorem body_eq {c extra : Bytes} (hc : c.length < 2 ^ 64) (h : Fetched inbox l header body rest)
    (hin : inbox <+: Protocol.buildGetHeader c.length ++ c ++ extra) : body = c := by
  have hsplit : Protocol.buildGetHeader c.length ++ c ++ extra =
      (ascii "OK " ++ decimal c.length) ++ newline :: (c ++ extra) := by simp [Protocol.buildGetHeader]
  have hnl : newline ∉ ascii "OK " ++ decimal c.length := by
    simp only [List.mem_append, not_or]
    exact ⟨by decide, newline_not_mem_decimal _⟩
  have hsize := h.size
  rw [hsplit] at hin
  rcases h.line with ⟨hline, hheader⟩ | ⟨hline, hnil, hheader⟩
  · rw [hline] at hin
    obtain ⟨rfl, hrest⟩ := line_of_prefix h.no_newline hnl hin
    rw [hheader, dropCr_append_decimal, show (ascii "OK " ++ decimal c.length).drop 3 =
      decimal c.length from rfl, show decimal c.length = [] ++ decimal c.length from rfl,
        extractUnsigned_decimal (by simp) hc] at hsize
    have hlen : c.length = body.length := (Prod.mk.inj hsize).2
    have hbody : body <+: c ++ extra := (List.prefix_append body rest).trans hrest
    exact (List.prefix_of_prefix_length_le hbody (List.prefix_append c extra) (by omega)).eq_of_length
      hlen.symm
  · -- the stream ended inside the header: a part of the digits can only announce nothing
    rw [hline] at hin
    have hl := prefix_line h.no_newline hin
    have hbody : body = [] := (List.append_eq_nil_iff.1 hnil).1
    rw [hheader, hbody] at hsize
    have hdigits : l.drop 3 <+: decimal c.length := by
      have := hl.drop 3
      rwa [show (ascii "OK " ++ decimal c.length).drop 3 = decimal c.length from rfl] at this
    obtain ⟨hne, hval⟩ :=
      extractUnsigned_digits (fun b hb => isDigit_of_mem_decimal (hdigits.subset hb)) (by rw [hsize])
    rw [hsize] at hval
    have := eq_zero_of_prefix_decimal hdigits hne hval.symm
    rw [hbody, List.length_eq_zero_iff.1 this]

theorem not_bye (h : Fetched inbox l header body rest) : ¬ inbox <+: ascii "OK BYE\n" := by
  intro hin
  have hl : l <+: ascii "OK BYE" :=
    prefix_line (s := []) h.no_newline (h.header_prefix.2.trans hin)
  have hheader := h.header_prefix.1.trans hl
  have hall : ∀ p ∈ (ascii "OK BYE").inits, (extractUnsigned (p.drop 3)).1 = false := by decide
  have := hall header ((List.mem_inits _ _).2 hheader)
  rw [h.size] at this
  cases this

end Fetched

/-- A reliable byte stream in both directions. `fromClient` and `fromServer` are all that the two
ends have sent, an `inbox` is all that has arrived there; who sees the end of a stream has got all
of it. -/
structure Delivered (client server : Socket) (fromClient fromServer : Bytes) : Prop where
  to_server : server.inbox <+: fromClient
  server_end : server.fin = true → server.inbox = fromClient
  to_client : client.inbox <+: fromServer

/-! ### The server's side -/

theorem getReply_cases (fm : FileManager) (fs : FileSystem) (filename : Bytes) :
    ascii "ERROR " <+: getReply fm fs filename ∨
      ∃ c, fm.designated fs filename = some (c, true) ∧ c.length < 2 ^ 64 ∧
        getReply fm fs filename = Protocol.buildGetHeader c.length ++ c := by
  have herror (message : Bytes) : ascii "ERROR " <+: Protocol.buildErrorResponse message := by
    rw [Protocol.buildErrorResponse, List.append_assoc]
    exact List.prefix_append _ _
  unfold getReply
  split
  · exact .inl (herror _)
  split
  · exact .inl (herror _)
  · exact .inl (herror _)
  · rename_i c hd
    obtain ⟨size, -, hsize⟩ := FileManager.getFileSize_eq_some hd
    exact .inr ⟨c, hd, hsize ▸ size.toNat_lt, rfl⟩

/-- The client's farewell, cut anywhere, gets at most one more reply. -/
theorem replies_quit (fm : FileManager) (fs : FileSystem) {rest : Bytes} (h : rest <+: ascii "QUIT\n") :
    replies fm fs (lines rest) = [] ∨ replies fm fs (lines rest) = [ascii "OK BYE\n"] ∨
      replies fm fs (lines rest) = [ascii "ERROR INVALID_REQUEST\n"] := by
  have hmem : rest ∈ [ascii "", ascii "Q", ascii "QU", ascii "QUI", ascii "QUIT", ascii "QUIT\n"] :=
    (List.mem_inits rest (ascii "QUIT\n")).2 h
  simp only [List.mem_cons, List.not_mem_nil, or_false] at hmem
  rcases hmem with rfl | rfl | rfl | rfl | rfl | rfl
  · exact .inl rfl
  · exact .inr (.inr rfl)
  · exact .inr (.inr rfl)
  · exact .inr (.inr rfl)
  · exact .inr (.inl rfl)
  · exact .inr (.inl rfl)

/-- What has been sent to a client that asks for one file and says goodbye, when the session ends: a
part of the reply, and more only after the whole reply or after an `ERROR` line. -/
structure Sent (reply sent acc extra : Bytes) : Prop where
  eq : sent = acc ++ extra
  part : acc <+: reply
  rest : extra = [] ∨ acc = reply ∨
    ascii "ERROR " <+: reply ∧ (extra <+: ascii "OK BYE\n" ∨ extra <+: ascii "ERROR INVALID_REQUEST\n")

/-- The first line of a stream that begins with a GET request is the whole request. -/
theorem recvLine_getRequest {s : ClientSession} {filename q : Bytes} (hnl : newline ∉ filename)
    (hin : s.socket.inbox <+: getRequest filename ++ q)
    (hend : s.socket.fin = true → s.socket.inbox = getRequest filename ++ q)
    (hr : s.recvLine.1 = true) :
    Protocol.parseRequest s.recvLine.2.1 = ⟨.GET, trim filename⟩ ∧
      s.recvLine.2.2.socket.inbox <+: q := by
  have hline : newline ∉ ascii "GET " ++ filename := Protocol.newline_not_mem_get hnl
  have hreq : getRequest filename ++ q = (ascii "GET " ++ filename) ++ newline :: q := by
    simp [getRequest]
  obtain ⟨l, rest, hl, -, -, hinbox, -, hpl, hcase⟩ := ClientSession.recvLine_line hr
  rcases hcase with hcase | ⟨hcase, hfin⟩
  · rw [hcase, hreq] at hin
    obtain ⟨rfl, hrest⟩ := line_of_prefix hl hline hin
    rw [hpl, Protocol.parseRequest_dropCr, Protocol.parseRequest_get hnl, hinbox]
    exact ⟨rfl, hrest⟩
  · rw [← hcase, hend hfin, hreq] at hl
    exact absurd (by simp) hl

/-- Parts of one reply at most. -/
theorem flatten_of_parts {accs served : List Bytes} {reply : Bytes}
    (hparts : List.Forall₂ (· <+: ·) accs served) (h : served <+: [reply]) :
    accs.flatten = [] ∨ accs.flatten <+: reply := by
  cases hparts with
  | nil => exact .inl rfl
  | cons hp hps =>
    obtain ⟨rfl, htail⟩ := List.cons_prefix_cons.1 h
    obtain rfl := List.prefix_nil.1 htail
    cases hps
    exact .inr (by simpa using hp)

open ClientSession in
theorem Runs.sent_download {fm : FileManager} {fs : FileSystem} {cfg : Config}
    (hm : cfg.fileManager = fm.media fs)
    {s : ClientSession} {res : Option Exn × ClientSession} (h : Runs cfg s res)
    (hsent : s.socket.sent = [])
    {filename q : Bytes} (hnl : newline ∉ filename) (hq : q <+: ascii "QUIT\n")
    (hin : s.socket.inbox <+: getRequest filename ++ q)
    (hend : s.socket.fin = true → s.socket.inbox = getRequest filename ++ q) :
    ∃ acc extra, Sent (getReply fm fs (trim filename)) res.2.socket.sent acc extra := by
  have hload (s : ClientSession) := Extends.loadActive s
  have hfirst (r : Request) (hr : s.loadActive.2.recvLine.1 = true)
      (hp : Protocol.parseRequest s.loadActive.2.recvLine.2.1 = r) :
      r = ⟨.GET, trim filename⟩ ∧ s.loadActive.2.recvLine.2.2.socket.inbox <+: q := by
    rw [← hp]
    rw [← (hload s).inbox] at hin hend
    rw [← (hload s).fin] at hend
    exact recvLine_getRequest hnl hin hend hr
  have hbegin (r : Request) : (s.loadActive.2.recvLine.2.2.emit (.request r)).socket.sent = [] := by
    obtain ⟨-, h2, -⟩ := s.loadActive.2.recvLine_spec
    simp [emit, h2, (hload s).sent, hsent]
  cases h with
  | stopped hl => exact ⟨[], [], by simp [(hload s).sent, hsent], List.nil_prefix, .inl rfl⟩
  | ended hl hr =>
    obtain ⟨-, h2, -⟩ := s.loadActive.2.recvLine_spec
    exact ⟨[], [], by simp [h2, (hload s).sent, hsent], List.nil_prefix, .inl rfl⟩
  | @thrown _ r x hl hr hp hx =>
    obtain ⟨rfl, -⟩ := hfirst r hr hp
    obtain ⟨acc, hpre, hacc, -⟩ := (handle_answers hm (s.loadActive.2.recvLine.2.2.emit
      (.request ⟨.GET, trim filename⟩)) ⟨.GET, trim filename⟩).part
    exact ⟨acc, [], by simp [hacc, hbegin], hpre, .inl rfl⟩
  | @next _ r _ hl hr hp hx hrest =>
    obtain ⟨rfl, hinbox⟩ := hfirst r hr hp
    obtain ⟨acc, hpre, hacc, hwhole⟩ := (handle_answers hm (s.loadActive.2.recvLine.2.2.emit
      (.request ⟨.GET, trim filename⟩)) ⟨.GET, trim filename⟩).part
    rw [hbegin, List.nil_append] at hacc
    cases hact : (handle cfg (s.loadActive.2.recvLine.2.2.emit (.request ⟨.GET, trim filename⟩))
        ⟨.GET, trim filename⟩).2.isActive with
    | false =>
      rw [hrest.of_inactive hact]
      exact ⟨acc, [], by simp [(hload _).sent, hacc], hpre, .inl rfl⟩
    | true =>
      obtain ⟨evs, hh, -⟩ :=
        Served.handle (s.loadActive.2.recvLine.2.2.emit (.request ⟨.GET, trim filename⟩)) cfg
        ⟨.GET, trim filename⟩
      obtain ⟨accs, served, hout, hparts, hserved, -⟩ := hrest.sends_parts hm
      rw [hh.inbox] at hserved
      refine ⟨acc, accs.flatten, by rw [hout, hacc], hpre, ?_⟩
      rcases hwhole hx hact with hw | ⟨herr, -⟩
      · exact .inr (.inl hw)
      · -- the next line is at most the farewell
        rcases replies_quit fm fs (hinbox.trans hq) with h | h | h
        · rw [show (s.loadActive.2.recvLine.2.2.emit _).socket.inbox =
            s.loadActive.2.recvLine.2.2.socket.inbox
            from rfl, h, List.prefix_nil] at hserved
          subst hserved
          cases hparts
          exact .inl rfl
        · exact (flatten_of_parts hparts (h ▸ hserved)).imp_right fun h => .inr ⟨herr, .inl h⟩
        · exact (flatten_of_parts hparts (h ▸ hserved)).imp_right fun h => .inr ⟨herr, .inr h⟩

/-- What the two sides have in common: a client that has read a complete download from what the
session sent has read the designated file. -/
theorem Fetched.designated {fm : FileManager} {fs : FileSystem}
    {filename inbox l header body rest sent acc extra : Bytes}
    (h : Fetched inbox l header body rest) (hs : Sent (getReply fm fs filename) sent acc extra)
    (hin : inbox <+: sent) : fm.designated fs filename = some (body, true) := by
  have hok : ascii "OK" <+: acc ++ extra :=
    hs.eq ▸ (h.ok.trans h.header_prefix.1).trans (h.header_prefix.2.trans hin)
  rw [hs.eq] at hin
  have hstart {a b : UInt8} {x y z : Bytes} (h1 : a :: x <+: z) (h2 : b :: y <+: z) : a = b := by
    rcases List.prefix_or_prefix_of_prefix h1 h2 with h | h
    · exact (List.cons_prefix_cons.1 h).1
    · exact (List.cons_prefix_cons.1 h).1.symm
  rcases getReply_cases fm fs filename with herr | ⟨c, hd, hc, hreply⟩
  · -- an `ERROR` line does not begin with `OK`; nothing but the farewell's reply could follow it
    exfalso
    cases hacc : acc with
    | cons b acc' =>
      have h1 : b = 69 := hstart (hacc ▸ hs.part) herr
      have h2 : b = 79 := hstart (x := acc' ++ extra) (by rw [hacc]; exact List.prefix_rfl) hok
      rw [h1] at h2
      revert h2
      decide
    | nil =>
      rw [hacc, List.nil_append] at hok hin
      rcases hs.rest with he | he | ⟨-, he | he⟩
      · rw [he] at hok; revert hok; decide
      · rw [← he, hacc] at herr; revert herr; decide
      · exact h.not_bye (hin.trans he)
      · have := hstart (hok.trans he) (List.prefix_rfl (l := ascii "ERROR INVALID_REQUEST\n"))
        revert this
        decide
  · have hwhole : inbox <+: getReply fm fs filename ++ extra := by
      rcases hs.rest with he | he | ⟨he, -⟩
      · rw [he, List.append_nil] at hin
        exact (hin.trans hs.part).trans (List.prefix_append _ _)
      · rwa [he] at hin
      · rw [hreply] at he
        have : (69 : UInt8) = 79 := hstart he (z := Protocol.buildGetHeader c.length ++ c)
          (y := ascii "K " ++ decimal c.length ++ [newline] ++ c)
            (by rw [Protocol.buildGetHeader]; exact List.prefix_rfl)
        exact absurd this (by decide)
    rw [hreply] at hwhole
    rw [hd, h.body_eq hc hwhole]

/-! ### A connection that does not fail -/

/-- The kernel keeps moving bytes at this end, at least `n` times in each direction. -/
structure Reliable (sock : Socket) (n : Nat) : Prop where
  valid : sock.isValid = true
  recvs : Lively n sock.recvs
  sends : Lively n sock.sends

theorem download_sent (disk : LocalDisk) (sock : Socket) (header : Bytes) :
    sock.sent <+: (download disk sock header).2.1.sent := by
  unfold download
  split
  · exact List.prefix_rfl
  split
  · exact List.prefix_rfl
  dsimp only
  split
  · exact List.prefix_rfl
  split
  · exact List.prefix_rfl
  split
  · rw [receiveLoop_sent]
  split
  · rw [receiveLoop_sent]
  · refine .trans ?_ (Socket.sent_prefix_sendString _ _)
    rw [receiveLoop_sent]

theorem getRequest_prefix (disk : LocalDisk) {sock : Socket} {filename : Bytes} {n : Nat}
    (hcreates : disk.creates = true)
    (hv : sock.isValid = true) (hsends : Lively ((getRequest filename).length + n) sock.sends) :
    sock.sent ++ getRequest filename <+: (doGet disk sock filename).2.1.sent := by
  obtain ⟨sends, hsend, -⟩ := Socket.sendString_lively _ hv hsends
  rw [getRequest] at hsend
  simp only [doGet, hcreates, hsend, Bool.not_true, Bool.false_eq_true, if_false]
  have hline (s : Socket) : (s.recvLine).2.2.sent = s.sent := by
    unfold Socket.recvLine
    split <;> rfl
  split
  · rw [hline]; exact List.prefix_rfl
  · refine .trans ?_ (download_sent _ _ _)
    rw [hline]
    exact List.prefix_rfl

theorem doGet_eq_download {disk : LocalDisk} {sock : Socket} {filename c more : Bytes}
    (hc : c.length < 2 ^ 64)
    (hcreates : disk.creates = true) (hsend : (sock.sendString (getRequest filename)).1 = true)
    (hin : sock.inbox = Protocol.buildGetHeader c.length ++ c ++ more)
    (hrecvs : Lively (Protocol.buildGetHeader c.length ++ c).length sock.recvs) :
    ∃ sock', sock'.isValid = true ∧ sock'.inbox = c ++ more ∧ Lively c.length sock'.recvs ∧
      doGet disk sock filename = download disk sock' (ascii "OK " ++ decimal c.length) := by
  have hv : sock.isValid = true := Socket.sendString_isValid hsend
  obtain ⟨sends, hsent⟩ := Socket.sendString_true hsend
  rw [getRequest] at hsent
  have hheader : sock.inbox = (ascii "OK " ++ decimal c.length) ++ newline :: (c ++ more) := by
    simp [hin, Protocol.buildGetHeader]
  have hlive : Lively ((ascii "OK " ++ decimal c.length).length + 1 + c.length) sock.recvs := by
    refine hrecvs.mono (Nat.le_of_eq ?_)
    simp only [Protocol.buildGetHeader, List.length_append, List.length_cons, List.length_nil]
  obtain ⟨⟨recvs, hline, hlive'⟩, -⟩ := recvLine_okHeader hc
    (s := { sock with sent := sock.sent ++ (ascii "GET " ++ filename ++ [newline]), sends := sends })
      hv hheader hlive
  refine ⟨{ sock with sent := sock.sent ++ (ascii "GET " ++ filename ++ [newline]), sends := sends,
                      inbox := c ++ more, recvs := recvs }, hv, rfl, hlive', ?_⟩
  simp only [doGet, hcreates, hsent, hline, Bool.not_true, Bool.false_eq_true, if_false]

/-- A stream that is delivered in full ends in success whatever becomes of the writes: only
`canonical` can still throw. -/
theorem doGet_lively {disk : LocalDisk} {sock : Socket} {filename c more : Bytes} (hc : c.length < 2 ^ 64)
    (hcreates : disk.creates = true) (hsend : (sock.sendString (getRequest filename)).1 = true)
    (hin : sock.inbox = Protocol.buildGetHeader c.length ++ c ++ more)
    (hrecvs : Lively (Protocol.buildGetHeader c.length ++ c).length sock.recvs) :
    (doGet disk sock filename).1 =
      if !disk.opens then .ok false
      else if !disk.resolves then .error .filesystemError else .ok true := by
  obtain ⟨sock', hv, hin', hlive, hget⟩ := doGet_eq_download hc hcreates hsend hin hrecvs
  have hok : (ascii "OK").isPrefixOf (ascii "OK " ++ decimal c.length) = true := rfl
  have hsub : substr (ascii "OK " ++ decimal c.length) 3 = .ok (decimal c.length) := rfl
  have hnum : extractUnsigned (decimal c.length) = (true, c.length) :=
      extractUnsigned_decimal (w := []) (by simp) hc
  have hloop :=
      receiveLoop_lively (n := 0) sock' ⟨[], false, disk.writes⟩ hv (by simp [hin']) hlive (le_turns _)
  rw [hget]
  simp only [download, hok, hsub, hnum, hloop, Bool.not_true, Bool.false_eq_true, if_false]
  split
  · rfl
  split <;> rfl

theorem doGet_not_stored {disk : LocalDisk} {sock : Socket} {filename c more : Bytes}
    (hc : c.length < 2 ^ 64) (hin : sock.inbox = Protocol.buildGetHeader c.length ++ c ++ more)
    (hrecvs : Lively (Protocol.buildGetHeader c.length ++ c).length sock.recvs)
    (h : ¬ (disk.creates = true ∧ (sock.sendString (getRequest filename)).1 = true ∧ disk.opens = true)) :
    (doGet disk sock filename).1 = .ok false := by
  by_cases hcreates : disk.creates = true
  swap
  · simp [doGet, hcreates]
  by_cases hsend : (sock.sendString (getRequest filename)).1 = true
  swap
  · rw [getRequest, Bool.not_eq_true] at hsend
    simp only [doGet, hcreates, hsend, Bool.not_true, Bool.not_false, Bool.false_eq_true,
      if_false, if_true]
  rw [doGet_lively hc hcreates hsend hin hrecvs]
  have hopens : disk.opens = false := by simpa [hcreates, hsend] using h
  simp [hopens]

open ClientSession in
theorem run_serves {fm : FileManager} {fs : FileSystem} {chunkSize memory : Nat} {server : Socket}
    (halloc : (Config.new (fm.media fs) chunkSize memory).allocate = none) (hsent : server.sent = [])
    {filename c more : Bytes} (hnl : newline ∉ filename) (hlen : (ascii "GET " ++ filename).length < 4096)
    (hd : fm.designated fs (trim filename) = some (c, true))
    (hin : server.inbox = getRequest filename ++ more) (hv : server.isValid = true)
    (hrecvs : Lively (getRequest filename).length server.recvs)
    (hsends : Lively (Protocol.buildGetHeader c.length ++ c).length server.sends) :
    Protocol.buildGetHeader c.length ++ c <+:
      (run (.new (fm.media fs) chunkSize memory) (.new server)).2.socket.sent := by
  have hreply : getReply fm fs (trim filename) = Protocol.buildGetHeader c.length ++ c := by
    have hne : trim filename ≠ [] := fun h => by rw [h] at hd; cases hd
    simp [getReply, hd, hne]
  have hline : newline ∉ ascii "GET " ++ filename := Protocol.newline_not_mem_get hnl
  -- the first line is the request
  obtain ⟨recvs, hrecv, -⟩ := Socket.recvLine_newline 4096 (n := 0) hv
    (show server.inbox = (ascii "GET " ++ filename) ++ newline :: more by simp [hin, getRequest])
      hline hlen
    (by simpa [getRequest, Nat.add_assoc] using hrecvs)
  generalize hs₀ : ({ ClientSession.new server with isActive := true } : ClientSession) = s₀
  have hload : s₀.loadActive = (true, s₀) := by rw [← hs₀]; rfl
  have hrecv' : s₀.recvLine = (true, dropCr (ascii "GET " ++ filename),
      { s₀ with socket := { server with inbox := more, recvs := recvs } }.emit .recvLine) := by
    rw [← hs₀]
    simp only [recvLine, ClientSession.new, hrecv]
  have hparse : Protocol.parseRequest (dropCr (ascii "GET " ++ filename)) = ⟨.GET, trim filename⟩ := by
    rw [Protocol.parseRequest_dropCr, Protocol.parseRequest_get hnl]
  generalize ht : (s₀.recvLine.2.2.emit (.request ⟨.GET, trim filename⟩)) = t
  have ht' : t.stops = [] ∧ t.isActive = true ∧
      t.socket = { server with inbox := more, recvs := recvs } := by
    rw [← ht, hrecv', ← hs₀]
    exact ⟨rfl, rfl, rfl⟩
  obtain ⟨hx, hout, -⟩ := (handle_answers
    (show (Config.new (fm.media fs) chunkSize memory).fileManager = fm.media fs from rfl) t
    ⟨.GET, trim filename⟩).lively halloc ht'.1 ht'.2.1 (by rw [ht'.2.2]; exact hv) 0
    (by rw [ht'.2.2]; simpa only [reply, hreply, Nat.add_zero] using hsends)
  rw [ht'.2.2] at hout
  have hruns : Runs (.new (fm.media fs) chunkSize memory) s₀
      (run (.new (fm.media fs) chunkSize memory) (.new server)) :=
    hs₀ ▸ run_runs _ _
  generalize run (.new (fm.media fs) chunkSize memory) (.new server) = res at hruns ⊢
  cases hruns with
  | stopped hl => rw [hload] at hl; cases hl
  | ended hl hr => rw [hload, hrecv'] at hr; cases hr
  | @thrown _ r x hl hr hp hx' =>
    rw [hload] at hp hx'
    rw [hrecv', hparse] at hp
    rw [← hp, ht, hx] at hx'
    cases hx'
  | @next _ r _ hl hr hp hx' hrest =>
    rw [hload] at hp hrest
    rw [hrecv', hparse] at hp
    rw [← hp, ht] at hrest
    obtain ⟨evs, -, hsent', -⟩ := hrest.events
    rw [hsent', hout, hsent, List.nil_append]
    simp only [reply, hreply]
    exact List.prefix_append _ _

/-! ### Both together -/

open ClientSession in
/-- `do_get` against `run` on an unchanging media directory, with local writes that succeed. If it
returns true, whatever happened to the connection, the local file is the designated file; and on a
connection that does not fail and delivers everything it returns true whenever that file can be
read, the request fits a line, the server can allocate its buffer, and the destination can be opened and
is found again by `canonical`. -/
theorem doGet_downloads (fm : FileManager) (fs : FileSystem) (chunkSize memory : Nat) (filename : Bytes)
    (disk : LocalDisk) (client server : Socket) (stops : List Bool) (hnl : newline ∉ filename)
    (hclient : client.sent = []) (hserver : server.sent = []) (hwrites : ∀ w ∈ disk.writes, w = none)
    (hlost : disk.lost = 0) :
    let got := doGet disk client filename
    let served := run (.new (fm.media fs) chunkSize memory) (.new server stops)
    (Delivered client server got.2.1.sent served.2.socket.sent → got.1 = .ok true →
      ∃ c, fm.designated fs (trim filename) = some (c, true) ∧ got.2.2.file = some c) ∧
    ∀ c, fm.designated fs (trim filename) = some (c, true) → (ascii "GET " ++ filename).length < 4096 →
      (Config.new (fm.media fs) chunkSize memory).allocate = none → stops = [] →
      disk.creates = true → disk.opens = true → disk.resolves = true →
      server.inbox = got.2.1.sent → client.inbox = served.2.socket.sent →
      Reliable client (getRequest filename ++ (Protocol.buildGetHeader c.length ++ c)).length →
      Reliable server (getRequest filename ++ (Protocol.buildGetHeader c.length ++ c)).length →
      got.1 = .ok true := by
  refine ⟨?_, ?_⟩
  · intro hdel hgot
    obtain ⟨l, header, body, rest, q, hf, hsent, hq, hfile⟩ := doGet_true hgot
    rw [hclient, List.nil_append] at hsent
    obtain ⟨acc, extra, hacc⟩ := Runs.sent_download
      (show (Config.new (fm.media fs) chunkSize memory).fileManager = fm.media fs from rfl)
      (run_runs _ (.new server stops)) hserver hnl hq
      (hsent ▸ hdel.to_server) fun h => hsent ▸ hdel.server_end h
    refine ⟨body, hf.designated hacc hdel.to_client, hfile ?_⟩
    rintro (⟨w, hw, hne⟩ | ⟨hpos, -⟩)
    · exact hne (hwrites w (List.mem_of_mem_take hw))
    · omega
  · intro c hd hlen halloc hstops hcreates hopens hresolves hin hout hc hs
    subst hstops
    rw [List.length_append] at hc hs
    obtain ⟨size, -, hsize⟩ := FileManager.getFileSize_eq_some hd
    obtain ⟨more, hmore⟩ := getRequest_prefix disk hcreates hc.valid hc.sends
    rw [hclient, List.nil_append] at hmore
    obtain ⟨more', hmore'⟩ := run_serves halloc hserver hnl hlen hd (hin.trans hmore.symm) hs.valid
      (hs.recvs.mono (by omega)) (hs.sends.mono (by omega))
    obtain ⟨sends, hsend, -⟩ :=
        Socket.sendString_lively (getRequest filename) (n := 0) hc.valid (hc.sends.mono (by omega))
    rw [doGet_lively (hsize ▸ size.toNat_lt) hcreates (by rw [hsend]) (hout.trans hmore'.symm)
      (hc.recvs.mono (by omega)), hopens, hresolves]
    rfl

def sampleDisk : LocalDisk := ⟨true, true, [], 0, true, some (ascii "old")⟩

open ClientSession in
theorem sample_downloads :
    let client := { connection (ascii "OK 2\nhiOK BYE\n") 2 20 20 with fin := false }
    (∃ c, sampleManager.designated sampleFs (trim (ascii "a")) = some (c, true) ∧
      (doGet sampleDisk client (ascii "a")).2.2.file = some c) ∧
        (doGet sampleDisk client (ascii "a")).1 = .ok true := by
  have h := doGet_downloads sampleManager sampleFs 1 1 (ascii "a") sampleDisk
    { connection (ascii "OK 2\nhiOK BYE\n") 2 20 20 with fin := false }
      (connection (ascii "GET a\nQUIT\n") 3 20 20) []
    (by decide) rfl rfl (by decide) rfl
  have hgot := h.2 (ascii "hi") (by decide) (by decide) (by decide) rfl rfl rfl rfl (by decide +kernel)
    (by decide +kernel) ⟨by decide, by decide, by decide⟩ ⟨by decide, by decide, by decide⟩
  exact ⟨h.1 ⟨by decide +kernel, fun _ => by decide +kernel, by decide +kernel⟩ hgot, hgot⟩

open ClientSession in
/-- On connections that do not fail, with a file that can be read and a destination that can be opened,
`do_get` comes to nothing where the chunk cannot be allocated (the exception ends the server) and where
`canonical` does not find the destination any more. -/
theorem sample_not_downloaded :
    sampleManager.designated sampleFs (trim (ascii "a")) = some (ascii "hi", true) ∧
      (let client := connection (ascii "OK 2\n") 2 20 20
        let server := connection (ascii "GET a\n") 3 20 20
        let got := doGet sampleDisk client (ascii "a")
        let served := run (.new (sampleManager.media sampleFs) 2 1) (.new server)
        Reliable client 13 ∧ Reliable server 13 ∧ server.inbox = got.2.1.sent ∧
          client.inbox = served.2.socket.sent ∧ served.1 = some .badAlloc ∧ got.1 = .ok false) ∧
      let client := { connection (ascii "OK 2\nhi") 2 20 20 with fin := false }
      let server := connection (ascii "GET a\n") 3 20 20
      let got := doGet { sampleDisk with resolves := false } client (ascii "a")
      let served := run (.new (sampleManager.media sampleFs) 1 1) (.new server)
      Reliable client 13 ∧ Reliable server 13 ∧ server.inbox = got.2.1.sent ∧
        client.inbox = served.2.socket.sent ∧ got.1 = .error .filesystemError := by
  have hreliable (input : Bytes) (fin : Bool) (k : Nat) (hk : Lively 13 (connection input k 20 20).sends) :
      Reliable { connection input k 20 20 with fin := fin } 13 := ⟨rfl, hk, hk⟩
  refine ⟨by decide, ⟨hreliable _ true 2 (by decide), hreliable _ true 3 (by decide), ?_⟩,
    hreliable _ false 2 (by decide), hreliable _ true 3 (by decide), ?_⟩
  · decide +kernel
  · decide +kernel

/-! ### Writes that fail -/

/-- When a file delivered in full is reported and stored as it should be: a success means that all
of it is in the local file, and a failed write means no success. The loop never looks at the output
stream, so this is so exactly when no write fails on the way. -/
theorem doGet_saves {disk : LocalDisk} {sock : Socket} {filename c more : Bytes} (hc : c.length < 2 ^ 64)
    (hin : sock.inbox = Protocol.buildGetHeader c.length ++ c ++ more)
    (hrecvs : Lively (Protocol.buildGetHeader c.length ++ c).length sock.recvs) :
    (((doGet disk sock filename).1 = .ok true → (doGet disk sock filename).2.2.file = some c) ∧
      (disk.WritesFail c.length → (doGet disk sock filename).1 = .ok false)) ↔
    ¬ (disk.creates = true ∧ (sock.sendString (getRequest filename)).1 = true ∧ disk.opens = true ∧
      disk.WritesFail c.length) := by
  constructor
  · rintro ⟨-, hfail⟩ ⟨hcreates, hsend, hopens, hw⟩
    have hgot := hfail hw
    rw [doGet_lively hc hcreates hsend hin hrecvs, hopens] at hgot
    cases hr : disk.resolves <;> rw [hr] at hgot <;> cases hgot
  · intro hnot
    by_cases hw : disk.WritesFail c.length
    · have hgot := doGet_not_stored (c := c) hc hin hrecvs fun h => hnot ⟨h.1, h.2.1, h.2.2, hw⟩
      refine ⟨?_, fun _ => hgot⟩
      rw [hgot]
      intro h
      cases h
    · refine ⟨?_, fun h => absurd h hw⟩
      intro hgot
      obtain ⟨l, header, body, rest, q, hf, -, -, hfile⟩ := doGet_true hgot
      have hwhole : sock.inbox <+: Protocol.buildGetHeader c.length ++ c ++ more := by rw [hin]
      obtain rfl : body = c := hf.body_eq hc hwhole
      exact hfile hw

/-- A disk that is full from the first byte on. -/
def fullDisk : LocalDisk := { sampleDisk with writes := [some 0] }

open ClientSession in
theorem sampleDisk_saves :
    ¬ sampleDisk.WritesFail 2 ∧ (doGet sampleDisk (connection (ascii "OK 2\nhi") 2 7 20)
      (ascii "a")).2.2.file = some (ascii "hi") := by
  have h := (@doGet_saves sampleDisk (connection (ascii "OK 2\nhi") 2 7 20) (ascii "a") (ascii "hi") []
    (by decide) (by decide) (by decide)).2 (by decide +kernel)
  exact ⟨by decide, h.1 (by decide +kernel)⟩

open ClientSession in
/-- Nothing is stored, and the transfer is a success. -/
theorem fullDisk_not_saved :
    ¬ (((doGet fullDisk (connection (ascii "OK 2\nhi") 2 7 20) (ascii "a")).1 = .ok true →
        (doGet fullDisk (connection (ascii "OK 2\nhi") 2 7 20) (ascii "a")).2.2.file =
          some (ascii "hi")) ∧
      (fullDisk.WritesFail (ascii "hi").length →
        (doGet fullDisk (connection (ascii "OK 2\nhi") 2 7 20) (ascii "a")).1 = .ok false)) := by
  decide +kernel

end Streamer

import Streamer.Proofs.Download

/-!
# What a failed download leaves behind

`do_get` opens the destination, and so empties it, only when a reply line with a size has come
(`Begins`). From there on it writes whole chunks; the last one, which may be shorter, is written only
by a call that returns true. A chunk that does not arrive in full stays in the buffer.
-/

namespace Streamer
open Text Kernel

section
variable {fileSize fuel total : Nat} {sock : Socket} {out : OutFile} {disk : LocalDisk}

/-- When the loop fails it has written the whole chunks that came before, and there is more to come. -/
theorem receiveLoop_false (hout : ∀ m, out.Sound m)
    (hfuel : fileSize - total + CHUNK_SIZE ≤ fuel * CHUNK_SIZE)
    (h : (receiveLoop fileSize fuel total sock out).1 = false) :
    ∃ k, total + k * CHUNK_SIZE < fileSize ∧ k * CHUNK_SIZE ≤ sock.inbox.length ∧
      (receiveLoop fileSize fuel total sock out).2.2.data =
        out.data ++ sock.inbox.take (k * CHUNK_SIZE) := by
  induction fuel generalizing total sock out with
  | zero =>
    have hpos : 0 < CHUNK_SIZE := by decide
    omega
  | succ fuel ih =>
    unfold receiveLoop at h ⊢
    dsimp only at h ⊢
    split
    · rename_i hlt
      rw [if_pos hlt] at h
      split
      · exact ⟨0, by omega, by simp, by simp⟩
      rename_i h0
      rw [if_neg h0] at h
      split
      · exact ⟨0, by omega, by simp, by simp⟩
      rename_i h1
      rw [if_neg h1] at h
      obtain ⟨taken, rest, recvs, hin, hlen, hbuf, hrecv⟩ := Socket.recvAll_done h0 h1
      rw [hbuf, hrecv] at h ⊢
      have hwrite (m : Nat) := (hout (m + 1)).write taken
      have hfuel' : fileSize - (total + min CHUNK_SIZE (fileSize - total)) + CHUNK_SIZE ≤
          fuel * CHUNK_SIZE := by
        unfold CHUNK_SIZE at hfuel ⊢
        omega
      obtain ⟨k, hk, hkin, hdata⟩ := ih (fun m => (hwrite m).1) hfuel' h
      dsimp only at hkin hdata
      -- a later turn comes only after a full chunk
      have hfull : min CHUNK_SIZE (fileSize - total) = CHUNK_SIZE := by omega
      rw [hfull] at hlen hk
      have htake : sock.inbox.take ((k + 1) * CHUNK_SIZE) = taken ++ rest.take (k * CHUNK_SIZE) := by
        rw [hin, Nat.succ_mul, Nat.add_comm, ← hlen, List.take_length_add_append]
      refine ⟨k + 1, by rw [Nat.succ_mul]; omega, ?_, ?_⟩
      · rw [hin, List.length_append, hlen, Nat.succ_mul]
        omega
      · rw [hdata, (hwrite 0).2, htake, List.append_assoc]
    · rename_i hlt
      rw [if_neg hlt] at h
      cases h

/-- The turns that `download` allows are enough, and one is left to find that nothing is missing. -/
theorem turns_enough (n : Nat) : n - 0 + CHUNK_SIZE ≤ (n / CHUNK_SIZE + 2) * CHUNK_SIZE := by
  have := le_turns n
  rw [Nat.add_mul] at this ⊢
  omega

/-- `do_get` gets as far as opening the destination: the reply line is `header`, announces `fileSize`
bytes, and `body` comes behind it. -/
structure Begins (disk : LocalDisk) (sock : Socket) (filename header body : Bytes) (fileSize : Nat) :
    Prop where
  creates : disk.creates = true
  sent : (sock.sendString (getRequest filename)).1 = true
  line : (sock.sendString (getRequest filename)).2.recvLine.1 = true
  header_eq : (sock.sendString (getRequest filename)).2.recvLine.2.1 = header
  body_eq : (sock.sendString (getRequest filename)).2.recvLine.2.2.inbox = body
  ok : ascii "OK" <+: header
  size : extractUnsigned (header.drop 3) = (true, fileSize)
  opens : disk.opens = true

theorem LocalDisk.close_file (hlost : disk.lost = 0) (out : OutFile) :
    (disk.close out).file = some out.data := by
  simp [LocalDisk.close, hlost]

/-- What the reply line and the disk must say for the destination to be opened. -/
def Opens (disk : LocalDisk) (header : Bytes) : Prop :=
  ascii "OK" <+: header ∧ (extractUnsigned (header.drop 3)).1 = true ∧ disk.opens = true

theorem download_false {header : Bytes} (hwrites : ∀ w ∈ disk.writes, w = none) (hlost : disk.lost = 0)
    (h : (download disk sock header).1 = .ok false) :
    ((download disk sock header).2.2 = disk ∧ ¬ Opens disk header) ∨
      (Opens disk header ∧ ∃ k, k * CHUNK_SIZE < (extractUnsigned (header.drop 3)).2 ∧
        k * CHUNK_SIZE ≤ sock.inbox.length ∧
        (download disk sock header).2.2.file = some (sock.inbox.take (k * CHUNK_SIZE))) := by
  unfold download at h ⊢
  split
  · rename_i hstart
    exact .inl ⟨rfl, fun hc => by simp [List.isPrefixOf_iff_prefix.2 hc.1] at hstart⟩
  rename_i hstart
  rw [if_neg hstart] at h
  by_cases hlen : header.length < 3
  · simp [substr, hlen] at h
  simp only [substr, hlen, if_false] at h ⊢
  split
  · rename_i hnum
    exact .inl ⟨rfl, fun hc => by simp [hc.2.1] at hnum⟩
  rename_i hnum
  rw [if_neg hnum] at h
  split
  · rename_i hopens
    exact .inl ⟨rfl, fun hc => by simp [hc.2.2] at hopens⟩
  rename_i hopens
  rw [if_neg hopens] at h
  split
  · rename_i hloop
    obtain ⟨k, hk, hkin, hdata⟩ := receiveLoop_false
      (fun m => ⟨rfl, fun w hw => hwrites w (List.mem_of_mem_take hw)⟩) (turns_enough _)
      (by simpa using hloop)
    refine .inr ⟨⟨?_, by simpa using hnum, by simpa using hopens⟩, k, by simpa using hk, hkin, ?_⟩
    · rw [← List.isPrefixOf_iff_prefix]
      simpa using hstart
    · rw [LocalDisk.close_file hlost, hdata, List.nil_append]
  rename_i hloop
  rw [if_neg hloop] at h
  split at h <;> cases h

theorem Begins.stream {filename header body : Bytes} (h : Begins disk sock filename header body fileSize) :
    ∃ l, newline ∉ l ∧ (sock.inbox = l ++ newline :: body ∨ sock.inbox = l ∧ body = []) := by
  obtain ⟨sends, hsent⟩ := Socket.sendString_true h.sent
  obtain ⟨l, rest, hl, -, hsock, hcase⟩ := Socket.recvLine_true h.line
  have hbody : rest = body := by
    rw [← h.body_eq, hsock]
  have hinbox : (sock.sendString (getRequest filename)).2.inbox = sock.inbox := by
    rw [hsent]
  rw [hinbox, hbody] at hcase
  exact ⟨l, hl, hcase.imp (fun hc => hc.1) fun hc => ⟨hc.1, hc.2.2.2.1⟩⟩

/-- The reply line has come. -/
def Replied (disk : LocalDisk) (sock : Socket) (filename : Bytes) : Prop :=
  disk.creates = true ∧ (sock.sendString (getRequest filename)).1 = true ∧
    (sock.sendString (getRequest filename)).2.recvLine.1 = true

theorem doGet_eq (disk : LocalDisk) (sock : Socket) (filename : Bytes) :
    doGet disk sock filename =
      if !disk.creates then (.ok false, sock, disk)
      else if !(sock.sendString (getRequest filename)).1 then
        (.ok false, (sock.sendString (getRequest filename)).2, disk)
      else if !(sock.sendString (getRequest filename)).2.recvLine.1 then
        (.ok false, (sock.sendString (getRequest filename)).2.recvLine.2.2, disk)
      else download disk (sock.sendString (getRequest filename)).2.recvLine.2.2
        (sock.sendString (getRequest filename)).2.recvLine.2.1 := rfl

theorem doGet_of_replied {filename : Bytes} (h : Replied disk sock filename) :
    doGet disk sock filename =
      download disk (sock.sendString (getRequest filename)).2.recvLine.2.2
        (sock.sendString (getRequest filename)).2.recvLine.2.1 := by
  obtain ⟨hcreates, hsend, hrecv⟩ := h
  simp [doGet_eq, hcreates, hsend, hrecv]

theorem doGet_of_not_replied {filename : Bytes} (h : ¬ Replied disk sock filename) :
    (doGet disk sock filename).2.2 = disk := by
  rw [doGet_eq]
  split
  · rfl
  rename_i hcreates
  split
  · rfl
  rename_i hsend
  split
  · rfl
  rename_i hrecv
  exact absurd ⟨by simpa using hcreates, by simpa using hsend, by simpa using hrecv⟩ h

/-- The destination of a download that fails: untouched when the download has not begun, and
otherwise the whole chunks of the body that have arrived. -/
theorem doGet_false_honest (disk : LocalDisk) (sock : Socket) (filename : Bytes)
    (hwrites : ∀ w ∈ disk.writes, w = none) (hlost : disk.lost = 0)
    (h : (doGet disk sock filename).1 = .ok false) :
    ((¬ ∃ header body fileSize, Begins disk sock filename header body fileSize) →
        (doGet disk sock filename).2.2 = disk) ∧
      ∀ header body fileSize, Begins disk sock filename header body fileSize →
        (∃ l, newline ∉ l ∧ (sock.inbox = l ++ newline :: body ∨ sock.inbox = l ∧ body = [])) ∧
        ∃ k, k * CHUNK_SIZE < fileSize ∧ k * CHUNK_SIZE ≤ body.length ∧
          (doGet disk sock filename).2.2.file = some (body.take (k * CHUNK_SIZE)) := by
  by_cases hreplied : Replied disk sock filename
  · rw [doGet_of_replied hreplied] at h ⊢
    rcases download_false hwrites hlost h with ⟨hdisk, hnot⟩ | ⟨hopens, k, hk, hkin, hfile⟩
    · refine ⟨fun _ => hdisk, ?_⟩
      intro header body fileSize hb
      exact absurd ⟨hb.header_eq ▸ hb.ok, by rw [hb.header_eq, hb.size], hb.opens⟩ hnot
    · refine ⟨?_, ?_⟩
      · intro hnone
        exact absurd ⟨_, _, _, hreplied.1, hreplied.2.1, hreplied.2.2, rfl, rfl, hopens.1,
          Prod.ext hopens.2.1 rfl, hopens.2.2⟩ hnone
      · intro header body fileSize hb
        rw [hb.header_eq, hb.size] at hk
        rw [hb.body_eq] at hkin hfile
        exact ⟨hb.stream, k, hk, hkin, hfile⟩
  · refine ⟨fun _ => doGet_of_not_replied hreplied, ?_⟩
    intro header body fileSize hb
    exact absurd ⟨hb.creates, hb.sent, hb.line⟩ hreplied

end

/-- The stream ends in the body: the old content of the destination is gone, and nothing is in its
place, since no whole chunk has come. -/
theorem doGet_cut_body :
    (doGet ⟨true, true, [], 0, true, some (ascii "old")⟩
        ⟨3, ascii "OK 4\nab", true, .replicate 8 (.moves 1), [], [.moves 50]⟩ (ascii "f")).2.2.file =
      some ((ascii "ab").take (0 * CHUNK_SIZE)) := by
  have hfails : (doGet ⟨true, true, [], 0, true, some (ascii "old")⟩
      ⟨3, ascii "OK 4\nab", true, .replicate 8 (.moves 1), [], [.moves 50]⟩ (ascii "f")).1 =
      .ok false := by decide +kernel
  obtain ⟨-, k, hk, -, hfile⟩ := (doGet_false_honest _ _ _ (by simp) rfl hfails).2 (ascii "OK 4") (ascii "ab") 4
    ⟨rfl, by decide +kernel, by decide +kernel, by decide +kernel, by decide +kernel, by decide,
      by decide +kernel, rfl⟩
  obtain rfl : k = 0 := by
    unfold CHUNK_SIZE at hk
    omega
  exact hfile

end Streamer

import Streamer.Lib.Kernel
import Streamer.Types

/-!
# `Socket` (`src/Socket.cpp`)

The transfer loops `send_all`, `recv_all` and `recv_line` over a connected stream socket. The
connection is the two byte streams (`inbox`: what the peer has sent and this side has not read;
`sent`: what the kernel has accepted from this side) and the kernel's answers to come
(`Lib/Kernel.lean`). The loops recur on the schedule: every iteration of the source makes one system
call, so it uses up one answer.
-/

namespace Streamer
open Text Kernel

structure Socket where
  fd : Int
  inbox : Bytes
  /-- The peer ends its stream after `inbox`. -/
  fin : Bool
  recvs : List Answer
  sent : Bytes
  sends : List Answer
deriving DecidableEq, Repr

namespace Socket

def isValid (s : Socket) : Bool := 0 ≤ s.fd

/-- The loop of `send_all` from `total_sent = total` on: whether it sent everything, the final
`total_sent` and the answers left. -/
def sendAllLoop (data : Bytes) (total : Nat) : List Answer → Bool × Nat × List Answer
  | [] => (decide (data.length ≤ total), total, [])
  | a :: sched =>
    if total < data.length then
      match a with
      | .fails e =>
        if e = .EINTR then sendAllLoop data total sched  -- interrupted by signal, retry
        else (false, total, sched)
      | .moves k =>
        let bytes := min k (data.length - total)
        if bytes = 0 then (false, total, sched)  -- connection closed
        else sendAllLoop data (total + bytes) sched
    else (true, total, a :: sched)

/-- `static_cast<int>` of a `size_t`. -/
def toInt32 (n : Nat) : Int := Int.bmod n (2 ^ 32)

structure SendResult where
  ok : Bool
  /-- What is stored through a non-null `out_bytes_sent`; nothing on an invalid socket. -/
  outBytesSent : Option Int
deriving DecidableEq, Repr

def sendAll (s : Socket) (data : Bytes) : SendResult × Socket :=
  if s.isValid then
    let (ok, total, sched) := sendAllLoop data 0 s.sends
    (⟨ok, some (toInt32 total)⟩, { s with sent := s.sent ++ data.take total, sends := sched })
  else (⟨false, none⟩, s)

def sendString (s : Socket) (str : Bytes) : Bool × Socket :=
  let (r, s) := s.sendAll str
  (r.ok, s)

/-- The loop of `recv_all` with `buf` received so far: its result, the buffer, the unread bytes
and the answers left. -/
def recvAllLoop (length : Nat) (fin : Bool) :
    List Answer → (inbox buf : Bytes) → Int × Bytes × Bytes × List Answer
  | [], inbox, buf => (if length ≤ buf.length then 1 else -1, buf, inbox, [])
  | a :: sched, inbox, buf =>
    if buf.length < length then
      match recv (length - buf.length) fin inbox a with
      | .error e => if e = .EINTR then recvAllLoop length fin sched inbox buf else (-1, buf, inbox, sched)
      | .ok [] => (0, buf, inbox, sched)  -- peer closed the socket cleanly
      | .ok chunk => recvAllLoop length fin sched (inbox.drop chunk.length) (buf ++ chunk)
    else (1, buf, inbox, a :: sched)

def recvAll (s : Socket) (length : Nat) : Int × Bytes × Socket :=
  if s.isValid then
    let (res, buf, inbox, sched) := recvAllLoop length s.fin s.recvs s.inbox []
    (res, buf, { s with inbox := inbox, recvs := sched })
  else (-1, [], s)

/-- The loop of `recv_line` with `line` read so far, one byte a call. -/
def recvLineLoop (maxLength : Nat) (fin : Bool) :
    List Answer → (inbox line : Bytes) → Bool × Bytes × Bytes × List Answer
  | [], inbox, line => (false, line, inbox, [])
  | a :: sched, inbox, line =>
    if line.length < maxLength then
      match recv 1 fin inbox a with
      | .error e =>
        if e = .EINTR then recvLineLoop maxLength fin sched inbox line else (false, line, inbox, sched)
      | .ok [] => (!line.isEmpty, line, inbox, sched)  -- end of stream
      | .ok (ch :: _) =>
        if ch = newline then (true, dropCr line, inbox.tail, sched)
        else recvLineLoop maxLength fin sched inbox.tail (line ++ [ch])
    else (false, line, inbox, a :: sched)  -- line exceeded maximum length

def recvLine (s : Socket) (maxLength : Nat := 4096) : Bool × Bytes × Socket :=
  if s.isValid then
    let (ok, line, inbox, sched) := recvLineLoop maxLength s.fin s.recvs s.inbox []
    (ok, line, { s with inbox := inbox, recvs := sched })
  else (false, [], s)

def close (s : Socket) : Socket := if 0 ≤ s.fd then { s with fd := -1 } else s

/-! ### `send_all` -/

section SendAll
variable {data : Bytes} {sched : List Answer} {total n : Nat}

theorem sendAllLoop_le (h : total ≤ data.length) :
    total ≤ (sendAllLoop data total sched).2.1 ∧ (sendAllLoop data total sched).2.1 ≤ data.length := by
  induction sched generalizing total with
  | nil => exact ⟨Nat.le_refl _, h⟩
  | cons a sched ih =>
    unfold sendAllLoop
    split
    · cases a with
      | fails e =>
        dsimp only
        split
        · exact ih h
        · exact ⟨Nat.le_refl _, h⟩
      | moves k =>
        dsimp only
        split
        · exact ⟨Nat.le_refl _, h⟩
        · have := @ih (total + min k (data.length - total)) (by omega)
          omega
    · exact ⟨Nat.le_refl _, h⟩

/-- `send_all` returns true exactly when the whole buffer was accepted. -/
theorem sendAllLoop_ok_iff (h : total ≤ data.length) :
    (sendAllLoop data total sched).1 = true ↔ (sendAllLoop data total sched).2.1 = data.length := by
  induction sched generalizing total with
  | nil => simp only [sendAllLoop, decide_eq_true_eq]; omega
  | cons a sched ih =>
    unfold sendAllLoop
    split
    · cases a with
      | fails e =>
        dsimp only
        split
        · exact ih h
        · simp; omega
      | moves k =>
        dsimp only
        split
        · simp; omega
        · exact ih (by omega)
    · simp; omega

theorem sendAllLoop_lively (hs : Lively (data.length - total + n) sched) :
    (sendAllLoop data total sched).1 = true ∧ Lively n (sendAllLoop data total sched).2.2 := by
  induction sched generalizing total with
  | nil =>
    have := hs.enough
    simp only [List.countP_nil] at this
    exact ⟨by simp only [sendAllLoop, decide_eq_true_eq]; omega, hs.mono (by omega)⟩
  | cons a sched ih =>
    unfold sendAllLoop
    split
    · rename_i hlt
      rcases hs.head_cases with rfl | ⟨k, hk, rfl⟩
      · simpa using ih hs.of_eintr
      · have h0 : min k (data.length - total) ≠ 0 := by omega
        simp only [h0, if_false]
        refine ih ((hs.mono ?_).of_moves (n := data.length - total - 1 + n) |>.mono ?_) <;> omega
    · exact ⟨rfl, hs.mono (by omega)⟩

end SendAll

/-- A call of `send_all` appends a part of the buffer to the stream, all of it when it returns true,
and touches nothing else but the schedule. -/
theorem sendAll_spec (s : Socket) (data : Bytes) :
    ∃ acc, acc <+: data ∧ ((s.sendAll data).1.ok = true → acc = data) ∧
      (s.sendAll data).2 = { s with sent := s.sent ++ acc, sends := (s.sendAll data).2.sends } := by
  unfold sendAll
  split
  · refine ⟨_, List.take_prefix _ data, ?_, rfl⟩
    intro hok
    exact List.take_of_length_le (Nat.le_of_eq ((sendAllLoop_ok_iff (Nat.zero_le _)).1 hok).symm)
  · exact ⟨[], List.nil_prefix, nofun, by simp⟩

theorem sendAll_short (s : Socket) {data : Bytes} (hne : data ≠ [])
    (h : (s.sendAll data).1.ok = false) : (s.sendAll data).2.sent.length < s.sent.length + data.length := by
  have hpos := List.length_pos_iff.2 hne
  have hiff := @sendAllLoop_ok_iff data s.sends 0 (Nat.zero_le _)
  have hle := (@sendAllLoop_le data s.sends 0 (Nat.zero_le _)).2
  unfold sendAll at h ⊢
  split
  · rename_i hv
    rw [if_pos hv] at h
    revert h hiff hle
    obtain ⟨ok, total, sched⟩ := sendAllLoop data 0 s.sends
    rintro rfl hiff hle
    dsimp only at hle
    simp only [Bool.false_eq_true, false_iff] at hiff
    simp only [List.length_append, List.length_take]
    omega
  · dsimp only
    omega

theorem sendAll_lively {s : Socket} {data : Bytes} {n : Nat} (hv : s.isValid = true)
    (h : Lively (data.length + n) s.sends) :
    (s.sendAll data).1.ok = true ∧ Lively n (s.sendAll data).2.sends := by
  simp only [sendAll, hv, if_true]
  exact sendAllLoop_lively h

theorem sendString_true {s : Socket} {str : Bytes} (h : (s.sendString str).1 = true) :
    ∃ sends, s.sendString str = (true, { s with sent := s.sent ++ str, sends := sends }) := by
  obtain ⟨acc, -, hacc, hs⟩ := s.sendAll_spec str
  rw [hacc h] at hs
  exact ⟨_, Prod.ext h hs⟩

theorem sendString_lively {s : Socket} (str : Bytes) {n : Nat} (hv : s.isValid = true)
    (h : Lively (str.length + n) s.sends) :
    ∃ sends, s.sendString str = (true, { s with sent := s.sent ++ str, sends := sends }) ∧
      Lively n sends := by
  obtain ⟨hok, hl⟩ := sendAll_lively hv h
  obtain ⟨sends, hs⟩ := sendString_true hok
  have hsends : (s.sendAll str).2.sends = sends := congrArg (·.2.sends) hs
  exact ⟨sends, hs, hsends ▸ hl⟩

theorem sendString_isValid {s : Socket} {str : Bytes} (h : (s.sendString str).1 = true) :
    s.isValid = true := by
  by_contra hv
  simp [sendString, sendAll, hv] at h

theorem sent_prefix_sendString (s : Socket) (str : Bytes) : s.sent <+: (s.sendString str).2.sent := by
  obtain ⟨acc, -, -, hs⟩ := s.sendAll_spec str
  rw [show (s.sendString str).2 = (s.sendAll str).2 from rfl, hs]
  exact List.prefix_append _ _

/-! ### `recv_line` -/

section RecvLine
variable {maxLength n : Nat} {fin : Bool} {sched : List Answer} {inbox line l rest : Bytes}

/-! The three answers that do not end the call in an error. -/

theorem recvLineLoop_eintr (hlt : line.length < maxLength) :
    recvLineLoop maxLength fin (.fails .EINTR :: sched) inbox line =
      recvLineLoop maxLength fin sched inbox line := by
  simp [recvLineLoop, hlt, recv]

theorem recvLineLoop_byte (hlt : line.length < maxLength) (k : Nat) (ch : UInt8) :
    recvLineLoop maxLength fin (.moves k :: sched) (ch :: inbox) line =
      if ch = newline then (true, dropCr line, inbox, sched)
      else recvLineLoop maxLength fin sched inbox (line ++ [ch]) := by
  simp [recvLineLoop, hlt, recv]

theorem recvLineLoop_end (hlt : line.length < maxLength) (k : Nat) :
    recvLineLoop maxLength true (.moves k :: sched) [] line = (!line.isEmpty, line, [], sched) := by
  simp [recvLineLoop, hlt, recv]

theorem recvLineLoop_length (h : (recvLineLoop maxLength fin sched inbox line).1 = true) :
    (recvLineLoop maxLength fin sched inbox line).2.2.2.length < sched.length := by
  induction sched generalizing inbox line with
  | nil => simp [recvLineLoop] at h
  | cons a sched ih =>
    by_cases hlt : line.length < maxLength
    · cases a with
      | fails e =>
        by_cases he : e = .EINTR
        · subst he
          rw [recvLineLoop_eintr hlt] at h ⊢
          exact Nat.lt_succ_of_lt (ih h)
        · simp [recvLineLoop, hlt, recv, he] at h
      | moves k =>
        cases inbox with
        | nil =>
          cases fin with
          | false => simp [recvLineLoop, hlt, recv] at h
          | true => rw [recvLineLoop_end hlt]; exact Nat.lt_succ_self _
        | cons ch inbox =>
          rw [recvLineLoop_byte hlt] at h ⊢
          split
          · exact Nat.lt_succ_self _
          · rename_i hch
            rw [if_neg hch] at h
            exact Nat.lt_succ_of_lt (ih h)
    · simp [recvLineLoop, hlt] at h

/-- What `recv_line` has read when it returns true: the bytes up to a newline, less one `\r`, or
what was left at the end of the stream; in both cases fewer than `maxLength`. -/
theorem recvLineLoop_true (h : (recvLineLoop maxLength fin sched inbox line).1 = true) :
    ∃ l, newline ∉ l ∧ (line ++ l).length < maxLength ∧
      (inbox = l ++ newline :: (recvLineLoop maxLength fin sched inbox line).2.2.1 ∧
          (recvLineLoop maxLength fin sched inbox line).2.1 = dropCr (line ++ l) ∨
        inbox = l ∧ fin = true ∧ line ++ l ≠ [] ∧
          (recvLineLoop maxLength fin sched inbox line).2.2.1 = [] ∧
          (recvLineLoop maxLength fin sched inbox line).2.1 = line ++ l) := by
  induction sched generalizing inbox line with
  | nil => simp [recvLineLoop] at h
  | cons a sched ih =>
    by_cases hlt : line.length < maxLength
    · cases a with
      | fails e =>
        by_cases he : e = .EINTR
        · subst he
          rw [recvLineLoop_eintr hlt] at h ⊢
          exact ih h
        · simp [recvLineLoop, hlt, recv, he] at h
      | moves k =>
        cases inbox with
        | nil =>
          cases fin with
          | false => simp [recvLineLoop, hlt, recv] at h
          | true =>
            rw [recvLineLoop_end hlt] at h ⊢
            exact ⟨[], by simp, by simpa using hlt, .inr ⟨rfl, rfl, by simpa using h, rfl, by simp⟩⟩
        | cons ch inbox =>
          rw [recvLineLoop_byte hlt] at h ⊢
          by_cases hch : ch = newline
          · simp only [hch, if_true]
            exact ⟨[], by simp, by simpa using hlt, .inl ⟨rfl, by simp⟩⟩
          · simp only [hch, if_false] at h ⊢
            obtain ⟨l, hl, hlen, hcase⟩ := ih h
            refine ⟨ch :: l, by simp [hl, Ne.symm hch], by simpa using hlen, ?_⟩
            rcases hcase with ⟨h1, h2⟩ | ⟨h1, hfin, -, h3, h4⟩
            · exact .inl ⟨by rw [List.cons_append, ← h1], by rw [h2]; simp⟩
            · exact .inr ⟨by rw [h1], hfin, by simp, h3, by rw [h4]; simp⟩
    · simp [recvLineLoop, hlt] at h

theorem recvLineLoop_eintrs (hlt : line.length < maxLength) (m : Nat) (sched : List Answer) :
    recvLineLoop maxLength fin (List.replicate m (.fails .EINTR) ++ sched) inbox line =
      recvLineLoop maxLength fin sched inbox line := by
  induction m with
  | zero => rfl
  | succ m ih =>
    rw [List.replicate_succ, List.cons_append, recvLineLoop_eintr hlt]
    exact ih

/-- Bytes without a newline go into the line, one transfer for each. `P n` is what is known of a
schedule with `n` transfers to come. -/
theorem recvLineLoop_read {P : Nat → List Answer → Prop}
    (hP : ∀ n sched, P (n + 1) sched → ∃ m k sched',
      sched = List.replicate m (.fails .EINTR) ++ .moves k :: sched' ∧ P n sched')
    (hl : newline ∉ l) (hlen : (line ++ l).length ≤ maxLength) (hs : P (n + l.length) sched) :
    ∃ sched', P n sched' ∧ recvLineLoop maxLength fin sched (l ++ rest) line =
      recvLineLoop maxLength fin sched' rest (line ++ l) := by
  induction l generalizing line sched with
  | nil => exact ⟨sched, hs, by rw [List.nil_append, List.append_nil]⟩
  | cons ch l ih =>
    have hlen' : (line ++ [ch] ++ l).length ≤ maxLength := by simpa using hlen
    have hlt : line.length < maxLength := by simp at hlen; omega
    have hch : ch ≠ newline := by
      rintro rfl
      exact hl List.mem_cons_self
    obtain ⟨m, k, sched', hsched, hs'⟩ := hP (n + l.length) sched hs
    obtain ⟨sched'', hs'', hrun⟩ := ih (fun h => hl (List.mem_cons_of_mem ch h)) hlen' hs'
    refine ⟨sched'', hs'', ?_⟩
    rw [hsched, recvLineLoop_eintrs hlt, List.cons_append, recvLineLoop_byte hlt, if_neg hch, hrun,
      List.append_assoc]
    rfl

/-- On a lively schedule `recv_line` reads up to the newline and uses one transfer a byte. -/
theorem recvLineLoop_newline (hl : newline ∉ l) (hlen : (line ++ l).length < maxLength)
    (hs : Lively (l.length + 1 + n) sched) :
    ∃ sched', recvLineLoop maxLength fin sched (l ++ newline :: rest) line =
      (true, dropCr (line ++ l), rest, sched') ∧
      Lively n sched' := by
  have hs' : Lively (n + 1 + l.length) sched := hs.mono (by omega)
  obtain ⟨sched', hlive, hrun⟩ := recvLineLoop_read (fun _ _ => Lively.split) hl hlen.le hs'
  obtain ⟨m, k, sched'', rfl, hlive'⟩ := hlive.split
  refine ⟨sched'', ?_, hlive'⟩
  rw [hrun, recvLineLoop_eintrs hlen, recvLineLoop_byte hlen, if_pos rfl]

theorem recvLineLoop_eof (hl : newline ∉ l) (hlen : (line ++ l).length < maxLength)
    (hs : Lively (l.length + 1 + n) sched) :
    ∃ sched', recvLineLoop maxLength true sched l line = (!(line ++ l).isEmpty, line ++ l, [], sched') ∧
      Lively n sched' := by
  have hs' : Lively (n + 1 + l.length) sched := hs.mono (by omega)
  obtain ⟨sched', hlive, hrun⟩ : ∃ sched', Lively (n + 1) sched' ∧
      recvLineLoop maxLength true sched (l ++ []) line =
        recvLineLoop maxLength true sched' [] (line ++ l) :=
    recvLineLoop_read (fun _ _ => Lively.split) hl hlen.le hs'
  obtain ⟨m, k, sched'', rfl, hlive'⟩ := hlive.split
  refine ⟨sched'', ?_, hlive'⟩
  rw [List.append_nil] at hrun
  rw [hrun, recvLineLoop_eintrs hlen, recvLineLoop_end hlen]

end RecvLine

theorem recvLine_true {s : Socket} {maxLength : Nat} (h : (s.recvLine maxLength).1 = true) :
    ∃ l rest, newline ∉ l ∧ l.length < maxLength ∧
      (s.recvLine maxLength).2.2 = { s with inbox := rest, recvs := (s.recvLine maxLength).2.2.recvs } ∧
      (s.inbox = l ++ newline :: rest ∧ (s.recvLine maxLength).2.1 = dropCr l ∨
        s.inbox = l ∧ s.fin = true ∧ l ≠ [] ∧ rest = [] ∧ (s.recvLine maxLength).2.1 = l) := by
  unfold recvLine at h ⊢
  split at h
  · rename_i hv
    obtain ⟨l, hl, hlen, hcase⟩ := recvLineLoop_true h
    simp only [List.nil_append] at hlen hcase
    exact ⟨l, _, hl, hlen, by rw [if_pos hv], by rw [if_pos hv]; exact hcase⟩
  · cases h

theorem recvLine_newline {s : Socket} (maxLength : Nat) {n : Nat} {l rest : Bytes} (hv : s.isValid = true)
    (hin : s.inbox = l ++ newline :: rest) (hl : newline ∉ l) (hlen : l.length < maxLength)
    (hs : Lively (l.length + 1 + n) s.recvs) :
    ∃ recvs, s.recvLine maxLength = (true, dropCr l, { s with inbox := rest, recvs := recvs }) ∧
      Lively n recvs := by
  obtain ⟨sched, hrun, hlive⟩ : ∃ sched, recvLineLoop maxLength s.fin s.recvs (l ++ newline :: rest) [] =
      (true, dropCr l, rest, sched) ∧ Lively n sched := recvLineLoop_newline hl hlen hs
  refine ⟨sched, ?_, hlive⟩
  simp only [recvLine, hv, if_true, hin, hrun]

/-- On a lively schedule that is longer than the stream `recv_line` returns every line that is
shorter than `maxLength`, and leaves such a schedule. -/
theorem recvLine_lively {s : Socket} {maxLength n : Nat} (hv : s.isValid = true) (hfin : s.fin = true)
    (hs : Lively (s.inbox.length + 1 + n) s.recvs) {l : Bytes} {ls : List Bytes}
    (hl : lines s.inbox = l :: ls) (hlen : l.length < maxLength) :
    (s.recvLine maxLength).1 = true ∧
      ((s.recvLine maxLength).2.2.inbox ≠ [] →
        Lively ((s.recvLine maxLength).2.2.inbox.length + 1 + n) (s.recvLine maxLength).2.2.recvs) := by
  rcases lines_cases s.inbox with h | ⟨hne, hnl⟩ | ⟨l', rest, hnl, hin⟩
  · rw [h] at hl; cases hl
  · rw [lines_of_not_mem hnl hne] at hl
    cases hl
    obtain ⟨sched, hrun, -⟩ : ∃ sched, recvLineLoop maxLength true s.recvs s.inbox [] =
        (!s.inbox.isEmpty, s.inbox, [], sched) ∧ Lively n sched := recvLineLoop_eof hnl hlen hs
    simpa [recvLine, hv, hfin, hrun] using hne
  · rw [hin, lines_append_newline hnl] at hl
    cases hl
    have hs' : Lively (l.length + 1 + (rest.length + 1 + n)) s.recvs := hs.mono (by simp [hin]; omega)
    obtain ⟨recvs, hrun, hlive⟩ := recvLine_newline maxLength hv hin hnl hlen hs'
    rw [hrun]
    exact ⟨rfl, fun _ => hlive⟩

/-- The line that `recv_line` returns with true depends on the stream alone. -/
theorem recvLine_firstLine {s : Socket} {maxLength : Nat} (h : (s.recvLine maxLength).1 = true) :
    (s.recvLine maxLength).2.1 = firstLine s.inbox ∧ (newline ∈ s.inbox ∨ s.fin = true) := by
  obtain ⟨l, rest, hl, -, -, hcase⟩ := recvLine_true h
  rcases hcase with ⟨hin, hline⟩ | ⟨hin, hfin, -, -, hline⟩
  · rw [hline, hin, firstLine_append_newline hl]
    exact ⟨rfl, .inl (by simp)⟩
  · rw [hline, hin, firstLine, if_neg hl]
    exact ⟨rfl, .inr hfin⟩

/-- A connection that brings all that was sent, and the end of the stream where there is one. -/
structure Steady (s : Socket) : Prop where
  valid : s.isValid = true
  lively : s.inbox ≠ [] → Lively (s.inbox.length + 1) s.recvs

namespace Steady
variable {s : Socket} {maxLength : Nat}

/-- On such a connection `recv_line` gives line after line. -/
theorem recvLine_iff (h : s.Steady) :
    (s.recvLine maxLength).1 = true ↔ ∃ l ls, received s.fin s.inbox = l :: ls ∧
      l.length < maxLength := by
  constructor
  · intro hok
    obtain ⟨l, rest, hl, hlen, -, hcase⟩ := recvLine_true hok
    rcases hcase with ⟨hin, -⟩ | ⟨hin, hfin, hne, -⟩
    · exact ⟨l, received s.fin rest, by rw [hin, received_append_newline _ hl], hlen⟩
    · exact ⟨l, [], by rw [hin, received_of_not_mem _ hl, if_pos ⟨hfin, hne⟩], hlen⟩
  · rintro ⟨l, ls, hl, hlen⟩
    rcases lines_cases s.inbox with h0 | ⟨hne, hnl⟩ | ⟨l', rest, hnl, hin⟩
    · rw [h0] at hl
      cases hl
    · rw [received_of_not_mem _ hnl] at hl
      split at hl
      · rename_i hfin
        cases hl
        obtain ⟨sched, hrun, -⟩ : ∃ sched, recvLineLoop maxLength true s.recvs s.inbox [] =
            (!s.inbox.isEmpty, s.inbox, [], sched) ∧ Lively 0 sched :=
              recvLineLoop_eof hnl hlen (h.lively hne)
        simpa [recvLine, h.valid, hfin.1, hrun] using hne
      · cases hl
    · rw [hin, received_append_newline _ hnl] at hl
      cases hl
      have hlive : Lively (l.length + 1 + 0) s.recvs := (h.lively (by simp [hin])).mono (by simp [hin])
      obtain ⟨recvs, hrun, -⟩ := recvLine_newline maxLength h.valid hin hnl hlen hlive
      rw [hrun]

theorem recvLine_next (h : s.Steady) (hok : (s.recvLine maxLength).1 = true) :
    (s.recvLine maxLength).2.2.Steady ∧ (s.recvLine maxLength).2.2.fin = s.fin ∧
      ∃ l, received s.fin s.inbox = l :: received s.fin (s.recvLine maxLength).2.2.inbox ∧
        l.length < maxLength := by
  obtain ⟨l, rest, hl, hlen, hsock, hcase⟩ := recvLine_true hok
  rcases hcase with ⟨hin, -⟩ | ⟨hin, hfin, hne, rfl, -⟩
  · have hlive : Lively (l.length + 1 + (rest.length + 1)) s.recvs := by
      refine (h.lively (by simp [hin])).mono ?_
      simp only [hin, List.length_append, List.length_cons]
      omega
    obtain ⟨recvs, hrun, hlive'⟩ := recvLine_newline maxLength h.valid hin hl hlen hlive
    rw [hrun, hin, received_append_newline _ hl]
    exact ⟨⟨h.valid, fun _ => hlive'⟩, rfl, l, rfl, hlen⟩
  · rw [hsock, hin, received_of_not_mem _ hl, if_pos ⟨hfin, hne⟩]
    exact ⟨⟨h.valid, fun h0 => absurd rfl h0⟩, rfl, l, rfl, hlen⟩

end Steady

/-! ### `recv_all` -/

section RecvAll
variable {length n : Nat} {fin : Bool} {sched : List Answer} {inbox buf : Bytes}

/-- `recv_all` takes bytes off the front of the stream; it returns `1` exactly with the length asked
for. -/
theorem recvAllLoop_spec (hb : buf.length ≤ length) :
    ∃ taken, inbox = taken ++ (recvAllLoop length fin sched inbox buf).2.2.1 ∧
      (recvAllLoop length fin sched inbox buf).2.1 = buf ++ taken ∧
      ((recvAllLoop length fin sched inbox buf).1 = 1 ↔ (buf ++ taken).length = length) := by
  induction sched generalizing inbox buf with
  | nil =>
    refine ⟨[], rfl, by simp [recvAllLoop], ?_⟩
    simp only [recvAllLoop, List.append_nil]
    split <;> simp <;> omega
  | cons a sched ih =>
    unfold recvAllLoop
    split
    · rename_i hlt
      split
      · split
        · exact ih hb
        · exact ⟨[], rfl, by simp, by simp; omega⟩
      · exact ⟨[], rfl, by simp, by simp; omega⟩
      · rename_i chunk hne hr
        have hchunk : chunk <+: inbox ∧ chunk.length ≤ length - buf.length := by
          cases a with
          | fails e => cases hr
          | moves k =>
            simp only [recv] at hr
            split at hr
            · split at hr
              · cases hr; exact absurd rfl hne
              · cases hr
            · cases hr
              exact ⟨List.take_prefix _ _, by rw [List.length_take]; omega⟩
        have hfit : (buf ++ chunk).length ≤ length := by
          simp only [List.length_append]
          omega
        obtain ⟨taken, h1, h2, h3⟩ := @ih (inbox.drop chunk.length) (buf ++ chunk) hfit
        refine ⟨chunk ++ taken, ?_, by rw [h2]; simp, by rw [h3]; simp⟩
        rw [List.append_assoc, ← h1]
        exact (List.prefix_iff_eq_append.1 hchunk.1).symm
    · exact ⟨[], rfl, by simp, by simp; omega⟩

theorem recvAllLoop_lively (hb : buf.length ≤ length) (hin : length - buf.length ≤ inbox.length)
    (hs : Lively (length - buf.length + n) sched) :
    (recvAllLoop length fin sched inbox buf).1 = 1 ∧
      Lively n (recvAllLoop length fin sched inbox buf).2.2.2 := by
  induction sched generalizing inbox buf with
  | nil =>
    have := hs.enough
    simp only [List.countP_nil] at this
    exact ⟨by simp only [recvAllLoop]; rw [if_pos (by omega)], hs.mono (by omega)⟩
  | cons a sched ih =>
    by_cases hlt : buf.length < length
    · rcases hs.head_cases with rfl | ⟨k, hk, rfl⟩
      · simpa [recvAllLoop, hlt, recv] using ih hb hin hs.of_eintr
      · cases inbox with
        | nil => simp at hin; omega
        | cons ch inbox =>
          obtain ⟨m, hm⟩ : ∃ m, min (max k 1) (length - buf.length) = m + 1 :=
            Nat.exists_eq_succ_of_ne_zero (by omega)
          simp only [recvAllLoop, hlt, if_true, recv, List.isEmpty_cons, Bool.false_eq_true, if_false, hm,
            List.take_succ_cons]
          simp only [List.length_cons] at hin
          have hlen : (ch :: inbox.take m).length = m + 1 := by simp; omega
          refine ih (by simp; omega) (by simp; omega) ((hs.mono ?_).of_moves)
          simp only [List.length_append, hlen]
          omega
    · simp only [recvAllLoop, hlt, if_false, true_and]
      exact hs.mono (by omega)

theorem recvAllLoop_res : (recvAllLoop length fin sched inbox buf).1 = 1 ∨
    (recvAllLoop length fin sched inbox buf).1 = 0 ∨ (recvAllLoop length fin sched inbox buf).1 = -1 := by
  induction sched generalizing inbox buf with
  | nil => simp only [recvAllLoop]; split <;> simp
  | cons a sched ih =>
    unfold recvAllLoop
    split
    · split
      · split
        · exact ih
        · simp
      · simp
      · exact ih
    · simp

end RecvAll

theorem recvAll_done {s : Socket} {length : Nat} (h0 : (s.recvAll length).1 ≠ 0)
    (h1 : ¬ (s.recvAll length).1 < 0) :
    ∃ taken rest recvs, s.inbox = taken ++ rest ∧ taken.length = length ∧
      (s.recvAll length).2.1 = taken ∧
      (s.recvAll length).2.2 = { s with inbox := rest, recvs := recvs } := by
  unfold recvAll at h0 h1 ⊢
  split at h0
  · rename_i hv
    rw [if_pos hv] at h1 ⊢
    obtain ⟨taken, hin, hbuf, hiff⟩ := @recvAllLoop_spec length s.fin s.recvs s.inbox []
      (Nat.zero_le length)
    have hres : (recvAllLoop length s.fin s.recvs s.inbox []).1 = 1 := by
      rcases @recvAllLoop_res length s.fin s.recvs s.inbox [] with h | h | h
      · exact h
      · exact absurd h h0
      · rw [h] at h1; exact absurd (by decide) h1
    simp only [List.nil_append] at hbuf hiff
    exact ⟨taken, _, _, hin, hiff.1 hres, hbuf, rfl⟩
  · rename_i hv
    rw [if_neg hv] at h1
    exact absurd (show (-1 : Int) < 0 by decide) h1

theorem recvAll_lively {s : Socket} {length n : Nat} (hv : s.isValid = true)
    (hin : length ≤ s.inbox.length) (hs : Lively (length + n) s.recvs) :
    (s.recvAll length).1 = 1 ∧ Lively n (s.recvAll length).2.2.recvs := by
  simp only [recvAll, hv, if_true]
  exact recvAllLoop_lively (Nat.zero_le _) (by simpa using hin) (by simpa using hs)

end Socket
end Streamer

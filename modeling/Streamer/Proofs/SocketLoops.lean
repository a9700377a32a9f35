import Streamer.Socket

/-!
# The loops of `Socket`, on any schedule

`recv_line` splits the stream at its newlines whatever answers come in between (`recvLine_splits`).
`send_all` counts in 64 bits what the kernel accepts, and reports 32 of them (`sendAll_reports_iff`).
-/

namespace Streamer
open Text Kernel

namespace Socket

/-! ### `recv_line` -/

/-- The receives that the schedule makes before its first error other than `EINTR`. -/
def receives : List Answer → Nat
  | [] => 0
  | .moves _ :: sched => receives sched + 1
  | .fails e :: sched => if e = .EINTR then receives sched else 0

/-- The schedule without its interruptions. -/
def uninterrupted (sched : List Answer) : List Answer := sched.filter fun a => a ≠ .fails .EINTR

section
variable {maxLength : Nat} {fin : Bool} {sched : List Answer} {inbox line l rest : Bytes}

theorem recv_one_ok {a : Answer} {ch : UInt8} {chunk : Bytes}
    (h : recv 1 fin inbox a = .ok (ch :: chunk)) : inbox = ch :: inbox.tail := by
  cases a with
  | fails e => cases h
  | moves k =>
    cases inbox with
    | nil => cases fin <;> cases h
    | cons b inbox =>
      simp [recv] at h
      rw [h.1, List.tail_cons]

theorem recvLineLoop_full (h : ¬ line.length < maxLength) :
    recvLineLoop maxLength fin sched inbox line = (false, line, inbox, sched) := by
  cases sched with
  | nil => rfl
  | cons a sched => rw [recvLineLoop, if_neg h]

/-- Every byte that is read is in the line, in its place, but for the newline and a `\r` before it. -/
theorem recvLineLoop_taken (hline : line.length ≤ maxLength) :
    ∃ taken, inbox = taken ++ (recvLineLoop maxLength fin sched inbox line).2.2.1 ∧
      (line ++ taken).length ≤ maxLength ∧
      ((recvLineLoop maxLength fin sched inbox line).2.1 = line ++ taken ∨
        (recvLineLoop maxLength fin sched inbox line).1 = true ∧
          ∃ l, taken = l ++ [newline] ∧
            (recvLineLoop maxLength fin sched inbox line).2.1 = dropCr (line ++ l)) := by
  fun_induction recvLineLoop maxLength fin sched inbox line with
  | case1 inbox line => exact ⟨[], rfl, by simpa using hline, .inl (by simp)⟩
  | case2 a sched inbox line hlt hr ih => exact ih hline
  | case3 a sched inbox line hlt e hr he => exact ⟨[], rfl, by simpa using hline, .inl (by simp)⟩
  | case4 a sched inbox line hlt hr => exact ⟨[], rfl, by simpa using hline, .inl (by simp)⟩
  | case5 a sched inbox line hlt chunk hr =>
    refine ⟨[newline], recv_one_ok hr, ?_, .inr ⟨rfl, [], rfl, by simp⟩⟩
    rw [List.length_append]
    exact hlt
  | case6 a sched inbox line hlt ch chunk hr hch ih =>
    have hlen : (line ++ [ch]).length ≤ maxLength := by
      rw [List.length_append]
      exact hlt
    obtain ⟨taken, hin, hle, hcase⟩ := ih hlen
    refine ⟨ch :: taken, ?_, by simpa using hle, ?_⟩
    · rw [List.cons_append, ← hin]
      exact recv_one_ok hr
    · rcases hcase with hcase | ⟨hok, l, rfl, hcase⟩
      · exact .inl (by rw [hcase]; simp)
      · exact .inr ⟨hok, ch :: l, rfl, by rw [hcase]; simp⟩
  | case7 a sched inbox line hlt => exact ⟨[], rfl, by simpa using hline, .inl (by simp)⟩

/-- Interruptions, and then a receive. -/
theorem receives_split (n : Nat) (sched : List Answer) (hs : n + 1 ≤ receives sched) :
    ∃ m k rest, sched = List.replicate m (.fails .EINTR) ++ .moves k :: rest ∧
      n ≤ receives rest := by
  induction sched with
  | nil => cases hs
  | cons a sched ih =>
    rcases a with k | e
    · exact ⟨0, k, sched, rfl, Nat.le_of_succ_le_succ hs⟩
    · rw [receives] at hs
      split at hs
      · rename_i he
        obtain ⟨m, k, rest, hsched, hcount⟩ := ih hs
        exact ⟨m + 1, k, rest, by rw [he, hsched]; rfl, hcount⟩
      · cases hs

theorem recvLineLoop_line (hl : newline ∉ l) (hlen : (line ++ l).length < maxLength)
    (hs : l.length < receives sched) :
    ∃ sched', recvLineLoop maxLength fin sched (l ++ newline :: rest) line =
      (true, dropCr (line ++ l), rest, sched') := by
  have hs' : 1 + l.length ≤ receives sched := by omega
  obtain ⟨sched', hone, hrun⟩ :=
    recvLineLoop_read (P := fun n sched => n ≤ receives sched) receives_split hl hlen.le hs'
  obtain ⟨m, k, sched'', rfl, -⟩ := receives_split 0 sched' hone
  refine ⟨sched'', ?_⟩
  rw [hrun, recvLineLoop_eintrs hlen, recvLineLoop_byte hlen, if_pos rfl]

theorem recvLineLoop_overlong (hl : newline ∉ l) (hlen : (line ++ l).length = maxLength)
    (hs : l.length ≤ receives sched) :
    ∃ sched', recvLineLoop maxLength fin sched (l ++ rest) line =
      (false, line ++ l, rest, sched') := by
  have hs' : 0 + l.length ≤ receives sched := by omega
  obtain ⟨sched', -, hrun⟩ :=
    recvLineLoop_read (P := fun n sched => n ≤ receives sched) receives_split hl hlen.le hs'
  rw [hrun]
  exact ⟨sched', recvLineLoop_full (by omega)⟩

/-- Interruptions change nothing but the schedule itself. -/
theorem recvLineLoop_uninterrupted (sched : List Answer) (inbox line : Bytes) :
    recvLineLoop maxLength fin (uninterrupted sched) inbox line =
      ((recvLineLoop maxLength fin sched inbox line).1,
        (recvLineLoop maxLength fin sched inbox line).2.1,
        (recvLineLoop maxLength fin sched inbox line).2.2.1,
        uninterrupted (recvLineLoop maxLength fin sched inbox line).2.2.2) := by
  induction sched generalizing inbox line with
  | nil => rfl
  | cons a sched ih =>
    by_cases hlt : line.length < maxLength
    · by_cases ha : a = .fails .EINTR
      · subst ha
        rw [recvLineLoop_eintr hlt]
        exact ih inbox line
      · have hcons : uninterrupted (a :: sched) = a :: uninterrupted sched := by
          rw [uninterrupted, List.filter_cons_of_pos (by simpa using ha), ← uninterrupted]
        rw [hcons, recvLineLoop, recvLineLoop, if_pos hlt, if_pos hlt]
        rcases recv 1 fin inbox a with e | _ | ⟨ch, chunk⟩
        · dsimp only
          split
          · exact ih inbox line
          · rfl
        · rfl
        · dsimp only
          split
          · rfl
          · exact ih inbox.tail (line ++ [ch])
    · rw [recvLineLoop_full hlt, recvLineLoop_full hlt]

end

theorem recvLine_eq {s : Socket} (maxLength : Nat) (hv : s.isValid = true) :
    s.recvLine maxLength =
      ((recvLineLoop maxLength s.fin s.recvs s.inbox []).1,
        (recvLineLoop maxLength s.fin s.recvs s.inbox []).2.1,
        { s with
          inbox := (recvLineLoop maxLength s.fin s.recvs s.inbox []).2.2.1
          recvs := (recvLineLoop maxLength s.fin s.recvs s.inbox []).2.2.2 }) := by
  rw [recvLine, if_pos hv]

theorem recvLine_of_invalid {s : Socket} (maxLength : Nat) (hv : ¬ s.isValid = true) :
    s.recvLine maxLength = (false, [], s) := by
  rw [recvLine, if_neg hv]

theorem recvLine_taken (s : Socket) (maxLength : Nat) :
    ∃ taken, s.inbox = taken ++ (s.recvLine maxLength).2.2.inbox ∧ taken.length ≤ maxLength ∧
      ((s.recvLine maxLength).2.1 = taken ∨
        (s.recvLine maxLength).1 = true ∧
          ∃ l, taken = l ++ [newline] ∧ (s.recvLine maxLength).2.1 = dropCr l) := by
  by_cases hv : s.isValid = true
  · rw [recvLine_eq maxLength hv]
    exact recvLineLoop_taken (Nat.zero_le _)
  · rw [recvLine_of_invalid maxLength hv]
    exact ⟨[], rfl, Nat.zero_le _, .inl rfl⟩

theorem recvLine_uninterrupted (s : Socket) (maxLength : Nat) {recvs : List Answer}
    (h : uninterrupted recvs = uninterrupted s.recvs) :
    ({ s with recvs := recvs }.recvLine maxLength).1 = (s.recvLine maxLength).1 ∧
      ({ s with recvs := recvs }.recvLine maxLength).2.1 = (s.recvLine maxLength).2.1 ∧
      ({ s with recvs := recvs }.recvLine maxLength).2.2.inbox = (s.recvLine maxLength).2.2.inbox := by
  by_cases hv : s.isValid = true
  · have hv' : ({ s with recvs := recvs } : Socket).isValid = true := hv
    have hloop := @recvLineLoop_uninterrupted maxLength s.fin recvs s.inbox []
    rw [h, recvLineLoop_uninterrupted s.recvs s.inbox []] at hloop
    rw [recvLine_eq maxLength hv, recvLine_eq maxLength hv']
    simp only [Prod.mk.injEq] at hloop
    exact ⟨hloop.1.symm, hloop.2.1.symm, hloop.2.2.1.symm⟩
  · rw [recvLine_of_invalid maxLength hv, recvLine_of_invalid maxLength (by exact hv)]
    exact ⟨rfl, rfl, rfl⟩

theorem recvLine_short {s : Socket} {maxLength : Nat} (h : (s.recvLine maxLength).1 = true) :
    newline ∉ (s.recvLine maxLength).2.1 ∧ (s.recvLine maxLength).2.1.length < maxLength := by
  obtain ⟨l, rest, hl, hlen, -, hcase⟩ := recvLine_true h
  rcases hcase with ⟨-, hline⟩ | ⟨-, -, -, -, hline⟩
  · rw [hline]
    have hpre := dropCr_prefix l
    exact ⟨fun hmem => hl (hpre.subset hmem), Nat.lt_of_le_of_lt hpre.length_le hlen⟩
  · rw [hline]
    exact ⟨hl, hlen⟩

/-- What `recv_line` does with a stream: it takes at most `maxLength` bytes off its front and loses or
repeats none of them; a newline among the first `maxLength` bytes ends the line and the call; without
one it gives up after as many bytes; interruptions make no difference. -/
theorem recvLine_splits (s : Socket) (maxLength : Nat) :
    (∃ taken, s.inbox = taken ++ (s.recvLine maxLength).2.2.inbox ∧ taken.length ≤ maxLength ∧
      ((s.recvLine maxLength).2.1 = taken ∨
        (s.recvLine maxLength).1 = true ∧
          ∃ l, taken = l ++ [newline] ∧ (s.recvLine maxLength).2.1 = dropCr l)) ∧
    (∀ l rest, s.isValid = true → s.inbox = l ++ newline :: rest → newline ∉ l →
      l.length < maxLength → l.length < receives s.recvs →
        (s.recvLine maxLength).1 = true ∧ (s.recvLine maxLength).2.1 = dropCr l ∧
          (s.recvLine maxLength).2.2.inbox = rest) ∧
    (∀ l rest, s.isValid = true → s.inbox = l ++ rest → newline ∉ l → l.length = maxLength →
      maxLength ≤ receives s.recvs →
        (s.recvLine maxLength).1 = false ∧ (s.recvLine maxLength).2.1 = l ∧
          (s.recvLine maxLength).2.2.inbox = rest) ∧
    (∀ recvs, uninterrupted recvs = uninterrupted s.recvs →
      ({ s with recvs := recvs }.recvLine maxLength).1 = (s.recvLine maxLength).1 ∧
        ({ s with recvs := recvs }.recvLine maxLength).2.1 = (s.recvLine maxLength).2.1 ∧
        ({ s with recvs := recvs }.recvLine maxLength).2.2.inbox =
          (s.recvLine maxLength).2.2.inbox) ∧
    ((s.recvLine maxLength).1 = true →
      newline ∉ (s.recvLine maxLength).2.1 ∧ (s.recvLine maxLength).2.1.length < maxLength) := by
  refine ⟨recvLine_taken s maxLength, ?_, ?_, fun recvs h => recvLine_uninterrupted s maxLength h,
    recvLine_short⟩
  · intro l rest hv hin hl hlen hs
    obtain ⟨sched, hrun⟩ := @recvLineLoop_line maxLength s.fin s.recvs [] l rest hl hlen hs
    rw [recvLine_eq maxLength hv, hin, hrun]
    exact ⟨rfl, rfl, rfl⟩
  · intro l rest hv hin hl hlen hs
    obtain ⟨sched, hrun⟩ :=
      @recvLineLoop_overlong maxLength s.fin s.recvs [] l rest hl hlen (hlen ▸ hs)
    rw [recvLine_eq maxLength hv, hin, hrun]
    exact ⟨rfl, rfl, rfl⟩

/-- A newline at the limit still ends the line, and one byte later it does not. -/
theorem recvLine_splits_at_limit :
    ((⟨3, ascii "ab\r\nLIST\n", false, [.fails .EINTR, .moves 1, .moves 1, .fails .EINTR, .moves 1,
        .moves 1], [], []⟩ : Socket).recvLine 4).1 = true ∧
      ((⟨3, ascii "ab\r\nLIST\n", false, [.fails .EINTR, .moves 1, .moves 1, .fails .EINTR, .moves 1,
        .moves 1], [], []⟩ : Socket).recvLine 3).1 = false := by
  refine ⟨((recvLine_splits _ 4).2.1 (ascii "ab\r") (ascii "LIST\n") rfl rfl ?_ ?_ ?_).1,
    ((recvLine_splits _ 3).2.2.1 (ascii "ab\r") (ascii "\nLIST\n") rfl rfl ?_ rfl ?_).1⟩
  · decide
  · decide
  · decide
  · decide
  · decide

/-! ### `send_all` -/

/-- What the partial counts come to before the first error other than `EINTR`, or the first zero. -/
def offered : List Answer → Nat
  | [] => 0
  | .moves k :: sched => if k = 0 then 0 else k + offered sched
  | .fails e :: sched => if e = .EINTR then offered sched else 0

theorem sendAllLoop_accepted {data : Bytes} {total : Nat} {sched : List Answer}
    (h : total ≤ data.length) :
    (sendAllLoop data total sched).2.1 = min data.length (total + offered sched) := by
  induction sched generalizing total with
  | nil => exact (Nat.min_eq_right h).symm
  | cons a sched ih =>
    unfold sendAllLoop
    split
    · rename_i hlt
      cases a with
      | fails e =>
        dsimp only [offered]
        split
        · exact ih h
        · exact (Nat.min_eq_right h).symm
      | moves k =>
        dsimp only [offered]
        split
        · rename_i hzero
          rw [if_pos (by omega)]
          exact (Nat.min_eq_right h).symm
        · rename_i hpos
          rw [if_neg (by omega), ih (by omega)]
          omega
    · show total = min data.length (total + offered (a :: sched))
      omega

/-- A count survives the cast exactly if an `int` can hold it. -/
theorem toInt32_eq_iff (n : Nat) : toInt32 n = n ↔ n < 2 ^ 31 := by
  constructor
  · intro h
    have hlt : toInt32 n < ((2 ^ 32 : Nat) + 1) / 2 := Int.bmod_lt (by decide)
    rw [h] at hlt
    omega
  · intro h
    exact Int.bmod_eq_of_le (by omega) (by omega)

theorem sendAll_eq {s : Socket} (data : Bytes) (hv : s.isValid = true) :
    s.sendAll data =
      (⟨(sendAllLoop data 0 s.sends).1, some (toInt32 (sendAllLoop data 0 s.sends).2.1)⟩,
        { s with
          sent := s.sent ++ data.take (sendAllLoop data 0 s.sends).2.1
          sends := (sendAllLoop data 0 s.sends).2.2 }) := by
  rw [sendAll, if_pos hv]

/-- The count that is reported is the number of bytes that the kernel has accepted exactly if the
buffer, or what the kernel offers to take of it, has fewer than `2^31` bytes. -/
theorem sendAll_reports_iff (s : Socket) (data : Bytes) (hv : s.isValid = true) :
    (s.sendAll data).1.outBytesSent =
        some (((s.sendAll data).2.sent.length : Int) - s.sent.length) ↔
      data.length < 2 ^ 31 ∨ offered s.sends < 2 ^ 31 := by
  have hle := (@sendAllLoop_le data s.sends 0 (Nat.zero_le _)).2
  have htotal := @sendAllLoop_accepted data 0 s.sends (Nat.zero_le _)
  rw [Nat.zero_add] at htotal
  have hsent : ((s.sendAll data).2.sent.length : Int) - s.sent.length =
      (sendAllLoop data 0 s.sends).2.1 := by
    rw [sendAll_eq data hv]
    simp only [List.length_append, List.length_take]
    omega
  have hreported : (s.sendAll data).1.outBytesSent =
      some (toInt32 (sendAllLoop data 0 s.sends).2.1) := by
    rw [sendAll_eq data hv]
  rw [hsent, hreported, Option.some.injEq, toInt32_eq_iff, htotal]
  omega

theorem sendAllLoop_two_parts {data : Bytes} (h : data.length = 2 ^ 31) :
    sendAllLoop data 0 [.moves 0x7ffff000, .moves 0x1000] = (true, 2 ^ 31, []) := by
  simp [sendAllLoop, h]

/-- A buffer of `2^31` bytes that goes out in two parts: the call returns true and reports a negative
number. -/
theorem sendAll_reports_negative :
    let s : Socket := ⟨3, [], false, [], [], [.moves 0x7ffff000, .moves 0x1000]⟩
    s.isValid = true ∧ (s.sendAll (List.replicate (2 ^ 31) 0)).1 = ⟨true, some (-2 ^ 31)⟩ ∧
      (s.sendAll (List.replicate (2 ^ 31) 0)).2.sent.length = 2 ^ 31 := by
  have hlen : (List.replicate (2 ^ 31) (0 : UInt8)).length = 2 ^ 31 := List.length_replicate
  revert hlen
  generalize List.replicate (2 ^ 31) (0 : UInt8) = data
  intro hlen
  refine ⟨rfl, ?_, ?_⟩
  · rw [sendAll_eq data rfl, sendAllLoop_two_parts hlen]
    rfl
  · rw [sendAll_eq data rfl, sendAllLoop_two_parts hlen]
    simp [hlen]

theorem sendAll_reports_small :
    (Socket.sendAll ⟨3, [], false, [], [], [.moves 2, .fails .EINTR, .fails .EPIPE]⟩
        (ascii "abc")).1.outBytesSent = some 2 := by
  have h := (sendAll_reports_iff ⟨3, [], false, [], [], [.moves 2, .fails .EINTR, .fails .EPIPE]⟩
    (ascii "abc") rfl).2 (.inl (by decide))
  exact h

end Socket
end Streamer

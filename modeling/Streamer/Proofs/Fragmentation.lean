import Streamer.Connection
import Streamer.Proofs.SocketLoops

/-!
# `recv_all` gives back what `send_all` took

Whatever the fragments on the two sides, what has been read and what is still unread come together to
what has been accepted (`Connection.Inv.conserved`), and every call that has returned is a call of
`Socket.sendAll` or `Socket.recvAll` on the answers that it was given. All that the receiver gets
follows from these two (`recvAll_inverts_sendAll`).
-/

namespace Streamer
open Text Kernel Machine

/-! ### `send_all` -/

namespace Socket
variable {data : Bytes} {total : Nat} {sched : List Answer}

theorem sendAllLoop_eintr (h : total < data.length) :
    sendAllLoop data total (.fails .EINTR :: sched) = sendAllLoop data total sched := by
  simp [sendAllLoop, h]

theorem sendAllLoop_error {e : Errno} (h : total < data.length) (he : e ≠ .EINTR) :
    sendAllLoop data total (.fails e :: sched) = (false, total, sched) := by
  simp [sendAllLoop, h, he]

theorem sendAllLoop_zero {k : Nat} (h : total < data.length) (hk : min k (data.length - total) = 0) :
    sendAllLoop data total (.moves k :: sched) = (false, total, sched) := by
  rw [sendAllLoop, if_pos h]
  exact if_pos hk

theorem sendAllLoop_moves {k : Nat} (h : total < data.length)
    (hk : ¬ min k (data.length - total) = 0) :
    sendAllLoop data total (.moves k :: sched) =
      sendAllLoop data (total + min k (data.length - total)) sched := by
  rw [sendAllLoop, if_pos h]
  exact if_neg hk

theorem sendAllLoop_sent (h : data.length ≤ total) :
    sendAllLoop data total sched = (true, total, sched) := by
  cases sched with
  | nil => rw [sendAllLoop, decide_eq_true h]
  | cons a sched => simp [sendAllLoop, Nat.not_lt.2 h]

end Socket

open Socket

/-- The answers have brought the loop to where it is. -/
structure SendCall.Runs (call : SendCall) : Prop where
  valid : call.valid = true
  bound : call.totalSent ≤ call.data.length
  loop : ∀ sched, sendAllLoop call.data 0 (call.answers ++ sched) =
    sendAllLoop call.data call.totalSent sched

/-- The loop returns `ok` on the answers, and leaves the ones after them. -/
structure SendCall.Returns (call : SendCall) (ok : Bool) : Prop where
  loop : call.valid = true → ∀ sched, sendAllLoop call.data 0 (call.answers ++ sched) =
    (ok, call.totalSent, sched)
  invalid : call.valid = false → ok = false ∧ call.totalSent = 0 ∧ call.answers = []

namespace SendCall
variable {call : SendCall} {ok : Bool} {a : Answer}

theorem Runs.next {n : Nat} (h : call.Runs) (hn : n ≤ call.data.length)
    (hloop : ∀ sched, sendAllLoop call.data call.totalSent (a :: sched) =
      sendAllLoop call.data n sched) :
    Runs { call with totalSent := n, answers := call.answers ++ [a] } where
  valid := h.valid
  bound := hn
  loop sched := by
    show sendAllLoop call.data 0 (call.answers ++ [a] ++ sched) = sendAllLoop call.data n sched
    rw [List.append_assoc, h.loop, List.singleton_append, hloop]

theorem Runs.fails (h : call.Runs)
    (hloop : ∀ sched, sendAllLoop call.data call.totalSent (a :: sched) =
      (false, call.totalSent, sched)) :
    Returns { call with answers := call.answers ++ [a] } false where
  loop _ sched := by
    show sendAllLoop call.data 0 (call.answers ++ [a] ++ sched) = (false, call.totalSent, sched)
    rw [List.append_assoc, h.loop, List.singleton_append, hloop]
  invalid hv := absurd (h.valid.symm.trans hv) nofun

theorem Runs.sent (h : call.Runs) (hle : call.data.length ≤ call.totalSent) : call.Returns true where
  loop _ sched := by rw [h.loop, sendAllLoop_sent hle]
  invalid hv := absurd (h.valid.symm.trans hv) nofun

theorem accepted_prefix (call : SendCall) : call.accepted <+: call.data := List.take_prefix _ _

/-- A call returns true exactly when the kernel has accepted the whole buffer. -/
theorem Returns.ok_iff (h : call.Returns ok) :
    ok = true ↔ call.valid = true ∧ call.accepted = call.data := by
  by_cases hv : call.valid = true
  · have hloop := h.loop hv []
    have hiff := @sendAllLoop_ok_iff call.data (call.answers ++ []) 0 (Nat.zero_le _)
    have hle := (@sendAllLoop_le call.data (call.answers ++ []) 0 (Nat.zero_le _)).2
    rw [hloop] at hiff hle
    rw [accepted, List.take_eq_self_iff]
    dsimp only at hiff hle
    rw [hiff]
    exact ⟨fun heq => ⟨hv, heq.ge⟩, fun hge => Nat.le_antisymm hle hge.2⟩
  · have hok := (h.invalid (Bool.eq_false_iff.2 hv)).1
    simp [hok, hv]

end SendCall

namespace Sender
variable {s s' : Sender} {call : SendCall} {data bytes : Bytes} {ok : Bool} {a : Answer}

structure Inv (s : Sender) : Prop where
  calling : ∀ call, s.calling = some call → call.Runs ∧ call.totalSent < call.data.length
  returned : ∀ p ∈ s.returned, p.1.Returns p.2

/-- The stream is what the kernel has accepted in the calls that have returned and in the one under
way. -/
theorem stream_eq (s : Sender) : s.stream =
    s.returned.flatMap (·.1.accepted) ++ s.calling.toList.flatMap SendCall.accepted := by
  rw [stream, calls, List.flatMap_append, List.flatMap_map]

theorem stream_of_calling (h : s.calling = some call) :
    s.stream = s.returned.flatMap (·.1.accepted) ++ call.accepted := by
  rw [stream_eq, h, Option.toList_some, List.flatMap_singleton]

theorem stream_of_idle (h : s.calling = none) :
    s.stream = s.returned.flatMap (·.1.accepted) := by
  rw [stream_eq, h, Option.toList_none, List.flatMap_nil, List.append_nil]

theorem ret_stream :
    (s.ret call ok).stream = s.returned.flatMap (·.1.accepted) ++ call.accepted := by
  rw [stream_of_idle rfl]
  simp [ret]

theorem test_stream :
    (s.test call).stream = s.returned.flatMap (·.1.accepted) ++ call.accepted := by
  rw [test]
  split
  · exact stream_of_calling rfl
  · exact ret_stream

theorem Inv.ret (hs : s.Inv) (h : call.Returns ok) : (s.ret call ok).Inv where
  calling _ hnone := nomatch hnone
  returned p hp := by
    rcases List.mem_append.1 hp with hp | hp
    · exact hs.returned p hp
    · rw [List.mem_singleton.1 hp]
      exact h

theorem Inv.test (hs : s.Inv) (h : call.Runs) : (s.test call).Inv := by
  rw [Sender.test]
  split
  · rename_i hlt
    refine ⟨?_, hs.returned⟩
    rintro call' ⟨⟩
    exact ⟨h, hlt⟩
  · rename_i hge
    exact hs.ret (h.sent (Nat.not_lt.1 hge))

theorem sendAll_spec (h : s.sendAll data = some s') (hs : s.Inv) : s'.Inv ∧ s'.stream = s.stream := by
  rw [sendAll] at h
  split at h
  · cases h
  · rename_i hidle
    have hstream := stream_of_idle (Option.not_isSome_iff_eq_none.1 hidle)
    split at h <;> cases h
    · refine ⟨hs.test ⟨rfl, Nat.zero_le _, fun _ => rfl⟩, ?_⟩
      rw [test_stream, hstream]
      exact List.append_nil _
    · refine ⟨hs.ret ⟨nofun, fun _ => ⟨rfl, rfl, rfl⟩⟩, ?_⟩
      rw [ret_stream, hstream]
      exact List.append_nil _

/-- The bytes that the kernel takes are the next ones of the buffer. -/
theorem send_spec (h : s.send a = some (bytes, s')) (hs : s.Inv) :
    s'.Inv ∧ s'.stream = s.stream ++ bytes := by
  rw [send] at h
  split at h
  · cases h
  · rename_i call hcall
    obtain ⟨hrun, hlt⟩ := hs.calling call hcall
    rw [stream_of_calling hcall, List.append_assoc]
    cases a with
    | fails e =>
      dsimp only at h
      split at h <;> cases h
      · rename_i he
        subst he
        exact ⟨hs.test (hrun.next hrun.bound fun _ => sendAllLoop_eintr hlt),
          by rw [test_stream, List.append_nil]; rfl⟩
      · rename_i he
        exact ⟨hs.ret (hrun.fails fun _ => sendAllLoop_error hlt he),
          by rw [ret_stream, List.append_nil]; rfl⟩
    | moves k =>
      dsimp only at h
      split at h <;> cases h
      · rename_i hk
        exact ⟨hs.ret (hrun.fails fun _ => sendAllLoop_zero hlt hk),
          by rw [ret_stream, List.append_nil]; rfl⟩
      · rename_i hk
        refine ⟨hs.test (hrun.next (by omega) fun _ => sendAllLoop_moves hlt hk), ?_⟩
        rw [test_stream, SendCall.accepted, SendCall.accepted, List.take_add]

theorem close_spec (h : s.close = some s') (hs : s.Inv) : s'.Inv ∧ s'.stream = s.stream := by
  rw [close] at h
  split at h <;> cases h
  exact ⟨⟨hs.calling, hs.returned⟩, rfl⟩

end Sender

/-! ### `recv_all` -/

/-- What one `recv` returns is the front of the stream, and nothing only at its end. -/
theorem recv_ok {n : Nat} {fin : Bool} {inbox chunk : Bytes} {a : Answer} (hn : 0 < n)
    (h : recv n fin inbox a = .ok chunk) :
    chunk <+: inbox ∧ chunk.length ≤ n ∧ (chunk = [] → fin = true ∧ inbox = []) := by
  cases a with
  | fails e => cases h
  | moves k =>
    rw [recv] at h
    cases inbox with
    | nil =>
      cases fin <;> cases h
      exact ⟨List.prefix_rfl, Nat.zero_le _, fun _ => ⟨rfl, rfl⟩⟩
    | cons b inbox =>
      cases h
      refine ⟨List.take_prefix _ _, by rw [List.length_take]; omega, fun hnil => ?_⟩
      rcases List.take_eq_nil_iff.1 hnil with hzero | hnil
      · omega
      · cases hnil

/-- The same bytes again, from a stream that begins with them. -/
theorem recv_chunk {n : Nat} {chunk : Bytes} (hne : chunk ≠ []) (hle : chunk.length ≤ n) (fin : Bool)
    (tail : Bytes) : recv n fin (chunk ++ tail) (.moves chunk.length) = .ok chunk := by
  have hpos := List.length_pos_iff.2 hne
  have hmin : min (max chunk.length 1) n = chunk.length := by omega
  rw [recv, if_neg (by simp [hne]), hmin, List.take_left]

namespace Socket
variable {length : Nat} {fin : Bool} {sched : List Answer} {inbox buf : Bytes}

theorem recvAllLoop_eintr (h : buf.length < length) :
    recvAllLoop length fin (.fails .EINTR :: sched) inbox buf =
      recvAllLoop length fin sched inbox buf := by
  simp [recvAllLoop, h, recv]

theorem recvAllLoop_error {e : Errno} (h : buf.length < length) (he : e ≠ .EINTR) :
    recvAllLoop length fin (.fails e :: sched) inbox buf = (-1, buf, inbox, sched) := by
  simp [recvAllLoop, h, recv, he]

theorem recvAllLoop_end {k : Nat} (h : buf.length < length) :
    recvAllLoop length true (.moves k :: sched) [] buf = (0, buf, [], sched) := by
  simp [recvAllLoop, h, recv]

theorem recvAllLoop_chunk {chunk : Bytes} (h : buf.length < length) (hne : chunk ≠ [])
    (hle : chunk.length ≤ length - buf.length) :
    recvAllLoop length fin (.moves chunk.length :: sched) (chunk ++ inbox) buf =
      recvAllLoop length fin sched inbox (buf ++ chunk) := by
  rw [recvAllLoop, if_pos h, recv_chunk hne hle]
  cases chunk with
  | nil => exact absurd rfl hne
  | cons b chunk =>
    show recvAllLoop length fin sched (List.drop (b :: chunk).length (b :: chunk ++ inbox)) _ = _
    rw [List.drop_left]

theorem recvAllLoop_full (h : length ≤ buf.length) :
    recvAllLoop length fin sched inbox buf = (1, buf, inbox, sched) := by
  cases sched with
  | nil => simp [recvAllLoop, h]
  | cons a sched => simp [recvAllLoop, Nat.not_lt.2 h]

end Socket

/-- The call was made on an invalid socket, or has met an error other than `EINTR`. -/
def RecvCall.Failed (call : RecvCall) : Prop :=
  call.valid = false ∨ ∃ e, .fails e ∈ call.answers ∧ e ≠ .EINTR

structure RecvCall.Runs (call : RecvCall) : Prop where
  bound : call.stored.length ≤ call.length
  running : ¬ call.Failed
  loop : ∀ fin sched tail,
    recvAllLoop call.length fin (call.answers ++ sched) (call.stored ++ tail) [] =
      recvAllLoop call.length fin sched tail call.stored

structure RecvCall.Returns (call : RecvCall) (result : Int) : Prop where
  bound : call.stored.length ≤ call.length
  failed_iff : result = -1 ↔ call.Failed
  loop : call.valid = true → ∀ fin sched tail, (result = 0 → fin = true ∧ tail = []) →
    recvAllLoop call.length fin (call.answers ++ sched) (call.stored ++ tail) [] =
      (result, call.stored, tail, sched)
  invalid : call.valid = false → call.stored = [] ∧ call.answers = []

namespace RecvCall
variable {call : RecvCall} {result : Int} {a : Answer}

theorem Runs.valid (h : call.Runs) : call.valid = true := by
  by_contra hv
  exact h.running (.inl (Bool.eq_false_iff.2 hv))

theorem failed_answer {stored : Bytes} :
    Failed { call with stored := stored, answers := call.answers ++ [a] } ↔
      call.Failed ∨ ∃ e, a = .fails e ∧ e ≠ .EINTR := by
  simp only [Failed, List.mem_append, List.mem_singleton, or_and_right, exists_or, or_assoc, eq_comm]

theorem Runs.next {chunk : Bytes} (h : call.Runs) (ha : ∀ e, a = .fails e → e = .EINTR)
    (hbound : (call.stored ++ chunk).length ≤ call.length)
    (hloop : ∀ fin sched tail, recvAllLoop call.length fin (a :: sched) (chunk ++ tail) call.stored =
      recvAllLoop call.length fin sched tail (call.stored ++ chunk)) :
    Runs { call with stored := call.stored ++ chunk, answers := call.answers ++ [a] } where
  bound := hbound
  running hfailed := by
    rcases failed_answer.1 hfailed with hfailed | ⟨e, he, hne⟩
    · exact h.running hfailed
    · exact hne (ha e he)
  loop fin sched tail := by
    show recvAllLoop call.length fin (call.answers ++ [a] ++ sched) (call.stored ++ chunk ++ tail) [] =
      recvAllLoop call.length fin sched tail (call.stored ++ chunk)
    rw [List.append_assoc, List.append_assoc, h.loop, List.singleton_append, hloop]

theorem Runs.interrupted (h : call.Runs) (hlt : call.stored.length < call.length) :
    Runs { call with answers := call.answers ++ [.fails .EINTR] } := by
  have hnext : Runs { call with
      stored := call.stored ++ []
      answers := call.answers ++ [.fails .EINTR] } := by
    refine h.next ?_ (by rw [List.append_nil]; exact h.bound) fun fin sched tail => ?_
    · rintro e ⟨⟩
      rfl
    · rw [recvAllLoop_eintr hlt, List.nil_append, List.append_nil]
  rwa [List.append_nil] at hnext

theorem Runs.fails {e : Errno} (h : call.Runs) (hlt : call.stored.length < call.length)
    (he : e ≠ .EINTR) : Returns { call with answers := call.answers ++ [.fails e] } (-1) where
  bound := h.bound
  failed_iff := ⟨fun _ => failed_answer.2 (.inr ⟨e, rfl, he⟩), fun _ => rfl⟩
  loop _ fin sched tail _ := by
    show recvAllLoop call.length fin (call.answers ++ [.fails e] ++ sched) (call.stored ++ tail) [] =
      (-1, call.stored, tail, sched)
    rw [List.append_assoc, h.loop, List.singleton_append, recvAllLoop_error hlt he]
  invalid hv := absurd (h.valid.symm.trans hv) nofun

theorem Runs.ended (h : call.Runs) (hlt : call.stored.length < call.length) :
    Returns { call with
      stored := call.stored ++ []
      answers := call.answers ++ [.moves 0] } 0 where
  bound := by
    rw [List.append_nil]
    exact h.bound
  failed_iff := by
    refine ⟨fun h0 => absurd h0 (by decide), fun hfailed => ?_⟩
    rcases failed_answer.1 hfailed with hfailed | ⟨e, he, -⟩
    · exact absurd hfailed h.running
    · cases he
  loop _ fin sched tail hend := by
    obtain ⟨rfl, rfl⟩ := hend rfl
    show recvAllLoop call.length true (call.answers ++ [.moves 0] ++ sched)
      (call.stored ++ [] ++ []) [] = (0, call.stored ++ [], [], sched)
    rw [List.append_assoc, List.append_assoc, h.loop, List.singleton_append, List.append_nil,
      List.append_nil, recvAllLoop_end hlt]
  invalid hv := absurd (h.valid.symm.trans hv) nofun

theorem Runs.full (h : call.Runs) (hle : call.length ≤ call.stored.length) : call.Returns 1 where
  bound := h.bound
  failed_iff := ⟨fun h1 => absurd h1 (by decide), fun hfailed => absurd hfailed h.running⟩
  loop _ fin sched tail _ := by rw [h.loop, recvAllLoop_full hle]
  invalid hv := absurd (h.valid.symm.trans hv) nofun

/-- What a call returns is one of three numbers; without a failure it is `1` exactly for all that was
asked for. -/
theorem Returns.result_cases (h : call.Returns result) :
    result = -1 ∨ ¬ call.Failed ∧ (result = 1 ∧ call.stored.length = call.length ∨
      result = 0 ∧ call.stored.length < call.length) := by
  by_cases hfailed : call.Failed
  · exact .inl (h.failed_iff.2 hfailed)
  · have hv : call.valid = true := by
      by_contra hv
      exact hfailed (.inl (Bool.eq_false_iff.2 hv))
    have hloop := h.loop hv true [] [] fun _ => ⟨rfl, rfl⟩
    obtain ⟨taken, -, htaken, hone⟩ :=
      @recvAllLoop_spec call.length true (call.answers ++ []) (call.stored ++ []) [] (Nat.zero_le _)
    have hres := @recvAllLoop_res call.length true (call.answers ++ []) (call.stored ++ []) []
    rw [hloop] at htaken hone hres
    dsimp only at htaken hone hres
    rw [← htaken] at hone
    refine .inr ⟨hfailed, ?_⟩
    rcases hres with hres | hres | hres
    · exact .inl ⟨hres, hone.1 hres⟩
    · refine .inr ⟨hres, Nat.lt_of_le_of_ne h.bound fun hlen => ?_⟩
      have hone := hone.2 hlen
      omega
    · exact absurd (h.failed_iff.1 hres) hfailed

end RecvCall

namespace Receiver
variable {r r' : Receiver} {call : RecvCall} {length : Nat} {result : Int} {fin : Bool}
  {inbox inbox' : Bytes} {a : Answer}

structure Inv (r : Receiver) : Prop where
  calling : ∀ call, r.calling = some call → call.Runs ∧ call.stored.length < call.length
  returned : ∀ p ∈ r.returned, p.1.Returns p.2

theorem taken_eq (r : Receiver) : r.taken =
    r.returned.flatMap (·.1.stored) ++ r.calling.toList.flatMap RecvCall.stored := by
  rw [taken, calls, List.flatMap_append, List.flatMap_map]

theorem taken_of_calling (h : r.calling = some call) :
    r.taken = r.returned.flatMap (·.1.stored) ++ call.stored := by
  rw [taken_eq, h, Option.toList_some, List.flatMap_singleton]

theorem taken_of_idle (h : r.calling = none) :
    r.taken = r.returned.flatMap (·.1.stored) := by
  rw [taken_eq, h, Option.toList_none, List.flatMap_nil, List.append_nil]

theorem ret_taken :
    (r.ret call result).taken = r.returned.flatMap (·.1.stored) ++ call.stored := by
  rw [taken_of_idle rfl]
  simp [ret]

theorem test_taken :
    (r.test call).taken = r.returned.flatMap (·.1.stored) ++ call.stored := by
  rw [test]
  split
  · exact taken_of_calling rfl
  · exact ret_taken

theorem Inv.ret (hr : r.Inv) (h : call.Returns result) : (r.ret call result).Inv where
  calling _ hnone := nomatch hnone
  returned p hp := by
    rcases List.mem_append.1 hp with hp | hp
    · exact hr.returned p hp
    · rw [List.mem_singleton.1 hp]
      exact h

theorem Inv.test (hr : r.Inv) (h : call.Runs) : (r.test call).Inv := by
  rw [Receiver.test]
  split
  · rename_i hlt
    refine ⟨?_, hr.returned⟩
    rintro call' ⟨⟩
    exact ⟨h, hlt⟩
  · rename_i hge
    exact hr.ret (h.full (Nat.not_lt.1 hge))

/-- The calls that return in a step; a call returns `0` only at the end of the stream. -/
def Adds (r r' : Receiver) (atEnd : Prop) : Prop :=
  r'.returned = r.returned ∨ ∃ call result, r'.returned = r.returned ++ [(call, result)] ∧
    r'.calling = none ∧ (result = 0 → atEnd)

theorem test_adds {atEnd : Prop} : r.Adds (r.test call) atEnd := by
  rw [test]
  split
  · exact .inl rfl
  · exact .inr ⟨call, 1, rfl, rfl, nofun⟩

theorem recvAll_spec {atEnd : Prop} (h : r.recvAll length = some r') (hr : r.Inv) :
    r'.Inv ∧ r'.taken = r.taken ∧ r.Adds r' atEnd := by
  rw [recvAll] at h
  split at h
  · cases h
  · rename_i hidle
    have htaken := taken_of_idle (Option.not_isSome_iff_eq_none.1 hidle)
    split at h <;> cases h
    · refine ⟨hr.test ⟨Nat.zero_le _, ?_, fun _ _ _ => rfl⟩, ?_, test_adds⟩
      · rintro (hinvalid | ⟨e, he, -⟩)
        · cases hinvalid
        · cases he
      · rw [test_taken, htaken]
        exact List.append_nil _
    · refine ⟨hr.ret ⟨Nat.zero_le _, ⟨fun _ => .inl rfl, fun _ => rfl⟩, nofun,
        fun _ => ⟨rfl, rfl⟩⟩, ?_,
        .inr ⟨_, _, rfl, rfl, nofun⟩⟩
      rw [ret_taken, htaken]
      exact List.append_nil _

/-- The bytes that are read are the next ones of the stream. -/
theorem recv_spec (h : r.recv fin inbox a = some (r', inbox')) (hr : r.Inv) :
    r'.Inv ∧ r'.taken ++ inbox' = r.taken ++ inbox ∧ r.Adds r' (fin = true ∧ inbox' = []) := by
  rw [recv] at h
  split at h
  · cases h
  · rename_i call hcall
    obtain ⟨hrun, hlt⟩ := hr.calling call hcall
    rw [taken_of_calling hcall]
    split at h
    · rename_i e he
      dsimp only at h
      split at h <;> cases h
      · rename_i heintr
        subst heintr
        refine ⟨hr.test (hrun.interrupted hlt), ?_, test_adds⟩
        rw [test_taken]
      · rename_i hne
        refine ⟨hr.ret (hrun.fails hlt hne), ?_, .inr ⟨_, _, rfl, rfl, nofun⟩⟩
        rw [ret_taken]
    · rename_i chunk hchunk
      obtain ⟨hpre, hle, hend⟩ := recv_ok (Nat.sub_pos_of_lt hlt) hchunk
      dsimp only at h
      split at h <;> cases h
      · rename_i hnil
        subst hnil
        refine ⟨hr.ret (hrun.ended hlt), ?_, .inr ⟨_, _, rfl, rfl, fun _ => hend rfl⟩⟩
        rw [ret_taken, List.append_nil]
      · rename_i hne
        refine ⟨hr.test (hrun.next nofun ?_ fun fin sched tail => recvAllLoop_chunk hlt hne hle), ?_,
          test_adds⟩
        · rw [List.length_append]
          omega
        · rw [test_taken, List.append_assoc, List.append_assoc, List.prefix_iff_eq_append.1 hpre,
            List.append_assoc]

theorem close_spec (h : r.close = some r') (hr : r.Inv) :
    r'.Inv ∧ r'.taken = r.taken ∧ r'.returned = r.returned := by
  rw [close] at h
  split at h <;> cases h
  exact ⟨⟨hr.calling, hr.returned⟩, rfl, rfl⟩

end Receiver

/-! ### Both ends -/

namespace Connection
variable {c c' : Connection} {l : Label} {ls : List Label} {senderFd receiverFd : Int}
  {front : List (RecvCall × Int)} {call : RecvCall} {result : Int}

structure Inv (c : Connection) : Prop where
  sender : c.sender.Inv
  receiver : c.receiver.Inv
  conserved : c.receiver.taken ++ c.inbox = c.sender.stream
  /-- A call that returns `0` has come to the end of the stream. -/
  ended : ∀ front call, front ++ [(call, 0)] <+: c.receiver.returned →
    c.fin = true ∧ front.flatMap (·.1.stored) ++ call.stored = c.sender.stream

theorem inv_opened : (opened senderFd receiverFd).Inv where
  sender := ⟨nofun, fun _ hp => absurd hp List.not_mem_nil⟩
  receiver := ⟨nofun, fun _ hp => absurd hp List.not_mem_nil⟩
  conserved := rfl
  ended front call hpre := by
    have hlen := hpre.length_le
    simp [opened] at hlen

theorem Inv.of_receiver (hi : c.Inv) {r : Receiver} {inbox : Bytes} (hr : r.Inv)
    (htaken : r.taken ++ inbox = c.receiver.taken ++ c.inbox)
    (hadds : c.receiver.Adds r (c.fin = true ∧ inbox = [])) :
    Inv { c with receiver := r, inbox := inbox } where
  sender := hi.sender
  receiver := hr
  conserved := htaken.trans hi.conserved
  ended front call hpre := by
    rcases hadds with hsame | ⟨call', result, hnew, hidle, hend⟩
    · exact hi.ended front call (hsame ▸ hpre)
    · dsimp only at hpre
      rw [hnew, List.prefix_concat_iff] at hpre
      rcases hpre with heq | hpre
      · obtain ⟨rfl, hcall⟩ := List.append_inj' heq rfl
        cases hcall
        obtain ⟨hfin, hinbox⟩ := hend rfl
        refine ⟨hfin, ?_⟩
        show _ = c.sender.stream
        rw [← hi.conserved, ← htaken, hinbox, List.append_nil, Receiver.taken_of_idle hidle, hnew]
        simp
      · exact hi.ended front call hpre

theorem Inv.of_sender (hi : c.Inv) {s : Sender} {bytes : Bytes} {fin : Bool} (hs : s.Inv)
    (hstream : s.stream = c.sender.stream ++ bytes) (hfin : c.fin = true → bytes = [] ∧ fin = true) :
    Inv { c with sender := s, inbox := c.inbox ++ bytes, fin := fin } where
  sender := hs
  receiver := hi.receiver
  conserved := by
    show c.receiver.taken ++ (c.inbox ++ bytes) = s.stream
    rw [hstream, ← hi.conserved, List.append_assoc]
  ended front call hpre := by
    obtain ⟨hended, htaken⟩ := hi.ended front call hpre
    obtain ⟨hnil, hfin⟩ := hfin hended
    refine ⟨hfin, ?_⟩
    show _ = s.stream
    rw [hstream, hnil, List.append_nil, htaken]

/-- A step of the sender in which the kernel takes nothing. -/
theorem Inv.of_quiet_sender (hi : c.Inv) {s : Sender} {fin : Bool} (hs : s.Inv)
    (hstream : s.stream = c.sender.stream) (hfin : c.fin = true → fin = true) :
    Inv { c with sender := s, fin := fin } := by
  have hinv : Inv { c with sender := s, inbox := c.inbox ++ [], fin := fin } :=
    hi.of_sender hs (by rw [hstream, List.append_nil]) fun h => ⟨rfl, hfin h⟩
  rwa [List.append_nil] at hinv

theorem step_inv (h : step c l = some c') (hi : c.Inv) : c'.Inv := by
  cases l with
  | sendAll data =>
    obtain ⟨s, hs, rfl⟩ := Option.map_eq_some_iff.1 h
    obtain ⟨hsInv, hstream⟩ := Sender.sendAll_spec hs hi.sender
    exact hi.of_quiet_sender hsInv hstream id
  | send a =>
    rw [step] at h
    split at h
    · cases h
    · rename_i bytes s hs
      obtain ⟨hsInv, hstream⟩ := Sender.send_spec hs hi.sender
      split at h <;> cases h
      rename_i hopen
      exact hi.of_sender hsInv hstream fun hfin => ⟨by_contra fun hne => hopen ⟨hfin, hne⟩, hfin⟩
  | recvAll length =>
    obtain ⟨r, hr, rfl⟩ := Option.map_eq_some_iff.1 h
    obtain ⟨hrInv, htaken, hadds⟩ := Receiver.recvAll_spec hr hi.receiver
    exact hi.of_receiver hrInv (by rw [htaken]) hadds
  | recv a =>
    obtain ⟨⟨r, inbox⟩, hr, rfl⟩ := Option.map_eq_some_iff.1 h
    obtain ⟨hrInv, htaken, hadds⟩ := Receiver.recv_spec hr hi.receiver
    exact hi.of_receiver hrInv htaken hadds
  | shutdown =>
    cases h
    exact hi.of_quiet_sender hi.sender rfl fun _ => rfl
  | closeSender =>
    obtain ⟨s, hs, rfl⟩ := Option.map_eq_some_iff.1 h
    obtain ⟨hsInv, hstream⟩ := Sender.close_spec hs hi.sender
    exact hi.of_quiet_sender hsInv hstream fun _ => rfl
  | closeReceiver =>
    obtain ⟨r, hr, rfl⟩ := Option.map_eq_some_iff.1 h
    obtain ⟨hrInv, htaken, hreturned⟩ := Receiver.close_spec hr hi.receiver
    exact hi.of_receiver hrInv (by rw [htaken]) (.inl hreturned)

theorem inv_exec (h : exec step (opened senderFd receiverFd) ls = some c) : c.Inv :=
  exec_invariant (G := fun _ _ => True) (fun _ _ _ hi _ h => step_inv h hi) h
    (guarded_of_forall fun _ _ => trivial) inv_opened

/-- A call that has returned is a call of `send_all` on a socket that gets the same answers. -/
theorem returned_sendAll {call : SendCall} {ok : Bool} {sched : List Answer} {s : Socket}
    (h : exec step (opened senderFd receiverFd) ls = some c) (hmem : (call, ok) ∈ c.sender.returned)
    (hv : s.isValid = call.valid) (hs : s.sends = call.answers ++ sched) :
    (s.sendAll call.data).1.ok = ok ∧
      (s.sendAll call.data).2 = { s with sent := s.sent ++ call.accepted, sends := sched } := by
  have hret : call.Returns ok := (inv_exec h).sender.returned (call, ok) hmem
  by_cases hvalid : call.valid = true
  · rw [sendAll_eq call.data (hv.trans hvalid), hs, hret.loop hvalid]
    exact ⟨rfl, rfl⟩
  · obtain ⟨hok, htotal, hanswers⟩ := hret.invalid (Bool.eq_false_iff.2 hvalid)
    rw [hanswers, List.nil_append] at hs
    rw [Socket.sendAll, if_neg (hv ▸ hvalid), SendCall.accepted, htotal, ← hs]
    simp [hok]

/-- A call that has returned is a call of `recv_all` on a socket that gets the same answers and has
the bytes before it; one that has returned `0` has nothing after them. -/
theorem returned_recvAll {sched : List Answer} {tail : Bytes} {s : Socket}
    (h : exec step (opened senderFd receiverFd) ls = some c)
    (hmem : (call, result) ∈ c.receiver.returned) (hv : s.isValid = call.valid)
    (hs : s.recvs = call.answers ++ sched) (hinbox : s.inbox = call.stored ++ tail)
    (hend : result = 0 → s.fin = true ∧ tail = []) :
    s.recvAll call.length = (result, call.stored, { s with inbox := tail, recvs := sched }) := by
  have hret : call.Returns result := (inv_exec h).receiver.returned (call, result) hmem
  by_cases hvalid : call.valid = true
  · rw [recvAll, if_pos (hv.trans hvalid), hs, hinbox, hret.loop hvalid s.fin sched tail hend]
  · have hinvalid := Bool.eq_false_iff.2 hvalid
    obtain ⟨hstored, hanswers⟩ := hret.invalid hinvalid
    rw [hanswers, List.nil_append] at hs
    rw [hstored, List.nil_append] at hinbox
    rw [recvAll, if_neg (hv ▸ hvalid), hstored, ← hs, ← hinbox, hret.failed_iff.2 (.inl hinvalid)]

/-- The bytes of the calls up to one that has returned are the first ones of the stream. -/
theorem Inv.prefix_stream (hi : c.Inv) (hpre : front ++ [(call, result)] <+: c.receiver.returned) :
    front.flatMap (·.1.stored) ++ call.stored <+: c.sender.stream := by
  obtain ⟨back, hback⟩ := hpre
  rw [← hi.conserved, Receiver.taken_eq, ← hback]
  simp

theorem Inv.stored_eq (hi : c.Inv) (hpre : front ++ [(call, result)] <+: c.receiver.returned) :
    call.stored =
      (c.sender.stream.drop (front.flatMap (·.1.stored)).length).take call.stored.length := by
  obtain ⟨back, hback⟩ := hi.prefix_stream hpre
  rw [← hback, List.append_assoc, List.drop_left, List.take_left]

theorem Inv.result_zero_iff (hi : c.Inv) (hpre : front ++ [(call, result)] <+: c.receiver.returned) :
    result = 0 ↔ ¬ call.Failed ∧ c.fin = true ∧
      c.sender.stream.length < (front.flatMap (·.1.stored)).length + call.length := by
  have hret : call.Returns result := hi.receiver.returned (call, result)
    (hpre.subset (List.mem_append_right _ List.mem_cons_self))
  have hlen := (hi.prefix_stream hpre).length_le
  rw [List.length_append] at hlen
  rcases hret.result_cases with hfail | ⟨hrun, ⟨hone, hall⟩ | ⟨hzero, hshort⟩⟩
  · have hfailed := hret.failed_iff.1 hfail
    exact ⟨fun hzero => by omega, fun hend => absurd hfailed hend.1⟩
  · exact ⟨fun hzero => by omega, fun hend => by omega⟩
  · refine ⟨fun _ => ?_, fun _ => hzero⟩
    subst hzero
    obtain ⟨hfin, hstream⟩ := hi.ended front call hpre
    refine ⟨hrun, hfin, ?_⟩
    rw [← hstream, List.length_append]
    omega

theorem Inv.stored_length_of_one (hi : c.Inv) (hmem : (call, 1) ∈ c.receiver.returned) :
    call.stored.length = call.length := by
  have hret : call.Returns 1 := hi.receiver.returned (call, 1) hmem
  rcases hret.result_cases with h | ⟨-, ⟨-, hall⟩ | ⟨h, -⟩⟩
  · omega
  · exact hall
  · omega

/-- After calls that have all returned `1` the receiver is as far as they asked for. -/
theorem Inv.offset_eq (hi : c.Inv) (hpre : front <+: c.receiver.returned)
    (hall : ∀ p ∈ front, p.2 = 1) :
    (front.flatMap (·.1.stored)).length = (front.map (·.1.length)).sum := by
  have hsub := hpre.subset
  clear hpre
  induction front with
  | nil => rfl
  | cons p front ih =>
    have hone : p.2 = 1 := hall p List.mem_cons_self
    have hp : p.1.stored.length = p.1.length := hi.stored_length_of_one (hone ▸ hsub List.mem_cons_self)
    have hrest := ih (fun q hq => hall q (List.mem_cons_of_mem p hq))
      fun q hq => hsub (List.mem_cons_of_mem p hq)
    rw [List.flatMap_cons, List.length_append, List.map_cons, List.sum_cons, hp, hrest]

theorem Inv.stream_of_sent (hi : c.Inv) (hall : ∀ p ∈ c.sender.returned, p.2 = true) :
    c.sender.stream = c.sender.returned.flatMap (·.1.data) ++
      c.sender.calling.toList.flatMap SendCall.accepted := by
  have hdata : ∀ p ∈ c.sender.returned, p.1.accepted = p.1.data := fun p hp =>
    ((hi.sender.returned p hp).ok_iff.1 (hall p hp)).2
  rw [Sender.stream_eq, List.flatMap_congr hdata]

/-- `send_all` and `recv_all` against each other, after any run. The kernel accepts a prefix of every
buffer, and the whole buffer exactly when the call returns true. What a call of `recv_all` that
returns `1` has stored is what stands in the stream after the bytes of the calls before it, in the
length asked for; `0` means that the stream ended before, `-1` that the call failed. Nothing beyond
is read. -/
theorem recvAll_inverts_sendAll (h : exec step (opened senderFd receiverFd) ls = some c) :
    (∀ call ok, (call, ok) ∈ c.sender.returned →
      call.accepted <+: call.data ∧
        (ok = true ↔ call.valid = true ∧ call.accepted = call.data)) ∧
    c.sender.stream = c.sender.returned.flatMap (·.1.accepted) ++
      c.sender.calling.toList.flatMap SendCall.accepted ∧
    ((∀ p ∈ c.sender.returned, p.2 = true) →
      c.sender.stream = c.sender.returned.flatMap (·.1.data) ++
        c.sender.calling.toList.flatMap SendCall.accepted) ∧
    (∀ front call result, front ++ [(call, result)] <+: c.receiver.returned →
      (result = 1 → call.stored.length = call.length ∧ call.stored =
        (c.sender.stream.drop (front.flatMap (·.1.stored)).length).take call.length) ∧
      ((∀ p ∈ front, p.2 = 1) →
        (front.flatMap (·.1.stored)).length = (front.map (·.1.length)).sum) ∧
      (result = 0 ↔ ¬ call.Failed ∧ c.fin = true ∧
        c.sender.stream.length < (front.flatMap (·.1.stored)).length + call.length) ∧
      (result = -1 ↔ call.Failed)) ∧
    c.receiver.taken ++ c.inbox = c.sender.stream := by
  have hi := inv_exec h
  refine ⟨fun call ok hmem => ⟨call.accepted_prefix, (hi.sender.returned (call, ok) hmem).ok_iff⟩,
    c.sender.stream_eq, hi.stream_of_sent, fun front call result hpre => ⟨?_, ?_, ?_, ?_⟩,
    hi.conserved⟩
  · rintro rfl
    have hmem := hpre.subset (List.mem_append_right front List.mem_cons_self)
    have hlen := hi.stored_length_of_one hmem
    have hstored := hi.stored_eq hpre
    rw [hlen] at hstored
    exact ⟨hlen, hstored⟩
  · exact hi.offset_eq ((List.prefix_append front _).trans hpre)
  · exact hi.result_zero_iff hpre
  · exact (hi.receiver.returned (call, result)
      (hpre.subset (List.mem_append_right front List.mem_cons_self))).failed_iff

/-- One buffer in two pieces, asked for as three bytes and three more: `1` with the first three, and
`0` with the last two. -/
theorem recvAll_inverts_sendAll_run :
    ∃ c, exec step (opened 3 4) [.sendAll (ascii "abcde"), .recvAll 3, .send (.moves 2),
        .recv (.fails .EINTR), .recv (.moves 9), .send (.fails .EINTR), .send (.moves 9),
        .recv (.moves 9), .recvAll 3, .recv (.moves 9), .shutdown, .recv (.moves 9)] = some c ∧
      c.receiver.returned.map (fun p => (p.1.stored, p.2)) = [(ascii "abc", 1), (ascii "de", 0)] ∧
      c.receiver.taken ++ c.inbox = c.sender.stream := by
  refine ⟨?after, ?run, ?_, (recvAll_inverts_sendAll ?run).2.2.2.2⟩
  case run => rfl
  rfl

end Connection
end Streamer

import Streamer.Lib.Text

/-!
# What the kernel answers

A blocking stream socket is seen through the answers the kernel gives to `send` and `recv`. A
schedule is the list of the answers to come: a partial transfer or an error (`EINTR` among them)
at any place. A schedule that has run out answers with an error, as a socket with a
timeout does. `Lively n` schedules never fail and hold at least `n` transfers, whatever their sizes
and however many `EINTR` stand between them.
-/

namespace Kernel

open Text

inductive Errno where
  | EINTR | EAGAIN | EPIPE | ECONNRESET | EBADF | EINVAL
  | ENOENT | ENOTDIR | ELOOP | EACCES | ENAMETOOLONG | EISDIR | EIO
deriving DecidableEq, Repr

inductive Answer where
  /-- At most `k` bytes move. `send` returns `0` for `k = 0`; `recv` gives a byte whenever there is
  one to give. -/
  | moves (k : Nat)
  | fails (e : Errno)
deriving DecidableEq, Repr

def Answer.isLive : Answer → Bool
  | .moves k => 0 < k
  | .fails e => e = .EINTR

def Answer.isMove : Answer → Bool
  | .moves _ => true
  | .fails _ => false

/-- The bytes one `recv` of `len` bytes returns, none of them at the end of the stream. `inbox` is
what has arrived, `fin` says that the peer ended its stream after it. -/
def recv (len : Nat) (fin : Bool) (inbox : Bytes) : Answer → Except Errno Bytes
  | .moves k =>
    if inbox.isEmpty then if fin then .ok [] else .error .EAGAIN
    else .ok (inbox.take (min (max k 1) len))
  | .fails e => .error e

/-- The schedule never fails and holds at least `n` transfers. -/
structure Lively (n : Nat) (sched : List Answer) : Prop where
  live : ∀ a ∈ sched, a.isLive = true
  enough : n ≤ sched.countP Answer.isMove

namespace Lively
variable {n m : Nat} {sched : List Answer} {a : Answer}

instance (n : Nat) (sched : List Answer) : Decidable (Lively n sched) :=
  decidable_of_iff ((∀ a ∈ sched, a.isLive = true) ∧ n ≤ sched.countP Answer.isMove)
    ⟨fun h => ⟨h.1, h.2⟩, fun h => ⟨h.live, h.enough⟩⟩

theorem mono (h : Lively n sched) (hm : m ≤ n) : Lively m sched := ⟨h.live, Nat.le_trans hm h.enough⟩

theorem ne_nil (h : Lively (n + 1) sched) : sched ≠ [] := by
  rintro rfl
  have := h.enough
  simp at this

theorem of_eintr (h : Lively n (.fails .EINTR :: sched)) : Lively n sched :=
  ⟨fun a ha => h.live a (by simp [ha]), by simpa [Answer.isMove] using h.enough⟩

theorem of_moves {k : Nat} (h : Lively (n + 1) (.moves k :: sched)) : Lively n sched :=
  ⟨fun a ha => h.live a (by simp [ha]), by
    have := h.enough
    rw [List.countP_cons_of_pos (by rfl)] at this
    omega⟩

theorem head_cases (h : Lively n (a :: sched)) : a = .fails .EINTR ∨ ∃ k, 0 < k ∧ a = .moves k := by
  have := h.live a (by simp)
  cases a with
  | moves k => exact .inr ⟨k, by simpa [Answer.isLive] using this, rfl⟩
  | fails e => exact .inl (by simpa [Answer.isLive] using this)

/-- Interruptions, and then a transfer. -/
theorem split (h : Lively (n + 1) sched) : ∃ m k rest,
    sched = List.replicate m (.fails .EINTR) ++ .moves k :: rest ∧ Lively n rest := by
  induction sched with
  | nil => exact absurd rfl h.ne_nil
  | cons a sched ih =>
    rcases h.head_cases with rfl | ⟨k, hk, rfl⟩
    · obtain ⟨m, k, rest, rfl, hlive⟩ := ih h.of_eintr
      exact ⟨m + 1, k, rest, rfl, hlive⟩
    · exact ⟨0, k, sched, rfl, h.of_moves⟩

end Lively

end Kernel

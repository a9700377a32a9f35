import Streamer.Descriptor

/-!
# One close for a descriptor

Nothing but the schedule keeps the two threads apart: `is_active_` decides who shuts a session
down, not who closes. `Apart` says when a step of one thread does not fall between a load of `fd_`
of the other and the use of the loaded value, or between its `::close` and the store of `-1`;
where every step is of this kind, the number is closed once and never used again.
-/

namespace Streamer
open Machine

/-- The call on the `Socket` that the thread is in. -/
def WorkerPc.io? : WorkerPc → Option (SysCall × IoPc)
  | .io c pc => some (c, pc)
  | _ => none

def EnderPc.io? : EnderPc → Option (SysCall × IoPc)
  | .io _ c pc => some (c, pc)
  | _ => none

namespace Descriptor
variable {s s' : Descriptor} {turn : Turn} {l : FdLabel}

def at? (io : Option (SysCall × IoPc)) : Option IoPc := io.map (·.2)

/-- The step of a thread in `io` keeps apart from the other, which stands at `pc`: it does not
load `fd_` for a system call between the other's `::close` and its store of `-1`, and does not
make its own `::close` between the other's load and system call. -/
def StepApart (io : Option (SysCall × IoPc)) (pc : Option IoPc) : Prop :=
  (at? io = some .load → pc ≠ some .store) ∧ (io = some (.close, .call true) → pc ≠ some (.call true))

instance (io : Option (SysCall × IoPc)) (pc : Option IoPc) : Decidable (StepApart io pc) :=
  inferInstanceAs (Decidable (_ ∧ _))

def Apart (s : Descriptor) : FdLabel → Prop
  | .worker _ => StepApart s.worker.io? (at? s.ender.io?)
  | .ender _ => StepApart s.ender.io? (at? s.worker.io?)
  | .takeNumber | .releaseNumber => True

instance (s : Descriptor) (l : FdLabel) : Decidable (s.Apart l) :=
  match l with
  | .worker _ => inferInstanceAs (Decidable (StepApart _ _))
  | .ender _ => inferInstanceAs (Decidable (StepApart _ _))
  | .takeNumber | .releaseNumber => .isTrue trivial

/-- The two threads at `a` and `b`. While the descriptor is the session's, `fd_` holds it; once it
is closed no thread is about to use the number, and `fd_` holds it only until the thread that
closed it has stored `-1`. -/
structure Safe (s : Descriptor) (a b : Option IoPc) : Prop where
  ours : s.number = .ours → s.closes = 0 ∧ s.fd = true ∧
    (a ≠ some .store ∧ a ≠ some (.call false)) ∧ b ≠ some .store ∧ b ≠ some (.call false)
  gone : s.number ≠ .ours → s.closes = 1 ∧ a ≠ some (.call true) ∧ b ≠ some (.call true) ∧
    (s.fd = true → a = some .store ∨ b = some .store)
  fine : s.misused = false

namespace Safe
variable {a b : Option IoPc}

theorem symm (h : Safe s a b) : Safe s b a := by
  refine ⟨?_, ?_, h.fine⟩
  · intro ho
    obtain ⟨h1, h2, h3, h4⟩ := h.ours ho
    exact ⟨h1, h2, h4, h3⟩
  · intro hg
    obtain ⟨h1, h2, h3, h4⟩ := h.gone hg
    exact ⟨h1, h3, h2, fun hf => (h4 hf).symm⟩

/-- The thread goes on outside a system call. -/
theorem goes (h : Safe s none b) (ha : a = none ∨ a = some .check) : Safe s a b := by
  refine ⟨?_, ?_, h.fine⟩
  · intro ho
    obtain ⟨h1, h2, -, h4⟩ := h.ours ho
    rcases ha with rfl | rfl <;> exact ⟨h1, h2, by simp, h4⟩
  · intro hg
    obtain ⟨h1, -, h3, h4⟩ := h.gone hg
    rcases ha with rfl | rfl <;> exact ⟨h1, by simp, h3, fun hf => .inr ((h4 hf).resolve_left (by simp))⟩

/-- `is_active_` and the threads' places play no part. -/
theorem congr (h : Safe s a b) (hfd : s'.fd = s.fd) (hn : s'.number = s.number)
    (hc : s'.closes = s.closes) (hm : s'.misused = s.misused) : Safe s' a b := by
  refine ⟨?_, ?_, hm.trans h.fine⟩
  · rw [hn, hc, hfd]
    exact h.ours
  · rw [hn, hc, hfd]
    exact h.gone

theorem ioStep {c : SysCall} {pc : IoPc} (h : Safe s (some pc) b) (hg : StepApart (some (c, pc)) b) :
    Safe (s.ioStep c turn pc).1 (s.ioStep c turn pc).2 b := by
  obtain ⟨hours, hgone, hfine⟩ := h
  obtain ⟨hload, hclose⟩ := hg
  by_cases hn : s.number = .ours
  · obtain ⟨hc, hfd, ⟨hstore, hblank⟩, hb⟩ := hours hn
    cases pc with
    | check =>
      simp only [Descriptor.ioStep, hfd, if_true]
      exact ⟨fun _ => ⟨hc, hfd, by simp, hb⟩, fun h => absurd hn h, hfine⟩
    | load =>
      simp only [Descriptor.ioStep, hfd]
      exact ⟨fun _ => ⟨hc, hfd, by simp, hb⟩, fun h => absurd hn h, hfine⟩
    | store => exact absurd rfl hstore
    | call fd =>
      obtain rfl : fd = true := by
        cases fd with
        | true => rfl
        | false => exact absurd rfl hblank
      by_cases hcl : c = .close
      · subst hcl
        simp only [Descriptor.ioStep, sysCall, if_true, hn, hfine]
        refine ⟨by simp, fun _ => ⟨by simp [hc], by simp, hclose rfl, fun _ => .inl rfl⟩, by simp⟩
      · have hs : s.sysCall c true = s := by
          cases s
          simp_all [sysCall]
        have hnext : ∀ pc, (s.ioStep c turn (.call true)).2 = some pc → pc = .load := by
          cases c <;> simp_all [Descriptor.ioStep]
        simp only [Descriptor.ioStep] at hnext ⊢
        rw [hs]
        refine ⟨fun _ => ⟨hc, hfd, ⟨?_, ?_⟩, hb⟩, fun h => absurd hn h, hfine⟩
        · intro h
          cases hnext _ h
        · intro h
          cases hnext _ h
  · obtain ⟨hc, hcall, hb, hlast⟩ := hgone hn
    cases pc with
    | check =>
      have hother : s.fd = true → b = some .store := fun h => (hlast h).resolve_left (by simp)
      refine ⟨fun h => absurd h hn, fun _ => ⟨hc, ?_, hb, fun h => .inr (hother h)⟩, hfine⟩
      simp only [Descriptor.ioStep]
      split <;> simp
    | load =>
      have hfd : s.fd = false := by
        rw [← Bool.not_eq_true]
        intro h
        exact hload rfl ((hlast h).resolve_left (by simp))
      simp only [Descriptor.ioStep, hfd]
      exact ⟨fun h => absurd h hn, fun _ => ⟨hc, by simp, hb, by simp [hfd]⟩, hfine⟩
    | store => exact ⟨fun h => absurd h hn,
        fun _ => ⟨hc, by simp [Descriptor.ioStep], hb, by simp [Descriptor.ioStep]⟩, hfine⟩
    | call fd =>
      obtain rfl : fd = false := by
        cases fd with
        | false => rfl
        | true => exact absurd rfl hcall
      have hother : s.fd = true → b = some .store := fun h => (hlast h).resolve_left (by simp)
      refine ⟨fun h => absurd h hn, fun _ => ⟨hc, ?_, hb, fun h => .inr (hother h)⟩, hfine⟩
      cases c <;> simp [Descriptor.ioStep]

end Safe

/-! ### The steps -/

theorem ioStep_places (s : Descriptor) (c : SysCall) (turn : Turn) (pc : IoPc) :
    (s.ioStep c turn pc).1.worker = s.worker ∧ (s.ioStep c turn pc).1.ender = s.ender := by
  cases pc with
  | call fd =>
    simp only [ioStep, sysCall]
    split
    · split <;> exact ⟨rfl, rfl⟩
    · exact ⟨rfl, rfl⟩
  | _ => exact ⟨rfl, rfl⟩

theorem workerStep_safe (h : s.workerStep turn = some s')
    (hs : Safe s (at? s.worker.io?) (at? s.ender.io?))
    (hg : StepApart s.worker.io? (at? s.ender.io?)) :
    s'.ender = s.ender ∧ Safe s' (at? s'.worker.io?) (at? s.ender.io?) := by
  unfold workerStep at h
  split at h
  case h_5 c pc hw =>
    rw [hw] at hs hg
    have hio : Safe (s.ioStep c turn pc).1 (s.ioStep c turn pc).2 _ := hs.ioStep hg
    obtain ⟨-, hplace⟩ := ioStep_places s c turn pc
    split at h
    · rename_i t pc' heq
      rw [heq] at hio hplace
      cases h
      exact ⟨hplace, hio.congr rfl rfl rfl rfl⟩
    · rename_i t heq
      rw [heq] at hio hplace
      cases c <;> cases h
      · refine ⟨hplace, (hio.goes ?_).congr rfl rfl rfl rfl⟩
        split <;> exact .inl rfl
      · exact ⟨hplace, hio.congr rfl rfl rfl rfl⟩
      · exact ⟨hplace, hio.congr rfl rfl rfl rfl⟩
  case h_3 hw =>
    rw [hw] at hs
    cases turn <;> cases h
    · exact ⟨rfl, (hs.goes (.inr rfl)).congr rfl rfl rfl rfl⟩
    · exact ⟨rfl, hs.congr rfl rfl rfl rfl⟩
    · exact ⟨rfl, hs.congr rfl rfl rfl rfl⟩
  case h_6 => cases h
  all_goals
    rename_i hw
    rw [hw] at hs
    cases h
    refine ⟨rfl, (hs.goes ?_).congr rfl rfl rfl rfl⟩
  · exact .inl rfl
  · dsimp only
    split
    · exact .inr rfl
    · exact .inl rfl
  · exact .inr rfl

theorem enderStep_safe (h : s.enderStep turn = some s') (hs : Safe s (at? s.ender.io?) (at? s.worker.io?))
    (hg : StepApart s.ender.io? (at? s.worker.io?)) :
    s'.worker = s.worker ∧ Safe s' (at? s'.ender.io?) (at? s.worker.io?) := by
  have hnext (stage : Stage) : at? (Stage.next stage).io? = none ∨
      at? (Stage.next stage).io? = some .check := by
    cases stage <;> simp [Stage.next, EnderPc.io?, at?]
  unfold enderStep at h
  split at h
  case h_3 stage c pc he =>
    rw [he] at hs hg
    have hio : Safe (s.ioStep c turn pc).1 (s.ioStep c turn pc).2 _ := hs.ioStep hg
    obtain ⟨hplace, -⟩ := ioStep_places s c turn pc
    split at h
    · rename_i t pc' heq
      rw [heq] at hio hplace
      cases h
      exact ⟨hplace, hio.congr rfl rfl rfl rfl⟩
    · rename_i t heq
      rw [heq] at hio hplace
      cases c <;> cases h
      · exact ⟨hplace, (hio.goes (.inr rfl)).congr rfl rfl rfl rfl⟩
      · exact ⟨hplace, (hio.goes (hnext stage)).congr rfl rfl rfl rfl⟩
  case h_5 => cases h
  case h_2 stage he =>
    rw [he] at hs
    split at h <;> cases h
    · exact ⟨rfl, (hs.goes (.inr rfl)).congr rfl rfl rfl rfl⟩
    · exact ⟨rfl, (hs.goes (hnext stage)).congr rfl rfl rfl rfl⟩
  case h_1 he =>
    rw [he] at hs
    split at h
    · cases h
      exact ⟨rfl, hs.congr rfl rfl rfl rfl⟩
    split at h <;> cases h
    · exact ⟨rfl, by rw [he]; exact hs⟩
    · exact ⟨rfl, hs.congr rfl rfl rfl rfl⟩
  case h_4 he =>
    rw [he] at hs
    split at h <;> cases h
    exact ⟨rfl, hs.congr rfl rfl rfl rfl⟩

theorem step_safe (h : s.step l = some s') (hs : Safe s (at? s.worker.io?) (at? s.ender.io?))
    (hg : s.Apart l) : Safe s' (at? s'.worker.io?) (at? s'.ender.io?) := by
  cases l with
  | worker turn =>
    obtain ⟨he, hsafe⟩ := workerStep_safe h hs hg
    rw [he]
    exact hsafe
  | ender turn =>
    obtain ⟨hw, hsafe⟩ := enderStep_safe h hs.symm hg
    rw [hw]
    exact hsafe.symm
  | takeNumber =>
    simp only [step] at h
    split at h <;> cases h
    rename_i hn
    exact ⟨nofun, fun _ => hs.gone (by simp [hn]), hs.fine⟩
  | releaseNumber =>
    simp only [step] at h
    split at h <;> cases h
    rename_i hn
    exact ⟨nofun, fun _ => hs.gone (by simp [hn]), hs.fine⟩

/-- In every run whose steps keep the two threads apart the descriptor is closed at most once, and
no system call of the session goes to a number that has another owner. -/
theorem closed_once (ls : List FdLabel) (s : Descriptor) (h : exec step {} ls = some s)
    (hg : Guarded step Apart {} ls) : s.closes ≤ 1 ∧ s.misused = false := by
  have hinit : Safe {} (at? ({} : Descriptor).worker.io?) (at? ({} : Descriptor).ender.io?) :=
    ⟨fun _ => ⟨rfl, rfl, by simp [WorkerPc.io?, at?], by simp [EnderPc.io?, at?]⟩,
      fun h => absurd rfl h, rfl⟩
  have hs := exec_invariant (I := fun s => Safe s (at? s.worker.io?) (at? s.ender.io?))
    (fun s l s' hi hl hstep => step_safe hstep hi hl) h hg hinit
  refine ⟨?_, hs.fine⟩
  by_cases hn : s.number = .ours
  · rw [(hs.ours hn).1]
    exact Nat.zero_le 1
  · exact Nat.le_of_eq (hs.gone hn).1

/-- `stop()` comes while the worker is between two system calls. -/
def calmStop : List FdLabel :=
  .replicate 3 (.worker .done) ++ .replicate 9 (.ender .done) ++ [.takeNumber] ++
    .replicate 4 (.worker .done) ++
    .replicate 3 (.ender .done)

theorem calmStop_closed_once :
    ∃ s, exec step {} calmStop = some s ∧ s.ender = .destroyed ∧ s.number = .other ∧
      s.closes ≤ 1 ∧ s.misused = false :=
  ⟨⟨false, false, .other, 1, false, .exited, .destroyed⟩, by decide, rfl, rfl,
    closed_once calmStop ⟨false, false, .other, 1, false, .exited, .destroyed⟩ (by decide) (by decide)⟩

/-- Both threads load `fd_` before one of them closes; the number goes to another owner before the
other does. -/
def racingStop : List FdLabel :=
  .replicate 7 (.ender .done) ++ .replicate 5 (.worker .fails) ++ .replicate 4 (.worker .done) ++
    [.takeNumber, .ender .done]

theorem racingStop_closed_twice :
    ∃ s, exec step {} racingStop = some s ∧ s.closes = 2 ∧ s.misused = true ∧
      ¬ (s.closes ≤ 1 ∧ s.misused = false) := by
  refine ⟨_, rfl, ?_, ?_, ?_⟩
  all_goals decide

/-! ### The same threads in `Server` -/

/-- Where `Server` sees the worker. -/
def threadPc : WorkerPc → ThreadPc
  | .activate => .activate
  | .loopTest => .loopTest
  | .serve | .io .send _ | .io .shutdown _ => .handle
  | .io .recv _ => .recvLine
  | .deactivate => .deactivate
  | .io .close _ => .close
  | .exited => .exited

/-- A step of the worker is a step of the session thread of `Server`, or is not seen there. -/
theorem workerStep_view (h : s.workerStep turn = some s') :
    threadPc s'.worker = threadPc s.worker ∧ s'.isActive = s.isActive ∨
      ∃ o x, Server.serveStep ⟨s.isActive, true, threadPc s.worker, false⟩ o = some x ∧
        x.thread = threadPc s'.worker ∧ x.isActive = s'.isActive := by
  have hactive (c : SysCall) (pc : IoPc) : (s.ioStep c turn pc).1.isActive = s.isActive := by
    cases pc with
    | call fd =>
      simp only [ioStep, sysCall]
      split
      · split <;> rfl
      · rfl
    | _ => rfl
  unfold workerStep at h
  split at h
  case h_5 c pc hw =>
    have hact := hactive c pc
    split at h
    · rename_i t pc' heq
      rw [heq] at hact
      cases h
      refine .inl ⟨?_, hact⟩
      rw [hw]
      cases c <;> rfl
    · rename_i t heq
      rw [heq] at hact
      cases c with
      | recv =>
        cases h
        rw [hw]
        cases gotLine pc turn
        · exact .inr ⟨.gone, _, rfl, rfl, hact.symm⟩
        · exact .inr ⟨.served, _, rfl, rfl, hact.symm⟩
      | send =>
        cases h
        exact .inl ⟨by rw [hw]; rfl, hact⟩
      | shutdown => cases h
      | close =>
        cases h
        rw [hw]
        exact .inr ⟨.served, _, rfl, rfl, hact.symm⟩
  case h_3 hw =>
    cases turn <;> cases h
    · exact .inl ⟨by rw [hw]; rfl, rfl⟩
    · exact .inr ⟨.served, _, by rw [hw]; rfl, rfl, rfl⟩
    · exact .inr ⟨.ends, _, by rw [hw]; rfl, rfl, rfl⟩
  case h_6 => cases h
  case h_2 hw =>
    cases h
    refine .inr ⟨.served, _, by rw [hw]; rfl, ?_, rfl⟩
    dsimp only
    cases s.isActive <;> rfl
  all_goals
    rename_i hw
    cases h
    exact .inr ⟨.served, _, by rw [hw]; rfl, rfl, rfl⟩

end Descriptor
end Streamer

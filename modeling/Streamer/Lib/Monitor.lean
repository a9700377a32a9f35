import Streamer.Lib.Machine

/-!
# Objects behind a lock

Any number of threads call the operations of one object. A call waits for the lock, does its steps on the
object, and gives the lock back when it returns; the threads interleave between any two of these. The code
is `next`: what a call that has come to `b` does to the object, and whether it goes on or has a result; a
call `w` begins at `enter w`.

If the steps of every call come to what a function `f` says of the call as a whole (`Implements`), then
every run is one in which the calls are made one after the other, in the order in which they return
(`linearizable`).
-/

namespace Monitor
open Machine

/-- Where a thread stands: in no call, before the lock, or in the call `w` that has come to `c`. -/
inductive Status (ω β ρ : Type) where
  | out
  | waiting (w : ω)
  | inside (w : ω) (c : β ⊕ ρ)

def Status.call? {ω β ρ : Type} : Status ω β ρ → Option ω
  | .out => none
  | .waiting w | .inside w _ => some w

structure State (τ α ω β ρ : Type) where
  lock : Option τ := none
  object : α
  threads : τ → Status ω β ρ := fun _ => .out

inductive Label (τ ω : Type) where
  | call (t : τ) (w : ω)
  | acquire (t : τ)
  | step (t : τ)
  | release (t : τ)

variable {τ α ω β ρ : Type}

namespace State
variable [DecidableEq τ]

def set (s : State τ α ω β ρ) (t : τ) (status : Status ω β ρ) : State τ α ω β ρ :=
  { s with threads := fun u => if u = t then status else s.threads u }

@[simp] theorem set_lock (s : State τ α ω β ρ) (t : τ) (status : Status ω β ρ) :
    (s.set t status).lock = s.lock := rfl

@[simp] theorem set_object (s : State τ α ω β ρ) (t : τ) (status : Status ω β ρ) :
    (s.set t status).object = s.object := rfl

@[simp] theorem set_threads (s : State τ α ω β ρ) (t u : τ) (status : Status ω β ρ) :
    (s.set t status).threads u = if u = t then status else s.threads u := rfl

end State

variable (enter : ω → β) (next : β → α → α × (β ⊕ ρ))

def step [DecidableEq τ] (s : State τ α ω β ρ) : Label τ ω → Option (State τ α ω β ρ)
  | .call t w =>
    match s.threads t with
    | .out => some (s.set t (.waiting w))
    | _ => none
  | .acquire t =>
    match s.threads t, s.lock with
    | .waiting w, none => some { s.set t (.inside w (.inl (enter w))) with lock := some t }
    | _, _ => none
  | .step t =>
    match s.threads t with
    | .inside w (.inl b) =>
      some { s.set t (.inside w (next b s.object).2) with object := (next b s.object).1 }
    | _ => none
  | .release t =>
    match s.threads t with
    | .inside _ (.inr _) => some { s.set t .out with lock := none }
    | _ => none

/-- A call that returns, with its thread and its result. -/
def returns (s : State τ α ω β ρ) : Label τ ω → List (τ × ω × ρ)
  | .release t =>
    match s.threads t with
    | .inside w (.inr r) => [(t, w, r)]
    | _ => []
  | _ => []

/-- The steps of one call with the object for itself. -/
def advance : α × (β ⊕ ρ) → Option (α × (β ⊕ ρ))
  | (a, .inl b) => some (next b a)
  | (_, .inr _) => none

/-- What a call comes to, by itself, is what `f` says. -/
def Implements (f : ω → α → α × ρ) : Prop :=
  ∀ w a, Leads (advance next) (a, .inl (enter w)) ((f w a).1, .inr (f w a).2)

/-- The calls one after the other, from `a` to `a'`, with the results they had. -/
def Replays (f : ω → α → α × ρ) : α → List (τ × ω × ρ) → α → Prop
  | a, [], a' => a' = a
  | a, (_, w, r) :: calls, a' => r = (f w a).2 ∧ Replays f (f w a).1 calls a'

variable {enter next} {f : ω → α → α × ρ} {a a' : α}

theorem Implements.eq (hf : Implements enter next f) {w : ω} {r : ρ}
    (h : Leads (advance next) (a, .inl (enter w)) (a', .inr r)) : a' = (f w a).1 ∧ r = (f w a).2 := by
  have := h.final_eq rfl (hf w a) rfl
  simpa using this

variable {s s' : State τ α ω β ρ}

/-- The object is what the returned calls have made of it, and what the call that has the lock has done
since. -/
structure Linear (enter : ω → β) (next : β → α → α × (β ⊕ ρ)) (a : α) (s : State τ α ω β ρ) : Prop where
  free : s.lock = none → s.object = a
  held : ∀ t, s.lock = some t → ∃ w c, s.threads t = .inside w c ∧
    Leads (advance next) (a, .inl (enter w)) (s.object, c)
  alone : ∀ t w c, s.threads t = .inside w c → s.lock = some t

/-- The call that has the lock is on its way to what `f` says of it. -/
theorem Linear.ends (hs : Linear enter next a s) (hf : Implements enter next f) {t : τ}
    (ht : s.lock = some t) : ∃ w c, s.threads t = .inside w c ∧
      Leads (advance next) (a, .inl (enter w)) (s.object, c) ∧
      Leads (advance next) (s.object, c) ((f w a).1, .inr (f w a).2) := by
  obtain ⟨w, c, hin, hlead⟩ := hs.held t ht
  exact ⟨w, c, hin, hlead, hlead.rest (hf w a) rfl⟩

variable [DecidableEq τ] {ls : List (Label τ ω)} {l : Label τ ω}

/-- A step keeps to what the calls that have returned come to, or is the return of one more. -/
theorem step_linear (hf : Implements enter next f) (h : step enter next s l = some s')
    (hs : Linear enter next a s) :
    returns s l = [] ∧ Linear enter next a s' ∨
      ∃ t w, returns s l = [(t, w, (f w a).2)] ∧ Linear enter next (f w a).1 s' := by
  obtain ⟨hfree, hheld, halone⟩ := hs
  cases l with
  | call t w =>
    simp only [step] at h
    split at h <;> cases h
    rename_i hout
    refine .inl ⟨rfl, hfree, ?_, ?_⟩
    · intro u hu
      obtain ⟨v, c, hin, hlead⟩ := hheld u hu
      have hne : u ≠ t := by
        rintro rfl
        simp [hout] at hin
      exact ⟨v, c, by simp [hne, hin], hlead⟩
    · intro u v c hin
      by_cases hu : u = t
      · simp [hu] at hin
      · exact halone u v c (by simpa [hu] using hin)
  | acquire t =>
    simp only [step] at h
    split at h <;> cases h
    rename_i w hwait hlock
    refine .inl ⟨rfl, by simp, ?_, ?_⟩
    · intro u hu
      obtain rfl := Option.some.inj hu
      refine ⟨w, .inl (enter w), by simp, ?_⟩
      rw [show a = s.object from (hfree hlock).symm]
      exact .refl _
    · intro u v c hin
      by_cases hu : u = t
      · rw [hu]
      · have := halone u v c (by simpa [hu] using hin)
        rw [hlock] at this
        cases this
  | step t =>
    simp only [step] at h
    split at h <;> cases h
    rename_i w b hin
    have hlock := halone t w _ hin
    obtain ⟨v, c, hin', hlead⟩ := hheld t hlock
    rw [hin] at hin'
    cases hin'
    refine .inl ⟨rfl, by simp [hlock], ?_, ?_⟩
    · intro u hu
      obtain rfl := Option.some.inj (hlock.symm.trans hu)
      exact ⟨w, (next b s.object).2, by simp, hlead.trans (.single rfl)⟩
    · intro u v c hu
      by_cases hne : u = t
      · rw [hne]
        exact hlock
      · exact halone u v c (by simpa [hne] using hu)
  | release t =>
    simp only [step] at h
    split at h <;> cases h
    rename_i w r hin
    have hlock := halone t w _ hin
    obtain ⟨v, c, hin', hlead⟩ := hheld t hlock
    rw [hin] at hin'
    cases hin'
    obtain ⟨hobject, rfl⟩ := hf.eq hlead
    refine .inr ⟨t, w, by simp only [returns, hin], fun _ => hobject, by simp, ?_⟩
    intro u v c hu
    by_cases hne : u = t
    · simp [hne] at hu
    · have := halone u v c (by simpa [hne] using hu)
      exact absurd (Option.some.inj (hlock.symm.trans this)).symm hne

theorem exec_linear (hf : Implements enter next f) (h : exec (step enter next) s ls = some s')
    (hs : Linear enter next a s) :
    ∃ a', Replays f a (trace (step enter next) returns s ls) a' ∧ Linear enter next a' s' := by
  induction ls generalizing s a with
  | nil =>
    cases h
    exact ⟨a, rfl, hs⟩
  | cons l ls ih =>
    obtain ⟨u, hu, h⟩ := exec_cons h
    rw [trace, hu]
    rcases step_linear hf hu hs with ⟨hret, hs'⟩ | ⟨t, w, hret, hs'⟩
    · rw [hret]
      exact ih h hs'
    · obtain ⟨a', hrep, hlin⟩ := ih h hs'
      rw [hret]
      exact ⟨a', ⟨rfl, hrep⟩, hlin⟩

/-- However the threads interleave, the results and the object are those of the calls made one after the
other in the order in which they return. -/
theorem linearizable (hf : Implements enter next f)
    (h : exec (step enter next) { object := a } ls = some s') :
    ∃ a', Replays f a (trace (step enter next) returns { object := a } ls) a' ∧
      Linear enter next a' s' :=
  exec_linear hf h ⟨fun _ => rfl, nofun, nofun⟩

/-! ### Every call can return -/

/-- The thread that has the lock can go on to its return, and nobody else moves. -/
theorem release_lock (enter : ω → β) {t : τ} {w : ω} {c : β ⊕ ρ} {r : ρ} (hlock : s.lock = some t)
    (hin : s.threads t = .inside w c) (h : Leads (advance next) (s.object, c) (a', .inr r)) :
    ∃ ls s', exec (step enter next) s ls = some s' ∧ s'.lock = none ∧ s'.threads t = .out ∧
      ∀ u, u ≠ t → s'.threads u = s.threads u := by
  obtain ⟨n, hn⟩ := h
  induction n generalizing s c with
  | zero =>
    cases hn
    exact ⟨[.release t], { s.set t .out with lock := none }, by simp [exec, step, hin], rfl, by simp,
      fun u hu => by simp [hu]⟩
  | succ n ih =>
    cases c with
    | inr r => simp [iter, advance] at hn
    | inl b =>
      obtain ⟨ls, s', hls, hfree, hout, hother⟩ :=
        ih (s := { s.set t (.inside w (next b s.object).2) with object := (next b s.object).1 })
          (c := (next b s.object).2) hlock (by simp) hn
      refine ⟨.step t :: ls, s', ?_, hfree, hout, ?_⟩
      · simp only [exec, step, hin]
        exact hls
      · intro u hu
        rw [hother u hu]
        simp [hu]

/-- No call waits in vain: the thread that has the lock returns, and then the one that waits can. -/
theorem can_return (hf : Implements enter next f) (hs : Linear enter next a s) {t : τ} :
    ∃ ls s', exec (step enter next) s ls = some s' ∧ s'.threads t = .out := by
  have hfree {s : State τ α ω β ρ} {w : ω} (hlock : s.lock = none) (hwait : s.threads t = .waiting w) :
      ∃ ls s', exec (step enter next) s ls = some s' ∧ s'.threads t = .out := by
    obtain ⟨ls, s', hls, -, hout, -⟩ := release_lock enter
      (s := { s.set t (.inside w (.inl (enter w))) with lock := some t }) (w := w) rfl (by simp)
      (hf w s.object)
    refine ⟨.acquire t :: ls, s', ?_, hout⟩
    simp only [exec, step, hwait, hlock]
    exact hls
  cases hlock : s.lock with
  | none =>
    cases hin : s.threads t with
    | out => exact ⟨[], s, rfl, hin⟩
    | waiting w => exact hfree hlock hin
    | inside w c => simpa [hlock] using hs.alone t w c hin
  | some u =>
    obtain ⟨w, c, hin, -, hend⟩ := hs.ends hf hlock
    obtain ⟨ls, s', hls, hfree', hout, hother⟩ := release_lock enter hlock hin hend
    by_cases hu : t = u
    · exact ⟨ls, s', hls, hu ▸ hout⟩
    · cases hin' : s.threads t with
      | out => exact ⟨[], s, rfl, hin'⟩
      | inside w' c' =>
        have := hs.alone t w' c' hin'
        exact absurd (Option.some.inj (this.symm.trans hlock)) hu
      | waiting w' =>
        obtain ⟨ls', s'', hls', hout'⟩ := hfree hfree' ((hother t hu).trans hin')
        exact ⟨ls ++ ls', s'', by rw [exec_append hls, hls'], hout'⟩

/-! ### The calls that are made -/

/-- What holds of every call that is made holds of the calls that stand and of those that return. -/
theorem step_called {P : ω → Prop} (h : step enter next s l = some s') (hl : ∀ t w, l = .call t w → P w)
    (hs : ∀ t w, (s.threads t).call? = some w → P w) :
    (∀ c ∈ returns s l, P c.2.1) ∧ ∀ t w, (s'.threads t).call? = some w → P w := by
  have hset {t : τ} {status : Status ω β ρ} (hnew : ∀ w, status.call? = some w → P w) (u : τ) (w : ω)
      (hu : ((s.set t status).threads u).call? = some w) : P w := by
    by_cases hut : u = t
    · exact hnew w (by simpa [hut] using hu)
    · exact hs u w (by simpa [hut] using hu)
  cases l with
  | call t w =>
    simp only [step] at h
    split at h <;> cases h
    exact ⟨nofun, hset fun v hv => Option.some.inj hv ▸ hl t w rfl⟩
  | acquire t =>
    simp only [step] at h
    split at h <;> cases h
    rename_i w hwait hlock
    exact ⟨nofun, hset fun v hv => hs t v (by rw [hwait]; exact hv)⟩
  | step t =>
    simp only [step] at h
    split at h <;> cases h
    rename_i w b hin
    exact ⟨nofun, hset fun v hv => hs t v (by rw [hin]; exact hv)⟩
  | release t =>
    simp only [step] at h
    split at h <;> cases h
    rename_i w r hin
    refine ⟨?_, hset nofun⟩
    simp only [returns, hin, List.mem_singleton, forall_eq]
    exact hs t w (by rw [hin]; rfl)

theorem exec_called {P : ω → Prop} (h : exec (step enter next) s ls = some s')
    (hls : ∀ t w, .call t w ∈ ls → P w) (hs : ∀ t w, (s.threads t).call? = some w → P w) :
    (∀ c ∈ trace (step enter next) returns s ls, P c.2.1) ∧
      ∀ t w, (s'.threads t).call? = some w → P w := by
  induction ls generalizing s with
  | nil =>
    cases h
    exact ⟨nofun, hs⟩
  | cons l ls ih =>
    obtain ⟨u, hu, h⟩ := exec_cons h
    obtain ⟨hret, hs'⟩ := step_called hu (fun t w hl => hls t w (hl ▸ List.mem_cons_self)) hs
    obtain ⟨hrets, hend⟩ := ih h (fun t w hl => hls t w (List.mem_cons_of_mem l hl)) hs'
    refine ⟨?_, hend⟩
    intro c hc
    rw [trace, hu, List.mem_append] at hc
    exact hc.elim (hret c) (hrets c)

end Monitor

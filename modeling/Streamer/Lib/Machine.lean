/-!
# Runs of a labelled machine

A machine is a step function `step : σ → ι → Option σ`: the label says which thread moves and how
the calls it makes turn out, `none` says that the step is not enabled. `exec` runs a list of labels
(a schedule), `Guarded G` says that every step of a run is taken in a state where `G` allows it.
`exec_invariant` is the only induction over schedules: what one allowed step keeps, a guarded run
keeps.
-/

namespace Machine

variable {σ ι : Type} (step : σ → ι → Option σ)

/-- The state after the steps `ls`, `none` if one of them is not enabled. -/
def exec : σ → List ι → Option σ
  | s, [] => some s
  | s, l :: ls =>
    match step s l with
    | some s' => exec s' ls
    | none => none

/-- What the steps of a run give out, one after the other. -/
def trace {ε : Type} (out : σ → ι → List ε) : σ → List ι → List ε
  | _, [] => []
  | s, l :: ls =>
    out s l ++ match step s l with
      | some s' => trace out s' ls
      | none => []

/-- Every step of the run `ls` from `s` is taken where `G` holds. -/
def Guarded (G : σ → ι → Prop) : σ → List ι → Prop
  | _, [] => True
  | s, l :: ls =>
    G s l ∧ match step s l with
      | some s' => Guarded G s' ls
      | none => True

instance Guarded.decidable (G : σ → ι → Prop) [∀ s l, Decidable (G s l)] :
    ∀ s ls, Decidable (Guarded step G s ls)
  | _, [] => .isTrue trivial
  | s, l :: ls =>
    have : Decidable (match step s l with | some s' => Guarded step G s' ls | none => True) :=
      match step s l with
      | some s' => Guarded.decidable G s' ls
      | none => .isTrue trivial
    inferInstanceAs (Decidable (G s l ∧ _))

variable {step} {G : σ → ι → Prop} {s s' s'' : σ} {l : ι} {ls ls' : List ι}

theorem exec_cons (h : exec step s (l :: ls) = some s') :
    ∃ t, step s l = some t ∧ exec step t ls = some s' := by
  simp only [exec] at h
  split at h
  · exact ⟨_, ‹_›, h⟩
  · cases h

theorem guarded_cons {t : σ} (h : Guarded step G s (l :: ls)) (hs : step s l = some t) :
    G s l ∧ Guarded step G t ls := by
  simpa only [Guarded, hs] using h

theorem guarded_and {G' : σ → ι → Prop} (h : Guarded step G s ls) (h' : Guarded step G' s ls) :
    Guarded step (fun s l => G s l ∧ G' s l) s ls := by
  induction ls generalizing s with
  | nil => trivial
  | cons l ls ih =>
    refine ⟨⟨h.1, h'.1⟩, ?_⟩
    cases ht : step s l with
    | none => trivial
    | some t => exact ih (guarded_cons h ht).2 (guarded_cons h' ht).2

theorem guarded_mono {G' : σ → ι → Prop} (hmono : ∀ s l, G s l → G' s l) (h : Guarded step G s ls) :
    Guarded step G' s ls := by
  induction ls generalizing s with
  | nil => trivial
  | cons l ls ih =>
    refine ⟨hmono s l h.1, ?_⟩
    cases ht : step s l with
    | none => trivial
    | some t => exact ih (guarded_cons h ht).2

theorem guarded_of_forall {P : ι → Prop} (h : ∀ l ∈ ls, P l) : Guarded step (fun _ l => P l) s ls := by
  induction ls generalizing s with
  | nil => trivial
  | cons l ls ih =>
    refine ⟨h l List.mem_cons_self, ?_⟩
    cases step s l with
    | none => trivial
    | some t => exact ih fun l' hl' => h l' (List.mem_cons_of_mem l hl')

/-- What every allowed step keeps, every guarded run keeps. -/
theorem exec_invariant {I : σ → Prop}
    (hstep : ∀ s l s', I s → G s l → step s l = some s' → I s')
    (h : exec step s ls = some s') (hg : Guarded step G s ls) (hi : I s) : I s' := by
  induction ls generalizing s with
  | nil => cases h; exact hi
  | cons l ls ih =>
    obtain ⟨t, ht, h⟩ := exec_cons h
    obtain ⟨hl, hg⟩ := guarded_cons hg ht
    exact ih h hg (hstep s l t hi hl ht)

/-- Two guards that agree on the enabled steps of the states that the first one keeps to, allow
the same runs. -/
theorem guarded_iff {G' : σ → ι → Prop} {I : σ → Prop}
    (hstep : ∀ s l s', I s → G s l → step s l = some s' → I s')
    (hiff : ∀ s l s', I s → step s l = some s' → (G s l ↔ G' s l)) (h : exec step s ls = some s')
    (hi : I s) : Guarded step G s ls ↔ Guarded step G' s ls := by
  induction ls generalizing s with
  | nil => exact Iff.rfl
  | cons l ls ih =>
    obtain ⟨t, ht, h⟩ := exec_cons h
    simp only [Guarded, ht]
    rw [← hiff s l t hi ht]
    constructor
    · rintro ⟨hl, hg⟩
      exact ⟨hl, (ih h (hstep s l t hi hl ht)).1 hg⟩
    · rintro ⟨hl, hg⟩
      exact ⟨hl, (ih h (hstep s l t hi hl ht)).2 hg⟩

theorem exec_append (h : exec step s ls = some s') : exec step s (ls ++ ls') = exec step s' ls' := by
  induction ls generalizing s with
  | nil => cases h; rfl
  | cons l ls ih =>
    obtain ⟨t, ht, h⟩ := exec_cons h
    simp only [List.cons_append, exec, ht]
    exact ih h

theorem exec_split (h : exec step s (ls ++ ls') = some s'') :
    ∃ s', exec step s ls = some s' ∧ exec step s' ls' = some s'' := by
  induction ls generalizing s with
  | nil => exact ⟨s, rfl, h⟩
  | cons l ls ih =>
    obtain ⟨t, ht, h⟩ := exec_cons h
    obtain ⟨s', hs, hs'⟩ := ih h
    refine ⟨s', ?_, hs'⟩
    simp only [exec, ht]
    exact hs

/-- What every step keeps of a state and of the labels that led to it, holds after every run. -/
theorem exec_history {I : List ι → σ → Prop} (hinit : I [] s)
    (hstep : ∀ ls s l s', I ls s → step s l = some s' → I (ls ++ [l]) s')
    (h : exec step s ls = some s') : I ls s' := by
  suffices hall : ∀ (pre ls : List ι) (t : σ), I pre t → exec step t ls = some s' → I (pre ++ ls) s' from
    hall [] ls s hinit h
  intro pre ls
  induction ls generalizing pre with
  | nil =>
    intro t ht h
    cases h
    rwa [List.append_nil]
  | cons l ls ih =>
    intro t ht h
    obtain ⟨t', ht', h⟩ := exec_cons h
    rw [List.append_cons]
    exact ih (pre ++ [l]) t' (hstep pre t l t' ht ht') h

/-- Where each step adds to a record of the state what it gives out and `f` keeps, the record is what the
run has given out, as far as `f` keeps it. -/
theorem trace_eq {ε δ : Type} {out : σ → ι → List ε} {f : ε → Option δ} {I : σ → Prop} {R : σ → List δ}
    (hstep : ∀ s l s', I s → step s l = some s' → I s' ∧ R s' = R s ++ (out s l).filterMap f)
    (h : exec step s ls = some s') (hi : I s) :
    I s' ∧ R s' = R s ++ (trace step out s ls).filterMap f := by
  induction ls generalizing s with
  | nil =>
    cases h
    exact ⟨hi, (List.append_nil _).symm⟩
  | cons l ls ih =>
    obtain ⟨t, ht, h⟩ := exec_cons h
    obtain ⟨hit, hrec⟩ := hstep s l t hi ht
    obtain ⟨hi', hrec'⟩ := ih h hit
    refine ⟨hi', ?_⟩
    rw [hrec', hrec, trace, ht, List.filterMap_append, List.append_assoc]

/-- Where every state that is not yet in `D` has an allowed step that brings `rank` down, a run of allowed
steps comes to `D`. -/
theorem exec_progress {I D : σ → Prop} (rank : σ → Nat)
    (hstep : ∀ s, I s → ¬ D s → ∃ l s', step s l = some s' ∧ G s l ∧ I s' ∧ rank s' < rank s)
    (hi : I s) : ∃ ls s', exec step s ls = some s' ∧ Guarded step G s ls ∧ I s' ∧ D s' := by
  induction hr : rank s using Nat.strongRecOn generalizing s with
  | ind r ih =>
    by_cases hdone : D s
    · exact ⟨[], s, rfl, trivial, hi, hdone⟩
    · obtain ⟨l, t, ht, hl, hit, hlt⟩ := hstep s hi hdone
      obtain ⟨ls, s', hls, hg, hi', hdone'⟩ := ih _ (hr ▸ hlt) hit rfl
      refine ⟨l :: ls, s', ?_, ⟨hl, ?_⟩, hi', hdone'⟩
      · rw [exec, ht]
        exact hls
      · rw [ht]
        exact hg

/-! ### A machine inside another -/

/-- What a step of the outer machine does to the inner one: a step of its own, or nothing. -/
def Stutters (step : σ → ι → Option σ) (s s' : σ) : Prop := s' = s ∨ ∃ l, step s l = some s'

theorem Stutters.keeps {I : σ → Prop} (hstep : ∀ s l s', I s → step s l = some s' → I s')
    (h : Stutters step s s') (hi : I s) : I s' := by
  rcases h with rfl | ⟨l, h⟩
  · exact hi
  · exact hstep s l s' hi h

/-- A run of the outer machine is, seen through `f`, a run of the inner one. -/
theorem exec_refines {τ κ : Type} {next : τ → κ → Option τ} {f : τ → σ} {I : τ → Prop} {t t' : τ}
    {ks : List κ} (hstep : ∀ t k t', I t → next t k = some t' → I t' ∧ Stutters step (f t) (f t'))
    (h : exec next t ks = some t') (hi : I t) : ∃ ls, exec step (f t) ls = some (f t') := by
  induction ks generalizing t with
  | nil =>
    cases h
    exact ⟨[], rfl⟩
  | cons k ks ih =>
    obtain ⟨u, hu, h⟩ := exec_cons h
    obtain ⟨hi', hcase⟩ := hstep t k u hi hu
    obtain ⟨ls, hls⟩ := ih h hi'
    rcases hcase with heq | ⟨l, hl⟩
    · rw [heq] at hls
      exact ⟨ls, hls⟩
    · refine ⟨l :: ls, ?_⟩
      simp only [exec, hl]
      exact hls

/-! ### Steps that commute -/

/-- Steps with different labels that are both enabled lead to a common state, where `I` holds. -/
structure Commuting (step : σ → ι → Option σ) (I : σ → Prop) : Prop where
  keeps : ∀ s l s', I s → step s l = some s' → I s'
  commute : ∀ s l l' t t', I s → l ≠ l' → step s l = some t → step s l' = some t' →
    ∃ u, step t l' = some u ∧ step t' l = some u

namespace Commuting
variable {I : σ → Prop} {t e : σ}

/-- In a run to an end any step that is enabled at its start can be made first. -/
theorem exec_front (hc : Commuting step I) (hi : I s) (hrun : exec step s ls = some e)
    (hend : ∀ l, step e l = none) (h : step s l = some t) :
    ∃ ls', exec step t ls' = some e ∧ ls.Perm (l :: ls') := by
  induction ls generalizing s t with
  | nil =>
    cases hrun
    rw [hend l] at h
    cases h
  | cons l₀ ls ih =>
    obtain ⟨s₀, hs₀, hrun⟩ := exec_cons hrun
    by_cases hl : l₀ = l
    · subst hl
      obtain rfl : s₀ = t := Option.some.inj (hs₀.symm.trans h)
      exact ⟨ls, hrun, .refl _⟩
    · obtain ⟨u, hu, hu₀⟩ := hc.commute s l l₀ t s₀ hi (Ne.symm hl) h hs₀
      obtain ⟨ls', hls', hperm⟩ := ih (hc.keeps s l₀ s₀ hi hs₀) hrun hu₀
      refine ⟨l₀ :: ls', ?_, (hperm.cons l₀).trans (.swap l l₀ ls')⟩
      rw [exec, hu]
      exact hls'

/-- If one run comes to an end, every run can be continued to that end, with the same steps in another
order. -/
theorem exec_completes (hc : Commuting step I) (hi : I s) (hrun : exec step s ls = some e)
    (hend : ∀ l, step e l = none) (h : exec step s ls' = some t) :
    ∃ ls'', exec step t ls'' = some e ∧ ls.Perm (ls' ++ ls'') := by
  induction ls' generalizing s ls with
  | nil =>
    cases h
    exact ⟨ls, hrun, .refl _⟩
  | cons l ls' ih =>
    obtain ⟨s', hs', h⟩ := exec_cons h
    obtain ⟨ls₁, hls₁, hperm⟩ := hc.exec_front hi hrun hend hs'
    obtain ⟨ls'', hls'', hperm'⟩ := ih (hc.keeps s l s' hi hs') hls₁ h
    exact ⟨ls'', hls'', hperm.trans (hperm'.cons l)⟩

end Commuting

/-! ### A machine that makes no choices -/

section Deterministic
variable (next : σ → Option σ)

/-- The state after `n` steps. -/
def iter : Nat → σ → Option σ
  | 0, s => some s
  | n + 1, s => (next s).bind (iter n)

def Leads (s s' : σ) : Prop := ∃ n, iter next n s = some s'

variable {next} {m n : Nat} {t : σ}

theorem iter_add (m n : Nat) (s : σ) : iter next (m + n) s = (iter next m s).bind (iter next n) := by
  induction m generalizing s with
  | zero => simp [iter]
  | succ m ih =>
    rw [Nat.succ_add]
    simp only [iter, Option.bind_assoc, funext ih]

theorem iter_succ (n : Nat) (s : σ) : iter next (n + 1) s = (iter next n s).bind next := by
  rw [iter_add]
  simp [iter]

namespace Leads

theorem refl (s : σ) : Leads next s s := ⟨0, rfl⟩

theorem trans (h : Leads next s s') (h' : Leads next s' s'') : Leads next s s'' := by
  obtain ⟨m, hm⟩ := h
  obtain ⟨n, hn⟩ := h'
  exact ⟨m + n, by rw [iter_add, hm, Option.bind_some, hn]⟩

theorem head (h : next s = some t) (h' : Leads next t s') : Leads next s s' := by
  obtain ⟨n, hn⟩ := h'
  exact ⟨n + 1, by rw [iter, h, Option.bind_some, hn]⟩

theorem single (h : next s = some s') : Leads next s s' := head h (refl s')

/-- A machine that has come to its end comes to no other. -/
theorem final_eq (h : Leads next s s') (hs' : next s' = none) (h' : Leads next s s'')
    (hs'' : next s'' = none) : s' = s'' := by
  obtain ⟨m, hm⟩ := h
  obtain ⟨n, hn⟩ := h'
  have hend {a b : Nat} {u v : σ} (hu : iter next a s = some u) (hnone : next u = none)
    (hv : iter next b s = some v)
      (hle : a ≤ b) : u = v := by
    obtain ⟨c, rfl⟩ := Nat.exists_eq_add_of_le hle
    rw [iter_add, hu, Option.bind_some] at hv
    cases c with
    | zero => exact Option.some.inj hv
    | succ c => simp [iter, hnone] at hv
  rcases Nat.le_total m n with hle | hle
  · exact hend hm hs' hn hle
  · exact (hend hn hs'' hm hle).symm

/-- A machine that comes to an end takes the same number of steps to it in every run. -/
theorem ends_in (h : Leads next s s') (hend : next s' = none) :
    ∃ n, ∀ m t, iter next m s = some t → m ≤ n ∧ iter next (n - m) t = some s' := by
  obtain ⟨n, hn⟩ := h
  refine ⟨n, ?_⟩
  intro m t hm
  rcases Nat.lt_or_ge n m with hlt | hle
  · obtain ⟨k, rfl⟩ := Nat.exists_eq_add_of_lt hlt
    rw [Nat.add_assoc, iter_add, hn, Option.bind_some, iter, hend] at hm
    cases hm
  · refine ⟨hle, ?_⟩
    rwa [← Nat.add_sub_cancel' hle, iter_add, hm, Option.bind_some] at hn

/-- Every state on the way to an end still leads to it. -/
theorem rest (h : Leads next s s') (h' : Leads next s s'') (hend : next s'' = none) :
    Leads next s' s'' := by
  obtain ⟨n, hn⟩ := h'.ends_in hend
  obtain ⟨m, hm⟩ := h
  exact ⟨n - m, (hn m s' hm).2⟩

end Leads
end Deterministic

end Machine

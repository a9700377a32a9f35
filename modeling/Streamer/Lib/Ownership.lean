import Mathlib.Data.List.Basic
import Mathlib.Logic.Function.Basic
import Mathlib.Logic.Relation

/-!
# Owners of resources that are handed out and given back

A resource of type `ρ` is given out and returned, any number of times: `Event` is one of the two, a
log is the list of all that happened. An object of type `α` owns at most one resource. Objects take
what is given out, pass it on and return it (`Holding.Step`). If nothing is given out that is still
out, the objects own different resources, own what is out, and every resource is returned once for
each time it was given out (`Holding.Sound`).
-/

namespace Ownership

variable {α ρ : Type}

inductive Event (ρ : Type) where
  | given (r : ρ)
  | returned (r : ρ)
deriving DecidableEq, Repr

def Event.resource : Event ρ → ρ
  | .given r => r
  | .returned r => r

section
variable [DecidableEq ρ] {log : List (Event ρ)} {r q : ρ}

/-- The part of the log that is about `r`. -/
def history (r : ρ) (log : List (Event ρ)) : List (Event ρ) := log.filter (·.resource = r)

/-- `r` was given out, and not returned since. -/
def Outstanding (r : ρ) (log : List (Event ρ)) : Prop := (history r log).getLast? = some (.given r)

instance (r : ρ) (log : List (Event ρ)) : Decidable (Outstanding r log) :=
  inferInstanceAs (Decidable (_ = _))

/-- `k` times given out and returned. -/
def rounds (r : ρ) (k : Nat) : List (Event ρ) := (List.replicate k [.given r, .returned r]).flatten

/-- `r` is returned before it is given out again, and given out before it is returned. -/
def Alternates (r : ρ) (log : List (Event ρ)) : Prop :=
  ∃ k, history r log = rounds r k ++ if Outstanding r log then [.given r] else []

theorem history_append_self (log : List (Event ρ)) {e : Event ρ} (h : e.resource = r) :
    history r (log ++ [e]) = history r log ++ [e] := by
  rw [history, List.filter_append, ← history, List.filter_cons_of_pos (by simpa using h),
    List.filter_nil]

theorem history_append_ne (log : List (Event ρ)) {e : Event ρ} (h : e.resource ≠ r) :
    history r (log ++ [e]) = history r log := by
  rw [history, List.filter_append, ← history, List.filter_cons_of_neg (by simpa using h),
    List.filter_nil, List.append_nil]

theorem outstanding_given (r q : ρ) (log : List (Event ρ)) :
    Outstanding r (log ++ [.given q]) ↔ q = r ∨ Outstanding r log := by
  unfold Outstanding
  by_cases h : q = r
  · subst h
    rw [history_append_self log (show (Event.given q).resource = q from rfl)]
    simp
  · rw [history_append_ne log (show (Event.given q).resource ≠ r from h)]
    simp [h]

theorem outstanding_returned (r q : ρ) (log : List (Event ρ)) :
    Outstanding r (log ++ [.returned q]) ↔ q ≠ r ∧ Outstanding r log := by
  unfold Outstanding
  by_cases h : q = r
  · subst h
    rw [history_append_self log (show (Event.returned q).resource = q from rfl)]
    simp
  · rw [history_append_ne log (show (Event.returned q).resource ≠ r from h)]
    simp [h]

omit [DecidableEq ρ] in
theorem rounds_succ (r : ρ) (k : Nat) : rounds r (k + 1) = rounds r k ++ [.given r, .returned r] := by
  rw [rounds, List.replicate_succ', List.flatten_append, ← rounds]
  rfl

theorem Alternates.congr {log' : List (Event ρ)} (h : Alternates r log)
    (heq : history r log' = history r log) : Alternates r log' := by
  obtain ⟨k, hk⟩ := h
  have hout : Outstanding r log' ↔ Outstanding r log := by
    unfold Outstanding
    rw [heq]
  refine ⟨k, ?_⟩
  rw [heq, hk]
  simp only [hout]

theorem Alternates.given (h : Alternates r log) (hq : ¬ Outstanding q log) :
    Alternates r (log ++ [.given q]) := by
  by_cases hr : q = r
  · subst hr
    obtain ⟨k, hk⟩ := h
    rw [if_neg hq, List.append_nil] at hk
    refine ⟨k, ?_⟩
    rw [if_pos ((outstanding_given q q log).2 (.inl rfl)), ← hk]
    exact history_append_self log rfl
  · exact h.congr (history_append_ne log hr)

theorem Alternates.returned (h : Alternates r log) (hq : Outstanding q log) :
    Alternates r (log ++ [.returned q]) := by
  by_cases hr : q = r
  · subst hr
    obtain ⟨k, hk⟩ := h
    rw [if_pos hq] at hk
    have hback : ¬ Outstanding q (log ++ [.returned q]) := fun hout =>
      ((outstanding_returned q q log).1 hout).1 rfl
    refine ⟨k + 1, ?_⟩
    rw [if_neg hback, List.append_nil, rounds_succ]
    calc history q (log ++ [Event.returned q])
        = history q log ++ [Event.returned q] := history_append_self log rfl
      _ = rounds q k ++ [.given q] ++ [.returned q] := by rw [hk]
      _ = rounds q k ++ [.given q, .returned q] := List.append_assoc ..
  · exact h.congr (history_append_ne log hr)

end

/-- Who owns what, and what happened. -/
structure Holding (α ρ : Type) where
  owner : α → Option ρ
  log : List (Event ρ)

namespace Holding

theorem ext_owner {s s' : Holding α ρ} (howner : ∀ x, s.owner x = s'.owner x) (hlog : s.log = s'.log) :
    s = s' := by
  obtain ⟨owner, log⟩ := s
  obtain ⟨owner', log'⟩ := s'
  cases hlog
  cases funext howner
  rfl

variable [DecidableEq α] {s s' : Holding α ρ} {x y : α} {r : ρ}

/-- `x` takes `r`, which is given out. -/
def acquire (s : Holding α ρ) (x : α) (r : ρ) : Holding α ρ :=
  ⟨Function.update s.owner x (some r), s.log ++ [.given r]⟩

/-- `y` passes what it owns on to `x`. -/
def transfer (s : Holding α ρ) (x y : α) : Holding α ρ :=
  ⟨Function.update (Function.update s.owner x (s.owner y)) y none, s.log⟩

/-- `x` returns what it owns. -/
def drop (s : Holding α ρ) (x : α) : Holding α ρ :=
  match s.owner x with
  | none => s
  | some r => ⟨Function.update s.owner x none, s.log ++ [.returned r]⟩

/-! What an object owns afterwards. -/

theorem drop_owner_self (s : Holding α ρ) (x : α) : (s.drop x).owner x = none := by
  unfold Holding.drop
  split
  · assumption
  · exact Function.update_self ..

theorem drop_owner_none {z : α} (h : s.owner z = none) : (s.drop x).owner z = none := by
  unfold Holding.drop
  split
  · exact h
  · by_cases hz : z = x
    · subst hz
      simp
    · simpa [hz] using h

theorem acquire_owner_none {z : α} (h : s.owner z = none) (hz : z ≠ x) :
    (s.acquire x r).owner z = none := by
  simpa [Holding.acquire, hz] using h

theorem transfer_owner_source (s : Holding α ρ) (x y : α) : (s.transfer x y).owner y = none :=
  Function.update_self ..

theorem transfer_owner_none {z : α} (h : s.owner z = none) (hz : z ≠ x) :
    (s.transfer x y).owner z = none := by
  by_cases hzy : z = y
  · subst hzy
    exact transfer_owner_source s x z
  · simpa [Holding.transfer, hz, hzy] using h

variable [DecidableEq ρ]

/-- Only an object that owns nothing takes a resource, and only one that is not out is given out. -/
inductive Step (s : Holding α ρ) : Holding α ρ → Prop
  | acquire (x : α) (r : ρ) (hx : s.owner x = none) (hr : ¬ Outstanding r s.log) :
      Step s (s.acquire x r)
  | transfer (x y : α) (hx : s.owner x = none) (hne : x ≠ y) : Step s (s.transfer x y)
  | drop (x : α) : Step s (s.drop x)

structure Sound (s : Holding α ρ) : Prop where
  distinct : ∀ x y r, s.owner x = some r → s.owner y = some r → x = y
  owned : ∀ r, (∃ x, s.owner x = some r) ↔ Outstanding r s.log
  alternates : ∀ r, Alternates r s.log

omit [DecidableEq α] in
theorem sound_new : Sound (⟨fun _ => none, []⟩ : Holding α ρ) := by
  refine ⟨?_, ?_, fun r => ⟨0, rfl⟩⟩
  · intro x y r hx
    cases hx
  · intro r
    refine iff_of_false ?_ ?_
    · rintro ⟨x, hx⟩
      cases hx
    · intro h
      cases h

theorem Sound.acquire (h : Sound s) (hx : s.owner x = none) (hr : ¬ Outstanding r s.log) :
    Sound (s.acquire x r) := by
  have hfree (z) : s.owner z ≠ some r := fun hz => hr ((h.owned r).1 ⟨z, hz⟩)
  have howner (z) (q) : (s.acquire x r).owner z = some q ↔
      (z = x ∧ r = q) ∨ (z ≠ x ∧ s.owner z = some q) := by
    by_cases hz : z = x
    · subst hz
      simp [Holding.acquire]
    · simp [Holding.acquire, hz]
  refine ⟨?_, ?_, fun q => (h.alternates q).given hr⟩
  · intro z w q hz hw
    rw [howner] at hz hw
    rcases hz with ⟨rfl, rfl⟩ | ⟨-, hz⟩ <;> rcases hw with ⟨rfl, hq⟩ | ⟨-, hw⟩
    · rfl
    · exact absurd hw (hfree w)
    · exact absurd (hq ▸ hz) (hfree z)
    · exact h.distinct z w q hz hw
  · intro q
    show _ ↔ Outstanding q (s.log ++ [.given r])
    rw [outstanding_given, ← h.owned q]
    constructor
    · rintro ⟨z, hz⟩
      rw [howner] at hz
      rcases hz with ⟨-, hq⟩ | ⟨-, hz⟩
      · exact .inl hq
      · exact .inr ⟨z, hz⟩
    · rintro (hq | ⟨z, hz⟩)
      · exact ⟨x, (howner x q).2 (.inl ⟨rfl, hq⟩)⟩
      · refine ⟨z, (howner z q).2 (.inr ⟨?_, hz⟩)⟩
        rintro rfl
        rw [hx] at hz
        cases hz

theorem Sound.transfer (h : Sound s) (hx : s.owner x = none) (hne : x ≠ y) :
    Sound (s.transfer x y) := by
  have howner (z) (q) : (s.transfer x y).owner z = some q ↔
      (z = x ∧ s.owner y = some q) ∨ (z ≠ x ∧ z ≠ y ∧ s.owner z = some q) := by
    by_cases hzy : z = y
    · subst hzy
      simp [Holding.transfer, hne.symm]
    · by_cases hz : z = x
      · subst hz
        simp [Holding.transfer, hzy]
      · simp [Holding.transfer, hzy, hz]
  refine ⟨?_, ?_, h.alternates⟩
  · intro z w q hz hw
    rw [howner] at hz hw
    rcases hz with ⟨rfl, hz⟩ | ⟨-, hzy, hz⟩ <;> rcases hw with ⟨rfl, hw⟩ | ⟨-, hwy, hw⟩
    · rfl
    · exact absurd (h.distinct w y q hw hz) hwy
    · exact absurd (h.distinct z y q hz hw) hzy
    · exact h.distinct z w q hz hw
  · intro q
    show _ ↔ Outstanding q s.log
    rw [← h.owned q]
    constructor
    · rintro ⟨z, hz⟩
      rw [howner] at hz
      rcases hz with ⟨-, hz⟩ | ⟨-, -, hz⟩
      · exact ⟨y, hz⟩
      · exact ⟨z, hz⟩
    · rintro ⟨z, hz⟩
      by_cases hzy : z = y
      · subst hzy
        exact ⟨x, (howner x q).2 (.inl ⟨rfl, hz⟩)⟩
      · refine ⟨z, (howner z q).2 (.inr ⟨?_, hzy, hz⟩)⟩
        rintro rfl
        rw [hx] at hz
        cases hz

theorem Sound.drop (h : Sound s) : Sound (s.drop x) := by
  unfold Holding.drop
  split
  · exact h
  · rename_i r hx
    have howner (z) (q) : Function.update s.owner x none z = some q ↔ z ≠ x ∧ s.owner z = some q := by
      by_cases hz : z = x
      · subst hz
        simp
      · simp [hz]
    refine ⟨?_, ?_, fun q => (h.alternates q).returned ((h.owned r).1 ⟨x, hx⟩)⟩
    · intro z w q hz hw
      exact h.distinct z w q ((howner z q).1 hz).2 ((howner w q).1 hw).2
    · intro q
      show _ ↔ Outstanding q (s.log ++ [.returned r])
      rw [outstanding_returned, ← h.owned q]
      constructor
      · rintro ⟨z, hz⟩
        obtain ⟨hne, hz⟩ := (howner z q).1 hz
        refine ⟨?_, z, hz⟩
        rintro rfl
        exact hne (h.distinct z x r hz hx)
      · rintro ⟨hne, z, hz⟩
        refine ⟨z, (howner z q).2 ⟨?_, hz⟩⟩
        rintro rfl
        rw [hx] at hz
        exact hne (Option.some.inj hz)

theorem Sound.step (h : Sound s) (hs : Step s s') : Sound s' := by
  cases hs with
  | acquire x r hx hr => exact h.acquire hx hr
  | transfer x y hx hne => exact h.transfer hx hne
  | drop x => exact h.drop

theorem Sound.steps (h : Sound s) (hs : Relation.ReflTransGen Step s s') : Sound s' := by
  induction hs with
  | refl => exact h
  | tail _ hstep ih => exact ih.step hstep

end Holding
end Ownership

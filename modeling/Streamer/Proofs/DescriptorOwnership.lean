import Streamer.SocketObjects

/-!
# Every descriptor has one owner

Seen through `holding`, the operations on `Socket` objects are steps of owners that take descriptors,
pass them on and return them. So the rules of `Lib/Ownership.lean` carry over to every run: no two
objects hold one descriptor, the objects hold what is open, and what was obtained is closed once.
-/

namespace Streamer
open Ownership Machine

namespace Sockets
variable {α : Type} [DecidableEq α] {s s' : Sockets α} {x y : α} {fd : Int} {op : SocketOp α}

/-- An object owns its descriptor, if it has one. -/
def holding (s : Sockets α) : Holding α Int := ⟨fun x => (s.fd x).filter (0 ≤ ·), s.calls⟩

omit [DecidableEq α] in
theorem holding_owner_iff (s : Sockets α) (x : α) (fd : Int) :
    s.holding.owner x = some fd ↔ s.fd x = some fd ∧ 0 ≤ fd := by
  simp [holding, Option.filter_eq_some_iff]

omit [DecidableEq α] in
theorem holding_owner_none (h : s.fd x = none) : s.holding.owner x = none := by
  simp [holding, h]

theorem holding_construct (h : s.fd x = none) : (s.construct x (-1)).holding = s.holding := by
  refine Holding.ext_owner ?_ rfl
  intro z
  by_cases hz : z = x
  · subst hz
    simp [holding, construct, h]
  · simp [holding, construct, hz]

theorem holding_obtained (h : 0 ≤ fd) :
    ({ s.construct x fd with calls := s.calls ++ [.given fd] } : Sockets α).holding =
      s.holding.acquire x fd := by
  refine Holding.ext_owner ?_ rfl
  intro z
  by_cases hz : z = x
  · subst hz
    simp [holding, construct, Holding.acquire, h]
  · simp [holding, construct, Holding.acquire, hz]

theorem holding_takeFrom (s : Sockets α) (x y : α) :
    (s.takeFrom x y).holding = s.holding.transfer x y := by
  refine Holding.ext_owner ?_ rfl
  intro z
  by_cases hzy : z = y
  · subst hzy
    simp [holding, takeFrom, Holding.transfer]
  · by_cases hz : z = x
    · subst hz
      simp [holding, takeFrom, Holding.transfer, hzy]
    · simp [holding, takeFrom, Holding.transfer, hzy, hz]

theorem close_of_valid (h : s.fd x = some fd) (hfd : 0 ≤ fd) :
    s.close x = ⟨Function.update s.fd x (some (-1)), s.calls ++ [.returned fd]⟩ := by
  simp [close, h, hfd]

theorem close_of_invalid (h : s.isValid x = false) : s.close x = s := by
  unfold close
  split
  · rfl
  · rename_i fd hfd
    rw [isValid, hfd] at h
    rw [if_neg (by simpa using h)]

theorem holding_close (s : Sockets α) (x : α) : (s.close x).holding = s.holding.drop x := by
  by_cases h : ∃ fd, s.fd x = some fd ∧ 0 ≤ fd
  · obtain ⟨fd, hx, hfd⟩ := h
    have howner := (holding_owner_iff s x fd).2 ⟨hx, hfd⟩
    rw [close_of_valid hx hfd, Holding.drop, howner]
    refine Holding.ext_owner ?_ rfl
    intro z
    by_cases hz : z = x
    · subst hz
      simp [holding]
    · simp [holding, hz]
  · have howner : s.holding.owner x = none := by
      rw [Option.eq_none_iff_forall_ne_some]
      intro fd hfd
      exact h ⟨fd, (holding_owner_iff s x fd).1 hfd⟩
    have hinvalid : s.isValid x = false := by
      rw [isValid, Option.any_eq_false]
      intro fd hfd
      simpa using fun h0 => h ⟨fd, hfd, h0⟩
    rw [close_of_invalid hinvalid, Holding.drop, howner]

theorem holding_destroy (s : Sockets α) (x : α) : (s.destroy x).holding = s.holding.drop x := by
  rw [← holding_close]
  refine Holding.ext_owner ?_ rfl
  intro z
  by_cases hz : z = x
  · subst hz
    have hnone : (s.close z).holding.owner z = none := by
      rw [holding_close]
      exact Holding.drop_owner_self _ _
    simpa [holding, destroy] using hnone.symm
  · simp [holding, destroy, hz]

/-- What an operation does to the owners. -/
def Effect (s : Sockets α) (next : Holding α Int) : SocketOp α → Prop
  | .default x => s.fd x = none ∧ next = s.holding
  | .createTcp x result => s.fd x = none ∧
      (next = s.holding ∨ 0 ≤ result ∧ next = s.holding.acquire x result)
  | .accept x y result => s.fd x = none ∧
      (next = s.holding ∨ (s.isValid y = true ∧ 0 ≤ result) ∧ next = s.holding.acquire x result)
  | .moveConstruct x y => (s.fd x = none ∧ x ≠ y) ∧ next = s.holding.transfer x y
  | .moveAssign x y =>
    x = y ∧ next = s.holding ∨ x ≠ y ∧ next = (s.holding.drop x).transfer x y
  | .close x | .destroy x => next = s.holding.drop x

theorem effect_ofResult {result : Int} (h : s.fd x = none) :
    (s.ofResult x result).holding = s.holding ∨
      0 ≤ result ∧ (s.ofResult x result).holding = s.holding.acquire x result := by
  unfold ofResult
  split
  · exact .inl (holding_construct h)
  · rename_i hpos
    exact .inr ⟨by omega, holding_obtained (by omega)⟩

theorem effect_of_step (h : s.step op = some s') : s.Effect s'.holding op := by
  cases op with
  | default x =>
    obtain ⟨hx, heq⟩ := Option.ite_none_right_eq_some.1 h
    cases heq
    exact ⟨hx, holding_construct hx⟩
  | createTcp x result =>
    obtain ⟨hx, heq⟩ := Option.ite_none_right_eq_some.1 h
    cases heq
    exact ⟨hx, effect_ofResult hx⟩
  | accept x y result =>
    obtain ⟨⟨hx, -⟩, heq⟩ := Option.ite_none_right_eq_some.1 h
    cases heq
    refine ⟨hx, ?_⟩
    unfold accept
    cases hy : s.isValid y with
    | false =>
      rw [Bool.not_false, if_pos rfl]
      exact .inl (holding_construct hx)
    | true =>
      rw [Bool.not_true, if_neg Bool.false_ne_true]
      rcases effect_ofResult hx with hsame | ⟨hpos, hacq⟩
      · exact .inl hsame
      · exact .inr ⟨⟨rfl, hpos⟩, hacq⟩
  | moveConstruct x y =>
    obtain ⟨⟨hx, hy⟩, heq⟩ := Option.ite_none_right_eq_some.1 h
    cases heq
    refine ⟨⟨hx, ?_⟩, holding_takeFrom s x y⟩
    rintro rfl
    exact hy hx
  | moveAssign x y =>
    obtain ⟨-, heq⟩ := Option.ite_none_right_eq_some.1 h
    cases heq
    unfold moveAssign
    split
    · rename_i hne
      rw [holding_takeFrom, holding_close]
      exact .inr ⟨hne, rfl⟩
    · rename_i heq
      exact .inl ⟨not_not.1 heq, rfl⟩
  | close x =>
    obtain ⟨-, heq⟩ := Option.ite_none_right_eq_some.1 h
    cases heq
    exact holding_close s x
  | destroy x =>
    obtain ⟨-, heq⟩ := Option.ite_none_right_eq_some.1 h
    cases heq
    exact holding_destroy s x

/-- An operation is a step of the owners, or two of them, or none. -/
theorem holding_step (h : s.step op = some s') (hfresh : s.Fresh op) :
    Relation.ReflTransGen Holding.Step s.holding s'.holding := by
  have heffect := effect_of_step h
  cases op with
  | default x =>
    rw [heffect.2]
  | createTcp x result =>
    rcases heffect with ⟨hx, hsame | ⟨hpos, hacq⟩⟩
    · rw [hsame]
    · rw [hacq]
      exact .single (.acquire x result (holding_owner_none hx) (hfresh hpos))
  | accept x y result =>
    rcases heffect with ⟨hx, hsame | ⟨hpos, hacq⟩⟩
    · rw [hsame]
    · rw [hacq]
      exact .single (.acquire x result (holding_owner_none hx) (hfresh hpos))
  | moveConstruct x y =>
    obtain ⟨⟨hx, hne⟩, hmove⟩ := heffect
    rw [hmove]
    exact .single (.transfer x y (holding_owner_none hx) hne)
  | moveAssign x y =>
    rcases heffect with ⟨-, hsame⟩ | ⟨hne, hmove⟩
    · rw [hsame]
    · rw [hmove]
      exact (Relation.ReflTransGen.single (.drop x)).tail
        (.transfer x y (Holding.drop_owner_self _ _) hne)
  | close x | destroy x =>
    rw [show s'.holding = s.holding.drop x from heffect]
    exact .single (.drop x)

/-- The objects and the kernel agree on the descriptors, and each was closed once for each time it was
obtained. -/
structure Owned (s : Sockets α) : Prop where
  distinct : ∀ x y fd, 0 ≤ fd → s.fd x = some fd → s.fd y = some fd → x = y
  isOpen : ∀ fd, 0 ≤ fd → ((∃ x, s.fd x = some fd) ↔ Outstanding fd s.calls)
  held : ∀ fd, 0 ≤ fd → (∃ x, s.fd x = some fd) →
    ∃ k, history fd s.calls = rounds fd k ++ [.given fd]
  gone : ∀ fd, 0 ≤ fd → (¬ ∃ x, s.fd x = some fd) → ∃ k, history fd s.calls = rounds fd k

omit [DecidableEq α] in
theorem owned_of_sound (h : s.holding.Sound) : Owned s := by
  have howned (fd) (hfd : 0 ≤ fd) : (∃ x, s.fd x = some fd) ↔ Outstanding fd s.holding.log := by
    refine Iff.trans ?_ (h.owned fd)
    simp only [holding_owner_iff, hfd, and_true]
  refine ⟨?_, howned, ?_, ?_⟩
  · intro x y fd hfd hx hy
    exact h.distinct x y fd ((holding_owner_iff s x fd).2 ⟨hx, hfd⟩)
      ((holding_owner_iff s y fd).2 ⟨hy, hfd⟩)
  · intro fd hfd hheld
    obtain ⟨k, hk⟩ := h.alternates fd
    rw [if_pos ((howned fd hfd).1 hheld)] at hk
    exact ⟨k, hk⟩
  · intro fd hfd hgone
    obtain ⟨k, hk⟩ := h.alternates fd
    rw [if_neg (mt (howned fd hfd).2 hgone), List.append_nil] at hk
    exact ⟨k, hk⟩

/-! ### Objects that were closed or moved from -/

end Sockets

/-- The operation closes `x` or moves from it. -/
def SocketOp.Spends {α : Type} (x : α) : SocketOp α → Prop
  | .close y => y = x
  | .moveConstruct _ y => y = x
  | .moveAssign z y => y = x ∧ z ≠ x
  | _ => False

/-- The operation constructs `x` or moves something into it. -/
def SocketOp.Fills {α : Type} (x : α) : SocketOp α → Prop
  | .default y | .createTcp y _ | .accept y _ _ | .moveConstruct y _ => y = x
  | .moveAssign y z => y = x ∧ z ≠ x
  | .close _ | .destroy _ => False

namespace Sockets
variable {α : Type} [DecidableEq α] {s s' : Sockets α} {x y : α} {fd : Int} {op : SocketOp α}

omit [DecidableEq α] in
theorem isValid_eq_false_iff (s : Sockets α) (x : α) :
    s.isValid x = false ↔ s.holding.owner x = none := by
  simp [isValid, holding, Option.any_eq_false]

theorem step_spends (h : s.step op = some s') (hop : op.Spends x) : s'.isValid x = false := by
  have heffect := effect_of_step h
  rw [isValid_eq_false_iff]
  cases op with
  | close y =>
    cases hop
    rw [show s'.holding = s.holding.drop x from heffect]
    exact Holding.drop_owner_self _ _
  | moveConstruct y z =>
    cases hop
    rw [heffect.2]
    exact Holding.transfer_owner_source _ _ _
  | moveAssign y z =>
    obtain ⟨rfl, hne⟩ := hop
    rcases heffect with ⟨heq, -⟩ | ⟨-, hmove⟩
    · exact absurd heq hne
    · rw [hmove]
      exact Holding.transfer_owner_source _ _ _
  | default | createTcp | accept | destroy => cases hop

theorem step_keeps_invalid (h : s.step op = some s') (hop : ¬ op.Fills x)
    (hx : s.isValid x = false) : s'.isValid x = false := by
  have heffect := effect_of_step h
  rw [isValid_eq_false_iff] at hx ⊢
  cases op with
  | default y =>
    rw [heffect.2]
    exact hx
  | createTcp y result | accept y z result =>
    rcases heffect with ⟨-, hsame | ⟨-, hacq⟩⟩
    · rw [hsame]
      exact hx
    · rw [hacq]
      exact Holding.acquire_owner_none hx (Ne.symm hop)
  | moveConstruct y z =>
    rw [heffect.2]
    exact Holding.transfer_owner_none hx (Ne.symm hop)
  | moveAssign y z =>
    rcases heffect with ⟨-, hsame⟩ | ⟨hne, hmove⟩
    · rw [hsame]
      exact hx
    · have hxy : x ≠ y := by
        rintro rfl
        exact hop ⟨rfl, Ne.symm hne⟩
      rw [hmove]
      exact Holding.transfer_owner_none (Holding.drop_owner_none hx) hxy
  | close y | destroy y =>
    rw [show s'.holding = s.holding.drop y from heffect]
    exact Holding.drop_owner_none hx

end Sockets
end Streamer

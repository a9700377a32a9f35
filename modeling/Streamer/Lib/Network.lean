import Mathlib.Algebra.BigOperators.Fin
import Streamer.Lib.Machine

/-!
# Processes that talk over streams

Two processes hold the two ends of a connection: what the one sends is appended to what the other has
still to read. A process that waits for input has no step, and input that comes later does not change
a step that it can make (`Endpoint.Lawful`). Then the two sides commute (`Duplex.commuting`), so one
run to an end decides all runs (`Inevitable`). Connections that share nothing stand side by side in a
`family`.
-/

namespace Machine

section
variable {σ ι : Type} {step : σ → ι → Option σ} {s t e : σ} {n : Nat}

/-- `t` comes after `s` in some run. -/
def Reaches (step : σ → ι → Option σ) (s t : σ) : Prop := ∃ ls, exec step s ls = some t

theorem Reaches.trans {u : σ} (h : Reaches step s t) (h' : Reaches step t u) : Reaches step s u := by
  obtain ⟨ls, hls⟩ := h
  obtain ⟨ls', hls'⟩ := h'
  exact ⟨ls ++ ls', (exec_append hls).trans hls'⟩

/-- Every run from `s` can be continued to `e`, where nothing moves any more, and then has `n` steps:
so no run is longer, and one that cannot be continued has come to `e`. -/
structure Inevitable (step : σ → ι → Option σ) (n : Nat) (s e : σ) : Prop where
  ended : ∀ l, step e l = none
  reached : ∀ ls t, exec step s ls = some t → ∃ ls', exec step t ls' = some e ∧ ls.length + ls'.length = n

theorem Commuting.inevitable {I : σ → Prop} (hc : Commuting step I) (hi : I s) (h : Reaches step s e)
    (hend : ∀ l, step e l = none) : ∃ n, Inevitable step n s e := by
  obtain ⟨ls₀, hls₀⟩ := h
  refine ⟨ls₀.length, hend, ?_⟩
  intro ls t ht
  obtain ⟨ls', hls', hperm⟩ := hc.exec_completes hi hls₀ hend ht
  exact ⟨ls', hls', by rw [hperm.length_eq, List.length_append]⟩

end

/-! ### Machines side by side -/

section Family
variable {κ σ ι : Type} [DecidableEq κ] {step : κ → σ → ι → Option σ} {s t e : κ → σ}

/-- One of the machines makes a step. -/
def family (step : κ → σ → ι → Option σ) (s : κ → σ) (l : κ × ι) : Option (κ → σ) :=
  (step l.1 (s l.1) l.2).map (Function.update s l.1)

/-- The steps that machine `k` makes. -/
def ownSteps (k : κ) (ls : List (κ × ι)) : List ι :=
  ls.filterMap fun l => if l.1 = k then some l.2 else none

theorem exec_ownSteps {ls : List (κ × ι)} (h : exec (family step) s ls = some t) (k : κ) :
    exec (step k) (s k) (ownSteps k ls) = some (t k) := by
  induction ls generalizing s with
  | nil =>
    cases h
    rfl
  | cons l ls ih =>
    obtain ⟨s', hs', h⟩ := exec_cons h
    obtain ⟨u, hu, rfl⟩ := Option.map_eq_some_iff.1 hs'
    have hrest := ih h
    by_cases hk : l.1 = k
    · subst hk
      rw [Function.update_self] at hrest
      simp only [ownSteps, List.filterMap_cons, if_true, exec, hu]
      exact hrest
    · rw [Function.update_of_ne (Ne.symm hk)] at hrest
      simp only [ownSteps, List.filterMap_cons, hk, if_false]
      exact hrest

theorem exec_single {k : κ} {ls : List ι} {u : σ} (h : exec (step k) (s k) ls = some u) :
    exec (family step) s (ls.map (k, ·)) = some (Function.update s k u) := by
  induction ls generalizing s with
  | nil =>
    cases h
    rw [Function.update_eq_self]
    rfl
  | cons l ls ih =>
    obtain ⟨v, hv, h⟩ := exec_cons h
    have hrest := @ih (Function.update s k v) (by rwa [Function.update_self])
    rw [Function.update_idem] at hrest
    simp only [List.map_cons, exec, family, hv, Option.map_some]
    exact hrest

/-- Each of the machines in `ks` can be brought to where its own run ends. -/
theorem exec_each {n : κ → Nat} (ks : List κ) (hks : ks.Nodup)
    (h : ∀ k ∈ ks, ∃ ls, exec (step k) (s k) ls = some (e k) ∧ ls.length = n k) :
    ∃ ls, exec (family step) s ls = some (fun k => if k ∈ ks then e k else s k) ∧
      ls.length = (ks.map n).sum := by
  induction ks generalizing s with
  | nil => exact ⟨[], by simp [exec], rfl⟩
  | cons k ks ih =>
    obtain ⟨hk, hks⟩ := List.nodup_cons.1 hks
    obtain ⟨ls, hls, hlen⟩ := h k List.mem_cons_self
    have hother (k' : κ) (hk' : k' ∈ ks) : Function.update s k (e k) k' = s k' := by
      refine Function.update_of_ne ?_ _ _
      rintro rfl
      exact hk hk'
    obtain ⟨ls', hls', hlen'⟩ := @ih (Function.update s k (e k)) hks fun k' hk' => by
      rw [hother k' hk']
      exact h k' (List.mem_cons_of_mem _ hk')
    refine ⟨ls.map (k, ·) ++ ls', ?_, by simp [hlen, hlen']⟩
    rw [exec_append (exec_single hls), hls']
    congr 1
    funext k'
    by_cases heq : k' = k
    · subst heq
      simp [hk]
    · simp [heq]

theorem sum_length_ownSteps [Fintype κ] (ls : List (κ × ι)) :
    ∑ k, (ownSteps k ls).length = ls.length := by
  induction ls with
  | nil => simp [ownSteps]
  | cons l ls ih =>
    have hcons (k : κ) : (ownSteps k (l :: ls)).length =
        (if l.1 = k then 1 else 0) + (ownSteps k ls).length := by
      by_cases hk : l.1 = k
      · simp [ownSteps, hk, Nat.add_comm]
      · simp [ownSteps, hk]
    simp only [hcons, Finset.sum_add_distrib, ih, Finset.sum_ite_eq, Finset.mem_univ, if_true,
      List.length_cons]
    exact Nat.add_comm _ _

/-- What is inevitable for each machine alone is inevitable for all of them, in any interleaving. -/
theorem Inevitable.family [Fintype κ] {n : κ → Nat} (h : ∀ k, Inevitable (step k) (n k) (s k) (e k)) :
    Inevitable (family step) (∑ k, n k) s e where
  ended := fun l => by rw [Machine.family, (h l.1).ended l.2]; rfl
  reached := by
    intro ls t ht
    have hown (k : κ) : ∃ ls', exec (step k) (t k) ls' = some (e k) ∧
        ls'.length = n k - (ownSteps k ls).length := by
      obtain ⟨ls', hls', hlen⟩ := (h k).reached _ _ (exec_ownSteps ht k)
      exact ⟨ls', hls', by omega⟩
    obtain ⟨ls', hls', hlen⟩ := exec_each (Finset.univ.toList) (Finset.nodup_toList _) fun k _ => hown k
    simp only [Finset.mem_toList, Finset.mem_univ, if_true] at hls'
    refine ⟨ls', hls', ?_⟩
    have hle (k : κ) : (ownSteps k ls).length ≤ n k := by
      obtain ⟨ls', -, hlen⟩ := (h k).reached _ _ (exec_ownSteps ht k)
      omega
    rw [hlen, Finset.sum_map_toList, ← sum_length_ownSteps ls, ← Finset.sum_add_distrib]
    exact Finset.sum_congr rfl fun k _ => Nat.add_sub_of_le (hle k)

end Family

/-! ### Two ends of a connection -/

/-- A process at one end. `step` is `none` when it has ended and while it waits for input. -/
structure Endpoint (σ β : Type) where
  step : σ → Option σ
  sent : σ → List β
  /-- It has closed its end. -/
  closed : σ → Bool
  /-- The other end has sent `bs`, and closed if the flag is set. -/
  deliver : (bs : List β) → Bool → σ → σ
  /-- The other end has closed. -/
  fin : σ → Bool

/-- Input can be appended at any time; as long as the other end has not closed, a step that is enabled
stays so and does the same. -/
structure Endpoint.Lawful {σ β : Type} (P : Endpoint σ β) : Prop where
  sent_deliver : ∀ bs f s, P.sent (P.deliver bs f s) = P.sent s
  closed_deliver : ∀ bs f s, P.closed (P.deliver bs f s) = P.closed s
  fin_deliver : ∀ bs f s, P.fin (P.deliver bs f s) = (P.fin s || f)
  deliver_nil : ∀ s, P.deliver [] false s = s
  deliver_deliver : ∀ bs f bs' f' s,
    P.deliver bs' f' (P.deliver bs f s) = P.deliver (bs ++ bs') (f || f') s
  sent_step : ∀ s t, P.step s = some t → P.sent s <+: P.sent t
  fin_step : ∀ s t, P.step s = some t → P.fin t = P.fin s
  closed_step : ∀ s, P.closed s = true → P.step s = none
  step_deliver : ∀ bs f s t, P.step s = some t → P.fin s = false →
    P.step (P.deliver bs f s) = some (P.deliver bs f t)

inductive Side where
  | left | right
deriving DecidableEq, Repr

def Side.swap : Side → Side
  | .left => .right
  | .right => .left

structure Duplex (σ τ : Type) where
  left : σ
  right : τ

namespace Duplex
variable {σ τ β : Type}

def swap (d : Duplex σ τ) : Duplex τ σ := ⟨d.right, d.left⟩

variable (P : Endpoint σ β) (Q : Endpoint τ β)

def step (d : Duplex σ τ) : Side → Option (Duplex σ τ)
  | .left => (P.step d.left).map fun s =>
    ⟨s, Q.deliver ((P.sent s).drop (P.sent d.left).length) (P.closed s) d.right⟩
  | .right => (Q.step d.right).map fun t =>
    ⟨P.deliver ((Q.sent t).drop (Q.sent d.right).length) (Q.closed t) d.left, t⟩

/-- Who has seen the end of the stream has a peer that has closed. -/
structure Linked (d : Duplex σ τ) : Prop where
  right_fin : Q.fin d.right = true → P.closed d.left = true
  left_fin : P.fin d.left = true → Q.closed d.right = true

variable {P Q} {d d' : Duplex σ τ}

theorem step_swap (d : Duplex σ τ) (l : Side) : step Q P d.swap l.swap = (step P Q d l).map swap := by
  cases l <;> simp only [step, swap, Side.swap, Option.map_map] <;> rfl

theorem exec_swap (d : Duplex σ τ) (ls : List Side) :
    exec (step Q P) d.swap (ls.map Side.swap) = (exec (step P Q) d ls).map swap := by
  induction ls generalizing d with
  | nil => rfl
  | cons l ls ih =>
    simp only [List.map_cons, exec, step_swap]
    cases step P Q d l with
    | none => rfl
    | some d' => exact ih d'

theorem Linked.swap (h : Linked P Q d) : Linked Q P d.swap := ⟨h.left_fin, h.right_fin⟩

theorem Linked.step_left (hP : P.Lawful) (hQ : Q.Lawful) (hi : Linked P Q d)
    (h : step P Q d .left = some d') : Linked P Q d' := by
  obtain ⟨s, hs, rfl⟩ := Option.map_eq_some_iff.1 h
  have hopen : P.closed d.left ≠ true := fun hc => by
    rw [hP.closed_step _ hc] at hs
    cases hs
  refine ⟨?_, ?_⟩
  · rw [hQ.fin_deliver, Bool.or_eq_true]
    rintro (hfin | hclosed)
    · exact absurd (hi.right_fin hfin) hopen
    · exact hclosed
  · rw [hQ.closed_deliver, hP.fin_step _ _ hs]
    exact hi.left_fin

theorem Linked.step (hP : P.Lawful) (hQ : Q.Lawful) (hi : Linked P Q d) {l : Side}
    (h : step P Q d l = some d') : Linked P Q d' := by
  cases l with
  | left => exact hi.step_left hP hQ h
  | right =>
    have h' : Duplex.step Q P d.swap .left = some d'.swap :=
      (step_swap d .right).trans (congrArg _ h)
    exact (hi.swap.step_left hQ hP h').swap

/-- Where two steps lead, in either order. -/
theorem step_both {s : σ} {t : τ} (hQ : Q.Lawful) (hi : Linked P Q d) (hP : P.Lawful)
    (hs : P.step d.left = some s) (ht : Q.step d.right = some t) :
    step P Q ⟨s, Q.deliver ((P.sent s).drop (P.sent d.left).length) (P.closed s) d.right⟩ .right =
      some ⟨P.deliver ((Q.sent t).drop (Q.sent d.right).length) (Q.closed t) s,
        Q.deliver ((P.sent s).drop (P.sent d.left).length) (P.closed s) t⟩ := by
  have hfin : Q.fin d.right = false := by
    refine Bool.eq_false_iff.2 fun hfin => ?_
    rw [hP.closed_step _ (hi.right_fin hfin)] at hs
    cases hs
  simp only [step, hQ.step_deliver _ _ _ _ ht hfin, Option.map_some, hQ.sent_deliver, hQ.closed_deliver]

theorem commuting (hP : P.Lawful) (hQ : Q.Lawful) : Commuting (step P Q) (Linked P Q) where
  keeps := fun _ _ _ hi h => hi.step hP hQ h
  commute := by
    have hboth (d d₁ d₂ : Duplex σ τ) (hi : Linked P Q d) (h₁ : step P Q d .left = some d₁)
        (h₂ : step P Q d .right = some d₂) :
        ∃ u, step P Q d₁ .right = some u ∧ step P Q d₂ .left = some u := by
      obtain ⟨s, hs, rfl⟩ := Option.map_eq_some_iff.1 h₁
      obtain ⟨t, ht, rfl⟩ := Option.map_eq_some_iff.1 h₂
      refine ⟨_, step_both hQ hi hP hs ht, ?_⟩
      have hswap := congrArg (Option.map swap) (step_both hP hi.swap hQ ht hs)
      rwa [← step_swap] at hswap
    intro d l l' d₁ d₂ hi hne h₁ h₂
    cases l with
    | left =>
      cases l' with
      | left => exact absurd rfl hne
      | right => exact hboth d d₁ d₂ hi h₁ h₂
    | right =>
      cases l' with
      | left =>
        obtain ⟨u, hu, hu'⟩ := hboth d d₂ d₁ hi h₂ h₁
        exact ⟨u, hu', hu⟩
      | right => exact absurd rfl hne

/-- The left process runs alone and sends `bs`. -/
theorem reaches_left (hP : P.Lawful) (hQ : Q.Lawful) {s s' : σ} {bs : List β} (hopen : P.closed s = false)
    (h : Leads P.step s s') (hsent : P.sent s' = P.sent s ++ bs) (t : τ) :
    Reaches (step P Q) ⟨s, t⟩ ⟨s', Q.deliver bs (P.closed s') t⟩ := by
  obtain ⟨n, hn⟩ := h
  have hbs : bs = (P.sent s').drop (P.sent s).length := by rw [hsent, List.drop_left]
  rw [hbs]
  clear hbs hsent
  suffices hrun : P.sent s <+: P.sent s' ∧ exec (step P Q) ⟨s, t⟩ (List.replicate n .left) =
      some ⟨s', Q.deliver ((P.sent s').drop (P.sent s).length) (P.closed s') t⟩ from ⟨_, hrun.2⟩
  induction n generalizing s' with
  | zero =>
    cases hn
    simp [exec, hopen, hQ.deliver_nil]
  | succ n ih =>
    rw [iter_succ] at hn
    obtain ⟨u, hu, hstep⟩ := Option.bind_eq_some_iff.1 hn
    obtain ⟨hpre, hrun⟩ := ih hu
    have hpre' := hP.sent_step u s' hstep
    have hclosed : P.closed u = false := by
      refine Bool.eq_false_iff.2 fun hc => ?_
      rw [hP.closed_step _ hc] at hstep
      cases hstep
    refine ⟨hpre.trans hpre', ?_⟩
    rw [List.replicate_succ', exec_append hrun]
    simp only [exec, step, hstep, Option.map_some, hQ.deliver_deliver, hclosed, Bool.false_or]
    congr 3
    obtain ⟨x, hx⟩ := hpre
    obtain ⟨y, hy⟩ := hpre'
    rw [← hy, ← hx]
    simp

theorem reaches_right (hP : P.Lawful) (hQ : Q.Lawful) {t t' : τ} {bs : List β}
    (hopen : Q.closed t = false) (h : Leads Q.step t t') (hsent : Q.sent t' = Q.sent t ++ bs) (s : σ) :
    Reaches (step P Q) ⟨s, t⟩ ⟨P.deliver bs (Q.closed t') s, t'⟩ := by
  obtain ⟨ls, hls⟩ := reaches_left hQ hP hopen h hsent s
  exact ⟨ls.map Side.swap, (exec_swap _ ls).trans (congrArg (Option.map swap) hls)⟩

end Duplex
end Machine

import Mathlib.Data.List.Infix
import Mathlib.Data.Set.Basic
import Streamer.Lib.Text

/-!
# Messages that say where they end

In a prefix-free set no message is the beginning of another, so messages that are sent one after the
other can be told apart, even if each comes from a set of its own that the receiver knows
(`eq_of_flatten_prefix`). A message that begins with a line, and goes on as that line says, is of this
kind if what follows is (`headed`).
-/

namespace Text
variable {α : Type} {S T : Set (List α)} {a b x y : List α}

def PrefixFree (S : Set (List α)) : Prop := ∀ a ∈ S, ∀ b ∈ S, a <+: b → a = b

namespace PrefixFree

theorem mono (h : PrefixFree T) (hst : S ⊆ T) : PrefixFree S :=
  fun a ha b hb hab => h a (hst ha) b (hst hb) hab

theorem singleton (a : List α) : PrefixFree {a} := by
  rintro _ rfl _ rfl -
  rfl

theorem length (n : Nat) : PrefixFree {a : List α | a.length = n} :=
  fun _ ha _ hb hab => hab.eq_of_length (ha.trans hb.symm)

/-- Where two streams agree, so do their first messages, and what follows these. -/
theorem eq_of_append (h : PrefixFree S) (ha : a ∈ S) (hb : b ∈ S) (hp : a ++ x <+: b ++ y) :
    a = b ∧ x <+: y := by
  have hab : a = b := by
    rcases List.prefix_or_prefix_of_prefix ((List.prefix_append a x).trans hp) (List.prefix_append b y) with
      hle | hle
    · exact h a ha b hb hle
    · exact (h b hb a ha hle).symm
  subst hab
  exact ⟨rfl, (List.prefix_append_right_inj a).1 hp⟩

/-- Two lists of messages, each message from the set that stands in its place, are the same if the one
stream is a beginning of the other. -/
theorem eq_of_flatten_prefix {Ss : List (Set (List α))} {as bs : List (List α)}
    (h : ∀ S ∈ Ss, PrefixFree S) (ha : List.Forall₂ (· ∈ ·) as Ss) (hb : List.Forall₂ (· ∈ ·) bs Ss)
    (hp : as.flatten <+: bs.flatten) : as = bs := by
  induction ha generalizing bs with
  | nil =>
    cases hb
    rfl
  | @cons a S as Ss haS _ ih =>
    cases hb with
    | @cons b _ bs _ hbS hbs =>
      rw [List.flatten_cons, List.flatten_cons] at hp
      obtain ⟨rfl, hrest⟩ := (h S List.mem_cons_self).eq_of_append haS hbS hp
      rw [ih (fun T hT => h T (List.mem_cons_of_mem S hT)) hbs hrest]

/-- A line, and behind it a message of the kind that the line announces. -/
theorem headed (sep : α) (body : List α → Set (List α)) (h : ∀ l, PrefixFree (body l)) :
    PrefixFree {a | ∃ l b, sep ∉ l ∧ b ∈ body l ∧ a = l ++ sep :: b} := by
  rintro _ ⟨l, b, hl, hb, rfl⟩ _ ⟨l', b', hl', hb', rfl⟩ hp
  obtain ⟨rfl, hrest⟩ := line_of_prefix hl hl' hp
  rw [h l b hb b' hb' hrest]

/-- A known number of lines. -/
theorem lines (sep : α) (n : Nat) :
    PrefixFree {a | ∃ ls : List (List α), ls.length = n ∧ (∀ l ∈ ls, sep ∉ l) ∧
      a = ls.flatMap (· ++ [sep])} := by
  induction n with
  | zero =>
    refine (singleton []).mono ?_
    rintro _ ⟨ls, hlen, -, rfl⟩
    rw [List.length_eq_zero_iff.1 hlen]
    rfl
  | succ n ih =>
    refine (headed sep _ fun _ => ih).mono ?_
    rintro _ ⟨ls, hlen, hls, rfl⟩
    cases ls with
    | nil => cases hlen
    | cons l ls =>
      exact ⟨l, _, hls l List.mem_cons_self,
        ⟨ls, Nat.succ.inj hlen, fun l' hl' => hls l' (List.mem_cons_of_mem l hl'), rfl⟩, by simp⟩

end PrefixFree
end Text

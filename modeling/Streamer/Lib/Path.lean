import Streamer.Lib.Text

/-!
# `std::filesystem::path` on POSIX

A path is a root-directory flag and its elements, as `path::begin` enumerates them after the root
directory: the names between the slashes, and a last empty element when the text ends in a slash.
The lexical operations follow [fs.path.gen]; they never look at a file system.

`collapse` is lexical normalisation seen as a walk: it treats `..` as "one name back", whatever the
names are. `lexicallyNormal_eq_collapse` and `lexicallyRelative_contained` are what containment
checks rest on.
-/

namespace Filesystem
open Text

def slash : UInt8 := 47
def dot : Bytes := [46]
def dotdot : Bytes := [46, 46]

structure FsPath where
  absolute : Bool
  elems : List Bytes
deriving DecidableEq, Repr

/-- An element that stands for a directory entry. -/
def Proper (e : Bytes) : Prop := e ≠ [] ∧ e ≠ dot ∧ e ≠ dotdot

instance (e : Bytes) : Decidable (Proper e) := inferInstanceAs (Decidable (_ ∧ _))

namespace FsPath

def ofText (s : Bytes) : FsPath :=
  let pieces := s.splitOn slash
  let names := pieces.filter (! ·.isEmpty)
  ⟨s.head? == some slash, if !names.isEmpty && pieces.getLast? == some [] then names ++ [[]] else names⟩

def empty (p : FsPath) : Bool := !p.absolute && p.elems.isEmpty

def text (p : FsPath) : Bytes :=
  (if p.absolute then [slash] else []) ++ List.intercalate [slash] p.elems

def names (p : FsPath) : List Bytes := if p.elems.getLast? = some [] then p.elems.dropLast else p.elems

def append (p q : FsPath) : FsPath :=
  if q.absolute then q
  else if q.elems.isEmpty then ⟨p.absolute, if p.names.isEmpty then [] else p.names ++ [[]]⟩
  else ⟨p.absolute, p.names ++ q.elems⟩

/-- One element of `lexically_normal`: the normal form so far and whether it ends in a slash. -/
def normalStep (absolute : Bool) : List Bytes × Bool → Bytes → List Bytes × Bool
  | (st, _), e =>
    if e = [] ∨ e = dot then (st, true)
    else if e = dotdot then
      match st.getLast? with
      | none => if absolute then ([], true) else ([dotdot], false)
      | some l => if l = dotdot then (st ++ [dotdot], false) else (st.dropLast, true)
    else (st ++ [e], false)

def lexicallyNormal (p : FsPath) : FsPath :=
  if p.empty then p
  else
    let (st, trailing) := p.elems.foldl (normalStep p.absolute) ([], false)
    if st.isEmpty then ⟨p.absolute, if p.absolute then [] else [dot]⟩
    else if trailing && st.getLast? != some dotdot then ⟨p.absolute, st ++ [[]]⟩
    else ⟨p.absolute, st⟩

/-- `std::mismatch` of two element sequences: what is left of each. -/
def mismatch : List Bytes → List Bytes → List Bytes × List Bytes
  | a :: as, b :: bs => if a = b then mismatch as bs else (a :: as, b :: bs)
  | as, bs => (as, bs)

def depth : List Bytes → Int
  | [] => 0
  | b :: bs => (if b = dotdot then -1 else if b = [] ∨ b = dot then 0 else 1) + depth bs

def lexicallyRelative (p base : FsPath) : FsPath :=
  if p.absolute ≠ base.absolute then ⟨false, []⟩
  else
    let (a, b) := mismatch p.elems base.elems
    if a = [] ∧ b = [] then ⟨false, [dot]⟩
    else
      let n := depth b
      if n = 0 ∧ (a = [] ∨ a.head? = some []) then ⟨false, [dot]⟩
      else if 0 ≤ n then ⟨false, List.replicate n.toNat dotdot ++ a⟩
      else ⟨false, []⟩

def ofNames (loc : List Bytes) : FsPath := ⟨true, loc⟩

/-! ### Normalisation -/

/-- The list of names that `es` leads to from `cur` when `..` takes back the last name. -/
def collapse : List Bytes → List Bytes → List Bytes
  | cur, [] => cur
  | cur, e :: es =>
    if e = [] ∨ e = dot then collapse cur es
    else if e = dotdot then collapse cur.dropLast es
    else collapse (cur ++ [e]) es

theorem collapse_append (cur es es' : List Bytes) :
    collapse cur (es ++ es') = collapse (collapse cur es) es' := by
  induction es generalizing cur with
  | nil => rfl
  | cons e es ih =>
    simp only [List.cons_append, collapse]
    split
    · exact ih _
    · split <;> exact ih _

theorem proper_collapse {cur : List Bytes} (h : ∀ e ∈ cur, Proper e) (es : List Bytes) :
    ∀ e ∈ collapse cur es, Proper e := by
  induction es generalizing cur with
  | nil => exact h
  | cons e es ih =>
    simp only [collapse]
    split
    · exact ih h
    · rename_i h1
      split
      · exact ih fun x hx => h x ((List.dropLast_sublist _).subset hx)
      · rename_i h2
        refine ih ?_
        intro x hx
        rcases List.mem_append.1 hx with hx | hx
        · exact h x hx
        · rw [List.mem_singleton.1 hx]
          exact ⟨fun e => h1 (.inl e), fun e => h1 (.inr e), h2⟩

theorem collapse_of_proper {cur es : List Bytes} (h : ∀ e ∈ es, Proper e) :
    collapse cur es = cur ++ es := by
  induction es generalizing cur with
  | nil => simp [collapse]
  | cons e es ih =>
    obtain ⟨h1, h2, h3⟩ := h e (by simp)
    simp only [collapse, h1, h2, h3, or_self, if_false]
    rw [ih fun x hx => h x (by simp [hx])]
    simp

/-- The normal form of an absolute path and the name it would end in without its trailing slash. -/
theorem normalStep_foldl {cur es : List Bytes} (hcur : ∀ e ∈ cur, Proper e) (t : Bool) :
    es.foldl (normalStep true) (cur, t) =
      (collapse cur es, match es.getLast? with | none => t | some e => !decide (Proper e)) := by
  induction es generalizing cur t with
  | nil => rfl
  | cons e es ih =>
    have hlast : ∀ t', (match es.getLast? with | none => t' | some e => !decide (Proper e)) =
        match (e :: es).getLast? with | none => t | some e' => if es = [] then t' else !decide (Proper e') := by
      intro t'
      cases es with
      | nil => rfl
      | cons x xs => simp [List.getLast?_cons]
    have key : ∀ cur' t', (∀ e ∈ cur', Proper e) → t' = !decide (Proper e) →
        es.foldl (normalStep true) (cur', t') =
          (collapse cur' es, match (e :: es).getLast? with | none => t | some e => !decide (Proper e)) := by
      intro cur' t' hc ht
      rw [ih hc t', hlast]
      cases es with
      | nil => simp [ht]
      | cons x xs => simp [List.getLast?_cons]
    rw [List.foldl_cons]
    by_cases h1 : e = [] ∨ e = dot
    · simp only [normalStep, collapse, h1, if_true]
      exact key cur true hcur (by rcases h1 with rfl | rfl <;> decide)
    by_cases h2 : e = dotdot
    · subst h2
      simp only [normalStep, collapse, h1, if_false, if_true]
      cases hl : cur.getLast? with
      | none =>
        have : cur = [] := List.getLast?_eq_none_iff.1 hl
        subst this
        exact key [] true (by simp) (by decide)
      | some l =>
        have : l ≠ dotdot := (hcur l (List.mem_of_getLast? hl)).2.2
        simp only [this, if_false]
        exact key _ true (fun x hx => hcur x ((List.dropLast_sublist _).subset hx)) (by decide)
    · simp only [normalStep, collapse, h1, h2, if_false]
      have hp : Proper e := ⟨fun h => h1 (.inl h), fun h => h1 (.inr h), h2⟩
      refine key _ false ?_ (by simp [hp])
      intro x hx
      rcases List.mem_append.1 hx with hx | hx
      · exact hcur x hx
      · rwa [List.mem_singleton.1 hx]

/-- The names of the normal form of an absolute path are its collapsed names; it ends in a slash
when the path did not end in a proper name. -/
theorem lexicallyNormal_eq_collapse (es : List Bytes) :
    lexicallyNormal ⟨true, es⟩ = ⟨true, collapse [] es ++
      if collapse [] es ≠ [] ∧ ∃ e, es.getLast? = some e ∧ ¬ Proper e then [[]] else []⟩ := by
  have hempty : empty ⟨true, es⟩ = false := rfl
  simp only [lexicallyNormal, hempty, Bool.false_eq_true, if_false,
    normalStep_foldl (List.forall_mem_nil _)]
  by_cases h0 : collapse [] es = []
  · simp [h0]
  · have hlast : (collapse [] es).getLast? ≠ some dotdot := fun h =>
      (proper_collapse (List.forall_mem_nil _) es _ (List.mem_of_getLast? h)).2.2 rfl
    cases hl : es.getLast? with
    | none => simp [h0, List.isEmpty_iff]
    | some e => by_cases he : Proper e <;> simp [h0, List.isEmpty_iff, hlast, he]

theorem lexicallyNormal_of_proper {es : List Bytes} (h : ∀ e ∈ es, Proper e) :
    lexicallyNormal ⟨true, es⟩ = ⟨true, es⟩ := by
  have hlast : ¬ ∃ e, es.getLast? = some e ∧ ¬ Proper e := by
    rintro ⟨e, he, hne⟩
    exact hne (h e (List.mem_of_getLast? he))
  rw [lexicallyNormal_eq_collapse, collapse_of_proper h]
  simp [hlast]

theorem lexicallyNormal_idem (es : List Bytes) :
    (lexicallyNormal ⟨true, es⟩).lexicallyNormal = lexicallyNormal ⟨true, es⟩ := by
  have hproper := proper_collapse (List.forall_mem_nil _) es
  rw [lexicallyNormal_eq_collapse]
  split
  · -- the trailing slash is the one element that normalisation drops and puts back
    rename_i hslash
    have hc : collapse [] (collapse [] es ++ [[]]) = collapse [] es := by
      rw [collapse_append, collapse_of_proper hproper]
      simp [collapse]
    rw [lexicallyNormal_eq_collapse, hc]
    simp [hslash.1, Proper]
  · rw [List.append_nil]
    exact lexicallyNormal_of_proper hproper

theorem dotdot_notMem_of_normal {es : List Bytes} (h : lexicallyNormal ⟨true, es⟩ = ⟨true, es⟩) :
    dotdot ∉ es := by
  rw [lexicallyNormal_eq_collapse] at h
  injection h with _ hes
  rw [← hes]
  intro hmem
  rcases List.mem_append.1 hmem with hmem | hmem
  · exact (proper_collapse (List.forall_mem_nil _) es _ hmem).2.2 rfl
  · split at hmem
    · exact absurd (List.mem_singleton.1 hmem) (by decide)
    · simp at hmem

/-! ### Containment -/

theorem mismatch_snd_nil {as bs : List Bytes} (h : (mismatch as bs).2 = []) :
    as = bs ++ (mismatch as bs).1 := by
  induction bs generalizing as with
  | nil => cases as <;> rfl
  | cons b bs ih =>
    cases as with
    | nil => simp [mismatch] at h
    | cons a as =>
      simp only [mismatch] at h ⊢
      split at h
      · rename_i hab
        simp only [hab, if_true, List.cons_append, List.cons.injEq, true_and]
        exact ih h
      · simp at h

theorem mismatch_snd_suffix (as bs : List Bytes) : (mismatch as bs).2 <:+ bs := by
  induction bs generalizing as with
  | nil => cases as <;> exact List.suffix_refl _
  | cons b bs ih =>
    cases as with
    | nil => exact List.suffix_refl _
    | cons a as =>
      simp only [mismatch]
      split
      · exact (ih as).trans (List.suffix_cons b bs)
      · exact List.suffix_refl _

theorem mismatch_append (bs rest : List Bytes) : mismatch (bs ++ rest) bs = (rest, []) := by
  induction bs with
  | nil => cases rest <;> rfl
  | cons b bs ih => simp [mismatch, ih]

theorem depth_of_proper {bs : List Bytes} (h : ∀ b ∈ bs, Proper b) : depth bs = bs.length := by
  induction bs with
  | nil => rfl
  | cons b bs ih =>
    obtain ⟨h1, h2, h3⟩ := h b (by simp)
    simp only [depth, h1, h2, h3, or_self, if_false, ih fun x hx => h x (by simp [hx]), List.length_cons]
    omega

/-- The three tests of a containment check (not empty, no text `..` in front, not absolute) leave
only paths that have the base as a component-wise prefix. -/
theorem lexicallyRelative_contained {p base : FsPath} (hb : ∀ e ∈ base.elems, Proper e)
    (hempty : (lexicallyRelative p base).empty = false)
    (hdots : dotdot.isPrefixOf (lexicallyRelative p base).text = false) : base.elems <+: p.elems := by
  suffices hnil : (mismatch p.elems base.elems).2 = [] from ⟨_, (mismatch_snd_nil hnil).symm⟩
  have hprop : ∀ e ∈ (mismatch p.elems base.elems).2, Proper e := fun e he =>
    hb e ((mismatch_snd_suffix _ _).subset he)
  unfold lexicallyRelative at hempty hdots
  split at hempty
  · simp [empty] at hempty
  rename_i habs
  rw [if_neg habs] at hdots
  by_contra hne
  obtain ⟨b, bs, hbs⟩ := List.exists_cons_of_ne_nil hne
  have hdepth : depth (b :: bs) = (bs.length + 1 : Nat) := depth_of_proper (hbs ▸ hprop)
  simp only [hbs, hdepth, reduceCtorEq, and_false, if_false] at hdots
  rw [if_neg (by omega), if_pos (by omega), Int.toNat_natCast, List.replicate_succ,
    List.cons_append] at hdots
  have : ∀ tl, dotdot.isPrefixOf (text ⟨false, dotdot :: tl⟩) = true := by
    intro tl
    rw [List.isPrefixOf_iff_prefix]
    cases tl with
    | nil => exact List.prefix_refl _
    | cons x xs => exact ⟨_, by simp [text, List.intercalate]; rfl⟩
  rw [this] at hdots
  cases hdots

theorem dotdot_prefix_text (n : Bytes) (rest : List Bytes) :
    dotdot.isPrefixOf (text ⟨false, n :: rest⟩) = dotdot.isPrefixOf n := by
  cases rest with
  | nil => simp [text, List.intercalate]
  | cons m rest =>
    have : text ⟨false, n :: m :: rest⟩ = n ++ slash :: List.intercalate [slash] (m :: rest) := by
      simp [text, List.intercalate]
    rw [this]
    match n with
    | [] => rfl
    | [a] => simp [dotdot, List.isPrefixOf, slash]
    | a :: b :: n => simp [dotdot, List.isPrefixOf]

/-- `rest` does not begin, as text, with `..`. -/
def NoDots (rest : List Bytes) : Prop := ∀ n, rest.head? = some n → ¬ dotdot <+: n

/-- The check accepts the names below the base, unless the first of them begins with `..` as text. -/
theorem lexicallyRelative_append (base : List Bytes) {rest : List Bytes} (hr : ∀ e ∈ rest, Proper e) :
    (lexicallyRelative (ofNames (base ++ rest)) (ofNames base)).empty = false ∧
    (lexicallyRelative (ofNames (base ++ rest)) (ofNames base)).absolute = false ∧
    (dotdot.isPrefixOf (lexicallyRelative (ofNames (base ++ rest)) (ofNames base)).text = false ↔
      NoDots rest) := by
  cases rest with
  | nil =>
    have := mismatch_append base []
    simp only [List.append_nil] at this
    simp only [lexicallyRelative, ofNames, List.append_nil, this, and_self, ne_eq,
      not_true_eq_false, if_true, if_false]
    exact ⟨by decide, by trivial, fun _ => nofun, fun _ => by decide⟩
  | cons n rest =>
    have hn : n ≠ [] := (hr n (by simp)).1
    have : lexicallyRelative (ofNames (base ++ n :: rest)) (ofNames base) = ⟨false, n :: rest⟩ := by
      simp [lexicallyRelative, ofNames, mismatch_append, hn, depth]
    rw [this, dotdot_prefix_text]
    refine ⟨rfl, rfl, ?_⟩
    simp [NoDots, ← List.isPrefixOf_iff_prefix]

end FsPath
end Filesystem

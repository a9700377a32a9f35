import Streamer.FileManager

/-!
# The sandbox of `resolve_safe_path`

`resolve_safe_path` compares the weakly canonical form of `root / filename` with the root. When that
path exists the form is the real location, and the check decides containment. When it does not, the
form mixes a real head with a tail that is only normalised as text, and it may name, through a link,
a file that is not where the text says. `Detour` is that case: some component is missing, `..` steps
back over it as text, and what is left leads through a link out of the root.
-/

namespace Streamer
open Text Kernel Filesystem

namespace FileManager

theorem init_spec {createDirectories : FileSystem → FsPath → Bool × FileSystem} {rootDir : FsPath}
    {fs₀ fs₁ : FileSystem} {fm : FileManager} (h : init createDirectories rootDir fs₀ = some (fm, fs₁)) :
    ∃ root, fs₁.status rootDir = .ok root ∧ fm.canonicalRoot = .ofNames root ∧ fs₁.Real root := by
  simp only [init] at h
  generalize (if fs₀.exist rootDir then (true, fs₀) else createDirectories fs₀ rootDir) = made at h
  obtain ⟨exists_, fs⟩ := made
  dsimp only at h
  split at h
  · cases h
  cases hs : fs.status rootDir with
  | error e => simp [FileSystem.canonical, hs, Except.map] at h
  | ok root =>
    simp only [FileSystem.canonical, hs, Except.map, Option.some.injEq, Prod.mk.injEq] at h
    obtain ⟨rfl, rfl⟩ := h
    exact ⟨root, hs, rfl, FileSystem.status_real hs⟩

/-- The requests that get as far as the file system: not empty, no null byte, not absolute. -/
structure Admissible (filename : Bytes) : Prop where
  nonempty : filename ≠ []
  no_null : 0 ∉ filename
  relative : (FsPath.ofText filename).absolute = false

def fullCandidate (fm : FileManager) (filename : Bytes) : FsPath :=
  fm.canonicalRoot.append (FsPath.ofText filename)

section
variable {fm : FileManager} {fs : FileSystem} {root : Loc} {filename : Bytes} {out : FsPath}

theorem fullCandidate_absolute (hr : fm.canonicalRoot = .ofNames root) (ha : Admissible filename) :
    fm.fullCandidate filename = ⟨true, (fm.fullCandidate filename).elems⟩ := by
  simp only [fullCandidate, FsPath.append, hr, ha.relative, Bool.false_eq_true, if_false]
  split <;> rfl

/-- What the source does with a request, in one line. -/
theorem resolveSafePathInto_eq_true {weaklyCanonical : FsPath → Except Errno FsPath} {outPath : FsPath} :
    fm.resolveSafePathInto weaklyCanonical filename outPath = (true, out) ↔
      Admissible filename ∧ weaklyCanonical (fm.fullCandidate filename) = .ok out ∧
        (out.lexicallyRelative fm.canonicalRoot).empty = false ∧
        dotdot.isPrefixOf (out.lexicallyRelative fm.canonicalRoot).text = false ∧
        (out.lexicallyRelative fm.canonicalRoot).absolute = false := by
  unfold resolveSafePathInto
  split
  · rename_i h
    exact ⟨nofun, fun ⟨ha, _⟩ => absurd (List.isEmpty_iff.1 h) ha.nonempty⟩
  rename_i h1
  split
  · rename_i h
    exact ⟨nofun, fun ⟨ha, _⟩ => absurd (by simpa using h) ha.no_null⟩
  rename_i h2
  dsimp only
  split
  · rename_i h
    exact ⟨nofun, fun ⟨ha, _⟩ => by rw [ha.relative] at h; cases h⟩
  rename_i h3
  have ha : Admissible filename := ⟨by simpa using h1, by simpa using h2, by simpa using h3⟩
  rw [show fm.canonicalRoot.append (FsPath.ofText filename) = fm.fullCandidate filename from rfl]
  cases hw : weaklyCanonical (fm.fullCandidate filename) with
  | error e => simp
  | ok p =>
    simp only [Except.ok.injEq, ha, true_and]
    constructor
    · intro h
      split at h
      · cases h
      · rename_i hc
        cases h
        simp only [Bool.or_eq_true, not_or, Bool.not_eq_true] at hc
        exact ⟨rfl, hc.1.1, hc.1.2, hc.2⟩
    · rintro ⟨rfl, h4, h5, h6⟩
      simp [h4, h5, h6]

theorem resolveSafePath_eq_some_into : fm.resolveSafePath fs filename = some out ↔
    fm.resolveSafePathInto fs.weaklyCanonical filename ⟨false, []⟩ = (true, out) := by
  unfold resolveSafePath
  split
  · rename_i h
    simp [h]
  · rename_i h
    simp [h]

theorem resolveSafePath_eq_some :
    fm.resolveSafePath fs filename = some out ↔
      Admissible filename ∧ fs.weaklyCanonical (fm.fullCandidate filename) = .ok out ∧
        (out.lexicallyRelative fm.canonicalRoot).empty = false ∧
        dotdot.isPrefixOf (out.lexicallyRelative fm.canonicalRoot).text = false ∧
        (out.lexicallyRelative fm.canonicalRoot).absolute = false :=
  resolveSafePath_eq_some_into.trans resolveSafePathInto_eq_true

/-- The check accepts the path of a list of names exactly below the root, unless the first name
below it begins with `..` as text. -/
theorem resolveSafePath_eq_some_ofNames (hr : fm.canonicalRoot = .ofNames root)
    (hp : ∀ e ∈ root, Proper e) {loc : Loc} (hl : ∀ e ∈ loc, Proper e) :
    fm.resolveSafePath fs filename = some (.ofNames loc) ↔
      Admissible filename ∧ fs.weaklyCanonical (fm.fullCandidate filename) = .ok (.ofNames loc) ∧
        ∃ rest, loc = root ++ rest ∧ FsPath.NoDots rest := by
  rw [resolveSafePath_eq_some, hr]
  refine and_congr_right fun _ => and_congr_right fun _ => ⟨?_, ?_⟩
  · rintro ⟨h1, h2, -⟩
    obtain ⟨rest, rfl⟩ := FsPath.lexicallyRelative_contained hp h1 h2
    exact ⟨rest, rfl, (FsPath.lexicallyRelative_append root fun e he => hl e (by simp [he])).2.2.1 h2⟩
  · rintro ⟨rest, rfl, hnd⟩
    obtain ⟨h1, h2, h3⟩ :=
      FsPath.lexicallyRelative_append root fun e he => hl e (List.mem_append_right _ he)
    exact ⟨h1, h3.2 hnd, h2⟩

end

/-- Whatever `resolve_safe_path` lets through and is a regular file, links followed, lies under the
root; so `get_file_size` and `open_binary_file`, which follow the same path, stay inside it. -/
def Sandboxed (fm : FileManager) (fs : FileSystem) (filename : Bytes) : Prop :=
  ∀ out loc c r, fm.resolveSafePath fs filename = some out → fs.status out = .ok loc →
    fs.node loc = .ok (.file c r) → fm.canonicalRoot.elems <+: loc

/-- The request leaves the root by a detour. `front` is the part of `root / filename` that exists, at
the real location `head`; its next component `e` is missing. With every `..` of the rest taken as
"one name back", what remains is a list of names under the root that ends in a proper name and leads,
through a link, to a regular file outside. -/
def Detour (fm : FileManager) (fs : FileSystem) (filename : Bytes) : Prop :=
  Admissible filename ∧ ∃ front e rest head,
    (fm.fullCandidate filename).elems = front ++ e :: rest ∧ fs.Splits front e head ∧
    Proper ((e :: rest).getLast (by simp)) ∧
    (∃ below, FsPath.collapse head (e :: rest) = fm.canonicalRoot.elems ++ below ∧ FsPath.NoDots below) ∧
    ∃ loc c r, fs.status (.ofNames (FsPath.collapse head (e :: rest))) = .ok loc ∧
      fs.node loc = .ok (.file c r) ∧
      ¬ fm.canonicalRoot.elems <+: loc

section
variable {fm : FileManager} {fs : FileSystem} {root : Loc} {filename : Bytes}

theorem lexicallyNormal_head {head : Loc} (h : fs.Real head) (e : Bytes) (rest : List Bytes) :
    (FsPath.mk true (head ++ e :: rest)).lexicallyNormal =
      ⟨true, FsPath.collapse head (e :: rest) ++
        if FsPath.collapse head (e :: rest) ≠ [] ∧ ¬ Proper ((e :: rest).getLast (by simp)) then [[]]
        else []⟩ := by
  have hc : FsPath.collapse [] (head ++ e :: rest) = FsPath.collapse head (e :: rest) := by
    rw [FsPath.collapse_append, FsPath.collapse_of_proper h.proper, List.nil_append]
  have hl : (head ++ e :: rest).getLast? = some ((e :: rest).getLast (by simp)) := by
    rw [List.getLast?_append_of_ne_nil _ (by simp), List.getLast?_eq_some_getLast (by simp)]
  rw [FsPath.lexicallyNormal_eq_collapse, hc, hl]
  simp

theorem sandboxed_of_not_detour (hr : fm.canonicalRoot = .ofNames root) (hp : ∀ e ∈ root, Proper e)
    (hd : ¬ fm.Detour fs filename) : fm.Sandboxed fs filename := by
  intro out loc c r hres hst hfile
  obtain ⟨ha, hw, h1, h2, -⟩ := resolveSafePath_eq_some.1 hres
  have hcont : fm.canonicalRoot.elems <+: out.elems :=
    FsPath.lexicallyRelative_contained (by rw [hr]; exact hp) h1 h2
  rw [fullCandidate_absolute hr ha] at hw
  rcases FileSystem.weaklyCanonical_cases hw with ⟨loc', hs, rfl⟩ | ⟨front, e, rest, head, hes, hsp, rfl⟩
  · -- the path exists: the accepted form is the real location
    rw [FileSystem.status_ofNames (FileSystem.status_real hs)] at hst
    cases hst
    exact hcont
  · have hhead := FileSystem.status_real hsp.1
    rw [lexicallyNormal_head hhead] at hres hst
    by_cases hlast : Proper ((e :: rest).getLast (by simp))
    · simp only [hlast, not_true_eq_false, and_false, if_false, List.append_nil] at hres hst
      have hprop := FsPath.proper_collapse hhead.proper (e :: rest)
      obtain ⟨-, -, below, hbelow, hnd⟩ := (resolveSafePath_eq_some_ofNames hr hp hprop).1 hres
      by_contra hout
      exact hd ⟨ha, front, e, rest, head, hes, hsp, hlast, ⟨below, by rw [hr]; exact hbelow, hnd⟩,
        loc, c, r, hst, hfile, hout⟩
    · -- a trailing slash, or the root directory: no regular file
      by_cases hnil : FsPath.collapse head (e :: rest) = []
      · simp only [hnil, ne_eq, not_true_eq_false, false_and, if_false, List.append_nil,
          FileSystem.status_root, Except.ok.injEq] at hst
        subst hst
        obtain ⟨es, hes⟩ := fs.root_dir
        rw [hes] at hfile
        cases hfile
      · rw [if_pos ⟨hnil, hlast⟩] at hst
        have hslash : fs.regularFile ⟨true, FsPath.collapse head (e :: rest) ++ [[]]⟩ = none :=
          FileSystem.regularFile_snoc_nil true _
        simp [FileSystem.regularFile, hst, hfile] at hslash

theorem not_sandboxed_of_detour (hr : fm.canonicalRoot = .ofNames root) (hp : ∀ e ∈ root, Proper e)
    (hd : fm.Detour fs filename) : ¬ fm.Sandboxed fs filename := by
  obtain ⟨ha, front, e, rest, head, hes, hsp, hlast, ⟨below, hbelow, hnd⟩, loc, c, r, hst,
      hfile, hout⟩ := hd
  have hhead := FileSystem.status_real hsp.1
  have hw : fs.weaklyCanonical (fm.fullCandidate filename) =
      .ok (.ofNames (FsPath.collapse head (e :: rest))) := by
    rw [fullCandidate_absolute hr ha, hes, FileSystem.weaklyCanonical_of_splits hsp,
      lexicallyNormal_head hhead]
    simp [hlast, FsPath.ofNames]
  have hprop := FsPath.proper_collapse hhead.proper (e :: rest)
  rw [hr] at hbelow
  exact fun h => hout (h _ loc c r
    ((resolveSafePath_eq_some_ofNames hr hp hprop).2 ⟨ha, hw, below, hbelow, hnd⟩) hst hfile)

end

/-- The sandbox holds for exactly the requests that make no detour, on every file system and for
every root that `init` produced (on this file system or on an earlier one). -/
theorem sandboxed_iff_not_detour (createDirectories : FileSystem → FsPath → Bool × FileSystem)
    (rootDir : FsPath) (fs₀ fs₁ fs : FileSystem) (fm : FileManager) (filename : Bytes)
    (h : init createDirectories rootDir fs₀ = some (fm, fs₁)) :
    fm.Sandboxed fs filename ↔ ¬ fm.Detour fs filename := by
  obtain ⟨root, -, hr, hreal⟩ := init_spec h
  exact ⟨fun hs hd => not_sandboxed_of_detour hr hreal.proper hd hs,
    sandboxed_of_not_detour hr hreal.proper⟩

/-- A media directory `/m` with a link `/m/l` to `/s`, a regular file outside. -/
def leakyTree : List (Loc × Node) :=
  [([], .dir [ascii "m", ascii "s"]), ([ascii "m"], .dir [ascii "l"]),
   ([ascii "m", ascii "l"], .link (ascii "/s")), ([ascii "s"], .file (ascii "secret") true)]

def leaky : FileSystem := .ofNodes leakyTree 40 (by decide)

def leakyManager : FileManager := ⟨.ofNames [ascii "m"], .ofNames [ascii "m"]⟩

theorem init_leaky (createDirectories : FileSystem → FsPath → Bool × FileSystem) :
    init createDirectories (.ofNames [ascii "m"]) leaky = some (leakyManager, leaky) := rfl

/-- `x/../l`, with no `x`, is accepted as `/m/l` and read from `/s`. -/
theorem leaky_not_sandboxed :
    init (fun fs _ => (true, fs)) (.ofNames [ascii "m"]) leaky = some (leakyManager, leaky) ∧
      ¬ leakyManager.Sandboxed leaky (ascii "x/../l") := by
  refine ⟨init_leaky _, ?_⟩
  intro h
  exact absurd
    (h (.ofNames [ascii "m", ascii "l"]) [ascii "s"] (ascii "secret") true (by decide) (by decide) rfl)
    (by decide)

/-- The same media directory with a link `/m/k` to a file `/m/a` of its own. -/
def linkedTree : List (Loc × Node) :=
  [([], .dir [ascii "m"]), ([ascii "m"], .dir [ascii "a", ascii "k"]),
   ([ascii "m", ascii "a"], .file (ascii "hi") true), ([ascii "m", ascii "k"], .link (ascii "a"))]

def linked : FileSystem := .ofNodes linkedTree 40 (by decide)

/-- The plain request for the link out of the root makes no detour: it is refused. Neither does
`x/../k`, which is accepted as `/m/k` and read from `/m/a`. -/
theorem no_detour_samples :
    ¬ leakyManager.Detour leaky (ascii "l") ∧
      leakyManager.resolveSafePath linked (ascii "x/../k") = some (.ofNames [ascii "m", ascii "k"]) ∧
      linked.status (.ofNames [ascii "m", ascii "k"]) = .ok [ascii "m", ascii "a"] ∧
      ¬ leakyManager.Detour linked (ascii "x/../k") := by
  have haccept : leakyManager.resolveSafePath linked (ascii "x/../k") =
      some (.ofNames [ascii "m", ascii "k"]) := by decide
  have hread : linked.status (.ofNames [ascii "m", ascii "k"]) = .ok [ascii "m", ascii "a"] := by decide
  refine ⟨?_, haccept, hread, ?_⟩
  · refine
      (sandboxed_iff_not_detour (fun fs _ => (true, fs)) _ _ _ leaky _ (ascii "l") (init_leaky _)).1 ?_
    intro out loc c r h
    have hnone : leakyManager.resolveSafePath leaky (ascii "l") = none := by decide
    rw [hnone] at h
    cases h
  · refine (sandboxed_iff_not_detour (fun fs _ => (true, fs)) (.ofNames [ascii "m"]) linked linked linked _
      (ascii "x/../k") rfl).1 ?_
    intro out loc c r h hst _
    obtain rfl := Option.some.inj (haccept.symm.trans h)
    obtain rfl := Except.ok.inj (hread.symm.trans hst)
    decide

end FileManager
end Streamer

import Streamer.Proofs.Sandbox

/-!
# What `resolve_safe_path` accepts and refuses

Containment is decided on `lexically_relative`, by its text. Whatever is accepted lies below the
root component by component, on any behaviour of `weakly_canonical`
(`resolveSafePathInto_contained`). The converse fails by the text: a name that begins with two dots
looks like a step out of the root (`resolveSafePath_accepts_iff`).
-/

namespace Streamer
open Text Kernel Filesystem

namespace FileManager

variable {fm : FileManager} {fs : FileSystem} {root : Loc} {filename : Bytes} {outPath out : FsPath}
    {weaklyCanonical : FsPath → Except Errno FsPath}

theorem resolveSafePathInto_false (h : (fm.resolveSafePathInto weaklyCanonical filename outPath).1 = false) :
    (fm.resolveSafePathInto weaklyCanonical filename outPath).2 = outPath := by
  unfold resolveSafePathInto at h ⊢
  split
  · rfl
  split
  · rfl
  dsimp only at h ⊢
  split
  · rfl
  split
  · rfl
  split
  · rfl
  · simp_all

/-- Whatever `weakly_canonical` answers, as long as it answers with normalised absolute paths, what
is accepted lies below the root component by component, and a refusal leaves `out_path` alone. -/
theorem resolveSafePathInto_contained (fm : FileManager) (root : Loc) (filename : Bytes) (outPath : FsPath)
    (weaklyCanonical : FsPath → Except Errno FsPath) (hr : fm.canonicalRoot = .ofNames root)
    (hp : ∀ e ∈ root, Proper e)
    (hnormal : ∀ es out, weaklyCanonical ⟨true, es⟩ = .ok out →
      out.absolute = true ∧ out.lexicallyNormal = out) :
    (∀ out, fm.resolveSafePathInto weaklyCanonical filename outPath = (true, out) →
        out.absolute = true ∧ out.lexicallyNormal = out ∧ fm.canonicalRoot.elems <+: out.elems ∧
          dotdot ∉ out.elems) ∧
      ((fm.resolveSafePathInto weaklyCanonical filename outPath).1 = false →
        (fm.resolveSafePathInto weaklyCanonical filename outPath).2 = outPath) := by
  refine ⟨?_, resolveSafePathInto_false⟩
  intro out h
  obtain ⟨ha, hw, hempty, hdots, -⟩ := resolveSafePathInto_eq_true.1 h
  rw [fullCandidate_absolute hr ha] at hw
  obtain ⟨habs, hnorm⟩ := hnormal _ _ hw
  obtain ⟨absolute, elems⟩ := out
  subst habs
  refine ⟨rfl, hnorm, ?_, FsPath.dotdot_notMem_of_normal hnorm⟩
  exact FsPath.lexicallyRelative_contained (by rw [hr]; exact hp) hempty hdots

/-- On the file system of `leaky`, where `/m` is the root, `/mm` is no path below it. -/
theorem leaky_contained :
    leakyManager.resolveSafePathInto leaky.weaklyCanonical (ascii "x/../y") (.ofNames []) =
        (true, .ofNames [ascii "m", ascii "y"]) ∧
      leakyManager.canonicalRoot.elems <+: [ascii "m", ascii "y"] ∧
      leakyManager.resolveSafePathInto leaky.weaklyCanonical (ascii "../mm") (.ofNames []) =
        (false, .ofNames []) := by
  have h := resolveSafePathInto_contained leakyManager [ascii "m"] (ascii "x/../y") (.ofNames [])
    leaky.weaklyCanonical rfl (by decide) fun _ _ h => FileSystem.weaklyCanonical_normal h
  have haccept : leakyManager.resolveSafePathInto leaky.weaklyCanonical (ascii "x/../y") (.ofNames []) =
      (true, .ofNames [ascii "m", ascii "y"]) := by decide
  exact ⟨haccept, (h.1 _ haccept).2.2.1, by decide⟩

/-- A path inside the root is accepted exactly if the first name on the way down from the root does
not begin with `..`. -/
theorem resolveSafePath_accepts_iff (fm : FileManager) (fs : FileSystem) (root : Loc) (filename : Bytes)
    (canon outPath : FsPath) (hr : fm.canonicalRoot = .ofNames root) (hp : ∀ e ∈ root, Proper e)
    (ha : Admissible filename) (hc : fs.canonical (fm.fullCandidate filename) = .ok canon)
    (hin : fm.canonicalRoot.elems <+: canon.elems) :
    fm.resolveSafePathInto fs.weaklyCanonical filename outPath = (true, canon) ↔
      FsPath.NoDots (canon.elems.drop fm.canonicalRoot.elems.length) := by
  unfold FileSystem.canonical at hc
  cases hs : fs.status (fm.fullCandidate filename) with
  | error e =>
    rw [hs] at hc
    cases hc
  | ok loc =>
    rw [hs] at hc
    cases hc
    -- the path exists, so its weakly canonical form is the canonical one
    have hw : fs.weaklyCanonical (fm.fullCandidate filename) = .ok (.ofNames loc) := by
      simp [FileSystem.weaklyCanonical, hs]
    have hsome : fm.resolveSafePathInto fs.weaklyCanonical filename outPath = (true, .ofNames loc) ↔
        fm.resolveSafePath fs filename = some (.ofNames loc) := by
      rw [resolveSafePathInto_eq_true, resolveSafePath_eq_some]
    rw [hr] at hin ⊢
    obtain ⟨rest, rfl⟩ : ∃ rest, loc = root ++ rest := by
      obtain ⟨rest, hrest⟩ := hin
      exact ⟨rest, hrest.symm⟩
    rw [hsome, resolveSafePath_eq_some_ofNames hr hp (FileSystem.status_real hs).proper]
    simp [ha, hw, FsPath.ofNames]

/-- A media directory `/m` with the regular files `..a` and `b`. -/
def dottyTree : List (Loc × Node) :=
  [([], .dir [ascii "m"]), ([ascii "m"], .dir [ascii "..a", ascii "b"]),
   ([ascii "m", ascii "..a"], .file (ascii "x") true), ([ascii "m", ascii "b"], .file (ascii "y") true)]

def dotty : FileSystem := .ofNodes dottyTree 40 (by decide)

/-- `..a` is a file of the root and is refused as a step out of it. -/
theorem dotty_refused :
    Admissible (ascii "..a") ∧
      dotty.canonical (leakyManager.fullCandidate (ascii "..a")) = .ok (.ofNames [ascii "m", ascii "..a"]) ∧
      leakyManager.canonicalRoot.elems <+: [ascii "m", ascii "..a"] ∧
      leakyManager.resolveSafePathInto dotty.weaklyCanonical (ascii "..a") (.ofNames []) =
        (false, .ofNames []) :=
  ⟨⟨by decide, by decide, by decide⟩, by decide, by decide, by decide⟩

theorem dotty_accepted :
    leakyManager.resolveSafePathInto dotty.weaklyCanonical (ascii "b") (.ofNames []) =
      (true, .ofNames [ascii "m", ascii "b"]) := by
  refine (resolveSafePath_accepts_iff leakyManager dotty [ascii "m"] (ascii "b") _ _ rfl (by decide)
    ⟨by decide, by decide, by decide⟩ (by decide) (by decide)).2 ?_
  intro n hn
  cases hn
  decide

end FileManager
end Streamer

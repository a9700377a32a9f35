import Mathlib.Data.List.Sort
import Streamer.Lib.FileSystem
import Streamer.Types

/-!
# `FileManager` (`src/FileManager.cpp`)

The media directory: its canonical root, the sandbox check `resolve_safe_path`, the catalogue
`list_files`, and the size and the bytes of a requested file. The file system is a parameter of every
call, so a call can be asked about any state of it.
-/

namespace Streamer
open Text Kernel Filesystem

structure FileManager where
  rootDir : FsPath
  canonicalRoot : FsPath
deriving DecidableEq, Repr

/-- What `directory_iterator` and the queries on an entry give for one entry. -/
structure DirEntry where
  name : Bytes
  isRegularFile : Except Errno Bool
  fileSize : Except Errno UInt64

namespace FileManager

/-- `init`, and the file system after it: `createDirectories` is the library call that it may make. -/
def init (createDirectories : FileSystem → FsPath → Bool × FileSystem) (rootDir : FsPath)
    (fs : FileSystem) :
    Option (FileManager × FileSystem) :=
  let (exists_, fs) := if fs.exist rootDir then (true, fs) else createDirectories fs rootDir
  if !exists_ then none
  else match fs.canonical rootDir with
    | .error _ => none
    | .ok canonicalRoot => some (⟨rootDir, canonicalRoot⟩, fs)

/-- `resolve_safe_path`: its result, and `out_path` after the call. -/
def resolveSafePathInto (fm : FileManager) (weaklyCanonical : FsPath → Except Errno FsPath)
    (filename : Bytes) (outPath : FsPath) : Bool × FsPath :=
  if filename.isEmpty then (false, outPath)
  else if filename.contains 0 then (false, outPath)
  else
    let candidate := FsPath.ofText filename
    if candidate.absolute then (false, outPath)
    else
      let fullCandidate := fm.canonicalRoot.append candidate
      match weaklyCanonical fullCandidate with
      | .error _ => (false, outPath)
      | .ok weaklyCanon =>
        let rel := weaklyCanon.lexicallyRelative fm.canonicalRoot
        if rel.empty || dotdot.isPrefixOf rel.text || rel.absolute then (false, outPath)
        else (true, weaklyCanon)

/-- `resolve_safe_path` as its callers use it, with a fresh `safe_path`; `none` is the result `false`. -/
def resolveSafePath (fm : FileManager) (fs : FileSystem) (filename : Bytes) : Option FsPath :=
  match fm.resolveSafePathInto fs.weaklyCanonical filename ⟨false, []⟩ with
  | (true, safePath) => some safePath
  | (false, _) => none

def isHidden (name : Bytes) : Bool := name.head? == some 46

/-- The loop of `list_files`. `ec` is the one error code that all queries share; `.error` in the list
is an increment of the iterator that throws. -/
def listFilesLoop : Option Errno → List MediaFileInfo → List (Except Exn DirEntry) →
    Except Exn (List MediaFileInfo)
  | _, files, [] => .ok files
  | _, _, .error x :: _ => .error x
  | ec, files, .ok entry :: rest =>
    if ec.isSome then .ok files
    else match entry.isRegularFile with
      | .error e => listFilesLoop (some e) files rest
      | .ok false => listFilesLoop none files rest
      | .ok true =>
        if isHidden entry.name then listFilesLoop none files rest
        else match entry.fileSize with
          | .error e => listFilesLoop (some e) files rest
          | .ok size => listFilesLoop none (files ++ [⟨entry.name, size⟩]) rest

/-- `directory_iterator(canonical_root_)` on an unchanging file system. -/
def directoryIterator (fm : FileManager) (fs : FileSystem) : List DirEntry :=
  match fs.status fm.canonicalRoot with
  | .error _ => []
  | .ok root =>
    match fs.node root with
    | .ok (.dir entries) => entries.map fun n =>
        let path := fm.canonicalRoot.append ⟨false, [n]⟩
        ⟨n, fs.isRegularFile path, (fs.fileSize path).map Nat.toUInt64⟩
    | _ => []

def byFilename (a b : MediaFileInfo) : Prop := less b.filename a.filename = false

instance : DecidableRel byFilename := fun _ _ => inferInstanceAs (Decidable (_ = _))

/-- The constructor of the iterator, which reads the first entry: where that fails, the error goes to
`ec` and the iterator is at its end. -/
def begun : List (Except Exn DirEntry) → List (Except Exn DirEntry)
  | .error _ :: _ => []
  | iter => iter

def listFilesFrom (fm : FileManager) (fs : FileSystem) (iter : List (Except Exn DirEntry)) :
    Except Exn (List MediaFileInfo) :=
  if !fs.exist fm.canonicalRoot || !fs.isDirectory fm.canonicalRoot then .ok []
  else match listFilesLoop none [] (begun iter) with
    | .error x => .error x
    | .ok files => .ok (files.insertionSort byFilename)

def listFiles (fm : FileManager) (fs : FileSystem) : Except Exn (List MediaFileInfo) :=
  fm.listFilesFrom fs ((fm.directoryIterator fs).map .ok)

def getFileSize (fm : FileManager) (fs : FileSystem) (filename : Bytes) : Option UInt64 :=
  match fm.resolveSafePath fs filename with
  | none => none
  | some safePath =>
    match fs.isRegularFile safePath with
    | .ok true =>
      match fs.fileSize safePath with
      | .ok sz => some sz.toUInt64
      | .error _ => none
    | _ => none

/-- `open_binary_file`: the bytes that the opened stream will deliver. A directory opens, but no byte
can be read from it; what is no file and no directory delivers what it has. -/
def openBinaryFile (fm : FileManager) (fs : FileSystem) (filename : Bytes) : Option Bytes :=
  match fm.resolveSafePath fs filename with
  | none => none
  | some safePath =>
    match fs.status safePath with
    | .error _ => none
    | .ok loc =>
      match fs.node loc with
      | .ok (.file content readable) => if readable then some content else none
      | .ok (.dir _) => some []
      | .ok (.other delivers) => delivers
      | _ => none

/-! ### What a request designates -/

/-- The regular file that `filename` designates: its bytes and whether it may be read. -/
def designated (fm : FileManager) (fs : FileSystem) (filename : Bytes) : Option (Bytes × Bool) :=
  (fm.resolveSafePath fs filename).bind fs.regularFile

section
variable {fm : FileManager} {fs : FileSystem} {filename : Bytes} {content : Bytes} {readable : Bool}

theorem getFileSize_eq_none (h : fm.designated fs filename = none) :
    fm.getFileSize fs filename = none := by
  unfold getFileSize
  unfold designated at h
  cases hp : fm.resolveSafePath fs filename with
  | none => rfl
  | some p =>
    simp only [hp, Option.bind_some] at h
    simp only [FileSystem.isRegularFile, h, Option.isSome_none]
    cases fs.status p <;> rfl

theorem designated_eq_some (h : fm.designated fs filename = some (content, readable)) :
    ∃ p loc, fm.resolveSafePath fs filename = some p ∧ fs.status p = .ok loc ∧
      fs.node loc = .ok (.file content readable) := by
  obtain ⟨p, hp, hf⟩ := Option.bind_eq_some_iff.1 h
  unfold FileSystem.regularFile at hf
  split at hf
  · rename_i loc hs
    split at hf
    · rename_i c r hn
      cases hf
      exact ⟨p, loc, hp, hs, hn⟩
    · cases hf
  · cases hf

theorem getFileSize_eq_some (h : fm.designated fs filename = some (content, readable)) :
    ∃ size, fm.getFileSize fs filename = some size ∧ size.toNat = content.length := by
  obtain ⟨p, loc, hp, hs, hn⟩ := designated_eq_some h
  have hlt := fs.size_lt loc content readable hn
  refine ⟨content.length.toUInt64, ?_, ?_⟩
  · simp [getFileSize, hp, FileSystem.isRegularFile, FileSystem.regularFile, FileSystem.fileSize, hs, hn]
  · simp only [Nat.toUInt64, UInt64.toNat_ofNat']
    omega

theorem openBinaryFile_eq (h : fm.designated fs filename = some (content, readable)) :
    fm.openBinaryFile fs filename = if readable then some content else none := by
  obtain ⟨p, loc, hp, hs, hn⟩ := designated_eq_some h
  simp [openBinaryFile, hp, hs, hn]

@[simp] theorem begun_ok (entries : List DirEntry) : begun (entries.map .ok) = entries.map .ok := by
  cases entries <;> rfl

theorem listFilesLoop_ok (ec : Option Errno) (files : List MediaFileInfo) (entries : List DirEntry) :
    ∃ files', listFilesLoop ec files (entries.map .ok) = .ok files' := by
  induction entries generalizing ec files with
  | nil => exact ⟨files, rfl⟩
  | cons entry entries ih =>
    simp only [List.map_cons, listFilesLoop]
    split
    · exact ⟨files, rfl⟩
    split
    · exact ih _ _
    · exact ih _ _
    split
    · exact ih _ _
    split
    · exact ih _ _
    · exact ih _ _

theorem listFiles_ok (fm : FileManager) (fs : FileSystem) : ∃ files, fm.listFiles fs = .ok files := by
  unfold listFiles listFilesFrom
  split
  · exact ⟨[], rfl⟩
  · obtain ⟨files, h⟩ := listFilesLoop_ok none [] (fm.directoryIterator fs)
    exact ⟨_, by rw [begun_ok, h]⟩

/-- A query on the entry sets the error code. -/
def queryFails (entry : DirEntry) : Bool :=
  match entry.isRegularFile with
  | .error _ => true
  | .ok false => false
  | .ok true => !isHidden entry.name && entry.fileSize.toOption.isNone

/-! ### What the catalogue holds -/

theorem listFilesLoop_mem {ec : Option Errno} {files files' : List MediaFileInfo}
    {entries : List DirEntry} (h : listFilesLoop ec files (entries.map .ok) = .ok files') :
    files'.length ≤ files.length + entries.length ∧
      ∀ f ∈ files', f ∈ files ∨ ∃ entry ∈ entries, entry.isRegularFile = .ok true ∧
        isHidden entry.name = false ∧
        f.filename = entry.name ∧ entry.fileSize = .ok f.sizeBytes := by
  induction entries generalizing ec files with
  | nil => cases h; exact ⟨Nat.le_refl _, fun f hf => .inl hf⟩
  | cons entry entries ih =>
    have hskip {ec} (h : listFilesLoop ec files (entries.map .ok) = .ok files') :
        files'.length ≤ files.length + (entry :: entries).length ∧
          ∀ f ∈ files', f ∈ files ∨ ∃ entry' ∈ entry :: entries, entry'.isRegularFile = .ok true ∧
            isHidden entry'.name = false ∧ f.filename = entry'.name ∧
              entry'.fileSize = .ok f.sizeBytes := by
      obtain ⟨hlen, hmem⟩ := ih h
      refine ⟨by simp; omega, fun f hf => (hmem f hf).imp_right ?_⟩
      rintro ⟨entry', he, hrest⟩
      exact ⟨entry', by simp [he], hrest⟩
    simp only [List.map_cons, listFilesLoop] at h
    split at h
    · cases h; exact ⟨by simp, fun f hf => .inl hf⟩
    split at h
    · exact hskip h
    · exact hskip h
    rename_i hreg
    split at h
    · exact hskip h
    rename_i hhid
    split at h
    · exact hskip h
    rename_i size hsize
    obtain ⟨hlen, hmem⟩ := ih h
    refine ⟨by simp at hlen ⊢; omega, ?_⟩
    intro f hf
    rcases hmem f hf with hf | ⟨entry', he, hrest⟩
    · rcases List.mem_append.1 hf with hf | hf
      · exact .inl hf
      · obtain rfl := List.mem_singleton.1 hf
        exact .inr ⟨entry, by simp, hreg, by simpa using hhid, rfl, hsize⟩
    · exact .inr ⟨entry', by simp [he], hrest⟩

/-- An entry of the catalogue, seen in the file system. -/
structure Listed (fm : FileManager) (fs : FileSystem) (f : MediaFileInfo) : Prop where
  visible : isHidden f.filename = false
  valid : ValidName f.filename
  found : ∃ content readable, fs.regularFile (fm.canonicalRoot.append ⟨false, [f.filename]⟩) =
    some (content, readable) ∧
    f.sizeBytes.toNat = content.length

theorem listFiles_listed {files : List MediaFileInfo} (h : fm.listFiles fs = .ok files) :
    files.length < 2 ^ 64 ∧ ∀ f ∈ files, Listed fm fs f := by
  unfold listFiles listFilesFrom at h
  split at h
  · cases h; simp
  split at h
  · cases h
  rename_i files' hloop
  cases h
  rw [begun_ok] at hloop
  obtain ⟨hlen, hmem⟩ := listFilesLoop_mem hloop
  have hperm := List.perm_insertionSort byFilename files'
  -- the entries are those of the directory at the root
  have hdir : (fm.directoryIterator fs).length < 2 ^ 64 ∧ ∀ entry ∈ fm.directoryIterator fs,
      ValidName entry.name ∧
        entry.isRegularFile = fs.isRegularFile (fm.canonicalRoot.append ⟨false, [entry.name]⟩) ∧
        entry.fileSize = (fs.fileSize (fm.canonicalRoot.append ⟨false, [entry.name]⟩)).map
          Nat.toUInt64 := by
    unfold directoryIterator
    split
    · simp
    split
    · rename_i root _ es hes
      refine ⟨by simpa using fs.entries_lt _ _ hes, ?_⟩
      intro entry he
      obtain ⟨n, hn, rfl⟩ := List.mem_map.1 he
      exact ⟨fs.entries_valid _ _ hes n hn, rfl, rfl⟩
    · simp
  refine ⟨by rw [hperm.length_eq]; simp at hlen; omega, ?_⟩
  intro f hf
  obtain ⟨entry, he, hreg, hhid, hname, hsize⟩ := (hmem f (hperm.mem_iff.1 hf)).resolve_left (by simp)
  obtain ⟨hvalid, hreg', hsize'⟩ := hdir.2 entry he
  refine ⟨by rw [hname]; exact hhid, by rw [hname]; exact hvalid, ?_⟩
  rw [hreg, hname.symm] at hreg'
  rw [hsize, hname.symm] at hsize'
  obtain ⟨c, r, hfile, hfs, hlt⟩ := FileSystem.isRegularFile_eq_true hreg'.symm
  refine ⟨c, r, hfile, ?_⟩
  rw [hfs] at hsize'
  rw [show f.sizeBytes = c.length.toUInt64 from Except.ok.inj hsize']
  simp only [Nat.toUInt64, UInt64.toNat_ofNat']
  omega

end

end FileManager
end Streamer

import Streamer.Lib.Kernel
import Streamer.Lib.Path

/-!
# A file system with symbolic links, and the `std::filesystem` queries on it

A location is the list of names that leads to a node from the root directory. `FileSystem.node` says
what is there, or with which error the look-up fails: `ENOENT` where there is nothing, another error
where the look-up itself is refused (no permission, name too long, I/O error). The tree is
arbitrary; links may dangle, loop and point anywhere.

`status` walks a path as the kernel does (`..` is the real parent, a link is followed, at most
`maxLinks` of them). The walk is split in two structural recursions: `advance` goes on to the first
link, `follow` counts the links. `Real` locations are reached without a link; every walk ends in one
(`follow_real`) and walking to one changes nothing (`status_ofNames`), so the location a walk ends in
is the canonical path.
-/

namespace Filesystem
open Text Kernel

abbrev Loc := List Bytes

inductive Node where
  | file (content : Bytes) (readable : Bool)
  /-- A directory with its entries in the order in which `directory_iterator` yields them. -/
  | dir (entries : List Bytes)
  | link (target : Bytes)
  /-- A device, a FIFO, a socket: what a stream on it delivers, `none` if it does not open. -/
  | other (delivers : Option Bytes)
deriving DecidableEq, Repr

/-- What a directory entry can be called. -/
def ValidName (n : Bytes) : Prop := Proper n ∧ slash ∉ n ∧ 0 ∉ n ∧ n.length ≤ 255

instance (n : Bytes) : Decidable (ValidName n) := inferInstanceAs (Decidable (_ ∧ _))

theorem ValidName.ofText {n : Bytes} (h : ValidName n) : FsPath.ofText n = ⟨false, [n]⟩ := by
  have hne : ∀ b ∈ n, (b == slash) = false := fun b hb => beq_eq_false_iff_ne.2 fun e => h.2.1 (e ▸ hb)
  have hsplit : n.splitOn slash = [n] := List.splitOnP_eq_singleton hne
  have hhead : (n.head? == some slash) = false :=
    beq_eq_false_iff_ne.2 fun e => h.2.1 (List.mem_of_mem_head? e)
  simp [FsPath.ofText, hsplit, hhead, h.1.1]

/-- `loc` is reached through directories only and is no link itself. -/
def Reached (node : Loc → Except Errno Node) (loc : Loc) : Prop :=
  ∀ p n, p ++ [n] <+: loc →
    Proper n ∧ (∃ es, node p = .ok (.dir es)) ∧ ∃ x, node (p ++ [n]) = .ok x ∧ ∀ t, x ≠ .link t

structure FileSystem where
  node : Loc → Except Errno Node
  cwd : Loc
  maxLinks : Nat
  root_dir : ∃ es, node [] = .ok (.dir es)
  cwd_reached : Reached node cwd
  entries_nodup : ∀ p es, node p = .ok (.dir es) → es.Nodup
  entries_lt : ∀ p es, node p = .ok (.dir es) → es.length < 2 ^ 64
  entries_valid : ∀ p es, node p = .ok (.dir es) → ∀ n ∈ es, ValidName n
  mem_entries : ∀ p es n x, node p = .ok (.dir es) → node (p ++ [n]) = .ok x → n ∈ es
  found_of_mem : ∀ p es n, node p = .ok (.dir es) → n ∈ es → node (p ++ [n]) ≠ .error .ENOENT
  /-- A length fits the signed 64-bit `off_t`. -/
  size_lt : ∀ p c r, node p = .ok (.file c r) → c.length < 2 ^ 63

namespace FileSystem

variable (fs : FileSystem)

def isDir (p : Loc) : Bool :=
  match fs.node p with
  | .ok (.dir _) => true
  | _ => false

/-- Where a walk stands when it has come to its end, to a link or to an error. -/
inductive Progress where
  | found (loc : Loc)
  | jump (start : Loc) (todo : List Bytes)
  | fail (e : Errno)

def advance : Loc → List Bytes → Progress
  | cur, [] => .found cur
  | cur, e :: es =>
    if !fs.isDir cur then .fail .ENOTDIR
    else if e = [] ∨ e = dot then advance cur es
    else if e = dotdot then advance cur.dropLast es
    else match fs.node (cur ++ [e]) with
      | .error err => .fail err
      | .ok (.link target) =>
        .jump (if (FsPath.ofText target).absolute then [] else cur) ((FsPath.ofText target).elems ++ es)
      | .ok _ => advance (cur ++ [e]) es

def follow : Nat → Loc → List Bytes → Except Errno Loc
  | 0, cur, es =>
    match fs.advance cur es with
    | .found loc => .ok loc
    | .fail e => .error e
    | .jump _ _ => .error .ELOOP
  | n + 1, cur, es =>
    match fs.advance cur es with
    | .found loc => .ok loc
    | .fail e => .error e
    | .jump start todo => follow n start todo

/-- `status(p)`: the location of what `p` names, links followed. -/
def status (p : FsPath) : Except Errno Loc :=
  if p.empty then .error .ENOENT
  else fs.follow fs.maxLinks (if p.absolute then [] else fs.cwd) p.elems

/-- The errors that `status` turns into `file_type::not_found`. -/
def notFound (e : Errno) : Bool := e = .ENOENT || e = .ENOTDIR

def exist (p : FsPath) : Bool := (fs.status p).toBool

def isDirectory (p : FsPath) : Bool :=
  match fs.status p with
  | .ok loc => fs.isDir loc
  | .error _ => false

/-- The file at `p`, links followed: its bytes and whether it may be read. -/
def regularFile (p : FsPath) : Option (Bytes × Bool) :=
  match fs.status p with
  | .ok loc =>
    match fs.node loc with
    | .ok (.file c r) => some (c, r)
    | _ => none
  | .error _ => none

def isRegularFile (p : FsPath) : Except Errno Bool :=
  match fs.status p with
  | .ok _ => .ok (fs.regularFile p).isSome
  | .error e => .error e

def fileSize (p : FsPath) : Except Errno Nat :=
  match fs.status p with
  | .ok loc =>
    match fs.node loc with
    | .ok (.file c _) => .ok c.length
    | .ok (.dir _) => .error .EISDIR
    | _ => .error .EINVAL
  | .error e => .error e

def canonical (p : FsPath) : Except Errno FsPath := (fs.status p).map FsPath.ofNames

/-- The longest leading part of `front ++ es`, at least `front`, that exists, and the rest. -/
def leading (absolute : Bool) (front : List Bytes) : List Bytes → Except Errno (List Bytes × List Bytes)
  | [] => .ok (front, [])
  | e :: es =>
    match fs.status ⟨absolute, front ++ [e]⟩ with
    | .ok _ => leading absolute (front ++ [e]) es
    | .error err => if notFound err then .ok (front, e :: es) else .error err

/-- `weakly_canonical(p, ec)`: `canonical(p)` when `p` exists, and otherwise the canonical form of
the leading elements that exist with the others appended and normalised as text. -/
def weaklyCanonical (p : FsPath) : Except Errno FsPath :=
  match fs.status p with
  | .ok loc => .ok (.ofNames loc)
  | .error err =>
    if !notFound err then .error err
    else match fs.leading p.absolute [] p.elems with
      | .error e => .error e
      | .ok (front, rest) =>
        if (FsPath.mk p.absolute front).empty then .ok (FsPath.mk false rest).lexicallyNormal
        else match fs.status ⟨p.absolute, front⟩ with
          | .error e => .error e
          | .ok head => .ok (FsPath.mk true (head ++ rest)).lexicallyNormal

/-! ### Real locations -/

def Real (loc : Loc) : Prop := Reached fs.node loc

variable {fs} {cur loc start : Loc} {es todo : List Bytes} {n : Nat}

theorem isDir_iff {p : Loc} : fs.isDir p = true ↔ ∃ es, fs.node p = .ok (.dir es) := by
  unfold isDir
  split
  · rename_i es h; exact ⟨fun _ => ⟨es, h⟩, fun _ => rfl⟩
  · rename_i h; exact ⟨nofun, fun ⟨es, he⟩ => absurd he (h es)⟩

theorem real_nil : fs.Real [] := fun p n h => by
  have := h.length_le
  simp at this

theorem Real.of_prefix {loc' : Loc} (h : fs.Real loc) (hp : loc' <+: loc) : fs.Real loc' :=
  fun p n hpn => h p n (hpn.trans hp)

theorem Real.snoc {e : Bytes} {x : Node} (h : fs.Real cur) (he : Proper e) (hd : fs.isDir cur = true)
    (hx : fs.node (cur ++ [e]) = .ok x) (hl : ∀ t, x ≠ .link t) : fs.Real (cur ++ [e]) := by
  intro p n hpn
  rcases List.prefix_concat_iff.1 hpn with heq | hpre
  · obtain ⟨rfl, rfl⟩ := List.append_inj' heq rfl |>.imp_right (List.singleton_inj.1 ·)
    exact ⟨he, isDir_iff.1 hd, x, hx, hl⟩
  · exact h p n hpre

theorem Real.proper (h : fs.Real loc) : ∀ e ∈ loc, Proper e := by
  intro e he
  obtain ⟨l, r, rfl⟩ := List.append_of_mem he
  exact (h l e ⟨r, by simp⟩).1

theorem advance_cases (h : fs.Real cur) (es : List Bytes) :
    (∃ loc, fs.advance cur es = .found loc ∧ fs.Real loc) ∨
    (∃ start todo, fs.advance cur es = .jump start todo ∧ fs.Real start) ∨
      ∃ e, fs.advance cur es = .fail e := by
  induction es generalizing cur with
  | nil => exact .inl ⟨cur, rfl, h⟩
  | cons e es ih =>
    unfold advance
    split
    · exact .inr (.inr ⟨_, rfl⟩)
    rename_i hdir
    split
    · exact ih h
    rename_i h1
    split
    · exact ih (h.of_prefix (List.dropLast_prefix cur))
    rename_i h2
    split
    · exact .inr (.inr ⟨_, rfl⟩)
    · refine .inr (.inl ⟨_, _, rfl, ?_⟩)
      split
      · exact real_nil
      · exact h
    · rename_i x hl hx
      exact ih (h.snoc ⟨fun e => h1 (.inl e), fun e => h1 (.inr e), h2⟩ (by simpa using hdir) hx hl)

theorem follow_real (h : fs.Real cur) (hf : fs.follow n cur es = .ok loc) : fs.Real loc := by
  induction n generalizing cur es with
  | zero =>
    rcases advance_cases h es with ⟨l, ha, hl⟩ | ⟨s, t, ha, -⟩ | ⟨e, ha⟩ <;>
      simp only [follow, ha, Except.ok.injEq, reduceCtorEq] at hf
    exact hf ▸ hl
  | succ n ih =>
    rcases advance_cases h es with ⟨l, ha, hl⟩ | ⟨s, t, ha, hs⟩ | ⟨e, ha⟩ <;>
      simp only [follow, ha, Except.ok.injEq, reduceCtorEq] at hf
    · exact hf ▸ hl
    · exact ih hs hf

theorem status_real {p : FsPath} (h : fs.status p = .ok loc) : fs.Real loc := by
  unfold status at h
  split at h
  · cases h
  · refine follow_real ?_ h
    split
    · exact real_nil
    · exact fs.cwd_reached

theorem advance_real (h : fs.Real (cur ++ es)) : fs.advance cur es = .found (cur ++ es) := by
  induction es generalizing cur with
  | nil => simp [advance]
  | cons e es ih =>
    obtain ⟨⟨h1, h2, h3⟩, hd, x, hx, hl⟩ := h cur e ⟨es, by simp⟩
    unfold advance
    simp only [isDir_iff.2 hd, Bool.not_true, Bool.false_eq_true, h1, h2, h3, or_self, if_false, hx]
    rw [ih (by simpa using h)]
    simp

theorem status_ofNames (h : fs.Real loc) : fs.status (.ofNames loc) = .ok loc := by
  have h0 : (FsPath.ofNames loc).empty = false := rfl
  have ha : fs.advance [] loc = .found loc := advance_real h
  simp only [status, h0, Bool.false_eq_true, if_false]
  cases fs.maxLinks <;> simp [follow, FsPath.ofNames, ha]

/-- A path that ends in a slash names no regular file. -/
theorem advance_snoc_nil (ha : fs.advance cur (es ++ [[]]) = .found loc) : fs.isDir loc = true := by
  induction es generalizing cur with
  | nil =>
    simp only [List.nil_append, advance, true_or, if_true] at ha
    split at ha
    · cases ha
    · cases ha; rename_i h; simpa using h
  | cons e es ih =>
    simp only [List.cons_append, advance] at ha
    split at ha
    · cases ha
    split at ha
    · exact ih ha
    split at ha
    · exact ih ha
    split at ha
    · cases ha
    · cases ha
    · exact ih ha

theorem advance_snoc_nil_jump (ha : fs.advance cur (es ++ [[]]) = .jump start todo) :
    ∃ es', todo = es' ++ [[]] := by
  induction es generalizing cur with
  | nil =>
    simp only [List.nil_append, advance, true_or, if_true] at ha
    split at ha <;> cases ha
  | cons e es ih =>
    simp only [List.cons_append, advance] at ha
    split at ha
    · cases ha
    split at ha
    · exact ih ha
    split at ha
    · exact ih ha
    split at ha
    · cases ha
    · cases ha; exact ⟨_, (List.append_assoc ..).symm⟩
    · exact ih ha

theorem follow_snoc_nil (hf : fs.follow n cur (es ++ [[]]) = .ok loc) : fs.isDir loc = true := by
  induction n generalizing cur es with
  | zero =>
    unfold follow at hf
    split at hf
    · cases hf; exact advance_snoc_nil ‹_›
    · cases hf
    · cases hf
  | succ n ih =>
    unfold follow at hf
    split at hf
    · cases hf; exact advance_snoc_nil ‹_›
    · cases hf
    · rename_i ha
      obtain ⟨es', rfl⟩ := advance_snoc_nil_jump ha
      exact ih hf

theorem regularFile_snoc_nil (abs : Bool) (es : List Bytes) :
    fs.regularFile ⟨abs, es ++ [[]]⟩ = none := by
  unfold regularFile
  cases hs : fs.status ⟨abs, es ++ [[]]⟩ with
  | error e => rfl
  | ok loc =>
    have h0 : (FsPath.mk abs (es ++ [[]])).empty = false := by simp [FsPath.empty]
    simp only [status, h0, Bool.false_eq_true, if_false] at hs
    have := follow_snoc_nil hs
    unfold isDir at this
    split at this
    · rename_i h; simp [h]
    · cases this

theorem isRegularFile_eq_true {p : FsPath} (h : fs.isRegularFile p = .ok true) :
    ∃ c r, fs.regularFile p = some (c, r) ∧ fs.fileSize p = .ok c.length ∧ c.length < 2 ^ 63 := by
  unfold isRegularFile regularFile at h
  cases hs : fs.status p with
  | error e => rw [hs] at h; cases h
  | ok loc =>
    cases hn : fs.node loc with
    | error e => simp [hs, hn] at h
    | ok x =>
      cases x with
      | file c r =>
          exact ⟨c, r, by simp [regularFile, hs, hn], by simp [fileSize, hs, hn], fs.size_lt _ _ _ hn⟩
      | _ => simp [hs, hn] at h

/-! ### Leading parts of a path -/

theorem advance_append (cur : Loc) (es es' : List Bytes) :
    fs.advance cur (es ++ es') =
      match fs.advance cur es with
      | .found loc => fs.advance loc es'
      | .jump start todo => .jump start (todo ++ es')
      | .fail e => .fail e := by
  induction es generalizing cur with
  | nil => rfl
  | cons e es ih =>
    simp only [List.cons_append, advance]
    split
    · rfl
    split
    · exact ih _
    split
    · exact ih _
    split
    · rfl
    · simp
    · exact ih _

/-- When a leading part of a path fails, the whole path fails with the same error. -/
theorem follow_append_error {e : Errno} (h : fs.follow n cur es = .error e) (es' : List Bytes) :
    fs.follow n cur (es ++ es') = .error e := by
  induction n generalizing cur es with
  | zero =>
    simp only [follow] at h ⊢
    rw [advance_append]
    split at h
    · cases h
    · rename_i ha; simpa [ha] using h
    · rename_i ha; simpa [ha] using h
  | succ n ih =>
    simp only [follow] at h ⊢
    rw [advance_append]
    split at h
    · cases h
    · rename_i ha; simpa [ha] using h
    · rename_i ha; simpa [ha] using ih h

theorem status_append_error {e : Errno} (h : fs.status ⟨true, es⟩ = .error e) (es' : List Bytes) :
    fs.status ⟨true, es ++ es'⟩ = .error e := by
  simp only [status, FsPath.empty, Bool.not_true, Bool.false_and, Bool.false_eq_true, if_false] at h ⊢
  exact follow_append_error h es'

theorem status_root : fs.status ⟨true, []⟩ = .ok [] := status_ofNames real_nil

/-- `front` is the longest part of `front ++ e :: rest` that exists. -/
def Splits (fs : FileSystem) (front : List Bytes) (e : Bytes) (head : Loc) : Prop :=
  fs.status ⟨true, front⟩ = .ok head ∧ ∃ err, fs.status ⟨true, front ++ [e]⟩ = .error err ∧
    notFound err = true

theorem leading_cases {front rest : List Bytes} (hf : ∃ head, fs.status ⟨true, cur⟩ = .ok head)
    (h : fs.leading true cur es = .ok (front, rest)) :
    (rest = [] ∧ ∃ head, fs.status ⟨true, cur ++ es⟩ = .ok head) ∨
      ∃ e rest' head, rest = e :: rest' ∧ cur ++ es = front ++ rest ∧ fs.Splits front e head := by
  induction es generalizing cur with
  | nil => cases h; exact .inl ⟨rfl, by simpa using hf⟩
  | cons e es ih =>
    simp only [leading] at h
    split at h
    · rename_i head hs
      simpa using ih ⟨head, hs⟩ h
    · rename_i err hs
      split at h
      · cases h
        obtain ⟨head, hh⟩ := hf
        exact .inr ⟨e, es, head, rfl, rfl, hh, err, hs, ‹_›⟩
      · cases h

theorem leading_of_splits {front : List Bytes} {e : Bytes} {head : Loc} (h : fs.Splits front e head)
    (rest : List Bytes) :
    ∀ pre, cur ++ pre = front → fs.leading true cur (pre ++ e :: rest) = .ok (front, e :: rest) := by
  intro pre
  obtain ⟨hs, err, he, hn⟩ := h
  induction pre generalizing cur with
  | nil =>
    rintro rfl
    simp only [List.append_nil] at he
    simp [leading, he, hn]
  | cons a pre ih =>
    rintro rfl
    have hok : ∃ l, fs.status ⟨true, cur ++ [a]⟩ = .ok l := by
      cases hc : fs.status ⟨true, cur ++ [a]⟩ with
      | ok l => exact ⟨l, rfl⟩
      | error e' =>
        have := status_append_error hc pre
        rw [List.append_assoc, List.singleton_append, hs] at this
        cases this
    obtain ⟨l, hl⟩ := hok
    simp only [List.cons_append, leading, hl]
    exact ih (by simp)

theorem weaklyCanonical_cases {out : FsPath} (h : fs.weaklyCanonical ⟨true, es⟩ = .ok out) :
    (∃ loc, fs.status ⟨true, es⟩ = .ok loc ∧ out = .ofNames loc) ∨
      ∃ front e rest head, es = front ++ e :: rest ∧ fs.Splits front e head ∧
        out = (FsPath.mk true (head ++ e :: rest)).lexicallyNormal := by
  simp only [weaklyCanonical] at h
  split at h
  · rename_i loc hs
    cases h
    exact .inl ⟨loc, hs, rfl⟩
  rename_i err hs
  split at h
  · cases h
  split at h
  · cases h
  rename_i front rest hl
  rcases leading_cases ⟨_, status_root⟩ hl with ⟨-, head, hh⟩ | ⟨e, rest', head, rfl, hes, hsp⟩
  · rw [List.nil_append, hs] at hh
    cases hh
  · rw [if_neg (by simp [FsPath.empty]), hsp.1] at h
    cases h
    exact .inr ⟨front, e, rest', head, hes, hsp, rfl⟩

theorem weaklyCanonical_normal {out : FsPath} (h : fs.weaklyCanonical ⟨true, es⟩ = .ok out) :
    out.absolute = true ∧ out.lexicallyNormal = out := by
  rcases weaklyCanonical_cases h with ⟨loc, hs, rfl⟩ | ⟨front, e, rest, head, -, -, rfl⟩
  · exact ⟨rfl, FsPath.lexicallyNormal_of_proper (status_real hs).proper⟩
  · refine ⟨?_, FsPath.lexicallyNormal_idem _⟩
    rw [FsPath.lexicallyNormal_eq_collapse]

theorem weaklyCanonical_of_splits {front : List Bytes} {e : Bytes} {head : Loc}
    (h : fs.Splits front e head) (rest : List Bytes) :
    fs.weaklyCanonical ⟨true, front ++ e :: rest⟩ = .ok
      (FsPath.mk true (head ++ e :: rest)).lexicallyNormal := by
  obtain ⟨err, he, hn⟩ := h.2
  have hs : fs.status ⟨true, front ++ e :: rest⟩ = .error err := by
    simpa using status_append_error he rest
  have hl := leading_of_splits h rest front (List.nil_append front)
  simp [weaklyCanonical, hs, hn, hl, FsPath.empty, h.1]

/-! ### File systems given by their nodes -/

/-- The list describes a tree: the root is a directory, the entries of a directory are listed with
it, and what is listed is an entry of the directory above it. -/
def isTree (nodes : List (Loc × Node)) : Bool :=
  (match nodes.lookup [] with | some (.dir _) => true | _ => false) &&
  nodes.all fun (p, x) =>
    (match nodes.lookup p.dropLast with
      | some (.dir es) => p.getLast?.all es.contains
      | _ => true) &&
    match x with
    | .dir es => decide es.Nodup && decide (es.length < 2 ^ 64) &&
        es.all fun n => decide (ValidName n) && (nodes.lookup (p ++ [n])).isSome
    | .file c _ => decide (c.length < 2 ^ 63)
    | _ => true

def nodeOf (nodes : List (Loc × Node)) (p : Loc) : Except Errno Node :=
  match nodes.lookup p with
  | some x => .ok x
  | none => .error .ENOENT

variable {nodes : List (Loc × Node)} {p : Loc} {x : Node}

theorem nodeOf_eq_ok : nodeOf nodes p = .ok x ↔ nodes.lookup p = some x := by
  unfold nodeOf
  cases nodes.lookup p <;> simp

theorem mem_of_nodeOf (h : nodeOf nodes p = .ok x) : (p, x) ∈ nodes := by
  obtain ⟨l, r, rfl, -⟩ := List.lookup_eq_some_iff.1 (nodeOf_eq_ok.1 h)
  simp

theorem isTree_dir {entries : List Bytes} (ht : isTree nodes = true)
    (h : nodeOf nodes p = .ok (.dir entries)) :
    entries.Nodup ∧ entries.length < 2 ^ 64 ∧
      ∀ n ∈ entries, ValidName n ∧ (nodes.lookup (p ++ [n])).isSome = true := by
  simp only [isTree, Bool.and_eq_true, List.all_eq_true] at ht
  have := (ht.2 _ (mem_of_nodeOf h)).2
  simpa [List.all_eq_true, and_assoc] using this

def ofNodes (nodes : List (Loc × Node)) (maxLinks : Nat) (ht : isTree nodes = true) : FileSystem where
  node := nodeOf nodes
  cwd := []
  maxLinks := maxLinks
  root_dir := by
    simp only [isTree, Bool.and_eq_true] at ht
    have := ht.1
    split at this
    · rename_i es h; exact ⟨es, nodeOf_eq_ok.2 h⟩
    · cases this
  cwd_reached := fun p n h => by
    have := h.length_le
    simp at this
  entries_nodup := fun _ _ h => (isTree_dir ht h).1
  entries_lt := fun _ _ h => (isTree_dir ht h).2.1
  entries_valid := fun _ _ h n hn => ((isTree_dir ht h).2.2 n hn).1
  mem_entries := fun p es n x h hx => by
    simp only [isTree, Bool.and_eq_true, List.all_eq_true] at ht
    have := (ht.2 _ (mem_of_nodeOf hx)).1
    simpa [nodeOf_eq_ok.1 h] using this
  found_of_mem := fun p es n h hn => by
    have := ((isTree_dir ht h).2.2 n hn).2
    obtain ⟨x, hx⟩ := Option.isSome_iff_exists.1 this
    rw [nodeOf_eq_ok.2 hx]
    nofun
  size_lt := fun p c r h => by
    simp only [isTree, Bool.and_eq_true, List.all_eq_true] at ht
    simpa using (ht.2 _ (mem_of_nodeOf h)).2

end FileSystem
end Filesystem

import Streamer.FileManager

/-!
# The catalogue and the order of the directory

All queries of `list_files` share one error code, and the loop tests it at the top: an entry whose
query fails ends the iteration at the next entry, whatever that is. `Undisturbed` says when this
costs nothing.
-/

namespace Streamer
open Text Kernel Filesystem

namespace FileManager

instance : Std.Total byFilename where
  total a b := by
    simp only [byFilename, less_eq_false_iff]
    exact le_total _ _

instance : IsTrans MediaFileInfo byFilename where
  trans a b c := by
    simp only [byFilename, less_eq_false_iff]
    exact fun hab hbc => le_trans hab hbc

/-! ### What the catalogue should be -/

/-- The entry belongs in the catalogue, as `f`: a regular file, links followed, that is not hidden
and whose size can be had. -/
def Belongs (entry : DirEntry) (f : MediaFileInfo) : Prop :=
  entry.isRegularFile = .ok true ∧ isHidden entry.name = false ∧ entry.fileSize = .ok f.sizeBytes ∧
    f.filename = entry.name

/-- `files` is the catalogue of a directory with these entries, in whatever order they are given. -/
structure IsCatalogue (entries : List DirEntry) (files : List MediaFileInfo) : Prop where
  complete : ∀ f, f ∈ files ↔ ∃ entry ∈ entries, Belongs entry f
  sorted : files.Pairwise fun a b => less a.filename b.filename = true

/-- No entry that belongs in the catalogue comes after one whose query fails. -/
def Undisturbed (order : List DirEntry) : Prop :=
  order.Pairwise fun before after => queryFails before = true → ∀ f, ¬ Belongs after f

/-- What the loop adds to `files` for an entry. -/
def listing (entry : DirEntry) : Option MediaFileInfo :=
  match entry.isRegularFile with
  | .ok true =>
    if isHidden entry.name then none
    else match entry.fileSize with
      | .ok size => some ⟨entry.name, size⟩
      | .error _ => none
  | _ => none

/-- The entries that the loop comes to before it breaks, but for the one whose query fails. -/
def reached (order : List DirEntry) : List DirEntry := order.takeWhile fun entry => !queryFails entry

variable {fm : FileManager} {fs : FileSystem} {entry : DirEntry} {order entries : List DirEntry}
    {f : MediaFileInfo} {files : List MediaFileInfo}

theorem listing_eq_some : listing entry = some f ↔ Belongs entry f := by
  obtain ⟨name, regular, size⟩ := entry
  unfold listing Belongs
  rcases regular with e | _ | _
  · simp
  · simp
  · cases isHidden name with
    | true => simp
    | false => cases size <;> cases f <;> simp [and_comm, eq_comm]

theorem not_belongs_of_queryFails (h : queryFails entry = true) : ¬ Belongs entry f := by
  rintro ⟨hreg, hhid, hsize, -⟩
  simp [queryFails, hreg, hhid, hsize, Except.toOption] at h

/-! ### The loop -/

theorem listFilesLoop_some (e : Errno) (files : List MediaFileInfo) (order : List DirEntry) :
    listFilesLoop (some e) files (order.map .ok) = .ok files := by
  cases order <;> rfl

/-- One turn of the loop: it adds what the entry gives, and breaks after a failed query. -/
theorem listFilesLoop_cons (files : List MediaFileInfo) (entry : DirEntry) (order : List DirEntry) :
    listFilesLoop none files ((entry :: order).map .ok) =
      if queryFails entry then .ok files
      else listFilesLoop none (files ++ (listing entry).toList) (order.map .ok) := by
  obtain ⟨name, regular, size⟩ := entry
  simp only [List.map_cons, listFilesLoop, queryFails, listing]
  rcases regular with e | _ | _
  · simp [listFilesLoop_some]
  · simp
  · cases isHidden name with
    | true => simp
    | false => cases size <;> simp [listFilesLoop_some, Except.toOption]

theorem listFilesLoop_eq (files : List MediaFileInfo) (order : List DirEntry) :
    listFilesLoop none files (order.map .ok) = .ok (files ++ (reached order).filterMap listing) := by
  induction order generalizing files with
  | nil => simp [reached, listFilesLoop]
  | cons entry order ih =>
    rw [listFilesLoop_cons]
    cases hq : queryFails entry with
    | true => simp [reached, hq]
    | false =>
      simp only [Bool.false_eq_true, if_false, ih, reached, List.takeWhile_cons, hq, Bool.not_false,
        if_true]
      cases hl : listing entry <;> simp [hl]

theorem listFilesFrom_eq (hroot : fs.isDirectory fm.canonicalRoot = true) (order : List DirEntry) :
    fm.listFilesFrom fs (order.map .ok) =
      .ok (((reached order).filterMap listing).insertionSort byFilename) := by
  have hexist : fs.exist fm.canonicalRoot = true := by
    unfold FileSystem.isDirectory at hroot
    unfold FileSystem.exist
    split at hroot
    · rename_i loc hs
      rw [hs]
      rfl
    · cases hroot
  simp [listFilesFrom, hexist, hroot, listFilesLoop_eq]

theorem belongs_name_inj (hnames : (order.map DirEntry.name).Nodup) {a b : DirEntry} (ha : a ∈ order)
    (hb : b ∈ order) (hf : Belongs a f) (hg : Belongs b f) : a = b :=
  List.inj_on_of_nodup_map hnames ha hb (hf.2.2.2.symm.trans hg.2.2.2)

/-- The loop reaches every entry that belongs in the catalogue exactly if none comes after a failed
query. -/
theorem reached_iff_undisturbed (hnames : (order.map DirEntry.name).Nodup) :
    (∀ entry ∈ order, ∀ f, Belongs entry f → entry ∈ reached order) ↔ Undisturbed order := by
  unfold Undisturbed
  induction order with
  | nil => simp
  | cons a order ih =>
    obtain ⟨hfresh, hnames⟩ := List.nodup_cons.1 hnames
    have ih := ih hnames
    rw [List.pairwise_cons]
    cases hq : queryFails a with
    | true =>
      have hnil : reached (a :: order) = [] := by simp [reached, hq]
      simp only [hnil, List.not_mem_nil, true_implies]
      constructor
      · intro h
        have hnone : ∀ b ∈ order, ∀ f, ¬ Belongs b f := fun b hb => h b (by simp [hb])
        refine ⟨hnone, ih.1 ?_⟩
        intro b hb f hf
        exact absurd hf (hnone b hb f)
      · rintro ⟨hnone, -⟩ b hb f hf
        rcases List.mem_cons.1 hb with rfl | hb
        · exact not_belongs_of_queryFails hq hf
        · exact hnone b hb f hf
    | false =>
      have hcons : reached (a :: order) = a :: reached order := by simp [reached, hq]
      rw [hcons, ← ih]
      constructor
      · intro h
        refine ⟨by simp, ?_⟩
        intro b hb f hf
        rcases List.mem_cons.1 (h b (by simp [hb]) f hf) with rfl | hmem
        · exact absurd (List.mem_map_of_mem hb) hfresh
        · exact hmem
      · rintro ⟨-, h⟩ b hb f hf
        rcases List.mem_cons.1 hb with rfl | hb
        · simp
        · exact List.mem_cons_of_mem _ (h b hb f hf)

/-! ### The sort -/

theorem insertionSort_sorted (hnames : (order.map DirEntry.name).Nodup) :
    ((order.filterMap listing).insertionSort byFilename).Pairwise
      fun a b => less a.filename b.filename = true := by
  have hdistinct : (order.filterMap listing).Pairwise fun a b => a.filename ≠ b.filename := by
    rw [List.pairwise_filterMap]
    refine (List.pairwise_map.1 hnames).imp ?_
    intro a b hne f hf g hg
    rw [(listing_eq_some.1 hf).2.2.2, (listing_eq_some.1 hg).2.2.2]
    exact hne
  have hperm := List.perm_insertionSort byFilename (order.filterMap listing)
  have hsorted := List.pairwise_insertionSort byFilename (order.filterMap listing)
  refine (hsorted.and (hperm.symm.pairwise hdistinct fun h => h.symm)).imp ?_
  rintro a b ⟨hle, hne⟩
  exact less_of_ne hle hne

theorem mem_insertionSort_listing :
    f ∈ (order.filterMap listing).insertionSort byFilename ↔ ∃ entry ∈ order, Belongs entry f := by
  simp [List.mem_insertionSort, listing_eq_some]

theorem IsCatalogue.unique {files' : List MediaFileInfo} (h : IsCatalogue entries files)
    (h' : IsCatalogue entries files') : files = files' := by
  have hnodup {l : List MediaFileInfo} (hl : l.Pairwise fun a b => less a.filename b.filename = true) :
      l.Nodup := by
    refine hl.imp ?_
    rintro a b hab rfl
    rw [less_irrefl] at hab
    cases hab
  refine List.Perm.eq_of_pairwise ?_ h.sorted h'.sorted
    ((List.perm_ext_iff_of_nodup (hnodup h.sorted) (hnodup h'.sorted)).2 fun f => ?_)
  · intro a b _ _ hab hba
    rw [less_asymm hab] at hba
    cases hba
  · rw [h.complete, h'.complete]

theorem isCatalogue_iff (hnames : (order.map DirEntry.name).Nodup) (hperm : order.Perm entries) :
    IsCatalogue entries (((reached order).filterMap listing).insertionSort byFilename) ↔
      Undisturbed order := by
  have hsub : (reached order).Sublist order := List.takeWhile_sublist _
  rw [← reached_iff_undisturbed hnames]
  constructor
  · rintro ⟨hcomplete, -⟩ entry hentry f hf
    obtain ⟨entry', hreached, hf'⟩ :=
      mem_insertionSort_listing.1 ((hcomplete f).2 ⟨entry, hperm.mem_iff.1 hentry, hf⟩)
    rw [belongs_name_inj hnames hentry (hsub.subset hreached) hf hf']
    exact hreached
  · intro h
    refine ⟨?_, insertionSort_sorted (hnames.sublist (hsub.map _))⟩
    intro f
    rw [mem_insertionSort_listing]
    constructor
    · rintro ⟨entry, hreached, hf⟩
      exact ⟨entry, hperm.mem_iff.1 (hsub.subset hreached), hf⟩
    · rintro ⟨entry, hentry, hf⟩
      exact ⟨entry, h entry (hperm.mem_iff.2 hentry) f hf, hf⟩

theorem listFilesFrom_isCatalogue_iff (hroot : fs.isDirectory fm.canonicalRoot = true)
    (hnames : (order.map DirEntry.name).Nodup) (hperm : order.Perm entries) :
    (∃ files, fm.listFilesFrom fs (order.map .ok) = .ok files ∧ IsCatalogue entries files) ↔
      Undisturbed order := by
  rw [listFilesFrom_eq hroot, ← isCatalogue_iff hnames hperm]
  constructor
  · rintro ⟨files, hfiles, hcat⟩
    cases hfiles
    exact hcat
  · intro hcat
    exact ⟨_, rfl, hcat⟩

/-- The order does not matter exactly if no query fails or there is nothing to list: an entry whose
query fails hides everything when it comes first. -/
theorem listFilesFrom_order_iff (hroot : fs.isDirectory fm.canonicalRoot = true)
    (hnames : (entries.map DirEntry.name).Nodup) :
    (∀ order order' : List DirEntry, order.Perm entries → order'.Perm entries →
        fm.listFilesFrom fs (order.map .ok) = fm.listFilesFrom fs (order'.map .ok)) ↔
      (∀ entry ∈ entries, queryFails entry = false) ∨ ∀ entry ∈ entries, ∀ f, ¬ Belongs entry f := by
  constructor
  · intro h
    by_contra hc
    simp only [not_or, not_forall, not_not, Bool.not_eq_false] at hc
    obtain ⟨⟨a, ha, hfails⟩, b, hb, f, hf⟩ := hc
    obtain ⟨l, r, hlr⟩ := List.append_of_mem ha
    obtain ⟨l', r', hlr'⟩ := List.append_of_mem hb
    have hsame := h (a :: (l ++ r)) (b :: (l' ++ r')) (by rw [hlr]; exact List.perm_middle.symm)
      (by rw [hlr']; exact List.perm_middle.symm)
    rw [listFilesFrom_eq hroot, listFilesFrom_eq hroot] at hsame
    have hnil : reached (a :: (l ++ r)) = [] := by simp [reached, hfails]
    have hreached : b ∈ reached (b :: (l' ++ r')) := by
      have hq : queryFails b = false := by
        by_contra hq
        exact not_belongs_of_queryFails (by simpa using hq) hf
      simp [reached, hq]
    have hmem := mem_insertionSort_listing.2 ⟨b, hreached, hf⟩
    rw [← Except.ok.inj hsame, hnil] at hmem
    simp at hmem
  · intro h order order' hperm hperm'
    -- neither order is disturbed, and there is only one catalogue
    have hcat {o : List DirEntry} (ho : o.Perm entries) :
        ∃ files, fm.listFilesFrom fs (o.map .ok) = .ok files ∧ IsCatalogue entries files := by
      refine (listFilesFrom_isCatalogue_iff hroot ((ho.map _).nodup_iff.2 hnames) ho).2 ?_
      refine List.pairwise_of_forall_mem_list ?_
      intro a ha b hb hq f hf
      rcases h with h | h
      · rw [h a (ho.mem_iff.1 ha)] at hq
        cases hq
      · exact h b (ho.mem_iff.1 hb) f hf
    obtain ⟨files, hfiles, hc⟩ := hcat hperm
    obtain ⟨files', hfiles', hc'⟩ := hcat hperm'
    rw [hfiles, hfiles', hc.unique hc']

/-- In which orders a directory's catalogue comes out complete and sorted, and for which directories
it is the same in all of them. -/
theorem listFiles_complete_iff (fm : FileManager) (fs : FileSystem) (entries : List DirEntry)
    (hroot : fs.isDirectory fm.canonicalRoot = true) (hnames : (entries.map DirEntry.name).Nodup) :
    (∀ order : List DirEntry, order.Perm entries →
        ((∃ files, fm.listFilesFrom fs (order.map .ok) = .ok files ∧ IsCatalogue entries files) ↔
          Undisturbed order)) ∧
      ((∀ order order' : List DirEntry, order.Perm entries → order'.Perm entries →
          fm.listFilesFrom fs (order.map .ok) = fm.listFilesFrom fs (order'.map .ok)) ↔
        (∀ entry ∈ entries, queryFails entry = false) ∨ ∀ entry ∈ entries, ∀ f, ¬ Belongs entry f) := by
  refine ⟨?_, listFilesFrom_order_iff hroot hnames⟩
  intro order hperm
  exact listFilesFrom_isCatalogue_iff hroot ((hperm.map _).nodup_iff.2 hnames) hperm

/-- A media directory `/m` with a link `a` to nothing and a regular file `b`. -/
def danglingTree : List (Loc × Node) :=
  [([], .dir [ascii "m"]), ([ascii "m"], .dir [ascii "a", ascii "b"]),
   ([ascii "m", ascii "a"], .link (ascii "gone")), ([ascii "m", ascii "b"], .file (ascii "x") true)]

def dangling : FileSystem := .ofNodes danglingTree 40 (by decide)

def danglingManager : FileManager := ⟨.ofNames [ascii "m"], .ofNames [ascii "m"]⟩

/-- With the link first the catalogue is empty, with the file first it holds the file. -/
theorem dangling_hides_file :
    danglingManager.listFilesFrom dangling ((danglingManager.directoryIterator dangling).map .ok) =
        .ok [] ∧
      danglingManager.listFilesFrom dangling
          ((danglingManager.directoryIterator dangling).reverse.map .ok) = .ok [⟨ascii "b", 1⟩] ∧
      ¬ ∃ files, danglingManager.listFilesFrom dangling
          ((danglingManager.directoryIterator dangling).map .ok) = .ok files ∧
        IsCatalogue (danglingManager.directoryIterator dangling) files := by
  have hempty : danglingManager.listFilesFrom dangling
      ((danglingManager.directoryIterator dangling).map .ok) = .ok [] := by decide
  refine ⟨hempty, by decide, ?_⟩
  rintro ⟨files, hfiles, hcat⟩
  rw [hempty] at hfiles
  cases hfiles
  refine List.not_mem_nil ((hcat.complete ⟨ascii "b", 1⟩).2
    ⟨⟨ascii "b", .ok true, .ok 1⟩, ?_, rfl, by decide, rfl, rfl⟩)
  exact List.mem_cons_of_mem _ (List.mem_singleton.2 rfl)

theorem dangling_file_first_complete :
    ∃ files, danglingManager.listFilesFrom dangling
        ((danglingManager.directoryIterator dangling).reverse.map .ok) = .ok files ∧
      IsCatalogue (danglingManager.directoryIterator dangling) files := by
  refine ((listFiles_complete_iff danglingManager dangling (danglingManager.directoryIterator dangling)
    (by decide) (by decide)).1 _ (List.reverse_perm _)).2 ?_
  refine List.Pairwise.cons ?_ (List.pairwise_singleton _ _)
  intro entry hentry hq
  exact absurd hq (by decide)

end FileManager
end Streamer

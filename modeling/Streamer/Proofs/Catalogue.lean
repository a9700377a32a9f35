import Streamer.Client
import Streamer.Proofs.Replies
import Streamer.Proofs.Sandbox

/-!
# The catalogue: what `LIST` shows, what the client reads of it, what `GET` gives

`list_files` decides by the directory entry, `resolve_safe_path` by the canonical path, the line
protocol and the client's stream reader by white space; the results here say for which names these
agree.
-/

namespace Streamer
open Text Kernel Filesystem

/-- What `list_files` can return: names of directory entries that are not hidden, and any sizes. -/
structure Listable (files : List MediaFileInfo) : Prop where
  valid : ∀ f ∈ files, ValidName f.filename
  visible : ∀ f ∈ files, FileManager.isHidden f.filename = false
  length_lt : files.length < 2 ^ 64

/-! ### Reading the list back -/

/-- The client has shown exactly `files` and read nothing but the response. -/
def Decodes (files : List MediaFileInfo) (rest : Bytes) (res : Except Exn Bool × Listing × Socket) :
    Prop :=
  res.1 = .ok true ∧ res.2.1 = ⟨files.length, files⟩ ∧ res.2.2.inbox = rest

def entryLine (f : MediaFileInfo) : Bytes := f.filename ++ ascii " " ++ decimal f.sizeBytes.toNat

theorem buildListEntry_eq (f : MediaFileInfo) :
    Protocol.buildListEntry f = entryLine f ++ [newline] := rfl

section
variable {f : MediaFileInfo} (hs : ∀ b ∈ f.filename, isSpace b = false)
include hs

theorem listRow_entryLine (hne : f.filename ≠ []) : listRow (entryLine f) = f := by
  have hword : extractWord (entryLine f) = (f.filename, 32 :: decimal f.sizeBytes.toNat) := by
    rw [entryLine, List.append_assoc]
    exact extractWord_append hs hne (by decide)
  have hnum : extractUnsigned (32 :: decimal f.sizeBytes.toNat) = (true, f.sizeBytes.toNat) :=
    extractUnsigned_decimal (w := [32]) (List.forall_mem_singleton.2 rfl) f.sizeBytes.toNat_lt
  simp [listRow, hword, hnum, hne]

theorem newline_not_mem_entryLine : newline ∉ entryLine f := by
  simp only [entryLine, List.mem_append, not_or]
  exact ⟨⟨newline_not_mem_of_not_isSpace hs, by decide⟩, newline_not_mem_decimal _⟩

end

theorem length_entryLine {f : MediaFileInfo} (h : ValidName f.filename) :
    (entryLine f).length < 4096 := by
  have h1 := h.2.2.2
  have h2 := length_decimal_le f.sizeBytes.toNat_lt
  have h3 : (ascii " ").length = 1 := rfl
  simp only [entryLine, List.length_append]
  omega

theorem listLoop_entries {files : List MediaFileInfo} (hvalid : ∀ f ∈ files, ValidName f.filename)
    (hs : ∀ f ∈ files, ∀ b ∈ f.filename, isSpace b = false) (sock : Socket) (rest : Bytes) {n : Nat}
    (hv : sock.isValid = true) (hin : sock.inbox = files.flatMap Protocol.buildListEntry ++ rest)
    (hrecvs : Lively ((files.flatMap Protocol.buildListEntry).length + n) sock.recvs)
    (rows : List MediaFileInfo) :
    ∃ recvs, listLoop files.length sock rows =
      (true, rows ++ files, { sock with inbox := rest, recvs := recvs }) := by
  induction files generalizing sock rows with
  | nil => exact ⟨sock.recvs, by simp at hin; simp [listLoop, ← hin]⟩
  | cons f files ih =>
    have hf := hvalid f (by simp)
    have hin' : sock.inbox = entryLine f ++ newline ::
        (files.flatMap Protocol.buildListEntry ++ rest) := by
      simp [hin, buildListEntry_eq]
    have hlive : Lively
        ((entryLine f).length + 1 + ((files.flatMap Protocol.buildListEntry).length + n)) sock.recvs :=
      hrecvs.mono (by simp [buildListEntry_eq]; omega)
    obtain ⟨recvs, hline, hlive'⟩ := Socket.recvLine_newline 4096 hv hin'
      (newline_not_mem_entryLine (hs f (by simp))) (length_entryLine hf) hlive
    have hdrop : dropCr (entryLine f) = entryLine f := dropCr_append_decimal _ _
    obtain ⟨recvs', hrest⟩ := ih (fun g hg => hvalid g (by simp [hg])) (fun g hg => hs g (by simp [hg]))
      { sock with inbox := files.flatMap Protocol.buildListEntry ++ rest, recvs := recvs } hv rfl hlive'
      (rows ++ [f])
    refine ⟨recvs', ?_⟩
    simp only [List.length_cons, listLoop, hline, Bool.not_true, Bool.false_eq_true, if_false, hdrop,
      listRow_entryLine (hs f (by simp)) hf.1.1, hrest]
    simp

/-- Whatever the server sends, no name that the client shows has white space in it. -/
theorem listLoop_words {count : Nat} {sock : Socket} {rows : List MediaFileInfo}
    (h : ∀ f ∈ rows, ∀ b ∈ f.filename, isSpace b = false) :
    ∀ f ∈ (listLoop count sock rows).2.1, ∀ b ∈ f.filename, isSpace b = false := by
  induction count generalizing sock rows with
  | zero => exact h
  | succ count ih =>
    simp only [listLoop]
    split
    · exact h
    · refine ih ?_
      intro f hf
      rcases List.mem_append.1 hf with hf | hf
      · exact h f hf
      · obtain rfl := List.mem_singleton.1 hf
        exact fun b hb => isSpace_of_mem_extractWord hb

theorem doList_words (sock : Socket) :
    ∀ f ∈ (doList sock).2.1.rows, ∀ b ∈ f.filename, isSpace b = false := by
  unfold doList
  dsimp only
  split
  · simp
  split
  · simp
  split
  · simp
  split
  · simp
  split
  · exact listLoop_words (by simp)
  · exact listLoop_words (by simp)

section
variable {files : List MediaFileInfo} (hfiles : Listable files) {sock : Socket} {rest : Bytes}
  (hv : sock.isValid = true) (hin : sock.inbox = Protocol.buildListResponse files ++ rest)
  (hsends : Lively 5 sock.sends) (hrecvs : Lively (Protocol.buildListResponse files).length sock.recvs)
include hfiles hv hin hsends hrecvs

theorem doList_decodes (hs : ∀ f ∈ files, ∀ b ∈ f.filename, isSpace b = false) :
    Decodes files rest (doList sock) := by
  have hresp : Protocol.buildListResponse files =
      (ascii "OK " ++ decimal files.length) ++ newline :: files.flatMap Protocol.buildListEntry := by
    simp [Protocol.buildListResponse]
  obtain ⟨sends, hsend, -⟩ := Socket.sendString_lively (ascii "LIST\n") (n := 0) hv hsends
  have hlive : Lively ((ascii "OK " ++ decimal files.length).length + 1 +
      (files.flatMap Protocol.buildListEntry).length) sock.recvs := by
    refine hrecvs.mono (Nat.le_of_eq ?_)
    simp only [hresp, List.length_append, List.length_cons]
    omega
  have hheader : sock.inbox =
      (ascii "OK " ++ decimal files.length) ++ newline ::
        (files.flatMap Protocol.buildListEntry ++ rest) := by
    simp [hin, hresp]
  obtain ⟨⟨recvs, hline, hlive'⟩, hok, hsub, hcount⟩ := recvLine_okHeader hfiles.length_lt
    (s := { sock with sent := sock.sent ++ ascii "LIST\n", sends := sends }) hv hheader hlive
  obtain ⟨recvs', hrows⟩ := listLoop_entries hfiles.valid hs (n := 0)
    { sock with sent := sock.sent ++ ascii "LIST\n", sends := sends,
                inbox := files.flatMap Protocol.buildListEntry ++ rest, recvs := recvs }
                  rest hv rfl hlive' []
  have hquit (s : Socket) : (s.sendString (ascii "QUIT\n")).2.inbox = s.inbox := by
    obtain ⟨acc, -, -, h⟩ := s.sendAll_spec (ascii "QUIT\n")
    rw [show (s.sendString (ascii "QUIT\n")).2 = (s.sendAll (ascii "QUIT\n")).2 from rfl, h]
  simp only [doList, hsend, hline, hok, hsub, hcount, hrows, Bool.not_true, Bool.false_eq_true, if_false]
  exact ⟨rfl, by simp, hquit _⟩

end

/-- The client reads back exactly the list that was sent if and only if no name in it has white
space. -/
theorem doList_decodes_iff (files : List MediaFileInfo) (hfiles : Listable files)
    (sock : Socket) (rest : Bytes)
    (hv : sock.isValid = true) (hin : sock.inbox = Protocol.buildListResponse files ++ rest)
    (hsends : Lively 5 sock.sends)
    (hrecvs : Lively (Protocol.buildListResponse files).length sock.recvs) :
    Decodes files rest (doList sock) ↔ ∀ f ∈ files, ∀ b ∈ f.filename, isSpace b = false := by
  refine ⟨?_, doList_decodes hfiles hv hin hsends hrecvs⟩
  intro h
  have hwords := doList_words sock
  rw [h.2.1] at hwords
  exact hwords

/-- A client socket with `input` still to be read and a kernel that moves `k` bytes a call. -/
def clientSocket (input : Bytes) (k recvs sends : Nat) : Socket :=
  ⟨4, input, false, .fails .EINTR :: .replicate recvs (.moves k), [],
    .fails .EINTR :: .replicate sends (.moves k)⟩

def plainList : List MediaFileInfo := [⟨ascii "a", 18446744073709551615⟩, ⟨ascii "b-1.mp4", 0⟩]

theorem plainList_decodes :
    Decodes plainList (ascii "x")
      (doList (clientSocket (ascii "OK 2\na 18446744073709551615\nb-1.mp4 0\nx") 2 99 9)) :=
  (doList_decodes_iff plainList ⟨by decide, by decide, by decide⟩
    (clientSocket (ascii "OK 2\na 18446744073709551615\nb-1.mp4 0\nx") 2 99 9) (ascii "x")
    (by decide) (by decide +kernel) (by decide) (by decide +kernel)).2 (by
      have hwords : plainList.all (·.filename.all (!isSpace ·)) = true := by decide +kernel
      simpa using hwords)

/-- The entry `a b` of seven bytes is shown as `a` with no bytes. -/
theorem spaced_not_decodes :
    Listable [⟨ascii "a b", 7⟩] ∧
      ¬ Decodes [⟨ascii "a b", 7⟩] []
        (doList (clientSocket (Protocol.buildListResponse [⟨ascii "a b", 7⟩]) 1 99 99)) := by
  refine ⟨⟨by decide, by decide, by decide⟩, fun h => absurd h.2.1 ?_⟩
  decide +kernel

/-! ### Getting what is listed -/

theorem listFiles_listable {fm : FileManager} {fs : FileSystem} {files : List MediaFileInfo}
    (h : fm.listFiles fs = .ok files) : Listable files :=
  have ⟨hlen, hmem⟩ := FileManager.listFiles_listed h
  ⟨fun f hf => (hmem f hf).valid, fun f hf => (hmem f hf).visible, hlen⟩

namespace FileManager
variable {fm : FileManager} {fs : FileSystem}

def entryPath (fm : FileManager) (name : Bytes) : FsPath := fm.canonicalRoot.append ⟨false, [name]⟩

/-- The entry leads, links followed, to a location below the root whose path from there does not begin
with `..` as text. -/
def LeadsInside (fm : FileManager) (fs : FileSystem) (name : Bytes) : Prop :=
  ∃ below, fs.status (fm.entryPath name) = .ok (fm.canonicalRoot.elems ++ below) ∧ FsPath.NoDots below

theorem designated_of_listed {root : Loc} (hr : fm.canonicalRoot = .ofNames root)
    (hp : ∀ e ∈ root, Proper e)
    {f : MediaFileInfo} (hf : Listed fm fs f) (hin : fm.LeadsInside fs f.filename) :
    fm.designated fs f.filename = fs.regularFile (fm.entryPath f.filename) := by
  obtain ⟨below, hs, hnd⟩ := hin
  have hpath : fm.fullCandidate f.filename = fm.entryPath f.filename := by
    rw [fullCandidate, hf.valid.ofText, entryPath]
  have hadm : Admissible f.filename := ⟨hf.valid.1.1, hf.valid.2.2.1, by rw [hf.valid.ofText]⟩
  have hreal := FileSystem.status_real hs
  rw [hr] at hs hreal
  have hw : fs.weaklyCanonical (fm.fullCandidate f.filename) = .ok (.ofNames (root ++ below)) := by
    rw [hpath, FileSystem.weaklyCanonical, hs]
    rfl
  have hres := (resolveSafePath_eq_some_ofNames hr hp hreal.proper).2 ⟨hadm, hw, below, rfl, hnd⟩
  rw [designated, hres, Option.bind_some, FileSystem.regularFile, FileSystem.status_ofNames hreal,
    FileSystem.regularFile, hs]

end FileManager

/-- A readable entry of the catalogue whose name survives the request line, and that does not lead out
of the root, is answered with its size and its bytes. -/
theorem listed_served {createDirectories : FileSystem → FsPath → Bool × FileSystem} {rootDir : FsPath}
    {fs₀ fs₁ fs : FileSystem} {fm : FileManager}
    (hinit : FileManager.init createDirectories rootDir fs₀ = some (fm, fs₁))
    {f : MediaFileInfo} (hf : FileManager.Listed fm fs f)
    (hreadable : ∀ loc c r, fs.node loc = .ok (.file c r) → r = true)
    (hnl : newline ∉ f.filename) (htrim : trim f.filename = f.filename)
    (hin : fm.LeadsInside fs f.filename) :
    ∃ content, fs.regularFile (fm.entryPath f.filename) = some (content, true) ∧
      content.length = f.sizeBytes.toNat ∧
      reply fm fs (Protocol.parseRequest (dropCr (ascii "GET " ++ f.filename))) =
        Protocol.buildGetHeader f.sizeBytes.toNat ++ content := by
  obtain ⟨root, -, hr, hreal⟩ := FileManager.init_spec hinit
  obtain ⟨content, readable, hfile, hsize⟩ := hf.found
  have hdes := FileManager.designated_of_listed hr hreal.proper hf hin
  rw [show fm.entryPath f.filename = fm.canonicalRoot.append ⟨false, [f.filename]⟩ from rfl,
    hfile] at hdes
  obtain ⟨p, loc, -, -, hnode⟩ := FileManager.designated_eq_some hdes
  obtain rfl := hreadable loc content readable hnode
  refine ⟨content, hfile, hsize.symm, ?_⟩
  rw [Protocol.parseRequest_dropCr, Protocol.parseRequest_get hnl, htrim]
  simp [reply, getReply, hdes, hsize, hf.valid.1.1]

/-- The same for a whole session, with any further requests after this one. -/
theorem listed_then_got (createDirectories : FileSystem → FsPath → Bool × FileSystem) (rootDir : FsPath)
    (fs₀ fs₁ fs : FileSystem) (fm : FileManager)
    (hinit : FileManager.init createDirectories rootDir fs₀ = some (fm, fs₁))
    (files : List MediaFileInfo) (hfiles : fm.listFiles fs = .ok files) (f : MediaFileInfo)
    (hf : f ∈ files) (hreadable : ∀ loc c r, fs.node loc = .ok (.file c r) → r = true)
    (hnl : newline ∉ f.filename) (htrim : trim f.filename = f.filename)
    (hin : fm.LeadsInside fs f.filename) (chunkSize memory : Nat)
    (halloc : (ClientSession.Config.new (fm.media fs) chunkSize memory).allocate = none)
    (socket : Socket) (hv : socket.isValid = true) (hsent : socket.sent = []) (rest : Bytes)
    (hinbox : socket.inbox = ascii "GET " ++ f.filename ++ newline :: rest) (hfin : socket.fin = true)
    (hrecvs : Lively (socket.inbox.length + 1) socket.recvs)
    (hsends : Lively (replies fm fs (lines socket.inbox)).flatten.length socket.sends) :
    ∃ content more, fs.regularFile (fm.entryPath f.filename) = some (content, true) ∧
      (ClientSession.run (.new (fm.media fs) chunkSize memory) (.new socket)).2.socket.sent =
        Protocol.buildGetHeader f.sizeBytes.toNat ++ content ++ more := by
  have hlisted := (FileManager.listFiles_listed hfiles).2 f hf
  obtain ⟨content, hfile, -, hreply⟩ := listed_served hinit hlisted hreadable hnl htrim hin
  have hready : ClientSession.Ready { ClientSession.new socket with isActive := true }
      ((replies fm fs (lines socket.inbox)).flatten.length + 0) :=
        ⟨rfl, rfl, hv, hfin, fun _ => hrecvs, hsends⟩
  obtain ⟨-, hout, -⟩ := (ClientSession.run_runs (.new (fm.media fs) chunkSize memory)
    (.new socket)).sends_replies rfl halloc hready
  have hline : newline ∉ ascii "GET " ++ f.filename := Protocol.newline_not_mem_get hnl
  have hlen : ¬ 4096 ≤ (ascii "GET " ++ f.filename).length := by
    have h1 := hlisted.valid.2.2.2
    have h2 : (ascii "GET ").length = 4 := rfl
    simp only [List.length_append]
    omega
  refine ⟨content, (if (Protocol.parseRequest (dropCr (ascii "GET " ++ f.filename))).type = .QUIT then []
    else replies fm fs (lines rest)).flatten, hfile, ?_⟩
  rw [hout]
  simp only [ClientSession.new, hsent, List.nil_append, hinbox, lines_append_newline hline,
    replies, hlen, if_false, List.flatten_cons, hreply]

open ClientSession in
theorem sample_listed_then_got :
    ∃ content more, sampleFs.regularFile (sampleManager.entryPath (ascii "a")) = some (content, true) ∧
      (run (.new (sampleManager.media sampleFs) 1 1)
        (.new (connection (ascii "GET a\nQUIT\n") 2 99 99))).2.socket.sent =
        Protocol.buildGetHeader 2 ++ content ++ more := by
  refine listed_then_got (fun fs _ => (true, fs)) (.ofNames [ascii "m"]) sampleFs sampleFs
    sampleFs sampleManager rfl
    [⟨ascii "a", 2⟩] (by decide +kernel) ⟨ascii "a", 2⟩ (by simp) ?_ (by decide) (by decide)
    ⟨[ascii "a"], by decide, fun n h => by cases h; decide⟩ 1 1 (by decide)
      (connection (ascii "GET a\nQUIT\n") 2 99 99) (by decide)
    rfl (ascii "QUIT\n") (by decide +kernel) rfl (by decide +kernel) (by decide +kernel)
  intro loc c r h
  have hmem := FileSystem.mem_of_nodeOf (show FileSystem.nodeOf sampleTree loc = .ok (.file c r) from h)
  simp only [sampleTree, List.mem_cons, Prod.mk.injEq, reduceCtorEq, and_false, Node.file.injEq,
    List.not_mem_nil, or_false, false_or] at hmem
  exact hmem.2.2

/-- A media directory `/m` with a name that ends in a space, a name with a newline in it and a link to
`/s`; all three are listed. -/
def oddTree : List (Loc × Node) :=
  [([], .dir [ascii "m", ascii "s"]), ([ascii "m"], .dir [ascii "a ", ascii "b\nc", ascii "l"]),
   ([ascii "m", ascii "a "], .file (ascii "1") true), ([ascii "m", ascii "b\nc"], .file (ascii "2") true),
   ([ascii "m", ascii "l"], .link (ascii "/s")), ([ascii "s"], .file (ascii "3") true)]

def oddFs : FileSystem := .ofNodes oddTree 40 (by decide)

open ClientSession in
theorem odd_listed_not_got :
    FileManager.init (fun fs _ => (true, fs)) (.ofNames [ascii "m"]) oddFs = some (sampleManager, oddFs) ∧
    sampleManager.listFiles oddFs = .ok [⟨ascii "a ", 1⟩, ⟨ascii "b\nc", 1⟩, ⟨ascii "l", 1⟩] ∧
    ∀ f ∈ [ascii "a ", ascii "b\nc", ascii "l"],
      ascii "ERROR FILE_NOT_FOUND\n" <+: (run (.new (sampleManager.media oddFs) 1 1)
        (.new (connection (ascii "GET " ++ f ++ [newline]) 9 99 99))).2.socket.sent := by
  refine ⟨rfl, by decide +kernel, by decide +kernel⟩

end Streamer

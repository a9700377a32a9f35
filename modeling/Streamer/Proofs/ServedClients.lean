import Mathlib.Tactic.FinCases
import Streamer.Proofs.Conversations

/-!
# Clients are served

Every reply is a line and what the line announces, so a conversation comes to its one end
(`Proofs/Conversations.lean`). What that end is for a download, a refused `GET` and a `LIST` follows from
what is known of `do_get` and `do_list` on a whole reply; conversations side by side do not meet
(`clients_served`).
-/

namespace Streamer
open Text Kernel Filesystem Machine

/-! ### What the replies announce -/

theorem announces_error {message : Bytes} (hnl : newline ∉ message) (hlen : message.length < 4000) :
    Announces .get (ascii "ERROR " ++ message) [] where
  one_line := by
    simp only [List.mem_append, not_or]
    exact ⟨by decide, hnl⟩
  length_lt := by
    have : (ascii "ERROR ").length = 6 := rfl
    rw [List.length_append]
    omega
  size := by
    intro _ hstart
    have := hstart.trans <| dropCr_prefix _
    exact absurd (List.cons_prefix_cons.1 this).1 (by decide)
  rows := nofun

theorem announces_content {c : Bytes} (hc : c.length < 2 ^ 64) :
    Announces .get (ascii "OK " ++ decimal c.length) c where
  one_line := newline_not_mem_header c.length
  length_lt := by
    have h1 := length_decimal_le hc
    have h2 : (ascii "OK ").length = 3 := rfl
    rw [List.length_append]
    omega
  size := by
    intro _ _
    have hsize : extractUnsigned (decimal c.length) = (true, c.length) :=
      extractUnsigned_decimal (w := []) (by simp) hc
    rw [dropCr_append_decimal, show (ascii "OK " ++ decimal c.length).drop 3 = decimal c.length from rfl,
      hsize]
  rows := nofun

theorem received_entries {files : List MediaFileInfo} (hvalid : ∀ f ∈ files, ValidName f.filename) :
    files.length ≤ (received false (files.flatMap Protocol.buildListEntry)).length ∧
      ∀ row ∈ received false (files.flatMap Protocol.buildListEntry), row.length < 4096 := by
  induction files with
  | nil => exact ⟨Nat.le_refl _, nofun⟩
  | cons f files ih =>
    obtain ⟨hcount, hrows⟩ := ih fun g hg => hvalid g (List.mem_cons_of_mem _ hg)
    obtain ⟨ls, hls, hne, hshort⟩ :=
      received_piece false (entryLine f) (files.flatMap Protocol.buildListEntry)
    have hlt := length_entryLine (hvalid f List.mem_cons_self)
    have hpos := List.length_pos_iff.2 hne
    rw [List.flatMap_cons, buildListEntry_eq, List.append_assoc, List.singleton_append, hls]
    refine ⟨?_, ?_⟩
    · rw [List.length_append, List.length_cons]
      omega
    · intro row hrow
      rcases List.mem_append.1 hrow with hrow | hrow
      · exact Nat.lt_of_le_of_lt (hshort row hrow) hlt
      · exact hrows row hrow

theorem announces_list {files : List MediaFileInfo} (hfiles : Listable files) :
    Announces .list (ascii "OK " ++ decimal files.length) (files.flatMap Protocol.buildListEntry) where
  one_line := newline_not_mem_header files.length
  length_lt := by
    have h1 := length_decimal_le hfiles.length_lt
    have h2 : (ascii "OK ").length = 3 := rfl
    rw [List.length_append]
    omega
  size := nofun
  rows := by
    intro _ _
    have hcount : extractUnsigned (decimal files.length) = (true, files.length) :=
      extractUnsigned_decimal (w := []) (by simp) hfiles.length_lt
    rw [dropCr_append_decimal, show (ascii "OK " ++ decimal files.length).drop 3 =
      decimal files.length from rfl, hcount]
    exact received_entries hfiles.valid

theorem Task.announced {task : Task} (fm : FileManager) (fs : FileSystem) (hfits : task.Fits) :
    ∃ l body, reply fm fs (Protocol.parseRequest task.line) = l ++ newline :: body ∧
      Announces task.query l body := by
  cases task with
  | list =>
    obtain ⟨files, hfiles⟩ := fm.listFiles_ok fs
    refine ⟨_, _, ?_, announces_list (listFiles_listable hfiles)⟩
    show listReply fm fs = _
    simp [listReply, hfiles, Protocol.buildListResponse]
  | get f =>
    have hnl : newline ∉ f := fun h => hfits.one_line (List.mem_append_right _ h)
    have herror (message : Bytes) (hm : newline ∉ message) (hlen : message.length < 4000) :
        ∃ l body, Protocol.buildErrorResponse message = l ++ newline :: body ∧
          Announces .get l body :=
      ⟨_, _, rfl, announces_error hm hlen⟩
    rw [show Protocol.parseRequest (Task.get f).line = _ from Protocol.parseRequest_get hnl]
    show ∃ l body, getReply fm fs (trim f) = _ ∧ Announces .get l body
    unfold getReply
    split
    · exact herror _ (by decide) (by decide)
    split
    · exact herror _ (by decide) (by decide)
    · exact herror _ (by decide) (by decide)
    · rename_i c hd
      obtain ⟨size, -, hsize⟩ := FileManager.getFileSize_eq_some hd
      exact ⟨_, _, by simp [Protocol.buildGetHeader], announces_content (hsize ▸ size.toNat_lt)⟩

theorem Task.parseRequest_line {task : Task} (hfits : task.Fits) :
    (Protocol.parseRequest task.line).type ≠ .QUIT := by
  cases task with
  | list => decide
  | get f =>
    have hnl : newline ∉ f := fun h => hfits.one_line (List.mem_append_right _ h)
    rw [show Protocol.parseRequest (Task.get f).line = _ from Protocol.parseRequest_get hnl]
    exact nofun

/-! ### What the client makes of the reply -/

/-- Every call on the destination succeeds. -/
structure LocalDisk.Sound (disk : LocalDisk) : Prop where
  creates : disk.creates = true
  opens : disk.opens = true
  resolves : disk.resolves = true
  writes : ∀ w ∈ disk.writes, w = none
  lost : disk.lost = 0

theorem LocalDisk.Sound.not_writesFail {disk : LocalDisk} (h : disk.Sound) (n : Nat) :
    ¬ disk.WritesFail n := by
  rintro (⟨w, hw, hne⟩ | ⟨hlost, -⟩)
  · exact hne (h.writes w (List.mem_of_mem_take hw))
  · exact absurd h.lost (Nat.ne_of_gt hlost)

section
variable {disk : LocalDisk} {sock : Socket}

theorem doGet_stores (hdisk : disk.Sound) {filename c : Bytes} (hc : c.length < 2 ^ 64)
    (hsend : (sock.sendString (getRequest filename)).1 = true)
    (hin : sock.inbox = Protocol.buildGetHeader c.length ++ c)
    (hrecvs : Lively sock.inbox.length sock.recvs) :
    (doGet disk sock filename).1 = .ok true ∧ (doGet disk sock filename).2.2.file = some c := by
  have hin' : sock.inbox = Protocol.buildGetHeader c.length ++ c ++ [] := by rw [hin, List.append_nil]
  rw [hin] at hrecvs
  have hok : (doGet disk sock filename).1 = .ok true := by
    rw [doGet_lively hc hdisk.creates hsend hin' hrecvs, hdisk.opens, hdisk.resolves]
    rfl
  obtain ⟨l, header, body, rest, q, hfetched, -, -, hfile⟩ := doGet_true hok
  obtain rfl : body = c := hfetched.body_eq hc (by rw [← hin'])
  exact ⟨hok, hfile (hdisk.not_writesFail _)⟩

theorem doGet_refused {filename message : Bytes} (hnl : newline ∉ message)
    (hlen : message.length < 4000) (hsend : (sock.sendString (getRequest filename)).1 = true)
    (hin : sock.inbox = Protocol.buildErrorResponse message)
    (hrecvs : Lively sock.inbox.length sock.recvs) (hcreates : disk.creates = true) :
    (doGet disk sock filename).1 = .ok false ∧ (doGet disk sock filename).2.2 = disk := by
  have hann := announces_error hnl hlen
  have hv : sock.isValid = true := Socket.sendString_isValid hsend
  obtain ⟨sends, hsent⟩ := Socket.sendString_true hsend
  obtain ⟨recvs, hline, -⟩ := Socket.recvLine_newline 4096 (n := 0)
    (s := { sock with sent := sock.sent ++ getRequest filename, sends := sends }) hv
    (show sock.inbox = (ascii "ERROR " ++ message) ++ newline :: [] from hin)
    hann.one_line hann.length_lt (by rwa [hin, Protocol.buildErrorResponse, List.length_append] at hrecvs)
  have hstart : (ascii "OK").isPrefixOf (dropCr (ascii "ERROR " ++ message)) = false := by
    rw [Bool.eq_false_iff, Ne, List.isPrefixOf_iff_prefix]
    intro h
    have hpre := h.trans <| dropCr_prefix _
    exact absurd (List.cons_prefix_cons.1 hpre).1 (by decide)
  rw [doGet_of_replied ⟨hcreates, hsend, by rw [hsent, hline]⟩, hsent, hline]
  simp [download, hstart]

variable {files : List MediaFileInfo} (hfiles : Listable files)
  (hv : sock.isValid = true) (hfin : sock.fin = false)
  (hin : sock.inbox = Protocol.buildListResponse files)
  (hsends : Lively 5 sock.sends) (hrecvs : Lively (sock.inbox.length + 1) sock.recvs)
include hfiles hv hfin hin hsends hrecvs

/-- Also where a name has white space in it, and the rows are not the files. -/
theorem doList_succeeds : (doList sock).1 = .ok true := by
  obtain ⟨sends, hsend, -⟩ := Socket.sendString_lively (ascii "LIST\n") (n := 0) hv hsends
  have hin' : sock.inbox = ascii "OK " ++ decimal files.length ++
      newline :: files.flatMap Protocol.buildListEntry := by
    simp [hin, Protocol.buildListResponse]
  rw [hin', List.length_append, List.length_cons] at hrecvs
  obtain ⟨⟨recvs, hline, hlive⟩, hok, -, hcount⟩ := recvLine_okHeader hfiles.length_lt
    (s := { sock with sent := sock.sent ++ ascii "LIST\n", sends := sends }) hv hin'
    (m := (files.flatMap Protocol.buildListEntry).length + 1) (hrecvs.mono (by omega))
  have hdrop : (ascii "OK " ++ decimal files.length).drop 3 = decimal files.length := rfl
  have hlen : ¬ (ascii "OK " ++ decimal files.length).length < 3 := by
    rw [List.length_append, show (ascii "OK ").length = 3 from rfl]
    omega
  rw [doList_result hsend hline, hok, hdrop, hcount]
  simp only [Bool.and_self, if_true, hlen, if_false]
  congr 1
  refine (listLoop_iff ?_).2 ?_
  · exact ⟨hv, fun _ => hlive⟩
  obtain ⟨hle, hrows⟩ := received_entries hfiles.valid
  dsimp only
  rw [hfin]
  exact ⟨hle, fun row hrow => hrows row (List.mem_of_mem_take hrow)⟩

end

/-- What the task is for has been done: the catalogue is read, or the designated file is stored, or it
was refused and the destination is as it was. -/
def Task.Done (fm : FileManager) (fs : FileSystem) (disk : LocalDisk) (c : ClientThread) : Task → Prop
  | .list => c.pc = .exited true ∧ c.disk = disk ∧
      ∀ files, fm.listFiles fs = .ok files → (∀ f ∈ files, ∀ b ∈ f.filename, isSpace b = false) →
        c.listing = ⟨files.length, files⟩
  | .get f => match fm.designated fs (trim f) with
    | some (content, true) => c.pc = .exited true ∧ c.disk.file = some content
    | _ => c.pc = .exited false ∧ c.disk = disk

theorem Task.program_done (fm : FileManager) (fs : FileSystem) (task : Task) (disk : LocalDisk)
    (sock : Socket) (hfits : task.Fits) (hdisk : disk.Sound) (hv : sock.isValid = true)
    (hfin : sock.fin = false) (hin : sock.inbox = reply fm fs (Protocol.parseRequest task.line))
    (hrecvs : Lively (sock.inbox.length + 1) sock.recvs)
    (hsends : Lively (task.line.length + 1) sock.sends) :
    task.Done fm fs disk
      (.finished task.getFile (clientProgram task.listMode task.getFile disk sock)) := by
  cases task with
  | list =>
    obtain ⟨files, hfiles⟩ := fm.listFiles_ok fs
    have hreply : sock.inbox = Protocol.buildListResponse files := by
      rw [hin]
      show listReply fm fs = _
      rw [listReply, hfiles]
    have hlistable := listFiles_listable hfiles
    have hok := doList_succeeds hlistable hv hfin hreply hsends hrecvs
    have hwhole : sock.inbox = Protocol.buildListResponse files ++ [] := by rw [hreply, List.append_nil]
    have hdecodes := doList_decodes hlistable hv hwhole
      hsends (hreply ▸ hrecvs.mono (Nat.le_succ _))
    show _ ∧ _ ∧ _
    simp only [clientProgram, listMode, getFile, if_true]
    generalize doList sock = res at hok hdecodes
    obtain ⟨r, listing, sock'⟩ := res
    obtain rfl : r = .ok true := hok
    refine ⟨rfl, rfl, ?_⟩
    intro files' hfiles' hs
    obtain rfl : files = files' := Except.ok.inj (hfiles.symm.trans hfiles')
    exact (hdecodes hs).2.1
  | get f =>
    have hnl : newline ∉ f := fun h => hfits.one_line (List.mem_append_right _ h)
    have hne : f.isEmpty = false := by
      rw [List.isEmpty_eq_false_iff]
      exact hfits.named f rfl
    obtain ⟨sends, hsend, -⟩ := Socket.sendString_lively (getRequest f) (n := 0) hv (by
      rwa [getRequest, List.length_append])
    have hsend' : (sock.sendString (getRequest f)).1 = true := congrArg Prod.fst hsend
    rw [show Protocol.parseRequest (Task.get f).line = _ from Protocol.parseRequest_get hnl] at hin
    have hreply : sock.inbox = getReply fm fs (trim f) := hin
    have hdone {ok : Bool} (h : (doGet disk sock f).1 = .ok ok) :
        ClientThread.finished f (clientProgram false f disk sock) =
          ⟨(doGet disk sock f).2.1.close, (doGet disk sock f).2.2, f, {}, .exited ok⟩ := by
      simp [clientProgram, hne, ClientThread.finished, h]
    have hrefused {message : Bytes} (hm : newline ∉ message) (hlen : message.length < 4000)
        (hin : sock.inbox = Protocol.buildErrorResponse message)
        (hd : ∀ content, fm.designated fs (trim f) ≠ some (content, true)) :
        Task.Done fm fs disk (.finished f (clientProgram false f disk sock)) (.get f) := by
      obtain ⟨hok, hfile⟩ := doGet_refused hm hlen hsend' hin (hrecvs.mono (Nat.le_succ _)) hdisk.creates
      rw [hdone hok, Done]
      split
      · rename_i content heq
        exact absurd heq (hd content)
      · exact ⟨rfl, hfile⟩
    show Task.Done fm fs disk (.finished f (clientProgram false f disk sock)) (.get f)
    unfold getReply at hreply
    split at hreply
    · rename_i hempty
      refine hrefused (by decide) (by decide) hreply fun content h => ?_
      rw [List.isEmpty_iff.1 hempty] at h
      cases h
    split at hreply
    · rename_i hd
      exact hrefused (by decide) (by decide) hreply fun content h => by rw [hd] at h; cases h
    · rename_i hd
      exact hrefused (by decide) (by decide) hreply fun content h => by rw [hd] at h; cases h
    · rename_i content hd
      obtain ⟨size, -, hsize⟩ := FileManager.getFileSize_eq_some hd
      obtain ⟨hok, hfile⟩ := doGet_stores hdisk (hsize ▸ size.toNat_lt) hsend' hreply
        (hrecvs.mono (Nat.le_succ _))
      rw [hdone hok, Done, hd]
      exact ⟨rfl, hfile⟩

/-! ### Any number of clients -/

namespace Conversation
variable {cfg : ClientSession.Config} {fm : FileManager} {fs : FileSystem} {task : Task}
  {disk : LocalDisk} {client server : Socket} {n : Nat}

/-- What has become of the conversation: the client's task is done, and its session has answered every
line that it has sent and released its descriptor. -/
structure Served (fm : FileManager) (fs : FileSystem) (task : Task) (disk : LocalDisk)
    (e : Conversation) : Prop where
  done : task.Done fm fs disk e.left
  exited : e.right.pc = .exited
  released : e.right.session.socket.fd = -1
  answered : e.right.session.socket.sent = (replies fm fs (lines e.left.socket.sent)).flatten

theorem inevitably_served (hm : cfg.fileManager = fm.media fs) (halloc : cfg.allocate = none)
    (hfits : task.Fits) (hdisk : disk.Sound) (hclient : Connected client n) (hserver : Connected server n)
    (hn : task.line.length + (reply fm fs (Protocol.parseRequest task.line)).length + 32 ≤ n) :
    ∃ k, ∃ e : Conversation, Inevitable (step cfg) k
      (opened task.listMode task.getFile disk client server) e ∧ Served fm fs task disk e := by
  obtain ⟨l, body, hreply, hann⟩ := task.announced fm fs hfits
  have hdone := task.program_done fm fs disk (client.deliver (l ++ newline :: body) false) hfits hdisk
    hclient.valid
    (by rw [Socket.deliver, hclient.fin]; rfl)
    ((congrArg (· ++ (l ++ newline :: body)) hclient.inbox).trans hreply.symm)
    (hclient.recvs.mono (by
      rw [Socket.deliver, hclient.inbox, ← hreply, List.nil_append]
      dsimp only
      omega))
    (hclient.sends.mono (by omega))
  rw [hreply] at hn
  obtain ⟨k, e, hinev, ⟨bye, hleft⟩, hpc, hfd, hsent⟩ := inevitable hm halloc hfits hdisk.creates
    (Task.parseRequest_line hfits) hreply hann hclient hserver hn rfl
  refine ⟨k, e, hinev, ⟨?_, hpc, hfd, ?_⟩⟩
  · rw [hleft]
    cases task <;> exact hdone
  · rw [hsent, hleft]
    rfl

/-- Any number of clients are served at once: whatever the order of the steps and however the kernel
cuts the transfers, every run comes to the one end in which each client is done. -/
theorem clients_served {κ : Type} [Fintype κ] [DecidableEq κ] (fm : FileManager) (fs : FileSystem)
    (chunkSize memory : Nat)
    (halloc : (ClientSession.Config.new (fm.media fs) chunkSize memory).allocate = none)
    (task : κ → Task) (disk : κ → LocalDisk) (client server : κ → Socket) (n : κ → Nat)
    (hfits : ∀ k, (task k).Fits) (hdisk : ∀ k, (disk k).Sound)
    (hclient : ∀ k, Connected (client k) (n k)) (hserver : ∀ k, Connected (server k) (n k))
    (hn : ∀ k, (task k).line.length +
      (reply fm fs (Protocol.parseRequest (task k).line)).length + 32 ≤ n k) :
    ∃ total e, Inevitable (family fun _ => step (.new (fm.media fs) chunkSize memory)) total
        (fun k => opened (task k).listMode (task k).getFile (disk k) (client k) (server k)) e ∧
      ∀ k, Served fm fs (task k) (disk k) (e k) := by
  have hone (k : κ) : ∃ m, ∃ e : Conversation, Inevitable (step (.new (fm.media fs) chunkSize memory)) m
      (opened (task k).listMode (task k).getFile (disk k) (client k) (server k)) e ∧
      Served fm fs (task k) (disk k) e :=
    inevitably_served rfl halloc (hfits k) (hdisk k) (hclient k) (hserver k) (hn k)
  choose length e hinev hserved using hone
  exact ⟨_, e, Inevitable.family hinev, hserved⟩

/-- A client for the catalogue, one for a file, and one for a file that is not there. -/
def sampleTask : Fin 3 → Task
  | 0 => .list
  | 1 => .get (ascii "a")
  | 2 => .get (ascii "b")

open ClientSession in
theorem sample_clients_served : ∃ total, ∃ e : Fin 3 → Conversation,
    Inevitable (family fun _ => step (.new (sampleManager.media sampleFs) 1 1)) total
      (fun k => opened (sampleTask k).listMode (sampleTask k).getFile ⟨true, true, [], 0, true, none⟩
        (clientSocket [] 2 99 99) (clientSocket [] 1 99 99)) e ∧
    (e 0).left.listing = ⟨1, [⟨ascii "a", 2⟩]⟩ ∧ (e 1).left.disk.file = some (ascii "hi") ∧
    (e 2).left.disk.file = none := by
  have hconnected (k : Nat) (hk : Lively 99 (clientSocket [] k 99 99).sends) :
      Connected (clientSocket [] k 99 99) 99 := ⟨rfl, rfl, rfl, rfl, hk, hk⟩
  obtain ⟨total, e, hinev, hserved⟩ := clients_served sampleManager sampleFs 1 1 (by decide) sampleTask
    (fun _ => ⟨true, true, [], 0, true, none⟩) (fun _ => clientSocket [] 2 99 99)
    (fun _ => clientSocket [] 1 99 99) (fun _ => 99)
    (by
      intro k
      fin_cases k
      · exact ⟨nofun, by decide, by decide⟩
      · exact ⟨fun f h => by cases h; decide, by decide, by decide⟩
      · exact ⟨fun f h => by cases h; decide, by decide, by decide⟩)
    (fun _ => ⟨rfl, rfl, rfl, nofun, rfl⟩) (fun _ => hconnected 2 (by decide +kernel))
    (fun _ => hconnected 1 (by decide +kernel)) (by decide +kernel)
  refine ⟨total, e, hinev, ?_, ?_, ?_⟩
  · exact (hserved 0).done.2.2 [⟨ascii "a", 2⟩] (by decide +kernel) (by
      intro f hf
      obtain rfl := List.mem_singleton.1 hf
      decide +kernel)
  · exact (hserved 1).done.2
  · exact congrArg LocalDisk.file (hserved 2).done.2

end Conversation

end Streamer

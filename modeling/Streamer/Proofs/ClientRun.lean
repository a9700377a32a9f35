import Streamer.ClientThread
import Streamer.Lib.Machine
import Streamer.Proofs.FailedDownload

/-!
# The steps of the client come to `main`

One lemma for each call that the client makes, for both readings of a receive whose bytes are not
there: with `b = false` it fails, as it does with a timeout, and the steps come to `clientProgram`
(`leads_program`); with `b = true` it is no step, and a call whose bytes are all there is never kept
waiting.
-/

namespace Streamer
open Text Kernel Machine

namespace ClientThread
variable {b : Bool} {c : ClientThread}

theorem advance_eq (h : b = true → c.waits = false) : advance b c = c.step := by
  unfold advance
  cases b with
  | false => rfl
  | true => rw [h rfl]; rfl

theorem single {c' : ClientThread} (h : c.step = some c') (hw : c.waits = false) :
    Leads (advance b) c c' := .single ((advance_eq fun _ => hw).trans h)

theorem head {c' c'' : ClientThread} (h : c.step = some c') (hw : c.waits = false)
    (h' : Leads (advance b) c' c'') : Leads (advance b) c c'' :=
  .head ((advance_eq fun _ => hw).trans h) h'

/-! ### `recv_line` -/

/-- Where `recv_line` leaves the client, from the result of its loop. -/
def lineEnd (c : ClientThread) (use : LineUse) (r : Bool × Bytes × Bytes × List Answer) : ClientThread :=
  { c with socket := { c.socket with inbox := r.2.2.1, recvs := r.2.2.2 } }.lineRead r.1 r.2.1 use

/-- A line that can be read to its end is read without waiting. -/
theorem not_waits_recv {line : Bytes} {use : LineUse} (hpc : c.pc = .recv line use)
    (h : (Socket.recvLineLoop 4096 c.socket.fin c.socket.recvs c.socket.inbox line).1 = true) :
    c.waits = false := by
  obtain ⟨⟨fd, inbox, fin, recvs, sent, sends⟩, disk, getFile, listing, pc⟩ := c
  subst hpc
  dsimp only [waits, Socket.blocks] at h ⊢
  rw [Bool.and_eq_false_iff]
  right
  split
  · rename_i k sched
    cases fin with
    | true => rfl
    | false =>
      cases inbox with
      | nil =>
        simp only [Socket.recvLineLoop, Kernel.recv] at h
        split at h <;> cases h
      | cons ch inbox =>
        simp only [List.length_cons, Bool.not_false, Bool.true_and, decide_eq_false_iff_not]
        omega
  · rfl

theorem recv_leads (c : ClientThread) (line : Bytes) (use : LineUse)
    (hb : b = true →
      (Socket.recvLineLoop 4096 c.socket.fin c.socket.recvs c.socket.inbox line).1 = true) :
    Leads (advance b) { c with pc := .recv line use }
      (c.lineEnd use (Socket.recvLineLoop 4096 c.socket.fin c.socket.recvs c.socket.inbox line)) := by
  obtain ⟨⟨fd, inbox, fin, recvs, sent, sends⟩, disk, getFile, listing, pc⟩ := c
  dsimp only at hb ⊢
  induction recvs generalizing inbox line with
  | nil => exact .single (advance_eq fun h => not_waits_recv rfl (hb h))
  | cons a recvs ih =>
    refine .head (advance_eq fun h => not_waits_recv rfl (hb h)) ?_
    by_cases hlt : line.length < 4096
    swap
    · simp only [recvStep, Socket.recvLineLoop, hlt, if_false]
      exact .refl _
    cases hr : Kernel.recv 1 fin inbox a with
    | error e =>
      by_cases he : e = .EINTR
      · simp only [recvStep, Socket.recvLineLoop, hlt, hr, he, if_true] at hb ⊢
        exact ih line inbox hb
      · simp only [recvStep, Socket.recvLineLoop, hlt, hr, he, if_true, if_false]
        exact .refl _
    | ok bytes =>
      cases bytes with
      | nil =>
        simp only [recvStep, Socket.recvLineLoop, hlt, hr, if_true]
        exact .refl _
      | cons ch bytes =>
        by_cases hch : ch = newline
        · simp only [recvStep, Socket.recvLineLoop, hlt, hr, hch, if_true]
          exact .refl _
        · simp only [recvStep, Socket.recvLineLoop, hlt, hr, hch, if_true, if_false] at hb ⊢
          exact ih (line ++ [ch]) inbox.tail hb

theorem recvLine_leads (c : ClientThread) (use : LineUse) (hb : b = true → c.socket.recvLine.1 = true) :
    Leads (advance b) { c with pc := .recvLine use }
      ({ c with socket := c.socket.recvLine.2.2 }.lineRead c.socket.recvLine.1
        c.socket.recvLine.2.1 use) := by
  by_cases hv : c.socket.isValid = true
  · simp only [Socket.recvLine, hv, if_true] at hb ⊢
    exact head (c := { c with pc := .recvLine use }) (by simp [step, hv]) rfl (recv_leads c [] use hb)
  · simp only [Socket.recvLine, hv]
    exact single (c := { c with pc := .recvLine use }) (by simp [step, hv]; rfl) rfl

/-! ### `send_all` -/

theorem send_leads (c : ClientThread) (data : Bytes) (use : SendUse) (total : Nat) (before : Bytes)
    (hs : c.socket.sent = before ++ data.take total) :
    let r := Socket.sendAllLoop data total c.socket.sends
    Leads (advance b) { c with pc := .send data total use }
      ({ c with socket := { c.socket with sent := before ++ data.take r.2.1, sends := r.2.2 } }.sent
        r.1 use) := by
  obtain ⟨⟨fd, inbox, fin, recvs, out, sends⟩, disk, getFile, listing, pc⟩ := c
  subst hs
  dsimp only
  induction sends generalizing total with
  | nil => exact single rfl rfl
  | cons a sends ih =>
    refine head rfl rfl ?_
    simp only [sendStep, Socket.sendAllLoop]
    split
    · cases a with
      | fails e =>
        dsimp only
        split
        · exact ih total
        · exact .refl _
      | moves k =>
        dsimp only
        split
        · exact .refl _
        · rw [List.append_assoc, ← List.take_add]
          exact ih _
    · exact .refl _

theorem sendAll_leads (c : ClientThread) (data : Bytes) (use : SendUse) :
    Leads (advance b) { c with pc := .sendAll data use }
      ({ c with socket := (c.socket.sendString data).2 }.sent (c.socket.sendString data).1 use) := by
  simp only [Socket.sendString, Socket.sendAll]
  by_cases hv : c.socket.isValid = true
  · simp only [hv, if_true]
    exact head (c := { c with pc := .sendAll data use }) (by simp [step, hv]) rfl
      (send_leads c data use 0 c.socket.sent (by simp))
  · simp only [hv]
    exact single (c := { c with pc := .sendAll data use }) (by simp [step, hv]; rfl) rfl

/-! ### `recv_all` -/

/-- Where `recv_all` leaves the client, from the result of its loop. -/
def bufferEnd (c : ClientThread) (r : Reception) (x : Int × Bytes × Bytes × List Answer) : ClientThread :=
  { c with socket := { c.socket with inbox := x.2.2.1, recvs := x.2.2.2 } }.bufferRead r x.1 x.2.1

theorem not_waits_recvBuffer {r : Reception} {buf : Bytes} (hpc : c.pc = .recvBuffer r buf)
    (h : r.toRecv - buf.length ≤ c.socket.inbox.length) : c.waits = false := by
  simp only [waits, hpc, Socket.blocks]
  rw [Bool.and_eq_false_iff]
  right
  split
  · rw [Bool.and_eq_false_iff, decide_eq_false_iff_not]
    right
    omega
  · rfl

theorem recvBuffer_leads (c : ClientThread) (r : Reception) (buf : Bytes)
    (hb : b = true → r.toRecv - buf.length ≤ c.socket.inbox.length) :
    Leads (advance b) { c with pc := .recvBuffer r buf }
      (c.bufferEnd r
        (Socket.recvAllLoop r.toRecv c.socket.fin c.socket.recvs c.socket.inbox buf)) := by
  obtain ⟨⟨fd, inbox, fin, recvs, sent, sends⟩, disk, getFile, listing, pc⟩ := c
  dsimp only at hb ⊢
  induction recvs generalizing inbox buf with
  | nil => exact .single (advance_eq fun h => not_waits_recvBuffer rfl (hb h))
  | cons a recvs ih =>
    refine .head (advance_eq fun h => not_waits_recvBuffer rfl (hb h)) ?_
    by_cases hlt : buf.length < r.toRecv
    swap
    · simp only [recvAllStep, Socket.recvAllLoop, hlt, if_false]
      exact .refl _
    cases hr : Kernel.recv (r.toRecv - buf.length) fin inbox a with
    | error e =>
      by_cases he : e = .EINTR
      · simp only [recvAllStep, Socket.recvAllLoop, hlt, hr, he, if_true]
        exact ih buf inbox hb
      · simp only [recvAllStep, Socket.recvAllLoop, hlt, hr, he, if_true, if_false]
        exact .refl _
    | ok chunk =>
      cases chunk with
      | nil =>
        simp only [recvAllStep, Socket.recvAllLoop, hlt, hr, if_true]
        exact .refl _
      | cons ch chunk =>
        simp only [recvAllStep, Socket.recvAllLoop, hlt, hr, if_true]
        refine ih _ _ fun h => ?_
        have := hb h
        simp only [List.length_append, List.length_drop]
        omega

theorem recvAll_leads (c : ClientThread) (r : Reception)
    (hb : b = true → r.toRecv ≤ c.socket.inbox.length) :
    Leads (advance b) { c with pc := .recvAll r }
      ({ c with socket := (c.socket.recvAll r.toRecv).2.2 }.bufferRead r (c.socket.recvAll r.toRecv).1
        (c.socket.recvAll r.toRecv).2.1) := by
  by_cases hv : c.socket.isValid = true
  · simp only [Socket.recvAll, hv, if_true]
    exact head (c := { c with pc := .recvAll r }) (by simp [step, hv]) rfl (recvBuffer_leads c r [] hb)
  · simp only [Socket.recvAll, hv]
    exact single (c := { c with pc := .recvAll r }) (by simp [step, hv]; rfl) rfl

/-! ### `do_list` -/

/-- Where the loop over the rows leaves the client. -/
def rowsEnd (c : ClientThread) (res : Bool × List MediaFileInfo × Socket) : ClientThread :=
  { c with
    socket := res.2.2
    listing := { c.listing with rows := res.2.1 }
    pc := if res.1 then .sendAll (ascii "QUIT\n") (.quit none) else .listed false }

theorem rows_leads (c : ClientThread) (count : Nat)
    (hb : b = true → (listLoop count c.socket c.listing.rows).1 = true) :
    Leads (advance b) { c with pc := .rowTest count }
      (c.rowsEnd (listLoop count c.socket c.listing.rows)) := by
  induction count generalizing c with
  | zero => exact single rfl rfl
  | succ count ih =>
    have hline : b = true → c.socket.recvLine.1 = true := by
      intro h
      have hok := hb h
      dsimp only [listLoop] at hok
      cases hr : c.socket.recvLine.1 with
      | true => rfl
      | false =>
        rw [hr] at hok
        cases hok
    refine head rfl rfl ((recvLine_leads c (.row count) hline).trans ?_)
    dsimp only [listLoop] at hb ⊢
    cases hr : c.socket.recvLine.1 with
    | false => exact .refl _
    | true =>
      simp only [hr, Bool.not_true, Bool.false_eq_true, if_false] at hb ⊢
      exact ih { c with
        socket := c.socket.recvLine.2.2
        listing := { c.listing with rows := c.listing.rows ++ [listRow c.socket.recvLine.2.1] } } hb

/-- `do_list` once the reply line has come. -/
def listReceived (sock : Socket) (header : Bytes) : Except Exn Bool × Listing × Socket :=
  if !(ascii "OK").isPrefixOf header then (.ok false, {}, sock)
  else
    match substr header 3 with
    | .error x => (.error x, {}, sock)
    | .ok rest =>
      let count := (extractUnsigned rest).2
      let (ok, rows, sock) := listLoop count sock []
      if !ok then (.ok false, ⟨count, rows⟩, sock)
      else (.ok true, ⟨count, rows⟩, (sock.sendString (ascii "QUIT\n")).2)

/-- Where `do_list` leaves the client. -/
def listEnd (c : ClientThread) (res : Except Exn Bool × Listing × Socket) : ClientThread :=
  { c with
    socket := res.2.2
    listing := res.2.1
    pc := match res.1 with
      | .ok ok => .listed ok
      | .error x => .terminate x }

theorem listHeader_leads (c : ClientThread) (header : Bytes) (hlisting : c.listing = {})
    (hb : b = true → ascii "OK" <+: header →
      (listLoop (extractUnsigned (header.drop 3)).2 c.socket []).1 = true) :
    Leads (advance b) { c with pc := .header .list header }
      (c.listEnd (listReceived c.socket header)) := by
  obtain ⟨socket, disk, getFile, listing, pc⟩ := c
  dsimp only at hlisting hb
  subst hlisting
  refine head rfl rfl ?_
  unfold listReceived readHeader
  split
  · exact .refl _
  rename_i hstart
  rw [Bool.not_eq_true, Bool.not_eq_false', List.isPrefixOf_iff_prefix] at hstart
  by_cases hlen : header.length < 3
  · simp only [substr, hlen, if_true]
    exact .refl _
  simp only [substr, hlen, if_false]
  refine (rows_leads ⟨socket, disk, getFile, ⟨(extractUnsigned (header.drop 3)).2, []⟩, pc⟩ _
    fun h => hb h hstart).trans ?_
  simp only [rowsEnd]
  cases (listLoop (extractUnsigned (header.drop 3)).2 socket []).1 with
  | false => exact .refl _
  | true =>
    exact sendAll_leads ⟨_, disk, getFile, ⟨_, _⟩, pc⟩ (ascii "QUIT\n") (.quit none)

theorem doList_leads (c : ClientThread) (hlisting : c.listing = {}) :
    Leads (advance false) { c with pc := .main true } (c.listEnd (doList c.socket)) := by
  obtain ⟨socket, disk, getFile, listing, pc⟩ := c
  dsimp only at hlisting
  subst hlisting
  refine head rfl rfl ((sendAll_leads _ (ascii "LIST\n") (.request .list)).trans ?_)
  unfold doList
  dsimp only
  cases hsend : (socket.sendString (ascii "LIST\n")).1 with
  | false => exact .refl _
  | true =>
    simp only [sent, if_true, Bool.not_true, Bool.false_eq_true, if_false]
    refine (recvLine_leads (b := false) ⟨_, disk, getFile, {}, pc⟩ (.header .list) nofun).trans ?_
    dsimp only
    cases hline : (socket.sendString (ascii "LIST\n")).2.recvLine.1 with
    | false => exact .refl _
    | true => exact listHeader_leads ⟨_, disk, getFile, {}, pc⟩ _ rfl nofun

/-! ### `do_get` -/

/-- Where the loop of `do_get` leaves the client. -/
def receiveEnd (c : ClientThread) (res : Bool × Socket × OutFile) : ClientThread :=
  { c with
    socket := res.2.1
    pc := if res.1 then .canonical res.2.2 else .closeFile res.2.2 (.ok false) }

theorem receive_leads (c : ClientThread) {fileSize fuel total : Nat} {out : OutFile}
    (hfuel : fileSize - total + CHUNK_SIZE ≤ fuel * CHUNK_SIZE)
    (hb : b = true → fileSize - total ≤ c.socket.inbox.length) :
    Leads (advance b) { c with pc := .receiveTest ⟨fileSize, total, out⟩ }
      (c.receiveEnd (receiveLoop fileSize fuel total c.socket out)) := by
  have hpos : 0 < CHUNK_SIZE := by decide
  induction fuel generalizing c total out with
  | zero => omega
  | succ fuel ih =>
    unfold receiveLoop
    dsimp only
    by_cases hlt : total < fileSize
    swap
    · rw [if_neg hlt]
      exact single (c := { c with pc := .receiveTest ⟨fileSize, total, out⟩ })
        (by simp [step, hlt]; rfl) rfl
    rw [if_pos hlt]
    refine head (c := { c with pc := .receiveTest ⟨fileSize, total, out⟩ })
      (by simp [step, hlt]; rfl) rfl ?_
    refine (recvAll_leads c ⟨fileSize, total, out⟩ fun h => ?_).trans ?_
    · exact Nat.le_trans (Nat.min_le_right _ _) (hb h)
    show Leads _ (bufferRead _ _ (c.socket.recvAll (min CHUNK_SIZE (fileSize - total))).1 _) _
    unfold bufferRead
    by_cases h0 : (c.socket.recvAll (min CHUNK_SIZE (fileSize - total))).1 = 0
    · rw [if_pos h0, if_pos h0]
      exact .refl _
    rw [if_neg h0, if_neg h0]
    by_cases h1 : (c.socket.recvAll (min CHUNK_SIZE (fileSize - total))).1 < 0
    · rw [if_pos h1, if_pos h1]
      exact .refl _
    rw [if_neg h1, if_neg h1]
    refine head rfl rfl (ih _ ?_ fun h => ?_)
    · show fileSize - (total + min CHUNK_SIZE (fileSize - total)) + CHUNK_SIZE ≤ fuel * CHUNK_SIZE
      unfold CHUNK_SIZE at hfuel ⊢
      omega
    · obtain ⟨taken, rest, recvs, hin, hlen, -, hsock⟩ := Socket.recvAll_done h0 h1
      have hle := hb h
      rw [hin, List.length_append, hlen] at hle
      show fileSize - (total + min CHUNK_SIZE (fileSize - total)) ≤ _
      rw [show Reception.toRecv ⟨fileSize, total, out⟩ = min CHUNK_SIZE (fileSize - total) from rfl, hsock]
      dsimp only
      omega

/-- Where `do_get` leaves the client. -/
def getEnd (c : ClientThread) (res : Except Exn Bool × Socket × LocalDisk) : ClientThread :=
  { c with
    socket := res.2.1
    disk := res.2.2
    pc := match res.1 with
      | .ok ok => .close ok
      | .error x => .terminate x }

theorem getHeader_leads (c : ClientThread) (header : Bytes)
    (hb : b = true → ascii "OK" <+: header →
      (extractUnsigned (header.drop 3)).2 ≤ c.socket.inbox.length) :
    Leads (advance b) { c with pc := .header .get header }
      (c.getEnd (download c.disk c.socket header)) := by
  obtain ⟨socket, disk, getFile, listing, pc⟩ := c
  refine head rfl rfl ?_
  unfold download readHeader
  split
  · exact .refl _
  rename_i hstart
  rw [Bool.not_eq_true, Bool.not_eq_false', List.isPrefixOf_iff_prefix] at hstart
  by_cases hlen : header.length < 3
  · simp only [substr, hlen, if_true]
    exact .refl _
  simp only [substr, hlen, if_false]
  split
  · exact .refl _
  refine head rfl rfl ?_
  dsimp only
  split
  · exact .refl _
  refine (receive_leads ⟨socket, disk, getFile, listing, pc⟩ (turns_enough _)
    fun h => hb h hstart).trans ?_
  generalize receiveLoop _ _ 0 socket _ = res
  obtain ⟨ok, sock, out⟩ := res
  cases ok with
  | false => exact single rfl rfl
  | true =>
    refine head rfl rfl ?_
    cases hres : disk.resolves with
    | false =>
      simp only [receiveEnd, hres, Bool.not_true, Bool.not_false, Bool.false_eq_true, if_true, if_false]
      exact single rfl rfl
    | true =>
      simp only [receiveEnd, hres, Bool.not_true, Bool.false_eq_true, if_false]
      exact (sendAll_leads ⟨sock, disk, getFile, listing, pc⟩ _ (.quit (some out))).trans
        (single rfl rfl)

theorem doGet_leads (c : ClientThread) :
    Leads (advance false) { c with pc := .createDirectories }
      (c.getEnd (doGet c.disk c.socket c.getFile)) := by
  obtain ⟨socket, disk, getFile, listing, pc⟩ := c
  refine head rfl rfl ?_
  unfold doGet
  dsimp only
  split
  · exact .refl _
  refine (sendAll_leads ⟨socket, disk, getFile, listing, pc⟩ _ (.request .get)).trans ?_
  dsimp only
  cases hsend : (socket.sendString (ascii "GET " ++ getFile ++ [newline])).1 with
  | false => exact .refl _
  | true =>
    simp only [sent, if_true, Bool.not_true, Bool.false_eq_true, if_false]
    refine (recvLine_leads (b := false) ⟨_, disk, getFile, listing, pc⟩ (.header .get) nofun).trans ?_
    dsimp only
    cases hline : (socket.sendString (ascii "GET " ++ getFile ++ [newline])).2.recvLine.1 with
    | false => exact .refl _
    | true => exact getHeader_leads ⟨_, disk, getFile, listing, pc⟩ _ nofun

/-! ### `main` -/

/-- Where the client ends. -/
def finished (getFile : Bytes) (res : Except Exn Bool × Listing × Socket × LocalDisk) : ClientThread :=
  { socket := res.2.2.1
    disk := res.2.2.2
    getFile := getFile
    listing := res.2.1
    pc := match res.1 with
      | .ok ok => .exited ok
      | .error x => .thrown x }

theorem getEnd_leads (c : ClientThread) (res : Except Exn Bool × Socket × LocalDisk) :
    Leads (advance b) (c.getEnd res)
      (finished c.getFile (res.1, c.listing, res.2.1.close, res.2.2)) := by
  obtain ⟨r, sock, disk⟩ := res
  cases r <;> exact single rfl rfl

/-- Nothing is to be fetched after the list. -/
theorem listEnd_leads (c : ClientThread) (res : Except Exn Bool × Listing × Socket)
    (hfile : c.getFile = []) :
    Leads (advance b) (c.listEnd res) (finished [] (res.1, res.2.1, res.2.2.close, c.disk)) := by
  obtain ⟨socket, disk, getFile, listing, pc⟩ := c
  obtain rfl : getFile = [] := hfile
  obtain ⟨r, listing', sock⟩ := res
  cases r with
  | error x => exact single rfl rfl
  | ok ok => cases ok <;> exact head rfl rfl (single rfl rfl)

theorem leads_program (listMode : Bool) (getFile : Bytes) (disk : LocalDisk) (sock : Socket) :
    Leads (advance false) (new listMode getFile disk sock)
      (finished getFile (clientProgram listMode getFile disk sock)) := by
  have hlisted (ok : Bool) (listing : Listing) (sock : Socket) :
      Leads (advance false) ⟨sock, disk, getFile, listing, .listed ok⟩
        (finished getFile
          (if ok && !getFile.isEmpty then
            ((doGet disk sock getFile).1, listing, (doGet disk sock getFile).2.1.close,
              (doGet disk sock getFile).2.2)
          else (.ok ok, listing, sock.close, disk))) := by
    refine head rfl rfl ?_
    dsimp only
    split
    · exact (doGet_leads ⟨sock, disk, getFile, listing, .main false⟩).trans (getEnd_leads _ _)
    · exact single rfl rfl
  cases listMode with
  | false => exact head rfl rfl (hlisted true {} sock)
  | true =>
    refine (doList_leads (new true getFile disk sock) rfl).trans ?_
    show Leads _ (listEnd _ (doList sock)) _
    unfold clientProgram
    generalize doList sock = res
    obtain ⟨r, listing, sock'⟩ := res
    cases r with
    | error x => exact single rfl rfl
    | ok ok =>
      have := hlisted ok listing sock'
      cases ok <;> exact this

theorem step_finished (getFile : Bytes) (res : Except Exn Bool × Listing × Socket × LocalDisk) :
    (finished getFile res).step = none := by
  obtain ⟨r, listing, sock, disk⟩ := res
  cases r <;> rfl

/-- Whatever the kernel and the destination answer, every run of the client can be continued to its one
end, where it has done what `clientProgram` does. -/
theorem client_ends (listMode : Bool) (getFile : Bytes) (disk : LocalDisk) (sock : Socket) :
    (finished getFile (clientProgram listMode getFile disk sock)).step = none ∧
      ∃ n, ∀ m c, iter step m (new listMode getFile disk sock) = some c →
        m ≤ n ∧ iter step (n - m) c =
          some (finished getFile (clientProgram listMode getFile disk sock)) :=
  ⟨step_finished _ _, (leads_program listMode getFile disk sock).ends_in (step_finished _ _)⟩

end ClientThread
end Streamer

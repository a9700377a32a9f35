import Streamer.Proofs.Catalogue
import Streamer.Proofs.CutReplies
import Streamer.Proofs.Endpoints
import Streamer.Proofs.WorkerRun

/-!
# A conversation comes to one end

One run is followed from the connection to its end, each side alone as long as it can go on: the request,
the reply, the farewell, the end of the session. The sides commute, so every run comes to that end
(`Conversation.inevitable`): the client does what `clientProgram` does on the whole reply, and the
session sends the replies to the lines that the client has sent.
-/

namespace Streamer
open Text Kernel Filesystem Machine

/-! ### The session -/

namespace Worker
variable {cfg : ClientSession.Config} {w w' : Worker}

/-- `run()` is about to return. -/
def leaving (w : Worker) : Bool :=
  match w.pc with
  | .deactivate | .close | .exited => true
  | _ => false

/-- A session that would have to wait gives up instead, if the receive fails. -/
theorem step_of_waits (hw : w.waits = true) (h : step cfg w = some w') : w'.leaving = true := by
  obtain ⟨⟨⟨fd, inbox, fin, recvs, sent, sends⟩, active, stops, clock, trace⟩, pc⟩ := w
  cases pc with
  | recv line =>
    unfold waits Socket.blocks at hw
    cases recvs with
    | nil => simp at hw
    | cons a recvs =>
      cases a with
      | fails e => simp at hw
      | moves k =>
        simp only [Bool.and_eq_true, decide_eq_true_eq, Bool.not_eq_true'] at hw
        obtain ⟨hlt, hfin, hin⟩ := hw
        obtain rfl : inbox = [] := List.length_eq_zero_iff.1 (by omega)
        subst hfin
        simp only [step, recvStep, hlt, if_true, Kernel.recv] at h
        cases h
        rfl
  | _ => cases hw

theorem step_leaving (hw : w.leaving = true) (h : step cfg w = some w') : w'.leaving = true := by
  obtain ⟨s, pc⟩ := w
  cases pc with
  | deactivate => cases h; rfl
  | close => cases h; rfl
  | exited => cases h
  | _ => cases hw

theorem iter_leaving {n : Nat} (hw : w.leaving = true) (h : iter (step cfg) n w = some w') :
    w'.leaving = true := by
  induction n generalizing w with
  | zero => cases h; exact hw
  | succ n ih =>
    obtain ⟨t, ht, h⟩ := Option.bind_eq_some_iff.1 h
    exact ih (step_leaving hw ht) h

/-- A session that has not given up has never had to wait. -/
theorem leads_advance (h : Leads (step cfg) w w') (hw : w'.leaving = false) :
    Leads (advance cfg) w w' := by
  obtain ⟨n, h⟩ := h
  induction n generalizing w with
  | zero => cases h; exact .refl _
  | succ n ih =>
    obtain ⟨t, ht, h⟩ := Option.bind_eq_some_iff.1 h
    refine .head ((advance_eq ?_).trans ht) (ih h)
    refine Bool.eq_false_iff.2 fun hwaits => ?_
    rw [iter_leaving (step_of_waits hwaits ht) h] at hw
    cases hw

/-- Behind the end of the stream nothing has to wait. -/
theorem leads_advance_fin (h : Leads (step cfg) w w') (hfin : w.session.socket.fin = true) :
    Leads (advance cfg) w w' := by
  obtain ⟨n, h⟩ := h
  induction n generalizing w with
  | zero => cases h; exact .refl _
  | succ n ih =>
    obtain ⟨t, ht, h⟩ := Option.bind_eq_some_iff.1 h
    refine .head ((advance_eq ?_).trans ht) (ih ((step_socket ht).2.trans hfin) h)
    unfold waits Socket.blocks
    rw [hfin]
    split
    · rw [Bool.and_eq_false_iff]
      right
      split <;> rfl
    · rfl

section
variable {fm : FileManager} {fs : FileSystem} {socket : Socket} {line : Bytes} {n m : Nat}

/-- The session that stands before its next request: what it has sent, and how much it can still
receive and send. -/
structure Idle (s : ClientSession) (sent : Bytes) (n m : Nat) : Prop where
  unstopped : s.stops = []
  active : s.isActive = true
  valid : s.socket.isValid = true
  inbox : s.socket.inbox = []
  fin : s.socket.fin = false
  sent_eq : s.socket.sent = sent
  recvs : Lively n s.socket.recvs
  sends : Lively m s.socket.sends

theorem Idle.mono {s : ClientSession} {sent : Bytes} {n' m' : Nat} (h : Idle s sent n m) (hn : n' ≤ n)
    (hm : m' ≤ m) : Idle s sent n' m' :=
  { h with recvs := h.recvs.mono hn, sends := h.sends.mono hm }

/-- The first request of a connection is answered. -/
theorem serves_request (socket : Socket) (line : Bytes) (hm : cfg.fileManager = fm.media fs)
    (halloc : cfg.allocate = none)
    (hv : socket.isValid = true) (hin : socket.inbox = line ++ [newline]) (hfin : socket.fin = false)
    (hsent : socket.sent = []) (hnl : newline ∉ line) (hlen : line.length < 4096)
    (hquit : (Protocol.parseRequest line).type ≠ .QUIT)
    (hrecvs : Lively (line.length + 1 + n) socket.recvs)
    (hsends : Lively ((reply fm fs (Protocol.parseRequest line)).length + m) socket.sends) :
    ∃ s, Leads (advance cfg) (new socket) ⟨s, .loopTest⟩ ∧
      Idle s (reply fm fs (Protocol.parseRequest line)) n m := by
  obtain ⟨recvs, hrecv, hlive⟩ := Socket.recvLine_newline 4096 hv hin hnl hlen hrecvs
  generalize hr : Protocol.parseRequest line = r at *
  have hparse : Protocol.parseRequest (dropCr line) = r := (Protocol.parseRequest_dropCr line).trans hr
  -- the session when it has read the line
  generalize ht : (({ ClientSession.new { socket with inbox := [], recvs := recvs } with
      isActive := true }.emit .recvLine).emit (.request r)) = t
  have htsocket : t.socket = { socket with inbox := [], recvs := recvs } := by rw [← ht]; rfl
  have htstops : t.stops = [] := by rw [← ht]; rfl
  have htactive : t.isActive = true := by rw [← ht]; rfl
  obtain ⟨hx, hout, hactive, hlive'⟩ := (ClientSession.handle_answers hm t r).lively halloc htstops
    htactive (by rw [htsocket]; exact hv) m (by rw [htsocket]; exact hsends)
  obtain ⟨evs, hh, -⟩ := ClientSession.Served.handle t cfg r
  obtain ⟨hstops, hfd⟩ := hh.unstopped htstops
  have hserve : Leads (step cfg) (new socket) ⟨(ClientSession.handle cfg t r).2, .loopTest⟩ := by
    have hline : ({ ClientSession.new socket with isActive := true } : ClientSession).recvLine =
        (true, dropCr line, { ClientSession.new { socket with inbox := [], recvs := recvs } with
          isActive := true }.emit .recvLine) := by
      simp only [ClientSession.recvLine, ClientSession.new, hrecv]
    have hread : Leads (step cfg) ⟨{ ClientSession.new socket with isActive := true }, .recvLine⟩ _ :=
      recvLine_leads _
    rw [hline] at hread
    have hhandle : Leads (step cfg) ⟨t, dispatch r⟩ _ := handle_leads t r htstops
    rw [handled, hx] at hhandle
    refine .head rfl (.head rfl (hread.trans (.head ?_ hhandle)))
    rw [← ht, ← hparse]
    rfl
  refine ⟨_, leads_advance hserve rfl, ⟨hstops, ?_, ?_, ?_, ?_, ?_, ?_, hlive'⟩⟩
  · rw [hactive]
    exact decide_eq_true hquit
  · rw [Socket.isValid, hfd, htsocket]
    exact hv
  · rw [hh.inbox, htsocket]
  · rw [hh.fin, htsocket]
    exact hfin
  · rw [hout, htsocket, hsent, List.nil_append]
  · rw [hh.recvs, htsocket]
    exact hlive

/-- What is left on the connection is answered, and the session ends with it. -/
theorem takes_leave (hm : cfg.fileManager = fm.media fs) (halloc : cfg.allocate = none)
    {s : ClientSession} {sent rest : Bytes} (hs : Idle s sent (rest.length + 1) m)
    (hle : (replies fm fs (lines rest)).flatten.length ≤ m) :
    ∃ s', Leads (advance cfg) (deliver rest true ⟨s, .loopTest⟩) ⟨s', .exited⟩ ∧
      s'.socket.sent = sent ++ (replies fm fs (lines rest)).flatten ∧ s'.socket.fd = -1 := by
  generalize hs₁ : ({ s with socket := s.socket.deliver rest true } : ClientSession) = s₁
  have hin : s₁.socket.inbox = rest := by
    rw [← hs₁]
    exact (congrArg (· ++ rest) hs.inbox).trans (List.nil_append rest)
  have hfin : s₁.socket.fin = true := by
    rw [← hs₁]
    exact Bool.or_true _
  have hready : ClientSession.Ready s₁ ((replies fm fs (lines s₁.socket.inbox)).flatten.length + 0) := by
    refine ⟨?_, ?_, ?_, hfin, fun _ => ?_, ?_⟩
    · rw [← hs₁]; exact hs.unstopped
    · rw [← hs₁]; exact hs.active
    · rw [← hs₁]; exact hs.valid
    · rw [hin, ← hs₁]; exact hs.recvs
    · rw [hin, ← hs₁]; exact hs.sends.mono hle
  have hruns : ClientSession.Runs cfg s₁ _ :=
    ClientSession.runLoop_runs (Nat.lt_succ_self s₁.socket.recvs.length)
  obtain ⟨hx, hsent, -, hfd⟩ := hruns.sends_replies hm halloc hready
  have hleads := runs_leads hruns hready.unstopped
  rw [finished, hx] at hleads
  have hstart : deliver rest true ⟨s, .loopTest⟩ = ⟨s₁, .loopTest⟩ := by rw [← hs₁]; rfl
  rw [hstart]
  refine ⟨_, leads_advance_fin hleads hfin, ?_, hfd⟩
  rw [hsent, hin, ← hs₁]
  exact congrArg (· ++ _) hs.sent_eq

end
end Worker

/-! ### The client -/

/-- What the client is started for. -/
inductive Task where
  | list
  | get (filename : Bytes)

namespace Task

def listMode : Task → Bool
  | .list => true
  | .get _ => false

def getFile : Task → Bytes
  | .list => []
  | .get filename => filename

def query : Task → Query
  | .list => .list
  | .get _ => .get

/-- The line that asks for it. -/
def line : Task → Bytes
  | .list => ascii "LIST"
  | .get filename => ascii "GET " ++ filename

/-- The command line names a file, and the request is one line of a length that the server accepts. -/
structure Fits (task : Task) : Prop where
  named : ∀ filename, task = .get filename → filename ≠ []
  one_line : newline ∉ task.line
  length_lt : task.line.length < 4096

end Task

/-- A reply that is a line `l`, and behind it what the line announces. -/
structure Announces (query : Query) (l body : Bytes) : Prop where
  one_line : newline ∉ l
  length_lt : l.length < 4096
  size : query = .get → ascii "OK" <+: dropCr l → (extractUnsigned ((dropCr l).drop 3)).2 ≤ body.length
  rows : query = .list → ascii "OK" <+: dropCr l →
    (extractUnsigned ((dropCr l).drop 3)).2 ≤ (received false body).length ∧
      ∀ row ∈ received false body, row.length < 4096

/-- `QUIT` is all that is sent behind the reply. -/
theorem download_farewell (disk : LocalDisk) (sock : Socket) (header : Bytes) :
    ∃ q, q <+: ascii "QUIT\n" ∧ (download disk sock header).2.1.sent = sock.sent ++ q := by
  have hnone {s : Socket} (h : s.sent = sock.sent) :
      ∃ q, q <+: ascii "QUIT\n" ∧ s.sent = sock.sent ++ q := ⟨[], List.nil_prefix, by simp [h]⟩
  unfold download
  split
  · exact hnone rfl
  split
  · exact hnone rfl
  dsimp only
  split
  · exact hnone rfl
  split
  · exact hnone rfl
  split
  · exact hnone receiveLoop_sent
  split
  · exact hnone receiveLoop_sent
  · rename_i rest _ _ _ _ _
    obtain ⟨q, hq, -, hs⟩ := Socket.sendAll_spec
      (receiveLoop (extractUnsigned rest).2 ((extractUnsigned rest).2 / CHUNK_SIZE + 2) 0 sock
        ⟨[], false, disk.writes⟩).2.1 (ascii "QUIT\n")
    refine ⟨q, hq, (congrArg Socket.sent hs).trans ?_⟩
    rw [receiveLoop_sent]

theorem recvLine_sent (sock : Socket) : sock.recvLine.2.2.sent = sock.sent := by
  unfold Socket.recvLine
  split <;> rfl

theorem listLoop_sent (count : Nat) (sock : Socket) (rows : List MediaFileInfo) :
    (listLoop count sock rows).2.2.sent = sock.sent := by
  induction count generalizing sock rows with
  | zero => rfl
  | succ count ih =>
    dsimp only [listLoop]
    split
    · exact recvLine_sent sock
    · exact (ih _ _).trans (recvLine_sent sock)

theorem listReceived_farewell (sock : Socket) (header : Bytes) :
    ∃ q, q <+: ascii "QUIT\n" ∧ (ClientThread.listReceived sock header).2.2.sent = sock.sent ++ q := by
  have hnone {s : Socket} (h : s.sent = sock.sent) :
      ∃ q, q <+: ascii "QUIT\n" ∧ s.sent = sock.sent ++ q := ⟨[], List.nil_prefix, by simp [h]⟩
  unfold ClientThread.listReceived
  split
  · exact hnone rfl
  split
  · exact hnone rfl
  dsimp only
  split
  · exact hnone (listLoop_sent _ _ _)
  · rename_i rest _ _
    obtain ⟨q, hq, -, hs⟩ :=
      Socket.sendAll_spec (listLoop (extractUnsigned rest).2 sock []).2.2 (ascii "QUIT\n")
    refine ⟨q, hq, (congrArg Socket.sent hs).trans ?_⟩
    rw [listLoop_sent]

namespace ClientThread
variable {task : Task} {disk : LocalDisk} {sock : Socket}

theorem request_leads (hfits : task.Fits) (hcreates : disk.creates = true)
    (hsend : (sock.sendString (task.line ++ [newline])).1 = true) :
    Leads (advance true) (new task.listMode task.getFile disk sock)
      ⟨(sock.sendString (task.line ++ [newline])).2, disk, task.getFile, {},
        .recvLine (.header task.query)⟩ := by
  cases task with
  | list =>
    have hleads :=
        sendAll_leads (b := true) ⟨sock, disk, [], {}, .main true⟩ (ascii "LIST\n") (.request .list)
    refine head rfl rfl (hleads.trans ?_)
    rw [show sock.sendString (ascii "LIST\n") = sock.sendString (Task.list.line ++ [newline]) from rfl,
      hsend]
    exact .refl _
  | get f =>
    have hne : f.isEmpty = false := by
      rw [List.isEmpty_eq_false_iff]
      exact hfits.named f rfl
    have hleads := sendAll_leads (b := true) ⟨sock, disk, f, {}, .main false⟩
      ((Task.get f).line ++ [newline]) (.request .get)
    rw [hsend] at hleads
    have hmake : Leads (advance true) ⟨sock, disk, f, {}, .createDirectories⟩ _ :=
      head (by simp [step, hcreates, Task.line]) rfl hleads
    have hlisted : Leads (advance true) ⟨sock, disk, f, {}, .listed true⟩ _ :=
      head (by simp [step, hne]) rfl hmake
    exact head rfl rfl hlisted

/-- A client that has the whole reply before it reads on to its end, and says goodbye. -/
theorem reply_leads (disk : LocalDisk) {l body : Bytes} (hfits : task.Fits) (hcreates : disk.creates = true)
    (hsend : (sock.sendString (task.line ++ [newline])).1 = true)
    (hfin : sock.fin = false) (hin : sock.inbox = l ++ newline :: body)
    (hreply : Announces task.query l body)
    (hrecvs : Lively (sock.inbox.length + 1) sock.recvs) :
    Leads (advance true)
        ⟨(sock.sendString (task.line ++ [newline])).2, disk, task.getFile, {},
          .recvLine (.header task.query)⟩
        (finished task.getFile (clientProgram task.listMode task.getFile disk sock)) ∧
      ∃ q, q <+: ascii "QUIT\n" ∧ (clientProgram task.listMode task.getFile disk sock).2.2.1.sent =
        sock.sent ++ (task.line ++ [newline]) ++ q := by
  obtain ⟨sock₁, hsent, hv, hin₁, hfin₁, hrecvs₁, hsent₁⟩ : ∃ sock₁,
      sock.sendString (task.line ++ [newline]) = (true, sock₁) ∧ sock₁.isValid = true ∧
        sock₁.inbox = l ++ newline :: body ∧ sock₁.fin = false ∧
        Lively (l.length + 1 + (body.length + 1)) sock₁.recvs ∧
        sock₁.sent = sock.sent ++ (task.line ++ [newline]) := by
    obtain ⟨sends, hsent⟩ := Socket.sendString_true hsend
    rw [hin, List.length_append, List.length_cons] at hrecvs
    have hv := Socket.sendString_isValid hsend
    exact ⟨_, hsent, hv, hin, hfin, hrecvs.mono (by omega), rfl⟩
  obtain ⟨sock₂, hline, hsteady, hin₂, hfin₂, hsent₂⟩ : ∃ sock₂,
      sock₁.recvLine = (true, dropCr l, sock₂) ∧ sock₂.Steady ∧ sock₂.inbox = body ∧
        sock₂.fin = false ∧ sock₂.sent = sock₁.sent := by
    obtain ⟨recvs, hline, hlive⟩ :=
      Socket.recvLine_newline 4096 hv hin₁ hreply.one_line hreply.length_lt hrecvs₁
    exact ⟨_, hline, ⟨hv, fun _ => hlive⟩, rfl, hfin₁, rfl⟩
  have hread := recvLine_leads (b := true) ⟨sock₁, disk, task.getFile, {}, .main true⟩
    (.header task.query) (fun _ => congrArg Prod.fst hline)
  rw [hline] at hread
  rw [hsent, ← hsent₁, ← hsent₂]
  cases task with
  | list =>
    have hlist : doList sock = listReceived sock₂ (dropCr l) := by
      unfold doList
      rw [show sock.sendString (ascii "LIST\n") = (true, sock₁) from hsent]
      dsimp only
      rw [hline]
      rfl
    have hprogram : clientProgram true [] disk sock =
        ((doList sock).1, (doList sock).2.1, (doList sock).2.2.close, disk) := by
      unfold clientProgram
      generalize doList sock = res
      obtain ⟨r, listing, sock'⟩ := res
      cases r with
      | error x => rfl
      | ok ok => cases ok <;> rfl
    rw [show Task.list.listMode = true from rfl, show Task.list.getFile = [] from rfl, hprogram, hlist]
    refine ⟨hread.trans
      ((listHeader_leads ⟨sock₂, disk, [], {}, .main true⟩ _ rfl fun _ hstart => ?_).trans
      (listEnd_leads ⟨sock₂, disk, [], {}, .main true⟩ _ rfl)), ?_⟩
    · obtain ⟨hcount, hrows⟩ := hreply.rows rfl hstart
      refine (listLoop_iff hsteady).2 ?_
      rw [hfin₂, hin₂]
      exact ⟨hcount, fun row hrow => hrows row (List.mem_of_mem_take hrow)⟩
    · dsimp only
      rw [(Socket.close_streams _).1]
      exact listReceived_farewell sock₂ _
  | get f =>
    have hne : f.isEmpty = false := by
      rw [List.isEmpty_eq_false_iff]
      exact hfits.named f rfl
    have hget : doGet disk sock f = download disk sock₂ (dropCr l) := by
      unfold doGet
      rw [show sock.sendString (ascii "GET " ++ f ++ [newline]) = (true, sock₁) from hsent, hcreates]
      dsimp only
      rw [hline]
      rfl
    have hprogram : clientProgram false f disk sock =
        ((doGet disk sock f).1, {}, (doGet disk sock f).2.1.close, (doGet disk sock f).2.2) := by
      simp [clientProgram, hne]
    rw [show (Task.get f).listMode = false from rfl, show (Task.get f).getFile = f from rfl, hprogram,
      hget]
    refine ⟨hread.trans ((getHeader_leads ⟨sock₂, disk, f, {}, .main true⟩ _ fun _ hstart => ?_).trans
      (getEnd_leads ⟨sock₂, disk, f, {}, .main true⟩ _)), ?_⟩
    · rw [hin₂]
      exact hreply.size rfl hstart
    · dsimp only
      rw [(Socket.close_streams _).1]
      exact download_farewell disk sock₂ _

theorem closed_finished (getFile : Bytes) (res : Except Exn Bool × Listing × Socket × LocalDisk) :
    (finished getFile res).closed = true := by
  obtain ⟨r, listing, sock, disk⟩ := res
  cases r <;> rfl

end ClientThread

/-! ### Both together -/

/-- An end of a connection that was just opened: nothing has been sent yet, and the kernel will move
bytes at least `n` times in each direction. -/
structure Connected (sock : Socket) (n : Nat) : Prop where
  valid : sock.isValid = true
  inbox : sock.inbox = []
  fin : sock.fin = false
  sent : sock.sent = []
  recvs : Lively n sock.recvs
  sends : Lively n sock.sends

namespace Conversation
variable {cfg : ClientSession.Config} {fm : FileManager} {fs : FileSystem} {task : Task}
  {disk : LocalDisk} {client server : Socket} {l body : Bytes} {n : Nat}

/-- The client does what `clientProgram` does on the whole reply, and the session answers every line
of what the client has sent. -/
theorem reaches_end (hm : cfg.fileManager = fm.media fs) (halloc : cfg.allocate = none)
    (hfits : task.Fits) (hcreates : disk.creates = true)
    (hquit : (Protocol.parseRequest task.line).type ≠ .QUIT)
    (hreply : reply fm fs (Protocol.parseRequest task.line) = l ++ newline :: body)
    (hann : Announces task.query l body)
    (hclient : Connected client n) (hserver : Connected server n)
    (hn : task.line.length + (l ++ newline :: body).length + 32 ≤ n)
    {done : Except Exn Bool × Listing × Socket × LocalDisk}
    (hprogram : clientProgram task.listMode task.getFile disk
      (client.deliver (l ++ newline :: body) false) = done) :
    ∃ e : Conversation, Reaches (step cfg) (opened task.listMode task.getFile disk client server) e ∧
      (∃ bye, e.left = (ClientThread.finished task.getFile done).deliver bye true) ∧
      e.right.pc = .exited ∧ e.right.session.socket.fd = -1 ∧
      e.right.session.socket.sent = (replies fm fs (lines done.2.2.1.sent)).flatten := by
  have hP := ClientThread.endpoint_lawful
  have hQ := Worker.endpoint_lawful cfg
  generalize hsock : client.deliver (l ++ newline :: body) false = sock at hprogram
  have hin : sock.inbox = l ++ newline :: body := by
    rw [← hsock]
    exact congrArg (· ++ _) hclient.inbox
  have hlen : (task.line ++ [newline]).length = task.line.length + 1 := List.length_append
  obtain ⟨sends, hsend, -⟩ := Socket.sendString_lively (task.line ++ [newline]) (n := 0) hclient.valid
    (hclient.sends.mono (by omega))
  have hrequest : sock.sendString (task.line ++ [newline]) =
      (true, (client.sendString (task.line ++ [newline])).2.deliver (l ++ newline :: body) false) := by
    rw [← hsock, Socket.sendString_deliver, hsend]
  -- the client asks
  have h₁ : Reaches (step cfg) (opened task.listMode task.getFile disk client server)
      ⟨⟨(client.sendString (task.line ++ [newline])).2, disk, task.getFile, {},
        .recvLine (.header task.query)⟩, .new (server.deliver (task.line ++ [newline]) false)⟩ :=
    Duplex.reaches_left hP hQ rfl
      (ClientThread.request_leads hfits hcreates (congrArg Prod.fst hsend)) (congrArg (·.2.sent) hsend) _
  -- the session answers
  obtain ⟨s, hserve, hidle⟩ := Worker.serves_request (n := 6) (m := 22)
    (server.deliver (task.line ++ [newline]) false) task.line hm halloc hserver.valid
    (congrArg (· ++ _) hserver.inbox) (by rw [Socket.deliver, hserver.fin]; rfl) hserver.sent
    hfits.one_line hfits.length_lt hquit (hserver.recvs.mono (by omega))
    (hserver.sends.mono (by rw [hreply]; omega))
  rw [hreply] at hidle
  have h₂ : Reaches (step cfg) (opened task.listMode task.getFile disk client server)
      ⟨⟨(sock.sendString (task.line ++ [newline])).2, disk, task.getFile, {},
        .recvLine (.header task.query)⟩, ⟨s, .loopTest⟩⟩ := by
    rw [hrequest]
    refine h₁.trans (Duplex.reaches_right hP hQ rfl hserve ?_ _)
    exact hidle.sent_eq.trans (congrArg (· ++ _) hserver.sent.symm)
  -- the client reads the reply and leaves
  obtain ⟨hread, q, hq, hdone⟩ := ClientThread.reply_leads disk hfits hcreates
    (congrArg Prod.fst hrequest) (by rw [← hsock, Socket.deliver, hclient.fin]; rfl) hin hann (by
      rw [hin, ← hsock]
      exact hclient.recvs.mono (by omega))
  rw [hprogram] at hread hdone
  have hsent₃ : done.2.2.1.sent = (sock.sendString (task.line ++ [newline])).2.sent ++ q := by
    rw [hdone, hrequest, hsend, ← hsock]
    rfl
  have h₃ : Reaches (step cfg) (opened task.listMode task.getFile disk client server)
      ⟨.finished task.getFile done, .deliver q true ⟨s, .loopTest⟩⟩ := by
    have hleft := Duplex.reaches_left hP hQ rfl hread hsent₃ ⟨s, .loopTest⟩
    rw [show ClientThread.endpoint.closed (.finished task.getFile done) = true from
      ClientThread.closed_finished task.getFile done] at hleft
    exact h₂.trans hleft
  -- the session sees the end of the stream
  have hqlen : q.length ≤ 5 := hq.length_le
  have hbye : (replies fm fs (lines q)).flatten.length ≤ 22 := by
    rcases replies_quit fm fs hq with h | h | h <;> rw [h] <;> decide
  obtain ⟨s', hleave, hsent', hfd⟩ := Worker.takes_leave hm halloc
    (hidle.mono (by omega) (Nat.le_refl _)) hbye
  have hsent₄ : s'.socket.sent = s.socket.sent ++ (replies fm fs (lines q)).flatten := by
    rw [hsent', hidle.sent_eq]
  refine ⟨_, h₃.trans (Duplex.reaches_right hP hQ rfl hleave hsent₄ _), ⟨_, rfl⟩, rfl, hfd, ?_⟩
  have hall : done.2.2.1.sent = task.line ++ newline :: q := by
    rw [hdone, ← hsock]
    show client.sent ++ _ ++ q = _
    rw [hclient.sent]
    simp
  rw [hall, lines_append_newline hfits.one_line, replies, if_neg (Nat.not_le_of_lt hfits.length_lt),
    Protocol.parseRequest_dropCr]
  dsimp only
  rw [if_neg hquit, hreply, List.flatten_cons]
  exact hsent'

theorem inevitable (hm : cfg.fileManager = fm.media fs) (halloc : cfg.allocate = none)
    (hfits : task.Fits) (hcreates : disk.creates = true)
    (hquit : (Protocol.parseRequest task.line).type ≠ .QUIT)
    (hreply : reply fm fs (Protocol.parseRequest task.line) = l ++ newline :: body)
    (hann : Announces task.query l body)
    (hclient : Connected client n) (hserver : Connected server n)
    (hn : task.line.length + (l ++ newline :: body).length + 32 ≤ n)
    {done : Except Exn Bool × Listing × Socket × LocalDisk}
    (hprogram : clientProgram task.listMode task.getFile disk
      (client.deliver (l ++ newline :: body) false) = done) :
    ∃ k, ∃ e : Conversation, Inevitable (step cfg) k
        (opened task.listMode task.getFile disk client server) e ∧
      (∃ bye, e.left = (ClientThread.finished task.getFile done).deliver bye true) ∧
      e.right.pc = .exited ∧ e.right.session.socket.fd = -1 ∧
      e.right.session.socket.sent = (replies fm fs (lines done.2.2.1.sent)).flatten := by
  obtain ⟨e, hreach, ⟨bye, hleft⟩, hpc, hfd, hsent⟩ :=
    reaches_end hm halloc hfits hcreates hquit hreply hann hclient hserver hn hprogram
  have hlinked : Duplex.Linked ClientThread.endpoint (Worker.endpoint cfg)
      (opened task.listMode task.getFile disk client server) := by
    refine ⟨fun h => ?_, fun h => ?_⟩
    · exact absurd (h.symm.trans hserver.fin) (by simp)
    · exact absurd (h.symm.trans hclient.fin) (by simp)
  have hend : ∀ side, step cfg e side = none := by
    intro side
    cases side with
    | left =>
      have hclosed : ClientThread.endpoint.closed e.left = true := by
        rw [hleft]
        exact ClientThread.closed_finished task.getFile done
      rw [step, Duplex.step, ClientThread.endpoint_lawful.closed_step _ hclosed]
      rfl
    | right =>
      have hclosed : (Worker.endpoint cfg).closed e.right = true := by
        show e.right.closed = true
        rw [Worker.closed, hpc]
      rw [step, Duplex.step, (Worker.endpoint_lawful cfg).closed_step _ hclosed]
      rfl
  obtain ⟨k, hk⟩ := (commuting cfg).inevitable hlinked hreach hend
  exact ⟨k, e, hk, ⟨bye, hleft⟩, hpc, hfd, hsent⟩

end Conversation

end Streamer

import Streamer.Proofs.Events

/-!
# A session answers every line with its reply

The specification of a session on an unchanging media directory: the input is cut into `lines`, each
line has one `reply`, and the session sends the replies in order up to `QUIT` or to a line that is too
long (`replies`). `Answers` is the refinement for one request: what was sent is a part of the reply,
the whole reply if the session goes on and nothing has failed unnoticed, and with a kernel that keeps
moving bytes the request is always answered in full.
-/

namespace Streamer
open Text Kernel Filesystem

section Spec
variable (fm : FileManager) (fs : FileSystem)

def getReply (filename : Bytes) : Bytes :=
  if filename.isEmpty then Protocol.buildErrorResponse (ascii "EMPTY_FILENAME")
  else match fm.designated fs filename with
    | none => Protocol.buildErrorResponse (ascii "FILE_NOT_FOUND")
    | some (_, false) => Protocol.buildErrorResponse (ascii "FILE_OPEN_FAILED")
    | some (content, true) => Protocol.buildGetHeader content.length ++ content

def listReply : Bytes :=
  match fm.listFiles fs with
  | .ok files => Protocol.buildListResponse files
  | .error _ => []

def reply (r : Request) : Bytes :=
  match r.type with
  | .LIST => listReply fm fs
  | .GET => getReply fm fs r.argument
  | .QUIT => Protocol.buildOkResponse (ascii "BYE")
  | .UNKNOWN => Protocol.buildErrorResponse (ascii "INVALID_REQUEST")

/-- The replies to the lines of a stream. -/
def replies : List Bytes → List Bytes
  | [] => []
  | line :: rest =>
    if 4096 ≤ line.length then []
    else
      let r := Protocol.parseRequest (dropCr line)
      reply fm fs r :: if r.type = .QUIT then [] else replies rest

end Spec

namespace ClientSession

def Checked (s s' : ClientSession) : Prop :=
  ∀ evs, s'.trace = s.trace ++ evs → ∀ e ∈ evs, e.unnoticed = false

/-- `res` is what handling a request with this reply comes to; `stays` unless it was a `QUIT`. -/
structure Answers (cfg : Config) (s : ClientSession) (res : Option Exn × ClientSession) (reply : Bytes)
    (stays : Bool) : Prop where
  part : ∃ acc, acc <+: reply ∧ res.2.socket.sent = s.socket.sent ++ acc ∧
    (res.1 = none → res.2.isActive = true → acc = reply ∨ ascii "ERROR " <+: reply ∧ ¬ Checked s res.2)
  quits : stays = false → res.2.isActive = false
  lively : cfg.allocate = none → s.stops = [] → s.isActive = true → s.socket.isValid = true →
    ∀ n, Lively (reply.length + n) s.socket.sends →
      res.1 = none ∧ res.2.socket.sent = s.socket.sent ++ reply ∧ res.2.isActive = stays ∧
        Lively n res.2.socket.sends

theorem send_lively {s : ClientSession} {data : Bytes} {n : Nat} (site : Site)
    (hv : s.socket.isValid = true) (h : Lively (data.length + n) s.socket.sends) :
    (s.send site data).1 = true ∧ (s.send site data).2.socket.sent = s.socket.sent ++ data ∧
      Lively n (s.send site data).2.socket.sends := by
  obtain ⟨hok, hl⟩ := Socket.sendAll_lively hv h
  obtain ⟨acc, -, hacc, hs⟩ := s.send_spec site data
  have hok' : (s.send site data).1 = true := hok
  refine ⟨hok', ?_, ?_⟩
  · rw [hs, hacc hok']
  · rw [hs]; exact hl

theorem Answers.send {cfg : Config} {s s' : ClientSession} {stays : Bool} (site : Site) (data : Bytes)
    (hsocket : s'.socket = (s.send site data).2.socket) (htrace : s'.trace = (s.send site data).2.trace)
    (hcheck : (s.send site data).1 = false →
      (site.isError = true ∧ ascii "ERROR " <+: data) ∨ s'.isActive = false)
    (hquit : stays = false → s'.isActive = false)
    (hok : (s.send site data).1 = true → s.isActive = true → s'.isActive = stays) :
    Answers cfg s (none, s') data stays where
  part := by
    obtain ⟨acc, hpre, hacc, hs⟩ := s.send_spec site data
    refine ⟨acc, hpre, by simp only [hsocket]; rw [hs], ?_⟩
    intro _ hact
    cases hf : (s.send site data).1 with
    | true => exact .inl (hacc hf)
    | false =>
      rw [hs] at htrace
      rcases hcheck hf with ⟨he, hdata⟩ | hi
      · refine .inr ⟨hdata, ?_⟩
        intro hc
        simpa [Event.unnoticed, he] using hc _ htrace (.send site data acc false) (by simp [hf])
      · rw [hi] at hact; cases hact
  quits := hquit
  lively := by
    intro _ _ hact hv n hl
    obtain ⟨h1, h2, h3⟩ := send_lively site hv hl
    exact ⟨rfl, by simp only [hsocket, h2], hok h1 hact, by simp only [hsocket]; exact h3⟩

theorem Answers.sendError {cfg : Config} (s : ClientSession) (site : Site) (message : Bytes)
    (he : site.isError = true) :
    Answers cfg s (none, s.sendError site message) (Protocol.buildErrorResponse message) true :=
  .send site _ rfl rfl (fun _ =>
    .inl ⟨he, by rw [Protocol.buildErrorResponse, List.append_assoc]; exact List.prefix_append _ _⟩)
    nofun fun _ h => by
    obtain ⟨acc, -, -, hs⟩ := s.send_spec site (Protocol.buildErrorResponse message)
    simpa [ClientSession.sendError, hs] using h

theorem Answers.of_tick {cfg : Config} {s : ClientSession} {res : Option Exn × ClientSession}
    {reply : Bytes}
    {stays : Bool} (h : Answers cfg s.tick res reply stays) : Answers cfg s res reply stays :=
  ⟨h.part, h.quits, h.lively⟩

/-- Streaming a file that does not change sends its bytes in order, all of them unless the session
ends. -/
theorem Streams.content {chunkSize : Nat} {c : Bytes} {nth totalSent : Nat} {good : Bool}
    {s s' : ClientSession}
    (hc : 0 < chunkSize) (h : Streams chunkSize (.ofContent c) c.length nth totalSent good s s')
    (hle : totalSent ≤ c.length) (hgood : good = true) :
    (∃ acc, acc <+: c.drop totalSent ∧ s'.socket.sent = s.socket.sent ++ acc ∧
      (s'.isActive = true → acc = c.drop totalSent)) ∧
    (s.stops = [] → s.isActive = true → s.socket.isValid = true →
      ∀ n, Lively ((c.drop totalSent).length + n) s.socket.sends →
        s'.socket.sent = s.socket.sent ++ c.drop totalSent ∧ s'.isActive = true ∧
          Lively n s'.socket.sends) := by
  induction h with
  | @stopped nth totalSent good s hl =>
    obtain ⟨logs, hext, hlogs, hact, -⟩ := endTransfer_spec c.length totalSent s.loadActive.2
    refine ⟨⟨[], List.nil_prefix, ?_, ?_⟩, ?_⟩
    · rw [hext.sent, (Extends.loadActive s).sent, flatMap_bytes_logs hlogs]; simp
    · intro ha
      rw [loadActive_fst, hact ha] at hl; cases hl
    · intro hst ha
      rw [s.loadActive_unstopped hst, ha] at hl; cases hl
  | @ended nth totalSent good s h =>
    have hdone : c.drop totalSent = [] := by
      rcases h with h | h
      · exact List.drop_of_length_le h
      · rw [hgood] at h; cases h
    obtain ⟨logs, hext, hlogs, -, hst⟩ := endTransfer_spec c.length totalSent s.loadActive.2
    have hsent : (endTransfer c.length totalSent s.loadActive.2).socket.sent = s.socket.sent ++
        c.drop totalSent := by
      rw [hext.sent, (Extends.loadActive s).sent, flatMap_bytes_logs hlogs, hdone]; simp
    refine ⟨⟨c.drop totalSent, List.prefix_rfl, hsent, fun _ => rfl⟩, fun hstops ha _ n hl => ⟨hsent, ?_⟩⟩
    rw [s.loadActive_unstopped hstops] at hst ⊢
    rw [(hst hstops).1, (hst hstops).2]
    exact ⟨ha, hl.mono (by omega)⟩
  | @zero nth totalSent s asked hl ht ha hr =>
    have hlen := congrArg List.length hr
    simp only [FileStream.ofContent, List.length_take, List.length_drop, List.length_nil] at hlen
    omega
  | @failed nth totalSent s asked buffer hl ht ha hr hne hs =>
    obtain ⟨acc, hpre, -, -, hext⟩ :=
      Extends.send (s.loadActive.2.emit (.read asked buffer)) .chunk buffer
    have hsent := (((Extends.loadActive s).trans (.emit _ rfl)).trans hext).sent
    refine ⟨⟨acc, hpre.trans (hr ▸ List.take_prefix _ _), by simpa [Event.bytes] using hsent, nofun⟩, ?_⟩
    intro hst hact hv n hlv
    rw [s.loadActive_unstopped hst] at hs
    have hlen : buffer.length ≤ (c.drop totalSent).length := hr ▸ List.length_take_le' _ _
    rw [(send_lively (n := n) .chunk (s := s.emit _) hv (hlv.mono (by omega))).1] at hs
    cases hs
  | @next nth totalSent s s' asked buffer hl ht ha hr hne hs hrest ih =>
    have hlen : buffer.length = asked := by
      rw [← hr]
      simp only [FileStream.ofContent, List.length_take, List.length_drop]
      omega
    have hcut : c.drop totalSent = buffer ++ c.drop (totalSent + buffer.length) := by
      rw [← List.drop_drop, hlen, ← hr]
      exact (List.take_append_drop asked _).symm
    obtain ⟨⟨acc', hpre', hsent', hdone⟩, hlive⟩ := ih (by omega) (by simpa using hlen)
    obtain ⟨acc, -, hacc, hact, hext⟩ :=
      Extends.send (s.loadActive.2.emit (.read asked buffer)) .chunk buffer
    have hsent := (((Extends.loadActive s).trans (.emit _ rfl)).trans hext).sent
    rw [hacc hs] at hsent
    simp only [List.nil_append, List.singleton_append, List.flatMap_cons, List.flatMap_nil, Event.bytes,
      List.append_nil] at hsent
    refine ⟨⟨buffer ++ acc', ?_, ?_, ?_⟩, ?_⟩
    · rw [hcut]; exact (List.prefix_append_right_inj _).2 hpre'
    · rw [hsent', hsent, List.append_assoc]
    · intro ha
      rw [hdone ha, hcut]
    · intro hst hactive hv n hlv
      rw [hcut, List.length_append, Nat.add_assoc] at hlv
      have hload := s.loadActive_unstopped hst
      rw [hload] at hlive hsent hext hact
      obtain ⟨-, -, hlv'⟩ := send_lively .chunk (s := s.emit (.read asked buffer)) hv hlv
      obtain ⟨hst', hfd⟩ := hext.unstopped hst
      have hv' : ((s.emit (.read asked buffer)).send .chunk buffer).2.socket.isValid = true := by
        simp only [Socket.isValid, hfd] at hv ⊢; exact hv
      obtain ⟨h1, h2, h3⟩ := hlive hst' (hact.trans hactive) hv' n hlv'
      exact ⟨by rw [h1, hsent, hcut, List.append_assoc], h2, h3⟩

theorem transfer_answers (cfg : Config) (s : ClientSession) {c : Bytes} (hc : c.length < 2 ^ 64) :
    Answers cfg s (transfer cfg s (.ofContent c) c.length)
      (Protocol.buildGetHeader c.length ++ c) true := by
  obtain ⟨acc, hpre, hacc, hact, hext⟩ :=
    Extends.send s (.header c.length) (Protocol.buildGetHeader c.length)
  have hsent := hext.sent
  simp only [List.flatMap_cons, List.flatMap_nil, Event.bytes, List.append_nil] at hsent
  unfold transfer
  dsimp only
  split
  · rename_i hf
    refine ⟨⟨acc, hpre.trans (List.prefix_append _ _), hsent, by simp⟩, by simp, ?_⟩
    intro _ _ _ hv n hl
    rw [List.length_append, Nat.add_assoc] at hl
    rw [(send_lively (.header c.length) hv hl).1] at hf
    cases hf
  rename_i hok
  have hok : (s.send (.header c.length) (Protocol.buildGetHeader c.length)).1 = true := by simpa using hok
  rw [hacc hok] at hsent
  split
  · rename_i x hx
    exact ⟨⟨_, List.prefix_append _ _, hsent, by simp⟩, by simp, fun ha => by rw [hx] at ha; cases ha⟩
  · have hst := streamLoop_streams cfg.chunkSize (.ofContent c) hc (c.length + 1) 0 true
      (s.send (.header c.length) (Protocol.buildGetHeader c.length)).2 (Nat.zero_le _)
        (Nat.lt_succ_self _)
    obtain ⟨⟨acc', hpre', hsent', hdone⟩, hlive⟩ := hst.content cfg.chunk_pos (Nat.zero_le _) rfl
    simp only [List.drop_zero] at hpre' hdone hlive
    refine ⟨⟨Protocol.buildGetHeader c.length ++ acc', ?_, ?_, ?_⟩, by simp, ?_⟩
    · exact (List.prefix_append_right_inj _).2 hpre'
    · rw [hsent', hsent, List.append_assoc]
    · intro _ ha
      rw [hdone ha]; exact .inl rfl
    · intro _ hstops hactive hv n hl
      rw [List.length_append, Nat.add_assoc] at hl
      obtain ⟨-, -, hl'⟩ := send_lively (.header c.length) hv hl
      obtain ⟨hstops', hfd⟩ := hext.unstopped hstops
      have hv' :
          (s.send (.header c.length) (Protocol.buildGetHeader c.length)).2.socket.isValid = true := by
        simp only [Socket.isValid, hfd] at hv ⊢; exact hv
      obtain ⟨h1, h2, h3⟩ := hlive hstops' (hact.trans hactive) hv' n hl'
      exact ⟨rfl, by rw [h1, hsent, List.append_assoc], h2, h3⟩

section
variable {fm : FileManager} {fs : FileSystem} {cfg : Config} (hm : cfg.fileManager = fm.media fs)
    (s : ClientSession)
include hm

theorem handleGet_answers (filename : Bytes) :
    Answers cfg s (handleGet cfg s filename) (getReply fm fs filename) true := by
  unfold handleGet getReply
  split
  · exact .sendError s _ _ rfl
  cases hd : fm.designated fs filename with
  | none =>
    simp only [hm, FileManager.media, FileManager.getFileSize_eq_none hd]
    exact (Answers.sendError s.tick .fileNotFound _ rfl).of_tick
  | some file =>
    obtain ⟨c, readable⟩ := file
    obtain ⟨size, hsize, hlen⟩ := FileManager.getFileSize_eq_some hd
    simp only [hm, FileManager.media, hsize, FileManager.openBinaryFile_eq hd, hlen]
    cases readable with
    | false => exact (Answers.sendError s.tick.tick .fileOpenFailed _ rfl).of_tick.of_tick
    | true => exact (transfer_answers cfg s.tick.tick (hlen ▸ size.toNat_lt)).of_tick.of_tick

theorem handle_answers (request : Request) :
    Answers cfg s (handle cfg s request) (reply fm fs request) (decide (request.type ≠ .QUIT)) := by
  unfold handle reply
  cases htype : request.type with
  | GET => exact handleGet_answers hm s request.argument
  | UNKNOWN => exact .sendError s _ _ rfl
  | QUIT => exact .send .bye _ rfl rfl (fun _ => .inr rfl) (fun _ => rfl) fun _ _ => rfl
  | LIST =>
    obtain ⟨files, hfiles⟩ := fm.listFiles_ok fs
    simp only [handleList, listReply, hm, FileManager.media, hfiles]
    have hact : (s.tick.send .list (Protocol.buildListResponse files)).2.isActive = s.isActive := by
      obtain ⟨acc, -, -, hact, -⟩ := Extends.send s.tick .list (Protocol.buildListResponse files)
      exact hact
    refine (@Answers.send cfg s.tick _ true .list _ ?_ ?_ (fun h => .inr ?_) nofun fun h hs => ?_).of_tick
    · split <;> rfl
    · split <;> rfl
    · simp [h]
    · simp only [h, Bool.not_true, Bool.false_eq_true, if_false, hact]
      exact hs

/-! ### Whole runs -/

omit hm in
theorem recvLine_line {s : ClientSession} (h : s.recvLine.1 = true) :
    ∃ l rest, newline ∉ l ∧ l.length < 4096 ∧ lines s.socket.inbox = l :: lines rest ∧
      s.recvLine.2.2.socket.inbox = rest ∧ s.recvLine.2.2.socket.fin = s.socket.fin ∧
      Protocol.parseRequest s.recvLine.2.1 = Protocol.parseRequest (dropCr l) ∧
      (s.socket.inbox = l ++ newline :: rest ∨ s.socket.inbox = l ∧ s.socket.fin = true) := by
  obtain ⟨l, rest, hl, hlen, hs, hcase⟩ := Socket.recvLine_true h
  refine ⟨l, rest, hl, hlen, ?_, congrArg Socket.inbox hs, ?_, ?_, ?_⟩
  · rcases hcase with ⟨hin, -⟩ | ⟨hin, -, hne, hrest, -⟩
    · rw [hin, lines_append_newline hl]
    · rw [hin, hrest, lines_of_not_mem hl hne]; rfl
  · rw [show s.recvLine.2.2.socket = s.socket.recvLine.2.2 from rfl, hs]
  · rcases hcase with ⟨-, hline⟩ | ⟨-, -, -, -, hline⟩
    · exact congrArg _ hline
    · rw [Protocol.parseRequest_dropCr]; exact congrArg _ hline
  · exact hcase.imp (·.1) fun h => ⟨h.1, h.2.1⟩

omit hm in
/-- The kernel keeps moving bytes: every line of the input can be read and `n` bytes can be sent. -/
structure Ready (s : ClientSession) (n : Nat) : Prop where
  unstopped : s.stops = []
  active : s.isActive = true
  valid : s.socket.isValid = true
  fin : s.socket.fin = true
  recvs : s.socket.inbox ≠ [] → Lively (s.socket.inbox.length + 1) s.socket.recvs
  sends : Lively n s.socket.sends

theorem Ready.turn {s : ClientSession} {n : Nat} (halloc : cfg.allocate = none)
    (h : Ready s ((replies fm fs (lines s.socket.inbox)).flatten.length + n))
    (hr : s.recvLine.1 = true) {r : Request}
    (hp : Protocol.parseRequest s.recvLine.2.1 = r) {res : Option Exn × ClientSession}
    (hres : handle cfg (s.recvLine.2.2.emit (.request r)) r = res) :
    res.1 = none ∧ ∃ tail, replies fm fs (lines s.socket.inbox) = reply fm fs r :: tail ∧
      res.2.socket.sent = s.socket.sent ++ reply fm fs r ∧ res.2.socket.isValid = true ∧
        res.2.stops = [] ∧
      (r.type = .QUIT → tail = [] ∧ res.2.isActive = false) ∧
      (r.type ≠ .QUIT → tail = replies fm fs (lines res.2.socket.inbox) ∧
        Ready res.2 (tail.flatten.length + n)) := by
  obtain ⟨l, rest, -, hlen, hls, hinbox, hfin, hpl, -⟩ := recvLine_line hr
  obtain ⟨-, hsent, hsends, hfd, hact, hst⟩ := s.recvLine_spec
  have hreplies : replies fm fs (lines s.socket.inbox) =
      reply fm fs r :: if r.type = .QUIT then [] else replies fm fs (lines rest) := by
    rw [hls, replies, if_neg (Nat.not_le_of_lt hlen), ← hpl, hp]
  have hne : s.socket.inbox ≠ [] := fun h => by rw [h] at hls; cases hls
  have hrecvs := (Socket.recvLine_lively (n := 0) h.valid h.fin (h.recvs hne) hls hlen).2
  have hv : (s.recvLine.2.2.emit (.request r)).socket.isValid = true := by
    simpa only [Socket.isValid, emit, hfd] using h.valid
  have hlv := h.sends
  rw [hreplies, List.flatten_cons, List.length_append, Nat.add_assoc] at hlv
  obtain ⟨evs, hh, -⟩ := Served.handle (s.recvLine.2.2.emit (.request r)) cfg r
  obtain ⟨h1, h2, h3, h4⟩ := (handle_answers hm (s.recvLine.2.2.emit (.request r)) r).lively halloc
    (hst.trans h.unstopped) (hact.trans h.active) hv _ (by simpa only [emit, hsends] using hlv)
  rw [hres] at hh h1 h2 h3 h4
  obtain ⟨hst', hfd'⟩ := hh.unstopped (hst.trans h.unstopped)
  refine ⟨h1, _, hreplies, ?_, ?_, hst', fun hq => ⟨if_pos hq, ?_⟩, fun hq => ⟨?_, ?_⟩⟩
  · simpa only [emit, hsent] using h2
  · simpa only [Socket.isValid, hfd'] using hv
  · simpa [hq] using h3
  · rw [if_neg hq, hh.inbox]
    exact congrArg _ (congrArg _ hinbox.symm)
  · refine ⟨hst', by simpa [hq] using h3, by simpa only [Socket.isValid, hfd'] using hv, ?_, ?_, h4⟩
    · rw [hh.fin]; exact hfin.trans h.fin
    · rw [hh.inbox, hh.recvs]; exact hrecvs

/-- With such a kernel the session sends all replies, then closes. -/
theorem Runs.sends_replies {s : ClientSession} {res : Option Exn × ClientSession} (h : Runs cfg s res)
    (halloc : cfg.allocate = none) {n : Nat}
    (hs : Ready s ((replies fm fs (lines s.socket.inbox)).flatten.length + n)) :
    res.1 = none ∧ res.2.socket.sent = s.socket.sent ++ (replies fm fs (lines s.socket.inbox)).flatten ∧
      res.2.isActive = false ∧ res.2.socket.fd = -1 := by
  have hclosed (s : ClientSession) (hv : s.socket.isValid = true) : s.disconnect.socket.fd = -1 := by
    simp only [Socket.isValid, decide_eq_true_eq] at hv
    simp [disconnect, Socket.close, hv]
  induction h with
  | @stopped s hl => rw [s.loadActive_unstopped hs.unstopped, hs.active] at hl; cases hl
  | @ended s hl hr =>
    rw [s.loadActive_unstopped hs.unstopped] at hr ⊢
    obtain ⟨-, hsent, -, hfd, -⟩ := s.recvLine_spec
    have hnone : replies fm fs (lines s.socket.inbox) = [] := by
      cases hls : lines s.socket.inbox with
      | nil => rfl
      | cons l ls =>
        by_cases hlen : 4096 ≤ l.length
        · simp [replies, hlen]
        · have hne : s.socket.inbox ≠ [] := fun h => by rw [h] at hls; cases hls
          have := (Socket.recvLine_lively (n := 0) hs.valid hs.fin (hs.recvs hne) hls
            (Nat.lt_of_not_le hlen)).1
          rw [show s.socket.recvLine.1 = s.recvLine.1 from rfl, hr] at this
          cases this
    refine ⟨rfl, by simp [hnone, hsent], rfl, hclosed _ ?_⟩
    simpa only [Socket.isValid, hfd] using hs.valid
  | @thrown s r x hl hr hp hx =>
    rw [s.loadActive_unstopped hs.unstopped] at hr hp hx
    rw [(hs.turn hm halloc hr hp rfl).1] at hx
    cases hx
  | @next s r res hl hr hp hx hrest ih =>
    rw [s.loadActive_unstopped hs.unstopped] at hr hp hx hrest ih
    obtain ⟨-, tail, hreplies, hsent, hv, hst, hquit, hstay⟩ := hs.turn hm halloc hr hp rfl
    by_cases hq : r.type = .QUIT
    · obtain ⟨htail, hi⟩ := hquit hq
      rw [hrest.of_inactive hi, loadActive_unstopped _ hst]
      exact ⟨rfl, by simp [hsent, hreplies, htail], rfl, hclosed _ hv⟩
    · obtain ⟨htail, hready⟩ := hstay hq
      obtain ⟨h1, h2, h3, h4⟩ := ih (htail ▸ hready)
      exact ⟨h1, by rw [h2, hsent, hreplies, htail, List.flatten_cons, List.append_assoc], h3, h4⟩

/-- What a session sends before it ends is made of parts of the replies, one for each request it has
served, whatever the kernel does. As long as no `ERROR` line fails only the last part is cut. -/
theorem Runs.sends_parts {s : ClientSession} {res : Option Exn × ClientSession} (h : Runs cfg s res) :
    ∃ accs served, res.2.socket.sent = s.socket.sent ++ accs.flatten ∧
      List.Forall₂ (· <+: ·) accs served ∧
      served <+: replies fm fs (lines s.socket.inbox) ∧
      ((∀ e ∈ res.2.trace, e.unnoticed = false) →
        accs.flatten <+: (replies fm fs (lines s.socket.inbox)).flatten) := by
  have hload (s : ClientSession) := Extends.loadActive s
  have hturn (s : ClientSession) (r : Request) (hr : s.loadActive.2.recvLine.1 = true)
      (hp : Protocol.parseRequest s.loadActive.2.recvLine.2.1 = r) :
      replies fm fs (lines s.socket.inbox) = reply fm fs r ::
        if r.type = .QUIT then []
        else replies fm fs (lines s.loadActive.2.recvLine.2.2.socket.inbox) := by
    obtain ⟨l, rest, -, hlen, hls, hinbox, -, hpl, -⟩ := recvLine_line hr
    rw [(hload s).inbox] at hls
    rw [hls, replies, if_neg (Nat.not_le_of_lt hlen), ← hpl, hp, hinbox]
  have hbegin (s : ClientSession) (r : Request) :
      (s.loadActive.2.recvLine.2.2.emit (.request r)).socket.sent = s.socket.sent := by
    obtain ⟨-, h2, -⟩ := s.loadActive.2.recvLine_spec
    simp [emit, h2, (hload s).sent]
  induction h with
  | @stopped s hl =>
    exact ⟨[], [], by simp [(hload s).sent], .nil, List.nil_prefix, fun _ => List.nil_prefix⟩
  | @ended s hl hr =>
    obtain ⟨-, hsent, -⟩ := s.loadActive.2.recvLine_spec
    exact ⟨[], [], by simp [hsent, (hload s).sent], .nil, List.nil_prefix, fun _ => List.nil_prefix⟩
  | @thrown s r x hl hr hp hx =>
    obtain ⟨acc, hpre, hsent, -⟩ :=
      (handle_answers hm (s.loadActive.2.recvLine.2.2.emit (.request r)) r).part
    refine ⟨[acc], [reply fm fs r], by simp [hsent, hbegin], .cons hpre .nil, ?_, ?_⟩
    · rw [hturn s r hr hp]; exact ⟨_, rfl⟩
    · intro _
      rw [hturn s r hr hp]
      simpa using hpre.trans (List.prefix_append _ _)
  | @next s r res hl hr hp hx hrest ih =>
    obtain ⟨acc, hpre, hsent, hwhole⟩ :=
      (handle_answers hm (s.loadActive.2.recvLine.2.2.emit (.request r)) r).part
    cases hact : (handle cfg (s.loadActive.2.recvLine.2.2.emit (.request r)) r).2.isActive with
    | false =>
      -- the session is over, this reply is the last
      refine ⟨[acc], [reply fm fs r], ?_, .cons hpre .nil, ?_, ?_⟩
      · rw [hrest.of_inactive hact]
        simp [(hload _).sent, hsent, hbegin]
      · rw [hturn s r hr hp]; exact ⟨_, rfl⟩
      · intro _
        rw [hturn s r hr hp]
        simpa using hpre.trans (List.prefix_append _ _)
    | true =>
      obtain ⟨accs, served, hsent', hparts, hserved, hcut⟩ := ih
      obtain ⟨evs, hh, -⟩ := Served.handle (s.loadActive.2.recvLine.2.2.emit (.request r)) cfg r
      have hq : r.type ≠ .QUIT := fun hq => by
        have := (handle_answers hm (s.loadActive.2.recvLine.2.2.emit (.request r)) r).quits (by simp [hq])
        rw [hact] at this
        cases this
      have hreplies := hturn s r hr hp
      rw [if_neg hq, show s.loadActive.2.recvLine.2.2.socket.inbox = _ from hh.inbox.symm] at hreplies
      refine ⟨acc :: accs, reply fm fs r :: served, ?_, .cons hpre hparts, ?_, ?_⟩
      · rw [hsent', hsent, hbegin, List.flatten_cons, List.append_assoc]
      · rw [hreplies]; exact (List.cons_prefix_cons).2 ⟨rfl, hserved⟩
      · intro hc
        have hchecked : Checked (s.loadActive.2.recvLine.2.2.emit (.request r))
            (handle cfg (s.loadActive.2.recvLine.2.2.emit (.request r)) r).2 := fun evs hevs e he =>
          hc e (hrest.trace_prefix.subset (by rw [hevs]; simp [he]))
        rw [hreplies, (hwhole hx hact).resolve_right fun h => h.2 hchecked, List.flatten_cons,
          List.flatten_cons]
        exact (List.prefix_append_right_inj _).2 (hcut hc)

end

/-- A session on an unchanging media directory, with sends that succeed, no exception and no `stop`,
sends exactly the replies to the lines of its input, however the kernel cuts the two streams. -/
theorem run_sends_replies (fm : FileManager) (fs : FileSystem) (chunkSize memory : Nat) (socket : Socket)
    (halloc : (Config.new (fm.media fs) chunkSize memory).allocate = none) (hv : socket.isValid = true)
    (hsent : socket.sent = []) (hfin : socket.fin = true)
    (hrecvs : Lively (socket.inbox.length + 1) socket.recvs)
    (hsends : Lively (replies fm fs (lines socket.inbox)).flatten.length socket.sends) :
    let res := run (.new (fm.media fs) chunkSize memory) (.new socket)
    res.1 = none ∧ res.2.socket.sent = (replies fm fs (lines socket.inbox)).flatten ∧
      res.2.isActive = false ∧ res.2.socket.fd = -1 := by
  have hready : Ready { ClientSession.new socket with isActive := true }
      ((replies fm fs (lines socket.inbox)).flatten.length + 0) :=
        ⟨rfl, rfl, hv, hfin, fun _ => hrecvs, hsends⟩
  obtain ⟨h1, h2, h3, h4⟩ := (run_runs _ (.new socket)).sends_replies rfl halloc hready
  exact ⟨h1, by rw [h2]; simp [ClientSession.new, hsent], h3, h4⟩

def sampleTree : List (Loc × Node) :=
  [([], .dir [ascii "m"]), ([ascii "m"], .dir [ascii "a"]),
    ([ascii "m", ascii "a"], .file (ascii "hi") true)]

def sampleFs : FileSystem := .ofNodes sampleTree 40 (by decide)

def sampleManager : FileManager := ⟨.ofNames [ascii "m"], .ofNames [ascii "m"]⟩

/-- The client has sent `input` and ended its stream. The kernel interrupts the first call of each
kind and then moves at most `k` bytes a call. -/
def connection (input : Bytes) (k recvs sends : Nat) : Socket :=
  ⟨3, input, true, .fails .EINTR :: .replicate recvs (.moves k), [],
    .fails .EINTR :: .replicate sends (.moves k)⟩

theorem sample_sends_replies :
    let res := run (.new (sampleManager.media sampleFs) 1 1)
      (.new (connection (ascii "GET a\r\n\nlist\nQUIT\nGET a") 2 99 99))
    res.1 = none ∧ res.2.socket.sent = ascii "OK 2\nhiERROR INVALID_REQUEST\nOK 1\na 2\nOK BYE\n" ∧
      res.2.isActive = false ∧ res.2.socket.fd = -1 := by
  refine run_sends_replies sampleManager sampleFs 1 1
    (connection (ascii "GET a\r\n\nlist\nQUIT\nGET a") 2 99 99) ?_ ?_ ?_ ?_ ?_ ?_ <;> decide +kernel

end ClientSession
end Streamer

import Streamer.Proofs.Replies

/-!
# The requests a session executes, on a stream and on a part of it

The requests depend on the lines of the stream alone, up to the one that ends the session
(`executed`): a `QUIT`, a line that is too long, a listing or a buffer that throws. So two runs on
a stream and on a prefix of it are compared line by line; they can differ only in the piece that
the end of the shorter stream leaves without a newline.
-/

namespace Streamer
open Text Kernel Filesystem

namespace ClientSession

def requests (trace : List Event) : List Request :=
  trace.filterMap fun
    | .request r => some r
    | _ => none

theorem requests_append (t t' : List Event) : requests (t ++ t') = requests t ++ requests t' :=
  List.filterMap_append

/-! ### What the lines alone decide -/

section Spec
variable (cfg : Config)

/-- Whether the session goes on after a request, and the calls on the `FileManager` made by then. -/
def outcome (clock : Nat) (r : Request) : Bool × Nat :=
  match r.type with
  | .LIST => ((cfg.fileManager.listFiles clock).isOk, clock + 1)
  | .GET =>
    if r.argument.isEmpty then (true, clock)
    else match cfg.fileManager.getFileSize clock r.argument with
      | none => (true, clock + 1)
      | some _ =>
        match cfg.fileManager.openBinaryFile (clock + 1) r.argument with
        | none => (true, clock + 2)
        | some _ => (cfg.allocate.isNone, clock + 2)
  | .QUIT => (false, clock)
  | .UNKNOWN => (true, clock)

def executed : (clock : Nat) → List Bytes → List Request
  | _, [] => []
  | clock, l :: ls =>
    if 4096 ≤ l.length then []
    else
      let r := Protocol.parseRequest l
      r :: if (outcome cfg clock r).1 then executed (outcome cfg clock r).2 ls else []

/-- The calls made when the lines have been served, if the session is not over by then. -/
def served : (clock : Nat) → List Bytes → Option Nat
  | clock, [] => some clock
  | clock, l :: ls =>
    if 4096 ≤ l.length then none
    else
      let r := Protocol.parseRequest l
      if (outcome cfg clock r).1 then served (outcome cfg clock r).2 ls else none

variable {cfg}

theorem executed_append {clock : Nat} (ls ls' : List Bytes) :
    executed cfg clock (ls ++ ls') = executed cfg clock ls ++
      match served cfg clock ls with
      | none => []
      | some clock' => executed cfg clock' ls' := by
  induction ls generalizing clock with
  | nil => rfl
  | cons l ls ih =>
    simp only [List.cons_append, executed, served]
    split
    · rfl
    split
    · rw [ih]
      rfl
    · rfl

end Spec

/-! ### One request -/

/-- `res` is what a request comes to that has this outcome. -/
structure Follows (s : ClientSession) (next : Bool × Nat) (res : Option Exn × ClientSession) : Prop where
  clock : res.2.clock = next.2
  requests : requests res.2.trace = requests s.trace
  goes : res.1 = none → res.2.isActive = true → next.1 = true
  stays : next.1 = true → s.stops = [] → s.isActive = true → (∀ e ∈ res.2.trace, e.failed = false) →
    res.1 = none ∧ res.2.isActive = true

theorem send_clock (s : ClientSession) (site : Site) (data : Bytes) :
    (s.send site data).2.clock = s.clock ∧ requests (s.send site data).2.trace = requests s.trace := by
  obtain ⟨acc, -, -, hs⟩ := s.send_spec site data
  rw [hs]
  refine ⟨rfl, ?_⟩
  rw [requests_append]
  exact List.append_nil _

theorem loadActive_clock (s : ClientSession) :
    s.loadActive.2.clock = s.clock ∧ s.loadActive.2.trace = s.trace := by
  unfold loadActive
  split
  · exact ⟨rfl, rfl⟩
  · dsimp only
    split
    · unfold stop
      split <;> exact ⟨rfl, rfl⟩
    · exact ⟨rfl, rfl⟩

theorem endTransfer_clock (fileSize totalSent : Nat) (s : ClientSession) :
    (endTransfer fileSize totalSent s).clock = s.clock ∧
      requests (endTransfer fileSize totalSent s).trace = requests s.trace := by
  have hemit (s : ClientSession) (e : Event) (he : requests [e] = []) :
      requests (s.emit e).trace = requests s.trace := by
    rw [emit, requests_append, he, List.append_nil]
  obtain ⟨hclock, htrace⟩ := s.loadActive_clock
  unfold endTransfer
  split
  · exact ⟨rfl, hemit _ _ rfl⟩
  · dsimp only
    split
    · exact ⟨hclock, by rw [hemit _ _ rfl, htrace]⟩
    · exact ⟨hclock, by rw [htrace]⟩

/-- A send that was not looked at or succeeded. -/
theorem active_of_send {s : ClientSession} {site : Site} {data : Bytes} (ha : s.isActive = true) :
    (s.send site data).2.isActive = true := by
  obtain ⟨acc, -, -, hact, -⟩ := Extends.send s site data
  rw [hact]
  exact ha

/-- The event of a send is in the trace, whatever follows. -/
theorem send_ok_of_trace {s s' : ClientSession} {site : Site} {data : Bytes}
    (htrace : (s.send site data).2.trace <+: s'.trace) (h : ∀ e ∈ s'.trace, e.failed = false) :
    (s.send site data).1 = true := by
  obtain ⟨acc, -, -, hs⟩ := s.send_spec site data
  have hmem : Event.send site data acc (s.send site data).1 ∈ s'.trace := by
    refine htrace.subset ?_
    rw [hs]
    simp
  simpa [Event.failed] using h _ hmem

theorem requests_read (s : ClientSession) (asked : Nat) (got : Bytes) :
    requests (s.emit (.read asked got)).trace = requests s.trace := by
  rw [emit, requests_append]
  exact List.append_nil _

theorem Streams.follows {chunkSize fileSize nth totalSent : Nat} {file : FileStream}
    {good : Bool} {s s' : ClientSession}
    (h : Streams chunkSize file fileSize nth totalSent good s s') :
    s'.clock = s.clock ∧ requests s'.trace = requests s.trace ∧
      (s.stops = [] → s.isActive = true → (∀ e ∈ s'.trace, e.failed = false) → s'.isActive = true) := by
  have hload (s : ClientSession) := s.loadActive_clock
  induction h with
  | @stopped nth totalSent good s hl =>
    obtain ⟨hclock, hreq⟩ := endTransfer_clock fileSize totalSent s.loadActive.2
    refine ⟨hclock.trans (hload s).1, by rw [hreq, (hload s).2], ?_⟩
    intro hst ha
    rw [s.loadActive_unstopped hst, ha] at hl
    cases hl
  | @ended nth totalSent good s h =>
    obtain ⟨hclock, hreq⟩ := endTransfer_clock fileSize totalSent s.loadActive.2
    refine ⟨hclock.trans (hload s).1, by rw [hreq, (hload s).2], ?_⟩
    intro hst ha _
    obtain ⟨-, -, -, -, hkeep⟩ := endTransfer_spec fileSize totalSent s.loadActive.2
    rw [s.loadActive_unstopped hst] at hkeep ⊢
    rw [(hkeep hst).1]
    exact ha
  | @zero nth totalSent s asked hl ht ha hr =>
    obtain ⟨hclock, hreq⟩ := endTransfer_clock fileSize totalSent (s.loadActive.2.emit (.read asked []))
    refine ⟨hclock.trans (hload s).1, by rw [hreq, requests_read, (hload s).2], ?_⟩
    intro hst ha' _
    obtain ⟨-, -, -, -, hkeep⟩ :=
      endTransfer_spec fileSize totalSent (s.loadActive.2.emit (.read asked []))
    rw [s.loadActive_unstopped hst] at hkeep ⊢
    rw [(hkeep hst).1]
    exact ha'
  | @failed nth totalSent s asked buffer hl ht ha hr hne hs =>
    obtain ⟨hclock, hreq⟩ := send_clock (s.loadActive.2.emit (.read asked buffer)) .chunk buffer
    refine ⟨hclock.trans (hload s).1, by dsimp only; rw [hreq, requests_read, (hload s).2], ?_⟩
    intro _ _ hok
    rw [send_ok_of_trace List.prefix_rfl hok] at hs
    cases hs
  | @next nth totalSent s s' asked buffer hl ht ha hr hne hs hrest ih =>
    obtain ⟨hclock, hreq⟩ := send_clock (s.loadActive.2.emit (.read asked buffer)) .chunk buffer
    obtain ⟨hclock', hreq', hstays⟩ := ih
    refine ⟨hclock'.trans (hclock.trans (hload s).1), by rw [hreq', hreq, requests_read, (hload s).2], ?_⟩
    intro hst ha' hok
    obtain ⟨acc, -, -, hact, hext⟩ :=
      Extends.send (s.loadActive.2.emit (.read asked buffer)) .chunk buffer
    rw [s.loadActive_unstopped hst] at hstays hact hext
    exact hstays (hext.unstopped hst).1 (hact.trans ha') hok

namespace Follows
variable {s s' : ClientSession} {next : Bool × Nat} {res : Option Exn × ClientSession}

theorem of_tick (h : Follows s.tick next res) : Follows s next res :=
  ⟨h.clock, h.requests, h.goes, h.stays⟩

theorem sendError (s : ClientSession) (site : Site) (message : Bytes) :
    Follows s (true, s.clock) (none, s.sendError site message) :=
  have ⟨hclock, hreq⟩ := send_clock s site (Protocol.buildErrorResponse message)
  ⟨hclock, hreq, fun _ _ => rfl, fun _ _ ha _ => ⟨rfl, active_of_send ha⟩⟩

variable (cfg : Config) (s)

theorem handleList : Follows s ((cfg.fileManager.listFiles s.clock).isOk, s.clock + 1)
    (handleList cfg s) := by
  unfold ClientSession.handleList
  split
  · rename_i hx
    rw [hx]
    exact ⟨rfl, rfl, nofun, nofun⟩
  · rename_i files hfiles
    rw [hfiles]
    obtain ⟨hclock, hreq⟩ := send_clock s.tick .list (Protocol.buildListResponse files)
    cases hok : (s.tick.send .list (Protocol.buildListResponse files)).1 with
    | true =>
      simp only [hok, Bool.not_true, Bool.false_eq_true, if_false]
      exact ⟨hclock, hreq, fun _ _ => rfl, fun _ _ ha _ => ⟨rfl, active_of_send ha⟩⟩
    | false =>
      simp only [hok, Bool.not_false, if_true]
      refine ⟨hclock, hreq, nofun, ?_⟩
      intro _ _ _ hall
      rw [send_ok_of_trace List.prefix_rfl hall] at hok
      cases hok

theorem transfer (file : FileStream) {fileSize : Nat} (hsize : fileSize < 2 ^ 64) :
    Follows s (cfg.allocate.isNone, s.clock) (transfer cfg s file fileSize) := by
  unfold ClientSession.transfer
  obtain ⟨hclock, hreq⟩ := send_clock s (.header fileSize) (Protocol.buildGetHeader fileSize)
  cases hok : (s.send (.header fileSize) (Protocol.buildGetHeader fileSize)).1 with
  | false =>
    simp only [hok, Bool.not_false, if_true]
    refine ⟨hclock, hreq, nofun, ?_⟩
    intro _ _ _ hall
    rw [send_ok_of_trace List.prefix_rfl hall] at hok
    cases hok
  | true =>
    simp only [hok, Bool.not_true, Bool.false_eq_true, if_false]
    cases halloc : cfg.allocate with
    | some x => exact ⟨hclock, hreq, nofun, nofun⟩
    | none =>
      obtain ⟨hclock', hreq', hstays⟩ :=
        (streamLoop_streams cfg.chunkSize file hsize (fileSize + 1) 0 true
        (s.send (.header fileSize) (Protocol.buildGetHeader fileSize)).2 (Nat.zero_le _)
          (Nat.lt_succ_self _)).follows
      refine ⟨hclock'.trans hclock, hreq'.trans hreq, fun _ _ => rfl, ?_⟩
      intro _ hst ha hall
      obtain ⟨acc, -, -, hact, hext⟩ :=
        Extends.send s (.header fileSize) (Protocol.buildGetHeader fileSize)
      exact ⟨rfl, hstays (hext.unstopped hst).1 (hact.trans ha) hall⟩

theorem handle (r : Request) : Follows s (outcome cfg s.clock r) (handle cfg s r) := by
  unfold ClientSession.handle outcome
  cases r.type with
  | LIST => exact handleList s cfg
  | UNKNOWN => exact sendError s _ _
  | QUIT =>
    obtain ⟨hclock, hreq⟩ := send_clock s .bye (Protocol.buildOkResponse (ascii "BYE"))
    exact ⟨hclock, hreq, nofun, nofun⟩
  | GET =>
    simp only [handleGet]
    split
    · exact sendError s _ _
    cases hsize : cfg.fileManager.getFileSize s.clock r.argument with
    | none => exact (sendError s.tick _ _).of_tick
    | some size =>
      cases hfile : cfg.fileManager.openBinaryFile (s.clock + 1) r.argument with
      | none =>
        simp only [tick, hfile]
        exact (sendError s.tick.tick _ _).of_tick.of_tick
      | some file =>
        simp only [tick, hfile]
        exact (transfer s.tick.tick cfg file size.toNat_lt).of_tick.of_tick

end Follows

/-! ### Whole runs -/

/-- A turn of the loop: the line that was read is the next of the stream. -/
theorem request_line {s : ClientSession} (h : s.recvLine.1 = true) :
    ∃ l, received s.socket.fin s.socket.inbox = l :: received s.socket.fin s.recvLine.2.2.socket.inbox ∧
      l.length < 4096 ∧ Protocol.parseRequest s.recvLine.2.1 = Protocol.parseRequest l := by
  obtain ⟨l, rest, hl, hlen, hs, hcase⟩ := Socket.recvLine_true h
  have hinbox : s.recvLine.2.2.socket.inbox = rest := congrArg Socket.inbox hs
  rw [hinbox]
  refine ⟨l, ?_, hlen, ?_⟩
  · rcases hcase with ⟨hin, -⟩ | ⟨hin, hfin, hne, rfl, -⟩
    · rw [hin, received_append_newline _ hl]
    · rw [hin, received_of_not_mem _ hl, if_pos ⟨hfin, hne⟩]
      rfl
  · rcases hcase with ⟨-, hline⟩ | ⟨-, -, -, -, hline⟩
    · rw [show s.recvLine.2.1 = _ from hline, Protocol.parseRequest_dropCr]
    · rw [show s.recvLine.2.1 = _ from hline]

theorem recvLine_clock (s : ClientSession) :
    s.recvLine.2.2.clock = s.clock ∧ requests s.recvLine.2.2.trace = requests s.trace := by
  refine ⟨rfl, ?_⟩
  rw [s.recvLine_spec.1, requests_append]
  exact List.append_nil _

theorem recvLine_fin (s : ClientSession) : s.recvLine.2.2.socket.fin = s.socket.fin := by
  simp only [recvLine, Socket.recvLine, emit]
  split <;> rfl

section
variable {cfg : Config} {s : ClientSession}

theorem executed_turn {r : Request} (hr : s.loadActive.2.recvLine.1 = true)
    (hp : Protocol.parseRequest s.loadActive.2.recvLine.2.1 = r) :
    executed cfg s.clock (received s.socket.fin s.socket.inbox) = r :: if (outcome cfg s.clock r).1 then
      executed cfg (outcome cfg s.clock r).2
        (received s.socket.fin s.loadActive.2.recvLine.2.2.socket.inbox) else [] := by
  obtain ⟨l, hls, hlen, hpl⟩ := request_line hr
  rw [(Extends.loadActive s).inbox, (Extends.loadActive s).fin] at hls
  rw [hls, executed, if_neg (Nat.not_le_of_lt hlen), ← hpl, hp]

theorem requests_turn (r : Request) :
    requests (handle cfg (s.loadActive.2.recvLine.2.2.emit (.request r)) r).2.trace =
      requests s.trace ++ [r] := by
  rw [(Follows.handle _ cfg r).requests, emit, requests_append, (s.loadActive.2.recvLine_clock).2,
    (s.loadActive_clock).2]
  rfl

/-- The handler as seen from the beginning of the turn. -/
theorem turn_follows (r : Request) :
    Follows (s.loadActive.2.recvLine.2.2.emit (.request r)) (outcome cfg s.clock r)
      (handle cfg (s.loadActive.2.recvLine.2.2.emit (.request r)) r) := by
  have hclock : (s.loadActive.2.recvLine.2.2.emit (.request r)).clock = s.clock := (s.loadActive_clock).1
  rw [← hclock]
  exact Follows.handle _ cfg r

theorem turn_stream (r : Request) :
    received (handle cfg (s.loadActive.2.recvLine.2.2.emit (.request r)) r).2.socket.fin
      (handle cfg (s.loadActive.2.recvLine.2.2.emit (.request r)) r).2.socket.inbox =
    received s.socket.fin s.loadActive.2.recvLine.2.2.socket.inbox := by
  obtain ⟨evs, hh, -⟩ := Served.handle (s.loadActive.2.recvLine.2.2.emit (.request r)) cfg r
  rw [hh.inbox, hh.fin]
  simp only [emit, recvLine_fin, (Extends.loadActive s).fin]

variable {res : Option Exn × ClientSession}

/-- Whatever fails, and whoever stops the session, it executes a part of `executed`. -/
theorem Runs.requests_begin (h : Runs cfg s res) :
    ∃ rs, requests res.2.trace = requests s.trace ++ rs ∧
      rs <+: executed cfg s.clock (received s.socket.fin s.socket.inbox) := by
  induction h with
  | @stopped s hl => exact ⟨[], by simp [(s.loadActive_clock).2], List.nil_prefix⟩
  | @ended s hl hr =>
    refine ⟨[], ?_, List.nil_prefix⟩
    rw [disconnect_trace, (s.loadActive.2.recvLine_clock).2, (s.loadActive_clock).2, List.append_nil]
  | @thrown s r x hl hr hp hx =>
    refine ⟨[r], requests_turn r, ?_⟩
    rw [executed_turn hr hp]
    exact ⟨_, rfl⟩
  | @next s r res hl hr hp hx hrest ih =>
    obtain ⟨rs, hrs, hpre⟩ := ih
    rw [executed_turn hr hp]
    cases hact : (handle cfg (s.loadActive.2.recvLine.2.2.emit (.request r)) r).2.isActive with
    | false =>
      refine ⟨[r], ?_, ⟨_, rfl⟩⟩
      rw [hrest.of_inactive hact, disconnect_trace, (loadActive_clock _).2, requests_turn]
    | true =>
      rw [(turn_follows r).goes hx hact]
      rw [(turn_follows r).clock, turn_stream] at hpre
      exact ⟨r :: rs, by rw [hrs, requests_turn]; simp, List.cons_prefix_cons.2 ⟨rfl, hpre⟩⟩

/-- Nobody stops the session, and its connection brings all that was sent. -/
structure Undisturbed (s : ClientSession) : Prop where
  unstopped : s.stops = []
  active : s.isActive = true
  steady : s.socket.Steady

theorem Undisturbed.turn (h : Undisturbed s) (hr : s.loadActive.2.recvLine.1 = true) {r : Request}
    (hgo : (outcome cfg s.clock r).1 = true)
    (hok : ∀ e ∈ (handle cfg (s.loadActive.2.recvLine.2.2.emit (.request r)) r).2.trace,
      e.failed = false) :
    (handle cfg (s.loadActive.2.recvLine.2.2.emit (.request r)) r).1 = none ∧
      Undisturbed (handle cfg (s.loadActive.2.recvLine.2.2.emit (.request r)) r).2 := by
  have hload := s.loadActive_unstopped h.unstopped
  have hf : Follows (s.loadActive.2.recvLine.2.2.emit (.request r)) (outcome cfg s.clock r)
      (handle cfg (s.loadActive.2.recvLine.2.2.emit (.request r)) r) := turn_follows r
  obtain ⟨evs, hh, -⟩ := Served.handle (s.loadActive.2.recvLine.2.2.emit (.request r)) cfg r
  rw [hload] at hr hok hf hh ⊢
  obtain ⟨-, -, -, hfd, hact, hst⟩ := s.recvLine_spec
  have hst' : (s.recvLine.2.2.emit (.request r)).stops = [] := hst.trans h.unstopped
  obtain ⟨h1, h2⟩ := hf.stays hgo hst' (hact.trans h.active) hok
  obtain ⟨h3, h4⟩ := hh.unstopped hst'
  refine ⟨h1, h3, h2, ?_, ?_⟩
  · have hv := h.steady.valid
    simp only [Socket.isValid, h4] at hv ⊢
    simpa [emit, hfd] using hv
  · rw [hh.inbox, hh.recvs]
    exact (h.steady.recvLine_next hr).1.lively

/-- Where nothing fails it executes all of it. -/
theorem Runs.requests_eq (h : Runs cfg s res) (hs : Undisturbed s)
    (hok : ∀ e ∈ res.2.trace, e.failed = false) :
    requests res.2.trace = requests s.trace ++ executed cfg s.clock
      (received s.socket.fin s.socket.inbox) := by
  induction h with
  | @stopped s hl =>
    rw [s.loadActive_unstopped hs.unstopped, hs.active] at hl
    cases hl
  | @ended s hl hr =>
    have hnone : executed cfg s.clock (received s.socket.fin s.socket.inbox) = [] := by
      have hnot : ¬ ∃ l ls, received s.socket.fin s.socket.inbox = l :: ls ∧ l.length < 4096 := by
        rw [← hs.steady.recvLine_iff]
        rw [s.loadActive_unstopped hs.unstopped] at hr
        rw [show s.socket.recvLine.1 = false from hr]
        simp
      cases hls : received s.socket.fin s.socket.inbox with
      | nil => rfl
      | cons l ls =>
        rw [executed, if_pos]
        exact Nat.le_of_not_lt fun hlen => hnot ⟨l, ls, hls, hlen⟩
    rw [disconnect_trace, (s.loadActive.2.recvLine_clock).2, (s.loadActive_clock).2, hnone,
      List.append_nil]
  | @thrown s r x hl hr hp hx =>
    rw [executed_turn hr hp, requests_turn, if_neg]
    intro hgo
    rw [(hs.turn hr hgo hok).1] at hx
    cases hx
  | @next s r res hl hr hp hx hrest ih =>
    rw [executed_turn hr hp]
    split
    · rename_i hgo
      have hok' : ∀ e ∈ (handle cfg (s.loadActive.2.recvLine.2.2.emit (.request r)) r).2.trace,
          e.failed = false :=
        fun e he => hok e (hrest.trace_prefix.subset he)
      rw [ih (hs.turn hr hgo hok').2 hok, requests_turn, (turn_follows r).clock, turn_stream]
      simp
    · rename_i hgo
      have hact : (handle cfg (s.loadActive.2.recvLine.2.2.emit (.request r)) r).2.isActive = false := by
        rw [← Bool.not_eq_true]
        exact fun hact => hgo ((turn_follows r).goes hx hact)
      rw [hrest.of_inactive hact, disconnect_trace, (loadActive_clock _).2, requests_turn]

end

/-! ### A stream and a part of it -/

/-- The end of the stream `part` breaks a line, and what is left of the line is a request of its own
that the stream `whole` does not have at this place. -/
def Broken (cfg : Config) (part whole : Bytes) (fin : Bool) : Prop :=
  ∃ ls piece clock, part = unlines ls ++ piece ∧ (∀ l ∈ ls, newline ∉ l) ∧ newline ∉ piece ∧ piece ≠ [] ∧
    piece.length < 4096 ∧ served cfg 0 ls = some clock ∧
    ¬ ∃ l rest, received fin whole = ls ++ l :: rest ∧ l.length < 4096 ∧
      Protocol.parseRequest l = Protocol.parseRequest piece

section
variable {cfg : Config} {clock : Nat}

theorem executed_single (piece : Bytes) :
    executed cfg clock [piece] = if 4096 ≤ piece.length then [] else [Protocol.parseRequest piece] := by
  simp only [executed]
  split
  · rfl
  · split <;> rfl

theorem single_prefix_executed {r : Request} {ls : List Bytes} :
    [r] <+: executed cfg clock ls ↔ ∃ l rest, ls = l :: rest ∧ l.length < 4096 ∧
      Protocol.parseRequest l = r := by
  cases ls with
  | nil => simp [executed]
  | cons l ls =>
    simp only [executed]
    split
    · rename_i hlong
      simp only [List.prefix_nil, reduceCtorEq, false_iff]
      rintro ⟨_, _, heq, hlen, -⟩
      cases heq
      omega
    · rename_i hlong
      rw [List.cons_prefix_cons]
      constructor
      · rintro ⟨rfl, -⟩
        exact ⟨l, ls, rfl, Nat.lt_of_not_le hlong, rfl⟩
      · rintro ⟨_, _, heq, -, rfl⟩
        cases heq
        exact ⟨rfl, List.nil_prefix⟩

theorem executed_prefix_iff {part whole : Bytes} (hpart : part <+: whole) (fin : Bool) :
    executed cfg 0 (lines part) <+: executed cfg 0 (received fin whole) ↔
      ¬ Broken cfg part whole fin := by
  obtain ⟨tail, rfl⟩ := hpart
  -- the two sequences agree on the lines that `part` ends itself
  have hsplit (ls : List Bytes) (piece : Bytes) (hls : ∀ l ∈ ls, newline ∉ l) (hpiece : newline ∉ piece) :
      executed cfg 0 (lines (unlines ls ++ piece)) <+:
        executed cfg 0 (received fin (unlines ls ++ piece ++ tail)) ↔
        ∀ clock, served cfg 0 ls = some clock →
          executed cfg clock (if piece = [] then [] else [piece]) <+:
            executed cfg clock (received fin (piece ++ tail)) := by
    rw [lines_unlines_append hls hpiece, List.append_assoc, received_unlines_append _ hls,
      executed_append, executed_append, List.prefix_append_right_inj]
    cases served cfg 0 ls with
    | none => simp
    | some clock => simp
  constructor
  · rintro h ⟨ls, piece, clock, rfl, hls, hpiece, hne, hlen, hserved, hnot⟩
    have hpre := (hsplit ls piece hls hpiece).1 h clock hserved
    rw [if_neg hne, executed_single, if_neg (Nat.not_le_of_lt hlen)] at hpre
    obtain ⟨l, rest, hl, hlen', hparse⟩ := single_prefix_executed.1 hpre
    refine hnot ⟨l, rest, ?_, hlen', hparse⟩
    rw [List.append_assoc, received_unlines_append _ hls, hl]
  · intro hnot
    obtain ⟨ls, piece, rfl, hls, hpiece⟩ := exists_unlines part
    refine (hsplit ls piece hls hpiece).2 ?_
    intro clock hserved
    split
    · exact List.nil_prefix
    rename_i hne
    rw [executed_single]
    split
    · exact List.nil_prefix
    rename_i hlen
    refine single_prefix_executed.2 ?_
    by_contra hno
    refine hnot ⟨ls, piece, clock, rfl, hls, hpiece, hne, Nat.lt_of_not_le hlen, hserved, ?_⟩
    rintro ⟨l, rest, hl, hlen', hparse⟩
    rw [List.append_assoc, received_unlines_append _ hls] at hl
    exact hno ⟨l, rest, List.append_cancel_left hl, hlen', hparse⟩

end

/-- Two sessions with the same media files, one on the stream `whole` and one on a part of it that
ends there. What the second executes is a prefix of what the first does, in which nothing fails,
unless the end of the shorter stream breaks a request; and then it is not, if nothing fails in the
second either. -/
theorem requests_prefix_iff (cfg : Config) (whole part : Socket) (stops : List Bool)
    (hpart : part.inbox <+: whole.inbox) (hfin : part.fin = true) (hwhole : whole.Steady)
    (hok : ∀ e ∈ (run cfg (.new whole)).2.trace, e.failed = false) :
    (¬ Broken cfg part.inbox whole.inbox whole.fin →
      requests (run cfg (.new part stops)).2.trace <+: requests (run cfg (.new whole)).2.trace) ∧
    (stops = [] → part.Steady → (∀ e ∈ (run cfg (.new part stops)).2.trace, e.failed = false) →
      (requests (run cfg (.new part stops)).2.trace <+: requests (run cfg (.new whole)).2.trace ↔
        ¬ Broken cfg part.inbox whole.inbox whole.fin)) := by
  have hall := (run_runs cfg (.new whole)).requests_eq ⟨rfl, rfl, hwhole⟩ hok
  have hiff : executed cfg 0 (lines part.inbox) <+: executed cfg 0 (received whole.fin whole.inbox) ↔
      ¬ Broken cfg part.inbox whole.inbox whole.fin := executed_prefix_iff hpart whole.fin
  rw [hall]
  constructor
  · intro hnot
    obtain ⟨rs, hrs, hpre⟩ := (run_runs cfg (.new part stops)).requests_begin
    rw [hrs]
    refine hpre.trans ?_
    simp only [ClientSession.new, hfin, received_true]
    exact hiff.2 hnot
  · rintro rfl hsteady hok'
    rw [(run_runs cfg (.new part)).requests_eq ⟨rfl, rfl, hsteady⟩ hok']
    simp only [ClientSession.new, hfin, received_true]
    exact hiff

/-- A part that ends where a line ends breaks nothing. -/
theorem not_broken_of_line_end {cfg : Config} {s whole : Bytes} {fin : Bool} :
    ¬ Broken cfg (s ++ [newline]) whole fin := by
  rintro ⟨ls, piece, -, heq, -, hnl, hne, -⟩
  have hlast := congrArg List.getLast? heq
  rw [List.getLast?_append_of_ne_nil _ hne, List.getLast?_append_of_ne_nil _ (by simp)] at hlast
  exact hnl (List.mem_of_getLast? hlast.symm)

theorem listOnly_requests_prefix :
    requests (run (.new (sampleManager.media sampleFs) 1 1)
      (.new (connection (ascii "LIST\n") 2 9 99))).2.trace <+:
      requests (run (.new (sampleManager.media sampleFs) 1 1)
        (.new (connection (ascii "LIST\nQUIT\n") 1 20 99))).2.trace :=
  (requests_prefix_iff (.new (sampleManager.media sampleFs) 1 1)
    (connection (ascii "LIST\nQUIT\n") 1 20 99)
    (connection (ascii "LIST\n") 2 9 99) [] (by decide) rfl ⟨by decide, fun _ => by decide⟩
      (by decide +kernel)).1
    (not_broken_of_line_end (s := ascii "LIST"))

/-- The client wanted `abc`, the connection broke, and `ab` is asked for. -/
theorem brokenGet_not_prefix :
    ascii "GET ab" <+: ascii "GET abc\n" ∧
      ¬ requests (run (.new (sampleManager.media sampleFs) 1 1)
        (.new (connection (ascii "GET ab") 2 9 99))).2.trace <+:
        requests (run (.new (sampleManager.media sampleFs) 1 1)
          (.new (connection (ascii "GET abc\n") 1 20 99))).2.trace := by
  decide +kernel

end ClientSession
end Streamer

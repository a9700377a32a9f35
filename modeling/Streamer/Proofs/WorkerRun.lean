import Streamer.Lib.Machine
import Streamer.Proofs.Events
import Streamer.Worker

/-!
# The steps of a session thread come to `run()`

One lemma for each call that the thread makes: the loop of `recv_line`, the loop of `send_all`,
the streaming loop, a request. `leads_run` puts them together: from `activate` the thread goes to
where `ClientSession.run` ends, and since a step leaves no choice it goes nowhere else
(`eq_run_of_final`).
-/

namespace Streamer
open Text Kernel Machine

namespace Worker

variable {cfg : ClientSession.Config}

/-! ### The calls on the socket -/

/-- Where `recv_line` leaves the thread, from the result of its loop. -/
def received (s : ClientSession) (r : Bool × Bytes × Bytes × List Answer) : Worker :=
  ⟨{ s with socket := { s.socket with inbox := r.2.2.1, recvs := r.2.2.2 } }.emit .recvLine,
    if r.1 then .dispatch r.2.1 else .deactivate⟩

theorem recv_leads (s : ClientSession) (line : Bytes) :
    Leads (step cfg) ⟨s, .recv line⟩
      (received s (Socket.recvLineLoop 4096 s.socket.fin s.socket.recvs s.socket.inbox line)) := by
  obtain ⟨⟨fd, inbox, fin, recvs, sent, sends⟩, active, stops, clock, trace⟩ := s
  induction recvs generalizing inbox line with
  | nil => exact .single rfl
  | cons a recvs ih =>
    refine .head rfl ?_
    simp only [recvStep, Socket.recvLineLoop]
    split
    · cases Kernel.recv 1 fin inbox a with
      | error e =>
        dsimp only
        split
        · exact ih line inbox
        · exact .refl _
      | ok bytes =>
        cases bytes with
        | nil => cases line <;> exact .refl _
        | cons ch bytes =>
          dsimp only
          split
          · exact .refl _
          · exact ih (line ++ [ch]) inbox.tail
    · exact .refl _

theorem recvLine_leads (s : ClientSession) :
    Leads (step cfg) ⟨s, .recvLine⟩
      ⟨s.recvLine.2.2, if s.recvLine.1 then .dispatch s.recvLine.2.1 else .deactivate⟩ := by
  simp only [ClientSession.recvLine, Socket.recvLine]
  by_cases hv : s.socket.isValid = true
  · simp only [hv, if_true]
    exact .head (by simp [step, hv]) (recv_leads s [])
  · simp only [hv]
    exact .single (by simp [step, hv])

/-- Where `send_all` leaves the thread, from the result of its loop; `sent` was on the connection
before it. -/
def sent (s : ClientSession) (site : Site) (data sent : Bytes) (after : AfterSend)
    (r : Bool × Nat × List Answer) : Worker :=
  ⟨{ s with socket := { s.socket with sent := sent ++ data.take r.2.1, sends := r.2.2 } }.emit
      (.send site data (data.take r.2.1) r.1), after.next r.1⟩

theorem send_leads (s : ClientSession) (site : Site) (data : Bytes) (after : AfterSend)
    (total : Nat) (before : Bytes) (hs : s.socket.sent = before ++ data.take total) :
    Leads (step cfg) ⟨s, .send site data total after⟩
      (sent s site data before after (Socket.sendAllLoop data total s.socket.sends)) := by
  obtain ⟨⟨fd, inbox, fin, recvs, out, sends⟩, active, stops, clock, trace⟩ := s
  subst hs
  induction sends generalizing total with
  | nil => exact .single rfl
  | cons a sends ih =>
    refine .head rfl ?_
    simp only [sendStep, Socket.sendAllLoop]
    split
    · cases a with
      | fails e =>
        dsimp only
        split
        · exact ih total
        · exact .refl _
      | moves k =>
        dsimp only
        split
        · exact .refl _
        · rw [List.append_assoc, ← List.take_add]
          exact ih _
    · exact .refl _

theorem sendAll_leads (s : ClientSession) (site : Site) (data : Bytes) (after : AfterSend) :
    Leads (step cfg) ⟨s, .sendAll site data after⟩ ⟨(s.send site data).2, after.next
      (s.send site data).1⟩ := by
  simp only [ClientSession.send, Socket.sendAll]
  by_cases hv : s.socket.isValid = true
  · simp only [hv, if_true, List.drop_left]
    exact .head (by simp [step, hv]) (send_leads s site data after 0 s.socket.sent (by simp))
  · simp only [hv]
    exact .single (by simp [step, hv])

/-! ### The handlers -/

theorem setInactive_leads (s : ClientSession) :
    Leads (step cfg) ⟨s, .setInactive⟩ ⟨{ s with isActive := false }, .loopTest⟩ := .single rfl

theorem endTransfer_leads (s : ClientSession) (t : Transfer) (hs : s.stops = []) :
    Leads (step cfg) ⟨s, .endTransfer t⟩
      ⟨ClientSession.endTransfer t.fileSize t.totalSent s, .loopTest⟩ := by
  simp only [ClientSession.endTransfer, s.loadActive_unstopped hs]
  by_cases ht : t.totalSent = t.fileSize
  · exact .single (by simp [step, ht])
  · exact .single (by simp [step, ht])

theorem streams_leads {file : FileStream} {fileSize nth totalSent : Nat} {good : Bool}
    {s s' : ClientSession}
    (h : ClientSession.Streams cfg.chunkSize file fileSize nth totalSent good s s') (hs : s.stops = [])
    (hle : totalSent ≤ fileSize) (hsize : fileSize < 2 ^ 64) :
    Leads (step cfg) ⟨s, .streamTest ⟨file, fileSize, nth, totalSent, good⟩⟩ ⟨s', .loopTest⟩ := by
  induction h with
  | @stopped nth totalSent good s hl =>
    rw [s.loadActive_unstopped hs] at hl ⊢
    refine .head ?_ (endTransfer_leads s ⟨file, fileSize, nth, totalSent, good⟩ hs)
    simp_all [step]
  | @ended nth totalSent good s h =>
    rw [s.loadActive_unstopped hs]
    refine .head ?_ (endTransfer_leads s ⟨file, fileSize, nth, totalSent, good⟩ hs)
    rcases h with h | h
    · simp [step, Nat.not_lt.2 h]
    · simp [step, h]
  | @zero nth totalSent s asked hl ht ha hr =>
    subst ha
    rw [s.loadActive_unstopped hs] at hl ⊢
    refine .head (t := ⟨s, .read ⟨file, fileSize, nth, totalSent, true⟩⟩) (by simp_all [step]) ?_
    refine .head ?_ (endTransfer_leads _ ⟨file, fileSize, nth, totalSent, true⟩ hs)
    simp [step, hr]
  | @failed nth totalSent s asked buffer hl ht ha hr hne hsend =>
    subst ha
    rw [s.loadActive_unstopped hs] at hl hsend ⊢
    refine .head (t := ⟨s, .read ⟨file, fileSize, nth, totalSent, true⟩⟩) (by simp_all [step]) ?_
    refine .head (by simp [step, hr, hne]; exact ⟨rfl, rfl⟩) ((sendAll_leads _ .chunk buffer _).trans ?_)
    rw [hsend]
    exact setInactive_leads _
  | @next nth totalSent s s' asked buffer hl ht ha hr hne hsend hrest ih =>
    subst ha
    rw [s.loadActive_unstopped hs] at hl hsend hrest ih
    have hread := file.read_le nth totalSent (min cfg.chunkSize (fileSize - totalSent))
    rw [hr] at hread
    have hle' : totalSent + buffer.length ≤ fileSize := by omega
    obtain ⟨acc, -, -, -, hext⟩ :=
      ClientSession.Extends.send (s.emit (.read (min cfg.chunkSize (fileSize - totalSent)) buffer))
      .chunk buffer
    refine .head (t := ⟨s, .read ⟨file, fileSize, nth, totalSent, true⟩⟩) (by simp_all [step]) ?_
    refine .head (by simp [step, hr, hne]; exact ⟨rfl, rfl⟩) ((sendAll_leads _ .chunk buffer _).trans ?_)
    rw [hsend, Nat.mod_eq_of_lt (by omega)]
    exact ih (hext.unstopped hs).1 hle'

/-- Where a handler leaves the thread. -/
def handled (res : Option Exn × ClientSession) : Worker :=
  ⟨res.2, match res.1 with | none => .loopTest | some x => .thrown x⟩

theorem sendError_leads (s : ClientSession) (site : Site) (message : Bytes) :
    Leads (step cfg) ⟨s, sendError site message⟩ (handled (none, s.sendError site message)) :=
  sendAll_leads s site _ .loop

theorem transfer_leads (s : ClientSession) (file : FileStream) {fileSize : Nat}
    (hs : s.stops = []) (hsize : fileSize < 2 ^ 64) :
    Leads (step cfg) ⟨s, .sendAll (.header fileSize) (Protocol.buildGetHeader fileSize)
      (.header file fileSize)⟩
      (handled (ClientSession.transfer cfg s file fileSize)) := by
  refine (sendAll_leads s (.header fileSize) (Protocol.buildGetHeader fileSize)
    (.header file fileSize)).trans ?_
  unfold ClientSession.transfer
  obtain ⟨acc, -, -, -, hext⟩ :=
    ClientSession.Extends.send s (.header fileSize) (Protocol.buildGetHeader fileSize)
  dsimp only
  cases hok : (s.send (.header fileSize) (Protocol.buildGetHeader fileSize)).1 with
  | false => exact setInactive_leads _
  | true =>
    simp only [AfterSend.next, if_true, Bool.not_true, Bool.false_eq_true, if_false]
    cases ha : cfg.allocate with
    | some x => exact .single (by simp [step, ha, handled])
    | none =>
      have hst := ClientSession.streamLoop_streams cfg.chunkSize file hsize (fileSize + 1) 0 true
        (s.send (.header fileSize) (Protocol.buildGetHeader fileSize)).2 (Nat.zero_le _)
          (Nat.lt_succ_self _)
      refine .head ?_ (streams_leads hst (hext.unstopped hs).1 (Nat.zero_le _) hsize)
      simp [step, ha]

theorem handle_leads (s : ClientSession) (r : Request) (hs : s.stops = []) :
    Leads (step cfg) ⟨s, dispatch r⟩ (handled (ClientSession.handle cfg s r)) := by
  unfold dispatch ClientSession.handle
  cases r.type with
  | LIST =>
    simp only [ClientSession.handleList]
    cases hl : cfg.fileManager.listFiles s.clock with
    | error x => exact .single (by simp [step, hl, handled])
    | ok files =>
      refine .head (by simp only [step, hl])
        ((sendAll_leads s.tick .list (Protocol.buildListResponse files) .list).trans ?_)
      dsimp only
      cases (s.tick.send .list (Protocol.buildListResponse files)).1 with
      | false => exact setInactive_leads _
      | true => exact .refl _
  | GET =>
    simp only [ClientSession.handleGet]
    split
    · exact sendError_leads s _ _
    cases hsize : cfg.fileManager.getFileSize s.clock r.argument with
    | none => exact .head (by simp only [step, hsize]) (sendError_leads s.tick _ _)
    | some size =>
      refine .head (t := ⟨s.tick, .openBinaryFile r.argument size.toNat⟩) (by simp [step, hsize]) ?_
      dsimp only
      cases hopen : cfg.fileManager.openBinaryFile s.tick.clock r.argument with
      | none => exact .head (by simp only [step, hopen]) (sendError_leads s.tick.tick _ _)
      | some file =>
        refine .head (by simp only [step, hopen]) (transfer_leads s.tick.tick file hs ?_)
        exact size.toNat_lt
  | QUIT => exact (sendAll_leads s .bye _ .quit).trans (setInactive_leads _)
  | UNKNOWN => exact sendError_leads s _ _

/-! ### Whole runs -/

/-- Where `run()` leaves the thread. -/
def finished (res : Option Exn × ClientSession) : Worker :=
  ⟨res.2, match res.1 with | none => .exited | some x => .thrown x⟩

theorem disconnect_leads (s : ClientSession) :
    Leads (step cfg) ⟨s, .deactivate⟩ (finished (none, s.disconnect)) :=
  .head rfl (.single rfl)

theorem runs_leads {s : ClientSession} {res : Option Exn × ClientSession}
    (h : ClientSession.Runs cfg s res)
    (hs : s.stops = []) : Leads (step cfg) ⟨s, .loopTest⟩ (finished res) := by
  have hturn {s : ClientSession} (hl : s.isActive = true) :
      Leads (step cfg) ⟨s, .loopTest⟩
        ⟨s.recvLine.2.2, if s.recvLine.1 then .dispatch s.recvLine.2.1 else .deactivate⟩ :=
    .head (by simp [step, hl]) (recvLine_leads s)
  have hserve {s : ClientSession} (hs : s.stops = []) (hl : s.isActive = true)
      (hr : s.recvLine.1 = true) :
      Leads (step cfg) ⟨s, .loopTest⟩ (handled (ClientSession.handle cfg
        (s.recvLine.2.2.emit (.request (Protocol.parseRequest s.recvLine.2.1)))
          (Protocol.parseRequest s.recvLine.2.1))) := by
    refine (hturn hl).trans ?_
    rw [hr]
    exact .head rfl (handle_leads _ _ (s.recvLine_spec.2.2.2.2.2.trans hs))
  induction h with
  | @stopped s hl =>
    rw [s.loadActive_unstopped hs] at hl ⊢
    exact .head (by simp_all [step]) (disconnect_leads s)
  | @ended s hl hr =>
    rw [s.loadActive_unstopped hs] at hl hr ⊢
    have := (hturn hl)
    rw [hr] at this
    exact this.trans (disconnect_leads _)
  | @thrown s r x hl hr hp hx =>
    rw [s.loadActive_unstopped hs] at hl hr hp hx ⊢
    subst hp
    have := hserve hs hl hr
    simp only [handled, hx] at this
    exact this
  | @next s r res hl hr hp hx hrest ih =>
    rw [s.loadActive_unstopped hs] at hl hr hp hx hrest ih
    subst hp
    have := hserve hs hl hr
    simp only [handled, hx] at this
    refine this.trans (ih ?_)
    obtain ⟨evs, hh, -⟩ := ClientSession.Served.handle
      (s.recvLine.2.2.emit (.request (Protocol.parseRequest s.recvLine.2.1))) cfg
        (Protocol.parseRequest s.recvLine.2.1)
    exact (hh.unstopped (s.recvLine_spec.2.2.2.2.2.trans hs)).1

theorem leads_run (cfg : ClientSession.Config) (socket : Socket) :
    Leads (step cfg) (new socket) (finished (ClientSession.run cfg (.new socket))) :=
  .head rfl (runs_leads (ClientSession.run_runs cfg (.new socket)) rfl)

theorem step_finished (res : Option Exn × ClientSession) : step cfg (finished res) = none := by
  obtain ⟨x, s⟩ := res
  cases x <;> rfl

theorem step_eq_none {w : Worker} : step cfg w = none ↔ w.pc = .exited ∨ ∃ x, w.pc = .thrown x := by
  obtain ⟨s, pc⟩ := w
  cases pc <;> simp [step] <;> (repeat' split) <;> simp

/-- A thread that has ended has run `run()`. -/
theorem eq_run_of_final {socket : Socket} {w : Worker} (h : Leads (step cfg) (new socket) w)
    (hend : step cfg w = none) :
    w = finished (ClientSession.run cfg (.new socket)) :=
  h.final_eq hend (leads_run cfg socket) (step_finished _)

end Worker
end Streamer

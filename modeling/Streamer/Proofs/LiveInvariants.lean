import Streamer.LiveServer
import Streamer.Proofs.ServerInvariants

/-!
# What every reachable state of a server with its sessions keeps

A step of a `LiveServer` is a step of its `Server`, or one that the `Server` does not see
(`step_server`), so that its invariants hold here too. `Sound` is about one session thread,
`Registry` about `workers_` as long as nobody stops the server.
-/

namespace Streamer
open Text Kernel Machine

theorem getElem?_concat_cases {α : Type} {l : List α} {a b : α} {i : Nat} (h : (l ++ [a])[i]? = some b) :
    l[i]? = some b ∨ i = l.length ∧ b = a := by
  rcases Nat.lt_trichotomy i l.length with hlt | rfl | hgt
  · exact .inl (by rwa [List.getElem?_append_left hlt] at h)
  · exact .inr ⟨rfl, by simpa using h.symm⟩
  · rw [List.getElem?_eq_none (by simp; omega)] at h
    cases h

/-- Nothing is left to do but to return from `run()`. -/
def SessionPc.retiring : SessionPc → Bool
  | .loopTest | .deactivate | .close | .exited => true
  | _ => false

/-- The next step may wait for the peer. -/
def SessionPc.onConnection : SessionPc → Bool
  | .recv _ | .send _ _ _ _ => true
  | _ => false

theorem AfterSend.next_thread (ok : Bool) (after : AfterSend) :
    (after.next ok).thread = .handle ∧ (after.next ok).retiring = false ∨ after.next ok = .loopTest := by
  cases after <;> cases ok <;> simp [next, SessionPc.thread, SessionPc.retiring]

theorem AfterSend.next_isThrown (ok : Bool) (after : AfterSend) : (after.next ok).isThrown = false := by
  cases after <;> cases ok <;> rfl

namespace Worker

variable {cfg : ClientSession.Config} {w w' : Worker}

structure Sound (w : Worker) : Prop where
  valid : w.pc ≠ .exited → w.session.socket.isValid = true
  quiet : w.session.isActive = false → w.pc.retiring = true

theorem sound_new {client : Socket} (h : client.isValid = true) : Sound (new client) :=
  ⟨fun _ => h, nofun⟩

def seen (w : Worker) (joined : Bool) : SessionWorker :=
  ⟨w.session.isActive, w.session.socket.isValid, w.pc.thread, joined⟩

/-- What the server sees of a step: nothing, or a step of the session as it knows it. -/
def Shows (w w' : Worker) : Prop :=
  (w'.session.isActive = w.session.isActive ∧ w'.session.socket.isValid = w.session.socket.isValid ∧
      w'.pc.thread = w.pc.thread) ∨
    ∃ o, ∀ joined, Server.serveStep (w.seen joined) o = some (w'.seen joined)

theorem recvStep_spec (s : ClientSession) (line : Bytes) :
    (recvStep s line).session.isActive = s.isActive ∧ (recvStep s line).session.socket.fd = s.socket.fd ∧
      ((∃ line', (recvStep s line).pc = .recv line') ∨ (∃ line', (recvStep s line).pc = .dispatch line') ∨
        (recvStep s line).pc = .deactivate) := by
  unfold recvStep
  repeat' split
  all_goals simp only [ClientSession.emit, true_and]
  all_goals first | exact .inl ⟨_, rfl⟩ | exact .inr (.inl ⟨_, rfl⟩) | simp

theorem sendStep_spec (s : ClientSession) (site : Site) (data : Bytes) (total : Nat) (after : AfterSend) :
    (sendStep s site data total after).session.isActive = s.isActive ∧
      (sendStep s site data total after).session.socket.fd = s.socket.fd ∧
      ((∃ total', (sendStep s site data total after).pc = .send site data total' after) ∨
        ∃ ok, (sendStep s site data total after).pc = after.next ok) := by
  unfold sendStep
  dsimp only
  repeat' split
  all_goals simp only [ClientSession.emit, true_and]
  all_goals first | exact .inl ⟨_, rfl⟩ | exact .inr ⟨_, rfl⟩

theorem isValid_congr {s s' : Socket} (h : s'.fd = s.fd) : s'.isValid = s.isValid := by
  rw [Socket.isValid, h, Socket.isValid]

theorem close_isValid (s : Socket) : s.close.isValid = false := by
  unfold Socket.close
  split
  · rfl
  · simp only [Socket.isValid, decide_eq_false_iff_not]
    assumption

/-- A step within a handler, or from it back to the loop. -/
theorem shows_handle (hw : Sound w) (hpc : w.pc.thread = .handle)
    (hact : w'.session.isActive = w.session.isActive)
    (hvalid : w'.session.socket.isValid = w.session.socket.isValid)
    (hpc' : w'.pc.thread = .handle ∧ w'.pc.retiring = false ∨ w'.pc = .loopTest) :
    Sound w' ∧ Shows w w' := by
  have hne : w.pc ≠ .exited := by
    intro he
    simp [he, SessionPc.thread] at hpc
  have hon : w.session.isActive = true := by
    cases ha : w.session.isActive with
    | true => rfl
    | false =>
      have := hw.quiet ha
      cases hp : w.pc <;> simp_all [SessionPc.retiring, SessionPc.thread]
  refine ⟨⟨fun _ => hvalid.trans (hw.valid hne), ?_⟩, ?_⟩
  · intro ha
    rw [hact, hon] at ha
    cases ha
  · rcases hpc' with ⟨hpc', -⟩ | hpc'
    · exact .inl ⟨hact, hvalid, hpc'.trans hpc.symm⟩
    · refine .inr ⟨.served, ?_⟩
      intro joined
      simp only [Server.serveStep, seen, hpc, hpc', hact, hvalid]
      rfl

/-- One `recv` of a line: the session waits for the next byte, serves the line or retires. -/
theorem shows_recv {s : ClientSession} {line : Bytes} (hv : s.socket.isValid = true)
    (hon : s.isActive = true) :
    Sound (recvStep s line) ∧ Shows ⟨s, .recv line⟩ (recvStep s line) := by
  obtain ⟨hact, hfd, hpc⟩ := recvStep_spec s line
  have hv' := (isValid_congr hfd).trans hv
  refine ⟨⟨fun _ => hv', ?_⟩, ?_⟩
  · intro ha
    simp [hact, hon] at ha
  · rcases hpc with ⟨line', hpc⟩ | ⟨line', hpc⟩ | hpc
    · exact .inl ⟨hact, hv'.trans hv.symm, by rw [hpc]; rfl⟩
    · refine .inr ⟨.served, ?_⟩
      intro joined
      simp only [Server.serveStep, seen, SessionPc.thread, hpc, hact, hv, hv']
      rfl
    · refine .inr ⟨.gone, ?_⟩
      intro joined
      simp only [Server.serveStep, seen, SessionPc.thread, hpc, hact, hv, hv']
      rfl

theorem step_shows (h : step cfg w = some w') (hw : Sound w) : Sound w' ∧ Shows w w' := by
  obtain ⟨s, pc⟩ := w
  have hvalid := hw.valid
  have hquiet := hw.quiet
  cases pc with
  | activate =>
    cases h
    exact ⟨⟨fun _ => hvalid nofun, nofun⟩, .inr ⟨.served, fun _ => rfl⟩⟩
  | loopTest =>
    cases h
    refine ⟨⟨fun _ => hvalid nofun, ?_⟩, .inr ⟨.served, ?_⟩⟩
    · intro ha
      simp only [show s.isActive = false from ha]
      rfl
    · intro _
      rcases Bool.eq_false_or_eq_true s.isActive with ha | ha
      · simp [Server.serveStep, seen, ha, SessionPc.thread]
      · simp [Server.serveStep, seen, ha, SessionPc.thread]
  | recvLine =>
    have hv : s.socket.isValid = true := hvalid nofun
    simp only [step, hv, if_true, Option.some.injEq] at h
    subst h
    exact ⟨⟨fun _ => hv, fun ha => absurd (hquiet ha) nofun⟩, .inl ⟨rfl, rfl, rfl⟩⟩
  | recv line =>
    simp only [step, Option.some.injEq] at h
    subst h
    exact shows_recv (hvalid nofun) (by simpa [SessionPc.retiring] using mt hquiet)
  | deactivate =>
    cases h
    exact ⟨⟨fun _ => hvalid nofun, fun _ => rfl⟩, .inr ⟨.served, fun _ => rfl⟩⟩
  | close =>
    cases h
    refine ⟨⟨fun h => absurd rfl h, fun _ => rfl⟩, .inr ⟨.served, ?_⟩⟩
    intro joined
    simp only [Server.serveStep, seen, SessionPc.thread, close_isValid]
  | exited | thrown x => cases h
  | setInactive =>
    cases h
    exact ⟨⟨fun _ => hvalid nofun, fun _ => rfl⟩, .inr ⟨.ends, fun _ => rfl⟩⟩
  | send site data total after =>
    simp only [step, Option.some.injEq] at h
    subst h
    obtain ⟨hact, hfd, hpc⟩ := sendStep_spec s site data total after
    refine shows_handle hw rfl hact (isValid_congr hfd) ?_
    rcases hpc with ⟨total', hpc⟩ | ⟨ok, hpc⟩
    · rw [hpc]
      exact .inl ⟨rfl, rfl⟩
    · rw [hpc]
      exact after.next_thread ok
  | sendAll site data after =>
    have hv : s.socket.isValid = true := hvalid nofun
    simp only [step, hv, if_true, Option.some.injEq] at h
    subst h
    exact shows_handle hw rfl rfl rfl (.inl ⟨rfl, rfl⟩)
  | dispatch line =>
    cases h
    refine shows_handle hw rfl rfl rfl (.inl ?_)
    simp only [dispatch]
    (repeat' split) <;> exact ⟨rfl, rfl⟩
  | endTransfer t =>
    simp only [step] at h
    split at h <;> cases h
    · exact shows_handle hw rfl rfl rfl (.inr rfl)
    · refine shows_handle hw rfl ?_ ?_ (.inr rfl)
      · dsimp only
        split <;> rfl
      · dsimp only
        split <;> rfl
  | streamTest t =>
    cases h
    refine shows_handle hw rfl rfl rfl (.inl ?_)
    dsimp only
    split <;> exact ⟨rfl, rfl⟩
  | read t =>
    cases h
    refine shows_handle hw rfl rfl rfl (.inl ?_)
    dsimp only
    split <;> exact ⟨rfl, rfl⟩
  | listFiles | getFileSize filename | openBinaryFile filename fileSize | allocate file fileSize =>
    simp only [step] at h
    split at h <;> cases h <;> exact shows_handle hw rfl rfl rfl (.inl ⟨rfl, rfl⟩)

/-- No call on the connection has been made since `w`: every answer of the kernel is still to come. -/
structure Untouched (w w' : Worker) : Prop where
  isActive : w'.session.isActive = false
  onConnection : w'.pc.onConnection = false
  sent : w'.session.socket.sent = w.session.socket.sent
  sends : w'.session.socket.sends = w.session.socket.sends
  inbox : w'.session.socket.inbox = w.session.socket.inbox
  recvs : w'.session.socket.recvs = w.session.socket.recvs

theorem Sound.untouched (hw : Sound w) (ha : w.session.isActive = false) : Untouched w w := by
  refine ⟨ha, ?_, rfl, rfl, rfl, rfl⟩
  have hpc := hw.quiet ha
  cases hw : w.pc <;> simp_all [SessionPc.retiring, SessionPc.onConnection]

theorem Untouched.trans {w'' : Worker} (h : Untouched w w') (h' : Untouched w' w'') : Untouched w w'' :=
  ⟨h'.isActive, h'.onConnection, h'.sent.trans h.sent, h'.sends.trans h.sends,
    h'.inbox.trans h.inbox, h'.recvs.trans h.recvs⟩

/-- An inactive session does nothing more on its connection and stays inactive. -/
theorem step_inactive (h : step cfg w = some w') (hw : Sound w) (ha : w.session.isActive = false) :
    Untouched w w' := by
  obtain ⟨s, pc⟩ := w
  have hpc := hw.quiet ha
  cases pc with
  | loopTest =>
    cases h
    refine ⟨ha, ?_, rfl, rfl, rfl, rfl⟩
    dsimp only
    split <;> rfl
  | deactivate =>
    cases h
    exact ⟨rfl, rfl, rfl, rfl, rfl, rfl⟩
  | close =>
    cases h
    dsimp only [Socket.close]
    split <;> exact ⟨ha, rfl, rfl, rfl, rfl, rfl⟩
  | exited => cases h
  | _ => cases hpc

/-- The next step throws: `list_files` does, or the buffer cannot be allocated. -/
def throws (cfg : ClientSession.Config) (w : Worker) : Bool :=
  match w.pc with
  | .listFiles => (cfg.fileManager.listFiles w.session.clock).toOption.isNone
  | .allocate _ _ => cfg.allocate.isSome
  | _ => false

theorem step_isThrown (h : step cfg w = some w') : w'.pc.isThrown = w.throws cfg := by
  obtain ⟨s, pc⟩ := w
  cases pc with
  | listFiles =>
    simp only [step] at h
    split at h <;> cases h <;> simp_all [throws, SessionPc.isThrown, Except.toOption]
  | allocate file fileSize =>
    simp only [step] at h
    split at h <;> cases h <;> simp_all [throws, SessionPc.isThrown]
  | recv line =>
    cases h
    obtain ⟨-, -, ⟨line', hpc⟩ | ⟨line', hpc⟩ | hpc⟩ := recvStep_spec s line <;> rw [hpc] <;> rfl
  | send site data total after =>
    cases h
    obtain ⟨-, -, ⟨total', hpc⟩ | ⟨ok, hpc⟩⟩ := sendStep_spec s site data total after <;> rw [hpc]
    · rfl
    · exact AfterSend.next_isThrown ok after
  | sendAll site data after =>
    simp only [step] at h
    split at h <;> cases h
    · rfl
    · exact AfterSend.next_isThrown false after
  | dispatch line =>
    cases h
    simp only [dispatch]
    (repeat' split) <;> rfl
  | exited | thrown x => cases h
  | _ =>
    simp only [step] at h
    (repeat' split at h) <;> cases h <;> rfl

end Worker

/-- The server sees the thread where it stands, once it is started. -/
structure SessionWorker.Matches (x : SessionWorker) (w : Worker) : Prop where
  isActive : x.isActive = w.session.isActive
  connected : x.connected = w.session.socket.isValid
  thread : x.thread = w.pc.thread ∨ x.thread = .none ∧ w.pc = .activate

theorem SessionWorker.Matches.eq_seen {x : SessionWorker} {w : Worker} (h : x.Matches w)
    (hx : x.thread ≠ .none) : x = w.seen x.joined := by
  obtain ⟨hact, hconn, hthread⟩ := h
  have hthread := hthread.resolve_right fun h => hx h.1
  cases x
  simp_all [Worker.seen]

namespace LiveServer

variable {cfg : Nat → Nat → ClientSession.Config} {s s' : LiveServer} {ok : Bool}
    {client : Socket} {i : Nat} {l : LiveLabel}

/-! ### What a step can do -/

/-- A step of the thread in `start()`: the constructor of `std::thread` throws, or the step is one
of `Server`. -/
theorem startStep_cases (h : s.startStep ok = some s') :
    (s.server.start = .emplace ∧ ok = false ∧ s' = { s with terminated := true }) ∨
      s.server.startStep ok = some s'.server ∧ s'.terminated = s.terminated ∧
        (s.server.start = .emplace → ok = true) ∧ (s.server.start = .accept → ok = false) ∧
        ((s.server.start = .makeSession ∧ s'.joins = s.joins ∧
            ∃ client, s.clientSock = some client ∧ s'.clientSock = none ∧
              s'.sessions = s.sessions ++ [.new client]) ∨
          (s'.sessions = s.sessions ∧ s'.clientSock = s.clientSock ∧ s.server.start ≠ .makeSession ∧
            ((∃ k, s.server.start = .cleanupJoin k ∧ s'.joins = fun w =>
                if s.server.workers[k]? = some w then s.joins w + 1 else s.joins w) ∨
              (∀ k, s.server.start ≠ .cleanupJoin k) ∧ s'.joins = s.joins))) := by
  unfold startStep at h
  split at h
  · rename_i hpc
    split at h
    · cases h
    · obtain ⟨server, hs, rfl⟩ := Option.map_eq_some_iff.1 h
      simp_all
  · rename_i hpc
    split at h
    · cases h
    · obtain ⟨server, hs, rfl⟩ := Option.map_eq_some_iff.1 h
      simp_all
  · obtain ⟨server, hs, rfl⟩ := Option.map_eq_some_iff.1 h
    simp_all
  · rename_i hpc
    split at h
    · obtain ⟨server, hs, rfl⟩ := Option.map_eq_some_iff.1 h
      simp_all
    · cases h
      simp_all
  · obtain ⟨server, hs, rfl⟩ := Option.map_eq_some_iff.1 h
    simp_all

theorem acceptStep_cases (h : s.acceptStep client = some s') :
    s.server.start = .accept ∧ client.isValid = true ∧ s.server.startStep true = some s'.server ∧
      s' = { s with server := s'.server, clientSock := some client } := by
  unfold acceptStep at h
  split at h
  · rename_i hc
    obtain ⟨server, hs, rfl⟩ := Option.map_eq_some_iff.1 h
    exact ⟨hc.1, hc.2, hs, rfl⟩
  · cases h

theorem sessionStep_cases (h : s.sessionStep cfg i = some s') :
    ∃ w w' x, s.sessions[i]? = some w ∧ s.server.sessions[i]? = some x ∧ x.thread ≠ .none ∧
      Worker.stepAt (cfg i) w = some w' ∧
      s' = { s with
        server := s.server.modifySession i (·.see w')
        sessions := s.sessions.set i w'
        terminated := w'.pc.isThrown } := by
  unfold sessionStep at h
  split at h
  · rename_i hst
    obtain ⟨w', hw', rfl⟩ := Option.map_eq_some_iff.1 h
    obtain ⟨w, hw, hstep⟩ := Option.bind_eq_some_iff.1 hw'
    unfold started at hst
    cases hx : s.server.sessions[i]? with
    | none => simp [hx] at hst
    | some x => exact ⟨w, w', x, hw, rfl, by simpa [hx] using hst, hstep, rfl⟩
  · cases h

theorem step_cases (h : step cfg s l = some s') :
    s.terminated = false ∧
      ((∃ ok, l = .start ok ∧ s.startStep ok = some s') ∨
        (∃ client, l = .accept client ∧ s.acceptStep client = some s') ∨
        ∃ i, l = .session i ∧ s.sessionStep cfg i = some s') := by
  unfold step at h
  split at h
  · cases h
  · rename_i hterm
    refine ⟨by simpa using hterm, ?_⟩
    cases l with
    | start ok => exact .inl ⟨ok, rfl, h⟩
    | accept client => exact .inr (.inl ⟨client, rfl, h⟩)
    | session i => exact .inr (.inr ⟨i, rfl, h⟩)

/-- What ends the process: no thread can be created, or a session throws. -/
theorem step_terminated (h : step cfg s l = some s') :
    s'.terminated = true ↔ (s.server.start = .emplace ∧ l = .start false) ∨
      ∃ i w, l = .session i ∧ s.sessions[i]? = some w ∧ w.throws (cfg i w.session.clock) = true := by
  obtain ⟨hlive, ⟨ok, rfl, hok⟩ | ⟨client, rfl, hacc⟩ | ⟨i, rfl, hses⟩⟩ := step_cases h
  · rcases startStep_cases hok with ⟨hpc, rfl, rfl⟩ | ⟨-, hterm, hcreate, -⟩
    · simp [hpc]
    · simp only [hterm, hlive, Bool.false_eq_true, LiveLabel.start.injEq, reduceCtorEq,
        false_and, exists_false, or_false, false_iff, not_and]
      intro hpc
      simp [hcreate hpc]
  · obtain ⟨-, -, -, hs'⟩ := acceptStep_cases hacc
    rw [hs']
    simp [hlive]
  · obtain ⟨w, w', x, hw, -, -, hstep, rfl⟩ := sessionStep_cases hses
    have hthrown := Worker.step_isThrown hstep
    simp only [hthrown, reduceCtorEq, and_false, LiveLabel.session.injEq, false_or]
    constructor
    · intro ht
      exact ⟨i, w, rfl, hw, ht⟩
    · rintro ⟨j, v, rfl, hv, ht⟩
      obtain rfl : w = v := Option.some.inj (hw.symm.trans hv)
      exact ht

/-! ### The server and the threads -/

structure Synced (s : LiveServer) : Prop where
  length : s.sessions.length = s.server.sessions.length
  seen : ∀ (i : Nat) (w : Worker), s.sessions[i]? = some w → ∃ x, s.server.sessions[i]? = some x ∧
    x.Matches w
  sound : ∀ (i : Nat) (w : Worker), s.sessions[i]? = some w → w.Sound
  client : ∀ client, s.clientSock = some client →
    client.isValid = true ∧ (s.server.start = .setTimeouts ∨ s.server.start = .makeSession)

theorem modifySession_self {server : Server} {f : SessionWorker → SessionWorker}
    (h : ∀ x, server.sessions[i]? = some x → f x = x) : server.modifySession i f = server := by
  have hsame : server.sessions.modify i f = server.sessions := by
    refine List.ext_getElem? ?_
    intro j
    rw [List.getElem?_modify]
    cases hx : server.sessions[j]? with
    | none => rfl
    | some x =>
      by_cases hi : i = j
      · simp [hi, h x (hi ▸ hx)]
      · simp [hi]
  rw [Server.modifySession, hsame]

/-- Every step is a step of the server, or one that it does not see. -/
theorem step_server (h : step cfg s l = some s') (hs : Synced s) :
    Stutters Server.step s.server s'.server := by
  obtain ⟨-, ⟨ok, -, h⟩ | ⟨client, -, h⟩ | ⟨i, -, h⟩⟩ := step_cases h
  · rcases startStep_cases h with ⟨-, -, rfl⟩ | ⟨h, -⟩
    · exact .inl rfl
    · exact .inr ⟨.start ok, h⟩
  · exact .inr ⟨.start true, (acceptStep_cases h).2.2.1⟩
  · obtain ⟨w, w', x, hw, hx, hne, hstep, rfl⟩ := sessionStep_cases h
    obtain ⟨y, hy, hmatch⟩ := hs.seen i w hw
    obtain rfl : x = y := Option.some.inj (hx.symm.trans hy)
    have hseen := hmatch.eq_seen hne
    rcases (Worker.step_shows hstep (hs.sound i w hw)).2 with ⟨hact, hvalid, hpc⟩ | ⟨o, ho⟩
    · refine .inl (modifySession_self ?_)
      intro y hy
      obtain rfl : x = y := Option.some.inj (hx.symm.trans hy)
      rw [hseen]
      simp [SessionWorker.see, Worker.seen, hact, hvalid, hpc]
    · refine .inr ⟨.session i o, ?_⟩
      have hserve : Server.serveStep x o = some (w'.seen x.joined) := by
        rw [hseen]
        exact ho x.joined
      have hmodify : (s.server.sessions.modify i fun _ => w'.seen x.joined) =
          s.server.sessions.modify i (·.see w') := by
        refine List.ext_getElem? ?_
        intro j
        simp only [List.getElem?_modify]
        by_cases hi : i = j
        · subst hi
          simp [hx, SessionWorker.see, Worker.seen]
        · simp [hi]
      simp only [Server.step, hx, Option.bind_some, hserve, Option.map_some, Server.modifySession,
        hmodify]

theorem startStep_pending {server server' : Server} (h : server.startStep ok = some server')
    (hpc : server.start = .setTimeouts ∨ server.start = .makeSession) :
    server.start = .setTimeouts ∧ server'.start = .makeSession ∨ server.start = .makeSession := by
  rcases hpc with hpc | hpc
  · simp only [Server.startStep, hpc] at h
    cases h
    exact .inl ⟨hpc, rfl⟩
  · exact .inr hpc

theorem thread_ne_none (pc : SessionPc) : pc.thread ≠ .none := by
  cases pc <;> simp [SessionPc.thread]

theorem startStep_length {server server' : Server} (h : server.startStep ok = some server') :
    server'.sessions.length = if server.start = .makeSession then server.sessions.length + 1
      else server.sessions.length := by
  rcases Server.startStep_pool_cases h with
    ⟨hse, -, hmade⟩ | ⟨hpc, -, hse, -⟩ | ⟨k, w, hpc, -, -, -, hse, -⟩ | ⟨hpc, -, hse, -⟩
  · have hne : server.start ≠ .makeSession := by
      intro hpc
      simp only [Server.startStep, hpc, Option.some.injEq] at h
      subst h
      simp at hse
    rw [hse, if_neg hne]
  · simp [hse, hpc]
  · simp [hse, hpc]
  · simp [hse, hpc]

/-- The thread in `start()` leaves the session threads alone. -/
theorem startStep_matches {server server' : Server} (h : server.startStep ok = some server')
    (hpool : Server.Pool server)
    {w : Worker} {x : SessionWorker} (hx : server.sessions[i]? = some x) (hm : x.Matches w) :
    ∃ x', server'.sessions[i]? = some x' ∧ x'.Matches w := by
  obtain ⟨hlt, -⟩ := List.getElem?_eq_some_iff.1 hx
  rcases Server.startStep_pool_cases h with
    ⟨hse, -⟩ | ⟨-, -, hse, -⟩ | ⟨k, j, -, -, -, -, hse, -⟩ | ⟨hpc, -, hse, -⟩
  · exact ⟨x, by rw [hse, hx], hm⟩
  · exact ⟨x, by rw [hse, List.getElem?_append_left hlt, hx], hm⟩
  · by_cases hj : j = i
    · exact ⟨{ x with joined := true }, by simp [hse, hj, hx], ⟨hm.isActive, hm.connected, hm.thread⟩⟩
    · exact ⟨x, by simp [hse, hj, hx], hm⟩
  · by_cases hj : server.sessions.length - 1 = i
    · refine ⟨{ x with thread := .activate }, by simp [hse, hj, hx], ⟨hm.isActive, hm.connected, .inl ?_⟩⟩
      have hnone := hpool.fresh (by rw [hpc]; rfl) x (hj ▸ hx)
      rcases hm.thread with hthread | ⟨-, hpc'⟩
      · rw [hnone] at hthread
        exact absurd hthread.symm (thread_ne_none _)
      · rw [hpc']
        rfl
    · exact ⟨x, by simp [hse, hj, hx], hm⟩

theorem startStep_synced (h : s.startStep ok = some s') (hs : Synced s)
    (hpool : Server.Pool s.server) : Synced s' := by
  rcases startStep_cases h with ⟨-, -, rfl⟩ | ⟨hserver, -, -, -, hcase⟩
  · exact ⟨hs.length, hs.seen, hs.sound, hs.client⟩
  have hseen : ∀ (i : Nat) (w : Worker), s.sessions[i]? = some w →
      ∃ x, s'.server.sessions[i]? = some x ∧ x.Matches w := by
    intro i w hw
    obtain ⟨x, hx, hm⟩ := hs.seen i w hw
    exact startStep_matches hserver hpool hx hm
  have hlen := startStep_length hserver
  rcases hcase with ⟨hpc, -, client, hc, hnone, hnew⟩ | ⟨hsame, hc, hne, -⟩
  · rw [if_pos hpc] at hlen
    have hserver' : s'.server.sessions = s.server.sessions ++ [({} : SessionWorker)] := by
      simp only [Server.startStep, hpc, Option.some.injEq] at hserver
      rw [← hserver]
    have hv := (hs.client client hc).1
    refine ⟨by rw [hnew, hlen, List.length_append, hs.length]; rfl, ?_, ?_, by simp [hnone]⟩
    · intro i w hw
      rcases getElem?_concat_cases (hnew ▸ hw) with hw | ⟨rfl, rfl⟩
      · exact hseen i w hw
      · exact ⟨{}, by rw [hs.length, hserver', List.getElem?_concat_length], ⟨rfl, hv.symm, .inr ⟨rfl, rfl⟩⟩⟩
    · intro i w hw
      rcases getElem?_concat_cases (hnew ▸ hw) with hw | ⟨-, rfl⟩
      · exact hs.sound i w hw
      · exact Worker.sound_new hv
  · rw [if_neg hne] at hlen
    refine ⟨by rw [hsame, hlen, hs.length], by rw [hsame]; exact hseen, by rw [hsame]; exact hs.sound, ?_⟩
    intro client hc'
    obtain ⟨hv, hpc⟩ := hs.client client (hc ▸ hc')
    rcases startStep_pending hserver hpc with ⟨-, hpc'⟩ | hpc'
    · exact ⟨hv, .inr hpc'⟩
    · exact absurd hpc' hne

theorem acceptStep_synced (h : s.acceptStep client = some s') (hs : Synced s)
    (hpool : Server.Pool s.server) : Synced s' := by
  obtain ⟨hpc, hv, hserver, hs'⟩ := acceptStep_cases h
  have hsame : s'.sessions = s.sessions := by rw [hs']
  have hstart : s'.server.start = .setTimeouts := by
    simp only [Server.startStep, hpc, if_true] at hserver
    split at hserver
    · simp only [Option.some.injEq] at hserver
      rw [← hserver]
    · cases hserver
  refine ⟨?_, ?_, by rw [hsame]; exact hs.sound, ?_⟩
  · rw [hsame, startStep_length hserver, if_neg (by simp [hpc]), hs.length]
  · intro i w hw
    obtain ⟨x, hx, hm⟩ := hs.seen i w (hsame ▸ hw)
    exact startStep_matches hserver hpool hx hm
  · intro client' hc
    rw [hs'] at hc
    cases hc
    exact ⟨hv, .inl hstart⟩

theorem sessionStep_synced (h : s.sessionStep cfg i = some s') (hs : Synced s) : Synced s' := by
  obtain ⟨w, w', x, hw, hx, hne, hstep, rfl⟩ := sessionStep_cases h
  have hsound := (Worker.step_shows hstep (hs.sound i w hw)).1
  have hset {j : Nat} {v : Worker} (hv : (s.sessions.set i w')[j]? = some v) : j = i ∧
      v = w' ∨ j ≠ i ∧ s.sessions[j]? = some v := by
    by_cases hj : j = i
    · subst hj
      rw [List.getElem?_set_self (List.getElem?_eq_some_iff.1 hw).1] at hv
      exact .inl ⟨rfl, (Option.some.inj hv).symm⟩
    · rw [List.getElem?_set_ne (Ne.symm hj)] at hv
      exact .inr ⟨hj, hv⟩
  refine ⟨by simp [Server.modifySession, hs.length], ?_, ?_, hs.client⟩
  · intro j v hv
    rcases hset hv with ⟨rfl, rfl⟩ | ⟨hj, hv⟩
    · exact ⟨x.see v, by simp [Server.modifySession, hx], ⟨rfl, rfl, .inl rfl⟩⟩
    · obtain ⟨y, hy, hm⟩ := hs.seen j v hv
      exact ⟨y, by simp [Server.modifySession, Ne.symm hj, hy], hm⟩
  · intro j v hv
    rcases hset hv with ⟨-, rfl⟩ | ⟨-, hv⟩
    · exact hsound
    · exact hs.sound j v hv

theorem step_synced (h : step cfg s l = some s') (hs : Synced s) (hpool : Server.Pool s.server) :
    Synced s' := by
  obtain ⟨-, ⟨ok, -, h⟩ | ⟨client, -, h⟩ | ⟨i, -, h⟩⟩ := step_cases h
  · exact startStep_synced h hs hpool
  · exact acceptStep_synced h hs hpool
  · exact sessionStep_synced h hs

/-! ### `workers_`, as long as nobody stops the server -/

structure Registry (s : LiveServer) : Prop where
  nodup : s.server.workers.Nodup
  registered : ∀ i ∈ s.server.workers, ∃ x, s.server.sessions[i]? = some x ∧ x.joined = false ∧
    x.thread ≠ .none
  joins : ∀ (i : Nat) (x : SessionWorker), s.server.sessions[i]? = some x →
    s.joins i = if x.joined then 1 else 0
  unborn : ∀ i, s.server.sessions.length ≤ i → s.joins i = 0
  /-- Only an inactive session is joined. -/
  reaped : ∀ k, s.server.start = .cleanupJoin k →
    ∃ i w, s.server.workers[k]? = some i ∧ s.sessions[i]? = some w ∧ w.session.isActive = false

/-- The accept loop comes to a join from the test of the flag. -/
theorem startStep_reaped {server server' : Server} {k : Nat} (h : server.startStep ok = some server')
    (hpc : server'.start = .cleanupJoin k) :
    server.start = .cleanup k ∧ server'.workers = server.workers ∧ server'.sessions = server.sessions ∧
      ∃ i, server.workers[k]? = some i ∧ server.sessionActive i = false := by
  unfold Server.startStep at h
  split at h <;> (repeat' split at h) <;> cases h <;> simp_all

/-- A step that makes no session, starts none and joins none. -/
theorem Registry.of_same (hs : Registry s) (hw : s'.server.workers = s.server.workers)
    (hj : s'.joins = s.joins) (hlen : s'.server.sessions.length = s.server.sessions.length)
    (hse : ∀ (i : Nat) (x' : SessionWorker), s'.server.sessions[i]? = some x' →
      ∃ x, s.server.sessions[i]? = some x ∧ x'.joined = x.joined ∧ (x.thread ≠ .none → x'.thread ≠ .none))
    (hreaped : ∀ k, s'.server.start = .cleanupJoin k →
      ∃ i w, s'.server.workers[k]? = some i ∧ s'.sessions[i]? = some w ∧
        w.session.isActive = false) : Registry s' := by
  refine ⟨by rw [hw]; exact hs.nodup, ?_, ?_, ?_, hreaped⟩
  · intro i hi
    obtain ⟨x, hx, hjoined, hthread⟩ := hs.registered i (hw ▸ hi)
    have hlt : i < s'.server.sessions.length := by
      rw [hlen]
      exact (List.getElem?_eq_some_iff.1 hx).1
    obtain ⟨y, hy, hjoined', hthread'⟩ := hse i _ (List.getElem?_eq_getElem hlt)
    obtain rfl : x = y := Option.some.inj (hx.symm.trans hy)
    exact ⟨_, List.getElem?_eq_getElem hlt, hjoined'.trans hjoined, hthread' hthread⟩
  · intro i x' hx'
    obtain ⟨x, hx, hjoined, -⟩ := hse i x' hx'
    rw [hj, hjoined, hs.joins i x hx]
  · intro i hi
    rw [hj, hs.unborn i (hlen ▸ hi)]

theorem startStep_join {server server' : Server} {k : Nat} (h : server.startStep ok = some server')
    (hpc : server.start = .cleanupJoin k) :
    ∃ i, server.workers[k]? = some i ∧ server.threadExited i = true ∧
      server'.sessions = server.sessions.modify i ({ · with joined := true }) ∧
        server'.workers = server.workers.eraseIdx k ∧
      server'.start = .cleanup k := by
  simp only [Server.startStep, hpc] at h
  split at h
  · cases h
  · rename_i i hi
    split at h
    · rename_i hex
      cases h
      exact ⟨i, hi, hex, rfl, rfl, rfl⟩
    · cases h

/-- The thread of a session that leaves `workers_` is joined for the first time. -/
theorem Registry.join {k : Nat} (hs : Registry s) (hserver : s.server.startStep ok = some s'.server)
    (hpc : s.server.start = .cleanupJoin k)
    (hj : s'.joins = fun w => if s.server.workers[k]? = some w then s.joins w + 1 else s.joins w) :
    Registry s' := by
  obtain ⟨i, hi, hex, hse, hw, hpc'⟩ := startStep_join hserver hpc
  obtain ⟨x, hx, hjoined, hthread⟩ := hs.registered i (List.mem_of_getElem? hi)
  simp only [hi, Option.some.injEq] at hj
  refine ⟨by rw [hw]; exact hs.nodup.eraseIdx k, ?_, ?_, ?_, by simp [hpc']⟩
  · intro j hj'
    -- the others are not touched
    obtain ⟨n, hn, hget⟩ := List.mem_eraseIdx_iff_getElem?.1 (hw ▸ hj')
    have hne : i ≠ j := by
      rintro rfl
      exact hn ((List.getElem?_inj (List.getElem?_eq_some_iff.1 hget).1 hs.nodup).1 (hget.trans hi.symm))
    obtain ⟨y, hy, hrest⟩ := hs.registered j (List.mem_of_getElem? hget)
    exact ⟨y, by simp [hse, hne, hy], hrest⟩
  · intro j y' hy'
    rw [hse] at hy'
    obtain ⟨y, hy, ⟨rfl, rfl⟩ | ⟨hne, rfl⟩⟩ := Server.sessions_modify hy'
    · obtain rfl : x = y := Option.some.inj (hx.symm.trans hy)
      simp [hj, hs.joins j x hx, hjoined]
    · simp [hj, Ne.symm hne, hs.joins j y' hy]
  · intro j hlen
    have hlt := (List.getElem?_eq_some_iff.1 hx).1
    rw [hse, List.length_modify] at hlen
    simp [hj, show i ≠ j by omega, hs.unborn j hlen]

/-- At a join the flag has just been read. -/
theorem Registry.reads_flag (hs : Registry s) (hsync : Synced s)
    (hserver : s.server.startStep ok = some s'.server)
    (hsame : s.server.start ≠ .makeSession → s'.sessions = s.sessions) (k : Nat)
    (hpc : s'.server.start = .cleanupJoin k) :
    ∃ i w, s'.server.workers[k]? = some i ∧ s'.sessions[i]? = some w ∧ w.session.isActive = false := by
  obtain ⟨hpc', hw, hse, i, hi, hoff⟩ := startStep_reaped hserver hpc
  obtain ⟨x, hx, -⟩ := hs.registered i (List.mem_of_getElem? hi)
  have hlt : i < s.sessions.length := by
    rw [hsync.length]
    exact (List.getElem?_eq_some_iff.1 hx).1
  obtain ⟨y, hy, hm⟩ := hsync.seen i _ (List.getElem?_eq_getElem hlt)
  refine ⟨i, _, by rw [hw, hi], by rw [hsame (by simp [hpc']), List.getElem?_eq_getElem hlt], ?_⟩
  rw [← hm.isActive]
  simpa [Server.sessionActive, hy] using hoff

section
variable (hs : Registry s) (hj : s'.joins = s.joins)
  (hreaped : ∀ k, s'.server.start = .cleanupJoin k →
    ∃ i w, s'.server.workers[k]? = some i ∧ s'.sessions[i]? = some w ∧ w.session.isActive = false)
include hs hj hreaped

/-- A session is made; its thread is not there to be joined. -/
theorem Registry.make (hse : s'.server.sessions = s.server.sessions ++ [({} : SessionWorker)])
    (hw : s'.server.workers = s.server.workers) : Registry s' := by
  refine ⟨by rw [hw]; exact hs.nodup, ?_, ?_, ?_, hreaped⟩
  · intro i hi
    obtain ⟨x, hx, hrest⟩ := hs.registered i (hw ▸ hi)
    exact ⟨x, by rw [hse, List.getElem?_append_left (List.getElem?_eq_some_iff.1 hx).1, hx], hrest⟩
  · intro i x hx
    rcases getElem?_concat_cases (hse ▸ hx) with hx | ⟨rfl, rfl⟩
    · rw [hj, hs.joins i x hx]
    · rw [hj, hs.unborn _ (Nat.le_refl _)]
      rfl
  · intro i hi
    rw [hse, List.length_append] at hi
    rw [hj, hs.unborn i (by omega)]

/-- The session made last gets its thread. -/
theorem Registry.emplace (hpool : Server.Pool s.server) (hmade : Server.Made s.server)
    (hpc : s.server.start = .emplace)
    (hse : s'.server.sessions =
      s.server.sessions.modify (s.server.sessions.length - 1) ({ · with thread := .activate }))
    (hw : s'.server.workers = s.server.workers ++ [s.server.sessions.length - 1]) : Registry s' := by
  have hfresh := hpool.fresh (by rw [hpc]; rfl)
  have hnot : s.server.sessions.length - 1 ∉ s.server.workers := by
    intro hmem
    obtain ⟨x, hx, -, hthread⟩ := hs.registered _ hmem
    exact hthread (hfresh x hx)
  have hpos := hmade (by rw [hpc]; rfl)
  refine ⟨?_, ?_, ?_, ?_, hreaped⟩
  · rw [hw, List.nodup_append]
    refine ⟨hs.nodup, by simp, ?_⟩
    rintro a ha b hb rfl
    exact hnot (List.mem_singleton.1 hb ▸ ha)
  · intro i hi
    rw [hw, List.mem_append, List.mem_singleton] at hi
    rcases hi with hi | rfl
    · obtain ⟨x, hx, hrest⟩ := hs.registered i hi
      have hne : s.server.sessions.length - 1 ≠ i := fun he => hnot (he ▸ hi)
      exact ⟨x, by simp [hse, hne, hx], hrest⟩
    · have hlt : s.server.sessions.length - 1 < s.server.sessions.length := by omega
      have hx := List.getElem?_eq_getElem hlt
      refine ⟨{ s.server.sessions[s.server.sessions.length - 1] with thread := .activate },
        by simp [hse, hx], ?_, nofun⟩
      by_contra hjoined
      have hex := hpool.exited _ _ hx (by simpa using hjoined)
      rw [hfresh _ hx] at hex
      cases hex
  · intro i x hx
    rw [hse] at hx
    obtain ⟨y, hy, ⟨rfl, rfl⟩ | ⟨-, rfl⟩⟩ := Server.sessions_modify hx
    · rw [hj, hs.joins _ y hy]
    · rw [hj, hs.joins i x hy]
  · intro i hi
    rw [hse, List.length_modify] at hi
    rw [hj, hs.unborn i hi]

end

theorem startStep_registry (h : s.startStep ok = some s') (hsync : Synced s)
    (hpool : Server.Pool s.server) (hmade : Server.Made s.server) (hs : Registry s) : Registry s' := by
  rcases startStep_cases h with ⟨-, -, rfl⟩ | ⟨hserver, -, -, -, hcase⟩
  · exact ⟨hs.nodup, hs.registered, hs.joins, hs.unborn, hs.reaped⟩
  have hsame : s.server.start ≠ .makeSession → s'.sessions = s.sessions := by
    intro hne
    rcases hcase with ⟨hmake, -⟩ | ⟨hsame, -⟩
    · exact absurd hmake hne
    · exact hsame
  have hreaped := hs.reads_flag hsync hserver hsame
  by_cases hjoin : ∃ k, s.server.start = .cleanupJoin k
  · obtain ⟨k, hpc⟩ := hjoin
    rcases hcase with ⟨hmake, -⟩ | ⟨-, -, -, ⟨k', hpc', hj⟩ | ⟨hne, -⟩⟩
    · rw [hpc] at hmake
      cases hmake
    · exact hs.join hserver hpc' hj
    · exact absurd hpc (hne k)
  have hj : s'.joins = s.joins := by
    rcases hcase with ⟨-, hj, -⟩ | ⟨-, -, -, ⟨k, hpc, -⟩ | ⟨-, hj⟩⟩
    · exact hj
    · exact absurd ⟨k, hpc⟩ hjoin
    · exact hj
  rcases Server.startStep_pool_cases hserver with
    ⟨hse, hw, -⟩ | ⟨-, -, hse, hw⟩ | ⟨k, i, hpc, -⟩ | ⟨hpc, -, hse, hw⟩
  · exact hs.of_same hw hj (by rw [hse]) (fun i x hx => ⟨x, hse ▸ hx, rfl, id⟩) hreaped
  · exact hs.make hj hreaped hse hw
  · exact absurd ⟨k, hpc⟩ hjoin
  · exact hs.emplace hj hreaped hpool hmade hpc hse hw

theorem acceptStep_registry (h : s.acceptStep client = some s') (hs : Registry s) : Registry s' := by
  obtain ⟨hpc, -, hserver, hs'⟩ := acceptStep_cases h
  have hj : s'.joins = s.joins := by rw [hs']
  simp only [Server.startStep, hpc, if_true] at hserver
  split at hserver
  · simp only [Option.some.injEq] at hserver
    refine hs.of_same ?_ hj ?_ ?_ ?_
    · rw [← hserver]
    · rw [← hserver]
    · rw [← hserver]
      exact fun i x hx => ⟨x, hx, rfl, id⟩
    · rw [← hserver]
      exact fun k hk => nomatch hk
  · cases hserver

theorem sessionStep_registry (h : s.sessionStep cfg i = some s') (hsync : Synced s)
    (hs : Registry s) : Registry s' := by
  obtain ⟨w, w', x, hw, hx, hne, hstep, rfl⟩ := sessionStep_cases h
  refine hs.of_same rfl rfl (by simp [Server.modifySession]) ?_ ?_
  · intro j y' hy'
    obtain ⟨y, hy, ⟨rfl, rfl⟩ | ⟨-, rfl⟩⟩ := Server.sessions_modify hy'
    · exact ⟨y, hy, rfl, fun _ => thread_ne_none _⟩
    · exact ⟨y', hy, rfl, id⟩
  · intro k hk
    obtain ⟨j, v, hj, hv, hoff⟩ := hs.reaped k hk
    by_cases hij : i = j
    · subst hij
      obtain rfl : w = v := Option.some.inj (hw.symm.trans hv)
      refine ⟨i, w', hj, ?_, (Worker.step_inactive hstep (hsync.sound i w hw) hoff).isActive⟩
      exact List.getElem?_set_self (List.getElem?_eq_some_iff.1 hw).1
    · exact ⟨j, v, hj, by rw [List.getElem?_set_ne hij, hv], hoff⟩

/-! ### Every reachable state -/

structure Live (s : LiveServer) : Prop where
  consistent : Server.Consistent s.server
  made : Server.Made s.server
  synced : Synced s
  registry : Registry s

theorem live_new : Live new where
  consistent := Server.consistent_new
  made := nofun
  synced := ⟨rfl, by simp [new], by simp [new], by simp [new]⟩
  registry := ⟨by simp [new, Server.new], by simp [new, Server.new], by simp [new, Server.new], fun _ _ => rfl,
    by simp [new, Server.new]⟩

theorem step_live (h : step cfg s l = some s') (hs : Live s) : Live s' := by
  have hserver := step_server h hs.synced
  refine ⟨Server.stutters_consistent hserver hs.consistent, Server.stutters_made hserver hs.made,
    step_synced h hs.synced hs.consistent.pool, ?_⟩
  · obtain ⟨-, ⟨ok, -, h⟩ | ⟨client, -, h⟩ | ⟨i, -, h⟩⟩ := step_cases h
    · exact startStep_registry h hs.synced hs.consistent.pool hs.made hs.registry
    · exact acceptStep_registry h hs.registry
    · exact sessionStep_registry h hs.synced hs.registry

theorem exec_live {ls : List LiveLabel} (h : exec (step cfg) s ls = some s') (hs : Live s) : Live s' :=
  exec_invariant (fun _ _ _ hs _ h => step_live h hs) h
    (guarded_of_forall (P := fun _ => True) fun _ _ => trivial) hs

/-- A run with its sessions is a run of the server. -/
theorem exec_server {ls : List LiveLabel} (h : exec (step cfg) s ls = some s') (hs : Live s) :
    ∃ ls', exec Server.step s.server ls' = some s'.server :=
  exec_refines (f := server) (I := Live) (fun _ _ _ hs h => ⟨step_live h hs, step_server h hs.synced⟩) h hs

end LiveServer
end Streamer

import Streamer.Proofs.LiveInvariants
import Streamer.Proofs.Replies
import Streamer.Proofs.WorkerRun

/-!
# Sessions do not disturb each other

A session thread moves by its own steps only (`step_session`), so a run of the server, whatever
the others and the accept loop do in between, takes it where as many of its own steps take it
(`exec_session`), and a server with this client alone does the same (`exec_solo`). A session that
has gone inactive only returns from `run()`, and the accept loop joins no other.
-/

namespace Streamer
open Text Kernel Machine

namespace LiveServer

variable {cfg : Nat → Nat → ClientSession.Config} {s s' g : LiveServer} {client : Socket}
    {i : Nat} {l : LiveLabel}
  {ls : List LiveLabel} {w w' : Worker}

/-! ### The part of a session in a run -/

theorem step_session (h : step cfg s l = some s') (hw : s.sessions[i]? = some w) :
    (l = .session i ∧ ∃ w', Worker.stepAt (cfg i) w = some w' ∧ s'.sessions[i]? = some w') ∨
      l ≠ .session i ∧ s'.sessions[i]? = some w := by
  obtain ⟨-, ⟨ok, rfl, hok⟩ | ⟨client, rfl, hacc⟩ | ⟨j, rfl, hses⟩⟩ := step_cases h
  · refine .inr ⟨nofun, ?_⟩
    rcases startStep_cases hok with ⟨-, -, rfl⟩ | ⟨-, -, -, -, ⟨-, -, client, -, -, hnew⟩ | ⟨hsame, -⟩⟩
    · exact hw
    · rw [hnew, List.getElem?_append_left (List.getElem?_eq_some_iff.1 hw).1, hw]
    · rw [hsame, hw]
  · refine .inr ⟨nofun, ?_⟩
    obtain ⟨-, -, -, hs'⟩ := acceptStep_cases hacc
    rw [hs']
    exact hw
  · obtain ⟨v, v', x, hv, -, -, hstep, rfl⟩ := sessionStep_cases hses
    by_cases hj : j = i
    · subst hj
      obtain rfl : w = v := Option.some.inj (hw.symm.trans hv)
      exact .inl ⟨rfl, v', hstep, List.getElem?_set_self (List.getElem?_eq_some_iff.1 hv).1⟩
    · refine .inr ⟨by simpa using hj, ?_⟩
      rw [List.getElem?_set_ne hj, hw]

theorem exec_session (h : exec (step cfg) s ls = some s') (hw : s.sessions[i]? = some w) :
    ∃ w', iter (Worker.stepAt (cfg i)) (ls.count (.session i)) w = some w' ∧
      s'.sessions[i]? = some w' := by
  induction ls generalizing s w with
  | nil =>
    cases h
    exact ⟨w, rfl, hw⟩
  | cons l ls ih =>
    obtain ⟨t, ht, hrest⟩ := exec_cons h
    rcases step_session ht hw with ⟨rfl, v, hstep, hv⟩ | ⟨hl, hv⟩
    · obtain ⟨w', hw', hget⟩ := ih hrest hv
      exact ⟨w', by rw [List.count_cons_self, iter, hstep, Option.bind_some, hw'], hget⟩
    · obtain ⟨w', hw', hget⟩ := ih hrest hv
      exact ⟨w', by rw [List.count_cons_of_ne hl, hw'], hget⟩

/-- The connections that `accept` has given, in their order. -/
def clients (ls : List LiveLabel) : List Socket :=
  ls.filterMap fun | .accept client => some client | _ => none

/-- Where the sessions come from: the `i`-th is that of the `i`-th client, after as many steps as
it has made. -/
structure Origin (cfg : Nat → Nat → ClientSession.Config) (ls : List LiveLabel) (s : LiveServer) :
    Prop where
  session : ∀ (i : Nat) (w : Worker), s.sessions[i]? = some w → ∃ client, (clients ls)[i]? = some client ∧
    client.isValid = true ∧ iter (Worker.stepAt (cfg i)) (ls.count (.session i)) (.new client) = some w
  unborn : ∀ i, s.sessions.length ≤ i → ls.count (.session i) = 0
  length : (clients ls).length = s.sessions.length + s.clientSock.toList.length
  pending : ∀ client, s.clientSock = some client → (clients ls)[s.sessions.length]? = some client

theorem clients_append (ls ls' : List LiveLabel) : clients (ls ++ ls') = clients ls ++ clients ls' :=
  List.filterMap_append

theorem count_session_of_ne (hl : l ≠ .session i) :
    (ls ++ [l]).count (.session i) = ls.count (.session i) := by
  rw [List.count_append, List.count_singleton, if_neg (by simpa using hl), Nat.add_zero]

namespace Origin

theorem step_old (hs : Origin cfg ls s) (h : step cfg s l = some s') (hi : i < s.sessions.length)
    (hw' : s'.sessions[i]? = some w') :
    ∃ client, (LiveServer.clients (ls ++ [l]))[i]? = some client ∧ client.isValid = true ∧
      iter (Worker.stepAt (cfg i)) ((ls ++ [l]).count (.session i)) (.new client) = some w' := by
  obtain ⟨client, hclient, hv, hiter⟩ := hs.session i _ (List.getElem?_eq_getElem hi)
  refine ⟨client, ?_, hv, ?_⟩
  · rw [clients_append, List.getElem?_append_left (List.getElem?_eq_some_iff.1 hclient).1, hclient]
  · rcases step_session h (List.getElem?_eq_getElem hi) with ⟨rfl, v, hstep, hv⟩ | ⟨hne, hv⟩
    · obtain rfl : v = w' := Option.some.inj (hv.symm.trans hw')
      rw [List.count_append, List.count_singleton_self, iter_succ, hiter, Option.bind_some, hstep]
    · rw [hv] at hw'
      rw [count_session_of_ne hne, hiter, hw']

theorem step_unborn (hs : Origin cfg ls s) (h : step cfg s l = some s') (hi : s.sessions.length ≤ i) :
    (ls ++ [l]).count (.session i) = 0 := by
  have hne : l ≠ .session i := by
    rintro rfl
    obtain ⟨-, ⟨ok, hl, -⟩ | ⟨client, hl, -⟩ | ⟨j, hl, hses⟩⟩ := step_cases h
    · cases hl
    · cases hl
    · cases hl
      obtain ⟨w, -, -, hw, -⟩ := sessionStep_cases hses
      have := (List.getElem?_eq_some_iff.1 hw).1
      omega
  rw [count_session_of_ne hne, hs.unborn i hi]

/-- A step that makes no session and gets no connection. -/
theorem of_same (hs : Origin cfg ls s) (h : step cfg s l = some s')
    (hlen : s'.sessions.length = s.sessions.length)
    (hc : s'.clientSock = s.clientSock) (hl : LiveServer.clients [l] = []) :
    Origin cfg (ls ++ [l]) s' := by
  have hsame : LiveServer.clients (ls ++ [l]) =
      LiveServer.clients ls := by rw [clients_append, hl, List.append_nil]
  refine ⟨?_, fun i hi => hs.step_unborn h (hlen ▸ hi), by rw [hsame, hlen, hc, hs.length],
    ?_⟩
  · intro i w' hw'
    exact hs.step_old h (hlen ▸ (List.getElem?_eq_some_iff.1 hw').1) hw'
  · intro client hcl
    rw [hsame, hlen, hs.pending client (hc ▸ hcl)]

end Origin

theorem step_origin (h : step cfg s l = some s') (hlive : Live s) (hs : Origin cfg ls s) :
    Origin cfg (ls ++ [l]) s' := by
  obtain ⟨-, ⟨ok, rfl, hok⟩ | ⟨client, rfl, hacc⟩ | ⟨j, rfl, hses⟩⟩ := step_cases h
  · rcases startStep_cases hok with ⟨-, -, hterm⟩ |
      ⟨-, -, -, -, ⟨-, -, client, hc, hnone, hnew⟩ | ⟨hsame, hc, -⟩⟩
    · exact hs.of_same h (by rw [hterm]) (by rw [hterm]) rfl
    · have hold : clients (ls ++ [.start ok]) =
          clients ls := by rw [clients_append]; exact List.append_nil _
      have hlen := hs.length
      simp only [hc, Option.toList_some, List.length_singleton] at hlen
      refine ⟨?_, fun i hi => hs.step_unborn h ?_, ?_, by simp [hnone]⟩
      · intro i w' hw'
        by_cases hi : i < s.sessions.length
        · exact hs.step_old h hi hw'
        · rcases getElem?_concat_cases (hnew ▸ hw') with hget | ⟨rfl, rfl⟩
          · exact absurd (List.getElem?_eq_some_iff.1 hget).1 hi
          · refine ⟨client, by rw [hold, hs.pending client hc], (hlive.synced.client client hc).1, ?_⟩
            rw [hs.step_unborn h (Nat.le_refl _)]
            rfl
      · rw [hnew, List.length_append] at hi
        omega
      · rw [hold, hnew, hnone, List.length_append, hlen]
        rfl
    · exact hs.of_same h (by rw [hsame]) hc rfl
  · obtain ⟨hpc, hv, -, hs'⟩ := acceptStep_cases hacc
    have hnone : s.clientSock = none := by
      cases hc : s.clientSock with
      | none => rfl
      | some client' => simpa [hpc] using (hlive.synced.client client' hc).2
    have hlen := hs.length
    simp only [hnone, Option.toList_none, List.length_nil, Nat.add_zero] at hlen
    have hnew : clients (ls ++ [.accept client]) = clients ls ++ [client] := clients_append ls _
    have hsame : s'.sessions = s.sessions := by rw [hs']
    have hc' : s'.clientSock = some client := by rw [hs']
    refine ⟨?_, fun i hi => hs.step_unborn h (hsame ▸ hi), ?_, ?_⟩
    · intro i w' hw'
      exact hs.step_old h (hsame ▸ (List.getElem?_eq_some_iff.1 hw').1) hw'
    · rw [hnew, hsame, hc', List.length_append, hlen]
      rfl
    · intro client' hc
      rw [hc'] at hc
      rw [hnew, hsame, ← hlen, List.getElem?_concat_length, hc]
  · obtain ⟨v, v', x, hv, -, -, hstep, rfl⟩ := sessionStep_cases hses
    exact hs.of_same h (by simp) rfl rfl

theorem exec_origin (h : exec (step cfg) new ls = some s) : Live s ∧ Origin cfg ls s := by
  refine exec_history (I := fun ls s => Live s ∧ Origin cfg ls s) ⟨live_new, ?_⟩
    (fun ls s l s' hs h => ⟨step_live h hs.1, step_origin h hs.1 hs.2⟩) h
  exact ⟨by simp [new], fun _ _ => rfl, rfl, by simp [new]⟩

/-! ### The same client alone -/

/-- `start()` up to its `accept`, and from there until the session of the connection runs and it
waits again. -/
def connect (client : Socket) : List LiveLabel :=
  List.replicate 9 (.start true) ++ .accept client :: List.replicate 7 (.start true)

/-- A server to which this client alone connects; its thread makes `n` steps. -/
def solo (client : Socket) (n : Nat) : List LiveLabel := connect client ++ List.replicate n (.session 0)

/-- One session, which is in `workers_`. -/
structure Alone (s : LiveServer) (w : Worker) : Prop where
  sessions : s.sessions = [w]
  started : s.started 0 = true
  terminated : s.terminated = w.pc.isThrown

/-- The server in its first `accept`. -/
def listening : LiveServer where
  server := { start := .accept, isRunning := true, runningInstance := true, handlersInstalled := true,
              listenState := .listening, published := true }

theorem exec_connect (hv : client.isValid = true) :
    ∃ g, exec (step cfg) new (connect client) = some g ∧ Alone g (.new client) := by
  have hbegin : exec (step cfg) new (List.replicate 9 (.start true)) = some listening := rfl
  obtain ⟨g, hg, haccept⟩ : ∃ g, exec (step cfg) { listening with
        server := { listening.server with start := .setTimeouts, accepted := 1 },
          clientSock := some client }
      (List.replicate 7 (.start true)) = some g ∧ Alone g (.new client) := ⟨_, rfl, rfl, rfl, rfl⟩
  refine ⟨g, ?_, haccept⟩
  rw [connect, exec_append hbegin, exec]
  simp only [step, acceptStep, hv]
  exact hg

theorem exec_alone {n : Nat} (hg : Alone g w) (hw : iter (Worker.stepAt (cfg 0)) n w = some w') :
    ∃ g', exec (step cfg) g (List.replicate n (.session 0)) = some g' ∧ Alone g' w' := by
  induction n generalizing g w with
  | zero =>
    cases hw
    exact ⟨g, rfl, hg⟩
  | succ n ih =>
    obtain ⟨v, hstep, hrest⟩ := Option.bind_eq_some_iff.1 hw
    have hlive : g.terminated = false := by
      rw [hg.terminated]
      cases hpc : w.pc with
      | thrown x => simp [Worker.stepAt, Worker.step, hpc] at hstep
      | _ => rfl
    have hmove : step cfg g (.session 0) = some { g with
        server := g.server.modifySession 0 (·.see v), sessions := [v], terminated := v.pc.isThrown } := by
      simp [step, hlive, sessionStep, hg.started, hg.sessions, hstep]
    have hnext : Alone { g with
        server := g.server.modifySession 0 (·.see v)
        sessions := [v]
        terminated := v.pc.isThrown } v := by
      refine ⟨rfl, ?_, rfl⟩
      have hst := hg.started
      unfold started at hst ⊢
      cases hx : g.server.sessions[0]? with
      | none => simp [hx] at hst
      | some x => simp [Server.modifySession, hx, SessionWorker.see, thread_ne_none]
    obtain ⟨g', hg', halone⟩ := ih hnext hrest
    exact ⟨g', by rw [List.replicate_succ, exec, hmove]; exact hg', halone⟩

theorem exec_solo {n : Nat} (hv : client.isValid = true)
    (hw : iter (Worker.stepAt (cfg 0)) n (.new client) = some w) :
    ∃ g, exec (step cfg) new (solo client n) = some g ∧ Alone g w := by
  obtain ⟨g, hg, halone⟩ := exec_connect hv
  obtain ⟨g', hg', halone'⟩ := exec_alone halone hw
  exact ⟨g', by rw [solo, exec_append hg, hg'], halone'⟩

theorem step_session_isSome (hw : s.sessions[i]? = some w) :
    (step cfg s (.session i)).isSome =
    (!s.terminated && s.started i && (Worker.stepAt (cfg i) w).isSome) := by
  simp only [step, sessionStep, hw, Option.bind_some]
  cases s.terminated <;> cases s.started i <;> simp

/-- Every session over one media directory that does not change. -/
def unchanging (fm : FileManager) (fs : Filesystem.FileSystem) (chunkSize memory : Nat) :
    Nat → Nat → ClientSession.Config :=
  fun _ _ => .new (fm.media fs) chunkSize memory

theorem unchanging_alive {fm : FileManager} {fs : Filesystem.FileSystem} {chunkSize memory : Nat}
    (h : exec (step (unchanging fm fs chunkSize memory)) new ls = some s)
    (hthreads : Guarded (step (unchanging fm fs chunkSize memory))
      (fun s l => s.server.start = .emplace → l ≠ .start false) new ls)
    (halloc : (ClientSession.Config.new (fm.media fs) chunkSize memory).allocate = none) :
    s.terminated = false := by
  refine exec_invariant (I := fun s => s.terminated = false) ?_ h hthreads rfl
  intro s l s' _ hthread h
  refine Bool.not_eq_true _ ▸ ?_
  intro hterm
  rcases (step_terminated h).1 hterm with ⟨hpc, hl⟩ | ⟨i, w, -, -, hthrow⟩
  · exact hthread hpc hl
  · obtain ⟨files, hfiles⟩ := fm.listFiles_ok fs
    unfold Worker.throws unchanging at hthrow
    split at hthrow
    · simp [ClientSession.Config.new, FileManager.media, hfiles, Except.toOption] at hthrow
    · simp [halloc] at hthrow
    · cases hthrow

/-- Whatever the other sessions do and the accept loop reaps, a session is where it would be with
its client alone, the bytes on its connection included: in the run with this client alone and as
many steps of its thread. It can go on where it could go on alone (logging apart, for which the
threads share a lock), unless the process is gone, which one session's exception does to all; and
when it has come to its end it has done what `run` does. -/
theorem session_isolated (fm : FileManager) (fs : Filesystem.FileSystem) (chunkSize memory : Nat)
    (h : exec (step (unchanging fm fs chunkSize memory)) new ls = some s) (hw : s.sessions[i]? = some w) :
    ∃ client g, (clients ls)[i]? = some client ∧
      exec (step (unchanging fm fs chunkSize memory)) new (solo client (ls.count (.session i))) = some g ∧
      g.sessions = [w] ∧
      (s.terminated = false → s.started i = true →
        ((step (unchanging fm fs chunkSize memory) s (.session i)).isSome ↔
          (step (unchanging fm fs chunkSize memory) g (.session 0)).isSome)) ∧
      (w.pc = .exited →
        w.session = (ClientSession.run (.new (fm.media fs) chunkSize memory) (.new client)).2) ∧
      (Guarded (step (unchanging fm fs chunkSize memory))
        (fun s l => s.server.start = .emplace → l ≠ .start false) new ls →
        (ClientSession.Config.new (fm.media fs) chunkSize memory).allocate = none →
          s.terminated = false) := by
  obtain ⟨-, hs⟩ := exec_origin h
  obtain ⟨client, hclient, hv, hiter⟩ := hs.session i w hw
  obtain ⟨g, hg, halone⟩ : ∃ g, exec (step (unchanging fm fs chunkSize memory)) new
      (solo client (ls.count (.session i))) = some g ∧ Alone g w := exec_solo hv hiter
  refine ⟨client, g, hclient, hg, halone.sessions, ?_, ?_, unchanging_alive h⟩
  · intro hlive hst
    rw [step_session_isSome hw, step_session_isSome (w := w) (by rw [halone.sessions]; rfl),
      hlive, hst, halone.started, halone.terminated]
    cases hpc : w.pc with
    | thrown x => simp [Worker.stepAt, Worker.step, hpc]
    | _ => rfl
  · intro hpc
    have hend : w =
        Worker.finished (ClientSession.run (.new (fm.media fs) chunkSize memory) (.new client)) :=
      Worker.eq_run_of_final ⟨_, hiter⟩ (Worker.step_eq_none.2 (.inl hpc))
    rw [hend]
    rfl

/-- The first client asks for the catalogue and is gone after three bytes of it; the second quits.
The third is accepted in between, and the first session reaped. -/
def cutLister : Socket :=
  ⟨4, ascii "LIST\n", true, .replicate 5 (.moves 1), [], [.moves 3, .fails .EPIPE]⟩

def quitter : Socket :=
  ⟨5, ascii "LIST\nQUIT\n", true, .replicate 10 (.moves 1), [],
    [.moves 4, .fails .EINTR, .moves 400, .moves 50]⟩

def threeClients : List LiveLabel :=
  connect cutLister ++ .start true :: .accept quitter :: .replicate 8 (.start true) ++
    (List.replicate 17 [.session 0, .session 1]).flatten ++
    .start true :: .accept cutLister :: .replicate 10 (.start true) ++ .replicate 13 (.session 1)

theorem threeClients_isolated : ∃ s w g,
    exec (step (unchanging ClientSession.sampleManager ClientSession.sampleFs 2 100)) new
      threeClients = some s ∧
      s.sessions[1]? = some w ∧
      exec (step (unchanging ClientSession.sampleManager ClientSession.sampleFs 2 100)) new
        (solo quitter 30) = some g ∧
      g.sessions = [w] ∧ w.session.socket.sent = ascii "OK 1\na 2\nOK BYE\n" := by
  have hrun : ((exec (step (unchanging ClientSession.sampleManager ClientSession.sampleFs 2 100)) new
      threeClients).bind (·.sessions[1]?)).map (·.session.socket.sent) =
        some (ascii "OK 1\na 2\nOK BYE\n") := by decide +kernel
  obtain ⟨w, hw, hsent⟩ := Option.map_eq_some_iff.1 hrun
  obtain ⟨s, hs, hget⟩ := Option.bind_eq_some_iff.1 hw
  obtain ⟨client, g, hclient, hg, hsame, -⟩ := session_isolated _ _ _ _ hs hget
  obtain rfl : quitter = client := Option.some.inj (hclient ▸ by decide +kernel)
  exact ⟨s, w, g, hs, hget, hg, hsame, hsent⟩

/-! ### Reaping -/

theorem iter_inactive {next : Nat → ClientSession.Config} {n : Nat}
    (h : iter (Worker.stepAt next) n w = some w')
    (hw : w.Sound) (ha : w.session.isActive = false) : Worker.Untouched w w' := by
  induction n generalizing w with
  | zero =>
    cases h
    exact hw.untouched ha
  | succ n ih =>
    obtain ⟨v, hstep, hrest⟩ := Option.bind_eq_some_iff.1 h
    have hv := Worker.step_inactive hstep hw ha
    exact hv.trans (ih hrest (Worker.step_shows hstep hw).1 hv.isActive)

theorem inactive_exits (next : Nat → ClientSession.Config) (hw : w.Sound)
    (ha : w.session.isActive = false) :
    ∃ n ≤ 3, ∃ w', iter (Worker.stepAt next) n w = some w' ∧ w'.pc = .exited := by
  obtain ⟨session, pc⟩ := w
  have hpc := hw.quiet ha
  cases pc with
  | loopTest =>
    have hstep : Worker.stepAt next ⟨session, .loopTest⟩ = some ⟨session, .deactivate⟩ := by
      simp [Worker.stepAt, Worker.step, show session.isActive = false from ha]
    exact ⟨3, by omega, _, by rw [iter, hstep]; rfl, rfl⟩
  | deactivate => exact ⟨2, by omega, _, rfl, rfl⟩
  | close => exact ⟨1, by omega, _, rfl, rfl⟩
  | exited => exact ⟨0, by omega, _, rfl, rfl⟩
  | _ => cases hpc

/-- The session only returns from `run()`: in no run to come does its thread call `recv` or
`send`, and three steps of its own bring it to the end. -/
structure Retiring (cfg : Nat → Nat → ClientSession.Config) (s : LiveServer) (i : Nat) (w : Worker) :
    Prop where
  silent : ∀ ls s', exec (step cfg) s ls = some s' → ∃ w', s'.sessions[i]? = some w' ∧
    Worker.Untouched w w'
  returns : ∃ n ≤ 3, ∃ w', iter (Worker.stepAt (cfg i)) n w = some w' ∧ w'.pc = .exited

theorem Live.retiring (hs : Live s) (hw : s.sessions[i]? = some w) (ha : w.session.isActive = false) :
    Retiring cfg s i w := by
  have hsound := hs.synced.sound i w hw
  refine ⟨?_, inactive_exits _ hsound ha⟩
  intro ls s' h
  obtain ⟨w', hiter, hw'⟩ := exec_session h hw
  exact ⟨w', hw', iter_inactive hiter hsound ha⟩

/-- What the accept loop reaps: it joins only the thread of a session that is inactive, hence
waits for no peer; and a session that has left `workers_` had its thread joined once and has
nothing more to read or write. -/
theorem reaping_waits_for_no_peer (h : exec (step cfg) new ls = some s) :
    (∀ i ∈ s.server.workers, s.joins i = 0 ∧
        ∃ w, s.sessions[i]? = some w ∧ (w.session.isActive = false → Retiring cfg s i w)) ∧
      (∀ k, s.server.start = .cleanupJoin k →
        ∃ i w, s.server.workers[k]? = some i ∧ s.sessions[i]? = some w ∧ Retiring cfg s i w) ∧
      (∀ i w, s.sessions[i]? = some w → s.started i = true → i ∉ s.server.workers →
        s.joins i = 1 ∧ w.pc = .exited) := by
  have hs := exec_live h live_new
  refine ⟨?_, ?_, ?_⟩
  · intro i hi
    obtain ⟨x, hx, hjoined, -⟩ := hs.registry.registered i hi
    have hlt : i < s.sessions.length := by
      rw [hs.synced.length]
      exact (List.getElem?_eq_some_iff.1 hx).1
    refine ⟨by simp [hs.registry.joins i x hx, hjoined], _, List.getElem?_eq_getElem hlt, ?_⟩
    intro ha
    exact hs.retiring (List.getElem?_eq_getElem hlt) ha
  · intro k hk
    obtain ⟨i, w, hi, hw, ha⟩ := hs.registry.reaped k hk
    exact ⟨i, w, hi, hw, hs.retiring hw ha⟩
  · intro i w hw hst hnot
    obtain ⟨x, hx, hm⟩ := hs.synced.seen i w hw
    have hthread : x.thread ≠ .none := by simpa [started, hx] using hst
    have hjoined : x.joined = true := by
      by_contra hj
      exact hnot (hs.consistent.pool.registered i x hx hthread (by simpa using hj))
    refine ⟨by simp [hs.registry.joins i x hx, hjoined], ?_⟩
    have hex := hs.consistent.pool.exited i x hx hjoined
    rw [hm.thread.resolve_right fun h => hthread h.1] at hex
    cases hpc : w.pc <;> simp_all [SessionPc.thread]

/-- The first of the three sessions has been reaped, the second is about to be. -/
theorem threeClients_reaped : ∃ s w,
    exec (step (unchanging ClientSession.sampleManager ClientSession.sampleFs 2 100)) new
      threeClients = some s ∧
      s.sessions[0]? = some w ∧ s.server.workers = [1, 2] ∧ s.joins 0 = 1 ∧ w.pc = .exited := by
  have hrun : ((exec (step (unchanging ClientSession.sampleManager ClientSession.sampleFs 2 100)) new
      threeClients).map fun s => (s.server.workers, s.started 0, s.sessions[0]?.isSome)) =
        some ([1, 2], true, true) := by decide +kernel
  obtain ⟨s, hs, hstate⟩ := Option.map_eq_some_iff.1 hrun
  simp only [Prod.mk.injEq] at hstate
  obtain ⟨hworkers, hst, hsome⟩ := hstate
  obtain ⟨w, hw⟩ := Option.isSome_iff_exists.1 hsome
  obtain ⟨hjoins, hpc⟩ := (reaping_waits_for_no_peer hs).2.2 0 w hw hst (by simp [hworkers])
  exact ⟨s, w, hs, hw, hworkers, hjoins, hpc⟩

end LiveServer
end Streamer

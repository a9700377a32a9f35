import Streamer.Proofs.ServerInvariants
import Streamer.Signals

/-!
# No thread waits for itself

`handle_signal` logs, `stop()` locks `workers_mutex_` and joins every worker. What the interrupted
thread holds, or is, decides: `Harmless` says when a signal may come and on which thread the
shutdown may be done, and a run of harmless steps never has a thread that waits for a mutex of its
own or joins itself.
-/

namespace Streamer
open Machine

namespace Server

def HasThread (s : Server) (i : Nat) : Prop := ∃ x, s.sessions[i]? = some x ∧ x.thread ≠ .none

theorem hasThread_modify {s s' : Server} {i j : Nat} {f : SessionWorker → SessionWorker}
    (hs' : s'.sessions = s.sessions.modify j f)
    (hf : ∀ x, s.sessions[j]? = some x → x.thread ≠ .none → (f x).thread ≠ .none)
    (h : s.HasThread i) : s'.HasThread i := by
  obtain ⟨x, hx, hthread⟩ := h
  by_cases hj : j = i
  · subst hj
    exact ⟨f x, by simp [hs', hx], hf x hx hthread⟩
  · exact ⟨x, by simp [hs', hj, hx], hthread⟩

/-- A thread that has begun has begun for good. -/
theorem step_hasThread {s s' : Server} {l : Label} {i : Nat} (h : s.step l = some s')
    (hi : s.HasThread i) : s'.HasThread i := by
  cases l with
  | start ok =>
    rcases startStep_pool_cases h with ⟨hs, -⟩ | ⟨-, -, hs, -⟩ | ⟨_, _, -, -, -, -, hs, -⟩ | ⟨-, -, hs, -⟩
    · simpa only [HasThread, hs] using hi
    · obtain ⟨x, hx, hthread⟩ := hi
      exact ⟨x, by rw [hs, List.getElem?_append_left (List.getElem?_eq_some_iff.mp hx).1, hx], hthread⟩
    · exact hasThread_modify hs (fun _ _ h => h) hi
    · exact hasThread_modify hs (fun _ _ _ => by simp) hi
  | stop c =>
    rcases stopStep_pool_cases h with ⟨hs, -⟩ | ⟨-, ⟨_, f, hs, -, hf⟩ | ⟨_, hs, -⟩ | ⟨-, hs, -⟩⟩
    · simpa only [HasThread, hs] using hi
    · exact hasThread_modify hs (fun x _ h => by rwa [(hf x).1]) hi
    · exact hasThread_modify hs (fun _ _ h => h) hi
    · simpa only [HasThread, hs] using hi
  | session j o =>
    obtain ⟨x, x', -, rfl, -, -, -, hthread⟩ := sessionStep_cases h
    exact hasThread_modify rfl (fun _ _ _ => hthread) hi
  | call c | signal c =>
    rcases callStep_cases (c := c) h (by simp) with rfl | ⟨-, rfl⟩
    · exact hi
    · exact hi

end Server

namespace SignalledServer

/-! ### What a step can do -/

/-- The steps, one constructor for each kind. -/
inductive Moves (s : SignalledServer) : SignalLabel → SignalledServer → Prop
  | signal {t signum} (hs : s.stack t ≠ []) :
      Moves s (.signal t signum)
        { s.setStack t (⟨.handler signum s.delivered.length, some .lock⟩ :: s.stack t) with
          delivered := s.delivered ++ [t] }
  | log {t fs} (hs : s.stack t = ⟨.base, none⟩ :: fs) : Moves s (.log t)
      (s.setStack t (⟨.base, some .lock⟩ :: fs))
  | lock {t ok outcome code fs} (hs : s.stack t = ⟨code, some .lock⟩ :: fs) :
      Moves s (.move t ok outcome) { s.setStack t (⟨code, some .unlock⟩ :: fs) with logger := some t }
  | unlock {t ok outcome code fs} (hs : s.stack t = ⟨code, some .unlock⟩ :: fs) :
      Moves s (.move t ok outcome) { s.setStack t (⟨code, none⟩ :: fs) with logger := none }
  | start {ok outcome fs server fs'} (hs : s.stack .accept = ⟨.base, none⟩ :: fs)
      (h : s.server.startStep ok = some server)
      (hpc : s.server.start ≠ .emplace) (hfs : fs' = fs ∨ fs' = ⟨.base, none⟩ :: fs) :
      Moves s (.move .accept ok outcome) ({ s with server := server }.setStack .accept fs')
  | emplace {ok outcome fs server} (hs : s.stack .accept = ⟨.base, none⟩ :: fs)
      (h : s.server.startStep ok = some server)
      (hpc : s.server.start = .emplace) :
      Moves s (.move .accept ok outcome)
        (({ s with server := server }.setStack .accept (⟨.base, some .lock⟩ :: fs)).setStack
        (.worker (s.server.sessions.length - 1)) [⟨.base, none⟩])
  | session {i ok outcome fs server fs'} (hs : s.stack (.worker i) = ⟨.base, none⟩ :: fs)
      (h : s.server.step (.session i outcome) = some server)
      (hfs : fs' = fs ∨ fs' = ⟨.base, none⟩ :: fs) :
      Moves s (.move (.worker i) ok outcome) ({ s with server := server }.setStack (.worker i) fs')
  | load {t ok outcome signum c fs server} (hs : s.stack t = ⟨.handler signum c, none⟩ :: fs)
      (h : s.server.step (.signal c) = some server) : Moves s (.move t ok outcome)
        { s with server := server }
  | pop {t ok outcome signum c fs} (hs : s.stack t = ⟨.handler signum c, none⟩ :: fs) :
      Moves s (.move t ok outcome) (s.setStack t fs)
  | stop {t ok outcome signum c fs server log} (hs : s.stack t = ⟨.handler signum c, none⟩ :: fs)
      (h : s.server.stopStep c = some server) (hlog : log ≠ some .unlock) :
      Moves s (.move t ok outcome)
        ({ s with server := server }.setStack t (⟨.handler signum c, log⟩ :: fs))

variable {s s' : SignalledServer} {t t' : ThreadId} {l : SignalLabel} {ls : List SignalLabel}
    {f : Frame} {fs rest : List Frame}
  {c i : Nat}

@[simp] theorem setStack_stack (fs : List Frame) :
    (s.setStack t fs).stack t' = if t' = t then fs else s.stack t' := rfl

@[simp] theorem setStack_server (fs : List Frame) : (s.setStack t fs).server = s.server := rfl

@[simp] theorem setStack_logger (fs : List Frame) : (s.setStack t fs).logger = s.logger := rfl

@[simp] theorem setStack_delivered (fs : List Frame) : (s.setStack t fs).delivered = s.delivered := rfl

theorem baseStep_moves {ok : Bool} {o : ServeOutcome} (hs : s.stack t = ⟨.base, none⟩ :: fs)
    (h : s.baseStep fs ok o t = some s') : Moves s (.move t ok o) s' := by
  cases t with
  | accept =>
    obtain ⟨server, hserver, rfl⟩ := Option.map_eq_some_iff.1 h
    split
    · exact .emplace hs hserver ‹_›
    · refine .start hs hserver ‹_› ?_
      split
      · exact .inl rfl
      · exact .inr rfl
  | worker i =>
    obtain ⟨server, hserver, rfl⟩ := Option.map_eq_some_iff.1 h
    refine .session hs hserver ?_
    split
    · exact .inl rfl
    · exact .inr rfl

theorem handlerStep_moves {ok : Bool} {o : ServeOutcome} {signum : Signum}
    (hs : s.stack t = ⟨.handler signum c, none⟩ :: fs)
    (h : s.handlerStep t fs signum c = some s') : Moves s (.move t ok o) s' := by
  unfold handlerStep at h
  split at h
  · split at h
    · obtain ⟨server, hserver, rfl⟩ := Option.map_eq_some_iff.1 h
      exact .load hs hserver
    · cases h
      exact .pop hs
  · cases h
    exact .pop hs
  · obtain ⟨server, hserver, rfl⟩ := Option.map_eq_some_iff.1 h
    refine .stop hs hserver ?_
    split <;> simp

theorem step_moves (h : s.step l = some s') : Moves s l s' := by
  unfold step at h
  split at h
  · split at h
    · rename_i hc
      cases h
      exact .signal hc.2.1
    · cases h
  · split at h
    · split at h
      · cases h
        exact .log ‹_›
      · cases h
    · cases h
  · split at h
    · cases h
    · split at h
      · cases h
        exact .lock ‹_›
      · cases h
    · cases h
      exact .unlock ‹_›
    · exact baseStep_moves ‹_› h
    · exact handlerStep_moves ‹_› h

/-- A step is a step of the server, or one that it does not see. -/
theorem Moves.server (h : Moves s l s') : Stutters Server.step s.server s'.server := by
  cases h with
  | signal | log | lock | unlock | pop => exact .inl rfl
  | start _ h | emplace _ h => exact .inr ⟨.start _, h⟩
  | session _ h => exact .inr ⟨.session _ _, h⟩
  | load _ h => exact .inr ⟨.signal _, h⟩
  | stop _ h => exact .inr ⟨.stop _, h⟩

/-- A run with signals is a run of the server, the handlers being callers of its `stop()`. -/
theorem exec_server (h : exec step s ls = some s') :
    ∃ ls', exec Server.step s.server ls' = some s'.server :=
  exec_refines (f := server) (I := fun _ => True) (fun _ _ _ _ h => ⟨trivial, (step_moves h).server⟩) h trivial

/-! ### The invariant -/

/-- The base code is at the bottom, handlers above it. -/
def Stacked : List Frame → Prop
  | [] => True
  | f :: fs => (f.code = .base ↔ fs = []) ∧ Stacked fs

structure Sane (s : SignalledServer) : Prop where
  consistent : Server.Consistent s.server
  made : Server.Made s.server
  fresh : ∀ c, s.delivered.length ≤ c → s.server.stops c = .idle
  stacked : ∀ t, Stacked (s.stack t)
  callers : ∀ t f c, f ∈ s.stack t → f.code.caller = some c → s.delivered[c]? = some t
  /-- Who holds the logger is in the log call, and not interrupted in it. -/
  logger : ∀ t, s.logger = some t → ∃ code fs, s.stack t = ⟨code, some .unlock⟩ :: fs
  started : ∀ i, s.stack (.worker i) ≠ [] → s.server.HasThread i
  /-- The shutdown is done on the accept thread, -/
  won : ∀ c, (s.server.stops c).won = true → s.delivered[c]? = some .accept
  /-- outside of its sections under `workers_mutex_`. -/
  outside : ∀ f c, f ∈ s.stack .accept → f.code.caller = some c → (s.server.stops c).won = true →
    s.server.start.locked = false

/-- A handler that is about to win the compare-exchange is on the accept thread, which does not hold
`workers_mutex_`. -/
def MayStop (s : SignalledServer) (t : ThreadId) : List Frame → Prop
  | ⟨.handler _ c, none⟩ :: _ => s.server.stops c = .exchange → s.server.isRunning = true →
    t = .accept ∧ s.server.mutex ≠ some .accept
  | _ => True

/-- The signal does not interrupt a log call, and the shutdown is done by the accept thread while
it does not hold `workers_mutex_`. -/
def Harmless (s : SignalledServer) : SignalLabel → Prop
  | .signal t _ => s.logger ≠ some t
  | .log _ => True
  | .move t _ _ => s.MayStop t (s.stack t)

instance MayStop.decidable (s : SignalledServer) (t : ThreadId) : ∀ fs, Decidable (s.MayStop t fs)
  | [] | ⟨.base, _⟩ :: _ | ⟨.handler _ _, some _⟩ :: _ => .isTrue trivial
  | ⟨.handler _ c, none⟩ :: _ =>
    inferInstanceAs (Decidable (s.server.stops c = .exchange → s.server.isRunning = true →
      t = .accept ∧ s.server.mutex ≠ some .accept))

instance Harmless.decidable (s : SignalledServer) : ∀ l, Decidable (s.Harmless l)
  | .signal t _ => inferInstanceAs (Decidable (s.logger ≠ some t))
  | .log _ => .isTrue trivial
  | .move t _ _ => inferInstanceAs (Decidable (s.MayStop t (s.stack t)))

theorem Stacked.handlers (h : Stacked (f :: fs)) (hf : f.code = .base) : fs = [] := h.1.1 hf

/-- The top of a stack goes on or returns. -/
def Goes (fs fs' : List Frame) : Prop :=
  ∃ f rest, fs = f :: rest ∧ (fs' = rest ∨ ∃ f', f'.code = f.code ∧ fs' = f' :: rest)

theorem Goes.on (h : fs = f :: rest) (log : Option LogPc) : Goes fs (⟨f.code, log⟩ :: rest) :=
  ⟨f, rest, h, .inr ⟨⟨f.code, log⟩, rfl, rfl⟩⟩

theorem Goes.back (h : fs = f :: rest) : Goes fs rest := ⟨f, rest, h, .inl rfl⟩

theorem Goes.stacked {fs' : List Frame} (h : Goes fs fs') (hs : Stacked fs) : Stacked fs' := by
  obtain ⟨f, rest, rfl, rfl | ⟨f', hcode, rfl⟩⟩ := h
  · exact hs.2
  · exact ⟨by rw [hcode]; exact hs.1, hs.2⟩

theorem Goes.code {fs' : List Frame} (h : Goes fs fs') (hf : f ∈ fs') : ∃ g ∈ fs, g.code = f.code := by
  obtain ⟨g, rest, rfl, rfl | ⟨f', hcode, rfl⟩⟩ := h
  · exact ⟨f, by simp [hf], rfl⟩
  · rcases List.mem_cons.1 hf with rfl | hf
    · exact ⟨g, by simp, hcode.symm⟩
    · exact ⟨f, by simp [hf], rfl⟩

theorem Goes.ne_nil {fs' : List Frame} (h : Goes fs fs') : fs ≠ [] := by
  obtain ⟨f, rest, rfl, -⟩ := h
  exact List.cons_ne_nil f rest

/-- A step of one thread that starts none and gets no signal. -/
theorem Sane.of_goes (hs : Sane s) {fs' : List Frame} (hgoes : Goes (s.stack t) fs')
    (hstack : s'.stack = fun u => if u = t then fs' else s.stack u) (hdel : s'.delivered = s.delivered)
    (hserver : Stutters Server.step s.server s'.server)
    (hfresh : ∀ c, s.delivered.length ≤ c → s'.server.stops c = .idle)
    (hlogger : ∀ u, s'.logger = some u → ∃ code fs, s'.stack u = ⟨code, some .unlock⟩ :: fs)
    (hwon : ∀ c, (s'.server.stops c).won = true → s.delivered[c]? = some .accept)
    (houtside : ∀ f c, f ∈ s.stack .accept → f.code.caller = some c → (s'.server.stops c).won = true →
      s'.server.start.locked = false) : Sane s' := by
  have hmem {u : ThreadId} {f : Frame} (hf : f ∈ s'.stack u) : ∃ g ∈ s.stack u, g.code = f.code := by
    rw [hstack] at hf
    dsimp only at hf
    split at hf
    · rename_i hu
      subst hu
      exact hgoes.code hf
    · exact ⟨f, hf, rfl⟩
  refine ⟨Server.stutters_consistent hserver hs.consistent, Server.stutters_made hserver hs.made,
    by rw [hdel]; exact hfresh, ?_, ?_, hlogger, ?_, by rw [hdel]; exact hwon, ?_⟩
  · intro u
    rw [hstack]
    dsimp only
    split
    · exact hgoes.stacked (hs.stacked t)
    · exact hs.stacked u
  · intro u f c hf hc
    obtain ⟨g, hg, hcode⟩ := hmem hf
    rw [hdel]
    exact hs.callers u g c hg (hcode ▸ hc)
  · intro i hi
    have hne : s.stack (.worker i) ≠ [] := by
      rw [hstack] at hi
      dsimp only at hi
      split at hi
      · rename_i hu
        rw [hu]
        exact hgoes.ne_nil
      · exact hi
    exact hserver.keeps (I := fun server => server.HasThread i)
      (fun _ _ _ hi h => Server.step_hasThread h hi) (hs.started i hne)
  · intro f c hf hc hw
    obtain ⟨g, hg, hcode⟩ := hmem hf
    exact houtside g c hg (hcode ▸ hc) hw

/-- Who holds the logger keeps it while another thread moves. -/
theorem Sane.logger_kept (hs : Sane s) (htop : s.stack t = f :: fs) (hlog : f.log ≠ some .unlock)
    (hu : s.logger = some t') : t' ≠ t ∧ ∃ code fs, s.stack t' = ⟨code, some .unlock⟩ :: fs := by
  obtain ⟨code, fs', hstack⟩ := hs.logger t' hu
  refine ⟨?_, code, fs', hstack⟩
  rintro rfl
  rw [htop] at hstack
  exact hlog (by rw [(List.cons.inj hstack).1])

theorem Sane.signal (hs : Sane s) {signum : Signum} (hne : s.stack t ≠ []) (hl : s.logger ≠ some t) :
    Sane { s.setStack t (⟨.handler signum s.delivered.length, some .lock⟩ :: s.stack t) with
      delivered := s.delivered ++ [t] } := by
  have hidle := hs.fresh s.delivered.length (Nat.le_refl _)
  have hold {c : Nat} {u : ThreadId} (h : s.delivered[c]? = some u) :
      (s.delivered ++ [t])[c]? = some u := by
    rw [List.getElem?_append_left (List.getElem?_eq_some_iff.1 h).1, h]
  -- a frame of the new stacks is an old one or the handler
  have hmem {u : ThreadId} {f : Frame}
      (hf : f ∈ (s.setStack t (⟨.handler signum s.delivered.length, some .lock⟩ :: s.stack t)).stack u) :
      f ∈ s.stack u ∨ u = t ∧ f.code.caller = some s.delivered.length := by
    rw [setStack_stack] at hf
    split at hf
    · rename_i hu
      rcases List.mem_cons.1 hf with rfl | hf
      · exact .inr ⟨hu, rfl⟩
      · exact .inl (hu ▸ hf)
    · exact .inl hf
  refine ⟨hs.consistent, hs.made, ?_, ?_, ?_, ?_, ?_,
    fun c hc => hold (hs.won c hc), ?_⟩
  · intro c hc
    exact hs.fresh c (by simp at hc; omega)
  · intro u
    simp only [setStack_stack]
    split
    · exact ⟨by simp [hne], hs.stacked t⟩
    · exact hs.stacked u
  · intro u f c hf hcaller
    rcases hmem hf with hf | ⟨rfl, hnew⟩
    · exact hold (hs.callers u f c hf hcaller)
    · obtain rfl : s.delivered.length = c := Option.some.inj (hnew.symm.trans hcaller)
      exact List.getElem?_concat_length
  · intro u hu
    have hut : u ≠ t := by
      rintro rfl
      exact hl hu
    simp only [setStack_stack, hut, if_false]
    exact hs.logger u hu
  · intro i hi
    simp only [setStack_stack] at hi
    split at hi
    · rename_i hu
      exact hs.started i (hu ▸ hne)
    · exact hs.started i hi
  · intro f c hf hcaller hw
    rcases hmem hf with hf | ⟨-, hnew⟩
    · exact hs.outside f c hf hcaller hw
    · obtain rfl : s.delivered.length = c := Option.some.inj (hnew.symm.trans hcaller)
      have hw : (s.server.stops s.delivered.length).won = true := hw
      rw [hidle] at hw
      cases hw

/-- The thread of a session begins. -/
theorem Sane.begin (hs : Sane s) (hnil : s.stack (.worker i) = []) (hi : s.server.HasThread i) :
    Sane (s.setStack (.worker i) [⟨.base, none⟩]) := by
  refine ⟨hs.consistent, hs.made, hs.fresh, ?_, ?_, ?_, ?_, hs.won,
    ?_⟩
  · intro u
    simp only [setStack_stack]
    split
    · simp [Stacked]
    · exact hs.stacked u
  · intro u f c hf hcaller
    simp only [setStack_stack] at hf
    split at hf
    · obtain rfl := List.mem_singleton.1 hf
      cases hcaller
    · exact hs.callers u f c hf hcaller
  · intro u hu
    obtain ⟨code, fs, hstack⟩ := hs.logger u hu
    have hne : u ≠ .worker i := by
      rintro rfl
      rw [hnil] at hstack
      cases hstack
    exact ⟨code, fs, by simp [hne, hstack]⟩
  · intro j hj
    simp only [setStack_stack] at hj
    split at hj
    · rename_i hji
      cases hji
      exact hi
    · exact hs.started j hj
  · intro f c hf
    exact hs.outside f c (by simpa using hf)

/-- The server does not see the step. -/
theorem Sane.of_log (hs : Sane s) {fs' : List Frame} (hgoes : Goes (s.stack t) fs')
    (hstack : s'.stack = fun u => if u = t then fs' else s.stack u) (hdel : s'.delivered = s.delivered)
    (hserver : s'.server = s.server)
    (hlogger : ∀ u, s'.logger = some u → ∃ code fs, s'.stack u = ⟨code, some .unlock⟩ :: fs) :
    Sane s' := by
  refine hs.of_goes hgoes hstack hdel (.inl hserver) ?_ hlogger ?_ ?_ <;> rw [hserver]
  · exact hs.fresh
  · exact hs.won
  · exact hs.outside

/-- The accept thread moves by itself: nobody has interrupted it. -/
theorem Sane.start {ok : Bool} {server : Server} {fs' : List Frame} (hs : Sane s)
    (htop : s.stack .accept = ⟨.base, none⟩ :: fs)
    (h : s.server.startStep ok = some server) (hgoes : Goes (s.stack .accept) fs') :
    Sane ({ s with server := server }.setStack .accept fs') := by
  obtain ⟨hstops, -⟩ := Server.startStep_cases h
  refine hs.of_goes hgoes rfl rfl (.inr ⟨.start ok, h⟩) ?_ ?_ ?_ ?_
  · simpa only [setStack_server, hstops] using hs.fresh
  · intro u hu
    obtain ⟨hne, hold⟩ := hs.logger_kept htop (by simp) hu
    simpa [hne] using hold
  · simpa only [setStack_server, hstops] using hs.won
  · intro f c hf hcaller
    have hnil := (htop ▸ hs.stacked .accept).handlers rfl
    rw [htop, hnil] at hf
    obtain rfl := List.mem_singleton.1 hf
    cases hcaller

theorem Sane.session {server : Server} {o : ServeOutcome} {fs' : List Frame} (hs : Sane s)
    (htop : s.stack (.worker i) = ⟨.base, none⟩ :: fs) (h : s.server.step (.session i o) = some server)
    (hgoes : Goes (s.stack (.worker i)) fs') :
    Sane ({ s with server := server }.setStack (.worker i) fs') := by
  obtain ⟨x, x', -, hserver, -⟩ := Server.sessionStep_cases h
  refine hs.of_goes hgoes rfl rfl (.inr ⟨_, h⟩) ?_ ?_ ?_ ?_
  · rw [hserver]
    exact hs.fresh
  · intro u hu
    obtain ⟨hne, hold⟩ := hs.logger_kept htop (by simp) hu
    simpa [hne] using hold
  · rw [hserver]
    exact hs.won
  · rw [hserver]
    exact hs.outside

theorem Sane.load {server : Server} {signum : Signum} (hs : Sane s)
    (htop : s.stack t = ⟨.handler signum c, none⟩ :: fs)
    (h : s.server.step (.signal c) = some server) : Sane { s with server := server } := by
  have hc : c < s.delivered.length :=
    (List.getElem?_eq_some_iff.1 (hs.callers t _ c (htop ▸ List.mem_cons_self) rfl)).1
  have hstops : server.start = s.server.start ∧ ∀ c', (server.stops c').won = (s.server.stops c').won ∧
      (c' ≠ c → server.stops c' = s.server.stops c') := by
    rcases Server.callStep_cases (c := c) h (by simp) with rfl | ⟨hidle, rfl⟩
    · exact ⟨rfl, fun _ => ⟨rfl, fun _ => rfl⟩⟩
    · refine ⟨rfl, ?_⟩
      intro c'
      by_cases hcc : c' = c
      · simp [hcc, hidle, StopPc.won]
      · simp [hcc]
  have hgoes : Goes (s.stack t) (s.stack t) := ⟨_, _, htop, .inr ⟨_, rfl, htop⟩⟩
  refine hs.of_goes hgoes ?_ rfl (.inr ⟨_, h⟩) ?_ hs.logger ?_ ?_
  · funext u
    dsimp only
    split
    · rename_i hu
      rw [hu]
    · rfl
  · intro c' hc'
    rw [(hstops.2 c').2 (by omega), hs.fresh c' hc']
  · intro c' hw
    exact hs.won c' ((hstops.2 c').1 ▸ hw)
  · intro f c' hf hcaller hw
    rw [show server.start = _ from hstops.1]
    exact hs.outside f c' hf hcaller ((hstops.2 c').1 ▸ hw)

theorem Sane.stop {server : Server} {signum : Signum} {log : Option LogPc} (hs : Sane s)
    (htop : s.stack t = ⟨.handler signum c, none⟩ :: fs) (h : s.server.stopStep c = some server)
    (hl : s.server.stops c = .exchange → s.server.isRunning = true →
      t = .accept ∧ s.server.mutex ≠ some .accept) :
    Sane ({ s with server := server }.setStack t (⟨.handler signum c, log⟩ :: fs)) := by
  have hcaller := hs.callers t _ c (htop ▸ List.mem_cons_self) rfl
  obtain ⟨hstart, -, -, hother, hcase⟩ := Server.stopStep_cases h
  -- the caller has won before, or wins now
  have hwon : (server.stops c).won = true →
      (s.server.stops c).won = true ∨ t = .accept ∧ s.server.mutex ≠ some .accept := by
    intro hw
    rcases hcase with ⟨hpc, hrun, -⟩ | ⟨-, -, rfl⟩ | ⟨hw', -⟩
    · exact .inr (hl hpc hrun)
    · simp [StopPc.won] at hw
    · exact .inl hw'
  refine hs.of_goes (.on htop log) rfl rfl (.inr ⟨.stop c, h⟩) ?_ ?_ ?_ ?_
  · intro c' hc'
    have hc := (List.getElem?_eq_some_iff.1 hcaller).1
    simp only [setStack_server]
    rw [hother c' (by omega), hs.fresh c' hc']
  · intro u hu
    obtain ⟨hne, hold⟩ := hs.logger_kept htop (by simp) hu
    simpa [hne] using hold
  · intro c' hw
    simp only [setStack_server] at hw
    by_cases hc : c' = c
    · subst hc
      rcases hwon hw with hw | ⟨rfl, -⟩
      · exact hs.won c' hw
      · exact hcaller
    · exact hs.won c' (hother c' hc ▸ hw)
  · intro f c' hf hcaller' hw
    simp only [setStack_server] at hw ⊢
    rw [hstart]
    by_cases hc : c' = c
    · subst hc
      rcases hwon hw with hw | ⟨-, hfree⟩
      · exact hs.outside f c' hf hcaller' hw
      · simpa [hfree] using mt hs.consistent.locks.start.1
    · exact hs.outside f c' hf hcaller' (hother c' hc ▸ hw)

theorem moves_sane (h : Moves s l s') (hs : Sane s) (hl : Harmless s l) : Sane s' := by
  cases h with
  | signal hne => exact hs.signal hne hl
  | @log t fs htop =>
    refine hs.of_log (.on htop (some .lock)) rfl rfl rfl ?_
    intro u hu
    obtain ⟨hne, hold⟩ := hs.logger_kept htop (by simp) hu
    simpa [hne] using hold
  | @lock t _ _ code fs htop =>
    refine hs.of_log (.on htop (some .unlock)) rfl rfl rfl ?_
    intro u hu
    cases hu
    exact ⟨code, fs, by simp⟩
  | unlock htop => exact hs.of_log (.on htop none) rfl rfl rfl nofun
  | @pop t _ _ _ _ fs htop =>
    refine hs.of_log (.back htop) rfl rfl rfl ?_
    intro u hu
    obtain ⟨hne, hold⟩ := hs.logger_kept htop (by simp) hu
    simpa [hne] using hold
  | start htop h hpc hfs =>
    refine hs.start htop h ⟨_, _, htop, ?_⟩
    exact hfs.imp_right fun h => ⟨_, rfl, h⟩
  | session htop h hfs =>
    refine hs.session htop h ⟨_, _, htop, ?_⟩
    exact hfs.imp_right fun h => ⟨_, rfl, h⟩
  | @emplace _ _ fs server htop h hpc =>
    have hlast := List.getElem?_eq_getElem (Nat.sub_one_lt (Nat.ne_of_gt (hs.made (by rw [hpc]; rfl))))
    refine (hs.start htop h (.on htop (some .lock))).begin ?_ ?_
    · -- the session made last has no thread yet
      have hnone := hs.consistent.pool.fresh (by rw [hpc]; rfl) _ hlast
      refine Decidable.byContradiction ?_
      intro hne
      obtain ⟨x, hx, hthread⟩ := hs.started _ (by simpa using hne)
      exact hthread ((Option.some.inj (hlast.symm.trans hx)) ▸ hnone)
    · simp only [Server.startStep, hpc, Option.some.injEq] at h
      subst h
      exact ⟨_, by simp [Server.modifySession, hlast]; rfl, by simp⟩
  | load htop h => exact hs.load htop h
  | @stop t _ _ signum c fs server log htop h =>
    have hmay : s.MayStop t (⟨.handler signum c, none⟩ :: fs) := htop ▸ hl
    exact hs.stop htop h hmay

theorem sane_new : Sane new where
  consistent := Server.consistent_new
  made := nofun
  fresh _ _ := rfl
  stacked t := by cases t <;> simp [new, Stacked]
  callers t f c hf hc := by
    cases t with
    | accept =>
      obtain rfl := List.mem_singleton.1 hf
      cases hc
    | worker i => cases hf
  logger := nofun
  started _ h := absurd rfl h
  won _ h := by cases h
  outside f c hf hc := by
    obtain rfl := List.mem_singleton.1 hf
    cases hc

/-! ### What a thread never waits for -/

/-- No thread waits for a mutex that it holds, and none joins itself. -/
structure Free (s : SignalledServer) : Prop where
  logger : ∀ t, s.waitsLogger t = true → s.logger ≠ some t
  workers : ∀ t, s.waitsWorkers t = true → s.holdsWorkers t = false
  join : ∀ i, s.joins (.worker i) ≠ some i

/-- The accept thread asks for the lock in its own code. -/
theorem Sane.base_holds (hs : Sane s) (htop : s.stack .accept = ⟨.base, none⟩ :: fs)
    (hpc : s.server.start.locked = false) : s.holdsWorkers .accept = false := by
  unfold holdsWorkers
  split
  · rfl
  · rename_i hm
    rw [hs.consistent.locks.start.2 hm] at hpc
    cases hpc
  · have hnil := (htop ▸ hs.stacked .accept).handlers rfl
    simp [htop, hnil, Code.caller]

/-- A handler asks for it. -/
theorem Sane.handler_holds {signum : Signum} (hs : Sane s)
    (htop : s.stack t = ⟨.handler signum c, none⟩ :: fs)
    (hpc : s.server.stops c = .workersLock) : s.holdsWorkers t = false := by
  have hwon : (s.server.stops c).won = true := by rw [hpc]; rfl
  unfold holdsWorkers
  split
  · rfl
  · rename_i hm
    refine decide_eq_false ?_
    intro ht
    subst ht
    have hout := hs.outside _ c (htop ▸ List.mem_cons_self) rfl hwon
    rw [hs.consistent.locks.start.2 hm] at hout
    cases hout
  · -- another caller in its sweep would have won too
    rename_i c' hm
    have hlocked := (hs.consistent.locks.stop c').2 hm
    have hwon' : (s.server.stops c').won = true := by
      cases hpc' : s.server.stops c' <;> simp_all [StopPc.locked, StopPc.won]
    obtain rfl := hs.consistent.control.once c c' hwon hwon'
    rw [hpc] at hlocked
    cases hlocked

theorem Sane.free (hs : Sane s) : Free s := by
  refine ⟨?_, ?_, ?_⟩
  · intro t hw hown
    obtain ⟨code, fs, hstack⟩ := hs.logger t hown
    simp [waitsLogger, hstack] at hw
  · intro t hw
    unfold waitsWorkers at hw
    split at hw
    · rename_i htop
      simp only [Bool.and_eq_true, decide_eq_true_eq, Bool.or_eq_true] at hw
      obtain ⟨rfl, hpc⟩ := hw
      refine hs.base_holds htop ?_
      rcases hpc with hpc | hpc <;> rw [hpc] <;> rfl
    · rename_i htop
      exact hs.handler_holds htop (by simpa using hw)
    · cases hw
  · intro i hj
    unfold joins at hj
    split at hj
    · cases hj
    · rename_i c _ htop
      split at hj
      · rename_i k hpc
        have hwon := hs.won c (by rw [hpc]; rfl)
        rw [hs.callers _ _ c (htop ▸ List.mem_cons_self) rfl] at hwon
        cases hwon
      · cases hj
    · cases hj

/-- In a run in which no signal interrupts a log call and only the accept thread, without
`workers_mutex_`, does the shutdown, no thread ever waits for a mutex of its own or joins itself.
-/
theorem no_self_deadlock (h : exec step new ls = some s) (hg : Guarded step Harmless new ls) : Free s := by
  have hs : Sane s := by
    refine exec_invariant ?_ h hg sane_new
    intro s l s' hs hl h
    exact moves_sane (step_moves h) hs hl
  exact hs.free

def moves (t : ThreadId) (n : Nat) : List SignalLabel := .replicate n (.move t true .served)

/-- `start()` up to its first `accept`. -/
def runningServer : List SignalLabel := moves .accept 9

/-- The signal comes when the accept loop waits for a client; there is one session. -/
def signalInAccept : List SignalLabel :=
  runningServer ++ moves .accept 11 ++ [.signal .accept .SIGINT] ++ moves .accept 17 ++
    moves (.worker 0) 2 ++ [.move (.worker 0) true .gone] ++ moves (.worker 0) 2 ++ moves .accept 8

theorem signalInAccept_free :
    ∃ s, exec step new signalInAccept = some s ∧ s.server.stops 0 = .returned true ∧ Free s := by
  have hrun : (exec step new signalInAccept).map (·.server.stops 0) =
      some (.returned true) := by decide +kernel
  obtain ⟨s, hs, hstop⟩ := Option.map_eq_some_iff.1 hrun
  exact ⟨s, hs, hstop, no_self_deadlock hs (by decide +kernel)⟩

/-- The signal comes in the log call with the number of sessions. -/
def signalInLog : List SignalLabel := runningServer ++ moves .accept 8 ++ [.signal .accept .SIGINT]

/-- The signal comes when the accept loop sweeps `workers_`. -/
def signalInCleanup : List SignalLabel :=
  runningServer ++ moves .accept 4 ++ [.signal .accept .SIGTERM] ++ moves .accept 8

/-- The signal comes on a session thread. -/
def signalOnWorker : List SignalLabel :=
  runningServer ++ moves .accept 10 ++ [.signal (.worker 0) .SIGINT] ++ moves (.worker 0) 17

/-- The accept thread waits for the logger that it holds, or for `workers_mutex_` that it holds; a
session thread joins itself. -/
theorem signals_deadlock :
    (exec step new signalInLog).map (fun s => (s.waitsLogger .accept, s.logger)) =
      some (true, some .accept) ∧
      (exec step new signalInCleanup).map
      (fun s => (s.waitsWorkers .accept, s.holdsWorkers .accept)) = some (true, true) ∧
      (exec step new signalOnWorker).map (·.joins (.worker 0)) = some (some 0) := by
  refine ⟨?_, ?_, ?_⟩ <;> decide +kernel

end SignalledServer
end Streamer

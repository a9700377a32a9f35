import Streamer.Server

/-!
# What every reachable state of the server keeps

The steps of `start()` and of `stop()` are summed up once each (`startStep_cases`,
`startStep_pool_cases`, `stopStep_cases`, `stopStep_pool_cases`); the invariants are read off from
that. `Locks` ties the holder of `workers_mutex_` to where the threads stand, `Control` says who
can have stopped the server, `Pool` that no thread is lost between `sessions` and `workers_`. None
of them depends on how the calls of `stop()` fall.
-/

namespace Streamer
open Machine

/-- `start()` has not come to its loop, or has given up before. -/
def StartPc.starting : StartPc → Bool
  | .init | .publish | .handlers | .createTcp | .reuseAddress | .bind | .listen | .setRunning => true
  | .returned ok => !ok
  | _ => false

/-- The accept loop holds a connection that is not registered in `workers_`. -/
def StartPc.pending : StartPc → Bool
  | .setTimeouts | .makeSession | .cleanupLock | .cleanup _ | .cleanupJoin _ | .workersLock |
      .emplace => true
  | _ => false

/-- The accept loop has made a session and not registered it. -/
def StartPc.made : StartPc → Bool
  | .cleanupLock | .cleanup _ | .cleanupJoin _ | .workersLock | .emplace => true
  | _ => false

def StartPc.locked : StartPc → Bool
  | .cleanup _ | .cleanupJoin _ | .emplace | .workersUnlock => true
  | _ => false

theorem StartPc.pending_of_made {pc : StartPc} (h : pc.made = true) : pc.pending = true := by
  cases pc <;> simp_all [StartPc.made, StartPc.pending]

namespace StopPc

/-- The call has done the compare-exchange and does, or has done, the shutdown. -/
def won : StopPc → Bool
  | .idle | .exchange => false
  | .returned won => won
  | _ => true

def shut : StopPc → Bool
  | .idle | .exchange | .shutdown => false
  | .returned won => won
  | _ => true

/-- It has come to have the lock. -/
def swept : StopPc → Bool
  | .idle | .exchange | .shutdown | .close | .workersLock => false
  | .returned won => won
  | _ => true

def locked : StopPc → Bool
  | .session _ | .sessionShutdown _ | .sessionClose _ | .join _ | .clear | .clearInstance |
      .workersUnlock => true
  | _ => false

def emptied : StopPc → Bool
  | .clearInstance | .workersUnlock => true
  | .returned won => won
  | _ => false

def released : StopPc → Bool
  | .workersUnlock => true
  | .returned won => won
  | _ => false

variable {pc : StopPc}

theorem won_of_shut (h : pc.shut = true) : pc.won = true := by
  cases pc <;> simp_all [won, shut]

theorem shut_of_swept (h : pc.swept = true) : pc.shut = true := by
  cases pc <;> simp_all [shut, swept]

theorem swept_of_emptied (h : pc.emptied = true) : pc.swept = true := by
  cases pc <;> simp_all [emptied, swept]

end StopPc

namespace Server

variable {s s' : Server} {ok : Bool} {c i w : Nat} {o : ServeOutcome} {l : Label}

@[simp, grind =] theorem setStop_start (pc : StopPc) : (s.setStop c pc).start = s.start := rfl
@[simp, grind =] theorem setStop_isRunning (pc : StopPc) : (s.setStop c pc).isRunning = s.isRunning := rfl
@[simp, grind =] theorem setStop_mutex (pc : StopPc) : (s.setStop c pc).mutex = s.mutex := rfl
@[simp, grind =] theorem setStop_sessions (pc : StopPc) : (s.setStop c pc).sessions = s.sessions := rfl
@[simp, grind =] theorem setStop_workers (pc : StopPc) : (s.setStop c pc).workers = s.workers := rfl
@[simp, grind =] theorem setStop_stops (pc : StopPc) (c' : Nat) :
    (s.setStop c pc).stops c' = if c' = c then pc else s.stops c' := rfl

/-! ### What a step can do -/

/-- A step of `start()`: before its loop, its store to `is_running_`, in its loop. -/
theorem startStep_cases (h : s.startStep ok = some s') :
    s'.stops = s.stops ∧ s'.afterPublish = s.afterPublish ∧
    ((s.start.starting = true ∧ s'.start.starting = true ∧ s'.isRunning = s.isRunning ∧
      s.start ≠ .returned false ∧
        s'.accepted = s.accepted) ∨
      (s.start = .setRunning ∧ s' = { s with start := .loopTest, isRunning := true }) ∨
      (s.start.starting = false ∧ s'.start.starting = false ∧ s'.isRunning = s.isRunning ∧
        s'.listenState = s.listenState ∧ s'.runningInstance = s.runningInstance ∧
        (s'.start = .returned true → s.isRunning = false) ∧
        (s'.accepted = s.accepted ∧ (s'.start.pending = true → s.start.pending = true) ∨
          ok = true ∧ s.start = .accept ∧ s.listenState = .listening))) := by
  unfold startStep at h
  split at h <;> (repeat' split at h) <;> cases h <;> simp_all [StartPc.starting,
    StartPc.pending, modifySession]

theorem startStep_pool_cases (h : s.startStep ok = some s') :
    (s'.sessions = s.sessions ∧ s'.workers = s.workers ∧ s'.start.made = s.start.made) ∨
      (s.start = .makeSession ∧ s'.start = .cleanupLock ∧ s'.sessions = s.sessions ++
        [({} : SessionWorker)] ∧ s'.workers = s.workers) ∨
      (∃ i w, s.start = .cleanupJoin i ∧ s'.start = .cleanup i ∧ s.workers[i]? = some w ∧
        s.threadExited w = true ∧
        s'.sessions = s.sessions.modify w ({ · with joined := true }) ∧
          s'.workers = s.workers.eraseIdx i) ∨
      (s.start = .emplace ∧ s'.start = .workersUnlock ∧
        s'.sessions = s.sessions.modify (s.sessions.length - 1) ({ · with thread := .activate }) ∧
        s'.workers = s.workers ++ [s.sessions.length - 1]) := by
  unfold startStep at h
  split at h <;> (repeat' split at h) <;> cases h <;> simp_all [StartPc.made, modifySession]

/-- A step of `stop()`: its compare-exchange, won or lost, and the steps of the shutdown. -/
theorem stopStep_cases (h : s.stopStep c = some s') :
    s'.start = s.start ∧ s'.afterPublish = s.afterPublish ∧ s'.accepted = s.accepted ∧
    (∀ c', c' ≠ c → s'.stops c' = s.stops c') ∧
    ((s.stops c = .exchange ∧ s.isRunning = true ∧
      s' = { s with isRunning := false }.setStop c .shutdown) ∨
      (s.stops c = .exchange ∧ s.isRunning = false ∧ s' = s.setStop c (.returned false)) ∨
      ((s.stops c).won = true ∧ (s'.stops c).won = true ∧ s'.isRunning = s.isRunning ∧
        ((s'.listenState = s.listenState ∧ (s.stops c).shut = (s'.stops c).shut) ∨
          s'.listenState = .shut ∨ s'.listenState = .closed) ∧
        (s'.runningInstance = s.runningInstance ∧ (s.stops c).released = (s'.stops c).released ∨
          s'.runningInstance = false))) := by
  unfold stopStep at h
  split at h <;> (repeat' split at h) <;> cases h <;>
    simp_all [StopPc.won, StopPc.shut, StopPc.released, modifySession, setStop]

theorem stopStep_pool_cases (h : s.stopStep c = some s') :
    (s'.sessions = s.sessions ∧ s'.workers = s.workers) ∨ (s.stops c).locked = true ∧
      ((∃ w f, s'.sessions = s.sessions.modify w f ∧ s'.workers = s.workers ∧
          ∀ x, (f x).thread = x.thread ∧ (f x).joined = x.joined) ∨
        (∃ w, s'.sessions = s.sessions.modify w ({ · with joined := true }) ∧ s'.workers = s.workers ∧
          s.threadExited w = true) ∨
        (s.stops c = .clear ∧ s'.sessions = s.sessions ∧ s'.workers = [])) := by
  unfold stopStep at h
  split at h <;> (repeat' split at h) <;> cases h <;> simp_all [modifySession, setStop, StopPc.locked]
  · exact .inr (.inl ⟨_, _, rfl, fun _ => ⟨rfl, rfl⟩⟩)
  · exact .inr (.inl ⟨_, _, rfl, fun _ => ⟨rfl, rfl⟩⟩)
  · exact .inr (.inr ⟨_, rfl, ‹_›⟩)

theorem sessionStep_cases (h : s.step (.session i o) = some s') :
    ∃ x x', s.sessions[i]? = some x ∧ s' = { s with sessions := s.sessions.modify i fun _ => x' } ∧
      x'.joined = x.joined ∧ x.thread ≠ .none ∧ x.thread ≠ .exited ∧ x'.thread ≠ .none := by
  simp only [step, Option.map_eq_some_iff, Option.bind_eq_some_iff] at h
  obtain ⟨x', ⟨x, hx, hstep⟩, rfl⟩ := h
  refine ⟨x, x', hx, rfl, ?_⟩
  unfold serveStep at hstep
  split at hstep <;> (repeat' split at hstep) <;> cases hstep <;> simp_all

theorem callStep_cases (h : s.step l = some s') (hl : l = .call c ∨ l = .signal c) :
    s' = s ∨ s.stops c = .idle ∧
      s' = { s.setStop c .exchange with
        afterPublish := fun c' => if c' = c then s.published else s.afterPublish c' } := by
  rcases hl with rfl | rfl <;> simp only [step] at h <;> (repeat' split at h) <;> cases h <;> simp_all

/-! ### The lock -/

/-- The thread that holds `workers_mutex_` stands in a section it guards. -/
structure Locks (s : Server) : Prop where
  stop : ∀ c, (s.stops c).locked = true ↔ s.mutex = some (.stop c)
  start : s.start.locked = true ↔ s.mutex = some .accept

theorem startStep_mutex (h : s.startStep ok = some s') :
    (s'.mutex = s.mutex ∧ s'.start.locked = s.start.locked) ∨
      (s.mutex = none ∧ s'.mutex = some .accept ∧ s'.start.locked = true) ∨
      (s.start.locked = true ∧ s'.mutex = none ∧ s'.start.locked = false) := by
  unfold startStep at h
  split at h <;> (repeat' split at h) <;> cases h <;> simp_all [StartPc.locked, modifySession]

theorem stopStep_mutex (h : s.stopStep c = some s') :
    (s'.mutex = s.mutex ∧ (s'.stops c).locked = (s.stops c).locked) ∨
      (s.mutex = none ∧ s'.mutex = some (.stop c) ∧ (s'.stops c).locked = true) ∨
      ((s.stops c).locked = true ∧ s'.mutex = none ∧ (s'.stops c).locked = false) := by
  unfold stopStep at h
  split at h <;> (repeat' split at h) <;> cases h <;> simp_all [StopPc.locked, modifySession, setStop]

theorem startStep_locks (h : s.startStep ok = some s') (hs : Locks s) : Locks s' := by
  obtain ⟨hstop, hstart⟩ := hs
  obtain ⟨hstops, -⟩ := startStep_cases h
  rcases startStep_mutex h with ⟨hm, hl⟩ | ⟨hm, hm', hl⟩ | ⟨hm, hm', hl⟩
  · exact ⟨by simpa only [hstops, hm] using hstop, by rw [hm, hl, hstart]⟩
  · exact ⟨by simpa [hstops, hm, hm'] using hstop, by simp [hl, hm']⟩
  · rw [hstart.mp hm] at hstop
    exact ⟨by simpa [hstops, hm'] using hstop, by simp [hl, hm']⟩

theorem stopStep_locks (h : s.stopStep c = some s') (hs : Locks s) : Locks s' := by
  obtain ⟨hstop, hstart⟩ := hs
  obtain ⟨hs, -, -, hother, -⟩ := stopStep_cases h
  refine ⟨?_, ?_⟩
  · intro c'
    by_cases hc : c' = c
    · subst hc
      have := hstop c'
      rcases stopStep_mutex h with ⟨hm, hl⟩ | ⟨hm, hm', hl⟩ | ⟨hm, hm', hl⟩ <;> simp_all
    · rw [hother c' hc, hstop c']
      have hne : Holder.stop c ≠ .stop c' := by simpa using Ne.symm hc
      rcases stopStep_mutex h with ⟨hm, hl⟩ | ⟨hm, hm', hl⟩ | ⟨hm, hm', hl⟩
      · rw [hm]
      · simp [hm, hm', Ne.symm hc]
      · simp [(hstop c).mp hm, hm', hne]
  · rw [hs, hstart]
    rcases stopStep_mutex h with ⟨hm, hl⟩ | ⟨hm, hm', hl⟩ | ⟨hm, hm', hl⟩
    · rw [hm]
    · simp [hm, hm']
    · simp [(hstop c).mp hm, hm']

theorem Locks.alone (hs : Locks s) (hc : (s.stops c).locked = true) :
    s.start.locked = false ∧ ∀ c', c' ≠ c → (s.stops c').locked = false := by
  have hm := (hs.stop c).mp hc
  refine ⟨?_, ?_⟩
  · have := hs.start
    simp_all
  · intro c' hne
    have := hs.stop c'
    simp_all [Ne.symm hne]

theorem Locks.start_alone (hs : Locks s) (hl : s.start.locked = true) (c : Nat) :
    (s.stops c).locked = false := by
  have hm := hs.start.mp hl
  have := hs.stop c
  simp_all

theorem step_locks (h : s.step l = some s') (hs : Locks s) : Locks s' := by
  cases l with
  | start ok => exact startStep_locks h hs
  | stop c => exact stopStep_locks h hs
  | session i o =>
    obtain ⟨x, x', -, rfl, -⟩ := sessionStep_cases h
    exact ⟨hs.stop, hs.start⟩
  | call c | signal c =>
    rcases callStep_cases (c := c) h (by simp) with rfl | ⟨hidle, rfl⟩
    · exact hs
    · refine ⟨?_, hs.start⟩
      intro c'
      have := hs.stop c'
      by_cases hc : c' = c <;> simp_all [StopPc.locked]

/-! ### Who stopped the server -/

/-- Where the server is not running although its loop was reached, one caller of `stop()` has
stopped it. -/
structure Control (s : Server) : Prop where
  starting : s.start.starting = true → s.isRunning = false ∧ ∀ c, (s.stops c).won = false
  won : ∀ c, (s.stops c).won = true → s.isRunning = false
  once : ∀ c c', (s.stops c).won = true → (s.stops c').won = true → c = c'
  shut : ∀ c, (s.stops c).shut = true → s.listenState ≠ .listening
  stopped : s.start.starting = false → s.isRunning = false → ∃ c, (s.stops c).won = true
  ended : s.start = .returned true → s.isRunning = false
  released : ∀ c, (s.stops c).released = true → s.runningInstance = false

theorem Control.none_shut (hs : Control s) (hst : s.start.starting = true) (c : Nat) :
    (s.stops c).shut = false ∧ (s.stops c).released = false := by
  have hwon := (hs.starting hst).2 c
  cases hpc : s.stops c <;> simp_all [StopPc.won, StopPc.shut, StopPc.released]

theorem startStep_control (h : s.startStep ok = some s') (hs : Control s) : Control s' := by
  obtain ⟨hstops, -, hphase⟩ := startStep_cases h
  rcases hphase with ⟨hst, hst', hrun, -⟩ | ⟨hpc, rfl⟩ | ⟨hst, hst', hrun, hlisten, hinst, hend, -⟩
  · have hoff := hs.starting hst
    have hshut := hs.none_shut hst
    constructor <;> simp_all
  · -- the store to `is_running_`: no caller has won, so none has found it set before
    have hst : s.start.starting = true := by rw [hpc]; rfl
    have hoff := hs.starting hst
    have hshut := hs.none_shut hst
    constructor <;> simp_all [StartPc.starting]
  · refine ⟨by simp [hst'], by simpa [hstops, hrun] using hs.won, by simpa [hstops] using hs.once,
      by simpa [hstops, hlisten] using hs.shut, ?_, fun hret => by rw [hrun, hend hret],
      by simpa [hstops, hinst] using hs.released⟩
    intro _ hoff
    rw [hstops]
    exact hs.stopped hst (hrun ▸ hoff)

/-- A call that has won nothing may move as long as it wins nothing. -/
theorem Control.setStop {pc : StopPc} (hs : Control s) (hold : (s.stops c).won = false)
    (hnew : pc.won = false) : Control (s.setStop c pc) := by
  have hsame : ∀ c', (((s.setStop c pc).stops c').won = (s.stops c').won) ∧
      ((s.setStop c pc).stops c').shut = (s.stops c').shut ∧
      ((s.setStop c pc).stops c').released = (s.stops c').released := fun c' => by
    by_cases hc : c' = c
    · subst hc
      cases hpc : s.stops c' <;> cases pc <;> simp_all [StopPc.won, StopPc.shut, StopPc.released]
    · simp [hc]
  obtain ⟨hstarting, hwon, honce, hshut, hstopped, hended, hrel⟩ := hs
  constructor <;> simpa only [hsame, setStop_start, setStop_isRunning]

theorem stopStep_control (h : s.stopStep c = some s') (hs : Control s) : Control s' := by
  obtain ⟨hstart, -, -, hother, hcase⟩ := stopStep_cases h
  rcases hcase with ⟨hpc, hrun, rfl⟩ | ⟨hpc, hoff, rfl⟩ | ⟨hwon, hwon', hrun, hlisten, hinst⟩
  · -- the exchange is won: `is_running_` was set, so there was no winner before
    have hnone : ∀ c, (s.stops c).won = false := fun c => by simpa [hrun] using mt (hs.won c)
    have hst : s.start.starting = false := by simpa [hrun] using mt hs.starting
    refine ⟨by simp [hst], by simp, ?_, ?_, fun _ _ => ⟨c, by simp [StopPc.won]⟩, by simp, ?_⟩
    · intro c₁ c₂ h₁ h₂
      simp only [setStop_stops] at h₁ h₂
      split at h₁ <;> split at h₂ <;> simp_all
    · intro c' hshut
      by_cases hc : c' = c
      · simp [hc, StopPc.shut] at hshut
      · exact hs.shut c' (by simpa [hc] using hshut)
    · intro c' hrel
      by_cases hc : c' = c
      · simp [hc, StopPc.released] at hrel
      · exact hs.released c' (by simpa [hc] using hrel)
  · exact hs.setStop (by rw [hpc]; rfl) rfl
  · have hst : s.start.starting = false := by
      cases hst : s.start.starting with
      | false => rfl
      | true => simp [(hs.starting hst).2 c] at hwon
    have hsame : ∀ c', (s'.stops c').won = (s.stops c').won := fun c' => by
      by_cases hc : c' = c
      · rw [hc, hwon, hwon']
      · rw [hother c' hc]
    refine ⟨by simp [hstart, hst], by simpa only [hsame, hrun] using hs.won,
      by simpa only [hsame] using hs.once, ?_,
      by simpa only [hsame, hstart, hrun] using hs.stopped, by simpa only [hstart, hrun] using hs.ended, ?_⟩
    · intro c' hshut
      rcases hlisten with ⟨hl, hpc⟩ | hl | hl
      · rw [hl]
        by_cases hc : c' = c
        · exact hs.shut c (by rwa [hpc, ← hc])
        · exact hs.shut c' (by rwa [← hother c' hc])
      · simp [hl]
      · simp [hl]
    · intro c' hrel
      rcases hinst with ⟨hi, hpc⟩ | hi
      · rw [hi]
        by_cases hc : c' = c
        · exact hs.released c (by rwa [hpc, ← hc])
        · exact hs.released c' (by rwa [← hother c' hc])
      · exact hi

theorem step_control (h : s.step l = some s') (hs : Control s) : Control s' := by
  cases l with
  | start ok => exact startStep_control h hs
  | stop c => exact stopStep_control h hs
  | session i o =>
    obtain ⟨x, x', -, rfl, -⟩ := sessionStep_cases h
    exact ⟨hs.starting, hs.won, hs.once, hs.shut, hs.stopped, hs.ended, hs.released⟩
  | call c | signal c =>
    rcases callStep_cases (c := c) h (by simp) with rfl | ⟨hidle, rfl⟩
    · exact hs
    · obtain ⟨h₁, h₂, h₃, h₄, h₅, h₆, h₇⟩ : Control (s.setStop c .exchange) :=
        hs.setStop (by rw [hidle]; rfl) rfl
      exact ⟨h₁, h₂, h₃, h₄, h₅, h₆, h₇⟩

/-! ### The threads -/

def JoinedAt (s : Server) (w : Nat) : Prop := ∃ x, s.sessions[w]? = some x ∧ x.joined = true

/-- What a caller of `stop()` has reached under the lock. -/
def Progress (s : Server) : StopPc → Prop
  | .join k => ∀ j < k, ∀ w, s.workers[j]? = some w → s.JoinedAt w
  | .clear => ∀ w ∈ s.workers, s.JoinedAt w
  | .clearInstance | .workersUnlock => s.workers = []
  | _ => True

/-- No thread gets lost: one that was started and not joined is registered in `workers_`. -/
structure Pool (s : Server) : Prop where
  starting : s.start.starting = true → s.sessions = [] ∧ s.workers = []
  registered : ∀ (i : Nat) (x : SessionWorker), s.sessions[i]? = some x → x.thread ≠ .none →
    x.joined = false → i ∈ s.workers
  exited : ∀ (i : Nat) (x : SessionWorker), s.sessions[i]? = some x → x.joined = true → x.thread = .exited
  unstarted : ∀ (i : Nat) (x : SessionWorker), s.sessions[i]? = some x → x.thread = .none →
    s.start.made = true ∧ i + 1 = s.sessions.length
  fresh : s.start.made = true → ∀ x, s.sessions[s.sessions.length - 1]? = some x → x.thread = .none
  progress : ∀ c, s.Progress (s.stops c)

theorem threadExited_iff : s.threadExited w = true ↔ ∃ x, s.sessions[w]? = some x ∧
    x.thread = .exited := by
  simp [threadExited]

theorem progress_of_unlocked {pc : StopPc} (h : pc.locked = false) : s.Progress pc := by
  cases pc <;> simp_all [Progress, StopPc.locked]

theorem Progress.mono {pc : StopPc} (hp : s.Progress pc) (hw : s'.workers = s.workers)
    (hj : ∀ w, s.JoinedAt w → s'.JoinedAt w) : s'.Progress pc := by
  cases pc with
  | join k => exact fun j hjk w hw' => hj w (hp j hjk w (hw ▸ hw'))
  | clear => exact fun w hw' => hj w (hp w (hw ▸ hw'))
  | clearInstance | workersUnlock => exact hw.trans hp
  | _ => trivial

theorem joinedAt_modify {f : SessionWorker → SessionWorker} (hs' : s'.sessions = s.sessions.modify i f)
    (hf : ∀ x, s.sessions[i]? = some x → x.joined = true → (f x).joined = true) (hj : s.JoinedAt w) :
    s'.JoinedAt w := by
  obtain ⟨x, hx, hjoined⟩ := hj
  by_cases hi : i = w
  · exact ⟨f x, by simp [hs', hi, hx], hf x (hi ▸ hx) hjoined⟩
  · exact ⟨x, by simp [hs', hi, hx], hjoined⟩

theorem startStep_joinedAt (h : s.startStep ok = some s') (hj : s.JoinedAt w) : s'.JoinedAt w := by
  rcases startStep_pool_cases h with ⟨hs, -⟩ | ⟨-, -, hs, -⟩ | ⟨_, _, -, -, -, -, hs, -⟩ | ⟨-, -, hs, -⟩
  · simpa only [JoinedAt, hs] using hj
  · obtain ⟨x, hx, hjoined⟩ := hj
    exact ⟨x, by rw [hs, List.getElem?_append_left (List.getElem?_eq_some_iff.mp hx).1, hx], hjoined⟩
  · exact joinedAt_modify hs (fun _ _ _ => rfl) hj
  · exact joinedAt_modify hs (fun _ _ h => h) hj

theorem stopStep_joinedAt (h : s.stopStep c = some s') (hj : s.JoinedAt w) : s'.JoinedAt w := by
  rcases stopStep_pool_cases h with ⟨hs, -⟩ | ⟨-, ⟨_, f, hs, -, hf⟩ | ⟨_, hs, -⟩ | ⟨-, hs, -⟩⟩
  · simpa only [JoinedAt, hs] using hj
  · exact joinedAt_modify hs (fun x _ h => by rw [(hf x).2, h]) hj
  · exact joinedAt_modify hs (fun _ _ _ => rfl) hj
  · simpa only [JoinedAt, hs] using hj

/-- A caller's own step takes its sweep one place further. -/
theorem stopStep_progress (h : s.stopStep c = some s') (hp : s.Progress (s.stops c)) :
    s'.Progress (s'.stops c) := by
  have hmono : ∀ w, s.JoinedAt w → s'.JoinedAt w := fun w => stopStep_joinedAt h
  cases hpc : s.stops c with
  | join k =>
    rw [hpc] at hp
    simp only [stopStep, hpc] at h
    split at h
    · rename_i hend
      cases h
      simp only [setStop_stops, if_true]
      intro w hw
      obtain ⟨j, hj⟩ := List.getElem?_of_mem hw
      have hjk : j < k := by
        have := (List.getElem?_eq_some_iff.mp hj).1
        have := List.getElem?_eq_none_iff.mp hend
        simp only [setStop_workers] at *
        omega
      exact hmono w (hp j hjk w hj)
    · split at h
      · rename_i w hw hex
        cases h
        simp only [setStop_stops, if_true]
        intro j hj w' hw'
        rcases Nat.lt_succ_iff_lt_or_eq.mp hj with hlt | rfl
        · exact hmono w' (hp j hlt w' hw')
        · obtain ⟨x, hx, -⟩ := threadExited_iff.mp hex
          obtain rfl : w = w' := Option.some.inj (hw.symm.trans hw')
          exact ⟨{ x with joined := true }, by simp [modifySession, hx], rfl⟩
      · cases h
  | clearInstance =>
    rw [hpc] at hp
    simp only [stopStep, hpc] at h
    cases h
    simpa [Progress] using hp
  | _ =>
    simp only [stopStep, hpc] at h
    (repeat' split at h) <;> cases h <;> simp [Progress]

theorem sessions_modify {f : SessionWorker → SessionWorker} {x' : SessionWorker}
    (h : (s.sessions.modify w f)[i]? = some x') :
    ∃ x, s.sessions[i]? = some x ∧ (i = w ∧ x' = f x ∨ i ≠ w ∧ x' = x) := by
  simp only [List.getElem?_modify, Option.map_eq_map, Option.map_eq_some_iff] at h
  obtain ⟨x, hx, rfl⟩ := h
  refine ⟨x, hx, ?_⟩
  by_cases hi : w = i
  · exact .inl ⟨hi.symm, by simp [hi]⟩
  · exact .inr ⟨Ne.symm hi, by simp [hi]⟩

/-- What a step may do to the sessions there are, without making or starting one. -/
theorem Pool.of_sessions (hs : Pool s) (hmade : s'.start.made = s.start.made)
    (hst : s'.start.starting = true → s.start.starting = true) (hprogress : ∀ c, s'.Progress (s'.stops c))
    (hsub : s'.workers ⊆ s.workers) (hlen : s'.sessions.length = s.sessions.length)
    (hse : ∀ (i : Nat) (x' : SessionWorker), s'.sessions[i]? = some x' → ∃ x, s.sessions[i]? = some x ∧
      (x'.thread = .none ↔ x.thread = .none) ∧ (x'.joined = true → x'.thread = .exited) ∧
      (x'.joined = false → x.joined = false ∧ (i ∈ s.workers → i ∈ s'.workers))) : Pool s' := by
  refine ⟨?_, ?_, ?_, ?_,
    ?_, hprogress⟩
  · intro h
    obtain ⟨hempty, hworkers⟩ := hs.starting (hst h)
    exact ⟨List.length_eq_zero_iff.mp (by rw [hlen, hempty]; rfl), List.subset_nil.mp (hworkers ▸ hsub)⟩
  · intro i x' hx' hthread hjoined
    obtain ⟨x, hx, hnone, -, hreg⟩ := hse i x' hx'
    obtain ⟨hj, hmem⟩ := hreg hjoined
    exact hmem (hs.registered i x hx (mt hnone.mpr hthread) hj)
  · intro i x' hx' hjoined
    obtain ⟨x, hx, -, hex, -⟩ := hse i x' hx'
    exact hex hjoined
  · intro i x' hx' hthread
    obtain ⟨x, hx, hnone, -⟩ := hse i x' hx'
    rw [hmade, hlen]
    exact hs.unstarted i x hx (hnone.mp hthread)
  · intro hm x' hx'
    obtain ⟨x, hx, hnone, -⟩ := hse _ x' hx'
    rw [hlen] at hx
    exact hnone.mpr (hs.fresh (hmade ▸ hm) x hx)

theorem startStep_pool (h : s.startStep ok = some s') (hl : Locks s) (hs : Pool s) : Pool s' := by
  have hmono : ∀ w, s.JoinedAt w → s'.JoinedAt w := fun w => startStep_joinedAt h
  obtain ⟨hstops, -, hphase⟩ := startStep_cases h
  rcases startStep_pool_cases h with
    ⟨hse, hw, hmade⟩ | ⟨hpc, hpc', hse, hw⟩ | ⟨k, w, hpc, hpc', hk, hex, hse, hw⟩ | ⟨hpc, hpc', hse, hw⟩
  · have hst : s'.start.starting = true → s.start.starting = true := by
      rcases hphase with ⟨hst, -⟩ | ⟨-, rfl⟩ | ⟨-, hst', -⟩
      · exact fun _ => hst
      · simp [StartPc.starting]
      · simp [hst']
    refine hs.of_sessions hmade hst (fun c => hstops ▸ (hs.progress c).mono hw hmono)
      (by simp [hw]) (by rw [hse])
      ?_
    intro i x hx
    rw [hse] at hx
    exact ⟨x, hx, .rfl, hs.exited i x hx, fun hj => ⟨hj, by simp [hw]⟩⟩
  · obtain ⟨hstarting, hreg, hexit, hunst, hfresh, hprog⟩ := hs
    refine ⟨by simp [hpc', StartPc.starting], ?_, ?_, ?_, ?_, fun c => hstops ▸ (hprog c).mono hw hmono⟩
    all_goals grind [StartPc.made]
  · refine hs.of_sessions (by rw [hpc, hpc']; rfl) (by simp [hpc', StartPc.starting])
      (fun c => progress_of_unlocked (hstops ▸ hl.start_alone (by rw [hpc]; rfl) c))
      (hw ▸ List.eraseIdx_subset) (by simp [hse]) ?_
    intro i x' hx'
    rw [hse] at hx'
    obtain ⟨x, hx, ⟨rfl, rfl⟩ | ⟨hi, rfl⟩⟩ := sessions_modify hx'
    · obtain ⟨y, hy, hyex⟩ := threadExited_iff.mp hex
      obtain rfl : x = y := Option.some.inj (hx.symm.trans hy)
      exact ⟨x, hx, .rfl, fun _ => hyex, by simp⟩
    · -- a worker other than the joined one stays in `workers_`
      refine ⟨x', hx, .rfl, hs.exited i x' hx, fun hj => ⟨hj, ?_⟩⟩
      intro hmem
      obtain ⟨j, hj⟩ := List.getElem?_of_mem hmem
      rw [hw, List.mem_eraseIdx_iff_getElem?]
      exact ⟨j, fun hjk => hi (by simpa [hjk, hk] using hj.symm), hj⟩
  · have hmade : s.start.made = true := by rw [hpc]; rfl
    refine ⟨by simp [hpc', StartPc.starting], ?_, ?_, ?_, by simp [hpc', StartPc.made],
      fun c => progress_of_unlocked (hstops ▸ hl.start_alone (by rw [hpc]; rfl) c)⟩ <;> rw [hse]
    · intro i x' hx' hthread hjoined
      rw [hw, List.mem_append, List.mem_singleton]
      obtain ⟨x, hx, ⟨rfl, rfl⟩ | ⟨hi, rfl⟩⟩ := sessions_modify hx'
      · exact .inr rfl
      · exact .inl (hs.registered i x' hx hthread hjoined)
    · intro i x' hx' hjoined
      obtain ⟨x, hx, ⟨rfl, rfl⟩ | ⟨hi, rfl⟩⟩ := sessions_modify hx'
      · -- the session just made is not joined
        have hex := hs.exited _ x hx hjoined
        rw [hs.fresh hmade x hx] at hex
        cases hex
      · exact hs.exited i x' hx hjoined
    · intro i x' hx' hthread
      obtain ⟨x, hx, ⟨rfl, rfl⟩ | ⟨hi, rfl⟩⟩ := sessions_modify hx'
      · cases hthread
      · have hlast := (hs.unstarted i x' hx hthread).2
        omega

theorem stopStep_pool (h : s.stopStep c = some s') (hl : Locks s) (hs : Pool s) : Pool s' := by
  have hmono : ∀ w, s.JoinedAt w → s'.JoinedAt w := fun w => stopStep_joinedAt h
  obtain ⟨hstart, -, -, hother, -⟩ := stopStep_cases h
  have hprogress : ∀ c', s'.Progress (s'.stops c') := fun c' => by
    by_cases hc : c' = c
    · exact hc ▸ stopStep_progress h (hs.progress c)
    · rw [hother c' hc]
      rcases stopStep_pool_cases h with ⟨-, hw⟩ | ⟨hlocked, -⟩
      · exact (hs.progress c').mono hw hmono
      · exact progress_of_unlocked ((hl.alone hlocked).2 c' hc)
  rcases stopStep_pool_cases h with ⟨hse, hw⟩ |
    ⟨hlocked, ⟨w, f, hse, hw, hf⟩ | ⟨w, hse, hw, hex⟩ | ⟨hpc, hse, hw⟩⟩
  · refine hs.of_sessions (by rw [hstart]) (by simp [hstart]) hprogress (by simp [hw]) (by rw [hse]) ?_
    intro i x hx
    rw [hse] at hx
    exact ⟨x, hx, .rfl, hs.exited i x hx, fun hj => ⟨hj, by simp [hw]⟩⟩
  · refine hs.of_sessions (by rw [hstart]) (by simp [hstart]) hprogress (by simp [hw]) (by simp [hse]) ?_
    intro i x' hx'
    rw [hse] at hx'
    obtain ⟨x, hx, ⟨rfl, rfl⟩ | ⟨hi, rfl⟩⟩ := sessions_modify hx'
    · rw [(hf x).1, (hf x).2, hw]
      exact ⟨x, hx, .rfl, hs.exited i x hx, fun hj => ⟨hj, id⟩⟩
    · exact ⟨x', hx, .rfl, hs.exited i x' hx, fun hj => ⟨hj, by simp [hw]⟩⟩
  · refine hs.of_sessions (by rw [hstart]) (by simp [hstart]) hprogress (by simp [hw]) (by simp [hse]) ?_
    intro i x' hx'
    rw [hse] at hx'
    obtain ⟨x, hx, ⟨rfl, rfl⟩ | ⟨hi, rfl⟩⟩ := sessions_modify hx'
    · obtain ⟨y, hy, hyex⟩ := threadExited_iff.mp hex
      obtain rfl : x = y := Option.some.inj (hx.symm.trans hy)
      exact ⟨x, hx, .rfl, fun _ => hyex, by simp⟩
    · exact ⟨x', hx, .rfl, hs.exited i x' hx, fun hj => ⟨hj, by simp [hw]⟩⟩
  · -- `workers_` is emptied when every thread in it is joined
    refine hs.of_sessions (by rw [hstart]) (by simp [hstart]) hprogress (by simp [hw]) (by rw [hse]) ?_
    intro i x hx
    rw [hse] at hx
    refine ⟨x, hx, .rfl, hs.exited i x hx, fun hj => ⟨hj, ?_⟩⟩
    intro hmem
    have hjoined : ∀ w ∈ s.workers, s.JoinedAt w := by simpa [hpc, Progress] using hs.progress c
    obtain ⟨y, hy, hyj⟩ := hjoined i hmem
    obtain rfl : x = y := Option.some.inj (hx.symm.trans hy)
    simp [hj] at hyj

theorem step_pool (h : s.step l = some s') (hl : Locks s) (hs : Pool s) : Pool s' := by
  cases l with
  | start ok => exact startStep_pool h hl hs
  | stop c => exact stopStep_pool h hl hs
  | session i o =>
    obtain ⟨x, x', hx, rfl, hjoined, hnone, hex, hnone'⟩ := sessionStep_cases h
    have hmono : ∀ w, s.JoinedAt w → JoinedAt { s with sessions := s.sessions.modify i fun _ => x' } w :=
      fun w => joinedAt_modify rfl fun y hy hj => by
        rw [hjoined, Option.some.inj (hx.symm.trans hy), hj]
    refine hs.of_sessions rfl id (fun c => (hs.progress c).mono rfl hmono) (fun _ => id)
      (List.length_modify ..)
      ?_
    intro j y' hy'
    obtain ⟨y, hy, ⟨rfl, rfl⟩ | ⟨-, rfl⟩⟩ := sessions_modify hy'
    · obtain rfl : x = y := Option.some.inj (hx.symm.trans hy)
      -- a joined thread has ended, so it is not the one that moves
      have hnot : x.joined = false := by simpa [hex] using mt (hs.exited j x hx)
      exact ⟨x, hx, by simp [hnone, hnone'], by simp [hjoined, hnot], fun _ => ⟨hnot, id⟩⟩
    · exact ⟨y', hy, .rfl, hs.exited j y' hy, fun hj => ⟨hj, id⟩⟩
  | call c | signal c =>
    rcases callStep_cases (c := c) h (by simp) with rfl | ⟨hidle, rfl⟩
    · exact hs
    · refine ⟨hs.starting, hs.registered, hs.exited, hs.unstarted, hs.fresh, ?_⟩
      intro c'
      have hp := hs.progress c'
      by_cases hc : c' = c
      · simp [hc, Progress]
      · simp [hc]
        exact hp

/-- A session that is made and not registered is there. -/
def Made (s : Server) : Prop := s.start.made = true → 0 < s.sessions.length

theorem step_made (h : s.step l = some s') (hs : Made s) : Made s' := by
  unfold Made at *
  cases l with
  | start ok =>
    rcases startStep_pool_cases h with ⟨hse, -, hmade⟩ | ⟨-, -, hse, -⟩ |
      ⟨k, w, hpc, -, -, -, hse, -⟩ | ⟨-, hpc', -⟩
    · rwa [hse, hmade]
    · simp [hse]
    · intro
      rw [hse, List.length_modify]
      exact hs (by rw [hpc]; rfl)
    · simp [hpc', StartPc.made]
  | stop c =>
    rw [(stopStep_cases h).1]
    rcases stopStep_pool_cases h with ⟨hse, -⟩ |
      ⟨-, ⟨_, f, hse, -⟩ | ⟨_, hse, -⟩ | ⟨-, hse, -⟩⟩ <;> simpa [hse] using hs
  | session i o =>
    obtain ⟨x, x', -, rfl, -⟩ := sessionStep_cases h
    simpa using hs
  | call c | signal c =>
    rcases callStep_cases (c := c) h (by simp) with rfl | ⟨-, rfl⟩
    · exact hs
    · exact hs

/-! ### Every reachable state -/

structure Consistent (s : Server) : Prop where
  locks : Locks s
  control : Control s
  pool : Pool s

theorem consistent_new : Consistent new where
  locks := ⟨by simp [new, StopPc.locked], by simp [new, StartPc.locked]⟩
  control := by constructor <;> simp [new, StopPc.won, StopPc.shut, StopPc.released, StartPc.starting]
  pool := by constructor <;> simp [new, StartPc.made, Progress]

theorem step_consistent (h : s.step l = some s') (hs : Consistent s) : Consistent s' :=
  ⟨step_locks h hs.locks, step_control h hs.control, step_pool h hs.locks hs.pool⟩

/-! ### A server inside another machine -/

theorem stutters_consistent (h : Stutters step s s') (hs : Consistent s) : Consistent s' :=
  h.keeps (fun _ _ _ hs h => step_consistent h hs) hs

theorem stutters_made (h : Stutters step s s') (hs : Made s) : Made s' :=
  h.keeps (fun _ _ _ hs h => step_made h hs) hs

end Server
end Streamer

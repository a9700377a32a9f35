import Streamer.Proofs.ServerInvariants

/-!
# Shutting the server down

What a returned `stop()` means. Three things can go wrong, and each is excluded by a condition on the
steps of a run: `stop()` sweeps `workers_` while the accept loop holds a connection it has not yet
registered (`SweepsAll`), a call that loses the compare-exchange returns while the winner is still at
work (`AfterShutdown`), and a call that comes before `is_running_` is stored finds nothing to stop
(`Effective`).
-/

namespace Streamer

open Machine

/-- Between its compare-exchange and its return. -/
def StopPc.inside : StopPc → Bool
  | .idle | .exchange | .returned _ => false
  | _ => true

theorem StopPc.won_of_inside {pc : StopPc} (h : pc.inside = true) : pc.won = true := by
  cases pc <;> simp_all [StopPc.won, StopPc.inside]

theorem StopPc.returned_of_won {pc : StopPc} (hwon : pc.won = true) (hout : pc.inside = false) :
    pc = .returned true := by
  cases pc <;> simp_all [StopPc.won, StopPc.inside]

theorem StopPc.shut_of_won {pc : StopPc} (hwon : pc.won = true) (hpc : pc ≠ .shutdown) :
    pc.shut = true := by
  cases pc <;> simp_all [StopPc.won, StopPc.shut]

namespace Server

variable {s s' : Server} {ok won : Bool} {c n : Nat} {l : Label} {ls ls' : List Label}

def AllJoined (s : Server) : Prop :=
  s.workers = [] ∧ ∀ x ∈ s.sessions, x.joined = true ∧ x.thread = .exited

theorem Pool.allJoined (hs : Pool s) (hw : s.workers = []) (hp : s.start.pending = false) :
    AllJoined s := by
  refine ⟨hw, ?_⟩
  intro x hx
  obtain ⟨i, hi⟩ := List.getElem?_of_mem hx
  have hthread : x.thread ≠ .none := fun hnone => by
    simp [StartPc.pending_of_made (hs.unstarted i x hi hnone).1] at hp
  have hjoined : x.joined = true := by
    simpa [hw] using mt (hs.registered i x hi hthread)
  exact ⟨hjoined, hs.exited i x hi hjoined⟩

/-! ### The sweep of `workers_` -/

/-- When `stop()` takes the lock, the accept loop holds no connection that is not in `workers_`. -/
def SweepsAll (s : Server) : Label → Prop
  | .stop c => s.stops c = .workersLock → s.start.pending = false
  | _ => True

instance : Decidable (SweepsAll s l) :=
  match l with
  | .stop c => inferInstanceAs (Decidable (s.stops c = .workersLock → s.start.pending = false))
  | .start _ | .session _ _ | .call _ | .signal _ => .isTrue trivial

/-- Nothing is registered behind the back of a caller that has had the lock. -/
structure Settled (s : Server) : Prop where
  swept : ∀ c, (s.stops c).swept = true → s.start.pending = false
  emptied : ∀ c, (s.stops c).emptied = true → s.workers = []

theorem settled_new : Settled new := by
  constructor <;> simp [new, StopPc.swept, StopPc.emptied]

theorem startStep_settled (h : s.startStep ok = some s') (hc : Consistent s) (hs : Settled s) :
    Settled s' := by
  obtain ⟨hstops, -, hphase⟩ := startStep_cases h
  have hpending : ∀ c, (s.stops c).swept = true → s'.start.pending = false := fun c hswept => by
    have hshut := StopPc.shut_of_swept hswept
    rcases hphase with ⟨hst, -⟩ | ⟨-, rfl⟩ | ⟨-, -, -, -, -, -, ⟨-, hp⟩ | ⟨-, -, hl⟩⟩
    · simp [(hc.control.none_shut hst c).1] at hshut
    · rfl
    · simpa [hs.swept c hswept] using mt hp
    · exact absurd hl (hc.control.shut c hshut)
  refine ⟨by rwa [hstops], ?_⟩
  intro c hem
  rw [hstops] at hem
  have hidle := hs.swept c (StopPc.swept_of_emptied hem)
  have hw := hs.emptied c hem
  rcases startStep_pool_cases h with ⟨-, hw', -⟩ | ⟨-, -, -, hw'⟩ | ⟨k, w, -, -, -, -, -, hw'⟩ | ⟨hpc, -⟩
  · rw [hw', hw]
  · rw [hw', hw]
  · rw [hw', hw, List.eraseIdx_nil]
  · simp [hpc, StartPc.pending] at hidle

theorem stopStep_swept (h : s.stopStep c = some s') (hswept : (s'.stops c).swept = true) :
    (s.stops c).swept = true ∨ s.stops c = .workersLock := by
  unfold stopStep at h
  split at h <;> (repeat' split at h) <;> cases h <;> simp_all [StopPc.swept]

theorem stopStep_emptied (h : s.stopStep c = some s') (hem : (s'.stops c).emptied = true) :
    (s.stops c).emptied = true ∨ s'.workers = [] := by
  unfold stopStep at h
  split at h <;> (repeat' split at h) <;> cases h <;> simp_all [StopPc.emptied]

theorem stopStep_settled (h : s.stopStep c = some s') (hg : SweepsAll s (.stop c)) (hs : Settled s) :
    Settled s' := by
  obtain ⟨hstart, -, -, hother, -⟩ := stopStep_cases h
  have hw : s.workers = [] → s'.workers = [] := by
    rcases stopStep_pool_cases h with ⟨-, hw⟩ |
      ⟨-, ⟨_, _, -, hw, -⟩ | ⟨_, -, hw, -⟩ | ⟨-, -, hw⟩⟩ <;> simp [hw]
  refine ⟨?_, ?_⟩
  · intro c' hswept
    rw [hstart]
    by_cases hc : c' = c
    · rcases stopStep_swept h (hc ▸ hswept) with hold | hpc
      · exact hs.swept c hold
      · exact hg hpc
    · exact hs.swept c' (by rwa [← hother c' hc])
  · intro c' hem
    by_cases hc : c' = c
    · rcases stopStep_emptied h (hc ▸ hem) with hold | hnew
      · exact hw (hs.emptied c hold)
      · exact hnew
    · exact hw (hs.emptied c' (by rwa [← hother c' hc]))

theorem step_settled (h : s.step l = some s') (hc : Consistent s) (hg : SweepsAll s l) (hs : Settled s) :
    Settled s' := by
  cases l with
  | start ok => exact startStep_settled h hc hs
  | stop c => exact stopStep_settled h hg hs
  | session i o =>
    obtain ⟨x, x', -, rfl, -⟩ := sessionStep_cases h
    exact ⟨hs.swept, hs.emptied⟩
  | call c | signal c =>
    rcases callStep_cases (c := c) h (by simp) with rfl | ⟨hidle, rfl⟩
    · exact hs
    · refine ⟨fun c' hswept => hs.swept c' ?_, fun c' hem => hs.emptied c' ?_⟩
      all_goals by_cases hc : c' = c <;> simp_all [StopPc.swept, StopPc.emptied]

/-! ### Any number of callers -/

/-- The calls of `stop()` are those numbered below `n`. -/
def within (n : Nat) : Label → Bool
  | .call c | .signal c | .stop c => c < n
  | .start _ | .session _ _ => true

theorem step_idle (h : s.step l = some s') (hl : within n l = true)
    (hs : ∀ c, n ≤ c → s.stops c = .idle) : ∀ c, n ≤ c → s'.stops c = .idle := by
  intro c hc
  cases l with
  | start ok => rw [(startStep_cases h).1, hs c hc]
  | session i o =>
    obtain ⟨x, x', -, rfl, -⟩ := sessionStep_cases h
    exact hs c hc
  | stop c' =>
    obtain ⟨-, -, -, hother, -⟩ := stopStep_cases h
    have hlt : c' < n := by simpa [within] using hl
    rw [hother c (by omega), hs c hc]
  | call c' | signal c' =>
    have hlt : c' < n := by simpa [within] using hl
    rcases callStep_cases (c := c') h (by simp) with rfl | ⟨-, rfl⟩
    · exact hs c hc
    · simp [hs c hc, show c ≠ c' by omega]

/-! ### One call of `stop()` -/

/-- With one call of `stop()`, which sweeps `workers_` when the accept loop holds no connection
outside it: when `stop()` and `start()` have returned, every thread is joined and no session is
left. -/
theorem stop_leaves_no_worker (h : exec step new ls = some s) (hone : ∀ l ∈ ls, within 1 l = true)
    (hg : Guarded step SweepsAll new ls) (hstop : s.stops 0 = .returned won)
    (hstart : s.start = .returned ok) : AllJoined s := by
  obtain ⟨hc, hs, hidle⟩ : Consistent s ∧ Settled s ∧ ∀ c, 1 ≤ c → s.stops c = .idle := by
    refine exec_invariant (I := fun s => Consistent s ∧ Settled s ∧ ∀ c, 1 ≤ c → s.stops c = .idle)
      ?_ h (guarded_and (guarded_of_forall hone) hg)
      ⟨consistent_new, settled_new, fun _ _ => rfl⟩
    intro s l s' hi hg h
    exact ⟨step_consistent h hi.1, step_settled h hi.1 hg.2 hi.2.1, step_idle h hg.1 hi.2.2⟩
  have hp : s.start.pending = false := by rw [hstart]; rfl
  cases won with
  | true => exact hc.pool.allJoined (hs.emptied 0 (by rw [hstop]; rfl)) hp
  | false =>
    cases ok with
    | false =>
      exact hc.pool.allJoined (hc.pool.starting (by rw [hstart]; rfl)).2 hp
    | true =>
      -- the loop ends only when a caller has won, and there is none but caller `0`
      obtain ⟨c, hwon⟩ := hc.control.stopped (by rw [hstart]; rfl) (hc.control.ended hstart)
      by_cases hc0 : c = 0
      · simp [hc0, hstop, StopPc.won] at hwon
      · simp [hidle c (by omega), StopPc.won] at hwon

def after (ls : List Label) : Server := (exec step new ls).getD new

theorem exec_after (ls : List Label) (h : (exec step new ls).isSome = true) :
    exec step new ls = some (after ls) := by
  obtain ⟨s, hs⟩ := Option.isSome_iff_exists.mp h
  rw [after, hs]
  rfl

def startUp : List Label := List.replicate 8 (.start true)

/-- A turn of the accept loop that accepts a client and registers it. -/
def acceptClient : List Label := List.replicate 9 (.start true)

def threadEnds (i : Nat) : List Label := List.replicate 5 (.session i .gone)

/-- One client is served, then the server is stopped while the accept loop waits for the next. -/
def stopIdle : List Label :=
  startUp ++ acceptClient ++ [.start true, .call 0] ++ List.replicate 8 (.stop 0) ++ threadEnds 0 ++
    List.replicate 5 (.stop 0) ++ [.start false, .start true]

theorem stopIdle_leaves_no_worker :
    exec step new stopIdle = some (after stopIdle) ∧ (after stopIdle).accepted = 1 ∧
      AllJoined (after stopIdle) := by
  have h : exec step new stopIdle = some (after stopIdle) := exec_after _ (by decide +kernel)
  exact ⟨h, by decide +kernel, stop_leaves_no_worker (s := after stopIdle) h (by decide +kernel)
    (by decide +kernel) (show (after stopIdle).stops 0 = .returned true by decide +kernel)
    (show (after stopIdle).start = .returned true by decide +kernel)⟩

/-- A client is accepted, the server is stopped, and then the client is registered. -/
def stopWhilePending : List Label :=
  startUp ++ List.replicate 4 (.start true) ++ .call 0 :: List.replicate 9 (.stop 0) ++
    List.replicate 6 (.start true)

theorem stopWhilePending_leaves_worker :
    ¬ ∀ ls s won ok, exec step new ls = some s → (∀ l ∈ ls, within 1 l = true) →
      s.stops 0 = .returned won →
      s.start = .returned ok → AllJoined s := by
  intro hall
  have hjoined :=
    hall stopWhilePending (after stopWhilePending) true true (exec_after _ (by decide +kernel))
    (by decide +kernel) (by decide +kernel) (by decide +kernel)
  exact absurd hjoined.1 (by decide +kernel)

/-! ### Concurrent calls of `stop()` -/

def NoAccept (s : Server) : Label → Prop
  | .start ok => s.start = .accept → ok = false
  | _ => True

/-- A call of `stop()` does its compare-exchange while no other call is in the shutdown. -/
def AfterShutdown (n : Nat) (s : Server) : Label → Prop
  | .stop c => s.stops c = .exchange → ∀ c' < n, (s.stops c').inside = false
  | _ => True

instance : Decidable (NoAccept s l) :=
  match l with
  | .start ok => inferInstanceAs (Decidable (s.start = .accept → ok = false))
  | .session _ _ | .call _ | .signal _ | .stop _ => .isTrue trivial

instance : Decidable (AfterShutdown n s l) :=
  match l with
  | .stop c => inferInstanceAs (Decidable (s.stops c = .exchange → ∀ c' < n, (s.stops c').inside = false))
  | .start _ | .session _ _ | .call _ | .signal _ => .isTrue trivial

/-- A running server between two connections that no one has asked to stop. -/
structure Serving (s : Server) : Prop where
  reached : ∃ ls, exec step new ls = some s
  running : s.isRunning = true
  between : s.start.pending = false
  uncalled : ∀ c, s.stops c = .idle

/-- A call that lost the compare-exchange came after the shutdown. -/
structure Stopping (n : Nat) (s : Server) : Prop where
  consistent : Consistent s
  settled : Settled s
  looping : s.start.starting = false
  between : s.start.pending = false
  idle : ∀ c, n ≤ c → s.stops c = .idle
  lost : ∀ c, s.stops c = .returned false → ∃ c', s.stops c' = .returned true

theorem exec_consistent (h : exec step s ls = some s') (hs : Consistent s) : Consistent s' :=
  exec_invariant (G := fun _ _ => True) (fun _ _ _ hi _ h => step_consistent h hi) h
    (guarded_of_forall (P := fun _ => True) fun _ _ => trivial) hs

theorem Serving.stopping (hs : Serving s) : Stopping n s := by
  obtain ⟨ls, hls⟩ := hs.reached
  have hc := exec_consistent hls consistent_new
  refine ⟨hc, ⟨?_, ?_⟩, ?_, hs.between, fun c _ => hs.uncalled c, ?_⟩
  · simp [hs.uncalled, StopPc.swept]
  · simp [hs.uncalled, StopPc.emptied]
  · simpa [hs.running] using mt hc.control.starting
  · simp [hs.uncalled]

theorem step_between (h : s.step l = some s') (hq : NoAccept s l) (hlooping : s.start.starting = false)
    (hbetween : s.start.pending = false) : s'.start.starting = false ∧ s'.start.pending = false := by
  cases l with
  | start ok =>
    obtain ⟨-, -, ⟨hst, -⟩ | ⟨hpc, -⟩ | ⟨-, hst', -, -, -, -, ⟨-, hp⟩ | ⟨hok, hpc, -⟩⟩⟩ :=
      startStep_cases h
    · simp [hlooping] at hst
    · simp [hpc, StartPc.starting] at hlooping
    · exact ⟨hst', by simpa [hbetween] using mt hp⟩
    · simp [hq hpc] at hok
  | stop c =>
    rw [(stopStep_cases h).1]
    exact ⟨hlooping, hbetween⟩
  | session i o =>
    obtain ⟨x, x', -, rfl, -⟩ := sessionStep_cases h
    exact ⟨hlooping, hbetween⟩
  | call c | signal c => rcases callStep_cases (c := c) h (by simp) with rfl |
      ⟨-, rfl⟩ <;> exact ⟨hlooping, hbetween⟩

theorem step_returned (h : s.step l = some s') (hret : s.stops c = .returned won) :
    s'.stops c = .returned won := by
  cases l with
  | start ok => rw [(startStep_cases h).1, hret]
  | session i o =>
    obtain ⟨x, x', -, rfl, -⟩ := sessionStep_cases h
    exact hret
  | stop c' =>
    by_cases hc : c = c'
    · subst hc
      have h : s.stopStep c = some s' := h
      simp [stopStep, hret] at h
    · rw [(stopStep_cases h).2.2.2.1 c hc, hret]
  | call c' | signal c' =>
    rcases callStep_cases (c := c') h (by simp) with rfl | ⟨hidle, rfl⟩
    · exact hret
    · have hc : c ≠ c' := fun hc => by simp [← hc, hret] at hidle
      simp [hc, hret]

theorem step_returns (h : s.step l = some s') (hret : s'.stops c = .returned won) :
    s.stops c = .returned won ∨ l = .stop c ∧ (s.stops c = .exchange ∧ s.isRunning = false ∧ won = false ∨
      s.stops c = .workersUnlock ∧ won = true) := by
  cases l with
  | start ok => exact .inl (by rw [← hret, (startStep_cases h).1])
  | session i o =>
    obtain ⟨x, x', -, rfl, -⟩ := sessionStep_cases h
    exact .inl hret
  | stop c' =>
    by_cases hc : c = c'
    · subst hc
      refine .inr ⟨rfl, ?_⟩
      simp only [step, stopStep] at h
      split at h <;> (repeat' split at h) <;> cases h <;> simp_all
    · exact .inl (by rw [← hret, (stopStep_cases h).2.2.2.1 c hc])
  | call c' | signal c' =>
    rcases callStep_cases (c := c') h (by simp) with rfl | ⟨-, rfl⟩
    · exact .inl hret
    · by_cases hc : c = c'
      · simp [hc] at hret
      · exact .inl (by simpa [hc] using hret)

theorem step_stopping (h : s.step l = some s') (hl : within n l = true) (hq : NoAccept s l)
    (hg : AfterShutdown n s l) (hs : Stopping n s) : Stopping n s' := by
  have hsweep : SweepsAll s l := by
    cases l with
    | stop c => exact fun _ => hs.between
    | _ => trivial
  obtain ⟨hlooping, hbetween⟩ := step_between h hq hs.looping hs.between
  refine ⟨step_consistent h hs.consistent, step_settled h hs.consistent hsweep hs.settled,
    hlooping, hbetween,
    step_idle h hl hs.idle, ?_⟩
  intro c hc
  rcases step_returns h hc with hold | ⟨rfl, ⟨hpc, hoff, -⟩ | ⟨-, hwon⟩⟩
  · obtain ⟨c', hc'⟩ := hs.lost c hold
    exact ⟨c', step_returned h hc'⟩
  · -- someone has stopped the server, and is not in the shutdown any more
    obtain ⟨c', hwon⟩ := hs.consistent.control.stopped hs.looping hoff
    have hlt : c' < n := Nat.lt_of_not_le fun hge => by
      simp [hs.idle c' hge, StopPc.won] at hwon
    exact ⟨c', step_returned h (StopPc.returned_of_won hwon (hg hpc c' hlt))⟩
  · cases hwon

/-- However many callers of `stop()` there are on a running server that accepts no connection: if
each does its compare-exchange while no other is in the shutdown, the shutdown is done once, and
when a call has returned, it is over. -/
theorem stop_returned_stopped (hs : Serving s) (h : exec step s ls = some s')
    (hn : ∀ l ∈ ls, within n l = true)
    (hq : Guarded step NoAccept s ls) (hg : Guarded step (AfterShutdown n) s ls) :
    (∀ c c', (s'.stops c).won = true → (s'.stops c').won = true → c = c') ∧
      ∀ c won, s'.stops c = .returned won →
        AllJoined s' ∧ s'.runningInstance = false ∧ ∀ c', (s'.stops c').inside = false := by
  obtain ⟨hc, hsettled, -, hbetween, -, hlost⟩ : Stopping n s' :=
    exec_invariant (fun s l s' hi hg h => step_stopping h hg.1 hg.2.1 hg.2.2 hi) h
      (guarded_and (guarded_of_forall hn) (guarded_and hq hg)) hs.stopping
  refine ⟨hc.control.once, ?_⟩
  intro c won hret
  obtain ⟨w, hw⟩ : ∃ w, s'.stops w = .returned true := by
    cases won with
    | true => exact ⟨c, hret⟩
    | false => exact hlost c hret
  refine ⟨hc.pool.allJoined (hsettled.emptied w (by rw [hw]; rfl)) hbetween,
    hc.control.released w (by rw [hw]; rfl), ?_⟩
  intro c'
  cases hin : (s'.stops c').inside with
  | false => rfl
  | true =>
    obtain rfl : c' = w := hc.control.once c' w (StopPc.won_of_inside hin) (by rw [hw]; rfl)
    simp [hw, StopPc.inside] at hin

def oneServed : List Label := startUp ++ acceptClient ++ [.start true]

theorem serving_oneServed : Serving (after oneServed) :=
  ⟨⟨oneServed, exec_after _ (by decide +kernel)⟩, by decide +kernel, by decide +kernel, fun _ => rfl⟩

/-- Both callers are there at once, and the second does its exchange when the first has returned. -/
def stopTwice : List Label :=
  [.call 0, .call 1] ++ List.replicate 8 (.stop 0) ++ threadEnds 0 ++ List.replicate 5 (.stop 0) ++
    [.stop 1]

theorem stopTwice_stopped : ∃ s, exec step (after oneServed) stopTwice = some s ∧
    s.stops 1 = .returned false ∧
    s.sessions.length = 1 ∧ AllJoined s ∧ s.runningInstance = false := by
  have h : exec step (after oneServed) stopTwice = some (after (oneServed ++ stopTwice)) := by
    rw [← exec_append (exec_after oneServed (by decide +kernel))]
    exact exec_after _ (by decide +kernel)
  have hret : (after (oneServed ++ stopTwice)).stops 1 = .returned false := by decide +kernel
  obtain ⟨-, hall⟩ :=
      stop_returned_stopped (n := 2) serving_oneServed h (by decide +kernel) (by decide +kernel)
    (by decide +kernel)
  exact ⟨_, h, hret, by decide +kernel, (hall 1 false hret).1, (hall 1 false hret).2.1⟩

/-- The second caller does its exchange right after the first has done its own. -/
def stopTogether : List Label := [.call 0, .call 1, .stop 0, .stop 1]

theorem stopTogether_not_stopped : ¬ ∀ s ls s' n, Serving s → exec step s ls = some s' →
    (∀ l ∈ ls, within n l = true) → Guarded step NoAccept s ls →
      (∀ c c', (s'.stops c).won = true → (s'.stops c').won = true → c = c') ∧
        ∀ c won, s'.stops c = .returned won →
          AllJoined s' ∧ s'.runningInstance = false ∧ ∀ c', (s'.stops c').inside = false := by
  intro hall
  have h : exec step (after oneServed) stopTogether = some (after (oneServed ++ stopTogether)) := by
    rw [← exec_append (exec_after oneServed (by decide +kernel))]
    exact exec_after _ (by decide +kernel)
  obtain ⟨-, hret⟩ := hall _ stopTogether _ 2 serving_oneServed h (by decide +kernel) (by decide +kernel)
  exact absurd (hret 1 false (by decide +kernel)).1.1 (by decide +kernel)

/-! ### A call of `stop()` during start-up -/

/-- A call made after `running_instance_` was stored does its compare-exchange when `is_running_`
is stored or `start()` has given up, and when no other call stands between its own
compare-exchange and the shutdown of the listening socket. -/
def Effective (n : Nat) (s : Server) : Label → Prop
  | .stop c => s.stops c = .exchange → s.afterPublish c = true →
      (s.start.starting = false ∨ s.start = .returned false) ∧ ∀ c' < n, s.stops c' ≠ .shutdown
  | _ => True

instance : Decidable (Effective n s l) :=
  match l with
  | .stop c => inferInstanceAs (Decidable (s.stops c = .exchange → s.afterPublish c = true →
      (s.start.starting = false ∨ s.start = .returned false) ∧ ∀ c' < n, s.stops c' ≠ .shutdown))
  | .start _ | .session _ _ | .call _ | .signal _ => .isTrue trivial

structure Quiet (s : Server) : Prop where
  off : s.isRunning = false
  closed : s.start = .returned false ∨ s.start.starting = false ∧ s.listenState ≠ .listening

theorem step_quiet (h : s.step l = some s') (hs : Quiet s) : Quiet s' ∧ s'.accepted = s.accepted := by
  cases l with
  | start ok =>
    obtain ⟨-, -,
        ⟨hst, -, -, hret, -⟩ | ⟨hpc, -⟩ | ⟨hst, hst', hrun, hl, -, -, ⟨hacc, -⟩ | ⟨-, -, hlisten⟩⟩⟩ :=
      startStep_cases h
    · rcases hs.closed with hpc | ⟨hloop, -⟩
      · exact absurd hpc hret
      · simp [hst] at hloop
    · rcases hs.closed with hret | ⟨hloop, -⟩
      · simp [hpc] at hret
      · simp [hpc, StartPc.starting] at hloop
    · refine ⟨⟨hrun.trans hs.off, .inr ⟨hst', ?_⟩⟩, hacc⟩
      rcases hs.closed with hret | ⟨-, hshut⟩
      · simp [hret, StartPc.starting] at hst
      · rwa [hl]
    · rcases hs.closed with hret | ⟨-, hshut⟩
      · simp [hret, StartPc.starting] at hst
      · exact absurd hlisten hshut
  | stop c =>
    obtain ⟨hstart, -, hacc, -, ⟨-, hrun, -⟩ | ⟨-, -, rfl⟩ | ⟨-, -, hrun, hlisten, -⟩⟩ := stopStep_cases h
    · simp [hs.off] at hrun
    · exact ⟨⟨hs.off, hs.closed⟩, hacc⟩
    · refine ⟨⟨hrun.trans hs.off, ?_⟩, hacc⟩
      rw [hstart]
      refine hs.closed.imp_right (And.imp_right ?_)
      intro hshut
      rcases hlisten with ⟨hl, -⟩ | hl | hl
      · rwa [hl]
      · simp [hl]
      · simp [hl]
  | session i o =>
    obtain ⟨x, x', -, rfl, -⟩ := sessionStep_cases h
    exact ⟨⟨hs.off, hs.closed⟩, rfl⟩
  | call c | signal c =>
    rcases callStep_cases (c := c) h (by simp) with rfl | ⟨-, rfl⟩
    · exact ⟨hs, rfl⟩
    · exact ⟨⟨hs.off, hs.closed⟩, rfl⟩

theorem exec_quiet (h : exec step s ls = some s') (hs : Quiet s) : Quiet s' ∧ s'.accepted = s.accepted :=
  exec_invariant (G := fun _ _ => True) (I := fun t => Quiet t ∧ t.accepted = s.accepted)
    (fun _ _ _ hi _ h => ⟨(step_quiet h hi.1).1, (step_quiet h hi.1).2.trans hi.2⟩) h
    (guarded_of_forall (P := fun _ => True) fun _ _ => trivial) ⟨hs, rfl⟩

structure Heard (n : Nat) (s : Server) : Prop where
  consistent : Consistent s
  idle : ∀ c, n ≤ c → s.stops c = .idle
  quiet : ∀ c won, s.afterPublish c = true → s.stops c = .returned won → Quiet s

theorem Control.quiet (hs : Control s) (hshut : (s.stops c).shut = true) : Quiet s := by
  have hwon := StopPc.won_of_shut hshut
  refine ⟨hs.won c hwon, .inr ⟨?_, hs.shut c hshut⟩⟩
  cases hst : s.start.starting with
  | false => rfl
  | true => simp [(hs.starting hst).2 c] at hwon

theorem step_afterPublish (h : s.step l = some s') (hret : s'.stops c = .returned won) :
    s'.afterPublish c = s.afterPublish c := by
  cases l with
  | start ok => rw [(startStep_cases h).2.1]
  | session i o =>
    obtain ⟨x, x', -, rfl, -⟩ := sessionStep_cases h
    rfl
  | stop c' => rw [(stopStep_cases h).2.1]
  | call c' | signal c' =>
    rcases callStep_cases (c := c') h (by simp) with rfl | ⟨-, rfl⟩
    · rfl
    · have hc : c ≠ c' := fun hc => by simp [hc] at hret
      simp [hc]

theorem step_heard (h : s.step l = some s') (hl : within n l = true) (hg : Effective n s l)
    (hs : Heard n s) : Heard n s' := by
  have hc' := step_consistent h hs.consistent
  refine ⟨hc', step_idle h hl hs.idle, ?_⟩
  intro c won hpub hret
  rw [step_afterPublish h hret] at hpub
  rcases step_returns h hret with hold | ⟨rfl, ⟨hpc, hoff, rfl⟩ | ⟨-, rfl⟩⟩
  · exact (step_quiet h (hs.quiet c won hpub hold)).1
  · -- the exchange is lost: `start()` has given up, or someone has stopped it and shut down the socket
    obtain ⟨hst, hshutdown⟩ := hg hpc hpub
    refine (step_quiet h ?_).1
    rcases hst with hst | hst
    · obtain ⟨c', hwon⟩ := hs.consistent.control.stopped hst hoff
      have hlt : c' < n := Nat.lt_of_not_le fun hge => by
        simp [hs.idle c' hge, StopPc.won] at hwon
      exact hs.consistent.control.quiet (StopPc.shut_of_won hwon (hshutdown c' hlt))
    · exact ⟨hoff, .inl hst⟩
  · exact hc'.control.quiet (c := c) (by rw [hret]; rfl)

/-- When every call made after `running_instance_` was stored is effective: once such a call has
returned, `is_running_` stays false and no client is accepted, whatever comes. -/
theorem stop_is_final (h : exec step new ls = some s) (hn : ∀ l ∈ ls, within n l = true)
    (hg : Guarded step (Effective n) new ls) (hpub : s.afterPublish c = true)
    (hret : s.stops c = .returned won)
    (h' : exec step s ls' = some s') : s'.isRunning = false ∧ s'.accepted = s.accepted := by
  have hheard : Heard n s :=
    exec_invariant (fun s l s' hi hg h => step_heard h hg.1 hg.2 hi) h
      (guarded_and (guarded_of_forall hn) hg)
      ⟨consistent_new, fun _ _ => rfl, by simp [new]⟩
  obtain ⟨hquiet, hacc⟩ := exec_quiet h' (hheard.quiet c won hpub hret)
  exact ⟨hquiet.off, hacc⟩

/-- A signal arrives while one client is served. -/
def signalled : List Label :=
  oneServed ++ .signal 0 :: List.replicate 8 (.stop 0) ++ threadEnds 0 ++ List.replicate 5 (.stop 0)

theorem signalled_is_final : ∃ s, exec step (after signalled) [.start false, .start true] = some s ∧
    s.start = .returned true ∧ s.isRunning = false ∧ s.accepted = (after signalled).accepted := by
  have h : exec step new signalled = some (after signalled) := exec_after _ (by decide +kernel)
  have h' : exec step (after signalled) [.start false, .start true] =
      some (after (signalled ++ [.start false, .start true])) := by
    rw [← exec_append h]
    exact exec_after _ (by decide +kernel)
  have hret : (after signalled).stops 0 = .returned true := by decide +kernel
  exact ⟨_, h', by decide +kernel,
    stop_is_final (n := 1) h (by decide +kernel) (by decide +kernel) (by decide +kernel) hret h'⟩

/-- A signal arrives when the handlers are installed and `is_running_` is not yet stored. -/
def signalledEarly : List Label := List.replicate 3 (.start true) ++ [.signal 0, .stop 0]

theorem signalledEarly_not_final : ¬ ∀ ls s n c won ls' s', exec step new ls = some s →
    (∀ l ∈ ls, within n l = true) → s.afterPublish c = true → s.stops c = .returned won →
      exec step s ls' = some s' → s'.isRunning = false ∧ s'.accepted = s.accepted := by
  intro hall
  have h : exec step new signalledEarly = some (after signalledEarly) := exec_after _ (by decide +kernel)
  have h' : exec step (after signalledEarly) (List.replicate 7 (.start true)) =
      some (after (signalledEarly ++ List.replicate 7 (.start true))) := by
    rw [← exec_append h]
    exact exec_after _ (by decide +kernel)
  have hfinal := hall _ _ 1 0 false _ _ h (by decide +kernel) (by decide +kernel) (by decide +kernel) h'
  exact absurd hfinal.1 (by decide +kernel)

end Server
end Streamer

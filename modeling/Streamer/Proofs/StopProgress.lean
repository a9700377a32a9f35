import Mathlib.Algebra.BigOperators.Group.List.Basic
import Mathlib.Algebra.GroupWithZero.Nat
import Streamer.Proofs.Shutdown

/-!
# `stop()` can always finish

Two things could keep `stop()` waiting: `workers_mutex_`, and a thread that it joins. A session that is
inactive is about to return from `run()` or its connection is shut down (`Retires`), unless `stop()` is
just between the two (`Responsive`). So a joined thread needs no client to come to its end, neither in
`stop()` nor in `cleanup_finished_sessions()` under the lock, and every state has a step of the server's
own threads that brings `rank` down (`step_helps`).

A caller is a thread besides the accept loop and the sessions. A handler on top of one of these can wait for
the very thread that it interrupts (`Proofs/SelfDeadlock.lean`). Logging is left out; whoever has the lock of
the logger waits for no other.
-/

namespace Streamer
open Machine

/-- `run()` reads its flag before it waits for its client again. -/
def ThreadPc.retiring : ThreadPc → Bool
  | .loopTest | .deactivate | .close | .exited => true
  | _ => false

/-- The thread comes to its end without its client: its connection is down, or its flag is, and it stands
where it will see that. -/
def SessionWorker.Retires (x : SessionWorker) : Prop :=
  x.connected = false ∨ x.isActive = false ∧ x.thread.retiring = true

namespace Server

variable {s s' : Server} {ok : Bool} {c i k w : Nat} {o : ServeOutcome} {l : Label}

theorem serveStep_retires {x x' : SessionWorker} (h : serveStep x o = some x') (hx : x.Retires) :
    x'.Retires := by
  unfold SessionWorker.Retires at hx ⊢
  unfold serveStep at h
  split at h <;> (repeat' split at h) <;> cases h <;> simp_all [ThreadPc.retiring]

/-- A thread makes itself inactive only on its way out. -/
theorem serveStep_inactive {x x' : SessionWorker} (h : serveStep x o = some x')
    (ha : x'.isActive = false) : x.isActive = false ∨ x'.Retires := by
  unfold SessionWorker.Retires
  unfold serveStep at h
  split at h <;> (repeat' split at h) <;> cases h <;> simp_all [ThreadPc.retiring]

def RetiresAt (s : Server) (w : Nat) : Prop :=
  ∃ x, s.sessions[w]? = some x ∧ x.thread ≠ .none ∧ x.Retires

/-- `stop()` has made the session inactive and is about to shut its connection down. -/
def ShutdownPending (s : Server) (i : Nat) : Prop :=
  ∃ c k, s.stops c = .sessionShutdown k ∧ s.workers[k]? = some i

/-- What a caller has stopped under the lock. -/
def Sweeps (s : Server) : StopPc → Prop
  | .session k | .sessionShutdown k => ∀ j < k, ∀ w, s.workers[j]? = some w → s.RetiresAt w
  | .sessionClose k => ∀ j ≤ k, ∀ w, s.workers[j]? = some w → s.RetiresAt w
  | .join _ => ∀ w ∈ s.workers, s.RetiresAt w
  | _ => True

/-- Who joins a thread does not wait for a client. -/
structure Responsive (s : Server) : Prop where
  registered : ∀ w ∈ s.workers, ∃ x, s.sessions[w]? = some x ∧ x.thread ≠ .none
  fresh : ∀ (i : Nat) (x : SessionWorker), s.sessions[i]? = some x → x.thread = .none → x.isActive = true
  inactive : ∀ (i : Nat) (x : SessionWorker), s.sessions[i]? = some x → x.isActive = false →
    x.Retires ∨ s.ShutdownPending i
  swept : ∀ c, s.Sweeps (s.stops c)
  reaped : ∀ k, s.start = .cleanupJoin k → ∃ w, s.workers[k]? = some w ∧ s.RetiresAt w

theorem sweeps_of_unlocked {pc : StopPc} (h : pc.locked = false) : s.Sweeps pc := by
  cases pc <;> simp_all [Sweeps, StopPc.locked]

theorem Sweeps.mono {pc : StopPc} (hp : s.Sweeps pc) (hw : s'.workers = s.workers)
    (hr : ∀ w, s.RetiresAt w → s'.RetiresAt w) : s'.Sweeps pc := by
  cases pc with
  | session k | sessionShutdown k => exact fun j hj w hw' => hr w (hp j hj w (hw ▸ hw'))
  | sessionClose k => exact fun j hj w hw' => hr w (hp j hj w (hw ▸ hw'))
  | join k => exact fun w hw' => hr w (hp w (hw ▸ hw'))
  | _ => trivial

theorem not_pending (hc : ∀ c, (s.stops c).locked = false) (i : Nat) : ¬ s.ShutdownPending i := by
  rintro ⟨c, k, hpc, -⟩
  simpa [hpc, StopPc.locked] using hc c

theorem retiresAt_modify {f : SessionWorker → SessionWorker} (hs' : s'.sessions = s.sessions.modify i f)
    (hf : ∀ x, s.sessions[i]? = some x → x.thread ≠ .none → x.Retires →
      (f x).thread ≠ .none ∧ (f x).Retires)
    (hr : s.RetiresAt w) : s'.RetiresAt w := by
  obtain ⟨x, hx, hthread, hret⟩ := hr
  by_cases hi : i = w
  · exact ⟨f x, by simp [hs', hi, hx], hf x (hi ▸ hx) hthread hret⟩
  · exact ⟨x, by simp [hs', hi, hx], hthread, hret⟩

/-- What a step may do to one session, if it neither makes nor starts one. -/
theorem Responsive.of_modify {f : SessionWorker → SessionWorker} (hs : Responsive s)
    (hse : s'.sessions = s.sessions.modify i f) (hsub : s'.workers ⊆ s.workers)
    (hthread : ∀ x, s.sessions[i]? = some x → ((f x).thread = .none ↔ x.thread = .none))
    (hfresh : ∀ x, s.sessions[i]? = some x → x.thread = .none → (f x).isActive = x.isActive)
    (hactive : ∀ x, s.sessions[i]? = some x → (f x).isActive = false →
      (f x).Retires ∨ s'.ShutdownPending i ∨ x.isActive = false ∧ (x.Retires → (f x).Retires))
    (hpending : ∀ j, s.ShutdownPending j → s'.RetiresAt j ∨ s'.ShutdownPending j)
    (hswept : ∀ c, s'.Sweeps (s'.stops c))
    (hreaped : ∀ k, s'.start = .cleanupJoin k → ∃ w, s'.workers[k]? = some w ∧ s'.RetiresAt w) :
    Responsive s' := by
  refine ⟨?_, ?_, ?_, hswept, hreaped⟩
  · intro w hw
    obtain ⟨x, hx, hnone⟩ := hs.registered w (hsub hw)
    by_cases hi : i = w
    · exact ⟨f x, by simp [hse, hi, hx], mt (hthread x (hi ▸ hx)).1 hnone⟩
    · exact ⟨x, by simp [hse, hi, hx], hnone⟩
  · intro j x' hx' hnone
    obtain ⟨x, hx, ⟨rfl, rfl⟩ | ⟨-, rfl⟩⟩ := sessions_modify (hse ▸ hx')
    · rw [hfresh x hx ((hthread x hx).1 hnone)]
      exact hs.fresh _ x hx ((hthread x hx).1 hnone)
    · exact hs.fresh j x' hx hnone
  · have hold {j : Nat} {x' : SessionWorker} (hx' : s'.sessions[j]? = some x')
        (h : s.ShutdownPending j) : x'.Retires ∨ s'.ShutdownPending j := by
      refine (hpending j h).imp_left ?_
      rintro ⟨y, hy, -, hret⟩
      obtain rfl : x' = y := Option.some.inj (hx'.symm.trans hy)
      exact hret
    intro j x' hx' ha
    obtain ⟨x, hx, ⟨rfl, rfl⟩ | ⟨-, rfl⟩⟩ := sessions_modify (hse ▸ hx')
    · rcases hactive x hx ha with h | h | ⟨hold', hmono⟩
      · exact .inl h
      · exact .inr h
      · rcases hs.inactive _ x hx hold' with h | h
        · exact .inl (hmono h)
        · exact hold hx' h
    · rcases hs.inactive j x' hx ha with h | h
      · exact .inl h
      · exact hold hx' h

theorem startStep_reaps (h : s.startStep ok = some s') (hpc : s'.start = .cleanupJoin k) :
    s.start = .cleanup k ∧ s'.sessions = s.sessions ∧ s'.workers = s.workers ∧
      ∃ w, s.workers[k]? = some w ∧ s.sessionActive w = false := by
  unfold startStep at h
  split at h <;> (repeat' split at h) <;> cases h <;> simp_all

/-- A registered session that is seen inactive retires, if no caller of `stop()` is in between. -/
theorem Responsive.retiresAt (hs : Responsive s) (hpending : ¬ s.ShutdownPending w) (hw : w ∈ s.workers)
    (ha : s.sessionActive w = false) : s.RetiresAt w := by
  obtain ⟨x, hx, hthread⟩ := hs.registered w hw
  have hoff : x.isActive = false := by simpa [sessionActive, hx] using ha
  exact ⟨x, hx, hthread, (hs.inactive w x hx hoff).resolve_right hpending⟩

theorem startStep_responsive (h : s.startStep ok = some s') (hc : Consistent s) (hm : Made s)
    (hs : Responsive s) : Responsive s' := by
  obtain ⟨hstops, -⟩ := startStep_cases h
  have hreaped (hsame : ∀ w, s.RetiresAt w → s'.RetiresAt w) :
      ∀ k, s'.start = .cleanupJoin k → ∃ w, s'.workers[k]? = some w ∧ s'.RetiresAt w := by
    intro k hpc
    obtain ⟨hpc₀, -, hw, w, hget, ha⟩ := startStep_reaps h hpc
    have hlocked := hc.locks.start_alone (by rw [hpc₀]; rfl)
    exact ⟨w, hw ▸ hget, hsame w
      (hs.retiresAt (not_pending hlocked w) (List.mem_of_getElem? hget) ha)⟩
  have hpending (hw : s'.workers = s.workers) {j : Nat} (hj : s.ShutdownPending j) :
      s'.ShutdownPending j := by
    obtain ⟨c, k, hpc, hk⟩ := hj
    exact ⟨c, k, hstops ▸ hpc, hw ▸ hk⟩
  rcases startStep_pool_cases h with
    ⟨hse, hw, -⟩ | ⟨-, -, hse, hw⟩ | ⟨k, w, hpc, -, hk, -, hse, hw⟩ | ⟨hpc, -, hse, hw⟩
  · have hsame (w : Nat) (hr : s.RetiresAt w) : s'.RetiresAt w := by rwa [RetiresAt, hse]
    refine ⟨?_, ?_, ?_, fun c => hstops ▸ (hs.swept c).mono hw hsame, hreaped hsame⟩
    · rw [hw, hse]
      exact hs.registered
    · rw [hse]
      exact hs.fresh
    · rw [hse]
      exact fun i x hx ha => (hs.inactive i x hx ha).imp_right (hpending hw)
  · have hold {i : Nat} {x : SessionWorker} (hx : s.sessions[i]? = some x) :
        s'.sessions[i]? = some x := by
      rw [hse, List.getElem?_append_left (List.getElem?_eq_some_iff.1 hx).1, hx]
    have hsame (w : Nat) (hr : s.RetiresAt w) : s'.RetiresAt w := by
      obtain ⟨x, hx, hret⟩ := hr
      exact ⟨x, hold hx, hret⟩
    have hnew {i : Nat} {x : SessionWorker} (hx : s'.sessions[i]? = some x) :
        s.sessions[i]? = some x ∨ x.isActive = true := by
      rw [hse, List.getElem?_append] at hx
      split at hx
      · exact .inl hx
      · right
        obtain rfl := List.mem_singleton.1 (List.mem_of_getElem? hx)
        rfl
    refine ⟨?_, ?_, ?_, fun c => hstops ▸ (hs.swept c).mono hw hsame, hreaped hsame⟩
    · intro w hmem
      obtain ⟨x, hx, hthread⟩ := hs.registered w (hw ▸ hmem)
      exact ⟨x, hold hx, hthread⟩
    · intro i x hx hnone
      rcases hnew hx with hx | ha
      · exact hs.fresh i x hx hnone
      · exact ha
    · intro i x hx ha
      rcases hnew hx with hx | ha'
      · exact (hs.inactive i x hx ha).imp_right (hpending hw)
      · rw [ha] at ha'
        cases ha'
  · -- under the lock: the joined thread is taken out of `workers_`
    have hlocked := hc.locks.start_alone (by rw [hpc]; rfl)
    refine hs.of_modify hse (hw ▸ List.eraseIdx_subset) (fun _ _ => .rfl) (fun _ _ _ => rfl)
      (fun x _ ha => .inr (.inr ⟨ha, id⟩)) (fun j hj => absurd hj (not_pending hlocked j))
      (fun c => hstops ▸ sweeps_of_unlocked (hlocked c)) (hreaped fun w => ?_)
    exact retiresAt_modify hse fun x _ hthread hret => ⟨hthread, hret⟩
  · have hlocked := hc.locks.start_alone (by rw [hpc]; rfl)
    have hmade : s.start.made = true := by rw [hpc]; rfl
    have hsame (w : Nat) (hr : s.RetiresAt w) : s'.RetiresAt w :=
      retiresAt_modify hse (fun x hx hthread _ => absurd (hc.pool.fresh hmade x hx) hthread) hr
    refine ⟨?_, ?_, ?_, fun c => hstops ▸ sweeps_of_unlocked (hlocked c), hreaped hsame⟩
    · intro w hmem
      rw [hw, List.mem_append, List.mem_singleton] at hmem
      by_cases hlast : w = s.sessions.length - 1
      · subst hlast
        have hlt : s.sessions.length - 1 < s.sessions.length := Nat.sub_lt (hm hmade) Nat.one_pos
        obtain ⟨x, hx⟩ : ∃ x, s.sessions[s.sessions.length - 1]? = some x :=
          ⟨_, List.getElem?_eq_getElem hlt⟩
        exact ⟨{ x with thread := .activate }, by simp [hse, hx], by simp⟩
      · obtain ⟨x, hx, hthread⟩ := hs.registered w (hmem.resolve_right hlast)
        exact ⟨x, by simp [hse, Ne.symm hlast, hx], hthread⟩
    · intro i x' hx' hnone
      obtain ⟨x, hx, ⟨rfl, rfl⟩ | ⟨-, rfl⟩⟩ := sessions_modify (hse ▸ hx')
      · cases hnone
      · exact hs.fresh i x' hx hnone
    · intro i x' hx' ha
      obtain ⟨x, hx, ⟨rfl, rfl⟩ | ⟨-, rfl⟩⟩ := sessions_modify (hse ▸ hx')
      · -- the session just made has its flag set
        have hactive := hs.fresh _ x hx (hc.pool.fresh hmade x hx)
        rw [show x.isActive = false from ha] at hactive
        cases hactive
      · exact .inl ((hs.inactive i x' hx ha).resolve_right (not_pending hlocked i))

/-- Under the lock of a caller only its own session can be in between. -/
theorem Locks.pending (hl : Locks s) (hc : (s.stops c).locked = true) (hi : s.ShutdownPending i) :
    ∃ k, s.stops c = .sessionShutdown k ∧ s.workers[k]? = some i := by
  obtain ⟨c', k, hpc, hk⟩ := hi
  by_cases hne : c' = c
  · exact ⟨k, hne ▸ hpc, hk⟩
  · have := (hl.alone hc).2 c' hne
    simp [hpc, StopPc.locked] at this

theorem pending_of_other (hother : ∀ c', c' ≠ c → s'.stops c' = s.stops c')
    (hw : s'.workers = s.workers) (hpc : ∀ k, s.stops c ≠ .sessionShutdown k) (i : Nat)
    (hi : s.ShutdownPending i) : s'.ShutdownPending i := by
  obtain ⟨c', k, hpc', hk⟩ := hi
  refine ⟨c', k, ?_, hw ▸ hk⟩
  rw [hother c' fun heq => hpc k (heq ▸ hpc')]
  exact hpc'

/-- A step of `stop()` that touches no session. -/
theorem Responsive.stop_same (hs : Responsive s) (hstart : s'.start = s.start)
    (hother : ∀ c', c' ≠ c → s'.stops c' = s.stops c') (hse : s'.sessions = s.sessions)
    (hw : s'.workers = s.workers) (hpending : ∀ i, s.ShutdownPending i → s'.ShutdownPending i)
    (hswept : s'.Sweeps (s'.stops c)) : Responsive s' := by
  have hsame (w : Nat) (hr : s.RetiresAt w) : s'.RetiresAt w := by rwa [RetiresAt, hse]
  refine ⟨?_, ?_, ?_, ?_, ?_⟩
  · rw [hw, hse]
    exact hs.registered
  · rw [hse]
    exact hs.fresh
  · rw [hse]
    exact fun i x hx ha => (hs.inactive i x hx ha).imp_right (hpending i)
  · intro c'
    by_cases hc : c' = c
    · exact hc ▸ hswept
    · rw [hother c' hc]
      exact (hs.swept c').mono hw hsame
  · intro k hk
    obtain ⟨w, hget, hr⟩ := hs.reaped k (hstart ▸ hk)
    exact ⟨w, hw ▸ hget, hsame w hr⟩

/-- A step of `stop()` under the lock that changes one session. -/
theorem Responsive.stop_modify {f : SessionWorker → SessionWorker} (hs : Responsive s) (hl : Locks s)
    (hc : (s.stops c).locked = true) (hstart : s'.start = s.start)
    (hother : ∀ c', c' ≠ c → s'.stops c' = s.stops c')
    (hse : s'.sessions = s.sessions.modify w f) (hw : s'.workers = s.workers)
    (hthread : ∀ x, (f x).thread = x.thread) (hget : w ∈ s.workers)
    (hactive : ∀ x, (f x).isActive = false →
      (f x).Retires ∨ s'.ShutdownPending w ∨ x.isActive = false ∧ (x.Retires → (f x).Retires))
    (hpending : ∀ j, s.ShutdownPending j → s'.RetiresAt j ∨ s'.ShutdownPending j)
    (hswept : s'.Sweeps (s'.stops c)) : Responsive s' := by
  obtain ⟨hnostart, hnostop⟩ := hl.alone hc
  refine hs.of_modify hse (by rw [hw]; exact fun _ => id) (fun x _ => by rw [hthread])
    (fun x hx hnone => ?_) (fun x _ => hactive x) hpending ?_ ?_
  · obtain ⟨y, hy, hy'⟩ := hs.registered w hget
    obtain rfl : x = y := Option.some.inj (hx.symm.trans hy)
    exact absurd hnone hy'
  · intro c'
    by_cases hc' : c' = c
    · exact hc' ▸ hswept
    · rw [hother c' hc']
      exact sweeps_of_unlocked (hnostop c' hc')
  · intro k hk
    rw [← hstart, hk] at hnostart
    cases hnostart

theorem stopStep_responsive (h : s.stopStep c = some s') (hl : Locks s) (hs : Responsive s) :
    Responsive s' := by
  obtain ⟨hstart, -, -, hother, -⟩ := stopStep_cases h
  have hswept := hs.swept c
  have hsessions (w : Nat) (hse : s'.sessions = s.sessions) (hr : s.RetiresAt w) : s'.RetiresAt w := by
    rwa [RetiresAt, hse]
  cases hpc : s.stops c with
  | idle | returned won => simp [stopStep, hpc] at h
  | exchange | shutdown | close | workersLock | clearInstance | workersUnlock =>
    simp only [stopStep, hpc] at h
    (repeat' split at h) <;> cases h <;>
      exact hs.stop_same rfl hother rfl rfl (pending_of_other hother rfl (by simp [hpc]))
        (by simp [Sweeps])
  | session k =>
    simp only [stopStep, hpc] at h
    rw [hpc] at hswept
    have hlocked : (s.stops c).locked = true := by rw [hpc]; rfl
    have hnot (i : Nat) : ¬ s.ShutdownPending i := fun hi => by
      obtain ⟨k', hpc', -⟩ := hl.pending hlocked hi
      simp [hpc] at hpc'
    split at h
    · rename_i hend
      cases h
      refine hs.stop_same rfl hother rfl rfl (pending_of_other hother rfl (by simp [hpc])) ?_
      rw [setStop_stops, if_pos rfl]
      intro w hmem
      obtain ⟨j, hj⟩ := List.getElem?_of_mem hmem
      have hjk : j < k := by
        have := (List.getElem?_eq_some_iff.1 hj).1
        have := List.getElem?_eq_none_iff.1 hend
        simp only [setStop_workers] at *
        omega
      exact hswept j hjk w hj
    rename_i w hw
    have hmem := List.mem_of_getElem? hw
    split at h
    · cases h
      refine hs.stop_modify hl hlocked rfl hother rfl rfl (fun _ => rfl) hmem (fun x _ => .inr (.inl ?_))
        (fun j hj => absurd hj (hnot j)) ?_
      · exact ⟨c, k, by simp, hw⟩
      · rw [setStop_stops, if_pos rfl]
        exact fun j hj v hv => retiresAt_modify rfl (fun x _ hthread hret =>
          ⟨hthread, hret.imp_right fun h => ⟨rfl, h.2⟩⟩) (hswept j hj v hv)
    · rename_i ha
      cases h
      refine hs.stop_same rfl hother rfl rfl (pending_of_other hother rfl (by simp [hpc])) ?_
      rw [setStop_stops, if_pos rfl]
      intro j hj v hv
      rcases Nat.lt_succ_iff_lt_or_eq.1 hj with hlt | rfl
      · exact hswept j hlt v hv
      · obtain rfl : w = v := Option.some.inj (hw.symm.trans hv)
        exact hs.retiresAt (hnot w) hmem (by simpa using ha)
  | sessionShutdown k =>
    simp only [stopStep, hpc] at h
    rw [hpc] at hswept
    have hlocked : (s.stops c).locked = true := by rw [hpc]; rfl
    split at h
    · rename_i hnone
      cases h
      refine hs.stop_same rfl hother rfl rfl (fun i hi => ?_) ?_
      · obtain ⟨k', hpc', hk'⟩ := hl.pending hlocked hi
        rw [hpc, StopPc.sessionShutdown.injEq] at hpc'
        simp [← hpc', hnone] at hk'
      · rw [setStop_stops, if_pos rfl]
        intro j hj v hv
        rcases Nat.lt_or_eq_of_le hj with hlt | rfl
        · exact hswept j hlt v hv
        · rw [show s.workers[j]? = some v from hv] at hnone
          cases hnone
    · rename_i w hw
      cases h
      have hdown (v : Nat) (hr : s.RetiresAt v) :
          RetiresAt (s.modifySession w ({ · with connected := false })) v :=
        retiresAt_modify rfl (fun x _ hthread _ => ⟨hthread, .inl rfl⟩) hr
      have hat : RetiresAt (s.modifySession w ({ · with connected := false })) w := by
        obtain ⟨x, hx, hthread⟩ := hs.registered w (List.mem_of_getElem? hw)
        exact ⟨{ x with connected := false }, by simp [modifySession, hx], hthread, .inl rfl⟩
      refine hs.stop_modify hl hlocked rfl hother rfl rfl (fun _ => rfl) (List.mem_of_getElem? hw)
        (fun x _ => .inl (.inl rfl)) ?_ ?_
      · intro j hj
        obtain ⟨k', hpc', hk'⟩ := hl.pending hlocked hj
        rw [hpc, StopPc.sessionShutdown.injEq] at hpc'
        obtain rfl : w = j := Option.some.inj (hw.symm.trans (hpc' ▸ hk'))
        exact .inl hat
      · rw [setStop_stops, if_pos rfl]
        intro j hj v hv
        rcases Nat.lt_or_eq_of_le hj with hlt | rfl
        · exact hdown v (hswept j hlt v hv)
        · obtain rfl : w = v := Option.some.inj (hw.symm.trans hv)
          exact hat
  | sessionClose k =>
    simp only [stopStep, hpc] at h
    rw [hpc] at hswept
    cases h
    refine hs.stop_same rfl hother rfl rfl (pending_of_other hother rfl (by simp [hpc])) ?_
    rw [setStop_stops, if_pos rfl]
    exact fun j hj => hswept j (Nat.le_of_lt_succ hj)
  | join k =>
    simp only [stopStep, hpc] at h
    rw [hpc] at hswept
    have hlocked : (s.stops c).locked = true := by rw [hpc]; rfl
    have hnot (i : Nat) : ¬ s.ShutdownPending i := fun hi => by
      obtain ⟨k', hpc', -⟩ := hl.pending hlocked hi
      simp [hpc] at hpc'
    split at h
    · cases h
      exact hs.stop_same rfl hother rfl rfl (pending_of_other hother rfl (by simp [hpc]))
        (by simp [Sweeps])
    split at h
    · rename_i w hw hex
      cases h
      refine hs.stop_modify hl hlocked rfl hother rfl rfl (fun _ => rfl) (List.mem_of_getElem? hw)
        (fun x ha => .inr (.inr ⟨ha, id⟩)) (fun j hj => absurd hj (hnot j)) ?_
      rw [setStop_stops, if_pos rfl]
      exact fun v hv => retiresAt_modify rfl (fun x _ hthread hret => ⟨hthread, hret⟩) (hswept v hv)
    · cases h
  | clear =>
    simp only [stopStep, hpc] at h
    have hlocked : (s.stops c).locked = true := by rw [hpc]; rfl
    cases h
    refine ⟨by simp, hs.fresh, fun i x hx ha => .inl ?_, fun c' => ?_, fun k hk => ?_⟩
    · refine (hs.inactive i x hx ha).resolve_right fun hi => ?_
      obtain ⟨k', hpc', -⟩ := hl.pending hlocked hi
      simp [hpc] at hpc'
    · by_cases hc' : c' = c
      · simp [hc', Sweeps]
      · rw [hother c' hc']
        exact sweeps_of_unlocked ((hl.alone hlocked).2 c' hc')
    · have hnostart := (hl.alone hlocked).1
      rw [show s.start = .cleanupJoin k from hk] at hnostart
      cases hnostart

theorem sessionStep_responsive (h : s.step (.session i o) = some s') (hs : Responsive s) :
    Responsive s' := by
  simp only [step, Option.map_eq_some_iff, Option.bind_eq_some_iff] at h
  obtain ⟨x', ⟨x, hx, hstep⟩, rfl⟩ := h
  obtain ⟨hthread, hthread'⟩ : x.thread ≠ .none ∧ x'.thread ≠ .none := by
    unfold serveStep at hstep
    split at hstep <;> (repeat' split at hstep) <;> cases hstep <;> simp_all
  have hat {y : SessionWorker} (hy : s.sessions[i]? = some y) : y = x :=
    Option.some.inj (hy.symm.trans hx)
  have hsame (w : Nat) : s.RetiresAt w → RetiresAt (s.modifySession i fun _ => x') w :=
    retiresAt_modify rfl fun y hy _ hret => ⟨hthread', serveStep_retires hstep (hat hy ▸ hret)⟩
  refine hs.of_modify rfl (fun _ => id) (fun y hy => ?_) (fun y hy hnone => ?_) (fun y hy ha => ?_)
    (fun j hj => .inr hj) (fun c => (hs.swept c).mono rfl hsame) (fun k hk => ?_)
  · simp [hat hy, hthread, hthread']
  · exact absurd hnone (hat hy ▸ hthread)
  · rcases serveStep_inactive hstep ha with hold | hret
    · exact .inr (.inr ⟨hat hy ▸ hold, fun hret => serveStep_retires hstep (hat hy ▸ hret)⟩)
    · exact .inl hret
  · obtain ⟨w, hw, hr⟩ := hs.reaped k hk
    exact ⟨w, hw, hsame w hr⟩

theorem step_responsive (h : s.step l = some s') (hc : Consistent s) (hm : Made s) (hs : Responsive s) :
    Responsive s' := by
  cases l with
  | start ok => exact startStep_responsive h hc hm hs
  | stop c => exact stopStep_responsive h hc.locks hs
  | session i o => exact sessionStep_responsive h hs
  | call c | signal c =>
    rcases callStep_cases (c := c) h (by simp) with rfl | ⟨hidle, rfl⟩
    · exact hs
    · have hcall : Responsive (s.setStop c .exchange) :=
        hs.stop_same (c := c) rfl (fun c' hc' => by simp [hc']) rfl rfl
          (pending_of_other (c := c) (fun c' hc' => by simp [hc']) rfl (by simp [hidle]))
          (by simp [Sweeps])
      exact ⟨hcall.registered, hcall.fresh, hcall.inactive, hcall.swept, hcall.reaped⟩

theorem responsive_new : Responsive new := by
  constructor <;> simp [new, Sweeps]

/-! ### Every state has a step that helps -/

end Server

/-- How many steps a thread that retires has still to make. -/
def ThreadPc.rank : ThreadPc → Nat
  | .none | .exited => 0
  | .close => 1
  | .deactivate => 2
  | .recvLine => 3
  | .loopTest => 4
  | .activate | .handle => 5

/-- The same for a call of `stop()`, with `n` entries in `workers_`. -/
def StopPc.rank (n : Nat) : StopPc → Nat
  | .idle | .returned _ => 0
  | .exchange => 4 * n + 9
  | .shutdown => 4 * n + 8
  | .close => 4 * n + 7
  | .workersLock => 4 * n + 6
  | .session i => 3 * (n - i) + n + 5
  | .sessionShutdown i => 3 * (n - (i + 1)) + n + 7
  | .sessionClose i => 3 * (n - (i + 1)) + n + 6
  | .join i => n - i + 4
  | .clear => 3
  | .clearInstance => 2
  | .workersUnlock => 1

/-- The same for the accept loop of a server that has been stopped; a session that it still registers
is one more for `stop()` and has a thread of its own. -/
def StartPc.rank (n : Nat) : StartPc → Nat
  | .loopTest => 1
  | .recheck | .workersUnlock => 2
  | .accept => 3
  | .emplace => 12
  | .workersLock => 13
  | .cleanupJoin i => 2 * (n - i) + 14
  | .cleanup i => 2 * (n - i) + 15
  | .cleanupLock => 2 * n + 16
  | .makeSession => 2 * n + 17
  | .setTimeouts => 2 * n + 18
  | _ => 0

theorem StopPc.rank_mono {m n : Nat} (h : m ≤ n) (pc : StopPc) : pc.rank m ≤ pc.rank n := by
  cases pc <;> simp only [rank] <;> omega

theorem StopPc.rank_succ (n : Nat) (pc : StopPc) : pc.rank (n + 1) ≤ pc.rank n + 4 := by
  cases pc <;> simp only [rank] <;> omega

theorem StartPc.rank_mono {m n : Nat} (h : m ≤ n) (pc : StartPc) : pc.rank m ≤ pc.rank n := by
  cases pc <;> simp only [rank] <;> omega

theorem sum_map_modify {α : Type} {f : α → α} {g : α → Nat} {l : List α} {i : Nat} {x : α}
    (hx : l[i]? = some x) : ((l.modify i f).map g).sum + g x = (l.map g).sum + g (f x) := by
  induction l generalizing i with
  | nil => cases hx
  | cons y l ih =>
    cases i with
    | zero =>
      obtain rfl : y = x := Option.some.inj hx
      simp only [List.modify_zero_cons, List.map_cons, List.sum_cons]
      omega
    | succ i =>
      have hrest := ih (i := i) hx
      simp only [List.modify_succ_cons, List.map_cons, List.sum_cons]
      omega

namespace Server
variable {s s' : Server} {ok : Bool} {c i w : Nat} {l : Label}

def threadRank (s : Server) : Nat := (s.sessions.map (·.thread.rank)).sum

def rank (s : Server) (c : Nat) : Nat :=
  (s.stops c).rank s.workers.length + s.start.rank s.workers.length + s.threadRank

/-- A step of the server's own threads, with this one call of `stop()`: no client connects, and a `recv`
returns only because the connection is shut down on this side. -/
def OwnStep (c : Nat) (s : Server) : Label → Prop
  | .start ok => s.start = .accept → ok = false
  | .session i o => ∀ x, s.sessions[i]? = some x → x.thread = .recvLine → x.connected = false ∧ o = .gone
  | .stop c' => c' = c
  | .call _ | .signal _ => False

theorem threadRank_modify {f : SessionWorker → SessionWorker} (hse : s'.sessions = s.sessions.modify i f)
    (hf : ∀ x, (f x).thread = x.thread) : s'.threadRank = s.threadRank := by
  rw [threadRank, threadRank, hse]
  cases hx : s.sessions[i]? with
  | none => rw [List.modify_eq_self (List.getElem?_eq_none_iff.1 hx)]
  | some x =>
    have := sum_map_modify (f := f) (g := fun x : SessionWorker => x.thread.rank) hx
    rw [hf] at this
    omega

/-- The thread of a session that retires moves without its client. -/
theorem thread_helps (hr : s.RetiresAt w) (hex : s.threadExited w = false) (c : Nat) :
    ∃ l s', s.step l = some s' ∧ OwnStep c s l ∧ s'.rank c < s.rank c := by
  obtain ⟨x, hx, hthread, hret⟩ := hr
  have hne : x.thread ≠ .exited := fun h => by
    rw [threadExited_iff.2 ⟨x, hx, h⟩] at hex
    cases hex
  obtain ⟨x', hstep, hlt⟩ : ∃ x', serveStep x .gone = some x' ∧ x'.thread.rank < x.thread.rank := by
    unfold serveStep
    cases hpc : x.thread <;> cases ha : x.isActive <;> simp_all [ThreadPc.rank]
  refine ⟨.session w .gone, s.modifySession w fun _ => x', ?_, ?_, ?_⟩
  · simp only [step, hx, Option.bind_some, hstep, Option.map_some]
  · intro y hy hpc
    obtain rfl : x = y := Option.some.inj (hx.symm.trans hy)
    refine ⟨hret.resolve_right fun h => ?_, rfl⟩
    rw [hpc] at h
    cases h.2
  · have hsum := sum_map_modify (f := fun _ => x') (g := fun x : SessionWorker => x.thread.rank) hx
    simp only [rank, threadRank, modifySession] at hsum ⊢
    omega

/-- A step of the accept loop that makes no session and registers none. -/
theorem rank_start_lt {pc : StartPc} {m : Option Holder}
    (hlt : pc.rank s.workers.length < s.start.rank s.workers.length) (c : Nat) :
    rank { s with start := pc, mutex := m } c < s.rank c := by
  simp only [rank, threadRank]
  omega

theorem startStep_rank (h : s.startStep ok = some s') (hp : Pool s) (hm : Made s)
    (hok : s.start = .accept → ok = false) (hstopped : s.start.locked = true ∨ s.isRunning = false)
    (hloop : s.start.starting = false) (c : Nat) : s'.rank c < s.rank c := by
  cases hpc : s.start with
  | init | publish | handlers | createTcp | reuseAddress | bind | listen | setRunning =>
    simp [hpc, StartPc.starting] at hloop
  | returned ok => simp [startStep, hpc] at h
  | loopTest =>
    have hoff : s.isRunning = false := hstopped.resolve_left (by simp [hpc, StartPc.locked])
    simp only [startStep, hpc, hoff] at h
    cases h
    exact rank_start_lt (m := s.mutex) (by simp [hpc, StartPc.rank]) c
  | accept =>
    simp only [startStep, hpc, hok hpc] at h
    cases h
    exact rank_start_lt (by simp [hpc, StartPc.rank]) c
  | recheck =>
    simp only [startStep, hpc] at h
    cases h
    refine rank_start_lt ?_ c
    split <;> simp [hpc, StartPc.rank]
  | setTimeouts =>
    simp only [startStep, hpc] at h
    cases h
    exact rank_start_lt (by simp [hpc, StartPc.rank]) c
  | makeSession =>
    simp only [startStep, hpc] at h
    cases h
    simp only [rank, threadRank, hpc, StartPc.rank, List.map_append, List.sum_append, List.map_singleton,
      List.sum_singleton, ThreadPc.rank]
    omega
  | cleanupLock =>
    simp only [startStep, hpc] at h
    split at h <;> cases h
    refine rank_start_lt ?_ c
    simp only [hpc, StartPc.rank]
    omega
  | cleanup i =>
    simp only [startStep, hpc] at h
    split at h <;> cases h
    · exact rank_start_lt (by simp only [hpc, StartPc.rank]; omega) c
    · rename_i w hw
      have hlt := (List.getElem?_eq_some_iff.1 hw).1
      refine rank_start_lt ?_ c
      split
      · simp only [hpc, StartPc.rank]
        omega
      · simp only [hpc, StartPc.rank]
        omega
  | cleanupJoin i =>
    simp only [startStep, hpc] at h
    split at h
    · cases h
    rename_i w hw
    split at h <;> cases h
    have hlt := (List.getElem?_eq_some_iff.1 hw).1
    have hlen : (s.workers.eraseIdx i).length + 1 = s.workers.length := by
      rw [List.length_eraseIdx, if_pos hlt]
      omega
    have hmono :=
      StopPc.rank_mono (show (s.workers.eraseIdx i).length ≤ s.workers.length by omega) (s.stops c)
    have hthreads : (s.modifySession w ({ · with joined := true })).threadRank = s.threadRank :=
      threadRank_modify rfl fun _ => rfl
    simp only [rank, threadRank, hpc, StartPc.rank, modifySession] at hthreads ⊢
    omega
  | workersLock =>
    simp only [startStep, hpc] at h
    split at h <;> cases h
    exact rank_start_lt (by simp [hpc, StartPc.rank]) c
  | emplace =>
    have hmade : s.start.made = true := by rw [hpc]; rfl
    have hlt : s.sessions.length - 1 < s.sessions.length := Nat.sub_lt (hm hmade) Nat.one_pos
    obtain ⟨x, hx⟩ : ∃ x, s.sessions[s.sessions.length - 1]? = some x :=
      ⟨_, List.getElem?_eq_getElem hlt⟩
    have hsum := sum_map_modify (f := ({ · with thread := .activate }))
      (g := fun x : SessionWorker => x.thread.rank) hx
    rw [hp.fresh hmade x hx] at hsum
    have hsucc := StopPc.rank_succ s.workers.length (s.stops c)
    simp only [startStep, hpc] at h
    cases h
    simp only [rank, threadRank, hpc, StartPc.rank, modifySession, ThreadPc.rank, List.length_append,
      List.length_singleton] at hsum ⊢
    omega
  | workersUnlock =>
    simp only [startStep, hpc] at h
    cases h
    exact rank_start_lt (by simp [hpc, StartPc.rank]) c

/-- A step of `stop()` that leaves the threads where they are and registers nothing. -/
theorem rank_stop_lt {pc pc' : StopPc} (hpc : s.stops c = pc) (hpc' : s'.stops c = pc')
    (hstart : s'.start = s.start) (hthreads : s'.threadRank = s.threadRank) (hw : s'.workers = s.workers)
    (hlt : pc'.rank s.workers.length < pc.rank s.workers.length) : s'.rank c < s.rank c := by
  simp only [rank, hpc, hpc', hstart, hthreads, hw]
  omega

theorem stopStep_rank (h : s.stopStep c = some s') : s'.rank c < s.rank c := by
  cases hpc : s.stops c with
  | idle | returned won => simp [stopStep, hpc] at h
  | exchange | shutdown | close | workersLock | clearInstance | workersUnlock =>
    simp only [stopStep, hpc] at h
    (repeat' split at h) <;> cases h <;>
    · refine rank_stop_lt hpc (if_pos rfl) rfl rfl rfl ?_
      simp only [StopPc.rank]
      omega
  | session i =>
    simp only [stopStep, hpc] at h
    split at h
    · cases h
      refine rank_stop_lt hpc (if_pos rfl) rfl rfl rfl ?_
      simp only [StopPc.rank]
      omega
    rename_i w hw
    have hlt := (List.getElem?_eq_some_iff.1 hw).1
    split at h <;> cases h
    · refine rank_stop_lt hpc (if_pos rfl) rfl (threadRank_modify rfl fun _ => rfl) rfl ?_
      simp only [StopPc.rank]
      omega
    · refine rank_stop_lt hpc (if_pos rfl) rfl rfl rfl ?_
      simp only [StopPc.rank]
      omega
  | sessionShutdown i =>
    simp only [stopStep, hpc] at h
    cases h
    have hlt : StopPc.rank s.workers.length (.sessionClose i) <
        StopPc.rank s.workers.length (.sessionShutdown i) := Nat.lt_succ_self _
    cases s.workers[i]? with
    | none => exact rank_stop_lt hpc (if_pos rfl) rfl rfl rfl hlt
    | some w =>
      exact rank_stop_lt hpc (if_pos rfl) rfl (threadRank_modify (i := w) rfl fun _ => rfl) rfl hlt
  | sessionClose i =>
    simp only [stopStep, hpc] at h
    cases h
    exact rank_stop_lt hpc (if_pos rfl) rfl rfl rfl (Nat.lt_succ_self _)
  | join i =>
    simp only [stopStep, hpc] at h
    split at h
    · cases h
      refine rank_stop_lt hpc (if_pos rfl) rfl rfl rfl ?_
      simp only [StopPc.rank]
      omega
    rename_i w hw
    have hlt := (List.getElem?_eq_some_iff.1 hw).1
    split at h <;> cases h
    refine rank_stop_lt hpc (if_pos rfl) rfl (threadRank_modify rfl fun _ => rfl) rfl ?_
    simp only [StopPc.rank]
    omega
  | clear =>
    have hmono := StartPc.rank_mono (Nat.zero_le s.workers.length) s.start
    simp only [stopStep, hpc] at h
    cases h
    simp only [rank, setStop_stops, if_true, hpc, StopPc.rank, setStop_start, setStop_workers,
      List.length_nil, threadRank, setStop_sessions]
    omega

/-- What every reachable state keeps, for a call of `stop()` that has begun. -/
structure Stoppable (c : Nat) (s : Server) : Prop where
  consistent : Consistent s
  made : Made s
  responsive : Responsive s
  called : s.stops c ≠ .idle

/-- The call has returned, and `start()` too if the call is the one that did the shutdown. -/
def Stopped (c : Nat) (s : Server) : Prop :=
  ∃ won, s.stops c = .returned won ∧ (won = true → s.start = .returned true)

theorem step_called (h : s.step l = some s') (hs : s.stops c ≠ .idle) : s'.stops c ≠ .idle := by
  cases l with
  | start ok => rwa [(startStep_cases h).1]
  | session i o =>
    obtain ⟨x, x', -, rfl, -⟩ := sessionStep_cases h
    exact hs
  | stop c' =>
    by_cases hc : c = c'
    · subst hc
      simp only [step, stopStep] at h
      split at h <;> (repeat' split at h) <;> cases h <;> simp_all
    · rwa [(stopStep_cases h).2.2.2.1 c hc]
  | call c' | signal c' =>
    rcases callStep_cases (c := c') h (by simp) with rfl | ⟨-, rfl⟩
    · exact hs
    · by_cases hc : c = c' <;> simp [hc]
      simpa [hc] using hs

theorem step_stoppable (h : s.step l = some s') (hs : Stoppable c s) : Stoppable c s' :=
  ⟨step_consistent h hs.consistent, step_made h hs.made,
    step_responsive h hs.consistent hs.made hs.responsive, step_called h hs.called⟩

/-- Where no caller of `stop()` has the lock, the accept loop goes on or waits for a thread that retires. -/
theorem start_helps (hs : Stoppable c s) (hmutex : ∀ c', s.mutex ≠ some (.stop c'))
    (hstopped : s.start.locked = true ∨ s.isRunning = false) (hloop : s.start.starting = false)
    (hend : s.start ≠ .returned true) :
    ∃ l s', s.step l = some s' ∧ OwnStep c s l ∧ s'.rank c < s.rank c := by
  have hfree (hl : s.start.locked = false) : s.mutex = none := by
    cases hm : s.mutex with
    | none => rfl
    | some holder =>
      cases holder with
      | accept => simp [hs.consistent.locks.start.2 hm] at hl
      | stop c' => exact absurd hm (hmutex c')
  by_cases hjoin : ∃ k w, s.start = .cleanupJoin k ∧ s.RetiresAt w ∧ s.threadExited w = false
  · obtain ⟨k, w, -, hr, hex⟩ := hjoin
    exact thread_helps hr hex c
  obtain ⟨s', h⟩ : ∃ s', s.startStep false = some s' := by
    rw [← Option.isSome_iff_exists]
    cases hpc : s.start with
    | init | publish | handlers | createTcp | reuseAddress | bind | listen | setRunning =>
      simp [hpc, StartPc.starting] at hloop
    | returned ok => cases ok <;> simp_all [StartPc.starting]
    | cleanupLock | workersLock => simp [startStep, hpc, hfree (by rw [hpc]; rfl)]
    | cleanup k =>
      simp only [startStep, hpc]
      split <;> rfl
    | cleanupJoin k =>
      obtain ⟨w, hw, hr⟩ := hs.responsive.reaped k hpc
      have hex : s.threadExited w = true := by
        rw [← Bool.not_eq_false]
        exact fun hex => hjoin ⟨k, w, hpc, hr, hex⟩
      simp [startStep, hpc, hw, hex]
    | _ => simp [startStep, hpc]
  exact ⟨.start false, s', h, fun _ => rfl,
    startStep_rank h hs.consistent.pool hs.made (fun _ => rfl) hstopped hloop c⟩

theorem step_helps (hs : Stoppable c s) (hnot : ¬ Stopped c s) :
    ∃ l s', s.step l = some s' ∧ OwnStep c s l ∧ s'.rank c < s.rank c := by
  have hwon (c' : Nat) (hm : s.mutex = some (.stop c')) : (s.stops c').won = true := by
    have hl := (hs.consistent.locks.stop c').2 hm
    cases hpc : s.stops c' <;> simp_all [StopPc.locked, StopPc.won]
  have hself (h : (s.stopStep c).isSome = true) :
      ∃ l s', s.step l = some s' ∧ OwnStep c s l ∧ s'.rank c < s.rank c := by
    obtain ⟨s', h⟩ := Option.isSome_iff_exists.1 h
    exact ⟨.stop c, s', h, rfl, stopStep_rank h⟩
  have hmine (hc : (s.stops c).won = true) (hl : (s.stops c).locked = false) (c' : Nat) :
      s.mutex ≠ some (.stop c') := fun hm => by
    obtain rfl := hs.consistent.control.once c c' hc (hwon c' hm)
    rw [(hs.consistent.locks.stop c).2 hm] at hl
    cases hl
  cases hpc : s.stops c with
  | idle => exact absurd hpc hs.called
  | exchange =>
    cases hrun : s.isRunning with
    | true => exact hself (by simp [stopStep, hpc, hrun])
    | false => exact hself (by simp [stopStep, hpc, hrun])
  | shutdown | close | sessionShutdown i | sessionClose i | clear | clearInstance | workersUnlock =>
    exact hself (by simp [stopStep, hpc])
  | workersLock =>
    have hfree := hmine (by rw [hpc]; rfl) (by rw [hpc]; rfl)
    cases hm : s.mutex with
    | none => exact hself (by simp [stopStep, hpc, hm])
    | some holder =>
      cases holder with
      | stop c' => exact absurd hm (hfree c')
      | accept =>
        have hl := hs.consistent.locks.start.2 hm
        refine start_helps hs hfree (.inl hl) ?_ ?_
        · cases hst : s.start <;> simp_all [StartPc.locked, StartPc.starting]
        · rintro hst
          rw [hst] at hl
          cases hl
  | session i =>
    cases hw : s.workers[i]? with
    | none => exact hself (by simp [stopStep, hpc, hw])
    | some w =>
      cases ha : s.sessionActive w with
      | true => exact hself (by simp [stopStep, hpc, hw, ha])
      | false => exact hself (by simp [stopStep, hpc, hw, ha])
  | join i =>
    cases hw : s.workers[i]? with
    | none => exact hself (by simp [stopStep, hpc, hw])
    | some w =>
      cases hex : s.threadExited w with
      | true => exact hself (by simp [stopStep, hpc, hw, hex])
      | false =>
        have hswept : s.Sweeps (.join i) := hpc ▸ hs.responsive.swept c
        exact thread_helps (hswept w (List.mem_of_getElem? hw)) hex c
  | returned won =>
    have hend : ¬ (won = true → s.start = .returned true) := fun h => hnot ⟨won, hpc, h⟩
    obtain ⟨rfl, hstart⟩ := Classical.not_imp.1 hend
    have hc : (s.stops c).won = true := by rw [hpc]; rfl
    refine start_helps hs (hmine hc (by rw [hpc]; rfl)) (.inr (hs.consistent.control.won c hc)) ?_ hstart
    cases hst : s.start.starting with
    | false => rfl
    | true =>
      rw [(hs.consistent.control.starting hst).2 c] at hc
      cases hc

/-- From every reachable state a call of `stop()` that has begun, on a thread of its own, can return, and
`start()` after it, by steps of the server's own threads: no lock is held against it for ever, and no thread
that is joined waits for a client. -/
theorem stop_can_finish {ls : List Label} (h : exec step new ls = some s) (hcalled : s.stops c ≠ .idle) :
    ∃ ls' s', exec step s ls' = some s' ∧ Guarded step (OwnStep c) s ls' ∧ Stopped c s' := by
  have hstoppable : Stoppable c s := by
    obtain ⟨hc, hm, hr⟩ : Consistent s ∧ Made s ∧ Responsive s :=
      exec_invariant (G := fun _ _ => True) (I := fun s => Consistent s ∧ Made s ∧ Responsive s)
        (fun _ _ _ hi _ h => ⟨step_consistent h hi.1, step_made h hi.2.1,
          step_responsive h hi.1 hi.2.1 hi.2.2⟩) h
        (guarded_of_forall (P := fun _ => True) fun _ _ => trivial)
        ⟨consistent_new, by simp [Made, new, StartPc.made], responsive_new⟩
    exact ⟨hc, hm, hr, hcalled⟩
  obtain ⟨ls', s', hls, hg, -, hdone⟩ := exec_progress (G := OwnStep c) (D := Stopped c) (rank · c)
    (fun t ht hnot => by
      obtain ⟨l, t', hstep, hown, hlt⟩ := step_helps ht hnot
      exact ⟨l, t', hstep, hown, step_stoppable hstep ht, hlt⟩) hstoppable
  exact ⟨ls', s', hls, hg, hdone⟩

/-- One client is connected, the accept loop has the lock to register a second one, and `stop()` is called. -/
def calledUnderLock : List Label :=
  startUp ++ acceptClient ++ List.replicate 8 (.start true) ++ .call 0 :: List.replicate 3 (.stop 0)

theorem calledUnderLock_can_finish :
    (after calledUnderLock).mutex = some .accept ∧ (after calledUnderLock).stops 0 = .workersLock ∧
      ∃ ls s, exec step (after calledUnderLock) ls = some s ∧
        Guarded step (OwnStep 0) (after calledUnderLock) ls ∧ Stopped 0 s :=
  ⟨by decide +kernel, by decide +kernel,
    stop_can_finish (exec_after calledUnderLock (by decide +kernel))
      (show (after calledUnderLock).stops 0 ≠ .idle by decide +kernel)⟩

end Server
end Streamer

import Mathlib.Data.List.Nodup
import Streamer.Proofs.StopProgress

/-!
# The life of a session thread

What a run does to the `std::thread` of a session: it is started in `emplace_back`, its `run()` returns, it
is joined, and its object is destroyed, by `erase` or by `clear`. These events come in this order and each
of them once, however the calls of `stop()` fall (`threads_live_once`). So no thread is joined twice, and
neither `erase` nor `clear` destroys a `std::thread` that is joinable, which would end the process. The tests
of `joinable()` in the source never fail. `~Server` is no part of these runs: it destroys what is left in
`workers_`, and a thread in it can be joinable (`stopWhilePending_leaves_worker`).
-/

namespace Streamer
open Machine

inductive ThreadEvent where
  | started | exited | joined | destroyed
deriving DecidableEq, Repr

namespace ThreadEvent

def whole : List ThreadEvent := [.started, .exited, .joined, .destroyed]

/-- What is given out about session `i`. -/
def about (i : Nat) (e : Nat × ThreadEvent) : Option ThreadEvent := if e.1 = i then some e.2 else none

theorem about_map {ws : List Nat} (hnodup : ws.Nodup) (i : Nat) (e : ThreadEvent) :
    (ws.map (·, e)).filterMap (about i) = if i ∈ ws then [e] else [] := by
  induction ws with
  | nil => rfl
  | cons w ws ih =>
    obtain ⟨hw, hnodup⟩ := List.nodup_cons.1 hnodup
    rw [List.map_cons, List.filterMap_cons, ih hnodup]
    by_cases hi : w = i
    · subst hi
      simp [about, hw]
    · simp [about, hi, Ne.symm hi]

theorem about_single (i w : Nat) (es : List ThreadEvent) :
    (es.map (w, ·)).filterMap (about i) = if i = w then es else [] := by
  by_cases h : i = w
  · subst h
    simp [about, List.filterMap_map, Function.comp_def]
  · simp [about, List.filterMap_map, Function.comp_def, h, Ne.symm h]

end ThreadEvent

open ThreadEvent

/-- What the thread has behind it; `registered` tells whether it is in `workers_`. -/
def SessionWorker.life (x : SessionWorker) (registered : Bool) : List ThreadEvent :=
  if x.thread = .none then []
  else if x.thread ≠ .exited then [.started]
  else if !x.joined then [.started, .exited]
  else if registered then [.started, .exited, .joined]
  else whole

theorem SessionWorker.life_begins (x : SessionWorker) (registered : Bool) :
    x.life registered <+: whole := by
  unfold life whole
  repeat' split
  all_goals decide

namespace Server

variable {s s' : Server} {ok : Bool} {c i k w : Nat} {o : ServeOutcome} {l : Label} {ls : List Label}

/-- What a step does to the threads, each with the number of its session. A thread is destroyed by `erase` or
by `clear`. -/
def events (s : Server) : Label → List (Nat × ThreadEvent)
  | .start _ =>
    match s.start with
    | .emplace => [.started].map (s.sessions.length - 1, ·)
    | .cleanupJoin i =>
      match s.workers[i]? with
      | some w => [.joined, .destroyed].map (w, ·)
      | none => []
    | _ => []
  | .session i _ =>
    if (s.sessions[i]?.map (·.thread)) = some ThreadPc.close then [.exited].map (i, ·) else []
  | .stop c =>
    match s.stops c with
    | .join i =>
      match s.workers[i]? with
      | some w => [.joined].map (w, ·)
      | none => []
    | .clear => s.workers.map (·, .destroyed)
    | _ => []
  | .call _ | .signal _ => []

def life (s : Server) (i : Nat) : List ThreadEvent :=
  match s.sessions[i]? with
  | none => []
  | some x => x.life (decide (i ∈ s.workers))

theorem life_begins (s : Server) (i : Nat) : s.life i <+: whole := by
  unfold life
  split
  · exact List.nil_prefix
  · exact SessionWorker.life_begins _ _

theorem life_some {x : SessionWorker} (hx : s.sessions[i]? = some x) :
    s.life i = x.life (decide (i ∈ s.workers)) := by
  simp only [life, hx]

theorem life_congr (hx : s'.sessions[i]? = s.sessions[i]?) (hw : i ∈ s'.workers ↔ i ∈ s.workers) :
    s'.life i = s.life i := by
  simp only [life, hx, hw]

/-- A session that a step changes elsewhere than in its thread keeps its life. -/
theorem life_modify {f : SessionWorker → SessionWorker} (hse : s'.sessions = s.sessions.modify k f)
    (hw : s'.workers = s.workers) (hf : ∀ x, (f x).thread = x.thread ∧ (f x).joined = x.joined) :
    s'.life i = s.life i := by
  by_cases hi : k = i
  · subst hi
    cases hx : s.sessions[k]? with
    | none => exact life_congr (by simp [hse, hx]) (by rw [hw])
    | some x =>
      rw [life_some hx, life_some (x := f x) (by simp [hse, hx]), hw]
      simp only [SessionWorker.life, hf x]
  · exact life_congr (by simp [hse, hi]) (by rw [hw])

/-! ### `workers_` -/

/-- Every thread in `workers_` is there once, and is joined only while `stop()` is at it. -/
structure Registry (s : Server) : Prop where
  nodup : s.workers.Nodup
  unjoined : ∀ (j w : Nat), s.workers[j]? = some w → s.JoinedAt w →
    ∃ c, s.stops c = .clear ∨ ∃ k, s.stops c = .join k ∧ j < k

theorem registry_new : Registry new := by
  constructor <;> simp [new]

theorem joinedAt_of_modify {f : SessionWorker → SessionWorker} (hse : s'.sessions = s.sessions.modify k f)
    (hf : w = k → ∀ x, (f x).joined = x.joined) (hj : s'.JoinedAt w) : s.JoinedAt w := by
  obtain ⟨x', hx', hjoined⟩ := hj
  rw [hse] at hx'
  obtain ⟨x, hx, ⟨hk, rfl⟩ | ⟨-, rfl⟩⟩ := sessions_modify hx'
  · exact ⟨x, hx, by rwa [hf hk] at hjoined⟩
  · exact ⟨x', hx, hjoined⟩

/-- The accept loop finds no joined thread when it has the lock. -/
theorem Registry.start_unjoined (hs : Registry s) (hl : Locks s) (hlocked : s.start.locked = true)
    (hw : w ∈ s.workers) : ¬ s.JoinedAt w := by
  intro hj
  obtain ⟨j, hget⟩ := List.getElem?_of_mem hw
  obtain ⟨c, hpc⟩ := hs.unjoined j w hget hj
  have hout := hl.start_alone hlocked c
  rcases hpc with hpc | ⟨k, hpc, -⟩
  · simp [hpc, StopPc.locked] at hout
  · simp [hpc, StopPc.locked] at hout

/-- A caller of `stop()` finds the thread that it comes to not joined. -/
theorem Registry.stop_unjoined (hs : Registry s) (hl : Locks s) (hpc : s.stops c = .join k)
    (hw : s.workers[k]? = some w) : ¬ s.JoinedAt w := by
  intro hj
  obtain ⟨c', hpc'⟩ := hs.unjoined k w hw hj
  by_cases hc : c' = c
  · simp [hc, hpc] at hpc'
  · have hout := (hl.alone (c := c) (by rw [hpc]; rfl)).2 c' hc
    rcases hpc' with hpc' | ⟨k', hpc', -⟩
    · simp [hpc', StopPc.locked] at hout
    · simp [hpc', StopPc.locked] at hout

/-- The session that the accept loop is about to register is new to `workers_`. -/
theorem last_notMem (hp : Pool s) (hr : Responsive s) (hmade : s.start.made = true) :
    s.sessions.length - 1 ∉ s.workers := by
  intro hmem
  obtain ⟨x, hx, hthread⟩ := hr.registered _ hmem
  exact hthread (hp.fresh hmade x hx)

theorem mem_erased (hs : Registry s) (hk : s.workers[k]? = some w) :
    i ∈ s.workers.eraseIdx k ↔ i ∈ s.workers ∧ i ≠ w := by
  rw [List.mem_eraseIdx_iff_getElem?]
  constructor
  · rintro ⟨j, hjk, hj⟩
    refine ⟨List.mem_of_getElem? hj, ?_⟩
    rintro rfl
    obtain ⟨hlt, hi⟩ := List.getElem?_eq_some_iff.1 hj
    obtain ⟨hlt', hi'⟩ := List.getElem?_eq_some_iff.1 hk
    exact hjk (hs.nodup.getElem_inj_iff.1 (hi.trans hi'.symm))
  · rintro ⟨hmem, hne⟩
    obtain ⟨j, hj⟩ := List.getElem?_of_mem hmem
    refine ⟨j, ?_, hj⟩
    rintro rfl
    exact hne (Option.some.inj (hj.symm.trans hk))

theorem startStep_registry (h : s.startStep ok = some s') (hc : Consistent s) (hr : Responsive s)
    (hs : Registry s) : Registry s' := by
  obtain ⟨hstops, -⟩ := startStep_cases h
  rcases startStep_pool_cases h with
    ⟨hse, hw, -⟩ | ⟨-, -, hse, hw⟩ | ⟨k, w, hpc, -, hk, -, hse, hw⟩ | ⟨hpc, -, hse, hw⟩
  · refine ⟨hw ▸ hs.nodup, ?_⟩
    rw [hw, hstops]
    simpa only [JoinedAt, hse] using hs.unjoined
  · refine ⟨hw ▸ hs.nodup, ?_⟩
    intro j w hj hjoined
    rw [hw] at hj
    obtain ⟨x, hx, -⟩ := hr.registered w (List.mem_of_getElem? hj)
    rw [hstops]
    refine hs.unjoined j w hj ?_
    rwa [JoinedAt, hse, List.getElem?_append_left (List.getElem?_eq_some_iff.1 hx).1] at hjoined
  · -- the joined thread is erased, and no other was joined
    refine ⟨hw ▸ hs.nodup.eraseIdx k, ?_⟩
    intro j w' hj hjoined
    rw [hw] at hj
    obtain ⟨hmem, hne⟩ := (mem_erased hs hk).1 (List.mem_of_getElem? hj)
    have hjoined₀ := joinedAt_of_modify hse (fun heq => absurd heq hne) hjoined
    exact absurd hjoined₀ (hs.start_unjoined hc.locks (by rw [hpc]; rfl) hmem)
  · have hmade : s.start.made = true := by rw [hpc]; rfl
    refine ⟨?_, ?_⟩
    · rw [hw, List.nodup_append]
      refine ⟨hs.nodup, List.nodup_singleton _, ?_⟩
      intro a ha b hb
      rw [List.mem_singleton.1 hb]
      rintro rfl
      exact last_notMem hc.pool hr hmade ha
    · intro j w hj hjoined
      have hjoined₀ : s.JoinedAt w := joinedAt_of_modify hse (fun _ _ => rfl) hjoined
      have hmem := List.mem_of_getElem? hj
      rw [hw, List.mem_append, List.mem_singleton] at hmem
      rcases hmem with hmem | rfl
      · exact absurd hjoined₀ (hs.start_unjoined hc.locks (by rw [hpc]; rfl) hmem)
      · obtain ⟨x, hx, hj⟩ := hjoined₀
        have hex := hc.pool.exited _ x hx hj
        rw [hc.pool.fresh hmade x hx] at hex
        cases hex

/-- A step of `stop()` joins one thread, destroys all of them, or leaves every thread as it is. -/
theorem stopStep_thread_cases (h : s.stopStep c = some s') :
    (∃ k w, s.stops c = .join k ∧ s.workers[k]? = some w ∧ s.threadExited w = true ∧
      s'.stops c = .join (k + 1) ∧ s'.sessions = s.sessions.modify w ({ · with joined := true }) ∧
      s'.workers = s.workers) ∨
    (s.stops c = .clear ∧ s'.sessions = s.sessions ∧ s'.workers = []) ∨
    ((∀ k, s.stops c = .join k → s.workers[k]? = none ∧ s'.stops c = .clear) ∧ s.stops c ≠ .clear ∧
      s'.workers = s.workers ∧ ∃ w f, s'.sessions = s.sessions.modify w f ∧
        ∀ x : SessionWorker, (f x).thread = x.thread ∧ (f x).joined = x.joined) := by
  have hsame {t : List SessionWorker} : ∃ w f, t = t.modify w f ∧
      ∀ x : SessionWorker, (f x).thread = x.thread ∧ (f x).joined = x.joined :=
    ⟨0, id, (List.modify_id 0 t).symm, fun _ => ⟨rfl, rfl⟩⟩
  cases hpc : s.stops c with
  | idle | returned won => simp [stopStep, hpc] at h
  | join k =>
    simp only [stopStep, hpc] at h
    split at h
    · cases h
      exact .inr (.inr ⟨by simp_all, by simp, rfl, hsame⟩)
    · rename_i w hw
      split at h <;> cases h
      exact .inl ⟨k, w, rfl, hw, ‹_›, by simp, rfl, rfl⟩
  | clear =>
    simp only [stopStep, hpc] at h
    cases h
    exact .inr (.inl ⟨rfl, rfl, rfl⟩)
  | session k =>
    simp only [stopStep, hpc] at h
    (repeat' split at h) <;> cases h
    · exact .inr (.inr ⟨by simp, by simp, rfl, hsame⟩)
    · exact .inr (.inr ⟨by simp, by simp, rfl, _, _, rfl, fun _ => ⟨rfl, rfl⟩⟩)
    · exact .inr (.inr ⟨by simp, by simp, rfl, hsame⟩)
  | sessionShutdown k =>
    simp only [stopStep, hpc] at h
    cases h
    refine .inr (.inr ⟨by simp, by simp, ?_⟩)
    cases s.workers[k]? with
    | none => exact ⟨rfl, hsame⟩
    | some w => exact ⟨rfl, _, _, rfl, fun _ => ⟨rfl, rfl⟩⟩
  | _ =>
    simp only [stopStep, hpc] at h
    (repeat' split at h) <;> cases h <;> exact .inr (.inr ⟨by simp, by simp, rfl, hsame⟩)

theorem stopStep_registry (h : s.stopStep c = some s') (hl : Locks s) (hs : Registry s) :
    Registry s' := by
  obtain ⟨-, -, -, hother, -⟩ := stopStep_cases h
  rcases stopStep_thread_cases h with
    ⟨k, w, hpc, hk, -, hpc', hse, hw⟩ | ⟨-, -, hw⟩ | ⟨hjoin, hclear, hw, w, f, hse, hf⟩
  · refine ⟨hw ▸ hs.nodup, ?_⟩
    intro j w' hj hjoined
    refine ⟨c, .inr ⟨k + 1, hpc', ?_⟩⟩
    rw [hw] at hj
    by_cases hne : w' = w
    · -- the thread just joined stands at `k` and nowhere else
      subst hne
      obtain ⟨hlt, hi⟩ := List.getElem?_eq_some_iff.1 hj
      obtain ⟨hlt', hi'⟩ := List.getElem?_eq_some_iff.1 hk
      have := hs.nodup.getElem_inj_iff.1 (hi.trans hi'.symm)
      omega
    · have hjoined₀ := joinedAt_of_modify hse (fun heq => absurd heq hne) hjoined
      obtain ⟨c', hpc''⟩ := hs.unjoined j w' hj hjoined₀
      by_cases hc : c' = c
      · simp only [hc, hpc] at hpc''
        rcases hpc'' with hpc'' | ⟨k', hk', hlt⟩
        · cases hpc''
        · cases hk'
          omega
      · have hout := (hl.alone (c := c) (by rw [hpc]; rfl)).2 c' hc
        rcases hpc'' with hpc'' | ⟨k', hpc'', -⟩
        · simp [hpc'', StopPc.locked] at hout
        · simp [hpc'', StopPc.locked] at hout
  · exact ⟨hw ▸ List.nodup_nil, by simp [hw]⟩
  · refine ⟨hw ▸ hs.nodup, ?_⟩
    intro j w' hj hjoined
    rw [hw] at hj
    obtain ⟨c', hpc⟩ := hs.unjoined j w' hj (joinedAt_of_modify hse (fun _ x => (hf x).2) hjoined)
    by_cases hc : c' = c
    · rw [hc] at hpc
      obtain ⟨k, hk, -⟩ := hpc.resolve_left hclear
      exact ⟨c, .inl (hjoin k hk).2⟩
    · exact ⟨c', by rwa [hother c' hc]⟩

theorem step_registry (h : s.step l = some s') (hc : Consistent s) (hr : Responsive s)
    (hs : Registry s) : Registry s' := by
  cases l with
  | start ok => exact startStep_registry h hc hr hs
  | stop c => exact stopStep_registry h hc.locks hs
  | session i o =>
    obtain ⟨x, x', hx, rfl, hjoin, -⟩ := sessionStep_cases h
    refine ⟨hs.nodup, ?_⟩
    intro j w hj hjoined
    refine hs.unjoined j w hj ?_
    obtain ⟨y', hy', hjoined⟩ := hjoined
    obtain ⟨y, hy, ⟨rfl, rfl⟩ | ⟨-, rfl⟩⟩ := sessions_modify hy'
    · exact ⟨x, hx, by rw [← hjoin, hjoined]⟩
    · exact ⟨y', hy, hjoined⟩
  | call c | signal c =>
    rcases callStep_cases (c := c) h (by simp) with rfl | ⟨hidle, rfl⟩
    · exact hs
    · refine ⟨hs.nodup, ?_⟩
      intro j w hj hjoined
      obtain ⟨c', hpc⟩ := hs.unjoined j w hj hjoined
      refine ⟨c', ?_⟩
      have hne : c' ≠ c := by
        rintro rfl
        simp [hidle] at hpc
      simpa [hne] using hpc

/-! ### What a step adds to a life -/

theorem serveStep_thread {x x' : SessionWorker} (h : serveStep x o = some x') :
    x.thread ≠ .none ∧ x.thread ≠ .exited ∧ x'.thread ≠ .none ∧
      (x'.thread = .exited ↔ x.thread = .close) := by
  unfold serveStep at h
  split at h <;> (repeat' split at h) <;> cases h <;> simp_all

theorem sessionStep_life (h : s.step (.session k o) = some s') (hp : Pool s) (i : Nat) :
    s'.life i = s.life i ++ (events s (.session k o)).filterMap (about i) := by
  simp only [step, Option.map_eq_some_iff, Option.bind_eq_some_iff] at h
  obtain ⟨x', ⟨x, hx, hstep⟩, rfl⟩ := h
  obtain ⟨hnone, hex, hnone', hiff⟩ := serveStep_thread hstep
  have hevents : events s (.session k o) = (if x.thread = .close then [.exited] else []).map (k, ·) := by
    simp only [events, hx, Option.map_some, Option.some.injEq]
    split <;> rfl
  rw [hevents, about_single]
  by_cases hi : i = k
  · subst hi
    have hx' : (s.modifySession i fun _ => x').sessions[i]? = some x' := by simp [modifySession, hx]
    have hjoined : x.joined = false := by
      simpa using mt (hp.exited i x hx) hex
    have hjoined' : x'.joined = false := by
      unfold serveStep at hstep
      split at hstep <;> (repeat' split at hstep) <;> cases hstep <;> exact hjoined
    rw [life_some hx, life_some hx']
    by_cases hclose : x.thread = .close
    · simp [SessionWorker.life, hclose, hiff.2 hclose, hjoined']
    · simp [SessionWorker.life, hclose, hnone, hnone', hex, mt hiff.1 hclose]
  · rw [if_neg hi, List.append_nil]
    exact life_congr (by simp [modifySession, Ne.symm hi]) .rfl

theorem startStep_life (h : s.startStep ok = some s') (hc : Consistent s) (hm : Made s)
    (hr : Responsive s) (hs : Registry s) (i : Nat) :
    s'.life i = s.life i ++ (events s (.start ok)).filterMap (about i) := by
  cases hpc : s.start with
  | makeSession =>
    simp only [startStep, hpc] at h
    cases h
    simp only [events, hpc, List.filterMap_nil, List.append_nil]
    rcases Nat.lt_trichotomy i s.sessions.length with hlt | rfl | hgt
    · exact life_congr (List.getElem?_append_left hlt) .rfl
    · simp [life, SessionWorker.life]
    · refine life_congr ?_ .rfl
      rw [List.getElem?_eq_none (Nat.le_of_lt hgt),
        List.getElem?_eq_none (by simpa using Nat.succ_le_of_lt hgt)]
  | cleanupJoin k =>
    simp only [startStep, hpc] at h
    split at h
    · cases h
    rename_i w hk
    split at h <;> cases h
    rename_i hex
    obtain ⟨x, hx, hthread⟩ := threadExited_iff.1 hex
    have hmem := List.mem_of_getElem? hk
    have hjoined : x.joined = false := by
      have := hs.start_unjoined hc.locks (by rw [hpc]; rfl) hmem
      simpa using fun hj => this ⟨x, hx, hj⟩
    simp only [events, hpc, hk, about_single]
    by_cases hi : i = w
    · subst hi
      have hout : i ∉ s.workers.eraseIdx k := fun h => ((mem_erased hs hk).1 h).2 rfl
      rw [life_some hx, life_some (x := { x with joined := true }) (by simp [modifySession, hx])]
      simp [SessionWorker.life, hthread, hjoined, hout, whole]
    · rw [if_neg hi, List.append_nil]
      exact life_congr (by simp [modifySession, Ne.symm hi]) ((mem_erased hs hk).trans (and_iff_left hi))
  | emplace =>
    have hmade : s.start.made = true := by rw [hpc]; rfl
    have hnew := last_notMem hc.pool hr hmade
    simp only [startStep, hpc] at h
    cases h
    simp only [events, hpc, about_single]
    by_cases hi : i = s.sessions.length - 1
    · rw [if_pos hi, ← hi]
      have hlt : i < s.sessions.length := hi ▸ Nat.sub_lt (hm hmade) Nat.one_pos
      obtain ⟨x, hx⟩ : ∃ x, s.sessions[i]? = some x := ⟨_, List.getElem?_eq_getElem hlt⟩
      have hthread := hc.pool.fresh hmade x (hi ▸ hx)
      rw [life_some hx, life_some (x := { x with thread := .activate }) (by simp [modifySession, hx])]
      simp [SessionWorker.life, hthread]
    · rw [if_neg hi, List.append_nil]
      exact life_congr (by simp [modifySession, Ne.symm hi]) (by simp [hi])
  | _ =>
    have hevents : events s (.start ok) = [] := by simp only [events, hpc]
    rw [hevents, List.filterMap_nil, List.append_nil]
    rcases startStep_pool_cases h with ⟨hse, hw, -⟩ | ⟨hpc', -⟩ | ⟨k, w, hpc', -⟩ | ⟨hpc', -⟩
    · exact life_congr (by rw [hse]) (by rw [hw])
    all_goals simp [hpc] at hpc'

theorem stopStep_life (h : s.stopStep c = some s') (hc : Consistent s) (hs : Registry s) (i : Nat) :
    s'.life i = s.life i ++ (events s (.stop c)).filterMap (about i) := by
  rcases stopStep_thread_cases h with
    ⟨k, w, hpc, hk, hex, hpc', hse, hw⟩ | ⟨hpc, hse, hw⟩ | ⟨hjoin, hclear, hw, w, f, hse, hf⟩
  · obtain ⟨x, hx, hthread⟩ := threadExited_iff.1 hex
    have hjoined : x.joined = false := by
      have := hs.stop_unjoined hc.locks hpc hk
      simpa using fun hj => this ⟨x, hx, hj⟩
    simp only [events, hpc, hk, about_single]
    by_cases hi : i = w
    · subst hi
      have hmem := List.mem_of_getElem? hk
      rw [life_some hx, life_some (x := { x with joined := true }) (by simp [hse, hx]), hw]
      simp [SessionWorker.life, hthread, hjoined, hmem]
    · rw [if_neg hi, List.append_nil]
      exact life_congr (by simp [hse, Ne.symm hi]) (by rw [hw])
  · simp only [events, hpc, about_map hs.nodup]
    split
    · rename_i hmem
      obtain ⟨x, hx, hjoined⟩ : s.JoinedAt i := by
        have := hc.pool.progress c
        rw [hpc] at this
        exact this i hmem
      have hthread := hc.pool.exited i x hx hjoined
      rw [life_some hx, life_some (x := x) (by rw [hse, hx])]
      simp [SessionWorker.life, hthread, hjoined, hmem, hw, whole]
    · rename_i hmem
      rw [List.append_nil]
      exact life_congr (by rw [hse]) (by simp [hw, hmem])
  · have hevents : events s (.stop c) = [] := by
      cases hpc : s.stops c with
      | join k => simp [events, hpc, (hjoin k hpc).1]
      | clear => exact absurd hpc hclear
      | _ => simp only [events, hpc]
    rw [hevents, List.filterMap_nil, List.append_nil]
    exact life_modify hse hw hf

/-! ### Whole runs -/

/-- What every reachable state keeps. -/
structure Tracked (s : Server) : Prop where
  consistent : Consistent s
  made : Made s
  responsive : Responsive s
  registry : Registry s

theorem step_tracked (h : s.step l = some s') (hs : Tracked s) : Tracked s' :=
  ⟨step_consistent h hs.consistent, step_made h hs.made,
    step_responsive h hs.consistent hs.made hs.responsive,
    step_registry h hs.consistent hs.responsive hs.registry⟩

theorem tracked_new : Tracked new :=
  ⟨consistent_new, by simp [Made, new, StartPc.made], responsive_new, registry_new⟩

theorem step_life (h : s.step l = some s') (hs : Tracked s) (i : Nat) :
    s'.life i = s.life i ++ (events s l).filterMap (about i) := by
  cases l with
  | start ok => exact startStep_life h hs.consistent hs.made hs.responsive hs.registry i
  | stop c => exact stopStep_life h hs.consistent hs.registry i
  | session k o => exact sessionStep_life h hs.consistent.pool i
  | call c | signal c =>
    rw [events, List.filterMap_nil, List.append_nil]
    rcases callStep_cases (c := c) h (by simp) with rfl | ⟨-, rfl⟩
    · rfl
    · rfl

/-- What a run has done to the thread of a session is what its state says. -/
theorem trace_life (h : exec step new ls = some s) (i : Nat) :
    Tracked s ∧ s.life i = (trace step events new ls).filterMap (about i) :=
  trace_eq (I := Tracked) (R := (life · i))
    (fun _ _ _ hi h => ⟨step_tracked h hi, step_life h hi i⟩) h tracked_new

/-- In every run, with any number of calls of `stop()`, the thread of a session is started, exits, is joined
and is destroyed (by `erase` or `clear`) in this order, each of them at most once; and all of it has happened
to a session that is not in `workers_`, unless the accept loop is still about to register it. -/
theorem threads_live_once (h : exec step new ls = some s) (i : Nat) :
    (trace step events new ls).filterMap (about i) <+: whole ∧
      (i < s.sessions.length → i ∉ s.workers → s.start.made = false →
        (trace step events new ls).filterMap (about i) = whole) := by
  obtain ⟨hs, hlife⟩ := trace_life h i
  rw [← hlife]
  refine ⟨s.life_begins i, ?_⟩
  intro hlt hout hmade
  obtain ⟨x, hx⟩ : ∃ x, s.sessions[i]? = some x := ⟨_, List.getElem?_eq_getElem hlt⟩
  have hthread : x.thread ≠ .none := fun hnone => by
    have := (hs.consistent.pool.unstarted i x hx hnone).1
    simp [hmade] at this
  have hjoined : x.joined = true := by
    simpa [hout] using mt (hs.consistent.pool.registered i x hx hthread)
  have hexited := hs.consistent.pool.exited i x hx hjoined
  rw [life_some hx]
  simp [SessionWorker.life, hexited, hjoined, hout]

theorem stopIdle_lives : (trace step events new stopIdle).filterMap (about 0) = whole :=
  (threads_live_once (s := after stopIdle) (exec_after stopIdle (by decide +kernel)) 0).2
    (by decide +kernel) (by decide +kernel) (by decide +kernel)

end Server
end Streamer

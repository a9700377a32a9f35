import Streamer.Process
import Streamer.Proofs.ServerInvariants

/-!
# Which server a signal reaches

The pointer `running_instance_` is right after every operation exactly in the runs where no `start()`
fails after it has stored the pointer and no server is stopped while another one runs. The steps of
`Process` are those of `Server` taken together (`start_represents`, `stop_represents`).
-/

namespace Streamer
open Machine

/-! ### The calls of one server -/

namespace Server
variable {s s' : Server} {c : Nat}

/-- The steps of a `start()` with this outcome. -/
def startLabels : StartOutcome → List Label
  | .initFails => [.start false]
  | .socketFails => [.start true, .start true, .start true, .start false]
  | .bindFails => [.start true, .start true, .start true, .start true, .start true, .start false]
  | .listenFails =>
      [.start true, .start true, .start true, .start true, .start true, .start true, .start false]
  | .runs => [.start true, .start true, .start true, .start true, .start true, .start true,
      .start true, .start true]

theorem start_effect (h : s.start = .init) (o : StartOutcome) :
    ∃ s', exec step s (startLabels o) = some s' ∧
      s'.start = (if o = .runs then .loopTest else .returned false) ∧
      s'.isRunning = (if o = .runs then true else s.isRunning) ∧
      s'.runningInstance = (if o = .initFails then s.runningInstance else true) := by
  cases o <;> simp [startLabels, exec, step, startStep, h]

/-- The call `c` on its way, from `s₀`: what it has done to the two flags so far. -/
structure Underway (s₀ : Server) (c : Nat) (s : Server) : Prop where
  begun : s.stops c ≠ .idle
  before : (s.stops c).won = false → s.isRunning = s₀.isRunning ∧ s.runningInstance = s₀.runningInstance
  lost : s.stops c = .returned false → s₀.isRunning = false
  after : (s.stops c).won = true → s₀.isRunning = true ∧ s.isRunning = false
  released : (s.stops c).released = true → s.runningInstance = false

theorem stopStep_underway {s₀ : Server} (h : s.stopStep c = some s') (hs : Underway s₀ c s) :
    Underway s₀ c s' := by
  obtain ⟨hbegun, hbefore, hlost, hafter, hrel⟩ := hs
  unfold stopStep at h
  split at h <;> (repeat' split at h) <;> cases h <;>
    constructor <;> simp_all [StopPc.won, StopPc.released, modifySession, setStop]

/-- A `stop()` that is left alone with the session threads until it returns. -/
theorem stop_effect {ls : List Label} (hc : s.stops c = .exchange)
    (hls : ∀ l ∈ ls, l = .stop c ∨ ∃ i o, l = .session i o) (h : exec step s ls = some s') {won : Bool}
    (hret : s'.stops c = .returned won) :
    s'.isRunning = false ∧ s'.runningInstance = (if s.isRunning then false else s.runningInstance) := by
  have hbegin : Underway s c s :=
    ⟨by simp [hc], fun _ => ⟨rfl, rfl⟩, by simp [hc], by simp [hc, StopPc.won], by simp [hc, StopPc.released]⟩
  obtain ⟨-, hbefore, hlost, hafter, hrel⟩ : Underway s c s' := by
    refine exec_invariant ?_ h (guarded_of_forall hls) hbegin
    rintro t l t' ht (rfl | ⟨i, o, rfl⟩) hstep
    · exact stopStep_underway hstep ht
    · obtain ⟨x, x', -, rfl, -⟩ := sessionStep_cases hstep
      exact ⟨ht.begun, ht.before, ht.lost, ht.after, ht.released⟩
  cases won with
  | false => simp_all [StopPc.won]
  | true => simp_all [StopPc.won, StopPc.released]

end Server

namespace Process
variable {p p' : Process} {i : Nat} {op : Operation}

/-- `s` is the server `i` of the process. -/
structure Represents (p : Process) (i : Nat) (s : Server) : Prop where
  alive : p.alive i = true
  running : s.isRunning = p.running i
  instance_eq : s.runningInstance = (p.runningInstance == some i)

section Effects
variable (p : Process) (i j : Nat) (o : StartOutcome)

theorem modify_running (f : ServerObject → ServerObject) (inst : Option Nat) :
    running ⟨p.servers.modify i f, inst⟩ j =
      if i = j then (p.servers[j]?.map fun x => (f x).isRunning).getD false else p.running j := by
  simp only [running, List.getElem?_modify]
  split <;> cases p.servers[j]? <;> simp

theorem modify_alive (f : ServerObject → ServerObject) (inst : Option Nat) :
    alive ⟨p.servers.modify i f, inst⟩ j =
      if i = j then (p.servers[j]?.map fun x => (f x).alive).getD false else p.alive j := by
  simp only [alive, List.getElem?_modify]
  split <;> cases p.servers[j]? <;> simp

theorem start_alive : (p.start i o).alive j = p.alive j := by
  cases o with
  | runs =>
    rw [start, modify_alive]
    split <;> rfl
  | _ => rfl

theorem start_running (h : p.alive i = true) :
    (p.start i o).running j = (p.running j || (decide (i = j) && decide (o = .runs))) := by
  cases o with
  | runs =>
    rw [start, modify_running]
    split
    · rename_i hij
      subst hij
      revert h
      unfold alive
      cases p.servers[i]? <;> simp
    · rename_i hij
      simp [hij]
  | _ => simp [start, running]

theorem stop_alive : (p.stop i).alive j = p.alive j := by
  unfold stop
  split
  · rw [modify_alive]
    split <;> rfl
  · rfl

theorem stop_running : (p.stop i).running j = (p.running j && !decide (i = j)) := by
  unfold stop
  split
  · rw [modify_running]
    split
    · rename_i hij
      simp only [hij, decide_true, Bool.not_true, Bool.and_false]
      cases p.servers[j]? <;> simp
    · rename_i hij
      simp [hij]
  · rename_i hrun
    by_cases hij : i = j
    · subst hij
      simpa using hrun
    · simp [hij]

theorem stop_instance : (p.stop i).runningInstance = if p.running i then none else p.runningInstance := by
  unfold stop
  split <;> rfl

theorem destroy_alive : (p.destroy i).alive j = (p.alive j && !decide (i = j)) := by
  rw [destroy, modify_alive, stop_alive]
  split
  · rename_i hij
    simp only [hij, decide_true, Bool.not_true, Bool.and_false]
    cases (p.stop j).servers[j]? <;> simp
  · rename_i hij
    simp [hij]

theorem destroy_running : (p.destroy i).running j = (p.running j && !decide (i = j)) := by
  rw [destroy, modify_running, ← stop_running]
  split <;> rfl

end Effects

theorem start_represents {s : Server} (h : Represents p i s) (hi : s.start = .init) (o : StartOutcome) :
    ∃ s', exec Server.step s (Server.startLabels o) = some s' ∧ Represents (p.start i o) i s' := by
  obtain ⟨s', hexec, -, hrun, hinst⟩ := Server.start_effect hi o
  refine ⟨s', hexec, by rw [start_alive]; exact h.alive, ?_, ?_⟩
  · rw [start_running p i i o h.alive, hrun, h.running]
    cases o <;> simp
  · rw [hinst, h.instance_eq]
    cases o <;> simp [start]

theorem stop_represents {s s' : Server} {c : Nat} {ls : List Label} {won : Bool} (h : Represents p i s)
    (hc : s.stops c = .exchange) (hls : ∀ l ∈ ls, l = .stop c ∨ ∃ i o, l = .session i o)
    (hexec : exec Server.step s ls = some s') (hret : s'.stops c = .returned won) :
    Represents (p.stop i) i s' := by
  obtain ⟨hrun, hinst⟩ := Server.stop_effect hc hls hexec hret
  refine ⟨by rw [stop_alive]; exact h.alive, by rw [hrun, stop_running]; simp, ?_⟩
  rw [hinst, stop_instance, h.running, h.instance_eq]
  split <;> simp

/-! ### The pointer -/

/-- The pointer is null or leads to a server that runs, and it is not null while one runs. -/
structure Targeted (p : Process) : Prop where
  target : ∀ i, p.runningInstance = some i → p.alive i = true ∧ p.running i = true
  reaches : ∀ i, p.running i = true → p.runningInstance ≠ none

/-- An operation that ends as it should: the pointer is right after it, a `start()` that returns
false has left it alone, and a signal does not go to an object that is no more, but to a running
one if there is any. -/
structure Keeps (p : Process) (op : Operation) (p' : Process) : Prop where
  targeted : p'.Targeted
  failed : ∀ i o, op = .start i o → o ≠ .runs → p'.runningInstance = p.runningInstance
  signal : p'.handleSignal ≠ .dangling
  signal_running : ∀ i, p'.running i = true → ∃ j, p'.handleSignal = .stops j ∧ p'.running j = true

/-- Where an operation does no harm: a `start()` that fails after it has stored the pointer must
find it stored already, and a running server may be stopped or destroyed when it is the only one.
-/
def Allowed (p : Process) : Operation → Prop
  | .construct => True
  | .start i o => o.failsLate = true → p.runningInstance = some i
  | .stop i | .destroy i => p.running i = true → ∀ j, p.running j = true → j = i

theorem Targeted.keeps (h : p'.Targeted)
    (hfailed : ∀ i o, op = .start i o → o ≠ .runs → p'.runningInstance = p.runningInstance) :
    Keeps p op p' := by
  refine ⟨h, hfailed, ?_, ?_⟩
  · unfold handleSignal
    split
    · simp
    · rename_i i hi
      simp [(h.target i hi).1]
  · intro i hi
    obtain ⟨j, hj⟩ := Option.ne_none_iff_exists'.1 (h.reaches i hi)
    obtain ⟨hal, hrun⟩ := h.target j hj
    exact ⟨j, by simp [handleSignal, hj, hal], hrun⟩

/-- A server that runs is alive: the destructor stops it. -/
structure Sound (p : Process) : Prop extends Targeted p where
  living : ∀ i, p.running i = true → p.alive i = true

theorem construct_running (j : Nat) :
    running { p with servers := p.servers ++ [{}] } j = p.running j := by
  simp only [running]
  rcases Nat.lt_trichotomy j p.servers.length with hlt | rfl | hgt
  · rw [List.getElem?_append_left hlt]
  · simp
  · simp [List.getElem?_append_right (Nat.le_of_lt hgt), List.getElem?_eq_none (Nat.le_of_lt hgt),
      List.getElem?_eq_none (show [({} : ServerObject)].length ≤ j - p.servers.length by simp; omega)]

theorem construct_alive {j : Nat} (h : p.alive j = true) :
    alive { p with servers := p.servers ++ [{}] } j = true := by
  have hlt : j < p.servers.length := by
    refine Nat.lt_of_not_le ?_
    intro hge
    simp [alive, List.getElem?_eq_none hge] at h
  simpa only [alive, List.getElem?_append_left hlt] using h

section Step
variable (hs : Sound p)
include hs

theorem construct_sound : Sound { p with servers := p.servers ++ [{}] } where
  target j hj := by
    obtain ⟨hal, hrun⟩ := hs.target j hj
    exact ⟨construct_alive hal, by rw [construct_running]; exact hrun⟩
  reaches j hj := by
    rw [construct_running] at hj
    exact hs.reaches j hj
  living j hj := by
    rw [construct_running] at hj
    exact construct_alive (hs.living j hj)

theorem start_sound {o : StartOutcome} (hal : p.alive i = true) (hop : Allowed p (.start i o)) :
    Sound (p.start i o) := by
  have hrun (j : Nat) := start_running p i j o hal
  have hlive (j : Nat) := start_alive p i j o
  by_cases hr : o = .runs
  · subst hr
    refine ⟨⟨?_, ?_⟩, ?_⟩
    · intro j hj
      obtain rfl : i = j := Option.some.inj hj
      rw [hlive, hrun]
      exact ⟨hal, by simp⟩
    · intro j _
      simp [start]
    · intro j hj
      rw [hrun] at hj
      rw [hlive]
      by_cases hij : i = j
      · exact hij ▸ hal
      · exact hs.living j (by simpa [hij] using hj)
  · have hsame : p.start i o = p := by
      cases o with
      | initFails => rfl
      | runs => exact absurd rfl hr
      | _ => rw [start, ← hop rfl]
    rw [hsame]
    exact hs

theorem stop_sound (hop : Allowed p (.stop i)) : Sound (p.stop i) := by
  refine ⟨⟨?_, ?_⟩, ?_⟩
  · intro j hj
    rw [stop_instance] at hj
    split at hj
    · cases hj
    · rename_i hoff
      obtain ⟨hal, hrun⟩ := hs.target j hj
      rw [stop_alive, stop_running]
      refine ⟨hal, ?_⟩
      have hij : i ≠ j := by
        rintro rfl
        exact hoff hrun
      simp [hrun, hij]
  · intro j hj
    rw [stop_running] at hj
    simp only [Bool.and_eq_true, Bool.not_eq_true', decide_eq_false_iff_not] at hj
    rw [stop_instance]
    split
    · rename_i hon
      exact absurd (hop hon j hj.1).symm hj.2
    · exact hs.reaches j hj.1
  · intro j hj
    rw [stop_running, Bool.and_eq_true] at hj
    rw [stop_alive]
    exact hs.living j hj.1

theorem destroy_sound (hop : Allowed p (.destroy i)) : Sound (p.destroy i) := by
  have hstop := stop_sound hs (i := i) hop
  have hgone : (p.stop i).running i = false := by simp [stop_running]
  refine ⟨⟨?_, ?_⟩, ?_⟩
  · intro j hj
    obtain ⟨hal, hrun⟩ := hstop.target j hj
    rw [stop_alive] at hal
    rw [stop_running] at hrun
    rw [destroy_alive, destroy_running, hal, hrun]
    simp only [Bool.and_eq_true] at hrun
    exact ⟨hrun.2, rfl⟩
  · intro j hj
    rw [destroy_running, ← stop_running] at hj
    exact hstop.reaches j hj
  · intro j hj
    rw [destroy_running, Bool.and_eq_true] at hj
    rw [destroy_alive, hs.living j hj.1, hj.2]
    rfl

theorem step_sound (h : p.step op = some p') (hop : Allowed p op) : Sound p' := by
  cases op with
  | construct => cases h; exact construct_sound hs
  | start i o =>
    simp only [step] at h
    split at h <;> cases h
    exact start_sound hs ‹_› hop
  | stop i =>
    simp only [step] at h
    split at h <;> cases h
    exact stop_sound hs hop
  | destroy i =>
    simp only [step] at h
    split at h <;> cases h
    exact destroy_sound hs hop

theorem step_keeps_iff (h : p.step op = some p') : Keeps p op p' ↔ Allowed p op := by
  constructor
  · intro hk
    cases op with
    | construct => trivial
    | start i o =>
      intro hlate
      simp only [step] at h
      split at h <;> cases h
      have hsame := hk.failed i o rfl (by rintro rfl; cases hlate)
      cases o with
      | socketFails | bindFails | listenFails => exact hsame.symm
      | initFails | runs => cases hlate
    | stop i =>
      intro hon j hj
      simp only [step] at h
      split at h <;> cases h
      refine Decidable.byContradiction ?_
      intro hne
      refine hk.targeted.reaches j ?_ (by rw [stop_instance, if_pos hon])
      simp [stop_running, hj, Ne.symm hne]
    | destroy i =>
      intro hon j hj
      simp only [step] at h
      split at h <;> cases h
      refine Decidable.byContradiction ?_
      intro hne
      refine hk.targeted.reaches j ?_ ?_
      · simp [destroy_running, hj, Ne.symm hne]
      · rw [destroy, stop_instance, if_pos hon]
  · intro hop
    refine (step_sound hs h hop).toTargeted.keeps ?_
    rintro i o rfl hr
    simp only [step] at h
    split at h <;> cases h
    cases o with
    | initFails => rfl
    | runs => exact absurd rfl hr
    | _ => exact (hop rfl).symm

end Step

/-- In every run the pointer is right after every operation if and only if every operation is
allowed where it is made. -/
theorem signal_target_iff (ops : List Operation) (p : Process) (h : exec step {} ops = some p) :
    Guarded step (fun p op => ∀ p', p.step op = some p' → Keeps p op p') {} ops ↔
      Guarded step Allowed {} ops := by
  have hnone (j : Nat) : running {} j = false := rfl
  have hempty : Sound {} :=
    ⟨⟨nofun, fun j hj => by rw [hnone] at hj; cases hj⟩, fun j hj => by rw [hnone] at hj; cases hj⟩
  refine guarded_iff (I := Sound) ?_ ?_ h hempty
  · intro p op p' hs hk hstep
    exact step_sound hs hstep ((step_keeps_iff hs hstep).1 (hk p' hstep))
  · intro p op p' hs hstep
    rw [← step_keeps_iff hs hstep]
    constructor
    · intro hk
      exact hk p' hstep
    · intro hk q hq
      rw [hstep] at hq
      cases hq
      exact hk

/-- Two servers one after the other; the first start of the second fails before the pointer is
stored. -/
theorem oneAfterAnother_target :
    Guarded step (fun p op => ∀ p', p.step op = some p' → Keeps p op p') {}
      [.construct, .start 0 .runs, .construct, .start 1 .initFails, .stop 0, .start 1 .runs,
        .destroy 0, .destroy 1] := by
  refine (signal_target_iff _ ⟨[⟨false, false⟩, ⟨false, false⟩], none⟩ (by decide)).2 ?_
  refine ⟨trivial, nofun, trivial, nofun, ?_, nofun, ?_, ?_, trivial⟩
  all_goals
    intro hrun j hj
    revert hrun hj
    rcases j with _ | _ | j <;> simp [running, start, stop, destroy]

/-- The port is taken, `start()` returns false, the server is destroyed, and the pointer still
leads to it. -/
theorem failedBind_dangling :
    (exec step {} [.construct, .start 0 .bindFails, .destroy 0]).map handleSignal = some .dangling ∧
    ¬ Guarded step (fun p op => ∀ p', p.step op = some p' → Keeps p op p') {}
      [.construct, .start 0 .bindFails, .destroy 0] := by
  refine ⟨by decide, ?_⟩
  rintro ⟨-, h, -⟩
  have hsame := (h _ rfl).failed 0 .bindFails rfl (by decide)
  exact absurd hsame (by decide)

end Process
end Streamer

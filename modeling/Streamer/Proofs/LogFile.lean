import Streamer.Logger

/-!
# What the threads of the process log

The steps of a call come to the call as one function (`implements`), so whatever the threads do, the logger
is what the calls make of it one after the other (`logger_linearizable`). For the log file that means whole
lines, in one order, and of each call at most one (`log_file_lines`): a failed insertion cuts the text off
until the next `init` (`Appends`), and what a thread with the lock has done so far is a beginning of its
line.
-/

namespace Streamer
open Text Machine

namespace Logger

variable {l l' l'' : Logger} {path text text' : Bytes}

/-! ### The steps of a call -/

theorem insertConsole_leads (l : Logger) (chunks : List Bytes) :
    Leads (Monitor.advance next) (l, .inl (.insertConsole chunks))
      ({ l with cout := l.cout ++ chunks.flatten }, .inr none) := by
  induction chunks generalizing l with
  | nil =>
    refine .single ?_
    simp [Monitor.advance, next]
  | cons chunk chunks ih =>
    refine .head rfl ?_
    have h := ih { l with cout := l.cout ++ chunk }
    rwa [List.append_assoc, ← List.flatten_cons] at h

theorem console_leads (l : Logger) (r : LogRecord) :
    Leads (Monitor.advance next) (l, .inl (.console r))
      (if l.enableConsole then { l with cout := l.cout ++ (r.consoleLine l.isTty).flatten } else l,
        .inr none) := by
  refine .head rfl ?_
  simp only [next]
  split
  · exact insertConsole_leads l _
  · exact .refl _

theorem logString_leads (l : Logger) (r : LogRecord) :
    Leads (Monitor.advance next) (l, .inl (.test r)) (l.logString r, .inr none) := by
  refine .head rfl ?_
  unfold logString
  simp only [next]
  split
  · exact .refl _
  refine .head rfl ?_
  simp only [next]
  split
  · exact .head rfl (.head rfl (.head rfl (console_leads _ r)))
  · exact console_leads l r

theorem init_leads (l : Logger) (path : Bytes) (level : LogLevel) (console tty opens : Bool) :
    Leads (Monitor.advance next) (l, .inl (.initLevel path level console tty opens))
      (l.init path level console tty opens, .inr none) := by
  refine .head rfl (.head rfl (.head rfl (.head rfl ?_)))
  unfold init
  simp only [next]
  split
  · split
    · exact .head rfl (.head rfl (.refl _))
    · exact .single rfl
  · exact .refl _

theorem implements : Monitor.Implements enter next apply := by
  intro w l
  cases w with
  | init path level console tty opens => exact init_leads l path level console tty opens
  | setLevel level => exact .single rfl
  | getLevel => exact .single rfl
  | logString r => exact logString_leads l r

variable {τ : Type} [DecidableEq τ] {ls : List (Monitor.Label τ LogCall)}
  {s : Monitor.State τ Logger LogCall Pc (Option LogLevel)}

/-- The calls that have returned in a run, with their results. -/
def history (l : Logger) (ls : List (Monitor.Label τ LogCall)) : List (τ × LogCall × Option LogLevel) :=
  trace (Monitor.step enter next) Monitor.returns { object := l } ls

/-- The stream of the log file is open and takes what is inserted: `data` is what the file and the buffer
hold. -/
def Takes (path data : Bytes) (l : Logger) : Prop :=
  ∃ buffer, l.fileStream = some ⟨path, buffer, false⟩ ∧ l.files path ++ buffer = data

/-- The stream is open, and a write has failed. -/
def Broken (path : Bytes) (l : Logger) : Prop := ∃ buffer, l.fileStream = some ⟨path, buffer, true⟩

/-- Nothing waits in the buffer of a stream that takes what is inserted. -/
def Idle (path : Bytes) (l : Logger) : Prop := ∀ data, Takes path data l → l.files path = data

theorem Takes.not_broken {data : Bytes} (h : Takes path data l) : ¬ Broken path l := by
  rintro ⟨buffer, hbad⟩
  obtain ⟨buffer', hgood, -⟩ := h
  rw [hgood] at hbad
  cases hbad

theorem Takes.eq {data data' : Bytes} (h : Takes path data l) (h' : Takes path data' l) : data = data' := by
  obtain ⟨buffer, hopen, rfl⟩ := h
  obtain ⟨buffer', hopen', rfl⟩ := h'
  rw [hopen] at hopen'
  cases hopen'
  rfl

/-- The log file is open. -/
def Opened (path : Bytes) (l : Logger) : Prop := (∃ data, Takes path data l) ∨ Broken path l

theorem Opened.isSome (h : Opened path l) : l.fileStream.isSome = true := by
  rcases h with ⟨data, buffer, hopen, -⟩ | ⟨buffer, hopen⟩
  · rw [hopen]
    rfl
  · rw [hopen]
    rfl

theorem Takes.files {data : Bytes} (h : Takes path data l) : l.files path <+: data := by
  obtain ⟨buffer, -, rfl⟩ := h
  exact List.prefix_append _ _

/-- `text` has gone to the file at `path` and its buffer, up to the first write that failed; to no other
file. -/
structure Appends (path text : Bytes) (l l' : Logger) : Prop where
  grows : l.files path <+: l'.files path
  takes : ∀ data, Takes path data l →
    Takes path (data ++ text) l' ∨ Broken path l' ∧ l'.files path <+: data ++ text
  broken : Broken path l → Broken path l' ∧ l'.files path = l.files path
  others : ∀ p, p ≠ path → l'.files p = l.files p

namespace Appends

/-- A step that leaves the files and the stream alone. -/
theorem refl (hfiles : l'.files = l.files) (hstream : l'.fileStream = l.fileStream) :
    Appends path [] l l' where
  grows := by rw [hfiles]
  takes data h := by
    left
    rw [List.append_nil]
    simpa only [Takes, hfiles, hstream] using h
  broken h := ⟨by simpa only [Broken, hstream] using h, by rw [hfiles]⟩
  others p _ := by rw [hfiles]

theorem trans (h : Appends path text l l') (h' : Appends path text' l' l'') :
    Appends path (text ++ text') l l'' where
  grows := h.grows.trans h'.grows
  takes data hdata := by
    rw [← List.append_assoc]
    rcases h.takes data hdata with hmid | ⟨hmid, hpre⟩
    · exact h'.takes _ hmid
    · obtain ⟨hend, hfiles⟩ := h'.broken hmid
      exact .inr ⟨hend, hfiles ▸ hpre.trans (List.prefix_append _ _)⟩
  broken hbad := by
    obtain ⟨hmid, hfiles⟩ := h.broken hbad
    obtain ⟨hend, hfiles'⟩ := h'.broken hmid
    exact ⟨hend, hfiles'.trans hfiles⟩
  others p hp := (h'.others p hp).trans (h.others p hp)

theorem opened (h : Appends path text l l') (hopen : Opened path l) : Opened path l' := by
  rcases hopen with ⟨data, hdata⟩ | hbad
  · exact (h.takes data hdata).imp (fun h => ⟨_, h⟩) And.left
  · exact .inr (h.broken hbad).1

/-- The file has got a beginning of what it was to get. -/
theorem files (h : Appends path text l l') {data : Bytes} (hdata : Takes path data l) :
    l'.files path <+: data ++ text := by
  rcases h.takes data hdata with hend | ⟨-, hpre⟩
  · exact hend.files
  · exact hpre

end Appends

theorem append_appends (l : Logger) (path data : Bytes) :
    l.files path <+: (l.append path data).files path ∧
      (l.append path data).files path = l.files path ++ data ∧
      ∀ p, p ≠ path → (l.append path data).files p = l.files p := by
  have hfiles : (l.append path data).files path = l.files path ++ data := by simp [append]
  exact ⟨hfiles ▸ List.prefix_append _ _, hfiles, fun p hp => by simp [append, hp]⟩

/-- A write of the buffer with `data`: all of it, and nothing waits; or the stream fails. -/
theorem write_appends {buffer : Bytes} (hopen : l.fileStream = some ⟨path, buffer, false⟩) (data : Bytes) :
    Appends path data l (l.write ⟨path, buffer, false⟩ data) ∧
      Idle path (l.write ⟨path, buffer, false⟩ data) := by
  have hbroken (h : Broken path l) : False := by
    obtain ⟨buffer', h⟩ := h
    rw [hopen] at h
    cases h
  have htakes {d : Bytes} (h : Takes path d l) : d = l.files path ++ buffer :=
    h.eq ⟨buffer, hopen, rfl⟩
  unfold write
  split
  · obtain ⟨hpre, hfiles, hothers⟩ := append_appends l path (buffer ++ data)
    refine ⟨⟨hpre, ?_, fun h => (hbroken h).elim, hothers⟩, ?_⟩
    · rintro d hd
      rw [htakes hd]
      exact .inl ⟨[], rfl, by rw [List.append_nil, List.append_assoc]; exact hfiles⟩
    · rintro d ⟨buffer', h, rfl⟩
      cases h
      rw [List.append_nil]
  · rename_i k _
    obtain ⟨hpre, hfiles, hothers⟩ := append_appends l path ((buffer ++ data).take k)
    refine ⟨⟨hpre, ?_, fun h => (hbroken h).elim, hothers⟩, ?_⟩
    · rintro d hd
      rw [htakes hd]
      refine .inr ⟨⟨buffer, rfl⟩, ?_⟩
      rw [List.append_assoc]
      exact hfiles ▸ (List.prefix_append_right_inj _).2 (List.take_prefix _ _)
    · rintro d ⟨buffer', h, -⟩
      cases h

theorem insert_appends (hopen : Opened path l) (text : Bytes) :
    Appends path text l (l.insert text) := by
  unfold insert
  rcases hopen with ⟨data, buffer, hopen, -⟩ | ⟨buffer, hopen⟩
  · rw [hopen]
    simp only [Bool.false_eq_true, if_false]
    split
    · refine ⟨List.prefix_refl _, ?_, ?_, fun _ _ => rfl⟩
      · rintro d ⟨buffer', hopen', rfl⟩
        rw [hopen] at hopen'
        cases hopen'
        exact .inl ⟨_, rfl, (List.append_assoc _ _ _).symm⟩
      · rintro ⟨buffer', hopen'⟩
        rw [hopen] at hopen'
        cases hopen'
    · exact (write_appends hopen text).1
  · rw [hopen]
    simp only [if_true]
    refine ⟨List.prefix_refl _, ?_, fun h => ⟨h, rfl⟩, fun _ _ => rfl⟩
    intro d hd
    exact absurd ⟨buffer, hopen⟩ hd.not_broken

theorem flush_appends (hopen : Opened path l) :
    Appends path [] l l.flush ∧ Idle path l.flush := by
  unfold flush
  rcases hopen with ⟨data, buffer, hopen, -⟩ | ⟨buffer, hopen⟩
  · rw [hopen]
    simp only [Bool.false_or]
    split
    · rename_i hempty
      refine ⟨.refl rfl rfl, ?_⟩
      rintro d ⟨buffer', hopen', rfl⟩
      rw [hopen] at hopen'
      cases hopen'
      rw [List.isEmpty_iff.1 hempty, List.append_nil]
    · exact write_appends hopen []
  · rw [hopen]
    simp only [Bool.true_or, if_true]
    refine ⟨.refl rfl rfl, ?_⟩
    intro d hd
    exact absurd ⟨buffer, hopen⟩ hd.not_broken

/-- The lines that calls put into the log file, one after the other, if the minimum level is `level` before
them. -/
def logged (level : LogLevel) : List LogCall → List Bytes
  | [] => []
  | .init _ level' _ _ _ :: calls | .setLevel level' :: calls => logged level' calls
  | .getLevel :: calls => logged level calls
  | .logString r :: calls =>
    if r.level.toInt < level.toInt then logged level calls
    else (r.plainLine ++ [newline]) :: logged level calls

/-- A call that may be made while the log file is open: any but `init`. -/
def KeepsFile : LogCall → Prop
  | .init .. => False
  | _ => True

theorem write_minLevel (l : Logger) (stream : LogStream) (data : Bytes) :
    (l.write stream data).minLevel = l.minLevel := by
  unfold write
  split <;> rfl

theorem insert_minLevel (l : Logger) (text : Bytes) : (l.insert text).minLevel = l.minLevel := by
  unfold insert
  repeat' split
  all_goals first | rfl | exact write_minLevel _ _ _

theorem flush_minLevel (l : Logger) : l.flush.minLevel = l.minLevel := by
  unfold flush
  repeat' split
  all_goals first | rfl | exact write_minLevel _ _ _

theorem logString_minLevel (l : Logger) (r : LogRecord) : (l.logString r).minLevel = l.minLevel := by
  unfold logString
  dsimp only
  repeat' split
  all_goals simp only [flush_minLevel, insert_minLevel]

/-- Two insertions and a flush, and then nothing more for the file. -/
theorem logString_appends (hopen : Opened path l) (hidle : Idle path l) (r : LogRecord) :
    Appends path (logged l.minLevel [.logString r]).flatten l (l.logString r) ∧
      Idle path (l.logString r) := by
  unfold logged logString
  split
  · exact ⟨.refl rfl rfl, hidle⟩
  have hline := insert_appends hopen r.plainLine
  have hwhole := hline.trans (insert_appends (hline.opened hopen) [newline])
  obtain ⟨hflush, hidle'⟩ := flush_appends (hwhole.opened hopen)
  simp only [hopen.isSome, if_true, logged, List.flatten_cons, List.flatten_nil]
  split
  · exact ⟨hwhole.trans (hflush.trans (.refl rfl rfl)), hidle'⟩
  · exact ⟨hwhole.trans hflush, hidle'⟩

theorem apply_appends (hopen : Opened path l) (hidle : Idle path l) {w : LogCall} (hw : KeepsFile w) :
    Appends path (logged l.minLevel [w]).flatten l (apply w l).1 ∧ Idle path (apply w l).1 := by
  cases w with
  | init => exact hw.elim
  | setLevel level => exact ⟨.refl rfl rfl, hidle⟩
  | getLevel => exact ⟨.refl rfl rfl, hidle⟩
  | logString r => exact logString_appends hopen hidle r

theorem logged_cons {w : LogCall} (hw : KeepsFile w) (calls : List LogCall) :
    logged l.minLevel (w :: calls) =
      logged l.minLevel [w] ++ logged (apply w l).1.minLevel calls := by
  cases w with
  | init => exact hw.elim
  | setLevel level => rfl
  | getLevel => rfl
  | logString r =>
    simp only [logged, apply, logString_minLevel]
    split <;> rfl

omit [DecidableEq τ] in
/-- The calls one after the other append their lines one after the other. -/
theorem replays_appends (hopen : Opened path l) (hidle : Idle path l)
    {calls : List (τ × LogCall × Option LogLevel)} (hcalls : ∀ c ∈ calls, KeepsFile c.2.1)
    (h : Monitor.Replays apply l calls l') :
    Appends path (logged l.minLevel (calls.map (·.2.1))).flatten l l' ∧ Idle path l' ∧
      ∀ ws, logged l.minLevel (calls.map (·.2.1) ++ ws) =
        logged l.minLevel (calls.map (·.2.1)) ++ logged l'.minLevel ws := by
  induction calls generalizing l with
  | nil =>
    cases h
    exact ⟨.refl rfl rfl, hidle, fun _ => rfl⟩
  | cons c calls ih =>
    obtain ⟨t, w, r⟩ := c
    have hw : KeepsFile w := hcalls _ List.mem_cons_self
    obtain ⟨happ, hidle'⟩ := apply_appends hopen hidle hw
    obtain ⟨happ', hend, hsnoc⟩ :=
      ih (happ.opened hopen) hidle' (fun c hc => hcalls c (List.mem_cons_of_mem _ hc)) h.2
    simp only [List.map_cons, List.cons_append]
    refine ⟨?_, hend, ?_⟩
    · rw [logged_cons hw, List.flatten_append]
      exact happ.trans happ'
    · intro ws
      rw [logged_cons hw, hsnoc ws, logged_cons hw (calls.map (·.2.1)), List.append_assoc]

/-! ### In the middle of a call -/

/-- A call at `pc` leaves the stream open. -/
def Pc.keepsFile : Pc → Bool
  | .initLevel .. | .initConsole .. | .initTty .. | .initFile .. | .closeFile .. | .openFile .. => false
  | _ => true

theorem next_appends {pc : Pc} (hopen : Opened path l) (hpc : pc.keepsFile = true) :
    (∃ text, Appends path text l (next pc l).1) ∧
      ∀ pc', (next pc l).2 = .inl pc' → pc'.keepsFile = true := by
  have hsame (hfiles : (next pc l).1.files = l.files) (hstream : (next pc l).1.fileStream = l.fileStream) :
      ∃ text, Appends path text l (next pc l).1 := ⟨[], .refl hfiles hstream⟩
  cases pc with
  | initLevel | initConsole | initTty | initFile | closeFile | openFile => cases hpc
  | insertLine r => exact ⟨⟨_, insert_appends hopen _⟩, fun pc' h => by cases h; rfl⟩
  | insertNewline r => exact ⟨⟨_, insert_appends hopen _⟩, fun pc' h => by cases h; rfl⟩
  | flush r => exact ⟨⟨_, (flush_appends hopen).1⟩, fun pc' h => by cases h; rfl⟩
  | insertConsole chunks =>
    cases chunks with
    | nil => exact ⟨hsame rfl rfl, nofun⟩
    | cons chunk chunks => exact ⟨hsame rfl rfl, fun pc' h => by cases h; rfl⟩
  | _ =>
    refine ⟨hsame rfl rfl, ?_⟩
    intro pc' h
    simp only [next] at h
    (repeat' split at h) <;> cases h <;> rfl

theorem leads_appends {c c' : Pc ⊕ Option LogLevel} (hopen : Opened path l)
    (hc : ∀ pc, c = .inl pc → pc.keepsFile = true)
    (h : Leads (Monitor.advance next) (l, c) (l', c')) :
    (∃ text, Appends path text l l') ∧ ∀ pc, c' = .inl pc → pc.keepsFile = true := by
  obtain ⟨n, hn⟩ := h
  induction n generalizing l c with
  | zero =>
    cases hn
    exact ⟨⟨[], .refl rfl rfl⟩, hc⟩
  | succ n ih =>
    cases c with
    | inr r => simp [iter, Monitor.advance] at hn
    | inl pc =>
      obtain ⟨⟨text, happ⟩, hpc'⟩ := next_appends hopen (hc pc rfl)
      obtain ⟨⟨text', happ'⟩, hend⟩ := ih (happ.opened hopen) hpc' hn
      exact ⟨⟨_, happ.trans happ'⟩, hend⟩

/-- The call that has the lock. -/
def current (s : Monitor.State τ Logger LogCall Pc (Option LogLevel)) : List LogCall :=
  match s.lock with
  | none => []
  | some t => (s.threads t).call?.toList

omit [DecidableEq τ] in
/-- The call that has the lock is on the way from what the others have made of the file to what it makes
of it. -/
theorem linear_appends (hs : Monitor.Linear enter next l s) (hopen : Opened path l)
    (hidle : Idle path l) (hcalls : ∀ t w, (s.threads t).call? = some w → KeepsFile w) :
    ∃ text l', Appends path text l s.object ∧ s.object.files path <+: l'.files path ∧
      Appends path (logged l.minLevel (current s)).flatten l l' := by
  cases hlock : s.lock with
  | none =>
    rw [hs.free hlock]
    have hcurrent : current s = [] := by simp only [current, hlock]
    exact ⟨[], l, .refl rfl rfl, List.prefix_refl _, hcurrent ▸ .refl rfl rfl⟩
  | some t =>
    obtain ⟨w, c, hin, hmid, hend⟩ := hs.ends implements hlock
    have hw : KeepsFile w := hcalls t w (by rw [hin]; rfl)
    have henter : ∀ pc, (Sum.inl (enter w) : Pc ⊕ Option LogLevel) = .inl pc → pc.keepsFile = true := by
      rintro pc ⟨⟩
      cases w with
      | init => exact hw.elim
      | _ => rfl
    obtain ⟨⟨text, happ⟩, hc⟩ := leads_appends hopen henter hmid
    obtain ⟨⟨text', happ'⟩, -⟩ := leads_appends (happ.opened hopen) hc hend
    have hcurrent : current s = [w] := by
      simp only [current, hlock, hin, Monitor.Status.call?, Option.toList]
    exact ⟨text, _, happ, happ'.grows, hcurrent ▸ (apply_appends hopen hidle hw).1⟩

/-- While the log file is open, and whatever the threads call but `init`: at every moment the file has got
the lines of the calls that have returned, in their order, and after them a beginning of the line of the
call that has the lock; after a write that failed, a beginning of that and no more. -/
theorem log_file_lines (h : exec (Monitor.step enter next) { object := l } ls = some s)
    (hopen : l.fileStream = some { path := path }) (hls : ∀ t w, .call t w ∈ ls → KeepsFile w) :
    ∃ data, s.object.files path = l.files path ++ data ∧
      data <+: (logged l.minLevel ((history l ls).map (·.2.1) ++ current s)).flatten ∧
      ((∃ stream, s.object.fileStream = some stream ∧ stream.bad = false) →
        (logged l.minLevel ((history l ls).map (·.2.1))).flatten <+: data) ∧
      ∀ p, p ≠ path → s.object.files p = l.files p := by
  obtain ⟨l', hrep, hlin⟩ : ∃ l', Monitor.Replays apply l (history l ls) l' ∧
    Monitor.Linear enter next l' s := Monitor.linearizable implements h
  obtain ⟨hcalls, hstanding⟩ : (∀ c ∈ history l ls, KeepsFile c.2.1) ∧
    ∀ t w, (s.threads t).call? = some w → KeepsFile w := Monitor.exec_called h hls nofun
  have htakes : Takes path (l.files path) l := ⟨[], hopen, List.append_nil _⟩
  have hidle : Idle path l := fun data hdata => htakes.eq hdata
  obtain ⟨happ, hidle', happend⟩ := replays_appends (.inl ⟨_, htakes⟩) hidle hcalls hrep
  have hopened := happ.opened (.inl ⟨_, htakes⟩)
  obtain ⟨text, l'', hmid, hgrows, hline⟩ := linear_appends hlin hopened hidle' hstanding
  obtain ⟨data, hdata⟩ := happ.grows.trans hmid.grows
  refine ⟨data, hdata.symm, ?_, ?_, fun p hp => (hmid.others p hp).trans (happ.others p hp)⟩
  · have hend := hgrows.trans ((happ.trans hline).files htakes)
    rw [happend, List.flatten_append]
    rwa [← hdata, List.prefix_append_right_inj] at hend
  · rintro ⟨stream, hstream, hgood⟩
    -- had a write failed, the stream would still be so
    rcases happ.takes _ htakes with htakes' | ⟨hbad, -⟩
    · have hfiles := hmid.grows
      rwa [hidle' _ htakes', ← hdata, List.prefix_append_right_inj] at hfiles
    · obtain ⟨⟨buffer, hbroken⟩, -⟩ := hmid.broken hbad
      rw [hstream] at hbroken
      cases hbroken
      cases hgood

/-! Two sessions log at the same time; the second one has the lock first, and the first one is about to
end its line. -/

def sampleLogger : Logger := { fileStream := some { path := ascii "server.log" } }

def sampleRecord (level : LogLevel) (thread message : String) : LogRecord :=
  ⟨level, ascii message, ascii thread, ascii "12:00:00.000"⟩

def sampleRun : List (Monitor.Label Nat LogCall) :=
  [.call 1 (.logString (sampleRecord .INFO "1" "started")),
    .call 2 (.logString (sampleRecord .WARN "2" "refused")), .acquire 2] ++ List.replicate 9 (.step 2) ++
    [.release 2, .acquire 1] ++ List.replicate 3 (.step 1)

theorem exec_sampleRun : ∃ s, exec (Monitor.step enter next) { object := sampleLogger } sampleRun = some s ∧
    (∃ stream, s.object.fileStream = some stream ∧ stream.bad = false) ∧
    current s = [.logString (sampleRecord .INFO "1" "started")] :=
  ⟨_, rfl, ⟨_, rfl, by decide +kernel⟩, by decide +kernel⟩

theorem sample_log_file_lines :
    ∃ s data, exec (Monitor.step enter next) { object := sampleLogger } sampleRun = some s ∧
      s.object.files (ascii "server.log") = data ∧
      ascii "[12:00:00.000] [WARN ] [T:2] refused\n" <+: data ∧
      data <+: ascii "[12:00:00.000] [WARN ] [T:2] refused\n[12:00:00.000] [INFO ] [T:1] started\n" := by
  obtain ⟨s, h, hstream, hcurrent⟩ := exec_sampleRun
  have hcalls : ∀ t w, (.call t w : Monitor.Label Nat LogCall) ∈ sampleRun → KeepsFile w := by
    intro t w hmem
    simp [sampleRun] at hmem
    rcases hmem with ⟨-, rfl⟩ | ⟨-, rfl⟩ <;> trivial
  obtain ⟨data, hdata, hpre, hwhole, -⟩ := log_file_lines h rfl hcalls
  rw [hcurrent] at hpre
  have hfirst : (logged sampleLogger.minLevel ((history sampleLogger sampleRun).map (·.2.1))).flatten =
      ascii "[12:00:00.000] [WARN ] [T:2] refused\n" := by decide +kernel
  have hboth : (logged sampleLogger.minLevel ((history sampleLogger sampleRun).map (·.2.1) ++
      [.logString (sampleRecord .INFO "1" "started")])).flatten =
      ascii "[12:00:00.000] [WARN ] [T:2] refused\n[12:00:00.000] [INFO ] [T:1] started\n" := by
    decide +kernel
  exact ⟨s, data, h, hdata, hfirst ▸ hwhole hstream, hboth ▸ hpre⟩

end Logger
end Streamer

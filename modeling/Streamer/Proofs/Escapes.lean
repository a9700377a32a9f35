import Streamer.Proofs.Isolation

/-!
# Exceptions that leave `run()` or `accept_loop()`

Three calls made for a client report failure by throwing and are not guarded: the constructor of
its `std::thread`, the increment of the directory iteration in `list_files`, the allocation of the
buffer in `handle_get`. A run in which none of them fails disturbs nobody, and only such a run
(`no_escape_iff`).
-/

namespace Streamer
open Text Kernel Machine Filesystem

namespace FileManager

/-- The loop comes to an increment that throws: no query has failed before, but for the entry just
left. -/
def LoopThrows (iteration : List (Except Exn DirEntry)) : Prop :=
  ∃ (seen : List DirEntry) (x : Exn) (rest : List (Except Exn DirEntry)),
    iteration = seen.map .ok ++ .error x :: rest ∧ ∀ entry ∈ seen.dropLast, queryFails entry = false

/-- An entry has been read, and an increment after it throws. -/
def IncrementThrows (iteration : List (Except Exn DirEntry)) : Prop :=
  ∃ (seen : List DirEntry) (x : Exn) (rest : List (Except Exn DirEntry)),
    iteration = seen.map .ok ++ .error x :: rest ∧ seen ≠ [] ∧
      ∀ entry ∈ seen.dropLast, queryFails entry = false

variable {fm : FileManager} {fs : FileSystem} {iteration rest : List (Except Exn DirEntry)}
    {entry : DirEntry}

theorem loopThrows_cons_fails (h : queryFails entry = true) :
    LoopThrows (.ok entry :: rest) ↔ ∃ x rest', rest = .error x :: rest' := by
  constructor
  · rintro ⟨seen, x, rest', heq, hseen⟩
    cases seen with
    | nil => cases heq
    | cons e seen =>
      obtain ⟨he, hrest⟩ := List.cons.inj heq
      cases he
      cases seen with
      | nil => exact ⟨x, rest', hrest⟩
      | cons e' seen =>
        have := hseen entry (by simp)
        rw [h] at this
        cases this
  · rintro ⟨x, rest', rfl⟩
    exact ⟨[entry], x, rest', rfl, by simp⟩

theorem loopThrows_cons (h : queryFails entry = false) :
    LoopThrows (.ok entry :: rest) ↔ LoopThrows rest := by
  constructor
  · rintro ⟨seen, x, rest', heq, hseen⟩
    cases seen with
    | nil => cases heq
    | cons e seen =>
      obtain ⟨-, hrest⟩ := List.cons.inj heq
      refine ⟨seen, x, rest', hrest, fun e' he' => hseen e' ?_⟩
      cases seen with
      | nil => simp at he'
      | cons e'' seen => simp [he']
  · rintro ⟨seen, x, rest', rfl, hseen⟩
    refine ⟨entry :: seen, x, rest', rfl, ?_⟩
    intro e he
    cases seen with
    | nil => simp at he
    | cons e' seen =>
      rcases List.mem_cons.1 he with rfl | he
      · exact h
      · exact hseen e he

theorem listFilesLoop_error_iff (files : List MediaFileInfo) :
    (∃ x, listFilesLoop none files iteration = .error x) ↔ LoopThrows iteration := by
  induction iteration generalizing files with
  | nil =>
    constructor
    · rintro ⟨x, hx⟩
      cases hx
    · rintro ⟨seen, x, rest, heq, -⟩
      simp at heq
  | cons e rest ih =>
    cases e with
    | error x =>
      constructor
      · intro
        exact ⟨[], x, rest, rfl, by simp⟩
      · intro
        exact ⟨x, rfl⟩
    | ok entry =>
      -- with the error code set, the loop ends at the next entry, after the increment
      have hset (e : Errno) : (∃ x, listFilesLoop (some e) files rest = .error x) ↔
          ∃ x rest', rest = .error x :: rest' := by
        rcases rest with _ | ⟨x | entry', rest'⟩ <;> simp [listFilesLoop]
      obtain ⟨name, regular, size⟩ := entry
      simp only [listFilesLoop, Option.isSome_none, Bool.false_eq_true, if_false]
      rcases regular with e | _ | _
      · rw [loopThrows_cons_fails rfl]
        exact hset e
      · rw [loopThrows_cons rfl]
        exact ih files
      · cases hhid : isHidden name with
        | true =>
          rw [loopThrows_cons (by simp [queryFails, hhid])]
          exact ih files
        | false =>
          rcases size with e | size
          · rw [loopThrows_cons_fails (by simp [queryFails, hhid, Except.toOption])]
            exact hset e
          · rw [loopThrows_cons (by simp [queryFails, hhid, Except.toOption])]
            exact ih _

/-- The first entry is read by the constructor, which does not throw. -/
theorem loopThrows_begun : LoopThrows (begun iteration) ↔ IncrementThrows iteration := by
  constructor
  · rintro ⟨seen, x, rest, heq, hseen⟩
    rcases iteration with _ | ⟨y | entry, iteration⟩
    · simp [begun] at heq
    · simp [begun] at heq
    · refine ⟨seen, x, rest, heq, ?_, hseen⟩
      rintro rfl
      cases heq
  · rintro ⟨seen, x, rest, rfl, hne, hseen⟩
    obtain ⟨entry, seen, rfl⟩ := List.exists_cons_of_ne_nil hne
    exact ⟨entry :: seen, x, rest, rfl, hseen⟩

theorem listFilesFrom_error_iff :
    (fm.listFilesFrom fs iteration).toOption.isNone = true ↔
      fs.exist fm.canonicalRoot = true ∧ fs.isDirectory fm.canonicalRoot = true ∧
        IncrementThrows iteration := by
  rw [← loopThrows_begun, ← listFilesLoop_error_iff []]
  unfold listFilesFrom
  by_cases hroot : fs.exist fm.canonicalRoot = true ∧ fs.isDirectory fm.canonicalRoot = true
  · simp only [hroot.1, hroot.2, true_and]
    cases listFilesLoop none [] (begun iteration) <;> simp [Except.toOption]
  · have hskip : (!fs.exist fm.canonicalRoot || !fs.isDirectory fm.canonicalRoot) = true := by
      rw [Bool.or_eq_true, Bool.not_eq_true', Bool.not_eq_true']
      simpa only [not_and_or, Bool.not_eq_true] using hroot
    simp only [hskip, if_true, ← and_assoc, hroot, false_and, iff_false]
    simp [Except.toOption]

end FileManager

namespace LiveServer

variable (fm : FileManager) (calls : Nat → MediaCalls) (chunkSize : Nat) (memory : Nat → Nat → Nat)

/-- The sessions of a server: how the calls for the `i`-th client turn out, and the memory that is
left when it allocates. -/
def sessionsOver : Nat → Nat → ClientSession.Config :=
  fun i n => .new (fm.mediaOf (calls i)) chunkSize (memory i n)

/-- The buffer of a transfer, for which `chunk_size_` bytes are needed. -/
def BufferFits (memory : Nat) : Prop :=
  (if 0 < chunkSize then chunkSize else DEFAULT_CHUNK_SIZE) ≤ VECTOR_MAX_SIZE ∧
    (if 0 < chunkSize then chunkSize else DEFAULT_CHUNK_SIZE) ≤ memory

/-- The next step of the session makes none of the two calls that throw, or the call succeeds. -/
def CallSucceeds (i : Nat) (w : Worker) : Prop :=
  match w.pc with
  | .listFiles =>
    ¬ (((calls i).fs w.session.clock).exist fm.canonicalRoot = true ∧
      ((calls i).fs w.session.clock).isDirectory fm.canonicalRoot = true ∧
      FileManager.IncrementThrows ((calls i).iteration w.session.clock))
  | .allocate _ _ => BufferFits chunkSize (memory i w.session.clock)
  | _ => True

/-- None of the three calls that throw fails in this step. -/
def NothingThrows (s : LiveServer) : LiveLabel → Prop
  | .start ok => s.server.start = .emplace → ok = true
  | .accept _ => True
  | .session i => ∀ w, s.sessions[i]? = some w → CallSucceeds fm calls chunkSize memory i w

/-- The step ends neither the process nor anything of the others: the listening socket and every
other session are as before. -/
def Spares (cfg : Nat → Nat → ClientSession.Config) (s : LiveServer) (l : LiveLabel) : Prop :=
  ∀ s', step cfg s l = some s' → s'.terminated = false ∧
    (s.server.start.starting = false → s'.server.listenState = s.server.listenState) ∧
    ∀ j w, l ≠ .session j → s.sessions[j]? = some w → s'.sessions[j]? = some w

variable {fm calls chunkSize memory} {s s' : LiveServer} {l : LiveLabel} {ls : List LiveLabel}

theorem allocate_isSome (fileManager : Media) {n : Nat} :
    (ClientSession.Config.new fileManager chunkSize n).allocate.isSome = false ↔
      BufferFits chunkSize n := by
  have hsize (size : Nat) : (if VECTOR_MAX_SIZE < size then some Exn.lengthError
      else if n < size then some .badAlloc else none).isSome = false ↔
        size ≤ VECTOR_MAX_SIZE ∧ size ≤ n := by
    split
    · simp only [Option.isSome_some, reduceCtorEq, false_iff]
      omega
    · split
      · simp only [Option.isSome_some, reduceCtorEq, false_iff]
        omega
      · simp only [Option.isSome_none, true_iff]
        omega
  exact hsize _

theorem throws_iff {w : Worker} {i : Nat} :
    w.throws (sessionsOver fm calls chunkSize memory i w.session.clock) = false ↔
      CallSucceeds fm calls chunkSize memory i w := by
  unfold Worker.throws CallSucceeds
  cases w.pc with
  | listFiles =>
    dsimp only
    rw [← FileManager.listFilesFrom_error_iff, Bool.not_eq_true]
    rfl
  | allocate file fileSize => exact allocate_isSome _
  | _ => simp

theorem step_keeps {cfg : Nat → Nat → ClientSession.Config} (h : step cfg s l = some s')
    (hst : s.server.start.starting = false) : s'.server.listenState = s.server.listenState := by
  have hstart {ok : Bool} (h : s.server.startStep ok = some s'.server) :
      s'.server.listenState = s.server.listenState := by
    obtain ⟨-, -, ⟨hs, -⟩ | ⟨hpc, -⟩ | ⟨-, -, -, hlisten, -⟩⟩ := Server.startStep_cases h
    · rw [hs] at hst
      cases hst
    · rw [hpc] at hst
      cases hst
    · exact hlisten
  obtain ⟨-, ⟨ok, -, h⟩ | ⟨client, -, h⟩ | ⟨i, -, h⟩⟩ := step_cases h
  · rcases startStep_cases h with ⟨-, -, rfl⟩ | ⟨h, -⟩
    · rfl
    · exact hstart h
  · exact hstart (acceptStep_cases h).2.2.1
  · obtain ⟨w, w', x, -, -, -, -, rfl⟩ := sessionStep_cases h
    rfl

/-- A step spares the others exactly if none of its calls throws. -/
theorem spares_iff (h : step (sessionsOver fm calls chunkSize memory) s l = some s') :
    Spares (sessionsOver fm calls chunkSize memory) s l ↔
      NothingThrows fm calls chunkSize memory s l := by
  have hspares : Spares (sessionsOver fm calls chunkSize memory) s l ↔ s'.terminated = false := by
    constructor
    · intro hsp
      exact (hsp s' h).1
    · intro hlive t ht
      obtain rfl : s' = t := Option.some.inj (h.symm.trans ht)
      refine ⟨hlive, step_keeps h, ?_⟩
      intro j w hl hw
      rcases step_session h hw with ⟨hl', -⟩ | ⟨-, hw'⟩
      · exact absurd hl' hl
      · exact hw'
  rw [hspares, ← Bool.not_eq_true, step_terminated h]
  cases l with
  | start ok => cases ok <;> simp [NothingThrows]
  | accept client => simp [NothingThrows]
  | session i =>
    simp only [reduceCtorEq, and_false, LiveLabel.session.injEq, false_or, NothingThrows]
    constructor
    · intro hno w hw
      rw [← throws_iff, ← Bool.not_eq_true]
      exact fun ht => hno ⟨i, w, rfl, hw, ht⟩
    · rintro hall ⟨j, w, rfl, hw, ht⟩
      have := throws_iff.2 (hall w hw)
      rw [ht] at this
      cases this

/-- In a run no exception leaves `run()` or `accept_loop()`, and every step leaves the listening
socket and the other sessions alone, exactly if in no step a thread cannot be created, the
directory iteration throws or the buffer does not fit. -/
theorem no_escape_iff (fm : FileManager) (calls : Nat → MediaCalls) (chunkSize : Nat)
    (memory : Nat → Nat → Nat)
    (h : exec (step (sessionsOver fm calls chunkSize memory)) new ls = some s) :
    Guarded (step (sessionsOver fm calls chunkSize memory))
      (Spares (sessionsOver fm calls chunkSize memory)) new ls ↔
      Guarded (step (sessionsOver fm calls chunkSize memory))
        (NothingThrows fm calls chunkSize memory) new ls := by
  refine guarded_iff (I := fun _ => True) (fun _ _ _ _ _ _ => trivial) ?_ h trivial
  intro s l s' _ h
  exact spares_iff h

/-- Where no call fails at all, nothing throws. -/
theorem nothingThrows_of_calls (hmedia : ∀ i n, ¬ FileManager.IncrementThrows ((calls i).iteration n))
    (hfits : ∀ i n, BufferFits chunkSize (memory i n)) (hthreads : ∀ l ∈ ls, l ≠ .start false) :
    Guarded (step (sessionsOver fm calls chunkSize memory))
      (NothingThrows fm calls chunkSize memory) new ls := by
  refine guarded_mono ?_ (guarded_of_forall hthreads)
  intro s l hl
  cases l with
  | start ok =>
    intro
    cases ok with
    | true => rfl
    | false => exact absurd rfl hl
  | accept client => trivial
  | session i =>
    intro w _
    unfold CallSucceeds
    split
    · exact fun h => hmedia _ _ h.2.2
    · exact hfits _ _
    · trivial

/-- The calls on the sample directory, all of which succeed. -/
def sampleCalls : MediaCalls where
  fs _ := ClientSession.sampleFs
  iteration _ := (ClientSession.sampleManager.directoryIterator ClientSession.sampleFs).map .ok
  stream _ _ := some (.ofContent (ascii "hi"))

theorem threeClients_spared :
    Guarded (step (sessionsOver ClientSession.sampleManager (fun _ => sampleCalls) 2 fun _ _ => 100))
      (Spares (sessionsOver ClientSession.sampleManager (fun _ => sampleCalls) 2 fun _ _ => 100))
        new threeClients := by
  have hrun :
    (exec (step (sessionsOver ClientSession.sampleManager (fun _ => sampleCalls) 2 fun _ _ => 100)) new
      threeClients).isSome = true := by decide +kernel
  obtain ⟨s, hs⟩ := Option.isSome_iff_exists.1 hrun
  refine (no_escape_iff ClientSession.sampleManager (fun _ => sampleCalls) 2 (fun _ _ => 100) hs).2 ?_
  refine nothingThrows_of_calls ?_ ?_ (by decide +kernel)
  · rintro i n ⟨seen, x, rest, heq, -, -⟩
    have hmem : Except.error x ∈ sampleCalls.iteration n := by
      rw [heq]
      simp
    simp [sampleCalls] at hmem
  · intro _ _
    constructor <;> decide

def getter : Socket := ⟨4, ascii "GET a\n", true, .replicate 6 (.moves 1), [], [.moves 50]⟩

/-- A client is being served when another one asks for a file. -/
def getBesides : List LiveLabel :=
  connect quitter ++ .start true :: .accept getter :: .replicate 8 (.start true) ++
    .replicate 16 (.session 1)

/-- The thread for the second client cannot be created. -/
def noThread : List LiveLabel :=
  connect quitter ++ .start true :: .accept getter :: .replicate 6 (.start true) ++ [.start false]

/-- With chunks of `2 ^ 63` bytes, which the command line takes, a `GET` ends the server; so do a
thread that cannot be created and an increment of the directory iteration that throws in a `LIST`.
-/
theorem exceptions_escape :
    (exec (step
      (sessionsOver ClientSession.sampleManager (fun _ => sampleCalls) (2 ^ 63) fun _ _ => 2 ^ 40)) new
        getBesides).map (fun s => (s.terminated, s.server.workers)) = some (true, [0, 1]) ∧
      (exec (step (sessionsOver ClientSession.sampleManager (fun _ => sampleCalls) 2 fun _ _ => 100)) new
        noThread).map (fun s => (s.terminated, s.server.workers)) = some (true, [0]) ∧
      (exec (step (sessionsOver ClientSession.sampleManager
          (fun _ => { sampleCalls with
            iteration := fun _ => [.ok ⟨ascii "a", .ok true, .ok 2⟩, .error .filesystemError] }) 2
          fun _ _ => 100)) new
        (connect quitter ++ .replicate 10 (.session 0))).map (·.terminated) = some true := by
  refine ⟨?_, ?_, ?_⟩ <;> decide +kernel

end LiveServer
end Streamer

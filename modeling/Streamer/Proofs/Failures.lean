import Streamer.Proofs.Replies

/-!
# What a failure leaves on the connection

A client can follow the replies only while every body has the length its header announced
(`Synced`) and nothing follows a reply that was cut (`Silent`). Both are statements about the
trace of a run, for any media files and any kernel. Neither holds of every run: a file that gives
less than its size leaves the session alive with a debt, and the result of sending an `ERROR` line
is thrown away. They hold of every run in which no read falls short and no `ERROR` line fails.
-/

namespace Streamer
open Text Kernel Filesystem

namespace ClientSession

/-- Whenever the session reads another request the client has got all the body bytes it was promised;
`k` are owed at the start. -/
def Synced : Int → List Event → Prop
  | _, [] => True
  | k, e :: evs => (e = .recvLine → k = 0) ∧ Synced (e.owe k) evs

instance Synced.decidable : ∀ k evs, Decidable (Synced k evs)
  | _, [] => .isTrue trivial
  | k, e :: evs =>
    have := Synced.decidable (e.owe k) evs
    inferInstanceAs (Decidable (_ ∧ _))

/-- After a send that failed no byte is put on the connection. -/
def Silent (evs : List Event) : Prop := evs.Pairwise fun e e' => e.failed = true → e'.bytes = []

instance (evs : List Event) : Decidable (Silent evs) := inferInstanceAs (Decidable (List.Pairwise _ _))

theorem synced_append {k : Int} {evs evs' : List Event} :
    Synced k (evs ++ evs') ↔ Synced k evs ∧ Synced (evs.foldl Event.owe k) evs' := by
  induction evs generalizing k with
  | nil => simp [Synced]
  | cons e evs ih => simp only [List.cons_append, Synced, ih, List.foldl_cons, and_assoc]

theorem synced_of_no_recvLine {k : Int} {evs : List Event} (h : .recvLine ∉ evs) : Synced k evs := by
  induction evs generalizing k with
  | nil => trivial
  | cons e evs ih => exact ⟨fun he => absurd (by simp [he]) h, ih fun he => h (by simp [he])⟩

theorem silent_of_failed_last {evs : List Event} (h : ∀ e ∈ evs.dropLast, e.failed = false) :
    Silent evs := by
  rcases List.eq_nil_or_concat evs with rfl | ⟨init, last, rfl⟩
  · exact .nil
  · simp only [List.concat_eq_append, List.dropLast_concat] at h ⊢
    refine List.pairwise_append.2 ⟨?_, List.pairwise_singleton _ _, ?_⟩
    · exact List.Pairwise.imp_of_mem (fun he _ _ hf => by rw [h _ he] at hf; cases hf)
        (List.pairwise_of_forall fun _ _ => trivial)
    · intro e he _ _ hf
      rw [h e he] at hf; cases hf

theorem silent_begin {r : Request} {evs : List Event} (h : Silent evs) :
    Silent (.recvLine :: .request r :: evs) := by
  refine List.Pairwise.cons ?_ (.cons ?_ h)
  · intro e _ hf
    simp [Event.failed] at hf
  · intro e _ hf
    simp [Event.failed] at hf

/-- What every run does, in one induction. -/
theorem Runs.events {cfg : Config} {s : ClientSession} {res : Option Exn × ClientSession}
    (h : Runs cfg s res) :
    ∃ evs, res.2.trace = s.trace ++ evs ∧ res.2.socket.sent = s.socket.sent ++ evs.flatMap Event.bytes ∧
      ((∀ e ∈ evs, e.failed = false) → (∀ e ∈ evs, e.short = false) → Synced 0 evs) ∧
      ((∀ e ∈ evs, e.unnoticed = false) → Silent evs) := by
  have hload (s : ClientSession) := Extends.loadActive s
  have hbegin (s : ClientSession) (r : Request) :
      (s.loadActive.2.recvLine.2.2.emit (.request r)).trace = s.trace ++ [.recvLine, .request r] ∧
        (s.loadActive.2.recvLine.2.2.emit (.request r)).socket.sent = s.socket.sent := by
    obtain ⟨h1, h2, -⟩ := s.loadActive.2.recvLine_spec
    simp [emit, h1, h2, (hload s).trace, (hload s).sent]
  induction h with
  | @stopped s hl =>
      exact ⟨[], by simp [(hload s).trace], by simp [(hload s).sent], fun _ _ => trivial, fun _ => .nil⟩
  | @ended s hl hr =>
    obtain ⟨h1, h2, -⟩ := s.loadActive.2.recvLine_spec
    refine ⟨[.recvLine], by simp [h1, (hload s).trace], by simp [h2, (hload s).sent, Event.bytes], ?_, ?_⟩
    · exact fun _ _ => ⟨fun _ => rfl, trivial⟩
    · exact fun _ => List.pairwise_singleton _ _
  | @thrown s r x hl hr hp hx =>
    obtain ⟨evs, hh, -⟩ := Served.handle (s.loadActive.2.recvLine.2.2.emit (.request r)) cfg r
    refine ⟨.recvLine :: .request r :: evs, ?_, ?_, ?_, ?_⟩
    · simp [hh.trace, (hbegin s r).1]
    · simp [hh.sent, (hbegin s r).2, Event.bytes]
    · intro _ _
      exact ⟨fun _ => rfl, by simp, synced_of_no_recvLine hh.no_recvLine⟩
    · intro _
      exact silent_begin (silent_of_failed_last hh.failed_last)
  | @next s r res hl hr hp hx hrest ih =>
    obtain ⟨evs, hh, hset⟩ := Served.handle (s.loadActive.2.recvLine.2.2.emit (.request r)) cfg r
    obtain ⟨evs', htr, hsent, hsync, hsil⟩ := ih
    -- an inactive session adds no event
    have hend : (handle cfg (s.loadActive.2.recvLine.2.2.emit (.request r)) r).2.isActive = false →
        evs' = [] := by
      intro hi
      rw [hrest.of_inactive hi, disconnect_trace, (hload _).trace, List.append_nil] at htr
      simpa using htr
    refine ⟨.recvLine :: .request r :: (evs ++ evs'), ?_, ?_, ?_, ?_⟩
    · simp [htr, hh.trace, (hbegin s r).1]
    · simp [hsent, hh.sent, (hbegin s r).2, Event.bytes]
    · intro hok hfull
      refine ⟨fun _ => rfl, by simp, synced_append.2 ⟨synced_of_no_recvLine hh.no_recvLine, ?_⟩⟩
      cases hact : (handle cfg (s.loadActive.2.recvLine.2.2.emit (.request r)) r).2.isActive with
      | false => rw [hend hact]; trivial
      | true =>
        have hzero := hset hx hact (fun e he => hok e (by simp [he])) fun e he => hfull e (by simp [he])
        simp only [Event.owe]
        rw [hzero]
        exact hsync (fun e he => hok e (by simp [he])) fun e he => hfull e (by simp [he])
    · intro hc
      refine silent_begin (List.pairwise_append.2 ⟨?_, ?_, ?_⟩)
      · exact silent_of_failed_last hh.failed_last
      · exact hsil fun e he => hc e (by simp [he])
      · intro e he e' he' hf
        have hi : (handle cfg (s.loadActive.2.recvLine.2.2.emit (.request r)) r).2.isActive = false := by
          rcases hh.noticed e he hf with h | h
          · rw [hc e (by simp [he])] at h; cases h
          · exact h
        rw [hend hi] at he'
        cases he'

/-! ### Files that change under a transfer -/

/-- When all sends succeed and no read falls short of what is asked for, every body has the length
that its header announced before the next request is read. -/
theorem run_synced (cfg : Config) (socket : Socket) (stops : List Bool)
    (hsend : ∀ e ∈ (run cfg (.new socket stops)).2.trace, e.failed = false)
    (hread : ∀ e ∈ (run cfg (.new socket stops)).2.trace, e.short = false) :
    Synced 0 (run cfg (.new socket stops)).2.trace := by
  obtain ⟨evs, htr, -, hsync, -⟩ := (run_runs cfg (.new socket stops)).events
  simp only [ClientSession.new, List.nil_append] at htr
  simp only [ClientSession.new, htr] at hsend hread ⊢
  exact hsync hsend hread

theorem sample_synced : Synced 0 (run (.new (sampleManager.media sampleFs) 1 1)
    (.new (connection (ascii "GET a\nGET a\n") 2 99 99))).2.trace :=
  run_synced (.new (sampleManager.media sampleFs) 1 1) (connection (ascii "GET a\nGET a\n") 2 99 99) []
    (by decide +kernel) (by decide +kernel)

/-- A file of two bytes, cut to one between the size query and the first read. -/
def shrunk : Media where
  listFiles _ := .ok [⟨ascii "a", 2⟩]
  getFileSize _ _ := some 2
  openBinaryFile _ _ := some (.ofContent (ascii "x"))

/-- The client takes the first byte of the second reply for the last byte of the file. -/
theorem shrunk_not_synced :
    (∀ e ∈ (run (.new shrunk 4 4) (.new (connection (ascii "GET a\nQUIT\n") 9 11 9))).2.trace,
      e.failed = false) ∧
    ¬ Synced 0 (run (.new shrunk 4 4) (.new (connection (ascii "GET a\nQUIT\n") 9 11 9))).2.trace ∧
    (run (.new shrunk 4 4) (.new (connection (ascii "GET a\nQUIT\n") 9 11 9))).2.socket.sent =
      ascii "OK 2\nxOK BYE\n" := by
  decide +kernel

/-! ### Sends that fail -/

/-- When no `ERROR` line fails, a failed send is the last thing the session does to the connection;
and on an unchanging media directory the client gets a prefix of the complete replies. -/
theorem run_silent (cfg : Config) (socket : Socket) (stops : List Bool)
    (hcheck : ∀ e ∈ (run cfg (.new socket stops)).2.trace, e.unnoticed = false) :
    (Silent (run cfg (.new socket stops)).2.trace ∧ (run cfg (.new socket stops)).2.socket.sent =
        socket.sent ++ (run cfg (.new socket stops)).2.trace.flatMap Event.bytes) ∧
      ∀ fm fs, cfg.fileManager = FileManager.media fm fs →
        ∃ acc, (run cfg (.new socket stops)).2.socket.sent = socket.sent ++ acc ∧
          acc <+: (replies fm fs (lines socket.inbox)).flatten := by
  have hruns := run_runs cfg (.new socket stops)
  obtain ⟨evs, htr, hsent, -, hsil⟩ := hruns.events
  refine ⟨?_, ?_⟩
  · simp only [ClientSession.new, List.nil_append] at htr hsent hcheck ⊢
    rw [htr] at hcheck ⊢
    exact ⟨hsil hcheck, hsent⟩
  · intro fm fs hm
    obtain ⟨accs, served, hsent, -, -, hpre⟩ := hruns.sends_parts hm
    exact ⟨_, hsent, hpre hcheck⟩

theorem sample_silent :
    let socket :=
        { connection (ascii "GET a\nGET a\n") 9 99 0 with sends := [.moves 9, .fails .EAGAIN, .moves 9] }
    Silent (run (.new (sampleManager.media sampleFs) 1 1) (.new socket)).2.trace :=
  (run_silent (.new (sampleManager.media sampleFs) 1 1)
    { connection (ascii "GET a\nGET a\n") 9 99 0 with sends := [.moves 9, .fails .EAGAIN, .moves 9] } []
    (by decide +kernel)).1.1

/-- The first `ERROR` line is cut after three bytes, the second one follows it. -/
theorem cut_error_not_silent :
    let socket :=
        { connection (ascii "x\ny\n") 9 99 0 with sends := [.moves 3, .fails .EAGAIN, .moves 99] }
    let res := run (.new (sampleManager.media sampleFs) 1 1) (.new socket)
    ¬ Silent res.2.trace ∧ res.2.socket.sent = ascii "ERRERROR INVALID_REQUEST\n" ∧
      ¬ res.2.socket.sent <+: (replies sampleManager sampleFs (lines socket.inbox)).flatten := by
  decide +kernel

end ClientSession
end Streamer

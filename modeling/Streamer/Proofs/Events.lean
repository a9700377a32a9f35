import Streamer.ClientSession

/-!
# The events of a session

What the calls of a session add to its trace, for any media files and any answers of the kernel.
`Extends s s' evs` is the frame of every call but `recv_line`: the events are appended, the bytes that
they carry go to the connection, the input is untouched. `Streams` is the streaming loop of
`handle_get` without its fuel, one constructor for each way through it, and `Handled` says what one
request can do; the results about whole runs use only these.
-/

namespace Streamer
open Text Kernel Filesystem

def Event.bytes : Event → Bytes
  | .send _ _ accepted _ => accepted
  | _ => []

def Event.failed : Event → Bool
  | .send _ _ _ ok => !ok
  | _ => false

/-- The four `ERROR` lines, whose callers do not look at the result of the send. -/
def Site.isError : Site → Bool
  | .emptyFilename | .fileNotFound | .fileOpenFailed | .invalidRequest => true
  | _ => false

def Event.unnoticed : Event → Bool
  | .send site _ _ ok => site.isError && !ok
  | _ => false

def Event.short : Event → Bool
  | .read asked got => got.length != asked
  | _ => false

/-- The body bytes that the client still has to get, after the event: a header promises `n`, a chunk
delivers what the kernel took of it. -/
def Event.owe : Int → Event → Int
  | _, .send (.header n) _ _ true => n
  | k, .send .chunk _ accepted _ => k - accepted.length
  | k, _ => k

def Event.isLog : Event → Bool
  | .successful _ | .premature _ _ => true
  | _ => false

namespace ClientSession

/-! ### The calls on the socket and on `is_active_` -/

section
variable (s : ClientSession)

theorem send_spec (site : Site) (data : Bytes) :
    ∃ acc, acc <+: data ∧ ((s.send site data).1 = true → acc = data) ∧
      (s.send site data).2 =
        { s with
          socket := { s.socket with sent := s.socket.sent ++ acc, sends := (s.socket.sendAll data).2.sends }
          trace := s.trace ++ [.send site data acc (s.send site data).1] } := by
  obtain ⟨acc, hpre, hok, hs⟩ := s.socket.sendAll_spec data
  have hsent := congrArg Socket.sent hs
  refine ⟨acc, hpre, hok, ?_⟩
  simp only [send, emit, hsent, List.drop_left]
  rw [← hs]

theorem loadActive_true {s₁ : ClientSession} (h : s.loadActive = (true, s₁)) :
    s.isActive = true ∧ s₁ = { s with stops := s₁.stops } := by
  unfold loadActive at h
  split at h
  · obtain ⟨ha, rfl⟩ := Prod.mk.inj h
    exact ⟨ha, rfl⟩
  · rename_i stopped stops _
    cases stopped <;> simp only [if_true, if_false, Bool.false_eq_true, Prod.mk.injEq] at h
    · obtain ⟨ha, rfl⟩ := h
      exact ⟨ha, rfl⟩
    · obtain ⟨ha, rfl⟩ := h
      simp only [stop] at ha
      split at ha
      · cases ha
      · exact absurd ha ‹_›

theorem loadActive_unstopped (h : s.stops = []) : s.loadActive = (s.isActive, s) := by
  simp [loadActive, h]

theorem loadActive_fst : s.loadActive.1 = s.loadActive.2.isActive := by
  unfold loadActive
  split <;> rfl

end

/-! ### The frame -/

/-- From `s` to `s'` the events `evs` have happened and nothing was received. -/
structure Extends (s s' : ClientSession) (evs : List Event) : Prop where
  trace : s'.trace = s.trace ++ evs
  sent : s'.socket.sent = s.socket.sent ++ evs.flatMap Event.bytes
  inbox : s'.socket.inbox = s.socket.inbox
  fin : s'.socket.fin = s.socket.fin
  recvs : s'.socket.recvs = s.socket.recvs
  unstopped : s.stops = [] → s'.stops = [] ∧ s'.socket.fd = s.socket.fd

namespace Extends
variable {s s' s'' : ClientSession} {evs evs' : List Event} {e : Event}

theorem refl (s : ClientSession) : Extends s s [] := ⟨by simp, by simp, rfl, rfl, rfl, fun h => ⟨h, rfl⟩⟩

theorem trans (h : Extends s s' evs) (h' : Extends s' s'' evs') : Extends s s'' (evs ++ evs') where
  trace := by rw [h'.trace, h.trace, List.append_assoc]
  sent := by rw [h'.sent, h.sent, List.flatMap_append, List.append_assoc]
  inbox := h'.inbox.trans h.inbox
  fin := h'.fin.trans h.fin
  recvs := h'.recvs.trans h.recvs
  unstopped := fun h0 =>
    have h1 := h.unstopped h0
    have h2 := h'.unstopped h1.1
    ⟨h2.1, h2.2.trans h1.2⟩

theorem emit (s : ClientSession) (he : e.bytes = []) : Extends s (s.emit e) [e] :=
  ⟨rfl, by simp [ClientSession.emit, he], rfl, rfl, rfl, fun h => ⟨h, rfl⟩⟩

theorem tick (s : ClientSession) : Extends s s.tick [] :=
  ⟨by simp [ClientSession.tick], by simp [ClientSession.tick], rfl, rfl, rfl, fun h => ⟨h, rfl⟩⟩

theorem setActive (h : Extends s s' evs) (b : Bool) : Extends s { s' with isActive := b } evs :=
  ⟨h.trace, h.sent, h.inbox, h.fin, h.recvs, h.unstopped⟩

theorem loadActive (s : ClientSession) : Extends s s.loadActive.2 [] := by
  unfold ClientSession.loadActive
  split
  · exact refl s
  · rename_i stopped stops hs
    have hne : s.stops ≠ [] := by simp [hs]
    cases stopped <;> simp only [if_true, if_false, Bool.false_eq_true, stop]
    · exact ⟨by simp, by simp, rfl, rfl, rfl, fun h => absurd h hne⟩
    · split
      · unfold Socket.close
        split <;> exact ⟨by simp, by simp, rfl, rfl, rfl, fun h => absurd h hne⟩
      · exact ⟨by simp, by simp, rfl, rfl, rfl, fun h => absurd h hne⟩

theorem send (s : ClientSession) (site : Site) (data : Bytes) :
    ∃ acc, acc <+: data ∧ ((s.send site data).1 = true → acc = data) ∧
      (s.send site data).2.isActive = s.isActive ∧
      Extends s (s.send site data).2 [.send site data acc (s.send site data).1] := by
  obtain ⟨acc, hpre, hok, hs⟩ := s.send_spec site data
  refine ⟨acc, hpre, hok, by rw [hs], ?_⟩
  rw [hs]
  exact ⟨rfl, by simp [Event.bytes], rfl, rfl, rfl, fun h => ⟨h, rfl⟩⟩

end Extends

/-! ### The streaming loop -/

theorem endTransfer_spec (fileSize totalSent : Nat) (s : ClientSession) :
    ∃ logs, Extends s (endTransfer fileSize totalSent s) logs ∧ (∀ e ∈ logs, e.isLog = true) ∧
      ((endTransfer fileSize totalSent s).isActive = true → s.isActive = true) ∧
      (s.stops = [] → (endTransfer fileSize totalSent s).isActive = s.isActive ∧
        (endTransfer fileSize totalSent s).socket = s.socket) := by
  unfold endTransfer
  split
  · exact ⟨_, .emit s rfl, by simp [Event.isLog], id, fun _ => ⟨rfl, rfl⟩⟩
  · have hl := Extends.loadActive s
    have hact : s.loadActive.2.isActive = true → s.isActive = true := fun h =>
      (s.loadActive_true (Prod.ext ((loadActive_fst s).trans h) rfl)).1
    have hst : s.stops = [] → s.loadActive.2.isActive = s.isActive ∧
        s.loadActive.2.socket = s.socket := fun h => by
      simp [s.loadActive_unstopped h]
    dsimp only
    split
    · exact ⟨_, hl.trans (.emit _ rfl), by simp [Event.isLog], hact, hst⟩
    · exact ⟨_, hl, by simp, hact, hst⟩

/-- The loop of `handle_get` without its fuel: `s'` is the session after it, from the `nth` read
on. -/
inductive Streams (chunkSize : Nat) (file : FileStream) (fileSize : Nat) :
    (nth totalSent : Nat) → (good : Bool) → (s s' : ClientSession) → Prop
  | stopped {nth totalSent good s} (hl : s.loadActive.1 = false) :
      Streams chunkSize file fileSize nth totalSent good s (endTransfer fileSize totalSent s.loadActive.2)
  | ended {nth totalSent good s} (h : fileSize ≤ totalSent ∨ good = false) :
      Streams chunkSize file fileSize nth totalSent good s (endTransfer fileSize totalSent s.loadActive.2)
  | zero {nth totalSent s asked} (hl : s.loadActive.1 = true) (ht : totalSent < fileSize)
      (ha : asked = min chunkSize (fileSize - totalSent)) (hr : file.read nth totalSent asked = []) :
      Streams chunkSize file fileSize nth totalSent true s
        (endTransfer fileSize totalSent (s.loadActive.2.emit (.read asked [])))
  | failed {nth totalSent s asked buffer} (hl : s.loadActive.1 = true) (ht : totalSent < fileSize)
      (ha : asked = min chunkSize (fileSize - totalSent)) (hr : file.read nth totalSent asked = buffer)
      (hne : buffer ≠ [])
      (hs : ((s.loadActive.2.emit (.read asked buffer)).send .chunk buffer).1 = false) :
      Streams chunkSize file fileSize nth totalSent true s
        { ((s.loadActive.2.emit (.read asked buffer)).send .chunk buffer).2 with isActive := false }
  | next {nth totalSent s s' asked buffer} (hl : s.loadActive.1 = true) (ht : totalSent < fileSize)
      (ha : asked = min chunkSize (fileSize - totalSent)) (hr : file.read nth totalSent asked = buffer)
      (hne : buffer ≠ []) (hs : ((s.loadActive.2.emit (.read asked buffer)).send .chunk buffer).1 = true)
      (hrest : Streams chunkSize file fileSize (nth + 1) (totalSent + buffer.length)
        (buffer.length == asked)
        ((s.loadActive.2.emit (.read asked buffer)).send .chunk buffer).2 s') :
      Streams chunkSize file fileSize nth totalSent true s s'

/-- With more turns than bytes to send the loop ends by itself, and `total_sent` does not wrap. -/
theorem streamLoop_streams (chunkSize : Nat) (file : FileStream) {fileSize : Nat}
    (hsize : fileSize < 2 ^ 64)
    (fuel nth : Nat) {totalSent : Nat} (good : Bool) (s : ClientSession) (hle : totalSent ≤ fileSize)
    (hfuel : fileSize - totalSent < fuel) :
    Streams chunkSize file fileSize nth totalSent good s
      (streamLoop chunkSize file fileSize fuel nth totalSent good s) := by
  induction fuel generalizing nth totalSent good s with
  | zero => omega
  | succ fuel ih =>
    unfold streamLoop
    dsimp only
    split
    · rename_i hc
      simp only [Bool.and_eq_true, decide_eq_true_eq] at hc
      obtain ⟨⟨hl, ht⟩, rfl⟩ := hc
      have hread := file.read_le nth totalSent (min chunkSize (fileSize - totalSent))
      split
      · rename_i hempty
        have hnil := List.isEmpty_iff.1 hempty
        rw [hnil]
        exact .zero hl ht rfl hnil
      · rename_i hne
        have hlen := List.length_pos_iff.2 (show file.read nth totalSent _ ≠ [] by simpa using hne)
        split
        · rename_i hs
          exact .failed hl ht rfl rfl (by simpa using hne) (by simpa using hs)
        · rename_i hs
          rw [Nat.mod_eq_of_lt (by omega)]
          exact .next hl ht rfl rfl (by simpa using hne) (by simpa using hs)
            (ih _ _ _ (by omega) (by omega))
    · rename_i hc
      simp only [Bool.and_eq_true, decide_eq_true_eq, not_and_or, Bool.not_eq_true] at hc
      rcases hc with (hl | ht) | hg
      · exact .stopped hl
      · exact .ended (.inl (by omega))
      · exact .ended (.inr hg)

/-! ### One request -/

/-- What handling a request does, whatever the media files, the kernel and other threads do: only
the last send may have failed, and then the session is over unless it was an `ERROR` line. -/
structure Handled (s s' : ClientSession) (evs : List Event) : Prop extends Extends s s' evs where
  no_recvLine : .recvLine ∉ evs
  failed_last : ∀ e ∈ evs.dropLast, e.failed = false
  noticed : ∀ e ∈ evs, e.failed = true → e.unnoticed = true ∨ s'.isActive = false

namespace Handled
variable {s s' s'' : ClientSession} {evs evs' : List Event}

theorem of_silent (h : Extends s s' evs) (hrecv : .recvLine ∉ evs) (hsend : ∀ e ∈ evs, e.failed = false) :
    Handled s s' evs :=
  ⟨h, hrecv, fun e he => hsend e (List.dropLast_subset _ he),
    fun e he hf => by rw [hsend e he] at hf; cases hf⟩

theorem append (h : Extends s s' evs) (hrecv : .recvLine ∉ evs) (hsend : ∀ e ∈ evs, e.failed = false)
    (h' : Handled s' s'' evs') : Handled s s'' (evs ++ evs') where
  toExtends := h.trans h'.toExtends
  no_recvLine := by simp [hrecv, h'.no_recvLine]
  failed_last := by
    intro e he
    by_cases hnil : evs' = []
    · simp only [hnil, List.append_nil] at he
      exact hsend e (List.dropLast_subset _ he)
    · rw [List.dropLast_append_of_ne_nil hnil] at he
      rcases List.mem_append.1 he with he | he
      · exact hsend e he
      · exact h'.failed_last e he
  noticed := by
    intro e he hf
    rcases List.mem_append.1 he with he | he
    · rw [hsend e he] at hf; cases hf
    · exact h'.noticed e he hf

theorem send (s : ClientSession) (site : Site) (data : Bytes) {s'' : ClientSession}
    (h : ∀ evs, Extends s (s.send site data).2 evs → Extends s s'' evs)
    (hcheck : (s.send site data).1 = false → site.isError = true ∨ s''.isActive = false) :
    ∃ acc, acc <+: data ∧ ((s.send site data).1 = true → acc = data) ∧
      Handled s s'' [.send site data acc (s.send site data).1] := by
  obtain ⟨acc, hpre, hok, -, hext⟩ := Extends.send s site data
  refine ⟨acc, hpre, hok, h _ hext, by simp, by simp, ?_⟩
  intro e he hf
  obtain rfl := List.mem_singleton.1 he
  have hf : (s.send site data).1 = false := by simpa [Event.failed] using hf
  exact (hcheck hf).imp_left fun h => by simp [Event.unnoticed, h, hf]

end Handled

/-- If every send succeeds and every read gives what was asked for, `evs` takes the debt from `k` to
`k'`. -/
def Settles (k k' : Int) (evs : List Event) : Prop :=
  (∀ e ∈ evs, e.failed = false) → (∀ e ∈ evs, e.short = false) →
    evs.foldl Event.owe k = k'

theorem Settles.append {k k' k'' : Int} {evs evs' : List Event} (h : Settles k k' evs)
    (h' : Settles k' k'' evs') : Settles k k'' (evs ++ evs') := by
  intro hok hfull
  rw [List.foldl_append, h (fun e he => hok e (by simp [he])) fun e he => hfull e (by simp [he])]
  exact h' (fun e he => hok e (by simp [he])) fun e he => hfull e (by simp [he])

theorem flatMap_bytes_logs {logs : List Event} (h : ∀ e ∈ logs, e.isLog = true) :
    logs.flatMap Event.bytes = [] := by
  refine List.flatMap_eq_nil_iff.2 ?_
  intro e he
  have := h e he
  cases e <;> simp_all [Event.isLog, Event.bytes]

theorem settles_logs {k : Int} {logs : List Event} (h : ∀ e ∈ logs, e.isLog = true) :
    Settles k k logs := by
  intro _ _
  refine List.foldlRecOn (motive := (· = k)) logs Event.owe rfl ?_
  intro k' hk e he
  have := h e he
  cases e <;> simp_all [Event.isLog, Event.owe]

section
variable {s s' : ClientSession} {logs : List Event}

theorem Handled.of_logs (h : Extends s s' logs) (hlogs : ∀ e ∈ logs, e.isLog = true) :
    Handled s s' logs := by
  refine .of_silent h (fun he => by simpa [Event.isLog] using hlogs _ he) ?_
  intro e he
  have := hlogs e he
  cases e <;> simp_all [Event.isLog, Event.failed]

variable {chunkSize : Nat} {file : FileStream} {fileSize nth totalSent : Nat} {good : Bool}

theorem Streams.handled (hc : 0 < chunkSize) (h : Streams chunkSize file fileSize nth totalSent good s s')
    (hle : totalSent ≤ fileSize) :
    ∃ evs, Handled s s' evs ∧
      (good = true → s'.isActive = true → Settles (fileSize - totalSent) 0 evs) := by
  induction h with
  | @stopped nth totalSent good s hl =>
    obtain ⟨logs, hext, hlogs, hact, -⟩ := endTransfer_spec fileSize totalSent s.loadActive.2
    refine ⟨_, .of_logs ((Extends.loadActive s).trans hext) hlogs, ?_⟩
    intro _ ha
    rw [loadActive_fst, hact ha] at hl
    cases hl
  | @ended nth totalSent good s h =>
    obtain ⟨logs, hext, hlogs, -⟩ := endTransfer_spec fileSize totalSent s.loadActive.2
    refine ⟨_, .of_logs ((Extends.loadActive s).trans hext) hlogs, ?_⟩
    intro hgood _
    have : (fileSize : Int) - totalSent = 0 := by
      rcases h with h | h
      · omega
      · rw [hgood] at h; cases h
    rw [this]
    exact settles_logs hlogs
  | @zero nth totalSent s asked hl ht ha hr =>
    obtain ⟨logs, hext, hlogs, -⟩ :=
      endTransfer_spec fileSize totalSent (s.loadActive.2.emit (.read asked []))
    refine ⟨_, .append ((Extends.loadActive s).trans (.emit _ rfl)) (by simp) (by simp [Event.failed])
      (.of_logs hext hlogs), ?_⟩
    intro _ _ _ hfull
    have := hfull (.read asked []) (by simp)
    simp [Event.short] at this
    omega
  | @failed nth totalSent s asked buffer hl ht ha hr hne hs =>
    obtain ⟨acc, -, -, h⟩ := Handled.send (s.loadActive.2.emit (.read asked buffer)) .chunk buffer
      (fun _ h => h.setActive false) fun _ => .inr rfl
    exact ⟨_, .append ((Extends.loadActive s).trans (.emit _ rfl)) (by simp)
      (by simp [Event.failed]) h, fun _ => nofun⟩
  | @next nth totalSent s s' asked buffer hl ht ha hr hne hs hrest ih =>
    obtain ⟨acc, -, hacc, -, hsend⟩ :=
      Extends.send (s.loadActive.2.emit (.read asked buffer)) .chunk buffer
    rw [hs] at hsend hacc
    have hlen := file.read_le nth totalSent asked
    rw [hr] at hlen
    have hpre := ((Extends.loadActive s).trans (.emit _ rfl)).trans hsend
    obtain ⟨evs, hh, hset⟩ := ih (by omega)
    refine ⟨_, .append hpre (by simp) (by simp [Event.failed]) hh, ?_⟩
    intro _ hact hok hfull
    have hall : buffer.length = asked := by simpa [Event.short] using hfull (.read asked buffer) (by simp)
    refine Settles.append ?_ (hset (by simpa using hall) hact) hok hfull
    intro _ _
    simp only [List.nil_append, List.singleton_append, List.foldl_cons, List.foldl_nil,
      Event.owe, hacc rfl]
    omega

end

/-- The events of one request, and the debt after it when the session goes on. -/
def Served (s : ClientSession) (res : Option Exn × ClientSession) : Prop :=
  ∃ evs, Handled s res.2 evs ∧ (res.1 = none → res.2.isActive = true → Settles 0 0 evs)

namespace Served
variable {s s' : ClientSession}

theorem send {res : Option Exn × ClientSession} (site : Site) (data : Bytes) (hpre : Extends s s' [])
    (hsite : res.2.isActive = true → ∀ acc ok, Event.owe 0 (.send site data acc ok) = 0)
    (h : ∀ evs, Extends s' (s'.send site data).2 evs → Extends s' res.2 evs)
    (hcheck : (s'.send site data).1 = false → site.isError = true ∨ res.2.isActive = false) :
    Served s res := by
  obtain ⟨acc, -, -, hh⟩ := Handled.send s' site data h hcheck
  exact ⟨_, .append hpre (by simp) (by simp) hh, fun _ hact _ _ => hsite hact _ _⟩

theorem sendError (site : Site) (message : Bytes) (hpre : Extends s s' []) (he : site.isError = true) :
    Served s (none, s'.sendError site message) :=
  send site _ hpre (fun _ _ _ => by cases site <;> first | rfl | cases he) (fun _ h => h) fun _ => .inl he

variable (cfg : Config) (s)

theorem handleList : Served s (handleList cfg s) := by
  unfold ClientSession.handleList
  split
  · exact ⟨_, .of_silent (.tick s) (by simp) (by simp), nofun⟩
  · rename_i files _
    refine send .list (Protocol.buildListResponse files) (.tick s) (fun _ _ _ => rfl) ?_ fun h => .inr ?_
    · intro evs h
      dsimp only
      split
      · exact h.setActive false
      · exact h
    · simp [h]

theorem transfer (file : FileStream) {fileSize : Nat} (hsize : fileSize < 2 ^ 64) :
    Served s (transfer cfg s file fileSize) := by
  unfold ClientSession.transfer
  dsimp only
  split
  · exact send (.header fileSize) _ (.refl s) nofun (fun _ h => h.setActive false) fun _ => .inr rfl
  rename_i hok
  obtain ⟨acc, -, -, -, hsend⟩ := Extends.send s (.header fileSize) (Protocol.buildGetHeader fileSize)
  rw [show (s.send (.header fileSize) (Protocol.buildGetHeader fileSize)).1 =
    true by simpa using hok] at hsend
  split
  · exact ⟨_, .of_silent hsend (by simp) (by simp [Event.failed]), nofun⟩
  · have hst := streamLoop_streams cfg.chunkSize file hsize (fileSize + 1) 0 true
      (s.send (.header fileSize) (Protocol.buildGetHeader fileSize)).2 (Nat.zero_le _)
        (Nat.lt_succ_self _)
    obtain ⟨evs, hh, hset⟩ := hst.handled cfg.chunk_pos (Nat.zero_le _)
    refine ⟨_, .append hsend (by simp) (by simp [Event.failed]) hh, ?_⟩
    intro _ hact
    refine Settles.append ?_ (hset rfl hact)
    intro _ _
    simp [Event.owe]

theorem handleGet (filename : Bytes) : Served s (handleGet cfg s filename) := by
  unfold ClientSession.handleGet
  split
  · exact sendError _ _ (.refl s) rfl
  split
  · exact sendError _ _ (.tick s) rfl
  rename_i size _
  dsimp only
  have htick : Extends s s.tick.tick [] := (Extends.tick s).trans (.tick _)
  split
  · exact sendError _ _ htick rfl
  · rename_i file _
    obtain ⟨evs, hh, hset⟩ := transfer s.tick.tick cfg file size.toNat_lt
    exact ⟨_, .append htick (by simp) (by simp) hh, hset⟩

theorem handle (request : Request) : Served s (handle cfg s request) := by
  unfold ClientSession.handle
  split
  · exact handleList s cfg
  · exact handleGet s cfg _
  · exact send .bye _ (.refl s) nofun (fun _ h => h.setActive false) fun _ => .inr rfl
  · exact sendError _ _ (.refl s) rfl

end Served

/-! ### Whole runs -/

theorem recvLine_spec (s : ClientSession) :
    s.recvLine.2.2.trace = s.trace ++ [.recvLine] ∧ s.recvLine.2.2.socket.sent = s.socket.sent ∧
      s.recvLine.2.2.socket.sends = s.socket.sends ∧ s.recvLine.2.2.socket.fd = s.socket.fd ∧
      s.recvLine.2.2.isActive = s.isActive ∧ s.recvLine.2.2.stops = s.stops := by
  simp only [recvLine, Socket.recvLine, emit]
  split <;> simp

@[simp] theorem disconnect_trace (s : ClientSession) : s.disconnect.trace = s.trace := rfl

@[simp] theorem disconnect_sent (s : ClientSession) : s.disconnect.socket.sent = s.socket.sent := by
  simp only [disconnect, Socket.close]
  split <;> rfl

theorem recvs_recvLine {s : ClientSession} (h : s.recvLine.1 = true) :
    s.recvLine.2.2.socket.recvs.length < s.socket.recvs.length := by
  simp only [recvLine, Socket.recvLine, emit] at h ⊢
  split at h
  · rename_i hv
    rw [if_pos hv]
    exact Socket.recvLineLoop_length h
  · cases h

/-- The loop of `run` without its fuel: from `s` it ends with `res`. -/
inductive Runs (cfg : Config) : ClientSession → Option Exn × ClientSession → Prop
  | stopped {s} (hl : s.loadActive.1 = false) : Runs cfg s (none, s.loadActive.2.disconnect)
  | ended {s} (hl : s.loadActive.1 = true) (hr : s.loadActive.2.recvLine.1 = false) :
      Runs cfg s (none, s.loadActive.2.recvLine.2.2.disconnect)
  | thrown {s r x} (hl : s.loadActive.1 = true) (hr : s.loadActive.2.recvLine.1 = true)
      (hp : Protocol.parseRequest s.loadActive.2.recvLine.2.1 = r)
      (hx : (handle cfg (s.loadActive.2.recvLine.2.2.emit (.request r)) r).1 = some x) :
      Runs cfg s (some x, (handle cfg (s.loadActive.2.recvLine.2.2.emit (.request r)) r).2)
  | next {s r res} (hl : s.loadActive.1 = true) (hr : s.loadActive.2.recvLine.1 = true)
      (hp : Protocol.parseRequest s.loadActive.2.recvLine.2.1 = r)
      (hx : (handle cfg (s.loadActive.2.recvLine.2.2.emit (.request r)) r).1 = none)
      (hrest : Runs cfg (handle cfg (s.loadActive.2.recvLine.2.2.emit (.request r)) r).2 res) :
      Runs cfg s res

variable {cfg : Config} {s : ClientSession} {res : Option Exn × ClientSession}

theorem runLoop_runs {fuel : Nat} (hf : s.socket.recvs.length < fuel) :
    Runs cfg s (runLoop cfg fuel s) := by
  induction fuel generalizing s with
  | zero => omega
  | succ fuel ih =>
    unfold runLoop
    dsimp only
    split
    · rename_i hl
      split
      · rename_i hr
        split
        · rename_i x s' hh
          have h := Runs.thrown hl hr rfl (congrArg Prod.fst hh)
          rwa [hh] at h
        · rename_i s' hh
          refine .next hl hr rfl (congrArg Prod.fst hh) ?_
          obtain ⟨evs, hev, -⟩ := Served.handle (s.loadActive.2.recvLine.2.2.emit
            (.request (Protocol.parseRequest s.loadActive.2.recvLine.2.1))) cfg
            (Protocol.parseRequest s.loadActive.2.recvLine.2.1)
          have hrecvs := hev.recvs
          rw [hh] at hrecvs ⊢
          refine ih ?_
          have h1 := recvs_recvLine hr
          rw [(Extends.loadActive s).recvs] at h1
          rw [hrecvs]
          exact Nat.lt_of_lt_of_le h1 (Nat.le_of_lt_succ hf)
      · rename_i hr
        exact .ended hl (by simpa using hr)
    · rename_i hl
      exact .stopped (by simpa using hl)

theorem run_runs (cfg : Config) (s : ClientSession) : Runs cfg { s with isActive := true } (run cfg s) :=
  runLoop_runs (Nat.lt_succ_self _)

theorem Runs.of_inactive (h : Runs cfg s res) (hs : s.isActive = false) :
    res = (none, s.loadActive.2.disconnect) := by
  have hl : s.loadActive.1 = false := by
    by_contra hl
    have hload : s.loadActive = (true, s.loadActive.2) := Prod.ext (by simpa using hl) rfl
    have hact := (s.loadActive_true hload).1
    rw [hs] at hact
    cases hact
  cases h with
  | stopped => rfl
  | ended hl' => rw [hl] at hl'; cases hl'
  | thrown hl' => rw [hl] at hl'; cases hl'
  | next hl' => rw [hl] at hl'; cases hl'

theorem Runs.trace_prefix (h : Runs cfg s res) : s.trace <+: res.2.trace := by
  have hbegin (s : ClientSession) : s.trace <+: s.loadActive.2.recvLine.2.2.trace := by
    rw [(s.loadActive.2.recvLine_spec).1, (Extends.loadActive s).trace, List.append_nil]
    exact List.prefix_append _ _
  have hserve (s : ClientSession) (r : Request) : s.trace <+:
      (handle cfg (s.emit (.request r)) r).2.trace := by
    obtain ⟨evs, hh, -⟩ := Served.handle (s.emit (.request r)) cfg r
    rw [hh.trace]
    exact (List.prefix_append _ _).trans (List.prefix_append _ _)
  induction h with
  | @stopped s hl => simp [(Extends.loadActive s).trace]
  | @ended s hl hr => exact hbegin s
  | @thrown s r x hl hr hp hx => exact (hbegin s).trans (hserve _ r)
  | @next s r res hl hr hp hx hrest ih => exact ((hbegin s).trans (hserve _ r)).trans ih

end ClientSession
end Streamer

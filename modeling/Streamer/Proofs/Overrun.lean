import Streamer.Proofs.Events

/-!
# The body of a `GET` response stays within its header

`Metered` is what the trace of the streaming loop looks like at every moment, for any reads, any
answers of the kernel and a stop at any load of `is_active_` (a stop between two loads closes the
socket, which is one of the answers). It is kept by one turn of the loop (`Metered.turn`) and so
holds of all of it.
-/

namespace Streamer
open Text Kernel Filesystem

/-- The body bytes that the event hands to `send_all`. -/
def Event.handed : Event → Bytes
  | .send .chunk data _ _ => data
  | _ => []

/-- The body bytes that the kernel takes. -/
def Event.taken : Event → Bytes
  | .send .chunk _ accepted _ => accepted
  | _ => []

def Event.got : Event → Bytes
  | .read _ bytes => bytes
  | _ => []

namespace ClientSession

/-- With `total` bytes of `n` handed over before, the events hand over what they read and no more
than `n` bytes in all, and every read asks for what is left, up to a buffer. -/
structure Metered (chunkSize n total : Nat) (evs : List Event) : Prop where
  in_order : evs.flatMap Event.handed = evs.flatMap Event.got
  moment : ∀ front, front <+: evs →
    front.flatMap Event.handed <+: front.flatMap Event.got ∧
      total + (front.flatMap Event.handed).length ≤ n
  reads : ∀ front asked bytes rest, evs = front ++ .read asked bytes :: rest →
    total + (front.flatMap Event.handed).length < n ∧
      asked = min chunkSize (n - (total + (front.flatMap Event.handed).length)) ∧
      1 ≤ asked ∧ asked ≤ chunkSize ∧ bytes.length ≤ asked

/-- What the kernel took of the body, and what the log says of it. -/
structure Accounted (n total : Nat) (evs : List Event) : Prop where
  taken : evs.flatMap Event.taken <+: evs.flatMap Event.handed
  logged : (∃ t, .successful t ∈ evs) ↔ total + (evs.flatMap Event.taken).length = n

section
variable {chunkSize n total asked : Nat} {evs logs : List Event} {buffer acc : Bytes} {ok : Bool}

theorem flatMap_of_isLog {f : Event → Bytes} (hf : ∀ e : Event, e.isLog = true → f e = [])
    (h : ∀ e ∈ logs, e.isLog = true) : logs.flatMap f = [] := by
  rw [List.flatMap_eq_nil_iff]
  intro e he
  exact hf e (h e he)

theorem handed_of_isLog (e : Event) (h : e.isLog = true) : e.handed = [] := by
  cases e <;> first | rfl | cases h

theorem got_of_isLog (e : Event) (h : e.isLog = true) : e.got = [] := by
  cases e <;> first | rfl | cases h

theorem taken_of_isLog (e : Event) (h : e.isLog = true) : e.taken = [] := by
  cases e <;> first | rfl | cases h

namespace Metered

theorem of_logs (hle : total ≤ n) (h : ∀ e ∈ logs, e.isLog = true) : Metered chunkSize n total logs where
  in_order := by rw [flatMap_of_isLog handed_of_isLog h, flatMap_of_isLog got_of_isLog h]
  moment := by
    intro front hfront
    have hlog : ∀ e ∈ front, e.isLog = true := fun e he => h e (hfront.subset he)
    rw [flatMap_of_isLog handed_of_isLog hlog, flatMap_of_isLog got_of_isLog hlog]
    exact ⟨List.prefix_refl _, hle⟩
  reads := by
    rintro front asked bytes rest rfl
    have := h (.read asked bytes) (by simp)
    cases this

/-- The last read, which gives nothing. -/
theorem zero (hc : 0 < chunkSize) (ht : total < n) (ha : asked = min chunkSize (n - total))
    (h : ∀ e ∈ logs, e.isLog = true) : Metered chunkSize n total (.read asked [] :: logs) where
  in_order := by
    rw [List.flatMap_cons, List.flatMap_cons, (of_logs (Nat.le_of_lt ht) h : Metered chunkSize n total _).in_order]
    rfl
  moment := by
    intro front hfront
    rcases List.prefix_cons_iff.1 hfront with rfl | ⟨front', rfl, hfront'⟩
    · exact ⟨List.prefix_refl _, Nat.le_of_lt ht⟩
    · exact (of_logs (Nat.le_of_lt ht) h : Metered chunkSize n total _).moment front' hfront'
  reads := by
    rintro (_ | ⟨e, front⟩) asked' bytes rest heq
    · cases heq
      simp only [List.flatMap_nil, List.length_nil, Nat.add_zero]
      exact ⟨ht, ha, by omega, by omega, Nat.zero_le _⟩
    · injection heq with _ heq
      have := h (.read asked' bytes) (by simp [heq])
      cases this

/-- One turn of the loop: a read, and a send of what it gave, whatever comes of it. -/
theorem turn (hc : 0 < chunkSize) (ht : total < n) (ha : asked = min chunkSize (n - total))
    (hlen : buffer.length ≤ asked) (h : Metered chunkSize n (total + buffer.length) evs) :
    Metered chunkSize n total (.read asked buffer :: .send .chunk buffer acc ok :: evs) where
  in_order := by
    simp only [List.flatMap_cons, h.in_order]
    simp [Event.handed, Event.got]
  moment := by
    intro front hfront
    rcases List.prefix_cons_iff.1 hfront with rfl | ⟨front₁, rfl, hfront₁⟩
    · exact ⟨List.prefix_refl _, Nat.le_of_lt ht⟩
    rcases List.prefix_cons_iff.1 hfront₁ with rfl | ⟨front₂, rfl, hfront₂⟩
    · exact ⟨List.nil_prefix, Nat.le_of_lt ht⟩
    obtain ⟨horder, hle⟩ := h.moment front₂ hfront₂
    simp only [List.flatMap_cons, Event.handed, Event.got, List.nil_append, List.length_append]
    refine ⟨?_, by omega⟩
    obtain ⟨t, heq⟩ := horder
    exact ⟨t, by rw [List.append_assoc, heq]⟩
  reads := by
    intro front asked' bytes rest heq
    match front with
    | [] =>
      cases heq
      simp only [List.flatMap_nil, List.length_nil, Nat.add_zero]
      exact ⟨ht, ha, by omega, by omega, hlen⟩
    | [e] => simp at heq
    | e :: e' :: front =>
      simp only [List.cons_append, List.cons.injEq] at heq
      obtain ⟨rfl, rfl, heq⟩ := heq
      have := h.reads front asked' bytes rest heq
      simpa [Event.handed, Nat.add_assoc] using this

end Metered

theorem Accounted.of_logs (hlog : (∃ t, .successful t ∈ logs) ↔ total = n)
    (h : ∀ e ∈ logs, e.isLog = true) : Accounted n total logs where
  taken := by rw [flatMap_of_isLog taken_of_isLog h]; exact List.nil_prefix
  logged := by rw [hlog, flatMap_of_isLog taken_of_isLog h]; rfl

theorem Accounted.turn (h : Accounted n (total + buffer.length) evs) :
    Accounted n total (.read asked buffer :: .send .chunk buffer buffer true :: evs) where
  taken := by
    simp only [List.flatMap_cons, Event.taken, Event.handed, List.nil_append]
    obtain ⟨t, heq⟩ := h.taken
    exact ⟨t, by rw [List.append_assoc, heq]⟩
  logged := by
    have := h.logged
    simpa [Event.taken, Nat.add_assoc] using this

theorem Accounted.failed (hpre : acc <+: buffer) (hacc : acc.length < buffer.length)
    (hle : total + buffer.length ≤ n) :
    Accounted n total [.read asked buffer, .send .chunk buffer acc false] where
  taken := by simpa [Event.taken, Event.handed] using hpre
  logged := by
    simp [Event.taken]
    omega

end

/-! ### The loop -/

theorem endTransfer_logged (fileSize totalSent : Nat) (s : ClientSession) :
    ∃ logs, (endTransfer fileSize totalSent s).trace = s.trace ++ logs ∧
      (∀ e ∈ logs, e.isLog = true) ∧ ((∃ t, .successful t ∈ logs) ↔ totalSent = fileSize) := by
  unfold endTransfer
  split
  · rename_i heq
    exact ⟨_, rfl, by simp [Event.isLog], by simp [heq]⟩
  · rename_i hne
    have htrace := (Extends.loadActive s).trace
    rw [List.append_nil] at htrace
    dsimp only
    split
    · exact ⟨[.premature totalSent fileSize], by simp [emit, htrace], by simp [Event.isLog], by simp [hne]⟩
    · exact ⟨[], by simp [htrace], by simp, by simp [hne]⟩

/-- A send that fails has not passed on everything. -/
theorem send_failed (s : ClientSession) (site : Site) {data : Bytes} (hne : data ≠ [])
    (hs : (s.send site data).1 = false) :
    ∃ acc, acc <+: data ∧ acc.length < data.length ∧
      (s.send site data).2.trace = s.trace ++ [.send site data acc false] := by
  obtain ⟨acc, hpre, -, -, hext⟩ := Extends.send s site data
  have htrace := hext.trace
  have hsent : (s.send site data).2.socket.sent = s.socket.sent ++ acc := by
    simpa [Event.bytes] using hext.sent
  rw [hs] at htrace
  refine ⟨acc, hpre, ?_, htrace⟩
  have hshort := s.socket.sendAll_short hne hs
  rw [show (s.socket.sendAll data).2.sent = s.socket.sent ++ acc from hsent, List.length_append] at hshort
  omega

variable {chunkSize : Nat} {file : FileStream} {n nth total : Nat} {good : Bool} {s s' : ClientSession}

theorem Streams.metered (hc : 0 < chunkSize) (h : Streams chunkSize file n nth total good s s')
    (hle : total ≤ n) :
    ∃ evs, s'.trace = s.trace ++ evs ∧ Metered chunkSize n total evs ∧ Accounted n total evs := by
  have hload (s : ClientSession) : s.loadActive.2.trace = s.trace := by
    simpa using (Extends.loadActive s).trace
  induction h with
  | @stopped nth total good s hl =>
    obtain ⟨logs, htrace, hlogs, hlog⟩ := endTransfer_logged n total s.loadActive.2
    exact ⟨logs, by rw [htrace, hload], .of_logs hle hlogs, .of_logs hlog hlogs⟩
  | @ended nth total good s h =>
    obtain ⟨logs, htrace, hlogs, hlog⟩ := endTransfer_logged n total s.loadActive.2
    exact ⟨logs, by rw [htrace, hload], .of_logs hle hlogs, .of_logs hlog hlogs⟩
  | @zero nth total s asked hl ht ha hr =>
    obtain ⟨logs, htrace, hlogs, hlog⟩ :=
      endTransfer_logged n total (s.loadActive.2.emit (.read asked []))
    refine ⟨.read asked [] :: logs, ?_, .zero hc ht ha hlogs, ?_⟩
    · rw [htrace]
      simp [emit, hload]
    · have hacc := Accounted.of_logs hlog hlogs
      exact ⟨by simpa [Event.taken, Event.handed] using hacc.taken,
        by simpa [Event.taken] using hacc.logged⟩
  | @failed nth total s asked buffer hl ht ha hr hne hs =>
    have hlen := file.read_le nth total asked
    rw [hr] at hlen
    obtain ⟨acc, hpre, hacc, htrace⟩ := send_failed _ .chunk hne hs
    refine ⟨[.read asked buffer, .send .chunk buffer acc false], ?_, ?_, ?_⟩
    · rw [htrace]
      simp [emit, hload]
    · exact .turn hc ht ha hlen (.of_logs (by omega) (by simp))
    · exact .failed hpre hacc (by omega)
  | @next nth total s s' asked buffer hl ht ha hr hne hs hrest ih =>
    have hlen := file.read_le nth total asked
    rw [hr] at hlen
    obtain ⟨acc, -, hacc, -, hsend⟩ :=
      Extends.send (s.loadActive.2.emit (.read asked buffer)) .chunk buffer
    obtain ⟨evs, htrace, hmetered, haccounted⟩ := ih (by omega)
    refine ⟨.read asked buffer :: .send .chunk buffer buffer true :: evs, ?_,
      .turn hc ht ha hlen hmetered, .turn haccounted⟩
    rw [htrace, hsend.trace, hs, hacc hs]
    simp [emit, hload]

/-- From the header on, `handle_get` ends, and the trace of its loop is metered: the loop with
64-bit sums is the one of `Streams`, with exact sums. -/
theorem transfer_never_overruns (cfg : Config) (s : ClientSession) (file : FileStream) (n : Nat)
    (hn : n < 2 ^ 64) (hbuf : cfg.allocate = none) :
    (transfer cfg s file n).1 = none ∧
      ∃ acc ok evs, (transfer cfg s file n).2.trace =
          s.trace ++ .send (.header n) (Protocol.buildGetHeader n) acc ok :: evs ∧
        (ok = false → evs = []) ∧
        (ok = true →
          Streams cfg.chunkSize file n 0 0 true (s.send (.header n) (Protocol.buildGetHeader n)).2
            (transfer cfg s file n).2 ∧
          cfg.chunkSize < 2 ^ 63 ∧ Metered cfg.chunkSize n 0 evs ∧ Accounted n 0 evs) := by
  obtain ⟨acc, -, -, -, hsend⟩ := Extends.send s (.header n) (Protocol.buildGetHeader n)
  unfold transfer
  dsimp only
  cases hok : (s.send (.header n) (Protocol.buildGetHeader n)).1 with
  | false =>
    refine ⟨rfl, acc, false, [], ?_, fun _ => rfl, nofun⟩
    have htrace := hsend.trace
    rw [hok] at htrace
    exact htrace
  | true =>
    simp only [hbuf, Bool.not_true, Bool.false_eq_true, if_false]
    have hst := streamLoop_streams cfg.chunkSize file hn (n + 1) 0 true
      (s.send (.header n) (Protocol.buildGetHeader n)).2 (Nat.zero_le _) (Nat.lt_succ_self _)
    obtain ⟨evs, htrace, hmetered, haccounted⟩ := hst.metered cfg.chunk_pos (Nat.zero_le _)
    refine ⟨trivial, acc, true, evs, ?_, nofun, fun _ => ⟨hst, ?_, hmetered, haccounted⟩⟩
    · rw [htrace, hsend.trace, hok]
      simp
    · unfold Config.allocate at hbuf
      split at hbuf
      · cases hbuf
      · rename_i hmax
        simp only [VECTOR_MAX_SIZE] at hmax
        omega

/-- A session with a buffer of two bytes. -/
def tinyBuffer : Config := ⟨⟨fun _ => .ok [], fun _ _ => none, fun _ _ => none⟩, 2, 2, by decide⟩

/-- The file has grown to five bytes since its size was asked for: three are read and sent. -/
theorem transfer_grown_file :
    ∃ acc evs, (transfer tinyBuffer (.new ⟨4, [], true, [], [], .replicate 3 (.moves 50)⟩)
        (.ofContent (ascii "abcde")) 3).2.trace =
          .send (.header 3) (Protocol.buildGetHeader 3) acc true :: evs ∧
      Metered 2 3 0 evs ∧ Accounted 3 0 evs ∧
      evs = [.read 2 (ascii "ab"), .send .chunk (ascii "ab") (ascii "ab") true, .read 1 (ascii "c"),
        .send .chunk (ascii "c") (ascii "c") true, .successful 3] := by
  obtain ⟨-, acc, ok, evs, htrace, -, hmetered⟩ := transfer_never_overruns tinyBuffer
    (.new ⟨4, [], true, [], [], .replicate 3 (.moves 50)⟩) (.ofContent (ascii "abcde")) 3 (by decide) rfl
  have hrun : (transfer tinyBuffer (.new ⟨4, [], true, [], [], .replicate 3 (.moves 50)⟩)
      (.ofContent (ascii "abcde")) 3).2.trace =
      [.send (.header 3) (Protocol.buildGetHeader 3) (Protocol.buildGetHeader 3) true,
        .read 2 (ascii "ab"), .send .chunk (ascii "ab") (ascii "ab") true, .read 1 (ascii "c"),
        .send .chunk (ascii "c") (ascii "c") true, .successful 3] := by decide +kernel
  rw [hrun] at htrace
  injection htrace with hhead hevs
  injection hhead with _ _ hacc hok
  subst hok hevs
  exact ⟨_, _, hrun, (hmetered rfl).2.2.1, (hmetered rfl).2.2.2, rfl⟩

end ClientSession
end Streamer

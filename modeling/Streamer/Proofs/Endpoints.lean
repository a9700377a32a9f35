import Streamer.Conversation
import Streamer.Proofs.ClientRun

/-!
# The two sides of a conversation are lawful

A receive that is not kept waiting finds its bytes in the inbox, so what arrives behind them does not
change it (`recv_deliver`); no other step looks at the inbox. Hence the steps of the client and of the
session commute (`Conversation.commuting`).
-/

namespace Streamer
open Text Kernel Machine

/-- The answer of a receive that is not kept waiting does not depend on what comes later. -/
theorem Socket.recv_deliver {s : Socket} {len : Nat} {a : Answer} {sched : List Answer} (hlen : 0 < len)
    (h : s.recvs = a :: sched) (hb : s.blocks len = false) (hfin : s.fin = false) (bs : Bytes)
    (fin : Bool) :
    Kernel.recv len fin (s.inbox ++ bs) a = Kernel.recv len s.fin s.inbox a ∧
      ∀ chunk, Kernel.recv len s.fin s.inbox a = .ok chunk →
        chunk ≠ [] ∧ (s.inbox ++ bs).drop chunk.length = s.inbox.drop chunk.length ++ bs := by
  cases a with
  | fails e => exact ⟨rfl, nofun⟩
  | moves k =>
    have hle : min (max k 1) len ≤ s.inbox.length := by
      simpa only [Socket.blocks, h, hfin, Bool.not_false, Bool.true_and, decide_eq_false_iff_not,
        not_lt] using hb
    obtain ⟨ch, inbox, hin⟩ : ∃ ch inbox, s.inbox = ch :: inbox := by
      refine List.exists_cons_of_ne_nil ?_
      rintro hnil
      rw [hnil, List.length_nil] at hle
      omega
    have hrecv : Kernel.recv len s.fin s.inbox (.moves k) = .ok (s.inbox.take (min (max k 1) len)) := by
      simp [Kernel.recv, hin]
    refine ⟨?_, ?_⟩
    · rw [hrecv, hin]
      simp only [Kernel.recv, List.cons_append, List.isEmpty_cons, Bool.false_eq_true, if_false]
      rw [← List.cons_append, ← hin, List.take_append_of_le_length hle]
    · intro chunk hchunk
      rw [hrecv] at hchunk
      cases hchunk
      rw [List.length_take, Nat.min_eq_left hle]
      refine ⟨?_, List.drop_append_of_le_length hle⟩
      rw [hin]
      intro hnil
      simp at hnil
      omega

theorem Socket.and_blocks_deliver {s : Socket} {len : Nat} {b : Bool} {bs : Bytes} {fin : Bool}
    (h : (b && s.blocks len) = false) : (b && (s.deliver bs fin).blocks len) = false := by
  rw [Bool.and_eq_false_iff] at h ⊢
  refine h.imp_right fun h => ?_
  unfold Socket.blocks at h ⊢
  dsimp only [Socket.deliver]
  split
  · rename_i k sched hs
    rw [hs, Bool.and_eq_false_iff, Bool.not_eq_false'] at h
    rw [Bool.and_eq_false_iff, Bool.not_eq_false', Bool.or_eq_true]
    rcases h with h | h
    · exact .inl (.inl h)
    · right
      refine decide_eq_false ?_
      rw [decide_eq_false_iff_not] at h
      show ¬ (s.inbox ++ bs).length < _
      rw [List.length_append]
      omega
  · rfl

theorem Socket.isValid_deliver (s : Socket) (bs : Bytes) (fin : Bool) :
    (s.deliver bs fin).isValid = s.isValid := rfl

theorem Socket.close_deliver (s : Socket) (bs : Bytes) (fin : Bool) :
    (s.deliver bs fin).close = s.close.deliver bs fin := by
  show (if 0 ≤ s.fd then _ else _) = _
  unfold Socket.close
  split <;> rfl

theorem Socket.close_streams (s : Socket) : s.close.sent = s.sent ∧ s.close.fin = s.fin := by
  unfold Socket.close
  split <;> exact ⟨rfl, rfl⟩

theorem Socket.sendString_deliver (s : Socket) (str bs : Bytes) (fin : Bool) :
    (s.deliver bs fin).sendString str =
      ((s.sendString str).1, (s.sendString str).2.deliver bs fin) := by
  cases hv : s.isValid <;> simp only [sendString, sendAll, isValid_deliver, hv] <;> rfl

theorem Socket.deliver_nil (s : Socket) : s.deliver [] false = s := by
  simp [Socket.deliver]

theorem Socket.deliver_deliver (s : Socket) (bs bs' : Bytes) (fin fin' : Bool) :
    (s.deliver bs fin).deliver bs' fin' = s.deliver (bs ++ bs') (fin || fin') := by
  simp [Socket.deliver, Bool.or_assoc]

namespace ClientThread
variable {c c' : ClientThread} {bs : Bytes} {fin : Bool}

/-! ### What the steps leave of the socket -/

@[simp] theorem socket_sent (ok : Bool) (use : SendUse) : (c.sent ok use).socket = c.socket := by
  rcases use with query | _ | out <;> rfl

@[simp] theorem socket_lineRead (ok : Bool) (line : Bytes) (use : LineUse) :
    (c.lineRead ok line use).socket = c.socket := by
  cases use with
  | header query => rfl
  | row left => cases ok <;> rfl

@[simp] theorem socket_readHeader (query : Query) (header : Bytes) :
    (c.readHeader query header).socket = c.socket := by
  unfold readHeader
  split
  · rfl
  split
  · rfl
  · cases query <;> rfl

theorem sendStep_socket (c : ClientThread) (data : Bytes) (total : Nat) (use : SendUse) :
    ∃ acc sends, (c.sendStep data total use).socket =
      { c.socket with sent := c.socket.sent ++ acc, sends := sends } := by
  have hsame : ∃ acc sends, c.socket = { c.socket with sent := c.socket.sent ++ acc, sends := sends } :=
    ⟨[], c.socket.sends, by rw [List.append_nil]⟩
  unfold sendStep
  split
  · rw [socket_sent]
    exact hsame
  · rename_i a sched hs
    split
    · cases a with
      | fails e =>
        refine ⟨[], sched, ?_⟩
        dsimp only
        split <;> simp
      | moves k =>
        dsimp only
        split
        · exact ⟨[], sched, by simp⟩
        · exact ⟨_, sched, rfl⟩
    · rw [socket_sent]
      exact hsame

theorem recvStep_socket (c : ClientThread) (line : Bytes) (use : LineUse) :
    ∃ inbox recvs, (c.recvStep line use).socket = { c.socket with inbox := inbox, recvs := recvs } := by
  unfold recvStep
  split
  · exact ⟨c.socket.inbox, c.socket.recvs, by rw [socket_lineRead]⟩
  · rename_i a sched hs
    split
    · dsimp only
      split
      · refine ⟨c.socket.inbox, sched, ?_⟩
        split <;> simp
      · exact ⟨c.socket.inbox, sched, by rw [socket_lineRead]⟩
      · refine ⟨c.socket.inbox.tail, sched, ?_⟩
        split <;> simp
    · exact ⟨c.socket.inbox, c.socket.recvs, by rw [socket_lineRead]⟩

theorem recvAllStep_socket (c : ClientThread) (r : Reception) (buf : Bytes) :
    ∃ inbox recvs, (c.recvAllStep r buf).socket = { c.socket with inbox := inbox, recvs := recvs } := by
  unfold recvAllStep
  split
  · exact ⟨c.socket.inbox, c.socket.recvs, rfl⟩
  · rename_i a sched hs
    split
    · dsimp only
      split
      · refine ⟨c.socket.inbox, sched, ?_⟩
        split <;> rfl
      · exact ⟨c.socket.inbox, sched, rfl⟩
      · exact ⟨_, sched, rfl⟩
    · exact ⟨c.socket.inbox, c.socket.recvs, rfl⟩

/-- A step only appends to what was sent, and never touches the end of the other stream. -/
theorem step_socket (h : c.step = some c') :
    c.socket.sent <+: c'.socket.sent ∧ c'.socket.fin = c.socket.fin := by
  obtain ⟨socket, disk, getFile, listing, pc⟩ := c
  have hsame {s : ClientThread} (h : s.socket = socket) :
      socket.sent <+: s.socket.sent ∧ s.socket.fin = socket.fin := by
    rw [h]
    exact ⟨List.prefix_rfl, rfl⟩
  have hclose : socket.sent <+: socket.close.sent ∧ socket.close.fin = socket.fin :=
    ⟨by rw [socket.close_streams.1], socket.close_streams.2⟩
  cases pc with
  | send data total use =>
    cases h
    obtain ⟨acc, sends, hs⟩ := sendStep_socket ⟨socket, disk, getFile, listing, _⟩ data total use
    rw [hs]
    exact ⟨List.prefix_append _ _, rfl⟩
  | recv line use =>
    cases h
    obtain ⟨inbox, recvs, hs⟩ := recvStep_socket ⟨socket, disk, getFile, listing, _⟩ line use
    rw [hs]
    exact ⟨List.prefix_rfl, rfl⟩
  | recvBuffer r buf =>
    cases h
    obtain ⟨inbox, recvs, hs⟩ := recvAllStep_socket ⟨socket, disk, getFile, listing, _⟩ r buf
    rw [hs]
    exact ⟨List.prefix_rfl, rfl⟩
  | sendAll data use =>
    cases h
    exact hsame (by split <;> simp)
  | recvLine use =>
    cases h
    exact hsame (by split <;> simp)
  | recvAll r =>
    cases h
    exact hsame (by split <;> rfl)
  | header query header =>
    cases h
    exact hsame (socket_readHeader query header)
  | rowTest left => cases left <;> cases h <;> exact hsame rfl
  | close ok =>
    cases h
    exact hclose
  | terminate x =>
    cases h
    exact hclose
  | exited ok => cases h
  | thrown x => cases h
  | _ =>
    cases h
    exact hsame rfl

/-! ### Input that comes later -/

theorem deliver_sent (ok : Bool) (use : SendUse) :
    (c.deliver bs fin).sent ok use = (c.sent ok use).deliver bs fin := by
  rcases use with query | _ | out <;> rfl

theorem deliver_lineRead (ok : Bool) (line : Bytes) (use : LineUse) :
    (c.deliver bs fin).lineRead ok line use = (c.lineRead ok line use).deliver bs fin := by
  cases use with
  | header query => rfl
  | row left => cases ok <;> rfl

theorem deliver_readHeader (query : Query) (header : Bytes) :
    (c.deliver bs fin).readHeader query header = (c.readHeader query header).deliver bs fin := by
  unfold readHeader
  split
  · rfl
  split
  · rfl
  · cases query <;> rfl

theorem deliver_sendStep (data : Bytes) (total : Nat) (use : SendUse) :
    (c.deliver bs fin).sendStep data total use = (c.sendStep data total use).deliver bs fin := by
  obtain ⟨⟨fd, inbox, f, recvs, sent, sends⟩, disk, getFile, listing, pc⟩ := c
  have hsent (sends : List Answer) (ok : Bool) :=
    @deliver_sent ⟨⟨fd, inbox, f, recvs, sent, sends⟩, disk, getFile, listing, pc⟩ bs fin ok use
  unfold sendStep
  cases sends with
  | nil => exact hsent _ _
  | cons a sched =>
    dsimp only [deliver, Socket.deliver]
    split
    · cases a with
      | fails e =>
        dsimp only
        split
        · rfl
        · exact hsent _ _
      | moves k =>
        dsimp only
        split
        · exact hsent _ _
        · rfl
    · exact hsent _ _

theorem deliver_recvStep {line : Bytes} {use : LineUse} (hpc : c.pc = .recv line use)
    (hw : c.waits = false) (hfin : c.socket.fin = false) :
    (c.deliver bs fin).recvStep line use = (c.recvStep line use).deliver bs fin := by
  have hline (inbox : Bytes) (recvs : List Answer) (ok : Bool) (line : Bytes) :=
    @deliver_lineRead { c with socket := { c.socket with inbox := inbox, recvs := recvs } } bs fin ok
      line use
  obtain ⟨⟨fd, inbox, f, recvs, sent, sends⟩, disk, getFile, listing, pc⟩ := c
  subst hpc hfin
  unfold recvStep
  cases recvs with
  | nil => exact hline _ _ _ _
  | cons a sched =>
    dsimp only [deliver, Socket.deliver]
    by_cases hlt : line.length < 4096
    swap
    · rw [if_neg hlt, if_neg hlt]
      exact hline _ _ _ _
    have hb : (⟨fd, inbox, false, a :: sched, sent, sends⟩ : Socket).blocks 1 = false := by
      simpa [waits, hlt] using hw
    obtain ⟨hrecv, hchunk⟩ := Socket.recv_deliver Nat.one_pos rfl hb rfl bs (false || fin)
    rw [if_pos hlt, if_pos hlt, hrecv]
    dsimp only at hchunk ⊢
    cases hr : Kernel.recv 1 false inbox a with
    | error e =>
      dsimp only
      split
      · rfl
      · exact hline _ _ _ _
    | ok chunk =>
      obtain ⟨hne, -⟩ := hchunk chunk hr
      cases chunk with
      | nil => exact absurd rfl hne
      | cons ch chunk =>
        have htail : (inbox ++ bs).tail = inbox.tail ++ bs := by
          refine List.tail_append_of_ne_nil ?_
          rintro rfl
          cases a <;> cases hr
        dsimp only
        rw [htail]
        split
        · exact hline _ _ _ _
        · rfl

theorem deliver_recvAllStep {r : Reception} {buf : Bytes} (hpc : c.pc = .recvBuffer r buf)
    (hw : c.waits = false) (hfin : c.socket.fin = false) :
    (c.deliver bs fin).recvAllStep r buf = (c.recvAllStep r buf).deliver bs fin := by
  obtain ⟨⟨fd, inbox, f, recvs, sent, sends⟩, disk, getFile, listing, pc⟩ := c
  subst hpc hfin
  unfold recvAllStep
  cases recvs with
  | nil => rfl
  | cons a sched =>
    dsimp only [deliver, Socket.deliver]
    by_cases hlt : buf.length < r.toRecv
    swap
    · rw [if_neg hlt, if_neg hlt]
      rfl
    have hb : (⟨fd, inbox, false, a :: sched, sent, sends⟩ : Socket).blocks (r.toRecv - buf.length) =
        false := by
      simpa [waits, hlt] using hw
    obtain ⟨hrecv, hchunk⟩ := Socket.recv_deliver (Nat.sub_pos_of_lt hlt) rfl hb rfl bs (false || fin)
    rw [if_pos hlt, if_pos hlt, hrecv]
    dsimp only at hchunk ⊢
    cases hr : Kernel.recv (r.toRecv - buf.length) false inbox a with
    | error e =>
      dsimp only
      split <;> rfl
    | ok chunk =>
      obtain ⟨hne, hdrop⟩ := hchunk chunk hr
      cases chunk with
      | nil => exact absurd rfl hne
      | cons ch chunk =>
        dsimp only
        rw [hdrop]

theorem step_of_advance {b : Bool} (h : advance b c = some c') :
    c.step = some c' ∧ (b = true → c.waits = false) := by
  unfold advance at h
  split at h
  · cases h
  · rename_i hw
    exact ⟨h, fun hb => by simpa [hb] using hw⟩

theorem waits_deliver (hw : c.waits = false) : (c.deliver bs fin).waits = false := by
  obtain ⟨socket, disk, getFile, listing, pc⟩ := c
  cases pc with
  | recv line use => exact Socket.and_blocks_deliver hw
  | recvBuffer r buf => exact Socket.and_blocks_deliver hw
  | _ => rfl

theorem step_deliver (h : c.step = some c') (hw : c.waits = false) (hfin : c.socket.fin = false) :
    (c.deliver bs fin).step = some (c'.deliver bs fin) := by
  obtain ⟨socket, disk, getFile, listing, pc⟩ := c
  cases pc with
  | send data total use =>
    cases h
    exact congrArg some (deliver_sendStep data total use)
  | recv line use =>
    cases h
    exact congrArg some (deliver_recvStep rfl hw hfin)
  | recvBuffer r buf =>
    cases h
    exact congrArg some (deliver_recvAllStep rfl hw hfin)
  | sendAll data use =>
    cases h
    show some (if socket.isValid = true then _ else _) =
      some (deliver _ _ (if socket.isValid = true then _ else _))
    split
    · rfl
    · exact congrArg some (deliver_sent false use)
  | recvLine use =>
    cases h
    show some (if socket.isValid = true then _ else _) =
      some (deliver _ _ (if socket.isValid = true then _ else _))
    split
    · rfl
    · exact congrArg some (deliver_lineRead false [] use)
  | recvAll r =>
    cases h
    show some (if socket.isValid = true then _ else _) =
      some (deliver _ _ (if socket.isValid = true then _ else _))
    split <;> rfl
  | header query header =>
    cases h
    exact congrArg some (deliver_readHeader query header)
  | rowTest left => cases left <;> cases h <;> rfl
  | close ok =>
    cases h
    simp only [step, deliver, Socket.close_deliver]
  | terminate x =>
    cases h
    simp only [step, deliver, Socket.close_deliver]
  | exited ok => cases h
  | thrown x => cases h
  | _ =>
    cases h
    rfl

theorem endpoint_lawful : endpoint.Lawful where
  sent_deliver := fun _ _ _ => rfl
  closed_deliver := fun _ _ _ => rfl
  fin_deliver := fun _ _ _ => rfl
  deliver_nil := fun c => by simp only [endpoint, deliver, Socket.deliver_nil]
  deliver_deliver := fun _ _ _ _ _ => by simp only [endpoint, deliver, Socket.deliver_deliver]
  sent_step := fun c c' h => (step_socket (step_of_advance h).1).1
  fin_step := fun c c' h => (step_socket (step_of_advance h).1).2
  closed_step := by
    intro c hc
    obtain ⟨socket, disk, getFile, listing, pc⟩ := c
    cases pc <;> first | rfl | cases hc
  step_deliver := by
    intro bs fin c c' h hfin
    obtain ⟨hstep, hw⟩ := step_of_advance h
    replace hw := hw rfl
    show advance true (c.deliver bs fin) = _
    rw [advance_eq fun _ => waits_deliver hw]
    exact step_deliver hstep hw hfin

end ClientThread

namespace Worker
variable {cfg : ClientSession.Config} {w w' : Worker} {bs : Bytes} {fin : Bool}

theorem recvStep_socket (s : ClientSession) (line : Bytes) :
    ∃ inbox recvs, (recvStep s line).session.socket =
      { s.socket with inbox := inbox, recvs := recvs } := by
  unfold recvStep
  split
  · exact ⟨s.socket.inbox, s.socket.recvs, rfl⟩
  · rename_i a sched hs
    split
    · dsimp only
      split
      · refine ⟨s.socket.inbox, sched, ?_⟩
        split <;> rfl
      · exact ⟨s.socket.inbox, sched, rfl⟩
      · refine ⟨s.socket.inbox.tail, sched, ?_⟩
        split <;> rfl
    · exact ⟨s.socket.inbox, s.socket.recvs, rfl⟩

theorem sendStep_socket (s : ClientSession) (site : Site) (data : Bytes) (total : Nat)
    (after : AfterSend) :
    ∃ acc sends, (sendStep s site data total after).session.socket =
      { s.socket with sent := s.socket.sent ++ acc, sends := sends } := by
  have hsame : ∃ acc sends, s.socket = { s.socket with sent := s.socket.sent ++ acc, sends := sends } :=
    ⟨[], s.socket.sends, by rw [List.append_nil]⟩
  unfold sendStep
  dsimp only
  split
  · exact hsame
  · rename_i a sched hs
    split
    · cases a with
      | fails e =>
        refine ⟨[], sched, ?_⟩
        dsimp only
        split <;> simp [ClientSession.emit]
      | moves k =>
        dsimp only
        split
        · exact ⟨[], sched, by simp [ClientSession.emit]⟩
        · exact ⟨_, sched, rfl⟩
    · exact hsame

theorem step_socket (h : step cfg w = some w') :
    w.session.socket.sent <+: w'.session.socket.sent ∧
      w'.session.socket.fin = w.session.socket.fin := by
  obtain ⟨s, pc⟩ := w
  have hsame {t : ClientSession} (h : t.socket = s.socket) :
      s.socket.sent <+: t.socket.sent ∧ t.socket.fin = s.socket.fin := by
    rw [h]
    exact ⟨List.prefix_rfl, rfl⟩
  cases pc with
  | recv line =>
    cases h
    obtain ⟨inbox, recvs, hs⟩ := recvStep_socket s line
    rw [hs]
    exact ⟨List.prefix_rfl, rfl⟩
  | send site data total after =>
    cases h
    obtain ⟨acc, sends, hs⟩ := sendStep_socket s site data total after
    rw [hs]
    exact ⟨List.prefix_append _ _, rfl⟩
  | close =>
    cases h
    exact ⟨by rw [s.socket.close_streams.1], s.socket.close_streams.2⟩
  | exited => cases h
  | thrown x => cases h
  | _ =>
    simp only [step] at h
    (repeat' split at h) <;> cases h <;> exact hsame rfl

theorem deliver_recvStep {s : ClientSession} {line : Bytes}
    (hw : (Worker.mk s (.recv line)).waits = false) (hfin : s.socket.fin = false) :
    recvStep { s with socket := s.socket.deliver bs fin } line = (recvStep s line).deliver bs fin := by
  obtain ⟨⟨fd, inbox, f, recvs, sent, sends⟩, active, stops, clock, trace⟩ := s
  subst hfin
  unfold recvStep
  cases recvs with
  | nil => rfl
  | cons a sched =>
    dsimp only [Socket.deliver]
    by_cases hlt : line.length < 4096
    swap
    · rw [if_neg hlt, if_neg hlt]
      rfl
    have hb : (⟨fd, inbox, false, a :: sched, sent, sends⟩ : Socket).blocks 1 = false := by
      simpa [waits, hlt] using hw
    obtain ⟨hrecv, hchunk⟩ := Socket.recv_deliver Nat.one_pos rfl hb rfl bs (false || fin)
    rw [if_pos hlt, if_pos hlt, hrecv]
    dsimp only at hchunk ⊢
    cases hr : Kernel.recv 1 false inbox a with
    | error e =>
      dsimp only
      split <;> rfl
    | ok chunk =>
      obtain ⟨hne, -⟩ := hchunk chunk hr
      cases chunk with
      | nil => exact absurd rfl hne
      | cons ch chunk =>
        have htail : (inbox ++ bs).tail = inbox.tail ++ bs := by
          refine List.tail_append_of_ne_nil ?_
          rintro rfl
          cases a <;> cases hr
        dsimp only
        rw [htail]
        split <;> rfl

theorem deliver_sendStep (s : ClientSession) (site : Site) (data : Bytes) (total : Nat)
    (after : AfterSend) :
    sendStep { s with socket := s.socket.deliver bs fin } site data total after =
      (sendStep s site data total after).deliver bs fin := by
  obtain ⟨⟨fd, inbox, f, recvs, sent, sends⟩, active, stops, clock, trace⟩ := s
  unfold sendStep
  cases sends with
  | nil => rfl
  | cons a sched =>
    dsimp only [Socket.deliver]
    split
    · cases a with
      | fails e =>
        dsimp only
        split <;> rfl
      | moves k =>
        dsimp only
        split <;> rfl
    · rfl

theorem step_deliver (h : step cfg w = some w') (hw : w.waits = false)
    (hfin : w.session.socket.fin = false) : step cfg (w.deliver bs fin) = some (w'.deliver bs fin) := by
  obtain ⟨s, pc⟩ := w
  cases pc with
  | recv line =>
    cases h
    exact congrArg some (deliver_recvStep hw hfin)
  | send site data total after =>
    cases h
    exact congrArg some (deliver_sendStep s site data total after)
  | close =>
    cases h
    simp only [step, deliver, Socket.close_deliver]
  | recvLine =>
    cases hv : s.socket.isValid <;> simp only [step, hv, if_true, if_false, Bool.false_eq_true] at h <;>
      cases h <;> simp only [step, deliver, Socket.isValid_deliver, hv] <;> rfl
  | sendAll site data after =>
    cases hv : s.socket.isValid <;> simp only [step, hv, if_true, if_false, Bool.false_eq_true] at h <;>
      cases h <;> simp only [step, deliver, Socket.isValid_deliver, hv] <;> rfl
  | listFiles =>
    cases hl : cfg.fileManager.listFiles s.clock <;> simp only [step, hl] at h <;> cases h <;>
      simp only [step, deliver, hl] <;> rfl
  | getFileSize filename =>
    cases hg : cfg.fileManager.getFileSize s.clock filename <;> simp only [step, hg] at h <;>
      cases h <;> simp only [step, deliver, hg] <;> rfl
  | openBinaryFile filename fileSize =>
    cases ho : cfg.fileManager.openBinaryFile s.clock filename <;> simp only [step, ho] at h <;>
      cases h <;> simp only [step, deliver, ho] <;> rfl
  | allocate file fileSize =>
    cases ha : cfg.allocate <;> simp only [step, ha] at h <;> cases h <;> simp only [step, ha] <;> rfl
  | endTransfer t =>
    obtain ⟨socket, active, stops, clock, trace⟩ := s
    by_cases ht : t.totalSent = t.fileSize <;> cases active <;>
      simp only [step, ht, if_true, if_false] at h <;> cases h <;>
      simp only [step, deliver, ht, if_true, if_false] <;> rfl
  | exited => cases h
  | thrown x => cases h
  | _ =>
    cases h
    rfl

theorem step_of_advance (h : advance cfg w = some w') : step cfg w = some w' ∧ w.waits = false := by
  unfold advance at h
  split at h
  · cases h
  · rename_i hw
    exact ⟨h, Bool.eq_false_iff.2 hw⟩

theorem advance_eq (hw : w.waits = false) : advance cfg w = step cfg w := by
  rw [advance, hw]
  rfl

theorem waits_deliver (hw : w.waits = false) : (w.deliver bs fin).waits = false := by
  obtain ⟨s, pc⟩ := w
  cases pc with
  | recv line => exact Socket.and_blocks_deliver hw
  | _ => rfl

theorem endpoint_lawful (cfg : ClientSession.Config) : (endpoint cfg).Lawful where
  sent_deliver := fun _ _ _ => rfl
  closed_deliver := fun _ _ _ => rfl
  fin_deliver := fun _ _ _ => rfl
  deliver_nil := fun w => by simp only [endpoint, deliver, Socket.deliver_nil]
  deliver_deliver := fun _ _ _ _ _ => by simp only [endpoint, deliver, Socket.deliver_deliver]
  sent_step := fun w w' h => (step_socket (step_of_advance h).1).1
  fin_step := fun w w' h => (step_socket (step_of_advance h).1).2
  closed_step := by
    intro w hc
    obtain ⟨s, pc⟩ := w
    cases pc <;> first | rfl | cases hc
  step_deliver := by
    intro bs fin w w' h hfin
    obtain ⟨hstep, hw⟩ := step_of_advance h
    show advance cfg (w.deliver bs fin) = _
    rw [advance_eq (waits_deliver hw)]
    exact step_deliver hstep hw hfin

end Worker

theorem Conversation.commuting (cfg : ClientSession.Config) :
    Commuting (step cfg) (Duplex.Linked ClientThread.endpoint (Worker.endpoint cfg)) :=
  Duplex.commuting ClientThread.endpoint_lawful (Worker.endpoint_lawful cfg)

end Streamer

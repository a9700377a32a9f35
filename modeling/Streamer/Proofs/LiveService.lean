import Streamer.Proofs.Endpoints
import Streamer.Proofs.Isolation

/-!
# What a client gets from a server with other clients

The thread of a session makes the same steps whatever the others do (`exec_session`), and its steps come
to `run` (`session_ends`). So how far a client has been served is a matter of the steps of its own
thread alone, and their number is known when it connects. The calls of the logger are not among these steps:
there a thread waits while another one writes its line.
-/

namespace Streamer
open Text Kernel Filesystem Machine

namespace Worker
variable {cfg : ClientSession.Config} {w w' : Worker} {n : Nat}

/-- Whatever the kernel answers, every run of a session thread that nobody stops can be continued to its
one end, where it has done what `run` does. -/
theorem session_ends (cfg : ClientSession.Config) (socket : Socket) :
    step cfg (finished (ClientSession.run cfg (.new socket))) = none ∧
      ∃ n, ∀ m w, iter (step cfg) m (new socket) = some w →
        m ≤ n ∧ iter (step cfg) (n - m) w = some (finished (ClientSession.run cfg (.new socket))) :=
  ⟨step_finished _, (leads_run cfg socket).ends_in (step_finished _)⟩

theorem iter_sent (h : iter (step cfg) n w = some w') :
    w.session.socket.sent <+: w'.session.socket.sent := by
  induction n generalizing w with
  | zero =>
    cases h
    exact List.prefix_rfl
  | succ n ih =>
    obtain ⟨v, hv, h⟩ := Option.bind_eq_some_iff.1 h
    exact (step_socket hv).1.trans (ih h)

/-- A thread that can be brought on to its end is there, or it can move. -/
theorem isSome_of_iter (h : iter (step cfg) (n + 1) w = some w') : (step cfg w).isSome = true := by
  obtain ⟨v, hv, -⟩ := Option.bind_eq_some_iff.1 h
  rw [hv]
  rfl

end Worker

namespace LiveServer
variable {ls : List LiveLabel} {s : LiveServer} {i : Nat} {w : Worker}

/-- A client that ends its stream and whose calls keep moving bytes is served by a number of steps of its
own thread that depends on nothing else: after fewer it has got a beginning of the replies to its lines
and the thread can go on, logging apart; after that many it has got them all and its session is over. -/
theorem served_by_own_steps (fm : FileManager) (fs : FileSystem) (chunkSize memory : Nat)
    (halloc : (ClientSession.Config.new (fm.media fs) chunkSize memory).allocate = none)
    (client : Socket) (hv : client.isValid = true) (hsent : client.sent = []) (hfin : client.fin = true)
    (hrecvs : Lively (client.inbox.length + 1) client.recvs)
    (hsends : Lively (replies fm fs (lines client.inbox)).flatten.length client.sends) :
    ∃ n, ∀ ls s i w, exec (step (unchanging fm fs chunkSize memory)) new ls = some s →
      (clients ls)[i]? = some client → s.sessions[i]? = some w →
      ls.count (.session i) ≤ n ∧
      w.session.socket.sent <+: (replies fm fs (lines client.inbox)).flatten ∧
      (ls.count (.session i) < n → s.terminated = false → s.started i = true →
        (step (unchanging fm fs chunkSize memory) s (.session i)).isSome = true) ∧
      (ls.count (.session i) = n → w.pc = .exited ∧ w.session.socket.fd = -1 ∧
        w.session.socket.sent = (replies fm fs (lines client.inbox)).flatten) := by
  obtain ⟨-, n, hends⟩ :=
    Worker.session_ends (ClientSession.Config.new (fm.media fs) chunkSize memory) client
  obtain ⟨hx, hout, -, hfd⟩ := (ClientSession.run_runs (.new (fm.media fs) chunkSize memory)
    (.new client)).sends_replies (n := 0) rfl halloc ⟨rfl, rfl, hv, hfin, fun _ => hrecvs, hsends⟩
  generalize hend : Worker.finished
    (ClientSession.run (.new (fm.media fs) chunkSize memory) (.new client)) = e at hends
  have hesent : e.session.socket.sent = (replies fm fs (lines client.inbox)).flatten := by
    rw [← hend]
    refine hout.trans ?_
    show client.sent ++ _ = _
    rw [hsent]
    rfl
  refine ⟨n, ?_⟩
  intro ls s i w h hclient hw
  obtain ⟨-, horigin⟩ := exec_origin h
  obtain ⟨client', hclient', -, hiter⟩ := horigin.session i w hw
  obtain rfl : client = client' := Option.some.inj (hclient.symm.trans hclient')
  obtain ⟨hle, hrest⟩ := hends _ w hiter
  refine ⟨hle, hesent ▸ Worker.iter_sent hrest, ?_, ?_⟩
  · intro hlt hlive hstarted
    obtain ⟨k, hk⟩ := Nat.exists_eq_add_of_lt hlt
    have hmore : n - ls.count (.session i) = k + 1 := by omega
    rw [hmore] at hrest
    rw [step_session_isSome hw, hlive, hstarted]
    exact Worker.isSome_of_iter hrest
  · intro hall
    rw [hall, Nat.sub_self] at hrest
    obtain rfl : w = e := Option.some.inj hrest
    refine ⟨?_, ?_, hesent⟩
    · rw [← hend, Worker.finished, hx]
    · rw [← hend]
      exact hfd

theorem sample_served_by_own_steps : ∃ n, ∀ ls s i w,
    exec (step (unchanging ClientSession.sampleManager ClientSession.sampleFs 2 100)) new ls = some s →
    (clients ls)[i]? = some (ClientSession.connection (ascii "LIST\nQUIT\n") 2 99 99) →
    s.sessions[i]? = some w → ls.count (.session i) = n →
    w.session.socket.sent = ascii "OK 1\na 2\nOK BYE\n" := by
  obtain ⟨n, hn⟩ := served_by_own_steps ClientSession.sampleManager ClientSession.sampleFs 2 100 (by decide)
    (ClientSession.connection (ascii "LIST\nQUIT\n") 2 99 99) rfl rfl rfl (by decide +kernel)
    (by decide +kernel)
  refine ⟨n, ?_⟩
  intro ls s i w h hclient hw hcount
  rw [((hn ls s i w h hclient hw).2.2.2 hcount).2.2]
  decide +kernel

end LiveServer
end Streamer

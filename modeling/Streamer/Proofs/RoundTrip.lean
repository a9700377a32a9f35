import Streamer.Proofs.CutRequests
import Streamer.Proofs.Download
import Streamer.Proofs.Grammar

/-!
# From the client's `GET` to the server's request

The client writes `"GET " + name + "\n"` and the server reads it with `recv_line` and
`parse_request`. The two agree on every name that fits a line; on a longer one the session ends with
nothing executed.
-/

namespace Streamer
open Text Kernel

section
variable {f rest : Bytes}

theorem getRequest_append (f rest : Bytes) :
    getRequest f ++ rest = (ascii "GET " ++ f) ++ newline :: rest := by
  simp [getRequest]

theorem length_get (f : Bytes) : (ascii "GET " ++ f).length = f.length + 4 := by
  rw [List.length_append, Nat.add_comm]
  rfl

/-- A line that is too long ends the session, and nothing of the stream from there on is executed. -/
theorem requests_of_overlong {cfg : ClientSession.Config} {s : ClientSession}
    {res : Option Exn × ClientSession} (hf : newline ∉ f) (hlen : 4096 ≤ f.length + 4)
    (hin : s.socket.inbox = getRequest f ++ rest) (h : ClientSession.Runs cfg s res) :
    ClientSession.requests res.2.trace = ClientSession.requests s.trace := by
  obtain ⟨rs, hrs, hpre⟩ := h.requests_begin
  rw [hin, getRequest_append, received_append_newline _ (Protocol.newline_not_mem_get hf),
    ClientSession.executed, if_pos (by rw [length_get]; exact hlen)] at hpre
  rw [hrs, List.prefix_nil.1 hpre, List.append_nil]

/-- The server reads the request that the client has written, and nothing behind it. If the name is
too long for a line, the session executes nothing of it and of what follows, be it the first request
or a later one. -/
theorem get_round_trip (f rest : Bytes) (hf : newline ∉ f) :
    (f.length + 4 < 4096 → ∀ (server : Socket) (n : Nat), server.isValid = true →
        server.inbox = getRequest f ++ rest → Lively (f.length + 4 + 1 + n) server.recvs →
        ∃ line recvs, server.recvLine = (true, line, { server with inbox := rest, recvs := recvs }) ∧
          Lively n recvs ∧ Protocol.parseRequest line = { type := .GET, argument := trim f } ∧
          (Stripped isSpace f → trim f = f)) ∧
      (4096 ≤ f.length + 4 → ∀ (cfg : ClientSession.Config) (s : ClientSession),
        s.socket.inbox = getRequest f ++ rest →
        ClientSession.requests (ClientSession.run cfg s).2.trace = ClientSession.requests s.trace ∧
          ∀ res, ClientSession.Runs cfg s res →
            ClientSession.requests res.2.trace = ClientSession.requests s.trace) := by
  refine ⟨?_, ?_⟩
  · intro hlen server n hv hin hs
    rw [getRequest_append] at hin
    rw [← length_get f] at hlen hs
    obtain ⟨recvs, hline, hlive⟩ :=
      Socket.recvLine_newline 4096 hv hin (Protocol.newline_not_mem_get hf) hlen hs
    refine ⟨_, recvs, hline, hlive, ?_, fun h => strip_eq_self h⟩
    rw [Protocol.parseRequest_dropCr, Protocol.parseRequest_get hf]
  · intro hlen cfg s hin
    refine ⟨?_, fun res h => requests_of_overlong hf hlen hin h⟩
    exact requests_of_overlong (s := { s with isActive := true }) hf hlen hin (ClientSession.run_runs cfg s)

/-- A name that looks like a command, and another request behind it. -/
theorem get_round_trip_quit :
    ∃ line recvs, (Socket.mk 4 (getRequest (ascii "QUIT") ++ ascii "LIST\n") true
        (.replicate 20 (.moves 3)) [] []).recvLine =
          (true, line, ⟨4, ascii "LIST\n", true, recvs, [], []⟩) ∧
      Protocol.parseRequest line = { type := .GET, argument := ascii "QUIT" } := by
  have hf : newline ∉ ascii "QUIT" := by decide
  obtain ⟨line, recvs, hline, -, hparse, htrim⟩ :=
    (get_round_trip (ascii "QUIT") (ascii "LIST\n") hf).1 (by decide)
      ⟨4, getRequest (ascii "QUIT") ++ ascii "LIST\n", true, .replicate 20 (.moves 3), [], []⟩ 0 (by decide)
      rfl (by decide)
  have hstripped : Stripped isSpace (ascii "QUIT") := by
    refine ⟨?_, ?_⟩ <;> intro b hb <;> cases hb <;> rfl
  rw [htrim hstripped] at hparse
  exact ⟨line, recvs, hline, hparse⟩

end

end Streamer

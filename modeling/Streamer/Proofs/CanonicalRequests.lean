import Streamer.Proofs.Grammar

/-!
# The requests that lines denote

`parse_request` gives only requests that are well formed, and gives every one of them back from its
canonical line. So many lines denote one request, but reading a line, writing the request as a line and
reading that again changes nothing.
-/

namespace Streamer
open Text

namespace Protocol

/-- The words that are commands. -/
def isCommand (w : Bytes) : Bool :=
  w == ascii "LIST" || w == ascii "GET" || w == ascii "QUIT" || w == ascii "EXIT" || w == ascii "CLOSE"

def WellFormed (r : Request) : Prop :=
  match r.type with
  | .LIST | .QUIT => r.argument = []
  | .GET => Stripped isSpace r.argument ∧ newline ∉ r.argument
  | .UNKNOWN => (∀ b ∈ r.argument, isSpace b = false) ∧ r.argument.map toUpper = r.argument ∧
      isCommand r.argument = false

/-- The line that a client writes for a request; of an unknown one it is the command. -/
def requestLine (r : Request) : Bytes :=
  match r.type with
  | .LIST => ascii "LIST"
  | .GET => ascii "GET " ++ r.argument
  | .QUIT => ascii "QUIT"
  | .UNKNOWN => r.argument

variable {s w x : Bytes} {r : Request}

theorem toUpper_toUpper (b : UInt8) : toUpper (toUpper b) = toUpper b := by
  have hall : ∀ n : Fin 256, toUpper (toUpper (UInt8.ofNat n)) = toUpper (UInt8.ofNat n) := by
    decide +kernel
  simpa using hall ⟨b.toNat, b.toNat_lt⟩

theorem isCommand_eq_false : isCommand w = false ↔
    ¬ (w = ascii "LIST" ∨ w = ascii "GET" ∨ w = ascii "QUIT" ∨ w = ascii "EXIT" ∨ w = ascii "CLOSE") := by
  simp only [isCommand, Bool.or_eq_false_iff, beq_eq_false_iff_ne, not_or, and_assoc]

theorem Denotes.wellFormed (h : Denotes s r) : WellFormed r := by
  cases h with
  | blank h => exact ⟨nofun, rfl, rfl⟩
  | list h hw => rfl
  | quit h hw => rfl
  | @get w r x h hw hx =>
    obtain ⟨blank, tail, rest, -, -, hnl, -⟩ := hx.split
    exact ⟨hx.stripped, fun hmem => hnl (List.mem_append_left tail hmem)⟩
  | @unknown w r h hw =>
    refine ⟨?_, ?_, isCommand_eq_false.2 hw⟩
    · intro b hb
      obtain ⟨c, hc, rfl⟩ := List.mem_map.1 hb
      rw [isSpace_toUpper]
      exact h.visible c hc
    · rw [List.map_map]
      exact List.map_congr_left fun b _ => toUpper_toUpper b

theorem parseRequest_word (hvisible : ∀ b ∈ w, isSpace b = false) (hupper : w.map toUpper = w)
    (hw : isCommand w = false) : parseRequest w = ⟨.UNKNOWN, w⟩ := by
  by_cases hne : w = []
  · subst hne
    exact parseRequest_of_blank nofun
  · have hrun : FirstRun w w [] := ⟨⟨[], nofun, by simp⟩, hvisible, hne, nofun⟩
    obtain ⟨hlist, hget, hquit⟩ := not_or.1 (isCommand_eq_false.1 hw) |>.imp_right not_or.1
    rw [hrun.parseRequest_eq, interpret, hupper, if_neg hlist, if_neg hget, if_neg hquit]

theorem WellFormed.parseRequest_requestLine (h : WellFormed r) : parseRequest (requestLine r) = r := by
  obtain ⟨type, argument⟩ := r
  cases type with
  | LIST =>
    obtain rfl : argument = [] := h
    decide
  | QUIT =>
    obtain rfl : argument = [] := h
    decide
  | GET =>
    obtain ⟨hstripped, hnl⟩ := h
    rw [show requestLine ⟨.GET, argument⟩ = ascii "GET " ++ argument from rfl, parseRequest_get hnl, trim,
      strip_eq_self hstripped]
  | UNKNOWN =>
    obtain ⟨hvisible, hupper, hw⟩ := h
    exact parseRequest_word hvisible hupper hw

theorem WellFormed.newline_not_mem (h : WellFormed r) : newline ∉ requestLine r := by
  obtain ⟨type, argument⟩ := r
  cases type with
  | LIST | QUIT =>
    show newline ∉ ascii _
    decide
  | GET => exact newline_not_mem_get h.2
  | UNKNOWN => exact newline_not_mem_of_not_isSpace h.1

/-- `parse_request` gives the well-formed requests and no others; the canonical line of such a request is
one line, and is read as that request. -/
theorem parseRequest_canonical :
    (∀ s, WellFormed (parseRequest s)) ∧
      (∀ r, WellFormed r → newline ∉ requestLine r ∧ parseRequest (requestLine r) = r) ∧
      ∀ s, parseRequest (requestLine (parseRequest s)) = parseRequest s := by
  have hwell (s : Bytes) : WellFormed (parseRequest s) := ((parseRequest_iff_denotes s _).1 rfl).wellFormed
  exact ⟨hwell, fun r hr => ⟨hr.newline_not_mem, hr.parseRequest_requestLine⟩,
    fun s => (hwell s).parseRequest_requestLine⟩

end Protocol
end Streamer

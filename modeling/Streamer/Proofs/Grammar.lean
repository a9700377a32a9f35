import Streamer.Protocol

/-!
# The grammar of requests

`Denotes` says what a line means without saying how it is read. `parse_request` (trim, extract a
word, skip white space, `getline`, trim again) computes it: `parseRequest_iff_denotes`.
-/

namespace Streamer
open Text

namespace Protocol

/-- `w` is the first maximal run of visible bytes of `s` and `r` is the text after it. -/
structure FirstRun (s w r : Bytes) : Prop where
  split : ∃ blank, (∀ b ∈ blank, isSpace b = true) ∧ s = blank ++ (w ++ r)
  visible : ∀ b ∈ w, isSpace b = false
  nonempty : w ≠ []
  maximal : ∀ b, r.head? = some b → isSpace b = true

/-- `x` is the part of `r` that starts at its first visible byte and ends before the next newline,
without the white space at its end; it is empty only if `r` has no visible byte. -/
structure Argument (r x : Bytes) : Prop where
  split : ∃ blank tail rest, (∀ b ∈ blank, isSpace b = true) ∧ (∀ b ∈ tail, isSpace b = true) ∧
    newline ∉ x ++ tail ∧ (∀ b, rest.head? = some b → b = newline) ∧
    r = blank ++ (x ++ tail ++ rest)
  stripped : Stripped isSpace x
  empty : x = [] → ∀ b ∈ r, isSpace b = true

/-- `w` is the word `name`, in whatever case. -/
def IsWord (w name : Bytes) : Prop := w.map toUpper = name

inductive Denotes (s : Bytes) : Request → Prop
  | blank (h : ∀ b ∈ s, isSpace b = true) : Denotes s ⟨.UNKNOWN, []⟩
  | list {w r} (h : FirstRun s w r) (hw : IsWord w (ascii "LIST")) : Denotes s ⟨.LIST, []⟩
  | get {w r x} (h : FirstRun s w r) (hw : IsWord w (ascii "GET")) (hx : Argument r x) :
      Denotes s ⟨.GET, x⟩
  | quit {w r} (h : FirstRun s w r)
      (hw : IsWord w (ascii "QUIT") ∨ IsWord w (ascii "EXIT") ∨ IsWord w (ascii "CLOSE")) :
      Denotes s ⟨.QUIT, []⟩
  | unknown {w r} (h : FirstRun s w r)
      (hw : ¬ (IsWord w (ascii "LIST") ∨ IsWord w (ascii "GET") ∨ IsWord w (ascii "QUIT") ∨
        IsWord w (ascii "EXIT") ∨ IsWord w (ascii "CLOSE"))) :
      Denotes s ⟨.UNKNOWN, w.map toUpper⟩

/-! ### The argument -/

/-- What `std::getline(iss >> std::ws, filename)` reads of `r`. -/
def nameLine (r : Bytes) : Bytes := (r.dropWhile isSpace).takeWhile (· != newline)

def lineArgument (r : Bytes) : Bytes := trim (nameLine r)

section
variable {s w r x t blank : Bytes}

theorem ne_newline_of_not_space {b : UInt8} (h : isSpace b = false) : (b != newline) = true := by
  rw [bne_iff_ne]
  rintro rfl
  cases h

theorem ne_newline_of_notMem (h : newline ∉ x) : ∀ b ∈ x, (b != newline) = true := by
  intro b hb
  rw [bne_iff_ne]
  rintro rfl
  exact h hb

theorem newline_notMem_nameLine (r : Bytes) : newline ∉ nameLine r := by
  intro h
  simpa using List.mem_takeWhile_imp h

/-- The line begins where the first visible byte of `r` is. -/
theorem nameLine_cons {a : UInt8} {l : Bytes} (h : r.dropWhile isSpace = a :: l) :
    isSpace a = false ∧ nameLine r = a :: l.takeWhile (· != newline) := by
  have ha : isSpace a = false := head?_dropWhile_eq_false (l := r) (by rw [h]; rfl)
  refine ⟨ha, ?_⟩
  rw [nameLine, h, List.takeWhile_cons, if_pos (ne_newline_of_not_space ha)]

theorem nameLine_of_blank (h : ∀ b ∈ r, isSpace b = true) : nameLine r = [] := by
  rw [nameLine, List.dropWhile_eq_nil_iff.2 h]
  rfl

theorem lineArgument_eq (r : Bytes) : lineArgument r = (nameLine r).rdropWhile isSpace := by
  rw [lineArgument, trim, strip, dropWhile_of_head]
  intro a ha
  cases hd : r.dropWhile isSpace with
  | nil =>
    rw [nameLine_of_blank (List.dropWhile_eq_nil_iff.1 hd)] at ha
    cases ha
  | cons b l =>
    rw [(nameLine_cons hd).2] at ha
    cases ha
    exact (nameLine_cons hd).1

theorem lineArgument_eq_nil (h : lineArgument r = []) : ∀ b ∈ r, isSpace b = true := by
  rw [← List.dropWhile_eq_nil_iff]
  -- a visible byte would be the first of the line, and would stay
  cases hd : r.dropWhile isSpace with
  | nil => rfl
  | cons a l =>
    obtain ⟨ha, hline⟩ := nameLine_cons hd
    rw [lineArgument_eq, hline, List.rdropWhile_eq_nil_iff] at h
    rw [h a (by simp)] at ha
    cases ha

theorem argument_lineArgument (r : Bytes) : Argument r (lineArgument r) := by
  have hsplit : lineArgument r ++ (nameLine r).rtakeWhile isSpace = nameLine r := by
    rw [lineArgument_eq, List.rdropWhile_append_rtakeWhile]
  refine ⟨⟨r.takeWhile isSpace, (nameLine r).rtakeWhile isSpace,
    (r.dropWhile isSpace).dropWhile (· != newline), ?_, ?_, ?_, ?_, ?_⟩, stripped_strip _ _,
    lineArgument_eq_nil⟩
  · exact fun b hb => List.mem_takeWhile_imp hb
  · exact fun b hb => List.mem_rtakeWhile_imp hb
  · rw [hsplit]
    exact newline_notMem_nameLine r
  · intro b hb
    simpa using head?_dropWhile_eq_false hb
  · rw [hsplit, nameLine, List.takeWhile_append_dropWhile, List.takeWhile_append_dropWhile]

theorem Argument.eq_lineArgument (h : Argument r x) : x = lineArgument r := by
  obtain ⟨⟨blank, tail, rest, hblank, htail, hnl, hrest, rfl⟩, hstripped, hempty⟩ := h
  by_cases hx : x = []
  · rw [lineArgument, nameLine_of_blank (hempty hx), hx]
    rfl
  · have hhead : ∀ a, (x ++ tail ++ rest).head? = some a → isSpace a = false := by
      intro a ha
      obtain ⟨c, x, rfl⟩ := List.exists_cons_of_ne_nil hx
      exact hstripped.1 a ha
    have hrest : rest.takeWhile (· != newline) = [] := by
      cases rest with
      | nil => rfl
      | cons b rest => exact List.takeWhile_cons_of_neg (by simp [hrest b rfl])
    rw [lineArgument, nameLine, List.dropWhile_append_of_pos hblank, dropWhile_of_head hhead,
      List.takeWhile_append_of_pos (ne_newline_of_notMem hnl), hrest, List.append_nil, trim,
      strip_append_of_all htail, strip_eq_self hstripped]

/-- White space at the end of the text makes no difference. -/
theorem lineArgument_append (ht : ∀ b ∈ t, isSpace b = true) : lineArgument (r ++ t) = lineArgument r := by
  by_cases hr : ∀ b ∈ r, isSpace b = true
  · have hall : ∀ b ∈ r ++ t, isSpace b = true := by
      intro b hb
      exact (List.mem_append.1 hb).elim (hr b) (ht b)
    rw [lineArgument, lineArgument, nameLine_of_blank hr, nameLine_of_blank hall]
  · have hne : r.dropWhile isSpace ≠ [] := fun h => hr (List.dropWhile_eq_nil_iff.1 h)
    have hdrop : (r ++ t).dropWhile isSpace = r.dropWhile isSpace ++ t := by
      rw [List.dropWhile_append, if_neg (by simpa using hne)]
    by_cases hnl : newline ∈ r.dropWhile isSpace
    · -- the line ends inside `r`
      rw [lineArgument, nameLine, hdrop, List.takeWhile_append, if_neg]
      · rfl
      intro hlen
      have hall := List.takeWhile_eq_self_iff.1
        ((List.takeWhile_prefix (p := (· != newline)) (l := r.dropWhile isSpace)).eq_of_length hlen)
      simpa using hall newline hnl
    · have hall := ne_newline_of_notMem hnl
      rw [lineArgument, lineArgument, nameLine, nameLine, hdrop, List.takeWhile_append_of_pos hall,
        List.takeWhile_eq_self_iff.2 hall, trim,
        strip_append_of_all fun b hb => ht b ((List.takeWhile_prefix _).subset hb), trim]

/-! ### The command -/

theorem FirstRun.trim_eq (h : FirstRun s w r) : trim s = w ++ r.rdropWhile isSpace := by
  obtain ⟨⟨blank, hblank, rfl⟩, hvisible, hne, hmax⟩ := h
  have hcut : w ++ r = w ++ r.rdropWhile isSpace ++ r.rtakeWhile isSpace := by
    rw [List.append_assoc, List.rdropWhile_append_rtakeWhile]
  have hw : ∀ b ∈ r.rtakeWhile isSpace, isSpace b = true := fun b hb => List.mem_rtakeWhile_imp hb
  rw [trim, strip_all_append hblank, hcut, strip_append_of_all hw, strip_eq_self]
  refine ⟨?_, ?_⟩
  · intro b hb
    obtain ⟨c, w, rfl⟩ := List.exists_cons_of_ne_nil hne
    cases hb
    exact hvisible b (by simp)
  · intro b hb
    by_cases hnil : r.rdropWhile isSpace = []
    · rw [hnil, List.append_nil] at hb
      exact hvisible b (List.mem_of_getLast? hb)
    · rw [List.getLast?_append_of_ne_nil _ hnil, List.getLast?_eq_some_getLast hnil] at hb
      cases hb
      simpa using List.rdropWhile_last_not isSpace r hnil

theorem FirstRun.extractWord_trim (h : FirstRun s w r) :
    extractWord (trim s) = (w, r.rdropWhile isSpace) := by
  rw [h.trim_eq]
  cases hr : r.rdropWhile isSpace with
  | nil =>
    have hall : ∀ b ∈ w, (!isSpace b) = true := fun b hb => by simp [h.visible b hb]
    have hhead : ∀ b, w.head? = some b → isSpace b = false := fun b hb => h.visible b (List.mem_of_mem_head? hb)
    rw [List.append_nil, extractWord, dropWhile_of_head hhead, List.takeWhile_eq_self_iff.2 hall,
      List.dropWhile_eq_nil_iff.2 hall]
  | cons b rest =>
    have hb : isSpace b = true := by
      refine h.maximal b ?_
      obtain ⟨t, ht⟩ := List.rdropWhile_prefix isSpace r
      rw [← ht, hr]
      rfl
    exact extractWord_append h.visible h.nonempty hb

/-- What `parse_request` makes of the first word and the text after it. -/
def interpret (w r : Bytes) : Request :=
  if w.map toUpper = ascii "LIST" then { type := .LIST }
  else if w.map toUpper = ascii "GET" then { type := .GET, argument := lineArgument r }
  else if w.map toUpper = ascii "QUIT" ∨ w.map toUpper = ascii "EXIT" ∨ w.map toUpper = ascii "CLOSE" then
    { type := .QUIT }
  else { type := .UNKNOWN, argument := w.map toUpper }

theorem FirstRun.parseRequest_eq (h : FirstRun s w r) : parseRequest s = interpret w r := by
  have hne : (trim s).isEmpty = false := by
    rw [h.trim_eq]
    simp [h.nonempty]
  have harg : lineArgument (r.rdropWhile isSpace) = lineArgument r := by
    conv => rhs; rw [← List.rdropWhile_append_rtakeWhile (p := isSpace) (l := r)]
    exact (lineArgument_append fun b hb => List.mem_rtakeWhile_imp hb).symm
  unfold parseRequest interpret
  rw [← harg]
  simp only [hne, Bool.false_eq_true, if_false, h.extractWord_trim]
  rfl

theorem parseRequest_of_blank (h : ∀ b ∈ s, isSpace b = true) : parseRequest s = {} := by
  simp [parseRequest, trim, strip_eq_nil h]

theorem firstRun_of_visible (h : ¬ ∀ b ∈ s, isSpace b = true) : ∃ w r, FirstRun s w r := by
  have hne : s.dropWhile isSpace ≠ [] := fun hnil => h (List.dropWhile_eq_nil_iff.1 hnil)
  obtain ⟨a, l, hd⟩ := List.exists_cons_of_ne_nil hne
  have ha : isSpace a = false := head?_dropWhile_eq_false (l := s) (by rw [hd]; rfl)
  refine ⟨(s.dropWhile isSpace).takeWhile (!isSpace ·), (s.dropWhile isSpace).dropWhile (!isSpace ·),
    ⟨s.takeWhile isSpace, fun b hb => List.mem_takeWhile_imp hb, ?_⟩, ?_, ?_, ?_⟩
  · rw [List.takeWhile_append_dropWhile, List.takeWhile_append_dropWhile]
  · intro b hb
    simpa using List.mem_takeWhile_imp hb
  · simp [hd, ha]
  · intro b hb
    simpa using head?_dropWhile_eq_false hb

/-! ### The grammar -/

theorem denotes_interpret (h : FirstRun s w r) : Denotes s (interpret w r) := by
  unfold interpret
  split
  · exact .list h ‹_›
  rename_i hlist
  split
  · exact .get h ‹_› (argument_lineArgument r)
  rename_i hget
  split
  · exact .quit h ‹_›
  rename_i hquit
  exact .unknown h fun hw => hw.elim hlist fun hw => hw.elim hget hquit

theorem parseRequest_of_denotes {req : Request} (h : Denotes s req) : parseRequest s = req := by
  cases h with
  | blank h => exact parseRequest_of_blank h
  | @list w r h hw =>
    rw [h.parseRequest_eq, interpret, if_pos (show w.map toUpper = _ from hw)]
  | @get w r x h hw hx =>
    have hlist : ¬ w.map toUpper = ascii "LIST" := fun hl => absurd (hw.symm.trans hl) (by decide)
    rw [h.parseRequest_eq, interpret, if_neg hlist, if_pos (show w.map toUpper = _ from hw),
      hx.eq_lineArgument]
  | @quit w r h hw =>
    simp only [IsWord] at hw
    have hlist : ¬ w.map toUpper = ascii "LIST" := by
      rcases hw with hw | hw | hw <;> rw [hw] <;> decide
    have hget : ¬ w.map toUpper = ascii "GET" := by
      rcases hw with hw | hw | hw <;> rw [hw] <;> decide
    rw [h.parseRequest_eq, interpret, if_neg hlist, if_neg hget, if_pos hw]
  | @unknown w r h hw =>
    simp only [IsWord, not_or] at hw
    rw [h.parseRequest_eq, interpret, if_neg hw.1, if_neg hw.2.1, if_neg (by simp [hw.2.2])]

theorem parseRequest_iff_denotes (s : Bytes) (req : Request) : parseRequest s = req ↔ Denotes s req := by
  refine ⟨?_, parseRequest_of_denotes⟩
  rintro rfl
  by_cases h : ∀ b ∈ s, isSpace b = true
  · rw [parseRequest_of_blank h]
    exact .blank h
  · obtain ⟨w, r, h⟩ := firstRun_of_visible h
    rw [h.parseRequest_eq]
    exact denotes_interpret h

theorem isSpace_toUpper (b : UInt8) : isSpace (toUpper b) = isSpace b := by
  have hall : ∀ n : Fin 256, isSpace (toUpper (UInt8.ofNat n)) = isSpace (UInt8.ofNat n) := by
    decide +kernel
  simpa using hall ⟨b.toNat, b.toNat_lt⟩

theorem Denotes.stripped {req : Request} (h : Denotes s req) : Stripped isSpace req.argument := by
  cases h with
  | @get w r x h hw hx => exact hx.stripped
  | @unknown w r h hw =>
    have hvisible : ∀ b ∈ w.map toUpper, isSpace b = false := by
      intro b hb
      obtain ⟨c, hc, rfl⟩ := List.mem_map.1 hb
      rw [isSpace_toUpper]
      exact h.visible c hc
    exact ⟨fun b hb => hvisible b (List.mem_of_mem_head? hb),
      fun b hb => hvisible b (List.mem_of_getLast? hb)⟩
  | _ => exact ⟨nofun, nofun⟩

/-- The name in a `GET` is a piece of the line, byte by byte. -/
theorem Denotes.infix {req : Request} (h : Denotes s req) (hget : req.type = .GET) :
    req.argument <:+: s := by
  cases h with
  | @get w r x h hw hx =>
    obtain ⟨blank, -, rfl⟩ := h.split
    obtain ⟨blank', tail, rest, -, -, -, -, rfl⟩ := hx.split
    exact ⟨blank ++ w ++ blank', tail ++ rest, by simp⟩
  | _ => cases hget

/-- `parse_request` is the grammar, its argument has no white space at its ends and, for `GET`, is
taken from the line as it is, and white space around the line makes no difference. -/
theorem parseRequest_grammar (s : Bytes) :
    (∀ req, parseRequest s = req ↔ Denotes s req) ∧
      Stripped isSpace (parseRequest s).argument ∧
      ((parseRequest s).type = .GET → (parseRequest s).argument <:+: s) ∧
      ∀ a b : Bytes, (∀ c ∈ a, isSpace c = true) → (∀ c ∈ b, isSpace c = true) →
        parseRequest s = parseRequest (a ++ s ++ b) := by
  have hdenotes := (parseRequest_iff_denotes s _).1 rfl
  refine ⟨parseRequest_iff_denotes s, hdenotes.stripped, hdenotes.infix, ?_⟩
  intro a b ha hb
  rw [parseRequest_append_space hb]
  unfold parseRequest trim
  rw [strip_all_append ha]

/-- `get  a B.txt`, with a tab before it and a newline and more after it. -/
theorem parseRequest_grammar_get :
    parseRequest (ascii "get  a B.txt\nrest") = ⟨.GET, ascii "a B.txt"⟩ ∧
      parseRequest (ascii "\t" ++ ascii "get  a B.txt\nrest" ++ ascii "\r\n") =
        ⟨.GET, ascii "a B.txt"⟩ := by
  have hget : parseRequest (ascii "get  a B.txt\nrest") = ⟨.GET, ascii "a B.txt"⟩ := by decide +kernel
  refine ⟨hget, ?_⟩
  rw [← (parseRequest_grammar (ascii "get  a B.txt\nrest")).2.2.2 (ascii "\t") (ascii "\r\n")
    (by simp [ascii, isSpace]) (by simp [ascii, isSpace])]
  exact hget

end

end Protocol
end Streamer

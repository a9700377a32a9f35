import Mathlib.Algebra.Ring.Nat
import Mathlib.Data.List.DropRight
import Mathlib.Data.List.Lex
import Mathlib.Order.Lattice.Nat

/-!
# Byte strings, as the C and C++ libraries read and write them

Texts are lists of bytes. The classification of characters is that of the C locale (`isspace`,
`toupper`), numbers are written as `std::to_string` and `operator<<` write them (`decimal`) and read
as `operator>>` reads an unsigned 64-bit integer (`extractUnsigned`), a word is read as `operator>>`
reads a string (`extractWord`). `lines` cuts a stream at its newlines.
-/

namespace Text

abbrev Bytes := List UInt8

def ascii (s : String) : Bytes := s.toList.map fun c => c.toNat.toUInt8

def newline : UInt8 := 10
def carriageReturn : UInt8 := 13

/-- `isspace` in the C locale: space, `\t`, `\n`, `\v`, `\f`, `\r`. -/
def isSpace (b : UInt8) : Bool := b == 32 || (9 ≤ b && b ≤ 13)

def toUpper (b : UInt8) : UInt8 := if 97 ≤ b && b ≤ 122 then b - 32 else b

def isDigit (b : UInt8) : Bool := 48 ≤ b && b ≤ 57

/-- `operator<` of `std::string`: bytes compare as unsigned. -/
def less : Bytes → Bytes → Bool
  | _, [] => false
  | [], _ :: _ => true
  | a :: as, b :: bs => decide (a.toNat < b.toNat) || (a == b && less as bs)

/-! ### `less` is the strict part of a linear order -/

theorem less_iff (a b : Bytes) : less a b = true ↔ a.map UInt8.toNat < b.map UInt8.toNat := by
  fun_induction less a b with
  | case1 a => simp
  | case2 b bs => simp
  | case3 a as b bs ih =>
    simp only [Bool.or_eq_true, decide_eq_true_eq, Bool.and_eq_true, beq_iff_eq, List.map_cons,
      List.cons_lt_cons_iff, ih, UInt8.toNat_inj]

theorem less_eq_false_iff (a b : Bytes) :
    less a b = false ↔ b.map UInt8.toNat ≤ a.map UInt8.toNat := by
  rw [← Bool.not_eq_true, less_iff, not_lt]

theorem less_of_ne {a b : Bytes} (h : less b a = false) (hne : a ≠ b) : less a b = true := by
  rw [less_eq_false_iff] at h
  rw [less_iff]
  refine lt_of_le_of_ne h ?_
  intro heq
  exact hne (List.map_injective_iff.2 (fun _ _ => UInt8.toNat_inj.1) heq)

theorem less_irrefl (a : Bytes) : less a a = false := by
  rw [less_eq_false_iff]

theorem less_asymm {a b : Bytes} (h : less a b = true) : less b a = false := by
  rw [less_iff] at h
  rw [less_eq_false_iff]
  exact h.le

/-! ### Stripping both ends -/

section Strip
variable {α : Type} {p : α → Bool} {l w : List α}

def strip (p : α → Bool) (l : List α) : List α := (l.dropWhile p).rdropWhile p

theorem rdropWhile_append_of_all (h : ∀ a ∈ w, p a = true) : (l ++ w).rdropWhile p = l.rdropWhile p := by
  simp only [List.rdropWhile, List.reverse_append]
  rw [List.dropWhile_append_of_pos fun a ha => h a (List.mem_reverse.1 ha)]

theorem strip_append_of_all (h : ∀ a ∈ w, p a = true) : strip p (l ++ w) = strip p l := by
  unfold strip
  rw [List.dropWhile_append]
  split
  · rename_i hl
    rw [List.isEmpty_iff.1 hl, List.rdropWhile_nil, List.rdropWhile_eq_nil_iff.2]
    exact fun a ha => h a ((List.dropWhile_sublist p).subset ha)
  · exact rdropWhile_append_of_all h

theorem strip_all_append (h : ∀ a ∈ w, p a = true) : strip p (w ++ l) = strip p l := by
  unfold strip
  rw [List.dropWhile_append_of_pos h]

theorem strip_eq_nil (h : ∀ a ∈ l, p a = true) : strip p l = [] := by
  rw [← List.append_nil l, strip_all_append h]
  rfl

/-- Neither the first nor the last element satisfies `p`. -/
def Stripped (p : α → Bool) (l : List α) : Prop :=
  (∀ a, l.head? = some a → p a = false) ∧ ∀ a, l.getLast? = some a → p a = false

theorem dropWhile_of_head (h : ∀ a, l.head? = some a → p a = false) : l.dropWhile p = l := by
  cases l with
  | nil => rfl
  | cons a l => exact List.dropWhile_cons_of_neg (by simp [h a rfl])

theorem head?_dropWhile_eq_false {a : α} (h : (l.dropWhile p).head? = some a) : p a = false := by
  induction l with
  | nil => cases h
  | cons b l ih =>
    cases hb : p b with
    | true =>
      rw [List.dropWhile_cons_of_pos hb] at h
      exact ih h
    | false =>
      rw [List.dropWhile_cons_of_neg (by simp [hb])] at h
      cases h
      exact hb

theorem strip_eq_self (h : Stripped p l) : strip p l = l := by
  unfold strip List.rdropWhile
  rw [dropWhile_of_head h.1, dropWhile_of_head, List.reverse_reverse]
  intro a ha
  rw [List.head?_reverse] at ha
  exact h.2 a ha

theorem stripped_rdropWhile (h : ∀ a, l.head? = some a → p a = false) : Stripped p (l.rdropWhile p) := by
  refine ⟨?_, ?_⟩
  · intro a ha
    refine h a ?_
    obtain ⟨t, ht⟩ := List.rdropWhile_prefix p l
    rw [← ht, List.head?_append, ha]
    rfl
  · intro a ha
    unfold List.rdropWhile at ha
    rw [List.getLast?_reverse] at ha
    exact head?_dropWhile_eq_false ha

theorem stripped_strip (p : α → Bool) (l : List α) : Stripped p (strip p l) :=
  stripped_rdropWhile fun _ ha => head?_dropWhile_eq_false ha

end Strip

/-! ### Numbers -/

/-- `std::to_string`, `os << n`. -/
def decimal (n : Nat) : Bytes := (Nat.toDigits 10 n).map fun c => c.toNat.toUInt8

def digitsValue (ds : Bytes) : Nat := ds.foldl (fun acc b => 10 * acc + (b.toNat - 48)) 0

theorem toNat_of_isDigit {c : Char} (h : c.isDigit = true) : 48 ≤ c.toNat ∧ c.toNat ≤ 57 := by
  simp only [Char.isDigit, Bool.and_eq_true, decide_eq_true_eq] at h
  exact ⟨h.1, h.2⟩

theorem isDigit_of_mem_decimal {n : Nat} {b : UInt8} (h : b ∈ decimal n) : isDigit b = true := by
  obtain ⟨c, hc, rfl⟩ := List.mem_map.1 h
  obtain ⟨h1, h2⟩ := toNat_of_isDigit (Nat.isDigit_of_mem_toDigits (by decide) (by decide) hc)
  simp only [isDigit, Bool.and_eq_true, decide_eq_true_eq, UInt8.le_iff_toNat_le]
  have : c.toNat.toUInt8.toNat = c.toNat := by simp; omega
  rw [this]
  exact ⟨h1, h2⟩

theorem decimal_ne_nil (n : Nat) : decimal n ≠ [] := by
  simp [decimal, Nat.toDigits_ne_nil]

theorem length_decimal_le {n : Nat} (h : n < 2 ^ 64) : (decimal n).length ≤ 20 := by
  rw [decimal, List.length_map, Nat.length_toDigits_le_iff (by decide) (by decide)]
  omega

theorem digitsValue_decimal (n : Nat) : digitsValue (decimal n) = n := by
  rw [digitsValue, decimal, List.foldl_map]
  conv => rhs; rw [← Nat.ofDigitChars_ten_toDigits (n := n), Nat.ofDigitChars_eq_foldl]
  refine List.foldl_ext _ _ _ ?_
  intro acc c hc
  obtain ⟨h1, h2⟩ := toNat_of_isDigit (Nat.isDigit_of_mem_toDigits (by decide) (by decide) hc)
  have : c.toNat.toUInt8.toNat = c.toNat := by simp; omega
  rw [this]
  rfl

theorem digitsValue_cons (d : UInt8) (ds : Bytes) :
    digitsValue (d :: ds) = (d.toNat - 48) * 10 ^ ds.length + digitsValue ds := by
  have hfold : ∀ (ds : Bytes) (k : Nat), ds.foldl (fun acc b => 10 * acc + (b.toNat - 48)) k =
      k * 10 ^ ds.length + digitsValue ds := by
    intro ds
    induction ds with
    | nil => simp [digitsValue]
    | cons d ds ih =>
      intro k
      rw [digitsValue, List.foldl_cons, List.foldl_cons, ih, ih, List.length_cons, Nat.pow_succ]
      grind
  rw [digitsValue, List.foldl_cons, hfold]
  simp

theorem digitsValue_lt {ds : Bytes} (h : ∀ b ∈ ds, isDigit b = true) :
    digitsValue ds < 10 ^ ds.length := by
  induction ds with
  | nil => simp [digitsValue]
  | cons d ds ih =>
    have h1 := ih fun b hb => h b (by simp [hb])
    have h2 := h d (by simp)
    simp only [isDigit, Bool.and_eq_true, decide_eq_true_eq, UInt8.le_iff_toNat_le] at h2
    have h3 : (57 : UInt8).toNat = 57 := rfl
    rw [digitsValue_cons, List.length_cons, Nat.pow_succ]
    have : (d.toNat - 48) * 10 ^ ds.length ≤ 9 * 10 ^ ds.length := Nat.mul_le_mul_right _ (by omega)
    omega

/-- A number other than `0` does not begin with the digit `0`, so neither does a part of its
digits. -/
theorem eq_zero_of_prefix_decimal {n : Nat} {p : Bytes} (hp : p <+: decimal n) (hne : p ≠ [])
    (h0 : digitsValue p = 0) : n = 0 := by
  obtain ⟨d, ds, rfl⟩ := List.exists_cons_of_ne_nil hne
  obtain ⟨rest, hrest⟩ := hp
  have hdig : ∀ b ∈ d :: (ds ++ rest), isDigit b = true :=
    fun b hb => isDigit_of_mem_decimal (n := n) (hrest ▸ hb)
  have hd : d.toNat - 48 = 0 := by
    rw [digitsValue_cons] at h0
    have := Nat.eq_zero_of_add_eq_zero_right h0
    exact (Nat.mul_eq_zero.1 this).resolve_right (Nat.pow_pos (by decide)).ne'
  have hn : n = digitsValue (ds ++ rest) := by
    rw [← digitsValue_decimal n, ← hrest, List.cons_append, digitsValue_cons, hd]
    simp
  have hlt : n < 10 ^ (ds ++ rest).length := hn ▸ digitsValue_lt fun b hb => hdig b (by simp [hb])
  rcases Nat.eq_zero_or_pos (ds ++ rest).length with hz | hz
  · rw [hz] at hlt; omega
  · have hlen := (Nat.length_toDigits_le_iff (b := 10) (n := n) (by decide) hz).2 hlt
    have := congrArg List.length hrest
    simp only [List.cons_append, List.length_cons, decimal, List.length_map] at this
    omega

theorem isSpace_of_isDigit {b : UInt8} (h : isDigit b = true) : isSpace b = false := by
  simp only [isDigit, Bool.and_eq_true, decide_eq_true_eq, UInt8.le_iff_toNat_le] at h
  simp only [isSpace, Bool.or_eq_false_iff, beq_eq_false_iff_ne, Bool.and_eq_false_iff,
    decide_eq_false_iff_not, UInt8.le_iff_toNat_le, ne_eq, ← UInt8.toNat_inj]
  have h1 : (48 : UInt8).toNat = 48 := rfl
  have h2 : (13 : UInt8).toNat = 13 := rfl
  have h3 : (32 : UInt8).toNat = 32 := rfl
  omega

/-- `std::istringstream(s) >> n` for an unsigned 64-bit `n` that was `0`: whether it succeeds, and
the value `n` has after it. A `-` negates modulo `2 ^ 64`; a number out of range fails and gives
the largest value, anything else that is not a number fails and gives `0`. -/
def extractUnsigned (s : Bytes) : Bool × Nat :=
  let s := s.dropWhile isSpace
  let negative := s.head? == some 45
  let digits := (if negative || s.head? == some 43 then s.tail else s).takeWhile isDigit
  if digits.isEmpty then (false, 0)
  else if 2 ^ 64 ≤ digitsValue digits then (false, 2 ^ 64 - 1)
  else (true, if negative then (2 ^ 64 - digitsValue digits) % 2 ^ 64 else digitsValue digits)

theorem extractUnsigned_space_digits {w ds : Bytes} (hw : ∀ b ∈ w, isSpace b = true)
    (h : ∀ b ∈ ds, isDigit b = true) (hne : ds ≠ []) :
    extractUnsigned (w ++ ds) =
      if 2 ^ 64 ≤ digitsValue ds then (false, 2 ^ 64 - 1) else (true, digitsValue ds) := by
  obtain ⟨d, ds, rfl⟩ := List.exists_cons_of_ne_nil hne
  have hd := h d (by simp)
  have hds : (w ++ d :: ds).dropWhile isSpace = d :: ds := by
    rw [List.dropWhile_append_of_pos hw]
    simp [isSpace_of_isDigit hd]
  have h45 : d ≠ 45 := by
    rintro rfl
    revert hd
    decide
  have h43 : d ≠ 43 := by
    rintro rfl
    revert hd
    decide
  have htake : (d :: ds).takeWhile isDigit = d :: ds := List.takeWhile_eq_self_iff.2 h
  have hneg : ((d :: ds).head? == some 45) = false := by simp [h45]
  have hplus : ((d :: ds).head? == some 43) = false := by simp [h43]
  simp only [extractUnsigned, hds, hneg, hplus, htake, Bool.or_self, Bool.false_eq_true,
    if_false, List.isEmpty_cons]

theorem extractUnsigned_digits {ds : Bytes} (h : ∀ b ∈ ds, isDigit b = true)
    (hok : (extractUnsigned ds).1 = true) : ds ≠ [] ∧ (extractUnsigned ds).2 = digitsValue ds := by
  have hne : ds ≠ [] := by
    rintro rfl
    cases hok
  refine ⟨hne, ?_⟩
  have heq : extractUnsigned ds = _ := extractUnsigned_space_digits (w := []) (by simp) h hne
  rw [heq] at hok ⊢
  split
  · rename_i hbig
    rw [if_pos hbig] at hok
    cases hok
  · rfl

theorem extractUnsigned_decimal {w : Bytes} (hw : ∀ b ∈ w, isSpace b = true) {n : Nat} (hn : n < 2 ^ 64) :
    extractUnsigned (w ++ decimal n) = (true, n) := by
  rw [extractUnsigned_space_digits hw (fun b => isDigit_of_mem_decimal) (decimal_ne_nil n),
    digitsValue_decimal, if_neg (Nat.not_le.2 hn)]

/-- Only a number that is `0` is read as `0` when a part of its digits is missing. -/
theorem extractUnsigned_prefix_decimal {n : Nat} {p : Bytes} (hp : p <+: decimal n) (hne : p ≠ []) :
    (extractUnsigned p).2 = 0 ↔ n = 0 := by
  have hdigits : ∀ b ∈ p, isDigit b = true := by
    intro b hb
    exact isDigit_of_mem_decimal (hp.subset hb)
  have heq : extractUnsigned p = _ := extractUnsigned_space_digits (w := []) (by simp) hdigits hne
  rw [heq]
  constructor
  · intro h
    split at h
    · cases h
    · exact eq_zero_of_prefix_decimal hp hne h
  · rintro rfl
    have hone : p = decimal 0 := by
      refine hp.eq_of_length_le ?_
      have := List.length_pos_of_ne_nil hne
      exact this
    rw [hone]
    rfl

/-- What `strtol` and its relatives read at the front of `s`: whether there is a minus sign, and the
value of the digits (`0` without a digit). -/
def scanNumeral (s : Bytes) : Bool × Nat :=
  let s := s.dropWhile isSpace
  let negative := s.head? == some 45
  (negative, digitsValue ((if negative || s.head? == some 43 then s.tail else s).takeWhile isDigit))

/-- `strtoul(s, nullptr, 10)`, and `strtoull`: both have 64 bits here. -/
def strtoul (s : Bytes) : UInt64 :=
  let (negative, n) := scanNumeral s
  if 2 ^ 64 ≤ n then UInt64.ofNat (2 ^ 64 - 1)
  else if negative then UInt64.ofNat (2 ^ 64 - n) else UInt64.ofNat n

/-- `atoi(s)`: `strtol`, cut to the 32 bits of an `int`. -/
def atoi (s : Bytes) : Int :=
  let (negative, n) := scanNumeral s
  Int.bmod (if negative then max (-n) (-2 ^ 63) else min n (2 ^ 63 - 1)) (2 ^ 32)

/-- A decimal numeral: digits, and a minus sign or none. -/
def numeral (negative : Bool) (digits : Bytes) : Bytes := if negative then 45 :: digits else digits

def numeralValue (negative : Bool) (digits : Bytes) : Int :=
  if negative then -(digitsValue digits) else digitsValue digits

theorem scanNumeral_numeral {digits : Bytes} (negative : Bool) (h : ∀ b ∈ digits, isDigit b = true)
    (hne : digits ≠ []) : scanNumeral (numeral negative digits) = (negative, digitsValue digits) := by
  have htake : digits.takeWhile isDigit = digits := List.takeWhile_eq_self_iff.2 h
  cases negative with
  | true => simp [scanNumeral, numeral, isSpace, htake]
  | false =>
    obtain ⟨d, ds, rfl⟩ := List.exists_cons_of_ne_nil hne
    have hd := h d (by simp)
    have hsign {c : UInt8} (hc : isDigit c = false) : d ≠ c := by
      rintro rfl
      rw [hc] at hd
      cases hd
    simp [scanNumeral, numeral, isSpace_of_isDigit hd, hsign (c := 45) rfl, hsign (c := 43) rfl, htake]

/-- Of a numeral in its range, `strtoul` keeps the remainder modulo `2^64`. -/
theorem strtoul_numeral {digits : Bytes} (negative : Bool) (h : ∀ b ∈ digits, isDigit b = true)
    (hne : digits ≠ []) (hrange : digitsValue digits < 2 ^ 64) :
    ((strtoul (numeral negative digits)).toNat : Int) = numeralValue negative digits % 2 ^ 64 := by
  have hofNat (n : Nat) : (UInt64.ofNat n).toNat = n % 2 ^ 64 := UInt64.toNat_ofNat'
  simp only [strtoul, numeralValue, scanNumeral_numeral negative h hne, if_neg (Nat.not_le.2 hrange)]
  cases negative with
  | true =>
    simp only [if_true, hofNat]
    omega
  | false =>
    simp only [Bool.false_eq_true, if_false, hofNat]
    omega

/-- `atoi` gives the value of a numeral that an `int` can hold. -/
theorem atoi_numeral {digits : Bytes} (negative : Bool) (h : ∀ b ∈ digits, isDigit b = true)
    (hne : digits ≠ []) (hlow : -2 ^ 31 ≤ numeralValue negative digits)
    (hhigh : numeralValue negative digits < 2 ^ 31) :
    atoi (numeral negative digits) = numeralValue negative digits := by
  simp only [atoi, scanNumeral_numeral negative h hne]
  cases negative with
  | true =>
    simp only [numeralValue, if_true] at hlow hhigh ⊢
    rw [max_eq_left (by omega)]
    exact Int.bmod_eq_of_le (by omega) (by omega)
  | false =>
    simp only [numeralValue, Bool.false_eq_true, if_false] at hlow hhigh ⊢
    rw [min_eq_left (by omega)]
    exact Int.bmod_eq_of_le (by omega) (by omega)

/-! ### Words -/

/-- `is >> word`: the word read (empty when there is none) and what is left of the stream. -/
def extractWord (s : Bytes) : Bytes × Bytes :=
  let s := s.dropWhile isSpace
  (s.takeWhile (! isSpace ·), s.dropWhile (! isSpace ·))

theorem isSpace_of_mem_extractWord {s : Bytes} {b : UInt8} (h : b ∈ (extractWord s).1) :
    isSpace b = false := by
  simpa using List.mem_takeWhile_imp h

theorem extractWord_append {w rest : Bytes} (hw : ∀ b ∈ w, isSpace b = false) (hne : w ≠ []) {sp : UInt8}
    (hsp : isSpace sp = true) : extractWord (w ++ sp :: rest) = (w, sp :: rest) := by
  obtain ⟨a, as, rfl⟩ := List.exists_cons_of_ne_nil hne
  have ha := hw a (by simp)
  have h0 : ((a :: as) ++ sp :: rest).dropWhile isSpace = (a :: as) ++ sp :: rest := by simp [ha]
  have h1 : ∀ b ∈ a :: as, (! isSpace b) = true := fun b hb => by simp [hw b hb]
  simp only [extractWord, h0]
  rw [List.takeWhile_append_of_pos h1, List.dropWhile_append_of_pos h1]
  simp [hsp]

/-! ### Lines -/

/-- `s` cut at its newlines; a last piece that no newline ends is a line unless it is empty. -/
def lines : Bytes → List Bytes
  | [] => []
  | b :: s =>
    if b = newline then [] :: lines s
    else match lines s with
      | [] => [[b]]
      | l :: ls => (b :: l) :: ls

def dropCr (l : Bytes) : Bytes := if l.getLast? = some carriageReturn then l.dropLast else l

/-- The lines that can be read from `s`: a last piece that no newline ends is one at the end of the
stream only. -/
def received (fin : Bool) : Bytes → List Bytes
  | [] => []
  | b :: s =>
    if b = newline then [] :: received fin s
    else match received fin s with
      | [] => if fin then [[b]] else []
      | l :: ls => (b :: l) :: ls

theorem received_true (s : Bytes) : received true s = lines s := by
  induction s with
  | nil => rfl
  | cons b s ih => simp only [received, lines, ih, if_true]

theorem received_append_newline (fin : Bool) {l : Bytes} (h : newline ∉ l) (s : Bytes) :
    received fin (l ++ newline :: s) = l :: received fin s := by
  induction l with
  | nil => simp [received]
  | cons b l ih =>
    have hb : b ≠ newline := fun e => h (by simp [e])
    simp only [List.cons_append, received, hb, if_false, ih fun hl => h (by simp [hl])]

theorem received_of_not_mem (fin : Bool) {l : Bytes} (h : newline ∉ l) :
    received fin l = if fin = true ∧ l ≠ [] then [l] else [] := by
  induction l with
  | nil => simp [received]
  | cons b l ih =>
    have hb : b ≠ newline := fun e => h (by simp [e])
    have hl : newline ∉ l := fun hl => h (by simp [hl])
    cases fin with
    | false => simp [received, hb, ih hl]
    | true =>
      by_cases hnil : l = []
      · simp [hnil, received, hb]
      · simp [received, hb, ih hl, hnil]

theorem lines_append_newline {l : Bytes} (h : newline ∉ l) (s : Bytes) :
    lines (l ++ newline :: s) = l :: lines s := by
  rw [← received_true, received_append_newline true h, received_true]

theorem lines_of_not_mem {l : Bytes} (h : newline ∉ l) (hne : l ≠ []) : lines l = [l] := by
  rw [← received_true, received_of_not_mem true h, if_pos ⟨rfl, hne⟩]

/-- Of two streams that begin with a line each, one a part of the other, the lines are the same. -/
theorem line_of_prefix {α : Type} {sep : α} {l l' s s' : List α} (hl : sep ∉ l) (hl' : sep ∉ l')
    (h : l ++ sep :: s <+: l' ++ sep :: s') : l = l' ∧ s <+: s' := by
  induction l generalizing l' with
  | nil =>
    cases l' with
    | nil => exact ⟨rfl, (List.cons_prefix_cons.1 h).2⟩
    | cons b l' => exact absurd (by simp [(List.cons_prefix_cons.1 h).1]) hl'
  | cons a l ih =>
    cases l' with
    | nil => exact absurd (by simp [(List.cons_prefix_cons.1 h).1]) hl
    | cons b l' =>
      obtain ⟨rfl, htail⟩ := List.cons_prefix_cons.1 h
      obtain ⟨rfl, hs⟩ := ih (fun hm => hl (by simp [hm])) (fun hm => hl' (by simp [hm])) htail
      exact ⟨rfl, hs⟩

/-- What comes before the first newline of a stream is a part of its first line. -/
theorem prefix_line {l l' s : Bytes} (hl : newline ∉ l) (h : l <+: l' ++ newline :: s) : l <+: l' := by
  rcases List.prefix_or_prefix_of_prefix h (List.prefix_append l' (newline :: s)) with h' | ⟨t, rfl⟩
  · exact h'
  · cases t with
    | nil => simp
    | cons b t =>
      have := (List.prefix_append_right_inj l').1 h
      exact absurd (by simp [(List.cons_prefix_cons.1 this).1]) hl

/-- The lines, each with its newline. -/
def unlines (ls : List Bytes) : Bytes := ls.flatMap (· ++ [newline])

/-- A stream of lines that is cut ends inside one of them. -/
theorem cut_unlines {ls : List Bytes} {cut : Bytes} (h : cut <+: unlines ls) (hne : cut ≠ unlines ls) :
    ∃ init l rest piece, ls = init ++ l :: rest ∧ cut = unlines init ++ piece ∧ piece <+: l := by
  induction ls generalizing cut with
  | nil => exact absurd (List.prefix_nil.1 h) hne
  | cons l ls ih =>
    have hcons : unlines (l :: ls) = l ++ newline :: unlines ls := by simp [unlines]
    rw [hcons] at h hne
    rcases List.prefix_or_prefix_of_prefix h (List.prefix_append l _) with hcut | ⟨t, rfl⟩
    · exact ⟨[], l, ls, cut, rfl, rfl, hcut⟩
    cases t with
    | nil => exact ⟨[], l, ls, l, rfl, by simp [unlines], List.prefix_rfl⟩
    | cons b t =>
      obtain ⟨rfl, ht⟩ := List.cons_prefix_cons.1 ((List.prefix_append_right_inj l).1 h)
      obtain ⟨init, l', rest, piece, rfl, rfl, hpiece⟩ := ih ht fun e => hne (by rw [e])
      exact ⟨l :: init, l', rest, piece, rfl, by simp [unlines], hpiece⟩

theorem lines_cases (s : Bytes) :
    s = [] ∨ (s ≠ [] ∧ newline ∉ s) ∨ ∃ l rest, newline ∉ l ∧ s = l ++ newline :: rest := by
  by_cases h : newline ∈ s
  · obtain ⟨l, rest, rfl, hl⟩ := List.eq_append_cons_of_mem h
    exact .inr (.inr ⟨l, rest, hl, rfl⟩)
  · by_cases hs : s = []
    · exact .inl hs
    · exact .inr (.inl ⟨hs, h⟩)

theorem eq_dropCr_or (l : Bytes) : dropCr l = l ∨ l = dropCr l ++ [carriageReturn] := by
  unfold dropCr
  split
  · rename_i h
    obtain ⟨ys, rfl⟩ := List.getLast?_eq_some_iff.1 h
    exact .inr (by simp)
  · exact .inl rfl

theorem exists_unlines (s : Bytes) :
    ∃ ls piece, s = unlines ls ++ piece ∧ (∀ l ∈ ls, newline ∉ l) ∧ newline ∉ piece := by
  induction s with
  | nil => exact ⟨[], [], rfl, by simp, by simp⟩
  | cons b s ih =>
    obtain ⟨ls, piece, rfl, hls, hpiece⟩ := ih
    by_cases hb : b = newline
    · exact ⟨[] :: ls, piece, by simp [unlines, hb], by simpa using hls, hpiece⟩
    cases ls with
    | nil => exact ⟨[], b :: piece, rfl, by simp, by simp [hpiece, Ne.symm hb]⟩
    | cons l ls =>
      refine ⟨(b :: l) :: ls, piece, by simp [unlines], ?_, hpiece⟩
      intro l' hl'
      rcases List.mem_cons.1 hl' with rfl | hl'
      · simp [hls l (by simp), Ne.symm hb]
      · exact hls l' (by simp [hl'])

theorem received_unlines_append (fin : Bool) {ls : List Bytes} (hls : ∀ l ∈ ls, newline ∉ l) (t : Bytes) :
    received fin (unlines ls ++ t) = ls ++ received fin t := by
  induction ls with
  | nil => rfl
  | cons l ls ih =>
    have hcons : unlines (l :: ls) ++ t = l ++ newline :: (unlines ls ++ t) := by simp [unlines]
    rw [hcons, received_append_newline _ (hls l (by simp)), ih fun l' h => hls l' (by simp [h])]
    rfl

/-- Bytes with a newline behind them are one line or more, none of them longer. -/
theorem received_piece (fin : Bool) (l s : Bytes) :
    ∃ ls, received fin (l ++ newline :: s) = ls ++ received fin s ∧ ls ≠ [] ∧
      ∀ l' ∈ ls, l'.length ≤ l.length := by
  obtain ⟨ls, piece, rfl, hls, hpiece⟩ := exists_unlines l
  have hall : ∀ l' ∈ ls ++ [piece], newline ∉ l' := by
    intro l' hl'
    rcases List.mem_append.1 hl' with hl' | hl'
    · exact hls l' hl'
    · exact List.mem_singleton.1 hl' ▸ hpiece
  refine ⟨ls ++ [piece], ?_, by simp, ?_⟩
  · rw [← received_unlines_append fin hall s]
    simp [unlines]
  · intro l' hl'
    rcases List.mem_append.1 hl' with hl' | hl'
    · obtain ⟨before, after, rfl⟩ := List.append_of_mem hl'
      simp [unlines]
      omega
    · rw [List.mem_singleton.1 hl', List.length_append]
      omega

theorem lines_unlines_append {ls : List Bytes} (hls : ∀ l ∈ ls, newline ∉ l) {t : Bytes}
    (ht : newline ∉ t) : lines (unlines ls ++ t) = ls ++ if t = [] then [] else [t] := by
  rw [← received_true, received_unlines_append _ hls, received_of_not_mem _ ht]
  simp only [true_and, ne_eq, ite_not]

/-- The line that a stream begins with, as it is read: without its newline and a `\r` before it. -/
def firstLine (s : Bytes) : Bytes := if newline ∈ s then dropCr (s.takeWhile (· != newline)) else s

theorem firstLine_append_newline {l : Bytes} (h : newline ∉ l) (s : Bytes) :
    firstLine (l ++ newline :: s) = dropCr l := by
  have hall : ∀ b ∈ l, (b != newline) = true := by
    intro b hb
    exact bne_iff_ne.2 fun e => h (e ▸ hb)
  rw [firstLine, if_pos (by simp), List.takeWhile_append_of_pos hall]
  simp

theorem newline_not_mem_of_not_isSpace {l : Bytes} (h : ∀ b ∈ l, isSpace b = false) : newline ∉ l :=
  fun hl => by
  have := h _ hl
  revert this
  decide

theorem newline_not_mem_decimal (n : Nat) : newline ∉ decimal n :=
  newline_not_mem_of_not_isSpace fun _ hb => isSpace_of_isDigit (isDigit_of_mem_decimal hb)

/-- A number ends in a digit, so no `\r` is taken off a line that ends in one. -/
theorem dropCr_append_decimal (l : Bytes) (n : Nat) : dropCr (l ++ decimal n) = l ++ decimal n := by
  have hlast : (l ++ decimal n).getLast? ≠ some carriageReturn := by
    intro h
    rw [List.getLast?_append_of_ne_nil _ (decimal_ne_nil n)] at h
    have := isSpace_of_isDigit (isDigit_of_mem_decimal (List.mem_of_getLast? h))
    revert this
    decide
  exact if_neg hlast

theorem dropCr_prefix (l : Bytes) : dropCr l <+: l := by
  unfold dropCr
  split
  · exact List.dropLast_prefix l
  · exact List.prefix_rfl

end Text

import Streamer.CommandLine

/-!
# The target of the client, with and without `--list`

`main` reads its arguments with two loops. The one of the flag syntax gives every option its value.
The one of the list mode knows `-s` and `-p` only, and takes for the host and the port any word that
does not begin with a dash: `items` is a line as this loop cuts it. So the value of a `-g` or a `-o`
can become the target, or hide it (`list_target_iff`).
-/

namespace Streamer
open Text

/-! ### The flag syntax -/

inductive ClientOption where
  | server | port | get | outputDir
deriving DecidableEq, Repr

def ClientOption.spelling : ClientOption → (long : Bool) → Bytes
  | .server, long => if long then ascii "--server" else ascii "-s"
  | .port, long => if long then ascii "--port" else ascii "-p"
  | .get, long => if long then ascii "--get" else ascii "-g"
  | .outputDir, long => if long then ascii "--output-dir" else ascii "-o"

/-- An option with its value. -/
structure Setting where
  option : ClientOption
  long : Bool
  value : Bytes
deriving DecidableEq, Repr

namespace Setting

def words (s : Setting) : List Bytes := [s.option.spelling s.long, s.value]

def apply (a : ClientArguments) (s : Setting) : ClientArguments :=
  match s.option with
  | .server => { a with host := s.value }
  | .port => { a with port := clientPort s.value }
  | .get => { a with getFile := s.value }
  | .outputDir => { a with outputDir := s.value }

end Setting

/-- The values that an option is given, in order. -/
def values (option : ClientOption) (settings : List Setting) : List Bytes :=
  (settings.filter (·.option = option)).map Setting.value

def lineOf (settings : List Setting) : List Bytes := settings.flatMap Setting.words

section
variable {a : ClientArguments} {s : Setting} {settings xs ys : List Setting} {ws : List Bytes}

theorem flagArguments_words (a : ClientArguments) (s : Setting) (ws : List Bytes) :
    flagArguments a (s.words ++ ws) = flagArguments (s.apply a) ws := by
  obtain ⟨option, long, value⟩ := s
  cases option <;> cases long <;> rfl

theorem flagArguments_lineOf (a : ClientArguments) (settings : List Setting) :
    flagArguments a (lineOf settings) = .ok (settings.foldl Setting.apply a) := by
  induction settings generalizing a with
  | nil => rfl
  | cons s settings ih =>
    rw [lineOf, List.flatMap_cons, flagArguments_words]
    exact ih _

theorem values_cons (option : ClientOption) (s : Setting) (settings : List Setting) :
    values option (s :: settings) =
      if s.option = option then s.value :: values option settings else values option settings := by
  unfold values
  rw [List.filter_cons]
  split
  · rename_i h
    rw [if_pos (by simpa using h), List.map_cons]
  · rename_i h
    rw [if_neg (by simpa using h)]

/-- The last of several assignments decides. -/
theorem getLast?_cons_getD {α : Type} (l : List α) (x d : α) :
    (x :: l).getLast?.getD d = l.getLast?.getD x := by
  rw [List.getLast?_cons]
  rfl

/-- A field that one option sets, to what `conv` makes of its value, holds the last value in the end. -/
theorem foldl_apply_field {α : Type} (field : ClientArguments → α) (conv : Bytes → α)
    (option : ClientOption)
    (h : ∀ s a, field (Setting.apply a s) = if s.option = option then conv s.value else field a)
    (settings : List Setting) (a : ClientArguments) :
    field (settings.foldl Setting.apply a) =
      ((values option settings).map conv).getLast?.getD (field a) := by
  induction settings generalizing a with
  | nil => rfl
  | cons s settings ih =>
    rw [List.foldl_cons, ih, values_cons, h]
    split
    · exact (getLast?_cons_getD _ _ _).symm
    · rfl

theorem foldl_apply_host (settings : List Setting) (a : ClientArguments) :
    (settings.foldl Setting.apply a).host = (values .server settings).getLast?.getD a.host := by
  have hhost (s : Setting) (a : ClientArguments) :
      (s.apply a).host = if s.option = .server then id s.value else a.host := by
    obtain ⟨option, long, value⟩ := s
    cases option <;> rfl
  rw [foldl_apply_field ClientArguments.host id .server hhost, List.map_id]

theorem foldl_apply_port (settings : List Setting) (a : ClientArguments) :
    (settings.foldl Setting.apply a).port =
      ((values .port settings).map clientPort).getLast?.getD a.port := by
  have hport (s : Setting) (a : ClientArguments) :
      (s.apply a).port = if s.option = .port then clientPort s.value else a.port := by
    obtain ⟨option, long, value⟩ := s
    cases option <;> rfl
  exact foldl_apply_field ClientArguments.port clientPort .port hport settings a

end

/-! ### The list mode -/

/-- A piece of a line as the list mode reads it. -/
inductive ListItem where
  | list (flag : Bytes)
  | server (flag host : Bytes)
  | port (flag text : Bytes)
  /-- A word that does not begin with a dash. -/
  | word (w : Bytes)
  | other (w : Bytes)
deriving DecidableEq, Repr

def items : List Bytes → List ListItem
  | [] => []
  | w :: ws =>
    if isOption "-l" "--list" w then .list w :: items ws
    else if isOption "-s" "--server" w then
      match ws with
      | [] => [.other w]
      | value :: ws => .server w value :: items ws
    else if isOption "-p" "--port" w then
      match ws with
      | [] => [.other w]
      | value :: ws => .port w value :: items ws
    else if !beginsWithDash w then .word w :: items ws
    else .other w :: items ws

/-- The hosts among the items: what `-s` takes, and the first word, if no host was a word before. -/
def hosts : (hostSet : Bool) → List ListItem → List Bytes
  | _, [] => []
  | hostSet, .server _ host :: its => host :: hosts hostSet its
  | false, .word w :: its => w :: hosts true its
  | true, .word _ :: its => hosts true its
  | hostSet, .list _ :: its => hosts hostSet its
  | hostSet, .port _ _ :: its => hosts hostSet its
  | hostSet, .other _ :: its => hosts hostSet its

/-- The ports: what `-p` takes, and the words after the first. -/
def ports : (hostSet : Bool) → List ListItem → List Bytes
  | _, [] => []
  | hostSet, .port _ text :: its => text :: ports hostSet its
  | false, .word _ :: its => ports true its
  | true, .word w :: its => w :: ports true its
  | hostSet, .list _ :: its => ports hostSet its
  | hostSet, .server _ _ :: its => ports hostSet its
  | hostSet, .other _ :: its => ports hostSet its

section
variable {hostSet : Bool} {a : ClientArguments} {w value : Bytes} {ws : List Bytes}

/-! How a line is cut: one lemma for each kind of item. -/

theorem items_list (hl : isOption "-l" "--list" w = true) : items (w :: ws) = .list w :: items ws := by
  rw [items.eq_def]
  simp only [hl, if_true]

theorem items_server (hl : isOption "-l" "--list" w = false) (hs : isOption "-s" "--server" w = true) :
    items (w :: value :: ws) = .server w value :: items ws := by
  rw [items.eq_def]
  simp only [hl, hs, Bool.false_eq_true, if_false, if_true]

theorem items_port (hl : isOption "-l" "--list" w = false) (hs : isOption "-s" "--server" w = false)
    (hp : isOption "-p" "--port" w = true) : items (w :: value :: ws) = .port w value :: items ws := by
  rw [items.eq_def]
  simp only [hl, hs, hp, Bool.false_eq_true, if_false, if_true]

theorem items_word (hl : isOption "-l" "--list" w = false) (hs : isOption "-s" "--server" w = false)
    (hp : isOption "-p" "--port" w = false) (hd : beginsWithDash w = false) :
    items (w :: ws) = .word w :: items ws := by
  rw [items.eq_def]
  simp only [hl, hs, hp, hd, Bool.false_eq_true, if_false, Bool.not_false, if_true]

theorem items_other (hl : isOption "-l" "--list" w = false) (hs : isOption "-s" "--server" w = false)
    (hp : isOption "-p" "--port" w = false) (hd : beginsWithDash w = true) :
    items (w :: ws) = .other w :: items ws := by
  rw [items.eq_def]
  simp only [hl, hs, hp, hd, Bool.false_eq_true, if_false, Bool.not_true]

/-- The loop of the list mode sets the host and the port only. -/
theorem listArguments_keeps (hostSet : Bool) (a : ClientArguments) (args : List Bytes) :
    (listArguments hostSet a args).getFile = a.getFile ∧
      (listArguments hostSet a args).listMode = a.listMode := by
  fun_induction listArguments hostSet a args with
  | case1 | case3 | case5 => exact ⟨rfl, rfl⟩
  | case2 hostSet a w ws _ ih | case4 hostSet a w _ _ value ws ih | case6 hostSet a w _ _ _ value ws ih
  | case7 hostSet a w ws _ _ _ _ _ ih | case8 hostSet a w ws _ _ _ _ _ ih
  | case9 hostSet a w ws _ _ _ _ ih => exact ih

/-- The loop of the list mode, by the items of the line. -/
theorem listArguments_target (hostSet : Bool) (a : ClientArguments) (ws : List Bytes) :
    (listArguments hostSet a ws).host = (hosts hostSet (items ws)).getLast?.getD a.host ∧
      (listArguments hostSet a ws).port =
        ((ports hostSet (items ws)).map clientPort).getLast?.getD a.port := by
  fun_induction listArguments hostSet a ws with
  | case1 hostSet a => exact ⟨rfl, rfl⟩
  | case2 hostSet a w ws hl ih =>
    rw [items_list hl]
    cases hostSet <;> exact ih
  | case3 hostSet a w hl hs =>
    simp only [Bool.not_eq_true] at hl
    rw [items.eq_def]
    simp only [hl, hs, Bool.false_eq_true, if_false, if_true]
    cases hostSet <;> exact ⟨rfl, rfl⟩
  | case4 hostSet a w hl hs value ws ih =>
    simp only [Bool.not_eq_true] at hl
    rw [items_server hl hs]
    cases hostSet <;> exact ⟨ih.1.trans (getLast?_cons_getD _ _ _).symm, ih.2⟩
  | case5 hostSet a w hl hs hp =>
    simp only [Bool.not_eq_true] at hl hs
    rw [items.eq_def]
    simp only [hl, hs, hp, Bool.false_eq_true, if_false, if_true]
    cases hostSet <;> exact ⟨rfl, rfl⟩
  | case6 hostSet a w hl hs hp value ws ih =>
    simp only [Bool.not_eq_true] at hl hs
    rw [items_port hl hs hp]
    cases hostSet <;> exact ⟨ih.1, ih.2.trans (getLast?_cons_getD _ _ _).symm⟩
  | case7 hostSet a w ws hl hs hp hd hset ih =>
    simp only [Bool.not_eq_true, Bool.not_eq_true'] at hl hs hp hd hset
    rw [items_word hl hs hp hd, hset]
    exact ⟨ih.1.trans (getLast?_cons_getD _ _ _).symm, ih.2⟩
  | case8 hostSet a w ws hl hs hp hd hset ih =>
    simp only [Bool.not_eq_true, Bool.not_eq_true', Bool.not_eq_false] at hl hs hp hd hset
    rw [items_word hl hs hp hd, hset]
    rw [hset] at ih
    exact ⟨ih.1, ih.2.trans (getLast?_cons_getD _ _ _).symm⟩
  | case9 hostSet a w ws hl hs hp hd ih =>
    simp only [Bool.not_eq_true, Bool.not_eq_true', Bool.not_eq_false] at hl hs hp hd
    rw [items_other hl hs hp hd]
    cases hostSet <;> exact ih

end

/-! ### Lines of options -/

/-- The host and the port that `main` goes on with. -/
def ClientArguments.target (a : ClientArguments) : Bytes × UInt16 := (a.host, a.port)

def listFlag (long : Bool) : Bytes := if long then ascii "--list" else ascii "-l"

theorem isOption_listFlag (long : Bool) : isOption "-l" "--list" (listFlag long) = true := by
  cases long <;> decide

theorem spelling_facts (option : ClientOption) (long : Bool) :
    isOption "-h" "--help" (option.spelling long) = false ∧
      isOption "-l" "--list" (option.spelling long) = false ∧
      beginsWithDash (option.spelling long) = true := by
  cases option <;> cases long <;> decide

section
variable {settings xs ys : List Setting} {args : List Bytes}

theorem head?_lineOf {w : Bytes} (h : (lineOf settings).head? = some w) :
    ∃ option long, w = ClientOption.spelling option long := by
  cases settings with
  | nil => cases h
  | cons s settings =>
    cases h
    exact ⟨_, _, rfl⟩

theorem lineOf_any_list (h : ∀ s ∈ settings, isOption "-l" "--list" s.value = false) :
    (lineOf settings).any (isOption "-l" "--list") = false := by
  rw [List.any_eq_false]
  intro w hw
  obtain ⟨s, hs, hw⟩ := List.mem_flatMap.1 hw
  rw [Bool.not_eq_true]
  rcases List.mem_cons.1 hw with rfl | hw
  · exact (spelling_facts _ _).2.1
  · rw [List.mem_singleton.1 hw]
    exact h s hs

theorem getArguments_of_dash (h : ∀ w, args.head? = some w → beginsWithDash w = true) :
    getArguments args = flagArguments {} args := by
  match args with
  | [] | [_] | [_, _] => rfl
  | host :: port :: file :: rest =>
    have hd := h host rfl
    simp [getArguments, hd]

theorem clientArguments_lineOf (h : ∀ s ∈ settings, isOption "-l" "--list" s.value = false) :
    clientArguments (lineOf settings) = .ok (settings.foldl Setting.apply {}) := by
  have hhelp : (lineOf settings).head?.any (isOption "-h" "--help") = false := by
    cases hw : (lineOf settings).head? with
    | none => rfl
    | some w =>
      obtain ⟨option, long, rfl⟩ := head?_lineOf hw
      exact (spelling_facts _ _).1
  rw [clientArguments, hhelp, lineOf_any_list h]
  simp only [Bool.false_eq_true, if_false]
  rw [getArguments_of_dash, flagArguments_lineOf]
  intro w hw
  obtain ⟨option, long, rfl⟩ := head?_lineOf hw
  exact (spelling_facts _ _).2.2

theorem clientArguments_list (hhelp : args.head?.any (isOption "-h" "--help") = false)
    (hlist : args.any (isOption "-l" "--list") = true) :
    clientArguments args = .ok (listArguments false { listMode := true } args) := by
  rw [clientArguments, hhelp, hlist]
  simp

theorem clientArguments_lineOf_list (xs ys : List Setting) (long : Bool) :
    clientArguments (lineOf xs ++ listFlag long :: lineOf ys) =
      .ok (listArguments false { listMode := true } (lineOf xs ++ listFlag long :: lineOf ys)) := by
  refine clientArguments_list ?_ (by simp [isOption_listFlag])
  cases hw : (lineOf xs).head? with
  | none =>
    rw [List.head?_append, hw]
    cases long <;> rfl
  | some w =>
    obtain ⟨option, long', rfl⟩ := head?_lineOf hw
    rw [List.head?_append, hw]
    exact (spelling_facts _ _).1

/-- The list mode takes the value of the `-g` or the `-o` for a word. -/
def Setting.stray (s : Setting) : Bool :=
  (s.option == .get || s.option == .outputDir) && !beginsWithDash s.value

/-- The list mode cuts the line behind the setting: the value of a `-g` or a `-o` is none of the
options that it knows. -/
def Setting.Apart (s : Setting) : Prop :=
  s.option = .get ∨ s.option = .outputDir →
    isOption "-s" "--server" s.value = false ∧ isOption "-p" "--port" s.value = false

/-- The first stray value does no harm: a `-s` follows, or it is the host that was given before. -/
def HostKept (host : Bytes) : List Setting → Prop
  | [] => True
  | s :: settings =>
    if s.stray then (∃ t ∈ settings, t.option = .server) ∨ s.value = host
    else HostKept (if s.option = .server then s.value else host) settings

/-- No stray value after the first does harm: a `-p` or a stray value follows, or it is the port that
was given before. -/
def PortKept (hostSet : Bool) (port : UInt16) : List Setting → Prop
  | [] => True
  | s :: settings =>
    if s.stray then
      (hostSet = true →
        (∃ t ∈ settings, t.option = .port ∨ t.stray = true) ∨ clientPort s.value = port) ∧
      PortKept true port settings
    else PortKept hostSet (if s.option = .port then clientPort s.value else port) settings

/-- The list mode cuts the line at the settings, and the stray values do no harm. -/
structure TargetKept (settings : List Setting) : Prop where
  apart : ∀ s ∈ settings, s.Apart
  host : HostKept (ascii "127.0.0.1") settings
  port : PortKept false 8080 settings

theorem target_lineOf (h : ∀ s ∈ settings, isOption "-l" "--list" s.value = false) :
    (clientArguments (lineOf settings)).map ClientArguments.target =
      .ok ((values .server settings).getLast?.getD (ascii "127.0.0.1"),
        ((values .port settings).map clientPort).getLast?.getD 8080) := by
  rw [clientArguments_lineOf h]
  simp only [Except.map, ClientArguments.target, foldl_apply_host, foldl_apply_port]

theorem target_list (xs ys : List Setting) (long : Bool) :
    (clientArguments (lineOf xs ++ listFlag long :: lineOf ys)).map ClientArguments.target =
      .ok ((hosts false (items (lineOf xs ++ listFlag long :: lineOf ys))).getLast?.getD
          (ascii "127.0.0.1"),
        ((ports false (items (lineOf xs ++ listFlag long :: lineOf ys))).map clientPort).getLast?.getD
          8080) := by
  have htarget :=
    listArguments_target false { listMode := true } (lineOf xs ++ listFlag long :: lineOf ys)
  rw [clientArguments_lineOf_list, Except.map, ClientArguments.target, htarget.1, htarget.2]

theorem stray_option {s : Setting} (h : s.stray = true) :
    (s.option = .get ∨ s.option = .outputDir) ∧ beginsWithDash s.value = false := by
  simpa [Setting.stray] using h

theorem stray_ne {s : Setting} (h : s.stray = true) : s.option ≠ .server ∧ s.option ≠ .port := by
  rcases (stray_option h).1 with hopt | hopt <;> rw [hopt] <;> decide

/-- The list mode passes over the flags that it does not know. -/
theorem items_unknown {option : ClientOption} (h : option = .get ∨ option = .outputDir) (long : Bool)
    (ws : List Bytes) :
    items (option.spelling long :: ws) = .other (option.spelling long) :: items ws := by
  have hword : isOption "-s" "--server" (option.spelling long) = false ∧
      isOption "-p" "--port" (option.spelling long) = false := by
    rcases h with rfl | rfl <;> cases long <;> decide
  exact items_other (spelling_facts option long).2.1 hword.1 hword.2 (spelling_facts option long).2.2

theorem items_stray {s : Setting} (hl : isOption "-l" "--list" s.value = false) (h : s.Apart)
    (hs : s.stray = true) (ws : List Bytes) :
    items (s.words ++ ws) = .other (s.option.spelling s.long) :: .word s.value :: items ws := by
  obtain ⟨hopt, hd⟩ := stray_option hs
  show items (s.option.spelling s.long :: s.value :: ws) = _
  rw [items_unknown hopt, items_word hl (h hopt).1 (h hopt).2 hd]

theorem items_setting {s : Setting} (hl : isOption "-l" "--list" s.value = false) (h : s.Apart)
    (hs : s.stray = false) (hostSet : Bool) (ws : List Bytes) :
    hosts hostSet (items (s.words ++ ws)) = values .server [s] ++ hosts hostSet (items ws) ∧
      ports hostSet (items (s.words ++ ws)) = values .port [s] ++ ports hostSet (items ws) := by
  have hskip (hopt : s.option = .get ∨ s.option = .outputDir) :
      items (s.words ++ ws) = .other (s.option.spelling s.long) :: .other s.value :: items ws := by
    have hd : beginsWithDash s.value = true := by
      rcases hopt with hopt | hopt <;> simpa [Setting.stray, hopt] using hs
    show items (s.option.spelling s.long :: s.value :: ws) = _
    rw [items_unknown hopt, items_other hl (h hopt).1 (h hopt).2 hd]
  obtain ⟨option, long, value⟩ := s
  cases option with
  | server =>
    have hcut : items (Setting.words ⟨.server, long, value⟩ ++ ws) =
        .server (ClientOption.spelling .server long) value :: items ws :=
      items_server (by cases long <;> rfl) (by cases long <;> rfl)
    rw [hcut]
    cases hostSet <;> exact ⟨rfl, rfl⟩
  | port =>
    have hcut : items (Setting.words ⟨.port, long, value⟩ ++ ws) =
        .port (ClientOption.spelling .port long) value :: items ws :=
      items_port (by cases long <;> rfl) (by cases long <;> rfl) (by cases long <;> rfl)
    rw [hcut]
    cases hostSet <;> exact ⟨rfl, rfl⟩
  | get =>
    rw [hskip (.inl rfl)]
    cases hostSet <;> exact ⟨rfl, rfl⟩
  | outputDir =>
    rw [hskip (.inr rfl)]
    cases hostSet <;> exact ⟨rfl, rfl⟩

theorem values_singleton_append (option : ClientOption) (s : Setting) (settings : List Setting) :
    values option [s] ++ values option settings = values option (s :: settings) := by
  rw [values, values, values, ← List.map_append, ← List.filter_append, List.singleton_append]

/-- What the list mode may be given: no value is its own flag, and it cuts the line at the settings. -/
def Cut (settings : List Setting) : Prop :=
  ∀ s ∈ settings, isOption "-l" "--list" s.value = false ∧ s.Apart

theorem Cut.tail {s : Setting} (h : Cut (s :: settings)) : Cut settings := by
  intro t ht
  exact h t (List.mem_cons_of_mem _ ht)

/-- The flag of the list mode itself changes nothing for the items behind it. -/
theorem items_insert (h : Cut xs) (hostSet long : Bool) (ws : List Bytes) :
    hosts hostSet (items (lineOf xs ++ listFlag long :: ws)) = hosts hostSet (items (lineOf xs ++ ws)) ∧
      ports hostSet (items (lineOf xs ++ listFlag long :: ws)) =
        ports hostSet (items (lineOf xs ++ ws)) := by
  induction xs generalizing hostSet with
  | nil =>
    show hosts hostSet (items (listFlag long :: ws)) = hosts hostSet (items ws) ∧
      ports hostSet (items (listFlag long :: ws)) = ports hostSet (items ws)
    rw [items_list (isOption_listFlag long)]
    cases hostSet <;> exact ⟨rfl, rfl⟩
  | cons s xs ih =>
    obtain ⟨hl, happ⟩ := h s List.mem_cons_self
    simp only [lineOf, List.flatMap_cons, List.append_assoc] at ih ⊢
    cases hs : s.stray with
    | false =>
      obtain ⟨ih₁, ih₂⟩ := ih h.tail hostSet
      simp only [items_setting hl happ hs, ih₁, ih₂, and_self]
    | true =>
      obtain ⟨ih₁, ih₂⟩ := ih h.tail true
      rw [items_stray hl happ hs, items_stray hl happ hs]
      cases hostSet with
      | false => exact ⟨congrArg (s.value :: ·) ih₁, ih₂⟩
      | true => exact ⟨ih₁, congrArg (s.value :: ·) ih₂⟩

/-! With the line cut at the settings: once a word was the host, only `-s` gives one. -/

theorem hosts_lineOf_true (h : Cut settings) :
    hosts true (items (lineOf settings)) = values .server settings := by
  induction settings with
  | nil => rfl
  | cons s settings ih =>
    obtain ⟨hl, happ⟩ := h s List.mem_cons_self
    rw [lineOf, List.flatMap_cons]
    cases hs : s.stray with
    | false =>
      rw [(items_setting hl happ hs true _).1]
      exact (congrArg _ (ih h.tail)).trans (values_singleton_append _ _ _)
    | true =>
      rw [items_stray hl happ hs, values_cons, if_neg (stray_ne hs).1]
      exact ih h.tail

theorem values_eq_nil_iff (option : ClientOption) (settings : List Setting) :
    values option settings = [] ↔ ¬∃ s ∈ settings, s.option = option := by
  simp [values]

theorem getLast?_getD_eq_iff {α : Type} (l : List α) (x y : α) :
    l.getLast?.getD x = l.getLast?.getD y ↔ l ≠ [] ∨ x = y := by
  cases l with
  | nil => simp
  | cons z l => simp [List.getLast?_cons]

theorem hosts_lineOf_iff (h : Cut settings) (host : Bytes) :
    (hosts false (items (lineOf settings))).getLast?.getD host =
      (values .server settings).getLast?.getD host ↔ HostKept host settings := by
  induction settings generalizing host with
  | nil => exact iff_of_true rfl trivial
  | cons s settings ih =>
    obtain ⟨hl, happ⟩ := h s List.mem_cons_self
    rw [HostKept, lineOf, List.flatMap_cons, values_cons]
    cases hs : s.stray with
    | false =>
      rw [(items_setting hl happ hs false _).1, values_cons]
      rw [if_neg Bool.false_ne_true]
      by_cases hopt : s.option = .server
      · simp only [hopt, if_true, List.cons_append, getLast?_cons_getD]
        exact ih h.tail s.value
      · simp only [hopt, if_false]
        exact ih h.tail host
    | true =>
      have hopt : s.option ≠ .server := (stray_ne hs).1
      rw [items_stray hl happ hs, if_neg hopt, if_pos rfl]
      show (s.value :: hosts true (items (lineOf settings))).getLast?.getD host = _ ↔ _
      rw [getLast?_cons_getD, hosts_lineOf_true h.tail, getLast?_getD_eq_iff, Ne, values_eq_nil_iff,
        not_not]

/-- After the first word. The list mode holds the port `taken`, the flag syntax the port `port`. -/
theorem ports_lineOf_true (h : Cut settings) (port taken : UInt16) :
    ((ports true (items (lineOf settings))).map clientPort).getLast?.getD taken =
        ((values .port settings).map clientPort).getLast?.getD port ↔
      ((∃ t ∈ settings, t.option = .port ∨ t.stray = true) ∨ taken = port) ∧
        PortKept true port settings := by
  induction settings generalizing port taken with
  | nil => simp [lineOf, items, ports, values, PortKept]
  | cons s settings ih =>
    obtain ⟨hl, happ⟩ := h s List.mem_cons_self
    rw [PortKept, lineOf, List.flatMap_cons, values_cons]
    cases hs : s.stray with
    | false =>
      rw [(items_setting hl happ hs true _).2, values_cons, if_neg Bool.false_ne_true]
      by_cases hopt : s.option = .port
      · simp only [hopt, if_true, List.cons_append, List.map_cons, getLast?_cons_getD]
        refine (ih h.tail _ _).trans ?_
        simp [hopt]
      · simp only [hopt, if_false]
        refine (ih h.tail _ _).trans ?_
        simp [hopt, hs]
    | true =>
      have hopt : s.option ≠ .port := (stray_ne hs).2
      rw [items_stray hl happ hs, if_neg hopt, if_pos rfl]
      show ((clientPort s.value :: (ports true (items (lineOf settings))).map clientPort)).getLast?.getD
        taken = _ ↔ _
      rw [getLast?_cons_getD]
      refine (ih h.tail _ _).trans ?_
      simp [hs]

theorem ports_lineOf_iff (h : Cut settings) (port : UInt16) :
    ((ports false (items (lineOf settings))).map clientPort).getLast?.getD port =
        ((values .port settings).map clientPort).getLast?.getD port ↔
      PortKept false port settings := by
  induction settings generalizing port with
  | nil => exact iff_of_true rfl trivial
  | cons s settings ih =>
    obtain ⟨hl, happ⟩ := h s List.mem_cons_self
    rw [PortKept, lineOf, List.flatMap_cons, values_cons]
    cases hs : s.stray with
    | false =>
      rw [(items_setting hl happ hs false _).2, values_cons, if_neg Bool.false_ne_true]
      by_cases hopt : s.option = .port
      · simp only [hopt, if_true, List.cons_append, List.map_cons, getLast?_cons_getD]
        exact ih h.tail _
      · simp only [hopt, if_false]
        exact ih h.tail _
    | true =>
      have hopt : s.option ≠ .port := (stray_ne hs).2
      rw [items_stray hl happ hs, if_neg hopt, if_pos rfl]
      show ((ports true (items (lineOf settings))).map clientPort).getLast?.getD port = _ ↔ _
      refine (ports_lineOf_true h.tail _ _).trans ?_
      simp

/-- Where the list mode cuts the line at the settings, it finds the target exactly if the stray values do
no harm. -/
theorem target_eq_iff (hcut : Cut (xs ++ ys)) (long : Bool) :
    (clientArguments (lineOf xs ++ listFlag long :: lineOf ys)).map ClientArguments.target =
        (clientArguments (lineOf (xs ++ ys))).map ClientArguments.target ↔
      HostKept (ascii "127.0.0.1") (xs ++ ys) ∧ PortKept false 8080 (xs ++ ys) := by
  rw [target_list, target_lineOf fun s hs => (hcut s hs).1, Except.ok.injEq, Prod.mk.injEq]
  have hxs : Cut xs := fun s hs => hcut s (List.mem_append_left _ hs)
  obtain ⟨hhosts, hports⟩ := items_insert hxs false long (lineOf ys)
  have happend : lineOf xs ++ lineOf ys = lineOf (xs ++ ys) := by
    rw [lineOf, lineOf, lineOf, List.flatMap_append]
  rw [hhosts, hports, happend]
  exact and_congr (hosts_lineOf_iff hcut _) (ports_lineOf_iff hcut _)

/-- A `--list` between two options leaves the target as it is if the list mode cuts the line at the
settings and the stray values do no harm; where it cuts the line there, only then. -/
theorem list_target_iff (xs ys : List Setting) (long : Bool)
    (hvalues : ∀ s ∈ xs ++ ys, isOption "-l" "--list" s.value = false) :
    (TargetKept (xs ++ ys) →
      (clientArguments (lineOf xs ++ listFlag long :: lineOf ys)).map ClientArguments.target =
        (clientArguments (lineOf (xs ++ ys))).map ClientArguments.target) ∧
    ((∀ s ∈ xs ++ ys, s.Apart) →
      (clientArguments (lineOf xs ++ listFlag long :: lineOf ys)).map ClientArguments.target =
        (clientArguments (lineOf (xs ++ ys))).map ClientArguments.target → TargetKept (xs ++ ys)) := by
  constructor
  · rintro ⟨happ, hhost, hport⟩
    exact (target_eq_iff (fun s hs => ⟨hvalues s hs, happ s hs⟩) long).2 ⟨hhost, hport⟩
  · intro happ hsame
    obtain ⟨hhost, hport⟩ := (target_eq_iff (fun s hs => ⟨hvalues s hs, happ s hs⟩) long).1 hsame
    exact ⟨happ, hhost, hport⟩

/-- `-s 10.0.0.1 -g movie.mp4`, and `--list` behind it: the client goes to the host `movie.mp4`. -/
theorem list_takes_file_for_host :
    let line : List Setting :=
      [⟨.server, false, ascii "10.0.0.1"⟩, ⟨.get, false, ascii "movie.mp4"⟩]
    (clientArguments (lineOf line)).map ClientArguments.target = .ok (ascii "10.0.0.1", 8080) ∧
      (clientArguments (lineOf line ++ listFlag true :: lineOf [])).map ClientArguments.target =
        .ok (ascii "movie.mp4", 8080) ∧
      (∀ s ∈ line ++ [], isOption "-l" "--list" s.value = false) := by
  decide +kernel

/-- The same line with the options in the other order keeps its target. -/
theorem list_keeps_host :
    (clientArguments (lineOf [⟨.get, false, ascii "movie.mp4"⟩] ++ listFlag false ::
        lineOf [⟨.server, false, ascii "10.0.0.1"⟩])).map ClientArguments.target =
      (clientArguments (lineOf ([⟨.get, false, ascii "movie.mp4"⟩] ++
        [⟨.server, false, ascii "10.0.0.1"⟩]))).map ClientArguments.target := by
  have hkept : TargetKept
      ([⟨.get, false, ascii "movie.mp4"⟩] ++ [⟨.server, false, ascii "10.0.0.1"⟩]) := by
    refine ⟨?_, .inl ⟨_, List.mem_singleton_self _, rfl⟩, nofun, trivial⟩
    intro s hs _
    rcases List.mem_cons.1 hs with rfl | hs
    · decide
    · obtain rfl := List.mem_singleton.1 hs
      decide
  exact (list_target_iff [⟨.get, false, ascii "movie.mp4"⟩] [⟨.server, false, ascii "10.0.0.1"⟩] false
    (by decide +kernel)).1 hkept

end

end Streamer

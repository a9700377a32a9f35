import Streamer.Proofs.ListTarget

/-!
# Numbers on the command lines

A port or a chunk size stands in one of six places (`NumberSite`): two options of the server, and the
positional argument, the option and the two forms of the list mode of the client. `atoi` and
`strtoul` keep a numeral in their range up to a multiple of `2^64`, but a port keeps the last 16 bits
only, and the one number that is refused is zero (`numeric_option_iff`).
-/

namespace Streamer
open Text

/-! ### The line of the server -/

inductive ServerOption where
  | port | mediaDir | chunkSize | backlog | logFile | logLevel
deriving DecidableEq, Repr

def ServerOption.spelling : ServerOption → (long : Bool) → Bytes
  | .port, long => if long then ascii "--port" else ascii "-p"
  | .mediaDir, long => if long then ascii "--media-dir" else ascii "-d"
  | .chunkSize, long => if long then ascii "--chunk-size" else ascii "-c"
  | .backlog, long => if long then ascii "--backlog" else ascii "-b"
  | .logFile, long => if long then ascii "--log-file" else ascii "-l"
  | .logLevel, _ => ascii "--log-level"

structure ServerSetting where
  option : ServerOption
  long : Bool
  value : Bytes
deriving DecidableEq, Repr

namespace ServerSetting

def words (s : ServerSetting) : List Bytes := [s.option.spelling s.long, s.value]

def apply (config : ServerConfig) (s : ServerSetting) : ServerConfig :=
  match s.option with
  | .port => { config with port := serverPort s.value }
  | .mediaDir => { config with mediaDir := s.value }
  | .chunkSize => { config with chunkSize := strtoul s.value }
  | .backlog => { config with backlog := atoi s.value }
  | .logFile => { config with logFile := s.value }
  | .logLevel => { config with logLevelStr := s.value }

/-- The server does not exit at the setting. -/
def Accepted (s : ServerSetting) : Prop :=
  (s.option = .port → serverPort s.value ≠ 0) ∧ (s.option = .chunkSize → strtoul s.value ≠ 0)

end ServerSetting

section
variable {config : ServerConfig} {settings : List ServerSetting} {ws : List Bytes}

theorem serverArguments_port (config : ServerConfig) (long : Bool) (value : Bytes) (ws : List Bytes) :
    serverArguments config (ServerOption.spelling .port long :: value :: ws) =
      if serverPort value = 0 then .error ⟨1, ascii "Error: Invalid port number: " ++ value⟩
      else serverArguments { config with port := serverPort value } ws := by
  cases long <;> rfl

theorem serverArguments_chunkSize (config : ServerConfig) (long : Bool) (value : Bytes)
    (ws : List Bytes) :
    serverArguments config (ServerOption.spelling .chunkSize long :: value :: ws) =
      if strtoul value = 0 then .error ⟨1, ascii "Error: Invalid chunk size: " ++ value⟩
      else serverArguments { config with chunkSize := strtoul value } ws := by
  cases long <;> rfl

theorem serverArguments_words (config : ServerConfig) {s : ServerSetting} (h : s.Accepted)
    (ws : List Bytes) :
    serverArguments config (s.words ++ ws) = serverArguments (s.apply config) ws := by
  obtain ⟨option, long, value⟩ := s
  cases option with
  | port =>
    refine (serverArguments_port config long value ws).trans ?_
    rw [if_neg (h.1 rfl)]
    rfl
  | chunkSize =>
    refine (serverArguments_chunkSize config long value ws).trans ?_
    rw [if_neg (h.2 rfl)]
    rfl
  | _ => cases long <;> rfl

theorem serverArguments_append (config : ServerConfig) (h : ∀ s ∈ settings, s.Accepted)
    (ws : List Bytes) :
    serverArguments config (settings.flatMap ServerSetting.words ++ ws) =
      serverArguments (settings.foldl ServerSetting.apply config) ws := by
  induction settings generalizing config with
  | nil => rfl
  | cons s settings ih =>
    rw [List.flatMap_cons, List.append_assoc, serverArguments_words config (h s List.mem_cons_self)]
    exact ih _ fun t ht => h t (List.mem_cons_of_mem _ ht)

theorem serverArguments_flatMap (config : ServerConfig) (h : ∀ s ∈ settings, s.Accepted) :
    serverArguments config (settings.flatMap ServerSetting.words) =
      .ok (settings.foldl ServerSetting.apply config) := by
  rw [← List.append_nil (settings.flatMap _), serverArguments_append config h]
  rfl

/-- An option leaves alone what the others set. -/
theorem foldl_apply_eq {α : Type} (f : ServerConfig → α) (config : ServerConfig)
    (h : ∀ s ∈ settings, ∀ c, f (s.apply c) = f c) :
    f (settings.foldl ServerSetting.apply config) = f config := by
  induction settings generalizing config with
  | nil => rfl
  | cons s settings ih =>
    rw [List.foldl_cons, ih _ fun t ht => h t (List.mem_cons_of_mem _ ht)]
    exact h s List.mem_cons_self config

theorem apply_port {s : ServerSetting} (h : s.option ≠ .port) (c : ServerConfig) :
    (s.apply c).port = c.port := by
  obtain ⟨option, long, value⟩ := s
  cases option with
  | port => exact absurd rfl h
  | _ => rfl

theorem apply_chunkSize {s : ServerSetting} (h : s.option ≠ .chunkSize) (c : ServerConfig) :
    (s.apply c).chunkSize = c.chunkSize := by
  obtain ⟨option, long, value⟩ := s
  cases option with
  | chunkSize => exact absurd rfl h
  | _ => rfl

end

/-! ### The line of the client in the list mode -/

namespace ListItem

def words : ListItem → List Bytes
  | .list flag => [flag]
  | .server flag host => [flag, host]
  | .port flag text => [flag, text]
  | .word w => [w]
  | .other w => [w]

/-- The list mode reads these words as this item. -/
def Valid : ListItem → Prop
  | .list flag => isOption "-l" "--list" flag = true
  | .server flag _ => isOption "-l" "--list" flag = false ∧ isOption "-s" "--server" flag = true
  | .port flag _ => isOption "-l" "--list" flag = false ∧ isOption "-s" "--server" flag = false ∧
      isOption "-p" "--port" flag = true
  | .word w => isOption "-l" "--list" w = false ∧ isOption "-s" "--server" w = false ∧
      isOption "-p" "--port" w = false ∧ beginsWithDash w = false
  | .other w => isOption "-l" "--list" w = false ∧ isOption "-s" "--server" w = false ∧
      isOption "-p" "--port" w = false ∧ beginsWithDash w = true

def isWord : ListItem → Bool
  | .word _ => true
  | _ => false

end ListItem

section
variable {its : List ListItem} {hostSet : Bool}

theorem items_append (h : ∀ i ∈ its, i.Valid) (ws : List Bytes) :
    items (its.flatMap ListItem.words ++ ws) = its ++ items ws := by
  induction its with
  | nil => rfl
  | cons i its ih =>
    have htail := ih fun j hj => h j (List.mem_cons_of_mem _ hj)
    have hi := h i List.mem_cons_self
    rw [List.flatMap_cons, List.append_assoc]
    cases i with
    | list flag => exact (items_list hi).trans (congrArg _ htail)
    | server flag host => exact (items_server hi.1 hi.2).trans (congrArg _ htail)
    | port flag text => exact (items_port hi.1 hi.2.1 hi.2.2).trans (congrArg _ htail)
    | word w => exact (items_word hi.1 hi.2.1 hi.2.2.1 hi.2.2.2).trans (congrArg _ htail)
    | other w => exact (items_other hi.1 hi.2.1 hi.2.2.1 hi.2.2.2).trans (congrArg _ htail)

theorem ports_append (hostSet : Bool) (its rest : List ListItem) :
    ports hostSet (its ++ rest) =
      ports hostSet its ++ ports (hostSet || its.any ListItem.isWord) rest := by
  induction its generalizing hostSet with
  | nil => simp [ports]
  | cons i its ih =>
    cases i with
    | word w => cases hostSet <;> simp [ports, ListItem.isWord, ih]
    | _ => cases hostSet <;> simp [ports, ListItem.isWord, ih]

end

theorem foldl_apply_getFile (settings : List Setting) (a : ClientArguments) :
    (settings.foldl Setting.apply a).getFile = (values .get settings).getLast?.getD a.getFile := by
  have hget (s : Setting) (a : ClientArguments) :
      (s.apply a).getFile = if s.option = .get then id s.value else a.getFile := by
    obtain ⟨option, long, value⟩ := s
    cases option <;> rfl
  rw [foldl_apply_field ClientArguments.getFile id .get hget, List.map_id]

/-! ### Numerals as words -/

section
variable {digits : Bytes} {negative : Bool}

theorem beginsWithDash_numeral (h : ∀ b ∈ digits, isDigit b = true) (negative : Bool) :
    beginsWithDash (numeral negative digits) = negative := by
  cases negative with
  | true => rfl
  | false =>
    cases digits with
    | nil => rfl
    | cons d ds =>
      have hd := h d List.mem_cons_self
      simp only [numeral, beginsWithDash, Bool.false_eq_true, if_false, List.head?_cons]
      rw [beq_eq_false_iff_ne]
      rintro ⟨⟩
      cases hd

/-- A numeral is no option: behind the dash of an option there is no digit. -/
theorem numeral_ne (h : ∀ b ∈ digits, isDigit b = true) (negative : Bool) {c : UInt8} {w : Bytes}
    (hc : isDigit c = false) : numeral negative digits ≠ 45 :: c :: w := by
  intro heq
  cases negative with
  | true =>
    cases heq
    rw [h c List.mem_cons_self] at hc
    cases hc
  | false =>
    cases heq
    cases h 45 List.mem_cons_self

theorem isOption_numeral (h : ∀ b ∈ digits, isDigit b = true) (negative : Bool) :
    isOption "-l" "--list" (numeral negative digits) = false ∧
      isOption "-s" "--server" (numeral negative digits) = false ∧
      isOption "-p" "--port" (numeral negative digits) = false := by
  have hne {c : UInt8} (hc : isDigit c = false) (w : Bytes) :
      (numeral negative digits == 45 :: c :: w) = false :=
    beq_eq_false_iff_ne.2 (numeral_ne h negative hc)
  refine ⟨?_, ?_, ?_⟩
  · exact Bool.or_eq_false_iff.2 ⟨hne (c := 108) rfl _, hne (c := 45) rfl _⟩
  · exact Bool.or_eq_false_iff.2 ⟨hne (c := 115) rfl _, hne (c := 45) rfl _⟩
  · exact Bool.or_eq_false_iff.2 ⟨hne (c := 112) rfl _, hne (c := 45) rfl _⟩

theorem digitsValue_lt_of_range (hlow : -2 ^ 64 < numeralValue negative digits)
    (hhigh : numeralValue negative digits < 2 ^ 64) : digitsValue digits < 2 ^ 64 := by
  cases negative with
  | true =>
    simp only [numeralValue, if_true] at hlow
    omega
  | false =>
    simp only [numeralValue, Bool.false_eq_true, if_false] at hhigh
    omega

/-- Both programs keep the last 16 bits of the number. -/
theorem serverPort_numeral (h : ∀ b ∈ digits, isDigit b = true) (hne : digits ≠ [])
    (hlow : -2 ^ 64 < numeralValue negative digits) (hhigh : numeralValue negative digits < 2 ^ 64) :
    ((serverPort (numeral negative digits)).toNat : Int) = numeralValue negative digits % 2 ^ 16 := by
  have hvalue := strtoul_numeral negative h hne (digitsValue_lt_of_range hlow hhigh)
  rw [serverPort, UInt64.toNat_toUInt16]
  omega

theorem clientPort_numeral (h : ∀ b ∈ digits, isDigit b = true) (hne : digits ≠ [])
    (hlow : -2 ^ 31 ≤ numeralValue negative digits) (hhigh : numeralValue negative digits < 2 ^ 31) :
    ((clientPort (numeral negative digits)).toNat : Int) = numeralValue negative digits % 2 ^ 16 := by
  rw [clientPort, atoi_numeral negative h hne hlow hhigh, UInt16.ofInt, UInt16.toNat_ofNat']
  omega

end

/-! ### The six places -/

/-- The program refuses its argument, or it goes on with the number `n`, which is in bounds. -/
def Honest (limit : Int) (result : Except Exit Int) (n : Int) : Prop :=
  (∃ e, result = .error e ∧ e.code = 1) ∨ (result = .ok n ∧ 1 ≤ n ∧ n ≤ limit)

/-- The number is a port or `0`, or its last 16 bits are zero. -/
def PortMeant (n : Int) : Prop := (0 ≤ n ∧ n < 2 ^ 16) ∨ n % 2 ^ 16 = 0

theorem honest_port_iff {p : UInt16} {n : Int} (h : (p.toNat : Int) = n % 2 ^ 16) {e : Exit}
    (he : e.code = 1) :
    Honest (2 ^ 16 - 1) (if p = 0 then .error e else .ok (p.toNat : Int)) n ↔ PortMeant n := by
  unfold Honest PortMeant
  by_cases hp : p = 0
  · subst hp
    rw [if_pos rfl]
    exact iff_of_true (.inl ⟨e, rfl, he⟩) (.inr h.symm)
  · have hpos : p.toNat ≠ 0 := by
      intro h0
      exact hp (UInt16.toNat_inj.1 h0)
    rw [if_neg hp]
    simp only [Except.ok.injEq, reduceCtorEq, false_and, exists_false, false_or]
    omega

theorem honest_passed_over_iff {p : UInt16} {n : Int} (hn : n ≤ 0) {e : Exit} (he : e.code = 1) :
    Honest (2 ^ 16 - 1) (if p = 0 then .error e else .ok (p.toNat : Int)) n ↔ p = 0 := by
  unfold Honest
  by_cases hp : p = 0
  · rw [if_pos hp]
    exact iff_of_true (.inl ⟨e, rfl, he⟩) hp
  · rw [if_neg hp]
    simp only [Except.ok.injEq, reduceCtorEq, false_and, exists_false, false_or, hp, iff_false]
    omega

/-- A place for a number on a command line, with the rest of the line. -/
inductive NumberSite where
  | serverPort (long : Bool) (before after : List ServerSetting)
  | chunkSize (long : Bool) (before after : List ServerSetting)
  /-- The positional syntax of the client. -/
  | positional (host file : Bytes) (rest : List Bytes)
  /-- The flag syntax of the client. -/
  | flag (long : Bool) (before after : List Setting)
  /-- `-p` in the list mode. -/
  | listFlag (long : Bool) (before : List ListItem) (after : List Bytes)
  /-- A word in the list mode. -/
  | listWord (before : List ListItem) (after : List Bytes)

/-- The list mode takes the line before and behind a port, and behind it there is no other. -/
structure ListRest (before : List ListItem) (after : List Bytes) (hostSet : Bool) : Prop where
  valid : ∀ i ∈ before, i.Valid
  noHelp : (before.flatMap ListItem.words).head?.any (isOption "-h" "--help") = false
  list : (before.flatMap ListItem.words ++ after).any (isOption "-l" "--list") = true
  last : ports hostSet (items after) = []

namespace ListRest
variable {before : List ListItem} {after : List Bytes} {hostSet : Bool} {w : Bytes}

theorem head_noHelp (h : ListRest before after hostSet)
    (hw : before = [] → isOption "-h" "--help" w = false)
    (ws : List Bytes) :
    (before.flatMap ListItem.words ++ w :: ws).head?.any (isOption "-h" "--help") = false := by
  have hhelp := h.noHelp
  cases before with
  | nil => exact hw rfl
  | cons i its =>
    rw [List.head?_append]
    cases i <;> exact hhelp

theorem any_list (h : ListRest before after hostSet) (ws : List Bytes) :
    (before.flatMap ListItem.words ++ (ws ++ after)).any (isOption "-l" "--list") = true := by
  have hlist := h.list
  rw [List.any_append, Bool.or_eq_true] at hlist
  rw [List.any_append, List.any_append, Bool.or_eq_true, Bool.or_eq_true]
  rcases hlist with hlist | hlist
  · exact .inl hlist
  · exact .inr (.inr hlist)

end ListRest

namespace NumberSite

/-- The command line with the word `w` in the place. In the flag syntaxes the rest of it are options with
their values. -/
def line (w : Bytes) : NumberSite → List Bytes
  | .serverPort long before after => before.flatMap ServerSetting.words ++
      ServerOption.spelling .port long :: w :: after.flatMap ServerSetting.words
  | .chunkSize long before after => before.flatMap ServerSetting.words ++
      ServerOption.spelling .chunkSize long :: w :: after.flatMap ServerSetting.words
  | .positional host file rest => host :: w :: file :: rest
  | .flag long before after => lineOf (before ++ ⟨.port, long, w⟩ :: after)
  | .listFlag long before after => before.flatMap ListItem.words ++
      ClientOption.spelling .port long :: w :: after
  | .listWord before after => before.flatMap ListItem.words ++ w :: after

/-- The number that the program goes on with. -/
def number (w : Bytes) : NumberSite → Except Exit Int
  | site@(.serverPort ..) => (serverMain (site.line w)).map fun c => c.1.port.toNat
  | site@(.chunkSize ..) => (serverMain (site.line w)).map fun c => c.1.chunkSize.toNat
  | site => (clientMain (site.line w)).map fun a => a.port.toNat

/-- The rest of the line is one that the program takes, and the number is the last in its place. -/
def Usable : NumberSite → Prop
  | .serverPort _ before after =>
    (∀ s ∈ before ++ after, s.Accepted) ∧ ∀ s ∈ after, s.option ≠ .port
  | .chunkSize _ before after =>
    (∀ s ∈ before ++ after, s.Accepted) ∧ ∀ s ∈ after, s.option ≠ .chunkSize
  | .positional host file rest =>
    beginsWithDash host = false ∧ file ≠ [] ∧ (host :: file :: rest).any (isOption "-l" "--list") = false
  | .flag _ before after =>
    (∀ s ∈ before ++ after, isOption "-l" "--list" s.value = false) ∧
      (values .get (before ++ after)).getLast?.getD [] ≠ [] ∧ values .port after = []
  | .listFlag _ before after => ListRest before after (before.any ListItem.isWord)
  | .listWord before after => ListRest before after true ∧ before.any ListItem.isWord = true

/-- The range of the conversion. -/
def InRange (n : Int) : NumberSite → Prop
  | .serverPort .. | .chunkSize .. => -2 ^ 64 < n ∧ n < 2 ^ 64
  | _ => -2 ^ 31 ≤ n ∧ n < 2 ^ 31

def limit : NumberSite → Int
  | .chunkSize .. => 2 ^ 64 - 1
  | _ => 2 ^ 16 - 1

/-- The list mode passes over a negative number, which begins with a dash: then the port is the one
that was given before. -/
def Meant (negative : Bool) (n : Int) : NumberSite → Prop
  | .chunkSize .. => 0 ≤ n
  | .listWord before _ =>
    if negative then ((ports false before).map clientPort).getLast?.getD 8080 = 0 else PortMeant n
  | _ => PortMeant n

end NumberSite

/-! ### What each place makes of its word -/

section
variable {w : Bytes}

theorem number_serverPort {long : Bool} {before after : List ServerSetting}
    (h : (NumberSite.serverPort long before after).Usable) :
    (NumberSite.serverPort long before after).number w =
      if serverPort w = 0 then .error ⟨1, ascii "Error: Invalid port number: " ++ w⟩
      else .ok ((serverPort w).toNat : Int) := by
  obtain ⟨hacc, hlast⟩ := h
  have hbefore (s) (hs : s ∈ before) : s.Accepted := hacc s (List.mem_append_left _ hs)
  have hafter (s) (hs : s ∈ after) : s.Accepted := hacc s (List.mem_append_right _ hs)
  rw [NumberSite.number, serverMain, NumberSite.line, serverArguments_append _ hbefore,
    serverArguments_port]
  split
  · rfl
  · rw [serverArguments_flatMap _ hafter]
    simp only [Except.map, foldl_apply_eq ServerConfig.port _ fun s hs => apply_port (hlast s hs)]

theorem number_chunkSize {long : Bool} {before after : List ServerSetting}
    (h : (NumberSite.chunkSize long before after).Usable) :
    (NumberSite.chunkSize long before after).number w =
      if strtoul w = 0 then .error ⟨1, ascii "Error: Invalid chunk size: " ++ w⟩
      else .ok ((strtoul w).toNat : Int) := by
  obtain ⟨hacc, hlast⟩ := h
  have hbefore (s) (hs : s ∈ before) : s.Accepted := hacc s (List.mem_append_left _ hs)
  have hafter (s) (hs : s ∈ after) : s.Accepted := hacc s (List.mem_append_right _ hs)
  rw [NumberSite.number, serverMain, NumberSite.line, serverArguments_append _ hbefore,
    serverArguments_chunkSize]
  split
  · rfl
  · rw [serverArguments_flatMap _ hafter]
    simp only [Except.map,
      foldl_apply_eq ServerConfig.chunkSize _ fun s hs => apply_chunkSize (hlast s hs)]

/-- The client goes on with its port, unless it is zero. -/
theorem clientMain_port {args : List Bytes} {a : ClientArguments} (h : clientArguments args = .ok a)
    (hfile : a.listMode = true ∨ a.getFile ≠ []) :
    (clientMain args).map (fun a => (a.port.toNat : Int)) =
      if a.port = 0 then .error ⟨1, ascii "Error: Invalid port number."⟩
      else .ok (a.port.toNat : Int) := by
  have hgoes : (!a.listMode && a.getFile.isEmpty) = false := by
    rcases hfile with hlist | hfile
    · rw [hlist]
      rfl
    · rw [Bool.and_eq_false_iff]
      exact .inr (by simpa using hfile)
  rw [clientMain, h]
  simp only [hgoes, Bool.false_eq_true, if_false]
  split
  · rfl
  · rfl

theorem number_positional {host file : Bytes} {rest : List Bytes}
    (h : (NumberSite.positional host file rest).Usable) (hw : isOption "-l" "--list" w = false) :
    (NumberSite.positional host file rest).number w =
      if clientPort w = 0 then .error ⟨1, ascii "Error: Invalid port number."⟩
      else .ok ((clientPort w).toNat : Int) := by
  obtain ⟨hhost, hfile, hlist⟩ := h
  have hhelp : isOption "-h" "--help" host = false := by
    rw [isOption, Bool.or_eq_false_iff, beq_eq_false_iff_ne, beq_eq_false_iff_ne]
    constructor
    · rintro rfl
      cases hhost
    · rintro rfl
      cases hhost
  have hline : clientArguments (host :: w :: file :: rest) =
      .ok { host := host, port := clientPort w, getFile := file
            outputDir := rest.head?.getD (ascii "downloads") } := by
    simp only [List.any_cons, Bool.or_eq_false_iff] at hlist
    simp [clientArguments, getArguments, hhelp, hw, hlist, hhost]
  exact clientMain_port hline (.inr hfile)

theorem number_flag {long : Bool} {before after : List Setting}
    (h : (NumberSite.flag long before after).Usable) (hw : isOption "-l" "--list" w = false) :
    (NumberSite.flag long before after).number w =
      if clientPort w = 0 then .error ⟨1, ascii "Error: Invalid port number."⟩
      else .ok ((clientPort w).toNat : Int) := by
  obtain ⟨hvalues, hfile, hlast⟩ := h
  have hline : clientArguments (lineOf (before ++ ⟨.port, long, w⟩ :: after)) =
      .ok ((before ++ ⟨.port, long, w⟩ :: after).foldl Setting.apply {}) := by
    refine clientArguments_lineOf ?_
    intro s hs
    rw [List.mem_append, List.mem_cons] at hs
    rcases hs with hs | rfl | hs
    · exact hvalues s (List.mem_append_left _ hs)
    · exact hw
    · exact hvalues s (List.mem_append_right _ hs)
  have hget : values .get (before ++ ⟨.port, long, w⟩ :: after) = values .get (before ++ after) := by
    simp [values]
  have hport : ((before ++ ⟨.port, long, w⟩ :: after).foldl Setting.apply {}).port = clientPort w := by
    have hvals : values .port (before ++ ⟨.port, long, w⟩ :: after) = values .port before ++ [w] := by
      simpa [values] using hlast
    rw [foldl_apply_port, hvals]
    simp
  have hmain := clientMain_port hline (.inr (by rw [foldl_apply_getFile, hget]; exact hfile))
  rw [hport] at hmain
  exact hmain

/-- The port in the list mode, in a line that is cut like this. -/
theorem listMode_port {args : List Bytes} (hhelp : args.head?.any (isOption "-h" "--help") = false)
    (hlist : args.any (isOption "-l" "--list") = true) {p : UInt16}
    (hp : ((ports false (items args)).map clientPort).getLast?.getD 8080 = p) :
    (clientMain args).map (fun a => (a.port.toNat : Int)) =
      if p = 0 then .error ⟨1, ascii "Error: Invalid port number."⟩ else .ok (p.toNat : Int) := by
  have hmain := clientMain_port (clientArguments_list hhelp hlist)
    (.inl (listArguments_keeps false { listMode := true } args).2)
  rw [(listArguments_target false { listMode := true } args).2, hp] at hmain
  exact hmain

theorem number_listFlag {long : Bool} {before : List ListItem} {after : List Bytes}
    (h : (NumberSite.listFlag long before after).Usable) :
    (NumberSite.listFlag long before after).number w =
      if clientPort w = 0 then .error ⟨1, ascii "Error: Invalid port number."⟩
      else .ok ((clientPort w).toNat : Int) := by
  have hcut : items (ClientOption.spelling .port long :: w :: after) =
      .port (ClientOption.spelling .port long) w :: items after :=
    items_port (by cases long <;> rfl) (by cases long <;> rfl) (by cases long <;> rfl)
  refine listMode_port ?_ ?_ ?_
  · exact h.head_noHelp (fun _ => (spelling_facts .port long).1) _
  · exact h.any_list [ClientOption.spelling .port long, w]
  · rw [NumberSite.line, items_append h.valid, hcut, ports_append, Bool.false_or]
    have hports : ports (before.any ListItem.isWord)
        (.port (ClientOption.spelling .port long) w :: items after) = [w] := by
      have hlast := h.last
      cases hset : before.any ListItem.isWord <;> rw [hset] at hlast <;>
        exact congrArg (w :: ·) hlast
    rw [hports]
    simp

theorem number_listWord {before : List ListItem} {after : List Bytes}
    (h : (NumberSite.listWord before after).Usable) (hl : isOption "-l" "--list" w = false)
    (hs : isOption "-s" "--server" w = false) (hp : isOption "-p" "--port" w = false) :
    (NumberSite.listWord before after).number w =
      let p := if beginsWithDash w then ((ports false before).map clientPort).getLast?.getD 8080
        else clientPort w
      if p = 0 then .error ⟨1, ascii "Error: Invalid port number."⟩ else .ok (p.toNat : Int) := by
  obtain ⟨h, hword⟩ := h
  refine listMode_port ?_ ?_ ?_
  · refine h.head_noHelp ?_ _
    rintro rfl
    cases hword
  · exact h.any_list [w]
  · rw [NumberSite.line, items_append h.valid]
    cases hd : beginsWithDash w with
    | true =>
      rw [items_other hl hs hp hd, ports_append, Bool.false_or, hword]
      show ((ports false before ++ ports true (items after)).map clientPort).getLast?.getD 8080 = _
      rw [h.last, List.append_nil]
      rfl
    | false =>
      rw [items_word hl hs hp hd, ports_append, Bool.false_or, hword]
      show ((ports false before ++ w :: ports true (items after)).map clientPort).getLast?.getD 8080 = _
      rw [h.last]
      simp

theorem honest_chunkSize_iff {size : UInt64} {n : Int} (h : (size.toNat : Int) = n % 2 ^ 64)
    (hlow : -2 ^ 64 < n) (hhigh : n < 2 ^ 64) {e : Exit} (he : e.code = 1) :
    Honest (2 ^ 64 - 1) (if size = 0 then .error e else .ok (size.toNat : Int)) n ↔ 0 ≤ n := by
  unfold Honest
  by_cases hsize : size = 0
  · subst hsize
    rw [if_pos rfl]
    refine iff_of_true (.inl ⟨e, rfl, he⟩) ?_
    change (0 : Int) = n % 2 ^ 64 at h
    omega
  · have hpos : size.toNat ≠ 0 := by
      intro h0
      exact hsize (UInt64.toNat_inj.1 h0)
    rw [if_neg hsize]
    simp only [Except.ok.injEq, reduceCtorEq, false_and, exists_false, false_or]
    omega

/-- A numeral in range means what it says, or is refused, exactly in these cases: as a chunk size, if
it is not negative; as a port, if it is one, or a multiple of `2^16`; as a word of the list mode, also
if it is negative and the port before it is zero. -/
theorem numeric_option_iff (site : NumberSite) (hsite : site.Usable) (negative : Bool)
    {digits : Bytes} (hdigits : ∀ b ∈ digits, isDigit b = true) (hne : digits ≠ [])
    (hrange : site.InRange (numeralValue negative digits)) :
    Honest site.limit (site.number (numeral negative digits)) (numeralValue negative digits) ↔
      site.Meant negative (numeralValue negative digits) := by
  obtain ⟨hl, hs, hp⟩ := isOption_numeral hdigits negative
  cases site with
  | serverPort long before after =>
    rw [number_serverPort hsite]
    exact honest_port_iff (serverPort_numeral hdigits hne hrange.1 hrange.2) rfl
  | chunkSize long before after =>
    have hdigitsValue : digitsValue digits < 2 ^ 64 := digitsValue_lt_of_range hrange.1 hrange.2
    rw [number_chunkSize hsite]
    exact honest_chunkSize_iff (strtoul_numeral negative hdigits hne hdigitsValue) hrange.1 hrange.2 rfl
  | positional host file rest =>
    rw [number_positional hsite hl]
    exact honest_port_iff (clientPort_numeral hdigits hne hrange.1 hrange.2) rfl
  | flag long before after =>
    rw [number_flag hsite hl]
    exact honest_port_iff (clientPort_numeral hdigits hne hrange.1 hrange.2) rfl
  | listFlag long before after =>
    rw [number_listFlag hsite]
    exact honest_port_iff (clientPort_numeral hdigits hne hrange.1 hrange.2) rfl
  | listWord before after =>
    rw [number_listWord hsite hl hs hp, beginsWithDash_numeral hdigits]
    cases negative with
    | false => exact honest_port_iff (clientPort_numeral hdigits hne hrange.1 hrange.2) rfl
    | true => exact honest_passed_over_iff (by simp [numeralValue]) rfl

/-- `media_server -p 65537` listens on port 1. -/
theorem server_takes_65537_for_1 :
    let site := NumberSite.serverPort false [] []
    site.Usable ∧ site.InRange (numeralValue false (ascii "65537")) ∧
      site.number (numeral false (ascii "65537")) = .ok 1 ∧
      ¬ Honest site.limit (site.number (numeral false (ascii "65537")))
        (numeralValue false (ascii "65537")) := by
  have hnumber : (NumberSite.serverPort false [] []).number (numeral false (ascii "65537")) = .ok 1 := by
    decide +kernel
  have hvalue : numeralValue false (ascii "65537") = 65537 := by decide +kernel
  refine ⟨⟨by simp, by simp⟩, ?_, hnumber, ?_⟩
  · rw [hvalue]
    exact ⟨by decide, by decide⟩
  · rw [hnumber, hvalue]
    rintro (⟨e, he, -⟩ | ⟨hone, -⟩)
    · cases he
    · cases hone

/-- `media_client -g movie.mp4 -p 9000` goes on with the port 9000. -/
theorem client_takes_9000 :
    Honest (2 ^ 16 - 1)
      ((NumberSite.flag false [⟨.get, false, ascii "movie.mp4"⟩] []).number
        (numeral false (ascii "9000"))) (numeralValue false (ascii "9000")) := by
  have hvalue : numeralValue false (ascii "9000") = 9000 := by decide +kernel
  refine (numeric_option_iff (.flag false [⟨.get, false, ascii "movie.mp4"⟩] []) ⟨?_, ?_, rfl⟩ false
    ?_ ?_ ?_).2 ?_
  · decide +kernel
  · decide +kernel
  · decide +kernel
  · decide +kernel
  · rw [hvalue]
    exact ⟨by decide, by decide⟩
  · rw [hvalue]
    exact .inl ⟨by decide, by decide⟩

end

end Streamer

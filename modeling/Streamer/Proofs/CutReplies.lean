import Streamer.Proofs.Catalogue
import Streamer.Proofs.Download

/-!
# The client against any stream

What `do_list` and `do_get` do with a stream that a server need not have sent: a reply of this server
that is cut anywhere, or any bytes at all. Both read a first line that depends on the stream alone
(`firstLine`), test two characters of it and cut it at the third.
-/

namespace Streamer
open Text Kernel

/-! ### A list that is cut -/

theorem listLoop_iff {count : Nat} {sock : Socket} {rows : List MediaFileInfo} (h : sock.Steady) :
    (listLoop count sock rows).1 = true ↔
      count ≤ (received sock.fin sock.inbox).length ∧
        ∀ l ∈ (received sock.fin sock.inbox).take count, l.length < 4096 := by
  induction count generalizing sock rows with
  | zero => simp [listLoop]
  | succ count ih =>
    cases hok : (sock.recvLine).1 with
    | false =>
      have hnot : ¬ ∃ l ls, received sock.fin sock.inbox = l :: ls ∧ l.length < 4096 := by
        rw [← h.recvLine_iff, hok]
        simp
      simp only [listLoop, hok, Bool.not_false, if_true, Bool.false_eq_true, false_iff]
      rintro ⟨hle, hall⟩
      cases hlines : received sock.fin sock.inbox with
      | nil => rw [hlines] at hle; simp at hle
      | cons l ls =>
        rw [hlines] at hall
        exact hnot ⟨l, ls, hlines, hall l (by simp)⟩
    | true =>
      obtain ⟨hsteady, hfin, l, hlines, hlen⟩ := h.recvLine_next hok
      simp only [listLoop, hok, Bool.not_true, Bool.false_eq_true, if_false]
      rw [ih hsteady, hfin, hlines]
      simp [hlen]

theorem doList_result {sock sock₁ sock₂ : Socket} {sent ok : Bool} {header : Bytes}
    (hsend : sock.sendString (ascii "LIST\n") = (sent, sock₁))
    (hline : sock₁.recvLine = (ok, header, sock₂)) :
    (doList sock).1 =
      if sent && ok && (ascii "OK").isPrefixOf header then
        if header.length < 3 then .error .outOfRange
        else .ok (listLoop (extractUnsigned (header.drop 3)).2 sock₂ []).1
      else .ok false := by
  simp only [doList, hsend, hline]
  cases sent with
  | false => rfl
  | true =>
  cases ok with
  | false => rfl
  | true =>
  cases (ascii "OK").isPrefixOf header with
  | false => rfl
  | true =>
  by_cases hlen : header.length < 3
  · simp [substr, hlen]
  · simp only [substr, hlen, Bool.and_self, Bool.not_true, Bool.false_eq_true, if_false, if_true]
    cases (listLoop (extractUnsigned (header.drop 3)).2 sock₂ []).1 <;> rfl

/-- When `do_list` reports success on a stream that ends. -/
theorem doList_true_iff {sock : Socket} (hfin : sock.fin = true)
    (hrecvs : Lively (sock.inbox.length + 1) sock.recvs) :
    (doList sock).1 = .ok true ↔
      (sock.sendString (ascii "LIST\n")).1 = true ∧ ∃ l ls, lines sock.inbox = l :: ls ∧ l.length < 4096 ∧
        ascii "OK" <+: firstLine sock.inbox ∧ 3 ≤ (firstLine sock.inbox).length ∧
        (extractUnsigned ((firstLine sock.inbox).drop 3)).2 ≤ ls.length ∧
        ∀ l ∈ ls.take (extractUnsigned ((firstLine sock.inbox).drop 3)).2, l.length < 4096 := by
  by_cases hsend : (sock.sendString (ascii "LIST\n")).1 = true
  swap
  · simp [doList, hsend]
  have hv : sock.isValid = true := Socket.sendString_isValid hsend
  obtain ⟨sends, hsent⟩ := Socket.sendString_true hsend
  generalize hsock₁ : ({ sock with sent := sock.sent ++ ascii "LIST\n", sends := sends } : Socket) =
    sock₁ at hsent
  have hsteady : sock₁.Steady := by
    rw [← hsock₁]
    exact ⟨hv, fun _ => hrecvs⟩
  have hin : sock.inbox = sock₁.inbox := by rw [← hsock₁]
  have hfin₁ : sock₁.fin = true := by rw [← hsock₁]; exact hfin
  have hiff := @Socket.Steady.recvLine_iff sock₁ 4096 hsteady
  have hfirst := @Socket.recvLine_firstLine sock₁ 4096
  have hnext := @Socket.Steady.recvLine_next sock₁ 4096 hsteady
  rw [hfin₁, received_true] at hiff hnext
  rcases hline : sock₁.recvLine with ⟨ok, header, sock₂⟩
  rw [hline] at hiff hfirst hnext
  rw [doList_result hsent hline, hin]
  simp only [hsend, true_and, Bool.true_and]
  cases ok with
  | false =>
    simp only [Bool.false_and, Bool.false_eq_true, if_false, Except.ok.injEq, false_iff]
    rintro ⟨l, ls, hlines, hlen, -⟩
    exact absurd (hiff.2 ⟨l, ls, hlines, hlen⟩) (by simp)
  | true =>
    obtain ⟨hsteady₂, hfin₂, l, hlines, hlen⟩ := hnext rfl
    obtain ⟨rfl, -⟩ := hfirst rfl
    have hloop := @listLoop_iff (extractUnsigned ((firstLine sock₁.inbox).drop 3)).2 sock₂ [] hsteady₂
    rw [hfin₂, received_true] at hloop
    rw [received_true] at hlines
    simp only [Bool.true_and, List.isPrefixOf_iff_prefix, hlines, List.cons.injEq]
    constructor
    · intro h
      split at h
      · rename_i hstart
        split at h
        · cases h
        · rename_i h3
          obtain ⟨hle, hall⟩ := hloop.1 (Except.ok.inj h)
          exact ⟨l, _, ⟨rfl, rfl⟩, hlen, hstart, Nat.not_lt.1 h3, hle, hall⟩
      · cases h
    · rintro ⟨_, _, ⟨rfl, rfl⟩, -, hstart, h3, hle, hall⟩
      rw [if_pos hstart, if_neg (Nat.not_lt.2 h3), hloop.2 ⟨hle, hall⟩]

/-- The places where a list can be cut and `do_list` still reports success: behind the first blank,
before the newline of an empty list, and inside the last entry (if no line read is too long). -/
def CutAccepted (files : List MediaFileInfo) (cut : Bytes) : Prop :=
  cut = ascii "OK " ∨ (files = [] ∧ cut = ascii "OK 0") ∨
    ∃ before last piece, files = before ++ [last] ∧
      cut = ascii "OK " ++ decimal files.length ++ [newline] ++
        before.flatMap Protocol.buildListEntry ++ piece ∧
      piece ≠ [] ∧ piece <+: entryLine last ∧ piece.length < 4096 ∧
        ∀ f ∈ before, (entryLine f).length < 4096

theorem flatMap_buildListEntry (files : List MediaFileInfo) :
    files.flatMap Protocol.buildListEntry = unlines (files.map entryLine) := by
  rw [unlines, List.flatMap_map]
  rfl

theorem buildListResponse_eq (files : List MediaFileInfo) :
    Protocol.buildListResponse files = unlines
      ((ascii "OK " ++ decimal files.length) :: files.map entryLine) := by
  rw [Protocol.buildListResponse, flatMap_buildListEntry]
  rfl

theorem newline_not_mem_header (n : Nat) : newline ∉ ascii "OK " ++ decimal n := by
  simp only [List.mem_append, not_or]
  exact ⟨by decide, newline_not_mem_decimal n⟩

theorem prefix_header {n : Nat} {p : Bytes} (h : p <+: ascii "OK " ++ decimal n) (h3 : 3 ≤ p.length) :
    ∃ ds, p = ascii "OK " ++ ds ∧ ds <+: decimal n := by
  rcases List.prefix_or_prefix_of_prefix h (List.prefix_append (ascii "OK ") (decimal n)) with
    hp | ⟨ds, rfl⟩
  · have : p = ascii "OK " := hp.eq_of_length_le h3
    exact ⟨[], by simp [this], List.nil_prefix⟩
  · exact ⟨ds, rfl, (List.prefix_append_right_inj _).1 h⟩

section
variable {files : List MediaFileInfo} {cut : Bytes} {sock : Socket} (hlen : files.length < 2 ^ 64)
  (hin : sock.inbox = cut) (hfin : sock.fin = true) (hrecvs : Lively (cut.length + 1) sock.recvs)
  (hsend : (sock.sendString (ascii "LIST\n")).1 = true)
include hlen hin hfin hrecvs hsend

theorem header_cut_accepted
    (hcut : cut <+: ascii "OK " ++ decimal files.length) :
    (doList sock).1 = .ok true ↔ cut = ascii "OK " ∨ (files = [] ∧ cut = ascii "OK 0") := by
  have hnl : newline ∉ cut := fun h => newline_not_mem_header _ (hcut.subset h)
  have hfirst : firstLine cut = cut := if_neg hnl
  have hshort : cut.length < 4096 := by
    have h1 := length_decimal_le hlen
    have h2 := hcut.length_le
    have h3 : (ascii "OK ").length = 3 := rfl
    rw [List.length_append] at h2
    omega
  rw [doList_true_iff hfin (hin ▸ hrecvs), hin, hfirst]
  constructor
  · rintro ⟨-, l, ls, hlines, -, -, h3, hcount, -⟩
    obtain ⟨ds, rfl, hds⟩ := prefix_header hcut h3
    have hne : ascii "OK " ++ ds ≠ [] := by
      intro h
      rw [h] at h3
      exact absurd h3 (by decide)
    rw [lines_of_not_mem hnl hne] at hlines
    cases hlines
    by_cases hnil : ds = []
    · exact .inl (by rw [hnil, List.append_nil])
    · have h0 : (extractUnsigned ds).2 = 0 := Nat.le_zero.1 hcount
      have hn := (extractUnsigned_prefix_decimal hds hnil).1 h0
      have hfiles : files = [] := List.length_eq_zero_iff.1 hn
      rw [hn] at hds
      have hone : ds = decimal 0 := hds.eq_of_length_le (List.length_pos_of_ne_nil hnil)
      exact .inr ⟨hfiles, by rw [hone]; rfl⟩
  · rintro (rfl | ⟨-, rfl⟩)
    · exact ⟨hsend, ascii "OK ", [], rfl, hshort, by decide, by decide, by decide, by simp⟩
    · exact ⟨hsend, ascii "OK 0", [], rfl, hshort, by decide, by decide, by decide, by simp⟩

theorem entry_cut_accepted {before after : List MediaFileInfo} {f : MediaFileInfo} {piece : Bytes}
    (hs : ∀ f ∈ files, ∀ b ∈ f.filename, isSpace b = false) (hfiles : files = before ++ f :: after)
    (hcut : cut = ascii "OK " ++ decimal files.length ++
      [newline] ++ before.flatMap Protocol.buildListEntry ++ piece)
    (hpiece : piece <+: entryLine f) :
    (doList sock).1 = .ok true ↔
      after = [] ∧ piece ≠ [] ∧ piece.length < 4096 ∧ ∀ g ∈ before, (entryLine g).length < 4096 := by
  have hmem (g : MediaFileInfo) (hg : g ∈ files) : newline ∉ entryLine g :=
    newline_not_mem_entryLine (hs g hg)
  have hnl : newline ∉ piece := fun h => hmem f (by simp [hfiles]) (hpiece.subset h)
  have hbefore : ∀ l ∈ before.map entryLine, newline ∉ l := by
    intro l hl
    obtain ⟨g, hg, rfl⟩ := List.mem_map.1 hl
    exact hmem g (by simp [hfiles, hg])
  have hcut' : cut = (ascii "OK " ++ decimal files.length) ++ newline ::
      (unlines (before.map entryLine) ++ piece) := by
    rw [hcut, flatMap_buildListEntry]
    simp
  have hfirst : firstLine cut = ascii "OK " ++ decimal files.length := by
    rw [hcut', firstLine_append_newline (newline_not_mem_header _), dropCr_append_decimal]
  have hlines : lines cut = (ascii "OK " ++ decimal files.length) ::
      (before.map entryLine ++ if piece = [] then [] else [piece]) := by
    rw [hcut', lines_append_newline (newline_not_mem_header _), lines_unlines_append hbefore hnl]
  have hdrop : (ascii "OK " ++ decimal files.length).drop 3 = decimal files.length := rfl
  have hcount : extractUnsigned (decimal files.length) = (true, files.length) :=
    extractUnsigned_decimal (w := []) (by simp) hlen
  rw [doList_true_iff hfin (hin ▸ hrecvs), hin, hfirst, hlines, hdrop, hcount]
  have hn : files.length = before.length + 1 + after.length := by
    rw [hfiles, List.length_append, List.length_cons]
    omega
  constructor
  · rintro ⟨-, l, ls, heq, -, -, -, hle, hall⟩
    cases heq
    have hpne : piece ≠ [] := by
      intro h
      rw [if_pos h, List.append_nil, List.length_map] at hle
      omega
    rw [if_neg hpne] at hle hall
    have hafter : after.length = 0 := by
      simp only [List.length_append, List.length_map, List.length_cons, List.length_nil] at hle
      omega
    rw [List.take_of_length_le (by simp; omega)] at hall
    refine ⟨List.length_eq_zero_iff.1 hafter, hpne, hall piece (by simp), ?_⟩
    intro g hg
    exact hall _ (by simp only [List.mem_append, List.mem_map]; exact .inl ⟨g, hg, rfl⟩)
  · rintro ⟨rfl, hpne, hplen, hblen⟩
    rw [if_neg hpne]
    refine ⟨hsend, _, _, rfl, ?_, ?_, ?_, ?_, ?_⟩
    · have h1 := length_decimal_le hlen
      have h2 : (ascii "OK ").length = 3 := rfl
      rw [List.length_append]
      omega
    · exact ⟨32 :: decimal files.length, rfl⟩
    · rw [List.length_append]
      exact Nat.le_add_right 3 _
    · rw [List.length_nil] at hn
      simp only [List.length_append, List.length_map, List.length_cons, List.length_nil]
      omega
    · intro l hl
      rcases List.mem_append.1 (List.mem_of_mem_take hl) with hl | hl
      · obtain ⟨g, hg, rfl⟩ := List.mem_map.1 hl
        exact hblen g hg
      · rw [List.mem_singleton.1 hl]
        exact hplen

end

/-- A list that is cut before its last byte is taken for a whole one exactly at the places of
`CutAccepted`. -/
theorem doList_cut_refused_iff (files : List MediaFileInfo) (hlen : files.length < 2 ^ 64)
    (hs : ∀ f ∈ files, ∀ b ∈ f.filename, isSpace b = false) (cut : Bytes)
    (hcut : cut <+: Protocol.buildListResponse files) (hne : cut ≠ Protocol.buildListResponse files)
    (sock : Socket) (hin : sock.inbox = cut) (hfin : sock.fin = true)
    (hrecvs : Lively (cut.length + 1) sock.recvs) :
    (doList sock).1 ≠ .ok true ↔
      ¬ ((sock.sendString (ascii "LIST\n")).1 = true ∧ CutAccepted files cut) := by
  rw [ne_eq, not_iff_not]
  by_cases hsend : (sock.sendString (ascii "LIST\n")).1 = true
  swap
  · simp [doList, hsend]
  constructor
  · intro htrue
    refine ⟨hsend, ?_⟩
    rw [buildListResponse_eq] at hcut hne
    obtain ⟨init, l, rest, piece, hls, hpre, hpiece⟩ := cut_unlines hcut hne
    cases init with
    | nil =>
      obtain ⟨rfl, -⟩ := List.cons.inj hls
      obtain rfl : cut = piece := hpre
      have := (header_cut_accepted hlen hin hfin hrecvs hsend hpiece).1 htrue
      exact this.imp_right .inl
    | cons header init =>
      obtain ⟨rfl, htail⟩ := List.cons.inj hls
      obtain ⟨before, tail, hfiles, rfl, htail'⟩ := List.map_eq_append_iff.1 htail
      obtain ⟨f, after, rfl, rfl, -⟩ := List.map_eq_cons_iff.1 htail'
      have hcut' : cut = ascii "OK " ++ decimal files.length ++ [newline] ++
          before.flatMap Protocol.buildListEntry ++ piece := by
        rw [hpre, flatMap_buildListEntry]
        rfl
      obtain ⟨rfl, hpne, hplen, hblen⟩ :=
        (entry_cut_accepted hlen hin hfin hrecvs hsend hs hfiles hcut' hpiece).1 htrue
      exact .inr (.inr ⟨before, f, piece, hfiles, hcut', hpne, hpiece, hplen, hblen⟩)
  · rintro ⟨-, rfl | ⟨rfl, rfl⟩ | ⟨before, last, piece, hfiles, hcut', hpne, hpiece, hplen, hblen⟩⟩
    · exact (header_cut_accepted hlen hin hfin hrecvs hsend (List.prefix_append _ _)).2 (.inl rfl)
    · exact (header_cut_accepted hlen hin hfin hrecvs hsend List.prefix_rfl).2 (.inr ⟨rfl, rfl⟩)
    · exact (entry_cut_accepted hlen hin hfin hrecvs hsend hs hfiles hcut' hpiece).2
        ⟨rfl, hpne, hplen, hblen⟩

open ClientSession in
theorem headerOnly_refused : (doList (connection (ascii "OK 1\n") 2 9 9)).1 ≠ .ok true := by
  refine (doList_cut_refused_iff [⟨ascii "a", 7⟩] (by decide) ?_ (ascii "OK 1\n") (by decide) (by decide)
    (connection (ascii "OK 1\n") 2 9 9) rfl rfl (by decide)).2 ?_
  · have hwords : [(⟨ascii "a", 7⟩ : MediaFileInfo)].all (·.filename.all (!isSpace ·)) =
        true := by decide +kernel
    simpa using hwords
  · rintro ⟨-, h | ⟨h, -⟩ | ⟨before, last, piece, hfiles, hcut, hpne, -⟩⟩
    · exact absurd h (by decide)
    · cases h
    · have hbefore : before = [] := by
        have := congrArg List.length hfiles
        rw [List.length_append] at this
        exact List.length_eq_zero_iff.1 (by simpa using this.symm)
      rw [hbefore] at hcut
      have := congrArg List.length hcut
      rw [List.flatMap_nil, List.append_nil, List.length_append] at this
      have h5 : (ascii "OK 1\n").length =
          (ascii "OK " ++ decimal [(⟨ascii "a", 7⟩ : MediaFileInfo)].length ++ [newline]).length := rfl
      have := List.length_pos_of_ne_nil hpne
      omega

open ClientSession in
/-- The entry `a 7` cut inside its line: success, and `a` is shown with no bytes. -/
theorem oneEntry_cut_accepted :
    ascii "OK 1\na" <+: Protocol.buildListResponse [⟨ascii "a", 7⟩] ∧
      ascii "OK 1\na" ≠ Protocol.buildListResponse [⟨ascii "a", 7⟩] ∧
      ¬ (doList (connection (ascii "OK 1\na") 2 9 9)).1 ≠ .ok true := by
  decide +kernel

/-! ### Any stream -/

def Returns (res : Except Exn Bool) : Prop := ∃ b, res = .ok b

theorem not_returns {x : Exn} : ¬ Returns (.error x) := by
  rintro ⟨b, hb⟩
  cases hb

/-- The reply is the word `OK` and nothing else on its line. -/
def BareReply (sock : Socket) : Prop :=
  ascii "OK\n" <+: sock.inbox ∨ ascii "OK\r\n" <+: sock.inbox ∨
    (sock.inbox = ascii "OK" ∧ sock.fin = true)

/-- The stream brings a header that announces a size, and as many bytes. -/
def WholeReply (sock : Socket) : Prop :=
  ∃ l header body rest, Fetched sock.inbox l header body rest ∧ l.length < 4096 ∧
    (newline ∈ sock.inbox ∨ sock.fin = true)

section
variable {sock : Socket}

theorem bareReply_iff :
    BareReply sock ↔ firstLine sock.inbox = ascii "OK" ∧ (newline ∈ sock.inbox ∨ sock.fin = true) := by
  constructor
  · rintro (⟨t, ht⟩ | ⟨t, ht⟩ | ⟨hin, hfin⟩)
    · have hline : sock.inbox = ascii "OK" ++ newline :: t := ht.symm
      rw [hline, firstLine_append_newline (by decide)]
      exact ⟨rfl, .inl (by simp)⟩
    · have hline : sock.inbox = ascii "OK\r" ++ newline :: t := ht.symm
      rw [hline, firstLine_append_newline (by decide)]
      exact ⟨rfl, .inl (by simp)⟩
    · rw [hin]
      exact ⟨rfl, .inr hfin⟩
  · rintro ⟨hline, hend⟩
    rcases lines_cases sock.inbox with h | ⟨-, hnl⟩ | ⟨l, rest, hnl, h⟩
    · rw [h] at hline
      cases hline
    · rw [firstLine, if_neg hnl] at hline
      exact .inr (.inr ⟨hline, hend.resolve_left hnl⟩)
    · rw [h, firstLine_append_newline hnl] at hline
      rcases eq_dropCr_or l with hl | hl
      · refine .inl ⟨rest, ?_⟩
        rw [h, ← hl, hline]
        rfl
      · refine .inr (.inl ⟨rest, ?_⟩)
        rw [h, hl, hline]
        rfl

theorem BareReply.recvLine (h : BareReply sock) (hv : sock.isValid = true)
    (hrecvs : Lively (sock.inbox.length + 1) sock.recvs) : sock.recvLine.1 = true := by
  rcases h with ⟨t, ht⟩ | ⟨t, ht⟩ | ⟨hin, hfin⟩
  · have hline : sock.inbox = ascii "OK" ++ newline :: t := ht.symm
    have hlive : Lively ((ascii "OK").length + 1 + 0) sock.recvs := hrecvs.mono (by simp [hline])
    obtain ⟨recvs, hrecv, -⟩ := Socket.recvLine_newline 4096 hv hline (by decide) (by decide) hlive
    rw [hrecv]
  · have hline : sock.inbox = ascii "OK\r" ++ newline :: t := ht.symm
    have hlive : Lively ((ascii "OK\r").length + 1 + 0) sock.recvs := hrecvs.mono (by simp [hline])
    obtain ⟨recvs, hrecv, -⟩ := Socket.recvLine_newline 4096 hv hline (by decide) (by decide) hlive
    rw [hrecv]
  · have hsteady : sock.Steady := ⟨hv, fun _ => hrecvs⟩
    exact hsteady.recvLine_iff.2 ⟨ascii "OK", [], by rw [hin, hfin]; rfl, by decide⟩

end

theorem eq_ok_of_short {header : Bytes} (hstart : ascii "OK" <+: header) (hlen : header.length < 3) :
    header = ascii "OK" :=
  (hstart.eq_of_length_le (Nat.le_of_lt_succ hlen)).symm

section
variable {sock sock₁ sock₂ : Socket} {str header : Bytes} (hsend : sock.sendString str = (true, sock₁))
include hsend

/-- The reply is read from the stream that was there before the request was sent. -/
theorem reply_line (hline : sock₁.recvLine = (true, header, sock₂)) :
    header = firstLine sock.inbox ∧ (newline ∈ sock.inbox ∨ sock.fin = true) := by
  obtain ⟨sends, hsent⟩ := @Socket.sendString_true sock str (by rw [hsend])
  rw [hsend] at hsent
  cases hsent
  have h := Socket.recvLine_firstLine (congrArg (·.1) hline)
  rwa [hline] at h

theorem BareReply.reply_line (h : BareReply sock) (hrecvs : Lively (sock.inbox.length + 1) sock.recvs) :
    ∃ sock₂, sock₁.recvLine = (true, ascii "OK", sock₂) := by
  have hv : sock.isValid = true := Socket.sendString_isValid (by rw [hsend])
  obtain ⟨sends, hsent⟩ := @Socket.sendString_true sock str (by rw [hsend])
  rw [hsend] at hsent
  cases hsent
  have hbare : BareReply { sock with sent := sock.sent ++ str, sends := sends } := h
  have hok := hbare.recvLine hv hrecvs
  have hfirst := (Socket.recvLine_firstLine hok).1.trans (bareReply_iff.1 h).1
  exact ⟨_, Prod.ext hok (Prod.ext hfirst rfl)⟩

end

theorem doList_throws_iff (sock : Socket) :
    (¬ Returns (doList sock).1 → (sock.sendString (ascii "LIST\n")).1 = true ∧ BareReply sock) ∧
    (Lively (sock.inbox.length + 1) sock.recvs → (sock.sendString (ascii "LIST\n")).1 = true →
      BareReply sock →
      ¬ Returns (doList sock).1) := by
  rcases hsend : sock.sendString (ascii "LIST\n") with ⟨sent, sock₁⟩
  constructor
  · intro h
    rcases hline : sock₁.recvLine with ⟨ok, header, sock₂⟩
    rw [doList_result hsend hline] at h
    split at h
    · rename_i hcond
      simp only [Bool.and_eq_true, List.isPrefixOf_iff_prefix] at hcond
      obtain ⟨⟨rfl, rfl⟩, hstart⟩ := hcond
      split at h
      · rename_i hlen
        obtain ⟨rfl, hend⟩ := reply_line hsend hline
        exact ⟨rfl, bareReply_iff.2 ⟨eq_ok_of_short hstart hlen, hend⟩⟩
      · exact absurd ⟨_, rfl⟩ h
    · exact absurd ⟨_, rfl⟩ h
  · rintro hrecvs rfl hbare
    obtain ⟨sock₂, hline⟩ := hbare.reply_line hsend hrecvs
    rw [doList_result hsend hline]
    exact not_returns

theorem doGet_result {disk : LocalDisk} {sock sock₁ sock₂ : Socket} {filename header : Bytes}
    {sent ok : Bool} (hsend : sock.sendString (getRequest filename) = (sent, sock₁))
    (hline : sock₁.recvLine = (ok, header, sock₂)) :
    (doGet disk sock filename).1 =
      if disk.creates && sent && ok then (download disk sock₂ header).1 else .ok false := by
  rw [getRequest] at hsend
  simp only [doGet, hsend, hline]
  cases disk.creates with
  | false => rfl
  | true =>
  cases sent with
  | false => rfl
  | true =>
  cases ok <;> rfl

/-- The two exceptions of the part of `do_get` behind the header. -/
theorem download_throws_iff {disk : LocalDisk} {sock : Socket} {header : Bytes} :
    ¬ Returns (download disk sock header).1 ↔
      header = ascii "OK" ∨
        (disk.opens = true ∧ disk.resolves = false ∧ ascii "OK" <+: header ∧ 3 ≤ header.length ∧
        (extractUnsigned (header.drop 3)).1 = true ∧
        (receiveLoop (extractUnsigned (header.drop 3)).2
          ((extractUnsigned (header.drop 3)).2 / CHUNK_SIZE + 2) 0 sock
          ⟨[], false, disk.writes⟩).1 = true) := by
  by_cases hok : header = ascii "OK"
  · rw [hok]
    exact ⟨fun _ => .inl rfl, fun _ => not_returns⟩
  simp only [hok, false_or]
  unfold download
  by_cases hstart : ascii "OK" <+: header
  swap
  · have : (ascii "OK").isPrefixOf header = false := by
      rw [← Bool.not_eq_true, List.isPrefixOf_iff_prefix]
      exact hstart
    simp [this, hstart, Returns]
  have hlen : ¬ header.length < 3 := fun h => hok (eq_ok_of_short hstart h)
  simp only [List.isPrefixOf_iff_prefix.2 hstart, substr, hlen, Bool.not_true,
    Bool.false_eq_true, if_false]
  cases (extractUnsigned (header.drop 3)).1 with
  | false => simp [Returns]
  | true =>
  cases disk.opens with
  | false => simp [Returns]
  | true =>
  cases (receiveLoop (extractUnsigned (header.drop 3)).2
    ((extractUnsigned (header.drop 3)).2 / CHUNK_SIZE + 2) 0 sock
      ⟨[], false, disk.writes⟩).1 with
  | false => simp [Returns]
  | true => cases disk.resolves <;> simp [Returns, hstart, Nat.not_lt.1 hlen]

/-- The header is read and the bytes behind it are there. -/
theorem WholeReply.arrives {sock sock₁ : Socket} {str : Bytes}
    (hsend : sock.sendString str = (true, sock₁))
    (h : WholeReply sock) (hrecvs : Lively (sock.inbox.length + 1) sock.recvs)
    (writes : List (Option Nat)) :
    ∃ header sock₂, sock₁.recvLine = (true, header, sock₂) ∧ ascii "OK" <+: header ∧
      (extractUnsigned (header.drop 3)).1 = true ∧
      (receiveLoop (extractUnsigned (header.drop 3)).2
        ((extractUnsigned (header.drop 3)).2 / CHUNK_SIZE + 2) 0 sock₂
        ⟨[], false, writes⟩).1 = true := by
  have hv : sock.isValid = true := Socket.sendString_isValid (by rw [hsend])
  obtain ⟨sends, hsent⟩ := @Socket.sendString_true sock str (by rw [hsend])
  rw [hsend] at hsent
  cases hsent
  obtain ⟨l, header, body, rest, hf, hlen, hend⟩ := h
  rcases hf.line with ⟨hin, hheader⟩ | ⟨hin, hnil, hheader⟩
  · have hlive : Lively (l.length + 1 + (body ++ rest).length) sock.recvs := by
      refine hrecvs.mono ?_
      simp only [hin, List.length_append, List.length_cons]
      omega
    obtain ⟨recvs, hline, hlive'⟩ := Socket.recvLine_newline 4096
      (s := { sock with sent := sock.sent ++ str, sends := sends }) hv hin hf.no_newline hlen hlive
    rw [← hheader] at hline
    refine ⟨header, _, hline, hf.ok, by rw [hf.size], ?_⟩
    rw [hf.size]
    exact receiveLoop_lively (n := 0) _ _ hv (by simp) (hlive'.mono (by simp)) (le_turns _)
  · have hsteady : ({ sock with sent := sock.sent ++ str, sends := sends } : Socket).Steady :=
      ⟨hv, fun _ => hrecvs⟩
    have hfin : sock.fin = true := hend.resolve_left (hin ▸ hf.no_newline)
    have hne : l ≠ [] := by
      intro h
      have := hf.ok
      rw [hheader, h, List.prefix_nil] at this
      cases this
    have hlines : received sock.fin sock.inbox = [l] := by
      rw [hin, received_of_not_mem _ hf.no_newline, if_pos ⟨hfin, hne⟩]
    have hok := (@Socket.Steady.recvLine_iff _ 4096 hsteady).2 ⟨l, [], hlines, hlen⟩
    have hfirst := (Socket.recvLine_firstLine hok).1
    have hl : firstLine sock.inbox = header := by
      rw [hin, hheader]
      exact if_neg hf.no_newline
    refine ⟨header, _, Prod.ext hok (Prod.ext (hfirst.trans hl) rfl), hf.ok, by rw [hf.size], ?_⟩
    have hbody : body.length = 0 := by rw [(List.append_eq_nil_iff.1 hnil).1]; rfl
    rw [hf.size, hbody]
    rfl

theorem WholeReply.of_arrived {sock sock₁ sock₂ : Socket} {str header : Bytes} {out : OutFile}
    {fuel : Nat}
    (hsend : sock.sendString str = (true, sock₁)) (hline : sock₁.recvLine = (true, header, sock₂))
    (hstart : ascii "OK" <+: header) (hnum : (extractUnsigned (header.drop 3)).1 = true)
    (hloop : (receiveLoop (extractUnsigned (header.drop 3)).2 fuel 0 sock₂ out).1 = true) :
    WholeReply sock := by
  obtain ⟨-, hend⟩ := reply_line hsend hline
  obtain ⟨sends, hsent⟩ := @Socket.sendString_true sock str (by rw [hsend])
  rw [hsend] at hsent
  cases hsent
  obtain ⟨l, rest, hl, hlen, hsock, hcase⟩ := Socket.recvLine_true (congrArg (·.1) hline)
  rw [hline] at hsock hcase
  obtain ⟨body, tail, recvs, hin, hbody, -⟩ := receiveLoop_true (Nat.zero_le _) hloop
  dsimp only at hsock hcase
  rw [hsock] at hin
  obtain rfl : rest = body ++ tail := hin
  refine ⟨l, header, body, tail, ⟨hl, hcase.imp_right fun h => ⟨h.1, h.2.2.2⟩, hstart, ?_⟩, hlen, hend⟩
  exact Prod.ext hnum (by simpa using hbody.symm)

theorem doGet_throws_iff (disk : LocalDisk) (sock : Socket) (filename : Bytes) :
    (¬ Returns (doGet disk sock filename).1 →
      disk.creates = true ∧ (sock.sendString (getRequest filename)).1 = true ∧
        (BareReply sock ∨ (disk.opens = true ∧ disk.resolves = false ∧ WholeReply sock))) ∧
    (Lively (sock.inbox.length + 1) sock.recvs → disk.creates = true →
      (sock.sendString (getRequest filename)).1 = true →
      (BareReply sock ∨ (disk.opens = true ∧ disk.resolves = false ∧ WholeReply sock)) →
      ¬ Returns (doGet disk sock filename).1) := by
  rcases hsend : sock.sendString (getRequest filename) with ⟨sent, sock₁⟩
  constructor
  · intro h
    rcases hline : sock₁.recvLine with ⟨ok, header, sock₂⟩
    rw [doGet_result hsend hline] at h
    split at h
    · rename_i hcond
      simp only [Bool.and_eq_true] at hcond
      obtain ⟨⟨hcreates, rfl⟩, rfl⟩ := hcond
      refine ⟨hcreates, rfl, ?_⟩
      rcases download_throws_iff.1 h with rfl | ⟨hopens, hresolves, hstart, -, hnum, hloop⟩
      · obtain ⟨hfirst, hend⟩ := reply_line hsend hline
        exact .inl (bareReply_iff.2 ⟨hfirst.symm, hend⟩)
      · exact .inr ⟨hopens, hresolves, .of_arrived hsend hline hstart hnum hloop⟩
    · exact absurd ⟨_, rfl⟩ h
  · rintro hrecvs hcreates rfl (hbare | ⟨hopens, hresolves, hwhole⟩)
    · obtain ⟨sock₂, hline⟩ := hbare.reply_line hsend hrecvs
      rw [doGet_result hsend hline, hcreates]
      exact download_throws_iff.2 (.inl rfl)
    · obtain ⟨header, sock₂, hline, hstart, hnum, hloop⟩ := hwhole.arrives hsend hrecvs disk.writes
      rw [doGet_result hsend hline, hcreates]
      by_cases hok : header = ascii "OK"
      · exact download_throws_iff.2 (.inl hok)
      · have h3 : 3 ≤ header.length := Nat.not_lt.1 fun h => hok (eq_ok_of_short hstart h)
        exact download_throws_iff.2 (.inr ⟨hopens, hresolves, hstart, h3, hnum, hloop⟩)

/-- Whatever the peer delivers, both commands return unless the reply is the bare word `OK`, at which
they throw (`header.substr(3)`); apart from the peer, only `canonical` can still throw, after a whole
file has come. -/
theorem client_returns_iff (disk : LocalDisk) (sock : Socket) (filename : Bytes) :
    (¬ ((sock.sendString (ascii "LIST\n")).1 = true ∧ BareReply sock) → Returns (doList sock).1) ∧
    (¬ (disk.creates = true ∧ (sock.sendString (getRequest filename)).1 = true ∧
        (BareReply sock ∨ (disk.opens = true ∧ disk.resolves = false ∧ WholeReply sock))) →
      Returns (doGet disk sock filename).1) ∧
    (Lively (sock.inbox.length + 1) sock.recvs →
      (Returns (doList sock).1 ↔ ¬ ((sock.sendString (ascii "LIST\n")).1 = true ∧ BareReply sock)) ∧
      (Returns (doGet disk sock filename).1 ↔
        ¬ (disk.creates = true ∧ (sock.sendString (getRequest filename)).1 = true ∧
          (BareReply sock ∨ (disk.opens = true ∧ disk.resolves = false ∧ WholeReply sock))))) := by
  obtain ⟨hlist, hlist'⟩ := doList_throws_iff sock
  obtain ⟨hget, hget'⟩ := doGet_throws_iff disk sock filename
  refine ⟨not_imp_comm.1 hlist, not_imp_comm.1 hget, ?_⟩
  intro hrecvs
  refine ⟨⟨?_, not_imp_comm.1 hlist⟩, ⟨?_, not_imp_comm.1 hget⟩⟩
  · rintro hret ⟨hsend, hbare⟩
    exact hlist' hrecvs hsend hbare hret
  · rintro hret ⟨hcreates, hsend, hcase⟩
    exact hget' hrecvs hcreates hsend hcase hret

open ClientSession in
theorem emptyList_returns : Returns (doList (connection (ascii "OK 0\n") 1 9 9)).1 := by
  refine (client_returns_iff sampleDisk (connection (ascii "OK 0\n") 1 9 9) (ascii "a")).1 ?_
  rintro ⟨-, h | h | ⟨h, -⟩⟩
  · exact absurd h (by decide)
  · exact absurd h (by decide)
  · exact absurd h (by decide)

open ClientSession in
/-- The reply to a `LIST` of an empty directory, cut after two bytes. -/
theorem bareReply_throws :
    ascii "OK" <+: Protocol.buildListResponse [] ∧ ¬ Returns (doList (connection (ascii "OK") 1 9 9)).1 ∧
      ¬ Returns (doGet sampleDisk (connection (ascii "OK") 1 9 9) (ascii "a")).1 := by
  have hlist : (doList (connection (ascii "OK") 1 9 9)).1 = .error .outOfRange := by decide +kernel
  have hget : (doGet sampleDisk (connection (ascii "OK") 1 9 9) (ascii "a")).1 =
      .error .outOfRange := by decide +kernel
  rw [hlist, hget]
  exact ⟨by decide, not_returns, not_returns⟩

end Streamer

import Nullock.HttpFraming

namespace Nullock.Proxy
open HttpLogic

theorem chopCr_concat (line : QByteArray) : chopCr (line ++ [0x0D]) = line := by
  rw [chopCr, List.getLast?_concat, if_pos rfl, List.dropLast_concat]

theorem chopCr_clean (h : 0x0D ∉ line) : chopCr line = line := by
  rw [chopCr, if_neg]
  intro hl
  exact h (List.mem_of_getLast? hl)

theorem no_crlf_in_line (h : 0x0A ∉ line) (hj : j < line.length) (rest : QByteArray) :
    ¬ crlf <+: (line ++ 0x0D :: rest).drop j := by
  intro hp
  obtain ⟨u, hu⟩ := hp
  rw [List.drop_append_of_le_length (Nat.le_of_lt hj), List.drop_eq_getElem_cons hj,
    List.cons_append] at hu
  have ht := (List.cons.inj hu).2
  cases hd : line.drop (j + 1) with
  | nil =>
    rw [hd] at ht
    cases ht
  | cons d ds =>
    rw [hd] at ht
    have hmem : d ∈ line := List.mem_of_mem_drop (by rw [hd]; exact List.mem_cons_self)
    rw [← (List.cons.inj ht).1] at hmem
    exact h hmem

theorem indexOf_crlf_line (h : 0x0A ∉ line) (rest : QByteArray) :
    indexOf crlf (line ++ (crlf ++ rest)) = some line.length := by
  have hi := indexOf_append (crlf ++ rest) (fun j hj => no_crlf_in_line h hj (0x0A :: rest))
  rw [indexOf_front] at hi
  exact hi

theorem indexOf_crlf_eq_none (h : 0x0A ∉ line) : indexOf crlf line = none := by
  apply indexOf_eq_none_iff.2
  intro i _ hp
  obtain ⟨u, hu⟩ := hp
  apply h
  apply List.mem_of_mem_drop (i := i)
  rw [← hu]
  exact List.mem_append_left _ (by decide)

theorem no_blank_in_line (h : 0x0A ∉ line) (hj : j < line.length) (rest : QByteArray) :
    ¬ crlf ++ crlf <+: (line ++ (crlf ++ rest)).drop j := by
  intro hp
  exact no_crlf_in_line h hj (0x0A :: rest) ((List.prefix_append crlf crlf).trans hp)

structure TextLine (line : QByteArray) : Prop where
  nonempty : line ≠ []
  noCr : 0x0D ∉ line
  noLf : 0x0A ∉ line

def headLines (line : QByteArray) (lines : List QByteArray) : QByteArray :=
  line ++ lines.flatMap (crlf ++ ·)

theorem headLines_nil (line : QByteArray) : headLines line [] = line := List.append_nil line

theorem headLines_cons (line l : QByteArray) (lines : List QByteArray) :
    headLines line (l :: lines) = line ++ (crlf ++ headLines l lines) := by
  rw [headLines, headLines, List.flatMap_cons, List.append_assoc]

theorem requestLine_headLines (h : 0x0A ∉ line) (lines : List QByteArray) :
    requestLine (headLines line lines) = line := by
  cases lines with
  | nil => rw [headLines_nil, requestLine, indexOf_crlf_eq_none h]
  | cons l lines =>
    rw [headLines_cons, requestLine, indexOf_crlf_line h]
    exact List.take_left

theorem splitOn_headLines_cons (h : 0x0A ∉ line) (l : QByteArray) (lines : List QByteArray) :
    (headLines line (l :: lines)).splitOn 0x0A =
      (line ++ [0x0D]) :: (headLines l lines).splitOn 0x0A := by
  have hcr : 0x0A ∉ line ++ [0x0D] := by
    intro hm
    rcases List.mem_append.1 hm with hm | hm
    · exact h hm
    · revert hm
      decide
  have heq : headLines line (l :: lines) = (line ++ [0x0D]) ++ 0x0A :: headLines l lines := by
    rw [headLines_cons, List.append_assoc]
    rfl
  rw [heq, List.splitOn_append_cons_self_of_not_mem hcr]

theorem parseLine_concat (h : 0x0D ∉ line) (headers : List Header) :
    parseLine headers (line ++ [0x0D]) = parseLine headers line := by
  rw [parseLine, parseLine, chopCr_concat, chopCr_clean h]

theorem foldl_parseLine_headLines (h : TextLine l) (hall : ∀ m ∈ lines, TextLine m)
    (headers : List Header) :
    ((headLines l lines).splitOn 0x0A).foldl parseLine headers =
      (l :: lines).foldl parseLine headers := by
  induction lines generalizing l headers with
  | nil => rw [headLines_nil, List.splitOn_eq_singleton h.noLf]
  | cons m lines ih =>
    rw [List.forall_mem_cons] at hall
    rw [splitOn_headLines_cons h.noLf, List.foldl_cons, parseLine_concat h.noCr,
      ih hall.1 hall.2]
    rfl

theorem parseHeaders_headLines (h : 0x0A ∉ line) (hall : ∀ l ∈ lines, TextLine l) :
    parseHeaders (headLines line lines) = lines.foldl parseLine [] := by
  rw [parseHeaders]
  cases lines with
  | nil =>
    rw [headLines_nil, List.splitOn_eq_singleton h]
    rfl
  | cons l lines =>
    rw [List.forall_mem_cons] at hall
    rw [splitOn_headLines_cons h, List.drop_succ_cons, List.drop_zero,
      foldl_parseLine_headLines hall.1 hall.2]

theorem not_crlf_prefix (hne : l ≠ []) (h : 0x0A ∉ l) (rest : QByteArray) :
    ¬ crlf <+: l ++ (crlf ++ rest) := by
  have hlen : 0 < l.length := List.length_pos_iff.2 hne
  exact no_crlf_in_line h hlen (0x0A :: rest)

theorem indexOf_blank_lines (h : 0x0A ∉ line) (hall : ∀ l ∈ lines, l ≠ [] ∧ 0x0A ∉ l)
    (body : QByteArray) :
    indexOf (crlf ++ crlf) (headLines line lines ++ (crlf ++ (crlf ++ body))) =
      some (headLines line lines).length := by
  induction lines generalizing line with
  | nil =>
    have h0 : indexOf (crlf ++ crlf) (crlf ++ (crlf ++ body)) = some 0 :=
      indexOf_front (crlf ++ crlf) body
    rw [headLines_nil, indexOf_append _ (fun j hj => no_blank_in_line h hj _), h0]
    rfl
  | cons l lines ih =>
    rw [List.forall_mem_cons] at hall
    have hpre : headLines line (l :: lines) ++ (crlf ++ (crlf ++ body)) =
        (line ++ crlf) ++ (headLines l lines ++ (crlf ++ (crlf ++ body))) := by
      rw [headLines_cons, List.append_assoc, List.append_assoc, List.append_assoc]
    have hlen : (headLines line (l :: lines)).length =
        (line ++ crlf).length + (headLines l lines).length := by
      rw [headLines_cons, ← List.append_assoc, List.length_append]
    have hnext : ∃ rest, headLines l lines ++ (crlf ++ (crlf ++ body)) = l ++ (crlf ++ rest) := by
      cases lines with
      | nil => exact ⟨_, by rw [headLines_nil]⟩
      | cons m lines => exact ⟨_, by rw [headLines_cons, List.append_assoc, List.append_assoc]⟩
    rw [hpre, indexOf_append, ih hall.1.2 hall.2, Option.map_some, hlen]
    intro j hj hp
    rw [List.append_assoc] at hp
    by_cases hlt : j < line.length
    · exact no_blank_in_line h hlt _ hp
    · rw [List.length_append] at hj
      have h2 : crlf.length = 2 := rfl
      obtain hj' | hj' : j = line.length + 0 ∨ j = line.length + 1 := by omega
      · rw [hj', ← List.drop_drop, List.drop_left] at hp
        obtain ⟨rest, hrest⟩ := hnext
        rw [hrest] at hp
        exact not_crlf_prefix hall.1.1 hall.1.2 rest ((List.prefix_append_right_inj crlf).1 hp)
      · rw [hj', ← List.drop_drop, List.drop_left] at hp
        obtain ⟨u, hu⟩ := hp
        cases hu

theorem indexOf_blank_headLines (h : 0x0A ∉ line) (hall : ∀ l ∈ lines, TextLine l)
    (body : QByteArray) :
    indexOf (crlf ++ crlf) (headLines line lines ++ (crlf ++ (crlf ++ body))) =
      some (headLines line lines).length :=
  indexOf_blank_lines h (fun l hl => ⟨(hall l hl).nonempty, (hall l hl).noLf⟩) body

def isTokenChar (c : UInt8) : Bool :=
  0x21 ≤ c && c ≤ 0x7E && !(latin1 "\"(),/:;<=>?@[\\]\x7b\x7d").contains c

/-- A field line: a name, a colon, and a value that may stand between blanks. -/
structure WireField where
  name : QByteArray
  before : QByteArray
  value : QByteArray
  after : QByteArray
  named : name ≠ []
  token : ∀ c ∈ name, isTokenChar c = true
  blankBefore : ∀ c ∈ before, isOws c = true
  blankAfter : ∀ c ∈ after, isOws c = true
  trimmed : trimWith isOws value = value
  clean : ∀ c ∈ value, c ≠ 0x0D ∧ c ≠ 0x0A ∧ c ≠ 0x00

def WireField.text (f : WireField) : QByteArray :=
  f.name ++ 0x3A :: (f.before ++ (f.value ++ f.after))

def WireField.header (f : WireField) : Header := (fromLatin1 f.name, fromLatin1 f.value)

theorem tokenChar_facts (h : isTokenChar c = true) :
    c ≠ 0x3A ∧ c ≠ 0x0D ∧ c ≠ 0x0A ∧ c ≠ 0x00 ∧ isOws c = false ∧ isSpace c.toUInt16 = false := by
  rw [isTokenChar, Bool.and_eq_true, Bool.and_eq_true, decide_eq_true_eq, decide_eq_true_eq,
    Bool.not_eq_true'] at h
  obtain ⟨⟨hlo, hhi⟩, hdelim⟩ := h
  have hcolon : c ≠ 0x3A := by
    intro hc
    rw [hc] at hdelim
    revert hdelim
    decide
  simp only [UInt8.le_iff_toNat_le, UInt8.reduceToNat] at hlo hhi
  simp only [isOws, isSpace, Bool.or_eq_false_iff, Bool.and_eq_false_iff, beq_eq_false_iff_ne,
    decide_eq_false_iff_not, ne_eq, ← UInt8.toNat_inj, ← UInt16.toNat_inj, UInt16.le_iff_toNat_le,
    UInt16.reduceToNat, UInt8.reduceToNat, UInt8.toNat_toUInt16] at hcolon ⊢
  omega

theorem WireField.no_break (f : WireField) (hd : d = 0x0D ∨ d = 0x0A) : d ∉ f.text := by
  have hname : d ∉ f.name := by
    intro hm
    have ht := tokenChar_facts (f.token d hm)
    rcases hd with hd | hd
    · exact ht.2.1 hd
    · exact ht.2.2.1 hd
  have hcolon : d ≠ 0x3A := by
    rcases hd with hd | hd
    · rw [hd]
      decide
    · rw [hd]
      decide
  have hblank : isOws d = false := by
    rcases hd with hd | hd
    · rw [hd]
      rfl
    · rw [hd]
      rfl
  have hvalue : d ∉ f.value := by
    intro hm
    have hc := f.clean d hm
    rcases hd with hd | hd
    · exact hc.1 hd
    · exact hc.2.1 hd
  have hbefore : d ∉ f.before := by
    intro hm
    rw [f.blankBefore d hm] at hblank
    cases hblank
  have hafter : d ∉ f.after := by
    intro hm
    rw [f.blankAfter d hm] at hblank
    cases hblank
  simp only [WireField.text, List.mem_append, List.mem_cons, hname, hcolon, hbefore, hvalue, hafter,
    or_self, not_false_eq_true]

theorem WireField.textLine (f : WireField) : TextLine f.text where
  nonempty := List.append_ne_nil_of_right_ne_nil _ (List.cons_ne_nil _ _)
  noCr := f.no_break (.inl rfl)
  noLf := f.no_break (.inr rfl)

theorem WireField.not_continuation (f : WireField) : isContinuation f.text = false := by
  cases hn : f.name with
  | nil => exact absurd hn f.named
  | cons c name =>
    have hc := (tokenChar_facts (f.token c (by rw [hn]; exact List.mem_cons_self))).2.2.2.2.1
    rw [isOws, Bool.or_eq_false_iff, beq_eq_false_iff_ne, beq_eq_false_iff_ne] at hc
    rw [isContinuation, WireField.text, hn, List.cons_append, List.head?_cons,
      Bool.or_eq_false_iff, beq_eq_false_iff_ne, beq_eq_false_iff_ne]
    exact ⟨fun h => hc.1 (Option.some.inj h), fun h => hc.2 (Option.some.inj h)⟩

theorem WireField.name_trimmed (f : WireField) :
    QString.trimmed (fromLatin1 f.name) = fromLatin1 f.name := by
  have hspace (c : UInt16) (hc : c ∈ fromLatin1 f.name) : isSpace c = false := by
    obtain ⟨b, hb, he⟩ := List.mem_map.1 hc
    rw [← he]
    exact (tokenChar_facts (f.token b hb)).2.2.2.2.2
  apply trimWith_eq_self
  · intro c hc
    exact hspace c (List.mem_of_mem_head? hc)
  · intro c hc
    exact hspace c (List.mem_of_getLast? hc)

theorem WireField.parseLine (f : WireField) (headers : List Header) :
    HttpLogic.parseLine headers f.text = headers ++ [f.header] := by
  have hcolon : 0x3A ∉ f.name := by
    intro hm
    exact (tokenChar_facts (f.token _ hm)).1 rfl
  have hindex : indexOf (latin1 ":") f.text = some f.name.length := indexOf_singleton hcolon _
  have hpos : f.name.length ≠ 0 := by
    intro h0
    exact f.named (List.length_eq_zero_iff.1 h0)
  have hname : f.text.take f.name.length = f.name := List.take_left
  have hvalue : fieldValue (f.text.drop (f.name.length + 1)) = fromLatin1 f.value := by
    have hd : f.text.drop (f.name.length + 1) = f.before ++ (f.value ++ f.after) := by
      rw [WireField.text, ← List.drop_drop, List.drop_left]
      rfl
    rw [hd, fieldValue, trimWith_append f.blankBefore f.blankAfter f.trimmed]
  have hempty : f.text.isEmpty = false := List.isEmpty_eq_false_iff.2 f.textLine.nonempty
  rw [HttpLogic.parseLine, chopCr_clean f.textLine.noCr]
  simp only [hempty, f.not_continuation, Bool.false_eq_true, ↓reduceIte, hindex, hpos, hname,
    hvalue, f.name_trimmed]
  rfl

theorem foldl_parseLine_wire (fields : List WireField) (headers : List Header) :
    (fields.map WireField.text).foldl parseLine headers =
      headers ++ fields.map WireField.header := by
  induction fields generalizing headers with
  | nil => exact (List.append_nil headers).symm
  | cons f fields ih =>
    rw [List.map_cons, List.foldl_cons, f.parseLine, ih, List.append_assoc]
    rfl

theorem wire_lines (fields : List WireField) : ∀ l ∈ fields.map WireField.text, TextLine l := by
  intro l hl
  obtain ⟨f, _, he⟩ := List.mem_map.1 hl
  rw [← he]
  exact f.textLine

theorem parseHeaders_wire (h : 0x0A ∉ line) (fields : List WireField) :
    parseHeaders (headLines line (fields.map WireField.text)) = fields.map WireField.header := by
  rw [parseHeaders_headLines h (wire_lines fields), foldl_parseLine_wire, List.nil_append]

theorem WireField.clean_header (f : WireField) :
    hasControlByte f.header.1 = false ∧ hasControlByte f.header.2 = false := by
  have hbyte (s : QByteArray) (hs : ∀ c ∈ s, c ≠ 0x0D ∧ c ≠ 0x0A ∧ c ≠ 0x00) :
      hasControlByte (fromLatin1 s) = false := by
    rw [hasControlByte, List.any_eq_false]
    intro c hc
    obtain ⟨b, hb, he⟩ := List.mem_map.1 hc
    obtain ⟨h1, h2, h3⟩ := hs b hb
    have hne (d : UInt8) (hd : b ≠ d) : (c == d.toUInt16) = false := by
      rw [beq_eq_false_iff_ne, ← he]
      intro h
      have hl := congrArg toLatin1Char h
      rw [toLatin1Char_toUInt16, toLatin1Char_toUInt16] at hl
      exact hd hl
    have hcr : (c == 0x0D) = false := hne 0x0D h1
    have hlf : (c == 0x0A) = false := hne 0x0A h2
    have hnul : (c == 0x00) = false := hne 0x00 h3
    rw [hcr, hlf, hnul]
    decide
  constructor
  · apply hbyte
    intro c hc
    have ht := tokenChar_facts (f.token c hc)
    exact ⟨ht.2.1, ht.2.2.1, ht.2.2.2.1⟩
  · exact hbyte f.value f.clean

end Nullock.Proxy

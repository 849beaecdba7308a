import Mathlib.Data.Nat.Digits.Lemmas
import Nullock.HttpResponseFraming

namespace Nullock.Proxy
open HttpLogic

/-- A conformant client reads the bytes as one message and has nothing left. -/
def ClientReads (bytes : QByteArray) (head : ResponseHead) (body : QByteArray) : Prop :=
  ∃ follow, bytes = head.bytes ++ follow ∧ MessageBody false head.status head.headers follow body []

def SelfDelimiting (resp : HttpResponse) : Prop :=
  ∃ head added, ClientReads (serializeResponse resp) head resp.body ∧
    (head.status : Int) = resp.statusCode ∧
    head.headers = resp.headers.filter (fun h => !isTransferEncoding h) ++ added ∧
    (added = [] ∨ ∃ v, added = [(contentLengthName, v)])

structure PlainResponse (head : HttpResponse) : Prop where
  version : isHttpVersion (toLatin1 head.httpVersion) = true
  status : 100 ≤ head.statusCode ∧ head.statusCode ≤ 999
  reason : hasControlByte head.reasonPhrase = false
  fields : ∀ h ∈ head.headers, isTransferEncoding h = false →
    (h.1 ≠ [] ∧ ∀ c ∈ toLatin1 h.1, isTokenChar c = true) ∧ hasControlByte h.2 = false

def relayedHeaders (resp : HttpResponse) : List Header :=
  let kept := resp.headers.filter (fun h => !isTransferEncoding h)
  kept ++
    if kept.any (fun h => equalsIgnoreCase h.1 contentLengthName) then []
    else [(contentLengthName, fromLatin1 (QByteArray.number resp.body.length))]

def relayedLine (resp : HttpResponse) : QByteArray :=
  toLatin1 resp.httpVersion ++ 0x20 :: (QByteArray.number resp.statusCode ++
    0x20 :: toLatin1 resp.reasonPhrase)

theorem relayedFields_eq (resp : HttpResponse) :
    relayedFields resp = (relayedHeaders resp).map (fun h => (toLatin1 h.1, toLatin1 h.2)) := by
  have hkept : resp.headers.filter
      (fun h => !equalsIgnoreCase h.1 (utf16 "Transfer-Encoding")) =
        resp.headers.filter (fun h => !isTransferEncoding h) := rfl
  have hname : toLatin1 contentLengthName = latin1 "Content-Length" := by decide
  rw [relayedFields, relayedHeaders, hkept, ← contentLengthName, List.map_append]
  congr 1
  split
  · rfl
  · rw [List.map_singleton, toLatin1_fromLatin1, hname]

theorem serializeResponse_eq (resp : HttpResponse) :
    serializeResponse resp = headLines (relayedLine resp) ((relayedHeaders resp).map fieldText) ++
      (crlf ++ (crlf ++ resp.body)) := by
  have hline : statusLine resp = relayedLine resp ++ crlf := by
    have hspace : latin1 " " = [0x20] := rfl
    simp only [statusLine, relayedLine, hspace, List.append_assoc, List.cons_append,
      List.nil_append]
  have hfields : (relayedFields resp).flatMap fieldLine =
      (relayedHeaders resp).flatMap (fun f => fieldLine (toLatin1 f.1, toLatin1 f.2)) := by
    rw [relayedFields_eq, List.flatMap_map]
  calc serializeResponse resp
      = relayedLine resp ++ ((crlf ++ (relayedFields resp).flatMap fieldLine) ++
          (crlf ++ resp.body)) := by
        simp only [serializeResponse, hline, List.append_assoc]
    _ = relayedLine resp ++ (((relayedHeaders resp).flatMap (fun f => crlf ++ fieldText f) ++
          crlf) ++ (crlf ++ resp.body)) := by rw [hfields, fieldLines_eq]
    _ = headLines (relayedLine resp) ((relayedHeaders resp).map fieldText) ++
          (crlf ++ (crlf ++ resp.body)) := by
        simp only [headLines, List.flatMap_map, List.append_assoc]

theorem line_inj (hline : indexOf crlf line = none) (hline' : indexOf crlf line' = none)
    (h : line ++ (crlf ++ rest) = line' ++ (crlf ++ rest')) : line = line' ∧ rest = rest' := by
  have hs := splitLine_line hline rest
  rw [h, splitLine_line hline', Option.some.injEq, Prod.mk.injEq] at hs
  exact ⟨hs.1.symm, hs.2.symm⟩

def afterFirst : List QByteArray → QByteArray → QByteArray
  | [], body => crlf ++ body
  | l :: lines, body => headLines l lines ++ (crlf ++ (crlf ++ body))

theorem headLines_split (line : QByteArray) (lines : List QByteArray) (body : QByteArray) :
    headLines line lines ++ (crlf ++ (crlf ++ body)) =
      line ++ (crlf ++ afterFirst lines body) := by
  cases lines with
  | nil => rw [headLines_nil, afterFirst]
  | cons l lines => rw [headLines_cons, afterFirst, List.append_assoc, List.append_assoc]

theorem afterFirst_ne (hl : l ≠ [] ∧ indexOf crlf l = none) (lines : List QByteArray)
    (body body' : QByteArray) : crlf ++ body ≠ afterFirst (l :: lines) body' := by
  intro h
  have hnil : indexOf crlf [] = none := rfl
  rw [afterFirst, headLines_split, ← List.nil_append (crlf ++ body)] at h
  exact hl.1 (line_inj hnil hl.2 h).1.symm

theorem headLines_inj (hline : indexOf crlf line = none) (hline' : indexOf crlf line' = none)
    (hall : ∀ l ∈ lines, l ≠ [] ∧ indexOf crlf l = none)
    (hall' : ∀ l ∈ lines', l ≠ [] ∧ indexOf crlf l = none)
    (h : headLines line lines ++ (crlf ++ (crlf ++ body)) =
      headLines line' lines' ++ (crlf ++ (crlf ++ body'))) :
    line = line' ∧ lines = lines' ∧ body = body' := by
  induction lines generalizing line line' lines' with
  | nil =>
    rw [headLines_split, headLines_split] at h
    obtain ⟨hfirst, hrest⟩ := line_inj hline hline' h
    cases lines' with
    | nil => exact ⟨hfirst, rfl, List.append_cancel_left hrest⟩
    | cons l' lines' =>
      rw [List.forall_mem_cons] at hall'
      exact absurd hrest (afterFirst_ne hall'.1 lines' body body')
  | cons l lines ih =>
    rw [headLines_split, headLines_split] at h
    obtain ⟨hfirst, hrest⟩ := line_inj hline hline' h
    rw [List.forall_mem_cons] at hall
    cases lines' with
    | nil => exact absurd hrest.symm (afterFirst_ne hall.1 lines body' body)
    | cons l' lines' =>
      rw [List.forall_mem_cons] at hall'
      obtain ⟨hl, hls, hb⟩ := ih hall.1.2 hall'.1.2 hall.2 hall'.2 hrest
      rw [hl, hls]
      exact ⟨hfirst, rfl, hb⟩

theorem decimalDigits_length (n : Nat) : (decimalDigits n).length = (Nat.digits 10 n).length := by
  rw [decimalDigits, List.length_map, List.length_reverse]

theorem number_three_iff (n : Int) :
    ((QByteArray.number n).length = 3 ∧ isNumeral (fromLatin1 (QByteArray.number n)) = true) ↔
      100 ≤ n ∧ n ≤ 999 := by
  cases n with
  | negSucc n =>
    have hminus : isNumeral (fromLatin1 (QByteArray.number (.negSucc n))) = false := rfl
    rw [hminus]
    constructor
    · intro h
      cases h.2
    · intro h
      omega
  | ofNat n =>
    cases n with
    | zero => decide
    | succ n =>
      have hn : QByteArray.number (.ofNat (n + 1)) = decimalDigits (n + 1) := rfl
      have hlo : n + 1 < 10 ^ (Nat.digits 10 (n + 1)).length :=
        Nat.lt_base_pow_length_digits (by decide)
      have hhi : 10 ^ (Nat.digits 10 (n + 1)).length ≤ 10 * (n + 1) :=
        Nat.base_pow_length_digits_le 10 (n + 1) (by decide) (Nat.succ_ne_zero n)
      have hnum := (number_numeral (n + 1)).1
      rw [Int.ofNat_eq_natCast, hnum, ← Int.ofNat_eq_natCast, hn, decimalDigits_length]
      constructor
      · intro h
        rw [h.1] at hlo hhi
        simp only [Int.ofNat_eq_natCast]
        omega
      · intro h
        simp only [Int.ofNat_eq_natCast] at h
        refine ⟨?_, rfl⟩
        have hle : 3 ≤ (Nat.digits 10 (n + 1)).length := by
          by_contra hlt
          have := Nat.pow_le_pow_right (by decide : 0 < 10)
            (by omega : (Nat.digits 10 (n + 1)).length ≤ 2)
          omega
        have hge : (Nat.digits 10 (n + 1)).length ≤ 3 := by
          by_contra hlt
          have := Nat.pow_le_pow_right (by decide : 0 < 10)
            (by omega : 4 ≤ (Nat.digits 10 (n + 1)).length)
          omega
        omega

theorem number_chars (n : Int) (hc : c ∈ QByteArray.number n) :
    isDigit c.toUInt16 = true ∨ c = 0x2D := by
  have hdigits (n : Nat) (hc : c ∈ decimalDigits n) : isDigit c.toUInt16 = true :=
    isDigit_decimalDigits n c.toUInt16 (List.mem_map.2 ⟨c, hc, rfl⟩)
  cases n with
  | ofNat n =>
    cases n with
    | zero =>
      rw [List.mem_singleton.1 hc]
      exact .inl rfl
    | succ n => exact .inl (hdigits (n + 1) hc)
  | negSucc n =>
    rcases List.mem_append.1 hc with hc | hc
    · exact .inr (List.mem_singleton.1 hc)
    · exact .inl (hdigits (n + 1) hc)

theorem number_space (n : Int) : 0x20 ∉ QByteArray.number n := by
  intro hm
  rcases number_chars n hm with h | h
  · cases h
  · cases h

theorem number_lf (n : Int) : 0x0A ∉ QByteArray.number n := by
  intro hm
  rcases number_chars n hm with h | h
  · cases h
  · cases h

structure RelayableField (h : Header) : Prop extends ParsedField h where
  named : h.1 ≠ []
  token : ∀ c ∈ toLatin1 h.1, isTokenChar c = true
  clean : hasControlByte h.2 = false

theorem clean_toLatin1 (hs : hasControlByte s = false) (hc : c ∈ toLatin1 s) :
    c ≠ 0x0D ∧ c ≠ 0x0A ∧ c ≠ 0x00 := by
  obtain ⟨u, hu, he⟩ := List.mem_map.1 hc
  rw [hasControlByte, List.any_eq_false] at hs
  have hn := hs u hu
  simp only [Bool.or_eq_true, beq_iff_eq, not_or] at hn
  obtain ⟨⟨hcr, hlf⟩, hnul⟩ := hn
  rw [← he]
  refine ⟨?_, ?_, ?_⟩
  · intro h
    exact hcr ((toLatin1Char_eq_iff (by decide)).1 h)
  · intro h
    exact hlf ((toLatin1Char_eq_iff (by decide)).1 h)
  · intro h
    exact hnul ((toLatin1Char_eq_iff (by decide)).1 h)

theorem clean_of_toLatin1 (h : ∀ c ∈ toLatin1 s, c ≠ 0x0D ∧ c ≠ 0x0A ∧ c ≠ 0x00) :
    hasControlByte s = false := by
  rw [hasControlByte, List.any_eq_false]
  intro c hc
  have hclean := h (toLatin1Char c) (List.mem_map.2 ⟨c, hc, rfl⟩)
  simp only [Bool.or_eq_true, beq_iff_eq, not_or]
  refine ⟨⟨?_, ?_⟩, ?_⟩
  · intro he
    exact hclean.1 (by rw [he]; rfl)
  · intro he
    exact hclean.2.1 (by rw [he]; rfl)
  · intro he
    exact hclean.2.2 (by rw [he]; rfl)

theorem trimWith_toLatin1 (h : trimWith isOwsChar s = s) :
    trimWith isOws (toLatin1 s) = toLatin1 s := by
  rw [toLatin1, trimWith_map isOws_toLatin1Char, h]

def RelayableField.wire (h : RelayableField f) : WireField where
  name := toLatin1 f.1
  before := [0x20]
  value := toLatin1 f.2
  after := []
  named := by
    rw [toLatin1, ne_eq, List.map_eq_nil_iff]
    exact h.named
  token := h.token
  blankBefore := forall_mem_of_all (by decide)
  blankAfter := nil_blank
  trimmed := trimWith_toLatin1 h.valueTrimmed
  clean := fun _ hc => clean_toLatin1 h.clean hc

theorem RelayableField.wire_text (h : RelayableField f) : h.wire.text = fieldText f := by
  rw [WireField.text, fieldText]
  simp only [RelayableField.wire, List.append_nil]
  rfl

theorem RelayableField.wire_header (h : RelayableField f) : h.wire.header = f := by
  rw [WireField.header]
  simp only [RelayableField.wire, fromLatin1_toLatin1 h.nameLatin1,
    fromLatin1_toLatin1 h.valueLatin1]

theorem exists_wire (hall : ∀ f ∈ headers, RelayableField f) :
    ∃ fields : List WireField, fields.map WireField.text = headers.map fieldText ∧
      fields.map WireField.header = headers := by
  induction headers with
  | nil => exact ⟨[], rfl, rfl⟩
  | cons f headers ih =>
    rw [List.forall_mem_cons] at hall
    obtain ⟨fields, ht, hh⟩ := ih hall.2
    refine ⟨hall.1.wire :: fields, ?_, ?_⟩
    · rw [List.map_cons, List.map_cons, hall.1.wire_text, ht]
    · rw [List.map_cons, hall.1.wire_header, hh]

theorem ParsedField.of_text (h : ParsedField f) (w : WireField) (hw : w.text = fieldText f) :
    RelayableField f ∧ w.header = f := by
  have hcolon : 0x3A ∉ w.name := by
    intro hm
    exact (tokenChar_facts (w.token _ hm)).1 rfl
  have hcolon' : 0x3A ∉ toLatin1 f.1 := by
    intro hm
    obtain ⟨c, hc, he⟩ := List.mem_map.1 hm
    rw [(toLatin1Char_eq_iff (by decide)).1 he] at hc
    exact h.noColon hc
  have hlen : w.name.length = (toLatin1 f.1).length := by
    have hi : indexOf [0x3A] w.text = some w.name.length := indexOf_singleton hcolon _
    have hi' : indexOf [0x3A] (fieldText f) = some (toLatin1 f.1).length :=
      indexOf_singleton hcolon' _
    rw [hw, hi', Option.some.injEq] at hi
    exact hi.symm
  obtain ⟨hname, hrest⟩ := List.append_inj hw hlen
  have hvalue : w.value = toLatin1 f.2 := by
    have ht := trimWith_append w.blankBefore w.blankAfter w.trimmed
    have hblank : ∀ c ∈ ([0x20] : QByteArray), isOws c = true := forall_mem_of_all (by decide)
    have ht' := trimWith_append hblank (b := []) (fun _ hc => absurd hc List.not_mem_nil)
      (trimWith_toLatin1 h.valueTrimmed)
    rw [List.append_nil] at ht'
    rw [← ht, (List.cons.inj hrest).2]
    exact ht'
  refine ⟨⟨h, ?_, ?_, ?_⟩, ?_⟩
  · intro hnil
    apply w.named
    rw [hname, hnil]
    rfl
  · intro c hc
    rw [← hname] at hc
    exact w.token c hc
  · apply clean_of_toLatin1
    rw [← hvalue]
    exact w.clean
  · rw [WireField.header, hname, hvalue, fromLatin1_toLatin1 h.nameLatin1,
      fromLatin1_toLatin1 h.valueLatin1]

theorem of_texts (hall : ∀ f ∈ headers, ParsedField f) (fields : List WireField)
    (h : fields.map WireField.text = headers.map fieldText) :
    (∀ f ∈ headers, RelayableField f) ∧ fields.map WireField.header = headers := by
  induction headers generalizing fields with
  | nil =>
    rw [List.map_nil, List.map_eq_nil_iff] at h
    rw [h]
    exact ⟨fun _ hf => (nomatch hf), rfl⟩
  | cons f headers ih =>
    cases fields with
    | nil => cases h
    | cons w fields =>
      rw [List.forall_mem_cons] at hall
      rw [List.map_cons, List.map_cons, List.cons.injEq] at h
      obtain ⟨hf, hw⟩ := hall.1.of_text w h.1
      obtain ⟨hrest, hws⟩ := ih hall.2 fields h.2
      rw [List.forall_mem_cons, List.map_cons, hw, hws]
      exact ⟨⟨hf, hrest⟩, rfl⟩

theorem no_crlf_join (ha : indexOf crlf a = none) (hb : indexOf crlf b = none)
    (hcr : c ≠ 0x0D) (hlf : c ≠ 0x0A) : indexOf crlf (a ++ c :: b) = none := by
  apply indexOf_eq_none_iff.2
  intro i hi hp
  by_cases hlt : i < a.length
  · rw [List.drop_append_of_le_length (by omega), List.drop_eq_getElem_cons hlt,
      List.cons_append] at hp
    obtain ⟨u, hu⟩ := hp
    obtain ⟨hfirst, hrest⟩ := List.cons.inj hu
    cases hd : a.drop (i + 1) with
    | nil =>
      rw [hd] at hrest
      exact hlf (List.cons.inj hrest).1.symm
    | cons d ds =>
      rw [hd] at hrest
      apply indexOf_eq_none_iff.1 ha i (by omega)
      rw [List.drop_eq_getElem_cons hlt, hd, ← hfirst, ← (List.cons.inj hrest).1]
      exact ⟨ds, rfl⟩
  · have he : i = a.length + (i - a.length) := by omega
    rw [List.length_append, List.length_cons] at hi
    rw [he, ← List.drop_drop, List.drop_left] at hp
    cases hk : i - a.length with
    | zero =>
      rw [hk] at hp
      obtain ⟨u, hu⟩ := hp
      exact hcr (List.cons.inj hu).1.symm
    | succ k =>
      rw [hk] at hp
      exact indexOf_eq_none_iff.1 hb k (by omega) hp

theorem no_crlf_take (h : indexOf crlf s = none) (n : Nat) : indexOf crlf (s.take n) = none := by
  apply indexOf_eq_none_iff.2
  intro i hi hp
  rw [List.length_take] at hi
  apply indexOf_eq_none_iff.1 h i (by omega)
  rw [List.drop_take] at hp
  exact hp.trans (List.take_prefix _ _)

theorem no_crlf_drop (h : indexOf crlf s = none) (n : Nat) : indexOf crlf (s.drop n) = none := by
  apply indexOf_eq_none_iff.2
  intro i hi hp
  rw [List.drop_drop] at hp
  by_cases hle : n + i ≤ s.length
  · exact indexOf_eq_none_iff.1 h _ hle hp
  · rw [List.drop_of_length_le (by omega)] at hp
    exact absurd (List.eq_nil_of_prefix_nil hp) (by decide)

def OneLine (h : Header) : Prop := 0x0A ∉ h.1 ∧ 0x0A ∉ h.2

theorem lf_of_fromLatin1 (h : 0x0A ∈ fromLatin1 s) : 0x0A ∈ s := by
  obtain ⟨c, hc, he⟩ := List.mem_map.1 h
  have hl := congrArg toLatin1Char he
  rw [toLatin1Char_toUInt16] at hl
  rw [hl] at hc
  exact hc

theorem lf_of_fieldValue (h : 0x0A ∈ fieldValue s) : 0x0A ∈ s :=
  mem_of_mem_trimWith (lf_of_fromLatin1 h)

theorem lf_of_chopCr (h : 0x0A ∈ chopCr line) : 0x0A ∈ line := by
  rw [chopCr] at h
  split at h
  · exact List.mem_of_mem_dropLast h
  · exact h

theorem foldContinuation_oneLine (hall : ∀ h ∈ headers, OneLine h) (hcont : 0x0A ∉ cont) :
    ∀ h ∈ foldContinuation headers cont, OneLine h := by
  rw [foldContinuation]
  split
  · exact hall
  · rename_i last hlast
    have hl := hall last (List.mem_of_getLast? hlast)
    split
    · exact hall
    · intro h hh
      rcases List.mem_append.1 hh with hh | hh
      · exact hall h (List.mem_of_mem_dropLast hh)
      · rw [List.mem_singleton.1 hh]
        refine ⟨hl.1, ?_⟩
        dsimp only
        split
        · exact hcont
        · intro hm
          rcases List.mem_append.1 hm with hm | hm
          · exact hl.2 hm
          · cases hm with
            | tail _ hm => exact hcont hm

theorem parseLine_oneLine (hall : ∀ h ∈ headers, OneLine h) (hline : 0x0A ∉ line) :
    ∀ h ∈ parseLine headers line, OneLine h := by
  have hchop : 0x0A ∉ chopCr line := fun h => hline (lf_of_chopCr h)
  rw [parseLine]
  split
  · exact hall
  · split
    · exact foldContinuation_oneLine hall (fun h => hchop (lf_of_fieldValue h))
    · split
      · exact hall
      · split
        · exact hall
        · intro h hh
          rcases List.mem_append.1 hh with hh | hh
          · exact hall h hh
          · rw [List.mem_singleton.1 hh]
            refine ⟨?_, ?_⟩
            · intro hm
              exact hchop (List.mem_of_mem_take (lf_of_fromLatin1 (mem_of_mem_trimWith hm)))
            · intro hm
              exact hchop (List.mem_of_mem_drop (lf_of_fieldValue hm))

theorem parseHeaders_oneLine (headerBlock : QByteArray) :
    ∀ h ∈ parseHeaders headerBlock, OneLine h := by
  have hfold (lines : List QByteArray) (hlines : ∀ l ∈ lines, 0x0A ∉ l) (headers : List Header)
      (hall : ∀ h ∈ headers, OneLine h) : ∀ h ∈ lines.foldl parseLine headers, OneLine h := by
    induction lines generalizing headers with
    | nil => exact hall
    | cons line lines ih =>
      rw [List.forall_mem_cons] at hlines
      exact ih hlines.2 _ (parseLine_oneLine hall hlines.1)
  apply hfold
  · intro l hl
    exact not_mem_of_mem_splitOn (List.mem_of_mem_drop hl)
  · exact fun _ hh => (nomatch hh)

structure ParsedResponse (p : HttpResponse) : Prop where
  versionSpace : 0x20 ∉ toLatin1 p.httpVersion
  line : indexOf crlf (relayedLine p) = none
  reasonLatin1 : ∀ c ∈ p.reasonPhrase, c ≤ 0xFF
  parsed : ∀ h ∈ p.headers, ParsedField h
  oneLine : ∀ h ∈ p.headers, OneLine h

def statusLineOf (headerBlock : QByteArray) : QByteArray :=
  match indexOf crlf headerBlock with
  | some firstLineEnd => headerBlock.take firstLineEnd
  | none => []

theorem parseResponseHead_parsed (h : parseResponseHead headerBlock = some p) :
    ParsedResponse p := by
  rw [parseResponseHead] at h
  split at h
  · cases h
  · rename_i sp1 hsp1
    split at h
    · cases h
    · rename_i sp2 hsp2
      rw [Option.some.injEq] at h
      subst h
      have hline : indexOf crlf (statusLineOf headerBlock) = none := by
        rw [statusLineOf]
        cases he : indexOf crlf headerBlock with
        | none => rfl
        | some e =>
          dsimp only
          have hi : indexOf crlf (headerBlock.take e ++ headerBlock.drop e) = some e := by
            rw [List.take_append_drop]
            exact he
          rw [indexOf_of_append hi, if_neg]
          have h2 : crlf.length = 2 := rfl
          rw [List.length_take]
          omega
      refine ⟨?_, ?_, fromLatin1_le _, parseHeaders_parsed _, parseHeaders_oneLine _⟩
      · rw [toLatin1_fromLatin1]
        exact not_mem_take_indexOf hsp1
      · rw [relayedLine]
        dsimp only
        rw [toLatin1_fromLatin1, toLatin1_fromLatin1]
        have hnumber (n : Int) := indexOf_crlf_eq_none (number_lf n)
        exact no_crlf_join (no_crlf_take hline _)
          (no_crlf_join (hnumber _) (no_crlf_drop hline _) (by decide) (by decide)) (by decide)
          (by decide)

theorem readHeaderBlock_some (h : readHeaderBlock [] socket = some (buf, left)) :
    ∃ sep k, indexOf (crlf ++ crlf) socket.flatten = some sep ∧ ReadsHead socket (sep + 4) k ∧
      buf = socket.flatten.take k ∧ Advanced socket k left := by
  obtain ⟨he, sep, hsep⟩ := readHeaderBlock_prefix h
  have hblank : indexOf (crlf ++ crlf) ([] ++ socket.flatten) = some sep := by
    rw [← he]
    exact indexOf_append_right hsep _
  have hfit (c : Nat) (hc : IsCut socket c)
      (hover : kMaxHeaderBytes < ([] : QByteArray).length + c) :
      sep + 4 ≤ ([] : QByteArray).length + c := by
    by_contra hlt
    rw [readHeaderBlock_overflow hblank hc hover (by omega)] at h
    cases h
  obtain ⟨k, left', hread, hadv, hcut, hle, hfirst⟩ := readHeaderBlock_fits hblank hfit
  rw [h, Option.some.injEq, Prod.mk.injEq] at hread
  rw [List.length_nil] at hle hfirst
  refine ⟨sep, k, hblank, ⟨hcut, by omega, fun c hc hcle => hfirst c hc (by omega)⟩, hread.1, ?_⟩
  rw [hread.2]
  exact hadv

structure ReadResponse (socket : List QByteArray) (head resp : HttpResponse) : Prop where
  parsed : parseResponseHead (headerBlockOf socket) = some head
  same : resp = { head with body := resp.body }
  bodiless : isBodiless head.statusCode = true →
    (resp.body = [] ↔ IsCut socket ((headerBlockOf socket).length + 4))
  framed : isBodiless head.statusCode = false → isFramingSafe head.headers false = true ∧
    ∃ follow late, bodyOf head.headers follow late = some resp.body

theorem readResponse_some (h : readResponse socket = some (resp, left)) :
    ∃ head, ReadResponse socket head resp := by
  rw [readResponse] at h
  split at h
  · cases h
  · rename_i buf mid hread
    obtain ⟨sep, k, hsep, hk, hbuf, hadv⟩ := readHeaderBlock_some hread
    have hcomplete := hk.complete
    have hwithin := hadv.within
    have hblock : headerBlockOf socket = buf.take sep := by
      rw [headerBlockOf, hsep, Option.getD_some, hbuf, List.take_take, Nat.min_eq_left (by omega)]
    have hlen : (headerBlockOf socket).length = sep := by
      rw [headerBlockOf, hsep, Option.getD_some, List.length_take]
      omega
    have hsep' : indexOf (crlf ++ crlf) buf = some sep := by
      have hsplit : indexOf (crlf ++ crlf) (buf ++ socket.flatten.drop k) = some sep := by
        rw [hbuf, List.take_append_drop]
        exact hsep
      have h4 : (crlf ++ crlf).length = 4 := rfl
      rw [indexOf_of_append hsplit, hbuf, List.length_take, if_pos (by omega)]
    rw [hsep', Option.getD_some] at h
    dsimp only at h
    rw [← hblock] at h
    split at h
    · cases h
    · rename_i p hp
      split at h
      · rename_i hbodiless
        rw [Option.some.injEq, Prod.mk.injEq] at h
        obtain ⟨hr, _⟩ := h
        subst hr
        refine ⟨p, hp, rfl, ?_, fun hf => ?_⟩
        · intro _
          dsimp only
          rw [hlen, hbuf, List.drop_take]
          apply take_eq_nil_iff hk
          rw [List.length_drop]
          omega
        · cases hf.symm.trans hbodiless
      · rename_i hbodiless
        split at h
        · cases h
        · rename_i hsafe
          split at h
          · cases h
          · rename_i body left' hbody
            rw [Option.some.injEq, Prod.mk.injEq] at h
            obtain ⟨hr, _⟩ := h
            subst hr
            have hb := readResponseBody_eq p.headers (buf.drop (sep + 4)) mid
            rw [hbody] at hb
            rw [Bool.not_eq_true', Bool.not_eq_false] at hsafe
            exact ⟨p, hp, rfl, fun hf => absurd hf hbodiless, fun _ => ⟨hsafe, _, _, hb.symm⟩⟩

theorem framingLoop_sawTE (h : framingLoop isRequest headers sawTE cl = some (sawTE', cl')) :
    sawTE' = (sawTE || headers.any isTransferEncoding) := by
  induction headers generalizing sawTE cl with
  | nil =>
    cases h
    exact (Bool.or_false _).symm
  | cons f headers ih =>
    rw [framingLoop] at h
    rw [List.any_cons]
    split at h
    · cases h
    · split at h
      · rename_i hte
        have hf : isTransferEncoding f = true := hte
        split at h
        · cases h
        · split at h
          · cases h
          · rw [ih h, hf, Bool.true_or, Bool.or_true]
      · rename_i hte
        have hf : isTransferEncoding f = false := Bool.eq_false_iff.2 hte
        rw [hf, Bool.false_or]
        split at h
        · split at h
          · cases h
          · exact ih h
        · exact ih h

theorem uncoded_of_sized (hsafe : isFramingSafe headers isRequest = true)
    (hv : v ∈ contentLengths headers) (he : e ∈ splitSkipEmpty v) :
    headers.any isTransferEncoding = false := by
  rw [isFramingSafe] at hsafe
  cases hl : framingLoop isRequest headers false [] with
  | none =>
    rw [hl] at hsafe
    cases hsafe
  | some r =>
    obtain ⟨sawTE, cl⟩ := r
    have hte := framingLoop_sawTE hl
    have hne := ((framingLoop_spec hl).2 v hv e he).2.1
    rw [hl] at hsafe
    dsimp only at hsafe
    rw [List.isEmpty_eq_false_iff.2 hne, Bool.not_false, Bool.and_true, Bool.not_eq_true'] at hsafe
    rw [hsafe, Bool.false_or] at hte
    exact hte.symm

theorem isTransferEncoding_not_length (h : equalsIgnoreCase f.1 contentLengthName = true) :
    isTransferEncoding f = false :=
  equalsIgnoreCase_exclusive (by decide) h

theorem any_length_iff (headers : List Header) :
    headers.any (fun h => equalsIgnoreCase h.1 contentLengthName) = true ↔
      contentLengths headers ≠ [] := by
  rw [contentLengths, ne_eq, List.map_eq_nil_iff, List.filter_eq_nil_iff, List.any_eq_true]
  constructor
  · intro h hall
    obtain ⟨f, hf, he⟩ := h
    exact hall f hf he
  · intro h
    by_contra hn
    exact h (fun f hf he => hn ⟨f, hf, he⟩)

theorem relayed_lengths (resp : HttpResponse) :
    contentLengths (relayedHeaders resp) =
      if contentLengths resp.headers = [] then
        [fromLatin1 (QByteArray.number resp.body.length)]
      else contentLengths resp.headers := by
  have hkept : contentLengths (resp.headers.filter (fun h => !isTransferEncoding h)) =
      contentLengths resp.headers := by
    apply contentLengths_filter
    intro f hf
    rw [isTransferEncoding_not_length hf]
    rfl
  have happend (a b : List Header) :
      contentLengths (a ++ b) = contentLengths a ++ contentLengths b := by
    rw [contentLengths, List.filter_append, List.map_append]
    rfl
  rw [relayedHeaders, happend, hkept]
  by_cases hnil : contentLengths resp.headers = []
  · rw [if_pos hnil, if_neg, hnil]
    · rfl
    · rw [any_length_iff, hkept]
      exact not_not.2 hnil
  · rw [if_neg hnil, if_pos]
    · exact List.append_nil _
    · rw [any_length_iff, hkept]
      exact hnil

theorem relayed_uncoded (resp : HttpResponse) :
    (relayedHeaders resp).any isTransferEncoding = false := by
  rw [List.any_eq_false]
  intro f hf
  rw [Bool.not_eq_true]
  rcases List.mem_append.1 hf with hf | hf
  · have hkept := (List.mem_filter.1 hf).2
    rw [Bool.not_eq_true'] at hkept
    exact hkept
  · split at hf
    · cases hf
    · rw [List.mem_singleton.1 hf]
      rfl

theorem lengths_of_plain (hsafe : isFramingSafe headers false = true) (h : PlainLengths headers)
    (hne : contentLengths headers ≠ []) (hbody : bodyOf headers follow late = some body) :
    ∀ e ∈ lengthElements headers, numeralValue e = some body.length := by
  obtain ⟨cl, hcl⟩ := accepted_elements hsafe h.numerals
  cases hfirst : (contentLengths headers).head? with
  | none => exact absurd (List.head?_eq_none_iff.1 hfirst) hne
  | some v =>
    have hmem := List.mem_of_mem_head? hfirst
    obtain ⟨e, he⟩ := List.exists_mem_of_ne_nil _ (List.splitOn_ne_nil 0x2C v)
    have hnum := h.numerals v hmem e he
    obtain ⟨_, _, n, hn, hc⟩ := hcl v hmem e he
    have huncoded := uncoded_of_sized hsafe hmem (mem_splitSkipEmpty he hnum)
    have hread := requestBodyLength_plain h hfirst (fun e he => (hcl v hmem e he).1) hn hc
    have hempty : (findHeader headers contentLengthName).isEmpty = false := by
      rw [findHeader_contentLength, hfirst, Option.getD_some, List.isEmpty_eq_false_iff]
      intro hnil
      rw [hnil, List.splitOn_nil, List.mem_singleton] at he
      rw [he] at hnum
      cases hnum
    have hlength : body.length = n := by
      rw [requestBodyLength, ← contentLengthName, hempty, if_neg Bool.false_ne_true] at hread
      rw [bodyOf, isChunkedTransfer_iff hsafe, huncoded, hempty] at hbody
      simp only [Bool.false_eq_true, ↓reduceIte, hread, Int.toNat_natCast] at hbody
      split_ifs at hbody with _ hle
      rw [← Option.some.inj hbody, List.length_take]
      omega
    intro e he
    obtain ⟨w, hw, hmap⟩ := List.mem_flatMap.1 he
    obtain ⟨e', he', htrim⟩ := List.mem_map.1 hmap
    have hnum' := h.numerals w hw e' he'
    rw [(hcl w hw e' he').1] at htrim hnum'
    rw [← htrim, numeralValue, if_pos hnum', hn, hlength]

theorem plain_of_lengths (hsafe : isFramingSafe headers false = true)
    (hall : ∀ e ∈ lengthElements headers, numeralValue e = some body.length)
    (hbody : bodyOf headers follow late = some body) : PlainLengths headers := by
  have hnum (v : QString) (hv : v ∈ contentLengths headers) (e : QString)
      (he : e ∈ v.splitOn 0x2C) :
      isNumeral (trimWith isOwsChar e) = true ∧
        digitsFrom 10 0 (trimWith isOwsChar e) = some body.length :=
    numeralValue_eq_some (hall _ (List.mem_flatMap.2 ⟨v, hv, List.mem_map.2 ⟨e, he, rfl⟩⟩))
  refine ⟨fun v hv e he => (hnum v hv e he).1, ?_⟩
  intro v hfirst
  by_cases hcomma : 0x2C ∈ v
  · right
    intro e he c hc
    have hmem := List.mem_of_mem_head? hfirst
    obtain ⟨hn, hd⟩ := hnum v hmem e he
    have huncoded := uncoded_of_sized hsafe hmem (mem_splitSkipEmpty he hn)
    obtain ⟨hempty, hlength⟩ := firstLength_eq hsafe hfirst hall
    rw [bodyOf, isChunkedTransfer_iff hsafe, huncoded, findHeader_contentLength, hfirst,
      Option.getD_some, hempty, hlength] at hbody
    simp only [Bool.false_eq_true, ↓reduceIte, hcomma, Int.toNat_zero, List.take_zero] at hbody
    split_ifs at hbody
    rw [← Option.some.inj hbody, List.length_nil] at hd
    exact ((digitsFrom_eq_zero (isNumeral_iff.1 hn).2).1 hd).2 c hc
  · exact .inl hcomma

theorem space_inj {a a' b b' : QByteArray} (ha : 0x20 ∉ a) (ha' : 0x20 ∉ a')
    (h : a ++ 0x20 :: b = a' ++ 0x20 :: b') : a = a' ∧ b = b' := by
  have hi := indexOf_singleton ha b
  rw [h, indexOf_singleton ha' b', Option.some.injEq] at hi
  obtain ⟨he, hrest⟩ := List.append_inj h hi.symm
  exact ⟨he, (List.cons.inj hrest).2⟩

theorem endsAtHead_eq (n : Nat) : endsAtHead false n = isBodiless n := by
  rw [Bool.eq_iff_iff]
  simp only [endsAtHead, isBodiless, Bool.false_or, Bool.or_eq_true, Bool.and_eq_true, beq_iff_eq,
    decide_eq_true_eq]
  omega

theorem relayed_parsed (h : ParsedResponse resp) :
    ∀ f ∈ relayedHeaders resp, ParsedField f := by
  intro f hf
  rcases List.mem_append.1 hf with hf | hf
  · exact h.parsed f (List.mem_filter.1 hf).1
  · split at hf
    · cases hf
    · have hlatin : ∀ c ∈ contentLengthName, c ≤ 0xFF := forall_mem_of_all (by decide)
      have htrim : QString.trimmed contentLengthName = contentLengthName := by decide
      have hcolon : 0x3A ∉ contentLengthName := by decide
      rw [List.mem_singleton.1 hf]
      exact ⟨hlatin, fromLatin1_le _, htrim, hcolon, number_trimmed _⟩

theorem relayed_oneLine (h : ParsedResponse resp) :
    ∀ l ∈ (relayedHeaders resp).map fieldText, l ≠ [] ∧ indexOf crlf l = none := by
  intro l hl
  obtain ⟨f, hf, he⟩ := List.mem_map.1 hl
  have hone : OneLine f := by
    rcases List.mem_append.1 hf with hf | hf
    · exact h.oneLine f (List.mem_filter.1 hf).1
    · split at hf
      · cases hf
      · have hname : 0x0A ∉ contentLengthName := by decide
        rw [List.mem_singleton.1 hf]
        exact ⟨hname, fun hm => number_lf _ (lf_of_fromLatin1 hm)⟩
  have hlf (s : QString) (hs : 0x0A ∉ s) : 0x0A ∉ toLatin1 s := by
    intro hm
    obtain ⟨c, hc, hce⟩ := List.mem_map.1 hm
    rw [(toLatin1Char_eq_iff (by decide)).1 hce] at hc
    exact hs hc
  rw [← he]
  refine ⟨fieldText_ne_nil f, indexOf_crlf_eq_none ?_⟩
  intro hm
  rcases List.mem_append.1 hm with hm | hm
  · exact hlf _ hone.1 hm
  · rcases List.mem_append.1 hm with hm | hm
    · revert hm
      decide
    · exact hlf _ hone.2 hm

theorem ResponseHead.status_number (head : ResponseHead) {code : Int}
    (hcode : head.code = QByteArray.number code) (hpos : 0 ≤ code) :
    (head.status : Int) = code := by
  obtain ⟨n, hn⟩ := Int.eq_ofNat_of_zero_le hpos
  have hval := head.status_eq
  rw [hcode, hn, (number_numeral n).2, Option.some.injEq] at hval
  rw [hn, hval]

theorem ParsedResponse.of_bytes (h : ParsedResponse resp) (head : ResponseHead)
    (he : serializeResponse resp = head.bytes ++ follow) :
    PlainResponse resp ∧ head.headers = relayedHeaders resp ∧
      (head.status : Int) = resp.statusCode ∧ follow = resp.body := by
  have hhead : head.bytes ++ follow = headLines head.line (head.fields.map WireField.text) ++
      (crlf ++ (crlf ++ follow)) := by
    rw [ResponseHead.bytes, ResponseHead.block]
    simp only [List.append_assoc]
  have hwire : ∀ l ∈ head.fields.map WireField.text, l ≠ [] ∧ indexOf crlf l = none := by
    intro l hl
    have ht := wire_lines head.fields l hl
    exact ⟨ht.nonempty, indexOf_crlf_eq_none ht.noLf⟩
  rw [serializeResponse_eq, hhead] at he
  obtain ⟨hline, htexts, hbody⟩ := headLines_inj h.line (indexOf_crlf_eq_none head.line_lf)
    (relayed_oneLine h) hwire he
  obtain ⟨hfields, hheaders⟩ := of_texts (relayed_parsed h) head.fields htexts.symm
  obtain ⟨hversion, hrest⟩ := space_inj h.versionSpace head.version_space hline
  obtain ⟨hcode, hreason⟩ := space_inj (number_space _) head.code_space hrest
  have hstatus : 100 ≤ resp.statusCode ∧ resp.statusCode ≤ 999 := by
    apply (number_three_iff resp.statusCode).1
    rw [hcode]
    exact ⟨head.digits, head.numeral⟩
  refine ⟨⟨?_, hstatus, ?_, ?_⟩, hheaders, ?_, hbody.symm⟩
  · rw [hversion]
    exact head.versioned
  · apply clean_of_toLatin1
    rw [hreason]
    exact head.clean
  · intro f hf hte
    have hkept : f ∈ relayedHeaders resp := by
      apply List.mem_append_left
      apply List.mem_filter.2
      rw [hte]
      exact ⟨hf, rfl⟩
    have hr := hfields f hkept
    exact ⟨⟨hr.named, hr.token⟩, hr.clean⟩
  · exact head.status_number hcode.symm (by omega)

theorem number_clean (n : Nat) (hc : c ∈ QByteArray.number n) : c ≠ 0x0D ∧ c ≠ 0x0A ∧ c ≠ 0x00 := by
  have hd := numeral_bytes (number_numeral n).1 hc
  have hne (b : UInt8) (hb : b < 0x30) : c ≠ b := by
    intro he
    rw [he] at hd
    exact absurd hd.1 (UInt8.not_le.2 hb)
  exact ⟨hne _ (by decide), hne _ (by decide), hne _ (by decide)⟩

theorem relayedHeaders_relayable (h : ParsedResponse resp) (hplain : PlainResponse resp) :
    ∀ f ∈ relayedHeaders resp, RelayableField f := by
  intro f hf
  have hp := relayed_parsed h f hf
  rcases List.mem_append.1 hf with hf | hf
  · obtain ⟨hmem, hte⟩ := List.mem_filter.1 hf
    rw [Bool.not_eq_true'] at hte
    obtain ⟨⟨hnamed, htoken⟩, hclean⟩ := hplain.fields f hmem hte
    exact ⟨hp, hnamed, htoken, hclean⟩
  · split at hf
    · cases hf
    · have hnamed : contentLengthName ≠ [] := by decide
      have htoken : ∀ c ∈ toLatin1 contentLengthName, isTokenChar c = true :=
        forall_mem_of_all (by decide)
      rw [List.mem_singleton.1 hf] at hp ⊢
      refine ⟨hp, hnamed, htoken, clean_of_toLatin1 ?_⟩
      intro c hc
      dsimp only at hc
      rw [toLatin1_fromLatin1] at hc
      exact number_clean _ hc

theorem ParsedResponse.exists_head (h : ParsedResponse resp) (hplain : PlainResponse resp) :
    ∃ head : ResponseHead, serializeResponse resp = head.bytes ++ resp.body ∧
      head.headers = relayedHeaders resp ∧ (head.status : Int) = resp.statusCode := by
  have hall := relayedHeaders_relayable h hplain
  obtain ⟨fields, htexts, hheaders⟩ := exists_wire hall
  obtain ⟨hdigits, hnumeral⟩ := (number_three_iff resp.statusCode).2 hplain.status
  let head : ResponseHead :=
    { version := toLatin1 resp.httpVersion
      code := QByteArray.number resp.statusCode
      reason := toLatin1 resp.reasonPhrase
      fields := fields
      versioned := hplain.version
      digits := hdigits
      numeral := hnumeral
      clean := fun _ hc => clean_toLatin1 hplain.reason hc }
  refine ⟨head, ?_, hheaders, ?_⟩
  · rw [serializeResponse_eq, ResponseHead.bytes, ResponseHead.block, htexts]
    simp only [List.append_assoc]
    rfl
  · have hlo := hplain.status.1
    exact head.status_number rfl (by omega)

theorem MessageBody.lengths (h : MessageBody isHead status headers follow body rest)
    (hends : endsAtHead isHead status = false) (huncoded : headers.any isTransferEncoding = false)
    (hne : contentLengths headers ≠ []) :
    ∀ e ∈ lengthElements headers, numeralValue e = some body.length := by
  cases h with
  | none h =>
    rw [h] at hends
    cases hends
  | chunked _ _ h =>
    rw [transferEncoding_of_codings h] at huncoded
    cases huncoded
  | coded _ h _ =>
    rw [h] at huncoded
    cases huncoded
  | sized _ _ _ hall => exact hall
  | close _ _ h => exact absurd h hne

theorem MessageBody.whole (hends : endsAtHead isHead status = false)
    (huncoded : headers.any isTransferEncoding = false) (hne : contentLengths headers ≠ [])
    (hall : ∀ e ∈ lengthElements headers, numeralValue e = some body.length) :
    MessageBody isHead status headers body body [] := by
  have h : MessageBody isHead status headers (body ++ []) body [] := .sized hends huncoded hne hall
  rw [List.append_nil] at h
  exact h

theorem ReadResponse.headers_eq (r : ReadResponse socket head resp) :
    resp.headers = head.headers := by
  rw [r.same]

theorem ReadResponse.statusCode_eq (r : ReadResponse socket head resp) :
    resp.statusCode = head.statusCode := by
  rw [r.same]

theorem relayed_sized_iff (r : ReadResponse socket head resp)
    (hb : isBodiless head.statusCode = false) (hends : endsAtHead false status = false) :
    MessageBody false status (relayedHeaders resp) resp.body resp.body [] ↔
      PlainLengths head.headers := by
  obtain ⟨hsafe, follow, late, hbody⟩ := r.framed hb
  have hlengths := relayed_lengths resp
  have huncoded := relayed_uncoded resp
  rw [r.headers_eq] at hlengths
  by_cases hnil : contentLengths head.headers = []
  · rw [if_pos hnil] at hlengths
    constructor
    · intro _
      refine ⟨?_, ?_⟩
      · rw [hnil]
        exact fun _ hv => (nomatch hv)
      · rw [hnil]
        exact fun _ hv => (nomatch hv)
    · intro _
      apply MessageBody.whole hends huncoded
      · rw [hlengths]
        exact List.cons_ne_nil _ _
      · intro e he
        rw [lengthElements, hlengths] at he
        obtain ⟨v, hv, hmap⟩ := List.mem_flatMap.1 he
        obtain ⟨e', he', htrim⟩ := List.mem_map.1 hmap
        rw [List.mem_singleton.1 hv] at he'
        rw [← htrim]
        exact number_element _ he'
  · rw [if_neg hnil] at hlengths
    have helements : lengthElements (relayedHeaders resp) = lengthElements head.headers := by
      rw [lengthElements, hlengths, lengthElements]
    have hne : contentLengths (relayedHeaders resp) ≠ [] := by
      rw [hlengths]
      exact hnil
    constructor
    · intro h
      have hall := h.lengths hends huncoded hne
      rw [helements] at hall
      exact plain_of_lengths hsafe hall hbody
    · intro h
      apply MessageBody.whole hends huncoded hne
      rw [helements]
      exact lengths_of_plain hsafe h hnil hbody

theorem relayed_body_iff {status : Nat} (r : ReadResponse socket head resp)
    (hstatus : (status : Int) = resp.statusCode) :
    MessageBody false status (relayedHeaders resp) resp.body resp.body [] ↔
      if isBodiless head.statusCode then IsCut socket ((headerBlockOf socket).length + 4)
      else PlainLengths head.headers := by
  rw [r.statusCode_eq] at hstatus
  have hends : endsAtHead false status = isBodiless head.statusCode := by
    rw [endsAtHead_eq, hstatus]
  cases hb : isBodiless head.statusCode with
  | true =>
    rw [hb] at hends
    rw [if_pos rfl, ← r.bodiless hb]
    constructor
    · intro h
      exact h.body_nil hends
    · intro h
      rw [h]
      exact .none hends
  | false =>
    rw [hb] at hends
    rw [if_neg Bool.false_ne_true]
    exact relayed_sized_iff r hb hends

theorem ReadResponse.plain_iff (r : ReadResponse socket head resp) :
    PlainResponse resp ↔ PlainResponse head := by
  have hsame := r.same
  generalize resp.body = body at hsame
  subst hsame
  constructor
  · intro h
    exact ⟨h.version, h.status, h.reason, h.fields⟩
  · intro h
    exact ⟨h.version, h.status, h.reason, h.fields⟩

theorem ReadResponse.parsedResponse (r : ReadResponse socket head resp) : ParsedResponse resp := by
  have h := parseResponseHead_parsed r.parsed
  have hsame := r.same
  generalize resp.body = body at hsame
  subst hsame
  exact ⟨h.versionSpace, h.line, h.reasonLatin1, h.parsed, h.oneLine⟩

theorem relayed_response_iff (socket left : List QByteArray) (resp : HttpResponse)
    (hread : readResponse socket = some (resp, left)) (_h101 : resp.statusCode ≠ 101) :
    SelfDelimiting resp ↔
      ∃ head, parseResponseHead (headerBlockOf socket) = some head ∧ PlainResponse head ∧
        if isBodiless head.statusCode then IsCut socket ((headerBlockOf socket).length + 4)
        else PlainLengths head.headers := by
  obtain ⟨p, r⟩ := readResponse_some hread
  have hp := r.parsedResponse
  constructor
  · intro h
    obtain ⟨head, added, ⟨follow, hbytes, hbody⟩, _, _, _⟩ := h
    obtain ⟨hpl, hheaders, hstatus, hfollow⟩ := hp.of_bytes head hbytes
    rw [hheaders, hfollow] at hbody
    exact ⟨p, r.parsed, r.plain_iff.1 hpl, (relayed_body_iff r hstatus).1 hbody⟩
  · intro h
    obtain ⟨p', hparsed, hpl, hsuits⟩ := h
    rw [r.parsed, Option.some.injEq] at hparsed
    subst hparsed
    obtain ⟨head, hbytes, hheaders, hstatus⟩ := hp.exists_head (r.plain_iff.2 hpl)
    have hbody := (relayed_body_iff r hstatus).2 hsuits
    refine ⟨head, _, ⟨resp.body, hbytes, ?_⟩, hstatus, hheaders, ?_⟩
    · rw [hheaders]
      exact hbody
    · split
      · exact .inl rfl
      · exact .inr ⟨_, rfl⟩

theorem okHead_plain : PlainResponse (okHead.response []) := by
  refine ⟨by decide, by decide, by decide, ?_⟩
  intro h hh _
  rw [List.mem_singleton.1 hh]
  exact ⟨⟨by decide, forall_mem_of_all (by decide)⟩, by decide⟩

/-- A sized response, read in two segments, is relayed as one message. -/
theorem sizedAnswer_self_delimiting :
    readResponse [okHead.bytes ++ latin1 "h", latin1 "i"] =
        some (okHead.response (latin1 "hi"), []) ∧
      SelfDelimiting (okHead.response (latin1 "hi")) := by
  have hread : readResponse [okHead.bytes ++ latin1 "h", latin1 "i"] =
      some (okHead.response (latin1 "hi"), []) := by decide
  refine ⟨hread, (relayed_response_iff _ _ _ hread (by decide)).2 ?_⟩
  refine ⟨okHead.response [], by decide, okHead_plain, ?_⟩
  rw [if_neg (by decide)]
  exact ⟨by decide, by decide⟩

def noContentHead : ResponseHead :=
  smallHead "204" "No Content" "Age" "0" (by decide) (by decide) (by decide) (by decide)

/-- What is read with a head that ends its message is sent behind it. -/
theorem bytes_behind_no_content :
    readResponse [noContentHead.bytes ++ latin1 "HTTP"] =
        some (noContentHead.response (latin1 "HTTP"), []) ∧
      serializeResponse (noContentHead.response (latin1 "HTTP")) =
        latin1 "HTTP/1.1 204 No Content\r\nAge: 0\r\nContent-Length: 4\r\n\r\nHTTP" ∧
      ¬ SelfDelimiting (noContentHead.response (latin1 "HTTP")) := by
  refine ⟨by decide, by decide, ?_⟩
  intro h
  obtain ⟨head, added, ⟨follow, _, hbody⟩, hstatus, _⟩ := h
  have hcode : (noContentHead.response (latin1 "HTTP")).statusCode = 204 := by decide
  have hends : endsAtHead false head.status = true := by
    have hs : head.status = 204 := by
      rw [hcode] at hstatus
      omega
    rw [hs]
    rfl
  exact absurd (hbody.body_nil hends) (by decide)

end Nullock.Proxy

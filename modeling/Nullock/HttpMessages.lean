import Nullock.ChunkedSegmentation
import Nullock.HttpReading

namespace Nullock.Proxy
open HttpLogic

def isHttpVersion : QByteArray → Bool
  | [0x48, 0x54, 0x54, 0x50, 0x2F, major, 0x2E, minor] =>
    isDigit major.toUInt16 && isDigit minor.toUInt16
  | _ => false

structure ResponseHead where
  version : QByteArray
  code : QByteArray
  reason : QByteArray
  fields : List WireField
  versioned : isHttpVersion version = true
  digits : code.length = 3
  numeral : isNumeral (fromLatin1 code) = true
  clean : ∀ c ∈ reason, c ≠ 0x0D ∧ c ≠ 0x0A ∧ c ≠ 0x00

theorem isHttpVersion_visible (h : isHttpVersion v = true) (hc : c ∈ v) : 0x21 ≤ c ∧ c ≤ 0x7E := by
  have hdigit (d : UInt8) (hd : isDigit d.toUInt16 = true) : 0x21 ≤ d ∧ d ≤ 0x7E := by
    simp only [isDigit, Bool.and_eq_true, decide_eq_true_eq, UInt16.le_iff_toNat_le,
      UInt16.reduceToNat, UInt8.toNat_toUInt16] at hd
    simp only [UInt8.le_iff_toNat_le, UInt8.reduceToNat]
    omega
  rw [isHttpVersion.eq_def] at h
  split at h
  · rename_i major minor
    rw [Bool.and_eq_true] at h
    have hfixed : ∀ c ∈ latin1 "HTTP/.", 0x21 ≤ c ∧ c ≤ 0x7E :=
      forall_mem_of_all (by decide)
    have hsplit : c ∈ latin1 "HTTP/." ∨ c = major ∨ c = minor := by
      simp only [List.mem_cons, List.not_mem_nil, or_false] at hc
      rcases hc with hc | hc | hc | hc | hc | hc | hc | hc
      · exact .inl (hc ▸ by decide)
      · exact .inl (hc ▸ by decide)
      · exact .inl (hc ▸ by decide)
      · exact .inl (hc ▸ by decide)
      · exact .inl (hc ▸ by decide)
      · exact .inr (.inl hc)
      · exact .inl (hc ▸ by decide)
      · exact .inr (.inr hc)
    rcases hsplit with hc | hc | hc
    · exact hfixed c hc
    · rw [hc]
      exact hdigit major h.1
    · rw [hc]
      exact hdigit minor h.2
  · cases h

theorem digitsFrom_lt (h : digitsFrom base acc s = some n) : n < (acc + 1) * base ^ s.length := by
  induction s generalizing acc with
  | nil =>
    rw [digitsFrom, Option.some.injEq] at h
    rw [List.length_nil, Nat.pow_zero]
    omega
  | cons c s ih =>
    rw [digitsFrom] at h
    split at h
    · rename_i d _
      split at h
      · rename_i hd
        have hlt := ih h
        have hle : acc * base + d + 1 ≤ (acc + 1) * base := by
          rw [Nat.add_mul]
          omega
        have hmul := Nat.mul_le_mul_right (base ^ s.length) hle
        rw [List.length_cons, Nat.pow_succ', ← Nat.mul_assoc]
        omega
      · cases h
    · cases h

theorem digitsFrom_isSome (h : ∀ c ∈ s, isDigit c = true) (acc : Nat) :
    ∃ n, digitsFrom 10 acc s = some n := by
  induction s generalizing acc with
  | nil => exact ⟨acc, rfl⟩
  | cons c s ih =>
    rw [List.forall_mem_cons] at h
    rw [digitsFrom, digitValue_of_isDigit h.1]
    dsimp only
    rw [if_pos (digitValue_lt_of_isDigit h.1)]
    exact ih h.2 _

theorem numeral_bytes {s : QByteArray} (h : isNumeral (fromLatin1 s) = true) (hc : c ∈ s) :
    0x30 ≤ c ∧ c ≤ 0x39 := by
  have hd := (isNumeral_iff.1 h).2 c.toUInt16 (List.mem_map.2 ⟨c, hc, rfl⟩)
  simp only [isDigit, Bool.and_eq_true, decide_eq_true_eq, UInt16.le_iff_toNat_le,
    UInt16.reduceToNat, UInt8.toNat_toUInt16] at hd
  simp only [UInt8.le_iff_toNat_le, UInt8.reduceToNat]
  exact hd

theorem trimmed_numeral_bytes {s : QByteArray} (h : isNumeral (fromLatin1 s) = true) :
    QByteArray.trimmed s = s := by
  have hspace (c : UInt8) (hc : c ∈ s) : isAsciiSpace c = false := by
    have hd := numeral_bytes h hc
    simp only [UInt8.le_iff_toNat_le, UInt8.reduceToNat] at hd
    simp only [isAsciiSpace, Bool.or_eq_false_iff, Bool.and_eq_false_iff, beq_eq_false_iff_ne,
      decide_eq_false_iff_not, ne_eq, ← UInt8.toNat_inj, UInt8.le_iff_toNat_le, UInt8.reduceToNat]
    omega
  apply trimWith_eq_self
  · intro c hc
    exact hspace c (List.mem_of_mem_head? hc)
  · intro c hc
    exact hspace c (List.mem_of_getLast? hc)

theorem toInt_numeral (h : isNumeral (fromLatin1 s) = true)
    (hn : digitsFrom 10 0 (fromLatin1 s) = some n) (hlt : n < 2 ^ 31) :
    QByteArray.toInt s = n := by
  have hl : QByteArray.toLongLong s 10 = some (n : Int) := by
    rw [QByteArray.toLongLong, trimmed_numeral_bytes h, readLongLong_numeral h, hn]
    dsimp only
    rw [if_pos (by omega)]
  rw [QByteArray.toInt, hl]
  dsimp only
  rw [if_pos (by omega)]

namespace ResponseHead

def status (h : ResponseHead) : Nat := (digitsFrom 10 0 (fromLatin1 h.code)).getD 0

def line (h : ResponseHead) : QByteArray := h.version ++ 0x20 :: (h.code ++ 0x20 :: h.reason)

def headers (h : ResponseHead) : List Header := h.fields.map WireField.header

def block (h : ResponseHead) : QByteArray := headLines h.line (h.fields.map WireField.text)

def bytes (h : ResponseHead) : QByteArray := h.block ++ (crlf ++ crlf)

def response (h : ResponseHead) (body : QByteArray) : HttpResponse where
  httpVersion := fromLatin1 h.version
  statusCode := h.status
  reasonPhrase := fromLatin1 h.reason
  headers := h.headers
  body := body

theorem status_eq (h : ResponseHead) : digitsFrom 10 0 (fromLatin1 h.code) = some h.status := by
  obtain ⟨n, hn⟩ := digitsFrom_isSome (isNumeral_iff.1 h.numeral).2 0
  rw [status, hn]
  rfl

theorem status_lt (h : ResponseHead) : h.status < 1000 := by
  have hlt := digitsFrom_lt h.status_eq
  have hlen : (fromLatin1 h.code).length = 3 := by rw [fromLatin1, List.length_map, h.digits]
  rw [hlen] at hlt
  exact hlt

theorem toInt_code (h : ResponseHead) : QByteArray.toInt h.code = h.status := by
  have hlt := h.status_lt
  exact toInt_numeral h.numeral h.status_eq (by omega)

theorem version_space (h : ResponseHead) : 0x20 ∉ h.version := by
  intro hm
  exact absurd (isHttpVersion_visible h.versioned hm).1 (by decide)

theorem code_space (h : ResponseHead) : 0x20 ∉ h.code := by
  intro hm
  exact absurd (numeral_bytes h.numeral hm).1 (by decide)

theorem line_clean (h : ResponseHead) (hd : d = 0x0D ∨ d = 0x0A ∨ d = 0x00) : d ∉ h.line := by
  have hlow : ¬ 0x20 ≤ d := by
    rcases hd with hd | hd | hd
    · rw [hd]
      decide
    · rw [hd]
      decide
    · rw [hd]
      decide
  have hversion : d ∉ h.version := by
    intro hm
    exact hlow (UInt8.le_trans (by decide) (isHttpVersion_visible h.versioned hm).1)
  have hcode : d ∉ h.code := by
    intro hm
    exact hlow (UInt8.le_trans (by decide) (numeral_bytes h.numeral hm).1)
  have hreason : d ∉ h.reason := by
    intro hm
    obtain ⟨h1, h2, h3⟩ := h.clean d hm
    rcases hd with hd | hd | hd
    · exact h1 hd
    · exact h2 hd
    · exact h3 hd
  have hspace : d ≠ 0x20 := by
    intro he
    rw [he] at hlow
    exact hlow (by decide)
  simp only [line, List.mem_append, List.mem_cons, hversion, hspace, hcode, hreason, or_self,
    not_false_eq_true]

theorem line_lf (h : ResponseHead) : 0x0A ∉ h.line := h.line_clean (.inr (.inl rfl))

theorem bytes_length (h : ResponseHead) : h.bytes.length = h.block.length + 4 := by
  rw [bytes, List.length_append]
  rfl

theorem blank (h : ResponseHead) (rest : QByteArray) :
    indexOf (crlf ++ crlf) (h.bytes ++ rest) = some h.block.length := by
  have hi := indexOf_blank_headLines h.line_lf (wire_lines h.fields) rest
  rw [← block] at hi
  rw [← hi, bytes]
  simp only [List.append_assoc]

theorem parse_block (h : ResponseHead) :
    parseResponseHead h.block = if h.fields = [] then none else some (h.response []) := by
  have hheaders : parseHeaders h.block = h.headers := parseHeaders_wire h.line_lf h.fields
  cases hf : h.fields with
  | nil =>
    have hblock : h.block = h.line := by rw [block, hf, List.map_nil, headLines_nil]
    rw [parseResponseHead, hblock, indexOf_crlf_eq_none h.line_lf]
    rfl
  | cons f fields =>
    have hline : indexOf crlf h.block = some h.line.length := by
      rw [block, hf, List.map_cons, headLines_cons]
      exact indexOf_crlf_line h.line_lf _
    have htake : h.block.take h.line.length = h.line := by
      rw [block, headLines, List.take_left]
    have hsp1 : indexOf (latin1 " ") h.line = some h.version.length :=
      indexOf_singleton h.version_space _
    have hdrop : h.line.drop (h.version.length + 1) = h.code ++ 0x20 :: h.reason := by
      rw [line, ← List.drop_drop, List.drop_left]
      rfl
    have hsp2 : indexOfFrom (latin1 " ") h.line (h.version.length + 1) =
        some (h.version.length + 1 + h.code.length) := by
      rw [indexOfFrom, hdrop]
      exact congrArg (Option.map (h.version.length + 1 + ·)) (indexOf_singleton h.code_space _)
    have hcode : (h.line.drop (h.version.length + 1)).take
        (h.version.length + 1 + h.code.length - h.version.length - 1) = h.code := by
      have hn : h.version.length + 1 + h.code.length - h.version.length - 1 = h.code.length := by
        omega
      rw [hn, hdrop, List.take_left]
    have hversion : h.line.take h.version.length = h.version := by rw [line, List.take_left]
    have hreason : h.line.drop (h.version.length + 1 + h.code.length + 1) = h.reason := by
      rw [Nat.add_assoc (h.version.length + 1), ← List.drop_drop, hdrop, ← List.drop_drop,
        List.drop_left]
      rfl
    rw [parseResponseHead, hline]
    dsimp only
    rw [htake, hsp1]
    dsimp only
    rw [hsp2]
    dsimp only
    rw [hcode, hversion, hreason, hheaders, h.toInt_code, if_neg (List.cons_ne_nil f fields)]
    rfl

end ResponseHead

def isInterim (status : Nat) : Bool := 100 ≤ status && status < 200 && status != 101

def endsAtHead (isHead : Bool) (status : Nat) : Bool :=
  isHead || (100 ≤ status && status < 200) || status == 204 || status == 304

def isTransferEncoding (h : Header) : Bool := equalsIgnoreCase h.1 (utf16 "Transfer-Encoding")

def transferCodings (headers : List Header) : List QString :=
  (headers.filter isTransferEncoding).flatMap
    (fun h => (splitSkipEmpty h.2).map (trimWith isOwsChar))

def lengthElements (headers : List Header) : List QString :=
  (contentLengths headers).flatMap (fun v => (v.splitOn 0x2C).map (trimWith isOwsChar))

def numeralValue (s : QString) : Option Nat := if isNumeral s then digitsFrom 10 0 s else none

theorem number_trimmed (n : Nat) :
    trimWith isOwsChar (fromLatin1 (QByteArray.number n)) = fromLatin1 (QByteArray.number n) := by
  have hows (c : UInt16) (hc : c ∈ fromLatin1 (QByteArray.number n)) : isOwsChar c = false := by
    have hd := (isNumeral_iff.1 (number_numeral n).1).2 c hc
    rw [isDigit, Bool.and_eq_true, decide_eq_true_eq, decide_eq_true_eq] at hd
    rw [isOwsChar, Bool.or_eq_false_iff, beq_eq_false_iff_ne, beq_eq_false_iff_ne]
    constructor
    · intro he
      rw [he] at hd
      exact absurd hd.1 (by decide)
    · intro he
      rw [he] at hd
      exact absurd hd.1 (by decide)
  apply trimWith_eq_self
  · intro c hc
    exact hows c (List.mem_of_mem_head? hc)
  · intro c hc
    exact hows c (List.mem_of_getLast? hc)

theorem number_element (n : Nat) (he : e ∈ (fromLatin1 (QByteArray.number n)).splitOn 0x2C) :
    numeralValue (trimWith isOwsChar e) = some n := by
  obtain ⟨hnum, hval⟩ := number_numeral n
  have hcomma : 0x2C ∉ fromLatin1 (QByteArray.number n) := by
    intro hm
    cases (isNumeral_iff.1 hnum).2 _ hm
  rw [List.splitOn_eq_singleton hcomma, List.mem_singleton] at he
  rw [he, number_trimmed, numeralValue, if_pos hnum, hval]

/-- What belongs to the message of the bytes that follow the head up to the close. -/
inductive MessageBody (isHead : Bool) (status : Nat) (headers : List Header) :
    QByteArray → QByteArray → QByteArray → Prop where
  | none : endsAtHead isHead status = true → MessageBody isHead status headers follow [] follow
  | chunked (b : ChunkedBody) : endsAtHead isHead status = false →
      (transferCodings headers).getLast?.any (equalsIgnoreCase · (utf16 "chunked")) = true →
      MessageBody isHead status headers (b.bytes ++ rest) b.decoded rest
  | coded : endsAtHead isHead status = false → headers.any isTransferEncoding = true →
      (transferCodings headers).getLast?.any (equalsIgnoreCase · (utf16 "chunked")) = false →
      MessageBody isHead status headers body body []
  | sized : endsAtHead isHead status = false → headers.any isTransferEncoding = false →
      contentLengths headers ≠ [] →
      (∀ e ∈ lengthElements headers, numeralValue e = some body.length) →
      MessageBody isHead status headers (body ++ rest) body rest
  | close : endsAtHead isHead status = false → headers.any isTransferEncoding = false →
      contentLengths headers = [] → MessageBody isHead status headers body body []

end Nullock.Proxy

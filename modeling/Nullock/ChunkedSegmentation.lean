import Nullock.Resumable
import Nullock.ChunkedAgreement

namespace Nullock

theorem splitLine_append (h : splitLine s = some (line, rest)) (ys : QByteArray) :
    splitLine (s ++ ys) = some (line, rest ++ ys) := by
  obtain ⟨hi, he⟩ := splitLine_eq h
  have hlen := (indexOf_split hi).2
  have h2 : crlf.length = 2 := rfl
  rw [h2] at hlen
  rw [splitLine_of_indexOf (indexOf_append_right hi ys), List.take_append_of_le_length (by omega),
    List.drop_append_of_le_length hlen]
  rw [splitLine_of_indexOf hi, Option.some.injEq, Prod.mk.injEq] at h
  rw [h.1, h.2]

theorem splitLine_length (h : splitLine s = some (line, rest)) :
    s.length = line.length + 2 + rest.length := by
  have he := congrArg List.length (splitLine_eq h).2
  have h2 : crlf.length = 2 := rfl
  simp only [List.length_append, h2] at he
  omega

theorem splitLine_drop (h : splitLine s = some (line, rest)) :
    s.drop line.length = crlf ++ rest := by
  have he := (splitLine_eq h).2
  rw [he, List.drop_left]

theorem indexOf_eq_none_of_splitLine (h : splitLine s = none) : indexOf crlf s = none := by
  rw [splitLine, Option.map_eq_none_iff] at h
  exact h

def HttpLogic.ChunkResult.verdict : HttpLogic.ChunkResult → Verdict
  | .complete => .done
  | .needMore => .more
  | .error => .fail

def NetworkingLogic.ChunkDecode.verdict : NetworkingLogic.ChunkDecode → Verdict
  | .done => .done
  | .needMore => .more
  | .error => .fail

/-- `decodeChunkedAvailable` on a buffer that grows between the calls. -/
def availableReader : Reader UInt8 QByteArray := fun buffer decoded =>
  let r := HttpLogic.decodeChunkedAvailable buffer decoded
  (r.1.verdict, r.2.1, r.2.2)

/-- `feedChunked` on a buffer that grows between the calls. -/
def strictReader : Reader UInt8 QByteArray := fun buffer decoded =>
  let r := NetworkingLogic.feedChunked buffer decoded
  (r.1.verdict, r.2.1, r.2.2)

theorem availableReader_none (h : splitLine s = none) (decoded : QByteArray) :
    availableReader s decoded = (.more, s, decoded) := by
  have hd : HttpLogic.decodeChunkedAvailable s decoded = (.needMore, s, decoded) := by
    rw [HttpLogic.decodeChunkedAvailable]
    split
    · rfl
    · rename_i hi
      rw [indexOf_eq_none_of_splitLine h] at hi
      cases hi
  rw [availableReader, hd]
  rfl

open HttpLogic in
theorem availableReader_line (hl : splitLine s = some (line, s')) (decoded : QByteArray) :
    availableReader s decoded =
      match QByteArray.toLongLong (QByteArray.trimmed (beforeExtension line)) 16 with
      | none => (.fail, s, decoded)
      | some size =>
        if size < 0 ∨ (kMaxChunkBytes : Int) < size then (.fail, s, decoded)
        else if size.toNat = 0 then
          match indexOf (crlf ++ crlf) (crlf ++ s') with
          | none => (.more, s, decoded)
          | some stop => (.done, (crlf ++ s').drop (stop + 4), decoded)
        else if kMaxDecodedBytes < decoded.length + size.toNat then (.fail, s, decoded)
        else if s'.length < size.toNat + 2 then (.more, s, decoded)
        else if (s'.drop size.toNat).take 2 ≠ crlf then
          (.fail, s', decoded ++ s'.take size.toNat)
        else availableReader (s'.drop (size.toNat + 2)) (decoded ++ s'.take size.toNat) := by
  rw [availableReader, decodeChunkedAvailable_line hl]
  have hlen := splitLine_length hl
  cases QByteArray.toLongLong (QByteArray.trimmed (beforeExtension line)) 16 with
  | none => rfl
  | some size =>
    dsimp only
    have hshort : s.length < line.length + 2 + size.toNat + 2 ↔ s'.length < size.toNat + 2 := by
      omega
    simp only [hshort, indexOfFrom, splitLine_drop hl]
    split_ifs with h1 h2 h3 h4 h5
    · rfl
    · cases indexOf (crlf ++ crlf) (crlf ++ s') with
      | none => rfl
      | some stop =>
        simp only [Option.map_some]
        rw [Nat.add_assoc, ← List.drop_drop, splitLine_drop hl]
        rfl
    · rfl
    · rfl
    · rfl
    · rfl

theorem take_two_append (h : n + 2 ≤ s.length) (ys : QByteArray) :
    ((s ++ ys).drop n).take 2 = (s.drop n).take 2 := by
  rw [List.drop_append_of_le_length (by omega), List.take_append_of_le_length]
  rw [List.length_drop]
  omega

theorem drop_shorter (h : splitLine s = some (line, s')) (n : Nat) :
    (s'.drop n).length < s.length := by
  have hlen := splitLine_length h
  rw [List.length_drop]
  omega

open HttpLogic in
theorem availableReader_append (s decoded ys : QByteArray) :
    availableReader (s ++ ys) decoded =
      match availableReader s decoded with
      | (.more, rest, decoded') => availableReader (rest ++ ys) decoded'
      | (.done, rest, decoded') => (.done, rest ++ ys, decoded')
      | (.fail, rest, decoded') => (.fail, rest ++ ys, decoded') := by
  induction hn : s.length using Nat.strongRecOn generalizing s decoded with
  | _ l ih =>
    subst hn
    cases hl : splitLine s with
    | none => rw [availableReader_none hl]
    | some p =>
      obtain ⟨line, s'⟩ := p
      have hl' := splitLine_append hl ys
      rw [availableReader_line hl]
      cases hsize : QByteArray.toLongLong (QByteArray.trimmed (beforeExtension line)) 16 with
      | none => rw [availableReader_line hl', hsize]
      | some size =>
        dsimp only
        split_ifs with hbad hzero htotal hshort hterm
        · rw [availableReader_line hl', hsize]
          exact if_pos hbad
        · cases hi : indexOf (crlf ++ crlf) (crlf ++ s') with
          | none => rfl
          | some stop =>
            have hi' := indexOf_append_right hi ys
            have hlen : stop + 4 ≤ (crlf ++ s').length := (indexOf_split hi).2
            rw [availableReader_line hl', hsize]
            dsimp only
            rw [if_neg hbad, if_pos hzero, ← List.append_assoc, hi']
            dsimp only
            rw [List.drop_append_of_le_length hlen]
        · rw [availableReader_line hl', hsize]
          dsimp only
          rw [if_neg hbad, if_neg hzero, if_pos htotal]
        · rfl
        · have hlen : ¬ (s' ++ ys).length < size.toNat + 2 := by
            rw [List.length_append]
            omega
          rw [availableReader_line hl', hsize]
          dsimp only
          rw [if_neg hbad, if_neg hzero, if_neg htotal, if_neg hlen,
            take_two_append (by omega), if_pos hterm, List.take_append_of_le_length (by omega)]
        · have hlen : ¬ (s' ++ ys).length < size.toNat + 2 := by
            rw [List.length_append]
            omega
          rw [availableReader_line hl', hsize]
          dsimp only
          rw [if_neg hbad, if_neg hzero, if_neg htotal, if_neg hlen,
            take_two_append (by omega), if_neg hterm, List.take_append_of_le_length (by omega),
            List.drop_append_of_le_length (by omega)]
          exact ih _ (drop_shorter hl _) _ _ rfl

theorem availableReader_resumable : Resumable availableReader where
  more_append h ys := by rw [availableReader_append, h]
  done_append h ys := by rw [availableReader_append, h]

theorem availableReader_fail (h : (availableReader s decoded).1 = .fail) (ys : QByteArray) :
    (availableReader (s ++ ys) decoded).1 = .fail := by
  rw [availableReader_append]
  cases hr : availableReader s decoded with
  | mk v r =>
    rw [hr] at h
    cases h
    rfl

theorem splitLine_line (h : indexOf crlf line = none) (rest : QByteArray) :
    splitLine (line ++ (crlf ++ rest)) = some (line, rest) := by
  have hi : indexOf crlf (line ++ (crlf ++ rest)) = some line.length := by
    have hnone := indexOf_eq_none_iff.1 h
    apply indexOf_eq_some_iff.2
    rw [List.drop_left, List.length_append]
    refine ⟨List.prefix_append .., by omega, ?_⟩
    intro j hj hp
    rw [List.drop_append_of_le_length (by omega)] at hp
    by_cases hlast : j + 2 ≤ line.length
    · apply hnone j (by omega)
      apply List.prefix_of_prefix_length_le hp (List.prefix_append ..)
      rw [List.length_drop]
      exact Nat.le_sub_of_add_le' hlast
    · have hone : (line.drop j).length = 1 := by
        rw [List.length_drop]
        omega
      obtain ⟨c, hc⟩ := List.length_eq_one_iff.1 hone
      obtain ⟨t, ht⟩ := hp
      rw [hc] at ht
      cases ht
  rw [splitLine_of_indexOf hi, List.take_left, ← List.drop_drop, List.drop_left]
  rfl

structure ChunkLine where
  digits : QByteArray
  extension : QByteArray
  size : Nat
  nonempty : digits ≠ []
  hex : ∀ c ∈ digits, NetworkingLogic.isHexDigit c = true
  value : digitsFrom 16 0 (fromLatin1 digits) = some size
  extended : extension = [] ∨
    ∃ blank text, extension = blank ++ 0x3B :: text ∧ ∀ c ∈ blank, c = 0x20 ∨ c = 0x09
  oneLine : indexOf crlf extension = none

def ChunkLine.bytes (l : ChunkLine) : QByteArray := l.digits ++ l.extension

structure WireChunk where
  line : ChunkLine
  data : QByteArray
  nonempty : data ≠ []
  sized : line.size = data.length

def WireChunk.bytes (c : WireChunk) : QByteArray :=
  c.line.bytes ++ (crlf ++ (c.data ++ crlf))

structure ChunkedBody where
  chunks : List WireChunk
  last : ChunkLine
  trailer : List QByteArray
  lastSize : last.size = 0
  fields : ∀ l ∈ trailer, l ≠ [] ∧ indexOf crlf l = none

def trailerBytes (trailer : List QByteArray) : QByteArray :=
  trailer.flatMap (· ++ crlf) ++ crlf

def ChunkedBody.bytes (b : ChunkedBody) : QByteArray :=
  b.chunks.flatMap WireChunk.bytes ++ (b.last.bytes ++ (crlf ++ trailerBytes b.trailer))

def ChunkedBody.decoded (b : ChunkedBody) : QByteArray := b.chunks.flatMap WireChunk.data

structure ChunkedBody.Admitted (b : ChunkedBody) : Prop where
  chunk : ∀ c ∈ b.chunks, c.data.length ≤ HttpLogic.kMaxChunkBytes
  total : b.decoded.length ≤ HttpLogic.kMaxDecodedBytes

theorem hexDigit_cases (h : NetworkingLogic.isHexDigit c = true) :
    isAsciiSpace c = false ∧ c ≠ 0x0D ∧ c ≠ 0x3B ∧ c ≠ 0x2B ∧ c ≠ 0x2D ∧ c ≠ 0x78 ∧ c ≠ 0x58 := by
  simp only [NetworkingLogic.isHexDigit, Bool.or_eq_true, Bool.and_eq_true, decide_eq_true_eq,
    UInt8.le_iff_toNat_le, UInt8.reduceToNat] at h
  simp only [isAsciiSpace, Bool.or_eq_false_iff, Bool.and_eq_false_iff, beq_eq_false_iff_ne,
    decide_eq_false_iff_not, ne_eq, ← UInt8.toNat_inj, UInt8.le_iff_toNat_le, UInt8.reduceToNat]
  omega

theorem ChunkLine.trimmed_digits (l : ChunkLine) : QByteArray.trimmed l.digits = l.digits := by
  apply trimWith_eq_self
  · intro c hc
    exact (hexDigit_cases (l.hex c (List.mem_of_mem_head? hc))).1
  · intro c hc
    exact (hexDigit_cases (l.hex c (List.mem_of_getLast? hc))).1

theorem ChunkLine.oneLine_bytes (l : ChunkLine) : indexOf crlf l.bytes = none := by
  apply indexOf_eq_none_iff.2
  intro i hi hp
  by_cases hd : i < l.digits.length
  · rw [ChunkLine.bytes, List.drop_append_of_le_length (by omega),
      List.drop_eq_getElem_cons hd] at hp
    obtain ⟨t, ht⟩ := hp
    rw [List.cons_append] at ht
    injection ht with hc _
    exact (hexDigit_cases (l.hex _ (List.getElem_mem hd))).2.1 hc.symm
  · have he : i = l.digits.length + (i - l.digits.length) := by omega
    rw [ChunkLine.bytes, List.length_append] at hi
    rw [ChunkLine.bytes, he, ← List.drop_drop, List.drop_left] at hp
    exact indexOf_eq_none_iff.1 l.oneLine _ (by omega) hp

theorem ChunkLine.size_text (l : ChunkLine) :
    QByteArray.trimmed (beforeExtension l.bytes) = l.digits := by
  have hsemi : (0x3B : UInt8) ∉ l.digits := by
    intro hm
    exact (hexDigit_cases (l.hex _ hm)).2.2.1 rfl
  have hlit : latin1 ";" = [0x3B] := rfl
  rcases l.extended with he | ⟨blank, text, he, hb⟩
  · have hnone : indexOf (latin1 ";") l.bytes = none := by
      rw [ChunkLine.bytes, he, List.append_nil, hlit]
      apply indexOf_eq_none_iff.2
      intro i _ hp
      exact hsemi (List.mem_of_mem_drop (hp.subset (List.mem_singleton.2 rfl)))
    rw [beforeExtension, hnone, ChunkLine.bytes, he, List.append_nil]
    exact l.trimmed_digits
  · have hpre : (0x3B : UInt8) ∉ l.digits ++ blank := by
      rw [List.mem_append, not_or]
      refine ⟨hsemi, ?_⟩
      intro hm
      rcases hb _ hm with h | h
      · cases h
      · cases h
    have hsome : indexOf (latin1 ";") l.bytes = some (l.digits ++ blank).length := by
      rw [ChunkLine.bytes, he, ← List.append_assoc, hlit]
      exact indexOf_singleton hpre text
    have htake : l.bytes.take (l.digits ++ blank).length = l.digits ++ blank := by
      rw [ChunkLine.bytes, he, ← List.append_assoc, List.take_left]
    rw [beforeExtension, hsome]
    dsimp only
    rw [htake]
    have ht := l.trimmed_digits
    rw [QByteArray.trimmed] at ht ⊢
    have ha := trimWith_append (p := isAsciiSpace) (a := []) (b := blank)
      (fun _ hc => nomatch hc) ?_ ht
    · exact ha
    · intro c hc
      rcases hb c hc with h | h
      · rw [h]
        rfl
      · rw [h]
        rfl

theorem fromLatin1_head_ne (h : ∀ c ∈ s, c ≠ d) : (fromLatin1 s).head? ≠ some d.toUInt16 := by
  intro hh
  rw [fromLatin1, List.head?_map, Option.map_eq_some_iff] at hh
  obtain ⟨c, hc, he⟩ := hh
  have hd := congrArg toLatin1Char he
  rw [toLatin1Char_toUInt16, toLatin1Char_toUInt16] at hd
  exact h c (List.mem_of_mem_head? hc) hd

theorem ChunkLine.toLongLong (l : ChunkLine) :
    QByteArray.toLongLong l.digits 16 =
      if (l.size : Int) < 2 ^ 63 then some (l.size : Int) else none := by
  have hd (c : UInt8) (hc : c ∈ l.digits) := hexDigit_cases (l.hex c hc)
  have hminus : (fromLatin1 l.digits).head? ≠ some 0x2D :=
    fromLatin1_head_ne (d := 0x2D) (fun c hc => (hd c hc).2.2.2.2.1)
  have hplus : (fromLatin1 l.digits).head? ≠ some 0x2B :=
    fromLatin1_head_ne (d := 0x2B) (fun c hc => (hd c hc).2.2.2.1)
  have hprefix : dropHexPrefix (fromLatin1 l.digits) = fromLatin1 l.digits := by
    have hx (d : UInt8) (hne : ∀ c ∈ l.digits, c ≠ d) :
        (fromLatin1 l.digits).take 2 ≠ [0x30, d.toUInt16] := by
      intro ht
      have hm : d.toUInt16 ∈ fromLatin1 l.digits := by
        apply List.mem_of_mem_take (i := 2)
        rw [ht]
        exact List.mem_cons_of_mem _ (List.mem_singleton.2 rfl)
      obtain ⟨c, hc, he⟩ := List.mem_map.1 hm
      have hd' := congrArg toLatin1Char he
      rw [toLatin1Char_toUInt16, toLatin1Char_toUInt16] at hd'
      exact hne c hc hd'
    have h1 := hx 0x78 (fun c hc => (hd c hc).2.2.2.2.2.1)
    have h2 := hx 0x58 (fun c hc => (hd c hc).2.2.2.2.2.2)
    rw [dropHexPrefix, if_neg]
    intro h
    exact h.elim h1 h2
  have hne : (fromLatin1 l.digits).isEmpty = false := by
    rw [List.isEmpty_eq_false_iff, fromLatin1, ne_eq, List.map_eq_nil_iff]
    exact l.nonempty
  have hneg : ((fromLatin1 l.digits).head? == some 0x2D) = false := beq_eq_false_iff_ne.2 hminus
  rw [QByteArray.toLongLong, l.trimmed_digits]
  simp only [readLongLong, hneg, hplus, Bool.false_eq_true, or_self, ↓reduceIte, hprefix, hne,
    l.value]
  by_cases hs : (l.size : Int) < 2 ^ 63
  · rw [if_pos hs, if_pos ⟨by omega, hs⟩]
  · rw [if_neg hs, if_neg (fun h => hs h.2)]

theorem ChunkLine.parse (l : ChunkLine) (hs : l.size ≤ NetworkingLogic.kMaxBodyBytes) :
    NetworkingLogic.parseChunkSizeLine l.bytes = some l.size := by
  have hmax : NetworkingLogic.kMaxBodyBytes < 2 ^ 63 := by decide
  have hhex : l.digits.all NetworkingLogic.isHexDigit = true := List.all_eq_true.2 l.hex
  have hne : l.digits.isEmpty = false := List.isEmpty_eq_false_iff.2 l.nonempty
  simp only [NetworkingLogic.parseChunkSizeLine, l.size_text, hhex, hne, Bool.not_true,
    Bool.or_self, Bool.false_eq_true, ↓reduceIte, l.toLongLong]
  rw [if_pos (by omega)]
  dsimp only
  rw [if_neg (by omega), Int.toNat_natCast]

theorem trailer_of_fields (h : ∀ l ∈ trailer, l ≠ [] ∧ indexOf crlf l = none)
    (suffix : QByteArray) : Trailer (trailerBytes trailer ++ suffix) suffix := by
  induction trailer with
  | nil =>
    have hnil : indexOf crlf [] = none := rfl
    exact .stop (splitLine_line hnil suffix)
  | cons l trailer ih =>
    obtain ⟨hne, hl⟩ := h l List.mem_cons_self
    have hsplit : trailerBytes (l :: trailer) ++ suffix =
        l ++ (crlf ++ (trailerBytes trailer ++ suffix)) := by
      simp only [trailerBytes, List.flatMap_cons, List.append_assoc]
    rw [hsplit]
    exact .field (splitLine_line hl _) hne (ih (fun l hl => h l (List.mem_cons_of_mem _ hl)))

theorem ChunkedBody.chunked (b : ChunkedBody)
    (h : ∀ c ∈ b.chunks, c.data.length ≤ HttpLogic.kMaxChunkBytes) (suffix : QByteArray) :
    Chunked (b.bytes ++ suffix) (b.chunks.map WireChunk.data) suffix := by
  obtain ⟨chunks, last, trailer, hlast, hfields⟩ := b
  have hmax : HttpLogic.kMaxChunkBytes ≤ NetworkingLogic.kMaxBodyBytes := by decide
  dsimp only at h ⊢
  induction chunks with
  | nil =>
    have hsplit : (ChunkedBody.mk [] last trailer hlast hfields).bytes ++ suffix =
        last.bytes ++ (crlf ++ (trailerBytes trailer ++ suffix)) := by
      simp only [ChunkedBody.bytes, List.flatMap_nil, List.nil_append, List.append_assoc]
    rw [hsplit]
    refine .last (splitLine_line last.oneLine_bytes _) ?_ (trailer_of_fields hfields suffix)
    rw [last.parse (by omega), hlast]
  | cons c chunks ih =>
    have hc := h c List.mem_cons_self
    have hsplit : (ChunkedBody.mk (c :: chunks) last trailer hlast hfields).bytes ++ suffix =
        c.line.bytes ++ (crlf ++ (c.data ++ (crlf ++
          ((ChunkedBody.mk chunks last trailer hlast hfields).bytes ++ suffix)))) := by
      simp only [ChunkedBody.bytes, WireChunk.bytes, List.flatMap_cons, List.append_assoc]
    have hs := c.sized
    rw [hsplit, List.map_cons]
    refine .chunk (splitLine_line c.line.oneLine_bytes _) ?_ c.nonempty
      (ih (fun c hc => h c (List.mem_cons_of_mem _ hc)))
    rw [c.line.parse (by omega), hs]

theorem availableReader_nil : availableReader [] [] = (.more, [], []) :=
  availableReader_none rfl []

theorem ChunkedBody.available (b : ChunkedBody) (h : b.Admitted) (suffix : QByteArray) :
    availableReader (b.bytes ++ suffix) [] = (.done, suffix, b.decoded) := by
  have hflat : (b.chunks.map WireChunk.data).flatten = b.decoded := rfl
  have hsmall : ∀ c ∈ b.chunks.map WireChunk.data, c.length ≤ HttpLogic.kMaxChunkBytes := by
    intro c hc
    obtain ⟨w, hw, he⟩ := List.mem_map.1 hc
    rw [← he]
    exact h.chunk w hw
  have htotal : ([] : QByteArray).length + (b.chunks.map WireChunk.data).flatten.length ≤
      HttpLogic.kMaxDecodedBytes := by
    rw [hflat, List.length_nil, Nat.zero_add]
    exact h.total
  have hd := (b.chunked h.chunk suffix).decode hsmall htotal
  rw [availableReader, hd, hflat]
  rfl

theorem WireChunk.small_of_done (c : WireChunk)
    (h : (availableReader (c.bytes ++ rest) decoded).1 = .done) :
    c.data.length ≤ HttpLogic.kMaxChunkBytes ∧
      decoded.length + c.data.length ≤ HttpLogic.kMaxDecodedBytes ∧
      (availableReader rest (decoded ++ c.data)).1 = .done := by
  have hsplit : c.bytes ++ rest =
      c.line.bytes ++ (crlf ++ (c.data ++ (crlf ++ rest))) := by
    simp only [WireChunk.bytes, List.append_assoc]
  have hpos : c.data.length ≠ 0 := fun h0 => c.nonempty (List.length_eq_zero_iff.1 h0)
  rw [hsplit, availableReader_line (splitLine_line c.line.oneLine_bytes _), c.line.size_text,
    c.line.toLongLong, c.sized] at h
  by_cases hfit : (c.data.length : Int) < 2 ^ 63
  · have hshort : ¬ (c.data ++ (crlf ++ rest)).length < c.data.length + 2 := by
      have h2 : crlf.length = 2 := rfl
      rw [List.length_append, List.length_append]
      omega
    have hterm : ((c.data ++ (crlf ++ rest)).drop c.data.length).take 2 = crlf := by
      rw [List.drop_left]
      rfl
    have hdrop : (c.data ++ (crlf ++ rest)).drop (c.data.length + 2) = rest := by
      rw [← List.drop_drop, List.drop_left]
      rfl
    rw [if_pos hfit] at h
    dsimp only at h
    rw [Int.toNat_natCast, if_neg hpos, if_neg hshort, hterm, if_neg (not_not.2 rfl), hdrop,
      List.take_left] at h
    split_ifs at h with h1 h2
    · exact ⟨by omega, by omega, h⟩
  · rw [if_neg hfit] at h
    cases h

theorem chunks_small_of_done (chunks : List WireChunk)
    (hd : decoded.length ≤ HttpLogic.kMaxDecodedBytes)
    (h : (availableReader (chunks.flatMap WireChunk.bytes ++ rest) decoded).1 = .done) :
    (∀ c ∈ chunks, c.data.length ≤ HttpLogic.kMaxChunkBytes) ∧
      decoded.length + (chunks.flatMap WireChunk.data).length ≤ HttpLogic.kMaxDecodedBytes := by
  induction chunks generalizing decoded with
  | nil => exact ⟨fun _ hc => (nomatch hc), hd⟩
  | cons c chunks ih =>
    rw [List.flatMap_cons, List.append_assoc] at h
    obtain ⟨hsmall, htotal, hrest⟩ := c.small_of_done h
    have hlen : (decoded ++ c.data).length = decoded.length + c.data.length := List.length_append
    obtain ⟨hall, hsum⟩ := ih (by omega) hrest
    rw [List.forall_mem_cons, List.flatMap_cons, List.length_append]
    exact ⟨⟨hsmall, hall⟩, by omega⟩

theorem ChunkedBody.done_iff (b : ChunkedBody) (rest : QByteArray) :
    (∃ left, availableReader (b.bytes ++ rest) [] = (.done, left, b.decoded)) ↔ b.Admitted := by
  constructor
  · intro h
    obtain ⟨left, h⟩ := h
    have hdone : (availableReader (b.chunks.flatMap WireChunk.bytes ++
        (b.last.bytes ++ (crlf ++ trailerBytes b.trailer) ++ rest)) []).1 = .done := by
      rw [← List.append_assoc]
      exact congrArg Prod.fst h
    obtain ⟨hall, hsum⟩ := chunks_small_of_done b.chunks (Nat.zero_le _) hdone
    rw [List.length_nil, Nat.zero_add] at hsum
    exact ⟨hall, hsum⟩
  · intro h
    exact ⟨rest, b.available h rest⟩

theorem ChunkedBody.decoded_lt (b : ChunkedBody) : b.decoded.length < b.bytes.length := by
  have hchunks (chunks : List WireChunk) :
      (chunks.flatMap WireChunk.data).length ≤ (chunks.flatMap WireChunk.bytes).length := by
    induction chunks with
    | nil => exact Nat.le_refl _
    | cons c chunks ih =>
      simp only [List.flatMap_cons, List.length_append, WireChunk.bytes]
      omega
  have h := hchunks b.chunks
  have h2 : crlf.length = 2 := rfl
  simp only [ChunkedBody.decoded, ChunkedBody.bytes, List.length_append]
  omega

theorem availableReader_done_lt (s : QByteArray)
    (h : availableReader s decoded = (.done, rest, decoded')) :
    decoded'.length < decoded.length + s.length := by
  induction hn : s.length using Nat.strongRecOn generalizing s decoded with
  | _ l ih =>
    subst hn
    cases hl : splitLine s with
    | none =>
      rw [availableReader_none hl] at h
      cases h
    | some p =>
      obtain ⟨line, s'⟩ := p
      have hlen := splitLine_length hl
      rw [availableReader_line hl] at h
      cases hsize : QByteArray.toLongLong (QByteArray.trimmed (beforeExtension line)) 16 with
      | none =>
        rw [hsize] at h
        cases h
      | some size =>
        rw [hsize] at h
        dsimp only at h
        split_ifs at h
        · cases h
        · cases hi : indexOf (crlf ++ crlf) (crlf ++ s') with
          | none =>
            rw [hi] at h
            cases h
          | some stop =>
            rw [hi] at h
            cases h
            omega
        · cases h
        · cases h
        · cases h
        · have hlt := ih _ (drop_shorter hl _) _ h rfl
          rw [List.length_append, List.length_take, List.length_drop] at hlt
          omega

theorem available_verdict (pieces : List QByteArray) :
    (feedPieces availableReader [] [] pieces).verdict =
      (availableReader pieces.flatten []).1 := by
  apply (availableReader_resumable.verdict_iff availableReader_nil pieces).2
  intro n hn
  have hsplit : pieces.flatten = (pieces.take n).flatten ++ (pieces.drop n).flatten := by
    rw [← List.flatten_append, List.take_append_drop]
  rw [List.nil_append, hsplit]
  exact availableReader_fail hn _

/-- However an encoded body arrives, the decoder finishes with its chunks. -/
theorem available_segmentation :
    (∀ (b : ChunkedBody) (suffix : QByteArray) (pieces : List QByteArray), b.Admitted →
      pieces.flatten = b.bytes ++ suffix →
      let r := feedPieces availableReader [] [] pieces
      r.verdict = .done ∧ r.state = b.decoded ∧ r.buffer ++ r.unread.flatten = suffix) ∧
    ∀ pieces pieces' : List QByteArray, pieces.flatten = pieces'.flatten →
      ((feedPieces availableReader [] [] pieces).verdict = .fail ↔
        (feedPieces availableReader [] [] pieces').verdict = .fail) := by
  constructor
  · intro b suffix pieces hb hp r
    have hw := b.available hb suffix
    have hv := available_verdict pieces
    rw [hp, hw] at hv
    have he := availableReader_resumable.feedPieces_eq availableReader_nil pieces
      (by rw [hv]; nofun)
    rw [List.nil_append, hp, hw, Prod.mk.injEq, Prod.mk.injEq] at he
    exact ⟨hv, he.2.2.symm, he.2.1.symm⟩
  · intro pieces pieces' hp
    rw [available_verdict, available_verdict, hp]

def smallBody : ChunkedBody where
  chunks := [{
    line := {
      digits := latin1 "2"
      extension := latin1 " ;x"
      size := 2
      nonempty := by decide
      hex := forall_mem_of_all (by decide)
      value := by decide
      extended := .inr ⟨latin1 " ", latin1 "x", rfl, forall_mem_of_all (by decide)⟩
      oneLine := by decide }
    data := latin1 "hi"
    nonempty := by decide
    sized := rfl }]
  last := {
    digits := latin1 "00"
    extension := []
    size := 0
    nonempty := by decide
    hex := forall_mem_of_all (by decide)
    value := by decide
    extended := .inl rfl
    oneLine := by decide }
  trailer := [latin1 "A: 1"]
  lastSize := rfl
  fields := by decide

/-- The cuts fall in a line end, in the data and in the trailer. -/
theorem available_segmentation_smallBody :
    let r := feedPieces availableReader [] []
      [latin1 "2 ;x\r", latin1 "\nh", latin1 "i\r\n00\r\nA:", latin1 " 1\r\n\r\nHT", latin1 "TP"]
    r.verdict = .done ∧ r.state = latin1 "hi" ∧ r.buffer ++ r.unread.flatten = latin1 "HTTP" :=
  available_segmentation.1 smallBody (latin1 "HTTP") _ ⟨by decide, by decide⟩ (by decide)

end Nullock

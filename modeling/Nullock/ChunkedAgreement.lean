import Nullock.ChunkedDecoders

namespace Nullock

def splitLine (s : QByteArray) : Option (QByteArray × QByteArray) :=
  (indexOf crlf s).map (fun i => (s.take i, s.drop (i + 2)))

theorem splitLine_eq (h : splitLine s = some (line, rest)) :
    indexOf crlf s = some line.length ∧ s = line ++ (crlf ++ rest) := by
  rw [splitLine, Option.map_eq_some_iff] at h
  obtain ⟨i, hi, he⟩ := h
  obtain ⟨hs, hl⟩ := indexOf_split hi
  have h2 : crlf.length = 2 := rfl
  rw [h2] at hs hl
  cases he
  rw [List.length_take, Nat.min_eq_left (by omega)]
  exact ⟨hi, hs⟩

theorem splitLine_take (h : splitLine s = some (line, rest)) : s.take line.length = line := by
  rw [(splitLine_eq h).2, List.take_left]

theorem splitLine_behind (h : splitLine s = some (line, rest)) (m : Nat) :
    s.drop (line.length + 2 + m) = rest.drop m := by
  have hrest : s.drop (line.length + 2) = rest := by
    rw [(splitLine_eq h).2, ← List.drop_drop, List.drop_left]
    rfl
  rw [← List.drop_drop, hrest]

inductive Trailer : QByteArray → QByteArray → Prop where
  | stop : splitLine s = some ([], rest) → Trailer s rest
  | field : splitLine s = some (line, s') → line ≠ [] → Trailer s' rest → Trailer s rest

inductive Chunked : QByteArray → List QByteArray → QByteArray → Prop where
  | last : splitLine s = some (line, s') → NetworkingLogic.parseChunkSizeLine line = some 0 →
      Trailer s' rest → Chunked s [] rest
  | chunk : splitLine s = some (line, data ++ (crlf ++ s')) →
      NetworkingLogic.parseChunkSizeLine line = some data.length → data ≠ [] →
      Chunked s' chunks rest → Chunked s (data :: chunks) rest

theorem splitLine_of_indexOf (h : indexOf crlf s = some i) :
    splitLine s = some (s.take i, s.drop (i + 2)) := by rw [splitLine, h, Option.map_some]

theorem splitLine_of_indexOfFrom (h : indexOfFrom crlf s pos = some e) :
    splitLine (s.drop pos) = some ((s.drop pos).take (e - pos), s.drop (e + 2)) := by
  have hb := indexOfFrom_bounds h
  rw [indexOfFrom, Option.map_eq_some_iff] at h
  obtain ⟨i, hi, he⟩ := h
  have hk : e - pos = i := by omega
  have hd : pos + (i + 2) = e + 2 := by omega
  rw [splitLine_of_indexOf hi, hk, List.drop_drop, hd]

theorem scanTrailer_sound (h : NetworkingLogic.scanTrailer buffer pos n = (.done, rest)) :
    Trailer (buffer.drop pos) rest := by
  fun_induction NetworkingLogic.scanTrailer buffer pos n with
  | case1 pos n hi =>
    split at h
    · cases h
    · cases h
  | case2 n e hi =>
    cases h
    have hs := splitLine_of_indexOfFrom hi
    rw [Nat.sub_self, List.take_zero] at hs
    exact .stop hs
  | case3 => cases h
  | case4 => cases h
  | case5 pos n e hi hne _ _ _ ih =>
    have hb := indexOfFrom_bounds hi
    refine .field (splitLine_of_indexOfFrom hi) ?_ (ih h)
    intro hnil
    have hl := congrArg List.length hnil
    rw [List.length_take, List.length_drop, List.length_nil] at hl
    omega

theorem chunkData_split (h : (s.drop n).take 2 = crlf) :
    s = s.take n ++ (crlf ++ s.drop (n + 2)) := by
  rw [← h, ← List.drop_drop, List.take_append_drop, List.take_append_drop]

theorem feedChunked_sound (h : NetworkingLogic.feedChunked buffer decoded = (.done, rest, body)) :
    ∃ chunks, Chunked buffer chunks rest ∧ body = decoded ++ chunks.flatten := by
  fun_induction NetworkingLogic.feedChunked buffer decoded with
  | case1 buffer decoded hi =>
    split at h
    · cases h
    · cases h
  | case2 => cases h
  | case3 => cases h
  | case4 => cases h
  | case5 buffer decoded i hi _ r hp _ =>
    rw [Prod.mk.injEq, Prod.mk.injEq] at h
    have hr : NetworkingLogic.scanTrailer buffer (i + 2) 0 = (.done, rest) := Prod.ext h.1 h.2.1
    refine ⟨[], .last (splitLine_of_indexOf hi) hp (scanTrailer_sound hr), ?_⟩
    rw [List.flatten_nil, List.append_nil]
    exact h.2.2.symm
  | case6 => cases h
  | case7 => cases h
  | case8 buffer decoded i hi _ size hp _ hne hlen hterm ih =>
    obtain ⟨chunks, hc, hb⟩ := ih h
    have hterm' : ((buffer.drop (i + 2)).drop size).take 2 = crlf := by
      rw [List.drop_drop]
      exact not_not.1 hterm
    have hsplit := chunkData_split hterm'
    have hdata : ((buffer.drop (i + 2)).take size).length = size := by
      rw [List.length_take, List.length_drop]
      omega
    have hs := splitLine_of_indexOf hi
    rw [hsplit, List.drop_drop] at hs
    refine ⟨(buffer.drop (i + 2)).take size :: chunks, .chunk hs ?_ ?_ hc, ?_⟩
    · rw [hdata]
      exact hp
    · intro hnil
      rw [hnil] at hdata
      exact hne hdata.symm
    · rw [hb, List.flatten_cons, List.append_assoc]

theorem Trailer.blankLine (h : Trailer s rest) :
    ∃ k, indexOf (crlf ++ crlf) (crlf ++ s) = some k ∧ (crlf ++ s).drop (k + 4) = rest := by
  induction h with
  | stop hs =>
    obtain ⟨_, he⟩ := splitLine_eq hs
    subst he
    exact ⟨0, indexOf_front (crlf ++ crlf) _, rfl⟩
  | @field s line s' rest hs hne _ ih =>
    obtain ⟨k, hk, hr⟩ := ih
    obtain ⟨hi, he⟩ := splitLine_eq hs
    have hmin := (indexOf_eq_some_iff.1 hi).2.2
    have hpos : 0 < line.length := List.length_pos_of_ne_nil hne
    have hpre : crlf ++ s = (crlf ++ line) ++ (crlf ++ s') := by
      rw [he, List.append_assoc]
    have hlen : (crlf ++ line).length = line.length + 2 := by
      rw [List.length_append]
      exact Nat.add_comm ..
    refine ⟨(crlf ++ line).length + k, ?_, ?_⟩
    · rw [hpre, indexOf_append, hk, Option.map_some]
      intro j hj hp
      rw [← hpre] at hp
      match j with
      | 0 => exact hmin 0 hpos ((List.prefix_append_right_inj crlf).1 hp)
      | 1 =>
        obtain ⟨t, ht⟩ := hp
        cases ht
      | j + 2 =>
        have hd : (crlf ++ s).drop (j + 2) = s.drop j := rfl
        rw [hd] at hp
        exact hmin j (by omega) ((List.prefix_append crlf crlf).trans hp)
    · rw [hpre, Nat.add_assoc, ← List.drop_drop, List.drop_left]
      exact hr

theorem toLongLong_of_strict (h : NetworkingLogic.parseChunkSizeLine line = some n) :
    QByteArray.toLongLong (QByteArray.trimmed (beforeExtension line)) 16 = some (n : Int) := by
  rw [NetworkingLogic.parseChunkSizeLine] at h
  split at h
  · cases h
  · cases hl : QByteArray.toLongLong (QByteArray.trimmed (beforeExtension line)) 16 with
    | none => rw [hl] at h; cases h
    | some sz =>
      rw [hl] at h
      dsimp only at h
      split at h
      · cases h
      · cases h
        rw [Int.toNat_of_nonneg (by omega)]

open HttpLogic in
theorem decodeChunkedAvailable_line (hl : splitLine s = some (line, s')) (decoded : QByteArray) :
    decodeChunkedAvailable s decoded =
      match QByteArray.toLongLong (QByteArray.trimmed (beforeExtension line)) 16 with
      | none => (.error, s, decoded)
      | some size =>
        if size < 0 ∨ (kMaxChunkBytes : Int) < size then (.error, s, decoded)
        else if size.toNat = 0 then
          match indexOfFrom (crlf ++ crlf) s line.length with
          | none => (.needMore, s, decoded)
          | some stop => (.complete, s.drop (stop + 4), decoded)
        else if kMaxDecodedBytes < decoded.length + size.toNat then (.error, s, decoded)
        else if s.length < line.length + 2 + size.toNat + 2 then (.needMore, s, decoded)
        else if (s'.drop size.toNat).take 2 ≠ crlf then
          (.error, s', decoded ++ s'.take size.toNat)
        else
          decodeChunkedAvailable (s'.drop (size.toNat + 2)) (decoded ++ s'.take size.toNat) := by
  have hi := (splitLine_eq hl).1
  have hline := splitLine_take hl
  have hrest : s.drop (line.length + 2) = s' := splitLine_behind hl 0
  have hdrop := splitLine_behind hl
  rw [decodeChunkedAvailable]
  split
  · rename_i hn
    rw [hi] at hn
    cases hn
  · rename_i i hi'
    cases hi.symm.trans hi'
    rw [hline]
    cases QByteArray.toLongLong (QByteArray.trimmed (beforeExtension line)) 16 with
    | none => rfl
    | some size =>
      dsimp only
      rewrite [hrest, ← hdrop size.toNat, ← hdrop (size.toNat + 2)]
      rfl

open HttpLogic in
theorem decodeChunkedAvailable_round (hl : splitLine s = some (line, s'))
    (hp : NetworkingLogic.parseChunkSizeLine line = some n) (decoded : QByteArray) :
    decodeChunkedAvailable s decoded =
      if kMaxChunkBytes < n then (.error, s, decoded)
      else if n = 0 then
        match indexOfFrom (crlf ++ crlf) s line.length with
        | none => (.needMore, s, decoded)
        | some stop => (.complete, s.drop (stop + 4), decoded)
      else if kMaxDecodedBytes < decoded.length + n then (.error, s, decoded)
      else if s.length < line.length + 2 + n + 2 then (.needMore, s, decoded)
      else if (s'.drop n).take 2 ≠ crlf then (.error, s', decoded ++ s'.take n)
      else decodeChunkedAvailable (s'.drop (n + 2)) (decoded ++ s'.take n) := by
  rw [decodeChunkedAvailable_line hl, toLongLong_of_strict hp]
  simp only [Int.toNat_natCast]
  by_cases hbig : kMaxChunkBytes < n
  · rw [if_pos hbig, if_pos (by omega)]
  · have hsize : ¬ ((n : Int) < 0 ∨ (kMaxChunkBytes : Int) < n) := by omega
    exact (if_neg hsize).trans (if_neg hbig).symm

open HttpLogic in
theorem Chunked.decode_last (hl : splitLine s = some (line, s'))
    (hp : NetworkingLogic.parseChunkSizeLine line = some 0) (ht : Trailer s' rest)
    (decoded : QByteArray) : decodeChunkedAvailable s decoded = (.complete, rest, decoded) := by
  obtain ⟨k, hk, hr⟩ := ht.blankLine
  have he := (splitLine_eq hl).2
  have hd : s.drop line.length = crlf ++ s' := by rw [he, List.drop_left]
  rw [decodeChunkedAvailable_round hl hp, if_neg (Nat.not_lt_zero _), if_pos rfl, indexOfFrom, hd,
    hk, Option.map_some]
  dsimp only
  rw [Nat.add_assoc, ← List.drop_drop, hd, hr]

open HttpLogic in
theorem Chunked.decode_chunk (hl : splitLine s = some (line, data ++ (crlf ++ s')))
    (hp : NetworkingLogic.parseChunkSizeLine line = some data.length) (hd : data ≠ [])
    (decoded : QByteArray) :
    decodeChunkedAvailable s decoded =
      if kMaxChunkBytes < data.length then (.error, s, decoded)
      else if kMaxDecodedBytes < decoded.length + data.length then (.error, s, decoded)
      else decodeChunkedAvailable s' (decoded ++ data) := by
  have hpos : data.length ≠ 0 := fun h0 => hd (List.eq_nil_of_length_eq_zero h0)
  have he := congrArg List.length (splitLine_eq hl).2
  have h2 : crlf.length = 2 := rfl
  simp only [List.length_append, h2] at he
  have htake : (crlf ++ s').take 2 = crlf := rfl
  have hrest : (data ++ (crlf ++ s')).drop (data.length + 2) = s' := by
    rw [← List.drop_drop, List.drop_left]
    rfl
  rw [decodeChunkedAvailable_round hl hp, if_neg hpos, List.drop_left, List.take_left, htake,
    hrest, if_neg (by omega : ¬ s.length < line.length + 2 + data.length + 2)]
  simp only [ne_eq, not_true_eq_false, ↓reduceIte]

open HttpLogic in
theorem Chunked.decode (h : Chunked s chunks rest)
    (hsmall : ∀ c ∈ chunks, c.length ≤ kMaxChunkBytes)
    (htotal : decoded.length + chunks.flatten.length ≤ kMaxDecodedBytes) :
    decodeChunkedAvailable s decoded = (.complete, rest, decoded ++ chunks.flatten) := by
  induction h generalizing decoded with
  | last hl hp ht =>
    rw [decode_last hl hp ht, List.flatten_nil, List.append_nil]
  | chunk hl hp hd _ ih =>
    have hc := hsmall _ List.mem_cons_self
    rw [List.flatten_cons, List.length_append] at htotal
    rw [decode_chunk hl hp hd, if_neg (by omega), if_neg (by omega), ih, List.flatten_cons,
      List.append_assoc]
    · intro c hc
      exact hsmall c (List.mem_cons_of_mem _ hc)
    · rw [List.length_append]
      omega

open HttpLogic in
theorem Chunked.small_of_complete (h : Chunked s chunks rest)
    (hd : (decodeChunkedAvailable s decoded).1 = .complete)
    (hdec : decoded.length ≤ kMaxDecodedBytes) :
    (∀ c ∈ chunks, c.length ≤ kMaxChunkBytes) ∧
      decoded.length + chunks.flatten.length ≤ kMaxDecodedBytes := by
  induction h generalizing decoded with
  | last hl hp ht => exact ⟨fun _ hc => (nomatch hc), hdec⟩
  | @chunk s line data s' chunks rest hl hp hne _ ih =>
    rw [decode_chunk hl hp hne] at hd
    split_ifs at hd with hbig htot
    · obtain ⟨hsmall, hlen⟩ := ih hd (by rw [List.length_append]; omega)
      refine ⟨?_, ?_⟩
      · intro c hc
        cases hc with
        | head => omega
        | tail _ hc => exact hsmall c hc
      · rw [List.flatten_cons, List.length_append]
        rw [List.length_append] at hlen
        omega

theorem chunked_decoders_agree (stream rest body : QByteArray)
    (h : NetworkingLogic.feedChunked stream [] = (.done, rest, body)) :
    ∃ chunks, Chunked stream chunks rest ∧ body = chunks.flatten ∧
      ((∀ c ∈ chunks, c.length ≤ HttpLogic.kMaxChunkBytes) →
        body.length ≤ HttpLogic.kMaxDecodedBytes →
        HttpLogic.decodeChunkedAvailable stream [] = (.complete, rest, body)) ∧
      ∀ rest' body', HttpLogic.decodeChunkedAvailable stream [] = (.complete, rest', body') →
        body' = body ∧ rest' = rest := by
  obtain ⟨chunks, hc, hb⟩ := feedChunked_sound h
  rw [List.nil_append] at hb
  subst hb
  refine ⟨chunks, hc, rfl, ?_, ?_⟩
  · intro hsmall htotal
    exact hc.decode hsmall (by rw [List.length_nil, Nat.zero_add]; exact htotal)
  · intro rest' body' hd
    obtain ⟨hsmall, htotal⟩ := hc.small_of_complete (by rw [hd]) (Nat.zero_le _)
    rw [hc.decode hsmall htotal] at hd
    cases hd
    exact ⟨rfl, rfl⟩

theorem chunked_decoders_agree_on_trailer :
    ∃ chunks, Chunked (latin1 "2\r\nhi\r\n0\r\nA: 1\r\n\r\nN") chunks (latin1 "N") ∧
      latin1 "hi" = chunks.flatten :=
  have ⟨chunks, hc, hb, _⟩ := chunked_decoders_agree
    (latin1 "2\r\nhi\r\n0\r\nA: 1\r\n\r\nN") (latin1 "N") (latin1 "hi") (by decide +kernel)
  ⟨chunks, hc, hb⟩

end Nullock

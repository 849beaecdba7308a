import Nullock.ChunkedSegmentation

namespace Nullock
open NetworkingLogic

section
variable {pre t t' line : QByteArray}

theorem indexOfFrom_left (pre t : QByteArray) :
    indexOfFrom crlf (pre ++ t) pre.length = (indexOf crlf t).map (pre.length + ·) := by
  rw [indexOfFrom, List.drop_left]

theorem scanTrailer_none (h : splitLine t = none) (pre : QByteArray) (k : Nat) :
    scanTrailer (pre ++ t) pre.length k =
      (if kMaxChunkLineBytes < (pre ++ t).length then .error else .needMore, pre ++ t) := by
  rw [scanTrailer]
  split
  · rfl
  · rename_i he
    rw [indexOfFrom_left, indexOf_eq_none_of_splitLine h] at he
    cases he

theorem scanTrailer_line (h : splitLine t = some (line, t')) (pre : QByteArray) (k : Nat) :
    scanTrailer (pre ++ t) pre.length k =
      if line = [] then (.done, t')
      else if kMaxChunkLineBytes < k + (line.length + 2) then (.error, pre ++ t)
      else
        scanTrailer ((pre ++ (line ++ crlf)) ++ t') (pre ++ (line ++ crlf)).length
          (k + (line.length + 2)) := by
  obtain ⟨hi, ht⟩ := splitLine_eq h
  have hlen : (pre ++ (line ++ crlf)).length = pre.length + line.length + 2 := by
    rw [List.length_append, List.length_append, ← Nat.add_assoc]
    rfl
  have hsplit : pre ++ t = (pre ++ (line ++ crlf)) ++ t' := by
    rw [ht]
    simp only [List.append_assoc]
  have hdrop : (pre ++ t).drop (pre.length + line.length + 2) = t' := by
    rw [hsplit, ← hlen, List.drop_left]
  rw [scanTrailer]
  split
  · rename_i he
    rw [indexOfFrom_left, hi] at he
    cases he
  · rename_i e he
    rw [indexOfFrom_left, hi, Option.map_some] at he
    cases he
    have hsub : pre.length + line.length - pre.length = line.length := by omega
    have hnil : pre.length + line.length = pre.length ↔ line = [] := by
      rw [← List.length_eq_zero_iff]
      omega
    simp only [hnil, hdrop, hsub, hlen, ← hsplit]
    split_ifs with h1 h2 h3 h4
    · rfl
    · rfl
    · omega
    · rfl
    · rfl

end

theorem splitLine_shorter (h : splitLine s = some (line, rest)) : rest.length < s.length := by
  have hlen := splitLine_length h
  omega

theorem scanTrailer_done_append (pre t : QByteArray) (k : Nat)
    (h : scanTrailer (pre ++ t) pre.length k = (.done, rest)) (ys : QByteArray) :
    scanTrailer (pre ++ (t ++ ys)) pre.length k = (.done, rest ++ ys) := by
  induction hn : t.length using Nat.strongRecOn generalizing pre t k with
  | _ l ih =>
    subst hn
    cases hl : splitLine t with
    | none =>
      rw [scanTrailer_none hl] at h
      split at h
      · cases h
      · cases h
    | some p =>
      obtain ⟨line, t'⟩ := p
      rw [scanTrailer_line hl] at h
      rw [scanTrailer_line (splitLine_append hl ys)]
      split_ifs at h ⊢ with h1 h2
      · cases h
        rfl
      · cases h
      · exact ih _ (splitLine_shorter hl) _ _ _ h rfl

theorem scanTrailer_rest (pre t : QByteArray) (k : Nat)
    (h : (scanTrailer (pre ++ t) pre.length k).1 ≠ .done) :
    (scanTrailer (pre ++ t) pre.length k).2 = pre ++ t := by
  induction hn : t.length using Nat.strongRecOn generalizing pre t k with
  | _ l ih =>
    subst hn
    cases hl : splitLine t with
    | none => rw [scanTrailer_none hl]
    | some p =>
      obtain ⟨line, t'⟩ := p
      have hsplit : pre ++ t = (pre ++ (line ++ crlf)) ++ t' := by
        rw [(splitLine_eq hl).2]
        simp only [List.append_assoc]
      rw [scanTrailer_line hl] at h ⊢
      split_ifs at h ⊢ with h1 h2
      · exact absurd rfl h
      · rfl
      · rw [hsplit]
        exact ih _ (splitLine_shorter hl) _ _ _ h rfl

theorem strictReader_none (h : splitLine s = none) (decoded : QByteArray) :
    strictReader s decoded =
      (if kMaxChunkLineBytes < s.length then .fail else .more, s, decoded) := by
  have hd : feedChunked s decoded =
      (if kMaxChunkLineBytes < s.length then .error else .needMore, s, decoded) := by
    rw [feedChunked]
    split
    · rfl
    · rename_i hi
      rw [indexOf_eq_none_of_splitLine h] at hi
      cases hi
  rw [strictReader, hd]
  split_ifs
  · rfl
  · rfl

def trailerReader (line t decoded : QByteArray) : Verdict × QByteArray × QByteArray :=
  let r := scanTrailer ((line ++ crlf) ++ t) (line ++ crlf).length 0
  (r.1.verdict, r.2, decoded)

theorem strictReader_line (hl : splitLine s = some (line, s')) (decoded : QByteArray) :
    strictReader s decoded =
      if kMaxChunkLineBytes < line.length then (.fail, s, decoded)
      else
        match parseChunkSizeLine line with
        | none => (.fail, s, decoded)
        | some n =>
          if kMaxBodyBytes < decoded.length + n then (.fail, s, decoded)
          else if n = 0 then trailerReader line s' decoded
          else if s'.length < n + 2 then (.more, s, decoded)
          else if (s'.drop n).take 2 ≠ crlf then (.fail, s, decoded)
          else strictReader (s'.drop (n + 2)) (decoded ++ s'.take n) := by
  obtain ⟨hi, he⟩ := splitLine_eq hl
  have hline := splitLine_take hl
  have hrest : s.drop (line.length + 2) = s' := splitLine_behind hl 0
  have hdrop := splitLine_behind hl
  have hlen := splitLine_length hl
  have hs : s = (line ++ crlf) ++ s' := by rw [he, List.append_assoc]
  have hpos : line.length + 2 = (line ++ crlf).length := by
    rw [List.length_append]
    rfl
  rw [strictReader, feedChunked]
  split
  · rename_i hn
    rw [hi] at hn
    cases hn
  · rename_i i hi'
    cases hi.symm.trans hi'
    simp only [hline, hrest, hdrop]
    split_ifs with hlong
    · rfl
    · cases parseChunkSizeLine line with
      | none => rfl
      | some n =>
        have hshort : s.length < line.length + 2 + n + 2 ↔ s'.length < n + 2 := by omega
        simp only [hshort]
        split_ifs with h1 h2 h3 h4
        · rfl
        · rw [trailerReader, ← hs, ← hpos]
        · rfl
        · rfl
        · rfl

theorem trailerReader_done_append (h : trailerReader line t decoded = (.done, rest, decoded'))
    (ys : QByteArray) :
    trailerReader line (t ++ ys) decoded = (.done, rest ++ ys, decoded') := by
  cases hs : scanTrailer ((line ++ crlf) ++ t) (line ++ crlf).length 0 with
  | mk v r =>
    rw [trailerReader, hs] at h
    cases v with
    | done =>
      cases h
      rw [trailerReader, scanTrailer_done_append _ _ _ hs]
      rfl
    | needMore => cases h
    | error => cases h

theorem trailerReader_more (h : trailerReader line t decoded = (.more, rest, decoded')) :
    rest = (line ++ crlf) ++ t ∧ decoded' = decoded := by
  have hs := scanTrailer_rest (line ++ crlf) t 0
  rw [trailerReader, Prod.mk.injEq, Prod.mk.injEq] at h
  obtain ⟨hv, hr, hd⟩ := h
  refine ⟨?_, hd.symm⟩
  rw [← hr]
  apply hs
  intro hdone
  rw [hdone] at hv
  cases hv

inductive StrictRound (s decoded : QByteArray) : Prop where
  | stays : strictReader s decoded = (v, s, decoded) → v ≠ .done → StrictRound s decoded
  | trailer (line t : QByteArray) : s = (line ++ crlf) ++ t →
      (∀ ys, strictReader (s ++ ys) decoded = trailerReader line (t ++ ys) decoded) →
      StrictRound s decoded
  | chunk (t data : QByteArray) : t.length < s.length →
      (∀ ys, strictReader (s ++ ys) decoded = strictReader (t ++ ys) (decoded ++ data)) →
      StrictRound s decoded

theorem strictReader_round (s decoded : QByteArray) : StrictRound s decoded := by
  cases hl : splitLine s with
  | none =>
    refine .stays (strictReader_none hl decoded) ?_
    split
    · exact nofun
    · exact nofun
  | some p =>
    obtain ⟨line, t⟩ := p
    have hround := strictReader_line hl decoded
    by_cases hlong : kMaxChunkLineBytes < line.length
    · rw [if_pos hlong] at hround
      exact .stays hround nofun
    · rw [if_neg hlong] at hround
      cases hp : parseChunkSizeLine line with
      | none =>
        rw [hp] at hround
        exact .stays hround nofun
      | some n =>
        rw [hp] at hround
        dsimp only at hround
        have hlater (ys : QByteArray) := strictReader_line (splitLine_append hl ys) decoded
        simp only [if_neg hlong, hp] at hlater
        split_ifs at hround with h1 h2 h3 h4
        · exact .stays hround nofun
        · refine .trailer line t (by rw [(splitLine_eq hl).2, List.append_assoc]) ?_
          intro ys
          rw [hlater, if_neg h1, if_pos h2]
        · exact .stays hround nofun
        · exact .stays hround nofun
        · refine .chunk (t.drop (n + 2)) (t.take n) (drop_shorter hl _) ?_
          intro ys
          have hlen : ¬ (t ++ ys).length < n + 2 := by
            rw [List.length_append]
            omega
          rw [hlater, if_neg h1, if_neg h2, if_neg hlen, take_two_append (by omega), if_neg h4,
            List.take_append_of_le_length (by omega), List.drop_append_of_le_length (by omega)]

theorem strictReader_more_append (s : QByteArray)
    (h : strictReader s decoded = (.more, rest, decoded')) (ys : QByteArray) :
    strictReader (s ++ ys) decoded = strictReader (rest ++ ys) decoded' := by
  induction hn : s.length using Nat.strongRecOn generalizing s decoded with
  | _ l ih =>
    subst hn
    cases strictReader_round s decoded with
    | stays hs _ =>
      rw [hs] at h
      cases h
      rfl
    | trailer line t hs htrailer =>
      have hnow := htrailer []
      rw [List.append_nil, List.append_nil] at hnow
      obtain ⟨hr, hd⟩ := trailerReader_more (hnow.symm.trans h)
      rw [hr, hd, ← hs]
    | chunk t data hlt hchunk =>
      have hnow := hchunk []
      rw [List.append_nil, List.append_nil] at hnow
      rw [hchunk]
      exact ih _ hlt t (hnow.symm.trans h) rfl

theorem strictReader_done_append (s : QByteArray)
    (h : strictReader s decoded = (.done, rest, decoded')) (ys : QByteArray) :
    strictReader (s ++ ys) decoded = (.done, rest ++ ys, decoded') := by
  induction hn : s.length using Nat.strongRecOn generalizing s decoded with
  | _ l ih =>
    subst hn
    cases strictReader_round s decoded with
    | stays hs hv =>
      rw [hs] at h
      cases h
      exact absurd rfl hv
    | trailer line t hs htrailer =>
      have hnow := htrailer []
      rw [List.append_nil, List.append_nil] at hnow
      rw [htrailer]
      exact trailerReader_done_append (hnow.symm.trans h) ys
    | chunk t data hlt hchunk =>
      have hnow := hchunk []
      rw [List.append_nil, List.append_nil] at hnow
      rw [hchunk]
      exact ih _ hlt t (hnow.symm.trans h) rfl

theorem strictReader_resumable : Resumable strictReader where
  more_append h ys := strictReader_more_append _ h ys
  done_append h ys := strictReader_done_append _ h ys

inductive Stage where
  | arriving (size : Nat)
  | inData
  | finished

/-- A trailer within the limits, complete or not, behind `k` bytes of lines. -/
inductive TrailerSoFar : Nat → QByteArray → Bool → Prop where
  | stop : splitLine t = some ([], rest) → TrailerSoFar k t true
  | arriving : splitLine t = none → TrailerSoFar k t false
  | field : splitLine t = some (line, t') → line ≠ [] →
      k + (line.length + 2) ≤ kMaxChunkLineBytes →
      TrailerSoFar (k + (line.length + 2)) t' complete → TrailerSoFar k t complete

structure SizeLine (d : Nat) (s line t : QByteArray) (n : Nat) : Prop where
  split : splitLine s = some (line, t)
  short : line.length ≤ kMaxChunkLineBytes
  size : parseChunkSizeLine line = some n
  room : d + n ≤ kMaxBodyBytes

/-- A stream that breaks no rule has come to a stage, behind `d` decoded bytes. -/
inductive Reached : Nat → QByteArray → Stage → Prop where
  | sizeLine : splitLine s = none → Reached d s (.arriving s.length)
  | trailer : SizeLine d s line t 0 → TrailerSoFar 0 t false → Reached d s (.arriving s.length)
  | finished : SizeLine d s line t 0 → TrailerSoFar 0 t true → Reached d s .finished
  | inData : SizeLine d s line t n → n ≠ 0 → t.length < n + 2 → Reached d s .inData
  | chunk : SizeLine d s line t n → n ≠ 0 → n + 2 ≤ t.length → (t.drop n).take 2 = crlf →
      Reached (d + n) (t.drop (n + 2)) stage → Reached d s stage

def Stage.verdict : Stage → Verdict
  | .arriving size => if kMaxChunkLineBytes < size then .fail else .more
  | .inData => .more
  | .finished => .done

theorem TrailerSoFar.scan (h : TrailerSoFar k t complete) (pre : QByteArray) :
    (scanTrailer (pre ++ t) pre.length k).1 =
      if complete then .done
      else if kMaxChunkLineBytes < (pre ++ t).length then .error else .needMore := by
  induction h generalizing pre with
  | stop hl =>
    rw [scanTrailer_line hl, if_pos rfl]
    rfl
  | arriving hl =>
    rw [scanTrailer_none hl]
    rfl
  | @field t line t' k complete hl hne hle _ ih =>
    have hsplit : pre ++ t = (pre ++ (line ++ crlf)) ++ t' := by
      rw [(splitLine_eq hl).2]
      simp only [List.append_assoc]
    rw [scanTrailer_line hl, if_neg hne, if_neg (by omega), hsplit]
    exact ih _

theorem SizeLine.reader (h : SizeLine decoded.length s line t n) :
    strictReader s decoded =
      if n = 0 then trailerReader line t decoded
      else if t.length < n + 2 then (.more, s, decoded)
      else if (t.drop n).take 2 ≠ crlf then (.fail, s, decoded)
      else strictReader (t.drop (n + 2)) (decoded ++ t.take n) := by
  have hs := h.short
  have hr := h.room
  rw [strictReader_line h.split, if_neg (by omega), h.size]
  dsimp only
  rw [if_neg (by omega)]

theorem SizeLine.bytes (h : SizeLine d s line t n) : s = (line ++ crlf) ++ t := by
  rw [(splitLine_eq h.split).2, List.append_assoc]

theorem Reached.verdict (h : Reached decoded.length s stage) :
    (strictReader s decoded).1 = stage.verdict := by
  generalize hd : decoded.length = d at h
  induction h generalizing decoded with
  | sizeLine hl =>
    rw [strictReader_none hl]
    rfl
  | @trailer d s line t hl ht =>
    subst hd
    have hv := ht.scan (line ++ crlf)
    rw [← hl.bytes] at hv
    rw [hl.reader, if_pos rfl, trailerReader, ← hl.bytes, hv]
    simp only [Bool.false_eq_true, ↓reduceIte, Stage.verdict]
    split_ifs
    · rfl
    · rfl
  | @finished d s line t hl ht =>
    subst hd
    have hv := ht.scan (line ++ crlf)
    rw [hl.reader, if_pos rfl, trailerReader, hv]
    rfl
  | inData hl hne hlt =>
    subst hd
    rw [hl.reader, if_neg hne, if_pos hlt]
    rfl
  | chunk hl hne hle hterm _ ih =>
    subst hd
    rw [hl.reader, if_neg hne, if_neg (by omega), if_neg (not_not.2 hterm)]
    apply ih
    rw [List.length_append, List.length_take]
    omega

theorem Reached.verdict_start (h : Reached 0 s stage) : (strictReader s []).1 = stage.verdict := by
  have hnil : Reached ([] : QByteArray).length s stage := h
  exact hnil.verdict

theorem trailerSoFar_or_refused (pre t : QByteArray) (k : Nat) :
    (∃ complete, TrailerSoFar k t complete) ∨
      ∀ ys, (scanTrailer (pre ++ (t ++ ys)) pre.length k).1 = .error := by
  induction hn : t.length using Nat.strongRecOn generalizing pre t k with
  | _ l ih =>
    subst hn
    cases hl : splitLine t with
    | none => exact .inl ⟨false, .arriving hl⟩
    | some p =>
      obtain ⟨line, t'⟩ := p
      by_cases hnil : line = []
      · subst hnil
        exact .inl ⟨true, .stop hl⟩
      · by_cases hlong : kMaxChunkLineBytes < k + (line.length + 2)
        · right
          intro ys
          rw [scanTrailer_line (splitLine_append hl ys), if_neg hnil, if_pos hlong]
        · have hnext :=
            ih _ (splitLine_shorter hl) (pre ++ (line ++ crlf)) t' (k + (line.length + 2)) rfl
          cases hnext with
          | inl h =>
            obtain ⟨complete, h⟩ := h
            exact .inl ⟨complete, .field hl hnil (by omega) h⟩
          | inr h =>
            right
            intro ys
            rw [scanTrailer_line (splitLine_append hl ys), if_neg hnil, if_neg hlong]
            exact h ys

theorem sizeLine_or_refused (hl : splitLine s = some (line, t)) (decoded : QByteArray) :
    (∃ n, SizeLine decoded.length s line t n) ∨
      ∀ ys, (strictReader (s ++ ys) decoded).1 = .fail := by
  have hread (ys : QByteArray) := strictReader_line (splitLine_append hl ys) decoded
  by_cases hlong : kMaxChunkLineBytes < line.length
  · right
    intro ys
    rw [hread, if_pos hlong]
  · cases hp : parseChunkSizeLine line with
    | none =>
      right
      intro ys
      rw [hread, if_neg hlong, hp]
    | some n =>
      by_cases hroom : kMaxBodyBytes < decoded.length + n
      · right
        intro ys
        rw [hread, if_neg hlong, hp]
        dsimp only
        rw [if_pos hroom]
      · exact .inl ⟨n, hl, by omega, hp, by omega⟩

theorem SizeLine.append (h : SizeLine d s line t n) (ys : QByteArray) :
    SizeLine d (s ++ ys) line (t ++ ys) n :=
  ⟨splitLine_append h.split ys, h.short, h.size, h.room⟩

theorem SizeLine.reader_chunk (h : SizeLine decoded.length s line t n) (hne : n ≠ 0)
    (hle : n + 2 ≤ t.length) (ys : QByteArray) :
    strictReader (s ++ ys) decoded =
      if (t.drop n).take 2 ≠ crlf then (.fail, s ++ ys, decoded)
      else strictReader (t.drop (n + 2) ++ ys) (decoded ++ t.take n) := by
  have hlen : ¬ (t ++ ys).length < n + 2 := by
    rw [List.length_append]
    omega
  rw [(h.append ys).reader, if_neg hne, if_neg hlen, take_two_append hle,
    List.take_append_of_le_length (by omega), List.drop_append_of_le_length hle]

theorem reached_or_refused (s decoded : QByteArray) :
    (∃ stage, Reached decoded.length s stage) ∨
      ∀ ys, (strictReader (s ++ ys) decoded).1 = .fail := by
  induction hn : s.length using Nat.strongRecOn generalizing s decoded with
  | _ l ih =>
    subst hn
    cases hl : splitLine s with
    | none => exact .inl ⟨_, .sizeLine hl⟩
    | some p =>
      obtain ⟨line, t⟩ := p
      rcases sizeLine_or_refused hl decoded with ⟨n, hline⟩ | hrefused
      · by_cases hzero : n = 0
        · subst hzero
          rcases trailerSoFar_or_refused (line ++ crlf) t 0 with ⟨complete, h⟩ | h
          · cases complete with
            | true => exact .inl ⟨_, .finished hline h⟩
            | false => exact .inl ⟨_, .trailer hline h⟩
          · right
            intro ys
            rw [(hline.append ys).reader, if_pos rfl, trailerReader, h ys]
            rfl
        · by_cases hshort : t.length < n + 2
          · exact .inl ⟨_, .inData hline hzero hshort⟩
          · have hchunk := hline.reader_chunk hzero (by omega)
            by_cases hterm : (t.drop n).take 2 = crlf
            · have hd : (decoded ++ t.take n).length = decoded.length + n := by
                rw [List.length_append, List.length_take]
                omega
              have hnext :=
                ih _ (drop_shorter hl (n + 2)) (t.drop (n + 2)) (decoded ++ t.take n) rfl
              rcases hnext with ⟨stage, h⟩ | h
              · rw [hd] at h
                exact .inl ⟨stage, .chunk hline hzero (by omega) hterm h⟩
              · right
                intro ys
                rw [hchunk, if_neg (not_not.2 hterm)]
                exact h ys
            · right
              intro ys
              rw [hchunk, if_pos hterm]
      · exact .inr hrefused

def WithinLimits (stream : QByteArray) : Prop :=
  ∃ stage, Reached 0 stream stage ∧ ∀ size, stage = .arriving size → size ≤ kMaxChunkLineBytes

def ShortAtCuts (pieces : List QByteArray) : Prop :=
  ∀ n size, Reached 0 (pieces.take n).flatten (.arriving size) → size ≤ kMaxChunkLineBytes

theorem withinLimits_iff (stream : QByteArray) :
    WithinLimits stream ↔ (strictReader stream []).1 ≠ .fail := by
  constructor
  · intro h
    obtain ⟨stage, hr, hs⟩ := h
    rw [hr.verdict_start]
    cases stage with
    | arriving size =>
      have hle := hs size rfl
      rw [Stage.verdict, if_neg (by omega)]
      exact nofun
    | inData => exact nofun
    | finished => exact nofun
  · intro h
    cases reached_or_refused stream [] with
    | inl hr =>
      obtain ⟨stage, hr⟩ := hr
      refine ⟨stage, hr, ?_⟩
      intro size hs
      subst hs
      rw [hr.verdict, Stage.verdict] at h
      by_contra hlt
      exact h (if_pos (by omega))
    | inr hr =>
      have hn := hr []
      rw [List.append_nil] at hn
      exact absurd hn h

theorem strictReader_nil : strictReader [] [] = (.more, [], []) :=
  strictReader_none rfl []

theorem strict_segmentation_iff (pieces : List QByteArray) :
    (let r := feedPieces strictReader [] [] pieces
      let w := feedChunked pieces.flatten []
      r.verdict = w.1.verdict ∧ (w.1 = .done → r.state = w.2.2)) ↔
      (WithinLimits pieces.flatten → ShortAtCuts pieces) := by
  have hiff := strictReader_resumable.verdict_iff strictReader_nil pieces
  have hprefix (n : Nat) : pieces.flatten = (pieces.take n).flatten ++ (pieces.drop n).flatten := by
    rw [← List.flatten_append, List.take_append_drop]
  constructor
  · intro h hw n size hr
    have hcut := hiff.1 h.1 n
    by_contra hlt
    apply (withinLimits_iff _).1 hw
    apply hcut
    rw [List.nil_append, hr.verdict_start]
    exact if_pos (by omega)
  · intro h
    have hv : (feedPieces strictReader [] [] pieces).verdict =
        (strictReader pieces.flatten []).1 := by
      apply hiff.2
      intro n hn
      by_contra hne
      cases reached_or_refused (pieces.take n).flatten [] with
      | inl hr =>
        obtain ⟨stage, hr⟩ := hr
        have hs := hr.verdict
        rw [List.nil_append, hs] at hn
        cases stage with
        | arriving size =>
          have hle := h ((withinLimits_iff _).2 hne) n size hr
          rw [Stage.verdict, if_neg (by omega)] at hn
          cases hn
        | inData => cases hn
        | finished => cases hn
      | inr hr =>
        apply hne
        rw [List.nil_append, hprefix n]
        exact hr _
    refine ⟨hv, ?_⟩
    intro hd
    have hdone : (strictReader pieces.flatten []).1 = .done := by
      rw [strictReader, hd]
      rfl
    have he := strictReader_resumable.feedPieces_eq strictReader_nil pieces
      (by rw [hv, hdone]; nofun)
    rw [List.nil_append] at he
    exact (congrArg (fun x => x.2.2) he).symm

theorem indexOf_crlf_none (h : 0x0D ∉ s) : indexOf crlf s = none := by
  apply indexOf_eq_none_iff.2
  intro i _ hp
  exact h (List.mem_of_mem_drop (hp.subset List.mem_cons_self))

/-- The size line of a last chunk, with an extension of `n` letters. -/
def lastLine (n : Nat) : ChunkLine where
  digits := [0x30]
  extension := 0x3B :: List.replicate n 0x61
  size := 0
  nonempty := List.cons_ne_nil _ _
  hex := forall_mem_of_all (by decide)
  value := rfl
  extended := .inr ⟨[], List.replicate n 0x61, rfl, fun _ hc => (nomatch hc)⟩
  oneLine := by
    apply indexOf_crlf_none
    intro hm
    cases hm with
    | tail _ hm => cases List.eq_of_mem_replicate hm

theorem lastLine_length (n : Nat) : (lastLine n).bytes.length = n + 2 := by
  have hext : (lastLine n).extension.length = n + 1 :=
    congrArg (· + 1) List.length_replicate
  have hdigits : (lastLine n).digits.length = 1 := rfl
  rw [ChunkLine.bytes, List.length_append, hext, hdigits]
  omega

def longLastLine : ChunkLine := lastLine 65534

theorem longLastLine_length : longLastLine.bytes.length = kMaxChunkLineBytes :=
  lastLine_length 65534

theorem longLastLine_arriving : splitLine (longLastLine.bytes ++ [0x0D]) = none := by
  cases hs : splitLine (longLastLine.bytes ++ [0x0D]) with
  | none => rfl
  | some p =>
    obtain ⟨line, rest⟩ := p
    have hone := splitLine_line longLastLine.oneLine_bytes []
    have hmore := splitLine_append hs [0x0A]
    have hbytes : (longLastLine.bytes ++ [0x0D]) ++ [0x0A] =
        longLastLine.bytes ++ (crlf ++ []) := by
      rw [List.append_assoc]
      rfl
    rw [hbytes, hone, Option.some.injEq, Prod.mk.injEq] at hmore
    exact absurd hmore.2.symm (List.append_ne_nil_of_right_ne_nil _ (List.cons_ne_nil _ _))

/-- The longest size line is accepted; cut before its line feed it is refused. -/
theorem cut_before_line_feed_refused :
    let pieces := [longLastLine.bytes ++ [0x0D], 0x0A :: crlf]
    (feedPieces strictReader [] [] pieces).verdict = .fail ∧
      (feedChunked pieces.flatten []).1 = .done := by
  intro pieces
  constructor
  · have hlong : kMaxChunkLineBytes < (longLastLine.bytes ++ [0x0D]).length := by
      rw [List.length_append, longLastLine_length]
      exact Nat.lt_succ_self _
    have hfirst := strictReader_none longLastLine_arriving []
    rw [if_pos hlong] at hfirst
    rw [feedPieces, List.nil_append, hfirst]
  · have hflat : pieces.flatten = longLastLine.bytes ++ (crlf ++ (crlf ++ [])) := by
      simp only [pieces, List.flatten_cons, List.flatten_nil, List.append_assoc, List.append_nil]
      rfl
    have hline : SizeLine 0 pieces.flatten longLastLine.bytes (crlf ++ []) 0 := by
      refine ⟨?_, ?_, longLastLine.parse (Nat.zero_le _), Nat.zero_le _⟩
      · rw [hflat]
        exact splitLine_line longLastLine.oneLine_bytes _
      · rw [longLastLine_length]
    have hstop : splitLine (crlf ++ []) = some ([], []) := by decide
    have hdone := (Reached.finished hline (.stop hstop)).verdict_start
    rw [strictReader] at hdone
    cases hv : (feedChunked pieces.flatten []).1 with
    | done => rfl
    | needMore =>
      rw [hv] at hdone
      cases hdone
    | error =>
      rw [hv] at hdone
      cases hdone

end Nullock

import Nullock.IntruderGrading
import Nullock.LineBreaks

namespace Nullock.Proxy.InterceptLogic
open ChainRunner

def headOf (msg : QByteArray) : QByteArray :=
  match indexOf (latin1 "\r\n\r\n") msg with
  | some sep => msg.take sep
  | none =>
    match indexOf (latin1 "\n\n") msg with
    | some sep => msg.take sep
    | none => msg

def terminatedLines (cur : QByteArray) : Nat → QByteArray → List (QByteArray × QByteArray)
  | _, [] => []
  | skip + 1, _ :: s => terminatedLines cur skip s
  | 0, c :: s =>
    let t := termLen (c :: s)
    if t = 0 then terminatedLines (cur ++ [c]) 0 s
    else (cur, (c :: s).take t) :: terminatedLines [] (t - 1) s

def recomputedLine (bodyLen : Int) (line : QByteArray × QByteArray) : QByteArray :=
  if isLengthLine line.1 then
    firstSection 0x3A line.1 ++ latin1 ": " ++ QByteArray.number bodyLen ++ line.2
  else line.1 ++ line.2

/-- The lines of the head, the last terminator, and what begins with the blank line. -/
def splitTail (req : QByteArray) : Option (QByteArray × QByteArray × QByteArray) :=
  (blankLine 0 0 req).map (fun (sep, _) =>
    let term := (req.drop sep).take (termLen (req.drop sep))
    (req.take sep, term, req.drop (sep + term.length)))

def recomputeContentLength (req : QByteArray) : QByteArray :=
  match splitTail req with
  | none => req
  | some (head, term, tail) =>
    let lines := terminatedLines [] 0 (head ++ term)
    let bodyLen := asInt (tail.drop (termLen tail)).length
    let clCount := lines.countP (fun line => isLengthLine line.1)
    let hasRealHeader := lines.any (fun line => !(QByteArray.trimmed line.1).isEmpty)
    if lines.any (fun line => isChunkedLine line.1) || 1 < clCount then req
    else
      let added := if clCount = 0 ∧ 0 < bodyLen ∧ hasRealHeader then
          latin1 "Content-Length: " ++ QByteArray.number bodyLen ++
            (lines.getLast?.map Prod.snd).getD (latin1 "\r\n")
        else []
      lines.flatMap (recomputedLine bodyLen) ++ added ++ tail

end Nullock.Proxy.InterceptLogic

namespace Nullock.NetworkingLogic

/-- The text a request is edited as, and whether it is Latin-1. -/
def decodeRequestText (bytes : QByteArray) : QString × Bool :=
  let utf8 := QString.fromUtf8 bytes
  if toUtf8 utf8 ≠ bytes then (fromLatin1 bytes, true) else (utf8, false)

def editorSplit (text : QString) : QString × QString :=
  match indexOf (utf16 "\r\n\r\n") text, indexOf (utf16 "\n\n") text with
  | some sep, some lf =>
    if lf < sep then (text.take lf, text.drop (lf + 2)) else (text.take sep, text.drop (sep + 4))
  | some sep, none => (text.take sep, text.drop (sep + 4))
  | none, some lf => (text.take lf, text.drop (lf + 2))
  | none, none => (text, [])

theorem encodeRequestText_eq (L : TextLibrary) (text : QString) (latin1 : Bool) :
    encodeRequestText L text latin1 =
      if latin1 && fromLatin1 (toLatin1 text) != text then []
      else
        let raw := replaceAll (utf16 "\n") (utf16 "\r\n")
            (replaceAll (utf16 "\r\n") (utf16 "\n") (editorSplit text).1) ++
          utf16 "\r\n\r\n" ++ (editorSplit text).2
        if latin1 then toLatin1 raw else L.toUtf8 raw := by
  rw [encodeRequestText, editorSplit]
  split
  · rfl
  · cases indexOf (utf16 "\r\n\r\n") text with
    | none =>
      cases indexOf (utf16 "\n\n") text with
      | none => rfl
      | some lf => rfl
    | some sep =>
      cases indexOf (utf16 "\n\n") text with
      | none => rfl
      | some lf =>
        by_cases hlf : lf < sep
        · simp only [if_pos hlf]
        · simp only [if_neg hlf]

section Encoding

/-- Line terminators stand where they are in the bytes of a text. -/
structure Separates (e : QString → QByteArray) : Prop where
  empty : e [] = []
  nil : ∀ s, e s = [] → s = []
  append : ∀ c : UInt8, c = 0x0D ∨ c = 0x0A → ∀ a b, e (a ++ c.toUInt16 :: b) = e a ++ c :: e b
  split : ∀ c : UInt8, c = 0x0D ∨ c = 0x0A → ∀ s x y, e s = x ++ c :: y →
    ∃ a b, s = a ++ c.toUInt16 :: b ∧ e a = x ∧ e b = y

theorem separates_utf8 : Separates toUtf8 where
  empty := rfl
  nil _ h := toUtf8_eq_nil h
  append c hc a b := by
    rw [toUtf8_append, UInt8.toUInt8_toUInt16]
    rcases hc with rfl | rfl
    · decide
    · decide
  split c hc s x y h := by
    rcases hc with rfl | rfl
    · exact toUtf8_split (by decide) (by decide) h
    · exact toUtf8_split (by decide) (by decide) h

theorem separates_latin1 : Separates toLatin1 where
  empty := rfl
  nil _ h := List.map_eq_nil_iff.1 h
  append c hc a b := by
    rw [toLatin1, List.map_append, List.map_cons, toLatin1Char_toUInt16]
    rfl
  split c hc s x y h := by
    obtain ⟨a, t, rfl, ha, ht⟩ := List.map_eq_append_iff.1 h
    obtain ⟨d, b, rfl, hd, hb⟩ := List.map_eq_cons_iff.1 ht
    have hne : c ≠ 0x3F := by
      rcases hc with rfl | rfl
      · decide
      · decide
    exact ⟨a, b, by rw [(toLatin1Char_eq_iff hne).1 hd], ha, hb⟩

variable {e : QString → QByteArray} {s : QString}

theorem Separates.pair (he : Separates e) {c d : UInt8} (hc : c = 0x0D ∨ c = 0x0A)
    (hd : d = 0x0D ∨ d = 0x0A) : [c, d] <:+: e s ↔ [c.toUInt16, d.toUInt16] <:+: s := by
  constructor
  · rintro ⟨x, y, h⟩
    rw [List.append_assoc] at h
    obtain ⟨a, t, rfl, -, ht⟩ := he.split c hc s x _ h.symm
    obtain ⟨u, b, rfl, hu, -⟩ := he.split d hd t [] y ht
    exact ⟨a, b, by rw [he.nil u hu, List.append_assoc]; rfl⟩
  · rintro ⟨a, b, rfl⟩
    have hnext := he.append d hd [] b
    rw [List.nil_append, he.empty, List.nil_append] at hnext
    rw [List.append_assoc, List.cons_append, List.cons_append, List.nil_append, he.append c hc, hnext]
    exact ⟨e a, e b, by rw [List.append_assoc]; rfl⟩

theorem Separates.noBlank (he : Separates e) :
    NoBlank 0x0D 0x0A (e s) ↔ NoBlank 0x0D 0x0A s := by
  have hll := he.pair (s := s) (.inr rfl) (.inr rfl)
  have hlc := he.pair (s := s) (.inr rfl) (.inl rfl)
  have hcc := he.pair (s := s) (.inl rfl) (.inl rfl)
  constructor
  · intro h
    exact ⟨fun hi => h.lfLf (hll.2 hi), fun hi => h.lfCr (hlc.2 hi), fun hi => h.crCr (hcc.2 hi)⟩
  · intro h
    exact ⟨fun hi => h.lfLf (hll.1 hi), fun hi => h.lfCr (hlc.1 hi), fun hi => h.crCr (hcc.1 hi)⟩

theorem Separates.split_blank (he : Separates e)
    (h : e s = head ++ ([0x0D, 0x0A, 0x0D, 0x0A] ++ body)) :
    ∃ front rest, s = front ++ ([0x0D, 0x0A, 0x0D, 0x0A] ++ rest) ∧ e front = head ∧
      e rest = body := by
  obtain ⟨front, t, rfl, hfront, ht⟩ := he.split 0x0D (.inl rfl) s head _ h
  obtain ⟨u₁, t₁, rfl, hu₁, ht₁⟩ := he.split 0x0A (.inr rfl) t [] _ ht
  obtain ⟨u₂, t₂, rfl, hu₂, ht₂⟩ := he.split 0x0D (.inl rfl) t₁ [] _ ht₁
  obtain ⟨u₃, rest, rfl, hu₃, hrest⟩ := he.split 0x0A (.inr rfl) t₂ [] body ht₂
  refine ⟨front, rest, ?_, hfront, hrest⟩
  rw [he.nil u₁ hu₁, he.nil u₂ hu₂, he.nil u₃ hu₃]
  rfl

end Encoding

end Nullock.NetworkingLogic

namespace Nullock.ChainRunner

def BlankFront (s : QByteArray) : Prop := 0 < termLen s ∧ 0 < termLen (s.drop (termLen s))

theorem termLen_lf (s : QByteArray) : termLen (0x0A :: s) = 1 := rfl

theorem termLen_crlf (s : QByteArray) : termLen (0x0D :: 0x0A :: s) = 2 := rfl

theorem termLen_cr (hd : d ≠ 0x0A) (s : QByteArray) : termLen (0x0D :: d :: s) = 1 := by
  rw [termLen]
  intro t he
  exact hd (List.cons.inj he).1

theorem termLen_other (hlf : c ≠ 0x0A) (hcr : c ≠ 0x0D) (s : QByteArray) :
    termLen (c :: s) = 0 := by
  rw [termLen.eq_def]
  split
  · rename_i he
    exact absurd (List.cons.inj he).1 hcr
  · rename_i he
    exact absurd (List.cons.inj he).1 hcr
  · rename_i he
    exact absurd (List.cons.inj he).1 hlf
  · rfl

theorem termLen_pos_iff : 0 < termLen (c :: s) ↔ c = 0x0A ∨ c = 0x0D := by
  constructor
  · intro h
    by_contra hn
    obtain ⟨hlf, hcr⟩ := not_or.1 hn
    rw [termLen_other hlf hcr] at h
    exact Nat.lt_irrefl 0 h
  · rintro (rfl | rfl)
    · exact Nat.one_pos
    · cases s with
      | nil => exact Nat.one_pos
      | cons d s =>
        by_cases hd : d = 0x0A
        · rw [hd, termLen_crlf]
          exact Nat.two_pos
        · rw [termLen_cr hd]
          exact Nat.one_pos

theorem BlankFront.lt_length (h : BlankFront s) : termLen s < s.length := by
  by_contra hle
  have hnext := h.2
  rw [List.drop_eq_nil_of_le (Nat.le_of_not_lt hle)] at hnext
  exact Nat.lt_irrefl 0 hnext

theorem not_blankFront_singleton (c : UInt8) : ¬ BlankFront [c] :=
  fun h => Nat.not_lt.2 h.1 h.lt_length

theorem noBlank_cons :
    NoBlank 0x0D 0x0A (c :: s) ↔ ¬ BlankFront (c :: s) ∧ NoBlank 0x0D 0x0A s := by
  cases s with
  | nil =>
    exact iff_of_true (noBlank_singleton c) ⟨not_blankFront_singleton c, noBlank_nil⟩
  | cons d s =>
    rw [noBlank_cons_cons, ← and_assoc]
    apply and_congr_left
    intro hs
    by_cases hlf : c = 0x0A
    · rw [hlf, BlankFront, termLen_lf, List.drop_one, List.tail_cons, termLen_pos_iff]
      simp
    · by_cases hcr : c = 0x0D
      · rw [hcr, BlankFront]
        by_cases hd : d = 0x0A
        · rw [hd] at hs ⊢
          have hnext : ¬ 0 < termLen s := by
            cases s with
            | nil => exact Nat.lt_irrefl 0
            | cons e s =>
              rw [termLen_pos_iff]
              intro he
              exact (noBlank_cons_cons.1 hs).1 ⟨rfl, he⟩
          rw [termLen_crlf]
          simp only [List.drop_succ_cons, List.drop_zero]
          simp [hnext]
        · rw [termLen_cr hd, List.drop_one, List.tail_cons, termLen_pos_iff]
          simp [hd]
      · rw [BlankFront, termLen_other hlf hcr]
        simp [hlf, hcr]

theorem blankLine_cons (i : Nat) (c : UInt8) (s : QByteArray) :
    blankLine i 0 (c :: s) =
      if 0 < termLen (c :: s) ∧ 0 < termLen ((c :: s).drop (termLen (c :: s))) then
        some (i, termLen (c :: s) + termLen ((c :: s).drop (termLen (c :: s))))
      else blankLine (i + 1) 0 s := by
  rw [blankLine]
  dsimp only
  by_cases hpos : 0 < termLen (c :: s)
  · rw [if_neg hpos.ne']
    simp only [hpos, true_and]
    by_cases hnext : 0 < termLen ((c :: s).drop (termLen (c :: s)))
    · rw [if_pos hnext, if_pos hnext]
    · rw [if_neg hnext, if_neg hnext]
      rcases termLen_pos_iff.1 hpos with rfl | rfl
      · rfl
      · cases s with
        | nil => rfl
        | cons d s =>
          by_cases hd : d = 0x0A
          · subst hd
            -- the line feed behind a carriage return is no terminator of its own
            have hs : ¬ 0 < termLen s := hnext
            exact (if_neg hs).symm
          · rw [termLen_cr hd]
  · have hzero : termLen (c :: s) = 0 := Nat.eq_zero_of_not_pos hpos
    rw [if_pos hzero, if_neg (fun h => hpos h.1)]

theorem termLen_pos_append (h : 0 < termLen s) (rest : QByteArray) :
    0 < termLen (s ++ rest) := by
  cases s with
  | nil => exact absurd h (Nat.lt_irrefl 0)
  | cons c s => exact termLen_pos_iff.2 (termLen_pos_iff.1 h)

theorem termLen_append (c d : UInt8) (s rest : QByteArray) :
    termLen (c :: d :: s ++ rest) = termLen (c :: d :: s) := by
  by_cases hlf : c = 0x0A
  · rw [hlf]
    rfl
  · by_cases hcr : c = 0x0D
    · rw [hcr]
      by_cases hd : d = 0x0A
      · rw [hd]
        rfl
      · rw [List.cons_append, List.cons_append, termLen_cr hd, termLen_cr hd]
    · rw [List.cons_append, termLen_other hlf hcr, termLen_other hlf hcr]

theorem BlankFront.append (h : BlankFront (c :: d :: s)) (rest : QByteArray) :
    BlankFront (c :: d :: s ++ rest) := by
  rw [BlankFront, termLen_append, List.drop_append_of_le_length (Nat.le_of_lt h.lt_length)]
  exact ⟨h.1, termLen_pos_append h.2 rest⟩

theorem termLen_le (s : QByteArray) : termLen s ≤ 2 := by
  rw [termLen.eq_def]
  split
  · exact Nat.le_refl 2
  · exact Nat.le_succ 1
  · exact Nat.le_succ 1
  · exact Nat.zero_le 2

theorem BlankFront.of_append (h : BlankFront (c :: d :: e :: s ++ rest)) :
    BlankFront (c :: d :: e :: s) := by
  have hle := termLen_le (c :: d :: e :: s)
  rw [BlankFront, termLen_append, List.drop_append_of_le_length
    (Nat.le_trans hle (Nat.le_add_left 2 _))] at h
  refine ⟨h.1, ?_⟩
  cases hd : (c :: d :: e :: s).drop (termLen (c :: d :: e :: s)) with
  | nil =>
    have hlen := List.drop_eq_nil_iff.1 hd
    simp only [List.length_cons] at hlen
    omega
  | cons f t =>
    have hnext := h.2
    rw [hd] at hnext
    exact termLen_pos_iff.2 (termLen_pos_iff.1 hnext)

theorem noBlank_terminator (c : UInt8) (s : QByteArray) :
    NoBlank 0x0D 0x0A ((c :: s).take (termLen (c :: s))) := by
  by_cases hlf : c = 0x0A
  · rw [hlf]
    exact noBlank_singleton _
  · by_cases hcr : c = 0x0D
    · rw [hcr]
      cases s with
      | nil => exact noBlank_singleton _
      | cons d s =>
        by_cases hd : d = 0x0A
        · rw [hd, termLen_crlf]
          apply noBlank_cons_cons.2
          exact ⟨by decide, by decide, noBlank_singleton _⟩
        · rw [termLen_cr hd]
          exact noBlank_singleton _
    · rw [termLen_other hlf hcr]
      exact noBlank_nil

theorem blankLine_eq_none_iff : blankLine i 0 s = none ↔ NoBlank 0x0D 0x0A s := by
  induction s generalizing i with
  | nil => exact iff_of_true rfl noBlank_nil
  | cons c s ih =>
    rw [blankLine_cons, noBlank_cons]
    split
    · rename_i hfront
      exact iff_of_false (Option.some_ne_none _) (fun h => h.1 hfront)
    · rename_i hfront
      exact ⟨fun h => ⟨hfront, ih.1 h⟩, fun h => ih.2 h.2⟩

theorem blankLine_first (h : blankLine i 0 s = some (k, n)) :
    ∃ j, k = i + j ∧ BlankFront (s.drop j) ∧
      n = termLen (s.drop j) + termLen ((s.drop j).drop (termLen (s.drop j))) ∧
      NoBlank 0x0D 0x0A (s.take (j + termLen (s.drop j))) := by
  induction s generalizing i with
  | nil => cases h
  | cons c s ih =>
    rw [blankLine_cons] at h
    split at h
    · rename_i hfront
      rw [Option.some.injEq, Prod.mk.injEq] at h
      rw [← h.1, ← h.2]
      refine ⟨0, rfl, hfront, rfl, ?_⟩
      rw [List.drop_zero, Nat.zero_add]
      exact noBlank_terminator c s
    · rename_i hfront
      obtain ⟨j, hk, hblank, hn, hfirst⟩ := ih h
      refine ⟨j + 1, by omega, hblank, hn, ?_⟩
      rw [Nat.add_right_comm, List.take_succ_cons]
      apply noBlank_cons.2
      refine ⟨?_, hfirst⟩
      rw [List.drop_succ_cons]
      intro hshort
      have hsplit := List.take_append_drop (j + termLen (s.drop j)) s
      generalize s.take (j + termLen (s.drop j)) = t at hshort hsplit
      cases t with
      | nil => exact not_blankFront_singleton c hshort
      | cons d t =>
        apply hfront
        rw [← hsplit]
        exact hshort.append _

theorem blankLine_canonical (h : NoBlank 0x0D 0x0A (head ++ [0x0D, 0x0A])) (i : Nat)
    (body : QByteArray) :
    blankLine i 0 (head ++ ([0x0D, 0x0A, 0x0D, 0x0A] ++ body)) = some (i + head.length, 4) := by
  induction head generalizing i with
  | nil =>
    rw [List.nil_append, List.cons_append, blankLine_cons]
    rfl
  | cons c head ih =>
    rw [List.cons_append, noBlank_cons] at h
    rw [List.cons_append, blankLine_cons, if_neg, ih h.2, List.length_cons, Nat.add_right_comm,
      Nat.add_assoc]
    intro hfull
    apply h.1
    have hsplit : head ++ ([0x0D, 0x0A, 0x0D, 0x0A] ++ body) =
        (head ++ [0x0D, 0x0A]) ++ ([0x0D, 0x0A] ++ body) := by
      rw [List.append_assoc]
      rfl
    rw [hsplit] at hfull
    cases head with
    | nil => exact BlankFront.of_append hfull
    | cons d head =>
      cases head with
      | nil => exact BlankFront.of_append hfull
      | cons e head => exact BlankFront.of_append hfull

end Nullock.ChainRunner

namespace Nullock.Proxy
open ChainRunner NetworkingLogic

def splitAtBlank (bytes : QByteArray) : QByteArray × QByteArray :=
  match blankLine 0 0 bytes with
  | some (sep, sepLen) => (bytes.take sep, bytes.drop (sep + sepLen))
  | none => (bytes, [])

def recomputedSplit (req : QByteArray) : QByteArray × QByteArray :=
  match InterceptLogic.splitTail req with
  | some (head, _, tail) => (head, tail.drop (termLen tail))
  | none => (req, [])

/-- Head and body of the text that bytes are edited as, as bytes again. -/
def editedSplit (bytes : QByteArray) : QByteArray × QByteArray :=
  let (text, latin1) := decodeRequestText bytes
  let encode (s : QString) : QByteArray := if latin1 then toLatin1 s else toUtf8 s
  (encode (editorSplit text).1, encode (editorSplit text).2)

/-- Every component sees the end of the head at the first blank line. -/
structure SplitsAgree (bytes : QByteArray) : Prop where
  intercept : InterceptLogic.headOf bytes = (splitAtBlank bytes).1
  rules : SessionRules.splitHead bytes = splitAtBlank bytes
  redirect : (RedirectLogic.headOf bytes, RedirectLogic.bodyOf bytes) = splitAtBlank bytes
  editor : editedSplit bytes = splitAtBlank bytes
  recomputed : recomputedSplit bytes = splitAtBlank bytes

theorem recomputedSplit_eq (bytes : QByteArray) : recomputedSplit bytes = splitAtBlank bytes := by
  rw [recomputedSplit, splitAtBlank, InterceptLogic.splitTail]
  cases h : blankLine 0 0 bytes with
  | none => rfl
  | some found =>
    obtain ⟨j, hj, hfront, hlen, -⟩ := blankLine_first h
    have hterm : ((bytes.drop j).take (termLen (bytes.drop j))).length =
        termLen (bytes.drop j) := List.length_take_of_le (Nat.le_of_lt hfront.lt_length)
    rw [Option.map_some]
    dsimp only
    rw [hj, Nat.zero_add, hlen, hterm, List.drop_drop, List.drop_drop, Nat.add_assoc]

theorem splitAtBlank_canonical (h : NoBlank 0x0D 0x0A (head ++ [0x0D, 0x0A])) (body : QByteArray) :
    splitAtBlank (head ++ ([0x0D, 0x0A, 0x0D, 0x0A] ++ body)) = (head, body) := by
  have hdrop : (head ++ ([0x0D, 0x0A, 0x0D, 0x0A] ++ body)).drop (head.length + 4) = body := by
    rw [← List.drop_drop, List.drop_left]
    rfl
  rw [splitAtBlank, blankLine_canonical h]
  dsimp only
  rw [Nat.zero_add, List.take_left, hdrop]

theorem splitAtBlank_noBlank (h : NoBlank 0x0D 0x0A bytes) : splitAtBlank bytes = (bytes, []) := by
  rw [splitAtBlank, blankLine_eq_none_iff.2 h]

section Editor

theorem editorSplit_canonical (h : NoBlank 0x0D 0x0A (head ++ [0x0D, 0x0A])) (body : QString) :
    editorSplit (head ++ ([0x0D, 0x0A, 0x0D, 0x0A] ++ body)) = (head, body) := by
  have hdrop : (head ++ ([0x0D, 0x0A, 0x0D, 0x0A] ++ body)).drop (head.length + 4) = body := by
    rw [← List.drop_drop, List.drop_left]
    rfl
  have hblank := indexOf_blank_canonical h body
  rw [editorSplit, show utf16 "\r\n\r\n" = [0x0D, 0x0A, 0x0D, 0x0A] from rfl,
    show utf16 "\n\n" = [0x0A, 0x0A] from rfl, hblank]
  cases hlines : indexOf [0x0A, 0x0A] (head ++ ([0x0D, 0x0A, 0x0D, 0x0A] ++ body)) with
  | none =>
    dsimp only
    rw [List.take_left, hdrop]
  | some lf =>
    have hle := indexOf_lines_canonical h body hlines
    dsimp only
    rw [if_neg (Nat.not_lt.2 hle), List.take_left, hdrop]

theorem editorSplit_noBlank (h : NoBlank 0x0D 0x0A text) : editorSplit text = (text, []) := by
  rw [editorSplit, show utf16 "\r\n\r\n" = [0x0D, 0x0A, 0x0D, 0x0A] from rfl,
    show utf16 "\n\n" = [0x0A, 0x0A] from rfl, h.indexOf_blank, h.indexOf_lines]

theorem toUInt16_inj {c d : UInt8} (h : c.toUInt16 = d.toUInt16) : c = d := by
  rw [← toLatin1Char_toUInt16 c, h, toLatin1Char_toUInt16]

theorem noBlank_fromLatin1 (h : NoBlank 0x0D 0x0A s) : NoBlank 0x0D 0x0A (fromLatin1 s) :=
  h.map (fun _ _ he => toUInt16_inj he) (fun _ _ he => toUInt16_inj he)

theorem editedSplit_canonical (h : NoBlank 0x0D 0x0A (head ++ [0x0D, 0x0A])) (body : QByteArray) :
    editedSplit (head ++ ([0x0D, 0x0A, 0x0D, 0x0A] ++ body)) = (head, body) := by
  rw [editedSplit, decodeRequestText]
  dsimp only
  by_cases hutf8 : toUtf8 (QString.fromUtf8 (head ++ ([0x0D, 0x0A, 0x0D, 0x0A] ++ body))) =
      head ++ ([0x0D, 0x0A, 0x0D, 0x0A] ++ body)
  · rw [if_neg (not_not.2 hutf8)]
    generalize QString.fromUtf8 (head ++ ([0x0D, 0x0A, 0x0D, 0x0A] ++ body)) = text at hutf8
    obtain ⟨front, rest, rfl, rfl, rfl⟩ := separates_utf8.split_blank hutf8
    have hfront : NoBlank 0x0D 0x0A (front ++ [0x0D, 0x0A]) := by
      apply separates_utf8.noBlank.1
      rw [toUtf8_append (by decide)]
      exact h
    dsimp only
    rw [editorSplit_canonical hfront]
    rfl
  · rw [if_pos hutf8]
    have hfront : NoBlank 0x0D 0x0A (fromLatin1 head ++ [0x0D, 0x0A]) := by
      have hmap := noBlank_fromLatin1 h
      rw [fromLatin1, List.map_append] at hmap
      exact hmap
    have hsplit := editorSplit_canonical hfront (fromLatin1 body)
    have htext : fromLatin1 (head ++ ([0x0D, 0x0A, 0x0D, 0x0A] ++ body)) =
        fromLatin1 head ++ ([0x0D, 0x0A, 0x0D, 0x0A] ++ fromLatin1 body) := by
      rw [fromLatin1, List.map_append, List.map_append]
      rfl
    dsimp only
    rw [htext, hsplit, if_pos rfl, toLatin1_fromLatin1, if_pos rfl, toLatin1_fromLatin1]

theorem editedSplit_noBlank (h : NoBlank 0x0D 0x0A bytes) : editedSplit bytes = (bytes, []) := by
  rw [editedSplit, decodeRequestText]
  dsimp only
  by_cases hutf8 : toUtf8 (QString.fromUtf8 bytes) = bytes
  · rw [if_neg (not_not.2 hutf8)]
    dsimp only
    rw [editorSplit_noBlank]
    · exact Prod.ext hutf8 rfl
    · apply separates_utf8.noBlank.1
      rw [hutf8]
      exact h
  · rw [if_pos hutf8]
    dsimp only
    rw [editorSplit_noBlank (noBlank_fromLatin1 h), if_pos rfl, toLatin1_fromLatin1]
    rfl

end Editor

theorem splits_agree_canonical (h : NoBlank 0x0D 0x0A (head ++ [0x0D, 0x0A])) (body : QByteArray) :
    SplitsAgree (head ++ ([0x0D, 0x0A, 0x0D, 0x0A] ++ body)) := by
  have hblank : indexOf (latin1 "\r\n\r\n") (head ++ ([0x0D, 0x0A, 0x0D, 0x0A] ++ body)) =
      some head.length := indexOf_blank_canonical h body
  have hdrop : (head ++ ([0x0D, 0x0A, 0x0D, 0x0A] ++ body)).drop (head.length + 4) = body := by
    rw [← List.drop_drop, List.drop_left]
    rfl
  have hsplit := splitAtBlank_canonical h body
  refine ⟨?_, ?_, ?_, ?_, recomputedSplit_eq _⟩
  · rw [InterceptLogic.headOf, hblank, hsplit]
    exact List.take_left
  · rw [SessionRules.splitHead, show crlf ++ crlf = latin1 "\r\n\r\n" from rfl, hblank, hsplit]
    dsimp only
    rw [List.take_left, hdrop]
  · rw [RedirectLogic.headOf, RedirectLogic.bodyOf,
      show crlf ++ crlf = latin1 "\r\n\r\n" from rfl, hblank, hsplit]
    dsimp only
    rw [List.take_left, hdrop]
  · rw [editedSplit_canonical h, hsplit]

theorem splits_agree_noBlank (h : NoBlank 0x0D 0x0A bytes) : SplitsAgree bytes := by
  have hblank : indexOf (latin1 "\r\n\r\n") bytes = none := h.indexOf_blank
  have hlines : indexOf (latin1 "\n\n") bytes = none := h.indexOf_lines
  have hsplit := splitAtBlank_noBlank h
  refine ⟨?_, ?_, ?_, ?_, recomputedSplit_eq _⟩
  · rw [InterceptLogic.headOf, hblank, hlines, hsplit]
  · rw [SessionRules.splitHead, show crlf ++ crlf = latin1 "\r\n\r\n" from rfl, hblank, hlines,
      hsplit]
  · rw [RedirectLogic.headOf, RedirectLogic.bodyOf,
      show crlf ++ crlf = latin1 "\r\n\r\n" from rfl, hblank, hsplit]
  · rw [editedSplit_noBlank h, hsplit]

/-- All agree on the end unless adjacent terminators differ in kind. -/
theorem splits_agree_iff (bytes : QByteArray) :
    SplitsAgree bytes ↔ CanonicalBlank 0x0D 0x0A bytes := by
  constructor
  · intro h
    cases hblank : blankLine 0 0 bytes with
    | none => exact .inl (blankLine_eq_none_iff.1 hblank)
    | some found =>
      obtain ⟨j, hsep, hfront, -, hfirst⟩ := blankLine_first hblank
      have hj : j < bytes.length := by
        have hlt := Nat.lt_trans hfront.1 hfront.lt_length
        rw [List.length_drop] at hlt
        omega
      have hhead := congrArg (fun split => split.1.length) h.redirect
      rw [splitAtBlank, hblank] at hhead
      dsimp only at hhead
      rw [hsep, Nat.zero_add, List.length_take_of_le (Nat.le_of_lt hj)] at hhead
      right
      rw [RedirectLogic.headOf] at hhead
      cases hsearch : indexOf (crlf ++ crlf) bytes with
      | none =>
        rw [hsearch] at hhead
        exact absurd hhead (Nat.ne_of_gt hj)
      | some i =>
        obtain ⟨hbytes, hle⟩ := indexOf_split hsearch
        rw [hsearch] at hhead
        dsimp only at hhead
        rw [List.length_take_of_le (Nat.le_of_add_right_le hle)] at hhead
        rw [← hhead] at hfirst
        refine ⟨bytes.take i, bytes.drop (i + 4), hbytes, ?_⟩
        have hdrop : bytes.drop i = [0x0D, 0x0A, 0x0D, 0x0A] ++ bytes.drop (i + 4) := by
          conv => lhs; rw [hbytes]
          exact List.drop_left' (List.length_take_of_le (Nat.le_of_add_right_le hle))
        rw [hdrop, List.take_add, hdrop] at hfirst
        exact hfirst
  · rintro (h | ⟨head, body, rfl, h⟩)
    · exact splits_agree_noBlank h
    · exact splits_agree_canonical h body

/-- Intercept rules take the body's first line for a header. -/
theorem line_feeds_split_apart : ¬ SplitsAgree (latin1 "POST / HTTP/1.1\n\na: b\r\n\r\nc") := by
  intro h
  exact absurd h.intercept (by decide)

end Nullock.Proxy

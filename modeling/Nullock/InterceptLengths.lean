import Nullock.ChainParts

namespace Nullock.Proxy.InterceptLogic
open ChainRunner

/-- The lines of the head with their terminators, and what begins with the blank line. -/
def sections (req : QByteArray) : Option (List (QByteArray × QByteArray) × QByteArray) :=
  (splitTail req).map (fun found => (terminatedLines [] 0 (found.1 ++ found.2.1), found.2.2))

def linesText (lines : List (QByteArray × QByteArray)) : QByteArray :=
  lines.flatMap (fun line => line.1 ++ line.2)

section Sections

theorem terminatedLines_line (h : ChainRunner.OneLine l) (cur s : QByteArray) :
    terminatedLines cur 0 (l ++ s) = terminatedLines (cur ++ l) 0 s := by
  induction l generalizing cur with
  | nil => rw [List.nil_append, List.append_nil]
  | cons c l ih =>
    rw [List.cons_append, terminatedLines, if_pos (h.termLen _), ih h.tail, List.append_assoc]
    rfl

theorem terminatedLines_skip (cur t s : QByteArray) :
    terminatedLines cur t.length (t ++ s) = terminatedLines cur 0 s := by
  induction t with
  | nil => rfl
  | cons c t ih => exact ih

theorem termLen_le_length (s : QByteArray) : termLen s ≤ s.length := by
  cases s with
  | nil => exact Nat.le_refl 0
  | cons c s =>
    by_cases hlf : c = 0x0A
    · rw [hlf, termLen_lf]
      exact Nat.succ_le_succ (Nat.zero_le _)
    · by_cases hcr : c = 0x0D
      · cases s with
        | nil =>
          rw [hcr]
          exact Nat.le_refl 1
        | cons d s =>
          have hle := termLen_le (c :: d :: s)
          rw [List.length_cons, List.length_cons]
          omega
      · rw [termLen_other hlf hcr]
        exact Nat.zero_le _

theorem terminatedLines_terminator (h : 0 < termLen s) (cur : QByteArray) :
    terminatedLines cur 0 s =
      (cur, s.take (termLen s)) :: terminatedLines [] 0 (s.drop (termLen s)) := by
  cases s with
  | nil => exact absurd h (Nat.lt_irrefl 0)
  | cons c s =>
    have hle : termLen (c :: s) - 1 ≤ s.length := by
      have hle := termLen_le_length (c :: s)
      rw [List.length_cons] at hle
      omega
    have hdrop : (c :: s).drop (termLen (c :: s)) = s.drop (termLen (c :: s) - 1) := by
      have hsucc : termLen (c :: s) = termLen (c :: s) - 1 + 1 := (Nat.sub_add_cancel h).symm
      rw [hsucc, List.drop_succ_cons, Nat.add_sub_cancel]
    have hskip := terminatedLines_skip [] (s.take (termLen (c :: s) - 1))
      (s.drop (termLen (c :: s) - 1))
    rw [List.length_take_of_le hle, List.take_append_drop] at hskip
    rw [terminatedLines, if_neg h.ne', hskip, hdrop]

theorem termLen_take_self (s : QByteArray) : termLen (s.take (termLen s)) = termLen s :=
  termLen_take s 0

theorem length_take_termLen (s : QByteArray) : (s.take (termLen s)).length = termLen s :=
  List.length_take_of_le (termLen_le_length s)

theorem sections_line (h : ChainRunner.OneLine l) : sections l = none := by
  have hblank := blankLine_line h 0 []
  rw [List.append_nil] at hblank
  rw [sections, splitTail, hblank]
  rfl

theorem sections_blank (h : ChainRunner.OneLine l) (hs : BlankFront s) :
    sections (l ++ s) = some ([(l, s.take (termLen s))], s.drop (termLen s)) := by
  cases s with
  | nil => exact absurd hs.1 (Nat.lt_irrefl 0)
  | cons c s =>
    have hterm : 0 < termLen ((c :: s).take (termLen (c :: s))) := by
      rw [termLen_take_self]
      exact hs.1
    have hlines := terminatedLines_line h [] ((c :: s).take (termLen (c :: s)))
    rw [List.nil_append, terminatedLines_terminator hterm, termLen_take_self,
      List.take_take, Nat.min_self, List.drop_of_length_le (Nat.le_of_eq (length_take_termLen _))]
      at hlines
    rw [sections, splitTail, blankLine_line h, blankLine_cons, if_pos ⟨hs.1, hs.2⟩, Option.map_some,
      Option.map_some]
    dsimp only
    rw [Nat.zero_add, List.take_left, List.drop_left, hlines, length_take_termLen,
      List.drop_length_add_append]
    rfl

theorem sections_cons (h : ChainRunner.OneLine l) (hs : 0 < termLen s)
    (hnext : ¬ 0 < termLen (s.drop (termLen s))) :
    sections (l ++ s) = (sections (s.drop (termLen s))).map
      (fun p => ((l, s.take (termLen s)) :: p.1, p.2)) := by
  rw [sections, splitTail, blankLine_line h, blankLine_terminator hs hnext, blankLine_shift, sections,
    splitTail, Option.map_map, Option.map_map, Option.map_map, Option.map_map]
  congr 1
  funext found
  obtain ⟨sep, sepLen⟩ := found
  simp only [Function.comp_apply]
  generalize hterm : ((s.drop (termLen s)).drop sep).take
    (termLen ((s.drop (termLen s)).drop sep)) = term
  have hsep : 0 + l.length + termLen s + sep = l.length + (termLen s + sep) := by
    rw [Nat.zero_add, Nat.add_assoc]
  have hdrop (k : Nat) : (l ++ s).drop (l.length + (termLen s + k)) =
      (s.drop (termLen s)).drop k := by
    rw [List.drop_length_add_append, List.drop_drop]
  have htext : s.take (termLen s + sep) ++ term = s.take (termLen s + (sep + term.length)) := by
    have hpart : term = ((s.drop (termLen s)).drop sep).take term.length := by
      rw [← hterm, length_take_termLen]
    rw [← Nat.add_assoc, List.take_add (i := termLen s + sep), ← List.drop_drop, ← hpart]
  have hfirst : 0 < termLen (s.take (termLen s + (sep + term.length))) := by
    rw [termLen_take]
    exact hs
  have hlines := terminatedLines_line h [] (s.take (termLen s + (sep + term.length)))
  rw [List.nil_append, terminatedLines_terminator hfirst, termLen_take, List.take_take,
    Nat.min_eq_left (Nat.le_add_right _ _), List.drop_take, Nat.add_sub_cancel_left] at hlines
  have hrest : (s.drop (termLen s)).take sep ++ term =
      (s.drop (termLen s)).take (sep + term.length) := by
    have hpart : term = ((s.drop (termLen s)).drop sep).take term.length := by
      rw [← hterm, length_take_termLen]
    rw [List.take_add, ← hpart]
  rw [hsep, List.take_length_add_append, hdrop, hterm, List.append_assoc, htext, hlines, hrest,
    Nat.add_assoc l.length, Nat.add_assoc (termLen s), hdrop]

def IsTerm (t : QByteArray) : Prop := t = [0x0D, 0x0A] ∨ t = [0x0D] ∨ t = [0x0A]

/-- Lines with their terminators before a blank line; only the first may be empty. -/
structure Sections (lines : List (QByteArray × QByteArray)) (tail : QByteArray) : Prop where
  some : lines ≠ []
  oneLine : ∀ p ∈ lines, ChainRunner.OneLine p.1
  ends : ∀ p ∈ lines, IsTerm p.2
  full : ∀ p ∈ lines.tail, p.1 ≠ []
  last : ∀ p, lines.getLast? = Option.some p → termLen (p.2 ++ tail) = p.2.length
  blank : 0 < termLen tail

theorem isTerm_take (h : 0 < termLen s) : IsTerm (s.take (termLen s)) := by
  cases s with
  | nil => exact absurd h (Nat.lt_irrefl 0)
  | cons c s =>
    rcases termLen_pos_iff.1 h with rfl | rfl
    · exact .inr (.inr rfl)
    · cases s with
      | nil => exact .inr (.inl rfl)
      | cons d s =>
        by_cases hd : d = 0x0A
        · rw [hd]
          exact .inl rfl
        · rw [termLen_cr hd]
          exact .inr (.inl rfl)

theorem linesText_cons (p : QByteArray × QByteArray) (lines : List (QByteArray × QByteArray)) :
    linesText (p :: lines) = p.1 ++ (p.2 ++ linesText lines) := by
  rw [linesText, List.flatMap_cons, List.append_assoc]
  rfl

theorem IsTerm.before (h : IsTerm t) (hc : c ≠ 0x0A) (s : QByteArray) :
    termLen (t ++ c :: s) = t.length := by
  rcases h with rfl | rfl | rfl
  · rfl
  · exact termLen_cr hc s
  · rfl

theorem IsTerm.pos (h : IsTerm t) : 0 < t.length := by
  rcases h with rfl | rfl | rfl
  · exact Nat.two_pos
  · exact Nat.one_pos
  · exact Nat.one_pos

theorem sections_spec (s : QByteArray) (h : sections s = some (lines, tail)) :
    Sections lines tail ∧ s = linesText lines ++ tail ∧
      (termLen s = 0 → ∀ p ∈ lines, p.1 ≠ []) := by
  induction hn : s.length using Nat.strongRecOn generalizing s lines with
  | ind n ih =>
    obtain ⟨l, r, hl, rfl, rfl | hblank | ⟨hpos, hnext⟩⟩ := parts_cases s
    · rw [List.append_nil, sections_line hl] at h
      cases h
    · rw [sections_blank hl hblank] at h
      cases h
      have hrest := List.take_append_drop (termLen r) r
      refine ⟨⟨List.cons_ne_nil _ _, ?_, ?_, nofun, ?_, hblank.2⟩, ?_, ?_⟩
      · intro p hp
        rw [List.mem_singleton.1 hp]
        exact hl
      · intro p hp
        rw [List.mem_singleton.1 hp]
        exact isTerm_take hblank.1
      · rintro p hp
        rw [← Option.some.inj hp]
        show termLen (r.take (termLen r) ++ r.drop (termLen r)) = (r.take (termLen r)).length
        rw [hrest, length_take_termLen]
      · rw [linesText, List.flatMap_cons, List.flatMap_nil, List.append_nil, List.append_assoc, hrest]
      · intro hzero p hp
        rw [List.mem_singleton.1 hp]
        rintro rfl
        rw [List.nil_append] at hzero
        exact absurd hblank.1 (hzero ▸ Nat.lt_irrefl 0)
    · rw [sections_cons hl hpos hnext, Option.map_eq_some_iff] at h
      obtain ⟨⟨lines', tail'⟩, hrest, he⟩ := h
      cases he
      obtain ⟨hs, htext, hfull⟩ := ih _ (hn ▸ rest_lt l hpos) _ hrest rfl
      have hall := hfull (Nat.eq_zero_of_not_pos hnext)
      refine ⟨⟨List.cons_ne_nil _ _, ?_, ?_, hall, ?_, hs.blank⟩, ?_, ?_⟩
      · intro p hp
        rcases List.mem_cons.1 hp with rfl | hp
        · exact hl
        · exact hs.oneLine p hp
      · intro p hp
        rcases List.mem_cons.1 hp with rfl | hp
        · exact isTerm_take hpos
        · exact hs.ends p hp
      · intro p hp
        rw [List.getLast?_cons_of_ne_nil hs.some] at hp
        exact hs.last p hp
      · rw [linesText_cons, List.append_assoc, List.append_assoc, ← htext, List.take_append_drop]
      · intro hzero p hp
        rcases List.mem_cons.1 hp with rfl | hp
        · rintro rfl
          rw [List.nil_append] at hzero
          exact absurd hpos (hzero ▸ Nat.lt_irrefl 0)
        · exact hall p hp

theorem sections_written (h : Sections lines tail) :
    sections (linesText lines ++ tail) = some (lines, tail) := by
  induction lines with
  | nil => exact absurd rfl h.some
  | cons p lines ih =>
    have hp := h.oneLine p List.mem_cons_self
    have hterm := h.ends p List.mem_cons_self
    rw [linesText_cons, List.append_assoc, List.append_assoc]
    cases lines with
    | nil =>
      have hlen := h.last p rfl
      have hblank : BlankFront (p.2 ++ tail) := by
        rw [BlankFront, hlen, List.drop_left]
        exact ⟨hterm.pos, h.blank⟩
      have hnil : linesText [] = [] := rfl
      rw [hnil, List.nil_append, sections_blank hp hblank, hlen, List.take_left, List.drop_left]
    | cons q lines =>
      have hq : q.1 ≠ [] := h.full q List.mem_cons_self
      have hrest : Sections (q :: lines) tail :=
        ⟨List.cons_ne_nil _ _, fun r hr => h.oneLine r (List.mem_cons_of_mem p hr),
          fun r hr => h.ends r (List.mem_cons_of_mem p hr),
          fun r hr => h.full r (List.mem_cons_of_mem q hr),
          fun r hr => h.last r (by rw [List.getLast?_cons_of_ne_nil (List.cons_ne_nil _ _)]; exact hr),
          h.blank⟩
      have hread := ih hrest
      have hq' := h.oneLine q (List.mem_cons_of_mem p List.mem_cons_self)
      obtain ⟨c, m, hm⟩ := List.exists_cons_of_ne_nil hq
      have hc : ChainRunner.OneLine (c :: m) := hm ▸ hq'
      have hfront : linesText (q :: lines) ++ tail =
          c :: (m ++ (q.2 ++ (linesText lines ++ tail))) := by
        rw [linesText_cons, hm, List.append_assoc, List.append_assoc]
        rfl
      have hlen : termLen (p.2 ++ (linesText (q :: lines) ++ tail)) = p.2.length := by
        rw [hfront]
        exact hterm.before (hc c List.mem_cons_self).1 _
      have hone : ¬ 0 < termLen ((p.2 ++ (linesText (q :: lines) ++ tail)).drop
          (termLen (p.2 ++ (linesText (q :: lines) ++ tail)))) := by
        rw [hlen, List.drop_left, hfront, hc.termLen]
        exact Nat.lt_irrefl 0
      rw [sections_cons hp (hlen ▸ hterm.pos) hone, hlen, List.take_left, List.drop_left, hread]
      rfl

end Sections

section Fields

theorem firstSection_colon (h : 0x3A ∉ a) (v : QByteArray) :
    firstSection 0x3A (a ++ 0x3A :: v) = a := by
  have hall : ∀ c ∈ a, (c != 0x3A) = true := by
    intro c hc
    rw [bne_iff_ne]
    rintro rfl
    exact h hc
  rw [firstSection, List.takeWhile_append_of_pos hall, List.takeWhile_cons_of_neg (by decide),
    List.append_nil]

theorem lineField_colon (h : 0x3A ∉ a) (hne : a ≠ []) (v : QByteArray) :
    lineField (a ++ 0x3A :: v) = some (asciiLower (QByteArray.trimmed a), v) := by
  have hindex := indexOf_singleton h v
  have hlen : a.length ≠ 0 := fun he => hne (List.length_eq_zero_iff.1 he)
  rw [lineField, show latin1 ":" = [0x3A] from rfl, hindex]
  dsimp only
  rw [if_neg hlen, List.take_left, ← List.drop_drop, List.drop_left]
  rfl

theorem lineField_some (h : lineField l = some f) :
    ∃ a v, 0x3A ∉ a ∧ a ≠ [] ∧ l = a ++ 0x3A :: v := by
  rw [lineField] at h
  cases hindex : indexOf (latin1 ":") l with
  | none =>
    rw [hindex] at h
    cases h
  | some colon =>
    rw [hindex] at h
    dsimp only at h
    split at h
    · cases h
    · rename_i hpos
      obtain ⟨hsplit, hle⟩ := indexOf_split hindex
      have hle : colon + 1 ≤ l.length := hle
      refine ⟨l.take colon, l.drop (colon + 1), ?_, ?_, hsplit⟩
      · exact not_mem_take_indexOf hindex
      · intro he
        rcases List.take_eq_nil_iff.1 he with rfl | rfl
        · exact hpos rfl
        · exact absurd hle (Nat.not_lt_zero _)

theorem isLength_parted (h : isLengthLine l = true) :
    ∃ a v, 0x3A ∉ a ∧ a ≠ [] ∧ l = a ++ 0x3A :: v ∧
      asciiLower (QByteArray.trimmed a) = latin1 "content-length" := by
  rw [isLengthLine] at h
  cases hf : lineField l with
  | none =>
    rw [hf] at h
    cases h
  | some f =>
    obtain ⟨a, v, ha, hne, rfl⟩ := lineField_some hf
    rw [lineField_colon ha hne] at h
    exact ⟨a, v, ha, hne, rfl, beq_iff_eq.1 h⟩

theorem isLength_colon (ha : 0x3A ∉ a) (hne : a ≠ [])
    (hname : asciiLower (QByteArray.trimmed a) = latin1 "content-length") (v : QByteArray) :
    isLengthLine (a ++ 0x3A :: v) = true := by
  rw [isLengthLine, lineField_colon ha hne, Option.any_some, hname]
  rfl

end Fields

section Recompute

variable {lines : List (QByteArray × QByteArray)} {n : Int}

def measuredLine (n : Int) (line : QByteArray × QByteArray) : QByteArray × QByteArray :=
  if isLengthLine line.1 then
    (firstSection 0x3A line.1 ++ latin1 ": " ++ QByteArray.number n, line.2)
  else line

def lengthCount (lines : List (QByteArray × QByteArray)) : Nat :=
  lines.countP (fun line => isLengthLine line.1)

def hasChunked (lines : List (QByteArray × QByteArray)) : Bool :=
  lines.any (fun line => isChunkedLine line.1)

def hasRealHeader (lines : List (QByteArray × QByteArray)) : Bool :=
  lines.any (fun line => !(QByteArray.trimmed line.1).isEmpty)

def addedLine (n : Int) (term : QByteArray) : QByteArray × QByteArray :=
  (latin1 "Content-Length: " ++ QByteArray.number n, term)

def lastTerm (lines : List (QByteArray × QByteArray)) : QByteArray :=
  (lines.getLast?.map Prod.snd).getD (latin1 "\r\n")

def newLines (n : Int) (lines : List (QByteArray × QByteArray)) :
    List (QByteArray × QByteArray) :=
  lines.map (measuredLine n) ++
    if lengthCount lines = 0 ∧ 0 < n ∧ hasRealHeader lines then [addedLine n (lastTerm lines)] else []

def bodyOf (tail : QByteArray) : QByteArray := tail.drop (termLen tail)

theorem recompute_none (h : sections req = none) : recomputeContentLength req = req := by
  rw [sections, Option.map_eq_none_iff] at h
  rw [recomputeContentLength, h]

theorem recompute_some (h : sections req = some (lines, tail)) :
    recomputeContentLength req =
      if hasChunked lines || 1 < lengthCount lines then req
      else linesText (newLines (asInt (bodyOf tail).length) lines) ++ tail := by
  rw [sections, Option.map_eq_some_iff] at h
  obtain ⟨⟨head, term, tail'⟩, hsplit, he⟩ := h
  cases he
  have hline : (fun line => (measuredLine (asInt (bodyOf tail').length) line).1 ++
      (measuredLine (asInt (bodyOf tail').length) line).2) =
      recomputedLine (asInt (bodyOf tail').length) := by
    funext line
    rw [measuredLine, recomputedLine]
    split
    · rfl
    · rfl
  rw [recomputeContentLength, hsplit]
  dsimp only
  rw [newLines, linesText, List.flatMap_append, List.flatMap_map, hline]
  split
  · rename_i hkept
    exact (if_pos hkept).symm
  · rename_i hnew
    refine Eq.trans ?_ (if_neg hnew).symm
    congr 2
    rw [lengthCount, hasRealHeader, bodyOf]
    split
    · exact (List.append_nil _).symm
    · rfl

theorem measured_isLength (n : Int) (p : QByteArray × QByteArray) :
    isLengthLine (measuredLine n p).1 = isLengthLine p.1 := by
  rw [measuredLine]
  split
  · rename_i hp
    obtain ⟨a, v, ha, hne, hl, hname⟩ := isLength_parted hp
    rw [hp, hl, firstSection_colon ha, List.append_assoc]
    exact isLength_colon ha hne hname _
  · rfl

theorem measured_idempotent (n : Int) (p : QByteArray × QByteArray) :
    measuredLine n (measuredLine n p) = measuredLine n p := by
  cases hp : isLengthLine p.1 with
  | true =>
    obtain ⟨a, v, ha, hne, hl, hname⟩ := isLength_parted hp
    have hone : measuredLine n p = (a ++ 0x3A :: (0x20 :: QByteArray.number n), p.2) := by
      rw [measuredLine, if_pos hp, hl, firstSection_colon ha, List.append_assoc]
      rfl
    rw [hone, measuredLine, if_pos (isLength_colon ha hne hname _), firstSection_colon ha,
      List.append_assoc]
    rfl
  | false =>
    have hkeep : measuredLine n p = p := by
      rw [measuredLine, if_neg (Bool.eq_false_iff.1 hp)]
    rw [hkeep, hkeep]

theorem added_parted (n : Int) (term : QByteArray) :
    addedLine n term = (latin1 "Content-Length" ++ 0x3A :: (0x20 :: QByteArray.number n), term) :=
  rfl

theorem added_isLength (n : Int) (term : QByteArray) :
    isLengthLine (addedLine n term).1 = true := by
  rw [added_parted]
  exact isLength_colon (by decide) (by decide) (by decide) _

theorem measured_added (n : Int) (term : QByteArray) :
    measuredLine n (addedLine n term) = addedLine n term := by
  rw [measuredLine, if_pos (added_isLength n term), added_parted,
    firstSection_colon (by decide), List.append_assoc]
  rfl

theorem lengthCount_eq_zero (h : lengthCount lines = 0) (hp : p ∈ lines) :
    isLengthLine p.1 = false :=
  Bool.eq_false_iff.2 (List.countP_eq_zero.1 h p hp)

theorem map_measured (h : lengthCount lines = 0) (n : Int) :
    lines.map (measuredLine n) = lines := by
  have hall : ∀ p ∈ lines, measuredLine n p = p := by
    intro p hp
    rw [measuredLine, lengthCount_eq_zero h hp]
    rfl
  rw [List.map_congr_left hall, List.map_id']

theorem lengthCount_measured (n : Int) (lines : List (QByteArray × QByteArray)) :
    lengthCount (lines.map (measuredLine n)) = lengthCount lines := by
  rw [lengthCount, List.countP_map, lengthCount]
  apply List.countP_congr
  intro p _
  rw [Function.comp_apply, measured_isLength]

theorem newLines_cases (n : Int) (lines : List (QByteArray × QByteArray)) :
    newLines n lines = lines.map (measuredLine n) ∨
      (lengthCount lines = 0 ∧ 0 < n ∧ hasRealHeader lines = true ∧
        newLines n lines = lines ++ [addedLine n (lastTerm lines)]) := by
  rw [newLines]
  split
  · rename_i hadd
    rw [map_measured hadd.1]
    exact .inr ⟨hadd.1, hadd.2.1, hadd.2.2, rfl⟩
  · exact .inl (List.append_nil _)

theorem measured_oneLine (n : Int) (h : ChainRunner.OneLine p.1) :
    ChainRunner.OneLine (measuredLine n p).1 := by
  rw [measuredLine]
  split
  · have hname : ChainRunner.OneLine (firstSection 0x3A p.1) :=
      fun c hc => h c ((List.takeWhile_prefix _).subset hc)
    have hcolon : ChainRunner.OneLine (latin1 ": ") := forall_mem_of_all (by decide)
    exact (hname.append hcolon).append (number_oneLine n)
  · exact h

theorem measured_term (n : Int) (p : QByteArray × QByteArray) : (measuredLine n p).2 = p.2 := by
  rw [measuredLine]
  split
  · rfl
  · rfl

theorem measured_full (n : Int) (h : p.1 ≠ []) : (measuredLine n p).1 ≠ [] := by
  rw [measuredLine]
  split
  · have hcolon : latin1 ": " ≠ [] := by decide
    exact List.append_ne_nil_of_left_ne_nil (List.append_ne_nil_of_right_ne_nil _ hcolon) _
  · exact h

theorem Sections.measured (h : Sections lines tail) (n : Int) :
    Sections (lines.map (measuredLine n)) tail where
  some he := h.some (List.map_eq_nil_iff.1 he)
  oneLine p hp := by
    obtain ⟨q, hq, rfl⟩ := List.mem_map.1 hp
    exact measured_oneLine n (h.oneLine q hq)
  ends p hp := by
    obtain ⟨q, hq, rfl⟩ := List.mem_map.1 hp
    rw [measured_term]
    exact h.ends q hq
  full p hp := by
    rw [← List.map_tail] at hp
    obtain ⟨q, hq, rfl⟩ := List.mem_map.1 hp
    exact measured_full n (h.full q hq)
  last p hp := by
    rw [List.getLast?_map, Option.map_eq_some_iff] at hp
    obtain ⟨q, hq, rfl⟩ := hp
    rw [measured_term]
    exact h.last q hq
  blank := h.blank

theorem Sections.added (h : Sections lines tail) (n : Int) :
    Sections (lines ++ [addedLine n (lastTerm lines)]) tail := by
  have hlast : lines.getLast? = Option.some (lines.getLast h.some) := List.getLast?_eq_some_getLast h.some
  have hterm : lastTerm lines = (lines.getLast h.some).2 := by
    rw [lastTerm, hlast]
    rfl
  have hname : ChainRunner.OneLine (latin1 "Content-Length: ") := forall_mem_of_all (by decide)
  refine ⟨List.append_ne_nil_of_left_ne_nil h.some _, ?_, ?_, ?_, ?_, h.blank⟩
  · intro p hp
    rcases List.mem_append.1 hp with hp | hp
    · exact h.oneLine p hp
    · rw [List.mem_singleton.1 hp]
      exact hname.append (number_oneLine n)
  · intro p hp
    rcases List.mem_append.1 hp with hp | hp
    · exact h.ends p hp
    · rw [List.mem_singleton.1 hp]
      show IsTerm (lastTerm lines)
      rw [hterm]
      exact h.ends _ (List.getLast_mem h.some)
  · intro p hp
    rw [List.tail_append_of_ne_nil h.some] at hp
    rcases List.mem_append.1 hp with hp | hp
    · exact h.full p hp
    · rw [List.mem_singleton.1 hp, added_parted]
      exact List.cons_ne_nil _ _
  · intro p hp
    rw [List.getLast?_concat] at hp
    rw [← Option.some.inj hp]
    show termLen (lastTerm lines ++ tail) = (lastTerm lines).length
    rw [hterm]
    exact h.last _ hlast

theorem Sections.newLines (h : Sections lines tail) (n : Int) :
    Sections (newLines n lines) tail := by
  rcases newLines_cases n lines with he | ⟨-, -, -, he⟩
  · rw [he]
    exact h.measured n
  · rw [he]
    exact h.added n

theorem newLines_idempotent (n : Int) (lines : List (QByteArray × QByteArray)) :
    newLines n (newLines n lines) = newLines n lines := by
  rcases newLines_cases n lines with he | ⟨hnone, hpos, hreal, he⟩
  · have hmap : (lines.map (measuredLine n)).map (measuredLine n) =
        lines.map (measuredLine n) := by
      rw [List.map_map]
      apply List.map_congr_left
      intro p _
      exact measured_idempotent n p
    rcases newLines_cases n (newLines n lines) with he' | ⟨hnone', hpos, hreal, -⟩
    · rw [he', he, hmap]
    · -- lines without a length, with a body and a header, have one added
      rw [he, lengthCount_measured] at hnone'
      rw [he, map_measured hnone'] at hreal
      rw [newLines, map_measured hnone', if_pos ⟨hnone', hpos, hreal⟩] at he
      have hlen := congrArg List.length he
      rw [List.length_append, List.length_singleton] at hlen
      omega
  · have hcount : lengthCount (newLines n lines) ≠ 0 := by
      intro hzero
      have hnot := lengthCount_eq_zero hzero (p := addedLine n (lastTerm lines))
        (by rw [he]; exact List.mem_append_right _ (List.mem_singleton_self _))
      rw [added_isLength] at hnot
      cases hnot
    rcases newLines_cases n (newLines n lines) with he' | ⟨hnone', -⟩
    · rw [he', he, List.map_append, map_measured hnone, List.map_singleton, measured_added]
    · exact absurd hnone' hcount

/-- The request passes as it is, without a blank line or framed so. -/
def Verbatim (req : QByteArray) : Prop :=
  sections req = none ∨ ∃ lines tail, sections req = some (lines, tail) ∧
    (hasChunked lines = true ∨ 1 < lengthCount lines)

inductive Measured (size : Nat) (lines : List (QByteArray × QByteArray)) :
    List (QByteArray × QByteArray) → Prop
  | kept : Measured size lines (lines.map (measuredLine size))
  | added : lengthCount lines = 0 → 0 < size → lines.getLast? = some p →
      Measured size lines (lines ++ [addedLine size p.2])

/-- Only the length changes, and the blank line stays in its place. -/
def Recomputed (req out : QByteArray) : Prop :=
  (Verbatim req ∧ out = req) ∨
    ∃ lines tail lines', sections req = some (lines, tail) ∧ req = linesText lines ++ tail ∧
      Measured (bodyOf tail).length lines lines' ∧ out = linesText lines' ++ tail ∧
      sections out = some (lines', tail)

def SizeFits (req : QByteArray) : Prop :=
  Verbatim req ∨ ∃ lines tail, sections req = some (lines, tail) ∧
    ((bodyOf tail).length < 2 ^ 31 ∨
      lengthCount lines = 0 ∧ ¬ (0 < asInt (bodyOf tail).length ∧ hasRealHeader lines = true))

theorem Verbatim.recompute (h : Verbatim req) : recomputeContentLength req = req := by
  rcases h with h | ⟨lines, tail, h, hkept⟩
  · exact recompute_none h
  · rw [recompute_some h, if_pos]
    rw [Bool.or_eq_true, decide_eq_true_eq]
    exact hkept

theorem recompute_new (h : sections req = some (lines, tail)) (hnot : ¬ Verbatim req) :
    hasChunked lines = false ∧ lengthCount lines ≤ 1 ∧
      recomputeContentLength req =
        linesText (newLines (asInt (bodyOf tail).length) lines) ++ tail ∧
      sections (recomputeContentLength req) =
        some (newLines (asInt (bodyOf tail).length) lines, tail) := by
  have hflags : ¬ (hasChunked lines = true ∨ 1 < lengthCount lines) :=
    fun hkept => hnot (.inr ⟨lines, tail, h, hkept⟩)
  have hnew : recomputeContentLength req =
      linesText (newLines (asInt (bodyOf tail).length) lines) ++ tail := by
    rw [recompute_some h, if_neg]
    rw [Bool.or_eq_true, decide_eq_true_eq]
    exact hflags
  refine ⟨Bool.eq_false_iff.2 (fun hc => hflags (.inl hc)),
    Nat.le_of_not_lt (fun hc => hflags (.inr hc)), hnew, ?_⟩
  rw [hnew]
  exact sections_written ((sections_spec req h).1.newLines _)

theorem recompute_idempotent (req : QByteArray) :
    recomputeContentLength (recomputeContentLength req) = recomputeContentLength req := by
  by_cases hverbatim : Verbatim req
  · rw [hverbatim.recompute, hverbatim.recompute]
  · cases h : sections req with
    | none => exact absurd (.inl h) hverbatim
    | some found =>
      obtain ⟨lines, tail⟩ := found
      obtain ⟨hchunked, hcount, hnew, hread⟩ := recompute_new h hverbatim
      rw [recompute_some hread, newLines_idempotent, ← hnew, ite_self]

theorem newLines_measured (h : (bodyOf tail).length < 2 ^ 31)
    (hs : Sections lines tail) :
    Measured (bodyOf tail).length lines (newLines (asInt (bodyOf tail).length) lines) := by
  rw [(asInt_eq_iff _).2 h]
  rcases newLines_cases ((bodyOf tail).length : Int) lines with he | ⟨hnone, hpos, -, he⟩
  · rw [he]
    exact .kept
  · have hlast : lines.getLast? = some (lines.getLast hs.some) := List.getLast?_eq_some_getLast hs.some
    have hterm : lastTerm lines = (lines.getLast hs.some).2 := by
      rw [lastTerm, hlast]
      rfl
    rw [he, hterm]
    exact .added hnone (Int.natCast_pos.1 hpos) hlast

theorem addedLine_inj {k : Nat} (h : addedLine a t = addedLine k t') : a = k := by
  have htext := (Prod.mk.inj h).1
  exact (number_eq_iff a k).1 (List.append_cancel_left htext)

theorem measuredLine_inj (hp : isLengthLine p.1 = true)
    {k : Nat} (h : measuredLine a p = measuredLine k p) : a = k := by
  rw [measuredLine, if_pos hp, measuredLine, if_pos hp] at h
  exact (number_eq_iff a k).1 (List.append_cancel_left (Prod.mk.inj h).1)

/-- The computed lines are those asked for only with the size itself. -/
theorem Measured.exact {k : Nat} (h : Measured k lines (newLines n lines))
    (hwrites : lengthCount lines ≠ 0 ∨ 0 < n ∧ hasRealHeader lines = true) : n = k := by
  generalize hnew : newLines n lines = lines' at h
  cases h with
  | kept =>
    rcases newLines_cases n lines with he | ⟨hnone, -, -, he⟩
    · by_cases hcount : lengthCount lines = 0
      · obtain ⟨hpos, hreal⟩ := hwrites.resolve_left (fun hne => hne hcount)
        rw [newLines, map_measured hcount, map_measured hcount, if_pos ⟨hcount, hpos, hreal⟩] at hnew
        have hlen := congrArg List.length hnew
        rw [List.length_append, List.length_singleton] at hlen
        omega
      · obtain ⟨p, hp, hlength⟩ := List.countP_pos_iff.1 (Nat.pos_of_ne_zero hcount)
        exact measuredLine_inj hlength (List.map_inj_left.1 (he.symm.trans hnew) p hp)
    · rw [he, map_measured hnone] at hnew
      have hlen := congrArg List.length hnew
      rw [List.length_append, List.length_singleton] at hlen
      omega
  | @added p hnone hpos hlast =>
    rcases newLines_cases n lines with he | ⟨-, -, -, he⟩
    · rw [he, map_measured hnone] at hnew
      have hlen := congrArg List.length hnew
      rw [List.length_append, List.length_singleton] at hlen
      omega
    · have hline := List.append_cancel_left (he.symm.trans hnew)
      exact addedLine_inj (List.cons.inj hline).1

/-- Only the length changes, twice as once, when the size fits. -/
theorem recomputed_iff (req : QByteArray) :
    (Recomputed req (recomputeContentLength req) ∧
      recomputeContentLength (recomputeContentLength req) = recomputeContentLength req) ↔
      SizeFits req := by
  rw [and_iff_left (recompute_idempotent req)]
  by_cases hverbatim : Verbatim req
  · exact iff_of_true (.inl ⟨hverbatim, hverbatim.recompute⟩) (.inl hverbatim)
  · cases h : sections req with
    | none => exact absurd (.inl h) hverbatim
    | some found =>
      obtain ⟨lines, tail⟩ := found
      obtain ⟨hs, htext, -⟩ := sections_spec req h
      obtain ⟨-, -, hnew, hread⟩ := recompute_new h hverbatim
      constructor
      · rintro (⟨hkept, -⟩ | ⟨lines₁, tail₁, lines', h₁, -, hmeasured, -, hout⟩)
        · exact absurd hkept hverbatim
        · rw [h] at h₁
          cases h₁
          rw [hread] at hout
          cases hout
          refine .inr ⟨lines, tail, h, ?_⟩
          by_cases hwrites : lengthCount lines ≠ 0 ∨
              0 < asInt (bodyOf tail).length ∧ hasRealHeader lines = true
          · exact .inl ((asInt_eq_iff _).1 (hmeasured.exact hwrites))
          · obtain ⟨hcount, hnone⟩ := not_or.1 hwrites
            exact .inr ⟨not_not.1 hcount, hnone⟩
      · rintro (hkept | ⟨lines₁, tail₁, h₁, hsize⟩)
        · exact absurd hkept hverbatim
        · rw [h] at h₁
          cases h₁
          refine .inr ⟨lines, tail, _, h, htext, ?_, hnew, hread⟩
          rcases hsize with hsmall | ⟨hcount, hnone⟩
          · exact newLines_measured hsmall hs
          · have hkeep : newLines (asInt (bodyOf tail).length) lines =
                lines.map (measuredLine (bodyOf tail).length) := by
              rw [newLines, map_measured hcount, map_measured hcount, if_neg (fun h => hnone h.2),
                List.append_nil]
            rw [hkeep]
            exact .kept

def longRequest : QByteArray :=
  latin1 "Content-Length: 3" ++ (crlf ++ (crlf ++ List.replicate (2 ^ 31) 0x61))

/-- The length of a body of two gibibytes is written as a negative number. -/
theorem long_body_negative :
    ¬ (Recomputed longRequest (recomputeContentLength longRequest) ∧
      recomputeContentLength (recomputeContentLength longRequest) =
        recomputeContentLength longRequest) := by
  rw [recomputed_iff]
  have hline : ChainRunner.OneLine (latin1 "Content-Length: 3") := forall_mem_of_all (by decide)
  have hblank : BlankFront (crlf ++ (crlf ++ List.replicate (2 ^ 31) 0x61)) :=
    ⟨Nat.two_pos, Nat.two_pos⟩
  have hread : sections longRequest =
      some ([(latin1 "Content-Length: 3", crlf)], crlf ++ List.replicate (2 ^ 31) 0x61) :=
    sections_blank hline hblank
  have hsize : (bodyOf (crlf ++ List.replicate (2 ^ 31) 0x61)).length = 2 ^ 31 :=
    List.length_replicate
  rintro ((hnone | ⟨lines, tail, h, hkept⟩) | ⟨lines, tail, h, hfits⟩)
  · rw [hread] at hnone
    cases hnone
  · rw [hread] at h
    cases h
    exact absurd hkept (by decide)
  · rw [hread] at h
    cases h
    rw [hsize] at hfits
    rcases hfits with hfits | ⟨hcount, -⟩
    · exact Nat.lt_irrefl _ hfits
    · exact absurd hcount (by decide)

end Recompute

end Nullock.Proxy.InterceptLogic

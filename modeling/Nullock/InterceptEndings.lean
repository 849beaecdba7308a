import Nullock.InterceptLengths

namespace Nullock.Proxy.InterceptLogic
open ChainRunner

section Definitions

/-- The terminator that the first line feed belongs to; without one it is CRLF. -/
def lineStyle : Option UInt8 → QByteArray → QByteArray
  | _, [] => crlf
  | before, c :: s =>
    if c = 0x0A then if before = some 0x0D then crlf else [0x0A]
    else lineStyle (some c) s

def declaresBody (head : QByteArray) : Bool :=
  (headerLines [] 0 head).any (fun line => isLengthLine line || isChunkedLine line)

def isBreak (c : UInt8) : Bool := c == 0x0D || c == 0x0A

def fixTrailingNewline (req : QByteArray) : QByteArray :=
  match blankLine 0 0 req with
  | none =>
    let term := lineStyle none req
    let out := if term.isSuffixOf req then req else req ++ term
    out ++ term
  | some (sep, sepLen) =>
    let head := req.take (sep + sepLen)
    let tail := req.drop (sep + sepLen)
    if tail.isEmpty then req
    else if tail.any (fun c => !isBreak c) then req
    else if declaresBody head then req
    else head

end Definitions

section LastLine

theorem termLen_zero_append (h : termLen s = 0) (hne : s ≠ []) (rest : QByteArray) :
    termLen (s ++ rest) = 0 := by
  obtain ⟨c, s, rfl⟩ := List.exists_cons_of_ne_nil hne
  have hc : ¬ (c = 0x0A ∨ c = 0x0D) := fun hc => (termLen_pos_iff.2 hc).ne' h
  obtain ⟨hlf, hcr⟩ := not_or.1 hc
  exact termLen_other hlf hcr _

theorem last_line (s : QByteArray) (h : blankLine 0 0 s = none) :
    ∃ front l r, s = front ++ (l ++ r) ∧ ChainRunner.OneLine l ∧ (r = [] ∨ IsTerm r) ∧
      (l = [] → front = []) ∧
      ∀ i rest, blankLine i 0 (s ++ rest) = blankLine (i + front.length) 0 (l ++ (r ++ rest)) := by
  induction hn : s.length using Nat.strongRecOn generalizing s with
  | ind n ih =>
    obtain ⟨l, r, hl, rfl, hnil | hblank | ⟨hpos, hnext⟩⟩ := parts_cases s
    · refine ⟨[], l, r, rfl, hl, .inl hnil, fun _ => rfl, fun i rest => ?_⟩
      rw [List.append_assoc]
      rfl
    · have hparts := parts_blank hl hblank
      rw [parts, h] at hparts
      cases hparts
    · have hzero : termLen (r.drop (termLen r)) = 0 := Nat.eq_zero_of_not_pos hnext
      by_cases hend : r.drop (termLen r) = []
      · have hr : r.take (termLen r) = r := by
          have hsplit := List.take_append_drop (termLen r) r
          rw [hend, List.append_nil] at hsplit
          exact hsplit
        refine ⟨[], l, r, rfl, hl, .inr (hr ▸ isTerm_take hpos), fun _ => rfl, fun i rest => ?_⟩
        rw [List.append_assoc]
        rfl
      · have hrest : blankLine 0 0 (r.drop (termLen r)) = none := by
          rw [blankLine_line hl, blankLine_terminator hpos hnext, blankLine_shift,
            Option.map_eq_none_iff] at h
          exact h
        obtain ⟨front, l', r', hs, hl', hr', hfirst, hblank⟩ :=
          ih _ (hn ▸ rest_lt l hpos) _ hrest rfl
        refine ⟨l ++ (r.take (termLen r) ++ front), l', r', ?_, hl', hr', ?_, ?_⟩
        · rw [List.append_assoc, List.append_assoc, ← hs, List.take_append_drop]
        · intro hempty
          -- a line behind a terminator is not empty
          exfalso
          rw [hempty, hfirst hempty, List.nil_append, List.nil_append] at hs
          rcases hr' with rfl | hterm
          · exact hend hs
          · rw [hs] at hzero
            rcases hterm with rfl | rfl | rfl
            · cases hzero
            · cases hzero
            · cases hzero
        · intro i rest
          have hfull : termLen (r ++ rest) = termLen r := by
            cases r with
            | nil => exact absurd hpos (Nat.lt_irrefl 0)
            | cons c r =>
              cases r with
              | nil =>
                have hle := termLen_le_length [c]
                exact absurd (List.drop_eq_nil_of_le (by
                  rw [List.length_singleton]
                  exact hpos)) hend
              | cons d r => exact termLen_append c d r rest
          have hdrop : (r ++ rest).drop (termLen r) = r.drop (termLen r) ++ rest :=
            List.drop_append_of_le_length (termLen_le_length r)
          have hone : ¬ 0 < termLen ((r ++ rest).drop (termLen (r ++ rest))) := by
            rw [hfull, hdrop, termLen_zero_append hzero hend]
            exact Nat.lt_irrefl 0
          rw [List.append_assoc, blankLine_line hl, blankLine_terminator (hfull ▸ hpos) hone, hfull,
            hdrop, hblank, List.length_append, List.length_append, length_take_termLen]
          congr 1
          omega

end LastLine

section Ends

theorem not_suffix_line (hl : ChainRunner.OneLine l) (hfirst : l = [] → front = [])
    (hc : c = 0x0A ∨ c = 0x0D) : ¬ [c] <:+ front ++ l := by
  intro hsuffix
  by_cases hempty : l = []
  · rw [hempty, hfirst hempty, List.append_nil, List.suffix_nil] at hsuffix
    cases hsuffix
  · obtain ⟨before, hlast⟩ := hsuffix
    have hmem := congrArg List.getLast? hlast
    rw [List.getLast?_concat, List.getLast?_append_of_ne_nil front hempty] at hmem
    have hin := List.mem_of_getLast? hmem.symm
    rcases hc with rfl | rfl
    · exact (hl _ hin).1 rfl
    · exact (hl _ hin).2 rfl

theorem suffix_last {a : α} (h : s ++ [a] <:+ t ++ [b]) : s <:+ t ∧ a = b := by
  obtain ⟨before, he⟩ := h
  rw [← List.append_assoc] at he
  obtain ⟨hs, hab⟩ := List.append_inj' he rfl
  exact ⟨⟨before, hs⟩, (List.cons.inj hab).1⟩

theorem lineStyle_cases (before : Option UInt8) (s : QByteArray) :
    lineStyle before s = crlf ∨ lineStyle before s = [0x0A] := by
  induction s generalizing before with
  | nil => exact .inl rfl
  | cons c s ih =>
    rw [lineStyle]
    split
    · split
      · exact .inl rfl
      · exact .inr rfl
    · exact ih (some c)

theorem blankLine_sections (h : sections req = some (lines, tail)) :
    ∃ sep sepLen, blankLine 0 0 req = some (sep, sepLen) ∧
      sep + sepLen = (linesText lines ++ tail.take (termLen tail)).length := by
  obtain ⟨-, htext, -⟩ := sections_spec req h
  rw [sections, splitTail] at h
  cases hb : blankLine 0 0 req with
  | none =>
    rw [hb] at h
    cases h
  | some found =>
    obtain ⟨sep, sepLen⟩ := found
    obtain ⟨j, hj, hfront, hlen, -⟩ := blankLine_first hb
    rw [Nat.zero_add] at hj
    subst hj
    rw [hb, Option.map_some, Option.map_some] at h
    have htail : req.drop (sep + termLen (req.drop sep)) = tail := by
      rw [← length_take_termLen (req.drop sep)]
      exact (Prod.mk.inj (Option.some.inj h)).2
    have hin := hfront.lt_length
    have htotal := congrArg List.length htext
    have hrest := congrArg List.length htail
    rw [List.length_append] at htotal
    rw [List.length_drop] at hin hrest
    refine ⟨sep, sepLen, rfl, ?_⟩
    rw [hlen, List.drop_drop, htail, List.length_append, length_take_termLen]
    omega

theorem sections_none : sections req = none ↔ blankLine 0 0 req = none := by
  rw [sections, splitTail, Option.map_eq_none_iff, Option.map_eq_none_iff]

theorem Sections.closed (h : Sections lines tail) : Sections lines (tail.take (termLen tail)) where
  some := h.some
  oneLine := h.oneLine
  ends := h.ends
  full := h.full
  last p hp := by
    have hkept := termLen_take (p.2 ++ tail) (termLen tail)
    rw [h.last p hp, List.take_length_add_append] at hkept
    exact hkept
  blank := by
    rw [termLen_take_self]
    exact h.blank

theorem fix_none (h : blankLine 0 0 req = none) :
    fixTrailingNewline req = req ++ ((if (lineStyle none req).isSuffixOf req then []
      else lineStyle none req) ++ lineStyle none req) := by
  rw [fixTrailingNewline, h]
  dsimp only
  split
  · rw [List.nil_append]
  · rw [List.append_assoc]

theorem fix_some (h : sections req = some (lines, tail)) :
    fixTrailingNewline req =
      if (bodyOf tail).all isBreak &&
          !declaresBody (linesText lines ++ tail.take (termLen tail)) then
        linesText lines ++ tail.take (termLen tail)
      else req := by
  obtain ⟨sep, sepLen, hblank, hlen⟩ := blankLine_sections h
  obtain ⟨-, htext, -⟩ := sections_spec req h
  have hsplit : req = (linesText lines ++ tail.take (termLen tail)) ++ bodyOf tail := by
    rw [List.append_assoc, bodyOf, List.take_append_drop, ← htext]
  generalize linesText lines ++ tail.take (termLen tail) = head at hlen hsplit ⊢
  have htake : req.take (sep + sepLen) = head := by
    rw [hlen, hsplit, List.take_left]
  have hdrop : req.drop (sep + sepLen) = bodyOf tail := by
    rw [hlen, hsplit, List.drop_left]
  rw [fixTrailingNewline, hblank]
  dsimp only
  rw [htake, hdrop]
  cases hbody : bodyOf tail with
  | nil =>
    rw [hbody, List.append_nil] at hsplit
    rw [hsplit, List.isEmpty_nil, if_pos rfl, ite_self]
  | cons c body =>
    rw [List.isEmpty_cons, if_neg Bool.false_ne_true, List.any_eq_not_all_not]
    simp only [Bool.not_not]
    cases (c :: body).all isBreak with
    | false => rfl
    | true =>
      cases declaresBody head with
      | false => rfl
      | true => rfl

theorem headerLines_closed (h : Sections lines tail) :
    ∀ l ∈ headerLines [] 0 (linesText lines ++ tail.take (termLen tail)),
      l = [] ∨ ∃ p ∈ lines, l = p.1 := by
  have hclosed := h.closed
  generalize ht : tail.take (termLen tail) = t at hclosed ⊢
  have hend : headerLines [] 0 t = [[]] := by
    rw [headerLines_terminator hclosed.blank, ← ht, termLen_take_self, List.drop_take, Nat.sub_self]
    rfl
  clear h ht
  induction lines with
  | nil => exact absurd rfl hclosed.some
  | cons p lines ih =>
    have hone := hclosed.oneLine p List.mem_cons_self
    have hlen : termLen (p.2 ++ (linesText lines ++ t)) = p.2.length := by
      cases lines with
      | nil => exact hclosed.last p rfl
      | cons q lines =>
        obtain ⟨c, m, hm⟩ := List.exists_cons_of_ne_nil (hclosed.full q List.mem_cons_self)
        have hc : c ≠ 0x0A :=
          (hclosed.oneLine q (List.mem_cons_of_mem p List.mem_cons_self) c
            (hm ▸ List.mem_cons_self)).1
        rw [linesText_cons, hm]
        exact (hclosed.ends p List.mem_cons_self).before hc _
    have hpos : 0 < termLen (p.2 ++ (linesText lines ++ t)) := by
      rw [hlen]
      exact (hclosed.ends p List.mem_cons_self).pos
    rw [linesText_cons, List.append_assoc, List.append_assoc, headerLines_line hone,
      headerLines_terminator hpos, hlen, List.drop_left]
    intro l hl
    rcases List.mem_cons.1 hl with rfl | hl
    · exact .inr ⟨p, List.mem_cons_self, rfl⟩
    · cases lines with
      | nil =>
        rw [linesText, List.flatMap_nil, List.nil_append, hend, List.mem_singleton] at hl
        exact .inl hl
      | cons q lines =>
        have hrest : Sections (q :: lines) t :=
          ⟨List.cons_ne_nil _ _, fun r hr => hclosed.oneLine r (List.mem_cons_of_mem p hr),
            fun r hr => hclosed.ends r (List.mem_cons_of_mem p hr),
            fun r hr => hclosed.full r (List.mem_cons_of_mem q hr),
            fun r hr => hclosed.last r (by
              rw [List.getLast?_cons_of_ne_nil (List.cons_ne_nil _ _)]
              exact hr),
            hclosed.blank⟩
        rcases ih hrest l hl with hnil | ⟨r, hr, he⟩
        · exact .inl hnil
        · exact .inr ⟨r, List.mem_cons_of_mem p hr, he⟩

theorem declares_lines (h : Sections lines tail)
    (hdeclares : declaresBody (linesText lines ++ tail.take (termLen tail)) = true) :
    lengthCount lines ≠ 0 ∨ hasChunked lines = true := by
  obtain ⟨l, hl, hfield⟩ := List.any_eq_true.1 hdeclares
  rcases headerLines_closed h l hl with rfl | ⟨p, hp, rfl⟩
  · exact absurd hfield (by decide)
  · rcases Bool.or_eq_true _ _ ▸ hfield with hlength | hchunked
    · exact .inl (List.countP_pos_iff.2 ⟨p, hp, hlength⟩).ne'
    · exact .inr (List.any_eq_true.2 ⟨p, hp, hchunked⟩)

end Ends

section Repair

def lengths (req : QByteArray) : Option Nat := (sections req).map (fun found => lengthCount found.1)

def WithoutBody (req : QByteArray) : Prop :=
  ∀ lines tail, sections req = some (lines, tail) → (bodyOf tail).all isBreak = true

def Repaired (req out : QByteArray) : Prop :=
  if blankLine 0 0 req = none then
    ∃ t, t.all isBreak = true ∧ out = req ++ t ∧
      ∃ sep sepLen, blankLine 0 0 out = some (sep, sepLen) ∧ sep + sepLen = out.length
  else ∃ t, t.all isBreak = true ∧ req = out ++ t

/-- There is a blank line, the first line feed is bare, or the end is CRLF or text. -/
def EndsProperly (req : QByteArray) : Prop :=
  blankLine 0 0 req ≠ none ∨ lineStyle none req = [0x0A] ∨ crlf <:+ req ∨
    ∀ c, req.getLast? = some c → isBreak c = false

theorem recompute_lengths (h : ∀ lines tail, sections req = some (lines, tail) →
    bodyOf tail = [] ∨ lengthCount lines ≠ 0 ∨ hasChunked lines = true) :
    lengths (recomputeContentLength req) = lengths req := by
  by_cases hverbatim : Verbatim req
  · rw [hverbatim.recompute]
  · cases hs : sections req with
    | none => exact absurd (.inl hs) hverbatim
    | some found =>
      obtain ⟨lines, tail⟩ := found
      obtain ⟨hchunked, -, -, hread⟩ := recompute_new hs hverbatim
      rw [lengths, hread, lengths, hs, Option.map_some, Option.map_some]
      congr 1
      dsimp only
      rcases newLines_cases (asInt (bodyOf tail).length) lines with he | ⟨hnone, hpos, -, -⟩
      · rw [he, lengthCount_measured]
      · exfalso
        rcases h lines tail hs with hempty | hcount | hflag
        · rw [hempty] at hpos
          exact absurd hpos (by decide)
        · exact hcount hnone
        · rw [hchunked] at hflag
          cases hflag

theorem closed_bodyOf (h : blankLine 0 0 req = some (sep, sepLen))
    (hend : sep + sepLen = req.length) (hs : sections req = some (lines, tail)) :
    bodyOf tail = [] := by
  obtain ⟨sep', sepLen', hblank, hlen⟩ := blankLine_sections hs
  obtain ⟨-, htext, -⟩ := sections_spec req hs
  rw [h] at hblank
  cases hblank
  have htotal := congrArg List.length htext
  rw [hlen, htotal, List.length_append, List.length_append, length_take_termLen] at hend
  rw [bodyOf, ← List.length_eq_zero_iff, List.length_drop]
  omega

theorem blankLine_front (h : BlankFront s) (i : Nat) :
    blankLine i 0 s = some (i, termLen s + termLen (s.drop (termLen s))) := by
  cases s with
  | nil => exact absurd h.1 (Nat.lt_irrefl 0)
  | cons c s =>
    rw [blankLine_cons]
    exact if_pos h

theorem suffix_term (hl : ChainRunner.OneLine l) (hfirst : l = [] → front = [])
    (hr : r = [] ∨ IsTerm r) :
    (crlf <:+ front ++ (l ++ r) ↔ r = crlf) ∧
      ([0x0A] <:+ front ++ (l ++ r) ↔ r = crlf ∨ r = [0x0A]) ∧
      ((∀ c, (front ++ (l ++ r)).getLast? = some c → isBreak c = false) ↔ r = []) := by
  have hcr : ¬ [0x0D] <:+ front ++ l := not_suffix_line hl hfirst (.inr rfl)
  have hlf : ¬ [0x0A] <:+ front ++ l := not_suffix_line hl hfirst (.inl rfl)
  rw [← List.append_assoc]
  have hlast (t : QByteArray) (c : UInt8) (hc : isBreak c = true) :
      ¬ ∀ d, (front ++ l ++ (t ++ [c])).getLast? = some d → isBreak d = false := by
    intro hall
    have hno := hall c (by rw [← List.append_assoc, List.getLast?_concat])
    rw [hc] at hno
    cases hno
  rcases hr with rfl | rfl | rfl | rfl
  · rw [List.append_nil]
    refine ⟨iff_of_false ?_ nofun, iff_of_false hlf (by decide), iff_of_true ?_ rfl⟩
    · intro hend
      exact hlf ((List.suffix_append [0x0D] [0x0A]).trans hend)
    · intro c hc
      obtain ⟨before, hs⟩ := List.getLast?_eq_some_iff.1 hc
      cases hbreak : isBreak c with
      | false => rfl
      | true =>
        have hend : [c] <:+ front ++ l := ⟨before, hs.symm⟩
        rcases Bool.or_eq_true _ _ ▸ hbreak with he | he
        · exact absurd (beq_iff_eq.1 he ▸ hend) hcr
        · exact absurd (beq_iff_eq.1 he ▸ hend) hlf
  · exact ⟨iff_of_true (List.suffix_append _ _) rfl,
      iff_of_true ((List.suffix_append [0x0D] [0x0A]).trans (List.suffix_append _ _)) (.inl rfl),
      iff_of_false (hlast [0x0D] 0x0A rfl) nofun⟩
  · refine ⟨iff_of_false ?_ (by decide), iff_of_false ?_ (by decide),
      iff_of_false (hlast [] 0x0D rfl) nofun⟩
    · intro hend
      exact absurd (suffix_last (s := [0x0D]) hend).2 (by decide)
    · intro hend
      exact absurd (suffix_last (s := []) hend).2 (by decide)
  · refine ⟨iff_of_false ?_ (by decide), iff_of_true (List.suffix_append _ _) (.inr rfl),
      iff_of_false (hlast [] 0x0A rfl) nofun⟩
    intro hend
    exact hcr (suffix_last (s := [0x0D]) hend).1

theorem text_ends (h : blankLine 0 0 s = none) :
    ∃ r, (r = [] ∨ IsTerm r) ∧ (crlf <:+ s ↔ r = crlf) ∧
      ([0x0A] <:+ s ↔ r = crlf ∨ r = [0x0A]) ∧
      ((∀ c, s.getLast? = some c → isBreak c = false) ↔ r = []) ∧
      ∀ rest, BlankFront (r ++ rest) → ∃ sep sepLen, blankLine 0 0 (s ++ rest) = some (sep, sepLen) ∧
        (sep + sepLen = (s ++ rest).length ↔
          termLen (r ++ rest) + termLen ((r ++ rest).drop (termLen (r ++ rest))) =
            (r ++ rest).length) := by
  obtain ⟨front, l, r, rfl, hl, hr, hfirst, hblank⟩ := last_line s h
  obtain ⟨hcrlf, hlf, hnone⟩ := suffix_term hl hfirst hr
  refine ⟨r, hr, hcrlf, hlf, hnone, ?_⟩
  intro rest hfront
  have hat := (hblank 0 rest).trans ((blankLine_line hl _ _).trans (blankLine_front hfront _))
  refine ⟨_, _, hat, ?_⟩
  rw [List.append_assoc, List.append_assoc, List.length_append, List.length_append]
  omega

theorem fix_closes_iff (h : blankLine 0 0 req = none) :
    (∃ sep sepLen, blankLine 0 0 (fixTrailingNewline req) = some (sep, sepLen) ∧
      sep + sepLen = (fixTrailingNewline req).length) ↔ EndsProperly req := by
  obtain ⟨r, hr, hcrlf, hlf, hnone, hblank⟩ := text_ends h
  have hat (rest : QByteArray) (he : fixTrailingNewline req = req ++ rest)
      (hfront : BlankFront (r ++ rest)) :
      (∃ sep sepLen, blankLine 0 0 (fixTrailingNewline req) = some (sep, sepLen) ∧
        sep + sepLen = (fixTrailingNewline req).length) ↔
        termLen (r ++ rest) + termLen ((r ++ rest).drop (termLen (r ++ rest))) =
          (r ++ rest).length := by
    obtain ⟨sep, sepLen, hfound, hlen⟩ := hblank rest hfront
    rw [he, hfound, ← hlen]
    constructor
    · rintro ⟨_, _, hsome, htotal⟩
      cases hsome
      exact htotal
    · exact fun htotal => ⟨sep, sepLen, rfl, htotal⟩
  have hfix := fix_none h
  rw [EndsProperly, h, hcrlf, hnone]
  rcases lineStyle_cases none req with hstyle | hstyle
  · rw [hstyle] at hfix ⊢
    by_cases hend : r = crlf
    · rw [if_pos (List.isSuffixOf_iff_suffix.2 (hcrlf.2 hend))] at hfix
      subst hend
      rw [hat _ hfix ⟨Nat.two_pos, Nat.two_pos⟩]
      exact iff_of_true rfl (.inr (.inr (.inl rfl)))
    · rw [if_neg (fun hs => hend (hcrlf.1 (List.isSuffixOf_iff_suffix.1 hs)))] at hfix
      rcases hr with rfl | rfl | rfl | rfl
      · rw [hat _ hfix ⟨Nat.two_pos, Nat.two_pos⟩]
        exact iff_of_true rfl (.inr (.inr (.inr rfl)))
      · exact absurd rfl hend
      · rw [hat _ hfix ⟨Nat.one_pos, Nat.two_pos⟩]
        exact iff_of_false (by decide) (by decide)
      · rw [hat _ hfix ⟨Nat.one_pos, Nat.two_pos⟩]
        exact iff_of_false (by decide) (by decide)
  · rw [hstyle] at hfix
    apply iff_of_true _ (.inr (.inl hstyle))
    by_cases hend : r = crlf ∨ r = [0x0A]
    · rw [if_pos (List.isSuffixOf_iff_suffix.2 (hlf.2 hend))] at hfix
      rcases hend with rfl | rfl
      · exact (hat _ hfix ⟨Nat.two_pos, Nat.one_pos⟩).2 rfl
      · exact (hat _ hfix ⟨Nat.one_pos, Nat.one_pos⟩).2 rfl
    · rw [if_neg (fun hs => hend (hlf.1 (List.isSuffixOf_iff_suffix.1 hs)))] at hfix
      rcases hr with rfl | rfl | rfl | rfl
      · exact (hat _ hfix ⟨Nat.one_pos, Nat.one_pos⟩).2 rfl
      · exact absurd (.inl rfl) hend
      · exact (hat _ hfix ⟨Nat.two_pos, Nat.one_pos⟩).2 rfl
      · exact absurd (.inr rfl) hend

theorem fix_closed (h : blankLine 0 0 req = some (sep, sepLen)) (hend : sep + sepLen = req.length) :
    fixTrailingNewline req = req := by
  rw [fixTrailingNewline, h]
  dsimp only
  rw [hend, List.drop_length]
  rfl

/-- The end is repaired, and once is enough, exactly when it is a proper one. -/
theorem repaired_iff (req : QByteArray) :
    (Repaired req (fixTrailingNewline req) ∧
      fixTrailingNewline (fixTrailingNewline req) = fixTrailingNewline req ∧
      (WithoutBody req → lengths (recomputeContentLength (fixTrailingNewline req)) =
        lengths (fixTrailingNewline req))) ↔ EndsProperly req := by
  cases hs : sections req with
  | none =>
    have hblank := sections_none.1 hs
    rw [← fix_closes_iff hblank, Repaired, if_pos hblank]
    constructor
    · rintro ⟨⟨-, -, -, hclosed⟩, -, -⟩
      exact hclosed
    · rintro ⟨sep, sepLen, hfound, hend⟩
      refine ⟨⟨_, ?_, fix_none hblank, sep, sepLen, hfound, hend⟩, fix_closed hfound hend, ?_⟩
      · rcases lineStyle_cases none req with hstyle | hstyle
        · rw [hstyle]
          split
          · rfl
          · rfl
        · rw [hstyle]
          split
          · rfl
          · rfl
      · intro _
        exact recompute_lengths (fun _ _ hread => .inl (closed_bodyOf hfound hend hread))
  | some found =>
    obtain ⟨lines, tail⟩ := found
    have hblank : blankLine 0 0 req ≠ none := by
      intro hnone
      rw [sections_none.2 hnone] at hs
      cases hs
    obtain ⟨hlines, htext, -⟩ := sections_spec req hs
    refine iff_of_true ?_ (.inl hblank)
    rw [Repaired, if_neg hblank, fix_some hs]
    split
    · rename_i hcut
      rw [Bool.and_eq_true] at hcut
      have hread := sections_written hlines.closed
      have hbody : bodyOf (tail.take (termLen tail)) = [] := by
        rw [bodyOf, termLen_take_self, List.drop_take, Nat.sub_self]
        rfl
      refine ⟨⟨bodyOf tail, hcut.1, ?_⟩, ?_, ?_⟩
      · rw [List.append_assoc, bodyOf, List.take_append_drop]
        exact htext
      · rw [fix_some hread, termLen_take_self, List.take_take, Nat.min_self, ite_self]
      · intro _
        apply recompute_lengths
        intro lines' tail' hread'
        rw [hread] at hread'
        cases hread'
        exact .inl hbody
    · rename_i hkept
      refine ⟨⟨[], rfl, (List.append_nil req).symm⟩, ?_, ?_⟩
      · rw [fix_some hs, if_neg hkept]
      · intro hwithout
        apply recompute_lengths
        intro lines' tail' hread
        rw [hs] at hread
        cases hread
        rw [hwithout _ _ hs, Bool.true_and, Bool.not_eq_true', Bool.not_eq_false] at hkept
        exact .inr (declares_lines hlines hkept)

/-- A bare carriage return at the end becomes a line of its own. -/
theorem bare_return_body :
    ¬ (Repaired (latin1 "GET / HTTP/1.1\r") (fixTrailingNewline (latin1 "GET / HTTP/1.1\r")) ∧
      fixTrailingNewline (fixTrailingNewline (latin1 "GET / HTTP/1.1\r")) =
        fixTrailingNewline (latin1 "GET / HTTP/1.1\r") ∧
      (WithoutBody (latin1 "GET / HTTP/1.1\r") →
        lengths (recomputeContentLength (fixTrailingNewline (latin1 "GET / HTTP/1.1\r"))) =
          lengths (fixTrailingNewline (latin1 "GET / HTTP/1.1\r")))) := by
  rw [repaired_iff]
  rintro (hblank | hstyle | hcrlf | hlast)
  · exact hblank (by decide)
  · exact absurd hstyle (by decide)
  · exact absurd (List.isSuffixOf_iff_suffix.2 hcrlf) (by decide)
  · exact absurd (hlast 0x0D (by decide)) (by decide)

end Repair

end Nullock.Proxy.InterceptLogic

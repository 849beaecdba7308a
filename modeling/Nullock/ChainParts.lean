import Nullock.HeadBoundary
import Nullock.HttpRelay

namespace Nullock.ChainRunner
open Proxy

def OneLine (l : QByteArray) : Prop := ∀ c ∈ l, c ≠ 0x0A ∧ c ≠ 0x0D

def parts (req : QByteArray) : Option (List QByteArray × QByteArray) :=
  (blankLine 0 0 req).map (fun found =>
    (headerLines [] 0 (req.take found.1), req.drop (found.1 + found.2)))

theorem OneLine.nil : OneLine [] := fun _ h => absurd h List.not_mem_nil

theorem OneLine.tail (h : OneLine (c :: l)) : OneLine l :=
  fun d hd => h d (List.mem_cons_of_mem c hd)

theorem OneLine.append (h : OneLine a) (h' : OneLine b) : OneLine (a ++ b) := by
  intro c hc
  rcases List.mem_append.1 hc with hc | hc
  · exact h c hc
  · exact h' c hc

theorem OneLine.termLen (h : OneLine (c :: l)) (s : QByteArray) : termLen (c :: s) = 0 :=
  termLen_other (h c List.mem_cons_self).1 (h c List.mem_cons_self).2 s

theorem blankLine_shift (i : Nat) (s : QByteArray) :
    blankLine i 0 s = (blankLine 0 0 s).map (fun found => (i + found.1, found.2)) := by
  induction s generalizing i with
  | nil => rfl
  | cons c s ih =>
    rw [blankLine_cons, blankLine_cons]
    split
    · rfl
    · rw [ih (i + 1), ih (0 + 1), Option.map_map]
      congr 1
      funext found
      rw [Function.comp_apply, Nat.zero_add, Nat.add_assoc]

theorem blankLine_line (h : OneLine l) (i : Nat) (s : QByteArray) :
    blankLine i 0 (l ++ s) = blankLine (i + l.length) 0 s := by
  induction l generalizing i with
  | nil => rfl
  | cons c l ih =>
    have hzero : ¬ 0 < termLen (c :: (l ++ s)) := by
      rw [h.termLen]
      exact Nat.lt_irrefl 0
    rw [List.cons_append, blankLine_cons, if_neg (fun hb => hzero hb.1), ih h.tail,
      List.length_cons, Nat.add_assoc, Nat.add_comm 1]

theorem headerLines_line (h : OneLine l) (cur s : QByteArray) :
    headerLines cur 0 (l ++ s) = headerLines (cur ++ l) 0 s := by
  induction l generalizing cur with
  | nil => rw [List.nil_append, List.append_nil]
  | cons c l ih =>
    rw [List.cons_append, headerLines, if_pos (h.termLen _), ih h.tail, List.append_assoc]
    rfl

theorem headerLines_skip (cur t s : QByteArray) :
    headerLines cur t.length (t ++ s) = headerLines cur 0 s := by
  induction t with
  | nil => rfl
  | cons c t ih => exact ih

theorem headerLines_terminator (h : 0 < termLen s) (cur : QByteArray) :
    headerLines cur 0 s = cur :: headerLines [] 0 (s.drop (termLen s)) := by
  cases s with
  | nil => exact absurd h (Nat.lt_irrefl 0)
  | cons c s =>
    rw [headerLines, if_neg h.ne']
    congr 1
    have hlt : termLen (c :: s) - 1 ≤ s.length := by
      rcases termLen_pos_iff.1 h with rfl | rfl
      · exact Nat.zero_le _
      · cases s with
        | nil => exact Nat.zero_le _
        | cons d s =>
          by_cases hd : d = 0x0A
          · rw [hd, termLen_crlf]
            exact Nat.succ_le_succ (Nat.zero_le _)
          · rw [termLen_cr hd]
            exact Nat.zero_le _
    have hdrop : (c :: s).drop (termLen (c :: s)) = s.drop (termLen (c :: s) - 1) := by
      have hsucc : termLen (c :: s) = termLen (c :: s) - 1 + 1 := (Nat.sub_add_cancel h).symm
      rw [hsucc, List.drop_succ_cons, Nat.add_sub_cancel]
    have hskip := headerLines_skip [] (s.take (termLen (c :: s) - 1))
      (s.drop (termLen (c :: s) - 1))
    rw [List.length_take_of_le hlt, List.take_append_drop] at hskip
    rw [hdrop, hskip]

theorem blankLine_terminator (h : 0 < termLen s) (hnext : ¬ 0 < termLen (s.drop (termLen s))) :
    blankLine i 0 s = blankLine (i + termLen s) 0 (s.drop (termLen s)) := by
  cases s with
  | nil => exact absurd h (Nat.lt_irrefl 0)
  | cons c s =>
    rw [blankLine_cons, if_neg (fun hb => hnext hb.2)]
    rcases termLen_pos_iff.1 h with rfl | rfl
    · rfl
    · cases s with
      | nil => rfl
      | cons d s =>
        by_cases hd : d = 0x0A
        · subst hd
          rw [termLen_crlf] at hnext ⊢
          have hs : ¬ 0 < termLen s := hnext
          have hlf : ¬ 0 < termLen (((0x0A : UInt8) :: s).drop (termLen (0x0A :: s))) := hs
          rw [blankLine_cons, if_neg (fun hb => hlf hb.2)]
          rfl
        · rw [termLen_cr hd]
          rfl

theorem parts_line (h : OneLine l) : parts l = none := by
  have hline := blankLine_line h 0 []
  rw [List.append_nil] at hline
  rw [parts, hline]
  rfl

theorem parts_blank (h : OneLine l) (hs : BlankFront s) :
    parts (l ++ s) = some (if l.isEmpty then [] else [l],
      s.drop (termLen s + termLen (s.drop (termLen s)))) := by
  cases s with
  | nil => exact absurd hs.1 (Nat.lt_irrefl 0)
  | cons c s =>
    have hlines := headerLines_line h [] []
    rw [List.append_nil, List.nil_append] at hlines
    rw [parts, blankLine_line h, blankLine_cons, if_pos ⟨hs.1, hs.2⟩, Option.map_some]
    dsimp only
    rw [Nat.zero_add, List.take_left, hlines, ← List.drop_drop, List.drop_left]
    rfl

theorem termLen_take (s : QByteArray) (k : Nat) : termLen (s.take (termLen s + k)) = termLen s := by
  cases s with
  | nil => rw [List.take_nil]
  | cons c s =>
    by_cases hpos : 0 < termLen (c :: s)
    · rcases termLen_pos_iff.1 hpos with rfl | rfl
      · rw [termLen_lf, Nat.add_comm, List.take_succ_cons, termLen_lf]
      · cases s with
        | nil =>
          rw [show termLen [(0x0D : UInt8)] = 1 from rfl, Nat.add_comm, List.take_succ_cons,
            List.take_nil]
          rfl
        | cons d s =>
          by_cases hd : d = 0x0A
          · rw [hd, termLen_crlf, Nat.add_comm, List.take_succ_cons, List.take_succ_cons,
              termLen_crlf]
          · rw [termLen_cr hd, Nat.add_comm, List.take_succ_cons]
            cases k with
            | zero => rfl
            | succ k => rw [List.take_succ_cons, termLen_cr hd]
    · have hzero := Nat.eq_zero_of_not_pos hpos
      have hother : ¬ (c = 0x0A ∨ c = 0x0D) := fun hc => hpos (termLen_pos_iff.2 hc)
      obtain ⟨hlf, hcr⟩ := not_or.1 hother
      rw [hzero]
      cases k with
      | zero => rfl
      | succ k => rw [Nat.zero_add, List.take_succ_cons, termLen_other hlf hcr]

theorem parts_cons (h : OneLine l) (hs : 0 < termLen s)
    (hnext : ¬ 0 < termLen (s.drop (termLen s))) :
    parts (l ++ s) = (parts (s.drop (termLen s))).map (fun p => (l :: p.1, p.2)) := by
  rw [parts, blankLine_line h, blankLine_terminator hs hnext, blankLine_shift, parts,
    Option.map_map, Option.map_map]
  congr 1
  funext found
  have hlen : 0 + l.length + termLen s + found.1 = l.length + (termLen s + found.1) := by
    rw [Nat.zero_add, Nat.add_assoc]
  have hlen' : 0 + l.length + termLen s + found.1 + found.2 =
      l.length + (termLen s + (found.1 + found.2)) := by
    rw [hlen, Nat.add_assoc, Nat.add_assoc]
  have hterm : 0 < termLen (s.take (termLen s + found.1)) := by
    rw [termLen_take]
    exact hs
  have hline := headerLines_line h [] (s.take (termLen s + found.1))
  have hbreak := headerLines_terminator hterm l
  rw [termLen_take, List.drop_take, Nat.add_sub_cancel_left] at hbreak
  rw [Function.comp_apply, Function.comp_apply]
  dsimp only
  rw [hlen', hlen, List.take_length_add_append, hline, List.nil_append, hbreak, ← List.drop_drop,
    List.drop_left, List.drop_drop]

theorem first_line (s : QByteArray) :
    ∃ l r, OneLine l ∧ s = l ++ r ∧ (r = [] ∨ 0 < termLen r) := by
  induction s with
  | nil => exact ⟨[], [], OneLine.nil, rfl, .inl rfl⟩
  | cons c s ih =>
    by_cases hc : c = 0x0A ∨ c = 0x0D
    · exact ⟨[], c :: s, OneLine.nil, rfl, .inr (termLen_pos_iff.2 hc)⟩
    · obtain ⟨l, r, hl, rfl, hr⟩ := ih
      refine ⟨c :: l, r, ?_, rfl, hr⟩
      intro d hd
      rcases List.mem_cons.1 hd with rfl | hd
      · exact not_or.1 hc
      · exact hl d hd

theorem parts_cases (s : QByteArray) :
    ∃ l r, OneLine l ∧ s = l ++ r ∧ (r = [] ∨ BlankFront r ∨
      0 < termLen r ∧ ¬ 0 < termLen (r.drop (termLen r))) := by
  obtain ⟨l, r, hl, hs, hr⟩ := first_line s
  refine ⟨l, r, hl, hs, ?_⟩
  rcases hr with hr | hr
  · exact .inl hr
  · by_cases hnext : 0 < termLen (r.drop (termLen r))
    · exact .inr (.inl ⟨hr, hnext⟩)
    · exact .inr (.inr ⟨hr, hnext⟩)

theorem rest_lt (l : QByteArray) (hr : 0 < termLen r) :
    (r.drop (termLen r)).length < (l ++ r).length := by
  cases r with
  | nil => exact absurd hr (Nat.lt_irrefl 0)
  | cons c r =>
    rw [List.length_drop, List.length_append, List.length_cons]
    omega

structure HeadLines (lines : List QByteArray) : Prop where
  oneLine : ∀ l ∈ lines, OneLine l
  full : ∀ l ∈ lines.tail, l ≠ []
  some : lines ≠ [[]]

theorem parts_lines (s : QByteArray) (h : parts s = some (lines, body)) :
    HeadLines lines ∧ (termLen s = 0 → lines ≠ [] ∧ ∀ l ∈ lines, l ≠ []) := by
  induction hn : s.length using Nat.strongRecOn generalizing s lines with
  | ind n ih =>
    obtain ⟨l, r, hl, rfl, rfl | hblank | ⟨hpos, hnext⟩⟩ := parts_cases s
    · rw [List.append_nil, parts_line hl] at h
      cases h
    · rw [parts_blank hl hblank] at h
      cases h
      cases l with
      | nil =>
        refine ⟨⟨nofun, nofun, (List.cons_ne_nil _ _).symm⟩, fun hzero => ?_⟩
        exact absurd hblank.1 (hzero ▸ Nat.lt_irrefl 0)
      | cons c l =>
        have hfull : ∀ t ∈ [c :: l], t ≠ [] := by
          intro t ht
          rw [List.mem_singleton.1 ht]
          exact List.cons_ne_nil c l
        refine ⟨⟨fun t ht => ?_, nofun, ?_⟩, fun _ => ⟨List.cons_ne_nil _ _, hfull⟩⟩
        · rw [List.mem_singleton.1 ht]
          exact hl
        · exact fun he => List.cons_ne_nil c l (List.cons.inj he).1
    · rw [parts_cons hl hpos hnext, Option.map_eq_some_iff] at h
      obtain ⟨⟨lines', body'⟩, hrest, he⟩ := h
      cases he
      obtain ⟨hlines, hfull⟩ := ih _ (hn ▸ rest_lt l hpos) _ hrest rfl
      obtain ⟨hne, hall⟩ := hfull (Nat.eq_zero_of_not_pos hnext)
      refine ⟨⟨?_, hall, fun he => hne (List.cons.inj he).2⟩, fun hzero => ?_⟩
      · intro t ht
        rcases List.mem_cons.1 ht with rfl | ht
        · exact hl
        · exact hlines.oneLine t ht
      · refine ⟨List.cons_ne_nil _ _, fun t ht => ?_⟩
        rcases List.mem_cons.1 ht with rfl | ht
        · rintro rfl
          exact absurd hpos (hzero ▸ Nat.lt_irrefl 0)
        · exact hall t ht

theorem parts_written (h : HeadLines lines) (hne : lines ≠ []) (body : QByteArray) :
    parts (lines.flatMap (fun line => line ++ crlf) ++ crlf ++ body) = some (lines, body) := by
  induction lines with
  | nil => exact absurd rfl hne
  | cons l lines ih =>
    have hl : OneLine l := h.oneLine l List.mem_cons_self
    cases lines with
    | nil =>
      have hempty : ¬ l.isEmpty = true := fun he => h.some (List.isEmpty_iff.1 he ▸ rfl)
      have htext : [l].flatMap (fun line => line ++ crlf) ++ crlf ++ body =
          l ++ (0x0D :: 0x0A :: 0x0D :: 0x0A :: body) := by
        rw [List.flatMap_cons, List.flatMap_nil, List.append_nil, List.append_assoc,
          List.append_assoc]
        rfl
      have hblank : BlankFront (0x0D :: 0x0A :: 0x0D :: 0x0A :: body) :=
        ⟨Nat.two_pos, Nat.two_pos⟩
      rw [htext, parts_blank hl hblank, if_neg hempty]
      rfl
    | cons m lines =>
      have hm : m ≠ [] := h.full m List.mem_cons_self
      have hrest : HeadLines (m :: lines) := by
        refine ⟨fun t ht => h.oneLine t (List.mem_cons_of_mem l ht), fun t ht => ?_, ?_⟩
        · exact h.full t (List.mem_cons_of_mem m ht)
        · exact fun he => hm (List.cons.inj he).1
      have hread := ih hrest (List.cons_ne_nil _ _)
      generalize htail : (m :: lines).flatMap (fun line => line ++ crlf) ++ crlf ++ body = t
        at hread
      have hstart : termLen t = 0 := by
        cases m with
        | nil => exact absurd rfl hm
        | cons c m =>
          rw [← htail]
          exact (hrest.oneLine _ List.mem_cons_self).termLen _
      have htext : (l :: m :: lines).flatMap (fun line => line ++ crlf) ++ crlf ++ body =
          l ++ (0x0D :: 0x0A :: t) := by
        rw [← htail, List.flatMap_cons, List.append_assoc l, List.append_assoc l,
          List.append_assoc l, List.append_assoc crlf, List.append_assoc crlf]
        rfl
      have hpos : 0 < termLen (0x0D :: 0x0A :: t) := Nat.two_pos
      have hone : ¬ 0 < termLen ((0x0D :: 0x0A :: t : QByteArray).drop
          (termLen (0x0D :: 0x0A :: t))) := by
        rw [termLen_crlf]
        exact hstart ▸ Nat.lt_irrefl 0
      rw [htext, parts_cons hl hpos hone, termLen_crlf]
      exact congrArg (Option.map _) hread

section Rebuilt

def lengthLine (body : QByteArray) : QByteArray :=
  latin1 "Content-Length: " ++ QByteArray.number (asInt body.length)

def rebuilt (lines : List QByteArray) (body : QByteArray) : List QByteArray :=
  let teChunked := lines.any isChunkedLine
  let (kept, emittedCl) := rebuildLines teChunked (lengthLine body) false lines
  if !teChunked && !emittedCl && 0 < asInt body.length then kept ++ [lengthLine body] else kept

theorem normalize_none (h : parts req = none) : normalizeContentLength req = req := by
  rw [parts, Option.map_eq_none_iff] at h
  rw [normalizeContentLength, h]

theorem normalize_some (h : parts req = some (lines, body)) :
    normalizeContentLength req =
      (rebuilt lines body).flatMap (fun line => line ++ crlf) ++ crlf ++ body := by
  rw [parts, Option.map_eq_some_iff] at h
  obtain ⟨⟨sep, sepLen⟩, hblank, he⟩ := h
  cases he
  rw [normalizeContentLength, hblank]
  rfl

theorem number_oneLine (n : Int) : OneLine (QByteArray.number n) := by
  intro c hc
  rcases number_chars n hc with h | rfl
  · refine ⟨?_, ?_⟩
    · rintro rfl
      cases h
    · rintro rfl
      cases h
  · exact ⟨by decide, by decide⟩

theorem lengthLine_oneLine (body : QByteArray) : OneLine (lengthLine body) := by
  have hname : OneLine (latin1 "Content-Length: ") := forall_mem_of_all (by decide)
  exact hname.append (number_oneLine _)

theorem lengthLine_field (body : QByteArray) :
    lineField (lengthLine body) =
      some (latin1 "content-length", 0x20 :: QByteArray.number (asInt body.length)) := by
  have hcolon : 0x3A ∉ latin1 "Content-Length" := by decide
  have htext : lengthLine body = latin1 "Content-Length" ++
      0x3A :: 0x20 :: QByteArray.number (asInt body.length) := rfl
  have hindex := indexOf_singleton hcolon (0x20 :: QByteArray.number (asInt body.length))
  rw [← htext] at hindex
  rw [lineField, show latin1 ":" = [0x3A] from rfl, hindex]
  rfl

theorem lengthLine_isLength (body : QByteArray) : isLengthLine (lengthLine body) = true := by
  rw [isLengthLine, lengthLine_field]
  rfl

theorem lengthLine_ne_nil (body : QByteArray) : lengthLine body ≠ [] := by
  intro h
  have hlen := congrArg List.length h
  rw [lengthLine, List.length_append] at hlen
  exact absurd hlen (by
    rw [show (latin1 "Content-Length: ").length = 16 from rfl]
    exact Nat.ne_of_gt (Nat.lt_of_lt_of_le (by decide) (Nat.le_add_right 16 _)))

theorem chunked_not_length (h : isChunkedLine l = true) : isLengthLine l = false := by
  rw [isChunkedLine] at h
  rw [isLengthLine]
  cases hf : lineField l with
  | none => rfl
  | some f =>
    rw [hf] at h
    have hname : f.1 = latin1 "transfer-encoding" :=
      beq_iff_eq.1 (Bool.and_eq_true_iff.1 h).1
    show (f.1 == latin1 "content-length") = false
    rw [hname]
    decide

variable {teChunked emittedCl : Bool} {line : QByteArray}

theorem rebuildLines_spec (hline : isLengthLine line = true) (lines : List QByteArray) :
    let built := rebuildLines teChunked line emittedCl lines
    built.1.filter (fun l => !isLengthLine l) = lines.filter (fun l => !isLengthLine l) ∧
      (∀ l ∈ built.1, isLengthLine l = true →
        l = line ∧ teChunked = false ∧ emittedCl = false ∧ built.2 = true) ∧
      (built.1.filter isLengthLine).length ≤ 1 ∧
      (emittedCl = true → built.2 = true) := by
  induction lines generalizing emittedCl with
  | nil => exact ⟨rfl, nofun, Nat.zero_le 1, fun h => h⟩
  | cons l lines ih =>
    cases hl : isLengthLine l with
    | false =>
      obtain ⟨hkept, hlength, hone, hflag⟩ := @ih emittedCl
      rw [rebuildLines, if_neg (Bool.eq_false_iff.1 hl)]
      refine ⟨?_, ?_, ?_, hflag⟩
      · rw [List.filter_cons_of_pos (by rw [hl]; rfl), List.filter_cons_of_pos (by rw [hl]; rfl),
          hkept]
      · intro t ht hlen
        rcases List.mem_cons.1 ht with rfl | ht
        · exact absurd hlen (Bool.eq_false_iff.1 hl)
        · exact hlength t ht hlen
      · rw [List.filter_cons_of_neg (Bool.eq_false_iff.1 hl)]
        exact hone
    | true =>
      rw [rebuildLines, if_pos hl]
      have hdrop : (l :: lines).filter (fun l => !isLengthLine l) =
          lines.filter (fun l => !isLengthLine l) :=
        List.filter_cons_of_neg (by rw [hl]; exact nofun)
      rw [hdrop]
      by_cases hdone : (teChunked || emittedCl) = true
      · rw [if_pos hdone]
        exact ih
      · rw [if_neg hdone]
        obtain ⟨hte, hemitted⟩ := Bool.or_eq_false_iff.1 (Bool.eq_false_iff.2 hdone)
        obtain ⟨hkept, hlength, -, hflag⟩ := @ih true
        refine ⟨?_, ?_, ?_, fun _ => hflag rfl⟩
        · rw [List.filter_cons_of_neg (by rw [hline]; exact nofun)]
          exact hkept
        · intro t ht hlen
          rcases List.mem_cons.1 ht with rfl | ht
          · exact ⟨rfl, hte, hemitted, hflag rfl⟩
          · exact absurd (hlength t ht hlen).2.2.1 nofun
        · have hnone : (rebuildLines teChunked line true lines).1.filter isLengthLine = [] := by
            apply List.filter_eq_nil_iff.2
            intro t ht hlen
            exact absurd (hlength t ht hlen).2.2.1 nofun
          rw [List.filter_cons_of_pos hline, hnone]
          exact Nat.le_refl 1

theorem mem_rebuildLines (h : l ∈ (rebuildLines teChunked line emittedCl lines).1) :
    l ∈ lines ∨ l = line := by
  induction lines generalizing emittedCl with
  | nil => exact absurd h List.not_mem_nil
  | cons m lines ih =>
    rw [rebuildLines] at h
    split at h
    · split at h
      · exact (ih h).imp_left (List.mem_cons_of_mem m)
      · rcases List.mem_cons.1 h with rfl | h
        · exact .inr rfl
        · exact (ih h).imp_left (List.mem_cons_of_mem m)
    · rcases List.mem_cons.1 h with rfl | h
      · exact .inl List.mem_cons_self
      · exact (ih h).imp_left (List.mem_cons_of_mem m)

theorem rebuildLines_ne_nil (hne : lines ≠ [])
    (hchunked : teChunked = true → ∃ l ∈ lines, isLengthLine l = false) :
    (rebuildLines teChunked line false lines).1 ≠ [] := by
  induction lines with
  | nil => exact absurd rfl hne
  | cons m lines ih =>
    rw [rebuildLines]
    split
    · rename_i hm
      split
      · rename_i hte
        rw [Bool.or_false] at hte
        obtain ⟨l, hl, hlen⟩ := hchunked hte
        rcases List.mem_cons.1 hl with rfl | hl
        · exact absurd hm (Bool.eq_false_iff.1 hlen)
        · exact ih (List.ne_nil_of_mem hl) (fun _ => ⟨l, hl, hlen⟩)
      · exact List.cons_ne_nil _ _
    · exact List.cons_ne_nil _ _

theorem rebuilt_cases (lines : List QByteArray) (body : QByteArray) :
    let built := rebuildLines (lines.any isChunkedLine) (lengthLine body) false lines
    rebuilt lines body = built.1 ∨
      (lines.any isChunkedLine = false ∧ built.2 = false ∧ 0 < asInt body.length ∧
        rebuilt lines body = built.1 ++ [lengthLine body]) := by
  unfold rebuilt
  dsimp only
  split
  · rename_i h
    obtain ⟨hflags, hpos⟩ := Bool.and_eq_true_iff.1 h
    obtain ⟨hte, hcl⟩ := Bool.and_eq_true_iff.1 hflags
    exact .inr ⟨(Bool.not_eq_true' _).mp hte, (Bool.not_eq_true' _).mp hcl,
      of_decide_eq_true hpos, rfl⟩
  · exact .inl rfl

theorem rebuilt_filter (lines : List QByteArray) (body : QByteArray) :
    (rebuilt lines body).filter (fun l => !isLengthLine l) =
      lines.filter (fun l => !isLengthLine l) := by
  obtain ⟨hkept, -⟩ := @rebuildLines_spec (lines.any isChunkedLine) false (lengthLine body)
    (lengthLine_isLength body) lines
  rcases rebuilt_cases lines body with h | ⟨-, -, -, h⟩
  · rw [h]
    exact hkept
  · rw [h, List.filter_append, List.filter_cons_of_neg (by rw [lengthLine_isLength]; exact nofun),
      List.filter_nil, List.append_nil]
    exact hkept

theorem rebuilt_length (h : l ∈ rebuilt lines body) (hl : isLengthLine l = true) :
    l = lengthLine body ∧ lines.any isChunkedLine = false := by
  obtain ⟨-, hlength, -⟩ := @rebuildLines_spec (lines.any isChunkedLine) false (lengthLine body)
    (lengthLine_isLength body) lines
  rcases rebuilt_cases lines body with hb | ⟨hte, -, -, hb⟩
  · rw [hb] at h
    exact ⟨(hlength l h hl).1, (hlength l h hl).2.1⟩
  · rw [hb] at h
    rcases List.mem_append.1 h with h | h
    · exact ⟨(hlength l h hl).1, (hlength l h hl).2.1⟩
    · exact ⟨List.mem_singleton.1 h, hte⟩

theorem rebuilt_one (lines : List QByteArray) (body : QByteArray) :
    ((rebuilt lines body).filter isLengthLine).length ≤ 1 := by
  obtain ⟨-, hlength, hone, -⟩ := @rebuildLines_spec (lines.any isChunkedLine) false (lengthLine body)
    (lengthLine_isLength body) lines
  rcases rebuilt_cases lines body with h | ⟨-, hcl, -, h⟩
  · rw [h]
    exact hone
  · have hnone : (rebuildLines (lines.any isChunkedLine) (lengthLine body) false
        lines).1.filter isLengthLine = [] := by
      apply List.filter_eq_nil_iff.2
      intro l hl hlen
      exact absurd (hlength l hl hlen).2.2.2 (Bool.eq_false_iff.1 hcl)
    rw [h, List.filter_append, hnone]
    exact List.length_filter_le _ _

theorem mem_rebuilt (h : l ∈ rebuilt lines body) : l ∈ lines ∨ l = lengthLine body := by
  rcases rebuilt_cases lines body with hb | ⟨-, -, -, hb⟩
  · rw [hb] at h
    exact mem_rebuildLines h
  · rw [hb] at h
    rcases List.mem_append.1 h with h | h
    · exact mem_rebuildLines h
    · exact .inr (List.mem_singleton.1 h)

theorem chunked_kept {lines : List QByteArray} (h : lines.any isChunkedLine = true) :
    ∃ l ∈ lines, isLengthLine l = false := by
  obtain ⟨l, hl, hc⟩ := List.any_eq_true.1 h
  exact ⟨l, hl, chunked_not_length hc⟩

theorem rebuilt_ne_nil (h : lines ≠ [] ∨ 0 < asInt body.length) : rebuilt lines body ≠ [] := by
  cases lines with
  | nil =>
    have hpos := h.resolve_left (fun hne => hne rfl)
    rw [rebuilt, List.any_nil, rebuildLines]
    dsimp only
    rw [if_pos (by rw [decide_eq_true hpos]; rfl)]
    exact List.cons_ne_nil _ _
  | cons l lines =>
    have hne : (rebuildLines ((l :: lines).any isChunkedLine) (lengthLine body) false
        (l :: lines)).1 ≠ [] :=
      rebuildLines_ne_nil (List.cons_ne_nil l lines) chunked_kept
    rcases rebuilt_cases (l :: lines) body with hb | ⟨-, -, -, hb⟩
    · rw [hb]
      exact hne
    · rw [hb]
      exact List.append_ne_nil_of_left_ne_nil hne _

theorem rebuilt_any (lines : List QByteArray) (body : QByteArray) :
    (rebuilt lines body).any isChunkedLine = lines.any isChunkedLine := by
  have hfilter (ls : List QByteArray) :
      ls.any isChunkedLine = (ls.filter (fun l => !isLengthLine l)).any isChunkedLine := by
    apply Bool.eq_iff_iff.2
    rw [List.any_eq_true, List.any_eq_true]
    constructor
    · rintro ⟨l, hl, hc⟩
      exact ⟨l, List.mem_filter.2 ⟨hl, by rw [chunked_not_length hc]; rfl⟩, hc⟩
    · rintro ⟨l, hl, hc⟩
      exact ⟨l, (List.mem_filter.1 hl).1, hc⟩
  rw [hfilter, rebuilt_filter, ← hfilter]

theorem rebuilt_empty_first (lines : List QByteArray) (body : QByteArray) :
    rebuilt ([] :: lines) body = [] :: rebuilt lines body := by
  have hany : ([] :: lines : List QByteArray).any isChunkedLine = lines.any isChunkedLine := rfl
  rw [rebuilt, rebuilt, hany, rebuildLines, if_neg (show ¬ isLengthLine [] = true by decide)]
  dsimp only
  split
  · rfl
  · rfl

theorem rebuilt_ok (h : HeadLines lines) (body : QByteArray) : HeadLines (rebuilt lines body) := by
  have hfull (ls : List QByteArray) (hls : ∀ l ∈ ls, l ≠ []) :
      ∀ l ∈ rebuilt ls body, l ≠ [] := by
    intro l hl
    rcases mem_rebuilt hl with hl | rfl
    · exact hls l hl
    · exact lengthLine_ne_nil body
  have hone : ∀ l ∈ rebuilt lines body, OneLine l := by
    intro l hl
    rcases mem_rebuilt hl with hl | rfl
    · exact h.oneLine l hl
    · exact lengthLine_oneLine body
  cases lines with
  | nil =>
    have hall := hfull [] nofun
    exact ⟨hone, fun l hl => hall l (List.mem_of_mem_tail hl),
      fun he => hall [] (he ▸ List.mem_singleton_self []) rfl⟩
  | cons l lines =>
    cases l with
    | nil =>
      have hne : lines ≠ [] := fun he => h.some (he ▸ rfl)
      rw [rebuilt_empty_first] at hone ⊢
      exact ⟨hone, hfull lines h.full,
        fun he => rebuilt_ne_nil (.inl hne) (List.cons.inj he).2⟩
    | cons c l =>
      have hall := hfull ((c :: l) :: lines) (fun t ht => by
        rcases List.mem_cons.1 ht with rfl | ht
        · exact List.cons_ne_nil c l
        · exact h.full t ht)
      exact ⟨hone, fun t ht => hall t (List.mem_of_mem_tail ht),
        fun he => hall [] (he ▸ List.mem_singleton_self []) rfl⟩

theorem parts_normalize (h : parts req = some (lines, body))
    (hne : lines ≠ [] ∨ 0 < asInt body.length) :
    parts (normalizeContentLength req) = some (rebuilt lines body, body) := by
  rw [normalize_some h]
  exact parts_written (rebuilt_ok (parts_lines req h).1 body) (rebuilt_ne_nil hne) body

end Rebuilt

theorem asInt_eq_iff (n : Nat) : asInt n = n ↔ n < 2 ^ 31 := by
  rw [asInt]
  split
  · omega
  · omega

theorem number_eq_iff (a : Int) (n : Nat) : QByteArray.number a = QByteArray.number n ↔ a = n := by
  constructor
  · intro h
    have hn := number_numeral n
    rw [← h] at hn
    cases a with
    | ofNat k =>
      have hk := number_numeral k
      have hvalue := hk.2.symm.trans hn.2
      exact congrArg Int.ofNat (Option.some.inj hvalue)
    | negSucc k =>
      have hminus : 0x2D ∈ fromLatin1 (QByteArray.number (.negSucc k)) := List.mem_cons_self
      cases (isNumeral_iff.1 hn.1).2 _ hminus
  · exact fun h => congrArg QByteArray.number h

section Idempotent

theorem rebuildLines_fixed
    (hline : ∀ l ∈ lines, isLengthLine l = true → l = line ∧ teChunked = false)
    (hone : (lines.filter isLengthLine).length + (if emittedCl then 1 else 0) ≤ 1) :
    rebuildLines teChunked line emittedCl lines =
      (lines, emittedCl || lines.any isLengthLine) := by
  induction lines generalizing emittedCl with
  | nil => rw [rebuildLines, List.any_nil, Bool.or_false]
  | cons l lines ih =>
    have hrest : ∀ t ∈ lines, isLengthLine t = true → t = line ∧ teChunked = false :=
      fun t ht => hline t (List.mem_cons_of_mem l ht)
    rw [rebuildLines, List.any_cons]
    cases hl : isLengthLine l with
    | false =>
      rw [List.filter_cons_of_neg (Bool.eq_false_iff.1 hl)] at hone
      rw [if_neg Bool.false_ne_true, ih hrest hone, Bool.false_or]
    | true =>
      rw [List.filter_cons_of_pos hl, List.length_cons] at hone
      obtain ⟨rfl, hte⟩ := hline l List.mem_cons_self hl
      have hemitted : emittedCl = false := by
        cases emittedCl with
        | false => rfl
        | true =>
          rw [if_pos rfl] at hone
          omega
      rw [hemitted] at hone ⊢
      have hnext := @ih true hrest hone
      have hflags : ¬ (teChunked || false) = true := by
        rw [hte]
        exact Bool.false_ne_true
      rw [if_pos rfl, if_neg hflags, hnext, Bool.false_or, Bool.true_or]

theorem rebuildLines_flag (hline : isLengthLine line = true)
    (h : (rebuildLines teChunked line emittedCl lines).2 = true) :
    emittedCl = true ∨ (rebuildLines teChunked line emittedCl lines).1.any isLengthLine = true := by
  induction lines generalizing emittedCl with
  | nil => exact .inl h
  | cons l lines ih =>
    rw [rebuildLines] at h ⊢
    split at h
    · split at h
      · rename_i hl hdone
        rw [if_pos hl, if_pos hdone]
        exact ih h
      · rename_i hl hdone
        rw [if_pos hl, if_neg hdone, List.any_cons, hline]
        exact .inr rfl
    · rename_i hl
      rw [if_neg hl, List.any_cons]
      exact (ih h).imp_right (fun hany => by rw [hany, Bool.or_true])

theorem rebuilt_has_length (hte : lines.any isChunkedLine = false)
    (hbody : 0 < asInt body.length) : (rebuilt lines body).any isLengthLine = true := by
  rw [rebuilt, hte]
  dsimp only
  cases hflag : (rebuildLines false (lengthLine body) false lines).2 with
  | true =>
    rw [if_neg (by exact Bool.false_ne_true)]
    exact (rebuildLines_flag (lengthLine_isLength body) hflag).resolve_left Bool.false_ne_true
  | false =>
    rw [if_pos (by rw [decide_eq_true hbody]; rfl), List.any_append, List.any_cons,
      lengthLine_isLength]
    exact Bool.or_true _

theorem rebuilt_idempotent (lines : List QByteArray) (body : QByteArray) :
    rebuilt (rebuilt lines body) body = rebuilt lines body := by
  have hany := rebuilt_any lines body
  have hfixed : rebuildLines ((rebuilt lines body).any isChunkedLine) (lengthLine body) false
      (rebuilt lines body) = (rebuilt lines body, (rebuilt lines body).any isLengthLine) := by
    apply rebuildLines_fixed
    · intro l hl hlen
      rw [hany]
      exact rebuilt_length hl hlen
    · exact rebuilt_one lines body
  conv => lhs; rw [rebuilt]
  rw [hfixed]
  dsimp only
  rw [if_neg]
  intro hadd
  obtain ⟨hflags, hpos⟩ := Bool.and_eq_true_iff.1 hadd
  obtain ⟨hte, hnone⟩ := Bool.and_eq_true_iff.1 hflags
  rw [hany, Bool.not_eq_true'] at hte
  rw [rebuilt_has_length hte (of_decide_eq_true hpos)] at hnone
  cases hnone

end Idempotent

section PutRight

structure HasHead (req : QByteArray) (lines : List QByteArray) (body : QByteArray) : Prop where
  blank : ∃ sep sepLen, blankLine 0 0 req = some (sep, sepLen) ∧ 0 < sep ∧
    lines = headerLines [] 0 (req.take sep) ∧ body = req.drop (sep + sepLen)

def GivesLength (n : Nat) (line : QByteArray) : Prop :=
  lineField line = some (latin1 "content-length", 0x20 :: QByteArray.number n)

structure LengthRight (lines : List QByteArray) (body out : QByteArray)
    (lines' : List QByteArray) : Prop where
  form : out = lines'.flatMap (fun line => line ++ crlf) ++ crlf ++ body
  first : HasHead out lines' body
  others : lines'.filter (fun l => !isLengthLine l) = lines.filter (fun l => !isLengthLine l)
  one : (lines'.filter isLengthLine).length ≤ 1
  value : ∀ l ∈ lines', isLengthLine l = true → GivesLength body.length l
  chunked : lines.any isChunkedLine = true → lines'.any isLengthLine = false
  given : lines.any isChunkedLine = false → body ≠ [] → (lines'.filter isLengthLine).length = 1
  again : normalizeContentLength out = out

theorem headerLines_ne_nil (h : cur ≠ [] ∨ s ≠ []) : headerLines cur 0 s ≠ [] := by
  induction s generalizing cur with
  | nil =>
    have hcur := h.resolve_right (fun hne => hne rfl)
    rw [headerLines, if_neg (fun he => hcur (List.isEmpty_iff.1 he))]
    exact List.cons_ne_nil _ _
  | cons c s ih =>
    rw [headerLines]
    split
    · exact ih (.inl (List.append_ne_nil_of_right_ne_nil _ (List.cons_ne_nil _ _)))
    · exact List.cons_ne_nil _ _

theorem HasHead.parted (h : HasHead req lines body) : parts req = some (lines, body) := by
  obtain ⟨sep, sepLen, hblank, -, rfl, rfl⟩ := h.blank
  rw [parts, hblank]
  rfl

theorem HasHead.ne_nil (h : HasHead req lines body) : lines ≠ [] := by
  obtain ⟨sep, sepLen, hblank, hpos, rfl, -⟩ := h.blank
  apply headerLines_ne_nil
  right
  intro hnil
  cases req with
  | nil => cases hblank
  | cons c req =>
    obtain ⟨k, rfl⟩ := Nat.exists_eq_add_one.2 hpos
    cases hnil

theorem hasHead_of_parts (h : parts req = some (lines, body)) (hne : lines ≠ []) :
    HasHead req lines body := by
  rw [parts, Option.map_eq_some_iff] at h
  obtain ⟨⟨sep, sepLen⟩, hblank, he⟩ := h
  cases he
  refine ⟨⟨sep, sepLen, hblank, Nat.pos_of_ne_zero ?_, rfl, rfl⟩⟩
  rintro rfl
  exact hne rfl

theorem rebuilt_right (h : HasHead req lines body)
    (hok : lines.any isChunkedLine = true ∨ body.length < 2 ^ 31) :
    LengthRight lines body (normalizeContentLength req) (rebuilt lines body) := by
  have hparts := parts_normalize h.parted (.inl h.ne_nil)
  have hfirst := hasHead_of_parts hparts (rebuilt_ne_nil (.inl h.ne_nil))
  have hsize (hte : lines.any isChunkedLine = false) : asInt body.length = body.length := by
    rw [hte] at hok
    exact (asInt_eq_iff _).2 (hok.resolve_left Bool.false_ne_true)
  refine ⟨normalize_some h.parted, hfirst, rebuilt_filter lines body, rebuilt_one lines body,
    ?_, ?_, ?_, ?_⟩
  · intro l hl hlen
    obtain ⟨rfl, hte⟩ := rebuilt_length hl hlen
    rw [GivesLength, lengthLine_field, hsize hte]
  · intro hte
    apply List.any_eq_false.2
    intro l hl hlen
    rw [(rebuilt_length hl hlen).2] at hte
    cases hte
  · intro hte hbody
    have hpos : 0 < asInt body.length := by
      rw [hsize hte]
      exact Int.natCast_pos.2 (List.length_pos_iff.2 hbody)
    obtain ⟨l, hl, hlen⟩ := List.any_eq_true.1 (rebuilt_has_length hte hpos)
    have hmem : l ∈ (rebuilt lines body).filter isLengthLine := List.mem_filter.2 ⟨hl, hlen⟩
    exact Nat.le_antisymm (rebuilt_one lines body) (List.length_pos_of_mem hmem)
  · rw [normalize_some hparts, rebuilt_idempotent, ← normalize_some h.parted]

/-- A length is put right exactly when the request is chunked or the size fits. -/
theorem length_right_iff (h : HasHead req lines body) :
    (∃ lines', LengthRight lines body (normalizeContentLength req) lines') ↔
      (lines.any isChunkedLine = true ∨ body.length < 2 ^ 31) := by
  constructor
  · rintro ⟨lines', hright⟩
    cases hte : lines.any isChunkedLine with
    | true => exact .inl rfl
    | false =>
      right
      by_contra hbig
      have hbody : body ≠ [] := by
        rintro rfl
        exact hbig (by decide)
      have hparts := parts_normalize h.parted (.inl h.ne_nil)
      have hlines : lines' = rebuilt lines body := by
        have he := hright.first.parted.symm.trans hparts
        exact (Prod.mk.inj (Option.some.inj he)).1
      have hone := hright.given hte hbody
      obtain ⟨l, hl⟩ := List.exists_mem_of_length_pos (hone ▸ Nat.one_pos)
      obtain ⟨hmem, hlen⟩ := List.mem_filter.1 hl
      have hvalue := hright.value l hmem hlen
      rw [hlines] at hmem
      rw [(rebuilt_length hmem hlen).1, GivesLength, lengthLine_field, Option.some.injEq,
        Prod.mk.injEq, List.cons.injEq] at hvalue
      exact hbig ((asInt_eq_iff _).1 ((number_eq_iff _ _).1 hvalue.2.2))
  · exact fun hok => ⟨_, rebuilt_right h hok⟩

def postRequest (body : QByteArray) : QByteArray :=
  latin1 "POST / HTTP/1.1" ++ (crlf ++ (crlf ++ body))

theorem postRequest_head (body : QByteArray) :
    HasHead (postRequest body) [latin1 "POST / HTTP/1.1"] body := by
  have hline : OneLine (latin1 "POST / HTTP/1.1") := forall_mem_of_all (by decide)
  have hblank : BlankFront (crlf ++ (crlf ++ body)) := ⟨Nat.two_pos, Nat.two_pos⟩
  apply hasHead_of_parts (parts_blank hline hblank) (List.cons_ne_nil _ _)

theorem length_right_short : ∃ lines', LengthRight [latin1 "POST / HTTP/1.1"] (latin1 "hi")
    (normalizeContentLength (postRequest (latin1 "hi"))) lines' :=
  (length_right_iff (postRequest_head (latin1 "hi"))).2 (.inr (by decide))

theorem long_body_unmeasured :
    ¬ ∃ lines', LengthRight [latin1 "POST / HTTP/1.1"] (List.replicate (2 ^ 31) 0x61)
      (normalizeContentLength (postRequest (List.replicate (2 ^ 31) 0x61))) lines' := by
  rw [length_right_iff (postRequest_head _), List.length_replicate]
  rintro (hte | hsize)
  · exact absurd hte (by decide)
  · exact Nat.lt_irrefl _ hsize

end PutRight

end Nullock.ChainRunner

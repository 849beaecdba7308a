import Nullock.Encodings

namespace Nullock

section Lines
variable {lf : α}

def Closed (lf : α) (s : List α) : Prop := s = [] ∨ ∃ t, s = t ++ [lf]

theorem closed_nil : Closed lf [] := .inl rfl

theorem closed_line (s : List α) : Closed lf (s ++ [lf]) := .inr ⟨s, rfl⟩

theorem Closed.append (h : Closed lf t) (hs : Closed lf s) : Closed lf (s ++ t) := by
  rcases h with rfl | ⟨t, rfl⟩
  · rw [List.append_nil]
    exact hs
  · exact .inr ⟨s ++ t, (List.append_assoc _ _ _).symm⟩

theorem Closed.of_append (h : Closed lf (s ++ t)) : Closed lf t := by
  rcases List.eq_nil_or_concat t with rfl | ⟨t, c, rfl⟩
  · exact closed_nil
  · rw [List.concat_eq_append] at h ⊢
    rcases h with h | ⟨u, h⟩
    · exact absurd (List.append_eq_nil_iff.1 h).2 (List.concat_ne_nil c t)
    · rw [← List.append_assoc] at h
      have hc := List.append_inj_right' h rfl
      rw [hc]
      exact closed_line t

variable [DecidableEq α]

def linesOf (lf : α) : List α → List (List α)
  | [] => []
  | c :: s =>
    if c = lf then [] :: linesOf lf s
    else
      match linesOf lf s with
      | [] => [[c]]
      | l :: lines => (c :: l) :: lines

theorem linesOf_cons_ne_nil (c : α) (s : List α) : linesOf lf (c :: s) ≠ [] := by
  rw [linesOf]
  split
  · exact List.cons_ne_nil _ _
  · split
    · exact List.cons_ne_nil _ _
    · exact List.cons_ne_nil _ _

theorem linesOf_terminated (s t : List α) :
    linesOf lf (s ++ lf :: t) = linesOf lf (s ++ [lf]) ++ linesOf lf t := by
  induction s with
  | nil =>
    rw [List.nil_append, List.nil_append, linesOf, linesOf, if_pos rfl, if_pos rfl]
    rfl
  | cons c s ih =>
    rw [List.cons_append, List.cons_append, linesOf, linesOf, ih]
    by_cases hc : c = lf
    · rw [if_pos hc, if_pos hc]
      rfl
    · rw [if_neg hc, if_neg hc]
      obtain ⟨d, s', hs⟩ := List.exists_cons_of_ne_nil (List.append_ne_nil_of_right_ne_nil s
        (List.cons_ne_nil lf []))
      obtain ⟨l, lines, hl⟩ := List.exists_cons_of_ne_nil
        (show linesOf lf (d :: s') ≠ [] from linesOf_cons_ne_nil d s')
      rw [hs, hl]
      rfl

theorem linesOf_append (h : Closed lf s) (t : List α) :
    linesOf lf (s ++ t) = linesOf lf s ++ linesOf lf t := by
  rcases h with rfl | ⟨s, rfl⟩
  · rfl
  · rw [List.append_assoc]
    exact linesOf_terminated s t

theorem linesOf_line (h : lf ∉ s) : linesOf lf (s ++ [lf]) = [s] := by
  induction s with
  | nil =>
    rw [List.nil_append, linesOf, if_pos rfl]
    rfl
  | cons c s ih =>
    have hc : c ≠ lf := fun he => h (he ▸ List.mem_cons_self)
    rw [List.cons_append, linesOf, if_neg hc, ih (fun hm => h (List.mem_cons_of_mem c hm))]

end Lines

/-- Text mode: a carriage return before a line feed is left out. -/
def textMode : QByteArray → QByteArray
  | 0x0D :: 0x0A :: s => 0x0A :: textMode s
  | c :: s => c :: textMode s
  | [] => []

def streamLines (content : QByteArray) : List QByteArray :=
  (linesOf 0x0A (QString.fromUtf8 (textMode content))).map toUtf8

section Stream

theorem textMode_cons (h : c ≠ 0x0D ∨ ∀ t, s ≠ 0x0A :: t) : textMode (c :: s) = c :: textMode s := by
  rw [textMode]
  intro t hc hs
  rcases h with h | h
  · exact h hc
  · exact h t hs

theorem textMode_terminated (s : QByteArray) :
    ∃ u, ∀ t, textMode (s ++ 0x0A :: t) = u ++ 0x0A :: textMode t := by
  induction s using textMode.induct with
  | case1 s ih =>
    obtain ⟨u, hu⟩ := ih
    refine ⟨0x0A :: u, fun t => ?_⟩
    rw [List.cons_append, List.cons_append, textMode, hu]
    rfl
  | case2 c s hs ih =>
    by_cases hc : c = 0x0D
    · cases s with
      | nil => exact ⟨[], fun t => by rw [hc]; rfl⟩
      | cons d s =>
        obtain ⟨u, hu⟩ := ih
        have hd : d ≠ 0x0A := fun he => hs s hc (he ▸ rfl)
        refine ⟨c :: u, fun t => ?_⟩
        have hne : ∀ v, d :: s ++ 0x0A :: t ≠ 0x0A :: v := fun v he => hd (List.cons.inj he).1
        rw [List.cons_append, textMode_cons (.inr hne), hu]
        rfl
    · obtain ⟨u, hu⟩ := ih
      refine ⟨c :: u, fun t => ?_⟩
      rw [List.cons_append, textMode_cons (.inl hc), hu]
      rfl
  | case3 => exact ⟨[], fun t => rfl⟩

theorem textMode_append (h : Closed 0x0A s) (t : QByteArray) :
    textMode (s ++ t) = textMode s ++ textMode t := by
  rcases h with rfl | ⟨s, rfl⟩
  · rfl
  · obtain ⟨u, hu⟩ := textMode_terminated s
    rw [List.append_assoc, List.singleton_append, hu t, hu [], List.append_assoc]
    rfl

theorem textMode_eq (h : 0x0D ∉ s) : textMode s = s := by
  induction s with
  | nil => rfl
  | cons c s ih =>
    have hc : c ≠ 0x0D := fun he => h (he ▸ List.mem_cons_self)
    rw [textMode_cons (.inl hc), ih (fun hm => h (List.mem_cons_of_mem c hm))]

theorem Closed.textMode (h : Closed 0x0A s) : Closed 0x0A (textMode s) := by
  rcases h with rfl | ⟨s, rfl⟩
  · exact closed_nil
  · obtain ⟨u, hu⟩ := textMode_terminated s
    rw [hu []]
    exact closed_line u

theorem isPrefixOf_bom_append (h : Closed 0x0A s) (hne : s ≠ []) (t : QByteArray) :
    [0xEF, 0xBB, 0xBF].isPrefixOf (s ++ t) = [0xEF, 0xBB, 0xBF].isPrefixOf s := by
  obtain ⟨s, rfl⟩ := h.resolve_left hne
  match s with
  | [] => rfl
  | [a] => 
    rw [List.append_assoc]
    simp [List.isPrefixOf]
  | [a, b] => 
    rw [List.append_assoc]
    simp [List.isPrefixOf]
  | a :: b :: c :: s => rfl

theorem fromUtf8_closed (h : Closed 0x0A s) (t : QByteArray) :
    Nullock.fromUtf8 (s ++ t) = Nullock.fromUtf8 s ++ Nullock.fromUtf8 t := by
  rcases h with rfl | ⟨s, rfl⟩
  · rfl
  · rw [List.append_assoc, List.singleton_append, fromUtf8_append (by decide),
      fromUtf8_append (by decide), List.append_assoc]
    rfl

theorem Closed.fromUtf8 (h : Closed 0x0A s) : Closed 0x0A (Nullock.fromUtf8 s) := by
  rcases h with rfl | ⟨s, rfl⟩
  · exact closed_nil
  · rw [fromUtf8_append (by decide)]
    exact closed_line _

theorem fromUtf8_append_closed (h : Closed 0x0A s)
    (ht : [0xEF, 0xBB, 0xBF].isPrefixOf t = false) :
    QString.fromUtf8 (s ++ t) = QString.fromUtf8 s ++ QString.fromUtf8 t ∧
      Closed 0x0A (QString.fromUtf8 s) := by
  have htext : QString.fromUtf8 t = Nullock.fromUtf8 t := by
    rw [QString.fromUtf8, ht]
    rfl
  rcases eq_or_ne s [] with rfl | hne
  · exact ⟨rfl, closed_nil⟩
  rw [htext, QString.fromUtf8, isPrefixOf_bom_append h hne, QString.fromUtf8]
  by_cases hb : [0xEF, 0xBB, 0xBF].isPrefixOf s = true
  · obtain ⟨u, rfl⟩ := List.isPrefixOf_iff_prefix.1 hb
    have hu : Closed 0x0A u := h.of_append
    rw [if_pos hb, if_pos hb, List.append_assoc]
    exact ⟨fromUtf8_closed hu t, hu.fromUtf8⟩
  · rw [if_neg hb, if_neg hb]
    exact ⟨fromUtf8_closed h t, h.fromUtf8⟩

/-- A line that is printable text in UTF-8 and begins with a brace. -/
structure PlainLine (line : QByteArray) : Prop where
  text : toUtf8 (Nullock.fromUtf8 line) = line
  printed : ∀ c ∈ line, 0x20 ≤ c
  front : ∃ s, line = 0x7B :: s

namespace PlainLine

theorem noFeed (h : PlainLine line) : 0x0A ∉ line := fun hm =>
  absurd (h.printed _ hm) (by decide)

theorem noReturn (h : PlainLine line) : 0x0D ∉ line := fun hm =>
  absurd (h.printed _ hm) (by decide)

theorem noBom (h : PlainLine line) (t : QByteArray) :
    [0xEF, 0xBB, 0xBF].isPrefixOf (line ++ t) = false := by
  obtain ⟨s, rfl⟩ := h.front
  rfl

theorem noFeed_text (h : PlainLine line) : 0x0A ∉ Nullock.fromUtf8 line := by
  intro hm
  obtain ⟨a, b, he⟩ := List.append_of_mem hm
  apply h.noFeed
  rw [← h.text, he, toUtf8_append (by decide)]
  exact List.mem_append_right _ List.mem_cons_self

theorem streamLines_line (h : PlainLine line) : streamLines (line ++ [0x0A]) = [line] := by
  have hmode : textMode (line ++ [0x0A]) = line ++ [0x0A] := by
    apply textMode_eq
    intro hm
    rcases List.mem_append.1 hm with hm | hm
    · exact h.noReturn hm
    · exact absurd (List.mem_singleton.1 hm) (by decide)
  rw [streamLines, hmode, QString.fromUtf8, h.noBom, if_neg Bool.false_ne_true,
    fromUtf8_append (by decide)]
  exact (congrArg (List.map toUtf8) (linesOf_line h.noFeed_text)).trans (congrArg (· :: []) h.text)

end PlainLine

theorem streamLines_append (h : Closed 0x0A s)
    (ht : [0xEF, 0xBB, 0xBF].isPrefixOf (textMode t) = false) :
    streamLines (s ++ t) = streamLines s ++ streamLines t := by
  obtain ⟨htext, hclosed⟩ := fromUtf8_append_closed h.textMode ht
  rw [streamLines, textMode_append h, htext, linesOf_append hclosed, List.map_append]
  rfl

theorem streamLines_append_line (h : Closed 0x0A s) (hl : PlainLine line) :
    streamLines (s ++ (line ++ [0x0A])) = streamLines s ++ [line] := by
  rw [streamLines_append h, hl.streamLines_line]
  obtain ⟨t, rfl⟩ := hl.front
  rw [List.cons_append, textMode_cons (.inl (by decide))]
  rfl

end Stream

end Nullock

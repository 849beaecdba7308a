import Nullock.Scanning

namespace Nullock

structure NoBlank (cr lf : α) (s : List α) : Prop where
  lfLf : ¬ [lf, lf] <:+: s
  lfCr : ¬ [lf, cr] <:+: s
  crCr : ¬ [cr, cr] <:+: s

/-- There is no blank line, or the first one is two carriage returns with line feeds. -/
def CanonicalBlank (cr lf : α) (s : List α) : Prop :=
  NoBlank cr lf s ∨
    ∃ head body, s = head ++ ([cr, lf, cr, lf] ++ body) ∧ NoBlank cr lf (head ++ [cr, lf])

section
variable {cr lf : α}

theorem NoBlank.of_infix (h : NoBlank cr lf s) (ht : t <:+: s) : NoBlank cr lf t where
  lfLf hi := h.lfLf (hi.trans ht)
  lfCr hi := h.lfCr (hi.trans ht)
  crCr hi := h.crCr (hi.trans ht)

theorem noBlank_nil : NoBlank cr lf [] where
  lfLf hi := List.cons_ne_nil _ _ (List.infix_nil.1 hi)
  lfCr hi := List.cons_ne_nil _ _ (List.infix_nil.1 hi)
  crCr hi := List.cons_ne_nil _ _ (List.infix_nil.1 hi)

theorem noBlank_cons_cons :
    NoBlank cr lf (c :: d :: s) ↔
      ¬ (c = lf ∧ (d = lf ∨ d = cr)) ∧ ¬ (c = cr ∧ d = cr) ∧ NoBlank cr lf (d :: s) := by
  have hpair (a b : α) : [a, b] <:+: c :: d :: s ↔ (c = a ∧ d = b) ∨ [a, b] <:+: d :: s := by
    rw [List.infix_cons_iff, List.cons_prefix_cons, List.cons_prefix_cons]
    simp only [List.nil_prefix, and_true, eq_comm]
  constructor
  · intro h
    refine ⟨?_, ?_, h.of_infix (List.infix_cons List.infix_rfl)⟩
    · rintro ⟨hc, hd | hd⟩
      · exact h.lfLf ((hpair lf lf).2 (.inl ⟨hc, hd⟩))
      · exact h.lfCr ((hpair lf cr).2 (.inl ⟨hc, hd⟩))
    · intro hcd
      exact h.crCr ((hpair cr cr).2 (.inl hcd))
  · rintro ⟨hlf, hcr, h⟩
    refine ⟨?_, ?_, ?_⟩
    · intro hi
      rcases (hpair lf lf).1 hi with ⟨hc, hd⟩ | hi
      · exact hlf ⟨hc, .inl hd⟩
      · exact h.lfLf hi
    · intro hi
      rcases (hpair lf cr).1 hi with ⟨hc, hd⟩ | hi
      · exact hlf ⟨hc, .inr hd⟩
      · exact h.lfCr hi
    · intro hi
      rcases (hpair cr cr).1 hi with hcd | hi
      · exact hcr hcd
      · exact h.crCr hi

theorem noBlank_singleton (c : α) : NoBlank cr lf [c] where
  lfLf hi := absurd hi.length_le (by simp)
  lfCr hi := absurd hi.length_le (by simp)
  crCr hi := absurd hi.length_le (by simp)

theorem NoBlank.map {f : α → β} (hcr : ∀ c ∈ s, f c = f cr → c = cr)
    (hlf : ∀ c ∈ s, f c = f lf → c = lf) (h : NoBlank cr lf s) :
    NoBlank (f cr) (f lf) (s.map f) := by
  induction s with
  | nil => exact noBlank_nil
  | cons c s ih =>
    cases s with
    | nil => exact noBlank_singleton (f c)
    | cons d s =>
      rw [List.forall_mem_cons, List.forall_mem_cons] at hcr hlf
      obtain ⟨hline, hreturn, hrest⟩ := noBlank_cons_cons.1 h
      apply noBlank_cons_cons.2
      refine ⟨?_, ?_, ih (List.forall_mem_cons.2 hcr.2) (List.forall_mem_cons.2 hlf.2) hrest⟩
      · rintro ⟨hc, hd | hd⟩
        · exact hline ⟨hlf.1 hc, .inl (hlf.2.1 hd)⟩
        · exact hline ⟨hlf.1 hc, .inr (hcr.2.1 hd)⟩
      · rintro ⟨hc, hd⟩
        exact hreturn ⟨hcr.1 hc, hcr.2.1 hd⟩

theorem prefix_drop_of_append {pat a b : List α} (h : pat <+: (a ++ b).drop j)
    (hlen : j + pat.length ≤ a.length) : pat <+: a.drop j := by
  rw [List.drop_append_of_le_length (by omega)] at h
  apply List.prefix_of_prefix_length_le h (List.prefix_append _ _)
  rw [List.length_drop]
  omega

section Search
variable [BEq α] [LawfulBEq α]

theorem indexOf_blank_canonical (h : NoBlank cr lf (head ++ [cr, lf])) (body : List α) :
    indexOf [cr, lf, cr, lf] (head ++ ([cr, lf, cr, lf] ++ body)) = some head.length := by
  apply indexOf_eq_some_iff.2
  rw [List.drop_left, List.length_append]
  refine ⟨List.prefix_append _ _, by omega, ?_⟩
  intro j hj hp
  have hthree : [cr, lf, cr] <+: [cr, lf, cr, lf] := ⟨[lf], rfl⟩
  have hshort : [cr, lf, cr] <+: (head ++ [cr, lf]).drop j := by
    apply prefix_drop_of_append (b := [cr, lf] ++ body)
    · rw [List.append_assoc]
      exact hthree.trans hp
    · rw [List.length_append]
      simp only [List.length_cons, List.length_nil]
      omega
  apply h.lfCr
  exact (List.infix_cons List.infix_rfl).trans (hshort.isInfix.trans (List.drop_suffix _ _).isInfix)

theorem indexOf_lines_canonical (h : NoBlank cr lf (head ++ [cr, lf])) (body : List α)
    (hi : indexOf [lf, lf] (head ++ ([cr, lf, cr, lf] ++ body)) = some i) : head.length ≤ i := by
  obtain ⟨hp, _, _⟩ := indexOf_eq_some_iff.1 hi
  by_contra hlt
  apply h.lfLf
  have hshort : [lf, lf] <+: (head ++ [cr, lf]).drop i := by
    apply prefix_drop_of_append (b := [cr, lf] ++ body)
    · rw [List.append_assoc]
      exact hp
    · rw [List.length_append]
      simp only [List.length_cons, List.length_nil]
      omega
  exact hshort.isInfix.trans (List.drop_suffix _ _).isInfix

theorem NoBlank.indexOf_blank (h : NoBlank cr lf s) : indexOf [cr, lf, cr, lf] s = none := by
  apply indexOf_eq_none_iff.2
  intro i _ hp
  apply h.lfCr
  have hpair : [lf, cr] <:+: [cr, lf, cr, lf] := ⟨[cr], [lf], rfl⟩
  exact hpair.trans (hp.isInfix.trans (List.drop_suffix _ _).isInfix)

theorem NoBlank.indexOf_lines (h : NoBlank cr lf s) : indexOf [lf, lf] s = none := by
  apply indexOf_eq_none_iff.2
  intro i _ hp
  exact h.lfLf (hp.isInfix.trans (List.drop_suffix _ _).isInfix)

end Search

end

end Nullock

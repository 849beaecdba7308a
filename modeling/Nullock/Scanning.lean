import Mathlib.Data.List.DropRight
import Mathlib.Data.List.Find

namespace Nullock

def indexOf [BEq α] (pat xs : List α) : Option Nat :=
  (List.range (xs.length + 1)).find? (fun i => pat.isPrefixOf (xs.drop i))

/-- The first position, not before `start`, at which the pattern occurs. -/
def indexOfFrom [BEq α] (pat xs : List α) (start : Nat) : Option Nat :=
  (indexOf pat (xs.drop start)).map (start + ·)

def lastIndexOf [BEq α] (x : α) (xs : List α) : Option Nat :=
  (List.range xs.length).reverse.find? (fun i => xs[i]? == some x)

def firstSection [BEq α] (sep : α) (s : List α) : List α := s.takeWhile (· != sep)

/-- Occurrences replaced from the left; `skip` elements are still passed over. -/
def replaceFrom [BEq α] (before after : List α) : Nat → List α → List α
  | _, [] => []
  | skip + 1, _ :: s => replaceFrom before after skip s
  | 0, c :: s =>
    if before.isPrefixOf (c :: s) then after ++ replaceFrom before after (before.length - 1) s
    else c :: replaceFrom before after 0 s

def replaceAll [BEq α] (before after s : List α) : List α := replaceFrom before after 0 s

def trimWith (p : α → Bool) (s : List α) : List α := (s.dropWhile p).rdropWhile p

theorem forall_mem_of_all {p : α → Prop} [DecidablePred p] {s : List α}
    (h : s.all (fun c => decide (p c)) = true) : ∀ c ∈ s, p c := by
  intro c hc
  exact of_decide_eq_true (List.all_eq_true.1 h c hc)

section Trim
variable {p : α → Bool} {s t a b : List α}

theorem trimWith_split (p : α → Bool) (s : List α) :
    ∃ a b, s = a ++ (trimWith p s ++ b) ∧ (∀ c ∈ a, p c = true) ∧ ∀ c ∈ b, p c = true := by
  refine ⟨s.takeWhile p, (s.dropWhile p).rtakeWhile p, ?_, ?_, ?_⟩
  · rw [trimWith, List.rdropWhile_append_rtakeWhile, List.takeWhile_append_dropWhile]
  · intro c hc
    exact List.mem_takeWhile_imp hc
  · intro c hc
    exact List.mem_rtakeWhile_imp hc

theorem mem_of_mem_trimWith (h : c ∈ trimWith p s) : c ∈ s := by
  obtain ⟨a, b, hs, _, _⟩ := trimWith_split p s
  rw [hs]
  exact List.mem_append_right _ (List.mem_append_left _ h)

theorem mem_trimWith (h : c ∈ s) (hc : p c = false) : c ∈ trimWith p s := by
  obtain ⟨a, b, hs, ha, hb⟩ := trimWith_split p s
  rw [hs] at h
  rcases List.mem_append.1 h with h | h
  · rw [ha c h] at hc
    cases hc
  · rcases List.mem_append.1 h with h | h
    · exact h
    · rw [hb c h] at hc
      cases hc

theorem dropWhile_eq_self (h : ∀ c, t.head? = some c → p c = false) : t.dropWhile p = t := by
  cases t with
  | nil => rfl
  | cons c t => rw [List.dropWhile_cons, h c rfl, if_neg Bool.false_ne_true]

theorem rdropWhile_eq_self (h : ∀ c, t.getLast? = some c → p c = false) :
    t.rdropWhile p = t := by
  rw [List.rdropWhile, dropWhile_eq_self, List.reverse_reverse]
  rw [List.head?_reverse]
  exact h

theorem trimWith_ends (p : α → Bool) (s : List α) :
    (∀ c, (trimWith p s).head? = some c → p c = false) ∧
      ∀ c, (trimWith p s).getLast? = some c → p c = false := by
  constructor
  · intro c hc
    obtain ⟨u, hu⟩ : trimWith p s <+: s.dropWhile p := List.rdropWhile_prefix p _
    have hd : (s.dropWhile p).head? = some c := by
      rw [← hu, List.head?_append, hc]
      rfl
    have hne : s.dropWhile p ≠ [] := by
      intro hn
      rw [hn] at hd
      cases hd
    have hh := List.head_dropWhile_not p hne
    rw [List.head?_eq_some_head hne] at hd
    cases hd
    exact hh
  · intro c hc
    have hne : (s.dropWhile p).rdropWhile p ≠ [] := by
      intro hn
      rw [trimWith, hn] at hc
      cases hc
    have hl := List.rdropWhile_last_not p (s.dropWhile p) hne
    rw [trimWith, List.getLast?_eq_some_getLast hne] at hc
    cases hc
    exact Bool.eq_false_iff.2 hl

theorem trimWith_eq_self (h : ∀ c, t.head? = some c → p c = false)
    (h' : ∀ c, t.getLast? = some c → p c = false) : trimWith p t = t := by
  rw [trimWith, dropWhile_eq_self h, rdropWhile_eq_self h']

theorem trimWith_idem (p : α → Bool) (s : List α) : trimWith p (trimWith p s) = trimWith p s :=
  trimWith_eq_self (trimWith_ends p s).1 (trimWith_ends p s).2

theorem trimWith_eq_nil_iff : trimWith p s = [] ↔ ∀ c ∈ s, p c = true := by
  constructor
  · intro h c hc
    by_contra hn
    have hm := mem_trimWith hc (Bool.eq_false_iff.2 hn)
    rw [h] at hm
    cases hm
  · intro h
    rw [trimWith, List.dropWhile_eq_nil_iff.2 h, List.rdropWhile_nil]

theorem trimWith_append (ha : ∀ c ∈ a, p c = true) (hb : ∀ c ∈ b, p c = true)
    (ht : trimWith p t = t) : trimWith p (a ++ (t ++ b)) = t := by
  have hb' : ∀ c ∈ b.reverse, p c = true := fun c hc => hb c (List.mem_reverse.1 hc)
  have he := trimWith_ends p t
  rw [ht] at he
  rw [trimWith, List.dropWhile_append_of_pos ha]
  cases t with
  | nil => rw [List.nil_append, List.dropWhile_eq_nil_iff.2 hb, List.rdropWhile_nil]
  | cons c t =>
    rw [dropWhile_eq_self, List.rdropWhile, List.reverse_append, List.dropWhile_append_of_pos hb']
    · exact rdropWhile_eq_self he.2
    · intro c' hc'
      exact he.1 c' hc'

theorem trimWith_prepend (ha : ∀ c ∈ a, p c = true) (s : List α) :
    trimWith p (a ++ s) = trimWith p s := by
  rw [trimWith, List.dropWhile_append_of_pos ha, trimWith]

theorem trimWith_concat (hb : ∀ c ∈ b, p c = true) (s : List α) :
    trimWith p (s ++ b) = trimWith p s := by
  obtain ⟨a, b', hs, ha, hb'⟩ := trimWith_split p s
  have hsplit : s ++ b = a ++ (trimWith p s ++ (b' ++ b)) := by
    conv => lhs; rw [hs]
    rw [List.append_assoc, List.append_assoc]
  have hall : ∀ c ∈ b' ++ b, p c = true := by
    intro c hc
    rcases List.mem_append.1 hc with hc | hc
    · exact hb' c hc
    · exact hb c hc
  rw [hsplit]
  exact trimWith_append ha hall (trimWith_idem p s)

theorem trimmed_join (hs : trimWith p s = s) (ht : trimWith p t = t) (hne : s ≠ []) (hne' : t ≠ [])
    (c : α) : trimWith p (s ++ c :: t) = s ++ c :: t := by
  have hs' := (trimWith_ends p s).1
  have ht' := (trimWith_ends p t).2
  rw [hs] at hs'
  rw [ht] at ht'
  apply trimWith_eq_self
  · intro d hd
    rw [List.head?_append_of_ne_nil _ hne] at hd
    exact hs' d hd
  · intro d hd
    rw [List.getLast?_append_of_ne_nil _ (List.cons_ne_nil c t), List.getLast?_cons] at hd
    apply ht' d
    cases hl : t.getLast? with
    | none => exact absurd (List.getLast?_eq_none_iff.1 hl) hne'
    | some l => rw [hl] at hd; exact hd

theorem trimWith_map {f : α → β} {q : β → Bool} (h : ∀ c, q (f c) = p c) (s : List α) :
    trimWith q (s.map f) = (trimWith p s).map f := by
  have hc : q ∘ f = p := funext h
  rw [trimWith, trimWith, List.rdropWhile, List.rdropWhile, List.dropWhile_map, hc,
    ← List.map_reverse, List.dropWhile_map, hc, List.map_reverse]

end Trim

theorem splitOn_map [BEq α] [BEq β] {f : α → β} {x : α} {y : β}
    (h : ∀ c, (f c == y) = (c == x)) (s : List α) :
    (s.map f).splitOn y = (s.splitOn x).map (List.map f) := by
  induction s with
  | nil => rfl
  | cons c s ih =>
    rw [List.map_cons, List.splitOn_cons_eq_if_modifyHead, List.splitOn_cons_eq_if_modifyHead, h,
      ih]
    split
    · rfl
    · cases s.splitOn x with
      | nil => rfl
      | cons l ls => rfl

variable [BEq α] [LawfulBEq α]

theorem indexOf_eq_some_iff {pat xs : List α} :
    indexOf pat xs = some i ↔
      pat <+: xs.drop i ∧ i ≤ xs.length ∧ ∀ j, j < i → ¬ pat <+: xs.drop j := by
  simp only [indexOf, List.find?_range_eq_some, List.isPrefixOf_iff_prefix, List.mem_range,
    Nat.lt_succ_iff, Bool.not_eq_true', ← Bool.not_eq_true]

theorem indexOf_eq_none_iff {pat xs : List α} :
    indexOf pat xs = none ↔ ∀ i, i ≤ xs.length → ¬ pat <+: xs.drop i := by
  simp only [indexOf, List.find?_range_eq_none, List.isPrefixOf_iff_prefix, Nat.lt_succ_iff,
    Bool.not_eq_true', ← Bool.not_eq_true]

theorem indexOf_front (pat xs : List α) : indexOf pat (pat ++ xs) = some 0 := by
  apply indexOf_eq_some_iff.2
  exact ⟨⟨xs, rfl⟩, Nat.zero_le _, fun _ hj => absurd hj (Nat.not_lt_zero _)⟩

theorem indexOf_split {pat xs : List α} (h : indexOf pat xs = some i) :
    xs = xs.take i ++ (pat ++ xs.drop (i + pat.length)) ∧ i + pat.length ≤ xs.length := by
  obtain ⟨⟨t, ht⟩, hi, _⟩ := indexOf_eq_some_iff.1 h
  have hd : xs.drop (i + pat.length) = t := by
    rw [← List.drop_drop, ← ht, List.drop_left]
  have hl := congrArg List.length ht
  rw [List.length_append, List.length_drop] at hl
  refine ⟨?_, by omega⟩
  rw [hd, ht, List.take_append_drop]

theorem indexOf_append {pat pre : List α} (xs : List α)
    (h : ∀ j, j < pre.length → ¬ pat <+: (pre ++ xs).drop j) :
    indexOf pat (pre ++ xs) = (indexOf pat xs).map (pre.length + ·) := by
  have hdrop (j : Nat) : (pre ++ xs).drop (pre.length + j) = xs.drop j := by
    rw [← List.drop_drop, List.drop_left]
  cases hx : indexOf pat xs with
  | none =>
    rw [indexOf_eq_none_iff] at hx
    apply indexOf_eq_none_iff.2
    intro i hi
    by_cases hlt : i < pre.length
    · exact h i hlt
    · rw [List.length_append] at hi
      have he : i = pre.length + (i - pre.length) := by omega
      rw [he, hdrop]
      exact hx _ (by omega)
  | some k =>
    obtain ⟨hp, hk, hmin⟩ := indexOf_eq_some_iff.1 hx
    rw [Option.map_some]
    apply indexOf_eq_some_iff.2
    rw [hdrop, List.length_append]
    refine ⟨hp, by omega, ?_⟩
    intro j hj
    by_cases hlt : j < pre.length
    · exact h j hlt
    · have he : j = pre.length + (j - pre.length) := by omega
      rw [he, hdrop]
      exact hmin _ (by omega)

theorem not_mem_take_indexOf {x : α} {s : List α}
    (h : indexOf [x] s = some i) : x ∉ s.take i := by
  intro hm
  obtain ⟨j, hj, hx⟩ := List.getElem_of_mem hm
  obtain ⟨_, hi, hmin⟩ := indexOf_eq_some_iff.1 h
  rw [List.length_take] at hj
  apply hmin j (by omega)
  rw [List.getElem_take] at hx
  rw [List.drop_eq_getElem_cons (by omega), hx]
  exact ⟨_, rfl⟩

theorem indexOf_singleton {x : α} {pre : List α} (h : x ∉ pre) (rest : List α) :
    indexOf [x] (pre ++ x :: rest) = some pre.length := by
  apply indexOf_eq_some_iff.2
  rw [List.drop_left, List.length_append]
  refine ⟨⟨rest, rfl⟩, by omega, ?_⟩
  intro j hj hp
  rw [List.drop_append_of_le_length (by omega), List.drop_eq_getElem_cons hj] at hp
  obtain ⟨u, hu⟩ := hp
  rw [List.cons_append, List.cons_append, List.cons.injEq] at hu
  exact h (hu.1 ▸ List.getElem_mem hj)

theorem indexOf_append_right {pat xs : List α} (h : indexOf pat xs = some i) (ys : List α) :
    indexOf pat (xs ++ ys) = some i := by
  obtain ⟨hp, hi, hmin⟩ := indexOf_eq_some_iff.1 h
  have hlen := (indexOf_split h).2
  apply indexOf_eq_some_iff.2
  rw [List.drop_append_of_le_length hi, List.length_append]
  refine ⟨hp.trans (List.prefix_append _ _), by omega, ?_⟩
  intro j hj hpj
  apply hmin j hj
  rw [List.drop_append_of_le_length (by omega)] at hpj
  apply List.prefix_of_prefix_length_le hpj (List.prefix_append _ _)
  rw [List.length_drop]
  omega

theorem indexOf_of_append {pat xs ys : List α} (h : indexOf pat (xs ++ ys) = some i) :
    indexOf pat xs = if i + pat.length ≤ xs.length then some i else none := by
  cases hx : indexOf pat xs with
  | some j =>
    have hj := indexOf_append_right hx ys
    rw [h, Option.some.injEq] at hj
    subst hj
    rw [if_pos (indexOf_split hx).2]
  | none =>
    rw [if_neg]
    intro hle
    apply indexOf_eq_none_iff.1 hx i (by omega)
    obtain ⟨hp, _, _⟩ := indexOf_eq_some_iff.1 h
    rw [List.drop_append_of_le_length (by omega)] at hp
    apply List.prefix_of_prefix_length_le hp (List.prefix_append _ _)
    rw [List.length_drop]
    omega

omit [LawfulBEq α] in
theorem splitOn_cons_head {x : α} (c : α) (s : List α) :
    ∃ l ls, s.splitOn x = l :: ls ∧
      (c :: s).splitOn x = if c == x then [] :: l :: ls else (c :: l) :: ls := by
  cases h : s.splitOn x with
  | nil => exact absurd h (List.splitOn_ne_nil x s)
  | cons l ls =>
    refine ⟨l, ls, rfl, ?_⟩
    rw [List.splitOn_cons_eq_if_modifyHead, h]
    rfl

theorem not_mem_of_mem_splitOn {x : α} {s : List α} (h : part ∈ s.splitOn x) : x ∉ part := by
  induction s generalizing part with
  | nil =>
    rw [List.splitOn_nil, List.mem_singleton] at h
    rw [h]
    exact List.not_mem_nil
  | cons c s ih =>
    obtain ⟨l, ls, hs, hc⟩ := splitOn_cons_head (x := x) c s
    rw [hs] at ih
    rw [hc] at h
    by_cases he : (c == x) = true
    · rw [if_pos he] at h
      cases h with
      | head => exact List.not_mem_nil
      | tail _ h => exact ih h
    · rw [if_neg he] at h
      cases h with
      | head =>
        intro hm
        cases hm with
        | head => exact he BEq.rfl
        | tail _ hm => exact ih List.mem_cons_self hm
      | tail _ h => exact ih (List.mem_cons_of_mem _ h)

omit [LawfulBEq α] in
theorem mem_of_mem_splitOn {x c : α} {s part : List α} (h : part ∈ s.splitOn x) (hc : c ∈ part) :
    c ∈ s := by
  induction s generalizing part with
  | nil =>
    rw [List.splitOn_nil, List.mem_singleton] at h
    rw [h] at hc
    exact hc
  | cons d s ih =>
    obtain ⟨l, ls, hs, hd⟩ := splitOn_cons_head (x := x) d s
    rw [hs] at ih
    rw [hd] at h
    split at h
    · rcases List.mem_cons.1 h with h | h
      · rw [h] at hc
        cases hc
      · exact List.mem_cons_of_mem _ (ih h hc)
    · rcases List.mem_cons.1 h with h | h
      · rw [h] at hc
        rcases List.mem_cons.1 hc with hc | hc
        · rw [hc]
          exact List.mem_cons_self
        · exact List.mem_cons_of_mem _ (ih List.mem_cons_self hc)
      · exact List.mem_cons_of_mem _ (ih (List.mem_cons_of_mem _ h) hc)

theorem exists_mem_splitOn {x c : α} {s : List α} (hc : c ∈ s) (hne : c ≠ x) :
    ∃ e ∈ s.splitOn x, c ∈ e := by
  induction s with
  | nil => cases hc
  | cons d s ih =>
    obtain ⟨l, ls, hs, hd⟩ := splitOn_cons_head (x := x) d s
    rw [hs] at ih
    rw [hd]
    rcases List.mem_cons.1 hc with hcd | hcs
    · rw [← hcd, if_neg (fun he => hne (beq_iff_eq.1 he))]
      exact ⟨c :: l, List.mem_cons_self, List.mem_cons_self⟩
    · obtain ⟨e, he, hce⟩ := ih hcs
      split
      · exact ⟨e, List.mem_cons_of_mem _ he, hce⟩
      · rcases List.mem_cons.1 he with he | he
        · exact ⟨d :: l, List.mem_cons_self, List.mem_cons_of_mem _ (he ▸ hce)⟩
        · exact ⟨e, List.mem_cons_of_mem _ he, hce⟩

theorem splitOn_prepend {x : α} {a : List α} (ha : x ∉ a) (s : List α) :
    (a ++ s).splitOn x = (s.splitOn x).modifyHead (a ++ ·) := by
  induction a with
  | nil => cases hl : s.splitOn x <;> simp only [List.nil_append, hl, List.modifyHead]
  | cons c a ih =>
    rw [List.mem_cons, not_or] at ha
    rw [List.cons_append, List.splitOn_cons_eq_if_modifyHead, if_neg, ih ha.2]
    · cases s.splitOn x <;> rfl
    · rw [beq_iff_eq]
      exact fun he => ha.1 he.symm

theorem splitOn_concat {x : α} {b : List α} (hb : x ∉ b) (s : List α) :
    ∃ front last, s.splitOn x = front ++ [last] ∧ (s ++ b).splitOn x = front ++ [last ++ b] := by
  induction s with
  | nil =>
    refine ⟨[], [], List.splitOn_nil x, ?_⟩
    rw [List.nil_append, List.splitOn_eq_singleton hb]
    rfl
  | cons c s ih =>
    obtain ⟨front, last, hs, hsb⟩ := ih
    rw [List.cons_append, List.splitOn_cons_eq_if_modifyHead,
      List.splitOn_cons_eq_if_modifyHead, hs, hsb]
    split
    · exact ⟨[] :: front, last, rfl, rfl⟩
    · cases front with
      | nil => exact ⟨[], c :: last, rfl, rfl⟩
      | cons f front => exact ⟨(c :: f) :: front, last, rfl, rfl⟩

theorem splitOn_trimWith {p : α → Bool} {x : α} (hx : p x = false) (s : List α) :
    ((trimWith p s).splitOn x).map (trimWith p) = (s.splitOn x).map (trimWith p) := by
  obtain ⟨a, b, hs, ha, hb⟩ := trimWith_split p s
  have hfree (t : List α) (ht : ∀ c ∈ t, p c = true) : x ∉ t := by
    intro hm
    rw [ht x hm] at hx
    cases hx
  obtain ⟨front, last, ht, htb⟩ := splitOn_concat (hfree b hb) (trimWith p s)
  conv => rhs; rw [hs, splitOn_prepend (hfree a ha), htb]
  rw [ht]
  cases front with
  | nil =>
    simp only [List.nil_append, List.modifyHead, List.map_cons, List.map_nil, trimWith_prepend ha,
      trimWith_concat hb]
  | cons f front =>
    simp only [List.cons_append, List.modifyHead, List.map_cons, List.map_append, List.map_nil,
      trimWith_prepend ha, trimWith_concat hb]

omit [LawfulBEq α] in
theorem lastIndexOf_concat (x : α) (xs : List α) (y : α) :
    lastIndexOf x (xs ++ [y]) = if y == x then some xs.length else lastIndexOf x xs := by
  rw [lastIndexOf, List.length_append, List.length_singleton, List.range_succ,
    List.reverse_concat, List.find?_cons, List.getElem?_append_right (Nat.le_refl _), Nat.sub_self]
  change (match some y == some x with | true => _ | false => _) = _
  rw [Option.some_beq_some]
  cases y == x with
  | true => rfl
  | false =>
    apply List.find?_congr
    intro i hi
    rw [List.getElem?_append_left (List.mem_range.1 (List.mem_reverse.1 hi))]

theorem lastIndexOf_none {x : α} {xs : List α} (h : x ∉ xs) :
    lastIndexOf x xs = none := by
  induction xs using List.reverseRecOn with
  | nil => rfl
  | append_singleton xs y ih =>
    rw [List.mem_append, List.mem_singleton, not_or] at h
    rw [lastIndexOf_concat, if_neg (fun he => h.2 (beq_iff_eq.1 he).symm), ih h.1]

theorem lastIndexOf_split {x : α} {b : List α} (h : x ∉ b) (a : List α) :
    lastIndexOf x (a ++ x :: b) = some a.length := by
  induction b using List.reverseRecOn with
  | nil => rw [lastIndexOf_concat, if_pos (beq_self_eq_true x)]
  | append_singleton b y ih =>
    rw [List.mem_append, List.mem_singleton, not_or] at h
    rw [← List.cons_append, ← List.append_assoc, lastIndexOf_concat,
      if_neg (fun he => h.2 (beq_iff_eq.1 he).symm), ih h.1]

omit [BEq α] [LawfulBEq α] in
theorem mem_intercalate {sep : List α} {ls : List (List α)} (h : c ∈ sep.intercalate ls) :
    c ∈ sep ∨ ∃ l ∈ ls, c ∈ l := by
  induction ls with
  | nil => cases h
  | cons l ls ih =>
    cases ls with
    | nil =>
      rw [List.intercalate_singleton] at h
      exact .inr ⟨l, List.mem_cons_self, h⟩
    | cons m ls =>
      rw [List.intercalate_cons_cons, List.append_assoc, List.mem_append, List.mem_append] at h
      rcases h with h | h | h
      · exact .inr ⟨l, List.mem_cons_self, h⟩
      · exact .inl h
      · apply (ih h).imp_right
        rintro ⟨k, hk, hc⟩
        exact ⟨k, List.mem_cons_of_mem l hk, hc⟩

end Nullock

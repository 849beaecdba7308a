import Nullock.CommonSubsequences
import Nullock.Text
import Mathlib.Data.Nat.Sqrt

namespace Nullock.Compare

open CommonSubsequences

def kMaxTokensPerSide : Nat := 20000
def kMaxCells : Nat := 16000000

inductive Op
  | eq
  | del
  | ins
deriving DecidableEq

structure Segment where
  op : Op
  text : QString
deriving DecidableEq

structure DiffResult where
  segments : List Segment := []
  added : Nat := 0
  removed : Nat := 0
  common : Nat := 0
  identical : Bool := false
  truncated : Bool := false

/-- The sizes to which two lists are cut for the table of their pairs. -/
def budgetedSizes (n m : Nat) : Nat × Nat :=
  if n = 0 ∨ m = 0 then (n, m)
  else if n * m ≤ kMaxCells then (n, m)
  else
    let side := Nat.sqrt kMaxCells
    if n ≤ side then (n, kMaxCells / n)
    else if m ≤ side then (kMaxCells / m, m)
    else (side, side)

/-- Numbers for tokens: a new one gets the number of those before. -/
def intern : List QString → List QString → List Nat × List QString
  | known, [] => ([], known)
  | known, t :: tokens =>
    let rest := intern (if t ∈ known then known else known ++ [t]) tokens
    (known.idxOf t :: rest.1, rest.2)

/-- The segments with a text, joined to the last one if it is alike. -/
def push (segments : List Segment) (op : Op) (text : QString) : List Segment :=
  match segments.getLast? with
  | some last =>
    if last.op = op then segments.dropLast ++ [{ op := op, text := last.text ++ text }]
    else segments ++ [{ op := op, text := text }]
  | none => segments ++ [{ op := op, text := text }]

def walk (rows : List (List Nat)) :
    List (Nat × QString) → List (Nat × QString) → Nat → Nat → DiffResult → DiffResult
  | [], [], _, _, res => res
  | (_, s) :: a, [], i, j, res =>
    walk rows a [] (i + 1) j
      { res with segments := push res.segments .del s, removed := res.removed + 1 }
  | [], (_, t) :: b, i, j, res =>
    walk rows [] b i (j + 1)
      { res with segments := push res.segments .ins t, added := res.added + 1 }
  | (x, s) :: a, (y, t) :: b, i, j, res =>
    if x = y then
      walk rows a b (i + 1) (j + 1) { res with segments := push res.segments .eq s }
    else if cellOf rows i (j + 1) ≤ cellOf rows (i + 1) j then
      walk rows a ((y, t) :: b) (i + 1) j
        { res with segments := push res.segments .del s, removed := res.removed + 1 }
    else
      walk rows ((x, s) :: a) b i (j + 1)
        { res with segments := push res.segments .ins t, added := res.added + 1 }
termination_by a b => a.length + b.length

def clipped (a b : List QString) : List QString × List QString :=
  let a := a.take kMaxTokensPerSide
  let b := b.take kMaxTokensPerSide
  let sizes := budgetedSizes a.length b.length
  (a.take sizes.1, b.take sizes.2)

def wasCut (a b : List QString) : Bool :=
  let sizes := budgetedSizes (a.take kMaxTokensPerSide).length (b.take kMaxTokensPerSide).length
  decide (kMaxTokensPerSide < a.length) || decide (kMaxTokensPerSide < b.length) ||
    decide (sizes.1 < (a.take kMaxTokensPerSide).length) ||
    decide (sizes.2 < (b.take kMaxTokensPerSide).length)

def compareTokens (truncated : Bool) (a b : List QString) : DiffResult :=
  let first := intern [] a
  let second := intern first.2 b
  let rows := table first.1 second.1
  let common := if a.length ≠ 0 ∧ b.length ≠ 0 then cellOf rows 0 0 else 0
  walk rows (first.1.zip a) (second.1.zip b) 0 0 { common := common, truncated := truncated }

def lcsDiff (a b : List QString) : DiffResult :=
  let res := compareTokens (wasCut a b) (clipped a b).1 (clipped a b).2
  { res with identical := !res.truncated && res.added == 0 && res.removed == 0 }

section Sizes

theorem side_eq : Nat.sqrt kMaxCells = 4000 := by
  have h : kMaxCells = 4000 * 4000 := rfl
  rw [h, Nat.sqrt_eq]

theorem budgetedSizes_fit (h : n * m ≤ kMaxCells) : budgetedSizes n m = (n, m) := by
  rw [budgetedSizes]
  split
  · rfl
  · rfl

theorem budgetedSizes_le (n m : Nat) :
    (budgetedSizes n m).1 ≤ n ∧ (budgetedSizes n m).2 ≤ m ∧
      (budgetedSizes n m).1 * (budgetedSizes n m).2 ≤ kMaxCells := by
  rw [budgetedSizes]
  split
  · rename_i hzero
    refine ⟨Nat.le_refl n, Nat.le_refl m, ?_⟩
    rcases hzero with rfl | rfl
    · rw [Nat.zero_mul]
      exact Nat.zero_le _
    · exact Nat.zero_le _
  split
  · rename_i hfit
    exact ⟨Nat.le_refl n, Nat.le_refl m, hfit⟩
  rename_i hlarge
  rw [side_eq]
  dsimp only
  split
  · exact ⟨Nat.le_refl n, Nat.div_le_of_le_mul (Nat.le_of_not_le hlarge),
      Nat.mul_div_le kMaxCells n⟩
  split
  · refine ⟨Nat.div_le_of_le_mul ?_, Nat.le_refl m, ?_⟩
    · rw [Nat.mul_comm]
      exact Nat.le_of_not_le hlarge
    · rw [Nat.mul_comm]
      exact Nat.mul_div_le kMaxCells m
  · exact ⟨by omega, by omega, by decide⟩

end Sizes

section Interning

theorem intern_spec (known tokens : List QString) :
    (∃ more, (intern known tokens).2 = known ++ more) ∧
      (∀ t ∈ tokens, t ∈ (intern known tokens).2) ∧
      (intern known tokens).1 = tokens.map (fun t => (intern known tokens).2.idxOf t) := by
  induction tokens generalizing known with
  | nil => exact ⟨⟨[], (List.append_nil known).symm⟩, fun t ht => (List.not_mem_nil ht).elim, rfl⟩
  | cons t tokens ih =>
    obtain ⟨⟨more, hmore⟩, hmem, hids⟩ := ih (if t ∈ known then known else known ++ [t])
    have hstep : ∃ tail, (if t ∈ known then known else known ++ [t]) = known ++ tail ∧
        t ∈ known ++ tail ∧ known.idxOf t = (known ++ tail).idxOf t := by
      split
      · rename_i hm
        exact ⟨[], (List.append_nil known).symm, by rwa [List.append_nil], by rw [List.append_nil]⟩
      · rename_i hm
        refine ⟨[t], rfl, List.mem_append_right _ List.mem_cons_self, ?_⟩
        rw [List.idxOf_append_of_notMem hm, List.idxOf_cons_self, List.idxOf_eq_length hm,
          Nat.add_zero]
    obtain ⟨tail, htail, ht, hidx⟩ := hstep
    have hfull : (intern known (t :: tokens)).2 = known ++ tail ++ more := by
      rw [intern, hmore, htail]
    have hsame : (intern known (t :: tokens)).2 =
        (intern (if t ∈ known then known else known ++ [t]) tokens).2 := rfl
    refine ⟨⟨tail ++ more, by rw [hfull, List.append_assoc]⟩, ?_, ?_⟩
    · intro u hu
      rcases List.mem_cons.1 hu with rfl | hu
      · rw [hfull]
        exact List.mem_append_left _ ht
      · rw [hsame]
        exact hmem u hu
    · have hnumbers : (intern known (t :: tokens)).1 = known.idxOf t ::
          (intern (if t ∈ known then known else known ++ [t]) tokens).1 := rfl
      rw [hnumbers, hids, List.map_cons, hsame]
      congr 1
      rw [hmore, htail, List.idxOf_append_of_mem ht, ← hidx]

end Interning

section Walking

def textOf (op op' : Op) (segments : List Segment) : QString :=
  ((segments.filter (fun s => s.op = op ∨ s.op = op')).map Segment.text).flatten

theorem textOf_append (op op' : Op) (xs ys : List Segment) :
    textOf op op' (xs ++ ys) = textOf op op' xs ++ textOf op op' ys := by
  rw [textOf, List.filter_append, List.map_append, List.flatten_append]
  rfl

theorem textOf_singleton (op op' : Op) (s : Segment) :
    textOf op op' [s] = if s.op = op ∨ s.op = op' then s.text else [] := by
  by_cases h : s.op = op ∨ s.op = op'
  · have hfilter : [s].filter (fun s => s.op = op ∨ s.op = op') = [s] :=
      List.filter_cons_of_pos (decide_eq_true h)
    rw [textOf, hfilter, if_pos h]
    exact List.append_nil _
  · have hfilter : [s].filter (fun s => s.op = op ∨ s.op = op') = [] :=
      List.filter_cons_of_neg (by rwa [decide_eq_true_eq])
    rw [textOf, hfilter, if_neg h]
    rfl

theorem textOf_push (op op' : Op) (segments : List Segment) (o : Op) (text : QString) :
    textOf op op' (push segments o text) =
      textOf op op' segments ++ if o = op ∨ o = op' then text else [] := by
  rw [push]
  cases hlast : segments.getLast? with
  | none =>
    dsimp only
    rw [textOf_append, textOf_singleton]
  | some last =>
    dsimp only
    split
    · rename_i ho
      have hsplit := List.dropLast_append_getLast? last hlast
      conv => rhs; rw [← hsplit]
      rw [textOf_append, textOf_append, textOf_singleton, textOf_singleton, List.append_assoc]
      congr 1
      dsimp only
      rw [ho]
      split
      · rfl
      · rfl
    · rw [textOf_append, textOf_singleton]

structure Walked (a b : List (Nat × QString)) (before after : DiffResult) : Prop where
  left : textOf .eq .del after.segments =
    textOf .eq .del before.segments ++ (a.map Prod.snd).flatten
  right : textOf .eq .ins after.segments =
    textOf .eq .ins before.segments ++ (b.map Prod.snd).flatten
  removed : after.removed + lcsLength (a.map Prod.fst) (b.map Prod.fst) = before.removed + a.length
  added : after.added + lcsLength (a.map Prod.fst) (b.map Prod.fst) = before.added + b.length
  common : after.common = before.common
  truncated : after.truncated = before.truncated

theorem drop_next {l as : List Nat} (h : x :: l = as.drop i) :
    i + 1 ≤ as.length ∧ l = as.drop (i + 1) := by
  have hlen := congrArg List.length h
  rw [List.length_cons, List.length_drop] at hlen
  refine ⟨by omega, ?_⟩
  rw [← List.drop_drop, ← h]
  rfl

theorem Walked.keep {a b : List (Nat × QString)}
    (h : Walked a b { res with segments := push res.segments .eq s } after) :
    Walked ((x, s) :: a) ((x, s) :: b) res after where
  left := by
    rw [h.left, textOf_push, if_pos (Or.inl rfl), List.append_assoc]
    rfl
  right := by
    rw [h.right, textOf_push, if_pos (Or.inl rfl), List.append_assoc]
    rfl
  removed := by
    rw [List.map_cons, List.map_cons, lcsLength_cons, if_pos rfl, ← Nat.add_assoc, h.removed]
    rfl
  added := by
    rw [List.map_cons, List.map_cons, lcsLength_cons, if_pos rfl, ← Nat.add_assoc, h.added]
    rfl
  common := h.common
  truncated := h.truncated

theorem Walked.delete {a b : List (Nat × QString)} (h : Walked a b
      { res with segments := push res.segments .del s, removed := res.removed + 1 } after)
    (hlcs : lcsLength (((x, s) :: a).map Prod.fst) (b.map Prod.fst) =
      lcsLength (a.map Prod.fst) (b.map Prod.fst)) :
    Walked ((x, s) :: a) b res after where
  left := by
    rw [h.left, textOf_push, if_pos (Or.inr rfl), List.append_assoc]
    rfl
  right := by
    rw [h.right, textOf_push, if_neg (by decide), List.append_nil]
  removed := by
    rw [hlcs, h.removed, List.length_cons]
    dsimp only
    omega
  added := by rw [hlcs, h.added]
  common := h.common
  truncated := h.truncated

theorem Walked.insert {a b : List (Nat × QString)} (h : Walked a b
      { res with segments := push res.segments .ins t, added := res.added + 1 } after)
    (hlcs : lcsLength (a.map Prod.fst) (((y, t) :: b).map Prod.fst) =
      lcsLength (a.map Prod.fst) (b.map Prod.fst)) :
    Walked a ((y, t) :: b) res after where
  left := by
    rw [h.left, textOf_push, if_neg (by decide), List.append_nil]
  right := by
    rw [h.right, textOf_push, if_pos (Or.inr rfl), List.append_assoc]
    rfl
  removed := by rw [hlcs, h.removed]
  added := by
    rw [hlcs, h.added, List.length_cons]
    dsimp only
    omega
  common := h.common
  truncated := h.truncated

theorem walk_spec {as bs : List Nat} (res : DiffResult) (ha : a.map Prod.fst = as.drop i)
    (hi : i ≤ as.length) (hb : b.map Prod.fst = bs.drop j) (hj : j ≤ bs.length)
    (htexts : ∀ p ∈ a, ∀ q ∈ b, p.1 = q.1 → p.2 = q.2) :
    Walked a b res (walk (table as bs) a b i j res) := by
  induction a, b, i, j, res using walk.induct (table as bs) with
  | case1 i j res =>
    rw [walk]
    exact ⟨(List.append_nil _).symm, (List.append_nil _).symm,
      congrArg (res.removed + ·) (lcsLength_nil _), congrArg (res.added + ·) (lcsLength_nil _),
      rfl, rfl⟩
  | case2 x s a i j res ih =>
    rw [walk]
    obtain ⟨hnext, hdrop⟩ := drop_next ha
    have hlcs : lcsLength (((x, s) :: a).map Prod.fst) (([] : List (Nat × QString)).map Prod.fst) =
        lcsLength (a.map Prod.fst) (([] : List (Nat × QString)).map Prod.fst) := by
      rw [List.map_nil, lcsLength_nil_right, lcsLength_nil_right]
    exact (ih hdrop hnext hb hj (fun p _ q hq => (List.not_mem_nil hq).elim)).delete hlcs
  | case3 y t b i j res ih =>
    rw [walk]
    obtain ⟨hnext, hdrop⟩ := drop_next hb
    have hlcs : lcsLength (([] : List (Nat × QString)).map Prod.fst) (((y, t) :: b).map Prod.fst) =
        lcsLength (([] : List (Nat × QString)).map Prod.fst) (b.map Prod.fst) := by
      rw [List.map_nil, lcsLength_nil, lcsLength_nil]
    exact (ih ha hi hdrop hnext (fun p hp => (List.not_mem_nil hp).elim)).insert hlcs
  | case4 s a y t b i j res ih =>
    obtain ⟨hnexta, hdropa⟩ := drop_next ha
    obtain ⟨hnextb, hdropb⟩ := drop_next hb
    have hst : s = t := htexts (y, s) List.mem_cons_self (y, t) List.mem_cons_self rfl
    subst hst
    rw [walk, if_pos rfl]
    exact (ih hdropa hnexta hdropb hnextb (fun p hp q hq =>
      htexts p (List.mem_cons_of_mem _ hp) q (List.mem_cons_of_mem _ hq))).keep
  | case5 x s a y t b i j res hne hcell ih =>
    obtain ⟨hnexta, hdropa⟩ := drop_next ha
    obtain ⟨hnextb, hdropb⟩ := drop_next hb
    rw [walk, if_neg hne, if_pos hcell]
    rw [cellOf_table as bs hi hnextb, cellOf_table as bs hnexta hj, ← ha, ← hb, ← hdropa,
      ← hdropb] at hcell
    apply (ih hdropa hnexta hb hj (fun p hp q hq =>
      htexts p (List.mem_cons_of_mem _ hp) q hq)).delete
    rw [List.map_cons, List.map_cons, lcsLength_cons, if_neg hne]
    exact Nat.max_eq_left hcell
  | case6 x s a y t b i j res hne hcell ih =>
    obtain ⟨hnexta, hdropa⟩ := drop_next ha
    obtain ⟨hnextb, hdropb⟩ := drop_next hb
    rw [walk, if_neg hne, if_neg hcell]
    rw [cellOf_table as bs hi hnextb, cellOf_table as bs hnexta hj, ← ha, ← hb, ← hdropa,
      ← hdropb] at hcell
    apply (ih ha hi hdropb hnextb (fun p hp q hq =>
      htexts p hp q (List.mem_cons_of_mem _ hq))).insert
    rw [List.map_cons, List.map_cons, lcsLength_cons, if_neg hne]
    exact Nat.max_eq_right (Nat.le_of_not_le hcell)

theorem zip_map_self (f : QString → Nat) (l : List QString) :
    (l.map f).zip l = l.map (fun t => (f t, t)) := by
  induction l with
  | nil => rfl
  | cons t l ih => rw [List.map_cons, List.zip_cons_cons, ih, List.map_cons]

theorem compareTokens_spec (truncated : Bool) (a b : List QString) :
    textOf .eq .del (compareTokens truncated a b).segments = a.flatten ∧
      textOf .eq .ins (compareTokens truncated a b).segments = b.flatten ∧
      (compareTokens truncated a b).removed + lcsLength a b = a.length ∧
      (compareTokens truncated a b).added + lcsLength a b = b.length ∧
      (compareTokens truncated a b).common = lcsLength a b ∧
      (compareTokens truncated a b).truncated = truncated := by
  obtain ⟨_, hmemA, hidsA⟩ := intern_spec [] a
  obtain ⟨⟨more, hmore⟩, _, hidsB⟩ := intern_spec (intern [] a).2 b
  rw [compareTokens]
  generalize (intern (intern [] a).2 b).2 = known at hmore hidsB
  have hids : (intern [] a).1 = a.map (fun t => known.idxOf t) := by
    rw [hidsA, hmore]
    exact List.map_congr_left (fun t ht => (List.idxOf_append_of_mem (hmemA t ht)).symm)
  rw [hids, hidsB, zip_map_self, zip_map_self]
  have hinj : ∀ x ∈ a, ∀ y ∈ b, known.idxOf x = known.idxOf y ↔ x = y := by
    intro x hx y _
    apply List.idxOf_inj
    rw [hmore]
    exact List.mem_append_left _ (hmemA x hx)
  have hfst (l : List QString) : (l.map (fun t => (known.idxOf t, t))).map Prod.fst =
      l.map (fun t => known.idxOf t) := by
    rw [List.map_map]
    rfl
  have hsnd (l : List QString) : (l.map (fun t => (known.idxOf t, t))).map Prod.snd = l := by
    rw [List.map_map]
    exact List.map_id l
  have htexts : ∀ p ∈ a.map (fun t => (known.idxOf t, t)),
      ∀ q ∈ b.map (fun t => (known.idxOf t, t)), p.1 = q.1 → p.2 = q.2 := by
    intro p hp q hq he
    obtain ⟨x, hx, rfl⟩ := List.mem_map.1 hp
    obtain ⟨y, hy, rfl⟩ := List.mem_map.1 hq
    exact (hinj x hx y hy).1 he
  have hcommon : (if a.length ≠ 0 ∧ b.length ≠ 0 then
      cellOf (table (a.map (fun t => known.idxOf t)) (b.map (fun t => known.idxOf t))) 0 0
      else 0) = lcsLength a b := by
    split
    · rw [cellOf_table _ _ (Nat.zero_le _) (Nat.zero_le _), List.drop_zero, List.drop_zero,
        lcsLength_map hinj]
    · rename_i hempty
      have hle := lcsLength_le a b
      omega
  have hwalk := walk_spec { common := lcsLength a b, truncated := truncated }
    (hfst a) (Nat.zero_le _) (hfst b) (Nat.zero_le _) htexts
  rw [hcommon]
  obtain ⟨hleft, hright, hremoved, hadded, hc, ht⟩ := hwalk
  rw [hfst, hfst, lcsLength_map hinj, List.length_map] at hremoved hadded
  rw [hsnd] at hleft hright
  exact ⟨hleft, hright, by simpa using hremoved, by simpa using hadded, hc, ht⟩

end Walking

end Nullock.Compare

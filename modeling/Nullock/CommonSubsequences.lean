import Mathlib.Data.List.Infix
import Mathlib.Data.List.Sublists

namespace Nullock.CommonSubsequences

variable {α : Type}

theorem tail_sublist {c : List α} (h : List.Sublist c (x :: a)) : List.Sublist c.tail a := by
  cases h with
  | cons _ h => exact (List.tail_sublist c).trans h
  | cons_cons _ h => exact h

theorem tails_head (f : List α → Nat) (b : List α) : (b.tails.map f).headD 0 = f b := by
  cases b <;> rfl

theorem tails_getElem? (l : List α) (h : n ≤ l.length) : l.tails[n]? = some (l.drop n) := by
  induction l generalizing n with
  | nil => rw [Nat.le_zero.1 h]; rfl
  | cons x l ih =>
    cases n with
    | zero => rfl
    | succ n =>
      rw [List.tails_cons, List.getElem?_cons_succ, ih (Nat.le_of_succ_le_succ h)]
      rfl

variable [DecidableEq α]

def lcsLength : List α → List α → Nat
  | [], _ => 0
  | _ :: _, [] => 0
  | x :: a, y :: b =>
    if x = y then lcsLength a b + 1 else max (lcsLength a (y :: b)) (lcsLength (x :: a) b)
termination_by a b => a.length + b.length

@[simp] theorem lcsLength_nil (b : List α) : lcsLength [] b = 0 := by rw [lcsLength]

@[simp] theorem lcsLength_nil_right (a : List α) : lcsLength a [] = 0 := by
  cases a with
  | nil => rw [lcsLength]
  | cons x a => rw [lcsLength]

theorem lcsLength_cons (x y : α) (a b : List α) : lcsLength (x :: a) (y :: b) =
    if x = y then lcsLength a b + 1 else max (lcsLength a (y :: b)) (lcsLength (x :: a) b) := by
  rw [lcsLength]

theorem length_le_lcsLength {a b c : List α} (ha : List.Sublist c a) (hb : List.Sublist c b) :
    c.length ≤ lcsLength a b := by
  induction a, b using lcsLength.induct generalizing c with
  | case1 b =>
    rw [List.sublist_nil.1 ha]
    exact Nat.zero_le _
  | case2 x a =>
    rw [List.sublist_nil.1 hb]
    exact Nat.zero_le _
  | case3 a y b ih =>
    have htail := ih (tail_sublist ha) (tail_sublist hb)
    rw [List.length_tail] at htail
    rw [lcsLength_cons, if_pos rfl]
    omega
  | case4 x a y b hne iha ihb =>
    rw [lcsLength_cons, if_neg hne]
    cases ha with
    | cons _ ha => exact (iha ha hb).trans (Nat.le_max_left _ _)
    | cons_cons _ ha =>
      -- The subsequence begins with `x`, so that `y` is not used on the other side.
      cases hb with
      | cons _ hb => exact (ihb (ha.cons_cons _) hb).trans (Nat.le_max_right _ _)
      | cons_cons _ hb => exact absurd rfl hne

theorem exists_common (a b : List α) :
    ∃ c, List.Sublist c a ∧ List.Sublist c b ∧ c.length = lcsLength a b := by
  induction a, b using lcsLength.induct with
  | case1 b => exact ⟨[], List.nil_sublist _, List.nil_sublist _, (lcsLength_nil b).symm⟩
  | case2 x a => exact ⟨[], List.nil_sublist _, List.nil_sublist _, (lcsLength_nil_right _).symm⟩
  | case3 a y b ih =>
    obtain ⟨c, ha, hb, hlen⟩ := ih
    refine ⟨y :: c, ha.cons_cons y, hb.cons_cons y, ?_⟩
    rw [List.length_cons, hlen, lcsLength_cons, if_pos rfl]
  | case4 x a y b hne iha ihb =>
    obtain ⟨c, hca, hcb, hc⟩ := iha
    obtain ⟨d, hda, hdb, hd⟩ := ihb
    rw [lcsLength_cons, if_neg hne]
    rcases Nat.le_total (lcsLength a (y :: b)) (lcsLength (x :: a) b) with hle | hle
    · exact ⟨d, hda, hdb.cons y, by rw [hd, Nat.max_eq_right hle]⟩
    · exact ⟨c, hca.cons x, hcb, by rw [hc, Nat.max_eq_left hle]⟩

theorem lcsLength_le (a b : List α) : lcsLength a b ≤ a.length ∧ lcsLength a b ≤ b.length := by
  obtain ⟨c, ha, hb, hlen⟩ := exists_common a b
  exact ⟨hlen ▸ ha.length_le, hlen ▸ hb.length_le⟩

theorem lcsLength_map [DecidableEq β] {f : α → β}
    (h : ∀ x ∈ a, ∀ y ∈ b, f x = f y ↔ x = y) :
    lcsLength (a.map f) (b.map f) = lcsLength a b := by
  induction a, b using lcsLength.induct with
  | case1 b => rw [List.map_nil, lcsLength_nil, lcsLength_nil]
  | case2 x a => rw [List.map_nil, lcsLength_nil_right, lcsLength_nil_right]
  | case3 a y b ih =>
    rw [List.map_cons, List.map_cons, lcsLength_cons, lcsLength_cons, if_pos rfl, if_pos rfl,
      ih (fun x hx z hz => h x (List.mem_cons_of_mem _ hx) z (List.mem_cons_of_mem _ hz))]
  | case4 x a y b hne iha ihb =>
    have hf : ¬ f x = f y := fun he => hne ((h x List.mem_cons_self y List.mem_cons_self).1 he)
    have ha := iha (fun u hu v hv => h u (List.mem_cons_of_mem _ hu) v hv)
    have hb := ihb (fun u hu v hv => h u hu v (List.mem_cons_of_mem _ hv))
    rw [List.map_cons] at ha hb
    rw [List.map_cons, List.map_cons, lcsLength_cons, lcsLength_cons, if_neg hf, if_neg hne, ha, hb]

section Table

def tableRow (x : α) : List α → List Nat → List Nat
  | y :: b, d :: below =>
    (if x = y then below.headD 0 + 1 else max d ((tableRow x b below).headD 0)) ::
      tableRow x b below
  | _, _ => [0]

def table : List α → List α → List (List Nat)
  | [], b => [List.replicate (b.length + 1) 0]
  | x :: a, b => tableRow x b ((table a b).headD []) :: table a b

theorem tableRow_eq (x : α) (a b : List α) :
    tableRow x b (b.tails.map (lcsLength a)) = b.tails.map (lcsLength (x :: a)) := by
  induction b with
  | nil => exact (congrArg (fun n => [n]) (lcsLength_nil_right (x :: a))).symm
  | cons y b ih =>
    rw [List.tails_cons, List.map_cons, List.map_cons, tableRow, ih, tails_head, tails_head,
      lcsLength_cons]

theorem table_eq (a b : List α) :
    table a b = a.tails.map (fun a => b.tails.map (lcsLength a)) := by
  induction a with
  | nil =>
    have hzero : b.tails.map (lcsLength []) = List.replicate (b.length + 1) 0 := by
      rw [List.eq_replicate_iff, List.length_map, List.length_tails]
      refine ⟨rfl, fun n hn => ?_⟩
      obtain ⟨t, _, rfl⟩ := List.mem_map.1 hn
      exact lcsLength_nil t
    rw [table, ← hzero]
    rfl
  | cons x a ih =>
    have hhead : (table a b).headD [] = b.tails.map (lcsLength a) := by
      rw [ih]
      cases a <;> rfl
    rw [table, hhead, tableRow_eq, ih, List.tails_cons, List.map_cons]

def cellOf (rows : List (List Nat)) (i j : Nat) : Nat := ((rows[i]?.getD [])[j]?).getD 0

theorem cellOf_table (a b : List α) (hi : i ≤ a.length) (hj : j ≤ b.length) :
    cellOf (table a b) i j = lcsLength (a.drop i) (b.drop j) := by
  rw [cellOf, table_eq, List.getElem?_map, tails_getElem? a hi, Option.map_some, Option.getD_some,
    List.getElem?_map, tails_getElem? b hj, Option.map_some, Option.getD_some]

end Table

end Nullock.CommonSubsequences

import Mathlib.Data.List.Basic

namespace Nullock

section Appending

def pushUntil (limit : Nat) (out : List α) : List α → List α
  | [] => out
  | x :: xs =>
    let out := out ++ [x]
    if limit ≤ out.length then out else pushUntil limit out xs

/-- Two nested loops that append, both broken when the limit is reached. -/
def pushRows (limit : Nat) (row : β → List α) (out : List α) : List β → List α
  | [] => out
  | b :: bs =>
    let out := pushUntil limit out (row b)
    if limit ≤ out.length then out else pushRows limit row out bs

theorem pushUntil_eq (h : out.length < limit) (xs : List α) :
    pushUntil limit out xs = (out ++ xs).take limit := by
  induction xs generalizing out with
  | nil => rw [pushUntil, List.append_nil, List.take_of_length_le (Nat.le_of_lt h)]
  | cons x xs ih =>
    have hcons : out ++ x :: xs = out ++ [x] ++ xs := List.append_cons out x xs
    rw [pushUntil, hcons]
    split
    · rename_i hfull
      have hlen : (out ++ [x]).length = limit :=
        Nat.le_antisymm (by rw [List.length_append]; exact h) hfull
      rw [List.take_left' hlen]
    · rename_i hroom
      exact ih (Nat.lt_of_not_le hroom)

theorem pushRows_eq (h : out.length < limit) (row : β → List α) (bs : List β) :
    pushRows limit row out bs = (out ++ bs.flatMap row).take limit := by
  induction bs generalizing out with
  | nil =>
    rw [pushRows, List.flatMap_nil, List.append_nil, List.take_of_length_le (Nat.le_of_lt h)]
  | cons b bs ih =>
    rw [pushRows, List.flatMap_cons, ← List.append_assoc, pushUntil_eq h]
    split
    · rename_i hfull
      rw [List.length_take] at hfull
      rw [List.take_append_of_le_length (Nat.le_trans hfull (Nat.min_le_right _ _))]
    · rename_i hroom
      rw [List.length_take] at hroom
      have hall : (out ++ row b).take limit = out ++ row b :=
        List.take_of_length_le (by omega)
      rw [hall]
      exact ih (by omega)

theorem flatMap_take {row : β → List α} {bs : List β} (h : ∀ b ∈ bs, row b ≠ []) (limit : Nat) :
    ((bs.take limit).flatMap row).take limit = (bs.flatMap row).take limit := by
  have hlen (cs : List β) (hcs : ∀ b ∈ cs, row b ≠ []) : cs.length ≤ (cs.flatMap row).length := by
    induction cs with
    | nil => exact Nat.zero_le _
    | cons c cs ih =>
      have hc := List.length_pos_iff.2 (hcs c List.mem_cons_self)
      have hrest := ih (fun b hb => hcs b (List.mem_cons_of_mem c hb))
      rw [List.flatMap_cons, List.length_append, List.length_cons]
      omega
  by_cases hle : limit ≤ bs.length
  · have hfull := hlen (bs.take limit) (fun b hb => h b (List.mem_of_mem_take hb))
    rw [List.length_take_of_le hle] at hfull
    conv => rhs; rw [← List.take_append_drop limit bs, List.flatMap_append,
      List.take_append_of_le_length hfull]
  · rw [List.take_of_length_le (Nat.le_of_not_le hle)]

end Appending

section Tuples

def tuples : List (List α) → List (List α)
  | [] => [[]]
  | xs :: xss => xs.flatMap (fun x => (tuples xss).map (x :: ·))

theorem tuples_eq_nil {xss : List (List α)} (h : [] ∈ xss) : tuples xss = [] := by
  induction xss with
  | nil => cases h
  | cons xs xss ih =>
    rw [tuples]
    rcases List.mem_cons.1 h with rfl | h
    · rfl
    · rw [ih h]
      exact List.flatMap_eq_nil_iff.2 (fun _ _ => rfl)

theorem length_of_mem_tuples {xss : List (List α)} (h : t ∈ tuples xss) :
    t.length = xss.length := by
  induction xss generalizing t with
  | nil =>
    rw [List.mem_singleton.1 h]
    rfl
  | cons xs xss ih =>
    obtain ⟨x, -, ht⟩ := List.mem_flatMap.1 h
    obtain ⟨t', ht', rfl⟩ := List.mem_map.1 ht
    rw [List.length_cons, ih ht', List.length_cons]

theorem tuples_map (f : α → β) (xss : List (List α)) :
    tuples (xss.map (List.map f)) = (tuples xss).map (List.map f) := by
  induction xss with
  | nil => rfl
  | cons xs xss ih =>
    rw [List.map_cons, tuples, tuples, ih, List.flatMap_map, List.map_flatMap]
    simp only [List.map_map, Function.comp_def, List.map_cons]

theorem tuples_concat (xss : List (List α)) (ys : List α) :
    tuples (xss ++ [ys]) = (tuples xss).flatMap (fun t => ys.map (fun y => t ++ [y])) := by
  induction xss with
  | nil =>
    rw [List.nil_append, tuples, tuples, List.flatMap_cons, List.flatMap_nil, List.append_nil]
    exact List.flatMap_pure_eq_map _ _
  | cons xs xss ih =>
    rw [List.cons_append, tuples, tuples, ih, List.flatMap_assoc]
    simp only [List.flatMap_map, List.map_flatMap, List.map_map, Function.comp_def,
      List.cons_append]

end Tuples

section Odometer

/-- The next tuple of indices, the last one moving fastest. -/
def advance : List Nat → List Nat → Option (List Nat)
  | n :: ns, i :: is =>
    match advance ns is with
    | some is' => some (i :: is')
    | none => if i + 1 < n then some ((i + 1) :: is.map (fun _ => 0)) else none
  | _, _ => none

def indices (ns : List Nat) : List (List Nat) := tuples (ns.map List.range)

def indicesFrom : List Nat → List Nat → List (List Nat)
  | n :: ns, i :: is =>
    (indicesFrom ns is).map (i :: ·) ++
      (List.range' (i + 1) (n - (i + 1))).flatMap (fun j => (indices ns).map (j :: ·))
  | _, _ => [[]]

/-- The tuples that a loop passes from one on, at most `limit` of them. -/
def sweep (ns : List Nat) : Nat → List Nat → List (List Nat)
  | 0, _ => []
  | limit + 1, is =>
    is :: match advance ns is with
      | some is' => sweep ns limit is'
      | none => []

def Placed (ns is : List Nat) : Prop := List.Forall₂ (fun n i => i < n) ns is

theorem placed_zero (h : ∀ n ∈ ns, 0 < n) : Placed ns (ns.map (fun _ => 0)) := by
  induction ns with
  | nil => exact .nil
  | cons n ns ih =>
    rw [List.forall_mem_cons] at h
    exact .cons h.1 (ih h.2)

theorem Placed.pos (h : Placed ns is) : ∀ n ∈ ns, 0 < n := by
  induction h with
  | nil => exact nofun
  | cons hi _ ih => exact List.forall_mem_cons.2 ⟨Nat.zero_lt_of_lt hi, ih⟩

theorem Placed.zeros (h : Placed ns is) : is.map (fun _ => 0) = ns.map (fun _ => 0) := by
  induction h with
  | nil => rfl
  | cons _ _ ih => exact congrArg (0 :: ·) ih

theorem indicesFrom_zero (h : ∀ n ∈ ns, 0 < n) :
    indicesFrom ns (ns.map (fun _ => 0)) = indices ns := by
  induction ns with
  | nil => rfl
  | cons n ns ih =>
    rw [List.forall_mem_cons] at h
    obtain ⟨k, rfl⟩ := Nat.exists_eq_add_one.2 h.1
    rw [List.map_cons, indicesFrom, ih h.2]
    show _ = tuples (List.range (k + 1) :: ns.map List.range)
    rw [tuples, List.range_eq_range', List.range'_succ, List.flatMap_cons]
    rfl

theorem advance_step (h : Placed ns is) :
    (advance ns is = none ∧ indicesFrom ns is = [is]) ∨
      ∃ is', advance ns is = some is' ∧ Placed ns is' ∧
        indicesFrom ns is = is :: indicesFrom ns is' := by
  induction h with
  | nil => exact .inl ⟨rfl, rfl⟩
  | @cons n i ns is hi hrest ih =>
    rcases ih with ⟨hlast, hfrom⟩ | ⟨is', hnext, hplaced, hfrom⟩
    · by_cases hroom : i + 1 < n
      · right
        have hzeros := placed_zero (Placed.pos hrest)
        refine ⟨(i + 1) :: ns.map (fun _ => 0), ?_, .cons hroom hzeros, ?_⟩
        · rw [advance, hlast, if_pos hroom, Placed.zeros hrest]
        · have hsub : n - (i + 1) = n - (i + 1 + 1) + 1 := by omega
          rw [indicesFrom, hfrom, hsub, List.range'_succ, List.flatMap_cons, indicesFrom,
            indicesFrom_zero (Placed.pos hrest)]
          rfl
      · left
        have hnone : n - (i + 1) = 0 := by omega
        refine ⟨by rw [advance, hlast, if_neg hroom], ?_⟩
        rw [indicesFrom, hfrom, hnone]
        rfl
    · right
      refine ⟨i :: is', by rw [advance, hnext], .cons hi hplaced, ?_⟩
      rw [indicesFrom, hfrom, indicesFrom, List.map_cons, List.cons_append]

theorem sweep_eq (h : Placed ns is) (limit : Nat) :
    sweep ns limit is = (indicesFrom ns is).take limit := by
  induction limit generalizing is with
  | zero => rfl
  | succ limit ih =>
    rw [sweep]
    rcases advance_step h with ⟨hlast, hfrom⟩ | ⟨is', hnext, hplaced, hfrom⟩
    · rw [hlast, hfrom, List.take_succ_cons, List.take_nil]
    · rw [hnext, hfrom, List.take_succ_cons]
      exact congrArg (is :: ·) (ih hplaced)

theorem indices_elements (xss : List (List α)) :
    (indices (xss.map List.length)).map (List.zipWith (fun xs i => xs[i]?) xss) =
      (tuples xss).map (List.map some) := by
  induction xss with
  | nil => rfl
  | cons xs xss ih =>
    have hrange : (List.range xs.length).map (fun i => xs[i]?) = xs.map some := by
      apply List.ext_getElem
      · rw [List.length_map, List.length_map, List.length_range]
      · intro i hi _
        rw [List.length_map, List.length_range] at hi
        rw [List.getElem_map, List.getElem_range, List.getElem_map, List.getElem?_eq_getElem hi]
    have hcons : ((List.range xs.length).map (fun i => xs[i]?)).flatMap
        (fun x => ((indices (xss.map List.length)).map
          (List.zipWith (fun xs i => xs[i]?) xss)).map (x :: ·)) =
        (xs.map some).flatMap (fun x => ((tuples xss).map (List.map some)).map (x :: ·)) := by
      rw [hrange, ih]
    have hindices : indices ((xs :: xss).map List.length) = (List.range xs.length).flatMap
        (fun i => (indices (xss.map List.length)).map (i :: ·)) := rfl
    rw [hindices, tuples, List.map_flatMap, List.map_flatMap]
    simp only [List.flatMap_map, List.map_map, Function.comp_def] at hcons
    simp only [List.map_map, Function.comp_def, List.zipWith_cons_cons, List.map_cons]
    exact hcons

end Odometer

end Nullock

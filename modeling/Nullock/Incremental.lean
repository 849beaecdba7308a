import Mathlib.Data.List.Basic

namespace Nullock

inductive Attempt (β : Type) where
  | more
  | fail
  | unit (value : β) (size : Nat)

structure Decoder (α β : Type) where
  attempt : List α → Attempt β
  size_pos : ∀ {xs b n}, attempt xs = .unit b n → 0 < n
  size_le : ∀ {xs b n}, attempt xs = .unit b n → n ≤ xs.length
  unit_append : ∀ {xs b n}, attempt xs = .unit b n → ∀ ys, attempt (xs ++ ys) = .unit b n
  fail_append : ∀ {xs}, attempt xs = .fail → ∀ ys, attempt (xs ++ ys) = .fail

theorem Decoder.drop_lt (D : Decoder α β) (h : D.attempt xs = .unit b n) :
    (xs.drop n).length < xs.length := by
  have h₁ := D.size_pos h
  have h₂ := D.size_le h
  rw [List.length_drop]
  omega

/-- Take units while there are any; a failed attempt loses the rest. -/
def Decoder.drain (D : Decoder α β) (xs : List α) : List β × Option (List α) :=
  match _h : D.attempt xs with
  | .more => ([], some xs)
  | .fail => ([], none)
  | .unit b n =>
    let r := D.drain (xs.drop n)
    (b :: r.1, r.2)
termination_by xs.length
decreasing_by exact D.drop_lt _h

theorem Decoder.drain_more {D : Decoder α β} (h : D.attempt xs = .more) :
    D.drain xs = ([], some xs) := by
  rw [Decoder.drain]
  split
  · rfl
  · rename_i he
    rw [h] at he
    cases he
  · rename_i he
    rw [h] at he
    cases he

theorem Decoder.drain_fail {D : Decoder α β} (h : D.attempt xs = .fail) :
    D.drain xs = ([], none) := by
  rw [Decoder.drain]
  split
  · rename_i he
    rw [h] at he
    cases he
  · rfl
  · rename_i he
    rw [h] at he
    cases he

theorem Decoder.drain_unit {D : Decoder α β} (h : D.attempt xs = .unit b n) :
    D.drain xs = (b :: (D.drain (xs.drop n)).1, (D.drain (xs.drop n)).2) := by
  rw [Decoder.drain]
  split
  · rename_i he
    rw [h] at he
    cases he
  · rename_i he
    rw [h] at he
    cases he
  · rename_i he
    rw [h] at he
    cases he
    rfl

def Decoder.feed (D : Decoder α β) (rest : Option (List α)) (piece : List α) :
    List β × Option (List α) :=
  match rest with
  | none => ([], none)
  | some buf => D.drain (buf ++ piece)

theorem Decoder.drain_append (D : Decoder α β) (xs ys : List α) :
    D.drain (xs ++ ys) =
      ((D.drain xs).1 ++ (D.feed (D.drain xs).2 ys).1, (D.feed (D.drain xs).2 ys).2) := by
  induction hl : xs.length using Nat.strongRecOn generalizing xs with
  | _ l ih =>
    cases h : D.attempt xs with
    | more => rw [drain_more h]; rfl
    | fail => rw [drain_fail h, drain_fail (D.fail_append h ys)]; rfl
    | unit b n =>
      have hd : (xs ++ ys).drop n = xs.drop n ++ ys := List.drop_append_of_le_length (D.size_le h)
      have hrest := ih _ (hl ▸ D.drop_lt h) (xs.drop n) rfl
      rw [drain_unit h, drain_unit (D.unit_append h ys), hd, hrest]
      rfl

theorem Decoder.drain_append_some {D : Decoder α β} (h : D.drain (xs ++ ys) = (us, some rest)) :
    ∃ vs rest' ws, D.drain xs = (vs, some rest') ∧ D.drain (rest' ++ ys) = (ws, some rest) ∧
      us = vs ++ ws := by
  rw [drain_append] at h
  cases hx : D.drain xs with
  | mk vs r =>
    rw [hx] at h
    cases r with
    | none => cases h
    | some rest' =>
      rw [Prod.mk.injEq] at h
      exact ⟨vs, rest', (D.drain (rest' ++ ys)).1, rfl, Prod.ext rfl h.2, h.1.symm⟩

theorem Decoder.drain_rest {D : Decoder α β} (h : D.drain xs = (us, some rest)) :
    D.attempt rest = .more := by
  induction hl : xs.length using Nat.strongRecOn generalizing xs us with
  | _ l ih =>
    cases ha : D.attempt xs with
    | more =>
      rw [drain_more ha] at h
      cases h
      exact ha
    | fail =>
      rw [drain_fail ha] at h
      cases h
    | unit b n =>
      rw [drain_unit ha, Prod.mk.injEq] at h
      exact ih _ (hl ▸ D.drop_lt ha) (Prod.ext rfl h.2) rfl

theorem Decoder.drain_rest_length {D : Decoder α β} (h : (D.drain xs).2 = some rest) :
    rest.length ≤ xs.length := by
  induction hl : xs.length using Nat.strongRecOn generalizing xs with
  | _ l ih =>
    cases ha : D.attempt xs with
    | more =>
      rw [drain_more ha] at h
      cases h
      exact Nat.le_of_eq hl
    | fail =>
      rw [drain_fail ha] at h
      cases h
    | unit b n =>
      have hlt := D.drop_lt ha
      rw [drain_unit ha] at h
      have hle := ih _ (hl ▸ hlt) h rfl
      omega

def Decoder.feedAll (D : Decoder α β) : Option (List α) → List (List α) →
    List β × Option (List α)
  | rest, [] => ([], rest)
  | rest, piece :: pieces =>
    let r := D.feed rest piece
    let t := D.feedAll r.2 pieces
    (r.1 ++ t.1, t.2)

theorem Decoder.feedAll_none (D : Decoder α β) (pieces : List (List α)) :
    D.feedAll none pieces = ([], none) := by
  induction pieces with
  | nil => rfl
  | cons piece pieces ih => simp only [feedAll, feed, ih, List.append_nil]

theorem Decoder.feedAll_eq_drain {D : Decoder α β} (h : D.attempt buf = .more)
    (pieces : List (List α)) :
    D.feedAll (some buf) pieces = D.drain (buf ++ pieces.flatten) := by
  induction pieces generalizing buf with
  | nil =>
    rw [List.flatten_nil, List.append_nil, drain_more h]
    rfl
  | cons piece pieces ih =>
    rw [List.flatten_cons, ← List.append_assoc, drain_append]
    simp only [feedAll, feed]
    cases hd : D.drain (buf ++ piece) with
    | mk us rest =>
      cases rest with
      | none => rw [feedAll_none]
      | some rest => rw [ih (drain_rest hd)]

/-- Less than the first item that is left, and nothing where none is. -/
def Unfinished (enc : ι → List α) (rest : List α) : List ι → Prop
  | [] => rest = []
  | i :: _ => rest.length < (enc i).length

theorem Decoder.drain_encoded {D : Decoder α β} (hnil : D.attempt [] = .more) (enc : ι → List α)
    (val : ι → β) {items : List ι} (hcode : ∀ i ∈ items, ∀ tail,
      D.attempt (enc i ++ tail) = .unit (val i) (enc i).length)
    (hxs : xs <+: items.flatMap enc) : ∃ done left rest, items = done ++ left ∧
      xs = done.flatMap enc ++ rest ∧ D.drain xs = (done.map val, some rest) ∧
      Unfinished enc rest left := by
  induction items generalizing xs with
  | nil =>
    rw [List.prefix_nil.1 hxs]
    exact ⟨[], [], [], rfl, rfl, drain_more hnil, rfl⟩
  | cons i items ih =>
    rw [List.forall_mem_cons] at hcode
    rw [List.flatMap_cons] at hxs
    by_cases hlen : (enc i).length ≤ xs.length
    · obtain ⟨tail, rfl⟩ := List.prefix_of_prefix_length_le (List.prefix_append _ _) hxs hlen
      obtain ⟨done, left, rest, rfl, rfl, hdrain, hrest⟩ :=
        ih hcode.2 ((List.prefix_append_right_inj _).1 hxs)
      refine ⟨i :: done, left, rest, rfl, (List.append_assoc _ _ _).symm, ?_, hrest⟩
      rw [drain_unit (hcode.1 _), List.drop_left, hdrain]
      rfl
    · have hlt : xs.length < (enc i).length := Nat.lt_of_not_le hlen
      obtain ⟨tail, htail⟩ := List.prefix_of_prefix_length_le hxs (List.prefix_append _ _)
        (Nat.le_of_lt hlt)
      have hwhole := hcode.1 []
      rw [List.append_nil, ← htail] at hwhole
      refine ⟨[], i :: items, xs, rfl, rfl, drain_more ?_, hlt⟩
      cases hattempt : D.attempt xs with
      | more => rfl
      | fail =>
        rw [D.fail_append hattempt tail] at hwhole
        cases hwhole
      | unit b n =>
        rw [D.unit_append hattempt tail, Attempt.unit.injEq, htail] at hwhole
        exact absurd (D.size_le hattempt) (hwhole.2 ▸ hlen)

end Nullock

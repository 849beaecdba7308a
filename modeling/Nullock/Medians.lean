import Mathlib.Data.List.DropRight
import Mathlib.Data.List.Sort
import Mathlib.Order.Basic
import Mathlib.Tactic.Linarith

namespace Nullock.Medians

section Median
variable {α : Type} [LinearOrder α]

theorem count_take_add_drop (l : List α) (d : α) (i : Nat) :
    (l.take i).count d + (l.drop i).count d = l.count d := by
  rw [← List.count_append, List.take_append_drop]

theorem median_eq {l : List α} (hs : l.Pairwise (· ≤ ·)) (h : l.length < 2 * l.count d) :
    l[l.length / 2]? = some d := by
  have hpos : l.length / 2 < l.length := by
    have hle := List.count_le_length (a := d) (l := l)
    omega
  have hsum := count_take_add_drop l d (l.length / 2)
  rw [List.getElem?_eq_getElem hpos, Option.some.injEq]
  have hmid : ∀ i (hi : i < l.length), i ≤ l.length / 2 → l[i] ≤ l[l.length / 2] := by
    intro i hi hle
    rcases Nat.lt_or_eq_of_le hle with hlt | rfl
    · exact List.pairwise_iff_getElem.1 hs i _ hi hpos hlt
    · exact le_refl _
  have hend : ∀ i (hi : i < l.length), l.length / 2 ≤ i → l[l.length / 2] ≤ l[i] := by
    intro i hi hle
    rcases Nat.lt_or_eq_of_le hle with hlt | rfl
    · exact List.pairwise_iff_getElem.1 hs _ i hpos hi hlt
    · exact le_refl _
  rcases lt_trichotomy l[l.length / 2] d with hlt | heq | hgt
  · -- the value would be missing from the first half and the middle
    have hnone : (l.take (l.length / 2 + 1)).count d = 0 := by
      rw [List.count_eq_zero]
      intro hm
      obtain ⟨i, hi, rfl⟩ := List.mem_iff_getElem.1 hm
      rw [List.length_take] at hi
      rw [List.getElem_take] at hlt
      exact absurd hlt (not_lt_of_ge (hmid i (by omega) (by omega)))
    have hsum := count_take_add_drop l d (l.length / 2 + 1)
    have hle := List.count_le_length (a := d) (l := l.drop (l.length / 2 + 1))
    rw [List.length_drop] at hle
    omega
  · exact heq
  · have hnone : (l.drop (l.length / 2)).count d = 0 := by
      rw [List.count_eq_zero]
      intro hm
      obtain ⟨i, hi, rfl⟩ := List.mem_iff_getElem.1 hm
      rw [List.length_drop] at hi
      rw [List.getElem_drop] at hgt
      exact absurd hgt (not_lt_of_ge (hend _ (by omega) (by omega)))
    have hle := List.count_le_length (a := d) (l := l.take (l.length / 2))
    rw [List.length_take] at hle
    omega

end Median

end Nullock.Medians

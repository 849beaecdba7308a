import Mathlib.Algebra.GroupWithZero.Nat
import Mathlib.Data.List.AList

namespace Nullock

section
variable {α : Type} [DecidableEq α] {β : α → Type} {m : AList β} {key : α} {v : β key}

theorem length_erase_of_mem (h : key ∈ m) : (m.erase key).keys.length + 1 = m.keys.length := by
  have hmem := AList.mem_keys.1 h
  have hpos : 0 < m.keys.length := List.length_pos_of_mem hmem
  rw [AList.keys_erase, List.length_erase_of_mem hmem]
  omega

theorem length_erase_le (m : AList β) (key : α) : (m.erase key).keys.length ≤ m.keys.length := by
  rw [AList.keys_erase]
  exact List.length_erase_le

theorem length_insert_of_mem (h : key ∈ m) : (m.insert key v).keys.length = m.keys.length := by
  rw [AList.keys_insert, List.length_cons, ← length_erase_of_mem h, AList.keys_erase]

theorem length_insert_le (m : AList β) (key : α) (v : β key) :
    (m.insert key v).keys.length ≤ m.keys.length + 1 := by
  rw [AList.keys_insert, List.length_cons]
  exact Nat.succ_le_succ List.length_erase_le

theorem length_insert_of_notMem (h : key ∉ m) :
    (m.insert key v).keys.length = m.keys.length + 1 := by
  rw [AList.keys_insert, List.erase_of_not_mem (fun hm => h (AList.mem_keys.2 hm)),
    List.length_cons]

theorem lookup_insert_cases {β : Type} {m : AList (fun _ : α => β)} {key k : α} {v w : β}
    (h : (m.insert key v).lookup k = some w) :
    (k = key ∧ w = v) ∨ (k ≠ key ∧ m.lookup k = some w) := by
  by_cases hk : k = key
  · rw [hk, AList.lookup_insert, Option.some.injEq] at h
    exact .inl ⟨hk, h.symm⟩
  · rw [AList.lookup_insert_ne hk] at h
    exact .inr ⟨hk, h⟩

theorem lookup_erase_cases {β : Type} {m : AList (fun _ : α => β)} {key k : α} {w : β}
    (h : (m.erase key).lookup k = some w) : k ≠ key ∧ m.lookup k = some w := by
  by_cases hk : k = key
  · rw [hk, AList.lookup_erase] at h
    cases h
  · rw [AList.lookup_erase_ne hk] at h
    exact ⟨hk, h⟩

end

section
variable {α β : Type} [DecidableEq α] (size : β → Nat)

def total (m : AList (fun _ : α => β)) : Nat := (m.entries.map (fun e => size e.2)).sum

variable {size} {m : AList (fun _ : α => β)} {key : α} {v w : β}

theorem sum_kerase {entries : List (Sigma fun _ : α => β)}
    (h : List.dlookup key entries = some v) :
    (entries.map (fun e => size e.2)).sum =
      size v + ((List.kerase key entries).map (fun e => size e.2)).sum := by
  induction entries with
  | nil => cases h
  | cons e entries ih =>
    by_cases hk : key = e.1
    · rw [hk] at h ⊢
      rw [List.dlookup_cons_eq, Option.some.injEq] at h
      rw [List.kerase_cons_eq rfl, List.map_cons, List.sum_cons, h]
    · rw [List.dlookup_cons_ne _ _ hk] at h
      rw [List.kerase_cons_ne hk, List.map_cons, List.map_cons, List.sum_cons, List.sum_cons,
        ih h]
      exact Nat.add_left_comm _ _ _

theorem total_erase (size : β → Nat) (h : m.lookup key = some v) :
    total size m = size v + total size (m.erase key) := sum_kerase h

theorem total_insert_new (h : m.lookup key = none) (v : β) :
    total size (m.insert key v) = size v + total size m := by
  have hk := AList.lookup_eq_none.1 h
  rw [total, AList.entries_insert_of_notMem hk, List.map_cons, List.sum_cons]
  rfl

theorem total_insert (size : β → Nat) (h : m.lookup key = some v) (w : β) :
    total size (m.insert key w) + size v = size w + total size m := by
  have hw : total size (m.insert key w) = size w + total size (m.erase key) := by
    rw [total, AList.entries_insert, List.map_cons, List.sum_cons]
    rfl
  rw [total_erase size h, hw]
  omega

end

end Nullock

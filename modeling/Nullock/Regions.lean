import Mathlib.Data.Set.Lattice

namespace Nullock.Regions

section Meets
variable {U R : Type} (denote : R → Set U) (meet : R → R → Option R)

def covered (rs : List R) : Set U := {u | ∃ r ∈ rs, u ∈ denote r}

structure IsMeet : Prop where
  shared : ∀ a b r, meet a b = some r → denote r = denote a ∩ denote b
  apart : ∀ a b, meet a b = none → denote a ∩ denote b = ∅

def pairs (as bs : List R) : List (R × R) := as.flatMap (fun a => bs.map (fun b => (a, b)))

def meetOf (p : R × R) : Option R := meet p.1 p.2

/-- The meets of pairs within a budget and a limit; none where one is used up. -/
def meetsWithin (cap : Nat) : List (R × R) → List R → Int → Option (List R) × Int
  | [], out, budget => (some out, budget)
  | p :: ps, out, budget =>
    if budget - 1 < 0 ∨ cap ≤ out.length then (none, budget - 1)
    else meetsWithin cap ps (out ++ (meetOf meet p).toList) (budget - 1)

variable {denote meet}

theorem covered_nil : covered denote [] = ∅ := by
  apply Set.eq_empty_iff_forall_notMem.2
  rintro u ⟨r, hr, _⟩
  cases hr

theorem mem_pairs : p ∈ pairs as bs ↔ p.1 ∈ as ∧ p.2 ∈ bs := by
  rw [pairs, List.mem_flatMap]
  constructor
  · rintro ⟨a, ha, hp⟩
    obtain ⟨b, hb, rfl⟩ := List.mem_map.1 hp
    exact ⟨ha, hb⟩
  · rintro ⟨ha, hb⟩
    exact ⟨p.1, ha, List.mem_map.2 ⟨p.2, hb, rfl⟩⟩

theorem covered_meets (h : IsMeet denote meet) (as bs : List R) :
    covered denote ((pairs as bs).filterMap (meetOf meet)) =
      covered denote as ∩ covered denote bs := by
  apply Set.ext
  intro u
  constructor
  · rintro ⟨r, hr, hu⟩
    obtain ⟨p, hp, hmeet⟩ := List.mem_filterMap.1 hr
    obtain ⟨ha, hb⟩ := mem_pairs.1 hp
    rw [h.shared _ _ _ hmeet] at hu
    exact ⟨⟨p.1, ha, hu.1⟩, ⟨p.2, hb, hu.2⟩⟩
  · rintro ⟨⟨a, ha, hua⟩, b, hb, hub⟩
    cases hmeet : meet a b with
    | none =>
      have hempty := h.apart a b hmeet
      exact absurd (show u ∈ denote a ∩ denote b from ⟨hua, hub⟩) (by rw [hempty]; exact id)
    | some r =>
      refine ⟨r, List.mem_filterMap.2 ⟨(a, b), mem_pairs.2 ⟨ha, hb⟩, hmeet⟩, ?_⟩
      rw [h.shared _ _ _ hmeet]
      exact ⟨hua, hub⟩

theorem meetsWithin_some (h : (meetsWithin meet cap ps out budget).1 = some res) :
    res = out ++ ps.filterMap (meetOf meet) := by
  induction ps generalizing out budget with
  | nil =>
    cases h
    rw [List.filterMap_nil, List.append_nil]
  | cons p ps ih =>
    rw [meetsWithin] at h
    split at h
    · cases h
    · rw [ih h, List.append_assoc]
      congr 1
      cases hmeet : meetOf meet p with
      | none => rw [List.filterMap_cons_none hmeet]; rfl
      | some r => rw [List.filterMap_cons_some hmeet]; rfl

end Meets

end Nullock.Regions

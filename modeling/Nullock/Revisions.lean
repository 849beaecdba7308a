import Mathlib.Data.Int.Order.Basic
import Mathlib.Data.Nat.Basic

namespace Nullock

/-- A run of the program, the revision of the content, and the content. -/
structure Moment (κ : Type) where
  restarts : Nat
  revision : Int
  content : κ

variable {κ : Type}

def Moment.Follows (now next : Moment κ) : Prop :=
  now.restarts < next.restarts ∨
    next.restarts = now.restarts ∧ now.revision ≤ next.revision ∧
      (next.revision = now.revision → next.content = now.content)

/-- A number that was read in the present run of the program still tells the content. -/
structure Witnessed (moments : List (Moment κ)) (now : Moment κ) : Prop where
  past : ∀ m ∈ moments, m.restarts ≤ now.restarts
  grown : ∀ m ∈ moments, m.restarts = now.restarts → m.revision ≤ now.revision
  same : ∀ m ∈ moments, m.restarts = now.restarts → m.revision = now.revision →
    m.content = now.content

theorem Witnessed.singleton (m : Moment κ) : Witnessed [m] m where
  past _ h := List.mem_singleton.1 h ▸ le_rfl
  grown _ h _ := List.mem_singleton.1 h ▸ le_rfl
  same _ h _ _ := List.mem_singleton.1 h ▸ rfl

theorem Witnessed.next {moments : List (Moment κ)} {now next : Moment κ}
    (h : Witnessed moments now) (hf : now.Follows next) : Witnessed (moments ++ [next]) next := by
  have hend : ∀ m ∈ moments ++ [next], m ∈ moments ∨ m = next := by
    intro m hm
    exact (List.mem_append.1 hm).imp_right List.mem_singleton.1
  have hpast : ∀ m ∈ moments, m.restarts ≤ next.restarts := by
    intro m hm
    rcases hf with hnew | ⟨hrun, -⟩
    · exact Nat.le_trans (h.past m hm) (Nat.le_of_lt hnew)
    · exact hrun.symm ▸ h.past m hm
  have hrun : ∀ m ∈ moments, m.restarts = next.restarts →
      m.restarts = now.restarts ∧ now.revision ≤ next.revision ∧
        (next.revision = now.revision → next.content = now.content) := by
    intro m hm hr
    rcases hf with hnew | ⟨hsame, hle, hcontent⟩
    · exact absurd (h.past m hm) (not_le.2 (hr ▸ hnew))
    · exact ⟨hr.trans hsame, hle, hcontent⟩
  constructor
  · intro m hm
    rcases hend m hm with hm | rfl
    · exact hpast m hm
    · exact le_rfl
  · intro m hm hr
    rcases hend m hm with hm | rfl
    · obtain ⟨hnow, hle, -⟩ := hrun m hm hr
      exact Int.le_trans (h.grown m hm hnow) hle
    · exact le_rfl
  · intro m hm hr hrev
    rcases hend m hm with hm | rfl
    · obtain ⟨hnow, hle, hcontent⟩ := hrun m hm hr
      have hm' : m.revision ≤ now.revision := h.grown m hm hnow
      have hstill : next.revision = now.revision := le_antisymm (hrev ▸ hm') hle
      exact (h.same m hm hnow (hrev.trans hstill)).trans (hcontent hstill).symm
    · rfl

end Nullock

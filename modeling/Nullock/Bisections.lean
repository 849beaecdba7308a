import Mathlib.Data.List.Infix

namespace Nullock.Bisections

section Batches
variable {α : Type}

/-- A list cut into batches, of which only the last one may be shorter. -/
def batchesOf (size : Nat) (l : List α) : List (List α) :=
  if _h : l = [] ∨ size = 0 then [] else l.take size :: batchesOf size (l.drop size)
termination_by l.length
decreasing_by
  rw [not_or] at _h
  have hpos := List.length_pos_of_ne_nil _h.1
  rw [List.length_drop]
  omega

theorem flatten_batchesOf (hsize : size ≠ 0) (l : List α) : (batchesOf size l).flatten = l := by
  induction l using batchesOf.induct size with
  | case1 l h =>
    rw [batchesOf, dif_pos h]
    exact (h.resolve_right hsize).symm
  | case2 l h ih =>
    rw [batchesOf, dif_neg h, List.flatten_cons, ih, List.take_append_drop]

theorem ne_nil_of_mem_batchesOf {batch l : List α} (h : batch ∈ batchesOf size l) :
    batch ≠ [] := by
  induction l using batchesOf.induct size with
  | case1 l hl =>
    rw [batchesOf, dif_pos hl] at h
    cases h
  | case2 l hl ih =>
    rw [batchesOf, dif_neg hl] at h
    rcases List.mem_cons.1 h with rfl | h
    · intro hnil
      exact hl (List.take_eq_nil_iff.1 hnil).symm
    · exact ih h

end Batches

section Bisection
variable {α σ : Type} (ask : List α → σ → Bool × σ) (settle : α → σ → σ)

def firstHalf (l : List α) : List α := l.take (l.length / 2)

def secondHalf (l : List α) : List α := l.drop (l.length / 2)

theorem length_firstHalf (l : List α) : (firstHalf l).length = l.length / 2 := by
  rw [firstHalf, List.length_take]
  omega

theorem length_secondHalf (l : List α) :
    (secondHalf l).length = l.length - l.length / 2 := List.length_drop

/-- A batch is halved, and each half that reacts on its own is searched in turn. -/
def bisect (batch : List α) (s : σ) : σ :=
  match batch with
  | [] => s
  | [x] => settle x s
  | x :: y :: rest =>
    let left := ask (firstHalf (x :: y :: rest)) s
    let between := if left.1 then bisect (firstHalf (x :: y :: rest)) left.2 else left.2
    let right := ask (secondHalf (x :: y :: rest)) between
    if right.1 then bisect (secondHalf (x :: y :: rest)) right.2 else right.2
termination_by batch.length
decreasing_by
  · rw [length_firstHalf, List.length_cons, List.length_cons]
    omega
  · rw [length_secondHalf, List.length_cons, List.length_cons]
    omega

def search (part : List α) (s : σ) : σ :=
  if (ask part s).1 then bisect ask settle part (ask part s).2 else (ask part s).2

theorem bisect_halves {batch : List α} (h : 2 ≤ batch.length) (s : σ) :
    bisect ask settle batch s =
      search ask settle (secondHalf batch) (search ask settle (firstHalf batch) s) := by
  match batch, h with
  | x :: y :: rest, _ => rw [bisect]; rfl

variable {ask settle}

/-- `R` holds of the search of a batch, and `S` of that of a half, which is asked about first. -/
theorem bisect_rule {R S : List α → σ → σ → Prop} (batch : List α) (nil : ∀ s, R [] s s)
    (single : ∀ x s, x ∈ batch → R [x] s (settle x s))
    (quiet : ∀ part s, part <:+: batch → (ask part s).1 = false → S part s (ask part s).2)
    (reacts : ∀ part s s', part <:+: batch → (ask part s).1 = true →
      R part (ask part s).2 s' → S part s s')
    (halves : ∀ a b s s' s'', a ≠ [] → b ≠ [] → S a s s' → S b s' s'' → R (a ++ b) s s'')
    (s : σ) : R batch s (bisect ask settle batch s) := by
  have hpart (n : Nat) : ∀ part : List α, part.length = n → part <:+: batch →
      ∀ s, R part s (bisect ask settle part s) := by
    induction n using Nat.strongRecOn with
    | ind n ih =>
      rintro part rfl hin s
      have hsearch (half : List α) (hlt : half.length < part.length) (hhalf : half <:+: part)
          (s : σ) : S half s (search ask settle half s) := by
        rw [search]
        split
        · rename_i hreact
          exact reacts half s _ (hhalf.trans hin) hreact
            (ih half.length hlt half rfl (hhalf.trans hin) _)
        · rename_i hquiet
          exact quiet half s (hhalf.trans hin) (Bool.eq_false_iff.2 hquiet)
      by_cases h : 2 ≤ part.length
      · have hfirst := length_firstHalf part
        have hsecond := length_secondHalf part
        rw [bisect_halves ask settle h]
        have hwhole : firstHalf part ++ secondHalf part = part := List.take_append_drop _ _
        conv => arg 1; rw [← hwhole]
        exact halves _ _ s _ _ (List.ne_nil_of_length_pos (by omega))
          (List.ne_nil_of_length_pos (by omega))
          (hsearch (firstHalf part) (by omega) (List.take_prefix _ _).isInfix s)
          (hsearch (secondHalf part) (by omega) (List.drop_suffix _ _).isInfix _)
      · cases part with
        | nil =>
          rw [bisect]
          exact nil s
        | cons x rest =>
          cases rest with
          | nil =>
            rw [bisect]
            exact single x s (hin.subset List.mem_cons_self)
          | cons y rest => exact absurd (Nat.le_add_left 2 rest.length) h
  exact hpart _ batch rfl (List.infix_refl batch) s

theorem bisect_keeps {I : σ → Prop} (batch : List α)
    (hask : ∀ part s, part <:+: batch → I s → I (ask part s).2)
    (hsettle : ∀ x s, x ∈ batch → I s → I (settle x s)) (hs : I s) :
    I (bisect ask settle batch s) := by
  refine bisect_rule (R := fun _ s s' => I s → I s') (S := fun _ s s' => I s → I s') batch
    (fun s hs => hs) hsettle (fun part s hpart _ => hask part s hpart) ?_ ?_ s hs
  · intro part s s' hpart _ hsearch hs
    exact hsearch (hask part s hpart hs)
  · intro a b s s' s'' _ _ ha hb hs
    exact hb (ha hs)

/-- The cost of a search whose questions cost one and whose tests cost `c`. -/
theorem bisect_cost {μ : σ → Nat} {c : Nat} (hask : ∀ part s, μ (ask part s).2 ≤ μ s + 1)
    (hsettle : ∀ x s, μ (settle x s) ≤ μ s + c) (batch : List α) (s : σ) :
    batch ≠ [] → μ (bisect ask settle batch s) + 2 ≤ μ s + (c + 2) * batch.length := by
  refine bisect_rule (R := fun part s s' => part ≠ [] → μ s' + 2 ≤ μ s + (c + 2) * part.length)
    (S := fun part s s' => part ≠ [] → μ s' + 1 ≤ μ s + (c + 2) * part.length) batch
    (fun s h => absurd rfl h) ?_ ?_ ?_ ?_ s
  · intro x s _ _
    have hx := hsettle x s
    rw [List.length_singleton]
    omega
  · intro part s _ _ hne
    have hone := hask part s
    have hle : (c + 2) * 1 ≤ (c + 2) * part.length :=
      Nat.mul_le_mul_left _ (List.length_pos_of_ne_nil hne)
    omega
  · intro part s s' _ _ hsearch hne
    have hone := hask part s
    have hrest := hsearch hne
    omega
  · intro a b s s' s'' hane hbne ha hb _
    have hfirst := ha hane
    have hsecond := hb hbne
    rw [List.length_append, Nat.mul_add]
    omega

/-- Where a part reacts just when one of its members does, those are found, in order. -/
theorem bisect_exact {β : Type} {g : σ → List β} {p : α → Bool} {f : α → β}
    (batch : List α) (hask : ∀ part s, part <:+: batch →
      (ask part s).1 = part.any p ∧ g (ask part s).2 = g s)
    (hsettle : ∀ x s, x ∈ batch → g (settle x s) = g s ++ if p x then [f x] else [])
    (s : σ) :
    g (bisect ask settle batch s) = g s ++ (batch.filter p).map f := by
  let R (part : List α) (s s' : σ) : Prop := g s' = g s ++ (part.filter p).map f
  refine bisect_rule (R := R) (S := R) batch (fun s => (List.append_nil _).symm) ?_ ?_ ?_ ?_ s
  · intro x s hx
    change g (settle x s) = g s ++ ([x].filter p).map f
    rw [hsettle x s hx, List.filter_singleton]
    cases p x <;> rfl
  · intro part s hpart hquiet
    obtain ⟨hreact, hout⟩ := hask part s hpart
    rw [hreact, List.any_eq_false] at hquiet
    change g (ask part s).2 = g s ++ (part.filter p).map f
    rw [hout, List.filter_eq_nil_iff.2 hquiet, List.map_nil, List.append_nil]
  · intro part s s' hpart _ hsearch
    change g s' = g s ++ (part.filter p).map f
    rw [← (hask part s hpart).2]
    exact hsearch
  · intro a b s s' s'' _ _ ha hb
    change g s'' = g s ++ ((a ++ b).filter p).map f
    rw [List.filter_append, List.map_append, ← List.append_assoc, ← ha]
    exact hb

end Bisection

end Nullock.Bisections

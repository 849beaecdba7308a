import Mathlib.Data.List.Basic

namespace Nullock

def IsCut (segments : List (List α)) (c : Nat) : Prop :=
  ∃ n, (segments.take n).flatten.length = c

theorem IsCut.zero (segments : List (List α)) : IsCut segments 0 := ⟨0, rfl⟩

theorem isCut_nil : IsCut ([] : List (List α)) c ↔ c = 0 := by
  constructor
  · intro h
    obtain ⟨n, hn⟩ := h
    rw [List.take_nil] at hn
    exact hn.symm
  · intro h
    rw [h]
    exact .zero _

theorem isCut_cons {segment : List α} :
    IsCut (segment :: segments) c ↔ c = 0 ∨ ∃ c', IsCut segments c' ∧ c = segment.length + c' := by
  constructor
  · intro h
    obtain ⟨n, hn⟩ := h
    cases n with
    | zero => exact .inl hn.symm
    | succ n =>
      rw [List.take_succ_cons, List.flatten_cons, List.length_append] at hn
      exact .inr ⟨_, ⟨n, rfl⟩, hn.symm⟩
  · intro h
    rcases h with h | ⟨c', ⟨n, hn⟩, h⟩
    · rw [h]
      exact .zero _
    · refine ⟨n + 1, ?_⟩
      rw [List.take_succ_cons, List.flatten_cons, List.length_append, hn, h]

theorem IsCut.le {segments : List (List α)} (h : IsCut segments c) :
    c ≤ segments.flatten.length := by
  obtain ⟨n, hn⟩ := h
  have he : segments.flatten = (segments.take n).flatten ++ (segments.drop n).flatten := by
    rw [← List.flatten_append, List.take_append_drop]
  rw [he, List.length_append, hn]
  exact Nat.le_add_right _ _

/-- Behind its first `n` items a stream goes on and is cut as it was. -/
structure Advanced (segments : List (List α)) (n : Nat) (left : List (List α)) : Prop where
  within : n ≤ segments.flatten.length
  items : left.flatten = segments.flatten.drop n
  cuts : ∀ c, 0 < c → (IsCut left c ↔ IsCut segments (n + c))

theorem Advanced.refl (segments : List (List α)) : Advanced segments 0 segments where
  within := Nat.zero_le _
  items := rfl
  cuts c _ := by rw [Nat.zero_add]

theorem Advanced.trans {segments : List (List α)} (h : Advanced segments n mid)
    (h' : Advanced mid m left) : Advanced segments (n + m) left where
  within := by
    have hw := h'.within
    rw [h.items, List.length_drop] at hw
    have := h.within
    omega
  items := by rw [h'.items, h.items, List.drop_drop]
  cuts c hc := by rw [h'.cuts c hc, h.cuts (m + c) (by omega), Nat.add_assoc]

theorem Advanced.part {segment : List α} (h : k ≤ segment.length) (segments : List (List α)) :
    Advanced (segment :: segments) k (segment.drop k :: segments) where
  within := by
    rw [List.flatten_cons, List.length_append]
    omega
  items := by rw [List.flatten_cons, List.flatten_cons, List.drop_append_of_le_length h]
  cuts c hc := by
    rw [isCut_cons, isCut_cons, List.length_drop]
    constructor
    · intro hcut
      rcases hcut with h0 | ⟨c', hc', he⟩
      · omega
      · exact .inr ⟨c', hc', by omega⟩
    · intro hcut
      rcases hcut with h0 | ⟨c', hc', he⟩
      · omega
      · exact .inr ⟨c', hc', by omega⟩

theorem Advanced.segment (segment : List α) (segments : List (List α)) :
    Advanced (segment :: segments) segment.length segments where
  within := by
    rw [List.flatten_cons, List.length_append]
    omega
  items := by rw [List.flatten_cons, List.drop_left]
  cuts c hc := by
    rw [isCut_cons]
    constructor
    · intro hcut
      exact .inr ⟨c, hcut, rfl⟩
    · intro hcut
      rcases hcut with h0 | ⟨c', hc', he⟩
      · omega
      · obtain rfl : c = c' := by omega
        exact hc'

end Nullock

import Mathlib.Data.List.DropRight
import Mathlib.Data.List.Infix

namespace Nullock.Wrappers

section
variable {α : Type} {p : α → Bool}

theorem dropWhile_append_core {x c : List α} (hx : ∀ a ∈ x, p a = true)
    (hc : ∀ a, c.head? = some a → p a = false) : (x ++ c).dropWhile p = c := by
  rw [List.dropWhile_append_of_pos hx]
  cases c with
  | nil => rfl
  | cons a c => rw [List.dropWhile_cons, hc a rfl, if_neg Bool.false_ne_true]

theorem rdropWhile_append_core {a x : List α} (ha : ∀ b, a.getLast? = some b → p b = false)
    (hx : ∀ b ∈ x, p b = true) : (a ++ x).rdropWhile p = a := by
  rw [List.rdropWhile, List.reverse_append, dropWhile_append_core, List.reverse_reverse]
  · exact fun b hb => hx b (List.mem_reverse.1 hb)
  · intro b hb
    rw [List.head?_reverse] at hb
    exact ha b hb

theorem core_of_front {b c y : List α} (hb : ∀ a ∈ b, p a = true)
    (hc : ∀ a, c.head? = some a → p a = false) (hy : y <+: b ++ c) (hn : ∃ a ∈ y, p a = false) :
    b = y.takeWhile p := by
  obtain ⟨z, hz⟩ := hy
  have hcore : (b ++ c).takeWhile p = b := by
    rw [List.takeWhile_append_of_pos hb]
    cases c with
    | nil => rw [List.takeWhile_nil, List.append_nil]
    | cons a c => rw [List.takeWhile_cons, hc a rfl, if_neg Bool.false_ne_true, List.append_nil]
  rw [← hcore, ← hz, List.takeWhile_append, if_neg]
  intro hlength
  obtain ⟨a, ha, hpa⟩ := hn
  have hall := (List.takeWhile_prefix p).eq_of_length hlength
  rw [← hall] at ha
  rw [List.mem_takeWhile_imp ha] at hpa
  cases hpa

theorem core_of_suffix {a b y : List α} (hb : ∀ c ∈ b, p c = true)
    (ha : ∀ c, a.getLast? = some c → p c = false) (hy : y <:+ a ++ b)
    (hn : ∃ c ∈ y, p c = false) : b = y.rtakeWhile p := by
  obtain ⟨c, hc, hpc⟩ := hn
  have hrev : b.reverse = y.reverse.takeWhile p := by
    apply core_of_front (c := a.reverse) (fun c hc => hb c (List.mem_reverse.1 hc))
    · intro c hc
      rw [List.head?_reverse] at hc
      exact ha c hc
    · rw [← List.reverse_append]
      exact List.reverse_prefix.2 hy
    · exact ⟨c, List.mem_reverse.2 hc, hpc⟩
  rw [List.rtakeWhile, ← hrev, List.reverse_reverse]

theorem takeWhile_range (q : Nat → Bool) (n : Nat) :
    ((List.range n).takeWhile q).length ≤ n ∧
      (∀ k < ((List.range n).takeWhile q).length, q k = true) ∧
      (((List.range n).takeWhile q).length < n →
        q ((List.range n).takeWhile q).length = false) := by
  induction n with
  | zero =>
    exact ⟨Nat.le_refl 0, fun k hk => absurd hk (Nat.not_lt_zero k),
      fun h => absurd h (Nat.lt_irrefl 0)⟩
  | succ n ih =>
    obtain ⟨hle, hall, hstop⟩ := ih
    rw [List.range_succ, List.takeWhile_append, List.length_range]
    split
    · rename_i hfull
      rw [hfull] at hall
      rw [List.takeWhile_cons]
      split
      · rename_i hn
        rw [List.takeWhile_nil, List.length_append, List.length_range, List.length_singleton]
        refine ⟨Nat.le_refl _, fun k hk => ?_, fun h => absurd h (Nat.lt_irrefl _)⟩
        rcases Nat.lt_succ_iff_lt_or_eq.1 hk with hlt | rfl
        · exact hall k hlt
        · exact hn
      · rename_i hn
        rw [List.append_nil, List.length_range]
        exact ⟨Nat.le_succ n, hall, fun _ => Bool.eq_false_iff.2 hn⟩
    · exact ⟨Nat.le_succ_of_le hle, hall, fun _ => hstop (by omega)⟩

end

end Nullock.Wrappers

import Mathlib.Data.List.Basic

namespace Nullock

inductive Verdict where
  | more
  | done
  | fail
deriving DecidableEq

abbrev Reader (α σ : Type) := List α → σ → Verdict × List α × σ

/-- What a reader has taken stays taken, and further input changes nothing finished. -/
structure Resumable (f : Reader α σ) : Prop where
  more_append : f xs s = (.more, rest, s') → ∀ ys, f (xs ++ ys) s = f (rest ++ ys) s'
  done_append : f xs s = (.done, rest, s') → ∀ ys, f (xs ++ ys) s = (.done, rest ++ ys, s')

/-- A reader after some pieces; `unread` are those it did not wait for. -/
structure Fed (α σ : Type) where
  verdict : Verdict
  buffer : List α
  state : σ
  unread : List (List α)

def feedPieces (f : Reader α σ) : List α → σ → List (List α) → Fed α σ
  | buf, s, [] => ⟨.more, buf, s, []⟩
  | buf, s, piece :: pieces =>
    match f (buf ++ piece) s with
    | (.more, rest, s') => feedPieces f rest s' pieces
    | (.done, rest, s') => ⟨.done, rest, s', pieces⟩
    | (.fail, rest, s') => ⟨.fail, rest, s', pieces⟩

section
variable {f : Reader α σ}

theorem Resumable.settled (h : Resumable f) (hm : f xs s = (.more, rest, s')) :
    f rest s' = (.more, rest, s') := by
  have ha := h.more_append hm []
  rw [List.append_nil, List.append_nil, hm] at ha
  exact ha.symm

theorem Resumable.feedPieces_fail_iff (h : Resumable f) (hb : f buf s = (.more, buf, s))
    (pieces : List (List α)) :
    (feedPieces f buf s pieces).verdict = .fail ↔
      ∃ n, (f (buf ++ (pieces.take n).flatten) s).1 = .fail := by
  induction pieces generalizing buf s with
  | nil =>
    simp only [feedPieces, List.take_nil, List.flatten_nil, List.append_nil, hb, reduceCtorEq,
      exists_const]
  | cons piece pieces ih =>
    have hcut (n : Nat) : buf ++ ((piece :: pieces).take (n + 1)).flatten =
        (buf ++ piece) ++ (pieces.take n).flatten := by
      rw [List.take_succ_cons, List.flatten_cons, List.append_assoc]
    have hzero : ¬ (f (buf ++ ((piece :: pieces).take 0).flatten) s).1 = .fail := by
      rw [List.take_zero, List.flatten_nil, List.append_nil, hb]
      exact nofun
    have hsucc : (∃ n, (f (buf ++ ((piece :: pieces).take n).flatten) s).1 = .fail) ↔
        ∃ n, (f ((buf ++ piece) ++ (pieces.take n).flatten) s).1 = .fail := by
      constructor
      · intro hn
        obtain ⟨n, hn⟩ := hn
        cases n with
        | zero => exact absurd hn hzero
        | succ n => exact ⟨n, hcut n ▸ hn⟩
      · intro hn
        obtain ⟨n, hn⟩ := hn
        exact ⟨n + 1, (hcut n).symm ▸ hn⟩
    rw [hsucc]
    cases hf : f (buf ++ piece) s with
    | mk v r =>
      cases v with
      | more =>
        have hm (n : Nat) := h.more_append hf (pieces.take n).flatten
        simp only [feedPieces, hf, hm]
        exact ih (h.settled hf)
      | done =>
        have hd (n : Nat) := h.done_append hf (pieces.take n).flatten
        simp only [feedPieces, hf, hd, reduceCtorEq, exists_const]
      | fail =>
        simp only [feedPieces, hf, true_iff]
        refine ⟨0, ?_⟩
        rw [List.take_zero, List.flatten_nil, List.append_nil, hf]

theorem Resumable.feedPieces_eq (h : Resumable f) (hb : f buf s = (.more, buf, s))
    (pieces : List (List α)) (hf : (feedPieces f buf s pieces).verdict ≠ .fail) :
    f (buf ++ pieces.flatten) s =
      ((feedPieces f buf s pieces).verdict,
        (feedPieces f buf s pieces).buffer ++ (feedPieces f buf s pieces).unread.flatten,
        (feedPieces f buf s pieces).state) := by
  induction pieces generalizing buf s with
  | nil => simp only [feedPieces, List.flatten_nil, List.append_nil, hb]
  | cons piece pieces ih =>
    rw [List.flatten_cons, ← List.append_assoc]
    cases hp : f (buf ++ piece) s with
    | mk v r =>
      cases v with
      | more =>
        simp only [feedPieces, hp] at hf ⊢
        rw [h.more_append hp]
        exact ih (h.settled hp) hf
      | done =>
        simp only [feedPieces, hp]
        exact h.done_append hp _
      | fail =>
        simp only [feedPieces, hp, ne_eq, not_true_eq_false] at hf

/-- The verdicts agree unless a beginning is refused that the whole is not. -/
theorem Resumable.verdict_iff (h : Resumable f) (hb : f buf s = (.more, buf, s))
    (pieces : List (List α)) :
    (feedPieces f buf s pieces).verdict = (f (buf ++ pieces.flatten) s).1 ↔
      ∀ n, (f (buf ++ (pieces.take n).flatten) s).1 = .fail →
        (f (buf ++ pieces.flatten) s).1 = .fail := by
  have hfail := h.feedPieces_fail_iff hb pieces
  constructor
  · intro he n hn
    rw [← he]
    exact hfail.2 ⟨n, hn⟩
  · intro hcut
    by_cases hv : (feedPieces f buf s pieces).verdict = .fail
    · obtain ⟨n, hn⟩ := hfail.1 hv
      rw [hv, hcut n hn]
    · rw [h.feedPieces_eq hb pieces hv]

end

end Nullock

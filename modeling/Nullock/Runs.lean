import Mathlib.Data.List.Infix

namespace Nullock

section
variable {σ α : Type} (step : σ → α → σ)

def Throughout (P : σ → Prop) (s : σ) (actions : List α) : Prop :=
  ∀ early, early <+: actions → P (early.foldl step s)

def Along (C : σ → α → Prop) : σ → List α → Prop
  | _, [] => True
  | s, a :: actions => C s a ∧ Along C (step s a) actions

variable {step}

theorem throughout_nil {P : σ → Prop} : Throughout step P s [] ↔ P s := by
  constructor
  · intro h
    exact h [] List.nil_prefix
  · intro h early hearly
    rw [List.prefix_nil.1 hearly]
    exact h

theorem throughout_cons {P : σ → Prop} :
    Throughout step P s (a :: actions) ↔ P s ∧ Throughout step P (step s a) actions := by
  constructor
  · intro h
    refine ⟨h [] List.nil_prefix, ?_⟩
    intro early hearly
    exact h (a :: early) (List.cons_prefix_cons.2 ⟨rfl, hearly⟩)
  · intro h early hearly
    cases early with
    | nil => exact h.1
    | cons b early =>
      obtain ⟨rfl, htail⟩ := List.cons_prefix_cons.1 hearly
      exact h.2 early htail

theorem throughout_iff_along_kept {I P : σ → Prop} {C : σ → α → Prop}
    (hstep : ∀ s a, I s → C s a → I (step s a))
    (hkeep : ∀ s a, I s → P s → (P (step s a) ↔ C s a)) (hi : I s) (hp : P s)
    (actions : List α) : Throughout step P s actions ↔ Along step C s actions := by
  induction actions generalizing s with
  | nil => exact ⟨fun _ => trivial, fun _ => throughout_nil.2 hp⟩
  | cons a actions ih =>
    rw [throughout_cons, Along]
    constructor
    · intro h
      have hnext : P (step s a) := h.2 [] List.nil_prefix
      have ha : C s a := (hkeep s a hi hp).1 hnext
      exact ⟨ha, (ih (hstep s a hi ha) hnext).1 h.2⟩
    · intro h
      have hnext := (hkeep s a hi hp).2 h.1
      exact ⟨hp, (ih (hstep s a hi h.1) hnext).2 h.2⟩

theorem throughout_iff_along {I P : σ → Prop} {C : σ → α → Prop}
    (hstep : ∀ s a, I s → I (step s a)) (hkeep : ∀ s a, I s → P s → (P (step s a) ↔ C s a))
    (hi : I s) (hp : P s) (actions : List α) :
    Throughout step P s actions ↔ Along step C s actions :=
  throughout_iff_along_kept (fun s a h _ => hstep s a h) hkeep hi hp actions

theorem throughout_iff_along_during {I P : σ → Prop} {C D : σ → α → Prop}
    (hstep : ∀ s a, I s → D s a → I (step s a))
    (hkeep : ∀ s a, I s → D s a → P s → (P (step s a) ↔ C s a)) (hi : I s) (hp : P s)
    (hD : Along step D s actions) : Throughout step P s actions ↔ Along step C s actions := by
  induction actions generalizing s with
  | nil => exact ⟨fun _ => trivial, fun _ => throughout_nil.2 hp⟩
  | cons a actions ih =>
    obtain ⟨ha, hrest⟩ := hD
    rw [throughout_cons, Along]
    constructor
    · intro h
      have hnext : P (step s a) := h.2 [] List.nil_prefix
      exact ⟨(hkeep s a hi ha hp).1 hnext, (ih (hstep s a hi ha) hnext hrest).1 h.2⟩
    · intro h
      have hnext := (hkeep s a hi ha hp).2 h.1
      exact ⟨hp, (ih (hstep s a hi ha) hnext hrest).2 h.2⟩

theorem along_and {C D : σ → α → Prop} (hC : Along step C s actions)
    (hD : Along step D s actions) : Along step (fun s a => C s a ∧ D s a) s actions := by
  induction actions generalizing s with
  | nil => trivial
  | cons a actions ih => exact ⟨⟨hC.1, hD.1⟩, ih hC.2 hD.2⟩

theorem throughout_of_along {I P : σ → Prop} {C : σ → α → Prop}
    (hstep : ∀ s a, I s → C s a → I (step s a)) (hkeep : ∀ s, I s → P s) (hi : I s)
    (h : Along step C s actions) : Throughout step P s actions := by
  induction actions generalizing s with
  | nil => exact throughout_nil.2 (hkeep s hi)
  | cons a actions ih =>
    obtain ⟨ha, hrest⟩ := h
    exact throughout_cons.2 ⟨hkeep s hi, ih (hstep s a hi ha) hrest⟩

theorem along_congr {I : σ → Prop} {C D : σ → α → Prop} (hstep : ∀ s a, I s → I (step s a))
    (hcond : ∀ s a, I s → (C s a ↔ D s a)) (hi : I s) (actions : List α) :
    Along step C s actions ↔ Along step D s actions := by
  induction actions generalizing s with
  | nil => exact Iff.rfl
  | cons a actions ih =>
    rw [Along, Along]
    exact and_congr (hcond s a hi) (ih (hstep s a hi))

theorem along_append {C : σ → α → Prop} :
    Along step C s (early ++ late) ↔
      Along step C s early ∧ Along step C (early.foldl step s) late := by
  induction early generalizing s with
  | nil => exact ⟨fun h => ⟨trivial, h⟩, fun h => h.2⟩
  | cons a early ih =>
    rw [List.cons_append, Along, ih, Along, List.foldl_cons, and_assoc]

end

section
variable {σ α β : Type} (step : σ → α → σ × β)

def answers : σ → List α → List β
  | _, [] => []
  | s, a :: actions => (step s a).2 :: answers (step s a).1 actions

variable {step}

theorem answers_eq_of_related {R : σ → σ → Prop}
    (hstep : ∀ s t a, R s t → (step s a).2 = (step t a).2 ∧ R (step s a).1 (step t a).1)
    (h : R s t) (actions : List α) : answers step s actions = answers step t actions := by
  induction actions generalizing s t with
  | nil => rfl
  | cons a actions ih =>
    obtain ⟨hanswer, hnext⟩ := hstep s t a h
    rw [answers, answers, hanswer, ih hnext]

end

section
variable {σ α ω : Type} {step : σ → α → σ} {view : σ → ω} {seen : α → Bool}

theorem view_foldl_filter {I : σ → Prop} {C : σ → α → Prop}
    (hinv : ∀ s a, I s → C s a → I (step s a))
    (hunseen : ∀ s a, I s → C s a → seen a = false → view (step s a) = view s)
    (hseen : ∀ s t a, view s = view t → seen a = true → view (step s a) = view (step t a))
    (hi : I s) (h : Along step C s actions) (hst : view s = view t) :
    view (actions.foldl step s) = view ((actions.filter seen).foldl step t) := by
  induction actions generalizing s t with
  | nil => exact hst
  | cons a actions ih =>
    obtain ⟨ha, hrest⟩ := h
    cases hs : seen a with
    | false =>
      have hkept : view (step s a) = view t := (hunseen s a hi ha hs).trans hst
      rw [List.foldl_cons, List.filter_cons_of_neg (Bool.eq_false_iff.1 hs)]
      exact ih (hinv s a hi ha) hrest hkept
    | true =>
      rw [List.foldl_cons, List.filter_cons_of_pos hs, List.foldl_cons]
      exact ih (hinv s a hi ha) hrest (hseen s t a hst hs)

theorem view_eq_of_filter_eq {I : σ → Prop} {C : σ → α → Prop}
    (hinv : ∀ s a, I s → C s a → I (step s a))
    (hunseen : ∀ s a, I s → C s a → seen a = false → view (step s a) = view s)
    (hseen : ∀ s t a, view s = view t → seen a = true → view (step s a) = view (step t a))
    (hi : I s) (h : Along step C s actions) (h' : Along step C s actions')
    (hsame : actions.filter seen = actions'.filter seen) :
    view (actions.foldl step s) = view (actions'.foldl step s) := by
  rw [view_foldl_filter hinv hunseen hseen hi h rfl, hsame,
    ← view_foldl_filter hinv hunseen hseen hi h' rfl]

end

end Nullock

import Mathlib.Order.BoundedOrder.Basic
import Mathlib.Order.Lattice

namespace Nullock.Padded

variable {α : Type} [LinearOrder α] [OrderBot α]

/-- A component of a sequence; one that is missing is the least there is. -/
def part (v : List α) (i : Nat) : α := v.getD i ⊥

def Below (a b : List α) : Prop := ∃ i, (∀ j < i, part a j = part b j) ∧ part a i < part b i

def Same (a b : List α) : Prop := ∀ i, part a i = part b i

def Undecided (a b : List α) : Prop := ∃ rest, b = a ++ rest ∧ ∃ y ∈ rest, ⊥ < y

def Within (lo hi : Option (List α)) (v : List α) : Prop :=
  (∀ m ∈ lo, ¬Below v m) ∧ ∀ m ∈ hi, Below v m

variable {a b c : List α} {x : α}

@[simp] theorem part_nil (i : Nat) : part ([] : List α) i = ⊥ := by
  rw [part, List.getD_nil]

@[simp] theorem part_cons_zero (x : α) (a : List α) : part (x :: a) 0 = x := rfl

@[simp] theorem part_cons_succ (x : α) (a : List α) (i : Nat) : part (x :: a) (i + 1) = part a i :=
  rfl

theorem part_tail (b : List α) (i : Nat) : part b.tail i = part b (i + 1) := by
  cases b with
  | nil => simp
  | cons y b => rfl

theorem exists_of_part (h : ⊥ < part b i) : part b i ∈ b := by
  induction b generalizing i with
  | nil => simp at h
  | cons y b ih =>
    cases i with
    | zero => exact List.mem_cons_self
    | succ i => exact List.mem_cons_of_mem y (ih h)

theorem below_cons : Below (x :: a) b ↔ x < part b 0 ∨ x = part b 0 ∧ Below a b.tail := by
  constructor
  · rintro ⟨i, hsame, hless⟩
    cases i with
    | zero => exact .inl hless
    | succ i =>
      apply Or.inr
      refine ⟨hsame 0 (Nat.succ_pos i), i, fun j hj => ?_, ?_⟩
      · rw [part_tail]
        exact hsame (j + 1) (Nat.succ_lt_succ hj)
      · rw [part_tail]
        exact hless
  · rintro (hless | ⟨hsame, i, hi, hless⟩)
    · exact ⟨0, fun j hj => absurd hj (Nat.not_lt_zero j), hless⟩
    · refine ⟨i + 1, fun j hj => ?_, ?_⟩
      · cases j with
        | zero => exact hsame
        | succ j =>
          rw [part_cons_succ, ← part_tail]
          exact hi j (Nat.lt_of_succ_lt_succ hj)
      · rw [part_cons_succ, ← part_tail]
        exact hless

theorem below_nil : Below [] b ↔ ∃ y ∈ b, ⊥ < y := by
  constructor
  · rintro ⟨i, -, hless⟩
    rw [part_nil] at hless
    exact ⟨part b i, exists_of_part hless, hless⟩
  · intro h
    induction b with
    | nil =>
      obtain ⟨y, hy, -⟩ := h
      cases hy
    | cons z b ih =>
      rcases eq_or_lt_of_le (bot_le : ⊥ ≤ z) with hz | hz
      · obtain ⟨y, hy, hpos⟩ := h
        rcases List.mem_cons.1 hy with rfl | hy
        · exact absurd hz hpos.ne
        · obtain ⟨i, hsame, hless⟩ := ih ⟨y, hy, hpos⟩
          refine ⟨i + 1, fun j hj => ?_, ?_⟩
          · cases j with
            | zero => exact hz
            | succ j => simpa using hsame j (Nat.lt_of_succ_lt_succ hj)
          · simpa using hless
      · exact ⟨0, fun j hj => absurd hj (Nat.not_lt_zero j), by simpa using hz⟩

theorem same_cons : Same (x :: a) b ↔ x = part b 0 ∧ Same a b.tail := by
  constructor
  · intro h
    refine ⟨h 0, fun i => ?_⟩
    rw [part_tail]
    exact h (i + 1)
  · rintro ⟨hhead, htail⟩ i
    cases i with
    | zero => exact hhead
    | succ i =>
      rw [part_cons_succ, ← part_tail]
      exact htail i

theorem same_nil : Same [] b ↔ ∀ y ∈ b, y = ⊥ := by
  constructor
  · intro h y hy
    induction b with
    | nil => cases hy
    | cons z b ih =>
      rcases List.mem_cons.1 hy with rfl | hy
      · exact (h 0).symm
      · exact ih (fun i => by simpa using h (i + 1)) hy
  · intro h i
    rw [part_nil]
    by_contra hne
    have hpos : ⊥ < part b i := bot_lt_iff_ne_bot.2 (Ne.symm hne)
    exact hne (h _ (exists_of_part hpos)).symm

theorem Same.append (h : Same a b) (hlength : a.length ≤ b.length) : ∃ rest, b = a ++ rest := by
  induction a generalizing b with
  | nil => exact ⟨b, rfl⟩
  | cons x a ih =>
    cases b with
    | nil => cases hlength
    | cons y b =>
      obtain ⟨hhead, htail⟩ := same_cons.1 h
      obtain ⟨rest, hrest⟩ := ih htail (Nat.le_of_succ_le_succ hlength)
      rw [part_cons_zero] at hhead
      rw [List.tail_cons] at hrest
      exact ⟨rest, by rw [hhead, hrest, List.cons_append]⟩

theorem below_irrefl (a : List α) : ¬Below a a := fun ⟨_, _, h⟩ => lt_irrefl _ h

theorem below_of_append (more : List α) (h : Below (a ++ more) b) : Below a b := by
  induction a generalizing b with
  | nil =>
    obtain ⟨i, -, hless⟩ := h
    have hpos := bot_le.trans_lt hless
    exact below_nil.2 ⟨part b i, exists_of_part hpos, hpos⟩
  | cons x a ih =>
    apply below_cons.2
    rcases below_cons.1 h with hless | ⟨hsame, hrest⟩
    · exact .inl hless
    · exact .inr ⟨hsame, ih hrest⟩

theorem Undecided.below (h : Undecided a b) : Below a b := by
  obtain ⟨rest, rfl, hpos⟩ := h
  induction a with
  | nil => exact below_nil.2 hpos
  | cons x a ih => exact below_cons.2 (.inr ⟨rfl, ih⟩)

theorem below_append (h : Below a b) (hdecided : ¬Undecided a b) (more : List α) :
    Below (a ++ more) b := by
  induction a generalizing b with
  | nil => exact absurd ⟨b, rfl, below_nil.1 h⟩ hdecided
  | cons x a ih =>
    apply below_cons.2
    rcases below_cons.1 h with hless | ⟨hsame, hrest⟩
    · exact .inl hless
    · refine .inr ⟨hsame, ih hrest ?_⟩
      rintro ⟨rest, htail, hpos⟩
      cases b with
      | nil =>
        obtain ⟨y, hy, -⟩ := hpos
        rw [List.tail_nil] at htail
        rw [(List.append_eq_nil_iff.1 htail.symm).2] at hy
        cases hy
      | cons z b =>
        rw [part_cons_zero] at hsame
        rw [List.tail_cons] at htail
        exact hdecided ⟨rest, by rw [hsame, htail, List.cons_append], hpos⟩

section Bounds
variable {lo hi : Option (List α)}

def Reaches (lo hi : Option (List α)) (a : List α) : Prop :=
  (∀ m ∈ lo, Below a m → Undecided a m) ∧ ∀ m ∈ hi, Below a m

def Open (lo hi : Option (List α)) (a : List α) : Prop :=
  (∃ m ∈ lo, Undecided a m) ∨ ∃ m ∈ hi, Undecided a m

theorem exists_within (hrange : ∀ m ∈ lo, ∀ n ∈ hi, Below m n) :
    (∃ more, Within lo hi (a ++ more)) ↔ Reaches lo hi a := by
  constructor
  · rintro ⟨more, hlow, hhigh⟩
    refine ⟨fun m hm hbelow => ?_, fun m hm => below_of_append more (hhigh m hm)⟩
    by_contra hdecided
    exact hlow m hm (below_append hbelow hdecided more)
  · rintro ⟨hlow, hhigh⟩
    by_cases hopen : ∃ m ∈ lo, Undecided a m
    · obtain ⟨m, hm, rest, rfl, -⟩ := hopen
      refine ⟨rest, fun n hn => ?_, hrange _ hm⟩
      rw [Option.mem_unique hn hm]
      exact below_irrefl _
    · refine ⟨[], fun m hm hbelow => ?_, fun m hm => ?_⟩
      · rw [List.append_nil] at hbelow
        exact hopen ⟨m, hm, hlow m hm hbelow⟩
      · rw [List.append_nil]
        exact hhigh m hm

theorem forall_within (a : List α) (lo hi : Option (List α)) : (∀ more, Within lo hi (a ++ more)) ↔
    Reaches lo hi a ∧ ¬Open lo hi a := by
  constructor
  · intro hall
    have hself := hall []
    rw [List.append_nil] at hself
    refine ⟨⟨fun m hm hbelow => absurd hbelow (hself.1 m hm), hself.2⟩, ?_⟩
    rintro (⟨m, hm, hopen⟩ | ⟨m, hm, rest, rfl, -⟩)
    · exact hself.1 m hm hopen.below
    · exact below_irrefl _ ((hall rest).2 _ hm)
  · rintro ⟨⟨hlow, hhigh⟩, hopen⟩ more
    refine ⟨fun m hm hbelow => ?_, fun m hm => ?_⟩
    · exact hopen (.inl ⟨m, hm, hlow m hm (below_of_append more hbelow)⟩)
    · exact below_append (hhigh m hm) (fun h => hopen (.inr ⟨m, hm, h⟩)) more

end Bounds

end Nullock.Padded

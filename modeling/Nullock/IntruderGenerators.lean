import Nullock.CookieJar
import Nullock.Enumerations
import Mathlib.Algebra.BigOperators.Group.Finset.Basic
import Mathlib.Algebra.Order.BigOperators.Group.Finset

namespace Nullock

def IsInt64 (n : Int) : Prop := -2 ^ 63 ≤ n ∧ n < 2 ^ 63

instance : DecidablePred IsInt64 := fun _ => inferInstanceAs (Decidable (_ ∧ _))

/-- A result of 32-bit arithmetic; `none` when it overflows. -/
def checked32 (n : Int) : Option Int := if IsInt32 n then some n else none

def checked64 (n : Int) : Option Int := if IsInt64 n then some n else none

end Nullock

namespace Nullock.IntruderGenerators

def kMaxCount : Nat := 100000

def kMaxChars : Int := (kMaxCount : Int) * 64

section Definitions

/-- A number with its sign, padded with zeros. -/
def fmtNumber (hexNumber : Int → QString) (n width : Int) (hex : Bool) : QString :=
  let s := if hex then hexNumber n else QString.number n
  if 0 < width then
    let neg := s.head? == some 0x2D
    let digits := if neg then s.drop 1 else s
    let digits := List.replicate (width.toNat - digits.length) 0x30 ++ digits
    if neg then 0x2D :: digits else digits
  else s

/-- The terms from one on; `none` when the arithmetic overflows. -/
def numbersFrom (last step : Int) : Nat → Int → Option (List Int)
  | 0, _ => some []
  | room + 1, n =>
    if (if 0 < step then last < n else n < last) then some []
    else do
      -- the end of the numbers is looked at before a step is made
      let limit ← checked64 (if 0 < step then 2 ^ 63 - 1 - step else -2 ^ 63 - step)
      if (if 0 < step then limit < n else n < limit) then some [n]
      else
        let next ← checked64 (n + step)
        let rest ← numbersFrom last step room next
        some (n :: rest)

def numbers (hexNumber : Int → QString) (first last step width : Int) (hex : Bool) :
    Option (List QString) :=
  if step = 0 then some []
  else if 0 < step ∧ last < first then some []
  else if step < 0 ∧ first < last then some []
  else (numbersFrom last step kMaxCount first).map
    (List.map (fun n => fmtNumber hexNumber n width hex))

/-- The blocks from a multiplier on; `none` when the arithmetic overflows. -/
def charBlocksFrom (base : QString) (maxMult step : Int) :
    Nat → Int → Int → Option (List QString)
  | 0, _, _ => some []
  | room + 1, k, emitted =>
    if maxMult < k then some []
    else do
      let blockLen ← checked64 (base.length * k)
      let emitted ← checked64 (emitted + blockLen)
      if kMaxChars < emitted then some []
      else
        let next ← checked32 (k + step)
        let rest ← charBlocksFrom base maxMult step room next emitted
        some ((List.replicate k.toNat base).flatten :: rest)

def charBlocks (base : QString) (minMult maxMult step : Int) : Option (List QString) :=
  if base.isEmpty ∨ step < 1 then some []
  else
    let minMult := if minMult < 1 then 1 else minMult
    if maxMult < minMult then some []
    else charBlocksFrom base maxMult step kMaxCount minMult 0

end Definitions

section Numbers

def Between (first last step n : Int) : Prop :=
  if 0 < step then first ≤ n ∧ n ≤ last else last ≤ n ∧ n ≤ first

structure FirstTerms (first last step : Int) (terms : List Int) : Prop where
  progression : terms = (List.range terms.length).map (fun (i : Nat) => first + i * step)
  between : ∀ n ∈ terms, Between first last step n
  capped : terms.length ≤ kMaxCount
  complete : terms.length < kMaxCount → ¬ Between first last step (first + terms.length * step)

theorem checked64_eq (h : IsInt64 n) : checked64 n = some n := if_pos h

def Before (last step n : Int) : Prop := if 0 < step then n ≤ last else last ≤ n

def stepLimit (step : Int) : Int := if 0 < step then 2 ^ 63 - 1 - step else -2 ^ 63 - step

theorem numbersFrom_succ (hs : IsInt64 step) (hn : IsInt64 n)
    (hin : Before last step n) (room : Nat) :
    (¬ IsInt64 (n + step) ∧ numbersFrom last step (room + 1) n = some [n]) ∨
      (IsInt64 (n + step) ∧ numbersFrom last step (room + 1) n =
        (numbersFrom last step room (n + step)).map (n :: ·)) := by
  unfold IsInt64 at hs hn
  have hgoes : ¬ (if 0 < step then last < n else n < last) := by
    unfold Before at hin
    split
    · rw [if_pos (by assumption)] at hin
      omega
    · rw [if_neg (by assumption)] at hin
      omega
  have hlimit : IsInt64 (stepLimit step) := by
    unfold IsInt64 stepLimit
    split
    · omega
    · omega
  have hcheck : checked64 (if 0 < step then 2 ^ 63 - 1 - step else -2 ^ 63 - step) =
      some (stepLimit step) := checked64_eq hlimit
  have hends : (if 0 < step then stepLimit step < n else n < stepLimit step) ↔
      ¬ IsInt64 (n + step) := by
    unfold IsInt64 stepLimit
    split
    · omega
    · omega
  rw [numbersFrom, if_neg hgoes, hcheck]
  by_cases hover : IsInt64 (n + step)
  · right
    have hgo := mt hends.1 (not_not.2 hover)
    refine ⟨hover, ?_⟩
    simp only [Option.bind_eq_bind, Option.bind_some, if_neg hgo, checked64_eq hover]
    exact (Option.map_eq_bind).symm
  · left
    refine ⟨hover, ?_⟩
    simp only [Option.bind_eq_bind, Option.bind_some, if_pos (hends.2 hover)]

theorem numbersFrom_terms (hlast : IsInt64 last) (hs : IsInt64 step)
    (room : Nat) (hn : IsInt64 n) :
    ∃ m ≤ room, numbersFrom last step room n =
        some ((List.range m).map (fun (i : Nat) => n + i * step)) ∧
      (∀ i < m, Before last step (n + (i : Nat) * step)) ∧
      (m < room → ¬ Before last step (n + m * step)) := by
  induction room generalizing n with
  | zero => exact ⟨0, Nat.le_refl 0, rfl, nofun, nofun⟩
  | succ room ih =>
    by_cases hin : Before last step n
    · have hzero : Before last step (n + (0 : Nat) * step) := by
        rw [Nat.cast_zero, Int.zero_mul, Int.add_zero]
        exact hin
      rcases numbersFrom_succ hs hn hin room with ⟨hover, hone⟩ | ⟨hover, hnext⟩
      · refine ⟨1, Nat.succ_le_succ (Nat.zero_le _), ?_, ?_, fun _ => ?_⟩
        · rw [hone, List.range_one, List.map_singleton, Nat.cast_zero, Int.zero_mul, Int.add_zero]
        · intro i hi
          rw [Nat.lt_one_iff.1 hi]
          exact hzero
        · -- a term out of the numbers is beyond the end
          unfold IsInt64 at hlast hs hn hover
          unfold Before
          rw [Nat.cast_one, Int.one_mul]
          split
          · omega
          · omega
      · obtain ⟨m, hm, hterms, hbefore, hend⟩ := ih hover
        have hshift (i : Nat) : n + step + i * step = n + ((i + 1 : Nat) : Int) * step := by
          rw [Nat.cast_add, Nat.cast_one, Int.add_mul, Int.one_mul]
          omega
        refine ⟨m + 1, Nat.succ_le_succ hm, ?_, ?_, fun hlt => ?_⟩
        · rw [hnext, hterms, Option.map_some, List.range_succ_eq_map, List.map_cons, List.map_map,
            Nat.cast_zero, Int.zero_mul, Int.add_zero]
          congr 2
          apply List.map_congr_left
          intro i _
          exact hshift i
        · intro i hi
          cases i with
          | zero => exact hzero
          | succ i =>
            have hi := hbefore i (Nat.lt_of_succ_lt_succ hi)
            rw [hshift] at hi
            exact hi
        · have hout := hend (Nat.lt_of_succ_lt_succ hlt)
          rw [hshift] at hout
          exact hout
    · have hstop : (if 0 < step then last < n else n < last) := by
        unfold Before at hin
        split
        · rw [if_pos (by assumption)] at hin
          omega
        · rw [if_neg (by assumption)] at hin
          omega
      refine ⟨0, Nat.zero_le _, ?_, nofun, fun _ => ?_⟩
      · rw [numbersFrom, if_pos hstop]
        rfl
      · rw [Nat.cast_zero, Int.zero_mul, Int.add_zero]
        exact hin

theorem numbers_terms (hexNumber : Int → QString) (hfirst : IsInt64 first) (hlast : IsInt64 last)
    (hs : IsInt64 step) (width : Int) (hex : Bool) :
    ∃ terms, numbers hexNumber first last step width hex =
        some (terms.map (fun n => fmtNumber hexNumber n width hex)) ∧
      (step = 0 → terms = []) ∧ (step ≠ 0 → FirstTerms first last step terms) := by
  by_cases hzero : step = 0
  · exact ⟨[], by rw [numbers, if_pos hzero]; rfl, fun _ => rfl, fun h => absurd hzero h⟩
  · have hnone (hout : ¬ Between first last step first) : FirstTerms first last step [] := by
      refine ⟨rfl, nofun, Nat.zero_le _, fun _ => ?_⟩
      rw [List.length_nil, Nat.cast_zero, Int.zero_mul, Int.add_zero]
      exact hout
    by_cases hup : 0 < step ∧ last < first
    · refine ⟨[], ?_, fun h => absurd h hzero, fun _ => hnone ?_⟩
      · rw [numbers, if_neg hzero, if_pos hup]
        rfl
      · rw [Between, if_pos hup.1]
        omega
    by_cases hdown : step < 0 ∧ first < last
    · refine ⟨[], ?_, fun h => absurd h hzero, fun _ => hnone ?_⟩
      · rw [numbers, if_neg hzero, if_neg hup, if_pos hdown]
        rfl
      · rw [Between, if_neg (by omega)]
        omega
    obtain ⟨m, hm, hterms, hbefore, hend⟩ := numbersFrom_terms hlast hs kMaxCount hfirst
    refine ⟨(List.range m).map (fun (i : Nat) => first + i * step), ?_,
      fun h => absurd h hzero, fun _ => ⟨?_, ?_, ?_, ?_⟩⟩
    · rw [numbers, if_neg hzero, if_neg hup, if_neg hdown, hterms, Option.map_some]
    · rw [List.length_map, List.length_range]
    · intro n hn
      obtain ⟨i, hi, rfl⟩ := List.mem_map.1 hn
      have hle := hbefore i (List.mem_range.1 hi)
      unfold Before at hle
      unfold Between
      split
      · rename_i hpos
        rw [if_pos hpos] at hle
        have hmul := Int.mul_nonneg (Int.natCast_nonneg i) (Int.le_of_lt hpos)
        exact ⟨by omega, hle⟩
      · rename_i hneg
        rw [if_neg hneg] at hle
        have hmul := Int.mul_nonneg (Int.natCast_nonneg i) (show 0 ≤ -step by omega)
        rw [Int.mul_neg] at hmul
        exact ⟨hle, by omega⟩
    · rw [List.length_map, List.length_range]
      exact hm
    · rw [List.length_map, List.length_range]
      intro hlt hbetween
      apply hend hlt
      unfold Between at hbetween
      unfold Before
      split
      · rw [if_pos (by assumption)] at hbetween
        exact hbetween.2
      · rw [if_neg (by assumption)] at hbetween
        exact hbetween.1

end Numbers

section Blocks

variable {size first maxMult step : Int}

def volume (size first step : Int) : Nat → Int
  | 0 => 0
  | i + 1 => volume size first step i + size * (first + i * step)

def Given (size first maxMult step : Int) (i : Nat) : Prop :=
  i < kMaxCount ∧ first + i * step ≤ maxMult ∧ volume size first step (i + 1) ≤ kMaxChars

def Repetitions (base : QString) (first maxMult step : Int) (blocks : List QString) : Prop :=
  ∃ m, (∀ i, Given base.length first maxMult step i ↔ i < m) ∧
    blocks = (List.range m).map (fun (i : Nat) =>
      (List.replicate (first + i * step).toNat base).flatten)

theorem multiplier_mono (hstep : 1 ≤ step) (h : i ≤ j) :
    first + (i : Nat) * step ≤ first + (j : Nat) * step := by
  have hcast : (i : Int) ≤ j := Int.ofNat_le.2 h
  have hmul := Int.mul_le_mul_of_nonneg_right hcast (show 0 ≤ step by omega)
  omega

theorem multiplier_pos (hfirst : 1 ≤ first) (hstep : 1 ≤ step) (i : Nat) :
    1 ≤ first + i * step := by
  have hmul := Int.mul_nonneg (Int.natCast_nonneg i) (show 0 ≤ step by omega)
  omega

theorem volume_mono (hsize : 1 ≤ size) (hfirst : 1 ≤ first) (hstep : 1 ≤ step) (h : i ≤ j) :
    volume size first step i ≤ volume size first step j := by
  induction h with
  | refl => exact Int.le_refl _
  | @step j _ ih =>
    have hpos := multiplier_pos hfirst hstep j
    have hmul := Int.mul_nonneg (show 0 ≤ size by omega) (show 0 ≤ first + j * step by omega)
    rw [volume]
    omega

theorem Given.earlier (h : Given size first maxMult step j) (hsize : 1 ≤ size)
    (hfirst : 1 ≤ first) (hstep : 1 ≤ step) (hi : i ≤ j) : Given size first maxMult step i :=
  ⟨Nat.lt_of_le_of_lt hi h.1, Int.le_trans (multiplier_mono hstep hi) h.2.1,
    Int.le_trans (volume_mono hsize hfirst hstep (Nat.succ_le_succ hi)) h.2.2⟩

def Sized (size first maxMult step : Int) (i : Nat) : Prop :=
  first + i * step ≤ maxMult →
    IsInt64 (size * (first + i * step)) ∧ IsInt64 (volume size first step (i + 1))

theorem Given.sized (h : Given size first maxMult step i) (hsize : 1 ≤ size) (hfirst : 1 ≤ first)
    (hstep : 1 ≤ step) (hmax : IsInt32 maxMult) : Sized size first maxMult step (i + 1) := by
  intro hnext
  have hzero := volume_mono hsize hfirst hstep (Nat.zero_le i)
  have hvolume := h.2.2
  have hpos := multiplier_pos hfirst hstep i
  have hnextpos := multiplier_pos hfirst hstep (i + 1)
  have hone := Int.mul_le_mul_of_nonneg_left hpos (show 0 ≤ size by omega)
  have hkeep : volume size first step (i + 1) =
      volume size first step i + size * (first + i * step) := rfl
  have hsum : volume size first step (i + 1 + 1) =
      volume size first step (i + 1) + size * (first + ((i + 1 : Nat) : Int) * step) := rfl
  have hchars : kMaxChars = 6400000 := rfl
  have hstart : volume size first step 0 = 0 := rfl
  unfold IsInt32 at hmax
  have hcap : size ≤ 6400000 := by
    rw [Int.mul_one] at hone
    omega
  have hmul : size * (first + ((i + 1 : Nat) : Int) * step) ≤ 6400000 * 2 ^ 31 :=
    Int.mul_le_mul hcap (by omega) (by omega) (by norm_num)
  have hnonneg := Int.mul_nonneg (show 0 ≤ size by omega)
    (show 0 ≤ first + ((i + 1 : Nat) : Int) * step by omega)
  unfold IsInt64
  rw [hsum]
  exact ⟨⟨by omega, by omega⟩, by omega, by omega⟩

theorem charBlocksFrom_succ (hsized : Sized base.length first maxMult step i)
    (hi : i < kMaxCount) (room : Nat) :
    let left := charBlocksFrom base maxMult step (room + 1) (first + i * step)
      (volume base.length first step i)
    let next := first + ((i + 1 : Nat) : Int) * step
    (¬ Given base.length first maxMult step i ∧ left = some []) ∨
      (Given base.length first maxMult step i ∧
        ((¬ IsInt32 next ∧ left = none) ∨
          (IsInt32 next ∧ left = (charBlocksFrom base maxMult step room next
            (volume base.length first step (i + 1))).map
              ((List.replicate (first + i * step).toNat base).flatten :: ·)))) := by
  have hnext : first + i * step + step = first + ((i + 1 : Nat) : Int) * step := by
    rw [Nat.cast_add, Nat.cast_one, Int.add_mul, Int.one_mul, Int.add_assoc]
  have hsum : volume base.length first step i + base.length * (first + i * step) =
      volume base.length first step (i + 1) := rfl
  dsimp only
  rw [charBlocksFrom]
  by_cases hout : maxMult < first + i * step
  · rw [if_pos hout]
    exact .inl ⟨fun h => Int.not_lt.2 h.2.1 hout, rfl⟩
  · obtain ⟨hproduct, hvolume⟩ := hsized (Int.not_lt.1 hout)
    simp only [if_neg hout, checked64_eq hproduct, Option.bind_eq_bind, Option.bind_some, hsum,
      checked64_eq hvolume, hnext]
    by_cases hfull : kMaxChars < volume base.length first step (i + 1)
    · rw [if_pos hfull]
      exact .inl ⟨fun h => Int.not_lt.2 h.2.2 hfull, rfl⟩
    · right
      refine ⟨⟨hi, Int.not_lt.1 hout, Int.not_lt.1 hfull⟩, ?_⟩
      rw [if_neg hfull, checked32]
      by_cases hfits : IsInt32 (first + ((i + 1 : Nat) : Int) * step)
      · rw [if_pos hfits]
        exact .inr ⟨hfits, Option.map_eq_bind.symm⟩
      · rw [if_neg hfits]
        exact .inl ⟨hfits, rfl⟩

theorem charBlocksFrom_run (hbase : 1 ≤ (base.length : Int)) (hfirst : 1 ≤ first)
    (hstep : 1 ≤ step) (hmax : IsInt32 maxMult) (room : Nat) (hroom : i + room = kMaxCount)
    (hsized : Sized base.length first maxMult step i) :
    let left := charBlocksFrom base maxMult step room (first + i * step)
      (volume base.length first step i)
    (∃ n, (∀ j, Given base.length first maxMult step (i + j) ↔ j < n) ∧
        (∀ j < n, IsInt32 (first + ((i + j + 1 : Nat) : Int) * step)) ∧
        left = some ((List.range n).map (fun j =>
          (List.replicate (first + ((i + j : Nat) : Int) * step).toNat base).flatten))) ∨
      (∃ j, Given base.length first maxMult step (i + j) ∧
        ¬ IsInt32 (first + ((i + j + 1 : Nat) : Int) * step) ∧ left = none) := by
  dsimp only
  induction room generalizing i with
  | zero =>
    refine .inl ⟨0, fun j => iff_of_false (fun h => ?_) (Nat.not_lt_zero j), nofun, rfl⟩
    have hlt := h.1
    omega
  | succ room ih =>
    rcases charBlocksFrom_succ hsized (by omega) room with
      ⟨hnot, hleft⟩ | ⟨hgiven, ⟨hover, hleft⟩ | ⟨hfits, hleft⟩⟩
    · refine .inl ⟨0, fun j => iff_of_false (fun h => hnot ?_) (Nat.not_lt_zero j), nofun, hleft⟩
      exact h.earlier hbase hfirst hstep (Nat.le_add_right i j)
    · exact .inr ⟨0, hgiven, hover, hleft⟩
    · have hshift (j : Nat) : i + 1 + j = i + (j + 1) := by omega
      rcases ih (by omega) (hgiven.sized hbase hfirst hstep hmax) with
        ⟨n, hn, hall, hrest⟩ | ⟨j, hj, hover, hrest⟩
      · refine .inl ⟨n + 1, fun j => ?_, fun j hj => ?_, ?_⟩
        · cases j with
          | zero => exact iff_of_true hgiven (Nat.succ_pos n)
          | succ j =>
            rw [← hshift, hn, Nat.succ_lt_succ_iff]
        · cases j with
          | zero => exact hfits
          | succ j =>
            have hj := hall j (Nat.lt_of_succ_lt_succ hj)
            rw [hshift] at hj
            exact hj
        · rw [hleft, hrest, Option.map_some, List.range_succ_eq_map, List.map_cons, List.map_map]
          simp only [Function.comp_def, hshift, Nat.add_zero]
      · refine .inr ⟨j + 1, ?_, ?_, ?_⟩
        · rw [← hshift]
          exact hj
        · rw [← hshift]
          exact hover
        · rw [hleft, hrest]
          rfl

def ExactBlocks (base : QString) (minMult maxMult step : Int) (out : Option (List QString)) : Prop :=
  if base = [] ∨ step < 1 ∨ maxMult < max 1 minMult then out = some []
  else ∃ blocks, out = some blocks ∧ Repetitions base (max 1 minMult) maxMult step blocks

/-- The size of the first block fits in 64 bits, and multipliers in 32. -/
def MultipliersFit (base : QString) (minMult maxMult step : Int) : Prop :=
  base = [] ∨ step < 1 ∨ maxMult < max 1 minMult ∨
    (IsInt64 (base.length * max 1 minMult) ∧ ∀ i,
      Given base.length (max 1 minMult) maxMult step i →
        IsInt32 (max 1 minMult + ((i + 1 : Nat) : Int) * step))

theorem charBlocks_eq (hbase : base ≠ []) (hstep : ¬ step < 1)
    (hrange : ¬ maxMult < max 1 minMult) :
    charBlocks base minMult maxMult step =
      charBlocksFrom base maxMult step kMaxCount (max 1 minMult) 0 := by
  have hclamp : (if minMult < 1 then 1 else minMult) = max 1 minMult := by
    split
    · omega
    · omega
  have hgoes : ¬ (base.isEmpty = true ∨ step < 1) :=
    not_or.2 ⟨fun h => hbase (List.isEmpty_iff.1 h), hstep⟩
  rw [charBlocks, if_neg hgoes, hclamp]
  dsimp only
  rw [if_neg hrange]

theorem charBlocks_none (h : base = [] ∨ step < 1 ∨ maxMult < max 1 minMult) :
    charBlocks base minMult maxMult step = some [] := by
  by_cases hgoes : base.isEmpty = true ∨ step < 1
  · rw [charBlocks, if_pos hgoes]
  · obtain ⟨hbase, hstep⟩ := not_or.1 hgoes
    have hrange : maxMult < max 1 minMult := by
      rcases h with rfl | h | h
      · exact absurd rfl hbase
      · exact absurd h hstep
      · exact h
    rw [charBlocks, if_neg hgoes]
    dsimp only
    rw [if_pos]
    split
    · omega
    · omega

theorem exactBlocks_iff (hmax : IsInt32 maxMult) (base : QString) (minMult step : Int) :
    ExactBlocks base minMult maxMult step (charBlocks base minMult maxMult step) ↔
      MultipliersFit base minMult maxMult step := by
  by_cases hnone : base = [] ∨ step < 1 ∨ maxMult < max 1 minMult
  · rw [ExactBlocks, if_pos hnone, charBlocks_none hnone, MultipliersFit, ← or_assoc, ← or_assoc,
      or_assoc (a := base = [])]
    exact iff_of_true rfl (.inl hnone)
  · have hall := hnone
    rw [not_or, not_or] at hnone
    obtain ⟨hbase, hstep, hrange⟩ := hnone
    have hfirst : 1 ≤ max 1 minMult := le_max_left _ _
    have hlen : 1 ≤ (base.length : Int) := Int.ofNat_le.2 (List.length_pos_iff.2 hbase)
    have hzero : max 1 minMult + ((0 : Nat) : Int) * step = max 1 minMult := by
      rw [Nat.cast_zero, Int.zero_mul, Int.add_zero]
    rw [ExactBlocks, if_neg hall, MultipliersFit, charBlocks_eq hbase hstep hrange]
    simp only [hbase, hstep, hrange, false_or]
    by_cases hproduct : IsInt64 (base.length * max 1 minMult)
    · have hsized : Sized base.length (max 1 minMult) maxMult step 0 := by
        intro _
        rw [volume, volume, hzero, Int.zero_add]
        exact ⟨hproduct, hproduct⟩
      have hrun := charBlocksFrom_run hlen hfirst (by omega) hmax kMaxCount (Nat.zero_add _) hsized
      dsimp only at hrun
      rw [hzero, volume] at hrun
      simp only [Nat.zero_add] at hrun
      rcases hrun with ⟨n, hn, hfits, hout⟩ | ⟨j, hj, hover, hout⟩
      · exact iff_of_true ⟨_, hout, n, hn, rfl⟩ ⟨hproduct, fun i hi => hfits i ((hn i).1 hi)⟩
      · rw [hout]
        exact iff_of_false (fun ⟨_, h, _⟩ => nomatch h) (fun h => hover (h.2 j hj))
    · have hover : charBlocksFrom base maxMult step kMaxCount (max 1 minMult) 0 = none := by
        rw [show kMaxCount = 99999 + 1 from rfl, charBlocksFrom, if_neg hrange, checked64,
          if_neg hproduct]
        rfl
      rw [hover]
      exact iff_of_false (fun ⟨_, h, _⟩ => nomatch h) (fun h => hproduct h.1)

/-- Numbers are always exact; blocks exactly when every multiplier fits. -/
theorem generators_exact_iff (hexNumber : Int → QString) (width : Int) (hex : Bool)
    (base : QString) (minMult : Int) (hfirst : IsInt64 first) (hlast : IsInt64 last)
    (hs : IsInt64 numberStep) (hmax : IsInt32 maxMult) (step : Int) :
    ((∃ terms, numbers hexNumber first last numberStep width hex =
          some (terms.map (fun n => fmtNumber hexNumber n width hex)) ∧
        (numberStep = 0 → terms = []) ∧
        (numberStep ≠ 0 → FirstTerms first last numberStep terms)) ∧
      ExactBlocks base minMult maxMult step (charBlocks base minMult maxMult step)) ↔
      MultipliersFit base minMult maxMult step := by
  rw [exactBlocks_iff hmax]
  exact and_iff_right (numbers_terms hexNumber hfirst hlast hs width hex)

theorem generators_exact_small :
    (∃ terms, numbers QString.number 1 9 3 2 false =
          some (terms.map (fun n => fmtNumber QString.number n 2 false)) ∧
        ((3 : Int) = 0 → terms = []) ∧ ((3 : Int) ≠ 0 → FirstTerms 1 9 3 terms)) ∧
      ExactBlocks (utf16 "AB") 1 3 1 (charBlocks (utf16 "AB") 1 3 1) := by
  apply (generators_exact_iff QString.number 2 false (utf16 "AB") 1 (by decide) (by decide)
    (by decide) (by decide) 1).2
  refine .inr (.inr (.inr ⟨by decide, fun i hi => ?_⟩))
  have hle := hi.2.1
  rw [Int.max_self] at hle ⊢
  unfold IsInt32
  omega

theorem long_step_overflows :
    ¬ ExactBlocks (utf16 "A") 1 2 2147483647 (charBlocks (utf16 "A") 1 2 2147483647) := by
  rw [exactBlocks_iff (by decide)]
  intro h
  have hsmall : ¬ (utf16 "A" = [] ∨ (2147483647 : Int) < 1 ∨ (2 : Int) < max 1 1) := by decide
  rw [MultipliersFit, ← or_assoc, ← or_assoc, or_assoc (a := utf16 "A" = [])] at h
  have hfits := (h.resolve_left hsmall).2 0 ⟨Nat.succ_pos _, by decide, by decide⟩
  exact absurd hfits (by decide)

end Blocks

end Nullock.IntruderGenerators

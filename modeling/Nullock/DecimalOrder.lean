import Nullock.HttpFraming
import Nullock.ServiceVulns

namespace Nullock

open ServiceVulns (readInt)
open Proxy (trimmed_numeral)

/-- The number that digits stand for behind a number read before them. -/
def digitsValue (acc : Nat) (s : QString) : Nat :=
  s.foldl (fun acc c => acc * 10 + (c.toNat - 0x30)) acc

theorem digitsFrom_value (h : ∀ c ∈ s, isDigit c = true) :
    digitsFrom 10 acc s = some (digitsValue acc s) := by
  induction s generalizing acc with
  | nil => rfl
  | cons c s ih =>
    have hc := h c List.mem_cons_self
    rw [digitsFrom, digitValue_of_isDigit hc]
    dsimp only
    rw [if_pos (digitValue_lt_of_isDigit hc), ih (fun c hc => h c (List.mem_cons_of_mem _ hc))]
    rfl

theorem digitsValue_bounds (h : ∀ c ∈ s, isDigit c = true) (acc : Nat) :
    acc * 10 ^ s.length ≤ digitsValue acc s ∧ digitsValue acc s < (acc + 1) * 10 ^ s.length := by
  induction s generalizing acc with
  | nil => simp [digitsValue]
  | cons c s ih =>
    have hc := digitValue_lt_of_isDigit (h c List.mem_cons_self)
    obtain ⟨hlow, hhigh⟩ := ih (fun c hc => h c (List.mem_cons_of_mem _ hc))
      (acc * 10 + (c.toNat - 0x30))
    rw [List.length_cons, Nat.pow_succ']
    have hleft : acc * 10 * 10 ^ s.length ≤ (acc * 10 + (c.toNat - 0x30)) * 10 ^ s.length :=
      Nat.mul_le_mul_right _ (by omega)
    have hright : (acc * 10 + (c.toNat - 0x30) + 1) * 10 ^ s.length ≤
        ((acc + 1) * 10) * 10 ^ s.length := Nat.mul_le_mul_right _ (by omega)
    rw [← Nat.mul_assoc, ← Nat.mul_assoc]
    exact ⟨hleft.trans hlow, Nat.lt_of_lt_of_le hhigh hright⟩

theorem compare_digit (hc : isDigit c = true) (hd : isDigit d = true) (a b : Nat) :
    compare (a * 10 + (c.toNat - 0x30)) (b * 10 + (d.toNat - 0x30)) =
      (compare a b).then (compare c d) := by
  have hcv := digitValue_lt_of_isDigit hc
  have hdv := digitValue_lt_of_isDigit hd
  simp only [isDigit, Bool.and_eq_true, decide_eq_true_eq, UInt16.le_iff_toNat_le] at hc hd
  have h0 : (0x30 : UInt16).toNat = 0x30 := rfl
  rcases Nat.lt_trichotomy a b with hlt | rfl | hgt
  · rw [Nat.compare_eq_lt.2 hlt, Nat.compare_eq_lt.2 (by omega)]
    rfl
  · rw [Nat.compare_eq_eq.2 rfl, Ordering.eq_then]
    rcases Nat.lt_trichotomy c.toNat d.toNat with hlt | heq | hgt
    · rw [Nat.compare_eq_lt.2 (by omega), Std.compare_eq_lt.2 (UInt16.lt_iff_toNat_lt.2 hlt)]
    · rw [UInt16.toNat_inj.1 heq, Nat.compare_eq_eq.2 rfl, Std.compare_self]
    · rw [Nat.compare_eq_gt.2 (by omega), Std.compare_eq_gt.2 (UInt16.lt_iff_toNat_lt.2 hgt)]
  · rw [Nat.compare_eq_gt.2 hgt, Nat.compare_eq_gt.2 (by omega)]
    rfl

theorem compare_digitsValue (hs : ∀ c ∈ s, isDigit c = true) (ht : ∀ c ∈ t, isDigit c = true)
    (h : s.length = t.length) (a b : Nat) :
    compare (digitsValue a s) (digitsValue b t) = (compare a b).then (compare s t) := by
  induction s generalizing t a b with
  | nil =>
    cases t with
    | nil => exact Ordering.then_eq.symm
    | cons d t => cases h
  | cons c s ih =>
    cases t with
    | nil => cases h
    | cons d t =>
      rw [List.compare_cons_cons, ← Ordering.then_assoc,
        ← compare_digit (hs c List.mem_cons_self) (ht d List.mem_cons_self)]
      exact ih (fun c hc => hs c (List.mem_cons_of_mem _ hc))
        (fun d hd => ht d (List.mem_cons_of_mem _ hd)) (Nat.succ.inj h) _ _

theorem decimalDigits_head (h : n ≠ 0) :
    ∃ c s, fromLatin1 (decimalDigits n) = c :: s ∧ c ≠ 0x30 := by
  induction n using Nat.strongRecOn with
  | _ n ih =>
    rw [decimalDigits_step h, fromLatin1, List.map_append, ← fromLatin1]
    by_cases hz : n / 10 = 0
    · obtain ⟨_, hv⟩ := isDigit_of_lt (Nat.mod_lt n (by decide : 0 < 10))
      rw [hz]
      refine ⟨_, _, rfl, ?_⟩
      intro he
      rw [he] at hv
      have h0 : (0x30 : UInt16).toNat = 0x30 := rfl
      omega
    · obtain ⟨c, s, hcs, hc⟩ := ih (n / 10) (Nat.div_lt_self (Nat.pos_of_ne_zero h) (by decide)) hz
      rw [hcs]
      exact ⟨c, _, rfl, hc⟩

theorem number_digits (n : Nat) : ∀ c ∈ fromLatin1 (QByteArray.number n), isDigit c = true :=
  (isNumeral_iff.1 (number_numeral n).1).2

theorem number_ne_nil (n : Nat) : fromLatin1 (QByteArray.number n) ≠ [] :=
  (isNumeral_iff.1 (number_numeral n).1).1

theorem digitsValue_number (n : Nat) : digitsValue 0 (fromLatin1 (QByteArray.number n)) = n := by
  have h := (number_numeral n).2
  rwa [digitsFrom_value (number_digits n), Option.some.injEq] at h

theorem number_shape (n : Nat) : fromLatin1 (QByteArray.number n) = [0x30] ∧ n = 0 ∨
    ∃ c s, fromLatin1 (QByteArray.number n) = c :: s ∧ c ≠ 0x30 := by
  cases n with
  | zero => exact Or.inl ⟨rfl, rfl⟩
  | succ n => exact Or.inr (decimalDigits_head (Nat.succ_ne_zero n))

theorem lt_of_number_length
    (h : (fromLatin1 (QByteArray.number (m : Nat))).length <
      (fromLatin1 (QByteArray.number (n : Nat))).length) : m < n := by
  have hm := (digitsValue_bounds (number_digits m) 0).2
  rw [digitsValue_number, Nat.zero_add, Nat.one_mul] at hm
  have hpos := List.length_pos_iff.2 (number_ne_nil m)
  rcases number_shape n with ⟨hzero, _⟩ | ⟨c, s, hcs, hc⟩
  · rw [hzero, List.length_singleton] at h
    omega
  · have hdigits := number_digits n
    have hvalue := digitsValue_number n
    rw [hcs] at h hdigits hvalue
    have hlow := (digitsValue_bounds (fun c hc => hdigits c (List.mem_cons_of_mem _ hc))
      (0 * 10 + (c.toNat - 0x30))).1
    have hdigit : 1 ≤ 0 * 10 + (c.toNat - 0x30) := by
      have hd := hdigits c List.mem_cons_self
      simp only [isDigit, Bool.and_eq_true, decide_eq_true_eq, UInt16.le_iff_toNat_le] at hd
      have h0 : (0x30 : UInt16).toNat = 0x30 := rfl
      have hne : c.toNat ≠ 0x30 := fun he => hc (UInt16.toNat_inj.1 he)
      omega
    calc m < 10 ^ (fromLatin1 (QByteArray.number (m : Nat))).length := hm
      _ ≤ 10 ^ s.length := Nat.pow_le_pow_right (by decide) (Nat.le_of_lt_succ h)
      _ = 1 * 10 ^ s.length := (Nat.one_mul _).symm
      _ ≤ (0 * 10 + (c.toNat - 0x30)) * 10 ^ s.length := Nat.mul_le_mul_right _ hdigit
      _ ≤ n := hvalue ▸ hlow

theorem compare_number (m n : Nat)
    (h : (fromLatin1 (QByteArray.number m)).length = (fromLatin1 (QByteArray.number n)).length) :
    compare (fromLatin1 (QByteArray.number m)) (fromLatin1 (QByteArray.number n)) =
      compare m n := by
  have hcmp := compare_digitsValue (number_digits m) (number_digits n) h 0 0
  rw [digitsValue_number, digitsValue_number] at hcmp
  exact hcmp.symm

theorem toLongLong_numeral (h : isNumeral s = true) :
    QString.toLongLong s =
      if digitsValue 0 s < 2 ^ 63 then some (digitsValue 0 s : Int) else none := by
  rw [QString.toLongLong, trimmed_numeral h, readLongLong_numeral h,
    digitsFrom_value (isNumeral_iff.1 h).2]
  dsimp only
  by_cases hlong : digitsValue 0 s < 2 ^ 63
  · rw [if_pos hlong, if_pos (by omega)]
  · rw [if_neg hlong, if_neg (by omega)]

theorem readInt_numeral (h : isNumeral s = true) :
    readInt s = if digitsValue 0 s < 2 ^ 31 then some (digitsValue 0 s : Int) else none := by
  rw [readInt, toLongLong_numeral h]
  by_cases hint : digitsValue 0 s < 2 ^ 31
  · rw [if_pos hint, if_pos (by omega), Option.filter_some, if_pos]
    exact decide_eq_true (by omega)
  · rw [if_neg hint]
    split
    · rw [Option.filter_some, if_neg]
      rw [decide_eq_true_eq]
      omega
    · rfl

theorem readInt_number (n : Nat) :
    readInt (fromLatin1 (QByteArray.number n)) = if n < 2 ^ 31 then some (n : Int) else none := by
  rw [readInt_numeral (number_numeral n).1, digitsValue_number]

section Signs

def orderSign : Ordering → Int
  | .lt => -1
  | .eq => 0
  | .gt => 1

theorem orderSign_eq_zero : orderSign o = 0 ↔ o = .eq := by cases o <;> decide

theorem orderSign_injective (h : orderSign o = orderSign p) : o = p := by
  cases o <;> cases p <;> first | rfl | cases h

theorem orderSign_swap (o : Ordering) : orderSign o.swap = -orderSign o := by cases o <;> rfl

theorem orderSign_le_zero : orderSign o ≤ 0 ↔ o.isLE = true := by cases o <;> decide

theorem orderSign_lt_zero : orderSign o < 0 ↔ o = .lt := by cases o <;> decide

theorem numbers_compare (xs ys : List Nat) (h : xs.length = ys.length) (rest : Ordering) :
    (match ((xs.map (fun n : Nat => (n : Int))).zip (ys.map (fun n : Nat => (n : Int)))).find?
        (fun n => n.1 != n.2) with
      | some (x, y) => if x < y then (-1 : Int) else 1
      | none => orderSign rest) = orderSign ((compare xs ys).then rest) := by
  induction xs generalizing ys with
  | nil =>
    cases ys with
    | nil => rfl
    | cons y ys => cases h
  | cons x xs ih =>
    cases ys with
    | nil => cases h
    | cons y ys =>
      rw [List.map_cons, List.map_cons, List.zip_cons_cons, List.find?_cons, List.compare_cons_cons,
        Ordering.then_assoc]
      rcases Nat.lt_trichotomy x y with hlt | rfl | hgt
      · rw [bne_iff_ne.2 (by simpa using Nat.ne_of_lt hlt), Nat.compare_eq_lt.2 hlt]
        exact if_pos (Int.ofNat_lt.2 hlt)
      · rw [bne_self_eq_false, Nat.compare_eq_eq.2 rfl]
        exact ih ys (Nat.succ.inj h)
      · rw [bne_iff_ne.2 (by simpa using (Nat.ne_of_lt hgt).symm), Nat.compare_eq_gt.2 hgt]
        exact if_neg (by simpa using Nat.le_of_lt hgt)

end Signs

end Nullock

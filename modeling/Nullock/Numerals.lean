import Mathlib.Data.Nat.Digits.Defs
import Nullock.Text

namespace Nullock

def digitValue (c : UInt16) : Option Nat :=
  if 0x30 ≤ c ∧ c ≤ 0x39 then some (c.toNat - 0x30)
  else if 0x41 ≤ c ∧ c ≤ 0x46 then some (c.toNat - 0x41 + 10)
  else if 0x61 ≤ c ∧ c ≤ 0x66 then some (c.toNat - 0x61 + 10)
  else none

def digitsFrom (base acc : Nat) : QString → Option Nat
  | [] => some acc
  | c :: s =>
    match digitValue c with
    | some d => if d < base then digitsFrom base (acc * base + d) s else none
    | none => none

def dropHexPrefix (s : QString) : QString :=
  if s.take 2 = utf16 "0x" ∨ s.take 2 = utf16 "0X" then s.drop 2 else s

/-- A signed 64-bit number: a sign, for base 16 perhaps `0x`, and digits. -/
def readLongLong (base : Nat) (s : QString) : Option Int :=
  let negative := s.head? == some 0x2D
  let s := if negative ∨ s.head? = some 0x2B then s.drop 1 else s
  let s := if base = 16 then dropHexPrefix s else s
  if s.isEmpty then none
  else
    match digitsFrom base 0 s with
    | none => none
    | some n =>
      let v : Int := if negative then -n else n
      if -2 ^ 63 ≤ v ∧ v < 2 ^ 63 then some v else none

def QByteArray.toLongLong (s : QByteArray) (base : Nat) : Option Int :=
  readLongLong base (fromLatin1 (QByteArray.trimmed s))

def QString.toLongLong (s : QString) : Option Int := readLongLong 10 (QString.trimmed s)

/-- `QString::toInt`: what is no number of 32 bits counts as zero. -/
def QString.toInt (s : QString) : Int :=
  match QString.toLongLong s with
  | none => 0
  | some n => if -2 ^ 31 ≤ n ∧ n < 2 ^ 31 then n else 0

def isDigit (c : UInt16) : Bool := 0x30 ≤ c && c ≤ 0x39

def isNumeral (s : QString) : Bool := !s.isEmpty && s.all isDigit

theorem digitValue_of_isDigit (h : isDigit c = true) : digitValue c = some (c.toNat - 0x30) := by
  rw [isDigit, Bool.and_eq_true, decide_eq_true_eq, decide_eq_true_eq] at h
  rw [digitValue, if_pos h]

theorem digitValue_lt_of_isDigit (h : isDigit c = true) : c.toNat - 0x30 < 10 := by
  rw [isDigit, Bool.and_eq_true, decide_eq_true_eq, decide_eq_true_eq,
    UInt16.le_iff_toNat_le, UInt16.le_iff_toNat_le] at h
  have h9 : (0x39 : UInt16).toNat = 0x39 := rfl
  omega

theorem digitsFrom_eq_none (h : c ∈ s) (hc : digitValue c = none) (base acc : Nat) :
    digitsFrom base acc s = none := by
  induction s generalizing acc with
  | nil => cases h
  | cons d s ih =>
    rw [digitsFrom]
    cases h with
    | head => rw [hc]
    | tail _ h =>
      split
      · split
        · exact ih h _
        · rfl
      · rfl

theorem digitsFrom_eq_zero (h : ∀ c ∈ s, isDigit c = true) :
    digitsFrom 10 acc s = some 0 ↔ acc = 0 ∧ ∀ c ∈ s, c = 0x30 := by
  induction s generalizing acc with
  | nil => simp only [digitsFrom, Option.some.injEq, List.not_mem_nil, false_implies, implies_true,
      and_true]
  | cons c s ih =>
    have hc := h c List.mem_cons_self
    have hz : c.toNat - 0x30 = 0 ↔ c = 0x30 := by
      rw [isDigit, Bool.and_eq_true, decide_eq_true_eq, decide_eq_true_eq,
        UInt16.le_iff_toNat_le] at hc
      have h0 : (0x30 : UInt16).toNat = 0x30 := rfl
      rw [← UInt16.toNat_inj]
      omega
    have hacc : acc * 10 + (c.toNat - 0x30) = 0 ↔ acc = 0 ∧ c.toNat - 0x30 = 0 := by omega
    rw [digitsFrom, digitValue_of_isDigit hc]
    dsimp only
    rw [if_pos (digitValue_lt_of_isDigit hc), ih (fun c hc => h c (List.mem_cons_of_mem _ hc)),
      List.forall_mem_cons, ← hz, hacc, and_assoc]

theorem isNumeral_iff : isNumeral s = true ↔ s ≠ [] ∧ ∀ c ∈ s, isDigit c = true := by
  rw [isNumeral, Bool.and_eq_true, List.all_eq_true, Bool.not_eq_true', List.isEmpty_eq_false_iff]

theorem readLongLong_numeral (h : isNumeral s = true) :
    readLongLong 10 s = match digitsFrom 10 0 s with
      | none => none
      | some n => if (n : Int) < 2 ^ 63 then some (n : Int) else none := by
  obtain ⟨hne, hd⟩ := isNumeral_iff.1 h
  have hhead (c : UInt16) (hc : isDigit c = false) : s.head? ≠ some c := by
    intro he
    rw [hd c (List.mem_of_mem_head? he)] at hc
    cases hc
  have hminus := hhead 0x2D rfl
  have hplus := hhead 0x2B rfl
  have hneg : (s.head? == some 0x2D) = false := beq_eq_false_iff_ne.2 hminus
  simp only [readLongLong, hneg, hplus, Bool.false_eq_true, or_self, ↓reduceIte,
    Nat.reduceEqDiff, List.isEmpty_iff, hne]
  cases digitsFrom 10 0 s with
  | none => rfl
  | some n =>
    dsimp only
    by_cases hn : (n : Int) < 2 ^ 63
    · rw [if_pos hn, if_pos ⟨by omega, hn⟩]
    · rw [if_neg hn, if_neg (fun h => hn h.2)]

theorem readLongLong_eq_none (h : c ∈ s) (hc : digitValue c = none) (hm : c ≠ 0x2D)
    (hp : c ≠ 0x2B) : readLongLong 10 s = none := by
  have hs : c ∈ (if (s.head? == some 0x2D) = true ∨ s.head? = some 0x2B then s.drop 1 else s) := by
    split
    · rename_i hsign
      cases s with
      | nil => cases h
      | cons d s =>
        cases h with
        | head =>
          rcases hsign with hsign | hsign
          · exact absurd (Option.some.inj (beq_iff_eq.1 hsign)) hm
          · exact absurd (Option.some.inj hsign) hp
        | tail _ h => exact h
    · exact h
  simp only [readLongLong, Nat.reduceEqDiff, ↓reduceIte, digitsFrom_eq_none hs hc, ite_self]

def decimalDigits (n : Nat) : QByteArray :=
  (Nat.digits 10 n).reverse.map (fun d => (0x30 + d).toUInt8)

def QByteArray.number (n : Int) : QByteArray :=
  match n with
  | .ofNat 0 => latin1 "0"
  | .ofNat n => decimalDigits n
  | .negSucc n => latin1 "-" ++ decimalDigits (n + 1)

theorem digitsFrom_concat (base acc : Nat) (s : QString) (c : UInt16) :
    digitsFrom base acc (s ++ [c]) =
      (digitsFrom base acc s).bind (fun n => digitsFrom base n [c]) := by
  induction s generalizing acc with
  | nil => rfl
  | cons d s ih =>
    rw [List.cons_append, digitsFrom, digitsFrom]
    cases digitValue d with
    | none => rfl
    | some v =>
      dsimp only
      split
      · exact ih _
      · rfl

theorem isDigit_of_lt (h : d < 10) : isDigit (0x30 + d).toUInt8.toUInt16 = true ∧
    (0x30 + d).toUInt8.toUInt16.toNat = 0x30 + d := by
  have hall : (List.range 10).all (fun d => isDigit (0x30 + d).toUInt8.toUInt16 &&
      ((0x30 + d).toUInt8.toUInt16.toNat == 0x30 + d)) = true := by decide
  have hd := List.all_eq_true.1 hall d (List.mem_range.2 h)
  rw [Bool.and_eq_true, beq_iff_eq] at hd
  exact hd

theorem decimalDigits_step (h : n ≠ 0) :
    decimalDigits n = decimalDigits (n / 10) ++ [(0x30 + n % 10).toUInt8] := by
  rw [decimalDigits, Nat.digits_eq_cons_digits_div (by decide) h, List.reverse_cons,
    List.map_append]
  rfl

theorem digitsFrom_decimalDigits (n : Nat) :
    digitsFrom 10 0 (fromLatin1 (decimalDigits n)) = some n := by
  induction n using Nat.strongRecOn with
  | _ n ih =>
    by_cases h : n = 0
    · subst h
      rfl
    · obtain ⟨hd, hv⟩ := isDigit_of_lt (Nat.mod_lt n (by decide : 0 < 10))
      rw [decimalDigits_step h, fromLatin1, List.map_append, List.map_singleton, ← fromLatin1,
        digitsFrom_concat, ih (n / 10) (Nat.div_lt_self (Nat.pos_of_ne_zero h) (by decide)),
        Option.bind_some, digitsFrom, digitValue_of_isDigit hd, hv]
      dsimp only
      rw [if_pos (by omega), digitsFrom, Option.some.injEq]
      omega

theorem isDigit_decimalDigits (n : Nat) :
    ∀ c ∈ fromLatin1 (decimalDigits n), isDigit c = true := by
  intro c hc
  obtain ⟨b, hb, he⟩ := List.mem_map.1 hc
  obtain ⟨d, hd, he'⟩ := List.mem_map.1 hb
  rw [← he, ← he']
  exact (isDigit_of_lt (Nat.digits_lt_base (by decide) (List.mem_reverse.1 hd))).1

theorem number_numeral (n : Nat) : isNumeral (fromLatin1 (QByteArray.number n)) = true ∧
    digitsFrom 10 0 (fromLatin1 (QByteArray.number n)) = some n := by
  cases n with
  | zero => exact ⟨rfl, rfl⟩
  | succ n =>
    have hn : QByteArray.number ((n + 1 : Nat) : Int) = decimalDigits (n + 1) := rfl
    rw [hn]
    refine ⟨isNumeral_iff.2 ⟨?_, isDigit_decimalDigits _⟩, digitsFrom_decimalDigits _⟩
    rw [fromLatin1, ne_eq, List.map_eq_nil_iff, decimalDigits_step (Nat.succ_ne_zero n)]
    exact List.append_ne_nil_of_right_ne_nil _ (List.cons_ne_nil _ _)

end Nullock

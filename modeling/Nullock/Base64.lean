import Nullock.Text

namespace Nullock.QByteArray

def base64Char (d : Nat) : UInt8 :=
  if d < 26 then 0x41 + d.toUInt8
  else if d < 52 then 0x61 + (d - 26).toUInt8
  else if d < 62 then 0x30 + (d - 52).toUInt8
  else if d = 62 then 0x2B
  else 0x2F

def base64Digit (c : UInt8) : Option Nat :=
  if 0x41 ≤ c ∧ c ≤ 0x5A then some (c - 0x41).toNat
  else if 0x61 ≤ c ∧ c ≤ 0x7A then some ((c - 0x61).toNat + 26)
  else if 0x30 ≤ c ∧ c ≤ 0x39 then some ((c - 0x30).toNat + 52)
  else if c = 0x2B then some 62
  else if c = 0x2F then some 63
  else none

def toBase64 : QByteArray → QByteArray
  | [] => []
  | [a] => [base64Char (a.toNat / 4), base64Char (a.toNat % 4 * 16), 0x3D, 0x3D]
  | [a, b] =>
    [base64Char (a.toNat / 4), base64Char (a.toNat % 4 * 16 + b.toNat / 16),
      base64Char (b.toNat % 16 * 4), 0x3D]
  | a :: b :: c :: s =>
    base64Char (a.toNat / 4) :: base64Char (a.toNat % 4 * 16 + b.toNat / 16) ::
      base64Char (b.toNat % 16 * 4 + c.toNat / 64) :: base64Char (c.toNat % 64) :: toBase64 s

/-- The bytes of the digits, behind `nbits` bits still in the buffer. -/
def fromBase64From (buf nbits : Nat) : QByteArray → QByteArray
  | [] => []
  | c :: s =>
    match base64Digit c with
    | none => fromBase64From buf nbits s
    | some d =>
      if 8 ≤ nbits + 6 then
        ((buf * 64 + d) / 2 ^ (nbits + 6 - 8)).toUInt8 ::
          fromBase64From ((buf * 64 + d) % 2 ^ (nbits + 6 - 8)) (nbits + 6 - 8) s
      else fromBase64From (buf * 64 + d) (nbits + 6) s

def fromBase64 (s : QByteArray) : QByteArray := fromBase64From 0 0 s

def isBase64 (size : Nat) : QByteArray → Bool
  | [] => true
  | c :: s =>
    if (base64Digit c).isSome then isBase64 size s
    else c == 0x3D && size % 4 == 0 && (s == [] || s == [0x3D])

def fromBase64Encoding (s : QByteArray) : Option QByteArray :=
  if isBase64 s.length s then some (fromBase64 s) else none

theorem base64Digit_char (h : d < 64) : base64Digit (base64Char d) = some d := by
  have hall : ∀ d < 64, base64Digit (base64Char d) = some d := by decide
  exact hall d h

theorem base64Char_ascii (d : Nat) : base64Char d < 0x80 := by
  rw [base64Char]
  by_cases h : d < 64
  · have hall : ∀ d < 64, base64Char d < 0x80 := by decide
    exact hall d h
  · rw [if_neg (by omega), if_neg (by omega), if_neg (by omega), if_neg (by omega)]
    decide

theorem fromBase64From_first (h : d < 64) (s : QByteArray) :
    fromBase64From 0 0 (base64Char d :: s) = fromBase64From d 6 s := by
  rw [fromBase64From, base64Digit_char h]
  simp only [Nat.zero_mul, Nat.zero_add, Nat.reduceLeDiff, if_false]

theorem fromBase64From_second (h : d < 64) (buf : Nat) (s : QByteArray) :
    fromBase64From buf 6 (base64Char d :: s) =
      ((buf * 64 + d) / 16).toUInt8 :: fromBase64From ((buf * 64 + d) % 16) 4 s := by
  rw [fromBase64From, base64Digit_char h]
  rfl

theorem fromBase64From_third (h : d < 64) (buf : Nat) (s : QByteArray) :
    fromBase64From buf 4 (base64Char d :: s) =
      ((buf * 64 + d) / 4).toUInt8 :: fromBase64From ((buf * 64 + d) % 4) 2 s := by
  rw [fromBase64From, base64Digit_char h]
  rfl

theorem fromBase64From_fourth (h : d < 64) (buf : Nat) (s : QByteArray) :
    fromBase64From buf 2 (base64Char d :: s) =
      ((buf * 64 + d) / 1).toUInt8 :: fromBase64From ((buf * 64 + d) % 1) 0 s := by
  rw [fromBase64From, base64Digit_char h]
  rfl

theorem toUInt8_div (a : UInt8) (hm : 0 < m) (hr : r < m) :
    ((a.toNat * m + r) / m).toUInt8 = a := by
  rw [Nat.mul_comm, Nat.mul_add_div hm, Nat.div_eq_of_lt hr, Nat.add_zero]
  exact UInt8.ofNat_toNat

theorem fromBase64From_byte (a : UInt8) (h : r < 16) (s : QByteArray) :
    fromBase64From 0 0 (base64Char (a.toNat / 4) :: base64Char (a.toNat % 4 * 16 + r) :: s) =
      a :: fromBase64From r 4 s := by
  have ha := a.toNat_lt
  have hbits : a.toNat / 4 * 64 + (a.toNat % 4 * 16 + r) = a.toNat * 16 + r := by omega
  have hleft : (a.toNat * 16 + r) % 16 = r := by omega
  rw [fromBase64From_first (by omega), fromBase64From_second (by omega), hbits, hleft,
    toUInt8_div a (by omega) h]

theorem fromBase64From_bytes (a b : UInt8) (h : r < 4) (s : QByteArray) :
    fromBase64From 0 0 (base64Char (a.toNat / 4) ::
      base64Char (a.toNat % 4 * 16 + b.toNat / 16) :: base64Char (b.toNat % 16 * 4 + r) :: s) =
      a :: b :: fromBase64From r 2 s := by
  have hb := b.toNat_lt
  have hbits : b.toNat / 16 * 64 + (b.toNat % 16 * 4 + r) = b.toNat * 4 + r := by omega
  have hleft : (b.toNat * 4 + r) % 4 = r := by omega
  rw [fromBase64From_byte a (by omega), fromBase64From_third (by omega), hbits, hleft,
    toUInt8_div b (by omega) h]

theorem fromBase64From_group (a b c : UInt8) (s : QByteArray) :
    fromBase64From 0 0 (base64Char (a.toNat / 4) ::
      base64Char (a.toNat % 4 * 16 + b.toNat / 16) ::
      base64Char (b.toNat % 16 * 4 + c.toNat / 64) :: base64Char (c.toNat % 64) :: s) =
      a :: b :: c :: fromBase64From 0 0 s := by
  have hc := c.toNat_lt
  have hbits : c.toNat / 64 * 64 + c.toNat % 64 = c.toNat * 1 + 0 := by omega
  rw [fromBase64From_bytes a b (by omega), fromBase64From_fourth (by omega), hbits,
    toUInt8_div c (by omega) (by omega), Nat.mod_one]

theorem fromBase64_toBase64 (s : QByteArray) : fromBase64 (toBase64 s) = s := by
  rw [fromBase64]
  induction s using toBase64.induct with
  | case1 => rfl
  | case2 a =>
    have h := fromBase64From_byte (r := 0) a (by decide) [0x3D, 0x3D]
    rw [Nat.add_zero] at h
    rw [toBase64, h]
    rfl
  | case3 a b =>
    have h := fromBase64From_bytes (r := 0) a b (by decide) [0x3D]
    rw [Nat.add_zero] at h
    rw [toBase64, h]
    rfl
  | case4 a b c s ih =>
    rw [toBase64, fromBase64From_group, ih]

theorem toBase64_injective (h : toBase64 s = toBase64 t) : s = t := by
  rw [← fromBase64_toBase64 s, h, fromBase64_toBase64]

theorem toBase64_ascii (s : QByteArray) : ∀ c ∈ toBase64 s, c < 0x80 := by
  induction s using toBase64.induct with
  | case1 => exact fun c hc => absurd hc (List.not_mem_nil)
  | case2 a =>
    rw [toBase64]
    simp only [List.forall_mem_cons, base64Char_ascii, true_and]
    exact ⟨by decide, by decide, fun c hc => absurd hc List.not_mem_nil⟩
  | case3 a b =>
    rw [toBase64]
    simp only [List.forall_mem_cons, base64Char_ascii, true_and]
    exact ⟨by decide, fun c hc => absurd hc List.not_mem_nil⟩
  | case4 a b c s ih =>
    rw [toBase64]
    simp only [List.forall_mem_cons, base64Char_ascii, true_and]
    exact ih

theorem isBase64_digit (h : d < 64) (size : Nat) (s : QByteArray) :
    isBase64 size (base64Char d :: s) = isBase64 size s := by
  rw [isBase64, base64Digit_char h]
  rfl

theorem toBase64_length (s : QByteArray) : (toBase64 s).length % 4 = 0 := by
  induction s using toBase64.induct with
  | case1 => rfl
  | case2 a => simp [toBase64]
  | case3 a b => simp [toBase64]
  | case4 a b c s ih =>
    rw [toBase64]
    simp only [List.length_cons]
    omega

theorem isBase64_toBase64 (hsize : size % 4 = 0) (s : QByteArray) :
    isBase64 size (toBase64 s) = true := by
  have hpad : (size % 4 == 0) = true := beq_iff_eq.2 hsize
  induction s using toBase64.induct with
  | case1 => rfl
  | case2 a =>
    have ha := a.toNat_lt
    rw [toBase64, isBase64_digit (by omega), isBase64_digit (by omega), isBase64, hpad]
    rfl
  | case3 a b =>
    have ha := a.toNat_lt
    have hb := b.toNat_lt
    rw [toBase64, isBase64_digit (by omega), isBase64_digit (by omega),
      isBase64_digit (by omega), isBase64, hpad]
    rfl
  | case4 a b c s ih =>
    have ha := a.toNat_lt
    have hb := b.toNat_lt
    have hc := c.toNat_lt
    rw [toBase64, isBase64_digit (by omega), isBase64_digit (by omega),
      isBase64_digit (by omega), isBase64_digit (by omega), ih]

theorem fromBase64Encoding_toBase64 (s : QByteArray) :
    fromBase64Encoding (toBase64 s) = some s := by
  rw [fromBase64Encoding, isBase64_toBase64 (toBase64_length s), if_pos rfl, fromBase64_toBase64]

example : toBase64 (latin1 "light work") = latin1 "bGlnaHQgd29yaw==" := by decide

end Nullock.QByteArray

import Nullock.Scanning
import Mathlib.Algebra.Group.Int.Defs
import Mathlib.Algebra.GroupWithZero.Nat

namespace Nullock

abbrev QString := List UInt16

abbrev QByteArray := List UInt8

instance : LawfulBEq QString := inferInstance

/-- A string literal of the source whose characters are in the basic plane. -/
def utf16 (s : String) : QString := s.toList.map (fun c => c.toNat.toUInt16)

def latin1 (s : String) : QByteArray := s.toList.map (fun c => c.toNat.toUInt8)

def crlf : QByteArray := [0x0D, 0x0A]

def fromLatin1 (s : QByteArray) : QString := s.map UInt8.toUInt16

def toLatin1Char (c : UInt16) : UInt8 := if c ≤ 0xFF then c.toUInt8 else 0x3F

def toLatin1 (s : QString) : QByteArray := s.map toLatin1Char

/-- Characters beyond ASCII matter only where they fold to an ASCII letter. -/
def foldCase (c : UInt16) : UInt16 :=
  if 0x41 ≤ c ∧ c ≤ 0x5A then c + 0x20
  else if c = 0x017F then 0x73
  else if c = 0x212A then 0x6B
  else c

def toLower (s : QString) : QString :=
  s.map (fun c => if 0x41 ≤ c ∧ c ≤ 0x5A then c + 0x20 else if c = 0x212A then 0x6B else c)

theorem toLower_append (s t : QString) : toLower (s ++ t) = toLower s ++ toLower t :=
  List.map_append

def equalsIgnoreCase (s literal : QString) : Bool := s.map foldCase == literal.map foldCase

def isAsciiSpace (c : UInt8) : Bool := c == 0x20 || (0x09 ≤ c && c ≤ 0x0D)

def isSpace (c : UInt16) : Bool :=
  c == 0x20 || (0x09 ≤ c && c ≤ 0x0D) || c == 0x85 || c == 0xA0 || c == 0x1680 ||
    (0x2000 ≤ c && c ≤ 0x200A) || c == 0x2028 || c == 0x2029 || c == 0x202F || c == 0x205F ||
    c == 0x3000

def QByteArray.trimmed (s : QByteArray) : QByteArray := trimWith isAsciiSpace s

def QString.trimmed (s : QString) : QString := trimWith isSpace s

def splitSkipEmpty (s : QString) : List QString :=
  (s.splitOn 0x2C).filter (fun part => !part.isEmpty)

theorem toLatin1Char_toUInt16 (c : UInt8) : toLatin1Char c.toUInt16 = c := by
  have hle : c.toUInt16 ≤ 0xFF := by
    rw [UInt16.le_iff_toNat_le, UInt8.toNat_toUInt16]
    exact Nat.le_of_lt_succ c.toNat_lt
  rw [toLatin1Char, if_pos hle, UInt8.toUInt8_toUInt16]

theorem toUInt16_toLatin1Char (h : c ≤ 0xFF) : (toLatin1Char c).toUInt16 = c := by
  rw [toLatin1Char, if_pos h]
  apply UInt16.toNat_inj.1
  rw [UInt16.le_iff_toNat_le] at h
  rw [UInt8.toNat_toUInt16, UInt16.toNat_toUInt8]
  exact Nat.mod_eq_of_lt (Nat.lt_succ_of_le h)

theorem toLatin1Char_eq_iff (hd : d ≠ 0x3F) : toLatin1Char c = d ↔ c = d.toUInt16 := by
  constructor
  · intro h
    by_cases hc : c ≤ 0xFF
    · rw [← h, toUInt16_toLatin1Char hc]
    · rw [toLatin1Char, if_neg hc] at h
      exact absurd h.symm hd
  · intro h
    rw [h, toLatin1Char_toUInt16]

theorem toLatin1_fromLatin1 (s : QByteArray) : toLatin1 (fromLatin1 s) = s := by
  rw [toLatin1, fromLatin1, List.map_map]
  conv => rhs; rw [← List.map_id s]
  exact List.map_congr_left (fun c _ => toLatin1Char_toUInt16 c)

theorem fromLatin1_toLatin1 (h : ∀ c ∈ s, c ≤ 0xFF) : fromLatin1 (toLatin1 s) = s := by
  rw [toLatin1, fromLatin1, List.map_map]
  conv => rhs; rw [← List.map_id s]
  exact List.map_congr_left (fun c hc => toUInt16_toLatin1Char (h c hc))

end Nullock

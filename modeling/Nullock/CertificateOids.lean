import Mathlib.Data.Nat.Digits.Lemmas
import Nullock.CookieJarRestore

namespace Nullock.TlsInspect
open Proxy (asInt)

inductive Fault where
  | outside
  | overflow

abbrev Checked := Except Fault

def byteAt (der : QByteArray) (i : Int) : Checked Int :=
  if i < 0 then .error .outside
  else
    match der[i.toNat]? with
    | some b => .ok b.toNat
    | none => .error .outside

def checked (n : Int) : Checked Int :=
  if -2 ^ 31 ≤ n ∧ n < 2 ^ 31 then .ok n else .error .overflow

def shiftIn (len b : Int) : Int := asInt ((len * 2 ^ 8 + b) % 2 ^ 32).toNat

structure Tlv where
  tag : Int
  contentPos : Int
  contentLen : Int
  nextPos : Int

def readLength (der : QByteArray) : Nat → Int → Int → Checked (Int × Int)
  | 0, p, len => .ok (p, len)
  | i + 1, p, len => do
    let b ← byteAt der p
    let p ← checked (p + 1)
    readLength der i p (shiftIn len b)

def contained (n tag p len : Int) : Checked (Option Tlv) := do
  if len < 0 then return none
  let room ← checked (n - p)
  if len > room then return none
  let next ← checked (p + len)
  return some { tag := tag, contentPos := p, contentLen := len, nextPos := next }

def derReadTLV (der : QByteArray) (pos : Int) : Checked (Option Tlv) := do
  let n := asInt der.length
  if pos < 0 then return none
  let second ← checked (pos + 1)
  if second ≥ n then return none
  let tag ← byteAt der pos
  let len0 ← byteAt der second
  let p ← checked (second + 1)
  if len0 < 0x80 then contained n tag p len0
  else
    let nbytes := len0 % 0x80
    let room ← checked (n - p)
    if nbytes = 0 ∨ nbytes > 4 ∨ nbytes > room then return none
    let (p, len) ← readLength der nbytes.toNat p 0
    contained n tag p len

def decodeArcs (der : QByteArray) (pos : Int) : Nat → Int → Nat → QString → Checked QString
  | 0, _, _, out => .ok out
  | left + 1, i, arc, out => do
    let index ← checked (pos + i)
    let b ← byteAt der index
    let arc : Nat := arc * 2 ^ 7 % 2 ^ 64 + b.toNat % 0x80
    if b < 0x80 then decodeArcs der pos left (i + 1) 0 (out ++ utf16 "." ++ QString.number arc)
    else decodeArcs der pos left (i + 1) arc out

def derDecodeOid (der : QByteArray) (pos len : Int) : Checked QString := do
  if pos < 0 ∨ pos > der.length ∨ len ≤ 0 ∨ len > der.length - pos then return []
  let first ← byteAt der pos
  decodeArcs der pos (len.toNat - 1) 1 0
    (QString.number (first / 40) ++ utf16 "." ++ QString.number (first % 40))

def kSequence : Int := 0x30

def kOid : Int := 0x06

def expectTLV (der : QByteArray) (pos tag : Int) : Checked (Option Tlv) := do
  let tlv ← derReadTLV der pos
  return tlv.filter (fun t => t.tag == tag)

def signatureAlgorithmOid (der : QByteArray) : Checked QString := do
  let some outer ← expectTLV der 0 kSequence | return []
  let some tbs ← expectTLV der outer.contentPos kSequence | return []
  if tbs.nextPos > outer.nextPos then return []
  let some algorithm ← expectTLV der tbs.nextPos kSequence | return []
  if algorithm.nextPos > outer.nextPos then return []
  let some oid ← expectTLV der algorithm.contentPos kOid | return []
  if oid.nextPos > algorithm.nextPos then return []
  derDecodeOid der oid.contentPos oid.contentLen

theorem asInt_of_lt (h : n < 2 ^ 31) : asInt n = n := by
  rw [asInt, Nat.mod_eq_of_lt (by omega), if_pos h]

section Readers
variable {der : QByteArray} {n : Int}

theorem checked_ok (h : 0 ≤ v) (hv : v < 2 ^ 31) : checked v = .ok v :=
  if_pos ⟨le_trans (by decide) h, hv⟩

theorem ok_bind (a : α) (f : α → Checked β) : (Except.ok a : Checked α) >>= f = f a := rfl

theorem byteAt_ok {before after : QByteArray} {b : UInt8} :
    byteAt (before ++ b :: after) before.length = .ok (b.toNat : Int) := by
  rw [byteAt, if_neg (by omega), Int.toNat_natCast, List.getElem?_append_right (le_refl _),
    Nat.sub_self]
  rfl

theorem byteAt_at {pos : Int} {before after : QByteArray} {b : UInt8}
    (hder : der = before ++ b :: after)
    (hpos : pos = before.length) : byteAt der pos = .ok (b.toNat : Int) := by
  rw [hder, hpos, byteAt_ok]

def pushByte (len : Nat) (b : UInt8) : Nat := len * 2 ^ 8 + b.toNat

def ofBytes (bytes : QByteArray) : Nat := bytes.foldl pushByte 0

theorem asInt_le (size : Nat) : asInt size ≤ size := by
  rw [asInt]
  split
  · omega
  · omega

theorem asInt_lt (size : Nat) : asInt size < 2 ^ 31 := by
  rw [asInt]
  split
  · omega
  · omega

def fit (n tag p len : Int) : Option Tlv :=
  if len < 0 ∨ len > n - p then none else some ⟨tag, p, len, p + len⟩

theorem contained_eq (tag len : Int) (hp : 0 ≤ p) (hpn : p ≤ n) (hn : n < 2 ^ 31) :
    contained n tag p len = .ok (fit n tag p len) := by
  rw [contained, fit]
  by_cases hneg : len < 0
  · rw [if_pos hneg, if_pos (.inl hneg)]
    rfl
  · rw [if_neg hneg, checked_ok (by omega) (by omega), ok_bind]
    by_cases hlong : len > n - p
    · rw [if_pos hlong, if_pos (.inr hlong)]
      rfl
    · rw [if_neg hlong, if_neg (by omega), checked_ok (by omega) (by omega), ok_bind]
      rfl

theorem readLength_eq {before bytes after : QByteArray} (hder : der = before ++ bytes ++ after)
    (hp : p = before.length) (hroom : p + bytes.length < 2 ^ 31) (acc : Int) :
    readLength der bytes.length p acc =
      .ok (p + bytes.length, bytes.foldl (fun len b => shiftIn len b.toNat) acc) := by
  induction bytes generalizing before p acc with
  | nil =>
    rw [List.length_nil, Nat.cast_zero, add_zero]
    rfl
  | cons b bytes ih =>
    rw [List.length_cons] at hroom
    have hcons : der = before ++ b :: (bytes ++ after) := by
      rw [hder, List.append_assoc]
      rfl
    have hb : byteAt der p = .ok (b.toNat : Int) := byteAt_at hcons (congrArg _ hp)
    have hrest : der = (before ++ [b]) ++ bytes ++ after := by
      rw [hder, List.append_assoc, List.append_assoc, List.append_assoc]
      rfl
    have hafter : p + 1 = (before ++ [b]).length := by
      rw [hp, List.length_append, List.length_singleton]
    have hnext := ih hrest hafter (by omega) (shiftIn acc b.toNat)
    rw [List.length_cons, readLength, hb, ok_bind, checked_ok (by omega) (by omega), ok_bind]
    rw [← Nat.cast_succ, hnext, List.foldl_cons, Nat.cast_succ, Nat.cast_succ, add_assoc,
      add_comm 1]

theorem shiftIn_of_lt {acc : Nat} (h : acc < 2 ^ 24) (b : UInt8) :
    shiftIn acc b.toNat = asInt (pushByte acc b) := by
  have hb := b.toNat_lt
  have hmod : ((acc * 2 ^ 8 + b.toNat : Int) % 2 ^ 32).toNat = acc * 2 ^ 8 + b.toNat := by omega
  rw [shiftIn, hmod, pushByte]

theorem shiftIn_small {acc : Nat} (h : acc < 2 ^ 16) (b : UInt8) :
    shiftIn acc b.toNat = (pushByte acc b : Int) := by
  have hb := b.toNat_lt
  rw [shiftIn_of_lt (by omega), asInt, pushByte]
  split
  · omega
  · omega

theorem pushByte_lt {acc k : Nat} (h : acc < 2 ^ k) (b : UInt8) :
    pushByte acc b < 2 ^ (k + 8) := by
  have hb := b.toNat_lt
  rw [pushByte, Nat.pow_add]
  omega

theorem ofBytes_lt (bytes : QByteArray) : ofBytes bytes < 2 ^ (8 * bytes.length) := by
  induction bytes using List.reverseRecOn with
  | nil => decide
  | append_singleton bytes b ih =>
    rw [ofBytes, List.foldl_append, List.length_append]
    exact pushByte_lt ih b

theorem foldl_shiftIn (hne : bytes ≠ []) (hlen : bytes.length ≤ 4) :
    bytes.foldl (fun len b => shiftIn len b.toNat) 0 = asInt (ofBytes bytes) := by
  have hfirst (b : UInt8) : shiftIn 0 b.toNat = (pushByte 0 b : Int) :=
    @shiftIn_small 0 (by decide) b
  match bytes with
  | [b] => exact @shiftIn_of_lt 0 (by decide) b
  | [b, c] =>
    rw [List.foldl_cons, hfirst]
    exact shiftIn_of_lt ((pushByte_lt (by decide : 0 < 2 ^ 0) b).trans (by decide)) c
  | [b, c, d] =>
    have hb := pushByte_lt (by decide : 0 < 2 ^ 0) b
    rw [List.foldl_cons, hfirst, List.foldl_cons, shiftIn_small (hb.trans (by decide))]
    exact shiftIn_of_lt ((pushByte_lt hb c).trans (by decide)) d
  | [b, c, d, e] =>
    have hb := pushByte_lt (by decide : 0 < 2 ^ 0) b
    have hc := pushByte_lt hb c
    rw [List.foldl_cons, hfirst, List.foldl_cons, shiftIn_small (hb.trans (by decide)),
      List.foldl_cons, shiftIn_small hc]
    exact shiftIn_of_lt (pushByte_lt hc d) e

def tlvAt (n : Int) (pos : Nat) (tag len0 : UInt8) (rest : QByteArray) : Option Tlv :=
  if len0.toNat < 0x80 then fit n tag.toNat (pos + 2 : Nat) len0.toNat
  else
    let k := len0.toNat % 0x80
    if k = 0 ∨ 4 < k ∨ n - (pos + 2) < k then none
    else fit n tag.toNat (pos + 2 + k : Nat) (asInt (ofBytes (rest.take k)))

theorem derReadTLV_short {pos : Nat} (hpos : pos + 1 < 2 ^ 31)
    (h : asInt der.length ≤ pos + 1) : derReadTLV der pos = .ok none := by
  rw [derReadTLV, if_neg (by omega), checked_ok (by omega) (by omega), ok_bind, if_pos h]
  rfl

theorem derReadTLV_full {pos : Nat} (h : pos + 1 = 2 ^ 31) :
    derReadTLV der pos = .error .overflow := by
  have hfault : checked ((pos : Int) + 1) = .error .overflow := if_neg (by omega)
  rw [derReadTLV, if_neg (by omega), hfault]
  rfl

theorem derReadTLV_eq {before rest : QByteArray} {tag len0 : UInt8}
    (hder : der = before ++ tag :: len0 :: rest)
    (h : (before.length : Int) + 1 < asInt der.length) :
    derReadTLV der before.length =
      .ok (tlvAt (asInt der.length) before.length tag len0 rest) := by
  have hn := asInt_lt der.length
  have hsize := asInt_le der.length
  have hlen0 := len0.toNat_lt
  have htotal : der.length = before.length + 2 + rest.length := by
    rw [hder, List.length_append, List.length_cons, List.length_cons]
    omega
  have hder' : der = (before ++ [tag]) ++ len0 :: rest := by
    rw [hder, List.append_assoc]
    rfl
  have hsecond : ((before.length : Int) + 1) = ((before ++ [tag]).length : Int) := by
    rw [List.length_append, List.length_singleton, Nat.cast_succ]
  rw [derReadTLV, if_neg (by omega), checked_ok (by omega) (by omega), ok_bind,
    if_neg (by omega), byteAt_at hder rfl, ok_bind, byteAt_at hder' hsecond, ok_bind,
    checked_ok (by omega) (by omega), ok_bind, tlvAt]
  by_cases hshort : len0.toNat < 0x80
  · rw [if_pos (by omega), if_pos hshort]
    have hp : (before.length : Int) + 1 + 1 = ((before.length + 2 : Nat) : Int) := by omega
    rw [hp]
    exact contained_eq _ _ (by omega) (by omega) hn
  · rw [if_neg (by omega), if_neg hshort, checked_ok (by omega) (by omega), ok_bind]
    by_cases hbad : len0.toNat % 0x80 = 0 ∨ 4 < len0.toNat % 0x80 ∨
        asInt der.length - (before.length + 2) < (len0.toNat % 0x80 : Nat)
    · rw [if_pos (by omega), if_pos hbad]
      rfl
    · rw [if_neg (by omega), if_neg hbad]
      have hk : (rest.take (len0.toNat % 0x80)).length = len0.toNat % 0x80 :=
        List.length_take_of_le (by omega)
      have hsplit : der = (before ++ [tag, len0]) ++ rest.take (len0.toNat % 0x80) ++
          rest.drop (len0.toNat % 0x80) := by
        rw [List.append_assoc, List.take_append_drop, hder, List.append_assoc]
        rfl
      have hp : (before.length : Int) + 1 + 1 = ((before.length + 2 : Nat) : Int) := by omega
      have hstart : before.length + 2 = (before ++ [tag, len0]).length := by
        rw [List.length_append]
        rfl
      have hread := readLength_eq hsplit hstart (by omega) 0
      have hcount : ((len0.toNat : Int) % 0x80).toNat = len0.toNat % 0x80 := by omega
      rw [hk] at hread
      rw [hcount, hp, hread, ok_bind]
      have hne : rest.take (len0.toNat % 0x80) ≠ [] := by
        intro hnil
        rw [hnil, List.length_nil] at hk
        omega
      rw [foldl_shiftIn hne (by omega)]
      exact contained_eq _ _ (by omega) (by omega) hn

end Readers

/-- The tag of a TLV and the length of its content, in either form. -/
def Header (tag : UInt8) (len : Nat) (header : QByteArray) : Prop :=
  len < 0x80 ∧ header = [tag, len.toUInt8] ∨
    ∃ bytes, bytes ≠ [] ∧ bytes.length ≤ 4 ∧ ofBytes bytes = len ∧
      header = tag :: (0x80 + bytes.length).toUInt8 :: bytes

section Headers
variable {der before header after : QByteArray} {n : Int}

theorem fit_ok {tag : Int} {p len : Nat} (h : (p : Int) + len ≤ n) :
    fit n tag p len = some ⟨tag, p, len, p + len⟩ := if_neg (by omega)

theorem derReadTLV_header (hder : der = before ++ header ++ after) (hheader : Header tag len header)
    (hlen : len < 2 ^ 31)
    (hfit : ((before.length + header.length : Nat) : Int) + len ≤ asInt der.length) :
    derReadTLV der before.length =
      .ok (some ⟨tag.toNat, (before.length + header.length : Nat), len,
        (before.length + header.length : Nat) + len⟩) := by
  rcases hheader with ⟨hshort, rfl⟩ | ⟨bytes, hne, hfour, hvalue, rfl⟩
  · have hcons : der = before ++ tag :: len.toUInt8 :: after := by
      rw [hder, List.append_assoc]
      rfl
    have hbyte : len.toUInt8.toNat = len := Nat.mod_eq_of_lt (by omega)
    have htwo : [tag, len.toUInt8].length = 2 := rfl
    rw [htwo] at hfit ⊢
    rw [derReadTLV_eq hcons (by omega), tlvAt, hbyte, if_pos hshort, fit_ok hfit]
  · have hcons : der = before ++ tag :: (0x80 + bytes.length).toUInt8 :: (bytes ++ after) := by
      rw [hder, List.append_assoc]
      rfl
    have hbyte : (0x80 + bytes.length).toUInt8.toNat = 0x80 + bytes.length :=
      Nat.mod_eq_of_lt (by omega)
    have hcount : (0x80 + bytes.length) % 0x80 = bytes.length := by omega
    have hpos := List.length_pos_of_ne_nil hne
    have hsize : before.length + (tag :: (0x80 + bytes.length).toUInt8 :: bytes).length =
        before.length + 2 + bytes.length := by
      rw [List.length_cons, List.length_cons]
      omega
    rw [hsize] at hfit ⊢
    rw [derReadTLV_eq hcons (by omega), tlvAt, hbyte, if_neg (by omega)]
    dsimp only
    rw [hcount, if_neg (by omega), List.take_left' rfl, hvalue, asInt_of_lt hlen, fit_ok hfit]

theorem derReadTLV_cases (der : QByteArray) {pos : Nat} (hpos : pos + 1 < 2 ^ 31) :
    derReadTLV der pos = .ok none ∨
      ∃ before header after tag len, der = before ++ header ++ after ∧ before.length = pos ∧
        Header tag len header ∧ len < 2 ^ 31 ∧
        ((pos + header.length : Nat) : Int) + len ≤ asInt der.length ∧
        derReadTLV der pos = .ok (some ⟨tag.toNat, (pos + header.length : Nat), len,
          (pos + header.length : Nat) + len⟩) := by
  by_cases h : asInt der.length ≤ pos + 1
  · exact .inl (derReadTLV_short hpos h)
  · have hsize := asInt_le der.length
    obtain ⟨tag, len0, rest, hdrop⟩ : ∃ tag len0 rest, der.drop pos = tag :: len0 :: rest := by
      match hd : der.drop pos with
      | [] =>
        have hl := congrArg List.length hd
        rw [List.length_drop, List.length_nil] at hl
        omega
      | [_] =>
        have hl := congrArg List.length hd
        rw [List.length_drop, List.length_singleton] at hl
        omega
      | tag :: len0 :: rest => exact ⟨tag, len0, rest, rfl⟩
    have hder : der = der.take pos ++ tag :: len0 :: rest := by
      rw [← hdrop, List.take_append_drop]
    have hbefore : (der.take pos).length = pos := List.length_take_of_le (by omega)
    have hread := derReadTLV_eq hder (by rw [hbefore]; omega)
    rw [hbefore, tlvAt] at hread
    have hlen0 := len0.toNat_lt
    by_cases hshort : len0.toNat < 0x80
    · rw [if_pos hshort] at hread
      by_cases hfit : ((pos + 2 : Nat) : Int) + len0.toNat ≤ asInt der.length
      · refine .inr ⟨der.take pos, [tag, len0], rest, tag, len0.toNat, ?_, hbefore, ?_, by omega,
          hfit, ?_⟩
        · rw [List.append_assoc]
          exact hder
        · exact .inl ⟨hshort, congrArg (fun b => [tag, b]) UInt8.ofNat_toNat.symm⟩
        · rw [hread, fit_ok hfit]
          rfl
      · left
        rw [hread, fit, if_pos (by omega)]
    · rw [if_neg hshort] at hread
      dsimp only at hread
      by_cases hbad : len0.toNat % 0x80 = 0 ∨ 4 < len0.toNat % 0x80 ∨
          asInt der.length - (pos + 2) < (len0.toNat % 0x80 : Nat)
      · rw [if_pos hbad] at hread
        exact .inl hread
      · rw [if_neg hbad] at hread
        have hk : (rest.take (len0.toNat % 0x80)).length = len0.toNat % 0x80 := by
          apply List.length_take_of_le
          have htotal := congrArg List.length hder
          rw [List.length_append, hbefore, List.length_cons, List.length_cons] at htotal
          omega
        have hbyte : len0 = (0x80 + (rest.take (len0.toNat % 0x80)).length).toUInt8 := by
          rw [hk]
          have hvalue : 0x80 + len0.toNat % 0x80 = len0.toNat := by omega
          rw [hvalue]
          exact UInt8.ofNat_toNat.symm
        have hsize : (tag :: len0 :: rest.take (len0.toNat % 0x80)).length =
            2 + len0.toNat % 0x80 := by
          rw [List.length_cons, List.length_cons, hk]
          omega
        generalize hv : ofBytes (rest.take (len0.toNat % 0x80)) = v at hread
        have hvlt : v < 2 ^ 32 := by
          rw [← hv]
          apply (ofBytes_lt _).trans_le
          apply Nat.pow_le_pow_right (by decide)
          omega
        by_cases hfit : v < 2 ^ 31 ∧
            ((pos + 2 + len0.toNat % 0x80 : Nat) : Int) + v ≤ asInt der.length
        · rw [asInt_of_lt hfit.1, fit_ok hfit.2] at hread
          refine .inr ⟨der.take pos, tag :: len0 :: rest.take (len0.toNat % 0x80),
            rest.drop (len0.toNat % 0x80), tag, v, ?_, hbefore, ?_, hfit.1, ?_, ?_⟩
          · rw [List.append_assoc, List.cons_append, List.cons_append, List.take_append_drop]
            exact hder
          · refine .inr ⟨rest.take (len0.toNat % 0x80), ?_, by omega, hv, ?_⟩
            · intro hnil
              rw [hnil, List.length_nil] at hk
              omega
            · rw [← hbyte]
          · rw [hsize, ← Nat.add_assoc]
            exact hfit.2
          · rw [hsize, ← Nat.add_assoc]
            exact hread
        · left
          rw [hread, fit, if_pos]
          by_cases hsmall : v < 2 ^ 31
          · rw [asInt_of_lt hsmall]
            omega
          · left
            rw [asInt, Nat.mod_eq_of_lt hvlt, if_neg hsmall]
            omega

end Headers

section Arcs
variable {der : QByteArray}

def arcsOf : QByteArray → Nat → QString → QString
  | [], _, out => out
  | b :: bytes, arc, out =>
    let arc : Nat := arc * 2 ^ 7 % 2 ^ 64 + b.toNat % 0x80
    if b.toNat < 0x80 then arcsOf bytes 0 (out ++ utf16 "." ++ QString.number arc)
    else arcsOf bytes arc out

theorem decodeArcs_eq {bytes before after : QByteArray} {pos i : Int}
    (hder : der = before ++ bytes ++ after) (hi : pos + i = before.length)
    (hlen : before.length + bytes.length < 2 ^ 31) (arc : Nat) (out : QString) :
    decodeArcs der pos bytes.length i arc out = .ok (arcsOf bytes arc out) := by
  induction bytes generalizing before i arc out with
  | nil => rfl
  | cons b bytes ih =>
    rw [List.length_cons] at hlen ⊢
    have hcons : der = before ++ b :: (bytes ++ after) := by
      rw [hder, List.append_assoc]
      rfl
    have hrest : der = (before ++ [b]) ++ bytes ++ after := by
      rw [hder, List.append_assoc, List.append_assoc, List.append_assoc]
      rfl
    have hafter : pos + (i + 1) = ((before ++ [b]).length : Int) := by
      rw [List.length_append, List.length_singleton, ← add_assoc, hi, Nat.cast_succ]
    have hroom : (before ++ [b]).length + bytes.length < 2 ^ 31 := by
      rw [List.length_append, List.length_singleton]
      omega
    rw [decodeArcs, hi, checked_ok (by omega) (by omega), ok_bind, byteAt_at hcons rfl, ok_bind,
      arcsOf, Int.toNat_natCast]
    dsimp only
    by_cases hlast : b.toNat < 0x80
    · rw [if_pos (by omega), if_pos hlast, ih hrest hafter hroom]
    · rw [if_neg (by omega), if_neg hlast, ih hrest hafter hroom]

theorem derDecodeOid_eq {b : UInt8} {bytes before after : QByteArray}
    (hder : der = before ++ b :: bytes ++ after)
    (hlen : before.length + (b :: bytes).length < 2 ^ 31) :
    derDecodeOid der before.length (b :: bytes).length =
      .ok (arcsOf bytes 0 (QString.number (b.toNat / 40 : Nat) ++ utf16 "." ++
        QString.number (b.toNat % 40 : Nat))) := by
  have htotal := congrArg List.length hder
  rw [List.length_append, List.length_append] at htotal
  rw [List.length_cons] at hlen htotal ⊢
  have hcons : der = before ++ b :: (bytes ++ after) := by
    rw [hder, List.append_assoc]
    rfl
  have hrest : der = (before ++ [b]) ++ bytes ++ after := by
    rw [hder, List.append_assoc, List.append_assoc, List.append_assoc]
    rfl
  have hafter : (before.length : Int) + 1 = ((before ++ [b]).length : Int) := by
    rw [List.length_append, List.length_singleton, Nat.cast_succ]
  have hroom : (before ++ [b]).length + bytes.length < 2 ^ 31 := by
    rw [List.length_append, List.length_singleton]
    omega
  rw [derDecodeOid, if_neg (by omega), byteAt_at hcons rfl, ok_bind, Int.toNat_natCast,
    Nat.add_sub_cancel, decodeArcs_eq hrest hafter hroom]
  rfl

theorem derDecodeOid_total {pos len : Nat} (hin : pos + len ≤ der.length)
    (hlen : pos + len < 2 ^ 31) : ∃ oid, derDecodeOid der pos len = .ok oid := by
  cases hbytes : (der.drop pos).take len with
  | nil =>
    have hzero : len = 0 := by
      have hl := congrArg List.length hbytes
      rw [List.length_take, List.length_drop, List.length_nil] at hl
      omega
    refine ⟨[], ?_⟩
    rw [derDecodeOid, if_pos (by omega)]
    rfl
  | cons b bytes =>
    have hl : (b :: bytes).length = len := by
      rw [← hbytes, List.length_take, List.length_drop]
      omega
    have hbefore : (der.take pos).length = pos := List.length_take_of_le (by omega)
    have hder : der = der.take pos ++ b :: bytes ++ (der.drop pos).drop len := by
      rw [← hbytes, List.append_assoc, List.take_append_drop, List.take_append_drop]
    have hread := derDecodeOid_eq hder (by rw [hbefore, hl]; exact hlen)
    rw [hbefore, hl] at hread
    exact ⟨_, hread⟩

end Arcs

structure Oid where
  first : Nat
  second : Nat
  rest : List Nat
  first_le : first ≤ 2
  second_lt : first < 2 → second < 40
  arcs_lt : ∀ arc ∈ rest, arc < 2 ^ 64

def continued (v : Nat) : QByteArray :=
  (Nat.digits 128 v).reverse.map (fun d => (0x80 + d).toUInt8)

def subidentifier (v : Nat) : QByteArray := continued (v / 128) ++ [(v % 128).toUInt8]

def Oid.content (o : Oid) : QByteArray :=
  subidentifier (40 * o.first + o.second) ++ o.rest.flatMap subidentifier

def Oid.dotted (o : Oid) : QString :=
  QString.number o.first ++ utf16 "." ++ QString.number o.second ++
    o.rest.flatMap (fun arc : Nat => utf16 "." ++ QString.number arc)

theorem continued_step (h : v ≠ 0) :
    continued v = continued (v / 128) ++ [(0x80 + v % 128).toUInt8] := by
  rw [continued, Nat.digits_eq_cons_digits_div (by decide) h, List.reverse_cons, List.map_append]
  rfl

theorem arcsOf_continued (h : v < 2 ^ 64) (bytes : QByteArray) (out : QString) :
    arcsOf (continued v ++ bytes) 0 out = arcsOf bytes v out := by
  induction v using Nat.strongRecOn generalizing bytes with
  | _ v ih =>
    by_cases hv : v = 0
    · rw [hv]
      rfl
    · have hbyte : (0x80 + v % 128).toUInt8.toNat = 0x80 + v % 128 :=
        Nat.mod_eq_of_lt (by omega)
      have harc : v / 128 * 2 ^ 7 % 2 ^ 64 + (0x80 + v % 128) % 0x80 = v := by omega
      rw [continued_step hv, List.append_assoc, ih (v / 128) (by omega) (by omega),
        List.singleton_append, arcsOf, hbyte, harc, if_neg (by omega)]

theorem arcsOf_subidentifier (h : v < 2 ^ 64) (bytes : QByteArray) (out : QString) :
    arcsOf (subidentifier v ++ bytes) 0 out =
      arcsOf bytes 0 (out ++ utf16 "." ++ QString.number v) := by
  have hbyte : (v % 128).toUInt8.toNat = v % 128 := Nat.mod_eq_of_lt (by omega)
  have harc : v / 128 * 2 ^ 7 % 2 ^ 64 + v % 128 % 0x80 = v := by omega
  rw [subidentifier, List.append_assoc, arcsOf_continued (by omega), List.singleton_append, arcsOf,
    hbyte, harc, if_pos (by omega)]

theorem arcsOf_arcs {arcs : List Nat} (h : ∀ arc ∈ arcs, arc < 2 ^ 64) (out : QString) :
    arcsOf (arcs.flatMap subidentifier) 0 out =
      out ++ arcs.flatMap (fun arc : Nat => utf16 "." ++ QString.number arc) := by
  induction arcs generalizing out with
  | nil => exact (List.append_nil out).symm
  | cons arc arcs ih =>
    rw [List.flatMap_cons, arcsOf_subidentifier (h arc List.mem_cons_self),
      ih (fun a ha => h a (List.mem_cons_of_mem _ ha)), List.flatMap_cons, List.append_assoc,
      List.append_assoc, List.append_assoc]

theorem arcsOf_head (bytes : QByteArray) (arc : Nat) (c : UInt16) (out : QString) :
    (arcsOf bytes arc (c :: out)).head? = some c := by
  induction bytes generalizing arc out with
  | nil => rfl
  | cons b bytes ih =>
    rw [arcsOf]
    split
    · exact ih _ _
    · exact ih _ _

structure Certificate where
  outerHeader : QByteArray
  tbsHeader : QByteArray
  tbs : QByteArray
  algorithmHeader : QByteArray
  oidHeader : QByteArray
  oid : Oid
  parameters : QByteArray
  signature : QByteArray
  oid_header : Header 0x06 oid.content.length oidHeader
  algorithm_header : Header 0x30 (oidHeader ++ oid.content ++ parameters).length algorithmHeader
  tbs_header : Header 0x30 tbs.length tbsHeader
  outer_header : Header 0x30 (tbsHeader ++ tbs ++ algorithmHeader ++
    (oidHeader ++ oid.content ++ parameters) ++ signature).length outerHeader
  length_lt : (tbsHeader ++ tbs ++ algorithmHeader ++
    (oidHeader ++ oid.content ++ parameters) ++ signature).length < 2 ^ 31

def Certificate.bytes (c : Certificate) : QByteArray :=
  c.outerHeader ++ (c.tbsHeader ++ c.tbs ++ c.algorithmHeader ++
    (c.oidHeader ++ c.oid.content ++ c.parameters) ++ c.signature)

theorem Header.length_le (h : Header tag len header) : 2 ≤ header.length ∧ header.length ≤ 6 := by
  rcases h with ⟨_, rfl⟩ | ⟨bytes, _, hfour, _, rfl⟩
  · exact ⟨le_refl 2, Nat.le_add_left 2 4⟩
  · rw [List.length_cons, List.length_cons]
    omega

theorem expectTLV_header {der before header after : QByteArray} {tag : UInt8}
    (hder : der = before ++ header ++ after) (hheader : Header tag len header)
    (hlen : len < 2 ^ 31)
    (hfit : ((before.length + header.length : Nat) : Int) + len ≤ asInt der.length) :
    expectTLV der before.length tag.toNat =
      .ok (some ⟨tag.toNat, (before ++ header).length, len,
        ((before ++ header).length + len : Nat)⟩) := by
  have hread := derReadTLV_header hder hheader hlen hfit
  rw [← List.length_append] at hread
  rw [expectTLV, hread, ok_bind, Option.filter_some, if_pos (beq_self_eq_true _)]
  rfl

theorem certificate_read (c : Certificate) (hsize : c.bytes.length < 2 ^ 31) :
    signatureAlgorithmOid c.bytes = derDecodeOid c.bytes
      (c.outerHeader ++ c.tbsHeader ++ c.tbs ++ c.algorithmHeader ++ c.oidHeader).length
      c.oid.content.length := by
  have houter : c.bytes = [] ++ c.outerHeader ++ (c.tbsHeader ++ c.tbs ++ c.algorithmHeader ++
      (c.oidHeader ++ c.oid.content ++ c.parameters) ++ c.signature) := rfl
  have htbs : c.bytes = c.outerHeader ++ c.tbsHeader ++ (c.tbs ++ c.algorithmHeader ++
      (c.oidHeader ++ c.oid.content ++ c.parameters) ++ c.signature) := by
    simp only [Certificate.bytes, List.append_assoc]
  have halgorithm : c.bytes = (c.outerHeader ++ c.tbsHeader ++ c.tbs) ++ c.algorithmHeader ++
      (c.oidHeader ++ c.oid.content ++ c.parameters ++ c.signature) := by
    simp only [Certificate.bytes, List.append_assoc]
  have hoid : c.bytes = (c.outerHeader ++ c.tbsHeader ++ c.tbs ++ c.algorithmHeader) ++
      c.oidHeader ++ (c.oid.content ++ c.parameters ++ c.signature) := by
    simp only [Certificate.bytes, List.append_assoc]
  have htotal := congrArg List.length houter
  have hlength := c.length_lt
  simp only [List.length_append, List.length_nil, Nat.zero_add] at htotal hlength
  have hint := asInt_of_lt hsize
  have h0 := expectTLV_header houter c.outer_header c.length_lt
    (by simp only [List.length_append, List.length_nil]; omega)
  have h1 := expectTLV_header htbs c.tbs_header (by omega) (by omega)
  have h2 := expectTLV_header halgorithm c.algorithm_header
    (by simp only [List.length_append]; omega) (by simp only [List.length_append]; omega)
  have h3 := expectTLV_header hoid c.oid_header (by omega)
    (by simp only [List.length_append]; omega)
  have htbsEnd : (c.outerHeader ++ c.tbsHeader).length + c.tbs.length =
      (c.outerHeader ++ c.tbsHeader ++ c.tbs).length := List.length_append.symm
  rw [htbsEnd] at h1
  rw [signatureAlgorithmOid]
  erw [h0]
  rw [ok_bind]
  dsimp only
  erw [h1]
  rw [ok_bind]
  dsimp only
  rw [if_neg (by simp only [List.length_append, List.nil_append]; omega)]
  erw [h2]
  rw [ok_bind]
  dsimp only
  rw [if_neg (by simp only [List.length_append, List.nil_append]; omega)]
  erw [h3]
  rw [ok_bind]
  dsimp only
  rw [if_neg (by simp only [List.length_append]; omega)]

theorem subidentifier_small (h : v < 128) : subidentifier v = [v.toUInt8] := by
  rw [subidentifier, Nat.div_eq_of_lt h, Nat.mod_eq_of_lt h]
  rfl

theorem subidentifier_large (h : 120 ≤ v) :
    ∃ b bytes, subidentifier v = b :: bytes ∧ 120 ≤ b.toNat := by
  by_cases hv : v < 128
  · have hbyte : v.toUInt8.toNat = v := Nat.mod_eq_of_lt (by omega)
    exact ⟨v.toUInt8, [], subidentifier_small hv, by rw [hbyte]; exact h⟩
  · cases hc : continued (v / 128) with
    | nil =>
      rw [continued_step (by omega)] at hc
      exact absurd hc (List.append_ne_nil_of_right_ne_nil _ (List.cons_ne_nil _ _))
    | cons b bytes =>
      have hb : b ∈ continued (v / 128) := by
        rw [hc]
        exact List.mem_cons_self
      obtain ⟨d, hd, rfl⟩ := List.mem_map.1 hb
      have hlt : d < 128 := Nat.digits_lt_base (by decide) (List.mem_reverse.1 hd)
      have hbyte : (0x80 + d).toUInt8.toNat = 0x80 + d := Nat.mod_eq_of_lt (by omega)
      exact ⟨_, _, by rw [subidentifier, hc]; rfl, by omega⟩

theorem content_read (c : Certificate) (hsize : c.bytes.length < 2 ^ 31) {b : UInt8}
    {bytes : QByteArray} (hcontent : c.oid.content = b :: bytes) :
    signatureAlgorithmOid c.bytes =
      .ok (arcsOf bytes 0 (QString.number (b.toNat / 40 : Nat) ++ utf16 "." ++
        QString.number (b.toNat % 40 : Nat))) := by
  have hder : c.bytes = (c.outerHeader ++ c.tbsHeader ++ c.tbs ++ c.algorithmHeader ++
      c.oidHeader) ++ b :: bytes ++ (c.parameters ++ c.signature) := by
    rw [← hcontent]
    simp only [Certificate.bytes, List.append_assoc]
  have htotal := congrArg List.length hder
  rw [List.length_append, List.length_append] at htotal
  rw [certificate_read c hsize, hcontent]
  exact derDecodeOid_eq hder (by omega)

theorem number_first (h : 120 ≤ b) (hb : b < 256) :
    ∃ d, QString.number (b / 40 : Nat) = [d] ∧ d ≠ 0x32 := by
  have hcases : b / 40 = 3 ∨ b / 40 = 4 ∨ b / 40 = 5 ∨ b / 40 = 6 := by omega
  rcases hcases with h | h | h | h
  · exact ⟨0x33, by rw [h]; rfl, by decide⟩
  · exact ⟨0x34, by rw [h]; rfl, by decide⟩
  · exact ⟨0x35, by rw [h]; rfl, by decide⟩
  · exact ⟨0x36, by rw [h]; rfl, by decide⟩

theorem dotted_ne_nil (o : Oid) : o.dotted ≠ [] := by
  rw [Oid.dotted, List.append_assoc, List.append_assoc]
  apply List.append_ne_nil_of_right_ne_nil
  exact List.append_ne_nil_of_left_ne_nil (List.cons_ne_nil _ _) _

/-- The identifier is read exactly when its first two arcs and the size fit. -/
theorem oid_read_iff (c : Certificate) :
    signatureAlgorithmOid c.bytes = .ok c.oid.dotted ↔
      (c.oid.first = 2 → c.oid.second < 40) ∧ c.bytes.length < 2 ^ 31 := by
  have hfirst := c.oid.first_le
  constructor
  · intro hread
    have hsize : c.bytes.length < 2 ^ 31 := by
      by_contra hbig
      have hlength := c.length_lt
      have houter := c.outer_header.length_le
      have htotal : c.bytes.length = c.outerHeader.length + _ := List.length_append
      have hneg : asInt c.bytes.length ≤ ((0 : Nat) : Int) + 1 := by
        rw [asInt, if_neg (by omega)]
        omega
      have hnone := derReadTLV_short (by decide : 0 + 1 < 2 ^ 31) hneg
      rw [signatureAlgorithmOid, expectTLV] at hread
      erw [hnone] at hread
      exact dotted_ne_nil _ (Except.ok.inj hread).symm
    refine ⟨?_, hsize⟩
    intro htwo
    by_contra hsecond
    obtain ⟨b, bytes, hb, hlarge⟩ :=
      @subidentifier_large (40 * c.oid.first + c.oid.second) (by omega)
    obtain ⟨d, hd, hne⟩ := number_first hlarge b.toNat_lt
    have hcontent : c.oid.content = b :: (bytes ++ c.oid.rest.flatMap subidentifier) := by
      rw [Oid.content, hb]
      rfl
    rw [content_read c hsize hcontent, hd, Except.ok.injEq] at hread
    have hhead := arcsOf_head (bytes ++ c.oid.rest.flatMap subidentifier) 0 d
      (utf16 "." ++ QString.number (b.toNat % 40 : Nat))
    have htext : ([d] ++ utf16 "." ++ QString.number (b.toNat % 40 : Nat)) =
        d :: (utf16 "." ++ QString.number (b.toNat % 40 : Nat)) := rfl
    rw [← htext, hread, Oid.dotted, htwo] at hhead
    exact hne (Option.some.inj hhead).symm
  · rintro ⟨hsecond, hsize⟩
    have hlt : c.oid.second < 40 := by
      by_cases h : c.oid.first = 2
      · exact hsecond h
      · exact c.oid.second_lt (by omega)
    have hbyte : (40 * c.oid.first + c.oid.second).toUInt8.toNat =
        40 * c.oid.first + c.oid.second := Nat.mod_eq_of_lt (by omega)
    have hcontent : c.oid.content =
        (40 * c.oid.first + c.oid.second).toUInt8 :: c.oid.rest.flatMap subidentifier := by
      rw [Oid.content, subidentifier_small (by omega)]
      rfl
    have hquot : (40 * c.oid.first + c.oid.second) / 40 = c.oid.first := by omega
    have hrem : (40 * c.oid.first + c.oid.second) % 40 = c.oid.second := by omega
    rw [content_read c hsize hcontent, hbyte, hquot, hrem, arcsOf_arcs c.oid.arcs_lt]
    rfl

/-- An input of the largest `int` ending behind a `tbsCertificate` or an empty algorithm. -/
def EndsAtLimit (der : QByteArray) : Prop :=
  asInt der.length = 2 ^ 31 - 1 ∧ ∃ outerHeader tbsHeader tbs tail rest,
    der = outerHeader ++ tbsHeader ++ tbs ++ tail ++ rest ∧
      Header 0x30 (tbsHeader ++ tbs ++ tail).length outerHeader ∧
      Header 0x30 tbs.length tbsHeader ∧ (tail = [] ∨ Header 0x30 0 tail) ∧
      (outerHeader ++ tbsHeader ++ tbs ++ tail).length = 2 ^ 31 - 1

section Safety
variable {der : QByteArray}

theorem take_header {pos : Nat} {before header after : QByteArray}
    (hder : der = before ++ header ++ after) (hpos : before.length = pos) :
    der.take pos = before ∧ der.take (pos + header.length) = before ++ header := by
  subst hpos
  constructor
  · rw [hder, List.append_assoc, List.take_left' rfl]
  · rw [hder, List.take_left' List.length_append]

theorem expectTLV_cases (der : QByteArray) {pos : Nat} (tag : UInt8) (hpos : pos + 1 < 2 ^ 31) :
    expectTLV der pos tag.toNat = .ok none ∨
      ∃ header len, der.take (pos + header.length) = der.take pos ++ header ∧
        Header tag len header ∧ len < 2 ^ 31 ∧
        ((pos + header.length : Nat) : Int) + len ≤ asInt der.length ∧
        expectTLV der pos tag.toNat = .ok (some ⟨tag.toNat, (pos + header.length : Nat), len,
          (pos + header.length + len : Nat)⟩) := by
  rcases derReadTLV_cases der hpos with hnone | ⟨before, header, after, found, len, hder,
    hbefore, hheader, hlen, hfit, hread⟩
  · left
    rw [expectTLV, hnone]
    rfl
  · by_cases htag : found = tag
    · right
      subst htag
      obtain ⟨htake, hnext⟩ := take_header hder hbefore
      refine ⟨header, len, by rw [htake, hnext], hheader, hlen, hfit, ?_⟩
      rw [expectTLV, hread, ok_bind, Option.filter_some, if_pos (beq_self_eq_true _)]
      rfl
    · left
      have hne : ((found.toNat : Int) == (tag.toNat : Int)) = false := by
        rw [beq_eq_false_iff_ne]
        intro he
        exact htag (UInt8.toNat_inj.1 (Int.ofNat.inj he))
      rw [expectTLV, hread, ok_bind, Option.filter_some, if_neg (by rw [hne]; decide)]
      rfl

theorem expectTLV_limit {pos : Nat} (h : pos + 1 = 2 ^ 31) (tag : Int) :
    expectTLV der pos tag = .error .overflow := by
  rw [expectTLV, derReadTLV_full h]
  rfl

theorem read_or_limit (der : QByteArray) :
    (∃ oid, signatureAlgorithmOid der = .ok oid) ∨
      EndsAtLimit der ∧ signatureAlgorithmOid der = .error .overflow := by
  have hn := asInt_lt der.length
  have hsize := asInt_le der.length
  rw [signatureAlgorithmOid]
  rcases expectTLV_cases der 0x30 (by decide : 0 + 1 < 2 ^ 31) with
    h0 | ⟨outerHeader, outer, htake0, houter, houterlt, hfit0, h0⟩
  · left
    erw [h0]
    exact ⟨[], rfl⟩
  have hshort := houter.length_le
  erw [h0]
  rw [ok_bind]
  dsimp only
  rcases expectTLV_cases der 0x30
    (by omega : 0 + outerHeader.length + 1 < 2 ^ 31) with
      h1 | ⟨tbsHeader, tbs, htake1, htbs, htbslt, hfit1, h1⟩
  · left
    erw [h1]
    exact ⟨[], rfl⟩
  erw [h1]
  rw [ok_bind]
  dsimp only
  by_cases hover1 : ((0 + outerHeader.length + tbsHeader.length + tbs : Nat) : Int) >
      (0 + outerHeader.length + outer : Nat)
  · left
    erw [if_pos hover1]
    exact ⟨[], rfl⟩
  erw [if_neg hover1]
  have hbytes : (der.take (0 + outerHeader.length + tbsHeader.length + tbs)) =
      outerHeader ++ tbsHeader ++
        (der.drop (0 + outerHeader.length + tbsHeader.length)).take tbs := by
    rw [List.take_add, htake1, htake0]
    rfl
  have htbsLength : ((der.drop (0 + outerHeader.length + tbsHeader.length)).take tbs).length =
      tbs := by
    rw [List.length_take, List.length_drop]
    omega
  by_cases hlimit : 0 + outerHeader.length + tbsHeader.length + tbs + 1 < 2 ^ 31
  · rcases expectTLV_cases der 0x30 hlimit with
      h2 | ⟨header, len, htake2, hheader, hlen, hfit2, h2⟩
    · left
      erw [h2]
      exact ⟨[], rfl⟩
    erw [h2]
    rw [ok_bind]
    dsimp only
    by_cases hover2 :
        ((0 + outerHeader.length + tbsHeader.length + tbs + header.length + len : Nat) : Int) >
          (0 + outerHeader.length + outer : Nat)
    · left
      erw [if_pos hover2]
      exact ⟨[], rfl⟩
    erw [if_neg hover2]
    by_cases hlimit' : 0 + outerHeader.length + tbsHeader.length + tbs + header.length + 1 < 2 ^ 31
    · left
      rcases expectTLV_cases der 0x06 hlimit' with
        h3 | ⟨oidHeader, oid, _, _, _, hfit3, h3⟩
      · erw [h3]
        exact ⟨[], rfl⟩
      erw [h3]
      rw [ok_bind]
      dsimp only
      split
      · exact ⟨[], rfl⟩
      · exact derDecodeOid_total (by omega) (by omega)
    · right
      refine ⟨⟨by omega, outerHeader, tbsHeader, _, header, der.drop (0 + outerHeader.length +
        tbsHeader.length + tbs + header.length), ?_, ?_, htbsLength.symm ▸ htbs, .inr ?_, ?_⟩, ?_⟩
      · rw [← hbytes, ← htake2, List.take_append_drop]
      · have hsame : tbsHeader.length + tbs + header.length = outer := by omega
        rw [List.length_append, List.length_append, htbsLength, hsame]
        exact houter
      · have hzero : len = 0 := by omega
        exact hzero ▸ hheader
      · rw [List.length_append, List.length_append, List.length_append, htbsLength]
        omega
      · erw [expectTLV_limit (by omega)]
        rfl
  · right
    refine ⟨⟨by omega, outerHeader, tbsHeader, _, [], der.drop (0 + outerHeader.length +
      tbsHeader.length + tbs), ?_, ?_, htbsLength.symm ▸ htbs, .inl rfl, ?_⟩, ?_⟩
    · rw [List.append_nil, ← hbytes, List.take_append_drop]
    · have hsame : tbsHeader.length + tbs = outer := by omega
      rw [List.append_nil, List.length_append, htbsLength, hsame]
      exact houter
    · rw [List.append_nil, List.length_append, List.length_append, htbsLength]
      omega
    · erw [expectTLV_limit (by omega)]
      rfl

theorem limit_fault (h : EndsAtLimit der) : signatureAlgorithmOid der = .error .overflow := by
  obtain ⟨hn, outerHeader, tbsHeader, tbs, tail, rest, hder, houter, htbs, htail, hlength⟩ := h
  have hfirst : der = [] ++ outerHeader ++ (tbsHeader ++ tbs ++ tail ++ rest) := by
    rw [hder]
    simp only [List.nil_append, List.append_assoc]
  have hsecond : der = outerHeader ++ tbsHeader ++ (tbs ++ tail ++ rest) := by
    rw [hder]
    simp only [List.append_assoc]
  simp only [List.length_append] at hlength
  have h0 := expectTLV_header hfirst houter
    (by simp only [List.length_append]; omega)
    (by simp only [List.length_append, List.length_nil]; omega)
  have h1 := expectTLV_header hsecond htbs (by omega) (by omega)
  rw [signatureAlgorithmOid]
  erw [h0]
  rw [ok_bind]
  dsimp only
  erw [h1]
  rw [ok_bind]
  dsimp only
  rw [if_neg (by simp only [List.length_append, List.nil_append]; omega)]
  rcases htail with rfl | htail
  · rw [List.length_nil] at hlength
    erw [expectTLV_limit (by rw [List.length_append]; omega)]
    rfl
  · have hthird : der = (outerHeader ++ tbsHeader ++ tbs) ++ tail ++ rest := hder
    have h2 := expectTLV_header hthird htail (by decide)
      (by simp only [List.length_append]; omega)
    rw [← List.length_append]
    erw [h2]
    rw [ok_bind]
    dsimp only
    rw [if_neg (by simp only [List.length_append, List.nil_append]; omega)]
    erw [expectTLV_limit (by simp only [List.length_append]; omega)]
    rfl

theorem read_safely_iff (der : QByteArray) :
    (∃ oid, signatureAlgorithmOid der = .ok oid) ↔ ¬ EndsAtLimit der := by
  constructor
  · rintro ⟨oid, hoid⟩ hlimit
    rw [limit_fault hlimit] at hoid
    cases hoid
  · intro h
    exact (read_or_limit der).resolve_right (fun hlimit => h hlimit.1)

end Safety

/-- No reader leaves the input exactly when it does not end at the limit. -/
theorem signature_algorithm_read (der : QByteArray) (c : Certificate) :
    ((∃ oid, signatureAlgorithmOid der = .ok oid) ↔ ¬ EndsAtLimit der) ∧
      (signatureAlgorithmOid c.bytes = .ok c.oid.dotted ↔
        (c.oid.first = 2 → c.oid.second < 40) ∧ c.bytes.length < 2 ^ 31) :=
  ⟨read_safely_iff der, oid_read_iff c⟩

def jointOid : Oid where
  first := 2
  second := 100
  rest := [3]
  first_le := by decide
  second_lt := by decide
  arcs_lt := by decide

def jointCertificate : Certificate where
  outerHeader := [0x30, 9]
  tbsHeader := [0x30, 0]
  tbs := []
  algorithmHeader := [0x30, 5]
  oidHeader := [0x06, 3]
  oid := jointOid
  parameters := []
  signature := []
  oid_header := .inl ⟨by decide, by decide⟩
  algorithm_header := .inl ⟨by decide, by decide⟩
  tbs_header := .inl ⟨by decide, by decide⟩
  outer_header := .inl ⟨by decide, by decide⟩
  length_lt := by decide

theorem jointOid_misread :
    signatureAlgorithmOid jointCertificate.bytes = .ok (utf16 "3.9.52.3") ∧
      ¬ ∀ c : Certificate, signatureAlgorithmOid c.bytes = .ok c.oid.dotted := by
  have hcontent : jointCertificate.oid.content = [0x81, 0x34, 0x03] := by decide
  constructor
  · rw [content_read jointCertificate (by decide) hcontent]
    exact congrArg Except.ok (by decide)
  · intro h
    exact absurd (((oid_read_iff jointCertificate).1 (h _)).1 rfl) (by decide)

end Nullock.TlsInspect

import Nullock.InjectedParts

namespace Nullock.SessionRules
open ScopeLogic HttpLogic SessionRulesLogic Proxy

def FieldWritten (L : TextLibrary) (name : QString) (before after : List Header) : Prop :=
  (∃ initial f value later, before = initial ++ f :: later ∧
    after = initial ++ (f.1, value) :: later ∧ L.caseFold f.1 = L.caseFold name) ∨
  ∃ value, after = before ++ [(name, value)]

section Fields
variable {L : TextLibrary}

theorem FieldWritten.cons (h : FieldWritten L name before after) (f : Header) :
    FieldWritten L name (f :: before) (f :: after) := by
  rcases h with ⟨initial, g, value, later, rfl, rfl, hname⟩ | ⟨value, rfl⟩
  · exact .inl ⟨f :: initial, g, value, later, rfl, rfl, hname⟩
  · exact .inr ⟨value, rfl⟩

end Fields

section Lines

end Lines

section Injection
variable {L : TextLibrary} {E : RegexEngine}

end Injection

section Samples

def hexValue (c : UInt8) : Nat :=
  if 0x30 ≤ c ∧ c ≤ 0x39 then c.toNat - 0x30
  else if 0x41 ≤ c ∧ c ≤ 0x46 then c.toNat - 0x41 + 10
  else if 0x61 ≤ c ∧ c ≤ 0x66 then c.toNat - 0x61 + 10
  else 0

/-- The bytes behind an encoding; `skip` characters are still passed over. -/
def percentDecode : Nat → QByteArray → QByteArray
  | _, [] => []
  | skip + 1, _ :: s => percentDecode skip s
  | 0, c :: s =>
    if c = 0x25 ∧ 2 ≤ s.length then
      (16 * hexValue (s.getD 0 0) + hexValue (s.getD 1 0)).toUInt8 :: percentDecode 2 s
    else c :: percentDecode 0 s

theorem hexValue_digit (h : n < 16) :
    ∃ d, (hexDigits.drop n).take 1 = [d] ∧ hexValue d = n ∧ isUnreserved d = true := by
  have hall : ∀ n ∈ List.range 16, ∃ d ∈ hexDigits,
      (hexDigits.drop n).take 1 = [d] ∧ hexValue d = n ∧ isUnreserved d = true :=
    forall_mem_of_all (by decide)
  obtain ⟨d, -, hd⟩ := hall n (List.mem_range.2 h)
  exact ⟨d, hd⟩

theorem mem_percentByte (h : c ∈ percentByte b) : isUnreserved c = true ∨ c = 0x25 := by
  have hb := b.toNat_lt
  obtain ⟨high, hhigh, -, hhighPlain⟩ := hexValue_digit (n := b.toNat / 16) (by omega)
  obtain ⟨low, hlow, -, hlowPlain⟩ := hexValue_digit (n := b.toNat % 16) (by omega)
  rw [percentByte] at h
  split at h
  · rename_i hplain
    rw [List.mem_singleton.1 h]
    exact .inl hplain
  · rw [hhigh, hlow] at h
    rcases List.mem_append.1 h with h | h
    · rcases List.mem_append.1 h with h | h
      · exact .inr (List.mem_singleton.1 h)
      · rw [List.mem_singleton.1 h]
        exact .inl hhighPlain
    · rw [List.mem_singleton.1 h]
      exact .inl hlowPlain

theorem percentDecode_byte (b : UInt8) (s : QByteArray) :
    percentDecode 0 (percentByte b ++ s) = b :: percentDecode 0 s := by
  have hb := b.toNat_lt
  obtain ⟨high, hhigh, hhighValue, -⟩ := hexValue_digit (n := b.toNat / 16) (by omega)
  obtain ⟨low, hlow, hlowValue, -⟩ := hexValue_digit (n := b.toNat % 16) (by omega)
  rw [percentByte]
  split
  · rename_i hplain
    have hpercent : ¬ (b = 0x25 ∧ 2 ≤ s.length) := by
      rintro ⟨rfl, -⟩
      cases hplain
    rw [List.singleton_append, percentDecode, if_neg hpercent]
  · have hvalue : (16 * hexValue high + hexValue low).toUInt8 = b := by
      rw [hhighValue, hlowValue, Nat.div_add_mod]
      exact UInt8.ofNat_toNat
    have hdecoded : percentDecode 0 (0x25 :: high :: low :: s) =
        (16 * hexValue high + hexValue low).toUInt8 :: percentDecode 0 s := by
      rw [percentDecode, if_pos ⟨rfl, Nat.le_add_left 2 s.length⟩]
      rfl
    rw [hhigh, hlow, ← hvalue]
    exact hdecoded

theorem percentDecode_flatMap (bytes : QByteArray) :
    percentDecode 0 (bytes.flatMap percentByte) = bytes := by
  induction bytes with
  | nil => rfl
  | cons b bytes ih => rw [List.flatMap_cons, percentDecode_byte, ih]

theorem mem_percentBytes {bytes : QByteArray} (h : c ∈ bytes.flatMap percentByte) :
    isUnreserved c = true ∨ c = 0x25 := by
  obtain ⟨b, _, hb⟩ := List.mem_flatMap.1 h
  exact mem_percentByte hb

def qtLibrary : TextLibrary where
  toUtf8 := toUtf8
  fromUtf8 := fromUtf8
  toPercentEncoding s := (toUtf8 s).flatMap percentByte
  fromPercentEncoding s := fromUtf8 (percentDecode 0 s)
  lowerCase := toLower
  caseFold s := s.map foldCase
  arg := placeArg
  jsonArray := asciiLibrary.jsonArray
  caseFold_ascii := asciiLibrary.caseFold_ascii
  percentEncoded_oneLine s := by
    rw [fromUtf8_ascii (fun c hc => ascii_of_unreserved (mem_percentBytes hc))]
    apply lf_fromLatin1
    intro hm
    obtain ⟨c, _, hc⟩ := List.mem_flatMap.1 hm
    exact percentByte_lf c hc
  arg_mem _ _ _ hc := placeArg_mem hc

theorem qtLibrary_documented : qtLibrary.Documented where
  percentEncoded s c hc := mem_percentBytes hc
  percentDecoded s hs := by
    have hdecode : qtLibrary.fromPercentEncoding (qtLibrary.toPercentEncoding s) =
        fromUtf8 (percentDecode 0 ((toUtf8 s).flatMap percentByte)) := rfl
    rw [hdecode, percentDecode_flatMap, fromUtf8_toUtf8 hs]
  fromUtf8_ascii s hs := fromUtf8_ascii hs
  arg_first value := rfl
  arg_cons c text value hc := placeArg_cons hc text value
  arg_keeps text value c hplain hc := placeArg_keeps hc hplain

def cookieRequest : ProxiedRequest :=
  { formRequest with
    headers := [(utf16 "Content-Type", utf16 "application/x-www-form-urlencoded"),
      (utf16 "Cookie", utf16 "SID=1;a=2")] }

def captured (value : QString) (_ name : QString) : Option QString :=
  if name = utf16 "t" then some value else none

def injected (r : SessionRule) (value : QString) : ProxiedRequest :=
  (applyToRequest anyMatch qtLibrary [r] (captured value) ToolProxy cookieRequest).1

end Samples

end Nullock.SessionRules

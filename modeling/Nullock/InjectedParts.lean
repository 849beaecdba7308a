import Nullock.RewriteBytes

namespace Nullock
open Proxy

structure TextLibrary.Documented (L : TextLibrary) : Prop where
  percentEncoded : ∀ s, ∀ c ∈ L.toPercentEncoding s, isUnreserved c = true ∨ c = 0x25
  percentDecoded : ∀ s, wellFormed s = true → L.fromPercentEncoding (L.toPercentEncoding s) = s
  fromUtf8_ascii : ∀ s, (∀ c ∈ s, c < 0x80) → L.fromUtf8 s = fromLatin1 s
  arg_first : ∀ value, L.arg (utf16 "%1%2=%3") value = value ++ utf16 "%2=%3"
  arg_cons : ∀ c text value, c ≠ 0x25 → L.arg (c :: text) value = c :: L.arg text value
  arg_keeps : ∀ text value c, isMarkerChar c = false → c ∈ text → c ∈ L.arg text value

end Nullock

namespace Nullock.SessionRules
open ScopeLogic HttpLogic SessionRulesLogic Proxy

def cookiePairs (cookies : QString) : List QString :=
  ((cookies.splitOn 0x3B).map QString.trimmed).filter (fun pair => !pair.isEmpty)

def headerLines (bytes : QByteArray) : Nat := ((splitHead bytes).1.splitOn 0x0A).length - 1

section Cookies
variable {L : TextLibrary}

theorem cookiePairs_intercalate {parts : List QString} (hall : ∀ s ∈ parts, 0x3B ∉ s) :
    cookiePairs (List.intercalate (utf16 "; ") parts) =
      (parts.map QString.trimmed).filter (fun pair => !pair.isEmpty) := by
  have hsplit (blanks : QString) (hblank : ∀ c ∈ blanks, isSpace c = true) (s : QString)
      (later : List QString) (hlater : ∀ t ∈ s :: later, 0x3B ∉ t) :
      ((blanks ++ List.intercalate (utf16 "; ") (s :: later)).splitOn 0x3B).map QString.trimmed =
        (s :: later).map QString.trimmed := by
    have hsep : 0x3B ∉ blanks := by
      intro hm
      cases hblank _ hm
    induction later generalizing blanks s with
    | nil =>
      have hs : 0x3B ∉ blanks ++ s := by
        rw [List.mem_append, not_or]
        exact ⟨hsep, hlater s List.mem_cons_self⟩
      rw [List.intercalate_singleton, List.splitOn_eq_singleton hs, List.map_cons, List.map_nil,
        QString.trimmed, trimWith_prepend hblank]
      rfl
    | cons t later ih =>
      rw [List.forall_mem_cons] at hlater
      have hs : 0x3B ∉ blanks ++ s := by
        rw [List.mem_append, not_or]
        exact ⟨hsep, hlater.1⟩
      have hjoin : blanks ++ List.intercalate (utf16 "; ") (s :: t :: later) =
          (blanks ++ s) ++ 0x3B :: ([0x20] ++ List.intercalate (utf16 "; ") (t :: later)) := by
        rw [List.intercalate_cons_cons, List.append_assoc, List.append_assoc]
        rfl
      have hspace : ∀ c ∈ ([0x20] : QString), isSpace c = true := forall_mem_of_all (by decide)
      rw [hjoin, List.splitOn_append_cons_self_of_not_mem hs, List.map_cons,
        ih [0x20] hspace t hlater.2 (by decide), QString.trimmed, trimWith_prepend hblank]
      rfl
  rw [cookiePairs]
  cases parts with
  | nil => rfl
  | cons s later =>
    have h := hsplit [] (fun c hc => absurd hc List.not_mem_nil) s later hall
    rw [List.nil_append] at h
    rw [h]

end Cookies

theorem ascii_of_unreserved {c : UInt8} (h : isUnreserved c = true ∨ c = 0x25) : c < 0x80 := by
  rcases h with h | h
  · simp only [isUnreserved, isWordChar, isDigit, Bool.or_eq_true, Bool.and_eq_true, beq_iff_eq,
      decide_eq_true_eq, UInt16.le_iff_toNat_le, UInt8.toNat_toUInt16, ← UInt16.toNat_inj,
      ← UInt8.toNat_inj] at h
    rw [UInt8.lt_iff_toNat_lt]
    simp only [UInt16.reduceToNat, UInt8.reduceToNat] at h ⊢
    omega
  · rw [h]
    decide

section Encoded
variable {L : TextLibrary} (hL : L.Documented)
include hL

theorem encoded_ascii : ∀ c ∈ L.toPercentEncoding s, c < 0x80 :=
  fun c hc => ascii_of_unreserved (hL.percentEncoded s c hc)

end Encoded

section Form
variable {L : TextLibrary}

end Form

section Url
variable {L : TextLibrary}

end Url

end Nullock.SessionRules

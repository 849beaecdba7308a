import Nullock.Encodings
import Nullock.Numerals
import Mathlib.Data.Finset.Sort
import Mathlib.Data.List.Lex

namespace Nullock.CertLogic

structure CharTable where
  isLetterOrNumber : UInt16 → Bool
  notSpace : ∀ c, isLetterOrNumber c = true → isSpace c = false
  notSurrogate : ∀ c, isLetterOrNumber c = true →
    isHighSurrogate c.toNat = false ∧ isLowSurrogate c.toNat = false
  notMark : ∀ c, isLetterOrNumber c = true → c ≠ 0xFEFF

def isIpv4Part (p : QString) : Bool :=
  !p.isEmpty && decide (p.length ≤ 3) && p.all isDigit &&
    (digitsFrom 10 0 p).any (fun v => decide (v ≤ 255))

def isIpv4Literal (host : QString) : Bool :=
  let parts := host.splitOn 0x2E
  parts.length == 4 && parts.all isIpv4Part

def isHexDigit (c : UInt16) : Bool :=
  isDigit c || (0x61 ≤ c && c ≤ 0x66) || (0x41 ≤ c && c ≤ 0x46)

def isIpv6Group (g : QString) : Bool := !g.isEmpty && decide (g.length ≤ 4) && g.all isHexDigit

def colonGroups (s : QString) : List QString := if s.isEmpty then [] else s.splitOn 0x3A

def ipv6Groups (host : QString) : Option (List QString) :=
  match indexOf (utf16 "::") host with
  | some dc =>
    if (indexOfFrom (utf16 "::") host (dc + 2)).isSome then none
    else
      let groups := colonGroups (host.take dc) ++ colonGroups (host.drop (dc + 2))
      if 8 ≤ groups.length then none else some groups
  | none =>
    let groups := host.splitOn 0x3A
    if groups.length ≠ 8 then none else some groups

/-- An embedded IPv4 address at the end stands for two groups. -/
def withoutIpv4Tail (host : QString) : Option QString :=
  if 0x2E ∈ host then
    match lastIndexOf 0x3A host with
    | none => none
    | some lc =>
      if isIpv4Literal (host.drop (lc + 1)) then some (host.take (lc + 1) ++ utf16 "0:0") else none
  else some host

def loneColon (host : QString) : Bool :=
  (host.head? == some 0x3A && !(utf16 "::").isPrefixOf host) ||
    (host.getLast? == some 0x3A && !(utf16 "::").isSuffixOf host)

def isIpv6Literal (hostIn : QString) : Bool :=
  if hostIn.isEmpty ∨ 45 < hostIn.length then false
  else if 0x25 ∈ hostIn then false
  else
    match withoutIpv4Tail hostIn with
    | none => false
    | some host =>
      if loneColon host then false
      else (ipv6Groups host).any (fun groups => groups.all isIpv6Group)

def isHostChar (T : CharTable) (c : UInt16) : Bool :=
  T.isLetterOrNumber c || c == 0x2D || c == 0x2E || c == 0x5F

def isValidHostForCert (T : CharTable) (host : QString) : Bool :=
  if host.isEmpty then false
  else if isIpv6Literal host then true
  else if 253 < (toUtf8 host).length then false
  else if host.head? = some 0x2D ∨ host.head? = some 0x5F then false
  else if !host.all (isHostChar T) then false
  else if host.head? = some 0x2E ∨ host.getLast? = some 0x2E then false
  else !(indexOf (utf16 "..") host).isSome

structure Plain (c : UInt16) : Prop where
  space : isSpace c = false
  high : isHighSurrogate c.toNat = false
  low : isLowSurrogate c.toNat = false
  mark : c ≠ 0xFEFF

theorem plain_below (h : c < 0x80) (hs : isSpace c = false) : Plain c where
  space := hs
  high := by
    have hlt := UInt16.lt_iff_toNat_lt.1 h
    have h80 : (0x80 : UInt16).toNat = 128 := rfl
    rw [isHighSurrogate, Bool.and_eq_false_iff, decide_eq_false_iff_not]
    exact .inl (by omega)
  low := by
    have hlt := UInt16.lt_iff_toNat_lt.1 h
    have h80 : (0x80 : UInt16).toNat = 128 := rfl
    rw [isLowSurrogate, Bool.and_eq_false_iff, decide_eq_false_iff_not]
    exact .inl (by omega)
  mark := by
    rintro rfl
    exact absurd h (by decide)

theorem plain_ascii {p : UInt16 → Bool} (hlt : ∀ c, p c = true → c < 0x80)
    (hall : (List.range 128).all (fun n => !p n.toUInt16 || !isSpace n.toUInt16) = true)
    (h : p c = true) : Plain c := by
  apply plain_below (hlt c h)
  have hc := List.all_eq_true.1 hall c.toNat (List.mem_range.2 (UInt16.lt_iff_toNat_lt.1 (hlt c h)))
  have hself : c.toNat.toUInt16 = c := UInt16.ofNat_toNat
  rw [hself, h, Bool.not_true, Bool.false_or, Bool.not_eq_true'] at hc
  exact hc

def isAddressChar (c : UInt16) : Bool := isHexDigit c || c == 0x3A || c == 0x2E

theorem plain_address (h : isAddressChar c = true) : Plain c := by
  refine plain_ascii ?_ (by decide) h
  intro c hc
  rw [isAddressChar, isHexDigit, isDigit] at hc
  simp only [Bool.or_eq_true, Bool.and_eq_true, decide_eq_true_eq, beq_iff_eq] at hc
  rcases hc with (((hc | hc) | hc) | rfl) | rfl
  · exact UInt16.lt_of_le_of_lt hc.2 (by decide)
  · exact UInt16.lt_of_le_of_lt hc.2 (by decide)
  · exact UInt16.lt_of_le_of_lt hc.2 (by decide)
  · decide
  · decide

theorem isAddressChar_digit (h : isDigit c = true) : isAddressChar c = true := by
  rw [isAddressChar, isHexDigit, h]
  rfl

theorem isIpv4Literal_chars (h : isIpv4Literal host = true) : ∀ c ∈ host, isAddressChar c = true := by
  intro c hc
  by_cases hdot : c = 0x2E
  · subst hdot
    rfl
  · obtain ⟨part, hpart, hin⟩ := exists_mem_splitOn hc hdot
    rw [isIpv4Literal, Bool.and_eq_true] at h
    have hp := List.all_eq_true.1 h.2 part hpart
    rw [isIpv4Part, Bool.and_eq_true, Bool.and_eq_true] at hp
    exact isAddressChar_digit (List.all_eq_true.1 hp.1.2 c hin)

theorem mem_colonGroups (hc : c ∈ s) (hne : c ≠ 0x3A) : ∃ g ∈ colonGroups s, c ∈ g := by
  rw [colonGroups, if_neg]
  · exact exists_mem_splitOn hc hne
  · rw [List.isEmpty_iff]
    exact List.ne_nil_of_mem hc

theorem mem_ipv6Groups (h : ipv6Groups host = some groups) (hc : c ∈ host) (hne : c ≠ 0x3A) :
    ∃ g ∈ groups, c ∈ g := by
  rw [ipv6Groups] at h
  cases hdc : indexOf (utf16 "::") host with
  | some dc =>
    rw [hdc] at h
    dsimp only at h
    split at h
    · cases h
    · split at h
      · cases h
      · cases h
        obtain ⟨hsplit, -⟩ := indexOf_split hdc
        have hlen : dc + (utf16 "::").length = dc + 2 := rfl
        rw [hsplit, hlen] at hc
        rcases List.mem_append.1 hc with hc | hc
        · obtain ⟨g, hg, hin⟩ := mem_colonGroups hc hne
          exact ⟨g, List.mem_append_left _ hg, hin⟩
        · rcases List.mem_append.1 hc with hc | hc
          · have hcolon : ∀ c ∈ utf16 "::", c = 0x3A := forall_mem_of_all (by decide)
            exact absurd (hcolon c hc) hne
          · obtain ⟨g, hg, hin⟩ := mem_colonGroups hc hne
            exact ⟨g, List.mem_append_right _ hg, hin⟩
  | none =>
    rw [hdc] at h
    dsimp only at h
    split at h
    · cases h
    · cases h
      exact exists_mem_splitOn hc hne

theorem isIpv6Literal_chars (h : isIpv6Literal host = true) :
    ∀ c ∈ host, isAddressChar c = true := by
  rw [isIpv6Literal] at h
  split at h
  · cases h
  · split at h
    · cases h
    · cases htail : withoutIpv4Tail host with
      | none =>
        rw [htail] at h
        cases h
      | some plain =>
        rw [htail] at h
        dsimp only at h
        split at h
        · cases h
        · obtain ⟨groups, hgroups, hall⟩ := (Option.any_eq_true _ _).1 h
          have hplain : ∀ c ∈ plain, isAddressChar c = true := by
            intro c hc
            by_cases hcolon : c = 0x3A
            · subst hcolon
              rfl
            · obtain ⟨g, hg, hin⟩ := mem_ipv6Groups hgroups hc hcolon
              have hgroup := List.all_eq_true.1 hall g hg
              rw [isIpv6Group, Bool.and_eq_true] at hgroup
              rw [isAddressChar, List.all_eq_true.1 hgroup.2 c hin]
              rfl
          rw [withoutIpv4Tail] at htail
          split at htail
          · split at htail
            · cases htail
            · rename_i lc _
              split at htail
              · rename_i hv4
                cases htail
                intro c hc
                rw [← List.take_append_drop (lc + 1) host] at hc
                rcases List.mem_append.1 hc with hc | hc
                · exact hplain c (List.mem_append_left _ hc)
                · exact isIpv4Literal_chars hv4 c hc
              · cases htail
          · cases htail
            exact hplain

theorem isValidHostForCert_plain {T : CharTable} (h : isValidHostForCert T host = true) :
    host ≠ [] ∧ ∀ c ∈ host, Plain c := by
  rw [isValidHostForCert] at h
  split at h
  · cases h
  · rename_i hempty
    refine ⟨fun he => hempty (List.isEmpty_iff.2 he), ?_⟩
    split at h
    · rename_i hv6
      intro c hc
      exact plain_address (isIpv6Literal_chars hv6 c hc)
    · split at h
      · cases h
      · split at h
        · cases h
        · split at h
          · cases h
          · rename_i hchars
            rw [Bool.not_eq_true', Bool.not_eq_false] at hchars
            intro c hc
            have hchar := List.all_eq_true.1 hchars c hc
            rw [isHostChar, Bool.or_eq_true, Bool.or_eq_true, Bool.or_eq_true, beq_iff_eq,
              beq_iff_eq, beq_iff_eq] at hchar
            rcases hchar with ((hletter | rfl) | rfl) | rfl
            · obtain ⟨hhigh, hlow⟩ := T.notSurrogate c hletter
              exact ⟨T.notSpace c hletter, hhigh, hlow, T.notMark c hletter⟩
            · exact plain_below (by decide) (by decide)
            · exact plain_below (by decide) (by decide)
            · exact plain_below (by decide) (by decide)

end Nullock.CertLogic

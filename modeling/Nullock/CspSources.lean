import Nullock.Regions
import Nullock.Text

namespace Nullock.HeaderAudit

open Regions

/-- `*` is any host, `*.example` one below, port -1 any port. -/
structure Range where
  scheme : QString
  host : QString
  port : Int := -1
  path : List QByteArray := []
  isPrefix : Bool := true
  port_ok : -1 ≤ port := by decide

structure Sources where
  ranges : List Range := []
  unknown : Bool := false

def kAnyHost : QString := utf16 "*"

def universalSources : Sources where
  ranges := [⟨utf16 "http", kAnyHost, -1, [], true, by decide⟩,
    ⟨utf16 "https", kAnyHost, -1, [], true, by decide⟩,
    ⟨utf16 "data", kAnyHost, -1, [], true, by decide⟩]

def hostSubset (a b : QString) : Bool :=
  if b = kAnyHost ∨ a = b then true
  else if (utf16 "*.").isPrefixOf b then (b.drop 1).isSuffixOf a
  else false

def pathSubset (a b : Range) : Bool :=
  if !b.isPrefix then !a.isPrefix && a.path == b.path
  else if a.path.length < b.path.length then false
  else if !a.isPrefix && a.path.length == b.path.length && !b.path.isEmpty then false
  else b.path.isPrefixOf a.path

def meetHost (a b : QString) : Option QString :=
  if hostSubset a b then some a else if hostSubset b a then some b else none

def meetPath (a b : Range) : Option (List QByteArray × Bool) :=
  if pathSubset a b then some (a.path, a.isPrefix)
  else if pathSubset b a then some (b.path, b.isPrefix)
  else none

def intersectRange (a b : Range) : Option Range :=
  if a.scheme ≠ b.scheme then none
  else
    (meetHost a.host b.host).bind fun host =>
      if a.port ≠ -1 ∧ b.port ≠ -1 ∧ a.port ≠ b.port then none
      else
        (meetPath a b).map fun path =>
          { scheme := a.scheme
            host := host
            port := if a.port = -1 then b.port else a.port
            path := path.1
            isPrefix := path.2
            port_ok := by
              split
              · exact b.port_ok
              · exact a.port_ok }

def kMaxRanges : Nat := 4096

def Sources.isKnownEmpty (s : Sources) : Bool := !s.unknown && s.ranges.isEmpty

def intersect (a b : Sources) (budget : Int) : Sources × Int :=
  if a.isKnownEmpty || b.isKnownEmpty then ({}, budget)
  else
    match meetsWithin intersectRange kMaxRanges (pairs a.ranges b.ranges) [] budget with
    | (some ranges, rest) => ({ ranges := ranges, unknown := a.unknown || b.unknown }, rest)
    | (none, rest) => ({ unknown := true }, rest)

def hasBroadSource (sources : Sources) : Bool := sources.ranges.any (fun r => r.host == kAnyHost)

def kBudget : Int := 65536

def intersectAll (acc : Sources × Int) (lists : List Sources) : Sources × Int :=
  lists.foldl (fun acc s => intersect acc.1 s acc.2) acc

def ancestorsProtective (lists : List Sources) : Option Bool :=
  let ancestors := (intersectAll (universalSources, kBudget) lists).1
  if ancestors.unknown then none else some (!hasBroadSource ancestors)

structure Url where
  scheme : QString
  host : QString
  port : Nat
  segments : List QByteArray
  host_plain : 0x2A ∉ host

def hostMatches (pattern host : QString) : Prop :=
  pattern = kAnyHost ∨ host = pattern ∨
    ((utf16 "*.") <+: pattern ∧ pattern.drop 1 <:+ host)

def pathMatches (path : List QByteArray) (isPrefix : Bool) (segments : List QByteArray) : Prop :=
  if isPrefix then path = [] ∨ (path <+: segments ∧ path ≠ segments) else segments = path

def Range.urls (r : Range) : Set Url :=
  {u | u.scheme = r.scheme ∧ hostMatches r.host u.host ∧ (r.port = -1 ∨ r.port = u.port) ∧
    pathMatches r.path r.isPrefix u.segments}

def Sources.urls (s : Sources) : Set Url := covered Range.urls s.ranges

section Ranges

theorem hostSubset_matches (h : hostSubset a b = true)
    (ha : hostMatches a host) : hostMatches b host := by
  rw [hostSubset] at h
  split at h
  · rename_i hab
    rcases hab with rfl | rfl
    · exact Or.inl rfl
    · exact ha
  split at h
  · rename_i hb
    rw [List.isPrefixOf_iff_prefix] at hb
    rw [List.isSuffixOf_iff_suffix] at h
    refine Or.inr (Or.inr ⟨hb, ?_⟩)
    obtain ⟨t, ht⟩ := hb
    have hdrop : b.drop 1 = 0x2E :: t := by rw [← ht]; rfl
    rw [hdrop] at h ⊢
    rcases ha with rfl | rfl | ⟨⟨u, hu⟩, ha⟩
    · exact absurd h (by
        rintro ⟨s, hs⟩
        have hlen := congrArg List.length hs
        have hone : kAnyHost.length = 1 := rfl
        rw [List.length_append, List.length_cons, hone] at hlen
        have hnil : s = [] := List.length_eq_zero_iff.1 (by omega)
        have ht' : t = [] := List.length_eq_zero_iff.1 (by omega)
        rw [hnil, ht'] at hs
        exact absurd hs (by decide))
    · exact h
    · have hdropa : a.drop 1 = 0x2E :: u := by rw [← hu]; rfl
      rw [hdropa] at ha
      -- The star in front of `a` is no part of the suffix.
      have hau : a = 0x2A :: 0x2E :: u := hu.symm
      rw [hau] at h
      rcases List.suffix_cons_iff.1 h with he | hs
      · cases he
      · exact hs.trans ha
  · cases h

theorem hostSubset_pattern (hb : utf16 "*." <+: b) (h : b.drop 1 <:+ a) :
    hostSubset a b = true := by
  rw [hostSubset]
  split
  · rfl
  · rw [if_pos (List.isPrefixOf_iff_prefix.2 hb)]
    exact List.isSuffixOf_iff_suffix.2 h

theorem hosts_nested (ha : hostMatches a host) (hb : hostMatches b host) :
    hostSubset a b = true ∨ hostSubset b a = true := by
  have htail (p : QString) : p.drop 1 <:+ p := List.drop_suffix 1 p
  rcases ha with rfl | rfl | ⟨hpa, ha⟩
  · exact Or.inr (if_pos (Or.inl rfl))
  · rcases hb with rfl | rfl | ⟨hpb, hb⟩
    · exact Or.inl (if_pos (Or.inl rfl))
    · exact Or.inl (if_pos (Or.inr rfl))
    · exact Or.inl (hostSubset_pattern hpb hb)
  · rcases hb with rfl | rfl | ⟨hpb, hb⟩
    · exact Or.inl (if_pos (Or.inl rfl))
    · exact Or.inr (hostSubset_pattern hpa ha)
    · rcases List.suffix_or_suffix_of_suffix ha hb with h | h
      · exact Or.inr (hostSubset_pattern hpa (h.trans (htail b)))
      · exact Or.inl (hostSubset_pattern hpb (h.trans (htail a)))

theorem pathSubset_matches (h : pathSubset a b = true)
    (ha : pathMatches a.path a.isPrefix segments) : pathMatches b.path b.isPrefix segments := by
  rw [pathSubset] at h
  split at h
  · rename_i hb
    rw [Bool.and_eq_true, beq_iff_eq, Bool.not_eq_true'] at h
    rw [Bool.not_eq_true'] at hb
    rw [pathMatches, h.1, if_neg Bool.false_ne_true] at ha
    rw [pathMatches, hb, if_neg Bool.false_ne_true, ha, h.2]
  rename_i hb
  rw [Bool.not_eq_true', Bool.not_eq_false] at hb
  split at h
  · cases h
  split at h
  · cases h
  rename_i hexact
  rw [List.isPrefixOf_iff_prefix] at h
  rw [pathMatches, hb, if_pos rfl]
  by_cases hnil : b.path = []
  · exact Or.inl hnil
  right
  rw [pathMatches] at ha
  split at ha
  · rcases ha with ha | ⟨hpre, hne⟩
    · rw [ha, List.prefix_nil] at h
      exact absurd h hnil
    · refine ⟨h.trans hpre, ?_⟩
      rintro rfl
      exact hne (List.IsPrefix.eq_of_length_le hpre h.length_le)
  · rename_i hae
    subst ha
    refine ⟨h, ?_⟩
    intro he
    apply hexact
    rw [Bool.and_eq_true, Bool.and_eq_true, beq_iff_eq, he, Bool.not_eq_true',
      Bool.not_eq_true', List.isEmpty_eq_false_iff]
    exact ⟨⟨Bool.eq_false_iff.2 hae, rfl⟩, fun hs => hnil (he.trans hs)⟩

theorem pathSubset_directory (hb : b.isPrefix = true) (h : b.path <+: a.path)
    (ha : a.isPrefix = true ∨ b.path = [] ∨ b.path ≠ a.path) : pathSubset a b = true := by
  rw [pathSubset, hb, Bool.not_true, if_neg Bool.false_ne_true, if_neg (Nat.not_lt.2 h.length_le),
    if_neg, List.isPrefixOf_iff_prefix]
  · exact h
  · rw [Bool.and_eq_true, Bool.and_eq_true, beq_iff_eq, Bool.not_eq_true', Bool.not_eq_true',
      List.isEmpty_eq_false_iff]
    rintro ⟨⟨hexact, hlen⟩, hne⟩
    rcases ha with ha | ha | ha
    · rw [ha] at hexact
      cases hexact
    · exact hne ha
    · exact ha (h.eq_of_length hlen.symm)

theorem paths_nested (ha : pathMatches a.path a.isPrefix segments)
    (hb : pathMatches b.path b.isPrefix segments) :
    pathSubset a b = true ∨ pathSubset b a = true := by
  cases hpa : a.isPrefix with
  | true =>
    rw [pathMatches, hpa, if_pos rfl] at ha
    cases hpb : b.isPrefix with
    | true =>
      rw [pathMatches, hpb, if_pos rfl] at hb
      rcases ha with ha | ha
      · exact Or.inr (pathSubset_directory hpa (ha ▸ List.nil_prefix) (Or.inl hpb))
      rcases hb with hb | hb
      · exact Or.inl (pathSubset_directory hpb (hb ▸ List.nil_prefix) (Or.inl hpa))
      rcases List.prefix_or_prefix_of_prefix ha.1 hb.1 with h | h
      · exact Or.inr (pathSubset_directory hpa h (Or.inl hpb))
      · exact Or.inl (pathSubset_directory hpb h (Or.inl hpa))
    | false =>
      rw [pathMatches, hpb, if_neg Bool.false_ne_true] at hb
      subst hb
      rcases ha with ha | ⟨hpre, hne⟩
      · exact Or.inr (pathSubset_directory hpa (ha ▸ List.nil_prefix) (Or.inr (Or.inl ha)))
      · exact Or.inr (pathSubset_directory hpa hpre (Or.inr (Or.inr hne)))
  | false =>
    rw [pathMatches, hpa, if_neg Bool.false_ne_true] at ha
    subst ha
    cases hpb : b.isPrefix with
    | true =>
      rw [pathMatches, hpb, if_pos rfl] at hb
      rcases hb with hb | ⟨hpre, hne⟩
      · exact Or.inl (pathSubset_directory hpb (hb ▸ List.nil_prefix) (Or.inr (Or.inl hb)))
      · exact Or.inl (pathSubset_directory hpb hpre (Or.inr (Or.inr hne)))
    | false =>
      rw [pathMatches, hpb, if_neg Bool.false_ne_true] at hb
      left
      rw [pathSubset, hpb, hpa, hb]
      exact beq_self_eq_true _

theorem meetHost_some (h : meetHost a b = some c) (host : QString) :
    hostMatches c host ↔ hostMatches a host ∧ hostMatches b host := by
  rw [meetHost] at h
  split at h
  · rename_i hab
    cases h
    exact ⟨fun ha => ⟨ha, hostSubset_matches hab ha⟩, And.left⟩
  split at h
  · rename_i hba
    cases h
    exact ⟨fun hb => ⟨hostSubset_matches hba hb, hb⟩, And.right⟩
  · cases h

theorem meetHost_none (h : meetHost a b = none) (host : QString) :
    ¬ (hostMatches a host ∧ hostMatches b host) := by
  rintro ⟨ha, hb⟩
  rw [meetHost] at h
  rcases hosts_nested ha hb with hab | hba
  · rw [if_pos hab] at h
    cases h
  · rw [if_pos hba] at h
    split at h <;> cases h

theorem meetPath_some (h : meetPath a b = some c) (segments : List QByteArray) :
    pathMatches c.1 c.2 segments ↔
      pathMatches a.path a.isPrefix segments ∧ pathMatches b.path b.isPrefix segments := by
  rw [meetPath] at h
  split at h
  · rename_i hab
    cases h
    exact ⟨fun ha => ⟨ha, pathSubset_matches hab ha⟩, And.left⟩
  split at h
  · rename_i hba
    cases h
    exact ⟨fun hb => ⟨pathSubset_matches hba hb, hb⟩, And.right⟩
  · cases h

theorem meetPath_none (h : meetPath a b = none) (segments : List QByteArray) :
    ¬ (pathMatches a.path a.isPrefix segments ∧ pathMatches b.path b.isPrefix segments) := by
  rintro ⟨ha, hb⟩
  rw [meetPath] at h
  rcases paths_nested ha hb with hab | hba
  · rw [if_pos hab] at h
    cases h
  · rw [if_pos hba] at h
    split at h <;> cases h

theorem ports_shared {p q : Int} (h : ¬ (p ≠ -1 ∧ q ≠ -1 ∧ p ≠ q)) (port : Int) :
    ((if p = -1 then q else p) = -1 ∨ (if p = -1 then q else p) = port) ↔
      (p = -1 ∨ p = port) ∧ (q = -1 ∨ q = port) := by
  split <;> omega

theorem intersectRange_some (h : intersectRange a b = some r) :
    a.scheme = b.scheme ∧ ¬ (a.port ≠ -1 ∧ b.port ≠ -1 ∧ a.port ≠ b.port) ∧
      r.scheme = a.scheme ∧ meetHost a.host b.host = some r.host ∧
      r.port = (if a.port = -1 then b.port else a.port) ∧
      meetPath a b = some (r.path, r.isPrefix) := by
  rw [intersectRange] at h
  split at h
  · cases h
  rename_i hscheme
  obtain ⟨host, hhost, h⟩ := Option.bind_eq_some_iff.1 h
  split at h
  · cases h
  rename_i hport
  obtain ⟨path, hpath, hr⟩ := Option.map_eq_some_iff.1 h
  rw [← hr]
  exact ⟨not_not.1 hscheme, hport, rfl, hhost, rfl, hpath⟩

theorem intersectRange_none (h : intersectRange a b = none) (hscheme : a.scheme = b.scheme)
    (hport : ¬ (a.port ≠ -1 ∧ b.port ≠ -1 ∧ a.port ≠ b.port)) :
    meetHost a.host b.host = none ∨ meetPath a b = none := by
  rw [intersectRange, if_neg (not_not.2 hscheme)] at h
  cases hhost : meetHost a.host b.host with
  | none => exact Or.inl rfl
  | some host =>
    rw [hhost, Option.bind_some, if_neg hport, Option.map_eq_none_iff] at h
    exact Or.inr h

theorem intersectRange_isMeet : IsMeet Range.urls intersectRange where
  shared a b r h := by
    obtain ⟨hscheme, hport, hrscheme, hhost, hrport, hpath⟩ := intersectRange_some h
    apply Set.ext
    intro u
    have hh := meetHost_some hhost u.host
    have hp := meetPath_some hpath u.segments
    have hq := ports_shared hport u.port
    constructor
    · rintro ⟨hs, hhosts, hports, hpaths⟩
      rw [hrport] at hports
      rw [hrscheme] at hs
      exact ⟨⟨hs, (hh.1 hhosts).1, (hq.1 hports).1, (hp.1 hpaths).1⟩,
        ⟨hs.trans hscheme, (hh.1 hhosts).2, (hq.1 hports).2, (hp.1 hpaths).2⟩⟩
    · rintro ⟨⟨hs, hha, hpa, hda⟩, _, hhb, hpb, hdb⟩
      refine ⟨hs.trans hrscheme.symm, hh.2 ⟨hha, hhb⟩, ?_, hp.2 ⟨hda, hdb⟩⟩
      rw [hrport]
      exact hq.2 ⟨hpa, hpb⟩
  apart a b h := by
    apply Set.eq_empty_iff_forall_notMem.2
    rintro u ⟨⟨hsa, hha, hpa, hda⟩, hsb, hhb, hpb, hdb⟩
    have hports : ¬ (a.port ≠ -1 ∧ b.port ≠ -1 ∧ a.port ≠ b.port) := by omega
    rcases intersectRange_none h (hsa.symm.trans hsb) hports with hhost | hpath
    · exact meetHost_none hhost u.host ⟨hha, hhb⟩
    · exact meetPath_none hpath u.segments ⟨hda, hdb⟩

end Ranges

end Nullock.HeaderAudit

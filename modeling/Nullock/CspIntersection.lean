import Nullock.CspSources
import Mathlib.Algebra.Order.BigOperators.Group.List
import Mathlib.Algebra.Order.Ring.Nat

namespace Nullock.HeaderAudit

open Regions

/-- A policy with the URLs it admits, of its list or where a source could not be read. -/
structure Policy where
  sources : Sources
  admits : Set Url
  sources_admitted : sources.urls ⊆ admits
  known : sources.unknown = false → admits = sources.urls

def Exhausts (a b : Sources) (budget : Int) : Prop :=
  a.isKnownEmpty = false ∧ b.isKnownEmpty = false ∧
    (meetsWithin intersectRange kMaxRanges (pairs a.ranges b.ranges) [] budget).1 = none

def NeverExhausts : Sources × Int → List Sources → Prop
  | _, [] => True
  | acc, s :: lists => ¬ Exhausts acc.1 s acc.2 ∧ NeverExhausts (intersect acc.1 s acc.2) lists

section Steps

theorem Sources.urls_empty {s : Sources} (h : s.isKnownEmpty = true) : s.urls = ∅ := by
  rw [Sources.isKnownEmpty, Bool.and_eq_true, List.isEmpty_iff] at h
  rw [Sources.urls, h.2, covered_nil]

/-- One intersection: empty, exhausted, or what both lists have. -/
theorem intersect_cases (a b : Sources) (budget : Int) :
    ((a.isKnownEmpty = true ∨ b.isKnownEmpty = true) ∧ (intersect a b budget).1 = {}) ∨
    (Exhausts a b budget ∧ (intersect a b budget).1 = { unknown := true }) ∨
    ((intersect a b budget).1.urls = a.urls ∩ b.urls ∧
      (intersect a b budget).1.unknown = (a.unknown || b.unknown)) := by
  rw [intersect]
  cases ha : a.isKnownEmpty with
  | true => exact Or.inl ⟨Or.inl rfl, rfl⟩
  | false =>
    cases hb : b.isKnownEmpty with
    | true => exact Or.inl ⟨Or.inr rfl, rfl⟩
    | false =>
      rw [Bool.or_self, if_neg Bool.false_ne_true]
      right
      cases hmeets : meetsWithin intersectRange kMaxRanges (pairs a.ranges b.ranges) [] budget with
      | mk found rest =>
        cases found with
        | none => exact Or.inl ⟨⟨ha, hb, by rw [hmeets]⟩, rfl⟩
        | some ranges =>
          have hranges := meetsWithin_some (congrArg Prod.fst hmeets)
          rw [List.nil_append] at hranges
          refine Or.inr ⟨?_, rfl⟩
          dsimp only
          rw [Sources.urls, hranges]
          exact covered_meets intersectRange_isMeet _ _

theorem urls_unknown : Sources.urls { unknown := true } = ∅ := covered_nil

theorem urls_none : Sources.urls {} = ∅ := covered_nil

/-- What the sources so far have, of all that was admitted so far. -/
structure Accumulates (s : Sources) (admitted : Set Url) : Prop where
  subset : s.urls ⊆ admitted
  exact : s.unknown = false → s.urls = admitted

theorem Accumulates.step (h : Accumulates s admitted) (p : Policy) (budget : Int) :
    Accumulates (intersect s p.sources budget).1 (admitted ∩ p.admits) := by
  rcases intersect_cases s p.sources budget with ⟨hempty, hres⟩ | ⟨_, hres⟩ | ⟨hurls, hknown⟩
  · -- A list that is known to be empty admits nothing, whatever the other one is.
    have hnone : admitted ∩ p.admits = ∅ := by
      rcases hempty with hs | hp
      · have hknown : s.unknown = false := by
          rw [Sources.isKnownEmpty, Bool.and_eq_true, Bool.not_eq_true'] at hs
          exact hs.1
        rw [← h.exact hknown, Sources.urls_empty hs, Set.empty_inter]
      · have hknown : p.sources.unknown = false := by
          rw [Sources.isKnownEmpty, Bool.and_eq_true, Bool.not_eq_true'] at hp
          exact hp.1
        rw [p.known hknown, Sources.urls_empty hp, Set.inter_empty]
    rw [hres, hnone]
    exact ⟨urls_none.subset, fun _ => urls_none⟩
  · rw [hres]
    refine ⟨?_, fun hk => by cases hk⟩
    rw [urls_unknown]
    exact Set.empty_subset _
  · constructor
    · rw [hurls]
      exact Set.inter_subset_inter h.subset p.sources_admitted
    · intro hk
      rw [hknown, Bool.or_eq_false_iff] at hk
      rw [hurls, h.exact hk.1, p.known hk.2]

theorem Accumulates.run (h : Accumulates acc.1 admitted) (policies : List Policy) :
    Accumulates (intersectAll acc (policies.map Policy.sources)).1
      {u | u ∈ admitted ∧ ∀ p ∈ policies, u ∈ p.admits} := by
  induction policies generalizing acc admitted with
  | nil =>
    have hset : {u | u ∈ admitted ∧ ∀ p ∈ ([] : List Policy), u ∈ p.admits} = admitted :=
      Set.ext (fun u => ⟨And.left, fun hu => ⟨hu, fun p hp => (List.not_mem_nil hp).elim⟩⟩)
    rw [hset]
    exact h
  | cons p policies ih =>
    have hset : {u | u ∈ admitted ∧ ∀ q ∈ p :: policies, u ∈ q.admits} =
        {u | u ∈ admitted ∩ p.admits ∧ ∀ q ∈ policies, u ∈ q.admits} := by
      apply Set.ext
      intro u
      simp only [Set.mem_ofPred_eq, List.forall_mem_cons, Set.mem_inter_iff, and_assoc]
    rw [hset]
    exact ih (h.step p acc.2)

theorem urls_run (h : NeverExhausts acc lists) :
    (intersectAll acc lists).1.urls = {u | u ∈ acc.1.urls ∧ ∀ s ∈ lists, u ∈ s.urls} := by
  induction lists generalizing acc with
  | nil =>
    exact Set.ext (fun u => ⟨fun hu => ⟨hu, fun s hs => (List.not_mem_nil hs).elim⟩, And.left⟩)
  | cons s lists ih =>
    obtain ⟨hstep, hrest⟩ := h
    have hurls : (intersect acc.1 s acc.2).1.urls = acc.1.urls ∩ s.urls := by
      rcases intersect_cases acc.1 s acc.2 with ⟨hempty, hres⟩ | ⟨hex, _⟩ | ⟨hurls, _⟩
      · rw [hres, urls_none]
        rcases hempty with ha | hs
        · rw [Sources.urls_empty ha, Set.empty_inter]
        · rw [Sources.urls_empty hs, Set.inter_empty]
      · exact absurd hex hstep
      · exact hurls
    have hrun := ih hrest
    rw [hurls] at hrun
    rw [show intersectAll acc (s :: lists) = intersectAll (intersect acc.1 s acc.2) lists from rfl,
      hrun]
    apply Set.ext
    intro u
    simp only [Set.mem_ofPred_eq, List.forall_mem_cons, Set.mem_inter_iff, and_assoc]

end Steps

section Broad

def longHost (ranges : List Range) : QString :=
  List.replicate ((ranges.map (fun r => r.host.length)).sum + 1) 0x61

theorem longHost_chars (h : c ∈ longHost ranges) : c = 0x61 := List.eq_of_mem_replicate h

theorem longHost_matches (hr : r ∈ ranges) (h : hostMatches r.host (longHost ranges)) :
    r.host = kAnyHost := by
  rcases h with h | h | ⟨⟨t, ht⟩, h⟩
  · exact h
  · have hle := List.single_le_sum (fun n _ => Nat.zero_le n) _
      (List.mem_map_of_mem (f := fun r : Range => r.host.length) hr)
    have hlen := congrArg List.length h
    rw [longHost, List.length_replicate] at hlen
    omega
  · have hdot : (0x2E : UInt16) ∈ r.host.drop 1 := by
      rw [← ht]
      exact List.mem_cons_self
    exact absurd (longHost_chars (h.subset hdot)) (by decide)

def urlOf (r : Range) (host : QString) (h : 0x2A ∉ host) : Url where
  scheme := r.scheme
  host := host
  port := r.port.toNat
  segments := if r.isPrefix then r.path ++ [[]] else r.path
  host_plain := h

theorem urlOf_mem (hr : r.host = kAnyHost) (host : QString) (h : 0x2A ∉ host) :
    urlOf r host h ∈ r.urls := by
  refine ⟨rfl, Or.inl hr, ?_, ?_⟩
  · have hport := r.port_ok
    have hurl : (urlOf r host h).port = r.port.toNat := rfl
    rw [hurl]
    omega
  · rw [pathMatches, urlOf]
    cases hp : r.isPrefix with
    | true =>
      rw [if_pos rfl, if_pos rfl]
      refine Or.inr ⟨List.prefix_append _ _, ?_⟩
      intro he
      have hlen := congrArg List.length he
      rw [List.length_append, List.length_singleton] at hlen
      omega
    | false => rw [if_neg Bool.false_ne_true, if_neg Bool.false_ne_true]

theorem hasBroadSource_iff (s : Sources) : hasBroadSource s = true ↔
    ∃ scheme port segments, ∀ host (h : 0x2A ∉ host),
      Url.mk scheme host port segments h ∈ s.urls := by
  rw [hasBroadSource, List.any_eq_true]
  constructor
  · rintro ⟨r, hr, hhost⟩
    exact ⟨_, _, _, fun host h => ⟨r, hr, urlOf_mem (beq_iff_eq.1 hhost) host h⟩⟩
  · rintro ⟨scheme, port, segments, hall⟩
    have hplain : (0x2A : UInt16) ∉ longHost s.ranges :=
      fun hm => absurd (longHost_chars hm) (by decide)
    obtain ⟨r, hr, hu⟩ := hall (longHost s.ranges) hplain
    exact ⟨r, hr, beq_iff_eq.2 (longHost_matches hr hu.2.1)⟩

end Broad

def admittedByAll (policies : List Policy) : Set Url :=
  {u | u ∈ universalSources.urls ∧ ∀ p ∈ policies, u ∈ p.admits}

def common (policies : List Policy) : Sources :=
  (intersectAll (universalSources, kBudget) (policies.map Policy.sources)).1

/-- The intersection has the URLs that all policies admit, unless it is flagged unknown. -/
theorem common_exact (policies : List Policy) :
    (common policies).urls ⊆ admittedByAll policies ∧
      ((common policies).unknown = false → (common policies).urls = admittedByAll policies) ∧
      ∀ others : List Policy, others.Perm policies →
        NeverExhausts (universalSources, kBudget) (policies.map Policy.sources) →
        NeverExhausts (universalSources, kBudget) (others.map Policy.sources) →
        (common others).urls = (common policies).urls ∧
          hasBroadSource (common others) = hasBroadSource (common policies) := by
  have hstart : Accumulates (universalSources, kBudget).1 universalSources.urls :=
    ⟨subset_rfl, fun _ => rfl⟩
  have hrun := hstart.run policies
  refine ⟨hrun.subset, hrun.exact, ?_⟩
  intro others hperm hpolicies hothers
  have hurls : (common others).urls = (common policies).urls := by
    rw [common, common, urls_run hpolicies, urls_run hothers]
    apply Set.ext
    intro u
    simp only [Set.mem_ofPred_eq, List.forall_mem_map, hperm.mem_iff]
  refine ⟨hurls, ?_⟩
  rw [Bool.eq_iff_iff, hasBroadSource_iff, hasBroadSource_iff, hurls]

end Nullock.HeaderAudit

import Nullock.ScopeRules

namespace Nullock.ScopeLogic

def gate (globOut globIn : Bool) (rules : List CompiledRule)
    (excludes includes : CompiledRule → Bool) : Bool :=
  if globOut then false
  else if rules.any excludes then false
  else if hasEnabledInclude rules then rules.any includes
  else globIn

theorem gate_mono {excludes excludes' includes includes' : CompiledRule → Bool}
    (hx : ∀ r ∈ rules, excludes' r = true → excludes r = true)
    (hi : ∀ r ∈ rules, includes r = true → includes' r = true)
    (h : gate globOut globIn rules excludes includes = true) :
    gate globOut globIn rules excludes' includes' = true := by
  have hany : rules.any excludes = false → rules.any excludes' = false := by
    intro hn
    rw [List.any_eq_false] at hn ⊢
    intro r hr he
    exact hn r hr (hx r hr he)
  cases globOut with
  | true => cases h
  | false =>
    cases he : rules.any excludes with
    | true => simp [gate, he] at h
    | false =>
      simp only [gate, he, hany he, Bool.false_eq_true, ↓reduceIte] at h ⊢
      cases hr : hasEnabledInclude rules with
      | false => simpa only [hr, Bool.false_eq_true, ↓reduceIte] using h
      | true =>
        simp only [hr, ↓reduceIte, List.any_eq_true] at h ⊢
        obtain ⟨r, hm, hr⟩ := h
        exact ⟨r, hm, hi r hm hr⟩

theorem gate_not_excluded {excludes includes : CompiledRule → Bool}
    (h : gate globOut globIn rules excludes includes = true) (hr : r ∈ rules) :
    excludes r = false := by
  cases he : excludes r with
  | false => rfl
  | true =>
    have ha : rules.any excludes = true := List.any_eq_true.2 ⟨r, hr, he⟩
    simp [gate, ha] at h

theorem ruleMatchesUrl_iff (E : RegexEngine) (r : CompiledRule) (tls : Bool) (host : QString)
    (port : Int) (path : QString) :
    ruleMatchesUrl E r tls host port path = true ↔
      r.enabled = true ∧ (r.protocol = ProtoAny ∨ r.protocol = requestProtocol tls) ∧
      hostMatches E r host = true ∧ portInRange r.portFrom r.portTo port = true ∧
      (r.fileAny = true ∨ E.hasMatch r.fileRx path = true) := by
  simp only [ruleMatchesUrl, hostMatches, Bool.or_eq_true]
  split_ifs with he hp hh hq hf
  · simp [he]
  · simp [hp]
  · simp [hh]
  · simp [hq]
  · simp [hf]
  · simp only [Bool.not_eq_false, not_and, ne_eq] at he hp hh hq hf
    simp only [he, hq, true_and, true_iff]
    refine ⟨?_, ?_, ?_⟩
    · exact Decidable.or_iff_not_imp_left.2 (fun h => Decidable.not_not.1 (hp h))
    · cases ha : r.hostAny with
      | true => exact .inl rfl
      | false => exact .inr (hh ha)
    · cases ha : r.fileAny with
      | true => exact .inl rfl
      | false => exact .inr (hf ha)

theorem urlInScope_eq_gate (E : RegexEngine) (rules : List CompiledRule)
    (globOut globIn tls : Bool) (host : QString) (port : Int) (path : QString) :
    urlInScope E rules globOut globIn tls host port path = gate globOut globIn rules
      (fun r => r.enabled && !r.isInclude && ruleMatchesUrl E r tls host port path)
      (fun r => r.enabled && r.isInclude && ruleMatchesUrl E r tls host port path) := rfl

theorem hostInScope_eq_gate (E : RegexEngine) (rules : List CompiledRule)
    (globOut globIn : Bool) (host : QString) :
    hostInScope E rules globOut globIn host = gate globOut globIn rules
      (fun r => r.enabled && !r.isInclude && hostMatches E r host)
      (fun r => r.enabled && r.isInclude && hostMatches E r host) := rfl

theorem mayTargetHost_eq_gate (E : RegexEngine) (rules : List CompiledRule)
    (globOut globIn : Bool) (host : QString) :
    mayTargetHost E rules globOut globIn host = gate globOut globIn rules
      (fun r => r.enabled && !r.isInclude && !r.constrainsBeyondHost && hostMatches E r host)
      (fun r => r.enabled && r.isInclude && hostMatches E r host) := by
  simp only [mayTargetHost, gate]
  cases hasEnabledInclude rules <;> rfl

/-- A rule of either kind whose host and port dimensions hold on a transport. -/
def transportHit (E : RegexEngine) (host : QString) (port : Int) (r : CompiledRule) : Bool :=
  r.enabled && hostMatches E r host && portInRange r.portFrom r.portTo port

def transportExcludes (E : RegexEngine) (host : QString) (port protocol : Int)
    (r : CompiledRule) : Bool :=
  transportHit E host port r && !r.isInclude &&
    (protocol = ProtoAny || r.protocol = ProtoAny || protocol = r.protocol)

def transportIncludes (E : RegexEngine) (host : QString) (port protocol : Int)
    (r : CompiledRule) : Bool :=
  transportHit E host port r && r.isInclude &&
    (r.fileAny && (r.protocol = ProtoAny || protocol = r.protocol))

theorem not_transportHit (E : RegexEngine) (host : QString) (port : Int) (r : CompiledRule) :
    (!r.enabled || (!r.hostAny && !E.hasMatch r.hostRx host) ||
      !portInRange r.portFrom r.portTo port) = !transportHit E host port r := by
  simp only [transportHit, hostMatches, Bool.not_and, Bool.not_or]

theorem transportLoop_cons (E : RegexEngine) (host : QString) (port protocol : Int)
    (included : Bool) (r : CompiledRule) (rs : List CompiledRule) :
    transportLoop E host port protocol included (r :: rs) =
      if transportExcludes E host port protocol r then none
      else transportLoop E host port protocol
        (included || transportIncludes E host port protocol r) rs := by
  rw [transportLoop, not_transportHit, transportExcludes, transportIncludes]
  cases transportHit E host port r with
  | false => simp only [Bool.not_false, ↓reduceIte, Bool.false_and, Bool.or_false,
      Bool.false_eq_true]
  | true =>
    cases r.isInclude with
    | false =>
      simp only [Bool.not_true, Bool.false_eq_true, ↓reduceIte, Bool.not_false, Bool.true_and,
        Bool.and_false, Bool.false_and, Bool.or_false, Bool.or_eq_true, decide_eq_true_eq,
        or_assoc]
    | true =>
      simp only [Bool.not_true, Bool.false_eq_true, ↓reduceIte, Bool.and_false, Bool.false_and,
        Bool.true_and]
      cases r.fileAny && (decide (r.protocol = ProtoAny) || decide (protocol = r.protocol)) with
      | false => simp only [Bool.false_eq_true, ↓reduceIte, Bool.or_false]
      | true => simp only [↓reduceIte, Bool.or_true]

theorem transportLoop_eq (E : RegexEngine) (host : QString) (port protocol : Int)
    (included : Bool) (rules : List CompiledRule) :
    transportLoop E host port protocol included rules =
      if rules.any (transportExcludes E host port protocol) then none
      else some (included || rules.any (transportIncludes E host port protocol)) := by
  induction rules generalizing included with
  | nil => simp [transportLoop]
  | cons r rs ih =>
    rw [transportLoop_cons, ih, List.any_cons, List.any_cons]
    cases transportExcludes E host port protocol r with
    | true => rfl
    | false => simp only [Bool.false_eq_true, ↓reduceIte, Bool.false_or, Bool.or_assoc]

theorem transportInScope_eq_gate (E : RegexEngine) (rules : List CompiledRule)
    (globOut globIn : Bool) (host : QString) (port protocol : Int) :
    transportInScope E rules globOut globIn host port protocol = gate globOut globIn rules
      (transportExcludes E host port protocol) (transportIncludes E host port protocol) := by
  rw [transportInScope, transportLoop_eq, gate]
  cases rules.any (transportExcludes E host port protocol) <;> rfl

/-- What `compile` promises of the flag that the host-only admission reads. -/
def HostFlagSound (r : CompiledRule) : Prop :=
  r.constrainsBeyondHost = false →
    r.protocol = ProtoAny ∧ r.portFrom ≤ 0 ∧ r.fileAny = true

theorem compiledForm_hostFlag (r : AdvancedScopeRule) : HostFlagSound (compiledForm r) := by
  intro hc
  simpa only [compiledForm, Bool.or_eq_false_iff, decide_eq_false_iff_not, Bool.not_eq_false',
    not_not, Int.not_lt, and_assoc] using hc

theorem compileRule_eq_form (h : compileRule E r = some c) : c = compiledForm r := by
  simp only [compileRule] at h
  split_ifs at h
  exact (Option.some.inj h).symm

theorem compileLoop_hostFlag (hout : ∀ c ∈ out, HostFlagSound c) :
    ∀ c ∈ compileLoop E out rs, HostFlagSound c := by
  induction rs generalizing out with
  | nil => exact hout
  | cons r rs ih =>
    simp only [compileLoop]
    split
    · exact hout
    cases hr : compileRule E r with
    | none => exact ih hout
    | some c =>
      apply ih
      intro d hd
      rcases List.mem_append.1 hd with hd | hd
      · exact hout d hd
      · rw [List.mem_singleton.1 hd]
        rw [compileRule_eq_form hr]
        exact compiledForm_hostFlag r

theorem compile_hostFlag (E : RegexEngine) (raw : List AdvancedScopeRule) :
    ∀ c ∈ compile E raw, HostFlagSound c := by
  intro c hc
  simp only [compile] at hc
  split at hc
  · rw [List.mem_singleton.1 hc]
    exact fun _ => ⟨rfl, Int.le_refl 0, rfl⟩
  · exact compileLoop_hostFlag (fun _ h => absurd h List.not_mem_nil) c hc

def Admits (protocol : Int) (tls : Bool) : Prop :=
  protocol = ProtoAny ∨ protocol = requestProtocol tls

theorem transport_allows_url (ha : Admits protocol tls)
    (h : transportInScope E rules globOut globIn host port protocol = true) (path : QString) :
    urlInScope E rules globOut globIn tls host port path = true := by
  rw [transportInScope_eq_gate] at h
  rw [urlInScope_eq_gate]
  apply gate_mono ?_ ?_ h
  · intro r _ hr
    simp only [Bool.and_eq_true, Bool.not_eq_true', ruleMatchesUrl_iff] at hr
    obtain ⟨⟨he, hx⟩, _, hp, hh, hport, _⟩ := hr
    have hproto : protocol = ProtoAny ∨ r.protocol = ProtoAny ∨ protocol = r.protocol := by
      rcases ha with ha | ha
      · exact .inl ha
      · rcases hp with hp | hp
        · exact .inr (.inl hp)
        · exact .inr (.inr (ha.trans hp.symm))
    simp only [transportExcludes, transportHit, he, hh, hport, hx, Bool.and_true, Bool.not_false,
      Bool.true_and, Bool.or_eq_true, decide_eq_true_eq, or_assoc]
    exact hproto
  · intro r _ hr
    simp only [transportIncludes, transportHit, Bool.and_eq_true, Bool.or_eq_true,
      decide_eq_true_eq] at hr
    obtain ⟨⟨⟨⟨he, hh⟩, hport⟩, hi⟩, hf, hp⟩ := hr
    have hproto : r.protocol = ProtoAny ∨ r.protocol = requestProtocol tls := by
      rcases hp with hp | hp
      · exact .inl hp
      · rcases ha with ha | ha
        · exact .inl (hp.symm.trans ha)
        · exact .inr (hp.symm.trans ha)
    simp only [he, hi, Bool.true_and, ruleMatchesUrl_iff, true_and]
    exact ⟨hproto, hh, hport, .inl hf⟩

theorem url_allows_target (hc : ∀ r ∈ rules, HostFlagSound r)
    (h : urlInScope E rules globOut globIn tls host port path = true) :
    mayTargetHost E rules globOut globIn host = true := by
  rw [urlInScope_eq_gate] at h
  rw [mayTargetHost_eq_gate]
  apply gate_mono ?_ ?_ h
  · intro r hm hr
    simp only [Bool.and_eq_true, Bool.not_eq_true'] at hr
    obtain ⟨⟨⟨he, hx⟩, hf⟩, hh⟩ := hr
    obtain ⟨hp, hport, hfile⟩ := hc r hm hf
    have hrange : portInRange r.portFrom r.portTo port = true := by
      simp only [portInRange, hport, ↓reduceIte]
    simp only [he, hx, Bool.not_false, Bool.true_and, ruleMatchesUrl_iff, true_and]
    exact ⟨.inl hp, hh, hrange, .inl hfile⟩
  · intro r _ hr
    simp only [Bool.and_eq_true, ruleMatchesUrl_iff] at hr
    obtain ⟨⟨he, hi⟩, _, _, hh, _⟩ := hr
    simp only [he, hi, hh, Bool.and_self]

theorem host_allows_no_exclude (h : hostInScope E rules globOut globIn host = true)
    (hr : r ∈ rules) (hx : r.isInclude = false) (tls : Bool) (port : Int) (path : QString) :
    ruleMatchesUrl E r tls host port path = false := by
  rw [hostInScope_eq_gate] at h
  have hn := gate_not_excluded h hr
  cases hm : ruleMatchesUrl E r tls host port path with
  | false => rfl
  | true =>
    rw [ruleMatchesUrl_iff] at hm
    simp only [hm.1, hx, hm.2.2.1, Bool.not_false, Bool.and_self] at hn
    cases hn

theorem scope_gates_sound (E : RegexEngine) (raw : List AdvancedScopeRule)
    (globOut globIn : Bool) (host : QString) :
    (∀ port protocol,
      transportInScope E (compile E raw) globOut globIn host port protocol = true →
      ∀ tls path, Admits protocol tls →
        urlInScope E (compile E raw) globOut globIn tls host port path = true) ∧
    (∀ tls port path,
      urlInScope E (compile E raw) globOut globIn tls host port path = true →
        mayTargetHost E (compile E raw) globOut globIn host = true) ∧
    (hostInScope E (compile E raw) globOut globIn host = true →
      ∀ r ∈ compile E raw, r.enabled = true → r.isInclude = false →
        ∀ tls port path, ruleMatchesUrl E r tls host port path = false) := by
  refine ⟨?_, ?_, ?_⟩
  · intro port protocol h tls path ha
    exact transport_allows_url ha h path
  · intro tls port path h
    exact url_allows_target (compile_hostFlag E raw) h
  · intro h r hr _ hx tls port path
    exact host_allows_no_exclude h hr hx tls port path

end Nullock.ScopeLogic

import Nullock.Json
import Nullock.ScopeGates

namespace Nullock.ScopeLogic

def badInt (o : QJsonObject) (key : String) : Bool :=
  let v := o.value key
  o.contains key && (!v.isDouble || v.toDouble != (v.toInt (-1) : Rat))

def badBool (o : QJsonObject) (key : String) : Bool :=
  o.contains key && !(o.value key).isBool

def badString (o : QJsonObject) (key : String) : Bool :=
  o.contains key && !(o.value key).isString

def ruleFromJson (v : QJsonValue) : AdvancedScopeRule :=
  let o := v.toObject
  if !v.isObject || badBool o "enabled" || badBool o "include" || badString o "host" ||
      badString o "file" || badInt o "protocol" || badInt o "portFrom" || badInt o "portTo" then
    { protocol := -1 }
  else
    { enabled := (o.value "enabled").toBool true
      isInclude := (o.value "include").toBool true
      protocol := (o.value "protocol").toInt ProtoAny
      hostRegex := (o.value "host").toQString
      portFrom := (o.value "portFrom").toInt 0
      portTo := (o.value "portTo").toInt 0
      fileRegex := (o.value "file").toQString }

def rulesFromJson (arr : List QJsonValue) : List AdvancedScopeRule := arr.map ruleFromJson

/-- An object whose known fields, where present, have their types. -/
structure WellFormedRule (v : QJsonValue) : Prop where
  object : ∃ o, v = .object o
  bools : ∀ key ∈ ["enabled", "include"], ∀ x, v.toObject.lookup (utf16 key) = some x →
    ∃ b, x = .bool b
  strings : ∀ key ∈ ["host", "file"], ∀ x, v.toObject.lookup (utf16 key) = some x →
    ∃ s, x = .string s
  ints : ∀ key ∈ ["protocol", "portFrom", "portTo"], ∀ x,
    v.toObject.lookup (utf16 key) = some x → ∃ n : Int, IsInt32 n ∧ x = .double n

theorem badBool_eq_false_iff (o : QJsonObject) (key : String) :
    badBool o key = false ↔ ∀ x, o.lookup (utf16 key) = some x → ∃ b, x = .bool b := by
  simp only [badBool, QJsonObject.contains, QJsonObject.value]
  cases o.lookup (utf16 key) with
  | none => simp
  | some x => cases x <;> simp [QJsonValue.isBool]

theorem badString_eq_false_iff (o : QJsonObject) (key : String) :
    badString o key = false ↔ ∀ x, o.lookup (utf16 key) = some x → ∃ s, x = .string s := by
  simp only [badString, QJsonObject.contains, QJsonObject.value]
  cases o.lookup (utf16 key) with
  | none => simp
  | some x => cases x <;> simp [QJsonValue.isString]

theorem badInt_eq_false_iff (o : QJsonObject) (key : String) :
    badInt o key = false ↔
      ∀ x, o.lookup (utf16 key) = some x → ∃ n : Int, IsInt32 n ∧ x = .double n := by
  simp only [badInt, QJsonObject.contains, QJsonObject.value]
  cases o.lookup (utf16 key) with
  | none => simp
  | some x =>
    cases x with
    | double d =>
      simp only [Option.isSome_some, Option.getD_some, QJsonValue.isDouble, Bool.not_true,
        Bool.false_or, Bool.true_and, bne_eq_false_iff_eq, toDouble_eq_toInt_iff,
        Option.some.injEq, forall_eq', QJsonValue.double.injEq]
    | _ => simp [QJsonValue.isDouble]

theorem ruleFromJson_malformed (h : ¬ WellFormedRule v) : ruleFromJson v = { protocol := -1 } := by
  rw [ruleFromJson]
  split
  · rfl
  · rename_i hv
    refine absurd ?_ h
    simp only [Bool.or_eq_true, not_or, Bool.not_eq_true, Bool.not_eq_false'] at hv
    obtain ⟨⟨⟨⟨⟨⟨⟨ho, he⟩, hi⟩, hh⟩, hf⟩, hp⟩, h₁⟩, h₂⟩ := hv
    constructor
    · cases v with
      | object o => exact ⟨o, rfl⟩
      | _ => cases ho
    · simp only [List.forall_mem_cons, ← badBool_eq_false_iff]
      exact ⟨he, hi, fun _ h => absurd h List.not_mem_nil⟩
    · simp only [List.forall_mem_cons, ← badString_eq_false_iff]
      exact ⟨hh, hf, fun _ h => absurd h List.not_mem_nil⟩
    · simp only [List.forall_mem_cons, ← badInt_eq_false_iff]
      exact ⟨hp, h₁, h₂, fun _ h => absurd h List.not_mem_nil⟩

theorem validationErrorFrom_eq_none_iff (E : RegexEngine) (i : Nat)
    (rules : List AdvancedScopeRule) :
    validationErrorFrom E i rules = none ↔
      ∀ r ∈ rules, r.enabled = true → ruleError E r = none := by
  induction rules generalizing i with
  | nil => simp [validationErrorFrom]
  | cons r rs ih =>
    rw [validationErrorFrom, List.forall_mem_cons, ← ih (i + 1)]
    cases he : r.enabled with
    | false => simp
    | true => cases hr : ruleError E r <;> simp

theorem validationError_eq_none_iff (E : RegexEngine) (rules : List AdvancedScopeRule) :
    validationError E rules = none ↔
      rules.length ≤ kMaxRules ∧ ∀ r ∈ rules, r.enabled = true → ruleError E r = none := by
  rw [validationError]
  split
  · rename_i h
    simp [Nat.not_le.2 h]
  · rename_i h
    rw [validationErrorFrom_eq_none_iff]
    exact ⟨fun hr => ⟨Nat.le_of_not_lt h, hr⟩, And.right⟩

theorem validationError_single (E : RegexEngine) (r : AdvancedScopeRule) :
    validationError E [r] = none ↔ (r.enabled = true → ruleError E r = none) := by
  rw [validationError_eq_none_iff]
  constructor
  · intro h
    exact h.2 r (List.mem_singleton.2 rfl)
  · intro h
    refine ⟨by simp [kMaxRules], ?_⟩
    intro s hs
    rw [List.mem_singleton.1 hs]
    exact h

theorem denyRule_denies (E : RegexEngine) (globOut globIn tls : Bool) (host : QString)
    (port protocol : Int) (path : QString) :
    urlInScope E [denyRule] globOut globIn tls host port path = false ∧
    hostInScope E [denyRule] globOut globIn host = false ∧
    mayTargetHost E [denyRule] globOut globIn host = false ∧
    transportInScope E [denyRule] globOut globIn host port protocol = false := by
  have hr : ruleMatchesUrl E denyRule tls host port path = true :=
    (ruleMatchesUrl_iff ..).2 ⟨rfl, .inl rfl, rfl, rfl, .inl rfl⟩
  have ht : transportExcludes E host port protocol denyRule = true := by
    simp [transportExcludes, transportHit, denyRule, hostMatches, portInRange]
  have hx : (denyRule.enabled && !denyRule.isInclude &&
      ruleMatchesUrl E denyRule tls host port path) = true := by rw [hr]; rfl
  cases globOut with
  | true => exact ⟨rfl, rfl, rfl, rfl⟩
  | false =>
    refine ⟨?_, rfl, rfl, ?_⟩
    · simp only [urlInScope, List.any_cons, hx, Bool.true_or, Bool.false_eq_true, ↓reduceIte]
    · rw [transportInScope_eq_gate]
      simp only [gate, List.any_cons, ht, Bool.true_or, Bool.false_eq_true, ↓reduceIte]

structure ValidRule (E : RegexEngine) (r : AdvancedScopeRule) : Prop where
  hostSize : r.hostRegex.length ≤ kMaxPatternBytes
  fileSize : r.fileRegex.length ≤ kMaxPatternBytes
  hostValid : r.hostRegex ≠ [] → E.isValid (anchored r.hostRegex) = true
  fileValid : r.fileRegex ≠ [] → E.isValid (anchored r.fileRegex) = true
  protocol : ProtoAny ≤ r.protocol ∧ r.protocol ≤ ProtoHttps
  portFrom : 0 ≤ r.portFrom
  portTo : 0 ≤ r.portTo
  narrowed : ¬ (r.isInclude = false ∧ r.hostRegex = [] ∧ r.fileRegex = [] ∧ r.portFrom = 0 ∧
    r.protocol = ProtoAny)

theorem ValidRule.of_ruleError (h : ruleError E r = none) : ValidRule E r := by
  simp only [ruleError] at h
  split_ifs at h with hs hv hp hq hx
  simp only [not_or, Nat.not_lt, Int.not_lt, not_and, Bool.not_eq_false] at hs hv hp hq
  exact ⟨hs.1, hs.2, hv.1, hv.2, hp, hq.1, hq.2.2.1, hx⟩

theorem ValidRule.protocol_form (h : ValidRule E r) : (compiledForm r).protocol = r.protocol := by
  obtain ⟨h₁, h₂⟩ := h.protocol
  by_cases hp : r.protocol = ProtoHttp ∨ r.protocol = ProtoHttps
  · exact if_pos hp
  · have he : ProtoAny = r.protocol := by
      simp only [ProtoAny, ProtoHttp, ProtoHttps] at h₁ h₂ hp ⊢
      omega
    exact (if_neg hp).trans he

theorem ValidRule.portFrom_form (h : ValidRule E r) : (compiledForm r).portFrom = r.portFrom := by
  have hp := h.portFrom
  simp only [compiledForm]
  split <;> omega

theorem ValidRule.portTo_form (h : ValidRule E r) : (compiledForm r).portTo = r.portTo := by
  have hp := h.portTo
  simp only [compiledForm]
  split <;> omega

theorem ValidRule.compileRule_eq (h : ValidRule E r) :
    compileRule E r = some (compiledForm r) := by
  have hh : ¬ ((compiledForm r).hostAny = false ∧ E.isValid (compiledForm r).hostRx = false) := by
    rintro ⟨ha, hv⟩
    simp only [compiledForm] at ha hv
    simp only [ha, Bool.false_eq_true, ↓reduceIte] at hv
    rw [h.hostValid (List.isEmpty_eq_false_iff.1 ha)] at hv
    cases hv
  have hf : ¬ ((compiledForm r).fileAny = false ∧ E.isValid (compiledForm r).fileRx = false) := by
    rintro ⟨ha, hv⟩
    simp only [compiledForm] at ha hv
    simp only [ha, Bool.false_eq_true, ↓reduceIte] at hv
    rw [h.fileValid (List.isEmpty_eq_false_iff.1 ha)] at hv
    cases hv
  have hx : ¬ ((compiledForm r).isInclude = false ∧ (compiledForm r).hostAny = true ∧
      (compiledForm r).fileAny = true ∧ (compiledForm r).portFrom = 0 ∧
      (compiledForm r).protocol = ProtoAny) := by
    rw [h.protocol_form, h.portFrom_form]
    simp only [compiledForm, List.isEmpty_iff]
    exact h.narrowed
  rw [compileRule, if_neg (Nat.not_lt.2 h.hostSize), if_neg (Nat.not_lt.2 h.fileSize),
    if_neg hh, if_neg hf, if_neg hx]

theorem compileLoop_enabled (hlen : out.length + rs.length ≤ kMaxRules)
    (h : ∀ r ∈ rs, r.enabled = true → ruleError E r = none) :
    (compileLoop E out rs).filter (·.enabled) =
      out.filter (·.enabled) ++ (rs.filter (·.enabled)).map compiledForm := by
  induction rs generalizing out with
  | nil => simp [compileLoop]
  | cons r rs ih =>
    rw [List.length_cons] at hlen
    have hrs := fun s hs => h s (List.mem_cons_of_mem _ hs)
    rw [compileLoop, if_neg (by omega)]
    cases hc : compileRule E r with
    | none =>
      have hd : r.enabled = false := by
        rw [← Bool.not_eq_true]
        intro he
        rw [(ValidRule.of_ruleError (h r List.mem_cons_self he)).compileRule_eq] at hc
        cases hc
      have hlen' : out.length + rs.length ≤ kMaxRules := by omega
      simp only [ih hlen' hrs, List.filter_cons, hd, Bool.false_eq_true, ↓reduceIte]
    | some c =>
      have he : c = compiledForm r := compileRule_eq_form hc
      have hc' : c.enabled = r.enabled := by rw [he]; rfl
      have hlen' : (out ++ [c]).length + rs.length ≤ kMaxRules := by
        rw [List.length_append, List.length_singleton]
        omega
      simp only [ih hlen' hrs, List.filter_append, List.filter_cons, List.filter_nil, hc']
      cases r.enabled with
      | false => simp
      | true => simp [he]

def rawMatchesUrl (E : RegexEngine) (r : AdvancedScopeRule) (tls : Bool) (host : QString)
    (port : Int) (path : QString) : Bool :=
  (r.protocol = ProtoAny || r.protocol = requestProtocol tls) &&
  (r.hostRegex = [] || E.hasMatch (anchored r.hostRegex) host) &&
  (r.portFrom = 0 || (if r.portTo = 0 then decide (port = r.portFrom)
    else decide (r.portFrom ≤ port ∧ port ≤ r.portTo))) &&
  (r.fileRegex = [] || E.hasMatch (anchored r.fileRegex) path)

/-- The intended decision: glob deny, excludes, the include regime, glob allow. -/
def referenceDecision (E : RegexEngine) (raw : List AdvancedScopeRule) (globOut globIn tls : Bool)
    (host : QString) (port : Int) (path : QString) : Bool :=
  if globOut then false
  else if raw.any (fun r => r.enabled && !r.isInclude && rawMatchesUrl E r tls host port path) then
    false
  else if raw.any (fun r => r.enabled && r.isInclude) then
    raw.any (fun r => r.enabled && r.isInclude && rawMatchesUrl E r tls host port path)
  else globIn

theorem ValidRule.matches_form (h : ValidRule E r) (he : r.enabled = true) (tls : Bool)
    (host : QString) (port : Int) (path : QString) :
    ruleMatchesUrl E (compiledForm r) tls host port path =
      rawMatchesUrl E r tls host port path := by
  have hhost : hostMatches E (compiledForm r) host =
      (decide (r.hostRegex = []) || E.hasMatch (anchored r.hostRegex) host) := by
    simp only [hostMatches, compiledForm]
    cases r.hostRegex <;> simp
  have hfile : ((compiledForm r).fileAny = true ∨
      E.hasMatch (compiledForm r).fileRx path = true) ↔
      (r.fileRegex = [] ∨ E.hasMatch (anchored r.fileRegex) path = true) := by
    simp only [compiledForm]
    cases r.fileRegex <;> simp
  have hport : portInRange r.portFrom r.portTo port = (decide (r.portFrom = 0) ||
      (if r.portTo = 0 then decide (port = r.portFrom)
        else decide (r.portFrom ≤ port ∧ port ≤ r.portTo))) := by
    have h₁ := h.portFrom
    have h₂ := h.portTo
    have e₁ : r.portFrom ≤ 0 ↔ r.portFrom = 0 := by omega
    have e₂ : r.portTo ≤ 0 ↔ r.portTo = 0 := by omega
    simp only [portInRange, e₁, e₂, Bool.decide_and]
    split
    · rename_i h0
      simp only [h0, decide_true, Bool.true_or]
    · rename_i h0
      simp only [h0, decide_false, Bool.false_or]
  rw [Bool.eq_iff_iff, ruleMatchesUrl_iff, h.protocol_form, h.portFrom_form, h.portTo_form,
    hhost, hfile, hport]
  simp only [rawMatchesUrl, Bool.and_eq_true, Bool.or_eq_true, decide_eq_true_eq, and_assoc]
  exact ⟨And.right, fun hm => ⟨he, hm⟩⟩

theorem any_enabled (rules : List CompiledRule) (p : CompiledRule → Bool) :
    rules.any (fun r => r.enabled && p r) = (rules.filter (·.enabled)).any p := by
  rw [List.any_filter]

theorem compile_enabled (h : validationError E raw = none) :
    (compile E raw).filter (·.enabled) = (raw.filter (·.enabled)).map compiledForm := by
  obtain ⟨hlen, hr⟩ := (validationError_eq_none_iff E raw).1 h
  rw [compile, h]
  exact compileLoop_enabled (by simpa using hlen) hr

theorem any_compiled (hraw : validationError E raw = none) {p : CompiledRule → Bool}
    {q : AdvancedScopeRule → Bool}
    (hpq : ∀ r ∈ raw, r.enabled = true → p (compiledForm r) = q r) :
    (compile E raw).any (fun r => r.enabled && p r) = raw.any (fun r => r.enabled && q r) := by
  rw [any_enabled, compile_enabled hraw, List.any_map, ← List.any_filter, Bool.eq_iff_iff,
    List.any_eq_true, List.any_eq_true]
  constructor
  · rintro ⟨r, hm, hp⟩
    obtain ⟨hm', he⟩ := List.mem_filter.1 hm
    exact ⟨r, hm, (hpq r hm' he).symm.trans hp⟩
  · rintro ⟨r, hm, hp⟩
    obtain ⟨hm', he⟩ := List.mem_filter.1 hm
    exact ⟨r, hm, (hpq r hm' he).trans hp⟩

theorem urlInScope_compile (h : validationError E raw = none) (globOut globIn tls : Bool)
    (host : QString) (port : Int) (path : QString) :
    urlInScope E (compile E raw) globOut globIn tls host port path =
      referenceDecision E raw globOut globIn tls host port path := by
  obtain ⟨_, hr⟩ := (validationError_eq_none_iff E raw).1 h
  have hm := fun r hm he => (ValidRule.of_ruleError (hr r hm he)).matches_form he
    tls host port path
  have hx := any_compiled h
    (p := fun c => !c.isInclude && ruleMatchesUrl E c tls host port path)
    (q := fun r => !r.isInclude && rawMatchesUrl E r tls host port path)
    (fun r hm' he => by rw [hm r hm' he]; rfl)
  have hi := any_compiled h
    (p := fun c => c.isInclude && ruleMatchesUrl E c tls host port path)
    (q := fun r => r.isInclude && rawMatchesUrl E r tls host port path)
    (fun r hm' he => by rw [hm r hm' he]; rfl)
  have hh := any_compiled h (p := fun c => c.isInclude) (q := fun r => r.isInclude)
    (fun _ _ _ => rfl)
  simp only [urlInScope, referenceDecision, hasEnabledInclude, Bool.and_assoc, hx, hi, hh]

def Refused (E : RegexEngine) (arr : List QJsonValue) : Prop :=
  (∃ v ∈ arr, ¬ WellFormedRule v) ∨ (∃ r ∈ rulesFromJson arr, validationError E [r] ≠ none) ∨
    kMaxRules < arr.length

theorem validationError_ne_none_iff_refused (E : RegexEngine) (arr : List QJsonValue) :
    validationError E (rulesFromJson arr) ≠ none ↔ Refused E arr := by
  have hsent : validationError E [{ protocol := -1 }] ≠ none := by
    rw [Ne, validationError_single]
    intro h
    exact absurd (ValidRule.of_ruleError (h rfl)).protocol.1 (by decide)
  have hlen : (rulesFromJson arr).length = arr.length := List.length_map ..
  rw [Ne, validationError_eq_none_iff, hlen, not_and_or, Nat.not_le]
  constructor
  · rintro (h | h)
    · exact .inr (.inr h)
    · refine .inr (.inl ?_)
      simp only [not_forall] at h
      obtain ⟨r, hr, he, hn⟩ := h
      exact ⟨r, hr, fun hv => hn ((validationError_single E r).1 hv he)⟩
  · rintro (⟨v, hv, hw⟩ | ⟨r, hr, hn⟩ | h)
    · refine .inr (fun hall => hsent ?_)
      have hm : ruleFromJson v ∈ rulesFromJson arr := List.mem_map_of_mem hv
      rw [ruleFromJson_malformed hw] at hm
      exact (validationError_single E _).2 (hall _ hm)
    · exact .inr (fun hall => hn ((validationError_single E r).2 (hall r hr)))
    · exact .inl h

/-- Compiling imported rules fails closed, and otherwise decides as the raw rules say. -/
theorem compile_fails_closed_or_exact (E : RegexEngine) (arr : List QJsonValue) :
    (Refused E arr → ∀ globOut globIn tls host port protocol path,
      urlInScope E (compile E (rulesFromJson arr)) globOut globIn tls host port path = false ∧
      hostInScope E (compile E (rulesFromJson arr)) globOut globIn host = false ∧
      mayTargetHost E (compile E (rulesFromJson arr)) globOut globIn host = false ∧
      transportInScope E (compile E (rulesFromJson arr)) globOut globIn host port protocol =
        false) ∧
    (¬ Refused E arr →
      (∀ globOut globIn tls host port path,
        urlInScope E (compile E (rulesFromJson arr)) globOut globIn tls host port path =
          referenceDecision E (rulesFromJson arr) globOut globIn tls host port path) ∧
      ((rulesFromJson arr).filter (·.enabled)).map (compileRule E) =
        ((compile E (rulesFromJson arr)).filter (·.enabled)).map some) := by
  constructor
  · intro h globOut globIn tls host port protocol path
    have hv := (validationError_ne_none_iff_refused E arr).2 h
    rw [compile, if_pos (Option.isSome_iff_ne_none.2 hv)]
    exact denyRule_denies E globOut globIn tls host port protocol path
  · intro h
    have hv := Decidable.not_not.1 (mt (validationError_ne_none_iff_refused E arr).1 h)
    refine ⟨urlInScope_compile hv, ?_⟩
    rw [compile_enabled hv, List.map_map]
    apply List.map_congr_left
    intro r hr
    obtain ⟨hm, he⟩ := List.mem_filter.1 hr
    have hr := (validationError_eq_none_iff E _).1 hv |>.2 r hm he
    exact (ValidRule.of_ruleError hr).compileRule_eq

def anyEngine : RegexEngine := ⟨fun _ => true, fun _ _ => true⟩

theorem wellFormedRule_empty : WellFormedRule (.object []) := by
  constructor
  · exact ⟨[], rfl⟩
  · intro key _ x hx
    cases hx
  · intro key _ x hx
    cases hx
  · intro key _ x hx
    cases hx

/-- One rule over the limit denies everything although each of the rules is valid alone. -/
theorem oversized_rules_denied :
    ¬ ∀ (E : RegexEngine) (arr : List QJsonValue),
      ¬ ((∃ v ∈ arr, ¬ WellFormedRule v) ∨
        ∃ r ∈ rulesFromJson arr, validationError E [r] ≠ none) →
      ∀ globOut globIn tls host port path,
        urlInScope E (compile E (rulesFromJson arr)) globOut globIn tls host port path =
          referenceDecision E (rulesFromJson arr) globOut globIn tls host port path := by
  intro h
  have hrules : rulesFromJson (List.replicate 257 (.object [])) =
      List.replicate 257 (ruleFromJson (.object [])) := List.map_replicate
  have hvalid : validationError anyEngine [ruleFromJson (.object [])] = none := rfl
  have hfine : ¬ ((∃ v ∈ List.replicate 257 (QJsonValue.object []), ¬ WellFormedRule v) ∨
      ∃ r ∈ rulesFromJson (List.replicate 257 (.object [])),
        validationError anyEngine [r] ≠ none) := by
    rintro (⟨v, hv, hw⟩ | ⟨r, hr, hn⟩)
    · rw [List.eq_of_mem_replicate hv] at hw
      exact hw wellFormedRule_empty
    · rw [hrules] at hr
      rw [List.eq_of_mem_replicate hr] at hn
      exact hn hvalid
  have hd := h anyEngine _ hfine false true false [] 80 []
  rw [hrules] at hd
  have hl : validationError anyEngine (List.replicate 257 (ruleFromJson (.object []))) ≠ none := by
    rw [validationError, if_pos (by rw [List.length_replicate]; decide)]
    exact Option.some_ne_none _
  rw [compile, if_pos (Option.isSome_iff_ne_none.2 hl),
    (denyRule_denies anyEngine false true false [] 80 ProtoAny []).1] at hd
  have hr : referenceDecision anyEngine (List.replicate 257 (ruleFromJson (.object [])))
      false true false [] 80 [] = true := by
    simp only [referenceDecision, List.any_replicate]
    rfl
  rw [hr] at hd
  cases hd

end Nullock.ScopeLogic

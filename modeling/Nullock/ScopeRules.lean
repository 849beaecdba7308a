import Nullock.Text

namespace Nullock.ScopeLogic

structure QRegularExpression where
  pattern : QString := []
  caseInsensitive : Bool := false
deriving DecidableEq

/-- What the scope rules use of the regular-expression library. -/
structure RegexEngine where
  isValid : QRegularExpression → Bool
  hasMatch : QRegularExpression → QString → Bool

def ProtoAny : Int := 0
def ProtoHttp : Int := 1
def ProtoHttps : Int := 2

def kMaxPatternBytes : Nat := 4096
def kMaxRules : Nat := 256

structure AdvancedScopeRule where
  enabled : Bool := true
  isInclude : Bool := true
  protocol : Int := ProtoAny
  hostRegex : QString := []
  portFrom : Int := 0
  portTo : Int := 0
  fileRegex : QString := []
deriving DecidableEq

structure CompiledRule where
  enabled : Bool := false
  isInclude : Bool := true
  protocol : Int := ProtoAny
  hostAny : Bool := true
  hostRx : QRegularExpression := {}
  portFrom : Int := 0
  portTo : Int := 0
  fileAny : Bool := true
  fileRx : QRegularExpression := {}
  constrainsBeyondHost : Bool := false
deriving DecidableEq

def anchored (pat : QString) : QRegularExpression :=
  ⟨utf16 "\\A(?:" ++ pat ++ utf16 ")\\z", true⟩

def ruleError (E : RegexEngine) (r : AdvancedScopeRule) : Option String :=
  if kMaxPatternBytes < r.hostRegex.length ∨ kMaxPatternBytes < r.fileRegex.length then
    some "pattern exceeds the 4096-character limit"
  else if (r.hostRegex ≠ [] ∧ E.isValid (anchored r.hostRegex) = false) ∨
      (r.fileRegex ≠ [] ∧ E.isValid (anchored r.fileRegex) = false) then
    some "invalid regular expression"
  else if r.protocol < ProtoAny ∨ ProtoHttps < r.protocol then some "invalid protocol"
  else if r.portFrom < 0 ∨ 65535 < r.portFrom ∨ r.portTo < 0 ∨ 65535 < r.portTo ∨
      (0 < r.portTo ∧ (r.portFrom = 0 ∨ r.portTo < r.portFrom)) then
    some "invalid port range"
  else if r.isInclude = false ∧ r.hostRegex = [] ∧ r.fileRegex = [] ∧ r.portFrom = 0 ∧
      r.protocol = ProtoAny then
    some "empty exclusion; use an explicit host pattern to exclude all targets"
  else none

def validationErrorFrom (E : RegexEngine) : Nat → List AdvancedScopeRule → Option String
  | _, [] => none
  | i, r :: rs =>
    if r.enabled = false then validationErrorFrom E (i + 1) rs
    else match ruleError E r with
      | some reason => some ("Advanced scope rule " ++ toString (i + 1) ++ ": " ++ reason)
      | none => validationErrorFrom E (i + 1) rs

def validationError (E : RegexEngine) (rules : List AdvancedScopeRule) : Option String :=
  if kMaxRules < rules.length then some "Advanced scope exceeds the 256-rule limit"
  else validationErrorFrom E 0 rules

def compiledForm (r : AdvancedScopeRule) : CompiledRule :=
  let protocol := if r.protocol = ProtoHttp ∨ r.protocol = ProtoHttps then r.protocol else ProtoAny
  let portFrom := if 0 < r.portFrom then r.portFrom else 0
  let fileAny := r.fileRegex.isEmpty
  { enabled := r.enabled
    isInclude := r.isInclude
    protocol := protocol
    hostAny := r.hostRegex.isEmpty
    hostRx := if r.hostRegex.isEmpty then {} else anchored r.hostRegex
    portFrom := portFrom
    portTo := if 0 < r.portTo then r.portTo else 0
    fileAny := fileAny
    fileRx := if fileAny then {} else anchored r.fileRegex
    constrainsBeyondHost := protocol ≠ ProtoAny || 0 < portFrom || !fileAny }

/-- One pass of the compile loop; `none` is a `continue`. -/
def compileRule (E : RegexEngine) (r : AdvancedScopeRule) : Option CompiledRule :=
  let c := compiledForm r
  if kMaxPatternBytes < r.hostRegex.length then none
  else if kMaxPatternBytes < r.fileRegex.length then none
  else if c.hostAny = false ∧ E.isValid c.hostRx = false then none
  else if c.fileAny = false ∧ E.isValid c.fileRx = false then none
  else if c.isInclude = false ∧ c.hostAny = true ∧ c.fileAny = true ∧ c.portFrom = 0 ∧
      c.protocol = ProtoAny then none
  else some c

def compileLoop (E : RegexEngine) (out : List CompiledRule) :
    List AdvancedScopeRule → List CompiledRule
  | [] => out
  | r :: rs =>
    if kMaxRules ≤ out.length then out
    else match compileRule E r with
      | none => compileLoop E out rs
      | some c => compileLoop E (out ++ [c]) rs

def denyRule : CompiledRule := { enabled := true, isInclude := false }

def compile (E : RegexEngine) (rules : List AdvancedScopeRule) : List CompiledRule :=
  if (validationError E rules).isSome then [denyRule] else compileLoop E [] rules

def hasEnabledInclude (rules : List CompiledRule) : Bool :=
  rules.any (fun r => r.enabled && r.isInclude)

def portInRange (portFrom portTo port : Int) : Bool :=
  if portFrom ≤ 0 then true
  else if portTo ≤ 0 then port = portFrom
  else portFrom ≤ port && port ≤ portTo

def requestProtocol (tls : Bool) : Int := if tls then ProtoHttps else ProtoHttp

def hostMatches (E : RegexEngine) (r : CompiledRule) (host : QString) : Bool :=
  r.hostAny || E.hasMatch r.hostRx host

def ruleMatchesUrl (E : RegexEngine) (r : CompiledRule) (tls : Bool) (host : QString)
    (port : Int) (path : QString) : Bool :=
  if r.enabled = false then false
  else if r.protocol ≠ ProtoAny ∧ r.protocol ≠ requestProtocol tls then false
  else if r.hostAny = false ∧ E.hasMatch r.hostRx host = false then false
  else if portInRange r.portFrom r.portTo port = false then false
  else if r.fileAny = false ∧ E.hasMatch r.fileRx path = false then false
  else true

def urlInScope (E : RegexEngine) (rules : List CompiledRule) (globOut globIn tls : Bool)
    (host : QString) (port : Int) (path : QString) : Bool :=
  if globOut then false
  else if rules.any (fun r =>
      r.enabled && !r.isInclude && ruleMatchesUrl E r tls host port path) then false
  else if hasEnabledInclude rules then
    rules.any (fun r => r.enabled && r.isInclude && ruleMatchesUrl E r tls host port path)
  else globIn

def hostInScope (E : RegexEngine) (rules : List CompiledRule) (globOut globIn : Bool)
    (host : QString) : Bool :=
  if globOut then false
  else if rules.any (fun r => r.enabled && !r.isInclude && hostMatches E r host) then false
  else if hasEnabledInclude rules then
    rules.any (fun r => r.enabled && r.isInclude && hostMatches E r host)
  else globIn

def mayTargetHost (E : RegexEngine) (rules : List CompiledRule) (globOut globIn : Bool)
    (host : QString) : Bool :=
  if globOut then false
  else if rules.any (fun r =>
      r.enabled && !r.isInclude && !r.constrainsBeyondHost && hostMatches E r host) then false
  else if hasEnabledInclude rules = false then globIn
  else rules.any (fun r => r.enabled && r.isInclude && hostMatches E r host)

/-- The loop of `transportInScope`; `none` is its early `return false`. -/
def transportLoop (E : RegexEngine) (host : QString) (port protocol : Int) (included : Bool) :
    List CompiledRule → Option Bool
  | [] => some included
  | r :: rs =>
    if !r.enabled || (!r.hostAny && !E.hasMatch r.hostRx host) ||
        !portInRange r.portFrom r.portTo port then
      transportLoop E host port protocol included rs
    else if !r.isInclude then
      if protocol = ProtoAny ∨ r.protocol = ProtoAny ∨ protocol = r.protocol then none
      else transportLoop E host port protocol included rs
    else if r.fileAny && (r.protocol = ProtoAny || protocol = r.protocol) then
      transportLoop E host port protocol true rs
    else transportLoop E host port protocol included rs

def transportInScope (E : RegexEngine) (rules : List CompiledRule) (globOut globIn : Bool)
    (host : QString) (port protocol : Int) : Bool :=
  if globOut then false
  else match transportLoop E host port protocol false rules with
    | none => false
    | some included => if hasEnabledInclude rules then included else globIn

end Nullock.ScopeLogic

import Nullock.ScopeGates

namespace Nullock.ScopeLogic

def hasEnabledExclude (rules : List CompiledRule) : Bool :=
  rules.any (fun r => r.enabled && !r.isInclude)

def configured (rules : List CompiledRule) : Bool :=
  hasEnabledInclude rules || hasEnabledExclude rules

end Nullock.ScopeLogic

namespace Nullock.Proxy
open ScopeLogic

structure Scope where
  inScope : List QRegularExpression
  outOfScope : List QRegularExpression
  advancedScope : List CompiledRule

section Queries
variable (E : RegexEngine) (scope : Scope)

/-- Whether an exclude matches the host, and whether the includes take it. -/
def globVerdict (host : QString) : Bool × Bool :=
  (scope.outOfScope.any (fun rx => E.hasMatch rx host),
    scope.inScope.isEmpty || scope.inScope.any (fun rx => E.hasMatch rx host))

def isInScope (host : QString) : Bool :=
  let (globOut, globIn) := globVerdict E scope host
  if !configured scope.advancedScope then !globOut && globIn
  else hostInScope E scope.advancedScope globOut globIn host

def isUrlInScope (tls : Bool) (host : QString) (port : Int) (path : QString) : Bool :=
  let (globOut, globIn) := globVerdict E scope host
  if !configured scope.advancedScope then !globOut && globIn
  else urlInScope E scope.advancedScope globOut globIn tls host port path

def isTransportInScope (host : QString) (port protocol : Int) : Bool :=
  let (globOut, globIn) := globVerdict E scope host
  transportInScope E scope.advancedScope globOut globIn host port protocol

end Queries

theorem gate_unconfigured {excludes includes : CompiledRule → Bool}
    (h : configured rules = false)
    (hx : ∀ r, excludes r = true → (r.enabled && !r.isInclude) = true) :
    gate globOut globIn rules excludes includes = (!globOut && globIn) := by
  rw [configured, Bool.or_eq_false_iff] at h
  have hexcludes : rules.any excludes = false := by
    rw [List.any_eq_false]
    intro r hr he
    exact List.any_eq_false.1 h.2 r hr (hx r he)
  cases globOut with
  | true => rfl
  | false =>
    simp only [gate, hexcludes, h.1, Bool.false_eq_true, ↓reduceIte, Bool.not_false, Bool.true_and]

theorem isInScope_eq_gate (E : RegexEngine) (scope : Scope) (host : QString) :
    isInScope E scope host = hostInScope E scope.advancedScope (globVerdict E scope host).1
      (globVerdict E scope host).2 host := by
  rw [isInScope]
  cases hc : configured scope.advancedScope with
  | true => rfl
  | false =>
    rw [hostInScope_eq_gate, gate_unconfigured hc]
    · rfl
    · intro r hr
      rw [Bool.and_eq_true] at hr
      exact hr.1

theorem isUrlInScope_eq_gate (E : RegexEngine) (scope : Scope) (tls : Bool) (host : QString)
    (port : Int) (path : QString) :
    isUrlInScope E scope tls host port path =
      urlInScope E scope.advancedScope (globVerdict E scope host).1 (globVerdict E scope host).2 tls
        host port path := by
  rw [isUrlInScope]
  cases hc : configured scope.advancedScope with
  | true => rfl
  | false =>
    rw [urlInScope_eq_gate, gate_unconfigured hc]
    · rfl
    · intro r hr
      rw [Bool.and_eq_true] at hr
      exact hr.1

theorem transport_allows_path (tls : Bool)
    (h : isTransportInScope E scope host port (requestProtocol tls) = true) (path : QString) :
    isUrlInScope E scope tls host port path = true := by
  rw [isUrlInScope_eq_gate]
  exact transport_allows_url (.inr rfl) h path

end Nullock.Proxy

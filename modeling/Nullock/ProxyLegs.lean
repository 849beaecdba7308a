import Nullock.HttpResponses
import Nullock.RequestRewriting

namespace Nullock

/-- `QString::toUShort`: what is no number of 16 bits counts as zero. -/
def QString.toUShort (s : QString) : Nat :=
  match QString.toLongLong s with
  | none => 0
  | some n => if 0 ≤ n ∧ n < 2 ^ 16 then n.toNat else 0

end Nullock

namespace Nullock.Proxy
open ScopeLogic HttpLogic

/-- What the proxy uses of the URL library to find the destination of a plain request. -/
structure UserUrls where
  Url : Type
  fromUserInput : QString → Url
  isValid : Url → Bool
  host : Url → QString
  /-- The port, or 80. -/
  port : Url → Nat
  encodedPath : Url → QString
  encodedQuery : Url → Option QString

def rewriteHostPort (U : UserUrls) (req : HttpRequest) : ProxiedRequest :=
  let url := U.fromUserInput req.target
  if U.isValid url && !(U.host url).isEmpty then
    let path := match U.encodedQuery url with
      | none => U.encodedPath url
      | some query => U.encodedPath url ++ utf16 "?" ++ query
    { req with
      host := U.host url
      port := U.port url % 2 ^ 16
      path := if path.isEmpty then utf16 "/" else path
      tls := false }
  else
    let hostHeader := findHeader req.headers (utf16 "Host")
    match indexOf (utf16 ":") hostHeader with
    | some colon =>
      { req with
        host := hostHeader.take colon
        port := QString.toUShort (hostHeader.drop (colon + 1))
        path := req.target
        tls := false }
    | none => { req with host := hostHeader, port := 80, path := req.target, tls := false }

def connectTarget (target : QString) : Option (QString × Nat) :=
  match indexOf (utf16 ":") target with
  | none => none
  | some colon =>
    if colon = 0 then none
    else some (target.take colon, QString.toUShort (target.drop (colon + 1)))

def tunnelled (host : QString) (port : Nat) (req : HttpRequest) : ProxiedRequest :=
  { req with
    host := host
    port := port
    path := if req.path.head? = some 0x2F then req.path else utf16 "/" ++ req.path
    tls := true }

inductive Notice where
  | requestReceived (req : ProxiedRequest)
  | responseReceived (req : ProxiedRequest) (resp : HttpResponse)
  | pend (bytes : QByteArray) (host : QString) (port : Nat) (tls : Bool)
  | pendResponse (bytes : QByteArray) (host : QString) (port : Nat) (tls forceHold : Bool)

structure InterceptResult where
  dropped : Bool
  bytes : QByteArray
  holdResponse : Bool := false

structure Interceptor where
  pend : QByteArray → QString → Nat → Bool → InterceptResult
  responsesEnabled : Bool
  pendResponse : QByteArray → QString → Nat → Bool → Bool → InterceptResult

inductive OriginAnswer where
  | response (resp : HttpResponse)
  | streamError
  | gone

/-- What an exchange meets: the extensions and the rules, the controller, and both peers. -/
structure Surroundings where
  applyRequestMutation : ProxiedRequest → ProxiedRequest
  applyRequestRules : ProxiedRequest → ProxiedRequest
  applyResponseMutation : ProxiedRequest → HttpResponse → HttpResponse
  applyResponseRules : ProxiedRequest → HttpResponse → HttpResponse
  interceptController : Option Interceptor
  connected : Bool
  answer : ProxiedRequest → QByteArray → OriginAnswer
  clientWritten : Bool

namespace Surroundings
variable (w : Surroundings)

def rewritten (req : ProxiedRequest) : ProxiedRequest :=
  w.applyRequestRules (w.applyRequestMutation req)

def rewrittenResponse (req : ProxiedRequest) (resp : HttpResponse) : HttpResponse :=
  w.applyResponseRules req (w.applyResponseMutation req resp)

/-- A request is handed to the controller, if there is one and the leg asks for it. -/
def pendRequest (asked : Bool) (bytes : QByteArray) (host : QString) (port : Nat) (tls : Bool) :
    List Notice × InterceptResult :=
  match w.interceptController with
  | none => ([], { dropped := false, bytes := bytes })
  | some ic =>
    if asked then ([.pend bytes host port tls], ic.pend bytes host port tls)
    else ([], { dropped := false, bytes := bytes })

def resolveResponseForClient (resp : HttpResponse) (host : QString) (port : Nat)
    (tls inScope forceHold : Bool) : List Notice × InterceptResult :=
  let bytes := serializeResponse resp
  match w.interceptController with
  | none => ([], { dropped := false, bytes := bytes })
  | some ic =>
    if inScope && (ic.responsesEnabled || forceHold) then
      ([.pendResponse bytes host port tls forceHold], ic.pendResponse bytes host port tls forceHold)
    else ([], { dropped := false, bytes := bytes })

def run (E : RegexEngine) (scope : Scope) (logOutOfScope : Bool) (req : ProxiedRequest) :
    List Notice :=
  let inScope := isUrlInScope E scope req.tls req.host req.port req.path
  let logIt := inScope || logOutOfScope
  let received := if logIt then [Notice.requestReceived req] else []
  let req := w.rewritten req
  if !w.connected then received
  else
    let (pended, ir) :=
      w.pendRequest inScope (serializeRequestForOrigin req.toHttpRequest) req.host req.port false
    if ir.dropped then received ++ pended
    else
      match w.answer req ir.bytes with
      | .response resp =>
        let resp := w.rewrittenResponse req resp
        let answered := if logIt then [Notice.responseReceived req resp] else []
        if resp.statusCode = 101 ∧
            equalsIgnoreCase (findHeader req.headers (utf16 "Upgrade")) (utf16 "websocket") then
          received ++ pended ++ answered
        else
          received ++ pended ++ answered ++
            (w.resolveResponseForClient resp req.host req.port false inScope ir.holdResponse).1
      | _ => received ++ pended

def http1Turn (host : QString) (port : Nat) (req : ProxiedRequest) : List Notice × Bool :=
  let received := [Notice.requestReceived req]
  let req := w.rewritten req
  let (pended, ir) :=
    w.pendRequest true (serializeRequestForOrigin req.toHttpRequest) host port true
  if ir.dropped then (received ++ pended, false)
  else
    match w.answer req ir.bytes with
    | .response resp =>
      let resp := w.rewrittenResponse req resp
      let answered := received ++ pended ++ [Notice.responseReceived req resp]
      if resp.statusCode = 101 then (answered, false)
      else
        let (held, ir) := w.resolveResponseForClient resp host port true true ir.holdResponse
        (answered ++ held,
          !ir.dropped && w.clientWritten && !endsTunnel req.toHttpRequest resp)
    | _ => (received ++ pended, false)

def http2UpstreamTurn (host : QString) (port : Nat) (req : ProxiedRequest) : List Notice × Bool :=
  let received := [Notice.requestReceived req]
  let req := w.rewritten req
  let (pended, ir) :=
    w.pendRequest true (serializeRequestForOrigin req.toHttpRequest) host port true
  if ir.dropped then (received ++ pended, false)
  else
    match w.answer req [] with
    | .response resp =>
      let resp := w.rewrittenResponse req resp
      let answered := received ++ pended ++ [Notice.responseReceived req resp]
      let (held, ir) := w.resolveResponseForClient resp host port true true ir.holdResponse
      (answered ++ held, !ir.dropped && w.clientWritten &&
        !equalsIgnoreCase (findHeader req.headers (utf16 "Connection")) (utf16 "close"))
    | _ => (received ++ pended, false)

/-- One stream of a browser that speaks HTTP/2; only a dead origin ends the tunnel. -/
def browserHttp2Turn (host : QString) (port : Nat) (req : ProxiedRequest) : List Notice × Bool :=
  let received := [Notice.requestReceived req]
  let req := w.rewritten req
  let (pended, ir) :=
    w.pendRequest true (serializeRequestForOrigin req.toHttpRequest) host port true
  if ir.dropped then (received ++ pended, true)
  else
    match w.answer req (serializeRequestForOrigin req.toHttpRequest) with
    | .response resp =>
      (received ++ pended ++ [Notice.responseReceived req (w.rewrittenResponse req resp)], true)
    | .streamError => (received ++ pended, true)
    | .gone => (received ++ pended, false)

end Surroundings

inductive TunnelLeg where
  | http1
  | http2Upstream
  | browserHttp2

def TunnelLeg.turn : TunnelLeg → Surroundings → QString → Nat → ProxiedRequest →
    List Notice × Bool
  | .http1 => Surroundings.http1Turn
  | .http2Upstream => Surroundings.http2UpstreamTurn
  | .browserHttp2 => Surroundings.browserHttp2Turn

structure Arrival where
  request : HttpRequest
  scope : Scope
  surroundings : Surroundings

structure Served where
  request : ProxiedRequest
  scope : Scope
  decrypted : Bool
  notices : List Notice

def tunnelServes (leg : TunnelLeg) (host : QString) (port : Nat) : List Arrival → List Served
  | [] => []
  | a :: arrivals =>
    let req := tunnelled host port a.request
    let (notices, goesOn) := leg.turn a.surroundings host port req
    ⟨req, a.scope, true, notices⟩ ::
      if goesOn then tunnelServes leg host port arrivals else []

inductive ClientConnection where
  | plain (arrival : Arrival)
  | tunnel (target : QString) (scope : Scope) (certified : Bool) (leg : TunnelLeg)
      (arrivals : List Arrival)

def ClientConnection.served (E : RegexEngine) (U : UserUrls) (logOutOfScope : Bool) :
    ClientConnection → List Served
  | .plain a =>
    let req := rewriteHostPort U a.request
    [⟨req, a.scope, false, a.surroundings.run E a.scope logOutOfScope req⟩]
  | .tunnel target scope certified leg arrivals =>
    match connectTarget target with
    | none => []
    | some (host, port) =>
      if isInScope E scope host && certified then tunnelServes leg host port arrivals else []

def Served.inScope (E : RegexEngine) (s : Served) : Bool :=
  isUrlInScope E s.scope s.request.tls s.request.host s.request.port s.request.path

def ClientConnection.scope : ClientConnection → Scope
  | .plain a => a.scope
  | .tunnel _ scope _ _ _ => scope

def Served.Included (E : RegexEngine) (s : Served) : Prop :=
  hasEnabledInclude s.scope.advancedScope = false ∨
    ∃ r ∈ s.scope.advancedScope, (r.enabled && r.isInclude) = true ∧
      ruleMatchesUrl E r s.request.tls s.request.host s.request.port s.request.path = true

def ClientConnection.Quiet (E : RegexEngine) (U : UserUrls) (c : ClientConnection) : Prop :=
  ∀ s ∈ c.served E U false, s.inScope E = false → s.notices = []

theorem isUrlInScope_iff (h : isInScope E scope host = true) (tls : Bool) (port : Int)
    (path : QString) :
    isUrlInScope E scope tls host port path = true ↔
      hasEnabledInclude scope.advancedScope = false ∨
        ∃ r ∈ scope.advancedScope, (r.enabled && r.isInclude) = true ∧
          ruleMatchesUrl E r tls host port path = true := by
  rw [isInScope_eq_gate] at h
  rw [isUrlInScope_eq_gate]
  have hexclude : scope.advancedScope.any (fun r =>
      r.enabled && !r.isInclude && ruleMatchesUrl E r tls host port path) = false := by
    rw [List.any_eq_false]
    intro r hr hx
    rw [Bool.and_eq_true, Bool.and_eq_true, Bool.not_eq_true'] at hx
    rw [host_allows_no_exclude h hr hx.1.2] at hx
    cases hx.2
  rw [hostInScope] at h
  rw [urlInScope, hexclude]
  cases hout : (globVerdict E scope host).1 with
  | true =>
    rw [hout] at h
    cases h
  | false =>
    rw [hout] at h
    simp only [Bool.false_eq_true, ↓reduceIte] at h ⊢
    cases hinc : hasEnabledInclude scope.advancedScope with
    | true =>
      simp only [↓reduceIte, List.any_eq_true, Bool.true_eq_false, false_or, Bool.and_eq_true]
    | false =>
      simp only [hinc, Bool.false_eq_true, ↓reduceIte] at h
      split at h
      · cases h
      · simp only [Bool.false_eq_true, ↓reduceIte, h, true_or]

theorem Surroundings.run_quiet (w : Surroundings) (req : ProxiedRequest)
    (h : isUrlInScope E scope req.tls req.host req.port req.path = false) :
    w.run E scope false req = [] := by
  have hpend (bytes : QByteArray) (host : QString) (port : Nat) (tls : Bool) :
      (w.pendRequest false bytes host port tls).1 = [] := by
    rw [Surroundings.pendRequest]
    cases w.interceptController <;> rfl
  have hresolve (resp : HttpResponse) (host : QString) (port : Nat) (tls forceHold : Bool) :
      (w.resolveResponseForClient resp host port tls false forceHold).1 = [] := by
    rw [Surroundings.resolveResponseForClient]
    cases w.interceptController <;> rfl
  rw [Surroundings.run, h]
  simp only [Bool.or_self, Bool.false_eq_true, ↓reduceIte, hpend, hresolve, List.append_nil,
    ite_self]
  split
  · rfl
  · split
    · rfl
    · split <;> rfl

theorem TunnelLeg.turn_notices (leg : TunnelLeg) (w : Surroundings) (host : QString) (port : Nat)
    (req : ProxiedRequest) :
    ∃ more, (leg.turn w host port req).1 = .requestReceived req :: more := by
  cases leg with
  | http1 =>
    rw [TunnelLeg.turn, Surroundings.http1Turn]
    dsimp only
    split
    · exact ⟨_, rfl⟩
    · split
      · split
        · exact ⟨_, rfl⟩
        · exact ⟨_, rfl⟩
      · exact ⟨_, rfl⟩
  | http2Upstream =>
    rw [TunnelLeg.turn, Surroundings.http2UpstreamTurn]
    dsimp only
    split
    · exact ⟨_, rfl⟩
    · split
      · exact ⟨_, rfl⟩
      · exact ⟨_, rfl⟩
  | browserHttp2 =>
    rw [TunnelLeg.turn, Surroundings.browserHttp2Turn]
    dsimp only
    split
    · exact ⟨_, rfl⟩
    · split
      · exact ⟨_, rfl⟩
      · exact ⟨_, rfl⟩
      · exact ⟨_, rfl⟩

theorem tunnelServes_spec (leg : TunnelLeg) (host : QString) (port : Nat)
    (arrivals : List Arrival) :
    ∀ s ∈ tunnelServes leg host port arrivals,
      s.decrypted = true ∧ s.notices ≠ [] ∧ s.request.host = host ∧ s.request.tls = true := by
  induction arrivals with
  | nil => exact fun _ hs => (nomatch hs)
  | cons a arrivals ih =>
    rw [tunnelServes, List.forall_mem_cons]
    constructor
    · obtain ⟨more, hmore⟩ := leg.turn_notices a.surroundings host port
        (tunnelled host port a.request)
      refine ⟨rfl, ?_, rfl, rfl⟩
      dsimp only
      rw [hmore]
      exact List.cons_ne_nil _ _
    · split
      · exact ih
      · exact fun _ hs => (nomatch hs)

theorem Served.included_of_inScope {s : Served} (h : s.inScope E = true) : s.Included E := by
  rw [Served.inScope, isUrlInScope_eq_gate, urlInScope] at h
  rw [Served.Included]
  cases hinc : hasEnabledInclude s.scope.advancedScope with
  | false => exact .inl rfl
  | true =>
    right
    simp only [hinc, ↓reduceIte] at h
    split at h
    · cases h
    · split at h
      · cases h
      · obtain ⟨r, hr, hmatch⟩ := List.any_eq_true.1 h
        rw [Bool.and_eq_true] at hmatch
        exact ⟨r, hr, hmatch⟩

theorem ClientConnection.decrypted_host (c : ClientConnection) (hs : s ∈ c.served E U false)
    (hd : s.decrypted = true) :
    s.notices ≠ [] ∧ isInScope E c.scope s.request.host = true := by
  cases c with
  | plain a =>
    rw [ClientConnection.served, List.mem_singleton] at hs
    rw [hs] at hd
    cases hd
  | tunnel target scope certified leg arrivals =>
    rw [ClientConnection.served] at hs
    cases ht : connectTarget target with
    | none =>
      rw [ht] at hs
      cases hs
    | some destination =>
      obtain ⟨host, port⟩ := destination
      simp only [ht] at hs
      split at hs
      · rename_i hin
        rw [Bool.and_eq_true] at hin
        obtain ⟨_, htold, hhost, _⟩ := tunnelServes_spec leg host port arrivals s hs
        rw [hhost]
        exact ⟨htold, hin.1⟩
      · cases hs

theorem ClientConnection.plain_quiet (c : ClientConnection) (hs : s ∈ c.served E U false)
    (hd : s.decrypted = false) (hout : s.inScope E = false) : s.notices = [] := by
  cases c with
  | plain a =>
    rw [ClientConnection.served, List.mem_singleton] at hs
    subst hs
    exact a.surroundings.run_quiet (rewriteHostPort U a.request) hout
  | tunnel target scope certified leg arrivals =>
    rw [ClientConnection.served] at hs
    split at hs
    · cases hs
    · split at hs
      · rw [(tunnelServes_spec leg _ _ arrivals s hs).1] at hd
        cases hd
      · cases hs

/-- Nothing is told out of scope exactly when the rules include what is decrypted. -/
theorem legs_quiet_iff (E : RegexEngine) (U : UserUrls) (c : ClientConnection) :
    c.Quiet E U ↔
      ∀ s ∈ c.served E U false, s.decrypted = true →
        s.Included E ∧ (s.scope ≠ c.scope → s.inScope E = true) := by
  constructor
  · intro h s hs hd
    have hin : s.inScope E = true := by
      cases hout : s.inScope E with
      | true => rfl
      | false => exact absurd (h s hs hout) (c.decrypted_host hs hd).1
    exact ⟨Served.included_of_inScope hin, fun _ => hin⟩
  · intro h s hs hout
    cases hd : s.decrypted with
    | false => exact c.plain_quiet hs hd hout
    | true =>
      obtain ⟨hincluded, hchanged⟩ := h s hs hd
      exfalso
      by_cases hscope : s.scope = c.scope
      · have hhost := (c.decrypted_host hs hd).2
        rw [← hscope] at hhost
        have hin : s.inScope E = true := (isUrlInScope_iff hhost _ _ _).2 hincluded
        rw [hin] at hout
        cases hout
      · rw [hchanged hscope] at hout
        cases hout

def bareEngine : RegexEngine := ⟨fun _ => true, fun _ _ => false⟩

def bareUrls : UserUrls := ⟨QString, id, fun _ => false, id, fun _ => 80, id, fun _ => none⟩

def highPort : Scope := ⟨[], [], compile bareEngine [{ portFrom := 8443 }]⟩

/-- A client that asks for the root of a host on port 443, and an origin that is gone. -/
def lowPortTunnel : ClientConnection :=
  .tunnel (utf16 "a.example:443") highPort true .http1
    [⟨⟨utf16 "GET", utf16 "/", utf16 "HTTP/1.1", [], utf16 "/", []⟩, highPort,
      ⟨id, id, fun _ resp => resp, fun _ resp => resp, none, true, fun _ _ => .gone, true⟩⟩]

/-- The request on port 443 is out of scope, and is told to the history. -/
theorem low_port_told : ¬ lowPortTunnel.Quiet bareEngine bareUrls := by
  intro h
  have htold : ∃ s ∈ lowPortTunnel.served bareEngine bareUrls false,
      s.inScope bareEngine = false ∧ s.notices ≠ [] :=
    ⟨_, List.mem_singleton.2 rfl, by decide, List.cons_ne_nil _ _⟩
  obtain ⟨s, hs, hout, hnotices⟩ := htold
  exact hnotices (h s hs hout)

end Nullock.Proxy

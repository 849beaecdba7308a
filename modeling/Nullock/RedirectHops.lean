import Nullock.FollowRequest
import Nullock.RepeaterTabs

namespace Nullock.RedirectLogic
open ScopeLogic HttpLogic Proxy SessionRules Intruder

def hostForm (N : UrlLibrary) (host : QString) : QString :=
  N.host (N.compose (utf16 "http") host none (utf16 "/") none)

def defaultPort (tls : Bool) : Int := if tls then 443 else 80

structure UrlLibrary.NamesOrigins (N : UrlLibrary) : Prop where
  port_range : ∀ url, N.port url = -1 ∨ (0 ≤ N.port url ∧ N.port url < 2 ^ 16)
  scheme_lower : ∀ url, equalsIgnoreCase (N.scheme url) (utf16 "https") = true →
    N.scheme url = utf16 "https"
  host_stable : ∀ url, hostForm N (N.host url) = N.host url
  host_blank : ∀ url, N.host url ≠ [] → (QString.trimmed (N.host url)).isEmpty = false
  scheme_compose : ∀ tls host port path query, N.scheme (N.compose
    (if tls = true then utf16 "https" else utf16 "http") host port path query) =
      if tls = true then utf16 "https" else utf16 "http"
  host_compose : ∀ tls host port path query, N.host (N.compose
    (if tls = true then utf16 "https" else utf16 "http") host port path query) = hostForm N host
  port_compose : ∀ scheme host port path query, N.port (N.compose scheme host port path query) =
    match port with
    | some p => if 0 ≤ p ∧ p < 2 ^ 16 then p else -1
    | none => -1
  /-- The reference to the root stays at the origin. -/
  rooted : ∀ url, N.host url ≠ [] → ∃ next, resolveRedirect N url (utf16 "/") = some next ∧
    N.scheme next = N.scheme url ∧ N.host next = N.host url ∧ N.port next = N.port url

structure SentTo (N : UrlLibrary) (L : TextLibrary) (r : SentRequest) (url : N.Url) : Prop where
  tls : r.tls = true ↔ N.scheme url = utf16 "https"
  host : L.caseFold (hostForm N r.host) = L.caseFold (N.host url)
  port : (r.port : Int) = portOr N url (defaultPort r.tls)

structure Hop (N : UrlLibrary) where
  previous : SentRequest
  follow : Follow N
  request : SentRequest

section Loop
variable (env : Environment) (c : RunConfig)

def followOf (chain : Chain env.N) (resp : ClientResponse) (next : env.N.Url) : Follow env.N where
  url := next
  method := methodAfterRedirect env.N resp.statusCode chain.method
  cookieHeader :=
    if c.followCookies then
      renderCookieHeader env.N (mergeSetCookies env.N chain.jar chain.current resp.headers) next
    else []
  body := if redirectPreservesBody env.N resp.statusCode chain.method then chain.body else []
  previousRequest := chain.previousRequest
  previousUrl := chain.current
  preserveBody := redirectPreservesBody env.N resp.statusCode chain.method

/-- The redirects followed; the loop also ends where it is told to. -/
def hops (answer : Nat → SentRequest → SendResult) (asked : env.N.Url → Bool)
    (goesOn : Nat → Bool) : Nat → Chain env.N → SentRequest → SendResult → List (Hop env.N)
  | 0, _, _, _ => []
  | left + 1, chain, previous, result =>
    if !result.ok || !goesOn left || !isRedirectStatus result.parsed.statusCode then []
    else
      let loc := findHeader result.parsed.headers (utf16 "Location")
      match resolveRedirect env.N chain.current loc with
      | none => []
      | some next =>
        if !followAllowed env.L c.followPolicy (env.N.host chain.current) (env.N.host next)
            (asked next) then []
        else
          let (request, chain') := nextHop env c chain result.parsed next
          ⟨previous, followOf env c chain result.parsed next, request⟩ ::
            hops answer asked goesOn left chain' request (answer left request)

/-- How a request is answered, and what else decides how far its redirects are followed. -/
structure Course where
  result : SendResult
  answer : Nat → SentRequest → SendResult
  asked : env.N.Url → Bool
  goesOn : Nat → Bool

def followed (bytes : QByteArray) (course : Course env) : List (Hop env.N) :=
  if c.followPolicy != FollowNever && course.result.ok then
    hops env c course.answer course.asked course.goesOn kMaxRedirectHops (startChain env c bytes)
      (sentRequest c bytes) course.result
  else []

def seeds (bytes : QByteArray) (result : SendResult) :
    List (env.N.Url × QByteArray × QByteArray) :=
  if c.followPolicy != FollowNever && result.ok && c.followCookies then
    (((headOf bytes).splitOn 0x0A).flatMap cookiesOfLine).map (fun pair =>
      (startUrl env c bytes, pair))
  else []

/-- The redirects stay with the host, and the program takes no origin for another. -/
structure Confined (bytes : QByteArray) (result : SendResult) (hops : List (Hop env.N)) :
    Prop where
  onSite : c.followPolicy = FollowOnSite → ∀ hop ∈ hops,
    env.L.caseFold (hostForm env.N hop.request.host) = env.L.caseFold (hostForm env.N c.host)
  seeded : ∀ seed ∈ seeds env c bytes result, SentTo env.N env.L (sentRequest c bytes) seed.1
  carried : ∀ hop ∈ hops, hop.follow.sameOrigin env.L = true →
    SentTo env.N env.L hop.previous hop.follow.url

def absoluteForm (target : QString) : Bool :=
  (utf16 "http://").isPrefixOf target || (utf16 "https://").isPrefixOf target

def NamesSocket (bytes : QByteArray) : Prop :=
  if absoluteForm (requestTarget env.L bytes) = true then
    SentTo env.N env.L (sentRequest c bytes) (env.N.ofText (requestTarget env.L bytes))
  else (0 < c.port ∧ c.port < 2 ^ 16) ∨ c.port % 2 ^ 16 = defaultPort c.tls

def Idle (bytes : QByteArray) : Prop :=
  (c.followCookies = false ∨ ((headOf bytes).splitOn 0x0A).flatMap cookiesOfLine = []) ∧
    (c.followPolicy ∉ [FollowOnSite, FollowInScope, FollowAlways] ∨
      env.N.host (startUrl env c bytes) = [])

end Loop

end Nullock.RedirectLogic

namespace Nullock.Intruder
open ScopeLogic RedirectLogic

def fireHops (env : Environment) (c : RunConfig) (payloads : IntruderEngine.Combo)
    (course : RedirectLogic.Course env) : List (Hop env.N) :=
  match requestBytes env c payloads with
  | none => []
  | some bytes => followed env c bytes { course with goesOn := fun _ => true }

end Nullock.Intruder

namespace Nullock.Repeater
open Intruder RedirectLogic SessionRules

structure SendSettings where
  autoContentLength : Bool := true
  followPolicy : Int := 0
  followCookies : Bool := true

def sendConfig (settings : SendSettings) (t : RepeaterTab) : RunConfig where
  host := t.host
  port := t.port
  tls := t.useTls
  requestTemplate := t.requestText
  requestLatin1 := t.requestLatin1
  followPolicy := settings.followPolicy
  followCookies := settings.followCookies

/-- The bytes of a tab's request; `none` where nothing is sent. -/
def sendBytes (env : Environment) (settings : SendSettings) (t : RepeaterTab) :
    Option QByteArray :=
  let encoded := NetworkingLogic.encodeRequestText env.L t.requestText t.requestLatin1
  if t.host.isEmpty || t.requestText.isEmpty || encoded.isEmpty then none
  else
    let bytes := if settings.autoContentLength then ChainRunner.normalizeContentLength encoded
      else encoded
    match env.sessionRules with
    | none => some bytes
    | some (rules, varsByHost) =>
      some (applyToRequestBytes env.E env.L rules varsByHost bytes t.host
        SessionRulesLogic.ToolRepeater)

/-- The redirects that are followed for a tab; a send goes on until it is stopped. -/
def sendHops (env : Environment) (settings : SendSettings) (t : RepeaterTab)
    (course : Course env) : List (Hop env.N) :=
  match sendBytes env settings t with
  | none => []
  | some bytes => followed env (sendConfig settings t) bytes course

end Nullock.Repeater

namespace Nullock.RedirectLogic
open ScopeLogic HttpLogic Proxy SessionRules Intruder

section Origins
variable {N : UrlLibrary} {L : TextLibrary}

theorem fold_nil (h : L.caseFold [] = L.caseFold s) : s = [] := by
  have heq := (L.caseFold_ascii s [] (fun _ hc => absurd hc List.not_mem_nil)).1 h.symm
  exact List.map_eq_nil_iff.1 (beq_iff_eq.1 heq)

theorem resolved_host (h : resolveRedirect N current loc = some next) : N.host next ≠ [] := by
  unfold resolveRedirect at h
  dsimp only at h
  split at h
  · cases h
  · split at h
    · cases h
    · split at h
      · cases h
      · rename_i hvalid
        cases h
        intro hnil
        apply hvalid
        rw [hnil]
        exact Bool.or_true _

theorem portOr_congr (h : N.port url = N.port other) (default : Int) :
    portOr N url default = portOr N other default := by
  rw [portOr, portOr, h]

theorem portOr_range (hN : N.NamesOrigins) (url : N.Url) (tls : Bool) :
    0 ≤ portOr N url (defaultPort tls) ∧ portOr N url (defaultPort tls) < 2 ^ 16 := by
  unfold portOr
  split
  · cases tls with
    | false => exact ⟨by decide, by decide⟩
    | true => exact ⟨by decide, by decide⟩
  · rename_i hport
    exact (hN.port_range url).resolve_left hport

theorem sameOrigin_iff (f : Follow N) :
    f.sameOrigin L = true ↔ N.scheme f.previousUrl = N.scheme f.url ∧
      L.caseFold (N.host f.previousUrl) = L.caseFold (N.host f.url) ∧
      portOr N f.previousUrl (if N.scheme f.previousUrl = utf16 "https" then 443 else 80) =
        portOr N f.url (if N.scheme f.url = utf16 "https" then 443 else 80) := by
  unfold Follow.sameOrigin
  exact decide_eq_true_iff

theorem SentTo.default (h : SentTo N L r url) :
    defaultPort r.tls = if N.scheme url = utf16 "https" then 443 else 80 := by
  unfold defaultPort
  split
  · rename_i htls
    rw [if_pos (h.tls.1 htls)]
  · rename_i htls
    rw [if_neg (fun hs => htls (h.tls.2 hs))]

theorem SentTo.moved (h : SentTo N L r url) (hscheme : N.scheme url = N.scheme other)
    (hhost : L.caseFold (N.host url) = L.caseFold (N.host other))
    (hport : portOr N url (defaultPort r.tls) = portOr N other (defaultPort r.tls)) :
    SentTo N L r other where
  tls := by rw [← hscheme]; exact h.tls
  host := h.host.trans hhost
  port := h.port.trans hport

/-- A request goes to the origin that the program takes it to go to, or that has no host. -/
def Placed (N : UrlLibrary) (L : TextLibrary) (r : SentRequest) (url : N.Url) : Prop :=
  SentTo N L r url ∨ N.host url = []

theorem Placed.carried {f : Follow N} (h : Placed N L r f.previousUrl) (hhost : N.host f.url ≠ [])
    (hsame : f.sameOrigin L = true) : SentTo N L r f.url := by
  obtain ⟨hscheme, hfold, hport⟩ := (sameOrigin_iff f).1 hsame
  rcases h with h | h
  · apply h.moved hscheme hfold
    rw [h.default, hport, hscheme]
  · rw [h] at hfold
    exact absurd (fold_nil hfold) hhost

end Origins

section Loop
variable {env : Environment} {c : RunConfig}

theorem nextHop_sentTo (hN : env.N.NamesOrigins) (chain : Chain env.N) (resp : ClientResponse)
    (next : env.N.Url) : SentTo env.N env.L (nextHop env c chain resp next).1 next where
  tls := by
    constructor
    · exact hN.scheme_lower next
    · intro h
      show equalsIgnoreCase (env.N.scheme next) (utf16 "https") = true
      rw [h]
      decide
  host := congrArg env.L.caseFold (hN.host_stable next)
  port := by
    obtain ⟨hlow, hhigh⟩ := portOr_range hN next
      (equalsIgnoreCase (env.N.scheme next) (utf16 "https"))
    show ((portOr env.N next (defaultPort (equalsIgnoreCase (env.N.scheme next)
      (utf16 "https"))) % 2 ^ 16).toNat : Int) = _
    rw [Int.emod_eq_of_lt hlow hhigh]
    exact Int.toNat_of_nonneg hlow

theorem mem_hops {hop : Hop env.N}
    (h : hop ∈ hops env c answer asked goesOn (left + 1) chain previous result) :
    ∃ next, env.N.host next ≠ [] ∧
      followAllowed env.L c.followPolicy (env.N.host chain.current) (env.N.host next)
        (asked next) = true ∧
      let step := nextHop env c chain result.parsed next
      (hop = ⟨previous, followOf env c chain result.parsed next, step.1⟩ ∨
        hop ∈ hops env c answer asked goesOn left step.2 step.1 (answer left step.1)) := by
  rw [hops] at h
  split at h
  · exact absurd h List.not_mem_nil
  · dsimp only at h
    split at h
    · exact absurd h List.not_mem_nil
    · rename_i next hnext
      split at h
      · exact absurd h List.not_mem_nil
      · rename_i hallowed
        refine ⟨next, resolved_host hnext, ?_, List.mem_cons.1 h⟩
        apply Bool.eq_true_of_not_eq_false
        intro hfalse
        apply hallowed
        rw [hfalse]
        rfl

theorem hops_carried (hN : env.N.NamesOrigins) {hop : Hop env.N}
    (h : hop ∈ hops env c answer asked goesOn left chain previous result)
    (hplaced : Placed env.N env.L previous chain.current)
    (hsame : hop.follow.sameOrigin env.L = true) :
    SentTo env.N env.L hop.previous hop.follow.url := by
  induction left generalizing chain previous result with
  | zero => exact absurd h List.not_mem_nil
  | succ left ih =>
    obtain ⟨next, hhost, -, hop_eq | hlater⟩ := mem_hops h
    · subst hop_eq
      exact Placed.carried hplaced hhost hsame
    · exact ih hlater (.inl (nextHop_sentTo hN chain result.parsed next))

theorem onSite_host (hpolicy : c.followPolicy = FollowOnSite)
    (h : followAllowed env.L c.followPolicy originHost nextHost inScope = true) :
    env.L.caseFold nextHost = env.L.caseFold originHost := by
  unfold followAllowed at h
  split at h
  · cases h
  · rw [hpolicy, if_neg (by decide)] at h
    exact of_decide_eq_true h

theorem followAllowed_policy
    (h : followAllowed env.L c.followPolicy originHost nextHost inScope = true) :
    c.followPolicy ∈ [FollowOnSite, FollowInScope, FollowAlways] := by
  unfold followAllowed at h
  split at h
  · cases h
  · split at h
    · rename_i hpolicy
      rw [hpolicy]
      decide
    · split at h
      · rename_i hpolicy
        rw [hpolicy]
        decide
      · split at h
        · rename_i hpolicy
          rw [hpolicy]
          decide
        · cases h

theorem hops_onSite (hN : env.N.NamesOrigins) (hpolicy : c.followPolicy = FollowOnSite)
    {hop : Hop env.N} (h : hop ∈ hops env c answer asked goesOn left chain previous result)
    (hhome : home = env.L.caseFold (env.N.host chain.current) ∨ env.N.host chain.current = []) :
    env.L.caseFold (hostForm env.N hop.request.host) = home := by
  induction left generalizing chain previous result with
  | zero => exact absurd h List.not_mem_nil
  | succ left ih =>
    obtain ⟨next, hhost, hallowed, hcases⟩ := mem_hops h
    have hfold := onSite_host hpolicy hallowed
    have hstays : home = env.L.caseFold (env.N.host next) := by
      rcases hhome with hhome | hnone
      · exact hhome.trans hfold.symm
      · rw [hnone] at hfold
        exact absurd (fold_nil hfold.symm) hhost
    rcases hcases with hop_eq | hlater
    · subst hop_eq
      rw [hstays]
      exact congrArg env.L.caseFold (hN.host_stable next)
    · exact ih hlater (.inl hstays)

end Loop

end Nullock.RedirectLogic

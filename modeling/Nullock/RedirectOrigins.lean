import Nullock.RedirectHops

namespace Nullock.RedirectLogic
open ScopeLogic HttpLogic Proxy SessionRules Intruder

section Start
variable {env : Environment} {c : RunConfig}

theorem composed_sentTo (hN : env.N.NamesOrigins) (bytes : QByteArray) (path : QString)
    (query : Option QString) :
    SentTo env.N env.L (sentRequest c bytes)
        (env.N.compose (if c.tls = true then utf16 "https" else utf16 "http") c.host
          (if 0 < c.port ∧ c.port ≠ (if c.tls = true then 443 else 80) then some c.port else none)
          path query) ↔
      (0 < c.port ∧ c.port < 2 ^ 16) ∨ c.port % 2 ^ 16 = defaultPort c.tls := by
  have hport : portOr env.N (env.N.compose (if c.tls = true then utf16 "https" else utf16 "http")
      c.host (if 0 < c.port ∧ c.port ≠ (if c.tls = true then 443 else 80) then some c.port
        else none) path query) (defaultPort c.tls) =
      if 0 < c.port ∧ c.port < 2 ^ 16 then c.port else defaultPort c.tls := by
    unfold portOr
    rw [hN.port_compose]
    unfold defaultPort
    cases c.tls with
    | false => grind
    | true => grind
  constructor
  · intro h
    have heq := h.port.trans hport
    have hnat : (((c.port % 2 ^ 16).toNat : Nat) : Int) = c.port % 2 ^ 16 :=
      Int.toNat_of_nonneg (Int.emod_nonneg _ (by decide))
    split at heq
    · rename_i hrange
      exact .inl hrange
    · exact .inr (hnat.symm.trans heq)
  · intro h
    refine ⟨?_, ?_, ?_⟩
    · rw [hN.scheme_compose]
      show c.tls = true ↔ _
      cases c.tls with
      | false => exact ⟨nofun, fun h => absurd h (by decide)⟩
      | true => exact ⟨fun _ => rfl, fun _ => rfl⟩
    · rw [hN.host_compose]
      rfl
    · show (((c.port % 2 ^ 16).toNat : Nat) : Int) = _
      rw [Int.toNat_of_nonneg (Int.emod_nonneg _ (by decide))]
      refine Eq.trans ?_ hport.symm
      split
      · rename_i hrange
        exact Int.emod_eq_of_lt (Int.le_of_lt hrange.1) hrange.2
      · rename_i hrange
        exact h.resolve_left hrange

theorem startUrl_sentTo (hN : env.N.NamesOrigins) (bytes : QByteArray) :
    SentTo env.N env.L (sentRequest c bytes) (startUrl env c bytes) ↔
      NamesSocket env c bytes := by
  unfold startUrl requestUrl NamesSocket absoluteForm
  dsimp only
  split
  · exact Iff.rfl
  · split
    · exact composed_sentTo hN bytes _ _
    · exact composed_sentTo hN bytes _ _

theorem mem_seeds {seed : env.N.Url × QByteArray × QByteArray}
    (h : seed ∈ seeds env c bytes result) :
    c.followPolicy ≠ FollowNever ∧ c.followCookies = true ∧
      ((headOf bytes).splitOn 0x0A).flatMap cookiesOfLine ≠ [] ∧
      seed.1 = startUrl env c bytes := by
  unfold seeds at h
  split at h
  · rename_i hflags
    obtain ⟨hflags, hcookies⟩ := Bool.and_eq_true_iff.1 hflags
    obtain ⟨pair, hpair, rfl⟩ := List.mem_map.1 h
    exact ⟨bne_iff_ne.1 (Bool.and_eq_true_iff.1 hflags).1, hcookies, List.ne_nil_of_mem hpair, rfl⟩
  · exact absurd h List.not_mem_nil

theorem followed_confined (hN : env.N.NamesOrigins) (bytes : QByteArray) (course : Course env)
    (h : c.followPolicy = FollowNever ∨ NamesSocket env c bytes ∨ Idle env c bytes) :
    Confined env c bytes course.result (followed env c bytes course) := by
  rcases h with hnever | hstart
  · have hnone : followed env c bytes course = [] := by
      unfold followed
      rw [if_neg (by rw [hnever]; exact nofun)]
    refine ⟨fun _ hop hmem => ?_, fun seed hseed => ?_, fun hop hmem => ?_⟩
    · rw [hnone] at hmem
      exact absurd hmem List.not_mem_nil
    · exact absurd hnever (mem_seeds hseed).1
    · rw [hnone] at hmem
      exact absurd hmem List.not_mem_nil
  · have hsent : NamesSocket env c bytes ∨ SentTo env.N env.L (sentRequest c bytes)
        (startUrl env c bytes) → SentTo env.N env.L (sentRequest c bytes)
          (startUrl env c bytes) :=
      fun h => h.elim (startUrl_sentTo hN bytes).2 id
    have hfollows {hop : Hop env.N} (hmem : hop ∈ followed env c bytes course) :
        hop ∈ hops env c course.answer course.asked course.goesOn kMaxRedirectHops
          (startChain env c bytes) (sentRequest c bytes) course.result := by
      unfold followed at hmem
      split at hmem
      · exact hmem
      · exact absurd hmem List.not_mem_nil
    have hplaced {hop : Hop env.N} (hmem : hop ∈ followed env c bytes course) :
        Placed env.N env.L (sentRequest c bytes) (startUrl env c bytes) := by
      rcases hstart with hnames | ⟨-, hpolicy | hnone⟩
      · exact .inl (hsent (.inl hnames))
      · obtain ⟨next, -, hallowed, -⟩ := mem_hops (hfollows hmem)
        exact absurd (followAllowed_policy hallowed) hpolicy
      · exact .inr hnone
    refine ⟨fun hpolicy hop hmem => ?_, fun seed hseed => ?_, fun hop hmem hsame => ?_⟩
    · apply hops_onSite hN hpolicy (hfollows hmem)
      exact (hplaced hmem).imp_left SentTo.host
    · obtain ⟨-, hcookies, hpairs, horigin⟩ := mem_seeds hseed
      rw [horigin]
      rcases hstart with hnames | ⟨hnothing, -⟩
      · exact hsent (.inl hnames)
      · rcases hnothing with hoff | hnil
        · rw [hoff] at hcookies
          cases hcookies
        · exact absurd hnil hpairs
    · exact hops_carried hN (hfollows hmem) (hplaced hmem) hsame

def rootCourse (env : Environment) : Course env where
  result :=
    { ok := true
      parsed := { toHttpResponse := ⟨[], 302, [], [(utf16 "Location", utf16 "/")], []⟩ } }
  answer _ _ := {}
  asked _ := true
  goesOn _ := true

theorem followAllowed_same (hN : env.N.NamesOrigins) {url : env.N.Url}
    (hpolicy : c.followPolicy ∈ [FollowOnSite, FollowInScope, FollowAlways])
    (hhost : env.N.host url ≠ []) :
    followAllowed env.L c.followPolicy (env.N.host url) (env.N.host url) true = true := by
  unfold followAllowed
  rw [if_neg (by rw [hN.host_blank url hhost]; exact nofun)]
  rcases List.mem_cons.1 hpolicy with h | h
  · rw [h, if_neg (by decide)]
    exact decide_eq_true rfl
  · rcases List.mem_cons.1 h with h | h
    · rw [h]
      rfl
    · rw [List.mem_singleton.1 h]
      rfl

theorem root_followed (hN : env.N.NamesOrigins) {bytes : QByteArray} {next : env.N.Url}
    (hpolicy : c.followPolicy ∈ [FollowOnSite, FollowInScope, FollowAlways])
    (hnever : c.followPolicy ≠ FollowNever) (hhost : env.N.host (startUrl env c bytes) ≠ [])
    (hnext : resolveRedirect env.N (startUrl env c bytes) (utf16 "/") = some next)
    (hsame : env.N.host next = env.N.host (startUrl env c bytes)) :
    (⟨sentRequest c bytes,
        followOf env c (startChain env c bytes) (rootCourse env).result.parsed next,
        (nextHop env c (startChain env c bytes) (rootCourse env).result.parsed next).1⟩ :
      Hop env.N) ∈ followed env c bytes (rootCourse env) := by
  have hloc : findHeader (rootCourse env).result.parsed.headers (utf16 "Location") = utf16 "/" :=
    rfl
  have hgo : (!(rootCourse env).result.ok || !(rootCourse env).goesOn 9 ||
      !isRedirectStatus (rootCourse env).result.parsed.statusCode) = false := rfl
  have hstart : (startChain env c bytes).current = startUrl env c bytes := rfl
  have hok : (rootCourse env).result.ok = true := rfl
  have hasked : (rootCourse env).asked next = true := rfl
  unfold followed
  rw [bne_iff_ne.2 hnever, Bool.true_and, if_pos hok, kMaxRedirectHops, hops, hgo,
    if_neg Bool.false_ne_true,
    hloc, hstart]
  dsimp only
  rw [hnext]
  dsimp only
  rw [hsame, hasked, followAllowed_same hN hpolicy hhost, if_neg (by decide)]
  exact List.mem_cons_self

theorem confined_names (hN : env.N.NamesOrigins) (bytes : QByteArray)
    (h : Confined env c bytes (rootCourse env).result (followed env c bytes (rootCourse env))) :
    c.followPolicy = FollowNever ∨ NamesSocket env c bytes ∨ Idle env c bytes := by
  by_cases hnever : c.followPolicy = FollowNever
  · exact .inl hnever
  · right
    by_cases hidle : Idle env c bytes
    · exact .inr hidle
    · left
      apply (startUrl_sentTo hN bytes).1
      rcases Classical.not_and_iff_not_or_not.1 hidle with hcookies | hfollow
      · obtain ⟨hon, hpairs⟩ := not_or.1 hcookies
        obtain ⟨pair, hpair⟩ := List.exists_mem_of_ne_nil _ hpairs
        apply h.seeded (startUrl env c bytes, pair)
        unfold seeds
        rw [if_pos (by
          rw [bne_iff_ne.2 hnever, Bool.eq_true_of_not_eq_false hon]
          rfl)]
        exact List.mem_map_of_mem hpair
      · obtain ⟨hpolicy, hhost⟩ := not_or.1 hfollow
        obtain ⟨next, hnext, hscheme, hsame, hport⟩ := hN.rooted _ hhost
        have hmem := root_followed hN (not_not.1 hpolicy) hnever hhost hnext hsame
        have hfold : env.L.caseFold (env.N.host (startUrl env c bytes)) =
            env.L.caseFold (env.N.host next) := congrArg env.L.caseFold hsame.symm
        have horigin : SentTo env.N env.L (sentRequest c bytes) next := by
          apply h.carried _ hmem
          apply (sameOrigin_iff _).2
          refine ⟨hscheme.symm, hfold, ?_⟩
          show portOr env.N (startUrl env c bytes)
              (if env.N.scheme (startUrl env c bytes) = utf16 "https" then 443 else 80) =
            portOr env.N next (if env.N.scheme next = utf16 "https" then 443 else 80)
          rw [hscheme]
          exact portOr_congr hport.symm _
        exact horigin.moved hscheme hfold.symm (portOr_congr hport _)

end Start

end Nullock.RedirectLogic

namespace Nullock.Intruder
open ScopeLogic RedirectLogic

theorem fire_followed (env : Environment) (c : RunConfig) (send : Server)
    (asked : env.N.Url → Bool) (retries : Nat) (payloads combo : IntruderEngine.Combo)
    (hbytes : requestBytes env c payloads = some bytes) :
    (fire env c send asked retries payloads combo).followed =
      (fireHops env c payloads ⟨send (sentRequest c bytes), fun _ => send, asked,
        fun _ => true⟩).map Hop.request := by
  have hloop (left : Nat) (chain : Chain env.N) (previous : SentRequest) (result : SendResult) :
      (followRedirects env c send asked left chain result).1 =
        (hops env c (fun _ => send) asked (fun _ => true) left chain previous result).map
          Hop.request := by
    induction left generalizing chain previous result with
    | zero => rfl
    | succ left ih =>
      rw [followRedirects, hops, Bool.not_true, Bool.or_false]
      split
      · rfl
      · dsimp only
        cases resolveRedirect env.N chain.current
            (HttpLogic.findHeader result.parsed.headers (utf16 "Location")) with
        | none => rfl
        | some next =>
          dsimp only
          split
          · rfl
          · exact congrArg (_ :: ·) (ih _ _ _)
  unfold fire fireHops
  rw [hbytes]
  dsimp only
  rw [retried_same]
  unfold followed
  dsimp only
  split
  · exact hloop _ _ _ _
  · rfl

end Nullock.Intruder

namespace Nullock.RedirectLogic
open ScopeLogic Intruder

/-- Redirects stay with the host exactly if none is followed, carried on or misnamed. -/
theorem follows_confined_iff (env : Environment) (hN : env.N.NamesOrigins) :
    (∀ c payloads bytes, requestBytes env c payloads = some bytes →
      ((∀ course, Confined env c bytes course.result (fireHops env c payloads course)) ↔
        c.followPolicy = FollowNever ∨ NamesSocket env c bytes ∨ Idle env c bytes)) ∧
    (∀ settings tab bytes, Repeater.sendBytes env settings tab = some bytes →
      ((∀ course, Confined env (Repeater.sendConfig settings tab) bytes course.result
          (Repeater.sendHops env settings tab course)) ↔
        settings.followPolicy = FollowNever ∨
          NamesSocket env (Repeater.sendConfig settings tab) bytes ∨
          Idle env (Repeater.sendConfig settings tab) bytes)) := by
  constructor
  · intro c payloads bytes hbytes
    unfold fireHops
    rw [hbytes]
    constructor
    · intro h
      exact confined_names hN bytes (h (rootCourse env))
    · intro h course
      exact followed_confined hN bytes { course with goesOn := fun _ => true } h
  · intro settings tab bytes hbytes
    unfold Repeater.sendHops
    rw [hbytes]
    constructor
    · intro h
      exact confined_names hN bytes (h (rootCourse env))
    · intro h course
      exact followed_confined hN bytes course h

section Samples

structure WebUrl where
  https : Bool
  host : QString
  port : Option (Fin (2 ^ 16))
  path : QString
  query : QString
deriving DecidableEq

def WebUrl.behind (https : Bool) (rest : QString) : WebUrl :=
  ⟨https, firstSection 0x2F rest, none, rest.drop (firstSection 0x2F rest).length, []⟩

def WebUrl.ofText (text : QString) : WebUrl :=
  if (utf16 "http://").isPrefixOf text then WebUrl.behind false (text.drop 7)
  else if (utf16 "https://").isPrefixOf text then WebUrl.behind true (text.drop 8)
  else ⟨false, [], none, text, []⟩

def WebUrl.hostName (url : WebUrl) : QString :=
  if (QString.trimmed url.host).isEmpty then [] else url.host

def webUrls : UrlLibrary where
  Url := WebUrl
  ofText := WebUrl.ofText
  isValid url := !url.host.isEmpty || !url.path.isEmpty
  resolved base url :=
    if url.host.isEmpty then { base with path := url.path, query := url.query } else url
  scheme url := if url.https = true then utf16 "https" else utf16 "http"
  host := WebUrl.hostName
  port url :=
    match url.port with
    | some port => port.val
    | none => -1
  path := WebUrl.path
  query := WebUrl.query
  compose scheme host port path query :=
    { https := decide (scheme = utf16 "https")
      host := host
      port := port.bind (fun p =>
        if h : 0 ≤ p ∧ p < 2 ^ 16 then some ⟨p.toNat, by omega⟩ else none)
      path := path
      query := query.getD [] }
  Jar := List (QString × QByteArray)
  emptyJar := []
  setCookie name value _ url jar := jar ++ [(WebUrl.hostName url, name ++ latin1 "=" ++ value)]
  setCookies _ _ jar := jar
  cookiesForUrl jar url := (jar.filter (fun c => c.1 = WebUrl.hostName url)).map Prod.snd
  upperCase s := s.map (fun c => if 0x61 ≤ c ∧ c ≤ 0x7A then c - 0x20 else c)

def webEnv : Environment := { oneHost with N := webUrls, inScope := none }

def webConfig (text : String) : RunConfig where
  host := utf16 "a.example"
  port := 80
  tls := false
  requestTemplate := utf16 text
  followPolicy := FollowOnSite

theorem hostName_cases (url : WebUrl) :
    url.hostName = [] ∨
      (url.hostName = url.host ∧ (QString.trimmed url.host).isEmpty = false) := by
  unfold WebUrl.hostName
  split
  · exact .inl rfl
  · rename_i h
    exact .inr ⟨rfl, Bool.eq_false_iff.2 h⟩

theorem webUrls_rooted (url : WebUrl) (h : url.hostName ≠ []) :
    resolveRedirect webUrls url (utf16 "/") =
      some { url with path := utf16 "/", query := [] } := by
  have hloc : QString.trimmed (utf16 "/") = utf16 "/" := by decide
  have hrel : WebUrl.ofText (utf16 "/") = ⟨false, [], none, utf16 "/", []⟩ := by decide
  have hempty : (webUrls.host { url with path := utf16 "/", query := [] }).isEmpty = false :=
    Bool.eq_false_iff.2 (fun hnil => h (List.isEmpty_iff.1 hnil))
  have hvalid : webUrls.isValid { url with path := utf16 "/", query := [] } = true :=
    Bool.or_true _
  unfold resolveRedirect
  dsimp only
  rw [hloc, if_neg (by decide), show webUrls.ofText (utf16 "/") = _ from hrel,
    if_neg (by decide)]
  show (if !webUrls.isValid { url with path := utf16 "/", query := [] } ||
    (webUrls.host { url with path := utf16 "/", query := [] }).isEmpty then none
    else some { url with path := utf16 "/", query := [] }) = _
  rw [hvalid, hempty, if_neg (by decide)]
  rfl

theorem webUrls_origins : webUrls.NamesOrigins where
  port_range url := by
    obtain ⟨https, host, port, path, query⟩ := url
    cases port with
    | none => exact .inl rfl
    | some port => exact .inr ⟨Int.natCast_nonneg _, Int.ofNat_lt.2 port.isLt⟩
  scheme_lower url h := by
    obtain ⟨https, host, port, path, query⟩ := url
    cases https with
    | false =>
      have hhttp : equalsIgnoreCase (utf16 "http") (utf16 "https") = false := by decide
      exact absurd h (Bool.eq_false_iff.1 hhttp)
    | true => rfl
  host_stable url := by
    show (WebUrl.hostName ⟨_, url.hostName, _, _, _⟩) = url.hostName
    rcases hostName_cases url with h | ⟨h, htrim⟩
    · rw [h]
      rfl
    · rw [h, WebUrl.hostName, if_neg (by rw [htrim]; exact nofun)]
  host_blank url h := by
    rcases hostName_cases url with hnil | ⟨hname, htrim⟩
    · exact absurd hnil h
    · show (QString.trimmed url.hostName).isEmpty = false
      rw [hname]
      exact htrim
  scheme_compose tls host port path query := by
    cases tls with
    | false => rfl
    | true => rfl
  host_compose tls host port path query := rfl
  port_compose scheme host port path query := by
    cases port with
    | none => rfl
    | some p =>
      show (match (if h : 0 ≤ p ∧ p < 2 ^ 16 then some (⟨p.toNat, by omega⟩ : Fin (2 ^ 16))
        else none) with
        | some port => (port.val : Int)
        | none => -1) = _
      split
      · rename_i port heq
        split at heq
        · rename_i hrange
          cases heq
          exact (Int.toNat_of_nonneg hrange.1).trans (if_pos hrange).symm
        · cases heq
      · rename_i heq
        split at heq
        · cases heq
        · rename_i hrange
          exact (if_neg hrange).symm
  rooted url h := ⟨_, webUrls_rooted url h, rfl, rfl, rfl⟩

def loginText : String := "GET /login HTTP/1.1\r\nHost: a.example\r\nCookie: sid=1\r\n\r\n"

theorem root_redirect_confined :
    Confined webEnv (webConfig loginText) (latin1 loginText) (rootCourse webEnv).result
      (fireHops webEnv (webConfig loginText) [] (rootCourse webEnv)) ∧
    (fireHops webEnv (webConfig loginText) [] (rootCourse webEnv)).map (fun hop =>
      hop.request.host) = [utf16 "a.example"] := by
  have hbytes : requestBytes webEnv (webConfig loginText) [] = some (latin1 loginText) := by
    decide
  have hnames : NamesSocket webEnv (webConfig loginText) (latin1 loginText) := by
    have horigin : absoluteForm (requestTarget webEnv.L (latin1 loginText)) = false := by
      decide
    unfold NamesSocket
    rw [horigin, if_neg nofun]
    exact .inl ⟨by decide, by decide⟩
  exact ⟨((follows_confined_iff webEnv webUrls_origins).1 _ _ _ hbytes).2 (.inr (.inl hnames)) _,
    by decide⟩

def absoluteText : String :=
  "GET http://evil.example/ HTTP/1.1\r\nHost: a.example\r\nCookie: sid=1\r\n\r\n"

def absoluteTab : Repeater.RepeaterTab where
  host := utf16 "a.example"
  port := 80
  useTls := false
  requestText := utf16 absoluteText

/-- A redirect of the connected host is followed to the target's own one. -/
theorem absolute_target_leaves :
    ¬ Confined webEnv (webConfig absoluteText) (latin1 absoluteText) (rootCourse webEnv).result
      (fireHops webEnv (webConfig absoluteText) [] (rootCourse webEnv)) ∧
    (fireHops webEnv (webConfig absoluteText) [] (rootCourse webEnv)).map (fun hop =>
      hop.request.host) = [utf16 "evil.example"] ∧
    (Repeater.sendHops webEnv { followPolicy := FollowOnSite } absoluteTab
      (rootCourse webEnv)).map (fun hop => hop.request.host) = [utf16 "evil.example"] := by
  have hosts : (fireHops webEnv (webConfig absoluteText) [] (rootCourse webEnv)).map (fun hop =>
      hop.request.host) = [utf16 "evil.example"] := by decide
  refine ⟨fun h => ?_, hosts, by decide⟩
  have hmem : utf16 "evil.example" ∈ (fireHops webEnv (webConfig absoluteText) []
      (rootCourse webEnv)).map (fun hop => hop.request.host) := by
    rw [hosts]
    exact List.mem_singleton.2 rfl
  obtain ⟨hop, hhop, hhost⟩ := List.mem_map.1 hmem
  have hsame := h.onSite rfl hop hhop
  rw [hhost] at hsame
  exact absurd hsame (by decide)

end Samples

end Nullock.RedirectLogic

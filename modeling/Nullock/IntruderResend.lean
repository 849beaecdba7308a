import Nullock.IntruderGrading
import Nullock.RewriteBytes

namespace Nullock.Intruder
open ScopeLogic HttpLogic Proxy SessionRules IntruderEngine IntruderRules IntruderGrep RedirectLogic

inductive Target (N : UrlLibrary) (start : N.Url) : N.Url → Prop
  | first : resolveRedirect N start loc = some next → Target N start next
  | later : Target N start current → resolveRedirect N current loc = some next →
      Target N start next

def ScopeAgrees (env : Environment) (c : RunConfig) (bytes : QByteArray) : Prop :=
  c.followPolicy = FollowInScope → ∀ next, Target env.N (startUrl env c bytes) next →
    (QString.trimmed (env.N.host next)).isEmpty = false → scopeOfUrl env next = scopeOfHost env next

/-- A response has one of the payloads in it exactly if it has one of the processed ones. -/
def ReflectionAgrees (env : Environment) (c : RunConfig) (stored combo : Combo) : Prop :=
  c.grepPayloadReflection = true → ∀ resp,
    anyReflected (processed env c stored) (grepScanText env resp) =
      anyReflected combo (grepScanText env resp)

/-- The stored combination makes the row's request, graded alike. -/
def SameGrade (env : Environment) (c : RunConfig) (stored combo : Combo) : Prop :=
  requestBytes env c (processed env c stored) = requestBytes env c (processed env c combo) ∧
    ∀ bytes, requestBytes env c (processed env c combo) = some bytes →
      ScopeAgrees env c bytes ∧ ReflectionAgrees env c stored combo

section Agreement
variable {env : Environment} {c : RunConfig}

theorem Target.behind {origin next last : N.Url} (h : resolveRedirect N origin loc = some next)
    (ht : Target N next last) : Target N origin last := by
  induction ht with
  | first hnext => exact .later (.first h) hnext
  | later _ hnext ih => exact .later ih hnext

theorem retried_same (send : Server) (request : SentRequest) (attempts : Nat) :
    retried send request attempts (send request) = send request := by
  induction attempts with
  | zero => rfl
  | succ attempts ih =>
    rw [retried]
    split
    · rfl
    · exact ih

theorem followAllowed_congr (L : TextLibrary) (policy : Int) (originHost nextHost : QString)
    (h : policy = FollowInScope → (QString.trimmed nextHost).isEmpty = false → a = b) :
    followAllowed L policy originHost nextHost a =
      followAllowed L policy originHost nextHost b := by
  rw [followAllowed, followAllowed]
  split
  · rfl
  · rename_i hhost
    split
    · rfl
    · split
      · rfl
      · split
        · rename_i hpolicy
          exact h hpolicy (Bool.eq_false_iff.2 hhost)
        · rfl

theorem followRedirects_congr {asked asked' : env.N.Url → Bool} (send : Server) (hops : Nat)
    (chain : Chain env.N) (result : SendResult)
    (h : c.followPolicy = FollowInScope → ∀ next, Target env.N chain.current next →
      (QString.trimmed (env.N.host next)).isEmpty = false → asked next = asked' next) :
    followRedirects env c send asked hops chain result =
      followRedirects env c send asked' hops chain result := by
  induction hops generalizing chain result with
  | zero => rfl
  | succ hops ih =>
    rw [followRedirects, followRedirects]
    split
    · rfl
    · dsimp only
      cases hnext : resolveRedirect env.N chain.current
          (findHeader result.parsed.headers (utf16 "Location")) with
      | none => rfl
      | some next =>
        dsimp only
        rw [followAllowed_congr env.L c.followPolicy _ (env.N.host next)
          (fun hpolicy hhost => h hpolicy next (.first hnext) hhost)]
        split
        · rfl
        · rw [ih]
          intro hpolicy later hlater
          exact h hpolicy later (.behind hnext hlater)

theorem reflected_eq (combo : Combo) (scan : QString) :
    (c.grepPayloadReflection && !combo.isEmpty && anyReflected combo scan) =
      (c.grepPayloadReflection && anyReflected combo scan) := by
  cases combo with
  | nil => rw [anyReflected, List.any_nil, Bool.and_false, Bool.and_false]
  | cons p combo => rw [List.isEmpty_cons, Bool.not_false, Bool.and_true]

theorem gradeOf_congr {processed combo : Combo} (result : SendResult)
    (h : c.grepPayloadReflection = true →
      anyReflected processed (grepScanText env result.parsed) =
        anyReflected combo (grepScanText env result.parsed)) :
    gradeOf env c result processed = gradeOf env c result combo := by
  have hgrep : computeGrep env c result.parsed processed =
      computeGrep env c result.parsed combo := by
    rw [computeGrep, computeGrep, reflected_eq, reflected_eq]
    cases hon : c.grepPayloadReflection with
    | false => rfl
    | true => rw [h hon]
  rw [gradeOf, gradeOf, hgrep]

theorem fire_congr {asked asked' : env.N.Url → Bool} (send : Server) (attempts attempts' : Nat)
    {payloads payloads' processed combo : Combo}
    (hbytes : requestBytes env c payloads' = requestBytes env c payloads)
    (hscope : ∀ bytes, requestBytes env c payloads = some bytes → c.followPolicy = FollowInScope →
      ∀ next, Target env.N (startUrl env c bytes) next →
        (QString.trimmed (env.N.host next)).isEmpty = false → asked' next = asked next)
    (hreflected : ∀ bytes, requestBytes env c payloads = some bytes →
      c.grepPayloadReflection = true → ∀ resp,
        anyReflected processed (grepScanText env resp) =
          anyReflected combo (grepScanText env resp)) :
    fire env c send asked' attempts' payloads' processed =
      fire env c send asked attempts payloads combo := by
  rw [fire, fire, hbytes]
  cases hfirst : requestBytes env c payloads with
  | none => rfl
  | some bytes =>
    dsimp only
    rw [retried_same, retried_same, followRedirects_congr send kMaxRedirectHops
      (startChain env c bytes) _ (hscope bytes hfirst)]
    congr 1
    apply gradeOf_congr
    intro hon
    exact hreflected bytes hfirst hon _

theorem fire_first (send : Server) (asked : env.N.Url → Bool) (attempts : Nat)
    (payloads combo : Combo) :
    (fire env c send asked attempts payloads combo).first =
      (requestBytes env c payloads).map (sentRequest c) := by
  rw [fire]
  cases requestBytes env c payloads with
  | none => rfl
  | some bytes => rfl

theorem followRedirects_isEmpty {chain : Chain env.N} {result : SendResult} (hok : result.ok = true)
    (hstatus : isRedirectStatus result.parsed.statusCode = true)
    (hnext : resolveRedirect env.N chain.current
      (findHeader result.parsed.headers (utf16 "Location")) = some next)
    (send : Server) (asked : env.N.Url → Bool) (hops : Nat) :
    (followRedirects env c send asked (hops + 1) chain result).1.isEmpty =
      !followAllowed env.L c.followPolicy (env.N.host chain.current) (env.N.host next)
        (asked next) := by
  rw [followRedirects, hok, hstatus, if_neg (by decide)]
  dsimp only
  rw [hnext]
  dsimp only
  split
  · rename_i hrefused
    rw [hrefused]
    rfl
  · rename_i hallowed
    rw [Bool.not_eq_true', Bool.not_eq_false] at hallowed
    rw [hallowed]
    rfl

theorem followAllowed_inScope (L : TextLibrary) (hpolicy : policy = FollowInScope)
    (hhost : (QString.trimmed nextHost).isEmpty = false) (originHost : QString) (inScope : Bool) :
    followAllowed L policy originHost nextHost inScope = inScope := by
  rw [followAllowed, hhost, hpolicy]
  rfl

def redirecting (location : QString) : Server := fun _ =>
  { ok := true
    parsed := { toHttpResponse := ⟨[], 302, [], [(utf16 "Location", location)], []⟩ } }

theorem fire_redirected (hfirst : requestBytes env c payloads = some bytes)
    (hnext : resolveRedirect env.N (startUrl env c bytes) location = some next)
    (hpolicy : c.followPolicy = FollowInScope)
    (hhost : (QString.trimmed (env.N.host next)).isEmpty = false)
    (asked : env.N.Url → Bool) (attempts : Nat) (combo : Combo) :
    (fire env c (redirecting location) asked attempts payloads combo).followed.isEmpty =
      !asked next := by
  have hlocation (request : SentRequest) : findHeader (redirecting location request).parsed.headers
      (utf16 "Location") = location := rfl
  have hfollows (request : SentRequest) :
      (c.followPolicy != FollowNever && (redirecting location request).ok) = true := by
    rw [hpolicy]
    rfl
  rw [fire, hfirst]
  dsimp only
  have hresolved (request : SentRequest) :
      resolveRedirect env.N (startChain env c bytes).current
        (findHeader (redirecting location request).parsed.headers (utf16 "Location")) =
          some next := by
    rw [hlocation]
    exact hnext
  rw [retried_same, if_pos (hfollows _), kMaxRedirectHops,
    followRedirects_isEmpty rfl rfl (hresolved _), followAllowed_inScope env.L hpolicy hhost]

def answering (resp : ClientResponse) : Server := fun _ =>
  { ok := true, parsed := { resp with statusCode := 200 } }

theorem fire_answered (hfirst : requestBytes env c payloads = some bytes) (resp : ClientResponse)
    (asked : env.N.Url → Bool) (attempts : Nat) (combo : Combo) :
    (fire env c (answering resp) asked attempts payloads combo).grade.reflected =
      (c.grepPayloadReflection && anyReflected combo (grepScanText env resp)) := by
  have hstays (chain : Chain env.N) (request : SentRequest) :
      followRedirects env c (answering resp) asked kMaxRedirectHops chain
        (answering resp request) = ([], answering resp request) := by
    rw [kMaxRedirectHops, followRedirects]
    exact if_pos rfl
  rw [fire, hfirst]
  dsimp only
  rw [retried_same, hstays, ite_self, ← reflected_eq]
  rfl

end Agreement

section Rows
variable {env : Environment} {c : RunConfig}

theorem resendOne_iff (habsolute : ∀ origin next, Target env.N origin next →
      ∃ location, resolveRedirect env.N origin location = some next) :
    (∀ send, resendOne env c send stored = fireOne env c send combo) ↔
      SameGrade env c stored combo := by
  constructor
  · intro h
    have hbytes : requestBytes env c (processed env c stored) =
        requestBytes env c (processed env c combo) := by
      have hfirst := congrArg Fired.first (h (fun _ => {}))
      rw [resendOne, fireOne, fire_first, fire_first] at hfirst
      exact Option.map_injective (fun _ _ he => congrArg SentRequest.bytes he) hfirst
    refine ⟨hbytes, ?_⟩
    intro bytes hsent
    constructor
    · intro hpolicy next htarget hhost
      obtain ⟨location, hnext⟩ := habsolute _ _ htarget
      have hsame := congrArg (fun fired => fired.followed.isEmpty) (h (redirecting location))
      rw [resendOne, fireOne, fire_redirected (hbytes.trans hsent) hnext hpolicy hhost,
        fire_redirected hsent hnext hpolicy hhost] at hsame
      exact (Bool.not_inj hsame).symm
    · intro hon resp
      have hsame := congrArg (fun fired => fired.grade.reflected) (h (answering resp))
      rw [resendOne, fireOne, fire_answered (hbytes.trans hsent), fire_answered hsent, hon,
        Bool.true_and, Bool.true_and] at hsame
      exact hsame
  · rintro ⟨hbytes, hagrees⟩ send
    apply fire_congr send _ _ hbytes
    · intro bytes hsent hpolicy next htarget hhost
      exact ((hagrees bytes hsent).1 hpolicy next htarget hhost).symm
    · intro bytes hsent
      exact (hagrees bytes hsent).2

theorem mem_chainRows (h : row ∈ chainRows env c send cur combos) :
    row.fired = fireOne env c send row.combo := by
  induction combos generalizing cur with
  | nil => cases h
  | cons combo combos ih =>
    rw [chainRows] at h
    rcases List.mem_cons.1 h with rfl | h
    · rfl
    · split at h
      · cases h
      · exact ih h

theorem mem_runWorker (h : row ∈ runWorker env c send run) :
    row.fired = fireOne env c send row.combo := by
  rw [runWorker] at h
  split at h
  · exact mem_chainRows h
  · obtain ⟨numbered, _, rfl⟩ := List.mem_map.1 h
    rfl

theorem exists_runWorker (env : Environment) (c : RunConfig)
    (hrow : combo = stored ∨ ∃ value, combo = withFirst value stored) :
    ∃ run, ∀ send, ⟨stored, combo, fireOne env c send combo⟩ ∈ runWorker env c send run := by
  rcases hrow with rfl | ⟨value, rfl⟩
  · exact ⟨{ combos := [combo], stopAt := 1 }, fun send => List.mem_singleton.2 rfl⟩
  · refine ⟨{ combos := [stored], stopAt := 1, seed := some value }, fun send => ?_⟩
    exact List.mem_cons_self

end Rows

/-- A row re-sent is graded as in the run exactly if the two ways agree on it. -/
theorem resend_graded_iff (env : Environment) (c : RunConfig)
    (habsolute : ∀ origin next, Target env.N origin next →
      ∃ location, resolveRedirect env.N origin location = some next)
    (stored combo : Combo) (hrow : combo = stored ∨ ∃ value, combo = withFirst value stored) :
    (∀ send run row, row ∈ runWorker env c send run → row.stored = stored → row.combo = combo →
      resendOne env c send stored = row.fired) ↔ SameGrade env c stored combo := by
  rw [← resendOne_iff habsolute]
  constructor
  · intro h send
    obtain ⟨run, hrun⟩ := exists_runWorker env c hrow
    exact h send run _ (hrun send) rfl rfl
  · rintro h send run row hmem - rfl
    rw [h, mem_runWorker hmem]

section Samples

structure PlainUrl where
  scheme : QString
  host : QString
  port : Int
  path : QString
  query : QString
deriving DecidableEq

def PlainUrl.ofText (text : QString) : PlainUrl :=
  match indexOf (utf16 "://") text with
  | none => ⟨[], [], -1, text, []⟩
  | some i =>
    let rest := text.drop (i + 3)
    ⟨text.take i, firstSection 0x2F rest, -1, rest.drop (firstSection 0x2F rest).length, []⟩

/-- The URL library on absolute URLs without a port and a query, and no cookies. -/
def plainUrls : UrlLibrary where
  Url := PlainUrl
  ofText := PlainUrl.ofText
  isValid url := !url.host.isEmpty || !url.path.isEmpty
  resolved _ url := url
  scheme := PlainUrl.scheme
  host := PlainUrl.host
  port := PlainUrl.port
  path := PlainUrl.path
  query := PlainUrl.query
  compose scheme host port path query := ⟨scheme, host, port.getD (-1), path, query.getD []⟩
  Jar := Unit
  emptyJar := ()
  setCookie _ _ _ _ _ := ()
  setCookies _ _ _ := ()
  cookiesForUrl _ _ := []
  upperCase s := s.map (fun c => if 0x61 ≤ c ∧ c ≤ 0x7A then c - 0x20 else c)

theorem plainUrls_absolute {origin next : plainUrls.Url} (h : Target plainUrls origin next) :
    ∃ location, resolveRedirect plainUrls origin location = some next := by
  induction h with
  | first hnext => exact ⟨_, hnext⟩
  | later _ hnext _ => exact ⟨_, hnext⟩

def capitals : RuleLibrary := fun value r _ =>
  if r.op = utf16 "uppercase" then value.map plainUrls.upperCase else value

def oneHost : Environment where
  E := anyMatch
  L := asciiLibrary
  P := capitals
  N := plainUrls
  captured _ text := text
  inScope := some (fun url => decide (PlainUrl.host url = utf16 "a.example"))
  sessionRules := none

def plainConfig : RunConfig where
  host := utf16 "a.example"
  port := 80
  tls := false
  requestTemplate := utf16 "GET /?q=§x§ HTTP/1.1\r\nHost: a.example\r\n\r\n"
  followCookies := false

def searchingConfig : RunConfig := { plainConfig with grepPayloadReflection := true }

def capitalsConfig : RunConfig := { searchingConfig with rules := [⟨utf16 "uppercase", []⟩] }

def followingConfig : RunConfig := { plainConfig with followPolicy := FollowInScope }

/-- A server that says what it is given and sends every other request to `/in`. -/
def echoServer : Server := fun request =>
  if (latin1 "GET /in").isPrefixOf request.bytes then
    { ok := true, parsed := { toHttpResponse := ⟨[], 200, [], [], []⟩ } }
  else
    { ok := true
      parsed := { toHttpResponse :=
        ⟨[], 302, [], [(utf16 "Location", utf16 "http://a.example/in")], request.bytes⟩ } }

theorem plain_payload_graded :
    resendOne oneHost searchingConfig echoServer [some (utf16 "b")] =
        fireOne oneHost searchingConfig echoServer [some (utf16 "b")] ∧
      (fireOne oneHost searchingConfig echoServer [some (utf16 "b")]).grade.reflected = true := by
  have h := resend_graded_iff oneHost searchingConfig
    (fun _ _ htarget => plainUrls_absolute htarget) [some (utf16 "b")] [some (utf16 "b")] (.inl rfl)
  have hagrees : SameGrade oneHost searchingConfig [some (utf16 "b")] [some (utf16 "b")] := by
    refine ⟨rfl, fun _ _ => ⟨?_, fun _ _ => rfl⟩⟩
    intro hpolicy
    cases hpolicy
  have hrow := h.2 hagrees echoServer { combos := [[some (utf16 "b")]], stopAt := 1 } _
    (List.mem_singleton.2 rfl) rfl rfl
  exact ⟨hrow, by decide⟩

theorem resend_grades_apart :
    (∃ row ∈ runWorker oneHost capitalsConfig echoServer
        { combos := [[some (utf16 "b")]], stopAt := 1 },
      row.fired.grade.reflected = false ∧
      (resendOne oneHost capitalsConfig echoServer row.stored).grade.reflected = true) ∧
    (∃ row ∈ runWorker oneHost followingConfig echoServer
        { combos := [[some (utf16 "b")]], stopAt := 1 },
      row.fired.grade.statusCode = 200 ∧ row.fired.followed.length = 1 ∧
      (resendOne oneHost followingConfig echoServer row.stored).grade.statusCode = 302 ∧
      (resendOne oneHost followingConfig echoServer row.stored).followed = []) ∧
    (∃ row ∈ runWorker oneHost plainConfig echoServer
        { combos := [[none]], stopAt := 1, seed := some (some (utf16 "s")) },
      row.fired.first ≠ (resendOne oneHost plainConfig echoServer row.stored).first) := by
  refine ⟨⟨_, List.mem_singleton.2 rfl, ?_, ?_⟩, ⟨_, List.mem_singleton.2 rfl, ?_, ?_, ?_, ?_⟩,
    ⟨_, List.mem_cons_self, ?_⟩⟩
  · decide
  · decide
  · decide
  · decide
  · decide
  · decide
  · decide

end Samples

end Nullock.Intruder

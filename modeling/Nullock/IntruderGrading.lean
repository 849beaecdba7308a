import Nullock.Intruder
import Nullock.RedirectLogic

namespace Nullock.NetworkingLogic

/-- The bytes of a request text; none for characters the encoding does not have. -/
def encodeRequestText (L : TextLibrary) (text : QString) (latin1 : Bool) : QByteArray :=
  let blank := utf16 "\r\n\r\n"
  if latin1 && fromLatin1 (toLatin1 text) != text then []
  else
    let (sep, width) := match indexOf blank text, indexOf (utf16 "\n\n") text with
      | some sep, some lf => if lf < sep then (some lf, 2) else (some sep, 4)
      | some sep, none => (some sep, 4)
      | none, lf => (lf, 2)
    let head := match sep with
      | some sep => text.take sep
      | none => text
    let body := match sep with
      | some sep => text.drop (sep + width)
      | none => []
    let head := replaceAll (utf16 "\n") (utf16 "\r\n") (replaceAll (utf16 "\r\n") (utf16 "\n") head)
    let raw := head ++ blank ++ body
    if latin1 then toLatin1 raw else L.toUtf8 raw

end Nullock.NetworkingLogic

namespace Nullock.IntruderGrep
open ScopeLogic

def kMaxScan : Nat := 256 * 1024

def bounded (text : QString) : QString := text.take kMaxScan

def grepMatch (E : RegexEngine) (text : QString) (needles : List QString) : Bool :=
  needles.any (fun needle =>
    if needle.isEmpty then false
    else if E.isValid ⟨needle, false⟩ then E.hasMatch ⟨needle, false⟩ (bounded text)
    else (indexOf needle (bounded text)).isSome)

def payloadReflected (text payload : QString) : Bool :=
  if payload.isEmpty then false else (indexOf payload (bounded text)).isSome

def grepExtract (E : RegexEngine) (captured : QRegularExpression → QString → QString)
    (text : QString) (spec : Intruder.ExtractSpec) : QString :=
  let hay := bounded text
  if !spec.regex.isEmpty then
    if !E.isValid ⟨spec.regex, false⟩ then []
    else if !E.hasMatch ⟨spec.regex, false⟩ hay then []
    else captured ⟨spec.regex, false⟩ hay
  else if spec.start.isEmpty && spec.end_.isEmpty then []
  else
    let begins := if spec.start.isEmpty then some 0
      else (indexOf spec.start hay).map (· + spec.start.length)
    match begins with
    | none => []
    | some start =>
      if spec.end_.isEmpty then hay.drop start
      else
        match indexOfFrom spec.end_ hay start with
        | none => []
        | some stop => (hay.drop start).take (stop - start)

end Nullock.IntruderGrep

namespace Nullock.Intruder
open ScopeLogic HttpLogic Proxy SessionRules IntruderEngine IntruderRules IntruderGrep RedirectLogic

structure SentRequest where
  host : QString
  port : Nat
  tls : Bool
  bytes : QByteArray
deriving DecidableEq

structure ClientResponse extends HttpResponse where
  contentDecoded : Bool := false
  decodedBody : QByteArray := []
deriving DecidableEq

def ClientResponse.bodyForInspection (resp : ClientResponse) : QByteArray :=
  if resp.contentDecoded || !resp.decodedBody.isEmpty then resp.decodedBody else resp.body

def noResponse : ClientResponse := { toHttpResponse := ⟨[], 0, [], [], []⟩ }

structure SendResult where
  ok : Bool := false
  errorMessage : QString := []
  parsed : ClientResponse := noResponse
deriving DecidableEq

abbrev Server := SentRequest → SendResult

/-- What an attack is surrounded by: libraries, scope and session rules. -/
structure Environment where
  E : RegexEngine
  L : TextLibrary
  P : RuleLibrary
  N : UrlLibrary
  /-- The first group of a match, or the whole match. -/
  captured : QRegularExpression → QString → QString
  inScope : Option (N.Url → Bool)
  sessionRules : Option (List SessionRule × (QString → QString → Option QString))

structure Grade where
  statusCode : Int
  responseSize : Nat
  errorMessage : QString
  matched : Bool
  reflected : Bool
  extracted : QString
deriving DecidableEq

/-- What was sent first for a row, what was followed, and the grade. -/
structure Fired where
  first : Option SentRequest
  followed : List SentRequest
  grade : Grade
deriving DecidableEq

structure Chain (N : UrlLibrary) where
  current : N.Url
  method : QString
  body : QByteArray
  jar : N.Jar
  previousRequest : QByteArray

def kMaxRedirectHops : Nat := 10

section Pipeline
variable (env : Environment) (c : RunConfig)

def grepScanText (resp : ClientResponse) : QString :=
  resp.headers.flatMap (fun h => h.1 ++ utf16 ": " ++ h.2 ++ utf16 "\n") ++ utf16 "\n" ++
    env.L.fromUtf8 resp.bodyForInspection

def anyReflected (combo : Combo) (scan : QString) : Bool :=
  combo.any (fun p => p.any (payloadReflected scan))

def computeGrep (resp : ClientResponse) (combo : Combo) : Bool × Bool × QString :=
  let scan := grepScanText env resp
  (!c.grepMatch.isEmpty && grepMatch env.E scan c.grepMatch,
    c.grepPayloadReflection && !combo.isEmpty && anyReflected combo scan,
    if c.grepExtract.isEmpty then [] else grepExtract env.E env.captured scan c.grepExtract)

/-- The bytes of the first request; `none` when the text cannot be encoded. -/
def requestBytes (payloads : Combo) : Option QByteArray :=
  let encoded := NetworkingLogic.encodeRequestText env.L
    (applyPayloads c.requestTemplate payloads) c.requestLatin1
  if encoded.isEmpty then none
  else
    let normalized := ChainRunner.normalizeContentLength encoded
    match env.sessionRules with
    | none => some normalized
    | some (rules, varsByHost) =>
      some (applyToRequestBytes env.E env.L rules varsByHost normalized c.host
        SessionRulesLogic.ToolIntruder)

def sentRequest (bytes : QByteArray) : SentRequest :=
  ⟨c.host, (c.port % 2 ^ 16).toNat, c.tls, bytes⟩

def startUrl (bytes : QByteArray) : env.N.Url :=
  requestUrl env.N env.L c.tls c.host c.port bytes

/-- The request that follows an answer, and where the chain stands then. -/
def nextHop (chain : Chain env.N) (resp : ClientResponse) (next : env.N.Url) :
    SentRequest × Chain env.N :=
  let jar := if c.followCookies then mergeSetCookies env.N chain.jar chain.current resp.headers
    else chain.jar
  let keeps := redirectPreservesBody env.N resp.statusCode chain.method
  let method := methodAfterRedirect env.N resp.statusCode chain.method
  let body := if keeps then chain.body else []
  let cookies := if c.followCookies then renderCookieHeader env.N jar next else []
  let bytes := buildFollowRequest env.N env.L next method cookies body chain.previousRequest
    chain.current keeps
  let tls := equalsIgnoreCase (env.N.scheme next) (utf16 "https")
  let port := portOr env.N next (if tls then 443 else 80)
  (⟨env.N.host next, (port % 2 ^ 16).toNat, tls, bytes⟩, ⟨next, method, body, jar, bytes⟩)

/-- The redirects followed; `asked` is what the scope says of a target. -/
def followRedirects (send : Server) (asked : env.N.Url → Bool) :
    Nat → Chain env.N → SendResult → List SentRequest × SendResult
  | 0, _, result => ([], result)
  | hops + 1, chain, result =>
    if !result.ok || !isRedirectStatus result.parsed.statusCode then ([], result)
    else
      let loc := findHeader result.parsed.headers (utf16 "Location")
      match resolveRedirect env.N chain.current loc with
      | none => ([], result)
      | some next =>
        if !followAllowed env.L c.followPolicy (env.N.host chain.current) (env.N.host next)
            (asked next) then ([], result)
        else
          let (request, chain') := nextHop env c chain result.parsed next
          let (followed, last) := followRedirects send asked hops chain' (send request)
          (request :: followed, last)

def retried (send : Server) (request : SentRequest) : Nat → SendResult → SendResult
  | 0, result => result
  | attempts + 1, result =>
    if result.ok then result else retried send request attempts (send request)

def startChain (bytes : QByteArray) : Chain env.N :=
  let origin := startUrl env c bytes
  { current := origin
    method := requestMethod env.N env.L bytes
    body := bodyOf bytes
    jar := if c.followCookies then seedRequestCookies env.N env.N.emptyJar origin bytes
      else env.N.emptyJar
    previousRequest := bytes }

def gradeOf (result : SendResult) (combo : Combo) : Grade :=
  let grep := if result.ok then computeGrep env c result.parsed combo else (false, false, [])
  { statusCode := if result.ok then result.parsed.statusCode else 0
    responseSize := result.parsed.body.length
    errorMessage := if result.ok then [] else result.errorMessage
    matched := grep.1
    reflected := grep.2.1
    extracted := grep.2.2 }

def encodingError : QString :=
  utf16 "Request contains characters outside Latin-1. Select UTF-8 encoding."

/-- The request of a row, its redirects, and the grade of the last answer. -/
def fire (send : Server) (asked : env.N.Url → Bool) (retries : Nat) (payloads combo : Combo) :
    Fired :=
  match requestBytes env c payloads with
  | none =>
    ⟨none, [], gradeOf env c { errorMessage := encodingError } combo⟩
  | some bytes =>
    let request := sentRequest c bytes
    let result := retried send request retries (send request)
    let (followed, last) :=
      if c.followPolicy != FollowNever && result.ok then
        followRedirects env c send asked kMaxRedirectHops (startChain env c bytes) result
      else ([], result)
    ⟨some request, followed, gradeOf env c last combo⟩

/-- What the scope says of a redirect target that is handed over whole. -/
def scopeOfUrl (next : env.N.Url) : Bool := env.inScope.any (fun inScope => inScope next)

def scopeOfHost (next : env.N.Url) : Bool :=
  env.inScope.any (fun inScope => inScope (env.N.ofText (env.N.host next)))

def processed (combo : Combo) : Combo := applyRulesToCombo env.P combo (effectiveRules c)

def fireOne (send : Server) (combo : Combo) : Fired :=
  fire env c send (scopeOfUrl env) c.retries.toNat (processed env c combo) combo

def resendOne (send : Server) (combo : Combo) : Fired :=
  fire env c send (scopeOfHost env) 0 (processed env c combo) (processed env c combo)

end Pipeline

/-- A completed row: its stored combination, the one fired, and the result. -/
structure FiredRow where
  stored : Combo
  combo : Combo
  fired : Fired

/-- An attack: its combinations, the rows passed over, and where it stopped. -/
structure AttackRun where
  combos : List Combo
  skipRows : List Nat := []
  stopAt : Nat
  seed : Option (Option QString) := none

section Runs
variable (env : Environment) (c : RunConfig)

def chainRows (send : Server) : Option QString → List Combo → List FiredRow
  | _, [] => []
  | cur, combo :: combos =>
    let fired := fireOne env c send (withFirst cur combo)
    ⟨combo, withFirst cur combo, fired⟩ ::
      if fired.grade.extracted.isEmpty then []
      else chainRows send (some fired.grade.extracted) combos

def runWorker (send : Server) (run : AttackRun) : List FiredRow :=
  let combos := run.combos.take run.stopAt
  match run.seed with
  | some cur => chainRows env c send cur combos
  | none =>
    ((numbered combos).filter (fun row => !run.skipRows.contains row.1)).map (fun row =>
      ⟨row.2, row.2, fireOne env c send row.2⟩)

end Runs

end Nullock.Intruder

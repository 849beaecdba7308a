import Nullock.SessionVariables
import Nullock.CookieJar
import Nullock.JsonDocuments

namespace Nullock.SequencerCapture
open ScopeLogic HttpLogic SessionRules QJsonObject Proxy
open SessionManager (toArray)
open SessionVariables (ExtractLibrary InspectedResponse findHeader findCookieValue jsonPathGet)

def kMaxTokens : Int := 10000
def kConsecFailAbort : Int := 10
def kMaxCookieNames : Nat := 64
def kMaxCorpus : Nat := 4 * 1024 * 1024
def kMaxField : Nat := 1024 * 1024

inductive ExtractFrom where
  | header
  | cookie
  | json
  | regex
  | status
  | delimiter
deriving DecidableEq

def ExtractFrom.mode : ExtractFrom → QString
  | .header => utf16 "header"
  | .cookie => utf16 "cookie"
  | .json => utf16 "json"
  | .regex => utf16 "regex"
  | .status => utf16 "status"
  | .delimiter => utf16 "delimiter"

structure Request where
  request : QByteArray
  host : QString
  port : Int := 443
  tls : Bool := true
  extractFrom : ExtractFrom := .cookie
  extractKey : QString := []
  count : Int := 0
  throttleMs : Int := 0

section Logic
variable (L : TextLibrary) (X : ExtractLibrary)

def betweenDelimiters (key buf : QString) : QString :=
  match indexOf [0x1F] key with
  | none => []
  | some sep =>
    let start := key.take sep
    let stop := key.drop (sep + 1)
    match if start.isEmpty then some 0 else indexOf start buf with
    | none => []
    | some s =>
      let first := s + start.length
      match if stop.isEmpty then some buf.length else indexOfFrom stop buf first with
      | none => []
      | some e => (buf.drop first).take (e - first)

def extractToken (source : ExtractFrom) (key : QString) (statusCode : Int) (headers : List Header)
    (body : QByteArray) : QString :=
  match source with
  | .header => findHeader L headers key
  | .cookie =>
    ((headers.filter (fun h => equalsIgnoreCase h.1 (utf16 "Set-Cookie"))).map
      (fun h => findCookieValue L h.2 key)).find? (fun v => !v.isEmpty) |>.getD []
  | .json => jsonPathGet X body key
  | .regex =>
    if X.isValid key then
      match X.captures key (fromUtf8 (body.take kMaxField)) with
      | some (whole, groups) => groups.head?.getD whole
      | none => []
    else []
  | .status => QString.number statusCode
  | .delimiter => betweenDelimiters key (fromUtf8 (body.take kMaxField))

def cookieNameFromSetCookie (raw : QString) : QString :=
  let s := QString.trimmed (firstSection 0x3B raw)
  match indexOf (utf16 "=") s with
  | none => []
  | some eq => if eq = 0 then [] else QString.trimmed (s.take eq)

end Logic

def clampCaptureCount (requested maxCap : Int) : Int :=
  let cap := if maxCap < 0 then 0 else maxCap
  if requested < 0 then 0 else if requested > cap then cap else requested

def clampThrottleMs (requestedMs : Int) : Int :=
  if requestedMs < 0 then 0 else if requestedMs > 60000 then 60000 else requestedMs

inductive ShotClass where
  | token
  | emptyExtract
  | httpError
  | transportError
deriving DecidableEq

def classifyShot (ok : Bool) (statusCode : Int) (tokenEmpty : Bool) : ShotClass :=
  if ok = false then .transportError
  else if tokenEmpty = false then .token
  else if statusCode ≥ 200 ∧ statusCode < 400 then .emptyExtract
  else .httpError

def circuitTripped (consecutiveFailures threshold : Int) : Bool :=
  if threshold ≤ 0 then false else consecutiveFailures ≥ threshold

/-- The loop of a running capture; `sent` while a request is on its way. -/
structure Worker where
  req : Request
  total : Int
  i : Int := 0
  consecFail : Int := 0
  sent : Bool := false

structure Engine where
  draft : QJsonObject := []
  tokenCharacters : Nat := 0
  revision : Int := 0
  textRevision : Int := 0
  stop : Bool := false
  done : Int := 0
  total : Int := 0
  harvested : Int := 0
  emptyExtract : Int := 0
  httpErrors : Int := 0
  transportErrors : Int := 0
  lastStatus : Int := 0
  host : QString := []
  error : QString := []
  tokens : List QString := []
  cookieNames : List QString := []
  worker : Option Worker := none

namespace Engine

def running (c : Engine) : Bool := c.worker.isSome

def text (c : Engine) : QJsonValue := c.draft.value "text"

def joined (corpus addition : QString) : QString :=
  (if corpus.isEmpty || corpus.getLast? == some 0x0A then corpus else corpus ++ [0x0A]) ++ addition

def resetCounters (c : Engine) (total : Int) : Engine :=
  { c with
    done := 0
    total := total
    harvested := 0
    emptyExtract := 0
    httpErrors := 0
    transportErrors := 0
    lastStatus := 0 }

def setMembers (members : List (String × QJsonValue)) (o : QJsonObject) : QJsonObject :=
  members.foldl (fun o m => insert (utf16 m.1) m.2 o) o

def requestMembers (req : Request) : List (String × QJsonValue) :=
  [("capHost", .string req.host), ("capPort", .double req.port), ("capTls", .bool req.tls),
    ("capRequest", .string (fromUtf8 req.request)), ("capCount", .double req.count),
    ("capThrottleMs", .double req.throttleMs),
    ("capExtractFrom", .string req.extractFrom.mode),
    ("capExtractKey", .string req.extractKey)] ++
  if req.extractFrom = .delimiter then
    [("capDelimStart", .string (firstSection 0x1F req.extractKey)),
      ("capDelimEnd", .string ((req.extractKey.dropWhile (· != 0x1F)).drop 1))]
  else []

/-- A capture begins unless one is running or the request is unusable. -/
def start (c : Engine) (reqIn : Request) : Engine × Option QString :=
  if c.running then (c, some (utf16 "a capture is already running"))
  else if (QString.trimmed reqIn.host).isEmpty || reqIn.request.isEmpty || reqIn.port < 1 ||
      reqIn.port > 65535 then
    (c, some (utf16 "empty host or request"))
  else if reqIn.request.length > kMaxField || reqIn.extractKey.length > kMaxField then
    (c, some (utf16 "Capture request or extraction key exceeds the workspace limit"))
  else
    let req := { reqIn with
      count := clampCaptureCount reqIn.count kMaxTokens
      throttleMs := clampThrottleMs reqIn.throttleMs }
    if req.count ≤ 0 then
      (c, some (utf16 "count must be between 1 and " ++ QString.number kMaxTokens))
    else
      (resetCounters
        { c with
          tokens := []
          tokenCharacters := 0
          cookieNames := []
          error := []
          host := req.host
          draft := setMembers (requestMembers req) c.draft
          revision := c.revision + 1
          stop := false
          worker := some { req := req, total := req.count } }
        req.count, none)

def requestStop (c : Engine) : Engine := { c with stop := true }

def clear (c : Engine) : Engine :=
  if c.running then c
  else
    resetCounters
      { c with
        tokens := []
        tokenCharacters := 0
        cookieNames := []
        error := []
        host := [] } 0

/-- The top of the loop: the next request is sent, or the capture ends. -/
def send (c : Engine) : Engine :=
  match c.worker with
  | none => c
  | some w =>
    if w.sent then c
    else if w.i < w.total ∧ c.stop = false then
      { c with worker := some { w with sent := true } }
    else { c with worker := none }

def noteCookieName (names : List QString) (name : QString) : List QString :=
  if name.isEmpty then names
  else if name ∉ names ∧ names.length < kMaxCookieNames then names ++ [name]
  else names

/-- A token that was captured, if it still fits; with the number of failures in a row. -/
def appendToken (c : Engine) (consecFail : Int) (token : QString) : Engine × Int :=
  let corpus := (c.draft.value "text").toQString
  if c.tokenCharacters + token.length > kMaxCorpus ∨
      corpus.length + token.length + 1 > kMaxCorpus then
    ({ c with
      error := utf16 "Capture corpus reached its size limit; export or clear the capture"
      stop := true }, consecFail)
  else
    ({ c with
      draft := insert (utf16 "text") (.string (joined corpus token)) c.draft
      tokens := c.tokens ++ [token]
      tokenCharacters := c.tokenCharacters + token.length
      revision := c.revision + 1
      textRevision := c.textRevision + 1
      harvested := c.harvested + 1 }, 0)

def tally (c : Engine) (consecFail : Int) (token : QString) : ShotClass → Engine × Int
  | .token => appendToken c consecFail token
  | .emptyExtract => ({ c with emptyExtract := c.emptyExtract + 1 }, 0)
  | .httpError => ({ c with httpErrors := c.httpErrors + 1 }, consecFail + 1)
  | .transportError => ({ c with transportErrors := c.transportErrors + 1 }, consecFail + 1)

def noteResponse (c : Engine) (resp : InspectedResponse) : Engine :=
  { c with
    lastStatus := resp.statusCode
    cookieNames :=
      ((resp.headers.filter (fun h => equalsIgnoreCase h.1 (utf16 "Set-Cookie"))).map
        (fun h => cookieNameFromSetCookie h.2)).foldl noteCookieName c.cookieNames }

section Shots
variable (L : TextLibrary) (X : ExtractLibrary)

def tokenOf (req : Request) : Option InspectedResponse → QString
  | none => []
  | some resp =>
    extractToken L X req.extractFrom req.extractKey resp.statusCode resp.headers
      resp.bodyForInspection

/-- The loop's body from the answer or failure of the request on. -/
def shot (c : Engine) (res : Option InspectedResponse) : Engine :=
  match c.worker with
  | none => c
  | some w =>
    if w.sent = false then c
    else
      let noted := match res with
        | none => c
        | some resp => noteResponse c resp
      let status := match res with
        | none => 0
        | some resp => resp.statusCode
      let token := tokenOf L X w.req res
      let cls := classifyShot res.isSome status token.isEmpty
      let (tallied, consecFail) := tally noted w.consecFail token cls
      if circuitTripped consecFail kConsecFailAbort then
        { tallied with
          done := tallied.done + 1
          error := utf16 "aborted after " ++ QString.number consecFail ++
            utf16 " consecutive failures (target unreachable or blocking)"
          worker := none }
      else
        { tallied with
          done := tallied.done + 1
          worker := some { w with i := w.i + 1, consecFail := consecFail, sent := false } }

end Shots

def snapshotMembers (c : Engine) : List (String × QJsonValue) :=
  [("revision", .double c.revision), ("textRevision", .double c.textRevision),
    ("running", .bool c.running), ("host", .string c.host), ("done", .double c.done),
    ("total", .double c.total), ("harvested", .double c.harvested),
    ("emptyExtract", .double c.emptyExtract), ("httpErrors", .double c.httpErrors),
    ("transportErrors", .double c.transportErrors), ("lastStatus", .double c.lastStatus),
    ("error", .string c.error), ("cookieNames", .array (c.cookieNames.map .string))]

def snapshot (c : Engine) : QJsonObject := ofMembers (snapshotMembers c)

def exportState (c : Engine) : QJsonObject :=
  ofMembers [("version", .double 1), ("draft", .object c.draft),
    ("capture", .object (insert (utf16 "harvested") (.double c.tokens.length) (snapshot c))),
    ("revision", .double c.revision), ("textRevision", .double c.textRevision),
    ("tokens", .array (c.tokens.map .string))]

/-- The numbers in a saved state are not read back; the engine's own move on. -/
def importState (c : Engine) (state : QJsonObject) : Engine :=
  if c.running then c
  else
    let cleared := clear c
    let tokens := (toArray (state.value "tokens")).map QJsonValue.toQString
    let o := (state.value "capture").toObject
    { cleared with
      draft := (state.value "draft").toObject
      tokens := tokens
      tokenCharacters := (tokens.map List.length).sum
      host := (o.value "host").toQString
      error :=
        if (o.value "running").toBool false then
          utf16
            "Capture interrupted; restored idle. Start explicitly to collect more samples."
        else (o.value "error").toQString
      done := (o.value "done").toInt 0
      total := (o.value "total").toInt 0
      harvested := tokens.length
      emptyExtract := (o.value "emptyExtract").toInt 0
      httpErrors := (o.value "httpErrors").toInt 0
      transportErrors := (o.value "transportErrors").toInt 0
      lastStatus := (o.value "lastStatus").toInt 0
      cookieNames := ((toArray (o.value "cookieNames")).map QJsonValue.toQString).take
        kMaxCookieNames
      revision := cleared.revision + 1
      textRevision := cleared.textRevision + 1 }

/-- The doubles next to 0.000001 and 0.2 that bound the significance level. -/
def sigLevelBounds : Rat × Rat := (4722366482869645 / 2 ^ 72, 3602879701896397 / 2 ^ 54)

def maxNumber (key : QString) : Int :=
  if key = utf16 "capPort" then 65535
  else if key = utf16 "capCount" then kMaxTokens
  else 60000

def fieldValid (key : QString) (value : QJsonValue) : Bool :=
  if key = utf16 "capTls" then value.isBool
  else if key = utf16 "sigLevel" then
    value.isDouble && sigLevelBounds.1 ≤ value.toDouble && value.toDouble ≤ sigLevelBounds.2
  else if key ∈ ["capPort", "capCount", "capThrottleMs"].map utf16 then
    value.isDouble && value.toDouble == (value.toInt (-1) : Rat) && 0 ≤ value.toDouble &&
      value.toDouble ≤ maxNumber key
  else if key ∈ ["text", "capHost", "capRequest", "capExtractFrom", "capExtractKey",
      "capDelimStart", "capDelimEnd"].map utf16 then
    value.isString &&
      value.toQString.length ≤ (if key = utf16 "text" then 4 else 1) * 1024 * 1024
  else false

def patchFields : List (QString × QJsonValue) → QJsonObject → Except QString QJsonObject
  | [], draft => .ok draft
  | m :: rest, draft =>
    if fieldValid m.1 m.2 then patchFields rest (insert m.1 m.2 draft)
    else .error (utf16 "Invalid Sequencer field: " ++ m.1)

/-- A patch that brings a text has to name the number of the text it replaces. -/
def patchDraft (c : Engine) (patch : QJsonObject) (textRevision : Int) :
    Engine × Option QString :=
  if patch.contains "text" && textRevision != c.textRevision then
    (c, some (utf16 ("Token text changed in another client or capture. " ++
      "Copy your edit before reloading the saved corpus.")))
  else
    match patchFields patch c.draft with
    | .error e => (c, some e)
    | .ok draft =>
      ({ c with
        draft := draft
        revision := c.revision + 1
        textRevision := if patch.contains "text" then c.textRevision + 1 else c.textRevision },
        none)

def appendText (c : Engine) (text : QString) : Engine × Option QString :=
  let corpus := (c.draft.value "text").toQString
  if corpus.length + text.length + 1 > kMaxCorpus then
    (c, some (utf16 ("Sequencer corpus reached its 4 MiB character limit; " ++
      "export or clear it before adding samples")))
  else
    ({ c with
      draft := insert (utf16 "text") (.string (joined corpus text)) c.draft
      revision := c.revision + 1
      textRevision := c.textRevision + 1 }, none)

end Engine

end Nullock.SequencerCapture

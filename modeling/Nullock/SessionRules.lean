import Nullock.Encodings
import Nullock.HttpRequests
import Nullock.ScopeRules

namespace Nullock

structure TextLibrary where
  toUtf8 : QString → QByteArray
  fromUtf8 : QByteArray → QString
  toPercentEncoding : QString → QByteArray
  fromPercentEncoding : QByteArray → QString
  lowerCase : QString → QString
  /-- The form under which texts are compared without regard to case. -/
  caseFold : QString → QString
  /-- A text with its lowest place marker replaced. -/
  arg : QString → QString → QString
  /-- The JSON array of one string, in compact form. -/
  jsonArray : QString → QByteArray
  caseFold_ascii : ∀ s literal : QString, (∀ c ∈ literal, c < 0x80) →
    (caseFold s = caseFold literal ↔ equalsIgnoreCase s literal = true)
  percentEncoded_oneLine : ∀ s, 0x0A ∉ fromUtf8 (toPercentEncoding s)
  arg_mem : ∀ text value c, c ∈ arg text value → c ∈ text ∨ c ∈ value

def startsWithIgnoreCase (s literal : QString) : Bool :=
  (literal.map foldCase).isPrefixOf (s.map foldCase)

def containsIgnoreCase (s literal : QString) : Bool :=
  (indexOf (literal.map foldCase) (s.map foldCase)).isSome

end Nullock

namespace Nullock.Proxy

structure ProxiedRequest extends HttpRequest where
  host : QString
  port : Nat
  tls : Bool
deriving DecidableEq

end Nullock.Proxy

namespace Nullock.SessionRulesLogic
open ScopeLogic HttpLogic

def isWordChar (c : UInt16) : Bool :=
  isDigit c || (0x41 ≤ c && c ≤ 0x5A) || (0x61 ≤ c && c ≤ 0x7A) || c == 0x5F

def escapeChar (c : UInt16) : QString :=
  if c = 0 then utf16 "\\0" else if isWordChar c then [c] else [0x5C, c]

def globToRx (glob : QString) : QRegularExpression :=
  ⟨utf16 "\\A" ++ glob.flatMap (fun c =>
      if c = 0x2A then utf16 ".*" else if c = 0x3F then utf16 "." else escapeChar c) ++
    utf16 "\\z", true⟩

def stripQuery (path : QString) : QString := firstSection 0x3F path

def urlScopeMatches (E : RegexEngine) (host path : QString)
    (includeGlobs excludeGlobs : List QString) : Bool :=
  if includeGlobs.isEmpty && excludeGlobs.isEmpty then true
  else
    let target := host ++ stripQuery path
    if excludeGlobs.any (fun ex => !ex.isEmpty && E.hasMatch (globToRx ex) target) then false
    else if includeGlobs.isEmpty then true
    else includeGlobs.any (fun inc => !inc.isEmpty && E.hasMatch (globToRx inc) target)

def placeholder (s : QString) : Option QString :=
  if (utf16 "\x7b\x7b").isPrefixOf s then
    let name := (s.drop 2).takeWhile isWordChar
    if name.head?.all (fun c => !isDigit c) && !name.isEmpty &&
        (utf16 "\x7d\x7d").isPrefixOf ((s.drop 2).drop name.length) then
      some name
    else none
  else none

/-- Variables in place of their placeholders; `skip` characters are passed over. -/
def substituteFrom (vars : QString → Option QString) : Nat → QString → QString
  | _, [] => []
  | skip + 1, _ :: s => substituteFrom vars skip s
  | 0, c :: s =>
    match (placeholder (c :: s)).bind (fun name => (vars name).map (fun v => (name, v))) with
    | some (name, value) => value ++ substituteFrom vars (name.length + 3) s
    | none => c :: substituteFrom vars 0 s

def substitute (templ : QString) (vars : QString → Option QString) : QString :=
  if wellFormed templ then substituteFrom vars 0 templ else templ

def hasUnresolvedPlaceholder (s : QString) : Bool :=
  wellFormed s && s.tails.any (fun t => (placeholder t).isSome)

def sanitizeHeaderValue (v : QString) : QString :=
  (v.filter (fun c => c != 0x0D && c != 0x0A)).filter (fun c => 0x20 ≤ c || c == 0x09)

def sanitizeCookieValue (v : QString) : QString :=
  (sanitizeHeaderValue v).filter (· != 0x3B)

def jsonEscapeInner (L : TextLibrary) (v : QString) : QString :=
  let s := QString.trimmed (L.fromUtf8 (L.jsonArray v))
  match indexOf (utf16 "\"") s, lastIndexOf 0x22 s with
  | some a, some b => if a < b then (s.drop (a + 1)).take (b - a - 1) else v
  | _, _ => v

def ruleAppliesToTool (toolsMask tool : UInt32) : Bool :=
  toolsMask == 0 || (toolsMask &&& tool) != 0

def ToolProxy : UInt32 := 1
def ToolRepeater : UInt32 := 2
def ToolIntruder : UInt32 := 4
def ToolScanner : UInt32 := 8

def parameterName (L : TextLibrary) (part : QByteArray) : QString :=
  L.fromPercentEncoding ((firstSection 0x3D part).map (fun c => if c = 0x2B then 0x20 else c))

/-- The parts of a form without the repetitions of a parameter of that name. -/
def upsertParts (L : TextLibrary) (key : QString) (replacement : QByteArray) :
    Bool → List QByteArray → List QByteArray
  | replaced, [] => if replaced then [] else [replacement]
  | replaced, part :: parts =>
    if part.isEmpty then upsertParts L key replacement replaced parts
    else if parameterName L part = key then
      if replaced then upsertParts L key replacement true parts
      else replacement :: upsertParts L key replacement true parts
    else part :: upsertParts L key replacement replaced parts

def upsertFormParameter (L : TextLibrary) (body : QByteArray) (key value : QString) : QByteArray :=
  let replacement := L.toPercentEncoding key ++ latin1 "=" ++ L.toPercentEncoding value
  List.intercalate (latin1 "&") (upsertParts L key replacement false (body.splitOn 0x26))

def braced (name : QString) : QString := utf16 "\x7b\x7b" ++ name ++ utf16 "\x7d\x7d"

def injectIntoNonFormBody (L : TextLibrary) (body : QByteArray)
    (injectKey variableName value : QString) (isJson : Bool) : QByteArray :=
  let sub := L.toUtf8 (if isJson then jsonEscapeInner L value else value)
  let b := replaceAll (L.toUtf8 (braced injectKey)) sub body
  if variableName.isEmpty then b else replaceAll (L.toUtf8 (braced variableName)) sub b

end Nullock.SessionRulesLogic

namespace Nullock.SessionRules
open ScopeLogic HttpLogic SessionRulesLogic Proxy

/-- Where a rule puts its value; a number of no place means nowhere. -/
inductive InjectInto where
  | header
  | cookie
  | body
  | url
  | other
deriving DecidableEq

structure SessionRule where
  enabled : Bool := true
  hostGlob : QString := utf16 "*"
  pathGlob : QString := utf16 "*"
  variableName : QString := []
  injectInto : InjectInto := .header
  injectKey : QString := []
  injectTemplate : QString := []
  tools : UInt32 := 0
  includeUrls : List QString := []
  excludeUrls : List QString := []

section Rules
variable (E : RegexEngine) (L : TextLibrary)

def ruleMatches (r : SessionRule) (host path : QString) : Bool :=
  E.hasMatch (globToRx r.hostGlob) host && E.hasMatch (globToRx r.pathGlob) (stripQuery path) &&
    urlScopeMatches E host path r.includeUrls r.excludeUrls

def injectionTemplate (r : SessionRule) : QString :=
  if r.injectTemplate.isEmpty then
    braced (if r.variableName.isEmpty then r.injectKey else r.variableName)
  else r.injectTemplate

/-- The value a rule injects into a request; `none` is a `continue`. -/
def injectedValue (vars : QString → Option QString) (tool : UInt32) (req : ProxiedRequest)
    (r : SessionRule) : Option QString :=
  if !r.enabled then none
  else if !ruleAppliesToTool r.tools tool then none
  else if !ruleMatches E r req.host req.path then none
  else if r.injectKey.isEmpty then none
  else
    let value := substitute (injectionTemplate r) vars
    if value.isEmpty || hasUnresolvedPlaceholder value then none else some value

def injectHeader (key value : QString) : List Header → List Header
  | [] => [(key, value)]
  | h :: headers =>
    if L.caseFold h.1 = L.caseFold key then (h.1, value) :: headers
    else h :: injectHeader key value headers

def cookieName (segment : QString) : QString :=
  match indexOf (utf16 "=") segment with
  | some eq => if 0 < eq then QString.trimmed (segment.take eq) else segment
  | none => segment

def injectCookieValue (key value cookies : QString) : QString :=
  let segments := ((cookies.splitOn 0x3B).filter (fun seg => !seg.isEmpty)).map QString.trimmed
  let pair := key ++ utf16 "=" ++ value
  let named (s : QString) : Bool := L.caseFold (cookieName s) = L.caseFold key
  let parts := segments.map (fun s => if named s then pair else s)
  List.intercalate (utf16 "; ") (if segments.any named then parts else parts ++ [pair])

def updateCookie (update : QString → QString) : List Header → List Header
  | [] => [(utf16 "Cookie", update [])]
  | h :: headers =>
    if equalsIgnoreCase h.1 (utf16 "Cookie") then (h.1, update h.2) :: headers
    else h :: updateCookie update headers

def injectBody (req : ProxiedRequest) (r : SessionRule) (value : QString) : QByteArray :=
  let contentType := findHeader req.headers (utf16 "Content-Type")
  if startsWithIgnoreCase contentType (utf16 "application/x-www-form-urlencoded") then
    upsertFormParameter L req.body r.injectKey value
  else
    injectIntoNonFormBody L req.body r.injectKey r.variableName value
      (containsIgnoreCase contentType (utf16 "json"))

def injectUrl (path key value : QString) : QString :=
  let sep := if 0x3F ∈ path then utf16 "&" else utf16 "?"
  let encoded (s : QString) : QString := L.fromUtf8 (L.toPercentEncoding s)
  path ++ L.arg (L.arg (L.arg (utf16 "%1%2=%3") sep) (encoded key)) (encoded value)

def inject (req : ProxiedRequest) (r : SessionRule) (value : QString) : ProxiedRequest × Bool :=
  match r.injectInto with
  | .header =>
    ({ req with headers := injectHeader L r.injectKey (sanitizeHeaderValue value) req.headers },
      true)
  | .cookie =>
    let update := injectCookieValue L r.injectKey (sanitizeCookieValue value)
    ({ req with headers := updateCookie update req.headers }, true)
  | .body =>
    let body := injectBody L req r value
    if body ≠ req.body then ({ req with body := body }, true) else (req, false)
  | .url =>
    let path := injectUrl L req.path r.injectKey value
    ({ req with path := path, target := path }, true)
  | .other => (req, false)

def applyRule (vars : QString → Option QString) (tool : UInt32)
    (state : ProxiedRequest × Bool) (r : SessionRule) : ProxiedRequest × Bool :=
  match injectedValue E vars tool state.1 r with
  | none => state
  | some value =>
    let (req, changed) := inject L state.1 r value
    (req, state.2 || changed)

/-- The request after all rules, and whether one of them changed it. -/
def applyToRequest (rules : List SessionRule) (varsByHost : QString → QString → Option QString)
    (tool : UInt32) (req : ProxiedRequest) : ProxiedRequest × Bool :=
  rules.foldl (applyRule E L (varsByHost req.host) tool) (req, false)

end Rules

/-- A field of the parser; a line without a name before a colon is skipped. -/
def splitField (l : QByteArray) : Option Header :=
  match indexOf (latin1 ":") l with
  | none => none
  | some c =>
    if c = 0 then none
    else some (QString.trimmed (fromLatin1 (l.take c)),
      fromLatin1 (QByteArray.trimmed (l.drop (c + 1))))

def parseFieldLine (line : QByteArray) : Option Header := splitField (chopCr line)

def splitHead (raw : QByteArray) : QByteArray × QByteArray :=
  match indexOf (crlf ++ crlf) raw with
  | some sep => (raw.take sep, raw.drop (sep + 4))
  | none =>
    match indexOf (latin1 "\n\n") raw with
    | some sep => (raw.take sep, raw.drop (sep + 2))
    | none => (raw, [])

def parseRequestBytes (raw : QByteArray) (host : QString) (port : Nat) (tls : Bool) :
    ProxiedRequest :=
  let (head, body) := splitHead raw
  let lines := head.splitOn 0x0A
  let p := (QByteArray.trimmed (lines.headD [])).splitOn 0x20
  let first := if 2 ≤ p.length then fromLatin1 (p.getD 0 []) else []
  let second := if 2 ≤ p.length then fromLatin1 (p.getD 1 []) else []
  { method := first
    target := second
    httpVersion := if 3 ≤ p.length then fromLatin1 (p.getD 2 []) else []
    headers := (lines.drop 1).filterMap parseFieldLine
    path := second
    body := body
    host := host
    port := port % 2 ^ 16
    tls := tls }

/-- The bytes a tool sends, written anew only if a rule changed something. -/
def applyToRequestBytes (E : RegexEngine) (L : TextLibrary) (rules : List SessionRule)
    (varsByHost : QString → QString → Option QString) (rawRequest : QByteArray) (host : QString)
    (tool : UInt32) : QByteArray :=
  match applyToRequest E L rules varsByHost tool (parseRequestBytes rawRequest host 80 false) with
  | (req, true) => serializeRequestForOrigin req.toHttpRequest
  | (_, false) => rawRequest

end Nullock.SessionRules

import Nullock.ProxyScope
import Nullock.SessionRules

namespace Nullock.SessionLogic

structure CapturedCookie where
  name : QString
  value : QString
  path : QString
  secure : Bool := false
  persistent : Bool := false
  expiresEpoch : Int := 0

def resolveSegments (out : List QString) : List QString → List QString
  | [] => out
  | s :: segments =>
    if s.isEmpty || s == utf16 "." then resolveSegments out segments
    else if s == utf16 ".." then resolveSegments out.dropLast segments
    else resolveSegments (out ++ [s]) segments

def removeDotSegments (p : QString) : QString :=
  let r := utf16 "/" ++ List.intercalate (utf16 "/") (resolveSegments [] (p.splitOn 0x2F))
  if p.getLast? = some 0x2F ∧ r.getLast? ≠ some 0x2F then r ++ utf16 "/" else r

def pathMatches (cookiePath reqPath : QString) : Bool :=
  let cp := if cookiePath.head? = some 0x2F then cookiePath else utf16 "/"
  let rp := if reqPath.isEmpty then utf16 "/" else reqPath
  let rp := firstSection 0x23 (firstSection 0x3F rp)
  let rp := removeDotSegments (if rp.isEmpty then utf16 "/" else rp)
  cp == rp ||
    (cp.isPrefixOf rp && (cp.getLast? == some 0x2F || rp[cp.length]? == some 0x2F))

def injectableOverTransport (c : CapturedCookie) (tls : Bool) : Bool := !c.secure || tls

def cookieExpired (c : CapturedCookie) (nowEpoch : Int) : Bool :=
  c.persistent && c.expiresEpoch ≤ nowEpoch

end Nullock.SessionLogic

namespace Nullock.SessionManager
open SessionLogic SessionRules Proxy

structure HostSession where
  cookies : List CapturedCookie
  autoInject : Bool

def clientCookies (value : QString) : List (QString × QString) :=
  (value.splitOn 0x3B).filterMap (fun p =>
    let s := QString.trimmed p
    match indexOf (utf16 "=") s with
    | none => none
    | some eq =>
      if eq = 0 then none
      else some (QString.trimmed (s.take eq), QString.trimmed (s.drop (eq + 1))))

def override (ordered : List (QString × QString)) (name value : QString) :
    List (QString × QString) :=
  match lastIndexOf name (ordered.map Prod.fst) with
  | some i => ordered.set i (name, value)
  | none => ordered ++ [(name, value)]

def injectable (tls : Bool) (path : QString) (nowSec : Int) (c : CapturedCookie) : Bool :=
  !cookieExpired c nowSec && injectableOverTransport c tls && pathMatches c.path path

/-- The cookies of a host that are sent along, on top of those the client sent. -/
def combinedCookies (use : List CapturedCookie) (req : ProxiedRequest) (nowSec : Int)
    (value : QString) : List (QString × QString) :=
  (use.filter (injectable req.tls req.path nowSec)).foldl
    (fun ordered c => override ordered c.name c.value) (clientCookies value)

def joinCookies (ordered : List (QString × QString)) : QString :=
  List.intercalate (utf16 "; ") (ordered.map (fun kv => kv.1 ++ utf16 "=" ++ kv.2))

def injectInto (L : TextLibrary) (byHost : QString → Option HostSession) (nowSec : Int)
    (req : ProxiedRequest) : ProxiedRequest :=
  if req.host.isEmpty then req
  else
    match byHost (L.lowerCase req.host) with
    | none => req
    | some session =>
      if !session.autoInject || session.cookies.isEmpty then req
      else
        let existing := req.headers.any (fun h => equalsIgnoreCase h.1 (utf16 "Cookie"))
        if (combinedCookies session.cookies req nowSec []).isEmpty && !existing then req
        else
          let update (value : QString) : QString :=
            joinCookies (combinedCookies session.cookies req nowSec value)
          { req with headers := updateCookie update req.headers }

end Nullock.SessionManager

namespace Nullock.Proxy
open ScopeLogic HttpLogic SessionRules SessionRulesLogic

inductive Section where
  | reqUrl
  | reqHeader
  | reqBody
  | response
deriving DecidableEq

structure MatchReplaceRule where
  enabled : Bool := true
  ruleSection : Section
  find : QRegularExpression
  replace : QString
  hostAll : Bool := true
  host : QRegularExpression := {}

/-- All matches of an expression without captures replaced. -/
structure ReplaceEngine where
  isValid : QRegularExpression → Bool
  replace : QRegularExpression → QString → QString → QString

def applyOne (R : ReplaceEngine) (r : MatchReplaceRule) (s : QString) : Option QString :=
  if !R.isValid r.find then none
  else
    let s' := R.replace r.find r.replace s
    if s' ≠ s then some s' else none

def rewriteHeader (R : ReplaceEngine) (r : MatchReplaceRule) (h : Header) : Header :=
  match applyOne R r (h.1 ++ utf16 ": " ++ h.2) with
  | none => h
  | some combined =>
    match indexOf (utf16 ": ") combined with
    | some colon => if 0 < colon then (combined.take colon, combined.drop (colon + 2))
      else (combined, [])
    | none => (combined, [])

def rewriteBody (L : TextLibrary) (R : ReplaceEngine) (r : MatchReplaceRule) (body : QByteArray) :
    Option QByteArray :=
  (applyOne R r (L.fromUtf8 body)).map L.toUtf8

/-- One pass of the loop over the rules, with the flag that the body changed. -/
def applyMatchReplace (E : RegexEngine) (L : TextLibrary) (R : ReplaceEngine)
    (state : ProxiedRequest × Bool) (r : MatchReplaceRule) : ProxiedRequest × Bool :=
  let req := state.1
  if !r.enabled then state
  else if !r.hostAll && !E.hasMatch r.host req.host then state
  else
    match r.ruleSection with
    | .reqUrl =>
      ({ req with path := (applyOne R r req.path).getD req.path,
                  target := (applyOne R r req.target).getD req.target }, state.2)
    | .reqHeader => ({ req with headers := req.headers.map (rewriteHeader R r) }, state.2)
    | .reqBody =>
      match rewriteBody L R r req.body with
      | none => state
      | some body => ({ req with body := body }, true)
    | .response => state

def asInt (size : Nat) : Int :=
  if size % 2 ^ 32 < 2 ^ 31 then (size % 2 ^ 32 : Nat) else (size % 2 ^ 32 : Nat) - 2 ^ 32

def fixContentLength (newSize : Int) : List Header → List Header
  | [] => []
  | h :: headers =>
    if equalsIgnoreCase h.1 (utf16 "Content-Length") then
      (h.1, fromLatin1 (QByteArray.number newSize)) :: headers
    else h :: fixContentLength newSize headers

structure RewriteState where
  scope : Scope
  rules : List MatchReplaceRule
  sessionManager : Option (QString → Option SessionManager.HostSession)
  sessionRules : Option (List SessionRule × (QString → QString → Option QString))

def applyRules (E : RegexEngine) (L : TextLibrary) (R : ReplaceEngine)
    (rules : List MatchReplaceRule) (req : ProxiedRequest) : ProxiedRequest :=
  match rules.foldl (applyMatchReplace E L R) (req, false) with
  | (req, true) => { req with headers := fixContentLength (asInt req.body.length) req.headers }
  | (req, false) => req

def applyRequestRules (E : RegexEngine) (L : TextLibrary) (R : ReplaceEngine)
    (server : RewriteState) (nowSec : Int) (req : ProxiedRequest) : ProxiedRequest :=
  if !isUrlInScope E server.scope req.tls req.host req.port req.path then req
  else
    let req := applyRules E L R server.rules req
    let req := match server.sessionManager with
      | none => req
      | some byHost => SessionManager.injectInto L byHost nowSec req
    match server.sessionRules with
    | none => req
    | some (rules, varsByHost) => (applyToRequest E L rules varsByHost ToolProxy req).1

end Nullock.Proxy

namespace Nullock.ChainRunner
open Proxy

/-- The length of the line terminator at the front: CRLF, a bare LF or a bare CR. -/
def termLen : QByteArray → Nat
  | 0x0D :: 0x0A :: _ => 2
  | 0x0D :: _ => 1
  | 0x0A :: _ => 1
  | _ => 0

/-- The first terminator that another one follows: its position and the length of both. -/
def blankLine (i : Nat) : Nat → QByteArray → Option (Nat × Nat)
  | _, [] => none
  | skip + 1, _ :: s => blankLine (i + 1) skip s
  | 0, c :: s =>
    let t1 := termLen (c :: s)
    if t1 = 0 then blankLine (i + 1) 0 s
    else
      let t2 := termLen ((c :: s).drop t1)
      if 0 < t2 then some (i, t1 + t2) else blankLine (i + 1) (t1 - 1) s

def headerLines (cur : QByteArray) : Nat → QByteArray → List QByteArray
  | _, [] => if cur.isEmpty then [] else [cur]
  | skip + 1, _ :: s => headerLines cur skip s
  | 0, c :: s =>
    let t := termLen (c :: s)
    if t = 0 then headerLines (cur ++ [c]) 0 s else cur :: headerLines [] (t - 1) s

def asciiLower (s : QByteArray) : QByteArray :=
  s.map (fun c => if 0x41 ≤ c ∧ c ≤ 0x5A then c + 0x20 else c)

def lineField (line : QByteArray) : Option (QByteArray × QByteArray) :=
  match indexOf (latin1 ":") line with
  | none => none
  | some colon =>
    if colon = 0 then none
    else some (asciiLower (QByteArray.trimmed (line.take colon)), line.drop (colon + 1))

def isLengthLine (line : QByteArray) : Bool :=
  (lineField line).any (fun f => f.1 == latin1 "content-length")

def isChunkedLine (line : QByteArray) : Bool :=
  (lineField line).any (fun f => f.1 == latin1 "transfer-encoding" &&
    (indexOf (latin1 "chunked") (asciiLower f.2)).isSome)

/-- The lines of the new head; the flag says that a length was written. -/
def rebuildLines (teChunked : Bool) (lengthLine : QByteArray) :
    Bool → List QByteArray → List QByteArray × Bool
  | emittedCl, [] => ([], emittedCl)
  | emittedCl, line :: lines =>
    if isLengthLine line then
      if teChunked || emittedCl then rebuildLines teChunked lengthLine emittedCl lines
      else
        let (rest, emitted) := rebuildLines teChunked lengthLine true lines
        (lengthLine :: rest, emitted)
    else
      let (rest, emitted) := rebuildLines teChunked lengthLine emittedCl lines
      (line :: rest, emitted)

def normalizeContentLength (req : QByteArray) : QByteArray :=
  match blankLine 0 0 req with
  | none => req
  | some (sep, sepLen) =>
    let bodyAndTail := req.drop (sep + sepLen)
    let bodyLen := asInt bodyAndTail.length
    let lines := headerLines [] 0 (req.take sep)
    let teChunked := lines.any isChunkedLine
    let lengthLine := latin1 "Content-Length: " ++ QByteArray.number bodyLen
    let (rebuilt, emittedCl) := rebuildLines teChunked lengthLine false lines
    let rebuilt := if !teChunked && !emittedCl && 0 < bodyLen then rebuilt ++ [lengthLine]
      else rebuilt
    rebuilt.flatMap (fun line => line ++ crlf) ++ crlf ++ bodyAndTail

end Nullock.ChainRunner

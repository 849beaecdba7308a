import Nullock.HttpResponses
import Nullock.RequestRewriting

namespace Nullock.RedirectLogic
open ScopeLogic HttpLogic

/-- What the program uses of the library for URLs and cookie jars. -/
structure UrlLibrary where
  Url : Type
  /-- The URL that a text names. -/
  ofText : QString → Url
  isValid : Url → Bool
  /-- A URL as it is meant at another one. -/
  resolved : Url → Url → Url
  scheme : Url → QString
  host : Url → QString
  /-- The port, or -1. -/
  port : Url → Int
  path : Url → QString
  query : Url → QString
  /-- A URL whose scheme, host, port, path and query are set one after another. -/
  compose : QString → QString → Option Int → QString → Option QString → Url
  Jar : Type
  emptyJar : Jar
  /-- The jar with a cookie for every path. -/
  setCookie : QByteArray → QByteArray → Bool → Url → Jar → Jar
  /-- The jar with the cookies of a `Set-Cookie` field. -/
  setCookies : QByteArray → Url → Jar → Jar
  /-- The names and values of the cookies for a URL. -/
  cookiesForUrl : Jar → Url → List QByteArray
  upperCase : QString → QString

def FollowNever : Int := 0
def FollowOnSite : Int := 1
def FollowInScope : Int := 2
def FollowAlways : Int := 3

def isRedirectStatus (status : Int) : Bool :=
  status == 301 || status == 302 || status == 303 || status == 307 || status == 308

def headOf (request : QByteArray) : QByteArray :=
  match indexOf (crlf ++ crlf) request with
  | some sep => request.take sep
  | none => request

def bodyOf (request : QByteArray) : QByteArray :=
  match indexOf (crlf ++ crlf) request with
  | some sep => request.drop (sep + 4)
  | none => []

def fieldOf (line : QByteArray) : Option (QByteArray × QByteArray) :=
  (indexOf (latin1 ":") line).map (fun c =>
    (ChainRunner.asciiLower (QByteArray.trimmed (line.take c)), line.drop (c + 1)))

section Urls
variable (N : UrlLibrary)

def portOr (url : N.Url) (default : Int) : Int := if N.port url = -1 then default else N.port url

def resolveRedirect (current : N.Url) (location : QString) : Option N.Url :=
  let loc := QString.trimmed location
  if loc.isEmpty then none
  else
    let rel := N.ofText loc
    if !N.isValid rel then none
    else
      let resolved := N.resolved current rel
      if !N.isValid resolved || (N.host resolved).isEmpty then none else some resolved

def methodAfterRedirect (status : Int) (currentMethod : QString) : QString :=
  let m := N.upperCase (QString.trimmed currentMethod)
  if status = 307 ∨ status = 308 then m
  else if status = 303 then if m = utf16 "HEAD" then m else utf16 "GET"
  else if status = 301 ∨ status = 302 then if m = utf16 "POST" then utf16 "GET" else m
  else m

def redirectPreservesBody (status : Int) (method : QString) : Bool :=
  status != 303 && methodAfterRedirect N status method == N.upperCase (QString.trimmed method)

def followAllowed (L : TextLibrary) (policy : Int) (originHost nextHost : QString)
    (nextInScope : Bool) : Bool :=
  if (QString.trimmed nextHost).isEmpty then false
  else if policy = FollowAlways then true
  else if policy = FollowOnSite then L.caseFold nextHost = L.caseFold originHost
  else if policy = FollowInScope then nextInScope
  else false

/-- The pairs of one line of a request that is a `Cookie` field. -/
def cookiesOfLine (line : QByteArray) : List (QByteArray × QByteArray) :=
  match fieldOf line with
  | none => []
  | some (name, rest) =>
    if name ≠ latin1 "cookie" then []
    else ((QByteArray.trimmed rest).splitOn 0x3B).filterMap (fun pair =>
      match indexOf (latin1 "=") pair with
      | none => none
      | some eq =>
        if eq = 0 then none
        else some (QByteArray.trimmed (pair.take eq), QByteArray.trimmed (pair.drop (eq + 1))))

def seedRequestCookies (jar : N.Jar) (origin : N.Url) (request : QByteArray) : N.Jar :=
  (((headOf request).splitOn 0x0A).flatMap cookiesOfLine).foldl (fun jar cookie =>
    N.setCookie cookie.1 cookie.2 (N.scheme origin = utf16 "https") origin jar) jar

def mergeSetCookies (jar : N.Jar) (origin : N.Url) (headers : List Header) : N.Jar :=
  headers.foldl (fun jar h =>
    if equalsIgnoreCase h.1 (utf16 "Set-Cookie") then N.setCookies (toLatin1 h.2) origin jar
    else jar) jar

def renderCookieHeader (jar : N.Jar) (destination : N.Url) : QString :=
  List.intercalate (utf16 "; ") ((N.cookiesForUrl jar destination).map fromLatin1)

def skippedNames : List QByteArray :=
  [latin1 "host", latin1 "cookie", latin1 "content-length", latin1 "transfer-encoding",
    latin1 "connection", latin1 "proxy-connection", latin1 "keep-alive", latin1 "te",
    latin1 "trailer", latin1 "upgrade", latin1 "proxy-authorization"]

def crossOriginSafe : List QByteArray :=
  [latin1 "accept", latin1 "accept-language", latin1 "accept-encoding", latin1 "user-agent",
    latin1 "content-type", latin1 "content-encoding", latin1 "content-language",
    latin1 "content-location"]

def connectionTokens (line : QByteArray) : List QByteArray :=
  match fieldOf line with
  | none => []
  | some (name, rest) =>
    if name = latin1 "connection" then
      (rest.splitOn 0x2C).map (fun token => ChainRunner.asciiLower (QByteArray.trimmed token))
    else []

def carriedLines (sameOrigin preserveBody : Bool) (lines : List QByteArray) :
    List (QByteArray × QByteArray) :=
  let skip := skippedNames ++ lines.flatMap connectionTokens
  (lines.map chopCr).filterMap (fun line =>
    match fieldOf line with
    | none => none
    | some (name, _) =>
      if skip.contains name || (!sameOrigin && !crossOriginSafe.contains name) then none
      else if !preserveBody && (latin1 "content-").isPrefixOf name then none
      else some (name, line))

def buildFollowRequest (L : TextLibrary) (url : N.Url) (method cookieHeader : QString)
    (body previousRequest : QByteArray) (previousUrl : N.Url) (preserveBody : Bool) : QByteArray :=
  let path := if (N.path url).isEmpty then utf16 "/" else N.path url
  let target := if (N.query url).isEmpty then path else path ++ utf16 "?" ++ N.query url
  let defaultPort : Int := if N.scheme url = utf16 "https" then 443 else 80
  let previousDefault : Int := if N.scheme previousUrl = utf16 "https" then 443 else 80
  let host := if 0x3A ∈ N.host url then utf16 "[" ++ N.host url ++ utf16 "]" else N.host url
  let authority := if 0 < N.port url ∧ N.port url ≠ defaultPort then
      host ++ utf16 ":" ++ fromLatin1 (QByteArray.number (N.port url))
    else host
  let sameOrigin : Bool := N.scheme previousUrl = N.scheme url ∧
    L.caseFold (N.host previousUrl) = L.caseFold (N.host url) ∧
    portOr N previousUrl previousDefault = portOr N url defaultPort
  let carried := carriedLines sameOrigin preserveBody ((headOf previousRequest).splitOn 0x0A)
  let sendsLength : Bool := !body.isEmpty || method == utf16 "POST" || method == utf16 "PUT" ||
    method == utf16 "PATCH"
  L.toUtf8 method ++ latin1 " " ++ L.toUtf8 target ++ latin1 " HTTP/1.1\r\nHost: " ++
    L.toUtf8 authority ++ crlf ++ carried.flatMap (fun c => c.2 ++ crlf) ++
    (if carried.any (fun c => c.1 == latin1 "accept") then [] else latin1 "Accept: */*\r\n") ++
    (if cookieHeader.isEmpty then [] else latin1 "Cookie: " ++ toLatin1 cookieHeader ++ crlf) ++
    (if sendsLength then latin1 "Content-Length: " ++ QByteArray.number body.length ++ crlf
      else []) ++
    latin1 "Connection: close\r\n\r\n" ++ body

def firstLine (raw : QByteArray) : QByteArray := chopCr (firstSection 0x0A raw)

def requestMethod (L : TextLibrary) (rawRequest : QByteArray) : QString :=
  match indexOf (latin1 " ") (firstLine rawRequest) with
  | none => []
  | some sp =>
    if sp = 0 then [] else N.upperCase (L.fromUtf8 ((firstLine rawRequest).take sp))

def requestTarget (L : TextLibrary) (rawRequest : QByteArray) : QString :=
  let line := firstLine rawRequest
  match indexOf (latin1 " ") line with
  | none => []
  | some sp1 => L.fromUtf8 (firstSection 0x20 (line.drop (sp1 + 1)))

def requestUrl (L : TextLibrary) (tls : Bool) (host : QString) (port : Int)
    (rawRequest : QByteArray) : N.Url :=
  let tgt := requestTarget L rawRequest
  if (utf16 "http://").isPrefixOf tgt || (utf16 "https://").isPrefixOf tgt then N.ofText tgt
  else
    let scheme := if tls then utf16 "https" else utf16 "http"
    let ownPort := if 0 < port ∧ port ≠ (if tls then 443 else 80) then some port else none
    match indexOf (utf16 "?") tgt with
    | some q => N.compose scheme host ownPort (tgt.take q) (some (tgt.drop (q + 1)))
    | none => N.compose scheme host ownPort (if tgt.isEmpty then utf16 "/" else tgt) none

end Urls

end Nullock.RedirectLogic

import Mathlib.Data.List.AList
import Nullock.HttpFraming
import Nullock.HttpResponses
import Nullock.Json
import Nullock.RequestRewriting

namespace Nullock

def QString.number (n : Int) : QString := fromLatin1 (QByteArray.number n)

/-- What the program uses of the library to read dates, in seconds. -/
structure DateLibrary where
  rfc2822Date : QString → Option Int
  toDateTime : QString → String → Option Int
  rfc2822Date_fits : ∀ s n, rfc2822Date s = some n → n < 2 ^ 63
  toDateTime_fits : ∀ s format n, toDateTime s format = some n → n < 2 ^ 63

end Nullock

namespace Nullock.SessionLogic

def kNoMaxAge : Int := -2 ^ 63

structure JarCookie extends CapturedCookie where
  raw : QString
  expires : QString := []
  maxAge : Int := kNoMaxAge
  httpOnly : Bool := false
  sameSite : QString := []
  domain : QString := []

def stripCtrl (s : QString) : QString := s.filter (fun u => !(u < 0x20))

def asciiTrimmed (s : QString) : QString := trimWith Proxy.isOwsChar s

def splitPair (s : QString) : QString × Option QString :=
  match indexOf (utf16 "=") s with
  | some eq => (s.take eq, some (s.drop (eq + 1)))
  | none => (s, none)

def cookieDomain (L : TextLibrary) (val : QString) : QString :=
  let d := L.lowerCase (QString.trimmed val)
  if d.head? = some 0x2E then d.drop 1 else d

def applyAttribute (L : TextLibrary) (c : JarCookie) (part : QString) : JarCookie :=
  let seg := asciiTrimmed part
  if seg.isEmpty then c
  else
    let key := toLower (asciiTrimmed (splitPair seg).1)
    let val := asciiTrimmed ((splitPair seg).2.getD [])
    if key = utf16 "path" then { c with path := val }
    else if key = utf16 "expires" then { c with expires := val }
    else if key = utf16 "max-age" then { c with maxAge := (QString.toLongLong val).getD c.maxAge }
    else if key = utf16 "httponly" then { c with httpOnly := true }
    else if key = utf16 "secure" then { c with secure := true }
    else if key = utf16 "samesite" then { c with sameSite := val }
    else if key = utf16 "domain" then { c with domain := cookieDomain L val }
    else c

def hasControlInName (raw : QString) : Bool :=
  match indexOf (utf16 "=") (firstSection 0x3B raw) with
  | some eq => (asciiTrimmed ((firstSection 0x3B raw).take eq)).any (fun u => u < 0x20)
  | none => false

def cookieName (raw : QString) (pair : QString) (eq : Nat) : QString :=
  let name := stripCtrl (asciiTrimmed (pair.take eq))
  if 0x3D ∈ name ∨ 0x20 ∈ name ∨ hasControlInName raw then [] else name

/-- The cookie of a `Set-Cookie` field; its name is empty if unusable. -/
def parseSetCookie (L : TextLibrary) (raw : QString) : JarCookie :=
  let parts := (stripCtrl raw).splitOn 0x3B
  let pair := asciiTrimmed (parts.headD [])
  match indexOf (utf16 "=") pair with
  | none => { name := [], value := [], path := [], raw := stripCtrl raw }
  | some eq =>
    if eq = 0 then { name := [], value := [], path := [], raw := stripCtrl raw }
    else
      (parts.drop 1).foldl (applyAttribute L)
        { name := cookieName raw pair eq
          value := stripCtrl (asciiTrimmed (pair.drop (eq + 1)))
          path := []
          raw := stripCtrl raw }

def parseCookieExpires (D : DateLibrary) (httpDate : QString) : Int :=
  let s := QString.trimmed httpDate
  if s.isEmpty then -1
  else
    let formats := ["ddd, dd MMM yyyy hh:mm:ss 'GMT'", "ddd, dd-MMM-yyyy hh:mm:ss 'GMT'",
      "ddd MMM d hh:mm:ss yyyy"]
    ((D.rfc2822Date s).orElse fun _ => formats.findSome? (D.toDateTime s)).getD (-1)

def resolveCookieExpiry (D : DateLibrary) (c : JarCookie) (capturedAtEpoch : Int) : JarCookie :=
  let kMax : Int := 2 ^ 63 - 1
  if c.maxAge ≠ kNoMaxAge then
    { c with
      persistent := true
      expiresEpoch :=
        if 0 < c.maxAge ∧ kMax - c.maxAge < capturedAtEpoch then kMax
        else capturedAtEpoch + c.maxAge }
  else
    let e := parseCookieExpires D c.expires
    if !c.expires.isEmpty ∧ 0 ≤ e then { c with persistent := true, expiresEpoch := e }
    else { c with persistent := false, expiresEpoch := 0 }

def isValidCookieName (name : QString) : Bool :=
  !name.isEmpty && !name.any (fun c => c == 0x3D || c == 0x20 || c < 0x20)

def replaceCookie (c : JarCookie) : List JarCookie → Option (List JarCookie)
  | [] => none
  | existing :: cookies =>
    if existing.name = c.name then some (c :: cookies)
    else (replaceCookie c cookies).map (existing :: ·)

def upsertCookie (cookies : List JarCookie) (c : JarCookie) : List JarCookie :=
  (replaceCookie c cookies).getD (cookies ++ [c])

/-- The first cookie of that name taken out, and whether there was one. -/
def removeCookieByName (name : QString) : List JarCookie → List JarCookie × Bool
  | [] => ([], false)
  | c :: cookies =>
    if c.name = name then (cookies, true)
    else
      let (rest, removed) := removeCookieByName name cookies
      (c :: rest, removed)

def cookieToJson (c : JarCookie) : QJsonObject :=
  [(utf16 "name", .string c.name), (utf16 "value", .string c.value), (utf16 "raw", .string c.raw),
    (utf16 "path", .string c.path), (utf16 "expires", .string c.expires),
    (utf16 "httpOnly", .bool c.httpOnly), (utf16 "secure", .bool c.secure),
    (utf16 "sameSite", .string c.sameSite), (utf16 "domain", .string c.domain),
    (utf16 "persistent", .bool c.persistent),
    (utf16 "expiresEpoch", .string (QString.number c.expiresEpoch))]

def cookieFromJson (o : QJsonObject) : JarCookie where
  name := (o.value "name").toQString
  value := (o.value "value").toQString
  raw := (o.value "raw").toQString
  path := (o.value "path").toQString
  expires := (o.value "expires").toQString
  httpOnly := (o.value "httpOnly").toBool false
  secure := (o.value "secure").toBool false
  sameSite := (o.value "sameSite").toQString
  domain := (o.value "domain").toQString
  persistent := (o.value "persistent").toBool false
  expiresEpoch := (QString.toLongLong (o.value "expiresEpoch").toQString).getD 0

end Nullock.SessionLogic

namespace Nullock.SessionManager
open SessionLogic SessionRules Proxy HttpLogic

structure JarSession where
  host : QString := []
  cookies : List JarCookie := []
  autoInject : Bool := false
  lastSeen : Int := 0

abbrev Jar := AList (fun _ : QString => JarSession)

structure HashOrder where
  entries : Jar → List (Sigma fun _ : QString => JarSession)
  perm : ∀ jar, (entries jar).Perm jar.entries

structure Clock where
  secs : Int
  before : Int
  after : Int
  fits : 0 ≤ secs ∧ secs < 2 ^ 63

def kMaxHosts : Nat := 4096
def kMaxCookiesPerHost : Nat := 256

/-- One pass of the search for the host that was not seen for the longest time. -/
def older (found : Int × QString) (entry : Sigma fun _ : QString => JarSession) : Int × QString :=
  if entry.2.lastSeen < found.1 then (entry.2.lastSeen, entry.1) else found

def oldestKey (O : HashOrder) (jar : Jar) (now : Int) : QString :=
  ((O.entries jar).foldl older (now + 1, [])).2

def makeRoom (O : HashOrder) (jar : Jar) (hostKey : QString) (now : Int) : Jar :=
  if hostKey ∉ jar ∧ kMaxHosts ≤ jar.keys.length then
    if (oldestKey O jar now).isEmpty then jar else jar.erase (oldestKey O jar now)
  else jar

/-- A fresh cookie put into its host's; an expired one is a deletion. -/
def captureCookie (nowSec : Int) (cookies : List JarCookie) (c : JarCookie) : List JarCookie :=
  if cookieExpired c.toCapturedCookie nowSec then (removeCookieByName c.name cookies).1
  else
    match replaceCookie c cookies with
    | some replaced => replaced
    | none =>
      (if kMaxCookiesPerHost ≤ cookies.length then cookies.drop 1 else cookies) ++ [c]

def freshCookies (L : TextLibrary) (D : DateLibrary) (nowSec : Int) (headers : List Header) :
    List JarCookie :=
  headers.filterMap (fun h =>
    if equalsIgnoreCase h.1 (utf16 "Set-Cookie") then
      let c := parseSetCookie L h.2
      if c.name.isEmpty then none else some (resolveCookieExpiry D c nowSec)
    else none)

def onResponseReceived (L : TextLibrary) (D : DateLibrary) (O : HashOrder) (jar : Jar)
    (req : ProxiedRequest) (resp : HttpResponse) (clock : Clock) : Jar :=
  if (utf16 "WS").isPrefixOf req.method || req.host.isEmpty then jar
  else
    let fresh := freshCookies L D clock.secs resp.headers
    if fresh.isEmpty then jar
    else
      let hostKey := L.lowerCase req.host
      let jar := makeRoom O jar hostKey clock.before
      let s := (jar.lookup hostKey).getD {}
      jar.insert hostKey { s with
        host := req.host
        lastSeen := clock.after
        cookies := fresh.foldl (captureCookie clock.secs) s.cookies }

def JarSession.toHostSession (s : JarSession) : HostSession where
  cookies := s.cookies.map JarCookie.toCapturedCookie
  autoInject := s.autoInject

def injectFrom (L : TextLibrary) (jar : Jar) (nowSec : Int) (req : ProxiedRequest) :
    ProxiedRequest :=
  injectInto L (fun key => (jar.lookup key).map JarSession.toHostSession) nowSec req

def setAutoInject (L : TextLibrary) (jar : Jar) (host : QString) (on : Bool) : Jar × Bool :=
  match jar.lookup (L.lowerCase host) with
  | none => (jar, false)
  | some s => (jar.insert (L.lowerCase host) { s with autoInject := on }, true)

def clearHost (L : TextLibrary) (jar : Jar) (host : QString) : Jar × Bool :=
  (jar.erase (L.lowerCase host), decide (L.lowerCase host ∈ jar))

def sessionToJson (s : JarSession) : QJsonValue :=
  .object [(utf16 "host", .string s.host), (utf16 "autoInject", .bool s.autoInject),
    (utf16 "lastSeen", .string (QString.number s.lastSeen)),
    (utf16 "cookies", .array (s.cookies.map (fun c => .object (cookieToJson c))))]

def exportJson (O : HashOrder) (jar : Jar) : List QJsonValue :=
  (O.entries jar).map (fun entry => sessionToJson entry.2)

def toArray : QJsonValue → List QJsonValue
  | .array elems => elems
  | _ => []

def sessionFromJson (nowEpoch : Int) (v : QJsonValue) : JarSession where
  host := (v.toObject.value "host").toQString
  autoInject := (v.toObject.value "autoInject").toBool false
  lastSeen := (QString.toLongLong (v.toObject.value "lastSeen").toQString).getD 0
  cookies := ((toArray (v.toObject.value "cookies")).map
      (fun cv => cookieFromJson cv.toObject)).filter
    (fun c => !cookieExpired c.toCapturedCookie nowEpoch)

def importSession (nowEpoch : Int) (jar : Jar) (v : QJsonValue) : Jar :=
  let hs := sessionFromJson nowEpoch v
  if hs.host.isEmpty then jar else jar.insert hs.host hs

def importJson (arr : List QJsonValue) (nowEpoch : Int) : Jar :=
  arr.foldl (importSession nowEpoch) ∅

def enteredCookie (name value path : QString) (httpOnly secure : Bool) (sameSite : QString) :
    JarCookie where
  name := name
  value := stripCtrl value
  raw := name ++ utf16 "=" ++ stripCtrl value
  path := if path.isEmpty then utf16 "/" else path
  httpOnly := httpOnly
  secure := secure
  sameSite := sameSite

def setCookie (L : TextLibrary) (jar : Jar) (host name value path : QString)
    (httpOnly secure : Bool) (sameSite : QString) (now : Int) : Jar × Bool :=
  if host.isEmpty || !isValidCookieName name then (jar, false)
  else
    let c := enteredCookie name value path httpOnly secure sameSite
    let s := (jar.lookup (L.lowerCase host)).getD {}
    (jar.insert (L.lowerCase host)
      { s with host := host, lastSeen := now, cookies := upsertCookie s.cookies c }, true)

def removeCookie (L : TextLibrary) (jar : Jar) (host name : QString) : Jar × Bool :=
  match jar.lookup (L.lowerCase host) with
  | none => (jar, false)
  | some s =>
    let (cookies, removed) := removeCookieByName name s.cookies
    (jar.insert (L.lowerCase host) { s with cookies := cookies }, removed)

def copyTo (L : TextLibrary) (jar : Jar) (fromHost toHost : QString) (now : Int) : Jar × Bool :=
  match jar.lookup (L.lowerCase fromHost) with
  | none => (jar, false)
  | some src =>
    (jar.insert (L.lowerCase toHost) { src with host := toHost, lastSeen := now }, true)

end Nullock.SessionManager

import Nullock.Encodings
import Nullock.ScopeRules
import Nullock.HttpRequests

namespace Nullock.RobotsRecon
open ScopeLogic HttpLogic

/-- What the scan uses of the library for URLs and for patterns. -/
structure ReconLibrary where
  Url : Type
  ofText : QString → Url
  isValid : Url → Bool
  scheme : Url → QString
  host : Url → QString
  /-- The port, or -1. -/
  port : Url → Int
  /-- The path and the query, fully encoded. -/
  path : Url → QString
  query : Url → QString
  resolved : Url → Url → Url
  toText : Url → QString
  caseFold : QString → QString
  hasMatch : QRegularExpression → QString → Bool
  /-- The first group of each match. -/
  firstGroups : QRegularExpression → QString → List QString
  /-- The text without the matches. -/
  remove : QRegularExpression → QString → QString
  /-- Where the first match begins. -/
  matchStart : QRegularExpression → QString → Option Nat

structure Request where
  host : QString
  port : Int := 443
  tls : Bool := true
  headers : List Header := []

structure Result where
  host : QString := []
  robotsFound : Bool := false
  sitemapFound : Bool := false
  disallowed : List QString := []
  disallowedPatterns : List QString := []
  sitemapRefs : List QString := []
  sitemapUrls : List QString := []
  disallowTruncated : Bool := false
  sitemapTruncated : Bool := false
  sitemapFetchTruncated : Bool := false
  sitemapRefsTruncated : Bool := false
  error : QString := []

structure FetchTarget where
  tls : Bool
  host : QString
  port : Int
  path : QString

def kMaxBody : Nat := 512 * 1024
def kMaxRedirectHops : Nat := 3
def kMaxSitemapFetches : Nat := 12
def kMaxLocs : Nat := 500
def kMaxDisallow : Nat := 200
def kMaxSitemapRefs : Nat := 100

def defaultPort (tls : Bool) : Int := if tls then 443 else 80

def originUrl (host : QString) (port : Int) (tls : Bool) (path : QString) : QString :=
  let u := (if tls then utf16 "https://" else utf16 "http://") ++ host
  let u := if 0 < port ∧ port ≠ defaultPort tls then
    u ++ utf16 ":" ++ fromLatin1 (QByteArray.number port) else u
  u ++ path

def locationHeader (headers : List Header) : QString :=
  ((headers.find? (fun h => equalsIgnoreCase h.1 (utf16 "Location"))).map (fun h => h.2)).getD []

def hasBreak (s : QString) : Bool := s.any (fun c => c == 0x0D || c == 0x0A)

def fieldLine (h : Header) : QByteArray :=
  if equalsIgnoreCase h.1 (utf16 "Host") || hasBreak h.1 || hasBreak h.2 then []
  else toUtf8 h.1 ++ latin1 ": " ++ toUtf8 h.2 ++ crlf

def buildGet (req : Request) (path : QString) : QByteArray :=
  if hasBreak req.host || hasBreak path then []
  else
    latin1 "GET " ++ toUtf8 path ++ latin1 " HTTP/1.1" ++ crlf ++
      latin1 "Host: " ++ toUtf8 req.host ++ crlf ++
      latin1 "User-Agent: Nullock/robots-recon" ++ crlf ++
      latin1 "Accept: */*" ++ crlf ++ latin1 "Accept-Encoding: identity" ++ crlf ++
      req.headers.flatMap fieldLine ++ latin1 "Connection: close" ++ crlf ++ crlf

section Parsing
variable (Q : ReconLibrary)

def isDisallowPattern (val : QString) : Bool := val.contains 0x2A || val.getLast? == some 0x24

def stripXmlComments (xml : QString) : QString := Q.remove ⟨utf16 "(?s)<!--.*?-->", false⟩ xml

def unwrapCdata (s : QString) : QString :=
  let front := utf16 "<![CDATA["
  let back := utf16 "]]>"
  if front.isPrefixOf s && back.isSuffixOf (s.drop front.length) then
    QString.trimmed ((s.drop front.length).take (s.length - front.length - back.length))
  else s

def looksLikeRobots (body : QString) : Bool :=
  Q.hasMatch
    ⟨utf16 "(?im)^\\s*(user-agent|disallow|allow|sitemap|crawl-delay)\\s*:", false⟩ body

def splitLines (cur : QString) : QString → List QString
  | [] => [cur]
  | 0x0D :: 0x0A :: s => cur :: splitLines [] s
  | c :: s =>
    if c = 0x0D ∨ c = 0x0A then cur :: splitLines [] s else splitLines (cur ++ [c]) s

def addDisallow (result : Result) (val : QString) : Result :=
  if val = utf16 "/" then result
  else if Q.hasMatch ⟨utf16 "^[a-zA-Z][a-zA-Z0-9+.-]*://", false⟩ val then result
  else if isDisallowPattern val then
    if val ∈ result.disallowedPatterns then result
    else if kMaxDisallow ≤ result.disallowedPatterns.length then
      { result with disallowTruncated := true }
    else { result with disallowedPatterns := result.disallowedPatterns ++ [val] }
  else if val ∈ result.disallowed then result
  else if kMaxDisallow ≤ result.disallowed.length then { result with disallowTruncated := true }
  else { result with disallowed := result.disallowed ++ [val] }

def addSitemapRef (result : Result) (val : QString) : Result :=
  if val ∈ result.sitemapRefs then result
  else if kMaxSitemapRefs ≤ result.sitemapRefs.length then
    { result with sitemapRefsTruncated := true }
  else { result with sitemapRefs := result.sitemapRefs ++ [val] }

def robotsLine (result : Result) (line : QString) : Result :=
  let line := QString.trimmed (firstSection 0x23 line)
  match indexOf (utf16 ":") line with
  | none => result
  | some colon =>
    let key := toLower (QString.trimmed (line.take colon))
    let val := QString.trimmed (line.drop (colon + 1))
    if colon = 0 ∨ val.isEmpty then result
    else if key = utf16 "disallow" then addDisallow Q result val
    else if key = utf16 "sitemap" then addSitemapRef result val
    else result

def parseRobots (body : QString) (result : Result) : Result :=
  (splitLines [] body).foldl (robotsLine Q) result

def keepLocs (out : List QString) : List QString → List QString × Bool
  | [] => (out, false)
  | loc :: locs =>
    if loc.isEmpty ∨ loc ∈ out then keepLocs out locs
    else if kMaxLocs ≤ out.length then (out, true)
    else keepLocs (out ++ [loc]) locs

def locPattern : QRegularExpression :=
  ⟨utf16 "(?is)<(?:[A-Za-z][\\w.\\-]*:)?loc\\b[^>]*>\\s*(.*?)\\s*</(?:[A-Za-z][\\w.\\-]*:)?loc\\s*>",
    false⟩

def parseSitemapLocs (body : QString) : List QString × Bool :=
  keepLocs [] ((Q.firstGroups locPattern (stripXmlComments Q body)).map
    (fun loc => unwrapCdata (QString.trimmed loc)))

def isSitemapIndex (body : QString) : Bool :=
  let b := stripXmlComments Q body
  match Q.matchStart ⟨utf16 "(?is)<\\s*(?:[A-Za-z][\\w.\\-]*:)?sitemapindex[\\s/>]", false⟩ b with
  | none => false
  | some i =>
    (Q.matchStart ⟨utf16 "(?is)<\\s*(?:[A-Za-z][\\w.\\-]*:)?urlset[\\s/>]", false⟩ b).all
      (fun s => i < s)

def parseFetchTarget (url : QString) : Option FetchTarget :=
  let u := Q.ofText (QString.trimmed url)
  if !Q.isValid u || (Q.host u).isEmpty then none
  else
    let scheme := toLower (Q.scheme u)
    if scheme ≠ utf16 "http" ∧ scheme ≠ utf16 "https" then none
    else
      let tls := scheme == utf16 "https"
      let path := if (Q.path u).isEmpty then utf16 "/" else Q.path u
      some {
        tls := tls
        host := Q.host u
        port := if Q.port u = -1 then defaultPort tls else Q.port u
        path := if (Q.query u).isEmpty then path else path ++ utf16 "?" ++ Q.query u }

def resolveRedirect (location baseUrl : QString) : QString :=
  let loc := QString.trimmed location
  if loc.isEmpty then []
  else
    let abs := Q.resolved (Q.ofText baseUrl) (Q.ofText loc)
    let scheme := toLower (Q.scheme abs)
    if !Q.isValid abs || (Q.host abs).isEmpty then []
    else if scheme ≠ utf16 "http" ∧ scheme ≠ utf16 "https" then []
    else Q.toText abs

def sameHost (a b : QString) : Bool := !a.isEmpty && Q.caseFold a == Q.caseFold b

def portInScope (targetPort : Int) (targetTls : Bool) (reqPort : Int) (reqTls : Bool) : Bool :=
  targetPort == reqPort ||
    (targetPort == defaultPort targetTls && reqPort == defaultPort reqTls)

def targetInScope (req : Request) (url : QString) : Option FetchTarget :=
  (parseFetchTarget Q url).filter (fun t =>
    sameHost Q t.host req.host && portInScope t.port t.tls req.port req.tls)

end Parsing

structure Sent where
  host : QString
  port : UInt16
  tls : Bool
  bytes : QByteArray

structure Reply where
  ok : Bool
  statusCode : Int
  headers : List Header
  body : QByteArray

def toQuint16 (port : Int) : UInt16 := (port % 2 ^ 16).toNat.toUInt16

section Scan
variable (Q : ReconLibrary) (server : List Sent → Reply) (req : Request)

/-- A page fetched with so many redirects; the server sees all requests so far. -/
def fetchFollowing : Nat → Bool → Int → QString → List Sent → QString × List Sent
  | hops, tls, port, path, sent =>
    let sent := sent ++ [⟨req.host, toQuint16 port, tls, buildGet req path⟩]
    let r := server sent
    if !r.ok then ([], sent)
    else if 200 ≤ r.statusCode ∧ r.statusCode < 300 then
      (QString.fromUtf8 (r.body.take kMaxBody), sent)
    else
      match hops with
      | 0 => ([], sent)
      | hops + 1 =>
        if !(300 ≤ r.statusCode ∧ r.statusCode < 400) then ([], sent)
        else
          let target := resolveRedirect Q (locationHeader r.headers)
            (originUrl req.host port tls path)
          match targetInScope Q req target with
          | none => ([], sent)
          | some t => fetchFollowing hops t.tls t.port t.path sent

structure ScanState where
  worklist : List QString
  visited : List QString := []
  seenPages : List QString
  fetches : Nat := 0
  stopped : Bool := false
  sent : List Sent
  result : Result
  taken : List (Bool × Int × QString) := []

def targetKey (t : FetchTarget) : QString :=
  fromLatin1 (QByteArray.number (if t.tls then 1 else 0)) ++ utf16 "|" ++
    fromLatin1 (QByteArray.number t.port) ++ utf16 "|" ++ t.path

def looksLikeSitemap (body : QString) : Bool :=
  [utf16 "<loc", utf16 "<urlset", utf16 "<sitemapindex"].any (fun tag =>
    (indexOf (tag.map foldCase) (body.map foldCase)).isSome)

def addChild (url : QString) (st : ScanState) (loc : QString) : ScanState :=
  let childUrl := resolveRedirect Q loc url
  if childUrl.isEmpty then st
  else
    { st with
      result := { st.result with
        sitemapRefs := if childUrl ∈ st.result.sitemapRefs then st.result.sitemapRefs
          else st.result.sitemapRefs ++ [childUrl] }
      worklist := st.worklist ++ [childUrl] }

def addPage (st : ScanState) (loc : QString) : ScanState :=
  if loc ∈ st.seenPages then st
  else
    { st with
      seenPages := loc :: st.seenPages
      result := { st.result with sitemapUrls := st.result.sitemapUrls ++ [loc] } }

def readSitemap (st : ScanState) (url body : QString) : ScanState :=
  if body.isEmpty || !looksLikeSitemap body then st
  else
    let (locs, trunc) := parseSitemapLocs Q body
    let st := { st with
      result := { st.result with
        sitemapFound := true
        sitemapTruncated := st.result.sitemapTruncated || trunc } }
    if isSitemapIndex Q body then locs.foldl (addChild Q url) st else locs.foldl addPage st

def sitemapStep (st : ScanState) : Option ScanState :=
  if st.stopped then none
  else
    match st.worklist with
    | [] => none
    | url :: worklist =>
      match targetInScope Q req url with
      | none => some { st with worklist := worklist }
      | some t =>
        if targetKey t ∈ st.visited then some { st with worklist := worklist }
        else if kMaxSitemapFetches ≤ st.fetches then
          some { st with
            worklist := worklist
            visited := targetKey t :: st.visited
            result := { st.result with sitemapFetchTruncated := true }
            stopped := true }
        else
          let (body, sent) := fetchFollowing Q server req kMaxRedirectHops t.tls t.port t.path st.sent
          some (readSitemap Q { st with
            worklist := worklist
            visited := targetKey t :: st.visited
            fetches := st.fetches + 1
            sent := sent
            taken := st.taken ++ [(t.tls, t.port, t.path)] } url body)

end Scan

end Nullock.RobotsRecon

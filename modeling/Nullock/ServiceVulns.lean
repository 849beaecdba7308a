import Nullock.Numerals

namespace Nullock.ServiceVulns

/-- The classes of characters, lower case, and case folding. -/
structure CharLibrary where
  isDigitChar : UInt16 → Bool
  isLetterChar : UInt16 → Bool
  toLower : QString → QString
  caseFold : QString → QString
  isDigit_ascii : ∀ c : UInt16, c < 0x80 → isDigitChar c = isDigit c
  isLetter_ascii : ∀ c : UInt16, c < 0x80 →
    isLetterChar c = ((0x41 ≤ c && c ≤ 0x5A) || (0x61 ≤ c && c ≤ 0x7A))
  toLower_ascii : ∀ s : QString, (∀ c ∈ s, c < 0x80) → toLower s =
    s.map (fun c => if 0x41 ≤ c ∧ c ≤ 0x5A then c + 0x20 else c)

def intMax : Int := 2 ^ 31 - 1

def readInt (s : QString) : Option Int :=
  (QString.toLongLong s).filter (fun n => decide (-2 ^ 31 ≤ n ∧ n < 2 ^ 31))

/-- A known vulnerability of a product in a range of versions, or in one version. -/
structure ServiceCve where
  product : QString
  cveId : QString
  minVer : QString
  maxVer : QString
  exact : Bool

def table : List ServiceCve :=
  [⟨utf16 "vsftpd", utf16 "CVE-2011-2523", utf16 "2.3.4", [], true⟩,
    ⟨utf16 "openssh", utf16 "CVE-2024-6387", utf16 "8.5", utf16 "9.8", false⟩,
    ⟨utf16 "openssh", utf16 "CVE-2018-15473", [], utf16 "7.7", false⟩,
    ⟨utf16 "proftpd", utf16 "CVE-2015-3306", utf16 "1.3.5", utf16 "1.3.5a", false⟩,
    ⟨utf16 "exim", utf16 "CVE-2019-10149", utf16 "4.87", utf16 "4.92", false⟩,
    ⟨utf16 "apache", utf16 "CVE-2021-41773", utf16 "2.4.49", utf16 "2.4.50", true⟩,
    ⟨utf16 "apache", utf16 "CVE-2021-42013", utf16 "2.4.50", utf16 "2.4.51", true⟩,
    ⟨utf16 "nginx", utf16 "CVE-2021-23017", utf16 "0.6.18", utf16 "1.21.0", false⟩,
    ⟨utf16 "iis", utf16 "CVE-2017-7269", utf16 "6.0", utf16 "6.1", true⟩,
    ⟨utf16 "samba", utf16 "CVE-2017-7494", utf16 "3.5.0", utf16 "4.6.4", false⟩,
    ⟨utf16 "openssh", utf16 "CVE-2023-38408", utf16 "5.5", utf16 "9.3.2", false⟩,
    ⟨utf16 "apache", utf16 "CVE-2023-25690", utf16 "2.4.0", utf16 "2.4.56", false⟩,
    ⟨utf16 "apache", utf16 "CVE-2021-44790", utf16 "2.4.0", utf16 "2.4.52", false⟩]

def StagePre : Int := -1
def StageRelease : Int := 0
def StagePatch : Int := 1

structure Ver where
  nums : List Int := []
  stage : Int := StageRelease
  stageKey : Int := 0
deriving DecidableEq

def preRank (w : QString) : Int :=
  if w = utf16 "dev" ∨ w = utf16 "snapshot" then 0
  else if w = utf16 "alpha" then 1
  else if w = utf16 "milestone" then 2
  else if w = utf16 "beta" then 3
  else if w = utf16 "pre" ∨ w = utf16 "preview" then 4
  else if w = utf16 "rc" then 5
  else 0

def preWords : List QString :=
  [utf16 "rc", utf16 "alpha", utf16 "beta", utf16 "pre", utf16 "preview", utf16 "dev",
    utf16 "snapshot", utf16 "milestone"]

def flush (cur : QString) (toks : List QString) : List QString :=
  if cur.isEmpty then toks else cur :: toks

def component (t : QString) : Int :=
  match QString.toLongLong t with
  | none => intMax
  | some big => if intMax < big then intMax else big

def letterValue (c : UInt16) : Int :=
  let latin : Int := if c ≤ 0x7F then c.toNat else if c ≤ 0xFF then c.toNat - 256 else 0
  latin - 0x61 + 1

def letterKey (key : Int) : QString → Int
  | [] => key
  | c :: s =>
    let key := key * 26 + letterValue c
    if intMax < key then intMax else letterKey key s

def readTokens (out : Ver) : List QString → Ver
  | [] => out
  | t :: toks =>
    if isNumeral t then
      readTokens
        (if out.stage = StageRelease then { out with nums := out.nums ++ [component t] } else out)
        toks
    else if t = utf16 "p" ∧ (toks.head?.bind readInt).isSome then readTokens out toks
    else if preWords.contains t then
      { out with
        stage := StagePre
        stageKey := preRank t * 100000 + (toks.head?.bind readInt).getD 0 }
    else { out with stage := StagePatch, stageKey := letterKey 0 t }

section
variable (C : CharLibrary)

/-- The longest runs of digits and of letters; every other character ends a run. -/
def tokens (cur : QString) (curDigit : Bool) : QString → List QString
  | [] => flush cur []
  | c :: s =>
    if C.isDigitChar c then
      if !cur.isEmpty && !curDigit then cur :: tokens [c] true s
      else tokens (cur ++ [c]) true s
    else if C.isLetterChar c then
      if !cur.isEmpty && curDigit then cur :: tokens [c] false s
      else tokens (cur ++ [c]) false s
    else flush cur (tokens [] curDigit s)

def parseVer (version : QString) : Ver := readTokens {} (tokens C [] false (C.toLower version))

def verNums (v : QString) : List Int := (parseVer C v).nums

def zerosCmp : List Int → Int
  | [] => 0
  | y :: ys => if 0 ≠ y then (if 0 < y then -1 else 1) else zerosCmp ys

/-- Where two releases differ first, with missing components as zeros. -/
def numsCmp : List Int → List Int → Int
  | [], ys => zerosCmp ys
  | x :: xs, ys =>
    if x ≠ ys.headD 0 then (if x < ys.headD 0 then -1 else 1) else numsCmp xs ys.tail

def verCmp (a b : QString) : Int :=
  let va := parseVer C a
  let vb := parseVer C b
  if numsCmp va.nums vb.nums ≠ 0 then numsCmp va.nums vb.nums
  else if va.stage ≠ vb.stage then (if va.stage < vb.stage then -1 else 1)
  else if va.stageKey ≠ vb.stageKey then (if va.stageKey < vb.stageKey then -1 else 1)
  else 0

/-- A release that is shorter than another one and agrees with it as far as it goes. -/
def isTruncated (pv pb : List Int) : Bool := decide (pv.length < pb.length) && pv.isPrefixOf pb

def truncatedAgainst (version boundary : QString) : Bool :=
  if boundary.isEmpty then false
  else
    let pv := verNums C version
    let pb := verNums C boundary
    isTruncated pv pb && (pb.drop pv.length).any (· != 0)

def truncatedForExact (version boundary : QString) : Bool :=
  if boundary.isEmpty then false else isTruncated (verNums C version) (verNums C boundary)

structure Verdict where
  affected : Bool
  precise : Bool
deriving DecidableEq

def evalCve (version minVer maxVer : QString) (exact : Bool) : Verdict :=
  if exact then
    if truncatedForExact C version minVer then ⟨true, false⟩
    else ⟨verCmp C version minVer == 0, true⟩
  else
    let hasMin := !minVer.isEmpty
    let hasMax := !maxVer.isEmpty
    let minTrunc := hasMin && truncatedAgainst C version minVer
    let maxTrunc := hasMax && truncatedAgainst C version maxVer
    let aboveMin := !hasMin || decide (0 ≤ verCmp C version minVer) || minTrunc
    let belowMax := !hasMax || decide (verCmp C version maxVer < 0) || maxTrunc
    ⟨aboveMin && belowMax, !(minTrunc || maxTrunc)⟩

structure CveHit where
  product : QString
  version : QString
  cveId : QString
  precise : Bool
deriving DecidableEq

def sameProduct (a b : QString) : Bool := C.caseFold a == C.caseFold b

def tableHits (product version : QString) : List CveHit :=
  table.filterMap (fun c =>
    if !sameProduct C product c.product then none
    else
      let vd := evalCve C version c.minVer c.maxVer c.exact
      if !vd.affected then none else some ⟨product, version, c.cveId, vd.precise⟩)

def overlayHits (product version : QString) : List QString → List ServiceCve → List CveHit
  | _, [] => []
  | seenCve, c :: overlay =>
    if !sameProduct C product c.product then overlayHits product version seenCve overlay
    else if seenCve.contains (C.toLower c.cveId) then overlayHits product version seenCve overlay
    else
      let vd := evalCve C version c.minVer c.maxVer c.exact
      if !vd.affected then overlayHits product version seenCve overlay
      else
        ⟨product, version, c.cveId, vd.precise⟩ ::
          overlayHits product version (C.toLower c.cveId :: seenCve) overlay

def matchVersion (overlay : List ServiceCve) (product version : QString) : List CveHit :=
  if product.isEmpty || version.isEmpty then []
  else if !version.any isDigit then []
  else
    let out := tableHits C product version
    out ++ overlayHits C product version (out.map (fun h => C.toLower h.cveId)) overlay

end

inductive Piece
  | text (t : QString)
  | oneOf (cs : List UInt16)
  | spaces
  | maybe (t : QString)

/-- What stands in front of the version, what it consists of, and what stands behind. -/
structure VerPat where
  product : QString
  lead : List Piece
  more : QString := utf16 "."
  several : Bool := false
  behind : QString := []

def startsWith (t s : QString) : Bool := s.take t.length |>.map foldCase |> (· == t.map foldCase)

def isPatternSpace (c : UInt16) : Bool := c == 0x20 || (0x09 ≤ c && c ≤ 0x0D)

def matchLead : List Piece → QString → Option QString
  | [], s => some s
  | .text t :: ps, s => if startsWith t s then matchLead ps (s.drop t.length) else none
  | .oneOf cs :: ps, s =>
    match s with
    | [] => none
    | c :: s => if cs.contains c then matchLead ps s else none
  | .spaces :: ps, s =>
    match s with
    | [] => none
    | c :: s => if isPatternSpace c then matchLead ps (s.dropWhile isPatternSpace) else none
  | .maybe t :: ps, s =>
    match (if startsWith t s then matchLead ps (s.drop t.length) else none) with
    | some rest => some rest
    | none => matchLead ps s

def isMore (p : VerPat) (c : UInt16) : Bool :=
  isDigit c || (p.more.map foldCase).contains (foldCase c)

/-- The version captured at the beginning of a text, its run taken whole. -/
def captureAt (p : VerPat) (s : QString) : Option QString :=
  match matchLead p.lead s with
  | none => none
  | some [] => none
  | some (c :: rest) =>
    let run := rest.takeWhile (isMore p)
    if isDigit c && (!p.several || !run.isEmpty) &&
        startsWith p.behind (rest.dropWhile (isMore p)) then some (c :: run)
    else none

def capture (p : VerPat) : QString → Option QString
  | [] => captureAt p []
  | c :: s =>
    match captureAt p (c :: s) with
    | some version => some version
    | none => capture p s

def verPats : List VerPat :=
  [{ product := utf16 "openssh"
     lead := [.text (utf16 "OpenSSH"), .oneOf (utf16 "_/"), .maybe (utf16 "for_Windows_")]
     more := utf16 ".p" },
    { product := utf16 "vsftpd", lead := [.text (utf16 "vsftpd"), .spaces] },
    { product := utf16 "proftpd", lead := [.text (utf16 "ProFTPD"), .spaces] },
    { product := utf16 "exim", lead := [.text (utf16 "Exim"), .spaces] },
    { product := utf16 "apache", lead := [.text (utf16 "Apache"), .oneOf (utf16 "/")] },
    { product := utf16 "nginx", lead := [.text (utf16 "nginx"), .oneOf (utf16 "/")] },
    { product := utf16 "lighttpd", lead := [.text (utf16 "lighttpd"), .oneOf (utf16 "/")] },
    { product := utf16 "iis", lead := [.text (utf16 "Microsoft-IIS"), .oneOf (utf16 "/")] },
    { product := utf16 "samba", lead := [.text (utf16 "Samba"), .spaces] },
    { product := utf16 "mariadb", lead := [], several := true, behind := utf16 "-MariaDB" },
    { product := utf16 "postfix", lead := [.text (utf16 "Postfix"), .spaces] },
    { product := utf16 "dovecot", lead := [.text (utf16 "Dovecot"), .spaces] },
    { product := utf16 "redis", lead := [.text (utf16 "redis_version"), .oneOf (utf16 ":")] }]

def parseWith (banner : QString) : List VerPat → QString × QString
  | [] => ([], [])
  | p :: ps =>
    match capture p banner with
    | some version => (p.product, version)
    | none => parseWith banner ps

def parseBanner (banner : QString) : QString × QString :=
  if banner.isEmpty then ([], []) else parseWith banner verPats

end Nullock.ServiceVulns

import Mathlib.Data.Nat.Bitwise
import Nullock.CookieJar

namespace Nullock.ControlLogic

def isHostAllowed (hostHdr : QString) (port : Nat) : Bool :=
  if hostHdr.isEmpty then true
  else
    let portStr := QString.number port
    [utf16 "127.0.0.1:" ++ portStr, utf16 "localhost:" ++ portStr, utf16 "[::1]:" ++ portStr,
      utf16 "127.0.0.1", utf16 "localhost", utf16 "[::1]"].contains (toLower hostHdr)

def isMethodAllowed (method : QString) : Bool :=
  (["GET", "POST", "PUT", "PATCH", "DELETE", "HEAD", "OPTIONS"].map utf16).contains method

def isReadMethod (method : QString) : Bool :=
  method == utf16 "GET" || method == utf16 "HEAD" || method == utf16 "OPTIONS"

def isSameOrigin (origin : QString) (port : Nat) : Bool :=
  origin == utf16 "http://127.0.0.1:" ++ QString.number port ||
    origin == utf16 "http://localhost:" ++ QString.number port

def isUiHeader (nullockHdr : QString) : Bool :=
  nullockHdr == utf16 "1" || toLower nullockHdr == utf16 "true"

def isRequestAuthorized (method origin nullockHdr : QString) (port : Nat) : Bool :=
  if isReadMethod method then true else isSameOrigin origin port || isUiHeader nullockHdr

def bearerToken (authHeaderValue : QString) : QString :=
  let v := QString.trimmed authHeaderValue
  let scheme := utf16 "bearer"
  if v.length ≤ scheme.length then []
  else if toLower (v.take scheme.length) ≠ scheme then []
  else if !isSpace (v.getD scheme.length 0) then []
  else QString.trimmed (v.drop scheme.length)

/-- The difference of two byte strings, folded over the longer one. -/
def constantTimeEquals (a b : QString) : Bool :=
  let ab := toUtf8 a
  let bb := toUtf8 b
  if ab.isEmpty || bb.isEmpty then ab.isEmpty && bb.isEmpty
  else
    let diff := (List.range (max ab.length bb.length)).foldl
      (fun diff i =>
        diff ||| ((ab.getD (i % ab.length) 0).toNat ^^^ (bb.getD (i % bb.length) 0).toNat))
      (ab.length ^^^ bb.length)
    diff == 0

def isTokenAuthorized (authHeaderValue configuredToken : QString) : Bool :=
  if configuredToken.isEmpty then false
  else
    let presented := bearerToken authHeaderValue
    if presented.isEmpty then false else constantTimeEquals presented configuredToken

theorem foldl_or_eq_zero {f : Nat → Nat} {l : List Nat} (start : Nat) :
    l.foldl (fun diff i => diff ||| f i) start = 0 ↔ start = 0 ∧ ∀ i ∈ l, f i = 0 := by
  induction l generalizing start with
  | nil => exact ⟨fun h => ⟨h, fun i hi => absurd hi List.not_mem_nil⟩, fun h => h.1⟩
  | cons i l ih =>
    rw [List.foldl_cons, ih, Nat.or_eq_zero_iff, List.forall_mem_cons, and_assoc]

theorem constantTimeEquals_iff (a b : QString) :
    constantTimeEquals a b = true ↔ toUtf8 a = toUtf8 b := by
  rw [constantTimeEquals]
  generalize toUtf8 a = x
  generalize toUtf8 b = y
  by_cases hempty : (x.isEmpty || y.isEmpty) = true
  · rw [if_pos hempty, Bool.and_eq_true, List.isEmpty_iff, List.isEmpty_iff]
    rw [Bool.or_eq_true, List.isEmpty_iff, List.isEmpty_iff] at hempty
    constructor
    · rintro ⟨rfl, rfl⟩
      rfl
    · rintro rfl
      exact ⟨hempty.elim id id, hempty.elim id id⟩
  · rw [if_neg hempty, beq_iff_eq, foldl_or_eq_zero, Nat.xor_eq_zero_iff]
    constructor
    · rintro ⟨hlength, hbytes⟩
      refine List.ext_getElem hlength (fun i hi hi' => ?_)
      have hbyte := hbytes i (List.mem_range.2 (Nat.lt_of_lt_of_le hi (Nat.le_max_left _ _)))
      rw [Nat.mod_eq_of_lt hi, Nat.mod_eq_of_lt hi', Nat.xor_eq_zero_iff,
        List.getD_eq_getElem _ _ hi, List.getD_eq_getElem _ _ hi'] at hbyte
      exact UInt8.toNat_inj.1 hbyte
    · rintro rfl
      exact ⟨rfl, fun i _ => Nat.xor_self _⟩

end Nullock.ControlLogic

namespace Nullock.ControlServer
open ControlLogic

structure Reply where
  status : Nat
  text : QByteArray
deriving DecidableEq

def httpResponse (status : Nat) (text : String) : Reply := ⟨status, latin1 text⟩

structure Config where
  apiToken : QString := []
  tokenMandatory : Bool := false
  listeningPort : Nat := 17777

def kMaxBodyBytes : Nat := 64 * 1024 * 1024

def lowerByte (c : UInt8) : UInt8 := if 0x41 ≤ c ∧ c ≤ 0x5A then c + 0x20 else c

def chopCr (line : QByteArray) : QByteArray :=
  if line.getLast? = some 0x0D then line.dropLast else line

def isNameChar (c : UInt8) : Bool :=
  (0x61 ≤ c && c ≤ 0x7A) || (0x30 ≤ c && c ≤ 0x39) ||
    (latin1 "!#$%&\x27*+-.^_\x60|~").contains c

abbrev Headers := List (QByteArray × QByteArray)

def Headers.contains (headers : Headers) (key : QByteArray) : Bool := headers.any (·.1 == key)

def Headers.value (headers : Headers) (key : QByteArray) : QByteArray :=
  ((headers.find? (·.1 == key)).map (·.2)).getD []

def kUnique : List QByteArray :=
  ["host", "content-length", "origin", "authorization", "x-nullock-ui"].map latin1

def headerKey (line : QByteArray) (colon : Nat) : QByteArray := (line.take colon).map lowerByte

def headerValue (line : QByteArray) (colon : Nat) : QByteArray :=
  QByteArray.trimmed (line.drop (colon + 1))

def readHeader (headers : Headers) (line : QByteArray) : Except Reply Headers :=
  let line := chopCr line
  let colon := (indexOf [0x3A] line).getD 0
  if colon = 0 ∨ line.head? = some 0x20 ∨ line.head? = some 0x09 then
    .error (httpResponse 400 "Invalid header")
  else
    let key := headerKey line colon
    let value := headerValue line colon
    if !key.all isNameChar then .error (httpResponse 400 "Invalid header name")
    else if value.contains 0x0D || value.contains 0x00 then
      .error (httpResponse 400 "Invalid header value")
    else if key = latin1 "transfer-encoding" then
      .error (httpResponse 400 "Transfer-Encoding is not supported by the control API")
    else if kUnique.contains key && headers.contains key then
      .error (httpResponse 400 "Duplicate control header")
    else .ok ((key, value) :: headers)

def readHeaders (headers : Headers) : List QByteArray → Except Reply Headers
  | [] => .ok headers
  | line :: lines =>
    match readHeader headers line with
    | .error e => .error e
    | .ok headers => readHeaders headers lines

def readContentLength (headers : Headers) : Except Reply Nat :=
  if !headers.contains (latin1 "content-length") then .ok 0
  else
    let value := headers.value (latin1 "content-length")
    let ok := !value.isEmpty && value.all (fun c => 0x30 ≤ c && c ≤ 0x39)
    match QByteArray.toLongLong value 10 with
    | none => .error (httpResponse 413 "Content-Length invalid or too large")
    | some n =>
      if !ok ∨ n < 0 ∨ (kMaxBodyBytes : Int) < n then
        .error (httpResponse 413 "Content-Length invalid or too large")
      else .ok n.toNat

def authorizeRequest (cfg : Config) (method : QString) (headers : Headers) : Option Reply :=
  let tokenValid :=
    isTokenAuthorized (fromLatin1 (headers.value (latin1 "authorization"))) cfg.apiToken
  if cfg.tokenMandatory && !tokenValid then
    some (httpResponse 401 "Unauthorized (bearer token required)")
  else if !tokenValid &&
      !isHostAllowed (fromLatin1 (headers.value (latin1 "host"))) cfg.listeningPort then
    some (httpResponse 421 "Misdirected Host (DNS rebinding defence)")
  else if !isMethodAllowed method then some (httpResponse 405 "Method not allowed")
  else if !tokenValid && !isRequestAuthorized method (fromLatin1 (headers.value (latin1 "origin")))
      (fromLatin1 (headers.value (latin1 "x-nullock-ui"))) cfg.listeningPort then
    some (httpResponse 403
      "Cross-origin write rejected (need same-origin Origin or X-Nullock-UI: 1)")
  else if headers.contains (latin1 "expect") then
    some (httpResponse 417 "Expect is not supported by the control API")
  else none

/-- The method, target and declared length of a header block that passes. -/
def validateHeaders (cfg : Config) (header : QByteArray) :
    Except Reply (QString × QString × Nat) :=
  let lines := header.splitOn 0x0A
  match (QByteArray.trimmed (lines.headD [])).splitOn 0x20 with
  | [method, target, version] =>
    if (version ≠ latin1 "HTTP/1.1" ∧ version ≠ latin1 "HTTP/1.0") ∨ target.head? ≠ some 0x2F ∨
        target.contains 0x23 then
      .error (httpResponse 400 "Bad request line")
    else
      match readHeaders [] (lines.drop 1) with
      | .error e => .error e
      | .ok headers =>
        match readContentLength headers with
        | .error e => .error e
        | .ok contentLength =>
          match authorizeRequest cfg (fromLatin1 method) headers with
          | some e => .error e
          | none => .ok (fromLatin1 method, fromLatin1 target, contentLength)
  | _ => .error (httpResponse 400 "Bad request line")

end Nullock.ControlServer

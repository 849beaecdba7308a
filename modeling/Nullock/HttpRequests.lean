import Nullock.Numerals

namespace Nullock.HttpLogic

abbrev Header := QString × QString

def hasControlByte (s : QString) : Bool := s.any (fun u => u == 0x0D || u == 0x0A || u == 0x00)

def isOws (c : UInt8) : Bool := c == 0x20 || c == 0x09

def fieldValue (value : QByteArray) : QString := fromLatin1 (trimWith isOws value)

def foldContinuation (headers : List Header) (cont : QString) : List Header :=
  match headers.getLast? with
  | none => headers
  | some last =>
    if cont.isEmpty then headers
    else headers.dropLast ++
      [(last.1, if last.2.isEmpty then cont else last.2 ++ 0x20 :: cont)]

def chopCr (line : QByteArray) : QByteArray :=
  if line.getLast? = some 0x0D then line.dropLast else line

def isContinuation (line : QByteArray) : Bool :=
  line.head? == some 0x20 || line.head? == some 0x09

def parseLine (headers : List Header) (line : QByteArray) : List Header :=
  let line := chopCr line
  if line.isEmpty then headers
  else if isContinuation line then foldContinuation headers (fieldValue line)
  else
    match indexOf (latin1 ":") line with
    | none => headers
    | some colon =>
      if colon = 0 then headers
      else headers ++
        [(QString.trimmed (fromLatin1 (line.take colon)), fieldValue (line.drop (colon + 1)))]

def parseHeaders (headerBlock : QByteArray) : List Header :=
  ((headerBlock.splitOn 0x0A).drop 1).foldl parseLine []

def findHeader (headers : List Header) (name : QString) : QString :=
  match headers.find? (fun h => equalsIgnoreCase h.1 name) with
  | some h => h.2
  | none => []

/-- The elements of one field, checked against the value `cl` seen before. -/
def checkContentLength (cl : QString) : List QString → Option QString
  | [] => some cl
  | v :: vals =>
    let v := QString.trimmed v
    if v.isEmpty then none
    else
      match QString.toLongLong v with
      | none => none
      | some n =>
        if n < 0 then none
        else if cl.isEmpty then checkContentLength v vals
        else if cl ≠ v then none
        else checkContentLength cl vals

def acceptedCodings (value : QString) : Bool :=
  let codings := (splitSkipEmpty (toLower value)).map QString.trimmed
  codings.getLast? == some (utf16 "chunked") && codings.count (utf16 "chunked") == 1

/-- The loop of `isFramingSafe` over the fields, with its `sawTE` and `cl`. -/
def framingLoop (isRequest : Bool) : List Header → Bool → QString → Option (Bool × QString)
  | [], sawTE, cl => some (sawTE, cl)
  | h :: headers, sawTE, cl =>
    if hasControlByte h.1 || hasControlByte h.2 then none
    else if equalsIgnoreCase h.1 (utf16 "Transfer-Encoding") then
      if !acceptedCodings h.2 then none
      else if isRequest then none
      else framingLoop isRequest headers true cl
    else if equalsIgnoreCase h.1 (utf16 "Content-Length") then
      match checkContentLength cl (splitSkipEmpty h.2) with
      | none => none
      | some cl => framingLoop isRequest headers sawTE cl
    else framingLoop isRequest headers sawTE cl

def isFramingSafe (headers : List Header) (isRequest : Bool) : Bool :=
  match framingLoop isRequest headers false [] with
  | none => false
  | some (sawTE, cl) => !(sawTE && !cl.isEmpty)

def isProxyHopRequestHeader (name : QString) : Bool :=
  equalsIgnoreCase name (utf16 "Proxy-Connection") ||
    equalsIgnoreCase name (utf16 "Proxy-Authorization")

end Nullock.HttpLogic

namespace Nullock.Proxy
open HttpLogic

structure HttpRequest where
  method : QString
  target : QString
  httpVersion : QString
  headers : List Header
  path : QString
  body : QByteArray
deriving DecidableEq

def kMaxHeaderBytes : Nat := 64 * 1024
def kMaxRequestBody : Nat := 128 * 1024 * 1024

/-- The socket is the list of segments it will still deliver. -/
def readHeaderBlock (out : QByteArray) : List QByteArray → Option (QByteArray × List QByteArray)
  | [] => if (indexOf (crlf ++ crlf) out).isSome then some (out, []) else none
  | segment :: socket =>
    if (indexOf (crlf ++ crlf) out).isSome then some (out, segment :: socket)
    else if kMaxHeaderBytes < out.length then none
    else readHeaderBlock (out ++ segment) socket

def readExact (n : Nat) (out : QByteArray) : List QByteArray → Option QByteArray
  | [] => if out.length < n then none else some out
  | segment :: socket =>
    if out.length < n then readExact n (out ++ segment.take (n - out.length)) socket else some out

def requestLine (headerBlock : QByteArray) : QByteArray :=
  match indexOf crlf headerBlock with
  | some firstLineEnd => headerBlock.take firstLineEnd
  | none => headerBlock

def parseHead (headerBlock : QByteArray) : Option HttpRequest :=
  match (requestLine headerBlock).splitOn 0x20 with
  | method :: target :: httpVersion :: _ =>
    some
      { method := fromLatin1 method
        target := fromLatin1 target
        httpVersion := fromLatin1 httpVersion
        headers := parseHeaders headerBlock
        path := fromLatin1 target
        body := [] }
  | _ => none

def isConnect (req : HttpRequest) : Bool := equalsIgnoreCase req.method (utf16 "CONNECT")

/-- From the first `Content-Length`; a text that is no number counts as zero. -/
def requestBodyLength (headers : List Header) : Int :=
  let cl := findHeader headers (utf16 "Content-Length")
  if cl.isEmpty then 0 else (QString.toLongLong cl).getD 0

def readRequestFrom (socket : List QByteArray) : Option HttpRequest :=
  match readHeaderBlock [] socket with
  | none => none
  | some (buf, socket) =>
    let sep := (indexOf (crlf ++ crlf) buf).getD 0
    let rest := buf.drop (sep + 4)
    match parseHead (buf.take sep) with
    | none => none
    | some req =>
      if isConnect req then some req
      else if !isFramingSafe req.headers true then none
      else if (findHeader req.headers (utf16 "Content-Length")).isEmpty then some req
      else
        let n := requestBodyLength req.headers
        if n < 0 ∨ (kMaxRequestBody : Int) < n then none
        else if (rest.length : Int) < n then
          match readExact (n.toNat - rest.length) [] socket with
          | none => none
          | some extra => some { req with body := rest ++ extra }
        else some { req with body := rest.take n.toNat }

/-- The header fields sent on to the origin, as they stand on the wire. -/
def forwardedFields (headers : List Header) : List (QByteArray × QByteArray) :=
  (headers.filter (fun h => !isProxyHopRequestHeader h.1)).map
    (fun h => (toLatin1 h.1, toLatin1 h.2))

def fieldLine (field : QByteArray × QByteArray) : QByteArray :=
  field.1 ++ latin1 ": " ++ field.2 ++ crlf

def serializeRequestForOrigin (req : HttpRequest) : QByteArray :=
  toLatin1 req.method ++ latin1 " " ++ toLatin1 req.path ++ latin1 " " ++
    toLatin1 req.httpVersion ++ crlf ++ (forwardedFields req.headers).flatMap fieldLine ++ crlf ++
    req.body

end Nullock.Proxy

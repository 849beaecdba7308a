import Nullock.HttpRequests
import Nullock.ChunkedDecoders

namespace Nullock

/-- `QByteArray::toInt`: what is no number of 32 bits counts as zero. -/
def QByteArray.toInt (s : QByteArray) : Int :=
  match QByteArray.toLongLong s 10 with
  | none => 0
  | some n => if -2 ^ 31 ≤ n ∧ n < 2 ^ 31 then n else 0

end Nullock

namespace Nullock.HttpLogic

def isChunkedTransfer (transferEncodingValue : QString) : Bool :=
  match (splitSkipEmpty (toLower transferEncodingValue)).getLast? with
  | none => false
  | some last => QString.trimmed last == utf16 "chunked"

end Nullock.HttpLogic

namespace Nullock.Proxy
open HttpLogic

structure HttpResponse where
  httpVersion : QString
  statusCode : Int
  reasonPhrase : QString
  headers : List Header
  body : QByteArray
deriving DecidableEq

/-- The socket is a list of segments; what is not taken of one stays there. -/
def readExactOn (n : Nat) (out : QByteArray) :
    List QByteArray → Option (QByteArray × List QByteArray)
  | [] => if out.length < n then none else some (out, [])
  | segment :: socket =>
    if out.length < n then
      if segment.length ≤ n - out.length then readExactOn n (out ++ segment) socket
      else some (out ++ segment.take (n - out.length), segment.drop (n - out.length) :: socket)
    else some (out, segment :: socket)

def kMaxCloseDelimitedBytes : Nat := 256 * 1024 * 1024

def readUntilClose (out : QByteArray) : List QByteArray → Option QByteArray
  | [] => if out.length ≤ kMaxCloseDelimitedBytes then some out else none
  | segment :: socket =>
    if kMaxCloseDelimitedBytes < (out ++ segment).length then none
    else readUntilClose (out ++ segment) socket

def readChunkedBody (buffer decoded : QByteArray) :
    List QByteArray → Option (QByteArray × List QByteArray)
  | [] =>
    match decodeChunkedAvailable buffer decoded with
    | (.complete, _, decoded) => some (decoded, [])
    | _ => none
  | segment :: socket =>
    match decodeChunkedAvailable buffer decoded with
    | (.complete, _, decoded) => some (decoded, segment :: socket)
    | (.error, _, _) => none
    | (.needMore, buffer, decoded) => readChunkedBody (buffer ++ segment) decoded socket

/-- The status line and the fields; without a line end `left(-1)` is empty. -/
def parseResponseHead (headerBlock : QByteArray) : Option HttpResponse :=
  let statusLine := match indexOf crlf headerBlock with
    | some firstLineEnd => headerBlock.take firstLineEnd
    | none => []
  match indexOf (latin1 " ") statusLine with
  | none => none
  | some sp1 =>
    match indexOfFrom (latin1 " ") statusLine (sp1 + 1) with
    | none => none
    | some sp2 =>
      some
        { httpVersion := fromLatin1 (statusLine.take sp1)
          statusCode := QByteArray.toInt ((statusLine.drop (sp1 + 1)).take (sp2 - sp1 - 1))
          reasonPhrase := fromLatin1 (statusLine.drop (sp2 + 1))
          headers := parseHeaders headerBlock
          body := [] }

def isBodiless (statusCode : Int) : Bool :=
  statusCode == 101 || statusCode == 204 || statusCode == 304 ||
    (100 ≤ statusCode && statusCode < 200)

def kMaxResponseBody : Nat := 128 * 1024 * 1024

/-- The body behind an accepted head; `rest` was read with the head. -/
def readResponseBody (headers : List Header) (rest : QByteArray) (socket : List QByteArray) :
    Option (QByteArray × List QByteArray) :=
  let te := findHeader headers (utf16 "Transfer-Encoding")
  let cl := findHeader headers (utf16 "Content-Length")
  if isChunkedTransfer te then readChunkedBody rest [] socket
  else if !cl.isEmpty then
    let n := (QString.toLongLong cl).getD 0
    if n < 0 ∨ (kMaxResponseBody : Int) < n then none
    else if (rest.length : Int) < n then
      match readExactOn (n.toNat - rest.length) [] socket with
      | none => none
      | some (extra, socket) => some (rest ++ extra, socket)
    else some (rest.take n.toNat, socket)
  else
    match readUntilClose [] socket with
    | none => none
    | some tail => some (rest ++ tail, [])

def readResponse (socket : List QByteArray) : Option (HttpResponse × List QByteArray) :=
  match readHeaderBlock [] socket with
  | none => none
  | some (buf, socket) =>
    let sep := (indexOf (crlf ++ crlf) buf).getD 0
    let rest := buf.drop (sep + 4)
    match parseResponseHead (buf.take sep) with
    | none => none
    | some resp =>
      if isBodiless resp.statusCode then some ({ resp with body := rest }, socket)
      else if !isFramingSafe resp.headers false then none
      else
        match readResponseBody resp.headers rest socket with
        | none => none
        | some (body, socket) => some ({ resp with body := body }, socket)

def statusLine (resp : HttpResponse) : QByteArray :=
  toLatin1 resp.httpVersion ++ latin1 " " ++ QByteArray.number resp.statusCode ++ latin1 " " ++
    toLatin1 resp.reasonPhrase ++ crlf

def relayedFields (resp : HttpResponse) : List (QByteArray × QByteArray) :=
  let kept := resp.headers.filter (fun h => !equalsIgnoreCase h.1 (utf16 "Transfer-Encoding"))
  let sawContentLength := kept.any (fun h => equalsIgnoreCase h.1 (utf16 "Content-Length"))
  kept.map (fun h => (toLatin1 h.1, toLatin1 h.2)) ++
    if sawContentLength then []
    else [(latin1 "Content-Length", QByteArray.number resp.body.length)]

def serializeResponse (resp : HttpResponse) : QByteArray :=
  statusLine resp ++ (relayedFields resp).flatMap fieldLine ++ crlf ++ resp.body

def serializeUpgradeResponse (resp : HttpResponse) : QByteArray :=
  statusLine resp ++ resp.headers.flatMap (fun h => fieldLine (toLatin1 h.1, toLatin1 h.2)) ++
    crlf ++ resp.body

def endsTunnel (req : HttpRequest) (resp : HttpResponse) : Bool :=
  let reqConn := findHeader req.headers (utf16 "Connection")
  let respConn := findHeader resp.headers (utf16 "Connection")
  let reqWantsClose := equalsIgnoreCase reqConn (utf16 "close")
  let respWantsClose := equalsIgnoreCase respConn (utf16 "close")
  let http10 := equalsIgnoreCase req.httpVersion (utf16 "HTTP/1.0") ||
    equalsIgnoreCase resp.httpVersion (utf16 "HTTP/1.0")
  let http10KeepAlive := equalsIgnoreCase reqConn (utf16 "keep-alive") &&
    equalsIgnoreCase respConn (utf16 "keep-alive")
  reqWantsClose || respWantsClose || (http10 && !http10KeepAlive)

end Nullock.Proxy

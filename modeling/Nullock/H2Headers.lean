import Nullock.HttpResponses
import Nullock.SessionRules

namespace Nullock.Proxy.H2ClientLogic
open HttpLogic

structure HeaderNV where
  name : QByteArray
  value : QByteArray
deriving DecidableEq

def isHopByHopHeader (lowerName : QString) : Bool :=
  lowerName == utf16 "host" || lowerName == utf16 "connection" ||
    lowerName == utf16 "proxy-connection" || lowerName == utf16 "transfer-encoding" ||
    lowerName == utf16 "upgrade" || lowerName == utf16 "keep-alive" || lowerName == utf16 "te"

def connectionNamedHeaders (L : TextLibrary) (headers : List Header) : List QString :=
  (headers.filter (fun kv => equalsIgnoreCase kv.1 (utf16 "connection"))).flatMap (fun kv =>
    ((splitSkipEmpty kv.2).map (fun tok => L.lowerCase (QString.trimmed tok))).filter
      (fun t => !t.isEmpty))

def nameValue (L : TextLibrary) (lower value : QString) : HeaderNV :=
  ⟨L.toUtf8 lower, L.toUtf8 value⟩

def buildRequestHeaders (L : TextLibrary) (method authority path : QString)
    (headers : List Header) : List HeaderNV :=
  let m := L.toUtf8 (if method.isEmpty then utf16 "GET" else method)
  let p := L.toUtf8 (if path.isEmpty then utf16 "/" else path)
  let connNamed := connectionNamedHeaders L headers
  [⟨latin1 ":method", m⟩, ⟨latin1 ":scheme", latin1 "https"⟩,
    ⟨latin1 ":authority", L.toUtf8 authority⟩, ⟨latin1 ":path", p⟩] ++
  headers.filterMap (fun kv =>
    let lower := L.lowerCase kv.1
    if kv.1.isEmpty then none
    else if isHopByHopHeader lower then none
    else if lower ∈ connNamed then none
    else some (nameValue L lower kv.2))

end Nullock.Proxy.H2ClientLogic

namespace Nullock.Proxy.H2ServerLogic
open HttpLogic H2ClientLogic

structure H2ReqFields where
  method : QString := []
  scheme : QString := []
  authority : QString := []
  path : QString := []
  headers : List Header := []

def H2ReqFields.add (f : H2ReqFields) (kv : Header) : H2ReqFields :=
  if kv.1 = utf16 ":method" then { f with method := kv.2 }
  else if kv.1 = utf16 ":scheme" then { f with scheme := kv.2 }
  else if kv.1 = utf16 ":authority" then { f with authority := kv.2 }
  else if kv.1 = utf16 ":path" then { f with path := kv.2 }
  else if kv.1.head? ≠ some 0x3A then { f with headers := f.headers ++ [kv] }
  else f

def parseRequestHeaders (h2headers : List Header) : H2ReqFields :=
  h2headers.foldl H2ReqFields.add {}

def H2ReqFields.valid (f : H2ReqFields) : Bool := !f.method.isEmpty && !f.path.isEmpty

def responseHeaders (L : TextLibrary) (status : Int) (headers : List Header) : List HeaderNV :=
  let connNamed := connectionNamedHeaders L headers
  ⟨latin1 ":status", QByteArray.number status⟩ ::
  headers.filterMap (fun kv =>
    let lower := L.lowerCase kv.1
    if kv.1.isEmpty then none
    else if isHopByHopHeader lower then none
    else if lower ∈ connNamed then none
    else if lower = utf16 "content-length" then none
    else some (nameValue L lower kv.2))

end Nullock.Proxy.H2ServerLogic

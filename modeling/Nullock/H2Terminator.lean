import Nullock.H2Headers
import Nullock.Maps

namespace Nullock.Proxy.H2Terminator
open HttpLogic H2ClientLogic H2ServerLogic

abbrev StreamId := Nat

def kMaxServerStreams : Nat := 128
def kMaxServerReqBody : Int := 8 * 1024 * 1024
def kMaxServerBufferedBytes : Int := 128 * 1024 * 1024

structure ServerStream where
  headers : List Header := []
  reqBody : QByteArray := []
  requestDone : Bool := false
  respBody : QByteArray := []
  respOffset : Nat := 0

structure ServerSession where
  streams : AList (fun _ : StreamId => ServerStream) := ∅
  readyQueue : List StreamId := []
  bufferedBytes : Int := 0
  respBufferedBytes : Int := 0
  fatal : Bool := false

inductive HeadersCategory where
  | request
  | headers
deriving DecidableEq

inductive FrameType where
  | data
  | headers
  | other
deriving DecidableEq

inductive ResetCode where
  | internalError
  | refusedStream
  | enhanceYourCalm
deriving DecidableEq

inductive Callback where
  | beginHeaders (streamId : StreamId) (cat : HeadersCategory)
  | header (streamId : StreamId) (name value : QByteArray)
  | dataChunk (streamId : StreamId) (data : QByteArray)
  | frameRecv (streamId : StreamId) (type : FrameType) (endStream : Bool)
  | streamClose (streamId : StreamId)
  | respRead (streamId : StreamId) (length : Nat)

inductive Effect where
  | rstStream (streamId : StreamId) (code : ResetCode)
  | enqueue (streamId : StreamId)
  | upstream (streamId : StreamId) (h2headers : List Header) (body : QByteArray)
  | respond (streamId : StreamId) (headers : List HeaderNV) (hasBody : Bool)
  | send (streamId : StreamId) (data : QByteArray) (eof : Bool)

def onBeginHeaders (s : ServerSession) (streamId : StreamId) (cat : HeadersCategory) :
    ServerSession × List Effect :=
  if cat ≠ .request then (s, [])
  else if kMaxServerStreams ≤ s.streams.keys.length then
    (s, [.rstStream streamId .refusedStream])
  else if streamId ∈ s.streams then (s, [])
  else ({ s with streams := s.streams.insert streamId {} }, [])

def streamOf (s : ServerSession) (streamId : StreamId) : Option ServerStream :=
  s.streams.lookup streamId

def onHeader (L : TextLibrary) (s : ServerSession) (streamId : StreamId)
    (name value : QByteArray) : ServerSession × List Effect :=
  match streamOf s streamId with
  | none => (s, [])
  | some st =>
    let st := { st with headers := st.headers ++ [(L.fromUtf8 name, L.fromUtf8 value)] }
    ({ s with streams := s.streams.insert streamId st }, [])

def onDataChunk (s : ServerSession) (streamId : StreamId) (data : QByteArray) :
    ServerSession × List Effect :=
  match streamOf s streamId with
  | none => (s, [])
  | some st =>
    let len : Int := data.length
    if kMaxServerReqBody < st.reqBody.length + len ∨
        kMaxServerBufferedBytes < s.bufferedBytes + len then
      (s, [.rstStream streamId .enhanceYourCalm])
    else
      ({ s with
        streams := s.streams.insert streamId { st with reqBody := st.reqBody ++ data }
        bufferedBytes := s.bufferedBytes + len }, [])

def endsStream (type : FrameType) (endStream : Bool) : Bool := endStream && type ≠ .other

def onFrameRecv (s : ServerSession) (streamId : StreamId) (type : FrameType)
    (endStream : Bool) : ServerSession × List Effect :=
  if endsStream type endStream then
    match streamOf s streamId with
    | none => (s, [])
    | some st =>
      if st.requestDone then (s, [])
      else
        ({ s with
          streams := s.streams.insert streamId { st with requestDone := true }
          readyQueue := s.readyQueue ++ [streamId] }, [.enqueue streamId])
  else (s, [])

def onStreamClose (s : ServerSession) (streamId : StreamId) : ServerSession × List Effect :=
  match s.streams.lookup streamId with
  | none => (s, [])
  | some st =>
    ({ s with
      streams := s.streams.erase streamId
      bufferedBytes := s.bufferedBytes - st.reqBody.length
      respBufferedBytes := s.respBufferedBytes - st.respBody.length }, [])

def respRead (s : ServerSession) (streamId : StreamId) (length : Nat) :
    ServerSession × List Effect :=
  match streamOf s streamId with
  | none => (s, [.send streamId [] true])
  | some st =>
    let toCopy := min length (st.respBody.length - st.respOffset)
    let offset := st.respOffset + toCopy
    ({ s with streams := s.streams.insert streamId { st with respOffset := offset } },
      [.send streamId ((st.respBody.drop st.respOffset).take toCopy)
        (st.respBody.length ≤ offset)])

def Callback.apply (L : TextLibrary) (s : ServerSession) : Callback → ServerSession × List Effect
  | beginHeaders streamId cat => onBeginHeaders s streamId cat
  | header streamId name value => onHeader L s streamId name value
  | dataChunk streamId data => onDataChunk s streamId data
  | frameRecv streamId type endStream => onFrameRecv s streamId type endStream
  | streamClose streamId => onStreamClose s streamId
  | respRead streamId length => H2Terminator.respRead s streamId length

inductive UpstreamOutcome where
  | ok (resp : HttpResponse)
  | rejectStream
  | tunnelDead

structure Turn where
  expired : Bool
  outcome : UpstreamOutcome

/-- The upstream's answer is handed to the library or, beyond the limit, dropped. -/
def submit (L : TextLibrary) (s : ServerSession) (sid : StreamId) (st : ServerStream)
    (resp : HttpResponse) : ServerSession × List Effect :=
  if kMaxServerBufferedBytes < s.respBufferedBytes + resp.body.length then
    (s, [.rstStream sid .enhanceYourCalm])
  else
    ({ s with
      streams := s.streams.insert sid { st with respBody := resp.body, respOffset := 0 }
      respBufferedBytes := s.respBufferedBytes + resp.body.length },
    [.respond sid (responseHeaders L resp.statusCode resp.headers) (!resp.body.isEmpty)])

def fulfil (L : TextLibrary) (turn : Turn) (s : ServerSession) (sid : StreamId) :
    ServerSession × List Effect :=
  if turn.expired then ({ s with fatal := true }, [])
  else
    match s.streams.lookup sid with
    | none => (s, [])
    | some st =>
      match turn.outcome with
      | .tunnelDead => ({ s with fatal := true }, [.upstream sid st.headers st.reqBody])
      | .rejectStream => (s, [.upstream sid st.headers st.reqBody, .rstStream sid .internalError])
      | .ok resp =>
        let submitted := submit L s sid st resp
        (submitted.1, .upstream sid st.headers st.reqBody :: submitted.2)

/-- The streams that were ready, one by one, unless one ends the tunnel. -/
def dispatch (L : TextLibrary) (turns : Nat → Turn) (s : ServerSession) :
    List StreamId → ServerSession × List Effect
  | [] => (s, [])
  | sid :: ready =>
    let first := fulfil L (turns 0) s sid
    if first.1.fatal then first
    else
      let rest := dispatch L (fun i => turns (i + 1)) first.1 ready
      (rest.1, first.2 ++ rest.2)

inductive Happened where
  | callback (c : Callback)
  | effect (e : Effect)

structure Tunnel where
  session : ServerSession := {}
  log : List Happened := []

inductive Action where
  | callback (c : Callback)
  | fail
  | fulfilReady (turns : Nat → Turn)

def Tunnel.after (t : Tunnel) (happened : List Happened) (r : ServerSession × List Effect) :
    Tunnel where
  session := r.1
  log := t.log ++ happened ++ r.2.map .effect

def Tunnel.step (L : TextLibrary) (t : Tunnel) : Action → Tunnel
  | .callback c => t.after [.callback c] (c.apply L t.session)
  | .fail => t.after [] ({ t.session with fatal := true }, [])
  | .fulfilReady turns =>
    if t.session.fatal then t
    else t.after [] (dispatch L turns { t.session with readyQueue := [] } t.session.readyQueue)

end Nullock.Proxy.H2Terminator

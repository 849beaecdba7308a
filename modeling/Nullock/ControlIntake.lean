import Nullock.ControlLogic
import Nullock.Runs
import Mathlib.Algebra.BigOperators.Group.Finset.Basic

namespace Nullock.ControlServer

def kMaxHeadBytes : Nat := 64 * 1024
def kMaxPendingBytes : Nat := 128 * 1024 * 1024
def kMaxConnections : Nat := 32

structure Pending where
  buffer : QByteArray := []
  method : QString := []
  target : QString := []
  length : Nat := 0
  headers : Bool := false
  finished : Bool := false
  reserved : Bool := false

structure Dispatch where
  method : QString
  target : QString
  body : QByteArray
deriving DecidableEq

structure Connection where
  state : Pending := {}
  available : QByteArray := []
  accepted : Bool := false
  received : QByteArray := []
  dispatched : List Dispatch := []
  /-- What a request that is given up is answered. -/
  answered : Option Reply := none
  gone : Bool := false

structure Lane where
  connection : Connection
  pendingBodyBytes : Int

namespace Lane

def setState (x : Lane) (p : Pending) : Lane :=
  { x with connection := { x.connection with state := p } }

def release (x : Lane) : Lane :=
  let p := x.connection.state
  if p.reserved then
    { x.setState { p with reserved := false } with
      pendingBodyBytes := x.pendingBodyBytes - p.length }
  else x

def finish (x : Lane) : Lane :=
  (x.setState { x.connection.state with finished := true }).release

def reject (x : Lane) (response : Reply) : Lane :=
  let k := x.finish.connection
  { x.finish with
    connection := { k with state := { k.state with buffer := [] }, answered := some response } }

def dispatchRequest (x : Lane) : Lane :=
  let k := x.finish.connection
  { x.finish with
    connection := { k with
      state := { k.state with buffer := [] }
      dispatched := k.dispatched ++ [⟨k.state.method, k.state.target, k.state.buffer⟩] } }

def bodyTimeout : Reply := httpResponse 408 "Incomplete request body"

def readBody (x : Lane) (expired : Bool) : Lane :=
  let k := x.connection
  let p := k.state
  if p.buffer.length < p.length then
    let missing := p.length - p.buffer.length
    let buffer := p.buffer ++ k.available.take missing
    let x := { x with
      connection := { k with
        state := { p with buffer := buffer }
        available := k.available.drop missing } }
    if expired then x.reject bodyTimeout
    else if buffer.length < p.length then x
    else x.dispatchRequest
  else if p.length < p.buffer.length then
    x.reject (httpResponse 400 "Unexpected request body")
  else x.dispatchRequest

def reserve (x : Lane) (p : Pending) (expired : Bool) : Lane :=
  let x := x.setState p
  if (kMaxPendingBytes : Int) < x.pendingBodyBytes + p.length then
    x.reject (httpResponse 503 "Control request body budget exhausted; retry later")
  else
    readBody { x.setState { p with headers := true, reserved := true } with
      pendingBodyBytes := x.pendingBodyBytes + p.length } expired

def readHead (cfg : Config) (x : Lane) (expired : Bool) : Lane :=
  let k := x.connection
  let room := kMaxHeadBytes + 1 - k.state.buffer.length
  let buffer := k.state.buffer ++ k.available.take room
  let x := { x with
    connection := { k with
      state := { k.state with buffer := buffer }
      available := k.available.drop room } }
  match indexOf (crlf ++ crlf) buffer with
  | none =>
    if kMaxHeadBytes < buffer.length then x.reject (httpResponse 431 "Headers too large") else x
  | some sep =>
    if kMaxHeadBytes < sep + 4 then x.reject (httpResponse 431 "Headers too large")
    else
      match validateHeaders cfg (buffer.take sep) with
      | .error e => x.reject e
      | .ok (method, target, length) =>
        x.reserve
          { k.state with
            buffer := buffer.drop (sep + 4), method := method, target := target, length := length }
          expired

def read (cfg : Config) (x : Lane) (expired : Bool) : Lane :=
  let p := x.connection.state
  if p.finished then x
  else if p.headers then x.readBody expired
  else x.readHead cfg expired

end Lane

structure Server (ι : Type) where
  connections : Finset ι := ∅
  pendingBodyBytes : Int := 0
  sockets : ι → Connection := fun _ => {}

/-- What happens to the server; a read says whether its time is over. -/
inductive Event (ι : Type) where
  | newConnection (c : ι)
  | readyRead (c : ι) (bytes : QByteArray) (expired : Bool)
  | timeout (c : ι)
  | disconnected (c : ι)

namespace Server
variable {ι : Type} [DecidableEq ι]

def lane (s : Server ι) (c : ι) : Lane := ⟨s.sockets c, s.pendingBodyBytes⟩

def setLane (s : Server ι) (c : ι) (x : Lane) : Server ι :=
  { s with
    sockets := Function.update s.sockets c x.connection
    pendingBodyBytes := x.pendingBodyBytes }

/-- A connection beyond the bound is cut off, and another one read. -/
def onNewConnection (cfg : Config) (s : Server ι) (c : ι) : Server ι :=
  if (s.sockets c).accepted || kMaxConnections ≤ s.connections.card then s
  else
    { s.setLane c (Lane.read cfg ⟨{ s.sockets c with accepted := true }, s.pendingBodyBytes⟩
        false) with
      connections := insert c s.connections }

def onReadyRead (cfg : Config) (s : Server ι) (c : ι) (bytes : QByteArray) (expired : Bool) :
    Server ι :=
  if c ∈ s.connections then
    let k := s.sockets c
    s.setLane c (Lane.read cfg
      ⟨{ k with available := k.available ++ bytes, received := k.received ++ bytes },
        s.pendingBodyBytes⟩ expired)
  else s

def onDisconnected (s : Server ι) (c : ι) : Server ι :=
  if c ∈ s.connections then
    { s.setLane c (Lane.finish ⟨{ s.sockets c with gone := true }, s.pendingBodyBytes⟩) with
      connections := s.connections.erase c }
  else s

def onTimeout (s : Server ι) (c : ι) : Server ι :=
  if c ∈ s.connections then
    let p := (s.sockets c).state
    if p.finished then s.onDisconnected c
    else
      s.setLane c ((s.lane c).reject
        (if p.headers then Lane.bodyTimeout else httpResponse 408 "Header read timeout"))
  else s

def step (cfg : Config) (s : Server ι) : Event ι → Server ι
  | .newConnection c => s.onNewConnection cfg c
  | .readyRead c bytes expired => s.onReadyRead cfg c bytes expired
  | .timeout c => s.onTimeout c
  | .disconnected c => s.onDisconnected c

end Server

end Nullock.ControlServer

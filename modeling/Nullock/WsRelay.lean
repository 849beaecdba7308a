import Nullock.WsRoundTrip

namespace Nullock.Proxy

/-- A frame as it stands on the wire, with any payload length RFC 6455 admits. -/
def rawAttempt (buf : QByteArray) : Attempt QByteArray :=
  match lengthField (2 ^ 63 - 1) buf with
  | .more => .more
  | .fail => .fail
  | .unit payloadLen offset =>
    let size := payloadStart (byteAt buf 1) offset + payloadLen
    if buf.length < size then .more else .unit (buf.take size) size

theorem rawAttempt_unit (h : rawAttempt xs = .unit f n) :
    ∃ payloadLen offset, lengthField (2 ^ 63 - 1) xs = .unit payloadLen offset ∧
      n = payloadStart (byteAt xs 1) offset + payloadLen ∧ n ≤ xs.length ∧ f = xs.take n := by
  rw [rawAttempt] at h
  cases hl : lengthField (2 ^ 63 - 1) xs with
  | more => rw [hl] at h; cases h
  | fail => rw [hl] at h; cases h
  | unit payloadLen offset =>
    rw [hl] at h
    dsimp only at h
    split at h
    · cases h
    · cases h
      exact ⟨payloadLen, offset, rfl, rfl, by omega, rfl⟩

theorem rawAttempt_size (h : rawAttempt xs = .unit f n) : 0 < n ∧ n ≤ xs.length := by
  obtain ⟨payloadLen, offset, hl, hn, hle, _⟩ := rawAttempt_unit h
  have hs := (lengthField_size hl).1
  have hp := le_payloadStart (byteAt xs 1) offset
  exact ⟨by omega, hle⟩

theorem rawAttempt_append (h : rawAttempt xs = .unit f n) (ys : QByteArray) :
    rawAttempt (xs ++ ys) = .unit f n := by
  obtain ⟨payloadLen, offset, hl, hn, hle, hf⟩ := rawAttempt_unit h
  have hne : lengthField (2 ^ 63 - 1) xs ≠ .more := by rw [hl]; intro he; cases he
  have h2 := two_le_of_lengthField hne
  rw [rawAttempt, lengthField_append h2 hne, hl, byteAt_append (by omega)]
  simp only [← hn, List.length_append]
  rw [if_neg (by omega), List.take_append_of_le_length hle, hf]

theorem rawAttempt_fail_append (h : rawAttempt xs = .fail) (ys : QByteArray) :
    rawAttempt (xs ++ ys) = .fail := by
  rw [rawAttempt] at h ⊢
  cases hl : lengthField (2 ^ 63 - 1) xs with
  | more => rw [hl] at h; cases h
  | fail =>
    have hne : lengthField (2 ^ 63 - 1) xs ≠ .more := by rw [hl]; intro he; cases he
    rw [lengthField_append (two_le_of_lengthField hne) hne, hl]
  | unit payloadLen offset =>
    rw [hl] at h
    dsimp only at h
    split at h
    · cases h
    · cases h

def rawDecoder : Decoder UInt8 QByteArray where
  attempt := rawAttempt
  size_pos h := (rawAttempt_size h).1
  size_le h := (rawAttempt_size h).2
  unit_append h ys := rawAttempt_append h ys
  fail_append h ys := rawAttempt_fail_append h ys

theorem rawAttempt_encode (opcode : UInt8) (fin rsv1 : Bool) (mask : Option (Fin 4 → UInt8))
    (hp : payload.length < 2 ^ 63) :
    rawAttempt (wsEncodeFrame opcode fin rsv1 payload mask) =
      .unit (wsEncodeFrame opcode fin rsv1 payload mask)
        (wsEncodeFrame opcode fin rsv1 payload mask).length := by
  rw [wsEncodeFrame_eq]
  generalize ((if fin then 0x80 else 0x00) ||| (if rsv1 then 0x40 else 0x00) |||
    (opcode &&& 0x0F) : UInt8) = b0
  obtain ⟨_, h1⟩ := frameHead_bytes b0 mask.isSome payload.length (maskedPart mask payload)
  have hl := lengthField_frameHead b0 mask.isSome (Nat.le_sub_one_of_lt hp) (by decide)
    (maskedPart mask payload)
  generalize frameHead b0 (if mask.isSome then 0x80 else 0x00) payload.length = head at h1 hl ⊢
  have hs := payloadStart_encoded h1 head.length payload
  rw [rawAttempt, hl]
  simp only [hs, List.length_append, Nat.lt_irrefl, ↓reduceIte]
  rw [← List.length_append, List.take_length]

/-- A `frameQueued` signal: a frame on its way to session `id`. -/
structure QueuedFrame where
  id : Nat
  frame : QByteArray
  toUpstream : Bool
  whole : rawAttempt frame = .unit frame frame.length

def clientToServer (direction : QString) : Bool :=
  equalsIgnoreCase direction (utf16 "up") || equalsIgnoreCase direction (utf16 "client") ||
    equalsIgnoreCase direction (utf16 "upstream")

def buildFrame (opcode : UInt8) (payload : QByteArray) (mask : Option (Fin 4 → UInt8)) :
    QByteArray :=
  wsEncodeFrame opcode true false payload mask

/-- `forwarded` are the peer's bytes of the `written`, `injected` the added. -/
structure Channel where
  connected : Bool := true
  forwarded : QByteArray := []
  written : QByteArray := []
  injected : List QueuedFrame := []

inductive RelayPhase where
  | registered
  | attached
  | closed
deriving DecidableEq

/-- One `runWebSocketRelay`; the channel `true` leads to the upstream. -/
structure Relay where
  wsId : Nat
  phase : RelayPhase := .registered
  inbox : List QueuedFrame := []
  posted : List QueuedFrame := []
  channel : Bool → Channel := fun _ => {}

def Relay.updateChannel (r : Relay) (toUpstream : Bool) (f : Channel → Channel) : Relay :=
  { r with channel := Function.update r.channel toUpstream (f (r.channel toUpstream)) }

def Relay.frameQueued (r : Relay) (q : QueuedFrame) : Relay :=
  if q.id != r.wsId then r
  else if (r.channel q.toUpstream).connected then
    r.updateChannel q.toUpstream fun c =>
      { c with written := c.written ++ q.frame, injected := c.injected ++ [q] }
  else r

def Relay.deliver (r : Relay) : Relay :=
  match r.inbox with
  | [] => r
  | q :: inbox => { r with inbox }.frameQueued q

/-- A `readyRead` handler: what one peer sent is written to the other. -/
def Relay.readyRead (r : Relay) (toUpstream : Bool) (bytes : QByteArray) : Relay :=
  if r.phase = .attached ∧ (r.channel toUpstream).connected then
    r.updateChannel toUpstream fun c =>
      { c with forwarded := c.forwarded ++ bytes, written := c.written ++ bytes }
  else r

def Relay.attach (r : Relay) : Relay :=
  if r.phase = .registered then { r with phase := .attached } else r

def Relay.disconnected (r : Relay) (toUpstream : Bool) : Relay :=
  r.updateChannel toUpstream fun c => { c with connected := false }

/-- The connection object is destroyed, and the events posted to it with it. -/
def Relay.close (r : Relay) : Relay := { r with phase := .closed, inbox := [] }

/-- Emitting `frameQueued` posts it to every relay whose handler is connected. -/
def Relay.post (q : QueuedFrame) (r : Relay) : Relay :=
  if r.phase = .attached then
    { r with
      inbox := r.inbox ++ [q]
      posted := if q.id == r.wsId then r.posted ++ [q] else r.posted }
  else r

/-- `sending` are the calls of `sendFrame` that have not emitted yet. -/
structure RelayWorld where
  nextId : Nat := 1
  sessions : List Nat := []
  sending : List QueuedFrame := []
  relays : List Relay := []

/-- `leftover` is what came behind the 101 response, `key` the mask drawn. -/
inductive RelayAction where
  | registerSession (leftover : QByteArray)
  | attach (k : Nat)
  | sendFrame (id : Nat) (direction : QString) (opcode : UInt32) (payload : QByteArray)
      (key : Fin 4 → UInt8) (size : payload.length < 2 ^ 63)
  | emit (i : Nat)
  | deliver (k : Nat)
  | readyRead (k : Nat) (toUpstream : Bool) (bytes : QByteArray)
  | disconnected (k : Nat) (toUpstream : Bool)
  | deregisterSession (id : Nat)
  | close (k : Nat)

def RelayWorld.step (w : RelayWorld) : RelayAction → RelayWorld
  | .registerSession leftover =>
    let start : Channel := { forwarded := leftover, written := leftover }
    { w with
      nextId := w.nextId + 1
      sessions := w.nextId :: w.sessions
      relays := w.relays ++
        [{ wsId := w.nextId, channel := fun toUpstream => if toUpstream then {} else start }] }
  | .attach k => { w with relays := w.relays.modify k Relay.attach }
  | .sendFrame id direction opcode payload key size =>
    if w.sessions.contains id then
      let mask := if clientToServer direction then some key else none
      { w with
        sending := w.sending ++
          [{ id
             frame := buildFrame (opcode &&& 0x0F).toUInt8 payload mask
             toUpstream := clientToServer direction
             whole := rawAttempt_encode _ true false mask size }] }
    else w
  | .emit i =>
    match w.sending[i]? with
    | none => w
    | some q =>
      { w with sending := w.sending.eraseIdx i, relays := w.relays.map (Relay.post q) }
  | .deliver k => { w with relays := w.relays.modify k Relay.deliver }
  | .readyRead k toUpstream bytes =>
    { w with relays := w.relays.modify k (Relay.readyRead · toUpstream bytes) }
  | .disconnected k toUpstream =>
    { w with relays := w.relays.modify k (Relay.disconnected · toUpstream) }
  | .deregisterSession id => { w with sessions := w.sessions.filter (· != id) }
  | .close k => { w with relays := w.relays.modify k Relay.close }

def RelayWorld.run (w : RelayWorld) (actions : List RelayAction) : RelayWorld :=
  actions.foldl RelayWorld.step w

end Nullock.Proxy

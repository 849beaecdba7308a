import Nullock.Text
import Nullock.Incremental

namespace Nullock.Proxy

structure WsFrame where
  opcode : UInt8 := 0
  fin : Bool := true
  rsv1 : Bool := false
  payload : QByteArray := []
deriving DecidableEq

def kMaxFramePayload : Nat := 16 * 1024 * 1024
def kMaxBufferBytes : Nat := 2 * kMaxFramePayload

def byteAt (buf : QByteArray) (i : Nat) : UInt8 := buf.getD i 0

def lengthRegister (bytes : List UInt8) : Nat :=
  bytes.foldl (fun acc b => (acc <<< 8 ||| b.toNat) % 2 ^ 64) 0

def signed64 (n : Nat) : Int := if n < 2 ^ 63 then n else (n : Int) - 2 ^ 64

def xorMask (mask : List UInt8) (payload : QByteArray) : QByteArray :=
  payload.mapIdx (fun i b => b ^^^ mask.getD (i &&& 3) 0)

/-- The part of `tryParseOne` after the payload length is known. -/
def parseBody (buf : QByteArray) (start : Nat) (b0 b1 : UInt8) (payloadLen offset : Nat) :
    Attempt WsFrame :=
  let avail := buf.length - start
  let masked := b1 &&& 0x80 != 0
  if masked && avail < offset + 4 then .more
  else
    let mask := (List.range 4).map (fun i => byteAt buf (start + offset + i))
    let offset := if masked then offset + 4 else offset
    if avail < offset + payloadLen then .more
    else
      let payload := (buf.drop (start + offset)).take payloadLen
      .unit
        { opcode := b0 &&& 0x0F
          fin := b0 &&& 0x80 != 0
          rsv1 := b0 &&& 0x40 != 0
          payload := if masked then xorMask mask payload else payload }
        (offset + payloadLen)

/-- The results `0` and `-1` of the source are `more` and `fail`. -/
def tryParseOne (buf : QByteArray) (start : Nat) : Attempt WsFrame :=
  let avail := buf.length - start
  if avail < 2 then .more
  else
    let b0 := byteAt buf start
    let b1 := byteAt buf (start + 1)
    let payloadLen := (b1 &&& 0x7F).toNat
    if payloadLen = 126 then
      if avail < 2 + 2 then .more
      else parseBody buf start b0 b1
        ((byteAt buf (start + 2)).toNat <<< 8 ||| (byteAt buf (start + 3)).toNat) (2 + 2)
    else if payloadLen = 127 then
      if avail < 2 + 8 then .more
      else
        let payloadLen := signed64
          (lengthRegister ((List.range 8).map (fun i => byteAt buf (start + 2 + i))))
        if payloadLen < 0 ∨ (kMaxFramePayload : Int) < payloadLen then .fail
        else parseBody buf start b0 b1 payloadLen.toNat (2 + 8)
    else parseBody buf start b0 b1 payloadLen 2

structure WsFrameParser where
  buf : QByteArray := []
  giveUp : Bool := false
deriving DecidableEq

/-- The loop of `feed`: frames and final cursor, or `none` on an error. -/
def feedLoop (buf : QByteArray) : Nat → Nat → List WsFrame → List WsFrame × Option Nat
  | 0, pos, out => (out, some pos)
  | fuel + 1, pos, out =>
    match tryParseOne buf pos with
    | .fail => (out, none)
    | .more => (out, some pos)
    | .unit f consumed => feedLoop buf fuel (pos + consumed) (out ++ [f])

def WsFrameParser.feed (p : WsFrameParser) (chunk : QByteArray) :
    List WsFrame × WsFrameParser :=
  if p.giveUp then ([], p)
  else if (chunk.length : Int) > (kMaxBufferBytes : Int) - p.buf.length then ([], ⟨[], true⟩)
  else
    let buf := p.buf ++ chunk
    match feedLoop buf (buf.length + 1) 0 [] with
    | (out, none) => (out, ⟨[], true⟩)
    | (out, some pos) => (out, ⟨buf.drop pos, false⟩)

/-- The frames of successive `feed` calls, and the parser after them. -/
def WsFrameParser.feedAll : WsFrameParser → List QByteArray → List WsFrame × WsFrameParser
  | p, [] => ([], p)
  | p, chunk :: chunks =>
    let r := p.feed chunk
    let t := r.2.feedAll chunks
    (r.1 ++ t.1, t.2)

/-- FIN, RSV1 and opcode, then the minimal length form. -/
def frameHead (b0 maskBit : UInt8) (len : Nat) : QByteArray :=
  if len < 126 then [b0, maskBit ||| len.toUInt8]
  else if len ≤ 0xFFFF then
    [b0, maskBit ||| 126, ((len >>> 8) &&& 0xFF).toUInt8, (len &&& 0xFF).toUInt8]
  else
    b0 :: (maskBit ||| 127) ::
      [56, 48, 40, 32, 24, 16, 8, 0].map (fun shift => ((len >>> shift) &&& 0xFF).toUInt8)

def wsEncodeFrame (opcode : UInt8) (fin rsv1 : Bool) (payload : QByteArray)
    (mask : Option (Fin 4 → UInt8)) : QByteArray :=
  let b0 := (if fin then 0x80 else 0x00) ||| (if rsv1 then 0x40 else 0x00) ||| (opcode &&& 0x0F)
  let maskBit := if mask.isSome then 0x80 else 0x00
  match mask with
  | some m =>
    frameHead b0 maskBit payload.length ++ List.ofFn m ++ xorMask (List.ofFn m) payload
  | none => frameHead b0 maskBit payload.length ++ payload

end Nullock.Proxy

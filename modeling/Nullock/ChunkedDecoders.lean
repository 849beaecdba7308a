import Nullock.Numerals

namespace Nullock

def beforeExtension (sizeLine : QByteArray) : QByteArray :=
  match indexOf (latin1 ";") sizeLine with
  | some semi => sizeLine.take semi
  | none => sizeLine

theorem indexOf_drop_lt (h : indexOf crlf buffer = some i) (n : Nat) :
    (buffer.drop (i + 2 + n)).length < buffer.length := by
  have hi := (indexOf_split h).2
  rw [List.length_drop]
  simp only [crlf, List.length_cons, List.length_nil] at hi
  omega

theorem indexOfFrom_bounds (h : indexOfFrom crlf buffer pos = some e) :
    pos ≤ e ∧ e + 2 ≤ buffer.length := by
  rw [indexOfFrom, Option.map_eq_some_iff] at h
  obtain ⟨i, hi, he⟩ := h
  have hs := (indexOf_split hi).2
  rw [List.length_drop] at hs
  simp only [crlf, List.length_cons, List.length_nil] at hs
  omega

namespace HttpLogic

def kMaxChunkBytes : Nat := 16 * 1024 * 1024
def kMaxDecodedBytes : Nat := 256 * 1024 * 1024

inductive ChunkResult where
  | complete
  | needMore
  | error
deriving DecidableEq

def decodeChunkedAvailable (buffer decoded : QByteArray) : ChunkResult × QByteArray × QByteArray :=
  match _h : indexOf crlf buffer with
  | none => (.needMore, buffer, decoded)
  | some i =>
    match QByteArray.toLongLong (QByteArray.trimmed (beforeExtension (buffer.take i))) 16 with
    | none => (.error, buffer, decoded)
    | some size =>
      if size < 0 ∨ (kMaxChunkBytes : Int) < size then (.error, buffer, decoded)
      else
        let chunkSize := size.toNat
        if chunkSize = 0 then
          match indexOfFrom (crlf ++ crlf) buffer i with
          | none => (.needMore, buffer, decoded)
          | some stop => (.complete, buffer.drop (stop + 4), decoded)
        else if kMaxDecodedBytes < decoded.length + chunkSize then (.error, buffer, decoded)
        else if buffer.length < i + 2 + chunkSize + 2 then (.needMore, buffer, decoded)
        else
          let decoded := decoded ++ (buffer.drop (i + 2)).take chunkSize
          if (buffer.drop (i + 2 + chunkSize)).take 2 ≠ crlf then
            (.error, buffer.drop (i + 2), decoded)
          else decodeChunkedAvailable (buffer.drop (i + 2 + (chunkSize + 2))) decoded
termination_by buffer.length
decreasing_by exact indexOf_drop_lt _h _

end HttpLogic

namespace NetworkingLogic

def kMaxBodyBytes : Nat := 128 * 1024 * 1024
def kMaxChunkLineBytes : Nat := 64 * 1024

inductive ChunkDecode where
  | done
  | needMore
  | error
deriving DecidableEq

def isHexDigit (c : UInt8) : Bool :=
  (0x30 ≤ c && c ≤ 0x39) || (0x61 ≤ c && c ≤ 0x66) || (0x41 ≤ c && c ≤ 0x46)

def parseChunkSizeLine (sizeLine : QByteArray) : Option Nat :=
  let s := QByteArray.trimmed (beforeExtension sizeLine)
  if s.isEmpty || !s.all isHexDigit then none
  else
    match QByteArray.toLongLong s 16 with
    | none => none
    | some sz => if sz < 0 ∨ (kMaxBodyBytes : Int) < sz then none else some sz.toNat

def scanTrailer (buffer : QByteArray) (pos trailerBytes : Nat) : ChunkDecode × QByteArray :=
  match h : indexOfFrom crlf buffer pos with
  | none => (if kMaxChunkLineBytes < buffer.length then .error else .needMore, buffer)
  | some e =>
    if e = pos then (.done, buffer.drop (e + 2))
    else if kMaxChunkLineBytes < e - pos then (.error, buffer)
    else
      let trailerBytes := trailerBytes + (e - pos + 2)
      if kMaxChunkLineBytes < trailerBytes then (.error, buffer)
      else scanTrailer buffer (e + 2) trailerBytes
termination_by buffer.length - pos
decreasing_by
  have hb := indexOfFrom_bounds h
  omega

def feedChunked (buffer decoded : QByteArray) : ChunkDecode × QByteArray × QByteArray :=
  match _h : indexOf crlf buffer with
  | none => (if kMaxChunkLineBytes < buffer.length then .error else .needMore, buffer, decoded)
  | some i =>
    if kMaxChunkLineBytes < i then (.error, buffer, decoded)
    else
      match parseChunkSizeLine (buffer.take i) with
      | none => (.error, buffer, decoded)
      | some size =>
        if kMaxBodyBytes < decoded.length + size then (.error, buffer, decoded)
        else if size = 0 then
          let r := scanTrailer buffer (i + 2) 0
          (r.1, r.2, decoded)
        else if buffer.length < i + 2 + size + 2 then (.needMore, buffer, decoded)
        else if (buffer.drop (i + 2 + size)).take 2 ≠ crlf then (.error, buffer, decoded)
        else
          feedChunked (buffer.drop (i + 2 + (size + 2)))
            (decoded ++ (buffer.drop (i + 2)).take size)
termination_by buffer.length
decreasing_by exact indexOf_drop_lt _h _

end NetworkingLogic

end Nullock

import Nullock.Base64
import Nullock.EncodedTexts
import Nullock.JsonText
import Nullock.RewriteBytes

namespace Nullock

/-- A whole text as an unsigned 64-bit number; no minus sign is accepted. -/
def readULongLong (base : Nat) (s : QString) : Option Nat :=
  let s := QString.trimmed s
  if s.head? = some 0x2D then none
  else
    let s := if s.head? = some 0x2B then s.drop 1 else s
    let s := if base = 16 then dropHexPrefix s else s
    if s.isEmpty then none
    else (digitsFrom base 0 s).bind (fun n => if n < 2 ^ 64 then some n else none)

def QString.toUIntOk (base : Nat) (s : QString) : Option Nat :=
  (readULongLong base s).bind (fun n => if n < 2 ^ 32 then some n else none)

def QString.toUShortOk (base : Nat) (s : QString) : Option Nat :=
  (readULongLong base s).bind (fun n => if n < 2 ^ 16 then some n else none)

/-- Runs of whitespace become one space, and none is left at the ends. -/
def QString.simplified (s : QString) : QString :=
  List.intercalate [0x20] (((s.map (fun c => if isSpace c then 0x20 else c)).splitOn 0x20).filter
    (fun part => !part.isEmpty))

namespace QByteArray
open JsonText (hexChar)

/-- The characters of the other alphabet at the places of the first one's. -/
def urlChar (c : UInt8) : UInt8 := if c = 0x2B then 0x2D else if c = 0x2F then 0x5F else c

def standardChar (c : UInt8) : UInt8 :=
  if c = 0x2D then 0x2B else if c = 0x5F then 0x2F
  else if c = 0x2B ∨ c = 0x2F then 0x2D else c

def toBase64Url (s : QByteArray) : QByteArray :=
  ((toBase64 s).filter (fun c => c != 0x3D)).map urlChar

def fromBase64UrlEncoding (s : QByteArray) : Option QByteArray :=
  fromBase64Encoding (s.map standardChar)

def toPercentEncoding (s : QByteArray) : QByteArray := s.flatMap Proxy.percentByte

/-- The value of a hexadecimal digit; another character stands for itself. -/
def hexValue (c : UInt8) : Nat := (digitValue c.toUInt16).getD c.toNat

def fromPercentEncodingFrom : Nat → QByteArray → QByteArray
  | _, [] => []
  | skip + 1, _ :: s => fromPercentEncodingFrom skip s
  | 0, c :: s =>
    match c == 0x25, s with
    | true, a :: b :: _ =>
      (hexValue a * 16 ||| hexValue b).toUInt8 :: fromPercentEncodingFrom 2 s
    | _, _ => c :: fromPercentEncodingFrom 0 s

def fromPercentEncoding (s : QByteArray) : QByteArray := fromPercentEncodingFrom 0 s

def hexPair (c : UInt8) : QByteArray :=
  [(hexChar (c.toNat / 16)).toUInt8, (hexChar (c.toNat % 16)).toUInt8]

def toHex (s : QByteArray) : QByteArray := s.flatMap hexPair

def hexPairs : List Nat → QByteArray
  | a :: b :: digits => (a * 16 + b).toUInt8 :: hexPairs digits
  | _ => []

/-- The bytes of the digits in pairs from the end; others are skipped. -/
def fromHex (s : QByteArray) : QByteArray :=
  let digits := s.filterMap (fun c => digitValue c.toUInt16)
  hexPairs (if digits.length % 2 = 0 then digits else 0 :: digits)

end QByteArray

end Nullock

namespace Nullock.Transcode
open JsonText (hexChar)

structure Result where
  ok : Bool
  output : QString := []
  outputBytes : QByteArray := []
  error : QString := []

def ok (out : QString) : Result := { ok := true, output := out }

def err (e : String) : Result := { ok := false, error := utf16 e }

def okBytes (raw : QByteArray) : Result :=
  { ok := true, output := QString.fromUtf8 raw, outputBytes := raw }

def base64Encode (s : QString) (url : Bool) : Result :=
  ok (fromLatin1 (if url then QByteArray.toBase64Url (toUtf8 s)
    else QByteArray.toBase64 (toUtf8 s)))

def base64Decode (s : QString) (url : Bool) : Result :=
  let bytes := toLatin1 (QString.trimmed s)
  match if url then QByteArray.fromBase64UrlEncoding bytes
    else QByteArray.fromBase64Encoding bytes with
  | some decoded => okBytes decoded
  | none => err "not valid base64"

def urlEncode (s : QString) : Result :=
  ok (fromLatin1 (QByteArray.toPercentEncoding (toUtf8 s)))

def urlDecode (s : QString) : Result :=
  ok (QString.fromUtf8 (QByteArray.fromPercentEncoding (toUtf8 s)))

def htmlChar (c : UInt16) : QString :=
  if c = 0x26 then utf16 "&amp;"
  else if c = 0x3C then utf16 "&lt;"
  else if c = 0x3E then utf16 "&gt;"
  else if c = 0x22 then utf16 "&quot;"
  else if c = 0x27 then utf16 "&#39;"
  else [c]

def htmlEncode (s : QString) : QString := s.flatMap htmlChar

def unitsOf (cp : Nat) : QString :=
  if cp ≤ 0xFFFF then [cp.toUInt16]
  else [(0xD800 + (cp - 0x10000) / 1024).toUInt16, (0xDC00 + (cp - 0x10000) % 1024).toUInt16]

def entity (body : QString) : Option QString :=
  if body.head? = some 0x23 then
    let cp :=
      if 1 < body.length ∧ (body.getD 1 0 = 0x78 ∨ body.getD 1 0 = 0x58) then
        QString.toUIntOk 16 (body.drop 2)
      else QString.toUIntOk 10 (body.drop 1)
    cp.bind (fun cp => if cp ≤ 0x10FFFF then some (unitsOf cp) else none)
  else if body = utf16 "lt" then some (utf16 "<")
  else if body = utf16 "gt" then some (utf16 ">")
  else if body = utf16 "quot" then some (utf16 "\"")
  else if body = utf16 "apos" then some (utf16 "'")
  else if body = utf16 "amp" then some (utf16 "&")
  else none

def entityAt (s : QString) : Option (QString × Nat) :=
  match indexOf (utf16 ";") s with
  | none => none
  | some k =>
    if 0 < k ∧ k + 1 ≤ 32 then (entity (s.take k)).map (fun rep => (rep, k + 1)) else none

/-- One pass from the left; `skip` characters of an entity are passed over. -/
def htmlDecodeFrom : Nat → QString → QString
  | _, [] => []
  | skip + 1, _ :: s => htmlDecodeFrom skip s
  | 0, c :: s =>
    if c = 0x26 then
      match entityAt s with
      | some (rep, len) => rep ++ htmlDecodeFrom len s
      | none => c :: htmlDecodeFrom 0 s
    else c :: htmlDecodeFrom 0 s

def htmlDecode (s : QString) : Result := ok (htmlDecodeFrom 0 s)

def hexEncode (s : QString) : Result := ok (fromLatin1 (QByteArray.toHex (toUtf8 s)))

def removeBlanks (s : QString) : QString :=
  s.filter (fun c => c != 0x20 && c != 0x0A && c != 0x09 && c != 0x0D)

def hexDecode (s : QString) : Result :=
  let s := removeBlanks (QString.trimmed s)
  if s.isEmpty then err "empty"
  else if s.length % 2 ≠ 0 then err "hex length must be even"
  -- the pattern finds nothing in a text that is not well formed
  else if wellFormed s && s.any (fun c => (digitValue c).isNone) then
    err "contains non-hex characters"
  else okBytes (QByteArray.fromHex (toLatin1 s))

def hex4 (c : UInt16) : QString :=
  [hexChar (c.toNat / 4096), hexChar (c.toNat / 256 % 16), hexChar (c.toNat / 16 % 16),
    hexChar (c.toNat % 16)]

def unicodeChar (c : UInt16) : QString :=
  if 0x20 ≤ c ∧ c < 0x7F then [c] else utf16 "\\u" ++ hex4 c

def unicodeEscape (s : QString) : Result := ok (s.flatMap unicodeChar)

def escapeAt (s : QString) : Option UInt16 :=
  if s.head? = some 0x5C ∧ s.getD 1 0 = 0x75 ∧ 6 ≤ s.length then
    (QString.toUShortOk 16 ((s.drop 2).take 4)).map Nat.toUInt16
  else none

def unicodeUnescapeFrom : Nat → QString → QString
  | _, [] => []
  | skip + 1, _ :: s => unicodeUnescapeFrom skip s
  | 0, c :: s =>
    match escapeAt (c :: s) with
    | some cp => cp :: unicodeUnescapeFrom 5 s
    | none => c :: unicodeUnescapeFrom 0 s

def unicodeUnescape (s : QString) : Result := ok (unicodeUnescapeFrom 0 s)

def rot13Char (c : UInt16) : UInt16 :=
  if 0x61 ≤ c ∧ c ≤ 0x7A then (0x61 + (c.toNat - 0x61 + 13) % 26).toUInt16
  else if 0x41 ≤ c ∧ c ≤ 0x5A then (0x41 + (c.toNat - 0x41 + 13) % 26).toUInt16
  else c

def rot13 (s : QString) : Result := ok (s.map rot13Char)

def octalDigits (c : UInt8) : QString :=
  [hexChar (c.toNat / 64), hexChar (c.toNat / 8 % 8), hexChar (c.toNat % 8)]

def octalEncode (s : QString) : Result :=
  ok (List.intercalate [0x20] ((toUtf8 s).map octalDigits))

def octalBytes : List QString → Except QString QByteArray
  | [] => .ok []
  | p :: parts =>
    match QString.toUIntOk 8 p with
    | none => .error p
    | some v => if 255 < v then .error p else (octalBytes parts).map (v.toUInt8 :: ·)

def octalDecode (s : QString) : Result :=
  let parts := ((QString.simplified s).splitOn 0x20).filter (fun part => !part.isEmpty)
  if parts.isEmpty then err "empty"
  else
    match octalBytes parts with
    | .error p => { ok := false, error := utf16 "invalid octal byte: " ++ p }
    | .ok out => okBytes out

def binaryDigits (c : UInt8) : QString :=
  [7, 6, 5, 4, 3, 2, 1, 0].map (fun i => if (c >>> i) &&& 1 = 1 then 0x31 else 0x30)

def binaryEncode (s : QString) : Result :=
  ok (List.intercalate [0x20] ((toUtf8 s).map binaryDigits))

/-- The bytes of eight digits each; `count` digits of one are read into `v`. -/
def binaryBytes (count v : Nat) : QString → QByteArray
  | [] => []
  | c :: s =>
    let v := v * 2 + (if c = 0x31 then 1 else 0)
    if count = 7 then v.toUInt8 :: binaryBytes 0 0 s else binaryBytes (count + 1) v s

def binaryDecode (s : QString) : Result :=
  let s := removeBlanks s
  if s.isEmpty then err "empty"
  else if s.length % 8 ≠ 0 then err "binary length must be a multiple of 8"
  else if s.any (fun c => c != 0x30 && c != 0x31) then err "invalid binary digit"
  else okBytes (binaryBytes 0 0 s)

def apply (other : QString → QString → Result) (op input : QString) : Result :=
  let o := toLower (QString.trimmed op)
  if o = utf16 "base64-encode" then base64Encode input false
  else if o = utf16 "base64-decode" then base64Decode input false
  else if o = utf16 "base64url-encode" then base64Encode input true
  else if o = utf16 "base64url-decode" then base64Decode input true
  else if o = utf16 "url-encode" then urlEncode input
  else if o = utf16 "url-decode" then urlDecode input
  else if o = utf16 "html-encode" then ok (htmlEncode input)
  else if o = utf16 "html-decode" then htmlDecode input
  else if o = utf16 "hex-encode" then hexEncode input
  else if o = utf16 "hex-decode" then hexDecode input
  else if o = utf16 "unicode-escape" then unicodeEscape input
  else if o = utf16 "unicode-unescape" then unicodeUnescape input
  else if o = utf16 "rot13" then rot13 input
  else if o = utf16 "octal-encode" then octalEncode input
  else if o = utf16 "octal-decode" then octalDecode input
  else if o = utf16 "binary-encode" then binaryEncode input
  else if o = utf16 "binary-decode" then binaryDecode input
  else other op input

end Nullock.Transcode

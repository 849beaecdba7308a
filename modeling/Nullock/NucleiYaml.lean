import Nullock.CookieJar
import Nullock.JsonDocuments

namespace Nullock.NucleiYaml

structure Line where
  indent : Nat
  text : QString
  rawIdx : Nat
deriving DecidableEq

def kSpace : UInt16 := 0x20
def kQuote : UInt16 := 0x22
def kHash : UInt16 := 0x23
def kApostrophe : UInt16 := 0x27
def kComma : UInt16 := 0x2C
def kDash : UInt16 := 0x2D
def kColon : UInt16 := 0x3A
def kBackslash : UInt16 := 0x5C

def atNodeStart (before : Option UInt16) : Bool :=
  before.all (fun p => isSpace p || p == kComma || p == 0x5B || p == 0x7B)

/-- What the scanners of a line keep: the regions they are in, and the character before. -/
structure Quotes where
  inS : Bool := false
  inD : Bool := false
  before : Option UInt16 := none

def Quotes.pass (q : Quotes) (c : UInt16) : Quotes :=
  if c = kApostrophe ∧ q.inD = false then
    if q.inS then ⟨false, q.inD, some c⟩ else ⟨atNodeStart q.before, q.inD, some c⟩
  else if c = kQuote ∧ q.inS = false then ⟨q.inS, !q.inD, some c⟩
  else ⟨q.inS, q.inD, some c⟩

def Quotes.outside (q : Quotes) : Bool := !q.inS && !q.inD

def stripCommentFrom (q : Quotes) : QString → QString
  | [] => []
  | [c] => if c = kHash ∧ q.outside ∧ q.before.all isSpace then [] else [c]
  | c :: d :: s =>
    if c = kApostrophe ∧ q.inD = false ∧ q.inS = true ∧ d = kApostrophe then
      c :: d :: stripCommentFrom { q with before := some d } s
    else if c = kHash ∧ q.outside ∧ q.before.all isSpace then []
    else c :: stripCommentFrom (q.pass c) (d :: s)

def stripComment (raw : QString) : QString := stripCommentFrom {} raw

def leadingSpaces (s : QString) : Nat := (s.takeWhile (fun c => c == kSpace)).length

def rawLine (ln : QString) : QString :=
  let ln := ln.flatMap (fun c => if c = 0x09 then [kSpace, kSpace] else [c])
  if ln.getLast? = some 0x0D then ln.dropLast else ln

def significantLine (ln : QString) (idx : Nat) : Option Line :=
  let noComment := stripComment ln
  let trimmed := QString.trimmed noComment
  if trimmed.isEmpty then none
  else if trimmed = utf16 "---" then none
  else some ⟨leadingSpaces noComment, trimmed, idx⟩

def rawLines (yaml : QString) : List QString := (yaml.splitOn 0x0A).map rawLine

def tokenize (raw : List QString) : List Line :=
  raw.zipIdx.filterMap (fun ln => significantLine ln.1 ln.2)

def unescape : QString → QString
  | [] => []
  | [c] => [c]
  | c :: d :: s =>
    if c = kBackslash then
      if d = kQuote then kQuote :: unescape s
      else if d = kBackslash then kBackslash :: unescape s
      else if d = 0x6E then 0x0A :: unescape s
      else if d = 0x72 then 0x0D :: unescape s
      else if d = 0x74 then 0x09 :: unescape s
      else c :: unescape (d :: s)
    else c :: unescape (d :: s)

def unquote (s : QString) : QString :=
  let t := QString.trimmed s
  if 2 ≤ t.length ∧ t.head? = some kQuote ∧ t.getLast? = some kQuote then
    unescape ((t.drop 1).take (t.length - 2))
  else if 2 ≤ t.length ∧ t.head? = some kApostrophe ∧ t.getLast? = some kApostrophe then
    replaceAll [kApostrophe, kApostrophe] [kApostrophe] ((t.drop 1).take (t.length - 2))
  else t

def nearestDouble (n : Int) : Rat :=
  let e := n.natAbs.log2 - 52
  let q := n.natAbs / 2 ^ e
  let r := n.natAbs % 2 ^ e
  let q := if 2 ^ e < 2 * r ∨ (2 * r = 2 ^ e ∧ q % 2 = 1) then q + 1 else q
  ((n.sign * q * 2 ^ e : Int) : Rat)

def scalar (raw : QString) : QJsonValue :=
  let t := QString.trimmed raw
  if t.isEmpty then .null
  else if t.head? = some kQuote ∨ t.head? = some kApostrophe then .string (unquote t)
  else if t = utf16 "true" then .bool true
  else if t = utf16 "false" then .bool false
  else if t = utf16 "null" ∨ t = utf16 "~" then .null
  else
    match QString.toLongLong t with
    | some n => if QString.number n = t then .double (nearestDouble n) else .string t
    | none => .string t

/-- The parts of a flow between its commas; `part` is the one that is open. -/
def splitFlowFrom (q : Quotes) (part : QString) : QString → List QString
  | [] => [part]
  | [c] => if c = kComma ∧ q.outside then [part, []] else [part ++ [c]]
  | c :: d :: s =>
    if c = kApostrophe ∧ q.inD = false ∧ q.inS = true ∧ d = kApostrophe then
      splitFlowFrom { q with before := some d } (part ++ [c, d]) s
    else if c = kComma ∧ q.outside then part :: splitFlowFrom (q.pass c) [] (d :: s)
    else splitFlowFrom (q.pass c) (part ++ [c]) (d :: s)

def splitFlow (inner : QString) : List QString := splitFlowFrom {} [] inner

def scalarOrFlow (raw : QString) : QJsonValue :=
  let t := QString.trimmed raw
  if t.head? = some 0x5B ∧ t.getLast? = some 0x5D then
    let inner := QString.trimmed ((t.drop 1).take (t.length - 2))
    .array (if inner.isEmpty then []
      else (splitFlow inner).map (fun part => scalar (QString.trimmed part)))
  else scalar t

def keyColonFrom (q : Quotes) (i : Nat) : QString → Option Nat
  | [] => none
  | [c] => if c = kColon ∧ q.outside then some i else none
  | c :: d :: s =>
    if c = kApostrophe ∧ q.inD = false ∧ q.inS = true ∧ d = kApostrophe then
      keyColonFrom { q with before := some d } (i + 2) s
    else if c = kColon ∧ q.outside ∧ d = kSpace then some i
    else keyColonFrom (q.pass c) (i + 1) (d :: s)

def keyColon (s : QString) : Option Nat := keyColonFrom {} 0 s

section Blocks
variable (digit : UInt16 → Bool)

/-- How a block scalar is to be chomped; `none` where there is none. -/
def chompOf : Option UInt16 → QString → Option (Option UInt16)
  | chomp, [] => some chomp
  | chomp, c :: s =>
    if c = kDash ∨ c = 0x2B then chompOf (some c) s
    else if digit c then chompOf chomp s
    else none

def blockScalarIndicator (rest : QString) : Option (UInt16 × Option UInt16) :=
  match QString.trimmed rest with
  | [] => none
  | c :: s =>
    if c = 0x7C ∨ c = 0x3E then (chompOf digit none s).map (fun chomp => (c, chomp)) else none

def isBlank (ln : QString) : Bool := (QString.trimmed ln).isEmpty

def foldLines : Bool → List QString → QString
  | _, [] => []
  | prevBlank, l :: lines =>
    if l.isEmpty then 0x0A :: foldLines true lines
    else (if prevBlank then [] else [kSpace]) ++ l ++ foldLines false lines

/-- A block scalar from the raw lines, and the first raw line behind it. -/
def readBlockScalar (raw : List QString) (start keyIndent : Nat) (style : UInt16)
    (chomp : Option UInt16) : QString × Nat :=
  let block := ((raw.drop start).takeWhile
    (fun ln => isBlank ln || decide (keyIndent < leadingSpaces ln))).map
      (fun ln => if isBlank ln then [] else ln)
  let endRaw := start + block.length
  match ((block.filter (fun ln => !isBlank ln)).map leadingSpaces).min? with
  | none => ([], endRaw)
  | some blockIndent =>
    let all := block.map (fun ln => if blockIndent ≤ ln.length then ln.drop blockIndent else [])
    let content := all.rdropWhile (fun ln => ln.isEmpty)
    let trailingBlanks := all.length - content.length
    if content.isEmpty then ([], endRaw)
    else
      let body := if style = 0x7C then List.intercalate [0x0A] content else foldLines true content
      if chomp = some kDash then (body, endRaw)
      else if chomp = some 0x2B then (body ++ List.replicate (1 + trailingBlanks) 0x0A, endRaw)
      else (body ++ [0x0A], endRaw)

structure Parsed (α : Type) where
  value : α
  lines : List Line
  guard : Nat

def startsWithDash (line : Line) : Bool := line.text.head? == some kDash

def itemText (text : QString) : QString :=
  let rest := text.drop 1
  QString.trimmed (if rest.head? = some kSpace then rest.drop 1 else rest)

variable (raw : List QString)

mutual

def parseSeq (lines : List Line) (indent guard : Nat) : Parsed (List QJsonValue) :=
  match lines, guard with
  | [], guard => ⟨[], [], guard⟩
  | line :: lines, 0 => ⟨[], line :: lines, 0⟩
  | line :: lines, guard + 1 =>
    if line.indent = indent ∧ startsWithDash line then
      let item := parseItem line lines indent guard
      let items := parseSeq item.lines indent (min item.guard guard)
      ⟨item.value :: items.value, items.lines, items.guard⟩
    else ⟨[], line :: lines, guard + 1⟩
termination_by (guard, 0)

/-- An item; a map on the line of its dash is moved to where its other keys stand. -/
def parseItem (line : Line) (lines : List Line) (indent guard : Nat) : Parsed QJsonValue :=
  let rest := itemText line.text
  if rest.isEmpty then
    match lines with
    | [] => ⟨.null, [], guard⟩
    | next :: lines =>
      if indent < next.indent then parseBlock (next :: lines) next.indent guard
      else ⟨.null, next :: lines, guard⟩
  else if (keyColon rest).isSome then
    parseBlock (⟨indent + 2, rest, line.rawIdx⟩ :: lines) (indent + 2) guard
  else ⟨scalarOrFlow rest, lines, guard⟩
termination_by (guard, 2)

def parseMap (obj : QJsonObject) (lines : List Line) (indent guard : Nat) : Parsed QJsonObject :=
  match lines, guard with
  | [], guard => ⟨obj, [], guard⟩
  | line :: lines, 0 => ⟨obj, line :: lines, 0⟩
  | line :: lines, guard + 1 =>
    if line.indent = indent ∧ !startsWithDash line then
      match keyColon line.text with
      | none => parseMap obj lines indent guard
      | some c =>
        let key := unquote (QString.trimmed (line.text.take c))
        let entry := parseEntry line c lines indent guard
        parseMap (obj.insert key entry.value) entry.lines indent (min entry.guard guard)
    else ⟨obj, line :: lines, guard + 1⟩
termination_by (guard, 0)

def parseEntry (line : Line) (c : Nat) (lines : List Line) (indent guard : Nat) :
    Parsed QJsonValue :=
  let rest := QString.trimmed (line.text.drop (c + 1))
  match blockScalarIndicator digit rest with
  | some (style, chomp) =>
    let (text, endRaw) := readBlockScalar raw (line.rawIdx + 1) indent style chomp
    ⟨.string text, lines.dropWhile (fun l => decide (l.rawIdx < endRaw)), guard⟩
  | none =>
    if !rest.isEmpty then ⟨scalarOrFlow rest, lines, guard⟩
    else
      match lines with
      | [] => ⟨.null, [], guard⟩
      | next :: lines =>
        if indent < next.indent then parseBlock (next :: lines) next.indent guard
        else if next.indent = indent ∧ startsWithDash next then
          let items := parseSeq (next :: lines) indent guard
          ⟨.array items.value, items.lines, items.guard⟩
        else ⟨.null, next :: lines, guard⟩
termination_by (guard, 2)

def parseBlock (lines : List Line) (indent guard : Nat) : Parsed QJsonValue :=
  match lines with
  | [] => ⟨.null, [], guard⟩
  | line :: lines =>
    if guard = 0 then ⟨.null, line :: lines, guard⟩
    else if startsWithDash line ∧ line.indent = indent then
      let items := parseSeq (line :: lines) indent guard
      ⟨.array items.value, items.lines, items.guard⟩
    else
      let obj := parseMap [] (line :: lines) indent guard
      ⟨.object obj.value, obj.lines, obj.guard⟩
termination_by (guard, 1)

end

end Blocks

def kGuard : Nat := 100000

def parseYaml (digit : UInt16 → Bool) (yaml : QString) : QJsonValue :=
  let raw := rawLines yaml
  match tokenize raw with
  | [] => .null
  | line :: lines => (parseBlock digit raw (line :: lines) line.indent kGuard).value

end Nullock.NucleiYaml

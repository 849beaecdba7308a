import Nullock.HistoryReload
import Nullock.Maps
import Nullock.Runs

namespace Nullock.Oast
open QJsonObject
open SessionManager (toArray)

structure OastOrigin where
  rowId : Int := 0
  host : QString := []
  param : QString := []
  url : QString := []
  kind : QString := []
  note : QString := []

structure OastHit where
  id : Nat := 0
  atMs : Int := 0
  token : QString := []
  sourceIp : QString := []
  method : QString := []
  hostHeader : QString := []
  path : QString := []
  bodyBytes : Int := 0
  userAgent : QString := []
  bodyPreview : QString := []

abbrev Tokens := AList (fun _ : QString => OastOrigin)

structure WalkOrder where
  tokens : Tokens → List (Sigma fun _ : QString => OastOrigin)
  confirmed : List QString → List QString
  tokens_perm : ∀ m, (tokens m).Perm m.entries
  confirmed_perm : ∀ s, (confirmed s).Perm s

def kStateVersion : Int := 1

def tokenToJson (token : QString) (o : OastOrigin) : QJsonValue :=
  .object (ofMembers [
    ("token", .string token),
    ("rowId", .double o.rowId),
    ("host", .string o.host),
    ("param", .string o.param),
    ("url", .string o.url),
    ("kind", .string o.kind),
    ("note", .string o.note)])

def serializeState (W : WalkOrder) (tokens : Tokens) (confirmed : List QString) : QJsonObject :=
  ofMembers [
    ("version", .double kStateVersion),
    ("tokens", .array ((W.tokens tokens).map (fun e => tokenToJson e.1 e.2))),
    ("confirmed", .array ((W.confirmed confirmed).map .string))]

def originFromJson (e : QJsonObject) : OastOrigin where
  rowId := (e.value "rowId").toInt 0
  host := (e.value "host").toQString
  param := (e.value "param").toQString
  url := (e.value "url").toQString
  kind := (e.value "kind").toQString
  note := (e.value "note").toQString

def readToken (tokens : Tokens) (v : QJsonValue) : Tokens :=
  let e := v.toObject
  let token := (e.value "token").toQString
  if token.isEmpty then tokens else tokens.insert token (originFromJson e)

def addConfirmed (confirmed : List QString) (token : QString) : List QString :=
  if token ∈ confirmed then confirmed else token :: confirmed

def readConfirmed (confirmed : List QString) (v : QJsonValue) : List QString :=
  if v.toQString.isEmpty then confirmed else addConfirmed confirmed v.toQString

def deserializeState (obj : QJsonObject) : Tokens × List QString :=
  if (obj.value "version").toInt 0 ≠ kStateVersion then (∅, [])
  else
    ((toArray (obj.value "tokens")).foldl readToken ∅,
      (toArray (obj.value "confirmed")).foldl readConfirmed [])

structure Correlator where
  tokens : Tokens := ∅
  confirmed : List QString := []
  file : Option QByteArray := none

structure Report where
  rowId : Int
  severity : QString
  kind : QString
  summary : QString
  evidence : QString
  host : QString
  url : QString

def confirmedReport (origin : OastOrigin) (hit : OastHit) : Report :=
  let baseKind := if origin.kind.isEmpty then utf16 "ssrf-oast" else origin.kind
  { rowId := origin.rowId
    severity :=
      if (utf16 "log4shell").isPrefixOf baseKind || (utf16 "rce").isPrefixOf baseKind then
        utf16 "critical"
      else utf16 "high"
    kind := baseKind ++ utf16 "-confirmed"
    summary :=
      utf16 "Confirmed out-of-band interaction: target reached our OAST sink" ++
        (if origin.param.isEmpty then [] else utf16 " via '" ++ origin.param ++ utf16 "'") ++
        (if origin.note.isEmpty then [] else utf16 " [" ++ origin.note ++ utf16 "]")
    evidence :=
      utf16 "token=" ++ hit.token ++ utf16 " · callback from " ++ hit.sourceIp ++ utf16 " (" ++
        hit.method ++ utf16 " " ++ hit.hostHeader ++ hit.path ++ utf16 ") · UA=" ++
        hit.userAgent.take 80 ++ utf16 " · embedded-url=" ++ origin.url
    host := origin.host
    url := origin.url }

def kMaxTokens : Nat := 50000

section Correlator
variable (J : JsonLibrary) (W : WalkOrder)

def saveLocked (c : Correlator) : Correlator :=
  { c with file := some (J.compact (.object (serializeState W c.tokens c.confirmed))) }

def setPersistPath (file : Option QByteArray) : Correlator :=
  match file.bind J.fromJson with
  | some (.object o) =>
    { tokens := (deserializeState o).1, confirmed := (deserializeState o).2, file := file }
  | _ => { file := file }

def registerToken (c : Correlator) (token : QString) (origin : OastOrigin) : Correlator :=
  if token.isEmpty then c
  else
    let tokens := c.tokens.insert token origin
    saveLocked J W
      (if tokens.keys.length > kMaxTokens then { c with tokens := ∅, confirmed := [] }
        else { c with tokens := tokens })

def onHit (c : Correlator) (hit : OastHit) : Correlator × Option Report :=
  if hit.token.isEmpty then (c, none)
  else
    match c.tokens.lookup hit.token with
    | none => (c, none)
    | some origin =>
      if hit.token ∈ c.confirmed then (c, none)
      else
        (saveLocked J W { c with confirmed := addConfirmed c.confirmed hit.token },
          some (confirmedReport origin hit))

inductive OastAction where
  | registerToken (token : QString) (origin : OastOrigin) (rowId_int : IsInt32 origin.rowId)
  | onHit (hit : OastHit)
  | restart

def step (c : Correlator) : OastAction → Correlator × Option Report
  | .registerToken token origin _ => (registerToken J W c token origin, none)
  | .onHit hit => onHit J W c hit
  | .restart => (setPersistPath J c.file, none)

end Correlator

end Nullock.Oast

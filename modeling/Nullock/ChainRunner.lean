import Nullock.ChainParts
import Nullock.SessionVariables

namespace Nullock.ChainRunner
open Proxy SessionRules
open Intruder (SendResult ClientResponse)
open SessionVariables (ExtractLibrary findHeader toIntOk)

abbrev Vars := List (QString × QString)

def isNameStart (u : UInt16) : Bool :=
  (0x41 ≤ u && u ≤ 0x5A) || (0x61 ≤ u && u ≤ 0x7A) || u == 0x5F

def isNameChar (u : UInt16) : Bool := isNameStart u || (0x30 ≤ u && u ≤ 0x39)

section Substitution
variable {α : Type} (unit : α → UInt16)

def tokenAt : List α → Option (List α × List α)
  | a :: b :: rest =>
    if unit a = 0x7B ∧ unit b = 0x7B then
      let name := rest.takeWhile (fun c => isNameChar (unit c))
      match rest.dropWhile (fun c => isNameChar (unit c)) with
      | c :: d :: after =>
        if unit c = 0x7D ∧ unit d = 0x7D ∧ (name.head?.any (fun c => isNameStart (unit c))) = true
        then some (name, after)
        else none
      | _ => none
    else none
  | _ => none

/-- Placeholders replaced from the left; `skip` elements are passed over. -/
def substituteFrom (value : QString → Option (List α)) : Nat → List α → List α
  | _, [] => []
  | skip + 1, _ :: s => substituteFrom value skip s
  | 0, c :: s =>
    match tokenAt unit (c :: s) with
    | none => c :: substituteFrom value 0 s
    | some (name, _) =>
      (value (name.map unit)).getD ((c :: s).take (name.length + 4)) ++
        substituteFrom value (name.length + 3) s

end Substitution

def substituteStr (s : QString) (vars : Vars) : QString :=
  if wellFormed s then substituteFrom id (fun name => vars.lookup name) 0 s else s

def substituteBytes (s : QByteArray) (vars : Vars) : QByteArray :=
  substituteFrom UInt8.toUInt16 (fun name => (vars.lookup name).map toUtf8) 0 s

def sanitizeExtractedValue (v : QString) : QString := v.filter (fun c => 0x20 ≤ c || c == 0x09)

inductive From where
  | header
  | cookie
  | json
  | regex
  | status
deriving DecidableEq

structure Extract where
  var : QString
  source : From := .header
  key : QString := []

structure Step where
  name : QString
  host : QString
  port : Int := 443
  tls : Bool := true
  request : QByteArray
  extracts : List Extract := []

structure StepResult where
  name : QString
  ok : Bool := false
  status : Int := 0
  requestSize : Int := 0
  responseSize : Int := 0
  error : QString := []
  extracted : Vars := []
  responsePreview : QByteArray := []

structure Answer extends SendResult where
  rawResponse : QByteArray := []

/-- A request on the wire, with the step and the values it was made from. -/
structure Sent where
  step : Step
  vars : Vars
  host : QString
  request : QByteArray

structure Result where
  steps : List StepResult := []
  vars : Vars := []
  sent : List Sent := []

section Extraction
variable (L : TextLibrary) (X : ExtractLibrary)

/-- The value of the first segment of that name in a `Set-Cookie` field. -/
def findCookieValue (raw name : QString) : QString :=
  ((raw.splitOn 0x3B).findSome? (fun seg =>
    let s := QString.trimmed seg
    match indexOf (utf16 "=") s with
    | none => none
    | some eq =>
      if eq = 0 then none
      else if L.caseFold (QString.trimmed (s.take eq)) = L.caseFold name then
        some (QString.trimmed (s.drop (eq + 1)))
      else none)).getD []

def withoutRoot (path : QString) : QString :=
  if (utf16 "$.").isPrefixOf path then path.drop 2
  else if (utf16 "$").isPrefixOf path then path.drop 1
  else path

def jsonPathGet (body : QByteArray) (path : QString) : QString :=
  SessionVariables.jsonPathGet X body (withoutRoot path)

def extractOne (e : Extract) (resp : ClientResponse) : QString :=
  match e.source with
  | .header => findHeader L resp.headers e.key
  | .cookie =>
    ((resp.headers.filter (fun h => equalsIgnoreCase h.1 (utf16 "Set-Cookie"))).map
      (fun h => findCookieValue L h.2 e.key)).find? (fun v => !v.isEmpty) |>.getD []
  | .json => jsonPathGet X resp.bodyForInspection e.key
  | .regex =>
    if X.isValid e.key then
      match X.captures e.key (fromUtf8 (resp.bodyForInspection.take (1024 * 1024))) with
      | some (whole, groups) => groups.head?.getD whole
      | none => []
    else []
  | .status => fromLatin1 (QByteArray.number resp.statusCode)

def Vars.insert (vars : Vars) (name value : QString) : Vars :=
  (name, value) :: vars.filter (fun v => v.1 != name)

/-- The values of a response: those of the step, and all known then. -/
def extractAll (resp : ClientResponse) (state : Vars × Vars) (e : Extract) : Vars × Vars :=
  if e.var.isEmpty then state
  else
    let val := sanitizeExtractedValue (extractOne L X e resp)
    (state.1.insert e.var val, if val.isEmpty then state.2 else state.2.insert e.var val)

def runStep (net : List Sent → Answer) (r : Result) (step : Step) : Result × Bool :=
  let req := normalizeContentLength (substituteBytes step.request r.vars)
  let sent := r.sent ++ [⟨step, r.vars, substituteStr step.host r.vars, req⟩]
  let res := net sent
  if res.ok = false then
    ({ r with
      sent := sent
      steps := r.steps ++ [{
        name := step.name
        requestSize := asInt req.length
        error := if res.errorMessage.isEmpty then utf16 "send failed" else res.errorMessage }] },
      false)
  else
    let (extracted, vars) := step.extracts.foldl (extractAll L X res.parsed) ([], r.vars)
    ({ sent := sent
       vars := vars
       steps := r.steps ++ [{
        name := step.name
        ok := true
        status := res.parsed.statusCode
        requestSize := asInt req.length
        responseSize := asInt res.parsed.body.length
        extracted := extracted
        responsePreview := res.rawResponse }] },
      true)

def runFrom (net : List Sent → Answer) (continueOnError : Bool) (r : Result) :
    List Step → Result
  | [] => r
  | step :: steps =>
    let (next, ok) := runStep L X net r step
    if ok || continueOnError then runFrom net continueOnError next steps else next

def run (net : List Sent → Answer) (steps : List Step) (continueOnError : Bool) : Result :=
  runFrom L X net continueOnError {} steps

end Extraction

end Nullock.ChainRunner

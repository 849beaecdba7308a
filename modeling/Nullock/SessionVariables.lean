import Nullock.SessionRules
import Nullock.HttpResponses
import Nullock.Json

namespace Nullock.SessionVariables
open ScopeLogic HttpLogic SessionRulesLogic SessionRules Proxy

structure ExtractLibrary where
  isValid : QString → Bool
  /-- A match in a text, the dot matching everything: its whole and its groups. -/
  captures : QString → QString → Option (QString × List QString)
  fromJson : QByteArray → Option QJsonValue
  /-- A number that is no integer of 64 bits, with 17 digits. -/
  generalForm : Rat → QString

/-- Where a rule finds its value; a number of no place means nowhere. -/
inductive ExtractFrom where
  | header
  | cookie
  | jsonPath
  | regex
  | other
deriving DecidableEq

structure CapturingRule extends SessionRule where
  extractFrom : ExtractFrom := .header
  extractKey : QString := []

/-- A recorded login; what its steps bring is the network's answer. -/
structure SessionMacro where
  name : QString
  sessionHost : QString
  hasSteps : Bool := true
  loggedOutStatus : QString := []
  loggedOutBodyRegex : QString := []
deriving DecidableEq

structure InspectedResponse extends HttpResponse where
  decodedBody : QByteArray := []
  contentDecoded : Bool := false

def InspectedResponse.bodyForInspection (resp : InspectedResponse) : QByteArray :=
  if resp.contentDecoded || !resp.decodedBody.isEmpty then resp.decodedBody else resp.body

abbrev Variables := List (QString × QString)

section Extraction
variable (E : RegexEngine) (L : TextLibrary) (X : ExtractLibrary)

def findHeader (headers : List Header) (name : QString) : QString :=
  match headers.find? (fun h => L.caseFold h.1 = L.caseFold name) with
  | some h => h.2
  | none => []

/-- The value in the first segment of a `Set-Cookie` field, if it has that name. -/
def findCookieValue (raw name : QString) : QString :=
  let s := QString.trimmed (firstSection 0x3B raw)
  match indexOf (utf16 "=") s with
  | none => []
  | some eq =>
    if eq = 0 then []
    else if L.caseFold (QString.trimmed (s.take eq)) = L.caseFold name then
      QString.trimmed (s.drop (eq + 1))
    else []

def toIntOk (s : QString) : Option Int :=
  match QString.toLongLong s with
  | some n => if IsInt32 n then some n else none
  | none => none

/-- One segment of a path into a document; `none` ends the search with nothing. -/
def jsonStep (cur : QJsonValue) (seg : QString) : Option QJsonValue :=
  match cur with
  | .object o => some ((o.lookup seg).getD .undefined)
  | .array elems =>
    match toIntOk seg with
    | some idx => if idx < 0 then none else elems[idx.toNat]?
    | none => none
  | _ => none

def jsonLeaf : QJsonValue → QString
  | .string s => s
  | .double d =>
    if d.den = 1 ∧ -2 ^ 63 ≤ d.num ∧ d.num < 2 ^ 63 then fromLatin1 (QByteArray.number d.num)
    else X.generalForm d
  | .bool b => utf16 (if b then "true" else "false")
  | _ => []

def jsonPathGet (body : QByteArray) (path : QString) : QString :=
  match X.fromJson body with
  | none => []
  | some doc =>
    let root := match doc with
      | .array elems => .array elems
      | doc => .object doc.toObject
    let segments := (path.splitOn 0x2E).filter (fun seg => !seg.isEmpty)
    match segments.foldlM jsonStep root with
    | some leaf => jsonLeaf X leaf
    | none => []

def firstCapture (m : QString × List QString) : QString :=
  (m.2.find? (fun group => !group.isEmpty)).getD m.1

def responseIsLoggedOut (status : Int) (bodyText statusList bodyRegex : QString) : Bool :=
  (status != 0 && (splitSkipEmpty statusList).any (fun c =>
      toIntOk (QString.trimmed c) == some status)) ||
    (!bodyRegex.isEmpty && E.isValid ⟨bodyRegex, false⟩ && E.hasMatch ⟨bodyRegex, false⟩ bodyText)

def inspectedText (resp : InspectedResponse) : QString :=
  L.fromUtf8 (resp.bodyForInspection.take (64 * 1024))

def SessionMacro.sawLogout (m : SessionMacro) (resp : InspectedResponse) : Bool :=
  responseIsLoggedOut E resp.statusCode (inspectedText L resp) m.loggedOutStatus
    m.loggedOutBodyRegex

def extractedValue (resp : InspectedResponse) (r : CapturingRule) : QString :=
  match r.extractFrom with
  | .header => findHeader L resp.headers r.extractKey
  | .cookie =>
    -- The last cookie of that name in the response counts.
    resp.headers.foldl (fun val h =>
      if equalsIgnoreCase h.1 (utf16 "Set-Cookie") then
        let v := findCookieValue L h.2 r.extractKey
        if v.isEmpty then val else v
      else val) []
  | .jsonPath => jsonPathGet X resp.bodyForInspection r.extractKey
  | .regex =>
    if X.isValid r.extractKey then
      let buf := resp.bodyForInspection.take (1024 * 1024)
      ((X.captures r.extractKey (L.fromUtf8 buf)).map firstCapture).getD []
    else []
  | .other => []

/-- What one rule captures; `none` is a `continue` or an empty value. -/
def capturedVariable (req : ProxiedRequest) (resp : InspectedResponse) (r : CapturingRule) :
    Option (QString × QString) :=
  if !r.enabled then none
  else if !ruleMatches E r.toSessionRule req.host req.path then none
  else if r.variableName.isEmpty || r.extractKey.isEmpty then none
  else
    let val := extractedValue L X resp r
    if val.isEmpty then none else some (r.variableName, val)

/-- What a response's rules capture, unless it shows an expired session. -/
def capturedVariables (rules : List CapturingRule) (macros : List SessionMacro)
    (req : ProxiedRequest) (resp : InspectedResponse) : Variables :=
  if macros.any (fun m => m.sessionHost = req.host && m.sawLogout E L resp) then []
  else rules.filterMap (capturedVariable E L X req resp)

end Extraction

structure Thread where
  host : Option QString
  number : Nat
deriving DecidableEq

inductive Task where
  | store (newVars : Variables) (resp : InspectedResponse)
  | reauth (resp : InspectedResponse)
  | lookup (macroName : QString)
  | ingest (sessionHost : QString)
  | release

structure State where
  rules : List CapturingRule := []
  macros : List SessionMacro := []
  reauthInFlight : QString → Bool := fun _ => false
  lastReauthMs : QString → Int := fun _ => 0
  varsByHost : QString → QString → Option QString := fun _ _ => none
  tasks : Thread → Option Task := fun _ => none

inductive Event where
  | setRules (rules : List CapturingRule)
  | setMacros (macros : List SessionMacro)
  | clearAll
  | ingestVariables (host : QString) (vars : Variables)
  | runMacro (number : Nat) (name : QString)
  /-- A response arrives; its thread reads the rules and macros. -/
  | applyToResponse (number : Nat) (req : ProxiedRequest) (resp : InspectedResponse)
  /-- A thread takes a step, at that time and with that answer. -/
  | resume (thread : Thread) (now : Int) (answer : Variables)

def kCooldownMs : Int := 5000

namespace State

def setTask (s : State) (t : Thread) (task : Option Task) : State :=
  { s with tasks := Function.update s.tasks t task }

def insertAll (bag : QString → Option QString) (vars : Variables) : QString → Option QString :=
  vars.foldl (fun bag v => Function.update bag v.1 (some v.2)) bag

def mergeVars (s : State) (host : QString) (vars : Variables) : State :=
  { s with varsByHost := Function.update s.varsByHost host (insertAll (s.varsByHost host) vars) }

def ingestVariables (s : State) (host : QString) (vars : Variables) : State :=
  if host.isEmpty || vars.isEmpty then s else s.mergeVars host vars

def setInFlight (s : State) (host : QString) (inFlight : Bool) : State :=
  { s with reauthInFlight := Function.update s.reauthInFlight host inFlight }

def stampReauth (s : State) (host : QString) (now : Int) : State :=
  { s with lastReauthMs := Function.update s.lastReauthMs host now }

end State

/-- A run of a macro that a response started ends with leaving its host's gate. -/
def Thread.afterMacro (t : Thread) : Option Task := t.host.map (fun _ => .release)

section Steps
variable (E : RegexEngine) (L : TextLibrary) (X : ExtractLibrary)

def dueMacro (macros : List SessionMacro) (host : QString) (resp : InspectedResponse) :
    Option SessionMacro :=
  macros.find? (fun m => !m.sessionHost.isEmpty && m.sessionHost == host &&
    !(m.loggedOutStatus.isEmpty && m.loggedOutBodyRegex.isEmpty) && m.sawLogout E L resp)

/-- The gate before a refresh: one at a time for a host, not too soon. -/
def maybeReauth (s : State) (t : Thread) (host : QString) (resp : InspectedResponse)
    (now : Int) : State :=
  match dueMacro E L s.macros host resp with
  | none => s.setTask t none
  | some m =>
    if s.reauthInFlight host then s.setTask t none
    else if now - s.lastReauthMs host < kCooldownMs then s.setTask t none
    else
      let s := (s.setInFlight host true).stampReauth host now
      s.setTask t (if m.name.isEmpty then none else some (.lookup m.name))

def namedMacro (macros : List SessionMacro) (name : QString) : Option SessionMacro :=
  macros.find? (fun m => m.name == name)

def lookupMacro (s : State) (t : Thread) (name : QString) : State :=
  match namedMacro s.macros name with
  | some m => s.setTask t (if m.hasSteps then some (.ingest m.sessionHost) else t.afterMacro)
  | none => s.setTask t t.afterMacro

def resume (s : State) (t : Thread) (now : Int) (answer : Variables) : State :=
  match s.tasks t, t.host with
  | some (.store newVars resp), some host =>
    (s.mergeVars host newVars).setTask t (some (.reauth resp))
  | some (.reauth resp), some host => maybeReauth E L s t host resp now
  | some (.lookup name), _ => lookupMacro s t name
  | some (.ingest sessionHost), _ => (s.ingestVariables sessionHost answer).setTask t t.afterMacro
  | some .release, some host => (s.setInFlight host false).setTask t none
  | _, _ => s

def begin (s : State) (t : Thread) (task : Task) : State :=
  if (s.tasks t).isNone then s.setTask t (some task) else s

def step (s : State) : Event → State
  | .setRules rules => { s with rules := rules }
  | .setMacros macros => { s with macros := macros }
  | .clearAll => { s with varsByHost := fun _ _ => none }
  | .ingestVariables host vars => s.ingestVariables host vars
  | .runMacro number name => begin s ⟨none, number⟩ (.lookup name)
  | .applyToResponse number req resp =>
    let newVars := capturedVariables E L X s.rules s.macros req resp
    begin s ⟨some req.host, number⟩
      (if newVars.isEmpty then .reauth resp else .store newVars resp)
  | .resume t now answer => resume E L s t now answer

def State.applyToRequest (s : State) (tool : UInt32) (req : ProxiedRequest) :
    ProxiedRequest × Bool :=
  SessionRules.applyToRequest E L (s.rules.map CapturingRule.toSessionRule) s.varsByHost tool req

end Steps

end Nullock.SessionVariables

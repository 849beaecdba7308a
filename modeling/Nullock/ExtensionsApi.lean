import Nullock.HistoryRecords

namespace Nullock.ExtensionPerms
open ScopeLogic

def kMaxScan : Nat := 64 * 1024

def kModifyRequests : QString := utf16 "modify-requests"
def kModifyResponses : QString := utf16 "modify-responses"

/-- What is used of the character tables and of a search for groups. -/
structure TextTables where
  isLetter : UInt16 → Bool
  isLetterOrNumber : UInt16 → Bool
  globalMatch : QRegularExpression → QString → List QString

def canonical (tokenIn : QString) : QString :=
  let t := toLower (QString.trimmed tokenIn)
  if t.isEmpty then []
  else if t ∈ ["onrequest", "modify-request", "modify-requests", "mutate-request",
      "mutate-requests"].map utf16 then kModifyRequests
  else if t ∈ ["onresponse-mutate", "modify-response", "modify-responses", "mutate-response",
      "mutate-responses"].map utf16 then kModifyResponses
  else t

section Parsing
variable (T : TextTables)

def isDeclarationToken (t : QString) : Bool :=
  match t with
  | [] => false
  | c :: _ => T.isLetter c &&
      t.all (fun c => T.isLetterOrNumber c || c == 0x2D || c == 0x5F || c == 0x2E)

def permissionLine : QRegularExpression where
  pattern := utf16 "(?im)^[ \\t]*//[ \\t]*@?nullock[:-]permissions[ \\t:]*([^\\r\\n]+)"

def isTokenSeparator (c : UInt16) : Bool := c == 0x2C || c == 0x20 || (0x09 ≤ c && c ≤ 0x0D)

def lineTokens (rest : QString) : List QString :=
  (rest.splitOnP isTokenSeparator).filter (fun t => !t.isEmpty)

def lineGrants (rest : QString) : List QString :=
  (((lineTokens rest).takeWhile (isDeclarationToken T)).map canonical).filter (fun c => !c.isEmpty)

def parsePermissions (jsSource : QString) : List QString :=
  ((T.globalMatch permissionLine (jsSource.take kMaxScan)).flatMap (lineGrants T)).dedup

end Parsing

def requiresGrant (capability : QString) : Bool :=
  capability == kModifyRequests || capability == kModifyResponses

def isAllowed (granted : List QString) (capability : QString) : Bool :=
  if !requiresGrant capability then true else granted.contains capability

theorem isAllowed_modify (h : requiresGrant capability = true) (granted : List QString) :
    isAllowed granted capability = granted.contains capability := by
  rw [isAllowed, h]
  rfl

end Nullock.ExtensionPerms

namespace Nullock.ExtensionsApi
open Proxy HttpLogic ExtensionPerms

structure JsEngine where
  Value : Type
  string : QString → Value
  int : Int → Value
  /-- A new array with its elements set. -/
  array : List Value → Value
  /-- A new object with its properties set one after another. -/
  object : List (QString × Value) → Value
  property : Value → QString → Value
  element : Value → Nat → Value
  toQString : Value → QString
  toInt : Value → Int
  isArray : Value → Bool
  isObject : Value → Bool

/-- What the engine promises about values that are made here. -/
structure JsEngine.Documented (E : JsEngine) : Prop where
  property_object : ∀ members k v, (members.map Prod.fst).Nodup → (k, v) ∈ members →
    E.property (E.object members) k = v
  element_array : ∀ vs i v, vs[i]? = some v → E.element (E.array vs) i = v
  length_array : ∀ vs, vs.length < 2 ^ 31 →
    E.toInt (E.property (E.array vs) (utf16 "length")) = vs.length
  isArray_array : ∀ vs, E.isArray (E.array vs) = true
  toQString_string : ∀ s, E.toQString (E.string s) = s
  toInt_int : ∀ n, IsInt32 n → E.toInt (E.int n) = n

section Headers
variable (E : JsEngine)

def kSeparators : QString := utf16 "\"(),/:;<=>?@[\\]\x7b\x7d"

def isValidHeaderName (name : QString) : Bool :=
  !name.isEmpty && name.length ≤ 256 &&
    name.all (fun c => 0x21 ≤ c && c ≤ 0x7E && !kSeparators.contains c)

def isValidHeaderValue (value : QString) : Bool :=
  value.length ≤ 8192 && value.all (fun c => 0x20 ≤ c || c == 0x09)

def kMaxHeaders : Nat := 256

def takeHeader (arr : E.Value) (out : List Header) (i : Nat) : List Header :=
  if out.length < kMaxHeaders then
    let pair := E.element arr i
    if !E.isArray pair || E.toInt (E.property pair (utf16 "length")) < 2 then out
    else
      let k := E.toQString (E.element pair 0)
      let v := E.toQString (E.element pair 1)
      if !isValidHeaderName k || !isValidHeaderValue v then out else out ++ [(k, v)]
  else out

def headersFromJs (arr : E.Value) : List Header :=
  if !E.isArray arr then []
  else
    (List.range (E.toInt (E.property arr (utf16 "length"))).toNat).foldl (takeHeader E arr) []

def headersToJs (headers : List Header) : E.Value :=
  E.array (headers.map (fun h => E.array [E.string h.1, E.string h.2]))

end Headers

abbrev Handler (E : JsEngine) : Type := E.Value → E.Value × Option E.Value

structure ResponseHandler (E : JsEngine) where
  fn : Handler E
  mayMutate : Bool

section Mutation
variable (E : JsEngine)

def requestEntry (req : ProxiedRequest) : E.Value :=
  E.object [
    (utf16 "method", E.string req.method),
    (utf16 "host", E.string req.host),
    (utf16 "port", E.int req.port),
    (utf16 "path", E.string req.path),
    (utf16 "headers", headersToJs E req.headers),
    (utf16 "bodyText", E.string (QString.fromUtf8 req.body))]

/-- One handler of the chain: a returned object takes the place of the entry. -/
def callRequestHandler (entry : E.Value) (handler : Handler E) : E.Value :=
  match handler entry with
  | (edited, none) => edited
  | (edited, some r) => if E.isObject r then r else edited

def methodOk (m : QString) : Bool :=
  !m.isEmpty && m.length ≤ 32 && m.all (fun c => 0x41 ≤ c && c ≤ 0x5A)

def pathOk (p : QString) : Bool :=
  !p.isEmpty && p.length ≤ 8192 && p.all (fun c => 0x20 < c)

def readBack (req : ProxiedRequest) (entry : E.Value) : ProxiedRequest :=
  let m := E.toQString (E.property entry (utf16 "method"))
  let p := E.toQString (E.property entry (utf16 "path"))
  { req with
    method := if methodOk m then m else req.method
    path := if pathOk p then p else req.path
    headers := headersFromJs E (E.property entry (utf16 "headers"))
    body := toUtf8 (E.toQString (E.property entry (utf16 "bodyText"))) }

def doMutateRequest (handlers : List (Handler E)) (req : ProxiedRequest) : ProxiedRequest :=
  if handlers.isEmpty then req
  else readBack E req (handlers.foldl (callRequestHandler E) (requestEntry E req))

def buildEntry (req : ProxiedRequest) (wasTls : Bool) (resp : HttpResponse) : E.Value :=
  E.object [
    (utf16 "method", E.string req.method),
    (utf16 "url", E.string (utf16 (if wasTls then "https://" else "http://") ++ req.host ++
      (if req.port = 80 ∨ req.port = 443 then [] else utf16 ":" ++ QString.number (req.port : Nat)) ++
      req.path)),
    (utf16 "status", E.int resp.statusCode),
    (utf16 "reasonPhrase", E.string resp.reasonPhrase),
    (utf16 "headers", headersToJs E resp.headers),
    (utf16 "bodyText", E.string (QString.fromUtf8 resp.body)),
    (utf16 "responseSize", E.int resp.body.length)]

def reasonOk (rp : QString) : Bool := rp.length ≤ 128 && rp.all (fun c => 0x20 ≤ c)

def applyBack (resp : HttpResponse) (e : E.Value) : HttpResponse :=
  let sc := E.toInt (E.property e (utf16 "status"))
  let rp := E.toQString (E.property e (utf16 "reasonPhrase"))
  let returned := E.toQString (E.property e (utf16 "bodyText"))
  { resp with
    statusCode := if 100 ≤ sc ∧ sc < 600 then sc else resp.statusCode
    reasonPhrase := if reasonOk rp then rp else resp.reasonPhrase
    headers := headersFromJs E (E.property e (utf16 "headers"))
    body := if returned ≠ QString.fromUtf8 resp.body then toUtf8 returned else resp.body }

def callResponseHandler (req : ProxiedRequest) (wasTls : Bool) (resp : HttpResponse)
    (h : ResponseHandler E) : HttpResponse :=
  match h.fn (buildEntry E req wasTls resp) with
  | (_, none) => resp
  | (arg, some r) =>
    if !h.mayMutate then resp else applyBack E resp (if E.isObject r then r else arg)

def doMutateResponse (handlers : List (ResponseHandler E)) (req : ProxiedRequest) (wasTls : Bool)
    (resp : HttpResponse) : HttpResponse :=
  if handlers.isEmpty then resp
  else handlers.foldl (callResponseHandler E req wasTls) resp

end Mutation

inductive Registration (E : JsEngine) where
  | onRequest (callback : Handler E)
  | onResponse (callback : Handler E)
  | notCallable

structure Script (E : JsEngine) where
  source : QString
  registers : List (Registration E)

structure Extensions (E : JsEngine) where
  currentGrants : List QString := []
  onRequestHandlers : List (Handler E) := []
  onResponseHandlers : List (ResponseHandler E) := []

section Loading
variable {E : JsEngine} (T : TextTables)

def register (x : Extensions E) : Registration E → Extensions E
  | .onRequest callback =>
    if !isAllowed x.currentGrants kModifyRequests then x
    else { x with onRequestHandlers := x.onRequestHandlers ++ [callback] }
  | .onResponse callback =>
    { x with
      onResponseHandlers := x.onResponseHandlers ++
        [⟨callback, isAllowed x.currentGrants kModifyResponses⟩] }
  | .notCallable => x

def evaluate (x : Extensions E) (s : Script E) : Extensions E :=
  s.registers.foldl register { x with currentGrants := parsePermissions T s.source }

def loadAll (scripts : List (Script E)) : Extensions E :=
  { scripts.foldl (evaluate T) {} with currentGrants := [] }

end Loading

end Nullock.ExtensionsApi

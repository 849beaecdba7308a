import Nullock.HeadBoundary
import Nullock.JsonDocuments
import Nullock.CookieJar
import Nullock.Base64
import Nullock.SessionVariables

namespace Nullock.NetworkingLogic
open SessionRules

section
variable (L : TextLibrary)

/-- The value of a `Host` line naming the old host, for the new one. -/
def hostValue (oldHost newHost value : QString) : Option QString :=
  if L.caseFold value = L.caseFold oldHost then some newHost
  else if oldHost.length < value.length ∧
      L.caseFold (value.take oldHost.length) = L.caseFold oldHost ∧
      value[oldHost.length]? = some 0x3A then
    some (newHost ++ value.drop oldHost.length)
  else none

/-- The lines with their first `Host` line rewritten; `none` leaves all as it is. -/
def rewriteHostLines (oldHost newHost : QString) : List QString → Option (List QString)
  | [] => none
  | line :: rest =>
    let cr := line.getLast? == some 0x0D
    let bare := if cr then line.dropLast else line
    if bare.isEmpty then none
    else
      match indexOf (utf16 ":") bare with
      | none => (rewriteHostLines oldHost newHost rest).map (line :: ·)
      | some colon =>
        if colon = 0 ∨
            equalsIgnoreCase (QString.trimmed (bare.take colon)) (utf16 "Host") = false then
          (rewriteHostLines oldHost newHost rest).map (line :: ·)
        else
          (hostValue L oldHost newHost (QString.trimmed (bare.drop (colon + 1)))).map
            (fun value =>
              (bare.take (colon + 1) ++ utf16 " " ++ value ++ if cr then [0x0D] else []) :: rest)

def rewriteHostHeader (requestText oldHost newHost : QString) : QString :=
  let oh := QString.trimmed oldHost
  if oh.isEmpty ∨ oldHost = newHost then requestText
  else
    match requestText.splitOn 0x0A with
    | [] => requestText
    | first :: rest =>
      match rewriteHostLines L oh newHost rest with
      | none => requestText
      | some lines => [0x0A].intercalate (first :: lines)

end

end Nullock.NetworkingLogic

namespace Nullock.Repeater
open SessionRules QJsonObject
open SessionManager (toArray)
open SessionVariables (InspectedResponse)

structure RepeaterHistoryEntry where
  request : QString
  requestLatin1 : Bool
  response : QString
  rawResponse : QByteArray
  responseBody : QByteArray
  responseBodyDecoded : Bool
  statusLine : QString
  sentAt : QString
  elapsedMs : Int
  responseBytes : Int

structure RepeaterTab where
  name : QString := []
  host : QString := []
  port : Int := 443
  useTls : Bool := true
  requestText : QString := []
  requestLatin1 : Bool := false
  responseText : QString := []
  rawResponse : QByteArray := []
  responseBody : QByteArray := []
  responseBodyDecoded : Bool := false
  statusLine : QString := []
  elapsedMs : Int := -1
  responseBytes : Int := -1
  notes : QString := []
  history : List RepeaterHistoryEntry := []

def makeBlankTab (name : QString) : RepeaterTab := { name := name }

def kMaxTabHistory : Nat := 100

def responseDisplay (wire body : QByteArray) : QString :=
  fromUtf8 (match indexOf (latin1 "\r\n\r\n") wire with
    | none => wire
    | some stop => wire.take (stop + 4) ++ body)

def autoTabName (host request : QString) : QString :=
  let line := QString.trimmed (firstSection 0x0A request)
  let firstLine := if line.length > 60 then line.take 57 ++ utf16 "..." else line
  if firstLine.isEmpty then (if host.isEmpty then utf16 "tab" else host)
  else (firstLine ++ utf16 " @ " ++ host).take 48

/-- What came of a send: the final response, and whether the send was stopped meanwhile. -/
structure Exchange where
  ok : Bool
  parsed : InspectedResponse
  rawResponse : QByteArray
  errorMessage : QString
  elapsedMs : Int
  redirectHops : Nat
  cancelled : Bool
  sentAt : QString

namespace RepeaterTab

def withHost (L : TextLibrary) (h : QString) (t : RepeaterTab) : RepeaterTab :=
  if h = t.host then t
  else { t with
    host := h
    requestText := NetworkingLogic.rewriteHostHeader L t.requestText t.host h }

def withPort (p : Int) (t : RepeaterTab) : RepeaterTab := { t with port := p }

def withTls (tls : Bool) (t : RepeaterTab) : RepeaterTab :=
  if tls = t.useTls then t
  else { t with
    useTls := tls
    port := if t.port = 80 ∧ tls = true then 443
      else if t.port = 443 ∧ tls = false then 80
      else t.port }

def withRequestBytes (bytes : QByteArray) (t : RepeaterTab) : RepeaterTab :=
  { t with
    requestText := (NetworkingLogic.decodeRequestText bytes).1
    requestLatin1 := (NetworkingLogic.decodeRequestText bytes).2 }

def withRequestText (text : QString) (t : RepeaterTab) : RepeaterTab :=
  { t with requestText := text }

def withRequestLatin1 (enabled : Bool) (t : RepeaterTab) : RepeaterTab :=
  { t with requestLatin1 := enabled }

def cleared (t : RepeaterTab) : RepeaterTab :=
  { t with
    requestText := []
    requestLatin1 := false
    responseText := []
    rawResponse := []
    responseBody := []
    responseBodyDecoded := false
    statusLine := []
    elapsedMs := -1
    responseBytes := -1 }

def loaded (h : RepeaterHistoryEntry) (t : RepeaterTab) : RepeaterTab :=
  { t with
    requestText := h.request
    requestLatin1 := h.requestLatin1
    responseText := h.response
    rawResponse := h.rawResponse
    responseBody := h.responseBody
    responseBodyDecoded := h.responseBodyDecoded
    statusLine := h.statusLine
    elapsedMs := h.elapsedMs
    responseBytes := h.responseBytes }

def ofHistory (host : QString) (port : Int) (tls : Bool) (bytes : QByteArray) : RepeaterTab :=
  let t := withRequestBytes bytes { host := host, port := port, useTls := tls }
  { t with name := autoTabName host t.requestText }

def withHistoryRow (host : QString) (port : Int) (tls : Bool) (bytes : QByteArray)
    (t : RepeaterTab) : RepeaterTab :=
  let t := withRequestBytes bytes { t with host := host, port := port, useTls := tls }
  if t.name.isEmpty || (utf16 "tab ").isPrefixOf t.name then
    { t with name := autoTabName host t.requestText }
  else t

def entry (t : RepeaterTab) (sentAt : QString) : RepeaterHistoryEntry where
  request := t.requestText
  requestLatin1 := t.requestLatin1
  response := t.responseText
  rawResponse := t.rawResponse
  responseBody := t.responseBody
  responseBodyDecoded := t.responseBodyDecoded
  statusLine := t.statusLine
  sentAt := sentAt
  elapsedMs := t.elapsedMs
  responseBytes := t.responseBytes

/-- An entry put behind the history, which loses its oldest ones above the limit. -/
def recorded (sentAt : QString) (t : RepeaterTab) : RepeaterTab :=
  let history := t.history ++ [t.entry sentAt]
  { t with history := history.drop (history.length - kMaxTabHistory) }

section
variable (L : TextLibrary)

def finalStatus (x : Exchange) : QString :=
  (if x.ok then
    L.arg (L.arg (L.arg (utf16 "%1 %2 %3") x.parsed.httpVersion)
      (QString.number x.parsed.statusCode)) x.parsed.reasonPhrase
  else utf16 "error") ++
  (if x.redirectHops > 0 then
    utf16 "  [followed " ++ QString.number x.redirectHops ++ utf16 " redirect" ++
      (if x.redirectHops = 1 then [] else utf16 "s") ++ utf16 "]"
  else []) ++
  (if x.cancelled then utf16 "  [stopped after current response]" else [])

def answered (x : Exchange) (t : RepeaterTab) : RepeaterTab :=
  { t with
    elapsedMs := x.elapsedMs
    responseBytes := x.rawResponse.length
    rawResponse := x.rawResponse
    responseBody := x.parsed.bodyForInspection
    responseBodyDecoded := x.parsed.contentDecoded || !x.parsed.decodedBody.isEmpty
    responseText :=
      if x.ok then responseDisplay x.rawResponse x.parsed.bodyForInspection
      else utf16 "[error] " ++ x.errorMessage
    statusLine := finalStatus L x }

def unencodable (t : RepeaterTab) : RepeaterTab :=
  { t with
    responseText := utf16
      "[error] Request contains characters outside Latin-1. Select UTF-8 encoding."
    statusLine := utf16 "Encoding error"
    elapsedMs := 0
    responseBytes := 0
    rawResponse := []
    responseBody := []
    responseBodyDecoded := false }

/-- The worker's send; `none` if it was stopped before it began. -/
def send (outcome : Option Exchange) (t : RepeaterTab) : RepeaterTab :=
  match outcome with
  | none => t
  | some x =>
    if t.host.isEmpty || t.requestText.isEmpty then t
    else if (NetworkingLogic.encodeRequestText L t.requestText t.requestLatin1).isEmpty then
      unencodable t
    else recorded x.sentAt (answered L x t)

end

/-- What a completed send brings into the tab; what was edited meanwhile stays. -/
def store (completed t : RepeaterTab) : RepeaterTab :=
  { t with
    responseText := completed.responseText
    statusLine := completed.statusLine
    rawResponse := completed.rawResponse
    responseBody := completed.responseBody
    responseBodyDecoded := completed.responseBodyDecoded
    elapsedMs := completed.elapsedMs
    responseBytes := completed.responseBytes
    history := completed.history }

def copyOf (t : RepeaterTab) : RepeaterTab :=
  { t with
    name := t.name ++ utf16 " (copy)"
    responseText := []
    rawResponse := []
    responseBody := []
    responseBodyDecoded := false
    statusLine := []
    elapsedMs := -1
    responseBytes := -1 }

def variantToLongLong : QJsonValue → Int
  | .double d => if d.den = 1 then d.num else (d + 1 / 2).floor
  | .string s => (QString.toLongLong s).getD 0
  | .bool b => if b then 1 else 0
  | _ => 0

def ofJson (o : QJsonObject) : RepeaterTab :=
  let wire := QByteArray.fromBase64 (toLatin1 (o.value "responseWireBase64").toQString)
  let body := QByteArray.fromBase64 (toLatin1 (o.value "responseBodyBase64").toQString)
  let error := (o.value "responseError").toQString
  { name := (o.value "name").toQString
    host := (o.value "host").toQString
    port := (o.value "port").toInt 443
    useTls := (o.value "tls").toBool true
    requestText := (o.value "request").toQString
    requestLatin1 := (o.value "requestLatin1").toBool false
    notes := (o.value "notes").toQString
    statusLine := (o.value "statusLine").toQString
    rawResponse := wire
    responseBody := body
    responseBodyDecoded := (o.value "responseBodyDecoded").toBool false
    responseText := if error.isEmpty then responseDisplay wire body else error
    elapsedMs := if o.contains "elapsedMs" then variantToLongLong (o.value "elapsedMs") else -1
    responseBytes := (o.value "responseBytes").toInt (-1) }

end RepeaterTab

/-- A tab with the number of its making, by which the tabs are told apart here. -/
structure Slot where
  id : Nat
  tab : RepeaterTab

def Slot.map (f : RepeaterTab → RepeaterTab) (s : Slot) : Slot := { s with tab := f s.tab }

/-- A request on its way: where its tab stands, and the copy of it that the worker has. -/
structure Pending where
  tabIndex : Nat
  id : Nat
  tab : RepeaterTab

structure Tabs where
  tabs : List Slot := [⟨0, makeBlankTab (utf16 "tab 1")⟩]
  active : Nat := 0
  pending : Option Pending := none
  nextId : Nat := 1

namespace Tabs

def busy (r : Tabs) : Bool := r.pending.isSome

def append (r : Tabs) (t : RepeaterTab) : Tabs :=
  { r with
    tabs := r.tabs ++ [⟨r.nextId, t⟩]
    nextId := r.nextId + 1 }

def activeTab_ (r : Tabs) : Tabs :=
  if r.tabs.length ≤ r.active then
    { (if r.tabs.isEmpty then r.append (makeBlankTab (utf16 "tab 1")) else r) with active := 0 }
  else r

def slotAt (r : Tabs) (i : Nat) : Option Slot := r.tabs[i]?

def activeSlot (r : Tabs) : Option Slot := r.slotAt r.active

def modifyAt (r : Tabs) (i : Nat) (f : RepeaterTab → RepeaterTab) : Tabs :=
  { r with tabs := r.tabs.modify i (Slot.map f) }

def modifyActive (r : Tabs) (f : RepeaterTab → RepeaterTab) : Tabs :=
  r.activeTab_.modifyAt r.activeTab_.active f

def setHost (L : TextLibrary) (r : Tabs) (h : QString) : Tabs :=
  r.modifyActive (RepeaterTab.withHost L h)

def setPort (r : Tabs) (p : Int) : Tabs := r.modifyActive (RepeaterTab.withPort p)

def setUseTls (r : Tabs) (tls : Bool) : Tabs := r.modifyActive (RepeaterTab.withTls tls)

def setRequestBytes (r : Tabs) (bytes : QByteArray) : Tabs :=
  r.modifyActive (RepeaterTab.withRequestBytes bytes)

def setRequestText (r : Tabs) (text : QString) : Tabs :=
  r.modifyActive (RepeaterTab.withRequestText text)

def setRequestLatin1 (r : Tabs) (enabled : Bool) : Tabs :=
  r.modifyActive (RepeaterTab.withRequestLatin1 enabled)

def loadFromHistory (r : Tabs) (host : QString) (port : Int) (tls : Bool) (bytes : QByteArray) :
    Tabs :=
  if host.isEmpty then r else r.modifyActive (RepeaterTab.withHistoryRow host port tls bytes)

def clear (r : Tabs) : Tabs := if r.busy then r else r.modifyActive RepeaterTab.cleared

def clearAll (r : Tabs) : Tabs :=
  if r.busy then r
  else { ({ r with tabs := [] } : Tabs).append (makeBlankTab (utf16 "tab 1")) with active := 0 }

def sendAsync (r : Tabs) : Tabs :=
  if r.busy then r
  else
    let r := r.activeTab_
    match r.activeSlot with
    | none => r
    | some s =>
      if s.tab.host.isEmpty || s.tab.requestText.isEmpty then r
      else { r with pending := some ⟨r.active, s.id, s.tab⟩ }

def completed (L : TextLibrary) (r : Tabs) (outcome : Option Exchange) : Tabs :=
  match r.pending with
  | none => r
  | some p =>
    { r.modifyAt p.tabIndex (RepeaterTab.store (RepeaterTab.send L outcome p.tab)) with
      pending := none }

def loadHistoryAt (r : Tabs) (index : Int) : Tabs :=
  let r := r.activeTab_
  match r.activeSlot with
  | none => r
  | some s =>
    if index < 0 then r
    else
      match s.tab.history[index.toNat]? with
      | none => r
      | some h => r.modifyActive (RepeaterTab.loaded h)

def qBound (min val max : Int) : Int := if val < min then min else if max < val then max else val

def importState (r : Tabs) (state : QJsonObject) : Tabs :=
  if r.busy then r
  else
    let restored := (toArray (state.value "tabs")).map
      (fun v => RepeaterTab.ofJson v.toObject)
    let restored := if restored.isEmpty then [makeBlankTab (utf16 "tab 1")] else restored
    { (restored.foldl append { r with tabs := [] }) with
      active := (qBound 0 ((state.value "activeTab").toInt 0) (restored.length - 1)).toNat }

def appendActive (r : Tabs) (t : RepeaterTab) : Tabs :=
  { r.append t with active := r.tabs.length }

def addTab (r : Tabs) (name : QString) : Tabs :=
  r.appendActive (makeBlankTab
    (if name.isEmpty then utf16 "tab " ++ QString.number (r.tabs.length + 1) else name))

def addTabFromHistory (r : Tabs) (host : QString) (port : Int) (tls : Bool) (bytes : QByteArray) :
    Tabs :=
  if host.isEmpty then r else r.appendActive (RepeaterTab.ofHistory host port tls bytes)

def position (r : Tabs) (index : Int) : Option Nat :=
  if index < 0 ∨ (r.tabs.length : Int) ≤ index then none else some index.toNat

def closeTab (r : Tabs) (index : Int) : Tabs :=
  if r.busy then r
  else
    match r.position index with
    | none => r
    | some i =>
      let closed := { r with tabs := r.tabs.eraseIdx i }
      let kept := if closed.tabs.isEmpty then closed.append (makeBlankTab (utf16 "tab 1"))
        else closed
      if kept.tabs.length ≤ kept.active then { kept with active := kept.tabs.length - 1 }
      else kept

def setActiveTab (r : Tabs) (index : Int) : Tabs :=
  match r.position index with
  | none => r
  | some i => { r with active := i }

def renameTab (r : Tabs) (index : Int) (name : QString) : Tabs :=
  match r.position index with
  | none => r
  | some i => r.modifyAt i (fun t => { t with name := name })

def setTabNotes (r : Tabs) (index : Int) (notes : QString) : Tabs :=
  match r.position index with
  | none => r
  | some i => r.modifyAt i (fun t => { t with notes := notes })

def duplicateTab (r : Tabs) (index : Int) : Tabs :=
  match r.position index with
  | none => r
  | some i =>
    match r.slotAt i with
    | none => r
    | some s => r.appendActive (RepeaterTab.copyOf s.tab)

end Tabs

end Nullock.Repeater

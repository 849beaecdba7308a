import Nullock.ProjectStore
import Nullock.Runs

namespace Nullock.FrontEnd

def ProxyModel.lastId (m : ProxyModel) : Int := m.firstId + m.entries.length - 1

def ProxyModel.Counts (m : ProxyModel) : Prop := m.firstId + m.entries.length = m.nextId

theorem ProxyModel.Counts.addResponse {m : ProxyModel} (h : m.Counts) (req : Proxy.HistoryRequest)
    (resp : Proxy.HistoryResponse) : (m.addResponse req resp).Counts := by
  simp only [Counts, ProxyModel.addResponse, List.length_drop, List.length_append,
    List.length_singleton] at h ⊢
  omega

end Nullock.FrontEnd

namespace Nullock.Core
open Proxy FrontEnd ProjectStore

structure Alert where
  severity : QString
  kind : QString
  summary : QString
  evidence : QString

structure Enrichment where
  cwe : QString
  owasp : QString
  cvssScore : Rat
  cvssVector : QString
  compliance : List QString
  fixSummary : QString
  confidence : QString

structure Checks where
  checkResponse : HistoryRequest → HistoryResponse → List Alert
  enrich : Alert → Enrichment

structure PassiveScanner where
  nextRowId : Int := 1
  nextId : Int := 1
  findings : List Finding := []

namespace PassiveScanner
variable (checks : Checks)

def kCap : Nat := 1000

def findingUrl (req : HistoryRequest) (resp : HistoryResponse) : QString :=
  utf16 (if resp.wasTls then "https" else "http") ++ utf16 "://" ++ req.host ++
    (if req.port = 80 ∨ req.port = 443 then [] else utf16 ":" ++ QString.number (req.port : Nat)) ++
    (if (utf16 "/").isPrefixOf req.path then req.path else utf16 "/" ++ req.path)

def newFinding (s : PassiveScanner) (rowId : Int) (req : HistoryRequest) (resp : HistoryResponse)
    (now : QDateTime) (a : Alert) : Finding :=
  let e := checks.enrich a
  { id := s.nextId
    rowId := rowId
    ts := now
    severity := a.severity
    kind := a.kind
    summary := a.summary
    evidence := a.evidence
    host := req.host
    url := findingUrl req resp
    cwe := e.cwe
    owasp := e.owasp
    cvssScore := e.cvssScore
    cvssVector := e.cvssVector
    compliance := e.compliance
    fixSummary := e.fixSummary
    confidence := e.confidence }

def addFinding (rowId : Int) (req : HistoryRequest) (resp : HistoryResponse) (now : QDateTime)
    (r : PassiveScanner × List Finding) (a : Alert) : PassiveScanner × List Finding :=
  let f := newFinding checks r.1 rowId req resp now a
  let findings := r.1.findings ++ [f]
  ({ r.1 with
      nextId := r.1.nextId + 1
      findings := if findings.length > kCap then findings.drop 1 else findings },
    r.2 ++ [f])

def checkResponse (s : PassiveScanner) (rowId : Int) (req : HistoryRequest)
    (resp : HistoryResponse) (now : QDateTime) : PassiveScanner × List Finding :=
  (checks.checkResponse req resp).foldl (addFinding checks rowId req resp now) (s, [])

def audits (req : HistoryRequest) : Bool := !(utf16 "WS").isPrefixOf req.method

def onResponseReceived (s : PassiveScanner) (req : HistoryRequest) (resp : HistoryResponse)
    (now : QDateTime) : PassiveScanner × List Finding :=
  if audits req then
    checkResponse checks { s with nextRowId := s.nextRowId + 1 } s.nextRowId req resp now
  else (s, [])

variable {checks}

theorem rowId_checkResponse (s : PassiveScanner) (rowId : Int) (req : HistoryRequest)
    (resp : HistoryResponse) (now : QDateTime) :
    ((checkResponse checks s rowId req resp now).2.map Finding.rowId) =
      (checks.checkResponse req resp).map (fun _ => rowId) := by
  rw [checkResponse]
  have hrows : ∀ (alerts : List Alert) (r : PassiveScanner × List Finding),
      (alerts.foldl (addFinding checks rowId req resp now) r).2.map Finding.rowId =
        r.2.map Finding.rowId ++ alerts.map (fun _ => rowId) := by
    intro alerts
    induction alerts with
    | nil => exact fun r => (List.append_nil _).symm
    | cons a alerts ih =>
      intro r
      rw [List.foldl_cons, ih, List.map_cons]
      simp only [addFinding, newFinding, List.map_append, List.map_cons, List.map_nil,
        List.append_assoc, List.singleton_append]
  exact hrows _ _

end PassiveScanner

inductive Receiver where
  | model
  | store
  | scanner
deriving DecidableEq

structure Progress where
  transaction : Nat := 0
  receiver : Receiver := .model

def Progress.next (p : Progress) : Progress :=
  match p.receiver with
  | .model => { p with receiver := .store }
  | .store => { p with receiver := .scanner }
  | .scanner => ⟨p.transaction + 1, .model⟩

/-- The main thread, its progress with each worker, and the numbers given. -/
structure Wiring (ι : Type) where
  world : World
  scanner : PassiveScanner := {}
  progress : ι → Progress := fun _ => {}
  modelIds : List ((ι × Nat) × Nat) := []
  rowIds : List ((ι × Nat) × Nat) := []
  raised : List ((ι × Nat) × Finding) := []

structure Delivery (ι : Type) where
  worker : ι
  now : QDateTime
  outcome : WriteOutcome
  inserts : Bool

section Wiring
variable {ι : Type} [DecidableEq ι] (J : JsonLibrary) (D : DateTimes) (checks : Checks)
variable (tx : ι → Nat → HistoryRequest × HistoryResponse)

namespace Wiring

def toModel (s : Wiring ι) (t : ι × Nat) : Wiring ι :=
  { s with
    world := { s.world with
      model := s.world.model.addResponse (tx t.1 t.2).1 (tx t.1 t.2).2 }
    modelIds := s.modelIds ++ [(t, s.world.model.nextId)] }

def toStore (s : Wiring ι) (t : ι × Nat) (outcome : WriteOutcome) (inserts : Bool) : Wiring ι :=
  let r := appendAnnotatedEntry J D s.world (tx t.1 t.2).1 (tx t.1 t.2).2 [] outcome inserts
  { s with
    world := r.2
    rowIds := if r.1 then s.rowIds ++ [(t, s.world.nextRowId)] else s.rowIds }

def toScanner (s : Wiring ι) (t : ι × Nat) (now : QDateTime) : Wiring ι :=
  let scanner := { s.scanner with nextRowId := s.world.model.lastId }
  let r := scanner.onResponseReceived checks (tx t.1 t.2).1 (tx t.1 t.2).2 now
  { s with
    scanner := r.1
    raised := s.raised ++ r.2.map (fun f => (t, f)) }

def deliver (s : Wiring ι) (d : Delivery ι) : Wiring ι :=
  let p := s.progress d.worker
  let t := (d.worker, p.transaction)
  let s := { s with progress := Function.update s.progress d.worker p.next }
  match p.receiver with
  | .model => s.toModel tx t
  | .store => s.toStore J D tx t d.outcome d.inserts
  | .scanner => s.toScanner checks tx t d.now

end Wiring

end Wiring

end Nullock.Core

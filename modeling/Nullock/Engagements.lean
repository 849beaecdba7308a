import Nullock.OastCorrelator

namespace Nullock.Application
open Oast Function

/-- Something made for the project in `owner`, which no code reads. -/
structure Item (α : Type) where
  owner : QString
  content : α
deriving DecidableEq

structure Holdings (α : Type) where
  rows : List (Item α) := []
  findings : List (Item α) := []
  tabs : List (Item α) := []
  attacks : List (Item α) := []
  tokens : List (Item α) := []
  cookies : List (Item α) := []

inductive Tool where
  | repeater (tab : Nat)
  | intruder
  | resend (row : Nat)
  | sequencer
  | crawler
deriving DecidableEq

structure Job where
  tool : Tool
  owner : QString

/-- A component told of a response; store and scanner write what they can. -/
inductive Receiver (α : Type) where
  | model
  | store (written : Bool)
  | scanner (written : α → Bool)
  | jar

inductive Call (α : Type) where
  | told (receiver : Receiver α) (response : Item α)
  | sent (tab : Nat) (result : Item α)
  | attackRow (row : Nat) (result : Item α)
  | attackEnded
  | resent (row : Nat) (result : Item α)

structure App (α : Type) where
  dir : QString
  shown : Holdings α := {}
  files : QString → Holdings α
  jobs : List Job := []
  /-- The projects in which the proxy's open connections were accepted. -/
  connections : List QString := []
  posted : List (Call α) := []
  repeaterBusy : Bool := false
  intruderRunning : Bool := false
  correlator : Correlator := {}
  /-- The project in which a token was registered last. No code reads this. -/
  minted : QString → QString

structure Parts where
  intruder : Bool
  sequencer : Bool
  session : Bool

inductive Opening where
  | refused
  | unsaved (written : Parts)
  | halfway
  | opened

inductive Event (α : Type) where
  | addTab (tab : α)
  | editTab (i : Nat) (tab : α)
  | send (tab : Nat)
  | attack (rows : List α)
  | resume
  | resend (row : Nat)
  | capture
  | crawl
  /-- A thread of the pool has something before its end. -/
  | produced (k : Nat) (row : Nat) (receiver : Receiver α) (content : α)
  | ended (k : Nat) (content : α)
  | accepted
  | responded (k : Nat) (receiver : Receiver α) (content : α)
  | closed (k : Nat)
  /-- The main thread runs the first call of its queue. -/
  | deliver
  | registerToken (token : QString) (origin : OastOrigin)
  | hit (hit : OastHit) (written : Bool)
  | openProject (dir : QString) (opening : Opening)
  | autosave (written : Parts)

structure Contents (α : Type) where
  checks : α → List α
  cookies : α → List α
  sameCookie : α → α → Bool
  expired : α → Bool
  finding : Report → α
  blankTab : α
  maxRows : Nat

def kCap : Nat := 1000

/-- The list with one more, the first one gone where it would be too long. -/
def addCapped (cap : Nat) (l : List α) (a : α) : List α :=
  if cap < (l ++ [a]).length then (l ++ [a]).drop 1 else l ++ [a]

section Wiring
variable (J : JsonLibrary) (W : WalkOrder) (K : Contents α)

def App.write (s : App α) (f : Holdings α → Holdings α) : App α :=
  { s with files := update s.files s.dir (f (s.files s.dir)) }

def App.addFinding (s : App α) (finding : Item α) (written : Bool) : App α :=
  let s := { s with
    shown := { s.shown with findings := addCapped kCap s.shown.findings finding } }
  if written then s.write (fun f => { f with findings := f.findings ++ [finding] }) else s

def addCookie (jar : List (Item α)) (cookie : Item α) : List (Item α) :=
  jar.filter (fun c => !K.sameCookie c.content cookie.content) ++ [cookie]

def Receiver.take (s : App α) (response : Item α) : Receiver α → App α
  | .model =>
    { s with shown := { s.shown with rows := addCapped K.maxRows s.shown.rows response } }
  | .store written =>
    if written then s.write (fun f => { f with rows := f.rows ++ [response] }) else s
  | .scanner written =>
    (K.checks response.content).foldl
      (fun s finding => s.addFinding ⟨response.owner, finding⟩ (written finding)) s
  | .jar =>
    { s with shown := { s.shown with
        cookies := ((K.cookies response.content).map (fun c => ⟨response.owner, c⟩)).foldl
          (addCookie K) s.shown.cookies } }

def Call.run (s : App α) : Call α → App α
  | .told receiver response => receiver.take K s response
  | .sent tab result =>
    { s with
      shown := { s.shown with tabs := s.shown.tabs.set tab result }
      repeaterBusy := false }
  | .attackRow row result =>
    { s with shown := { s.shown with attacks := s.shown.attacks.set row result } }
  | .attackEnded => { s with intruderRunning := false }
  | .resent row result =>
    { s with shown := { s.shown with attacks := s.shown.attacks.set row result } }

def deliver (s : App α) : App α :=
  match s.posted with
  | [] => s
  | call :: posted => call.run K { s with posted := posted }

def busy (s : App α) : Bool :=
  !s.jobs.isEmpty || !s.connections.isEmpty || s.repeaterBusy || s.intruderRunning

def switchGuard (s : App α) : App α × Bool :=
  if busy s then (s, false)
  else
    let s := s.posted.foldl (Call.run K) { s with posted := [] }
    (s, !busy s)

def saveWorkspaces (s : App α) (written : Parts) : App α :=
  s.write (fun f =>
    { f with
      attacks := if written.intruder then s.shown.attacks else f.attacks
      tokens := if written.sequencer then s.shown.tokens else f.tokens
      tabs := if written.session then s.shown.tabs else f.tabs
      cookies := if written.session then s.shown.cookies else f.cookies })

def allParts : Parts := ⟨true, true, true⟩

/-- The components are cleared for a project; the Sequencer is not told. -/
def historyShouldClear (s : App α) (dir : QString) : App α :=
  { s with
    dir := dir
    shown := { tabs := [⟨dir, K.blankTab⟩], tokens := s.shown.tokens } }

def restored (s : App α) : App α :=
  let f := s.files s.dir
  { s with
    shown :=
      { rows := f.rows.foldl (addCapped K.maxRows) []
        findings := f.findings.foldl (addCapped kCap) []
        tabs := if f.tabs.isEmpty then [⟨s.dir, K.blankTab⟩] else f.tabs
        attacks := f.attacks
        tokens := f.tokens
        cookies := f.cookies.filter (fun c => !K.expired c.content) } }

def openProject (s : App α) (dir : QString) (opening : Opening) : App α :=
  let (s, free) := switchGuard K s
  if !free then s
  else
    match opening with
    | .refused => s
    | .unsaved written => saveWorkspaces s written
    | .halfway => historyShouldClear K (saveWorkspaces s allParts) dir
    | .opened => restored K (historyShouldClear K (saveWorkspaces s allParts) dir)

def App.startJob (s : App α) (tool : Tool) : App α :=
  { s with jobs := s.jobs ++ [⟨tool, s.dir⟩] }

def runs (s : App α) (tool : Tool) : Bool := s.jobs.any (fun job => job.tool == tool)

def produced (s : App α) (job : Job) (row : Nat) (receiver : Receiver α) (content : α) : App α :=
  match job.tool, receiver with
  | .intruder, _ => { s with posted := s.posted ++ [.attackRow row ⟨job.owner, content⟩] }
  | .sequencer, _ =>
    { s with shown := { s.shown with tokens := s.shown.tokens ++ [⟨job.owner, content⟩] } }
  | .crawler, .jar => s
  | .crawler, receiver =>
    { s with posted := s.posted ++ [.told receiver ⟨job.owner, content⟩] }
  | _, _ => s

def lastCall (job : Job) (content : α) : List (Call α) :=
  match job.tool with
  | .repeater tab => [.sent tab ⟨job.owner, content⟩]
  | .intruder => [.attackEnded]
  | .resend row => [.resent row ⟨job.owner, content⟩]
  | _ => []

def step (s : App α) : Event α → App α
  | .addTab tab => { s with shown := { s.shown with tabs := s.shown.tabs ++ [⟨s.dir, tab⟩] } }
  | .editTab i tab => { s with shown := { s.shown with tabs := s.shown.tabs.set i ⟨s.dir, tab⟩ } }
  | .send tab =>
    if s.repeaterBusy then s else { s.startJob (.repeater tab) with repeaterBusy := true }
  | .attack rows =>
    if s.intruderRunning then s
    else
      { s.startJob .intruder with
        shown := { s.shown with attacks := rows.map (fun row => ⟨s.dir, row⟩) }
        intruderRunning := true }
  | .resume =>
    if s.intruderRunning || s.shown.attacks.isEmpty then s
    else { s.startJob .intruder with intruderRunning := true }
  | .resend row =>
    if s.intruderRunning || s.shown.attacks.length ≤ row then s else s.startJob (.resend row)
  | .capture =>
    if runs s .sequencer then s
    else { s.startJob .sequencer with shown := { s.shown with tokens := [] } }
  | .crawl => if runs s .crawler then s else s.startJob .crawler
  | .produced k row receiver content =>
    match s.jobs[k]? with
    | none => s
    | some job => produced s job row receiver content
  | .ended k content =>
    match s.jobs[k]? with
    | none => s
    | some job => { s with jobs := s.jobs.eraseIdx k, posted := s.posted ++ lastCall job content }
  | .accepted => { s with connections := s.connections ++ [s.dir] }
  | .responded k receiver content =>
    match s.connections[k]? with
    | none => s
    | some owner => { s with posted := s.posted ++ [.told receiver ⟨owner, content⟩] }
  | .closed k => { s with connections := s.connections.eraseIdx k }
  | .deliver => deliver K s
  | .registerToken token origin =>
    { s with
      correlator := registerToken J W s.correlator token origin
      minted := update s.minted token s.dir }
  | .hit hit written =>
    let (correlator, report) := onHit J W s.correlator hit
    let s := { s with correlator := correlator }
    match report with
    | none => s
    | some report => s.addFinding ⟨s.minted hit.token, K.finding report⟩ written
  | .openProject dir opening => openProject K s dir opening
  | .autosave written => saveWorkspaces s written

end Wiring

end Nullock.Application

import Nullock.Text

namespace Nullock.Proxy

inductive Kind where
  | request
  | response
deriving DecidableEq

structure PendingRequest where
  id : Nat
  kind : Kind
  forceHold : Bool
  text : QString
deriving DecidableEq

/-- Who released a message; `addPendingOnMain` lets pass what it does not park. -/
inductive ReleaseCause where
  | operator
  | toggleOff (kind : Kind)
  | passedThrough
deriving DecidableEq

/-- One `done.release()`, with what the blocked worker reads behind it. -/
structure Released where
  pending : PendingRequest
  dropped : Bool
  holdResponse : Bool
  cause : ReleaseCause
deriving DecidableEq

inductive MainTask where
  | idle
  | drain (kind : Kind)
  | release (todo : List PendingRequest) (cause : ReleaseCause)
  | passThrough (p : PendingRequest)
  | promote
deriving DecidableEq

def kMaxPendingIntercepts : Nat := 256

def interceptQueueHasRoom (outstanding : Int) : Bool :=
  if outstanding < 0 then true else outstanding < kMaxPendingIntercepts

/-- What the main thread owns; `arrivals` and `promoted` are oldest first. -/
structure Controller where
  enabled : Bool := false
  enabledResponses : Bool := false
  current : Option PendingRequest := none
  queue : List PendingRequest := []
  main : MainTask := .idle
  released : List Released := []
  arrivals : List PendingRequest := []
  promoted : List PendingRequest := []
deriving DecidableEq

def Controller.toggle (c : Controller) : Kind → Bool
  | .request => c.enabled
  | .response => c.enabledResponses

def Controller.storeToggle (c : Controller) (kind : Kind) (e : Bool) : Controller :=
  match kind with
  | .request => { c with enabled := e }
  | .response => { c with enabledResponses := e }

def Controller.queueDepth (c : Controller) : Nat := c.queue.length + c.current.toList.length

/-- A toggle publishes its new state first and drains its own kind after that. -/
def Controller.setToggle (c : Controller) (kind : Kind) (e : Bool) : Controller :=
  if e = c.toggle kind then c
  else if e then c.storeToggle kind e
  else { c.storeToggle kind e with main := .drain kind }

def Controller.setEnabled (c : Controller) (e : Bool) : Controller := c.setToggle .request e

def Controller.setResponsesEnabled (c : Controller) (e : Bool) : Controller :=
  c.setToggle .response e

/-- The operator's decision; the message stays current meanwhile. -/
def Controller.resolveCurrent (c : Controller) (edit : PendingRequest → PendingRequest)
    (dropped holdResponse : Bool) : Controller :=
  match c.current with
  | none => c
  | some p =>
    { c with
      released := c.released ++ [⟨edit p, dropped, holdResponse, .operator⟩]
      main := .promote }

def Controller.forward (c : Controller) (editedText : QString) : Controller :=
  c.resolveCurrent (fun p => { p with text := editedText }) false false

def Controller.forwardInterceptingResponse (c : Controller) (editedText : QString) : Controller :=
  c.resolveCurrent (fun p => { p with text := editedText }) false true

def Controller.drop (c : Controller) : Controller := c.resolveCurrent id true false

/-- `releaseAllAsForward`, which releases behind the mutex. -/
def Controller.forwardAll (c : Controller) : Controller :=
  { c with
    current := none
    queue := []
    main := .release (c.current.toList ++ c.queue) .operator }

def Controller.promoteNextLocked (c : Controller) : Controller :=
  match c.queue with
  | [] => { c with current := none }
  | p :: queue => { c with current := some p, queue, promoted := c.promoted ++ [p] }

def ofKind (kind : Kind) (p : PendingRequest) : Bool := p.kind == kind

def otherKind (kind : Kind) (p : PendingRequest) : Bool := !ofKind kind p

/-- The messages `releaseKindAsForward` takes out, in the order it releases them. -/
def Controller.drained (c : Controller) (kind : Kind) : List PendingRequest :=
  c.queue.filter (ofKind kind) ++ c.current.toList.filter (ofKind kind)

def Controller.releaseKindAsForward (c : Controller) (kind : Kind) : Controller :=
  let kept :=
    { c with
      queue := c.queue.filter (otherKind kind)
      main := .release (c.drained kind) (.toggleOff kind) }
  if c.current.any (ofKind kind) then kept.promoteNextLocked else kept

def Controller.kindEnabled (c : Controller) (p : PendingRequest) : Bool :=
  p.forceHold || match p.kind with
    | .response => c.enabledResponses
    | .request => c.enabled

def Controller.addPendingOnMain (c : Controller) (p : PendingRequest) : Controller :=
  if !c.kindEnabled p then { c with main := .passThrough p }
  else if !interceptQueueHasRoom c.queueDepth then { c with main := .passThrough p }
  else
    match c.current with
    | none =>
      { c with current := some p, arrivals := c.arrivals ++ [p], promoted := c.promoted ++ [p] }
    | some _ => { c with queue := c.queue ++ [p], arrivals := c.arrivals ++ [p] }

/-- The slot on the main thread goes on to its next release or critical section. -/
def Controller.advance (c : Controller) : Controller :=
  match c.main with
  | .idle => c
  | .drain kind => c.releaseKindAsForward kind
  | .release [] _ => { c with main := .idle }
  | .release (p :: todo) cause =>
    { c with
      released := c.released ++ [⟨p, false, false, cause⟩]
      main := .release todo cause }
  | .passThrough p =>
    { c with released := c.released ++ [⟨p, false, false, .passedThrough⟩], main := .idle }
  | .promote => { c.promoteNextLocked with main := .idle }

inductive Worker where
  | running (result : Option Released)
  | gated (kind : Kind) (forceHold : Bool) (text : QString)
  | created (p : PendingRequest)
  | waiting (id : Nat)
deriving DecidableEq

/-- The controller with all threads; `events` are not dispatched yet. -/
structure InterceptSystem where
  controller : Controller := {}
  nextId : Nat := 1
  workers : Nat → Worker := fun _ => .running none
  events : List PendingRequest := []

/-- The steps of thread `t`; `rulesHold` is what the intercept rules say. -/
inductive WorkerAction where
  | pend (t : Nat) (rulesHold : Bool) (text : QString)
  | pendResponse (t : Nat) (forceHold rulesHold : Bool) (text : QString)
  | create (t : Nat)
  | post (t : Nat)
  | acquire (t : Nat)
deriving DecidableEq

/-- The steps of all threads and of the slot that the main thread is in. -/
inductive InterceptAction where
  | worker (a : WorkerAction)
  | addPendingOnMain
  | forward (editedText : QString)
  | forwardInterceptingResponse (editedText : QString)
  | drop
  | forwardAll
  | setEnabled (e : Bool)
  | setResponsesEnabled (e : Bool)
  | advance
deriving DecidableEq

def InterceptSystem.setWorker (s : InterceptSystem) (t : Nat) (w : Worker) : InterceptSystem :=
  { s with workers := Function.update s.workers t w }

def InterceptSystem.pend (s : InterceptSystem) (t : Nat) (rulesHold : Bool) (text : QString) :
    InterceptSystem :=
  if !s.controller.enabled then s.setWorker t (.running none)
  else if !rulesHold then s.setWorker t (.running none)
  else s.setWorker t (.gated .request false text)

def InterceptSystem.pendResponse (s : InterceptSystem) (t : Nat) (forceHold rulesHold : Bool)
    (text : QString) : InterceptSystem :=
  if !forceHold && !s.controller.enabledResponses then s.setWorker t (.running none)
  else if !forceHold && !rulesHold then s.setWorker t (.running none)
  else s.setWorker t (.gated .response forceHold text)

/-- A step that the position does not allow changes nothing. -/
def InterceptSystem.workerStep (s : InterceptSystem) : WorkerAction → InterceptSystem
  | .pend t rulesHold text =>
    match s.workers t with
    | .running _ => s.pend t rulesHold text
    | _ => s
  | .pendResponse t forceHold rulesHold text =>
    match s.workers t with
    | .running _ => s.pendResponse t forceHold rulesHold text
    | _ => s
  | .create t =>
    match s.workers t with
    | .gated kind forceHold text =>
      { s.setWorker t (.created ⟨s.nextId, kind, forceHold, text⟩) with nextId := s.nextId + 1 }
    | _ => s
  | .post t =>
    match s.workers t with
    | .created p => { s.setWorker t (.waiting p.id) with events := s.events ++ [p] }
    | _ => s
  | .acquire t =>
    match s.workers t with
    | .waiting id =>
      match s.controller.released.find? (fun r => r.pending.id == id) with
      | none => s
      | some r => s.setWorker t (.running (some r))
    | _ => s

def InterceptSystem.onMain (s : InterceptSystem) (slot : Controller → Controller) :
    InterceptSystem :=
  if s.controller.main = .idle then { s with controller := slot s.controller } else s

def InterceptSystem.dispatch (s : InterceptSystem) : InterceptSystem :=
  match s.events with
  | [] => s
  | p :: events =>
    if s.controller.main = .idle then
      { s with controller := s.controller.addPendingOnMain p, events }
    else s

def InterceptSystem.step (s : InterceptSystem) : InterceptAction → InterceptSystem
  | .worker a => s.workerStep a
  | .addPendingOnMain => s.dispatch
  | .forward editedText => s.onMain (·.forward editedText)
  | .forwardInterceptingResponse editedText => s.onMain (·.forwardInterceptingResponse editedText)
  | .drop => s.onMain Controller.drop
  | .forwardAll => s.onMain Controller.forwardAll
  | .setEnabled e => s.onMain (·.setEnabled e)
  | .setResponsesEnabled e => s.onMain (·.setResponsesEnabled e)
  | .advance => { s with controller := s.controller.advance }

def InterceptSystem.run (s : InterceptSystem) (actions : List InterceptAction) : InterceptSystem :=
  actions.foldl InterceptSystem.step s

end Nullock.Proxy

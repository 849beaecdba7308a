import Nullock.IntruderEngine

namespace Nullock.Intruder
open ScopeLogic IntruderEngine IntruderRules

structure ExtractSpec where
  regex : QString := []
  start : QString := []
  end_ : QString := []
deriving DecidableEq

/-- The configuration, as far as it decides requests and results. -/
structure RunConfig where
  host : QString := []
  port : Int := 443
  tls : Bool := true
  requestTemplate : QString := []
  requestLatin1 : Bool := false
  attackType : Int := 0
  payloadSets : List QString := []
  rules : List Rule := []
  grepMatch : List QString := []
  grepPayloadReflection : Bool := false
  grepExtract : ExtractSpec := {}
  concurrency : Int := 10
  retries : Int := 0
  globalEncodeChars : QString := []
  recursiveGrep : Bool := false
  recursiveGrepSeed : Option QString := none
  recursiveGrepCount : Int := 10
  followPolicy : Int := 0
  followCookies : Bool := true
deriving DecidableEq

structure ResultRow where
  id : Int := 0
  payloadValues : List QString := []
  combo : Combo := []
  statusCode : Int := 0
  responseSize : Nat := 0
  elapsedMs : Int := 0
  errorMessage : QString := []
  complete : Bool := false
  matched : Bool := false
  reflected : Bool := false
  extracted : QString := []
deriving DecidableEq

structure SavedRun where
  config : RunConfig := {}
  rows : List ResultRow := []

/-- The table a request was sent for, and its combination. No code reads this. -/
structure Origin where
  table : Nat
  combo : Combo
deriving DecidableEq

/-- A row, with the origin of its result if a request brought it. -/
structure IntruderAttack extends ResultRow where
  sentFor : Option Origin := none
deriving DecidableEq

structure Outcome where
  statusCode : Int
  responseSize : Nat
  elapsedMs : Int
  errorMessage : QString
  matched : Bool
  reflected : Bool
  extracted : QString
deriving DecidableEq

inductive Callback where
  | result (row : Nat) (payloadDisplay : List QString) (outcome : Outcome) (origin : Origin)
  | resent (row : Nat) (outcome : Outcome) (origin : Origin)
  | finished
deriving DecidableEq

structure Worker where
  config : RunConfig
  table : Nat
  todo : List (Nat × Combo)
  skipRows : List Nat
  chain : Option (Option QString)
  inFlight : List (Nat × Combo) := []

structure Resend where
  config : RunConfig
  row : Nat
  payloads : Combo
  origin : Origin

structure State where
  config : RunConfig := {}
  attacks : List IntruderAttack := []
  running : Bool := false
  stopRequested : Bool := false
  completedCount : Nat := 0
  worker : Option Worker := none
  resends : List Resend := []
  queue : List Callback := []
  table : Nat := 0

inductive Event where
  /-- Any of the setters. -/
  | configure (c : RunConfig)
  | start
  | resume
  | stop
  | clear
  | loadRun (run : SavedRun)
  | resend (row : Int)
  /-- One pass of the attack's dispatch loop. -/
  | dispatch
  /-- One of the requests in flight is answered. -/
  | complete (k : Nat) (outcome : Outcome)
  /-- The attack's thread ends, with no request in flight. -/
  | joined
  | resendDone (k : Nat) (outcome : Outcome)
  /-- The main thread runs the first call of its queue. -/
  | deliver

def kMaxConcurrency : Int := 64
def kMaxRetries : Int := 5
def kMaxResults : Nat := 10000

def clampConcurrency (n : Int) : Int := if n < 1 then 1 else min n kMaxConcurrency

def clampRetries (n : Int) : Int := if n < 0 then 0 else min n kMaxRetries

def attackTypeOf (t : Int) : AttackType :=
  if t ≤ 0 then .sniper
  else if t = 1 then .batteringRam
  else if t = 2 then .pitchfork
  else .clusterBomb

def configured (c : RunConfig) : RunConfig :=
  { c with
    concurrency := clampConcurrency c.concurrency
    retries := clampRetries c.retries }

def parseSet (block : QString) : List QString :=
  ((block.splitOn 0x0A).map QString.trimmed).filter (fun line => !line.isEmpty)

def displayValues (combo : Combo) : List QString :=
  combo.map (fun v => v.getD (utf16 "(default)"))

/-- The chain of processing rules, the encoding of listed characters last. -/
def effectiveRules (c : RunConfig) : List Rule :=
  if c.globalEncodeChars.isEmpty then c.rules
  else c.rules ++ [⟨utf16 "url-encode-chars", c.globalEncodeChars⟩]

def ExtractSpec.isEmpty (spec : ExtractSpec) : Bool :=
  spec.regex.isEmpty && spec.start.isEmpty && spec.end_.isEmpty

section Start
variable (E : RegexEngine) (P : RuleLibrary)

def plannedCombos (c : RunConfig) : List Combo :=
  let positions := countMarkers c.requestTemplate
  let combos :=
    if positions = 0 then []
    else if c.recursiveGrep then
      if c.grepExtract.isEmpty then []
      else List.replicate c.recursiveGrepCount.toNat (List.replicate positions none)
    else
      generateCombinations (attackTypeOf c.attackType) positions (c.payloadSets.map parseSet)
        kMaxResults
  if c.rules.isEmpty then combos
  else combos.filter (fun combo => !combo.any (fun v => v.isSome && skipped E P v c.rules))

def newAttack (i : Nat) (combo : Combo) : IntruderAttack :=
  { id := i + 1
    combo := combo
    payloadValues := displayValues combo }

def numbered (combos : List Combo) : List (Nat × Combo) :=
  combos.zipIdx.map (fun row => (row.2, row.1))

def start (s : State) : State :=
  let combos := plannedCombos E P s.config
  if s.running then s
  else if s.config.host.isEmpty || s.config.requestTemplate.isEmpty then s
  else if combos.isEmpty then s
  else
    { s with
      attacks := (numbered combos).map (fun row => newAttack row.1 row.2)
      completedCount := 0
      table := s.table + 1
      running := true
      stopRequested := false
      worker := some
        { config := s.config
          table := s.table + 1
          todo := numbered combos
          skipRows := []
          chain := if s.config.recursiveGrep then some s.config.recursiveGrepSeed else none } }

/-- Whether a table can be resumed, and the rows that are not sent again. -/
def planResume (recursiveGrep : Bool) (rowComplete : List Bool) : Option (List Nat) :=
  if rowComplete.isEmpty then none
  else if recursiveGrep then none
  else if rowComplete.all id then none
  else some ((List.range rowComplete.length).filter (fun i => rowComplete.getD i false))

def resume (s : State) : State :=
  if s.running then s
  else if s.config.host.isEmpty || s.config.requestTemplate.isEmpty then s
  else
    match planResume s.config.recursiveGrep (s.attacks.map (fun a => a.complete)) with
    | none => s
    | some skip =>
      { s with
        running := true
        stopRequested := false
        worker := some
          { config := s.config
            table := s.table
            todo := numbered (s.attacks.map (fun a => a.combo))
            skipRows := skip
            chain := none } }

def stop (s : State) : State := if s.running then { s with stopRequested := true } else s

def clear (s : State) : State :=
  let s := stop s
  if s.attacks.isEmpty then s
  else { s with attacks := [], completedCount := 0, table := s.table + 1 }

def loadRun (s : State) (run : SavedRun) : State :=
  if s.running then s
  else
    { s with
      config := configured run.config
      attacks := run.rows.map (fun r => { toResultRow := r })
      completedCount := run.rows.countP (fun r => r.complete)
      table := s.table + 1 }

def IntruderAttack.reset (a : IntruderAttack) : IntruderAttack :=
  { a with
    statusCode := 0
    responseSize := 0
    elapsedMs := 0
    errorMessage := []
    matched := false
    extracted := []
    complete := false
    sentFor := none }

def resendRow (s : State) (row : Int) : Option IntruderAttack :=
  if s.running then none
  else if row < 0 then none
  else if s.config.host.isEmpty || s.config.requestTemplate.isEmpty then none
  else s.attacks[row.toNat]?

def resend (s : State) (row : Int) : State :=
  match resendRow s row with
  | none => s
  | some a =>
    { s with
      attacks := s.attacks.set row.toNat a.reset
      resends := s.resends ++
        [{ config := s.config
           row := row.toNat
           payloads := applyRulesToCombo P a.combo (effectiveRules s.config)
           origin := ⟨s.table, a.combo⟩ }] }

def withFirst (cur : Option QString) (combo : Combo) : Combo := cur :: combo.tail

def Worker.dispatch (stopRequested : Bool) (w : Worker) : Worker :=
  match w.todo with
  | [] => w
  | (i, combo) :: todo =>
    if stopRequested then { w with todo := [] }
    else
      match w.chain with
      | some cur =>
        if w.inFlight.isEmpty then
          { w with todo := todo, inFlight := [(i, withFirst cur combo)] }
        else w
      | none =>
        if i ∈ w.skipRows then { w with todo := todo }
        else if (clampConcurrency w.config.concurrency).toNat ≤ w.inFlight.length then w
        else { w with todo := todo, inFlight := w.inFlight ++ [(i, combo)] }

/-- A request of the attack has ended; a chain goes on with what was extracted. -/
def Worker.completed (w : Worker) (k : Nat) (outcome : Outcome) : Worker :=
  let w := { w with inFlight := w.inFlight.eraseIdx k }
  match w.chain with
  | none => w
  | some _ =>
    if outcome.extracted.isEmpty then { w with todo := [] }
    else { w with chain := some (some outcome.extracted) }

def complete (s : State) (k : Nat) (outcome : Outcome) : State :=
  match s.worker with
  | none => s
  | some w =>
    match w.inFlight[k]? with
    | none => s
    | some (row, combo) =>
      { s with
        worker := some (w.completed k outcome)
        queue := s.queue ++ [.result row (displayValues combo) outcome ⟨w.table, combo⟩] }

def joined (s : State) : State :=
  match s.worker with
  | none => s
  | some w =>
    if w.todo.isEmpty && w.inFlight.isEmpty then
      { s with worker := none, queue := s.queue ++ [.finished] }
    else s

def resendDone (s : State) (k : Nat) (outcome : Outcome) : State :=
  match s.resends[k]? with
  | none => s
  | some r =>
    { s with
      resends := s.resends.eraseIdx k
      queue := s.queue ++ [.resent r.row outcome r.origin] }

def IntruderAttack.record (a : IntruderAttack) (o : Outcome) (origin : Origin) : IntruderAttack :=
  { a with
    statusCode := o.statusCode
    responseSize := o.responseSize
    elapsedMs := o.elapsedMs
    errorMessage := o.errorMessage
    matched := o.matched
    reflected := o.reflected
    extracted := o.extracted
    complete := true
    sentFor := some origin }

def Callback.run (s : State) : Callback → State
  | .result row payloadDisplay outcome origin =>
    match s.attacks[row]? with
    | none => s
    | some a =>
      { s with
        attacks := s.attacks.set row
          { a.record outcome origin with payloadValues := payloadDisplay }
        completedCount := s.completedCount + 1 }
  | .resent row outcome origin =>
    match s.attacks[row]? with
    | none => s
    | some a => { s with attacks := s.attacks.set row (a.record outcome origin) }
  | .finished => { s with running := false, stopRequested := false }

def deliver (s : State) : State :=
  match s.queue with
  | [] => s
  | callback :: queue => callback.run { s with queue := queue }

def step (s : State) : Event → State
  | .configure c => { s with config := configured c }
  | .start => start E P s
  | .resume => resume s
  | .stop => stop s
  | .clear => clear s
  | .loadRun run => loadRun s run
  | .resend row => resend P s row
  | .dispatch => { s with worker := s.worker.map (Worker.dispatch s.stopRequested) }
  | .complete k outcome => complete s k outcome
  | .joined => joined s
  | .resendDone k outcome => resendDone s k outcome
  | .deliver => deliver s

end Start

end Nullock.Intruder

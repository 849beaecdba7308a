import Nullock.InterceptRuns
import Nullock.Runs

namespace Nullock.Proxy

/-- The calls that `shutdownAndJoin` makes, in order, and the join behind them. -/
inductive ShutdownStage where
  | setEnabled
  | setResponsesEnabled
  | forwardAll
  | joining
deriving DecidableEq

structure Shutdown where
  system : InterceptSystem
  stage : ShutdownStage := .setEnabled

inductive ShutdownAction where
  | worker (a : WorkerAction)
  | main
deriving DecidableEq

/-- What the main thread does next; while it joins, it only dispatches. -/
def Shutdown.mainAction (s : Shutdown) : InterceptAction × ShutdownStage :=
  if s.system.controller.main = .idle then
    match s.stage with
    | .setEnabled => (.setEnabled false, .setResponsesEnabled)
    | .setResponsesEnabled => (.setResponsesEnabled false, .forwardAll)
    | .forwardAll => (.forwardAll, .joining)
    | .joining => (.addPendingOnMain, .joining)
  else (.advance, s.stage)

def Shutdown.step (s : Shutdown) : ShutdownAction → Shutdown
  | .worker a => ⟨s.system.step (.worker a), s.stage⟩
  | .main => ⟨s.system.step s.mainAction.1, s.mainAction.2⟩

def Shutdown.run (s : Shutdown) (actions : List ShutdownAction) : Shutdown :=
  actions.foldl Shutdown.step s

def shutdownAndJoin (before : List InterceptAction) : Shutdown :=
  { system := InterceptSystem.run {} before }

def Shutdown.Unparked (s : Shutdown) : Prop :=
  s.stage = .joining → s.system.controller.current = none ∧ s.system.controller.queue = []

def ShutdownAction.Unforced (s : Shutdown) : ShutdownAction → Prop
  | .worker _ => True
  | .main => s.stage = .joining → s.system.controller.main = .idle →
      ∀ p, s.system.events.head? = some p → p.forceHold = false

def UnforcedRun (s : Shutdown) (actions : List ShutdownAction) : Prop :=
  Along Shutdown.step ShutdownAction.Unforced s actions

def ShutdownStage.silenced : ShutdownStage → Kind → Bool
  | .setEnabled, _ => false
  | .setResponsesEnabled, kind => kind == .request
  | .forwardAll, _ => true
  | .joining, _ => true

def ShutdownStage.calls : ShutdownStage → Nat
  | .setEnabled => 3
  | .setResponsesEnabled => 2
  | .forwardAll => 1
  | .joining => 0

/-- How many steps of the main thread release all that it has taken or parked. -/
def settleSteps (stage : ShutdownStage) (c : Controller) : Nat :=
  c.remaining + stage.calls * (c.parked.length + 3)

def Shutdown.backlog (s : Shutdown) : Nat :=
  settleSteps s.stage s.system.controller + 2 * s.system.events.length

def InterceptSystem.WaitsForKnown (s : InterceptSystem) : Prop :=
  ∀ t i, s.workers t = .waiting i → i ∈ s.known

theorem setWorker_waiting {s : InterceptSystem} (h : (s.setWorker t w).workers u = .waiting i)
    (hw : ∀ i, w ≠ .waiting i) : s.workers u = .waiting i := by
  cases update_cases h with
  | inl h => exact absurd h.2 (hw i)
  | inr h => exact h.2

theorem workerStep_waiting {s : InterceptSystem} (a : WorkerAction)
    (h : (s.workerStep a).workers u = .waiting i) :
    s.workers u = .waiting i ∨ ∃ p ∈ (s.workerStep a).events, p.id = i := by
  cases a with
  | pend t rulesHold text =>
    left
    rw [InterceptSystem.workerStep] at h
    split at h
    · rw [InterceptSystem.pend] at h
      split at h
      · exact setWorker_waiting h (fun _ hw => by cases hw)
      · split at h
        · exact setWorker_waiting h (fun _ hw => by cases hw)
        · exact setWorker_waiting h (fun _ hw => by cases hw)
    · exact h
  | pendResponse t forceHold rulesHold text =>
    left
    rw [InterceptSystem.workerStep] at h
    split at h
    · rw [InterceptSystem.pendResponse] at h
      split at h
      · exact setWorker_waiting h (fun _ hw => by cases hw)
      · split at h
        · exact setWorker_waiting h (fun _ hw => by cases hw)
        · exact setWorker_waiting h (fun _ hw => by cases hw)
    · exact h
  | create t =>
    left
    rw [InterceptSystem.workerStep] at h
    split at h
    · exact setWorker_waiting h (fun _ hw => by cases hw)
    · exact h
  | post t =>
    rw [InterceptSystem.workerStep] at h ⊢
    split at h
    · rename_i p ht
      cases update_cases h with
      | inl h =>
        refine .inr ⟨p, List.mem_append_right _ (List.mem_singleton.2 rfl), ?_⟩
        exact Worker.waiting.inj h.2
      | inr h => exact .inl h.2
    · exact .inl h
  | acquire t =>
    left
    rw [InterceptSystem.workerStep] at h
    split at h
    · split at h
      · exact h
      · exact setWorker_waiting h (fun _ hw => by cases hw)
    · exact h

theorem InterceptSystem.WorkerMove.events (h : InterceptSystem.WorkerMove s s') :
    ∃ posted, s'.events = s.events ++ posted := by
  cases h with
  | stay => exact ⟨[], (List.append_nil _).symm⟩
  | move _ => exact ⟨[], (List.append_nil _).symm⟩
  | create _ _ _ _ => exact ⟨[], (List.append_nil _).symm⟩
  | @post _ p _ => exact ⟨[p], rfl⟩

theorem InterceptSystem.WaitsForKnown.step (h : InterceptSystem.WaitsForKnown s) (hi : s.Inv)
    (a : InterceptAction) : (s.step a).WaitsForKnown := by
  intro t i ht
  cases step_move hi.controller.shape a with
  | inl hw =>
    obtain ⟨w, rfl⟩ := hw
    have hc := (workerStep_move s w).controller_eq
    obtain ⟨posted, he⟩ := (workerStep_move s w).events
    have hstep : s.step (.worker w) = s.workerStep w := rfl
    rw [hstep] at ht ⊢
    cases workerStep_waiting w ht with
    | inl hold =>
      have hknown := h t i hold
      rw [InterceptSystem.known, hc, he, List.map_append, ← List.append_assoc]
      exact List.mem_append_left _ hknown
    | inr hnew =>
      obtain ⟨p, hp, rfl⟩ := hnew
      exact List.mem_append_right _ (List.mem_map_of_mem hp)
  | inr hm =>
    obtain ⟨_, hworkers, hp⟩ := hi.mainMove hm
    rw [hworkers] at ht
    exact hp.mem_iff.2 (h t i ht)

theorem InterceptSystem.WaitsForKnown.run (h : InterceptSystem.WaitsForKnown s) (hi : s.Inv)
    (actions : List InterceptAction) : (s.run actions).WaitsForKnown := by
  induction actions generalizing s with
  | nil => exact h
  | cons a actions ih => exact ih (h.step hi a) (hi.step a)

theorem storeToggle_toggle (c : Controller) (kind k : Kind) :
    (c.storeToggle kind false).toggle k = (c.toggle k && k != kind) := by
  cases kind with
  | request => cases k <;> simp [Controller.storeToggle, Controller.toggle]
  | response => cases k <;> simp [Controller.storeToggle, Controller.toggle]

theorem setToggle_silences (hi : Controller.main c = .idle) (kind : Kind) :
    (c.setToggle kind false).parked = c.parked ∧
      (c.setToggle kind false).remaining ≤ c.parked.length + 2 ∧
      ∀ k, (c.toggle k = false ∨ k = kind) → (c.setToggle kind false).toggle k = false := by
  rw [Controller.setToggle]
  cases ht : c.toggle kind with
  | false =>
    simp only [↓reduceIte]
    refine ⟨trivial, ?_, ?_⟩
    · rw [Controller.remaining, hi]
      exact Nat.zero_le _
    · intro k hk
      cases hk with
      | inl hk => exact hk
      | inr hk => rw [hk, ht]
  | true =>
    simp only [Bool.false_eq_true, ↓reduceIte]
    have hparked : (Controller.parked { c.storeToggle kind false with main := .drain kind }) =
        c.parked := by
      cases kind with
      | request => rfl
      | response => rfl
    refine ⟨hparked, ?_, ?_⟩
    · have hd := drained_length { c.storeToggle kind false with main := .drain kind } kind
      have hle := List.length_filter_le (ofKind kind) c.parked
      rw [hparked] at hd
      refine Nat.le_trans (Nat.le_of_eq (congrArg (· + 2) hd)) ?_
      exact Nat.add_le_add_right hle 2
    · intro k hk
      have hs := storeToggle_toggle c kind k
      have htoggle : Controller.toggle { c.storeToggle kind false with main := .drain kind } k =
          (c.storeToggle kind false).toggle k := by
        cases k with
        | request => rfl
        | response => rfl
      rw [htoggle, hs]
      cases hk with
      | inl hk => rw [hk]; rfl
      | inr hk => rw [hk]; simp

theorem advance_toggle (c : Controller) (k : Kind) : c.advance.toggle k = c.toggle k := by
  have hpromote (c : Controller) :
      c.promoteNextLocked.enabled = c.enabled ∧
        c.promoteNextLocked.enabledResponses = c.enabledResponses := by
    rw [Controller.promoteNextLocked]
    split
    · exact ⟨rfl, rfl⟩
    · exact ⟨rfl, rfl⟩
  have hfields : c.advance.enabled = c.enabled ∧
      c.advance.enabledResponses = c.enabledResponses := by
    rw [Controller.advance]
    split
    · exact ⟨rfl, rfl⟩
    · rw [Controller.releaseKindAsForward]
      split
      · exact hpromote _
      · exact ⟨rfl, rfl⟩
    · exact ⟨rfl, rfl⟩
    · exact ⟨rfl, rfl⟩
    · exact ⟨rfl, rfl⟩
    · exact hpromote c
  cases k with
  | request => exact hfields.1
  | response => exact hfields.2

theorem addPendingOnMain_toggle (c : Controller) (p : PendingRequest) (k : Kind) :
    (c.addPendingOnMain p).toggle k = c.toggle k := by
  have hfields : (c.addPendingOnMain p).enabled = c.enabled ∧
      (c.addPendingOnMain p).enabledResponses = c.enabledResponses := by
    rw [Controller.addPendingOnMain]
    split
    · exact ⟨rfl, rfl⟩
    · split
      · exact ⟨rfl, rfl⟩
      · split
        · exact ⟨rfl, rfl⟩
        · exact ⟨rfl, rfl⟩
  cases k with
  | request => exact hfields.1
  | response => exact hfields.2

theorem kindEnabled_eq (c : Controller) (p : PendingRequest) :
    c.kindEnabled p = (p.forceHold || c.toggle p.kind) := by
  rw [Controller.kindEnabled]
  cases p.kind with
  | request => rfl
  | response => rfl

theorem parked_eq_nil (c : Controller) : c.parked = [] ↔ c.current = none ∧ c.queue = [] := by
  rw [Controller.parked, List.append_eq_nil_iff, Option.toList_eq_nil_iff]

theorem advance_released (c : Controller) : ∃ more, c.advance.released = c.released ++ more := by
  rw [Controller.advance]
  split
  · exact ⟨[], (List.append_nil _).symm⟩
  · rename_i kind hm
    exact ⟨[], (releaseKindAsForward_fields c kind).2.1.trans (List.append_nil _).symm⟩
  · exact ⟨[], (List.append_nil _).symm⟩
  · exact ⟨_, rfl⟩
  · exact ⟨_, rfl⟩
  · exact ⟨[], (promoteNextLocked_fields c).2.1.trans (List.append_nil _).symm⟩

structure Shutdown.Inv (s : Shutdown) : Prop where
  system : s.system.Inv
  known : s.system.WaitsForKnown
  silent : ∀ kind, s.stage.silenced kind = true → s.system.controller.toggle kind = false

structure Shutdown.Proceeds (s : Shutdown) (c : Controller) (stage : ShutdownStage) : Prop where
  moves : s.system.controller.Moves c
  released : ∃ more, c.released = s.system.controller.released ++ more
  silent : ∀ kind, stage.silenced kind = true → c.toggle kind = false
  emptied : stage = .joining → s.stage = .joining ∨ c.parked = []
  settles : settleSteps stage c + 1 ≤ settleSteps s.stage s.system.controller

theorem Shutdown.Inv.advance {s : Shutdown} (h : s.Inv) (hm : s.system.controller.main ≠ .idle) :
    s.Proceeds s.system.controller.advance s.stage := by
  have hmoves := moves_advance h.system.controller.shape
  refine ⟨hmoves, advance_released _, ?_, .inl, ?_⟩
  · intro kind hk
    rw [advance_toggle]
    exact h.silent kind hk
  · have hpos : s.system.controller.remaining ≠ 0 := fun hz => hm (idle_of_remaining hz)
    have hdepth := hmoves.depth
    rw [queueDepth_eq, queueDepth_eq] at hdepth
    have hcalls := Nat.mul_le_mul_left s.stage.calls (Nat.add_le_add_right hdepth 3)
    rw [settleSteps, settleSteps, remaining_advance]
    omega

theorem Shutdown.Inv.setToggle {s : Shutdown} {stage : ShutdownStage} (h : s.Inv)
    (hi : s.system.controller.main = .idle) (kind : Kind)
    (hcalls : stage.calls + 1 = s.stage.calls) (hstage : stage ≠ .joining)
    (hsilent : ∀ k, stage.silenced k = true → s.stage.silenced k = true ∨ k = kind) :
    s.Proceeds (s.system.controller.setToggle kind false) stage := by
  obtain ⟨hparked, hremaining, htoggle⟩ := setToggle_silences hi kind
  refine ⟨moves_setToggle hi kind false, ?_, ?_, fun hj => absurd hj hstage, ?_⟩
  · obtain ⟨a, b, m, _, hc⟩ := setToggle_cases hi kind false
    rw [hc]
    exact ⟨[], (List.append_nil _).symm⟩
  · intro k hk
    apply htoggle
    cases hsilent k hk with
    | inl hs => exact .inl (h.silent k hs)
    | inr hs => exact .inr hs
  · rw [settleSteps, settleSteps, hparked, ← hcalls, Nat.add_mul]
    omega

theorem Shutdown.Inv.forwardAll {s : Shutdown} (h : s.Inv) (hi : s.system.controller.main = .idle)
    (hs : s.stage = .forwardAll) : s.Proceeds s.system.controller.forwardAll .joining := by
  refine ⟨moves_forwardAll hi, ⟨[], (List.append_nil _).symm⟩, ?_, fun _ => .inr rfl, ?_⟩
  · intro kind _
    have hoff := h.silent kind (by rw [hs]; rfl)
    cases kind with
    | request => exact hoff
    | response => exact hoff
  · have hr : s.system.controller.forwardAll.remaining =
        s.system.controller.parked.length + 1 := rfl
    rw [settleSteps, settleSteps, hr, hs, ShutdownStage.calls, ShutdownStage.calls]
    omega

theorem Shutdown.Inv.main_cases {s : Shutdown} (h : s.Inv) :
    (s.stage = .joining ∧ s.system.controller.main = .idle ∧
        s.step .main = ⟨s.system.dispatch, .joining⟩) ∨
      (¬ (s.stage = .joining ∧ s.system.controller.main = .idle) ∧
        ∃ c stage, s.step .main = ⟨{ s.system with controller := c }, stage⟩ ∧
          s.Proceeds c stage) := by
  by_cases hi : s.system.controller.main = .idle
  · have hon (slot : Controller → Controller) :
        s.system.onMain slot = { s.system with controller := slot s.system.controller } := if_pos hi
    cases hs : s.stage with
    | setEnabled =>
      refine .inr ⟨fun hj => (nomatch hj.1), _, .setResponsesEnabled, ?_,
        h.setToggle hi .request (by rw [hs]; rfl) nofun ?_⟩
      · rw [Shutdown.step, Shutdown.mainAction, if_pos hi, hs]
        exact congrArg (Shutdown.mk · .setResponsesEnabled) (hon (·.setEnabled false))
      · intro k hk
        exact .inr (beq_iff_eq.1 hk)
    | setResponsesEnabled =>
      refine .inr ⟨fun hj => (nomatch hj.1), _, .forwardAll, ?_,
        h.setToggle hi .response (by rw [hs]; rfl) nofun ?_⟩
      · rw [Shutdown.step, Shutdown.mainAction, if_pos hi, hs]
        exact congrArg (Shutdown.mk · .forwardAll) (hon (·.setResponsesEnabled false))
      · intro k _
        cases k with
        | request => exact .inl (by rw [hs]; rfl)
        | response => exact .inr rfl
    | forwardAll =>
      refine .inr ⟨fun hj => (nomatch hj.1), _, .joining, ?_, h.forwardAll hi hs⟩
      rw [Shutdown.step, Shutdown.mainAction, if_pos hi, hs]
      exact congrArg (Shutdown.mk · .joining) (hon Controller.forwardAll)
    | joining =>
      refine .inl ⟨rfl, hi, ?_⟩
      rw [Shutdown.step, Shutdown.mainAction, if_pos hi, hs]
      rfl
  · refine .inr ⟨fun hj => hi hj.2, _, s.stage, ?_, h.advance hi⟩
    rw [Shutdown.step, Shutdown.mainAction, if_neg hi]
    rfl

theorem dispatch_nil {s : InterceptSystem} (h : s.events = []) : s.dispatch = s := by
  rw [InterceptSystem.dispatch, h]

theorem dispatch_cons {s : InterceptSystem} (h : s.events = p :: rest)
    (hi : s.controller.main = .idle) :
    s.dispatch = { s with controller := s.controller.addPendingOnMain p, events := rest } := by
  rw [InterceptSystem.dispatch, h]
  exact if_pos hi

theorem addPendingOnMain_unforced {c : Controller} (hoff : ∀ kind, c.toggle kind = false)
    (hp : p.forceHold = false) : c.addPendingOnMain p = { c with main := .passThrough p } := by
  have hkind : c.kindEnabled p = false := by
    rw [kindEnabled_eq, hp, hoff]
    rfl
  rw [Controller.addPendingOnMain, hkind]
  rfl

theorem addPendingOnMain_forced {c : Controller} (hc : c.parked = []) (hp : p.forceHold = true) :
    (c.addPendingOnMain p).current = some p := by
  have hkind : c.kindEnabled p = true := by
    rw [kindEnabled_eq, hp]
    rfl
  have hroom : interceptQueueHasRoom c.queueDepth = true := by
    rw [queueDepth_eq, hc]
    rfl
  rw [Controller.addPendingOnMain, hkind, hroom, ((parked_eq_nil c).1 hc).1]
  rfl

theorem Shutdown.Inv.step {s : Shutdown} (h : s.Inv) (a : ShutdownAction) : (s.step a).Inv := by
  cases a with
  | worker a =>
    refine ⟨h.system.step (.worker a), h.known.step h.system (.worker a), ?_⟩
    have hc : (s.step (.worker a)).system.controller = s.system.controller :=
      (workerStep_move s.system a).controller_eq
    rw [hc]
    exact h.silent
  | main =>
    refine ⟨h.system.step s.mainAction.1, h.known.step h.system s.mainAction.1, ?_⟩
    obtain ⟨hs, hi, hstep⟩ | ⟨_, c, stage, hstep, hp⟩ := h.main_cases
    · have hoff := h.silent
      rw [hs] at hoff
      rw [hstep]
      intro kind hk
      cases he : s.system.events with
      | nil =>
        rw [dispatch_nil he]
        exact hoff kind hk
      | cons p rest =>
        rw [dispatch_cons he hi, addPendingOnMain_toggle]
        exact hoff kind hk
    · rw [hstep]
      exact hp.silent

theorem Shutdown.Unparked.parked {s : Shutdown} (h : s.Unparked) (hs : s.stage = .joining) :
    s.system.controller.parked = [] :=
  (parked_eq_nil _).2 (h hs)

theorem Shutdown.Unparked.step_iff {s : Shutdown} (h : s.Inv) (hu : s.Unparked)
    (a : ShutdownAction) : (s.step a).Unparked ↔ a.Unforced s := by
  cases a with
  | worker a =>
    have hc : (s.step (.worker a)).system.controller = s.system.controller :=
      (workerStep_move s.system a).controller_eq
    refine ⟨fun _ => trivial, ?_⟩
    intro _
    rw [Shutdown.Unparked, hc]
    exact hu
  | main =>
    obtain ⟨hs, hi, hstep⟩ | ⟨hbusy, c, stage, hstep, hp⟩ := h.main_cases
    · rw [hstep, ShutdownAction.Unforced]
      cases he : s.system.events with
      | nil =>
        rw [dispatch_nil he]
        exact ⟨fun _ _ _ p hp => (nomatch hp), fun _ _ => hu hs⟩
      | cons p rest =>
        rw [dispatch_cons he hi]
        cases hf : p.forceHold with
        | true =>
          have hparked := addPendingOnMain_forced (hu.parked hs) hf
          constructor
          · intro hnext
            have hnone := (hnext rfl).1
            rw [hparked] at hnone
            cases hnone
          · intro hnone
            rw [hnone hs hi p rfl] at hf
            cases hf
        | false =>
          have hoff := h.silent
          rw [hs] at hoff
          rw [addPendingOnMain_unforced (fun kind => hoff kind rfl) hf]
          constructor
          · intro _ _ _ q hq
            cases hq
            exact hf
          · intro _ _
            exact hu hs
    · rw [hstep, ShutdownAction.Unforced]
      refine ⟨fun _ hs hi => absurd ⟨hs, hi⟩ hbusy, ?_⟩
      intro _ hjoin
      apply (parked_eq_nil c).1
      cases hp.emptied hjoin with
      | inl hs =>
        have hdepth := hp.moves.depth
        rw [queueDepth_eq, queueDepth_eq, hu.parked hs] at hdepth
        exact List.length_eq_zero_iff.1 (Nat.le_zero.1 hdepth)
      | inr hparked => exact hparked

theorem shutdownAndJoin_inv (before : List InterceptAction) : (shutdownAndJoin before).Inv := by
  have hstart : InterceptSystem.WaitsForKnown {} := nofun
  exact ⟨inv_of_run before, hstart.run .init before, nofun⟩

def Controller.releasedIds (c : Controller) : List Nat := c.released.map (fun r => r.pending.id)

/-- The message with the id is released within so many steps of the main thread. -/
def Shutdown.Due (n : Nat) (s : Shutdown) (i : Nat) : Prop :=
  i ∈ s.system.controller.releasedIds ∨
    (i ∈ s.system.controller.accounted ∧ settleSteps s.stage s.system.controller ≤ n) ∨
    ∃ before p after, s.system.events = before ++ p :: after ∧ p.id = i ∧
      settleSteps s.stage s.system.controller + 2 * (before.length + 1) ≤ n

theorem released_of_accounted {c : Controller} (hi : c.main = .idle) (hparked : c.parked = [])
    (h : i ∈ c.accounted) : i ∈ c.releasedIds := by
  rw [accounted_of_idle hi, hparked, List.map_nil, List.append_nil] at h
  exact h

theorem Shutdown.Due.zero {s : Shutdown} (h : s.Due 0 i) (hu : s.Unparked) :
    i ∈ s.system.controller.releasedIds := by
  obtain hr | ⟨ha, hn⟩ | ⟨before, p, after, _, _, hn⟩ := h
  · exact hr
  · rw [settleSteps] at hn
    have hi : s.system.controller.main = .idle := idle_of_remaining (by omega)
    have hs : s.stage = .joining := by
      cases hs : s.stage with
      | joining => rfl
      | setEnabled => rw [hs, ShutdownStage.calls] at hn; omega
      | setResponsesEnabled => rw [hs, ShutdownStage.calls] at hn; omega
      | forwardAll => rw [hs, ShutdownStage.calls] at hn; omega
    exact released_of_accounted hi (hu.parked hs) ha
  · omega

theorem Shutdown.Due.worker {s : Shutdown} (h : s.Due n i) (a : WorkerAction) :
    (s.step (.worker a)).Due n i := by
  have hc : (s.step (.worker a)).system.controller = s.system.controller :=
    (workerStep_move s.system a).controller_eq
  obtain ⟨posted, he⟩ := (workerStep_move s.system a).events
  rw [Shutdown.Due, hc]
  obtain hr | ha | ⟨before, p, after, hevents, hid, hn⟩ := h
  · exact .inl hr
  · exact .inr (.inl ha)
  · refine .inr (.inr ⟨before, p, after ++ posted, ?_, hid, hn⟩)
    rw [hevents, List.append_assoc, List.cons_append] at he
    exact he

theorem Shutdown.Due.proceeds {s : Shutdown} {stage : ShutdownStage} (h : s.Due (n + 1) i)
    (hp : s.Proceeds c stage) :
    Shutdown.Due n ⟨{ s.system with controller := c }, stage⟩ i := by
  have hsettles := hp.settles
  obtain hr | ⟨ha, hn⟩ | ⟨before, p, after, hevents, hid, hn⟩ := h
  · obtain ⟨more, hmore⟩ := hp.released
    left
    rw [Controller.releasedIds, hmore, List.map_append]
    exact List.mem_append_left _ hr
  · refine .inr (.inl ⟨hp.moves.accounted.mem_iff.2 ha, ?_⟩)
    dsimp only
    omega
  · refine .inr (.inr ⟨before, p, after, hevents, hid, ?_⟩)
    dsimp only
    omega

theorem Shutdown.Due.passes {s : Shutdown} (h : s.Due (n + 1) i) (hs : s.stage = .joining)
    (hi : s.system.controller.main = .idle) (hparked : s.system.controller.parked = [])
    (he : s.system.events = p :: rest) :
    Shutdown.Due n
      ⟨{ s.system with
          controller := { s.system.controller with main := .passThrough p }
          events := rest }, .joining⟩ i := by
  have hsettle : settleSteps .joining { s.system.controller with main := .passThrough p } = 1 := by
    rw [settleSteps, ShutdownStage.calls, Nat.zero_mul]
    rfl
  have hzero : settleSteps s.stage s.system.controller = 0 := by
    rw [settleSteps, hs, Controller.remaining, hi, ShutdownStage.calls, Nat.zero_mul]
  obtain hr | ⟨ha, _⟩ | ⟨before, q, after, hevents, hid, hn⟩ := h
  · exact .inl hr
  · have hr : i ∈ s.system.controller.releasedIds := released_of_accounted hi hparked ha
    exact .inl hr
  · rw [he] at hevents
    rw [hzero] at hn
    cases before with
    | nil =>
      obtain ⟨rfl, _⟩ := List.cons.inj hevents
      refine .inr (.inl ⟨?_, ?_⟩)
      · rw [Controller.accounted, List.mem_append, List.mem_append]
        exact .inr (.inr (List.mem_singleton.2 hid.symm))
      · rw [hsettle]
        rw [List.length_nil] at hn
        omega
    | cons p' before =>
      obtain ⟨_, hrest⟩ := List.cons.inj hevents
      refine .inr (.inr ⟨before, q, after, hrest, hid, ?_⟩)
      rw [hsettle]
      rw [List.length_cons] at hn
      omega

theorem Shutdown.Due.main {s : Shutdown} (hd : s.Due (n + 1) i) (h : s.Inv) (hu : s.Unparked)
    (hf : ShutdownAction.main.Unforced s) : (s.step .main).Due n i := by
  obtain ⟨hs, hi, hstep⟩ | ⟨_, c, stage, hstep, hp⟩ := h.main_cases
  · rw [hstep]
    cases he : s.system.events with
    | nil =>
      rw [dispatch_nil he]
      obtain hr | ⟨ha, _⟩ | ⟨before, q, after, hevents, _, _⟩ := hd
      · exact .inl hr
      · exact .inl (released_of_accounted hi (hu.parked hs) ha)
      · rw [he] at hevents
        exact absurd hevents.symm (List.append_ne_nil_of_right_ne_nil _ (List.cons_ne_nil _ _))
    | cons p rest =>
      have hoff := h.silent
      rw [hs] at hoff
      have hp : p.forceHold = false := hf hs hi p (by rw [he]; rfl)
      rw [dispatch_cons he hi, addPendingOnMain_unforced (fun kind => hoff kind rfl) hp]
      exact hd.passes hs hi (hu.parked hs) he
  · rw [hstep]
    exact hd.proceeds hp

theorem Shutdown.Due.run {s : Shutdown} (h : s.Inv) (hu : s.Unparked)
    (hf : UnforcedRun s actions) (hd : s.Due (actions.count .main) i) :
    i ∈ (s.run actions).system.controller.releasedIds := by
  induction actions generalizing s with
  | nil => exact hd.zero hu
  | cons a actions ih =>
    have hnext : (s.step a).Unparked := (hu.step_iff h a).2 hf.1
    refine ih (h.step a) hnext hf.2 ?_
    cases a with
    | worker a =>
      rw [List.count_cons_of_ne (by exact nofun)] at hd
      exact hd.worker a
    | main =>
      rw [List.count_cons_self] at hd
      exact hd.main h hu hf.1

theorem Shutdown.Inv.due {s : Shutdown} (h : s.Inv) (hw : s.system.workers t = .waiting i)
    (hn : s.backlog ≤ n) : s.Due n i := by
  have hknown := h.known t i hw
  rw [Shutdown.backlog] at hn
  rw [InterceptSystem.known, List.mem_append, List.mem_map] at hknown
  cases hknown with
  | inl ha => exact .inr (.inl ⟨ha, by omega⟩)
  | inr he =>
    obtain ⟨p, hp, hid⟩ := he
    obtain ⟨before, after, hevents⟩ := List.append_of_mem hp
    refine .inr (.inr ⟨before, p, after, hevents, hid, ?_⟩)
    rw [hevents, List.length_append, List.length_cons] at hn
    omega

theorem acquire_returns {s : InterceptSystem} (hw : s.workers t = .waiting i)
    (h : i ∈ s.controller.releasedIds) :
    ∃ r, (s.workerStep (.acquire t)).workers t = .running (some r) := by
  obtain ⟨r, hr, hid⟩ := List.mem_map.1 h
  have hfind : (s.controller.released.find? (fun r => r.pending.id == i)).isSome = true :=
    List.find?_isSome.2 ⟨r, hr, beq_iff_eq.2 hid⟩
  obtain ⟨r', hr'⟩ := Option.isSome_iff_exists.1 hfind
  refine ⟨r', ?_⟩
  simp only [InterceptSystem.workerStep, hw, hr']
  exact Function.update_self ..

theorem Shutdown.Inv.run {s : Shutdown} (h : s.Inv) (actions : List ShutdownAction) :
    (s.run actions).Inv := by
  induction actions generalizing s with
  | nil => exact h
  | cons a actions ih => exact ih (h.step a)

theorem Shutdown.Inv.throughout_iff {s : Shutdown} (h : s.Inv) (hu : s.Unparked)
    (actions : List ShutdownAction) :
    Throughout Shutdown.step Shutdown.Unparked s actions ↔ UnforcedRun s actions := by
  refine throughout_iff_along (I := Shutdown.Inv) ?_ ?_ h hu actions
  · intro s a h
    exact h.step a
  · intro s a h hu
    exact hu.step_iff h a

theorem Shutdown.Inv.hands_back {s : Shutdown} (h : s.Inv) (hs : s.stage = .joining)
    (hi : s.system.controller.main = .idle) (he : s.system.events = p :: rest)
    (hf : ShutdownAction.main.Unforced s) :
    (s.step .main).system.controller.main = .passThrough p := by
  have hoff := h.silent
  rw [hs] at hoff
  have hp : p.forceHold = false := hf hs hi p (by rw [he]; rfl)
  obtain ⟨_, _, hstep⟩ | ⟨hbusy, _⟩ := h.main_cases
  · rw [hstep, dispatch_cons he hi, addPendingOnMain_unforced (fun kind => hoff kind rfl) hp]
  · exact absurd ⟨hs, hi⟩ hbusy

structure Shutdown.Stuck (s : Shutdown) (p : PendingRequest) : Prop where
  joining : s.stage = .joining
  current : s.system.controller.current = some p
  main : s.system.controller.main = .idle ∨ ∃ q, s.system.controller.main = .passThrough q

theorem addPendingOnMain_current {c : Controller} (hc : c.current = some p)
    (hi : c.main = .idle) (q : PendingRequest) :
    (c.addPendingOnMain q).current = some p ∧
      ((c.addPendingOnMain q).main = .idle ∨ (c.addPendingOnMain q).main = .passThrough q) := by
  rw [Controller.addPendingOnMain]
  split
  · exact ⟨hc, .inr rfl⟩
  · split
    · exact ⟨hc, .inr rfl⟩
    · rw [hc]
      exact ⟨rfl, .inl hi⟩

theorem Shutdown.Stuck.step {s : Shutdown} (h : s.Stuck p) (hi : s.Inv) (a : ShutdownAction) :
    (s.step a).Stuck p := by
  cases a with
  | worker a =>
    have hc : (s.step (.worker a)).system.controller = s.system.controller :=
      (workerStep_move s.system a).controller_eq
    refine ⟨h.joining, ?_, ?_⟩
    · rw [hc]
      exact h.current
    · rw [hc]
      exact h.main
  | main =>
    obtain hidle | ⟨q, hq⟩ := h.main
    · obtain ⟨_, _, hstep⟩ | ⟨hbusy, _⟩ := hi.main_cases
      · rw [hstep]
        cases he : s.system.events with
        | nil =>
          rw [dispatch_nil he]
          exact ⟨rfl, h.current, h.main⟩
        | cons q rest =>
          rw [dispatch_cons he hidle]
          obtain ⟨hcurrent, hmain⟩ := addPendingOnMain_current h.current hidle q
          refine ⟨rfl, hcurrent, ?_⟩
          cases hmain with
          | inl hm => exact .inl hm
          | inr hm => exact .inr ⟨q, hm⟩
      · exact absurd ⟨h.joining, hidle⟩ hbusy
    · have hbusy : s.system.controller.main ≠ .idle := by
        rw [hq]
        exact nofun
      have hadvance : s.system.controller.advance =
          { s.system.controller with
            released := s.system.controller.released ++ [⟨q, false, false, .passedThrough⟩]
            main := .idle } := by
        simp only [Controller.advance, hq]
      rw [Shutdown.step, Shutdown.mainAction, if_neg hbusy]
      refine ⟨h.joining, ?_, ?_⟩
      · dsimp only [InterceptSystem.step]
        rw [hadvance]
        exact h.current
      · dsimp only [InterceptSystem.step]
        rw [hadvance]
        exact .inl rfl

theorem Shutdown.Stuck.run {s : Shutdown} (h : s.Stuck p) (hi : s.Inv)
    (actions : List ShutdownAction) : (s.run actions).Stuck p := by
  induction actions generalizing s with
  | nil => exact h
  | cons a actions ih => exact ih (h.step hi a) (hi.step a)

theorem Shutdown.Stuck.not_released {s : Shutdown} (h : s.Stuck p) (hi : s.Inv) :
    p.id ∉ s.system.controller.releasedIds := by
  apply hi.system.not_released
  have hbusy : s.system.controller.main ≠ .promote := by
    obtain hm | ⟨q, hm⟩ := h.main
    · rw [hm]
      exact nofun
    · rw [hm]
      exact nofun
  rw [held_of_busy hbusy, parked_some h.current]
  exact List.mem_append_left _ List.mem_cons_self

theorem Shutdown.Inv.forced_stuck {s : Shutdown} (h : s.Inv) (hu : s.Unparked)
    (hs : s.stage = .joining) (hi : s.system.controller.main = .idle)
    (he : s.system.events = p :: rest) (hp : p.forceHold = true) : (s.step .main).Stuck p := by
  obtain ⟨_, _, hstep⟩ | ⟨hbusy, _⟩ := h.main_cases
  · have hcurrent := addPendingOnMain_forced (hu.parked hs) hp
    rw [hstep, dispatch_cons he hi]
    refine ⟨rfl, hcurrent, ?_⟩
    cases addPendingOnMain_cases h.system.controller.shape hi p with
    | inl hc =>
      rw [hc]
      exact .inr ⟨p, rfl⟩
    | inr hc => exact .inl hc.2.main
  · exact absurd ⟨hs, hi⟩ hbusy

/-- Nothing is parked after a shutdown unless a held message comes. -/
theorem shutdown_unparks_iff (before : List InterceptAction) (actions : List ShutdownAction) :
    (Throughout Shutdown.step Shutdown.Unparked (shutdownAndJoin before) actions ↔
        UnforcedRun (shutdownAndJoin before) actions) ∧
      (UnforcedRun (shutdownAndJoin before) actions → ∀ early late, actions = early ++ late →
        let s := (shutdownAndJoin before).run early
        (∀ p rest, s.stage = .joining → s.system.controller.main = .idle →
          s.system.events = p :: rest → late.head? = some .main →
          (s.step .main).system.controller.main = .passThrough p) ∧
        ∀ t i, s.system.workers t = .waiting i → s.backlog ≤ late.count .main →
          let final := ((shutdownAndJoin before).run actions).system
          final.workers t = .waiting i →
            ∃ r, (final.workerStep (.acquire t)).workers t = .running (some r)) ∧
      (UnforcedRun (shutdownAndJoin before) actions →
        let s := (shutdownAndJoin before).run actions
        ∀ p rest, s.stage = .joining → s.system.controller.main = .idle →
          s.system.events = p :: rest → p.forceHold = true →
          ∀ late, p.id ∉ (s.run (.main :: late)).system.controller.releasedIds) := by
  have hinv := shutdownAndJoin_inv before
  have hstart : (shutdownAndJoin before).Unparked := nofun
  have hunparked (actions : List ShutdownAction)
      (hf : UnforcedRun (shutdownAndJoin before) actions) :
      ((shutdownAndJoin before).run actions).Unparked :=
    (hinv.throughout_iff hstart actions).2 hf actions List.prefix_rfl
  refine ⟨hinv.throughout_iff hstart actions, ?_, ?_⟩
  · intro hf early late hactions
    subst hactions
    have hi := hinv.run early
    obtain ⟨hearly, hlate⟩ := along_append.1 hf
    have hfinal : (shutdownAndJoin before).run (early ++ late) =
        ((shutdownAndJoin before).run early).run late := List.foldl_append
    rw [hfinal]
    refine ⟨?_, ?_⟩
    · intro p rest hs hidle he hmain
      cases late with
      | nil => cases hmain
      | cons a late =>
        cases hmain
        exact hi.hands_back hs hidle he hlate.1
    · intro t i hw hn final hwait
      exact acquire_returns hwait ((hi.due hw hn).run hi (hunparked early hearly) hlate)
  · intro hf s p rest hs hidle he hp late
    have hi : s.Inv := hinv.run actions
    have hstuck := hi.forced_stuck (hunparked actions hf) hs hidle he hp
    exact (hstuck.run (hi.step .main) late).not_released ((hi.step .main).run late)

/-- The operator asks for a response, which is posted before the shutdown. -/
def askedResponse : List InterceptAction :=
  [.setEnabled true, .worker (.pend 0 true []), .worker (.create 0), .worker (.post 0),
    .addPendingOnMain, .forwardInterceptingResponse [], .advance, .worker (.acquire 0),
    .worker (.pendResponse 0 true false []), .worker (.create 0), .worker (.post 0)]

/-- The response is parked after everything was forwarded, and its thread waits. -/
theorem asked_response_parked :
    let s := (shutdownAndJoin askedResponse).run (List.replicate 7 .main)
    s.stage = .joining ∧ s.system.controller.current = some ⟨2, .response, true, []⟩ ∧
      s.system.workers 0 = .waiting 2 ∧
      ¬ Throughout Shutdown.step Shutdown.Unparked (shutdownAndJoin askedResponse)
        (List.replicate 7 .main) := by
  refine ⟨by decide, by decide, by decide, ?_⟩
  intro h
  have hlast : ((shutdownAndJoin askedResponse).run (List.replicate 7 .main)).Unparked :=
    h _ List.prefix_rfl
  exact absurd (hlast (by decide)).1 (by decide)

end Nullock.Proxy

import Nullock.InterceptMoves

namespace Nullock.Proxy

def InterceptSystem.known (s : InterceptSystem) : List Nat :=
  s.controller.accounted ++ s.events.map PendingRequest.id

structure InterceptSystem.Inv (s : InterceptSystem) : Prop where
  controller : s.controller.Inv
  nodup : s.known.Nodup
  below : ∀ i ∈ s.known, i < s.nextId
  created : ∀ t p, s.workers t = .created p → p.id < s.nextId ∧ p.id ∉ s.known
  apart : ∀ t u p q, s.workers t = .created p → s.workers u = .created q → p.id = q.id → t = u

theorem InterceptSystem.Inv.main {events : List PendingRequest} (h : InterceptSystem.Inv s)
    (hc : Controller.Inv c)
    (hp : (c.accounted ++ events.map PendingRequest.id).Perm s.known) :
    InterceptSystem.Inv { s with controller := c, events } := by
  refine ⟨hc, hp.nodup_iff.2 h.nodup, ?_, ?_, h.apart⟩
  · intro i hi
    exact h.below i (hp.mem_iff.1 hi)
  · intro t p ht
    have hw := h.created t p ht
    exact ⟨hw.1, fun hk => hw.2 (hp.mem_iff.1 hk)⟩

inductive InterceptSystem.MainMove (s : InterceptSystem) : InterceptSystem → Prop where
  | stay : MainMove s s
  | moves : s.controller.Moves c → c.Shape → MainMove s { s with controller := c }
  | dispatch : s.events = p :: rest → s.controller.main = .idle → MainMove s
      { s with controller := s.controller.addPendingOnMain p, events := rest }

theorem onMain_move (s : InterceptSystem) (slot : Controller → Controller)
    (hm : s.controller.main = .idle → s.controller.Moves (slot s.controller))
    (hs : s.controller.main = .idle → (slot s.controller).Shape) : s.MainMove (s.onMain slot) := by
  rw [InterceptSystem.onMain]
  split
  · rename_i hi
    exact .moves (hm hi) (hs hi)
  · exact .stay

theorem resolveCurrent_move {s : InterceptSystem} (h : s.controller.Shape)
    (edit : PendingRequest → PendingRequest)
    (he : ∀ p, (edit p).id = p.id ∧ (edit p).kind = p.kind) (dropped holdResponse : Bool) :
    s.MainMove (s.onMain (·.resolveCurrent edit dropped holdResponse)) :=
  onMain_move s _ (fun hi => moves_resolveCurrent hi he dropped holdResponse)
    (fun _ => shape_resolveCurrent h he dropped holdResponse)

theorem setToggle_move {s : InterceptSystem} (h : s.controller.Shape) (kind : Kind) (e : Bool) :
    s.MainMove (s.onMain (·.setToggle kind e)) :=
  onMain_move s _ (fun hi => moves_setToggle hi kind e) (fun hi => shape_setToggle h hi kind e)

theorem dispatch_move (s : InterceptSystem) : s.MainMove s.dispatch := by
  rw [InterceptSystem.dispatch]
  split
  · exact .stay
  · rename_i p events he
    split
    · rename_i hi
      exact .dispatch he hi
    · exact .stay

theorem InterceptSystem.Inv.mainMove (h : InterceptSystem.Inv s) (hm : s.MainMove s') :
    s'.Inv ∧ s'.workers = s.workers ∧ s'.known.Perm s.known := by
  cases hm with
  | stay => exact ⟨h, rfl, .refl _⟩
  | moves hm hs =>
    have hp := hm.accounted.append_right (s.events.map PendingRequest.id)
    exact ⟨h.main (h.controller.moves hm hs) hp, rfl, hp⟩
  | @dispatch p rest he hi =>
    have hn := h.nodup
    rw [InterceptSystem.known, he, List.map_cons, List.nodup_append] at hn
    have hf : p.id ∉ s.controller.accounted := by
      intro hm
      exact hn.2.2 _ hm _ List.mem_cons_self rfl
    obtain ⟨hc, ha⟩ := inv_addPendingOnMain h.controller hi hf
    have hp : ((s.controller.addPendingOnMain p).accounted ++
        rest.map PendingRequest.id).Perm s.known := by
      rw [ha, InterceptSystem.known, he, List.append_assoc]
      exact .refl _
    exact ⟨h.main hc hp, rfl, hp⟩

theorem update_cases {f : Nat → Worker} (h : Function.update f t w u = v) :
    (u = t ∧ w = v) ∨ (u ≠ t ∧ f u = v) := by
  by_cases hut : u = t
  · subst hut
    exact .inl ⟨rfl, (Function.update_self ..).symm.trans h⟩
  · exact .inr ⟨hut, (Function.update_of_ne hut ..).symm.trans h⟩

theorem InterceptSystem.Inv.setWorker (h : InterceptSystem.Inv s) (t : Nat)
    (hw : ∀ p, w ≠ .created p) : (s.setWorker t w).Inv := by
  have hold : ∀ u p, (s.setWorker t w).workers u = .created p → s.workers u = .created p := by
    intro u p hu
    cases update_cases hu with
    | inl h => exact absurd h.2 (hw p)
    | inr h => exact h.2
  refine ⟨h.controller, h.nodup, h.below, ?_, ?_⟩
  · intro u p hu
    exact h.created u p (hold u p hu)
  · intro u v p q hu hv hpq
    exact h.apart u v p q (hold u p hu) (hold v q hv) hpq

theorem InterceptSystem.Inv.create (h : InterceptSystem.Inv s) (t : Nat) (kind : Kind)
    (forceHold : Bool) (text : QString) :
    InterceptSystem.Inv
      { s.setWorker t (.created ⟨s.nextId, kind, forceHold, text⟩) with
        nextId := s.nextId + 1 } := by
  have hnew : s.nextId ∉ s.known := fun hk => Nat.lt_irrefl _ (h.below _ hk)
  have hw : ∀ u p, Function.update s.workers t (.created ⟨s.nextId, kind, forceHold, text⟩) u =
      .created p → (u = t ∧ p.id = s.nextId) ∨ s.workers u = .created p := by
    intro u p hu
    cases update_cases hu with
    | inl h =>
      cases h.2
      exact .inl ⟨h.1, rfl⟩
    | inr h => exact .inr h.2
  refine ⟨h.controller, h.nodup, ?_, ?_, ?_⟩
  · intro i hi
    exact Nat.lt_succ_of_lt (h.below i hi)
  · intro u p hu
    cases hw u p hu with
    | inl hp =>
      rw [hp.2]
      exact ⟨Nat.lt_succ_self _, hnew⟩
    | inr hp =>
      have hc := h.created u p hp
      exact ⟨Nat.lt_succ_of_lt hc.1, hc.2⟩
  · intro u v p q hu hv hpq
    cases hw u p hu with
    | inl hp =>
      cases hw v q hv with
      | inl hq => rw [hp.1, hq.1]
      | inr hq =>
        have hc := (h.created v q hq).1
        rw [← hpq, hp.2] at hc
        exact absurd hc (Nat.lt_irrefl _)
    | inr hp =>
      cases hw v q hv with
      | inl hq =>
        have hc := (h.created u p hp).1
        rw [hpq, hq.2] at hc
        exact absurd hc (Nat.lt_irrefl _)
      | inr hq => exact h.apart u v p q hp hq hpq

theorem InterceptSystem.Inv.post (h : InterceptSystem.Inv s) (ht : s.workers t = .created p) :
    InterceptSystem.Inv
      { s.setWorker t (.waiting p.id) with events := s.events ++ [p] } := by
  have hp := h.created t p ht
  have hs := h.setWorker t (w := .waiting p.id) nofun
  have hk : (InterceptSystem.known
      { s.setWorker t (.waiting p.id) with events := s.events ++ [p] }) = s.known ++ [p.id] := by
    rw [InterceptSystem.known, InterceptSystem.known, List.append_assoc, List.map_append]
    rfl
  have hw : ∀ u q, Function.update s.workers t (.waiting p.id) u = .created q →
      u ≠ t ∧ s.workers u = .created q := by
    intro u q hu
    cases update_cases hu with
    | inl h => cases h.2
    | inr h => exact h
  refine ⟨h.controller, ?_, ?_, ?_, hs.apart⟩
  · rw [hk, ← List.concat_eq_append]
    exact h.nodup.concat hp.2
  · intro i hi
    rw [hk, List.mem_append, List.mem_singleton] at hi
    cases hi with
    | inl hi => exact h.below i hi
    | inr hi =>
      rw [hi]
      exact hp.1
  · intro u q hu
    obtain ⟨hut, hu'⟩ := hw u q hu
    have hq := h.created u q hu'
    refine ⟨hq.1, ?_⟩
    rw [hk, List.mem_append, List.mem_singleton]
    intro hm
    cases hm with
    | inl hm => exact hq.2 hm
    | inr hm => exact hut (h.apart u t q p hu' ht hm)

/-- A thread stays, moves, creates a message, or posts the one it has. -/
inductive InterceptSystem.WorkerMove (s : InterceptSystem) : InterceptSystem → Prop where
  | stay : WorkerMove s s
  | move : (∀ p, w ≠ .created p) → WorkerMove s (s.setWorker t w)
  | create (t : Nat) (kind : Kind) (forceHold : Bool) (text : QString) : WorkerMove s
      { s.setWorker t (.created ⟨s.nextId, kind, forceHold, text⟩) with nextId := s.nextId + 1 }
  | post : s.workers t = .created p → WorkerMove s
      { s.setWorker t (.waiting p.id) with events := s.events ++ [p] }

theorem pend_move (s : InterceptSystem) (t : Nat) (rulesHold : Bool) (text : QString) :
    s.WorkerMove (s.pend t rulesHold text) := by
  rw [InterceptSystem.pend]
  split
  · exact .move nofun
  · split
    · exact .move nofun
    · exact .move nofun

theorem pendResponse_move (s : InterceptSystem) (t : Nat) (forceHold rulesHold : Bool)
    (text : QString) : s.WorkerMove (s.pendResponse t forceHold rulesHold text) := by
  rw [InterceptSystem.pendResponse]
  split
  · exact .move nofun
  · split
    · exact .move nofun
    · exact .move nofun

theorem workerStep_move (s : InterceptSystem) (a : WorkerAction) :
    s.WorkerMove (s.workerStep a) := by
  cases a with
  | pend t rulesHold text =>
    rw [InterceptSystem.workerStep]
    split
    · exact pend_move s t rulesHold text
    · exact .stay
  | pendResponse t forceHold rulesHold text =>
    rw [InterceptSystem.workerStep]
    split
    · exact pendResponse_move s t forceHold rulesHold text
    · exact .stay
  | create t =>
    rw [InterceptSystem.workerStep]
    split
    · exact .create t _ _ _
    · exact .stay
  | post t =>
    rw [InterceptSystem.workerStep]
    split
    · rename_i ht
      exact .post ht
    · exact .stay
  | acquire t =>
    rw [InterceptSystem.workerStep]
    split
    · split
      · exact .stay
      · exact .move nofun
    · exact .stay

theorem InterceptSystem.WorkerMove.controller_eq (h : InterceptSystem.WorkerMove s s') :
    s'.controller = s.controller := by
  cases h with
  | stay => rfl
  | move _ => rfl
  | create _ _ _ _ => rfl
  | post _ => rfl

theorem InterceptSystem.Inv.workerMove (h : InterceptSystem.Inv s) (hm : s.WorkerMove s') :
    s'.Inv := by
  cases hm with
  | stay => exact h
  | move hw => exact h.setWorker _ hw
  | create t kind forceHold text => exact h.create t kind forceHold text
  | post ht => exact h.post ht

theorem step_move {s : InterceptSystem} (h : s.controller.Shape) (a : InterceptAction) :
    (∃ w, a = .worker w) ∨ s.MainMove (s.step a) := by
  cases a with
  | worker w => exact .inl ⟨w, rfl⟩
  | addPendingOnMain => exact .inr (dispatch_move s)
  | forward text =>
    exact .inr (resolveCurrent_move h (fun p => { p with text }) (fun _ => ⟨rfl, rfl⟩) false false)
  | forwardInterceptingResponse text =>
    exact .inr (resolveCurrent_move h (fun p => { p with text }) (fun _ => ⟨rfl, rfl⟩) false true)
  | drop => exact .inr (resolveCurrent_move h id (fun _ => ⟨rfl, rfl⟩) true false)
  | forwardAll => exact .inr (onMain_move s _ moves_forwardAll (fun _ => shape_forwardAll _))
  | setEnabled e => exact .inr (setToggle_move h .request e)
  | setResponsesEnabled e => exact .inr (setToggle_move h .response e)
  | advance => exact .inr (.moves (moves_advance h) (shape_advance h))

theorem InterceptSystem.Inv.step (h : InterceptSystem.Inv s) (a : InterceptAction) :
    (s.step a).Inv := by
  cases step_move h.controller.shape a with
  | inl hw =>
    obtain ⟨w, rfl⟩ := hw
    exact h.workerMove (workerStep_move s w)
  | inr hm => exact (h.mainMove hm).1

theorem InterceptSystem.Inv.init : InterceptSystem.Inv {} := by
  refine ⟨⟨⟨fun _ => rfl, nofun, nofun, nofun⟩, List.nodup_nil, nofun, List.Sublist.refl _,
    Nat.zero_le _⟩, List.nodup_nil, nofun, nofun, nofun⟩

theorem InterceptSystem.Inv.run (h : InterceptSystem.Inv s) (actions : List InterceptAction) :
    (s.run actions).Inv := by
  induction actions generalizing s with
  | nil => exact h
  | cons a actions ih => exact ih (h.step a)

theorem inv_of_run (actions : List InterceptAction) : (InterceptSystem.run {} actions).Inv :=
  InterceptSystem.Inv.init.run actions

def Controller.releases (c : Controller) (p : PendingRequest) : Nat :=
  (c.released.map (fun r => r.pending.id)).count p.id

theorem InterceptSystem.Inv.accounted (h : InterceptSystem.Inv s) :
    s.controller.accounted.Nodup :=
  (List.nodup_append.1 h.nodup).1

theorem InterceptSystem.Inv.released_nodup (h : InterceptSystem.Inv s) :
    (s.controller.released.map (fun r => r.pending.id)).Nodup :=
  (List.nodup_append.1 h.accounted).1

theorem InterceptSystem.Inv.not_released (h : InterceptSystem.Inv s) (hp : p ∈ s.controller.held) :
    p.id ∉ s.controller.released.map (fun r => r.pending.id) := by
  intro hr
  have hh := List.mem_append_left (s.controller.main.passing.map PendingRequest.id)
    (List.mem_map_of_mem (f := PendingRequest.id) hp)
  exact (List.nodup_append.1 h.accounted).2.2 _ hr _ hh rfl

theorem InterceptSystem.Inv.releases (h : InterceptSystem.Inv s)
    (hp : p ∈ s.controller.arrivals) :
    s.controller.releases p = if p ∈ s.controller.held then 0 else 1 := by
  split
  · rename_i hh
    exact List.count_eq_zero.2 (h.not_released hh)
  · rename_i hh
    cases h.controller.settled p hp with
    | inl hs => exact absurd hs hh
    | inr hs =>
      obtain ⟨r, hr, hi, _⟩ := hs
      apply List.count_eq_one_of_mem h.released_nodup
      rw [← hi]
      exact List.mem_map_of_mem hr

theorem InterceptSystem.Inv.lawful (h : InterceptSystem.Inv s) (hp : p ∈ s.controller.arrivals)
    (hr : r ∈ s.controller.released) (hi : r.pending.id = p.id) : r.cause.Lawful p.kind := by
  cases h.controller.settled p hp with
  | inl hs =>
    have hm := List.mem_map_of_mem (f := fun r : Released => r.pending.id) hr
    rw [hi] at hm
    exact absurd hm (h.not_released hs)
  | inr hs =>
    obtain ⟨r', hr', hi', _, hl⟩ := hs
    have he := List.inj_on_of_nodup_map h.released_nodup hr hr' (hi.trans hi'.symm)
    rw [he]
    exact hl

theorem InterceptSystem.Inv.current_not_queued (h : InterceptSystem.Inv s)
    (hc : s.controller.current = some p) (hq : q ∈ s.controller.queue) : p.id ≠ q.id := by
  intro hi
  by_cases hm : s.controller.main = .promote
  · have hr := h.controller.shape.signalled p hm hc
    rw [hi] at hr
    have hh : q ∈ s.controller.held := by
      rw [Controller.held, if_pos hm]
      exact List.mem_append_left _ hq
    exact h.not_released hh hr
  · have hn := (List.nodup_append.1 (List.nodup_append.1 h.accounted).2.1).1
    rw [held_of_busy hm, parked_some hc, List.cons_append, List.map_cons, List.nodup_cons] at hn
    apply hn.1
    rw [hi]
    exact List.mem_map_of_mem (List.mem_append_left _ hq)

/-- How often the slot the main thread is in goes on before it returns. -/
def Controller.remaining (c : Controller) : Nat :=
  match c.main with
  | .idle => 0
  | .drain kind => (c.drained kind).length + 2
  | .release todo _ => todo.length + 1
  | .passThrough _ => 1
  | .promote => 1

theorem remaining_advance (c : Controller) : c.advance.remaining = c.remaining - 1 := by
  rw [Controller.advance]
  split
  · rename_i hm
    simp only [Controller.remaining, hm]
  · rename_i kind hm
    simp only [Controller.remaining, hm, (releaseKindAsForward_fields c kind).1]
    rfl
  · rename_i cause hm
    simp only [Controller.remaining, hm]
    rfl
  · rename_i p todo cause hm
    simp only [Controller.remaining, hm]
    rfl
  · rename_i p hm
    simp only [Controller.remaining, hm]
  · rename_i hm
    simp only [Controller.remaining, hm]

theorem idle_of_remaining (h : Controller.remaining c = 0) : c.main = .idle := by
  rw [Controller.remaining] at h
  split at h
  · rename_i hm
    exact hm
  · cases h
  · cases h
  · cases h
  · cases h

theorem remaining_iterate (c : Controller) (n : Nat) :
    (Controller.advance^[n] c).remaining = c.remaining - n := by
  induction n generalizing c with
  | zero => rfl
  | succ n ih =>
    rw [Function.iterate_succ_apply, ih, remaining_advance, Nat.sub_sub, Nat.add_comm]

def InterceptAction.background : InterceptAction → Bool
  | .worker _ => true
  | .advance => true
  | _ => false

theorem run_background (s : InterceptSystem) (h : ∀ a ∈ actions, InterceptAction.background a) :
    (s.run actions).controller =
      Controller.advance^[actions.count .advance] s.controller := by
  induction actions generalizing s with
  | nil => rfl
  | cons a actions ih =>
    have ha := h a List.mem_cons_self
    have hrest := ih (s.step a) (fun b hb => h b (List.mem_cons_of_mem _ hb))
    refine Eq.trans hrest ?_
    cases a with
    | worker a =>
      have hne : InterceptAction.worker a ≠ .advance := nofun
      rw [List.count_cons_of_ne hne]
      exact congrArg _ (workerStep_move s a).controller_eq
    | advance => rw [List.count_cons_self, Function.iterate_succ_apply]; rfl
    | _ => cases ha

theorem iterate_release (c : Controller) (todo : List PendingRequest)
    (hm : c.main = .release todo cause) :
    Controller.advance^[todo.length + 1] c =
      { c with
        released := c.released ++ todo.map (fun p => ⟨p, false, false, cause⟩)
        main := .idle } := by
  induction todo generalizing c with
  | nil =>
    have ha : c.advance = { c with main := .idle } := by
      simp only [Controller.advance, hm]
    rw [List.map_nil, List.append_nil]
    exact ha
  | cons p todo ih =>
    have ha : c.advance =
        { c with
          released := c.released ++ [⟨p, false, false, cause⟩]
          main := .release todo cause } := by
      simp only [Controller.advance, hm]
    rw [List.length_cons, Function.iterate_succ_apply, ha, ih _ rfl]
    simp only [List.map_cons, List.append_assoc, List.singleton_append]

theorem setToggle_off (h : Controller.toggle c kind = true) :
    (c.setToggle kind false).main = .drain kind ∧
      (c.setToggle kind false).parked = c.parked ∧
      (c.setToggle kind false).drained kind = c.drained kind ∧
      (c.setToggle kind false).released = c.released := by
  rw [Controller.setToggle, h]
  cases kind with
  | request => exact ⟨rfl, rfl, rfl, rfl⟩
  | response => exact ⟨rfl, rfl, rfl, rfl⟩

theorem iterate_setToggle_off (h : Controller.toggle c kind = true)
    (hn : (c.drained kind).length + 2 ≤ n) :
    (Controller.advance^[n] (c.setToggle kind false)).main = .idle ∧
      (Controller.advance^[n] (c.setToggle kind false)).released =
        c.released ++ (c.drained kind).map (fun p => ⟨p, false, false, .toggleOff kind⟩) ∧
      (Controller.advance^[n] (c.setToggle kind false)).parked =
        c.parked.filter (otherKind kind) := by
  obtain ⟨hm, hp, hd, hr⟩ := setToggle_off h
  generalize c.setToggle kind false = c₀ at hm hp hd hr
  have ha : c₀.advance = c₀.releaseKindAsForward kind := by
    simp only [Controller.advance, hm]
  obtain ⟨hm', hr', _⟩ := releaseKindAsForward_fields c₀ kind
  have hk := releaseKindAsForward_parked c₀ kind
  rw [hd] at hm'
  have hi := iterate_release _ _ hm'
  obtain ⟨k, rfl⟩ := Nat.exists_eq_add_of_le hn
  have hidle : Controller.advance^[(c.drained kind).length + 2] c₀ =
      { c₀.releaseKindAsForward kind with
        released := (c₀.releaseKindAsForward kind).released ++
          (c.drained kind).map (fun p => ⟨p, false, false, .toggleOff kind⟩)
        main := .idle } := by
    rw [Function.iterate_succ_apply, ha]
    exact hi
  rw [Nat.add_comm, Function.iterate_add_apply, hidle, Function.iterate_fixed rfl]
  refine ⟨rfl, ?_, ?_⟩
  · rw [hr', hr]
  · rw [← hp]
    exact hk

theorem drained_length (c : Controller) (kind : Kind) :
    (c.drained kind).length = (c.parked.filter (ofKind kind)).length := by
  rw [Controller.drained, Controller.parked, List.filter_append, List.length_append,
    List.length_append, Nat.add_comm]

def switchOff : Kind → InterceptAction
  | .request => .setEnabled false
  | .response => .setResponsesEnabled false

theorem step_switchOff (hi : s.controller.main = .idle) (kind : Kind) :
    (InterceptSystem.step s (switchOff kind)).controller = s.controller.setToggle kind false := by
  cases kind with
  | request => exact congrArg _ (if_pos hi)
  | response => exact congrArg _ (if_pos hi)

/-- Switching a kind off releases the parked messages of that kind. -/
def InterceptSystem.DrainsOwnKind (s : InterceptSystem) (kind : Kind) : Prop :=
  ∀ background : List InterceptAction, (∀ a ∈ background, a.background) →
    (s.controller.parked.filter (ofKind kind)).length + 2 ≤ background.count .advance →
    let c := (s.run (switchOff kind :: background)).controller
    c.main = .idle ∧ c.parked = s.controller.parked.filter (otherKind kind) ∧
      ∃ drained : List PendingRequest, drained.Perm (s.controller.parked.filter (ofKind kind)) ∧
        c.released =
          s.controller.released ++ drained.map (fun p => ⟨p, false, false, .toggleOff kind⟩)

theorem drainsOwnKind (hi : s.controller.main = .idle) (ht : s.controller.toggle kind = true) :
    InterceptSystem.DrainsOwnKind s kind := by
  intro background hb hn
  have hc : (s.run (switchOff kind :: background)).controller =
      Controller.advance^[background.count .advance] (s.controller.setToggle kind false) := by
    rw [← step_switchOff hi]
    exact run_background _ hb
  rw [← drained_length] at hn
  obtain ⟨hm, hr, hp⟩ := iterate_setToggle_off ht hn
  dsimp only
  rw [hc]
  refine ⟨hm, hp, s.controller.drained kind, ?_, hr⟩
  rw [Controller.drained, Controller.parked, List.filter_append]
  exact List.perm_append_comm

theorem intercept_run (actions : List InterceptAction) :
    let s := InterceptSystem.run {} actions
    let c := s.controller
    (∀ p ∈ c.arrivals, c.releases p = if p ∈ c.held then 0 else 1) ∧
      (∀ p ∈ c.arrivals, ∀ r ∈ c.released, r.pending.id = p.id →
        r.cause = .operator ∨ r.cause = .toggleOff p.kind) ∧
      (∀ p, c.current = some p → ∀ q ∈ c.queue, p.id ≠ q.id) ∧
      (c.current = none → c.queue = []) ∧
      ((c.arrivals.map PendingRequest.id).Nodup ∧ (c.promoted ++ c.queue).Sublist c.arrivals ∧
        ∀ p, c.current = some p → c.promoted.getLast? = some p) ∧
      (∀ background : List InterceptAction, (∀ a ∈ background, a.background) →
        c.remaining ≤ background.count .advance → (s.run background).controller.main = .idle) ∧
      (∀ kind, c.main = .idle → c.toggle kind = true → s.DrainsOwnKind kind) ∧
      c.queueDepth ≤ kMaxPendingIntercepts := by
  intro s c
  have h : s.Inv := inv_of_run actions
  refine ⟨fun p hp => h.releases hp, fun p hp r hr hi => h.lawful hp hr hi, ?_,
    h.controller.shape.waiting, ?_, ?_, ?_, h.controller.room⟩
  · intro p hc q hq
    exact h.current_not_queued hc hq
  · exact ⟨h.controller.distinct, h.controller.ordered, h.controller.shape.shown⟩
  · intro background hb hn
    apply idle_of_remaining
    rw [run_background s hb, remaining_iterate]
    exact Nat.sub_eq_zero_of_le hn
  · intro kind hi ht
    exact drainsOwnKind hi ht

example : ((InterceptSystem.run {} [.setEnabled true, .setResponsesEnabled true,
    .worker (.pend 0 true []), .worker (.create 0), .worker (.post 0),
    .worker (.pendResponse 1 false true []), .worker (.create 1), .worker (.post 1),
    .addPendingOnMain, .addPendingOnMain, .setEnabled false, .advance, .advance,
    .advance]).controller.parked = [⟨2, .response, false, []⟩]) := by
  decide

end Nullock.Proxy

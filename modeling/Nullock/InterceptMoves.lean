import Nullock.Intercept
import Mathlib.Data.List.Nodup

namespace Nullock.Proxy

def MainTask.taken : MainTask → List PendingRequest
  | .release todo _ => todo
  | _ => []

def MainTask.passing : MainTask → List PendingRequest
  | .passThrough p => [p]
  | _ => []

def Controller.parked (c : Controller) : List PendingRequest := c.current.toList ++ c.queue

def Controller.held (c : Controller) : List PendingRequest :=
  (if c.main = .promote then c.queue else c.parked) ++ c.main.taken

def Controller.accounted (c : Controller) : List Nat :=
  c.released.map (fun r => r.pending.id) ++
    (c.held.map PendingRequest.id ++ c.main.passing.map PendingRequest.id)

def ReleaseCause.Lawful (cause : ReleaseCause) (kind : Kind) : Prop :=
  cause = .operator ∨ cause = .toggleOff kind

def Released.Settles (r : Released) (p : PendingRequest) : Prop :=
  r.pending.id = p.id ∧ r.pending.kind = p.kind ∧ r.cause.Lawful p.kind

def Controller.Settled (c : Controller) (p : PendingRequest) : Prop :=
  p ∈ c.held ∨ ∃ r ∈ c.released, r.Settles p

/-- How the current message, the queue and the running slot fit together. -/
structure Controller.Shape (c : Controller) : Prop where
  waiting : c.current = none → c.queue = []
  shown : ∀ p, c.current = some p → c.promoted.getLast? = some p
  signalled : ∀ p, c.main = .promote → c.current = some p →
    p.id ∈ c.released.map (fun r => r.pending.id)
  lawful : ∀ todo cause, c.main = .release todo cause → ∀ p ∈ todo, cause.Lawful p.kind

/-- What a step of the main thread that parks nothing does to the messages. -/
structure Controller.Moves (c c' : Controller) : Prop where
  arrivals : c'.arrivals = c.arrivals
  accounted : c'.accounted.Perm c.accounted
  settled : ∀ p, c.Settled p → c'.Settled p
  ordered : (c'.promoted ++ c'.queue).Sublist (c.promoted ++ c.queue)
  depth : c'.queueDepth ≤ c.queueDepth

structure Controller.Inv (c : Controller) : Prop where
  shape : c.Shape
  distinct : (c.arrivals.map PendingRequest.id).Nodup
  settled : ∀ p ∈ c.arrivals, c.Settled p
  ordered : (c.promoted ++ c.queue).Sublist c.arrivals
  room : c.queueDepth ≤ kMaxPendingIntercepts

theorem Controller.Inv.moves (h : Controller.Inv c) (hm : c.Moves c') (hs : c'.Shape) :
    c'.Inv := by
  have ha := hm.arrivals
  refine ⟨hs, ?_, ?_, ?_, hm.depth.trans h.room⟩
  · rw [ha]
    exact h.distinct
  · intro p hp
    rw [ha] at hp
    exact hm.settled p (h.settled p hp)
  · rw [ha]
    exact hm.ordered.trans h.ordered

theorem Controller.Moves.of_held (ha : c'.arrivals = c.arrivals)
    (hp : c'.accounted.Perm c.accounted) (hr : c.released ⊆ c'.released)
    (hh : ∀ p ∈ c.held, c'.Settled p)
    (ho : (c'.promoted ++ c'.queue).Sublist (c.promoted ++ c.queue))
    (hd : c'.queueDepth ≤ c.queueDepth) : Controller.Moves c c' := by
  refine ⟨ha, hp, ?_, ho, hd⟩
  intro p hs
  cases hs with
  | inl h => exact hh p h
  | inr h =>
    obtain ⟨r, hm, hr'⟩ := h
    exact .inr ⟨r, hr hm, hr'⟩

theorem Controller.Settled.of_last (hr : c.released = rs ++ [r]) (h : Released.Settles r p) :
    Controller.Settled c p := by
  refine .inr ⟨r, ?_, h⟩
  rw [hr]
  exact List.mem_append_right _ (List.mem_singleton.2 rfl)

theorem held_of_busy (h : Controller.main c ≠ .promote) : c.held = c.parked ++ c.main.taken := by
  rw [Controller.held, if_neg h]

theorem held_of_quiet (h : Controller.main c ≠ .promote) (ht : c.main.taken = []) :
    c.held = c.parked := by
  rw [held_of_busy h, ht, List.append_nil]

theorem held_of_idle (h : Controller.main c = .idle) : c.held = c.parked :=
  held_of_quiet (by rw [h]; nofun) (by rw [h]; rfl)

theorem accounted_of_idle (h : Controller.main c = .idle) :
    c.accounted = c.released.map (fun r => r.pending.id) ++ c.parked.map PendingRequest.id := by
  rw [Controller.accounted, held_of_idle h, h]
  exact congrArg _ (List.append_nil _)

theorem queueDepth_eq (c : Controller) : c.queueDepth = c.parked.length := by
  rw [Controller.queueDepth, Controller.parked, List.length_append, Nat.add_comm]

theorem parked_some (hc : Controller.current c = some p) : c.parked = p :: c.queue := by
  rw [Controller.parked, hc]
  rfl

theorem resolveCurrent_none (hc : Controller.current c = none) :
    c.resolveCurrent edit dropped holdResponse = c := by
  simp only [Controller.resolveCurrent, hc]

theorem resolveCurrent_some (hc : Controller.current c = some p) :
    c.resolveCurrent edit dropped holdResponse =
      { c with
        released := c.released ++ [⟨edit p, dropped, holdResponse, .operator⟩]
        main := .promote } := by
  simp only [Controller.resolveCurrent, hc]

section
variable {c : Controller} {edit : PendingRequest → PendingRequest}

theorem moves_resolveCurrent (hi : c.main = .idle)
    (he : ∀ p, (edit p).id = p.id ∧ (edit p).kind = p.kind) (dropped holdResponse : Bool) :
    c.Moves (c.resolveCurrent edit dropped holdResponse) := by
  cases hc : c.current with
  | none =>
    rw [resolveCurrent_none hc]
    exact ⟨rfl, .refl _, fun _ h => h, List.Sublist.refl _, Nat.le_refl _⟩
  | some p =>
    rw [resolveCurrent_some hc]
    refine .of_held rfl ?_ (List.subset_append_left _ _) ?_ (List.Sublist.refl _) (Nat.le_refl _)
    · rw [accounted_of_idle hi, parked_some hc]
      simp [Controller.accounted, Controller.held, MainTask.taken, MainTask.passing, (he p).1]
    · intro q hq
      rw [held_of_idle hi, parked_some hc] at hq
      cases hq with
      | head => exact .of_last rfl ⟨(he p).1, (he p).2, .inl rfl⟩
      | tail _ hq => exact .inl (List.mem_append_left _ hq)

theorem shape_resolveCurrent (h : c.Shape)
    (he : ∀ p, (edit p).id = p.id ∧ (edit p).kind = p.kind) (dropped holdResponse : Bool) :
    (c.resolveCurrent edit dropped holdResponse).Shape := by
  cases hc : c.current with
  | none =>
    rw [resolveCurrent_none hc]
    exact h
  | some p =>
    rw [resolveCurrent_some hc]
    refine ⟨h.waiting, h.shown, ?_, fun _ _ hm => nomatch hm⟩
    intro q _ hq
    have hq' : q = p := Option.some.inj (hq.symm.trans hc)
    rw [hq', List.map_append, List.mem_append]
    exact .inr (List.mem_singleton.2 (he p).1.symm)

end

theorem moves_forwardAll (hi : Controller.main c = .idle) : c.Moves c.forwardAll := by
  refine .of_held rfl ?_ (List.Subset.refl _) ?_ ?_ (Nat.zero_le _)
  · rw [accounted_of_idle hi]
    have hp : c.forwardAll.main.passing = [] := rfl
    have hh : c.forwardAll.held = c.parked := rfl
    rw [Controller.accounted, hp, hh, List.map_nil, List.append_nil]
    exact .refl _
  · intro p hp
    rw [held_of_idle hi] at hp
    exact .inl hp
  · exact (List.nil_sublist _).append_left _

theorem shape_forwardAll (c : Controller) : c.forwardAll.Shape := by
  refine ⟨fun _ => rfl, fun _ hc => (nomatch hc), fun _ hm => (nomatch hm), ?_⟩
  intro todo cause hm p _
  cases hm
  exact .inl rfl

theorem setToggle_cases (hi : Controller.main c = .idle) (kind : Kind) (e : Bool) :
    ∃ a b m, (m = .idle ∨ m = .drain kind) ∧
      c.setToggle kind e = { c with enabled := a, enabledResponses := b, main := m } := by
  rw [Controller.setToggle]
  split
  · exact ⟨c.enabled, c.enabledResponses, c.main, .inl hi, rfl⟩
  · split
    · cases kind with
      | request => exact ⟨e, c.enabledResponses, c.main, .inl hi, rfl⟩
      | response => exact ⟨c.enabled, e, c.main, .inl hi, rfl⟩
    · cases kind with
      | request => exact ⟨e, c.enabledResponses, .drain .request, .inr rfl, rfl⟩
      | response => exact ⟨c.enabled, e, .drain .response, .inr rfl, rfl⟩

theorem moves_setToggle (hi : Controller.main c = .idle) (kind : Kind) (e : Bool) :
    c.Moves (c.setToggle kind e) := by
  obtain ⟨a, b, m, hm, hc⟩ := setToggle_cases hi kind e
  have hp : m ≠ .promote ∧ m.taken = [] ∧ m.passing = [] := by
    cases hm with
    | inl hm => subst hm; exact ⟨nofun, rfl, rfl⟩
    | inr hm => subst hm; exact ⟨nofun, rfl, rfl⟩
  rw [hc]
  have hh : (Controller.held { c with enabled := a, enabledResponses := b, main := m }) =
      c.parked := by
    exact held_of_quiet hp.1 hp.2.1
  refine .of_held rfl ?_ (List.Subset.refl _) ?_ (List.Sublist.refl _) (Nat.le_refl _)
  · rw [accounted_of_idle hi, Controller.accounted, hh, hp.2.2, List.map_nil, List.append_nil]
  · intro p hp
    rw [held_of_idle hi, ← hh] at hp
    exact .inl hp

theorem shape_setToggle (h : Controller.Shape c) (hi : c.main = .idle) (kind : Kind) (e : Bool) :
    (c.setToggle kind e).Shape := by
  obtain ⟨a, b, m, hm, hc⟩ := setToggle_cases hi kind e
  rw [hc]
  cases hm with
  | inl hm => subst hm; exact ⟨h.waiting, h.shown, nofun, nofun⟩
  | inr hm => subst hm; exact ⟨h.waiting, h.shown, nofun, nofun⟩

theorem promoteNextLocked_parked (c : Controller) : c.promoteNextLocked.parked = c.queue := by
  cases hq : c.queue with
  | nil => simp only [Controller.promoteNextLocked, Controller.parked, hq]; rfl
  | cons p queue => simp only [Controller.promoteNextLocked, Controller.parked, hq]; rfl

theorem promoteNextLocked_promoted (c : Controller) :
    c.promoteNextLocked.promoted ++ c.promoteNextLocked.queue = c.promoted ++ c.queue := by
  cases hq : c.queue with
  | nil => simp only [Controller.promoteNextLocked, hq]
  | cons p queue =>
    simp only [Controller.promoteNextLocked, hq, List.append_assoc, List.singleton_append]

theorem promoteNextLocked_fields (c : Controller) :
    c.promoteNextLocked.main = c.main ∧ c.promoteNextLocked.released = c.released ∧
      c.promoteNextLocked.arrivals = c.arrivals := by
  rw [Controller.promoteNextLocked]
  split
  · exact ⟨rfl, rfl, rfl⟩
  · exact ⟨rfl, rfl, rfl⟩

theorem promoteNextLocked_waiting (c : Controller) :
    c.promoteNextLocked.current = none → c.promoteNextLocked.queue = [] := by
  cases hq : c.queue with
  | nil => simp only [Controller.promoteNextLocked, hq]; exact fun _ => trivial
  | cons p queue => simp only [Controller.promoteNextLocked, hq]; exact nofun

theorem promoteNextLocked_shown (c : Controller) (p : PendingRequest) :
    c.promoteNextLocked.current = some p → c.promoteNextLocked.promoted.getLast? = some p := by
  cases hq : c.queue with
  | nil => simp only [Controller.promoteNextLocked, hq]; exact nofun
  | cons q queue =>
    simp only [Controller.promoteNextLocked, hq, List.getLast?_concat]
    exact id

theorem releaseKindAsForward_fields (c : Controller) (kind : Kind) :
    (c.releaseKindAsForward kind).main = .release (c.drained kind) (.toggleOff kind) ∧
      (c.releaseKindAsForward kind).released = c.released ∧
      (c.releaseKindAsForward kind).arrivals = c.arrivals := by
  rw [Controller.releaseKindAsForward]
  split
  · exact promoteNextLocked_fields _
  · exact ⟨rfl, rfl, rfl⟩

theorem toList_filter_otherKind (h : Option.any (ofKind kind) o = false) :
    o.toList.filter (otherKind kind) = o.toList := by
  cases o with
  | none => rfl
  | some p =>
    rw [Option.any_some] at h
    simp [otherKind, h]

theorem releaseKindAsForward_parked (c : Controller) (kind : Kind) :
    (c.releaseKindAsForward kind).parked = c.parked.filter (otherKind kind) := by
  rw [Controller.releaseKindAsForward]
  split
  · rename_i hk
    rw [promoteNextLocked_parked, Controller.parked, List.filter_append]
    cases hc : c.current with
    | none => rfl
    | some p =>
      rw [hc, Option.any_some] at hk
      simp [otherKind, hk]
  · rename_i hk
    rw [Bool.not_eq_true] at hk
    rw [Controller.parked, Controller.parked, List.filter_append, toList_filter_otherKind hk]

theorem releaseKindAsForward_promoted (c : Controller) (kind : Kind) :
    ((c.releaseKindAsForward kind).promoted ++ (c.releaseKindAsForward kind).queue).Sublist
      (c.promoted ++ c.queue) := by
  have hs : (c.promoted ++ c.queue.filter (otherKind kind)).Sublist (c.promoted ++ c.queue) :=
    List.filter_sublist.append_left _
  rw [Controller.releaseKindAsForward]
  split
  · rw [promoteNextLocked_promoted]
    exact hs
  · exact hs

theorem drained_perm (c : Controller) (kind : Kind) :
    (c.parked.filter (otherKind kind) ++ c.drained kind).Perm c.parked := by
  have hd : (c.drained kind).Perm (c.parked.filter (ofKind kind)) := by
    rw [Controller.drained, Controller.parked, List.filter_append]
    exact List.perm_append_comm
  have hp := List.filter_append_perm (ofKind kind) c.parked
  exact (hd.append_left _).trans (List.perm_append_comm.trans hp)

theorem mem_drained (h : p ∈ Controller.drained c kind) : p.kind = kind := by
  rw [Controller.drained, ← List.filter_append, List.mem_filter] at h
  exact beq_iff_eq.1 h.2

theorem moves_releaseKindAsForward (hm : Controller.main c = .drain k) (kind : Kind) :
    c.Moves (c.releaseKindAsForward kind) := by
  obtain ⟨hm', hr, ha⟩ := releaseKindAsForward_fields c kind
  have hh : c.held = c.parked := held_of_quiet (by rw [hm]; nofun) (by rw [hm]; rfl)
  have hh' : (c.releaseKindAsForward kind).held =
      c.parked.filter (otherKind kind) ++ c.drained kind := by
    rw [held_of_busy (by rw [hm']; nofun), hm', releaseKindAsForward_parked]
    rfl
  have hp := drained_perm c kind
  refine .of_held ha ?_ ?_ ?_ (releaseKindAsForward_promoted c kind) ?_
  · rw [Controller.accounted, Controller.accounted, hm, hm', hh, hh', hr]
    exact ((hp.map _).append_right _).append_left _
  · rw [hr]
    exact List.Subset.refl _
  · intro p hp'
    rw [hh] at hp'
    left
    rw [hh']
    exact hp.mem_iff.2 hp'
  · rw [queueDepth_eq, queueDepth_eq, releaseKindAsForward_parked]
    exact List.length_filter_le _ _

theorem shape_releaseKindAsForward (h : Controller.Shape c) (kind : Kind) :
    (c.releaseKindAsForward kind).Shape := by
  obtain ⟨hm, _, _⟩ := releaseKindAsForward_fields c kind
  refine ⟨?_, ?_, ?_, ?_⟩
  · rw [Controller.releaseKindAsForward]
    split
    · exact promoteNextLocked_waiting _
    · intro hc
      exact (congrArg _ (h.waiting hc)).trans rfl
  · rw [Controller.releaseKindAsForward]
    split
    · exact promoteNextLocked_shown _
    · exact h.shown
  · intro p hp
    rw [hm] at hp
    cases hp
  · intro todo cause hr p hp
    rw [hm] at hr
    cases hr
    rw [mem_drained hp]
    exact .inr rfl

theorem moves_promote (hm : Controller.main c = .promote) :
    c.Moves { c.promoteNextLocked with main := .idle } := by
  obtain ⟨_, hr, ha⟩ := promoteNextLocked_fields c
  have hh : c.held = c.queue := by
    rw [Controller.held, if_pos hm, hm]
    exact List.append_nil _
  have hh' : (Controller.held { c.promoteNextLocked with main := .idle }) = c.queue :=
    (held_of_idle rfl).trans (promoteNextLocked_parked c)
  refine .of_held ha ?_ ?_ ?_ ?_ ?_
  · rw [Controller.accounted, Controller.accounted, hh, hh', hm, hr]
    exact .refl _
  · rw [hr]
    exact List.Subset.refl _
  · intro p hp
    left
    rw [hh']
    rw [hh] at hp
    exact hp
  · have hp := promoteNextLocked_promoted c
    dsimp only
    rw [hp]
  · have hd := queueDepth_eq c.promoteNextLocked
    have hl : c.queue.length ≤ c.queueDepth := Nat.le_add_right _ _
    rw [promoteNextLocked_parked] at hd
    exact hd.le.trans hl

theorem moves_release (hm : Controller.main c = .release (p :: todo) cause)
    (hl : cause.Lawful p.kind) :
    c.Moves
      { c with
        released := c.released ++ [⟨p, false, false, cause⟩]
        main := .release todo cause } := by
  have hh : c.held = c.parked ++ (p :: todo) := by
    rw [held_of_busy (by rw [hm]; nofun), hm]
    rfl
  refine .of_held rfl ?_ (List.subset_append_left _ _) ?_ (List.Sublist.refl _) (Nat.le_refl _)
  · rw [Controller.accounted, Controller.accounted, hh, hm, held_of_busy (MainTask.noConfusion ·)]
    simp only [List.map_append, List.map_cons, List.map_nil, MainTask.taken, MainTask.passing,
      List.append_nil, List.append_assoc, List.singleton_append]
    exact List.perm_middle.symm.append_left _
  · intro q hq
    rw [hh, List.mem_append, List.mem_cons] at hq
    cases hq with
    | inl hq => exact .inl (List.mem_append_left _ hq)
    | inr hq =>
      cases hq with
      | inl hq =>
        subst hq
        exact .of_last rfl ⟨rfl, rfl, hl⟩
      | inr hq => exact .inl (List.mem_append_right _ hq)

theorem moves_passThrough (hm : Controller.main c = .passThrough p) :
    c.Moves
      { c with
        released := c.released ++ [⟨p, false, false, .passedThrough⟩]
        main := .idle } := by
  have hh : c.held = c.parked := held_of_quiet (by rw [hm]; nofun) (by rw [hm]; rfl)
  refine .of_held rfl ?_ (List.subset_append_left _ _) ?_ (List.Sublist.refl _) (Nat.le_refl _)
  · rw [accounted_of_idle rfl, Controller.accounted, hh, hm]
    simp only [List.map_append, List.map_cons, List.map_nil, MainTask.passing, List.append_assoc]
    exact List.perm_append_comm.append_left _
  · intro q hq
    rw [hh] at hq
    left
    rw [held_of_idle rfl]
    exact hq

theorem moves_advance (h : Controller.Shape c) : c.Moves c.advance := by
  rw [Controller.advance]
  split
  · exact ⟨rfl, .refl _, fun _ h => h, List.Sublist.refl _, Nat.le_refl _⟩
  · rename_i kind hm
    exact moves_releaseKindAsForward hm kind
  · rename_i cause hm
    have hh : c.held = c.parked := held_of_quiet (by rw [hm]; nofun) (by rw [hm]; rfl)
    refine .of_held rfl ?_ (List.Subset.refl _) ?_ (List.Sublist.refl _) (Nat.le_refl _)
    · rw [accounted_of_idle rfl, Controller.accounted, hh, hm]
      exact .of_eq (congrArg _ (List.append_nil _).symm)
    · intro p hp
      rw [hh] at hp
      exact .inl (List.mem_append_left _ hp)
  · rename_i p todo cause hm
    exact moves_release hm (h.lawful _ _ hm p List.mem_cons_self)
  · rename_i p hm
    exact moves_passThrough hm
  · rename_i hm
    exact moves_promote hm

theorem shape_advance (h : Controller.Shape c) : c.advance.Shape := by
  rw [Controller.advance]
  split
  · exact h
  · exact shape_releaseKindAsForward h _
  · exact ⟨h.waiting, h.shown, nofun, nofun⟩
  · rename_i p todo cause hm
    refine ⟨h.waiting, h.shown, nofun, ?_⟩
    intro todo' cause' hm' q hq
    cases hm'
    exact h.lawful _ _ hm q (List.mem_cons_of_mem _ hq)
  · exact ⟨h.waiting, h.shown, nofun, nofun⟩
  · exact ⟨promoteNextLocked_waiting c, promoteNextLocked_shown c, nofun, nofun⟩

theorem interceptQueueHasRoom_iff (n : Nat) :
    interceptQueueHasRoom n = true ↔ n < kMaxPendingIntercepts := by
  have hn : ¬ (n : Int) < 0 := Int.not_lt.2 (Int.natCast_nonneg n)
  rw [interceptQueueHasRoom, if_neg hn, decide_eq_true_iff]
  exact Int.ofNat_lt

structure Controller.Parks (c : Controller) (p : PendingRequest) (c' : Controller) : Prop where
  arrivals : c'.arrivals = c.arrivals ++ [p]
  parked : c'.parked = c.parked ++ [p]
  ordered : c'.promoted ++ c'.queue = c.promoted ++ c.queue ++ [p]
  main : c'.main = .idle
  released : c'.released = c.released
  shape : c'.Shape

theorem addPendingOnMain_cases (h : Controller.Shape c) (hi : c.main = .idle)
    (p : PendingRequest) :
    c.addPendingOnMain p = { c with main := .passThrough p } ∨
      (c.queueDepth < kMaxPendingIntercepts ∧ c.Parks p (c.addPendingOnMain p)) := by
  rw [Controller.addPendingOnMain]
  split
  · exact .inl rfl
  · split
    · exact .inl rfl
    · rename_i hroom
      rw [Bool.not_eq_true, Bool.not_eq_false', interceptQueueHasRoom_iff] at hroom
      refine .inr ⟨hroom, ?_⟩
      split
      · rename_i hc
        have hq := h.waiting hc
        refine ⟨rfl, ?_, ?_, hi, rfl, nofun, ?_, ?_, ?_⟩
        · rw [Controller.parked, Controller.parked, hc, hq]
          rfl
        · rw [List.append_assoc, List.append_assoc, hq]
          rfl
        · intro q hq
          cases hq
          exact List.getLast?_concat
        · intro q hm
          exact nomatch hi.symm.trans hm
        · intro todo cause hm
          exact nomatch hi.symm.trans hm
      · rename_i q hc
        refine ⟨rfl, ?_, (List.append_assoc _ _ _).symm, hi, rfl, ?_, h.shown, ?_, ?_⟩
        · exact (List.append_assoc _ _ _).symm
        · intro hn
          exact nomatch hn.symm.trans hc
        · intro q hm
          exact nomatch hi.symm.trans hm
        · intro todo cause hm
          exact nomatch hi.symm.trans hm

theorem Controller.Settled.id_mem (h : Controller.Settled c p) : p.id ∈ c.accounted := by
  rw [Controller.accounted, List.mem_append, List.mem_append]
  cases h with
  | inl h => exact .inr (.inl (List.mem_map_of_mem h))
  | inr h =>
    obtain ⟨r, hr, hs⟩ := h
    left
    rw [← hs.1]
    exact List.mem_map_of_mem hr

theorem inv_passThrough (h : Controller.Inv c) (hi : c.main = .idle) (p : PendingRequest) :
    Controller.Inv { c with main := .passThrough p } := by
  refine ⟨⟨h.shape.waiting, h.shape.shown, nofun, nofun⟩, h.distinct, ?_, h.ordered, h.room⟩
  intro q hq
  cases h.settled q hq with
  | inl hs =>
    rw [held_of_idle hi] at hs
    exact .inl (List.mem_append_left _ hs)
  | inr hs => exact .inr hs

theorem inv_parks (h : Controller.Inv c) (hi : c.main = .idle)
    (hd : c.queueDepth < kMaxPendingIntercepts) (hf : p.id ∉ c.accounted) (hp : c.Parks p c') :
    c'.Inv := by
  have hh : c'.held = c.held ++ [p] := by
    rw [held_of_idle hp.main, held_of_idle hi]
    exact hp.parked
  refine ⟨hp.shape, ?_, ?_, ?_, ?_⟩
  · rw [hp.arrivals, List.map_append, List.map_singleton, ← List.concat_eq_append]
    apply List.Nodup.concat _ h.distinct
    intro hm
    obtain ⟨q, hq, hqi⟩ := List.mem_map.1 hm
    rw [← hqi] at hf
    exact hf (h.settled q hq).id_mem
  · intro q hq
    rw [hp.arrivals, List.mem_append, List.mem_singleton] at hq
    cases hq with
    | inl hq =>
      cases h.settled q hq with
      | inl hs =>
        left
        rw [hh]
        exact List.mem_append_left _ hs
      | inr hs =>
        right
        rw [hp.released]
        exact hs
    | inr hq =>
      left
      rw [hh, hq]
      exact List.mem_append_right _ (List.mem_singleton.2 rfl)
  · rw [hp.ordered, hp.arrivals]
    exact h.ordered.append_right _
  · rw [queueDepth_eq, hp.parked, List.length_append, ← queueDepth_eq]
    exact hd

theorem inv_addPendingOnMain (h : Controller.Inv c) (hi : c.main = .idle)
    (hf : p.id ∉ c.accounted) :
    (c.addPendingOnMain p).Inv ∧ (c.addPendingOnMain p).accounted = c.accounted ++ [p.id] := by
  cases addPendingOnMain_cases h.shape hi p with
  | inl hc =>
    rw [hc]
    refine ⟨inv_passThrough h hi p, ?_⟩
    rw [accounted_of_idle hi, List.append_assoc]
    rw [Controller.accounted, held_of_quiet (MainTask.noConfusion ·) rfl]
    rfl
  | inr hc =>
    obtain ⟨hd, hp⟩ := hc
    refine ⟨inv_parks h hi hd hf hp, ?_⟩
    rw [accounted_of_idle hp.main, accounted_of_idle hi, hp.parked, hp.released,
      List.append_assoc, List.map_append]
    rfl

end Nullock.Proxy

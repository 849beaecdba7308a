import Nullock.IntruderInv

namespace Nullock.Intruder
open ScopeLogic IntruderEngine IntruderRules

section Delivery
open State
variable {E : RegexEngine} {P : RuleLibrary} {s : State}

theorem owed_pop (h : s.queue = cb :: later) :
    (State.owed { s with queue := later }).Sublist s.owed := by
  rw [State.owed, State.owed, h]
  exact ((List.sublist_cons_self cb later).filterMap _).append_right _

theorem State.Inv.pop (h : s.Inv) (hq : s.queue = cb :: later) (hcb : cb ≠ .finished) :
    State.Inv { s with queue := later } where
  shown := by
    intro row display outcome origin hmem
    exact h.shown row display outcome origin (hq ▸ List.mem_cons_of_mem _ hmem)
  due := fun e he => h.due e ((owed_pop hq).subset he)
  once := h.once.sublist ((owed_pop hq).map _)
  ended := by
    have hended := h.ended
    rw [hq, List.count_cons_of_ne hcb] at hended
    exact hended
  quiet := by
    intro hrun
    have hsub := owed_pop hq
    rw [h.quiet hrun] at hsub
    exact List.sublist_nil.1 hsub
  last := by
    have hlast := h.last
    rw [hq] at hlast
    exact hlast.of_cons
  serial := h.serial
  known := by
    intro e he
    apply h.known e
    rw [second, hq, List.mem_append]
    rcases List.mem_append.1 he with he | he
    · exact .inl (((List.sublist_cons_self cb later).filterMap _).subset he)
    · exact .inr he

theorem State.Inv.finish (h : s.Inv) (hq : s.queue = .finished :: later) :
    State.Inv { s with queue := later, running := false, stopRequested := false } := by
  have hended := h.ended
  have hlast := h.last
  rw [hq, List.count_cons_self] at hended
  rw [hq] at hlast
  have hnone : later.filterMap Callback.owed = [] := by
    rw [List.filterMap_eq_nil_iff]
    intro cb hcb
    exact (List.pairwise_cons.1 hlast).1 cb hcb rfl
  have hone : (if s.running then 1 else 0) ≤ 1 := by
    split
    · exact Nat.le_refl 1
    · exact Nat.zero_le 1
  have hworker : s.worker = none := by
    cases hw : s.worker with
    | none => rfl
    | some w =>
      rw [hw, Option.isSome_some, if_pos rfl] at hended
      omega
  have hcount : later.count .finished = 0 := by omega
  have howed : State.owed { s with queue := later, running := false, stopRequested := false } =
      [] := by
    rw [State.owed, hnone, hworker]
    rfl
  refine ⟨?_, ?_, ?_, ?_, fun _ => howed, hlast.of_cons, h.serial, ?_⟩
  · intro row display outcome origin hmem
    exact h.shown row display outcome origin (hq ▸ List.mem_cons_of_mem _ hmem)
  · intro e he
    rw [howed] at he
    cases he
  · rw [howed]
    exact List.nodup_nil
  · dsimp only
    rw [hcount, hworker]
    rfl
  · intro e he
    apply h.known e
    rw [second, hq, List.mem_append]
    rcases List.mem_append.1 he with he | he
    · exact .inl (((List.sublist_cons_self _ later).filterMap _).subset he)
    · exact .inr he

theorem owed_result (hq : s.queue = .result row display outcome origin :: later) :
    s.owed = (row, origin) :: State.owed { s with queue := later } := by
  rw [State.owed, hq]
  rfl

theorem State.Inv.deliver (h : s.Inv) (hclean : ResendsClean s .deliver) :
    (Intruder.deliver s).Inv := by
  rw [Intruder.deliver]
  split
  · exact h
  · rename_i cb queue hq
    cases cb with
    | result row display outcome origin =>
      have hpop := h.pop hq (by nofun)
      rw [Callback.run]
      split
      · exact hpop
      · rename_i a ha
        refine hpop.setRow ha { a.record outcome origin with payloadValues := display } rfl ?_
          (s.completedCount + 1)
        intro e he heq
        have honce := h.once
        rw [owed_result hq, List.map_cons, List.nodup_cons] at honce
        exact honce.1 (List.mem_map.2 ⟨e, he, heq⟩)
    | resent row outcome origin =>
      have hpop := h.pop hq (by nofun)
      rw [Callback.run]
      split
      · exact hpop
      · rename_i a ha
        obtain ⟨_, hcomplete, _⟩ := hclean row outcome origin queue hq a ha
        refine hpop.setRow ha (a.record outcome origin) rfl ?_ s.completedCount
        intro e he heq
        have hopen := (hpop.due e he a (heq ▸ ha)).2.1
        rw [hcomplete] at hopen
        cases hopen
    | finished => exact h.finish hq

theorem inv_step (s : State) (e : Event) (h : s.Inv) (hclean : ResendsClean s e) :
    (step E P s e).Inv := by
  cases e with
  | configure c => exact ⟨h.shown, h.due, h.once, h.ended, h.quiet, h.last, h.serial, h.known⟩
  | start => exact h.start
  | resume => exact h.resume
  | stop => exact h.stop
  | clear => exact h.clear
  | loadRun run => exact h.loadRun run
  | resend row => exact h.resend row
  | dispatch => exact h.dispatch
  | complete k outcome => exact h.complete k outcome
  | joined => exact h.joined
  | resendDone k outcome => exact h.resendDone k outcome
  | deliver => exact h.deliver hclean

theorem inv_initial (c : RunConfig) : State.Inv { config := c } where
  shown := by
    intro _ _ _ _ hmem
    cases hmem
  due := by
    intro e he
    cases he
  once := List.nodup_nil
  ended := rfl
  quiet := fun _ => rfl
  last := List.Pairwise.nil
  serial := by
    intro w cur hw
    cases hw
  known := by
    intro e he
    cases he

end Delivery

section Books
open State
variable {E : RegexEngine} {P : RuleLibrary} {s s' : State}

theorem consistent_initial (c : RunConfig) : Consistent { config := c } :=
  ⟨rfl, Nat.le_refl _, nofun⟩

theorem Consistent.fresh (rows : List IntruderAttack)
    (hcount : s'.completedCount = completeRows rows) (hrows : s'.attacks = rows)
    (hnone : ∀ a ∈ rows, a.sentFor = none) : Consistent s' := by
  refine ⟨?_, ?_, ?_⟩
  · rw [hcount, hrows]
  · rw [hcount, hrows]
    exact List.countP_le_length
  · intro a ha o ho
    rw [hrows] at ha
    rw [hnone a ha] at ho
    cases ho

theorem Consistent.start (h : Consistent s) : Consistent (Intruder.start E P s) := by
  simp only [Intruder.start]
  split
  · exact h
  · split
    · exact h
    · split
      · exact h
      · refine Consistent.fresh _ ?_ rfl ?_
        · rw [completeRows, List.countP_map]
          exact (List.countP_eq_zero.2 (fun _ _ h => by cases h)).symm
        · intro a ha
          obtain ⟨row, _, rfl⟩ := List.mem_map.1 ha
          rfl

theorem Consistent.resume (h : Consistent s) : Consistent (Intruder.resume s) := by
  simp only [Intruder.resume]
  split
  · exact h
  · split
    · exact h
    · split
      · exact h
      · exact ⟨h.counted, h.bounded, h.owned⟩

theorem Consistent.stop (h : Consistent s) : Consistent (Intruder.stop s) := by
  rw [Intruder.stop]
  split
  · exact ⟨h.counted, h.bounded, h.owned⟩
  · exact h

theorem Consistent.clear (h : Consistent s) : Consistent (Intruder.clear s) := by
  simp only [Intruder.clear]
  split
  · exact h.stop
  · exact Consistent.fresh [] rfl rfl (fun _ hm => by cases hm)

theorem Consistent.loadRun (h : Consistent s) (run : SavedRun) :
    Consistent (Intruder.loadRun s run) := by
  rw [Intruder.loadRun]
  split
  · exact h
  · refine Consistent.fresh _ ?_ rfl ?_
    · rw [completeRows, List.countP_map]
      rfl
    · intro a ha
      obtain ⟨row, _, rfl⟩ := List.mem_map.1 ha
      rfl

theorem consistent_resend_iff (h : Consistent s) (row : Int) :
    Consistent (Intruder.resend P s row) ↔
      ∀ a, resendRow s row = some a → a.complete = false := by
  rw [Intruder.resend]
  split
  · rename_i hnone
    rw [hnone]
    exact ⟨fun _ a ha => (by cases ha), fun _ => h⟩
  · rename_i a hrow
    obtain ⟨_, ha⟩ := resendRow_some hrow
    constructor
    · intro hnext b hb
      rw [hrow, Option.some.injEq] at hb
      rw [← hb]
      have hnow : s.completedCount = completeRows (s.attacks.set row.toNat a.reset) :=
        hnext.counted
      cases hc : a.complete with
      | false => rfl
      | true =>
        have hcount := completeRows_undone ha a.reset hc rfl
        rw [← hnow, ← h.counted] at hcount
        omega
    · intro hopen
      have hcount := completeRows_kept ha a.reset (hopen a hrow).symm
      refine ⟨?_, ?_, ?_⟩
      · dsimp only
        rw [hcount]
        exact h.counted
      · dsimp only
        rw [List.length_set]
        exact h.bounded
      · intro b hb o ho
        rcases List.mem_or_eq_of_mem_set hb with hb | rfl
        · exact h.owned b hb o ho
        · cases ho

theorem Consistent.result (hi : s.Inv) (h : Consistent s)
    (hq : s.queue = .result row display outcome origin :: later) :
    Consistent (Callback.run { s with queue := later } (.result row display outcome origin)) := by
  rw [Callback.run]
  split
  · exact ⟨h.counted, h.bounded, h.owned⟩
  · rename_i a ha
    have hmem : (row, origin) ∈ s.owed := owed_result hq ▸ List.mem_cons_self
    obtain ⟨htable, hopen, hfits⟩ := hi.due _ hmem a ha
    have hdisplay : display = displayValues origin.combo :=
      hi.shown row display outcome origin (hq ▸ List.mem_cons_self)
    have hcount := completeRows_done ha
      { a.record outcome origin with payloadValues := display } hopen rfl
    have hle : completeRows (s.attacks.set row
        { a.record outcome origin with payloadValues := display }) ≤ s.attacks.length :=
      List.countP_le_length.trans_eq List.length_set
    rw [← h.counted] at hcount
    refine ⟨?_, ?_, ?_⟩
    · exact hcount.symm
    · dsimp only
      rw [List.length_set, ← hcount]
      exact hle
    · intro b hb o ho
      rcases List.mem_or_eq_of_mem_set hb with hb | rfl
      · exact h.owned b hb o ho
      · cases ho
        exact ⟨htable, hdisplay.symm, hfits⟩

theorem consistent_resent_iff (hi : s.Inv) (h : Consistent s)
    (hq : s.queue = .resent row outcome origin :: later) :
    Consistent (Callback.run { s with queue := later } (.resent row outcome origin)) ↔
      ∀ a, s.attacks[row]? = some a →
        origin.table = s.table ∧ a.complete = true ∧ displayValues a.combo = a.payloadValues := by
  have hknown : s.Known (row, origin) := by
    apply hi.known
    rw [second, hq]
    exact List.mem_cons_self
  rw [Callback.run]
  split
  · rename_i hnone
    refine ⟨fun _ a ha => ?_, fun _ => ⟨h.counted, h.bounded, h.owned⟩⟩
    rw [hnone] at ha
    cases ha
  · rename_i a ha
    have ha : s.attacks[row]? = some a := ha
    constructor
    · intro hnext b hb
      rw [ha, Option.some.injEq] at hb
      rw [← hb]
      have hcomplete : a.complete = true := by
        have hnow : s.completedCount = completeRows (s.attacks.set row
            (a.record outcome origin)) := hnext.counted
        cases hc : a.complete with
        | true => rfl
        | false =>
          have hcount := completeRows_done ha (a.record outcome origin) hc rfl
          rw [← hnow, ← h.counted] at hcount
          omega
      have hmem : a.record outcome origin ∈ s.attacks.set row (a.record outcome origin) :=
        List.mem_set (List.getElem?_eq_some_iff.1 ha).1 _
      obtain ⟨htable, hdisplay, _⟩ := hnext.owned _ hmem origin rfl
      have hcombo : origin.combo = a.combo := hknown.2 htable a ha
      exact ⟨htable, hcomplete, hcombo ▸ hdisplay⟩
    · intro hclean
      obtain ⟨htable, hcomplete, hdisplay⟩ := hclean a ha
      have hcount := completeRows_kept ha (a.record outcome origin) hcomplete.symm
      have hcombo : origin.combo = a.combo := hknown.2 htable a ha
      refine ⟨?_, ?_, ?_⟩
      · dsimp only
        rw [hcount]
        exact h.counted
      · dsimp only
        rw [List.length_set]
        exact h.bounded
      · intro b hb o ho
        rcases List.mem_or_eq_of_mem_set hb with hb | rfl
        · exact h.owned b hb o ho
        · cases ho
          exact ⟨htable, hcombo.symm ▸ hdisplay, .inl hcombo⟩

theorem consistent_deliver_iff (hi : s.Inv) (h : Consistent s) :
    Consistent (Intruder.deliver s) ↔ ResendsClean s .deliver := by
  rw [Intruder.deliver]
  split
  · rename_i hq
    refine ⟨fun _ row outcome origin queue hq' => ?_, fun _ => h⟩
    rw [hq] at hq'
    cases hq'
  · rename_i cb queue hq
    cases cb with
    | result row display outcome origin =>
      refine ⟨fun _ row outcome origin queue' hq' => ?_, fun _ => h.result hi hq⟩
      rw [hq] at hq'
      cases hq'
    | resent row outcome origin =>
      rw [consistent_resent_iff hi h hq]
      constructor
      · intro hclean row' outcome' origin' queue' hq'
        rw [hq] at hq'
        cases hq'
        exact hclean
      · intro hclean
        exact hclean row outcome origin queue hq
    | finished =>
      refine ⟨fun _ row outcome origin queue' hq' => ?_, fun _ => ⟨h.counted, h.bounded, h.owned⟩⟩
      rw [hq] at hq'
      cases hq'

theorem consistent_same (h : Consistent s) (hcount : s'.completedCount = s.completedCount)
    (hrows : s'.attacks = s.attacks) (htable : s'.table = s.table) : Consistent s' := by
  refine ⟨?_, ?_, ?_⟩
  · rw [hcount, hrows]
    exact h.counted
  · rw [hcount, hrows]
    exact h.bounded
  · rw [hrows, htable]
    exact h.owned

theorem consistent_step_iff (s : State) (e : Event) (hi : s.Inv) (h : Consistent s) :
    Consistent (step E P s e) ↔ ResendsClean s e := by
  cases e with
  | configure c => exact iff_of_true (consistent_same h rfl rfl rfl) trivial
  | start => exact iff_of_true h.start trivial
  | resume => exact iff_of_true h.resume trivial
  | stop => exact iff_of_true h.stop trivial
  | clear => exact iff_of_true h.clear trivial
  | loadRun run => exact iff_of_true (h.loadRun run) trivial
  | resend row => exact consistent_resend_iff h row
  | dispatch => exact iff_of_true (consistent_same h rfl rfl rfl) trivial
  | complete k outcome =>
    apply iff_of_true _ trivial
    rw [step, complete]
    split
    · exact h
    · split
      · exact h
      · exact consistent_same h rfl rfl rfl
  | joined =>
    apply iff_of_true _ trivial
    rw [step, joined]
    split
    · exact h
    · split
      · exact consistent_same h rfl rfl rfl
      · exact h
  | resendDone k outcome =>
    apply iff_of_true _ trivial
    rw [step, resendDone]
    split
    · exact h
    · exact consistent_same h rfl rfl rfl
  | deliver => exact consistent_deliver_iff hi h

/-- The books are right all through a run exactly if no re-send upsets them. -/
theorem bookkeeping_iff (E : RegexEngine) (P : RuleLibrary) (c : RunConfig) (events : List Event) :
    Throughout (step E P) Consistent { config := c } events ↔
      Along (step E P) ResendsClean { config := c } events :=
  throughout_iff_along_kept inv_step consistent_step_iff (inv_initial c) (consistent_initial c)
    events

end Books

section Samples

def noSkips : RegexEngine := ⟨fun _ => true, fun _ _ => false⟩

def keepPayload : RuleLibrary := fun value _ _ => value

def oneRow : RunConfig :=
  { host := utf16 "a.example"
    requestTemplate := utf16 "GET /?q=§x§ HTTP/1.1"
    payloadSets := [utf16 "1"] }

def answered : Outcome := ⟨200, 0, 1, [], false, false, []⟩

def oneAttack : List Event :=
  [.start, .dispatch, .complete 0 answered, .deliver, .joined, .deliver]

def after (events : List Event) : State :=
  events.foldl (step noSkips keepPayload) { config := oneRow }

/-- The row is sent again and then resumed before the answer is there. -/
def resumedTooSoon : List Event :=
  oneAttack ++ [.resend 0, .resume, .dispatch, .complete 0 answered, .deliver]

/-- The row is sent again, and the answer finds the table of the next attack. -/
def startedTooSoon : List Event :=
  oneAttack ++ [.resend 0, .start, .resendDone 0 answered, .deliver]

/-- A re-send makes the count too large, and a result reaches another attack. -/
theorem resend_upsets_books :
    (after resumedTooSoon).attacks.length = 1 ∧ (after resumedTooSoon).completedCount = 2 ∧
      (after startedTooSoon).table = 2 ∧ (after startedTooSoon).completedCount = 0 ∧
      (after startedTooSoon).attacks.map (fun a => (a.complete, a.sentFor)) =
        [(true, some ⟨1, [some (utf16 "1")]⟩)] ∧
      ¬ Consistent (after resumedTooSoon) ∧ ¬ Consistent (after startedTooSoon) := by
  have hrows : (after resumedTooSoon).attacks.length = 1 := by decide
  have hcount : (after resumedTooSoon).completedCount = 2 := by decide
  have hnone : (after startedTooSoon).completedCount = 0 := by decide
  have hdone : completeRows (after startedTooSoon).attacks = 1 := by decide
  refine ⟨hrows, hcount, by decide, hnone, by decide, ?_, ?_⟩
  · intro h
    have hle := h.bounded
    rw [hrows, hcount] at hle
    omega
  · intro h
    have heq := h.counted
    rw [hnone, hdone] at heq
    omega

end Samples

end Nullock.Intruder

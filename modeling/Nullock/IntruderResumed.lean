import Nullock.IntruderStops

namespace Nullock.Intruder
open ScopeLogic HttpLogic Proxy SessionRules IntruderEngine IntruderRules IntruderGrep RedirectLogic
open IntruderPersist

section Coverage
variable {env : Environment} {send : Server} {c : RunConfig} {combos : List Combo} {s : State}

theorem Covered.dispatch (h : Covered s) (hg : Graded env send c combos s) :
    Covered { s with worker := s.worker.map (Worker.dispatch s.stopRequested) } := by
  refine ⟨h.going, ?_⟩
  intro i a ha hcomplete
  obtain ⟨e, he, hi⟩ := h.rows i a ha hcomplete
  refine ⟨e, ?_, hi⟩
  cases hw : s.worker with
  | none =>
    rw [State.owed, hw] at he
    exact he
  | some w =>
    rw [mem_owed hw] at he
    rw [h.going, mem_owed (w := w.dispatch false) rfl, dispatch_going (hg.config w hw).2,
      (dispatch_same w false).1]
    exact he

theorem Covered.complete {w : Worker} (h : Covered s) (hg : Graded env send c combos s)
    (hw : s.worker = some w) (hk : w.inFlight[k]? = some (row, combo)) (outcome : Outcome) :
    Covered (complete s k outcome) := by
  rw [complete_eq hw hk]
  refine ⟨h.going, ?_⟩
  intro i a ha hcomplete
  obtain ⟨e, he, hi⟩ := h.rows i a ha hcomplete
  refine ⟨e, ?_, hi⟩
  rw [mem_owed (w := w.completed k outcome) rfl, List.filterMap_append, List.mem_append,
    (completed_same w k outcome).1]
  rcases (mem_owed hw).1 he with he | ⟨e', he', rfl⟩
  · exact .inl (.inl he)
  · rcases mem_completed (hg.config w hw).2 hk outcome he' with rfl | he'
    · exact .inl (.inr List.mem_cons_self)
    · exact .inr ⟨e', he', rfl⟩

theorem Covered.joined (h : Covered s) : Covered (joined s) := by
  rcases joined_cases s with heq | ⟨w, hw, hpending, heq⟩
  · rw [heq]
    exact h
  · rw [heq]
    refine ⟨h.going, ?_⟩
    intro i a ha hcomplete
    obtain ⟨e, he, hi⟩ := h.rows i a ha hcomplete
    refine ⟨e, ?_, hi⟩
    rcases (mem_owed hw).1 he with he | ⟨e', he', _⟩
    · rw [State.owed, List.filterMap_append]
      exact List.mem_append_left _ (List.mem_append_left _ he)
    · rw [hpending] at he'
      cases he'

theorem Covered.deliver (h : Covered s) (hg : Graded env send c combos s) :
    Covered (deliver s) := by
  cases hq : s.queue with
  | nil =>
    rw [Intruder.deliver, hq]
    exact h
  | cons cb later =>
    have hbrings := hg.queue cb (hq ▸ List.mem_cons_self)
    rw [deliver_eq hq]
    cases cb with
    | resent row outcome origin => exact hbrings.elim
    | finished =>
      refine ⟨rfl, ?_⟩
      intro i a ha hcomplete
      obtain ⟨e, he, hi⟩ := h.rows i a ha hcomplete
      rw [State.owed, hq] at he
      exact ⟨e, he, hi⟩
    | result row display outcome origin =>
      rw [Callback.run]
      have hrest : ∀ i a, s.attacks[i]? = some a → a.complete = false → i ≠ row →
          ∃ e ∈ State.owed { s with queue := later }, e.1 = i := by
        intro i a ha hcomplete hne
        obtain ⟨e, he, hi⟩ := h.rows i a ha hcomplete
        rw [owed_result hq] at he
        rcases List.mem_cons.1 he with rfl | he
        · exact absurd hi.symm hne
        · exact ⟨e, he, hi⟩
      split
      · rename_i hnone
        refine ⟨h.going, ?_⟩
        intro i a ha hcomplete
        apply hrest i a ha hcomplete
        rintro rfl
        have hnone' : s.attacks[i]? = none := hnone
        have ha' : s.attacks[i]? = some a := ha
        rw [hnone'] at ha'
        cases ha'
      · rename_i b hb
        refine ⟨h.going, ?_⟩
        intro i a ha hcomplete
        rcases getElem?_set_cases ha with ⟨_, rfl⟩ | ⟨hne, ha⟩
        · cases hcomplete
        · exact hrest i a ha hcomplete hne

theorem Covered.step {s : Sending} (h : Covered s.state) (hg : Graded env send c combos s.state)
    {e : RunEvent} (he : e ≠ .stop) : Covered (s.step env send e).state := by
  cases e with
  | dispatch => exact h.dispatch hg
  | answered k cut elapsedMs =>
    rcases answered_cases env send s k cut elapsedMs with
      heq | ⟨w, row, combo, outcome, requests, hw, hk, _, _, heq⟩
    · rw [Sending.step, heq]
      exact h
    · rw [Sending.step, heq]
      exact h.complete hg hw hk outcome
  | joined => exact h.joined
  | deliver => exact h.deliver hg
  | stop => exact absurd rfl he

theorem Covered.run {s : Sending} (h : Covered s.state) (hg : Graded env send c combos s.state)
    (hstop : .stop ∉ events) : Covered (s.run env send events).state := by
  induction events generalizing s with
  | nil => exact h
  | cons e events ih =>
    rw [List.mem_cons, not_or] at hstop
    obtain ⟨he, hrest⟩ := hstop
    exact ih (h.step hg (Ne.symm he)) (hg.step e) hrest

theorem seen_of_finished (hg : Graded env send c combos s) (h : Covered s)
    (hdone : s.running = false) :
    s.seen = (numbered combos).map (fun row => answeredRow env send c row.1 row.2) := by
  apply List.ext_getElem?
  intro i
  rw [State.seen, List.getElem?_map, numbered, List.map_map, List.getElem?_map,
    List.getElem?_zipIdx, Option.map_map, Nat.zero_add]
  cases ha : s.attacks[i]? with
  | none =>
    have hlen : combos[i]? = none := by
      rw [List.getElem?_eq_none_iff, ← hg.length]
      exact List.getElem?_eq_none_iff.1 ha
    rw [hlen]
    rfl
  | some a =>
    have hlt : i < combos.length := by
      rw [← hg.length]
      exact (List.getElem?_eq_some_iff.1 ha).1
    have hcombo : combos[i]? = some combos[i] := List.getElem?_eq_getElem hlt
    have hcomplete : a.complete = true := by
      cases hc : a.complete with
      | true => rfl
      | false =>
        obtain ⟨e, he, _⟩ := h.rows i a ha hc
        rw [hg.inv.quiet hdone] at he
        cases he
    have hseen := hg.rows i a _ ha hcombo
    rw [hcomplete, if_pos rfl] at hseen
    rw [hcombo, Option.map_some, hseen]
    rfl

end Coverage

section Once
variable {env : Environment} {send : Server} {c : RunConfig} {combos : List Combo} {s : Sending}

theorem complete_step (hg : Graded env send c combos s.state) (ha : s.state.attacks[i]? = some a)
    (hcomplete : a.complete = true) (e : RunEvent) :
    (∃ a', (s.step env send e).state.attacks[i]? = some a' ∧ a'.complete = true) ∧
      sentFor i (s.step env send e).sent = sentFor i s.sent := by
  cases e with
  | dispatch => exact ⟨⟨a, ha, hcomplete⟩, rfl⟩
  | answered k cut elapsedMs =>
    rcases answered_cases env send s k cut elapsedMs with
      heq | ⟨w, row, combo, outcome, requests, hw, hk, _, _, heq⟩
    · rw [Sending.step, heq]
      exact ⟨⟨a, ha, hcomplete⟩, rfl⟩
    · rw [Sending.step, heq, complete_eq hw hk]
      refine ⟨⟨a, ha, hcomplete⟩, ?_⟩
      have howed : (row, (⟨w.table, combo⟩ : Origin)) ∈ s.state.owed :=
        (mem_owed hw).2 (.inr ⟨(row, combo), List.mem_append_left _ (List.mem_of_getElem? hk), rfl⟩)
      have hne : row ≠ i := by
        rintro rfl
        rw [hg.waiting howed ha] at hcomplete
        cases hcomplete
      dsimp only
      rw [sentFor_append, sentFor_other hne, List.append_nil]
  | joined =>
    rcases joined_cases s.state with heq | ⟨w, _, _, heq⟩
    · rw [Sending.step, heq]
      exact ⟨⟨a, ha, hcomplete⟩, rfl⟩
    · rw [Sending.step, heq]
      exact ⟨⟨a, ha, hcomplete⟩, rfl⟩
  | deliver =>
    refine ⟨?_, rfl⟩
    rw [Sending.step]
    cases hq : s.state.queue with
    | nil =>
      rw [Intruder.deliver, hq]
      exact ⟨a, ha, hcomplete⟩
    | cons cb later =>
      have hbrings := hg.queue cb (hq ▸ List.mem_cons_self)
      dsimp only
      rw [deliver_eq hq]
      cases cb with
      | resent row outcome origin => exact hbrings.elim
      | finished => exact ⟨a, ha, hcomplete⟩
      | result row display outcome origin =>
        rw [Callback.run]
        split
        · exact ⟨a, ha, hcomplete⟩
        · rename_i b hb
          have hne : row ≠ i := by
            rintro rfl
            rw [hg.waiting (owed_head hq) ha] at hcomplete
            cases hcomplete
          refine ⟨a, ?_, hcomplete⟩
          dsimp only
          rw [List.getElem?_set_ne hne]
          exact ha
  | stop =>
    refine ⟨⟨a, ?_, hcomplete⟩, rfl⟩
    rw [Sending.step, Intruder.stop]
    split
    · exact ha
    · exact ha

theorem complete_run (hg : Graded env send c combos s.state) (ha : s.state.attacks[i]? = some a)
    (hcomplete : a.complete = true) (events : List RunEvent) :
    sentFor i (s.run env send events).sent = sentFor i s.sent := by
  induction events generalizing s a with
  | nil => rfl
  | cons e events ih =>
    obtain ⟨⟨a', ha', hcomplete'⟩, hsent⟩ := complete_step hg ha hcomplete e
    exact (ih (hg.step e) ha' hcomplete').trans hsent

theorem not_mem_of_sublist {rows rows' : List (Nat × α)} (hsub : rows'.Sublist rows)
    (h : i ∉ rows.map Prod.fst) : i ∉ rows'.map Prod.fst :=
  fun hmem => h ((hsub.map Prod.fst).subset hmem)

theorem SentOnce.answered {w : Worker} (h : SentOnce env send c combos s)
    (hg : Graded env send c combos s.state) (hw : s.state.worker = some w)
    (hk : w.inFlight[k]? = some (row, combo)) (outcome : Outcome)
    (hrequests : ∃ attempts ≤ w.config.retries.toNat,
      requests = firing env send w.config attempts combo) :
    SentOnce env send c combos
      { state := complete s.state k outcome
        sent := s.sent ++ requests.map (fun r => (row, r)) } := by
  obtain ⟨attempts, hle, rfl⟩ := hrequests
  have honce := (hg.inv.complete k outcome).once
  obtain ⟨rfl, hchain⟩ := hg.config w hw
  obtain ⟨kept, hperm, hsub⟩ := completed_pending hk outcome
  have hmem : (row, combo) ∈ w.pending := List.mem_append_left _ (List.mem_of_getElem? hk)
  have hpending : ∀ e ∈ (w.completed k outcome).pending, e ∈ w.pending :=
    fun e he => hsub.subset (hperm.symm.subset (List.mem_cons_of_mem _ he))
  rw [complete_eq hw hk] at honce ⊢
  rw [owed_rows (w := w.completed k outcome) rfl, List.filterMap_append, List.map_append] at honce
  intro i
  dsimp only
  rw [sentFor_append]
  by_cases hi : row = i
  · subst hi
    rcases h row with ⟨hnone, _, _⟩ | ⟨_, hnot⟩
    · right
      refine ⟨⟨attempts, hle, combo, hg.pending w hw _ hmem, ?_⟩, ?_⟩
      · rw [hnone, sentFor_own, List.nil_append]
      · intro w' hw' hmem'
        cases hw'
        have hin : row ∈ ((s.state.queue.filterMap Callback.owed).map Prod.fst) ++
            [(row, (⟨w.table, combo⟩ : Origin))].map Prod.fst :=
          List.mem_append_right _ List.mem_cons_self
        exact (List.nodup_append.1 honce).2.2 row hin row hmem' rfl
    · exact absurd (List.mem_map_of_mem hmem) (hnot w hw)
  · rw [sentFor_other hi, List.append_nil]
    rcases h i with ⟨hnone, hwaits, hnot⟩ | ⟨hsent, hnot⟩
    · left
      refine ⟨hnone, hwaits, ?_⟩
      rw [List.filterMap_append, List.map_append, List.mem_append, not_or]
      refine ⟨hnot, ?_⟩
      intro hrow
      exact hi (List.mem_singleton.1 hrow).symm
    · right
      refine ⟨hsent, ?_⟩
      intro w' hw' hmem'
      cases hw'
      obtain ⟨e, he, rfl⟩ := List.mem_map.1 hmem'
      exact hnot w hw (List.mem_map_of_mem (hpending e he))

theorem SentOnce.deliver (h : SentOnce env send c combos s)
    (hg : Graded env send c combos s.state) :
    SentOnce env send c combos { s with state := deliver s.state } := by
  cases hq : s.state.queue with
  | nil =>
    rw [Intruder.deliver, hq]
    exact h
  | cons cb later =>
    have hbrings := hg.queue cb (hq ▸ List.mem_cons_self)
    rw [deliver_eq hq]
    intro i
    have hi := h i
    cases cb with
    | resent row outcome origin => exact hbrings.elim
    | finished =>
      rw [hq] at hi
      exact hi
    | result row display outcome origin =>
      rw [hq] at hi
      rw [Callback.run]
      rcases hi with ⟨hnone, hwaits, hnot⟩ | hsent
      · have hnot' : i ∉ ((row, origin) :: later.filterMap Callback.owed).map Prod.fst := hnot
        rw [List.map_cons, List.mem_cons, not_or] at hnot'
        left
        split
        · exact ⟨hnone, hwaits, hnot'.2⟩
        · refine ⟨hnone, ?_, hnot'.2⟩
          intro a ha
          rcases getElem?_set_cases ha with ⟨heq, _⟩ | ⟨_, ha⟩
          · exact absurd heq hnot'.1
          · exact hwaits a ha
      · right
        split
        · exact hsent
        · exact hsent

theorem SentOnce.step (h : SentOnce env send c combos s)
    (hg : Graded env send c combos s.state) (e : RunEvent) :
    SentOnce env send c combos (s.step env send e) := by
  cases e with
  | dispatch =>
    intro i
    rcases h i with hwaits | ⟨hsent, hnot⟩
    · exact .inl hwaits
    · refine .inr ⟨hsent, ?_⟩
      intro w' hw'
      obtain ⟨w, hw, rfl⟩ := Option.map_eq_some_iff.1 hw'
      exact not_mem_of_sublist (dispatch_kept (hg.config w hw).2 _) (hnot w hw)
  | answered k cut elapsedMs =>
    rcases answered_cases env send s k cut elapsedMs with
      heq | ⟨w, row, combo, outcome, requests, hw, hk, _, hrequests, heq⟩
    · rw [Sending.step, heq]
      exact h
    · rw [Sending.step, heq]
      exact h.answered hg hw hk outcome hrequests
  | joined =>
    rcases joined_cases s.state with heq | ⟨w, _, _, heq⟩
    · rw [Sending.step, heq]
      exact h
    · rw [Sending.step, heq]
      intro i
      rcases h i with ⟨hnone, hwaits, hnot⟩ | ⟨hsent, _⟩
      · refine .inl ⟨hnone, hwaits, ?_⟩
        dsimp only
        rw [filterMap_enqueue _ rfl]
        exact hnot
      · refine .inr ⟨hsent, ?_⟩
        intro w' hw'
        cases hw'
  | deliver => exact h.deliver hg
  | stop =>
    rw [Sending.step, Intruder.stop]
    split
    · exact h
    · exact h

theorem SentOnce.run (h : SentOnce env send c combos s)
    (hg : Graded env send c combos s.state) (events : List RunEvent) :
    SentOnce env send c combos (s.run env send events) := by
  induction events generalizing s with
  | nil => exact h
  | cons e events ih => exact ih (h.step hg e) (hg.step e)

end Once

end Nullock.Intruder

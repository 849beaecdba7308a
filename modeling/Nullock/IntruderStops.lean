import Nullock.IntruderSending

namespace Nullock.Intruder
open ScopeLogic HttpLogic Proxy SessionRules IntruderEngine IntruderRules IntruderGrep RedirectLogic
open IntruderPersist

section Answers
variable {env : Environment} {send : Server} {c : RunConfig} {combos : List Combo} {s : State}

theorem answered_cases (env : Environment) (send : Server) (s : Sending) (k cut : Nat)
    (elapsedMs : Int) :
    s.answered env send k cut elapsedMs = s ∨
      ∃ w row combo outcome requests, s.state.worker = some w ∧
        w.inFlight[k]? = some (row, combo) ∧
        outcome = outcomeOf (fireOne env w.config send combo).grade elapsedMs ∧
        (∃ attempts ≤ w.config.retries.toNat,
          requests = firing env send w.config attempts combo) ∧
        s.answered env send k cut elapsedMs =
          { state := complete s.state k outcome
            sent := s.sent ++ requests.map (fun r => (row, r)) } := by
  rw [Sending.answered]
  split
  · exact .inl rfl
  · rename_i w hw
    split
    · exact .inl rfl
    · rename_i row combo hk
      right
      refine ⟨w, row, combo, _, _, hw, hk, ?_, ⟨_, attemptsLeft_le s.state.stopRequested cut, rfl⟩,
        rfl⟩
      rw [fireAgain_grade]

theorem complete_eq {w : Worker} (hw : s.worker = some w) (hk : w.inFlight[k]? = some (row, combo))
    (outcome : Outcome) :
    complete s k outcome =
      { s with
        worker := some (w.completed k outcome)
        queue := s.queue ++ [.result row (displayValues combo) outcome ⟨w.table, combo⟩] } := by
  rw [complete, hw]
  dsimp only
  rw [hk]

theorem joined_cases (s : State) : joined s = s ∨
    ∃ w, s.worker = some w ∧ w.pending = [] ∧
      joined s = { s with worker := none, queue := s.queue ++ [.finished] } := by
  rw [joined]
  split
  · exact .inl rfl
  · rename_i w hw
    split
    · rename_i hdone
      rw [Bool.and_eq_true, List.isEmpty_iff, List.isEmpty_iff] at hdone
      refine .inr ⟨w, hw, ?_, rfl⟩
      rw [Worker.pending, hdone.1, hdone.2]
      rfl
    · exact .inl rfl

theorem deliver_eq {cb : Callback} (hq : s.queue = cb :: later) :
    deliver s = cb.run { s with queue := later } := by
  rw [deliver, hq]

theorem Graded.waiting (h : Graded env send c combos s)
    (howed : (row, origin) ∈ s.owed) (ha : s.attacks[row]? = some a) : a.complete = false :=
  (h.inv.due _ howed a ha).2.1

theorem owed_head (hq : s.queue = .result row display outcome origin :: later) :
    (row, origin) ∈ s.owed := by
  rw [owed_result hq]
  exact List.mem_cons_self

theorem isInt32_bmod (n : Int) : IsInt32 (Int.bmod n (2 ^ 32)) := by
  have hlo := @Int.le_bmod n (2 ^ 32) (by decide)
  have hhi := @Int.bmod_lt n (2 ^ 32) (by decide)
  constructor
  · exact hlo
  · exact hhi

theorem Graded.clean (h : Graded env send c combos s) : ResendsClean s .deliver := by
  intro row outcome origin later hq
  have hbrings := h.queue (.resent row outcome origin) (hq ▸ List.mem_cons_self)
  exact hbrings.elim

theorem Graded.dispatch (h : Graded env send c combos s) :
    Graded env send c combos { s with worker := s.worker.map (Worker.dispatch s.stopRequested) } where
  inv := h.inv.dispatch
  length := h.length
  rows := h.rows
  elapsed := h.elapsed
  config := by
    intro w' hw'
    obtain ⟨w, hw, rfl⟩ := Option.map_eq_some_iff.1 hw'
    obtain ⟨hconfig, hchain⟩ := h.config w hw
    exact ⟨(dispatch_config w _).trans hconfig, (dispatch_same w _).2.1.trans hchain⟩
  pending := by
    intro w' hw' e he
    obtain ⟨w, hw, rfl⟩ := Option.map_eq_some_iff.1 hw'
    exact h.pending w hw e ((dispatch_kept (h.config w hw).2 _).subset he)
  queue := h.queue

theorem Graded.complete {w : Worker} (h : Graded env send c combos s) (hw : s.worker = some w)
    (hk : w.inFlight[k]? = some (row, combo)) (elapsedMs : Int) :
    Graded env send c combos
      (complete s k (outcomeOf (fireOne env w.config send combo).grade elapsedMs)) := by
  have hinv := h.inv.complete k (outcomeOf (fireOne env w.config send combo).grade elapsedMs)
  obtain ⟨rfl, hchain⟩ := h.config w hw
  have hmem : (row, combo) ∈ w.pending :=
    List.mem_append_left _ (List.mem_of_getElem? hk)
  rw [complete_eq hw hk] at hinv ⊢
  refine ⟨hinv, h.length, h.rows, h.elapsed, ?_, ?_, ?_⟩
  · intro w' hw'
    cases hw'
    rw [completed_plain hchain]
    exact ⟨rfl, hchain⟩
  · intro w' hw' e he
    cases hw'
    obtain ⟨kept, hperm, hsub⟩ := completed_pending hk
      (outcomeOf (fireOne env w.config send combo).grade elapsedMs)
    exact h.pending w hw e (hsub.subset (hperm.symm.subset (List.mem_cons_of_mem _ he)))
  · intro cb hcb
    rcases List.mem_append.1 hcb with hcb | hcb
    · exact h.queue cb hcb
    · rw [List.mem_singleton.1 hcb]
      exact ⟨combo, elapsedMs, h.pending w hw _ hmem, rfl, rfl⟩

theorem Graded.joined (h : Graded env send c combos s) : Graded env send c combos (joined s) := by
  have hinv := h.inv.joined
  rcases joined_cases s with heq | ⟨w, _, _, heq⟩
  · rw [heq]
    exact h
  · rw [heq] at hinv ⊢
    refine ⟨hinv, h.length, h.rows, h.elapsed, ?_, ?_, ?_⟩
    · intro w' hw'
      cases hw'
    · intro w' hw'
      cases hw'
    intro cb hcb
    rcases List.mem_append.1 hcb with hcb | hcb
    · exact h.queue cb hcb
    · rw [List.mem_singleton.1 hcb]
      trivial

theorem Graded.stop (h : Graded env send c combos s) : Graded env send c combos (stop s) := by
  have hinv := h.inv.stop
  rw [Intruder.stop] at hinv ⊢
  split
  · rename_i hrun
    rw [if_pos hrun] at hinv
    exact ⟨hinv, h.length, h.rows, h.elapsed, h.config, h.pending, h.queue⟩
  · exact h

theorem seen_record {a : IntruderAttack} {i : Nat} (hid : a.id = i + 1) (hcombo : a.combo = combo)
    (elapsedMs : Int) (origin : Origin) :
    IntruderAttack.seen
      { a.record (outcomeOf (fireOne env c send combo).grade elapsedMs) origin with
        payloadValues := displayValues combo } = answeredRow env send c i combo := by
  rw [IntruderAttack.seen, answeredRow, IntruderAttack.record, hid, hcombo]
  rfl

theorem Graded.row {i : Nat} (h : Graded env send c combos s) (ha : s.attacks[i]? = some a)
    (hcombo : combos[i]? = some combo) : a.id = (i : Int) + 1 ∧ a.combo = combo := by
  have hseen := h.rows i a combo ha hcombo
  have hid : a.id = a.seen.id := rfl
  have hown : a.combo = a.seen.combo := rfl
  rw [hid, hown, hseen]
  split
  · exact ⟨rfl, rfl⟩
  · exact ⟨rfl, rfl⟩

theorem Graded.deliver (h : Graded env send c combos s) : Graded env send c combos (deliver s) := by
  have hinv := h.inv.deliver h.clean
  cases hq : s.queue with
  | nil =>
    rw [Intruder.deliver, hq]
    exact h
  | cons cb later =>
    have hlater : ∀ cb' ∈ later, cb'.Brings env send c combos :=
      fun cb' hcb' => h.queue cb' (hq ▸ List.mem_cons_of_mem _ hcb')
    have hbrings := h.queue cb (hq ▸ List.mem_cons_self)
    rw [deliver_eq hq] at hinv ⊢
    cases cb with
    | resent row outcome origin => exact hbrings.elim
    | finished => exact ⟨hinv, h.length, h.rows, h.elapsed, h.config, h.pending, hlater⟩
    | result row display outcome origin =>
      obtain ⟨combo, elapsedMs, hcombo, rfl, rfl⟩ := hbrings
      rw [Callback.run] at hinv ⊢
      split
      · rename_i hnone
        rw [hnone] at hinv
        exact ⟨hinv, h.length, h.rows, h.elapsed, h.config, h.pending, hlater⟩
      · rename_i a ha
        rw [ha] at hinv
        refine ⟨hinv, ?_, ?_, ?_, h.config, h.pending, hlater⟩
        · exact (List.length_set ..).trans h.length
        · intro i b combo' hb hcombo'
          rcases getElem?_set_cases hb with ⟨rfl, rfl⟩ | ⟨_, hb⟩
          · rw [hcombo] at hcombo'
            cases hcombo'
            obtain ⟨hid, hown⟩ := h.row ha hcombo
            exact seen_record hid hown elapsedMs origin
          · exact h.rows i b combo' hb hcombo'
        · intro b hb
          rcases List.mem_or_eq_of_mem_set hb with hb | rfl
          · exact h.elapsed b hb
          · exact isInt32_bmod elapsedMs

theorem Graded.step {s : Sending} (h : Graded env send c combos s.state) (e : RunEvent) :
    Graded env send c combos (s.step env send e).state := by
  cases e with
  | dispatch => exact h.dispatch
  | answered k cut elapsedMs =>
    rcases answered_cases env send s k cut elapsedMs with
      heq | ⟨w, row, combo, outcome, requests, hw, hk, rfl, _, heq⟩
    · rw [Sending.step, heq]
      exact h
    · rw [Sending.step, heq]
      exact h.complete hw hk elapsedMs
  | joined => exact h.joined
  | deliver => exact h.deliver
  | stop => exact h.stop

theorem Graded.run {s : Sending} (h : Graded env send c combos s.state) (events : List RunEvent) :
    Graded env send c combos (s.run env send events).state := by
  induction events generalizing s with
  | nil => exact h
  | cons e events ih => exact ih (h.step e)

end Answers

end Nullock.Intruder

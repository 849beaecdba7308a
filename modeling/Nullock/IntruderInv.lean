import Nullock.Intruder
import Nullock.Runs
import Mathlib.Data.List.Perm.Subperm
import Mathlib.Data.List.Nodup

namespace Nullock.Intruder
open ScopeLogic IntruderEngine IntruderRules

/-- A row's own combination, or one with a chain's value in front. -/
def IntruderAttack.Fits (a : IntruderAttack) (c : Combo) : Prop :=
  c = a.combo ∨ ∃ cur, c = withFirst cur a.combo

def IntruderAttack.Owns (a : IntruderAttack) (c : Combo) : Prop :=
  displayValues c = a.payloadValues ∧ a.Fits c

def completeRows (rows : List IntruderAttack) : Nat := rows.countP (fun a => a.complete)

/-- The count is of complete rows, and results are their requests' own. -/
structure Consistent (s : State) : Prop where
  counted : s.completedCount = completeRows s.attacks
  bounded : s.completedCount ≤ s.attacks.length
  owned : ∀ a ∈ s.attacks, ∀ o, a.sentFor = some o → o.table = s.table ∧ a.Owns o.combo

/-- A re-send is of a row not complete, and its result finds none or its own. -/
def ResendsClean (s : State) : Event → Prop
  | .resend row => ∀ a, resendRow s row = some a → a.complete = false
  | .deliver => ∀ row outcome origin queue, s.queue = .resent row outcome origin :: queue →
      ∀ a, s.attacks[row]? = some a →
        origin.table = s.table ∧ a.complete = true ∧ displayValues a.combo = a.payloadValues
  | _ => True

def Callback.owed : Callback → Option (Nat × Origin)
  | .result row _ _ origin => some (row, origin)
  | _ => none

def EndsLast (queue : List Callback) : Prop :=
  queue.Pairwise (fun a b => a = .finished → b.owed = none)

def Callback.second : Callback → Option (Nat × Origin)
  | .resent row _ origin => some (row, origin)
  | _ => none

def Worker.pending (w : Worker) : List (Nat × Combo) :=
  w.inFlight ++ w.todo.filter (fun row => row.1 ∉ w.skipRows)

def Worker.owed (w : Worker) : List (Nat × Origin) :=
  w.pending.map (fun row => (row.1, ⟨w.table, row.2⟩))

namespace State

def owed (s : State) : List (Nat × Origin) :=
  s.queue.filterMap Callback.owed ++ (s.worker.map Worker.owed).getD []

def second (s : State) : List (Nat × Origin) :=
  s.queue.filterMap Callback.second ++ s.resends.map (fun r => (r.row, r.origin))

def Due (s : State) (e : Nat × Origin) : Prop :=
  ∀ a, s.attacks[e.1]? = some a →
    e.2.table = s.table ∧ a.complete = false ∧ a.Fits e.2.combo

/-- The result of a re-sent row was asked for in a table that is gone, or for that row. -/
def Known (s : State) (e : Nat × Origin) : Prop :=
  e.2.table ≤ s.table ∧
    (e.2.table = s.table → ∀ a, s.attacks[e.1]? = some a → e.2.combo = a.combo)

structure Inv (s : State) : Prop where
  shown : ∀ row display outcome origin, Callback.result row display outcome origin ∈ s.queue →
    display = displayValues origin.combo
  due : ∀ e ∈ s.owed, s.Due e
  once : (s.owed.map Prod.fst).Nodup
  ended : s.queue.count .finished + (if s.worker.isSome then 1 else 0) = if s.running then 1 else 0
  quiet : s.running = false → s.owed = []
  last : EndsLast s.queue
  serial : ∀ w cur, s.worker = some w → w.chain = some cur → w.skipRows = []
  known : ∀ e ∈ s.second, s.Known e

end State

section Workers

theorem IntruderAttack.Fits.withFirst {a : IntruderAttack} (h : a.Fits c) (cur : Option QString) :
    a.Fits (withFirst cur c) := by
  right
  rcases h with rfl | ⟨cur', rfl⟩
  · exact ⟨cur, rfl⟩
  · exact ⟨cur, rfl⟩

theorem dispatch_pending (w : Worker) (stopRequested : Bool)
    (hserial : ∀ cur, w.chain = some cur → w.skipRows = []) :
    ((w.dispatch stopRequested).pending.map Prod.fst).Sublist (w.pending.map Prod.fst) ∧
      ∀ e ∈ (w.dispatch stopRequested).pending, ∃ e' ∈ w.pending, e.1 = e'.1 ∧
        (e.2 = e'.2 ∨ ∃ cur, e.2 = withFirst cur e'.2) := by
  have hsame : (w.pending.map Prod.fst).Sublist (w.pending.map Prod.fst) ∧
      ∀ e ∈ w.pending, ∃ e' ∈ w.pending, e.1 = e'.1 ∧
        (e.2 = e'.2 ∨ ∃ cur, e.2 = withFirst cur e'.2) :=
    ⟨.refl _, fun e he => ⟨e, he, rfl, .inl rfl⟩⟩
  rw [Worker.dispatch]
  split
  · exact hsame
  · rename_i i combo todo htodo
    split
    · have hsub : ({ w with todo := [] } : Worker).pending.Sublist w.pending :=
        List.Sublist.append_left (List.nil_sublist _) _
      exact ⟨hsub.map _, fun e he => ⟨e, hsub.subset he, rfl, .inl rfl⟩⟩
    · split
      · rename_i cur hchain
        split
        · rename_i hempty
          have hpending : w.pending = (i, combo) :: todo := by
            rw [Worker.pending, hserial cur hchain, htodo, List.isEmpty_iff.1 hempty]
            simp
          have hnext : ({ w with todo := todo, inFlight := [(i, withFirst cur combo)] } :
              Worker).pending = (i, withFirst cur combo) :: todo := by
            rw [Worker.pending, hserial cur hchain]
            simp
          rw [hpending, hnext]
          refine ⟨.refl _, ?_⟩
          intro e he
          rcases List.mem_cons.1 he with rfl | he
          · exact ⟨_, List.mem_cons_self, rfl, .inr ⟨cur, rfl⟩⟩
          · exact ⟨e, List.mem_cons_of_mem _ he, rfl, .inl rfl⟩
        · exact hsame
      · split
        · rename_i hskip
          have hpending : ({ w with todo := todo } : Worker).pending = w.pending := by
            rw [Worker.pending, Worker.pending, htodo]
            simp [hskip]
          rw [hpending]
          exact hsame
        · rename_i hskip
          split
          · exact hsame
          · have hpending : ({ w with todo := todo, inFlight := w.inFlight ++ [(i, combo)] } :
                Worker).pending = w.pending := by
              rw [Worker.pending, Worker.pending, htodo]
              simp [hskip]
            rw [hpending]
            exact hsame

theorem dispatch_same (w : Worker) (stopRequested : Bool) :
    (w.dispatch stopRequested).table = w.table ∧
      (w.dispatch stopRequested).chain = w.chain ∧
      (w.dispatch stopRequested).skipRows = w.skipRows := by
  rw [Worker.dispatch]
  split
  · exact ⟨rfl, rfl, rfl⟩
  · split
    · exact ⟨rfl, rfl, rfl⟩
    · split
      · rename_i hchain
        split
        · exact ⟨rfl, rfl, rfl⟩
        · exact ⟨rfl, rfl, rfl⟩
      · rename_i hchain
        split
        · exact ⟨rfl, rfl, rfl⟩
        · split
          · exact ⟨rfl, rfl, rfl⟩
          · exact ⟨rfl, rfl, rfl⟩

theorem completed_same (w : Worker) (k : Nat) (outcome : Outcome) :
    (w.completed k outcome).table = w.table ∧
      (w.completed k outcome).skipRows = w.skipRows ∧
      (∀ cur, (w.completed k outcome).chain = some cur → ∃ cur', w.chain = some cur') := by
  rw [Worker.completed]
  split
  · rename_i hchain
    refine ⟨rfl, rfl, ?_⟩
    intro cur hcur
    exact ⟨cur, hcur⟩
  · rename_i cur hchain
    split
    · exact ⟨rfl, rfl, fun _ _ => ⟨cur, hchain⟩⟩
    · exact ⟨rfl, rfl, fun _ _ => ⟨cur, hchain⟩⟩

theorem completed_pending {w : Worker} (h : w.inFlight[k]? = some e) (outcome : Outcome) :
    (e :: (w.completed k outcome).pending).Subperm w.pending := by
  obtain ⟨hk, he⟩ := List.getElem?_eq_some_iff.1 h
  have hrest : (e :: w.inFlight.eraseIdx k).Perm w.inFlight := by
    rw [← he]
    exact List.getElem_cons_eraseIdx_perm hk
  have hall : (e :: (w.inFlight.eraseIdx k ++ w.todo.filter (fun row => row.1 ∉ w.skipRows))).Perm
      w.pending := hrest.append_right _
  have hsub (todo : List (Nat × Combo)) (hsub : todo.Sublist w.todo) :
      (e :: (w.inFlight.eraseIdx k ++ todo.filter (fun row => row.1 ∉ w.skipRows))).Subperm
        w.pending := by
    have hle := ((hsub.filter (fun row => decide (row.1 ∉ w.skipRows))).append_left
      (w.inFlight.eraseIdx k)).cons_cons e
    exact hle.subperm.trans hall.subperm
  rw [Worker.completed]
  split
  · exact hsub _ (.refl _)
  · split
    · exact hsub [] (List.nil_sublist _)
    · exact hsub _ (.refl _)

end Workers

section Rows

theorem getElem?_set_cases {l : List α} (h : (l.set i a)[j]? = some b) :
    (j = i ∧ b = a) ∨ (j ≠ i ∧ l[j]? = some b) := by
  rw [List.getElem?_set] at h
  split at h
  · rename_i hij
    split at h
    · exact .inl ⟨hij.symm, (Option.some.inj h).symm⟩
    · cases h
  · rename_i hij
    exact .inr ⟨fun heq => hij heq.symm, h⟩

theorem countP_set_add {l : List α} (p : α → Bool) (h : l[i]? = some a) (a' : α) :
    (l.set i a').countP p + (if p a then 1 else 0) = l.countP p + (if p a' then 1 else 0) := by
  obtain ⟨hi, ha⟩ := List.getElem?_eq_some_iff.1 h
  rw [List.countP_set hi, ha]
  by_cases hp : p a = true
  · have hpos : 0 < l.countP p := List.countP_pos_iff.2 ⟨a, List.mem_of_getElem? h, hp⟩
    rw [if_pos hp]
    omega
  · rw [if_neg hp]
    omega

variable {s s' : State} {rows : List IntruderAttack} {a : IntruderAttack}

theorem completeRows_kept (h : rows[i]? = some a) (a' : IntruderAttack)
    (ha : a'.complete = a.complete) : completeRows (rows.set i a') = completeRows rows := by
  have hadd := countP_set_add (fun a : IntruderAttack => a.complete) h a'
  rw [ha] at hadd
  exact Nat.add_right_cancel hadd

theorem completeRows_done (h : rows[i]? = some a) (a' : IntruderAttack) (ha : a.complete = false)
    (ha' : a'.complete = true) : completeRows (rows.set i a') = completeRows rows + 1 := by
  have hadd := countP_set_add (fun a : IntruderAttack => a.complete) h a'
  rw [ha, ha', if_neg Bool.false_ne_true, if_pos rfl] at hadd
  exact hadd

theorem completeRows_undone (h : rows[i]? = some a) (a' : IntruderAttack) (ha : a.complete = true)
    (ha' : a'.complete = false) : completeRows (rows.set i a') + 1 = completeRows rows := by
  have hadd := countP_set_add (fun a : IntruderAttack => a.complete) h a'
  rw [ha, ha', if_neg Bool.false_ne_true, if_pos rfl] at hadd
  exact hadd

theorem State.Known.of_combos (h : s.Known e) (ht : s'.table = s.table)
    (hrow : ∀ (j : Nat) (b : IntruderAttack), s'.attacks[j]? = some b →
      ∃ b₀, s.attacks[j]? = some b₀ ∧ b.combo = b₀.combo) : s'.Known e := by
  refine ⟨ht ▸ h.1, ?_⟩
  intro htable b hb
  obtain ⟨b₀, hb₀, hcombo⟩ := hrow e.1 b hb
  rw [hcombo]
  exact h.2 (htable.trans ht) b₀ hb₀

theorem combos_set (ha : s.attacks[row]? = some a) (a' : IntruderAttack)
    (hcombo : a'.combo = a.combo) (j : Nat) (b : IntruderAttack)
    (hb : (s.attacks.set row a')[j]? = some b) :
    ∃ b₀, s.attacks[j]? = some b₀ ∧ b.combo = b₀.combo := by
  rcases getElem?_set_cases hb with ⟨rfl, rfl⟩ | ⟨_, hb⟩
  · exact ⟨a, ha, hcombo⟩
  · exact ⟨b, hb, rfl⟩

theorem State.Inv.setRow (h : s.Inv) (ha : s.attacks[row]? = some a) (a' : IntruderAttack)
    (hcombo : a'.combo = a.combo) (hfree : ∀ e ∈ s.owed, e.1 ≠ row) (n : Nat) :
    State.Inv { s with attacks := s.attacks.set row a', completedCount := n } where
  shown := h.shown
  due := by
    intro e he b hb
    rcases getElem?_set_cases hb with ⟨heq, _⟩ | ⟨_, hb⟩
    · exact absurd heq (hfree e he)
    · exact h.due e he b hb
  once := h.once
  ended := h.ended
  quiet := h.quiet
  last := h.last
  serial := h.serial
  known := fun e he => State.Known.of_combos (h.known e he) rfl (combos_set ha a' hcombo)

theorem State.Inv.newTable (h : s.Inv) (rows : List IntruderAttack)
    (hfree : s.owed = [] ∨ rows = []) (c : RunConfig) (n : Nat) :
    State.Inv
      { s with config := c, attacks := rows, completedCount := n, table := s.table + 1 } where
  shown := h.shown
  due := by
    intro e he a ha
    rcases hfree with hfree | hfree
    · have hnone : e ∈ s.owed := he
      rw [hfree] at hnone
      cases hnone
    · rw [hfree] at ha
      cases ha
  once := h.once
  ended := h.ended
  quiet := h.quiet
  last := h.last
  serial := h.serial
  known := by
    intro e he
    have hold := (h.known e he).1
    exact ⟨Nat.le_succ_of_le hold, fun heq => absurd heq (by dsimp only; omega)⟩

theorem State.Inv.queue_quiet (h : s.Inv) (hrun : s.running = false) :
    s.queue.filterMap Callback.owed = [] ∧ s.worker = none := by
  have hquiet := h.quiet hrun
  have hended := h.ended
  rw [State.owed, List.append_eq_nil_iff] at hquiet
  refine ⟨hquiet.1, ?_⟩
  cases hw : s.worker with
  | none => rfl
  | some w =>
    rw [hw, hrun] at hended
    simp at hended

theorem State.Inv.beginRun (h : s.Inv) (hrun : s.running = false) {w : Worker}
    (hdue : ∀ e ∈ w.pending, ∀ a, s.attacks[e.1]? = some a →
      a.complete = false ∧ e.2 = a.combo)
    (honce : (w.pending.map Prod.fst).Nodup) (htable : w.table = s.table)
    (hserial : ∀ cur, w.chain = some cur → w.skipRows = []) :
    State.Inv { s with running := true, stopRequested := false, worker := some w } where
  shown := h.shown
  due := by
    intro e he a ha
    rw [State.owed, (h.queue_quiet hrun).1] at he
    obtain ⟨row, hrow, rfl⟩ := List.mem_map.1 he
    obtain ⟨hcomplete, hcombo⟩ := hdue row hrow a ha
    exact ⟨htable, hcomplete, .inl hcombo⟩
  once := by
    rw [State.owed, (h.queue_quiet hrun).1]
    simp only [List.nil_append, Option.map_some, Option.getD_some, Worker.owed, List.map_map]
    exact honce
  ended := by
    have hended := h.ended
    rw [(h.queue_quiet hrun).2, hrun] at hended
    simpa using hended
  quiet := nofun
  last := h.last
  serial := by
    intro w' cur hw hcur
    cases hw
    exact hserial cur hcur
  known := h.known

end Rows

section Operations
open State
variable {E : RegexEngine} {P : RuleLibrary} {s : State}

theorem mem_numbered : e ∈ numbered combos ↔ combos[e.1]? = some e.2 := by
  rw [numbered, List.mem_map]
  constructor
  · rintro ⟨row, hrow, rfl⟩
    exact List.mem_zipIdx_iff_getElem?.1 hrow
  · intro h
    exact ⟨(e.2, e.1), List.mem_zipIdx_iff_getElem?.2 h, rfl⟩

theorem numbered_rows (combos : List Combo) :
    (numbered combos).map Prod.fst = List.range combos.length := by
  rw [numbered, List.map_map, List.range_eq_range', ← List.zipIdx_map_snd 0 combos]
  rfl

theorem getElem?_newAttacks (combos : List Combo) (i : Nat) :
    ((numbered combos).map (fun row => newAttack row.1 row.2))[i]? =
      combos[i]?.map (newAttack i) := by
  rw [numbered, List.map_map, List.getElem?_map, List.getElem?_zipIdx, Option.map_map, Nat.zero_add]
  rfl

theorem pending_sublist (w : Worker) (h : w.inFlight = []) : w.pending.Sublist w.todo := by
  rw [Worker.pending, h, List.nil_append]
  exact List.filter_sublist

theorem State.Inv.start (h : s.Inv) : (Intruder.start E P s).Inv := by
  simp only [Intruder.start]
  split
  · exact h
  · rename_i hrun
    have hrun : s.running = false := Bool.eq_false_iff.2 hrun
    split
    · exact h
    · split
      · exact h
      · have hnew := h.newTable ((numbered (plannedCombos E P s.config)).map
          (fun row => newAttack row.1 row.2)) (.inl (h.quiet hrun)) s.config 0
        refine hnew.beginRun hrun ?_ ?_ rfl (fun _ _ => rfl)
        · intro e he a ha
          have hmem := mem_numbered.1 ((pending_sublist _ rfl).subset he)
          rw [getElem?_newAttacks, hmem, Option.map_some, Option.some.injEq] at ha
          rw [← ha]
          exact ⟨rfl, rfl⟩
        · refine List.Nodup.sublist ((pending_sublist _ rfl).map _) ?_
          rw [numbered_rows]
          exact List.nodup_range

theorem mem_planResume (h : planResume recursiveGrep rowComplete = some skip) (i : Nat) :
    i ∈ skip ↔ rowComplete[i]? = some true := by
  rw [planResume] at h
  split at h
  · cases h
  · split at h
    · cases h
    · split at h
      · cases h
      · rw [← Option.some.inj h, List.mem_filter, List.mem_range, List.getD_eq_getElem?_getD]
        constructor
        · rintro ⟨hi, hc⟩
          rw [List.getElem?_eq_getElem hi] at hc ⊢
          exact congrArg some hc
        · intro hc
          rw [hc]
          exact ⟨(List.getElem?_eq_some_iff.1 hc).1, rfl⟩

theorem State.Inv.resume (h : s.Inv) : (Intruder.resume s).Inv := by
  simp only [Intruder.resume]
  split
  · exact h
  · rename_i hrun
    have hrun : s.running = false := Bool.eq_false_iff.2 hrun
    split
    · exact h
    · split
      · exact h
      · rename_i skip hskip
        refine h.beginRun hrun ?_ ?_ rfl nofun
        · intro e he a ha
          have hmem := mem_numbered.1 ((pending_sublist _ rfl).subset he)
          rw [List.getElem?_map, ha, Option.map_some, Option.some.injEq] at hmem
          refine ⟨?_, hmem.symm⟩
          have hnot : e.1 ∉ skip := by
            have hkept := (List.mem_filter.1 he).2
            exact of_decide_eq_true hkept
          rw [mem_planResume hskip, List.getElem?_map, ha, Option.map_some, Option.some.injEq]
            at hnot
          exact Bool.eq_false_iff.2 hnot
        · refine List.Nodup.sublist ((pending_sublist _ rfl).map _) ?_
          rw [numbered_rows]
          exact List.nodup_range

theorem State.Inv.stop (h : s.Inv) : (Intruder.stop s).Inv := by
  rw [Intruder.stop]
  split
  · exact ⟨h.shown, h.due, h.once, h.ended, h.quiet, h.last, h.serial, h.known⟩
  · exact h

theorem State.Inv.clear (h : s.Inv) : (Intruder.clear s).Inv := by
  simp only [Intruder.clear]
  split
  · exact h.stop
  · exact h.stop.newTable [] (.inr rfl) _ 0

theorem State.Inv.loadRun (h : s.Inv) (run : SavedRun) : (Intruder.loadRun s run).Inv := by
  rw [Intruder.loadRun]
  split
  · exact h
  · rename_i hrun
    exact h.newTable _ (.inl (h.quiet (Bool.eq_false_iff.2 hrun))) _ _

theorem resendRow_some (h : resendRow s row = some a) :
    s.running = false ∧ s.attacks[row.toNat]? = some a := by
  rw [resendRow] at h
  split at h
  · cases h
  · rename_i hrun
    split at h
    · cases h
    · split at h
      · cases h
      · exact ⟨Bool.eq_false_iff.2 hrun, h⟩

theorem State.Inv.resend (h : s.Inv) (row : Int) : (Intruder.resend P s row).Inv := by
  rw [Intruder.resend]
  split
  · exact h
  · rename_i a ha
    obtain ⟨hrun, ha⟩ := resendRow_some ha
    have hset := h.setRow ha a.reset rfl
      (fun e he => by rw [h.quiet hrun] at he; cases he) s.completedCount
    refine ⟨hset.shown, hset.due, hset.once, hset.ended, hset.quiet, hset.last, hset.serial, ?_⟩
    intro e he
    have hnew : e ∈ s.second ∨ e = (row.toNat, ⟨s.table, a.combo⟩) := by
      rw [second, List.map_append, ← List.append_assoc, List.mem_append] at he
      exact he.imp id List.mem_singleton.1
    rcases hnew with he | rfl
    · exact hset.known e he
    · refine ⟨Nat.le_refl _, ?_⟩
      intro _ b hb
      obtain ⟨b₀, hb₀, hcombo⟩ := combos_set ha a.reset rfl _ b hb
      rw [ha, Option.some.injEq] at hb₀
      rw [hcombo, hb₀]

theorem mem_owed (hw : s.worker = some w) :
    e ∈ s.owed ↔ e ∈ s.queue.filterMap Callback.owed ∨
      ∃ row ∈ w.pending, (row.1, ⟨w.table, row.2⟩) = e := by
  rw [State.owed, List.mem_append, hw, Option.map_some, Option.getD_some, Worker.owed,
    List.mem_map]

theorem owed_rows (hw : s.worker = some w) :
    s.owed.map Prod.fst =
      (s.queue.filterMap Callback.owed).map Prod.fst ++ w.pending.map Prod.fst := by
  rw [State.owed, List.map_append, hw, Option.map_some, Option.getD_some, Worker.owed,
    List.map_map]
  rfl

theorem State.Inv.dispatch (h : s.Inv) :
    State.Inv { s with worker := s.worker.map (Worker.dispatch s.stopRequested) } := by
  cases hw : s.worker with
  | none =>
    rw [Option.map_none, ← hw]
    exact h
  | some w =>
    obtain ⟨hrows, hmem⟩ := dispatch_pending w s.stopRequested
      (fun cur hcur => h.serial w cur hw hcur)
    obtain ⟨htable, hchain, hskip⟩ := dispatch_same w s.stopRequested
    rw [Option.map_some]
    refine ⟨h.shown, ?_, ?_, ?_, ?_, h.last, ?_, h.known⟩
    · intro e he a ha
      rcases (mem_owed rfl).1 he with hq | ⟨row, hrow, rfl⟩
      · exact h.due e ((mem_owed hw).2 (.inl hq)) a ha
      · obtain ⟨row', hrow', hfst, hsnd⟩ := hmem row hrow
        obtain ⟨hold, hcomplete, hfits⟩ :=
          h.due _ ((mem_owed hw).2 (.inr ⟨row', hrow', rfl⟩)) a (hfst ▸ ha)
        refine ⟨htable.trans hold, hcomplete, ?_⟩
        rcases hsnd with hsame | ⟨cur, hcur⟩
        · rw [hsame]
          exact hfits
        · rw [hcur]
          exact hfits.withFirst cur
    · have honce := h.once
      rw [owed_rows hw] at honce
      rw [owed_rows rfl]
      exact honce.sublist (hrows.append_left _)
    · have hended := h.ended
      rw [hw] at hended
      exact hended
    · intro hrun
      have hnone := (h.queue_quiet hrun).2
      rw [hw] at hnone
      cases hnone
    · intro w' cur hw' hcur
      cases hw'
      rw [hchain] at hcur
      rw [hskip]
      exact h.serial w cur hw hcur

theorem count_enqueue (q : List Callback) (h : cb ≠ Callback.finished) :
    (q ++ [cb]).count Callback.finished = q.count .finished := by
  rw [List.count_append, List.count_singleton, if_neg (by simpa using h), Nat.add_zero]

theorem EndsLast.enqueue (h : EndsLast q) (hcb : Callback.finished ∈ q → Callback.owed cb = none) :
    EndsLast (q ++ [cb]) := by
  apply List.pairwise_append.2
  refine ⟨h, List.pairwise_singleton _ _, ?_⟩
  intro first hfirst last hlast hfinish
  rw [List.mem_singleton.1 hlast]
  exact hcb (hfinish ▸ hfirst)

theorem shown_enqueue {q : List Callback}
    (h : ∀ row display outcome origin, Callback.result row display outcome origin ∈ q →
      display = displayValues origin.combo)
    (hcb : ∀ row display outcome origin, cb = .result row display outcome origin →
      display = displayValues origin.combo) (row : Nat) (display : List QString)
    (outcome : Outcome) (origin : Origin)
    (hmem : Callback.result row display outcome origin ∈ q ++ [cb]) :
    display = displayValues origin.combo := by
  rcases List.mem_append.1 hmem with hmem | hmem
  · exact h row display outcome origin hmem
  · exact hcb row display outcome origin (List.mem_singleton.1 hmem).symm

theorem filterMap_enqueue {f : Callback → Option α} (q : List Callback) (h : f cb = none) :
    (q ++ [cb]).filterMap f = q.filterMap f := by
  rw [List.filterMap_append, List.filterMap_cons_none h, List.filterMap_nil, List.append_nil]

theorem State.Inv.running_of_worker (h : s.Inv) (hw : s.worker = some w) :
    s.running = true ∧ s.queue.count .finished = 0 := by
  have hended := h.ended
  rw [hw, Option.isSome_some, if_pos rfl] at hended
  split at hended
  · rename_i hrun
    exact ⟨hrun, by omega⟩
  · omega

theorem State.Inv.complete (h : s.Inv) (k : Nat) (outcome : Outcome) :
    (Intruder.complete s k outcome).Inv := by
  rw [Intruder.complete]
  split
  · exact h
  · rename_i w hw
    split
    · exact h
    · rename_i row combo hk
      obtain ⟨htable, hskip, hchain⟩ := completed_same w k outcome
      obtain ⟨hrun, hcount⟩ := h.running_of_worker hw
      obtain ⟨kept, hperm, hsub⟩ := completed_pending hk outcome
      have hnofinish : Callback.finished ∉ s.queue := List.count_eq_zero.1 hcount
      have hpending : ∀ e ∈ (row, combo) :: (w.completed k outcome).pending, e ∈ w.pending :=
        fun e he => hsub.subset (hperm.symm.subset he)
      refine ⟨?_, ?_, ?_, ?_, ?_, ?_, ?_, ?_⟩
      · apply shown_enqueue h.shown
        intro row' display outcome' origin heq
        cases heq
        rfl
      · intro e he a ha
        have hold : e ∈ s.owed := by
          apply (mem_owed hw).2
          rcases (mem_owed rfl).1 he with hq | ⟨e', he', rfl⟩
          · rw [List.filterMap_append, List.mem_append] at hq
            rcases hq with hq | hq
            · exact .inl hq
            · exact .inr ⟨(row, combo), hpending _ List.mem_cons_self,
                (List.mem_singleton.1 hq).symm⟩
          · rw [htable]
            exact .inr ⟨e', hpending _ (List.mem_cons_of_mem _ he'), rfl⟩
        exact h.due e hold a ha
      · have honce := h.once
        rw [owed_rows hw] at honce
        rw [owed_rows rfl, List.filterMap_append, List.map_append, List.append_assoc]
        have hkept := honce.sublist ((hsub.map Prod.fst).append_left _)
        exact ((hperm.map Prod.fst).append_left _).nodup_iff.1 hkept
      · have hended := h.ended
        rw [hw] at hended
        dsimp only
        rw [count_enqueue]
        · exact hended
        · nofun
      · intro hidle
        exact absurd hrun (Bool.eq_false_iff.1 hidle)
      · exact h.last.enqueue (fun hmem => absurd hmem hnofinish)
      · intro w' cur hw' hcur
        cases hw'
        obtain ⟨cur', hcur'⟩ := hchain cur hcur
        rw [hskip]
        exact h.serial w cur' hw hcur'
      · intro e he
        rw [second, filterMap_enqueue _ rfl] at he
        exact h.known e he

theorem State.Inv.joined (h : s.Inv) : (Intruder.joined s).Inv := by
  rw [Intruder.joined]
  split
  · exact h
  · rename_i w hw
    split
    · rename_i hend
      obtain ⟨hrun, hcount⟩ := h.running_of_worker hw
      have howed : State.owed { s with worker := none, queue := s.queue ++ [.finished] } =
          s.queue.filterMap Callback.owed := by
        rw [State.owed, filterMap_enqueue _ rfl]
        exact List.append_nil _
      refine ⟨?_, ?_, ?_, ?_, ?_, ?_, ?_, ?_⟩
      · exact shown_enqueue h.shown (fun _ _ _ _ heq => by cases heq)
      · intro e he a ha
        rw [howed] at he
        exact h.due e ((mem_owed hw).2 (.inl he)) a ha
      · have honce := h.once
        rw [owed_rows hw] at honce
        rw [howed]
        exact honce.sublist (List.sublist_append_left _ _)
      · dsimp only
        rw [List.count_append, hcount, hrun]
        rfl
      · intro hidle
        exact absurd hrun (Bool.eq_false_iff.1 hidle)
      · exact h.last.enqueue (fun _ => rfl)
      · intro w' cur hw'
        cases hw'
      · intro e he
        rw [second, filterMap_enqueue _ rfl] at he
        exact h.known e he
    · exact h

theorem State.Inv.resendDone (h : s.Inv) (k : Nat) (outcome : Outcome) :
    (Intruder.resendDone s k outcome).Inv := by
  rw [Intruder.resendDone]
  split
  · exact h
  · rename_i r hr
    have howed : State.owed
        { s with
          resends := s.resends.eraseIdx k
          queue := s.queue ++ [.resent r.row outcome r.origin] } = s.owed := by
      rw [State.owed, filterMap_enqueue _ rfl, State.owed]
    refine ⟨?_, ?_, ?_, ?_, ?_, ?_, h.serial, ?_⟩
    · exact shown_enqueue h.shown (fun _ _ _ _ heq => by cases heq)
    · intro e he a ha
      rw [howed] at he
      exact h.due e he a ha
    · rw [howed]
      exact h.once
    · dsimp only
      rw [count_enqueue]
      · exact h.ended
      · nofun
    · intro hrun
      rw [howed]
      exact h.quiet hrun
    · exact h.last.enqueue (fun _ => rfl)
    · intro e he
      apply h.known e
      rw [second, List.filterMap_append, List.append_assoc, List.mem_append] at he
      rw [second, List.mem_append]
      rcases he with hq | hmem
      · exact .inl hq
      · right
        rcases List.mem_append.1 hmem with hnew | hold
        · rw [List.mem_singleton.1 hnew]
          exact List.mem_map.2 ⟨r, List.mem_of_getElem? hr, rfl⟩
        · obtain ⟨r', hr', rfl⟩ := List.mem_map.1 hold
          exact List.mem_map.2 ⟨r', List.mem_of_mem_eraseIdx hr', rfl⟩

end Operations
end Nullock.Intruder

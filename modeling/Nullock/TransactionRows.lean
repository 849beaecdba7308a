import Nullock.HistoryReload
import Nullock.PassiveRows

namespace Nullock.Core
open Proxy FrontEnd ProjectStore

structure Aligned (w : World) : Prop where
  counts : w.model.Counts
  next : w.model.nextId = w.nextRowId

theorem Aligned.streamExistingHistory {J : JsonLibrary} {D : DateTimes} {w : World}
    (h : Aligned w) (reads : Bool) (inserts : Nat → Bool) :
    Aligned (ProjectStore.streamExistingHistory J D w reads inserts) := by
  rw [ProjectStore.streamExistingHistory.eq_def]
  split
  · exact h
  split
  · rename_i content _ _
    refine List.foldlRecOn _ _ h (fun w h o _ => ?_)
    obtain ⟨archived, tables, heq⟩ := loadRecord_eq J D inserts w o
    rw [heq]
    exact ⟨h.counts.addResponse _ _, congrArg (· + 1) h.next⟩
  · exact h

section Ids
variable {ι : Type} {J : JsonLibrary} {D : DateTimes} {checks : Checks}
variable {tx : ι → Nat → HistoryRequest × HistoryResponse}

/-- The model, the store and the findings have one number for a transaction. -/
def SameIds (s : Wiring ι) : Prop :=
  ∀ t id, (t, id) ∈ s.modelIds →
    (∀ row, (t, row) ∈ s.rowIds → row = id) ∧ ∀ f, (t, f) ∈ s.raised → f.rowId = (id : Int)

variable (checks tx) in
/-- The store takes transactions in order; findings are about the last one. -/
def InTurn (s : Wiring ι) (d : Delivery ι) : Prop :=
  let p := s.progress d.worker
  let t := (d.worker, p.transaction)
  match p.receiver with
  | .model => True
  | .store => s.world.isOpen = true → d.outcome = .done →
      s.modelIds[s.rowIds.length]?.map Prod.fst = some t
  | .scanner => PassiveScanner.audits (tx t.1 t.2).1 = true →
      checks.checkResponse (tx t.1 t.2).1 (tx t.1 t.2).2 ≠ [] →
      s.modelIds.getLast?.map Prod.fst = some t

def Progress.Shown (p : Progress) (n : Nat) : Prop :=
  n < p.transaction ∨ n = p.transaction ∧ p.receiver ≠ .model

structure Counted (start : Nat) (s : Wiring ι) : Prop where
  counts : s.world.model.Counts
  next : s.world.model.nextId = start + s.modelIds.length
  position : ∀ i t id, s.modelIds[i]? = some (t, id) → id = start + i
  nextRow : s.world.nextRowId = start + s.rowIds.length
  shown : ∀ t : ι × Nat, t ∈ s.modelIds.map Prod.fst ↔ (s.progress t.1).Shown t.2
  once : (s.modelIds.map Prod.fst).Nodup
  stored : ∀ t ∈ s.rowIds.map Prod.fst, t ∈ s.modelIds.map Prod.fst
  scanned : ∀ t ∈ s.raised.map Prod.fst, t ∈ s.modelIds.map Prod.fst

variable {s : Wiring ι}

theorem Counted.id_iff {id : Nat} (h : Counted start s) (hmem : (t, id) ∈ s.modelIds) (n : Nat) :
    start + n = id ↔ s.modelIds[n]?.map Prod.fst = some t := by
  obtain ⟨i, hi⟩ := List.getElem?_of_mem hmem
  have hid := h.position i t id hi
  constructor
  · intro he
    have hn : n = i := by omega
    rw [hn, hi]
    rfl
  · intro he
    obtain ⟨⟨t', id'⟩, hn, rfl⟩ := Option.map_eq_some_iff.1 he
    have hi' : (s.modelIds.map Prod.fst)[i]? = (s.modelIds.map Prod.fst)[n]? := by
      rw [List.getElem?_map, List.getElem?_map, hi, hn]
      rfl
    have hlt : i < (s.modelIds.map Prod.fst).length := by
      rw [List.length_map]
      exact (List.getElem?_eq_some_iff.1 hi).1
    have hsame := ((List.getElem?_inj hlt h.once).1 hi').symm
    omega

theorem Counted.lastId {id : Nat} (h : Counted start s) (hmem : (t, id) ∈ s.modelIds) :
    s.world.model.lastId = (id : Int) ↔ s.modelIds.getLast?.map Prod.fst = some t := by
  have hlength : 0 < s.modelIds.length := List.length_pos_of_mem hmem
  have hlast : s.world.model.lastId = ((start + (s.modelIds.length - 1) : Nat) : Int) := by
    have hcounts := h.counts
    have hnext := h.next
    rw [ProxyModel.Counts] at hcounts
    rw [ProxyModel.lastId]
    omega
  rw [hlast, Int.natCast_inj, h.id_iff hmem, List.getLast?_eq_getElem?]

theorem Counted.mem_model (h : Counted start s) (w : ι) (hr : (s.progress w).receiver ≠ .model) :
    (w, (s.progress w).transaction) ∈ s.modelIds.map Prod.fst :=
  (h.shown _).2 (.inr ⟨rfl, hr⟩)

theorem Progress.next_shown (p : Progress) (n : Nat) :
    p.next.Shown n ↔ p.Shown n ∨ n = p.transaction ∧ p.receiver = .model := by
  rcases p with ⟨k, r⟩
  cases r with
  | model => simp [Progress.next, Progress.Shown]
  | store => simp [Progress.next, Progress.Shown]
  | scanner =>
    simp only [Progress.next, Progress.Shown, ne_eq, not_true_eq_false, and_false, or_false,
      reduceCtorEq, not_false_eq_true, and_true]
    omega

theorem counted_init {world : World} (h : Aligned world) :
    Counted world.model.nextId ({ world := world } : Wiring ι) where
  counts := h.counts
  next := rfl
  position _ _ _ hi := absurd hi (by simp)
  nextRow := h.next.symm
  shown t := by simp [Progress.Shown]
  once := List.nodup_nil
  stored _ ht := absurd ht List.not_mem_nil
  scanned _ ht := absurd ht List.not_mem_nil

variable [DecidableEq ι]

theorem shown_deliver (h : Counted start s) (w : ι) (t : ι × Nat) :
    (Function.update s.progress w (s.progress w).next t.1).Shown t.2 ↔
      t ∈ s.modelIds.map Prod.fst ∨
        t = (w, (s.progress w).transaction) ∧ (s.progress w).receiver = .model := by
  rw [h.shown]
  by_cases hw : t.1 = w
  · subst hw
    rw [Function.update_self, Progress.next_shown]
    rcases t with ⟨w, n⟩
    simp only [Prod.mk.injEq, true_and]
  · rw [Function.update_of_ne hw]
    refine (or_iff_left (fun he => hw ?_)).symm
    rw [he.1]

section Model
variable {w : ι}

theorem Counted.toModel (h : Counted start s) (hr : (s.progress w).receiver = .model) :
    Counted start (({ s with
      progress := Function.update s.progress w (s.progress w).next } : Wiring ι).toModel tx
        (w, (s.progress w).transaction)) := by
  have hfresh : (w, (s.progress w).transaction) ∉ s.modelIds.map Prod.fst := by
    rw [h.shown]
    rintro (hlt | ⟨-, hne⟩)
    · exact Nat.lt_irrefl _ hlt
    · exact hne hr
  have hids : ∀ t, t ∈ (s.modelIds ++ [((w, (s.progress w).transaction),
      s.world.model.nextId)]).map Prod.fst ↔
        t ∈ s.modelIds.map Prod.fst ∨ t = (w, (s.progress w).transaction) := by
    intro t
    rw [List.map_append, List.mem_append, List.map_singleton, List.mem_singleton]
  refine ⟨h.counts.addResponse _ _, ?_, ?_, h.nextRow, ?_, ?_, ?_, ?_⟩
  · show s.world.model.nextId + 1 = start + (s.modelIds ++ [_]).length
    rw [h.next, List.length_append, List.length_singleton, Nat.add_assoc]
  · intro i t id hi
    rcases Nat.lt_or_ge i s.modelIds.length with hlt | hge
    · exact h.position i t id ((List.getElem?_append_left hlt).symm.trans hi)
    · have hlast := (List.getElem?_append_right hge).symm.trans hi
      rw [List.getElem?_singleton] at hlast
      obtain ⟨hi', he⟩ := Option.ite_none_right_eq_some.1 hlast
      have hid : s.world.model.nextId = id := congrArg Prod.snd (Option.some.inj he)
      have hnext := h.next
      omega
  · intro t
    refine (hids t).trans (Iff.trans ?_ (shown_deliver h w t).symm)
    exact or_congr_right (and_iff_left hr).symm
  · show ((s.modelIds ++ [_]).map Prod.fst).Nodup
    rw [List.map_append, List.map_singleton]
    refine List.Nodup.append h.once (List.nodup_singleton _) ?_
    intro t ht ht'
    rw [List.mem_singleton.1 ht'] at ht
    exact hfresh ht
  · exact fun t ht => (hids t).2 (.inl (h.stored t ht))
  · exact fun t ht => (hids t).2 (.inl (h.scanned t ht))

theorem sameIds_toModel (h : Counted start s) (hr : (s.progress w).receiver = .model)
    (hsame : SameIds s) : SameIds (({ s with
      progress := Function.update s.progress w (s.progress w).next } : Wiring ι).toModel tx
        (w, (s.progress w).transaction)) := by
  have hfresh : (w, (s.progress w).transaction) ∉ s.modelIds.map Prod.fst := by
    rw [h.shown]
    rintro (hlt | ⟨-, hne⟩)
    · exact Nat.lt_irrefl _ hlt
    · exact hne hr
  intro t id hid
  rcases List.mem_append.1 hid with hold | hnew
  · exact hsame t id hold
  · obtain ⟨rfl, rfl⟩ := Prod.mk.inj (List.mem_singleton.1 hnew)
    constructor
    · intro row hrow
      exact absurd (h.stored _ (List.mem_map_of_mem hrow)) hfresh
    · intro f hf
      exact absurd (h.scanned _ (List.mem_map_of_mem hf)) hfresh

theorem append_counts (world : World) (req : HistoryRequest) (resp : HistoryResponse)
    (outcome : WriteOutcome) (inserts : Bool) :
    let r := appendAnnotatedEntry J D world req resp [] outcome inserts
    r.2.model = world.model ∧
      (r.1 = true ∧ (world.isOpen = true ∧ outcome = .done) ∧
          r.2.nextRowId = world.nextRowId + 1 ∨
        r.1 = false ∧ ¬(world.isOpen = true ∧ outcome = .done) ∧
          r.2.nextRowId = world.nextRowId) := by
  intro r
  have hr : r = appendAnnotatedEntry J D world req resp [] outcome inserts := rfl
  cases hopen : world.isOpen with
  | false =>
    rw [appendAnnotatedEntry_closed J D hopen ⟨req, resp, []⟩] at hr
    rw [hr]
    exact ⟨rfl, .inr ⟨rfl, fun h => Bool.noConfusion h.1, rfl⟩⟩
  | true =>
    cases outcome with
    | done =>
      obtain ⟨hdone, happended⟩ := appendAnnotatedEntry_done (J := J) (D := D) hopen
        ⟨req, resp, []⟩ inserts
      exact ⟨happended.model, .inl ⟨hdone, ⟨rfl, rfl⟩, happended.nextRowId⟩⟩
    | fails kept =>
      rw [appendAnnotatedEntry_fails J D hopen ⟨req, resp, []⟩] at hr
      rw [hr]
      refine ⟨rfl, .inr ⟨rfl, ?_, rfl⟩⟩
      rintro ⟨-, he⟩
      exact WriteOutcome.noConfusion he

theorem Counted.shown_later (h : Counted start s) (hr : (s.progress w).receiver ≠ .model)
    (t : ι × Nat) : t ∈ s.modelIds.map Prod.fst ↔
      (Function.update s.progress w (s.progress w).next t.1).Shown t.2 := by
  rw [shown_deliver h w t]
  exact (or_iff_left (fun he => hr he.2)).symm

theorem Counted.toStore (h : Counted start s) (hr : (s.progress w).receiver ≠ .model)
    (outcome : WriteOutcome) (inserts : Bool) :
    Counted start (({ s with
      progress := Function.update s.progress w (s.progress w).next } : Wiring ι).toStore J D tx
        (w, (s.progress w).transaction) outcome inserts) := by
  obtain ⟨hmodel, hcases⟩ := append_counts (J := J) (D := D) s.world
    (tx w (s.progress w).transaction).1 (tx w (s.progress w).transaction).2 outcome inserts
  have hnextRow := h.nextRow
  rw [Wiring.toStore]
  rcases hcases with ⟨hdone, -, hrow⟩ | ⟨hfails, -, hrow⟩
  · refine ⟨hmodel ▸ h.counts, hmodel ▸ h.next, h.position, ?_, h.shown_later hr, h.once, ?_,
      h.scanned⟩
    · simp only [hrow, hdone, if_true, List.length_append, List.length_singleton]
      omega
    · intro t ht
      simp only [hdone, if_true, List.map_append, List.map_singleton, List.mem_append,
        List.mem_singleton] at ht
      rcases ht with ht | rfl
      · exact h.stored t ht
      · exact h.mem_model w hr
  · refine ⟨hmodel ▸ h.counts, hmodel ▸ h.next, h.position, ?_, h.shown_later hr, h.once, ?_,
      h.scanned⟩
    · simp only [hrow, hfails, Bool.false_eq_true, if_false]
      exact hnextRow
    · simp only [hfails, Bool.false_eq_true, if_false]
      exact h.stored

theorem sameIds_toStore (h : Counted start s) (hr : (s.progress w).receiver ≠ .model)
    (hsame : SameIds s) (outcome : WriteOutcome) (inserts : Bool) :
    SameIds (({ s with
      progress := Function.update s.progress w (s.progress w).next } : Wiring ι).toStore J D tx
        (w, (s.progress w).transaction) outcome inserts) ↔
      (s.world.isOpen = true → outcome = .done →
        s.modelIds[s.rowIds.length]?.map Prod.fst = some (w, (s.progress w).transaction)) := by
  obtain ⟨-, hcases⟩ := append_counts (J := J) (D := D) s.world
    (tx w (s.progress w).transaction).1 (tx w (s.progress w).transaction).2 outcome inserts
  have hnextRow := h.nextRow
  rw [Wiring.toStore]
  rcases hcases with ⟨hdone, hdid, -⟩ | ⟨hfails, hno, -⟩
  · simp only [hdone, if_true]
    constructor
    · intro hnew _ _
      obtain ⟨⟨t, id⟩, hmem, ht⟩ := List.mem_map.1 (h.mem_model w hr)
      have hrow : (t, s.world.nextRowId) ∈
          s.rowIds ++ [((w, (s.progress w).transaction), s.world.nextRowId)] :=
        List.mem_append_right _ (List.mem_singleton.2 (Prod.ext ht rfl))
      have hid : s.world.nextRowId = id := (hnew t id hmem).1 _ hrow
      rw [← ht]
      exact (h.id_iff hmem _).1 (hnextRow.symm.trans hid)
    · intro hturn t id hmem
      refine ⟨fun row hrow => ?_, (hsame t id hmem).2⟩
      rcases List.mem_append.1 hrow with hold | hnew
      · exact (hsame t id hmem).1 row hold
      · obtain ⟨rfl, rfl⟩ := Prod.mk.inj (List.mem_singleton.1 hnew)
        exact hnextRow.trans ((h.id_iff hmem _).2 (hturn hdid.1 hdid.2))
  · simp only [hfails, Bool.false_eq_true, if_false]
    exact iff_of_true hsame (fun hopen hd => absurd ⟨hopen, hd⟩ hno)

theorem Counted.toScanner (h : Counted start s) (hr : (s.progress w).receiver ≠ .model)
    (now : QDateTime) :
    Counted start (({ s with
      progress := Function.update s.progress w (s.progress w).next } : Wiring ι).toScanner checks tx
        (w, (s.progress w).transaction) now) := by
  refine ⟨h.counts, h.next, h.position, h.nextRow, h.shown_later hr, h.once, h.stored, ?_⟩
  intro t ht
  obtain ⟨⟨t', f⟩, hf, rfl⟩ := List.mem_map.1 ht
  rcases List.mem_append.1 hf with hold | hnew
  · exact h.scanned _ (List.mem_map_of_mem hold)
  · obtain ⟨f', -, hf'⟩ := List.mem_map.1 hnew
    obtain ⟨rfl, -⟩ := Prod.mk.inj hf'
    exact h.mem_model w hr

variable (checks) in
theorem rowIds_onResponseReceived (scanner : PassiveScanner) (req : HistoryRequest)
    (resp : HistoryResponse) (now : QDateTime) :
    (scanner.onResponseReceived checks req resp now).2.map Finding.rowId =
      if PassiveScanner.audits req = true then
        (checks.checkResponse req resp).map (fun _ => scanner.nextRowId)
      else [] := by
  rw [PassiveScanner.onResponseReceived]
  split
  · exact PassiveScanner.rowId_checkResponse ..
  · rfl

theorem sameIds_toScanner (h : Counted start s) (hr : (s.progress w).receiver ≠ .model)
    (hsame : SameIds s) (now : QDateTime) :
    SameIds (({ s with
      progress := Function.update s.progress w (s.progress w).next } : Wiring ι).toScanner checks tx
        (w, (s.progress w).transaction) now) ↔
      (PassiveScanner.audits (tx w (s.progress w).transaction).1 = true →
        checks.checkResponse (tx w (s.progress w).transaction).1
          (tx w (s.progress w).transaction).2 ≠ [] →
        s.modelIds.getLast?.map Prod.fst = some (w, (s.progress w).transaction)) := by
  have hrows := rowIds_onResponseReceived checks
    { s.scanner with nextRowId := s.world.model.lastId } (tx w (s.progress w).transaction).1
    (tx w (s.progress w).transaction).2 now
  simp only [Wiring.toScanner]
  generalize hraised : (PassiveScanner.onResponseReceived checks
    { s.scanner with nextRowId := s.world.model.lastId } (tx w (s.progress w).transaction).1
    (tx w (s.progress w).transaction).2 now).2 = raised at hrows ⊢
  constructor
  · intro hnew haudits hchecks
    obtain ⟨a, ha⟩ := List.exists_mem_of_ne_nil _ hchecks
    rw [if_pos haudits] at hrows
    have hrow : s.world.model.lastId ∈ raised.map Finding.rowId := by
      rw [hrows]
      exact List.mem_map.2 ⟨a, ha, rfl⟩
    obtain ⟨f, hf, hfrow⟩ := List.mem_map.1 hrow
    obtain ⟨⟨t, id⟩, hmem, ht⟩ := List.mem_map.1 (h.mem_model w hr)
    have hfound : (t, f) ∈ s.raised ++
        raised.map (fun f => ((w, (s.progress w).transaction), f)) :=
      List.mem_append_right _ (List.mem_map.2 ⟨f, hf, Prod.ext ht.symm rfl⟩)
    have hid : f.rowId = id := (hnew t id hmem).2 f hfound
    rw [← ht]
    exact (h.lastId hmem).1 (hfrow.symm.trans hid)
  · intro hturn t id hmem
    refine ⟨(hsame t id hmem).1, fun f hf => ?_⟩
    rcases List.mem_append.1 hf with hold | hnew
    · exact (hsame t id hmem).2 f hold
    · obtain ⟨f', hf', he⟩ := List.mem_map.1 hnew
      obtain ⟨rfl, rfl⟩ := Prod.mk.inj he
      have hrow : f'.rowId ∈ raised.map Finding.rowId := List.mem_map_of_mem hf'
      rw [hrows] at hrow
      split at hrow
      · rename_i haudits
        obtain ⟨a, ha, hlast⟩ := List.mem_map.1 hrow
        rw [← hlast]
        exact (h.lastId hmem).2 (hturn haudits (List.ne_nil_of_mem ha))
      · exact absurd hrow List.not_mem_nil

end Model

theorem Counted.deliver (h : Counted start s) (d : Delivery ι) :
    Counted start (s.deliver J D checks tx d) := by
  simp only [Wiring.deliver]
  cases hr : (s.progress d.worker).receiver with
  | model => exact h.toModel hr
  | store => exact h.toStore (by rw [hr]; exact Receiver.noConfusion) d.outcome d.inserts
  | scanner => exact h.toScanner (by rw [hr]; exact Receiver.noConfusion) d.now

theorem Counted.run (h : Counted start s) (deliveries : List (Delivery ι)) :
    Counted start (deliveries.foldl (Wiring.deliver J D checks tx) s) := by
  induction deliveries generalizing s with
  | nil => exact h
  | cons d deliveries ih => exact ih (h.deliver d)

theorem sameIds_deliver (h : Counted start s) (hsame : SameIds s) (d : Delivery ι) :
    SameIds (s.deliver J D checks tx d) ↔ InTurn checks tx s d := by
  simp only [Wiring.deliver, InTurn]
  cases hr : (s.progress d.worker).receiver with
  | model => exact iff_of_true (sameIds_toModel h hr hsame) trivial
  | store =>
    exact sameIds_toStore h (by rw [hr]; exact Receiver.noConfusion) hsame d.outcome d.inserts
  | scanner => exact sameIds_toScanner h (by rw [hr]; exact Receiver.noConfusion) hsame d.now

theorem same_ids_iff {world : World} (h : Aligned world) (deliveries : List (Delivery ι)) :
    Throughout (Wiring.deliver J D checks tx) SameIds { world := world } deliveries ↔
      Along (Wiring.deliver J D checks tx) (InTurn checks tx) { world := world } deliveries :=
  throughout_iff_along (I := Counted world.model.nextId) (fun _ d hs => hs.deliver d)
    (fun _ d hs hsame => sameIds_deliver hs hsame d) (counted_init h)
    (fun _ _ hid => absurd hid List.not_mem_nil) deliveries

end Ids

section Runs

def alertAll : Checks where
  checkResponse _ _ := [⟨utf16 "info", utf16 "seen", [], []⟩]
  enrich _ := ⟨[], [], 0, [], [], [], []⟩

def takeUp (worker : Bool) : Delivery Bool := ⟨worker, none, .done, false⟩

def openWorld : World where
  disk _ _ := none
  tables _ _ := none
  historyOpen := true

theorem aligned_openWorld : Aligned openWorld := ⟨rfl, rfl⟩

abbrev busyStep : Wiring Bool → Delivery Bool → Wiring Bool :=
  Wiring.deliver JsonText.textLibrary epochDates alertAll (fun _ _ => (tlsRequest, okResponse))

/-- The first is scanned late: its finding goes to the row of the second. -/
theorem finding_on_other_row :
    ¬Throughout busyStep SameIds { world := openWorld }
      [takeUp false, takeUp true, takeUp false, takeUp false] := by
  intro h
  let early := [takeUp false, takeUp true, takeUp false]
  have hcounted : Counted openWorld.model.nextId
      (early.foldl busyStep { world := openWorld }) :=
    (counted_init aligned_openWorld).run early
  have hbefore : SameIds (early.foldl busyStep { world := openWorld }) :=
    h early ⟨[takeUp false], rfl⟩
  have hafter : SameIds (busyStep (early.foldl busyStep { world := openWorld }) (takeUp false)) :=
    h _ (List.prefix_refl _)
  have hturn := (sameIds_deliver hcounted hbefore (takeUp false)).1 hafter
  have hlast := hturn rfl (List.cons_ne_nil _ _)
  exact absurd hlast (by decide)

theorem rows_in_turn :
    Throughout busyStep SameIds { world := openWorld }
      [takeUp false, takeUp false, takeUp false, takeUp true, takeUp true, takeUp true] :=
  (same_ids_iff aligned_openWorld _).2
    ⟨trivial, fun _ _ => rfl, fun _ _ => rfl, trivial, fun _ _ => rfl, fun _ _ => rfl, trivial⟩

end Runs

end Nullock.Core

import Nullock.RepeaterTabs
import Nullock.RewriteBytes

namespace Nullock.Repeater
open SessionRules

inductive Action where
  | setHost (h : QString)
  | setPort (p : Int)
  | setUseTls (tls : Bool)
  | setRequestBytes (bytes : QByteArray)
  | setRequestText (text : QString)
  | setRequestLatin1 (enabled : Bool)
  | loadFromHistory (host : QString) (port : Int) (tls : Bool) (bytes : QByteArray)
  | clear
  | clearAll
  | sendAsync
  | completed (outcome : Option Exchange)
  | loadHistoryAt (index : Int)
  | importState (state : QJsonObject)
  | addTab (name : QString)
  | addTabFromHistory (host : QString) (port : Int) (tls : Bool) (bytes : QByteArray)
  | closeTab (index : Int)
  | setActiveTab (index : Int)
  | renameTab (index : Int) (name : QString)
  | setTabNotes (index : Int) (notes : QString)
  | duplicateTab (index : Int)

def step (L : TextLibrary) (r : Tabs) : Action → Tabs
  | .setHost h => r.setHost L h
  | .setPort p => r.setPort p
  | .setUseTls tls => r.setUseTls tls
  | .setRequestBytes bytes => r.setRequestBytes bytes
  | .setRequestText text => r.setRequestText text
  | .setRequestLatin1 enabled => r.setRequestLatin1 enabled
  | .loadFromHistory host port tls bytes => r.loadFromHistory host port tls bytes
  | .clear => r.clear
  | .clearAll => r.clearAll
  | .sendAsync => r.sendAsync
  | .completed outcome => r.completed L outcome
  | .loadHistoryAt index => r.loadHistoryAt index
  | .importState state => r.importState state
  | .addTab name => r.addTab name
  | .addTabFromHistory host port tls bytes => r.addTabFromHistory host port tls bytes
  | .closeTab index => r.closeTab index
  | .setActiveTab index => r.setActiveTab index
  | .renameTab index name => r.renameTab index name
  | .setTabNotes index notes => r.setTabNotes index notes
  | .duplicateTab index => r.duplicateTab index

namespace Tabs

def ids (r : Tabs) : List Nat := r.tabs.map Slot.id

/-- The tab that sent it has the response, and every other is as it was. -/
def StoredInSender (L : TextLibrary) (r next : Tabs) (outcome : Option Exchange) : Prop :=
  ∀ p, r.pending = some p → p.id ∈ r.ids ∧
    next.tabs = r.tabs.map (fun s =>
      if s.id = p.id then s.map (RepeaterTab.store (RepeaterTab.send L outcome p.tab)) else s)

def KeepsHistories (r next : Tabs) : Prop :=
  ∀ s ∈ r.tabs, ∀ s' ∈ next.tabs, s'.id = s.id → s'.tab.history = s.tab.history

def SentFromActive (r next : Tabs) : Prop :=
  ∀ p, next.pending = some p → r.pending = some p ∨ r.activeSlot = some ⟨p.id, p.tab⟩

/-- A closed tab, unless it is the active one, leaves the active one as it is. -/
def ActiveKept (r next : Tabs) (index : Int) : Prop :=
  r.busy = false → ∀ i, r.position index = some i → i ≠ r.active →
    next.activeSlot = r.activeSlot

structure Sound (L : TextLibrary) (r : Tabs) (a : Action) : Prop where
  range : (step L r a).active < (step L r a).tabs.length
  ids : (step L r a).ids.Nodup
  capped : ∀ s ∈ (step L r a).tabs, s.tab.history.length ≤ kMaxTabHistory
  sent : r.SentFromActive (step L r a)
  stored : ∀ outcome, a = .completed outcome → r.StoredInSender L (step L r a) outcome
  kept : (∀ outcome, a ≠ .completed outcome) → r.KeepsHistories (step L r a)
  active : ∀ index, a = .closeTab index → r.ActiveKept (step L r a) index

/-- No tab in front of the active one is closed, unless the active one is the last. -/
def NoShift (r : Tabs) : Action → Prop
  | .closeTab index => r.busy = false → ∀ i, r.position index = some i → i < r.active →
      r.active + 1 = r.tabs.length
  | _ => True

structure Inv (r : Tabs) : Prop where
  range : r.active < r.tabs.length
  ids : r.ids.Nodup
  fresh : ∀ s ∈ r.tabs, s.id < r.nextId
  capped : ∀ s ∈ r.tabs, s.tab.history.length ≤ kMaxTabHistory
  pending : ∀ p, r.pending = some p →
    r.ids[p.tabIndex]? = some p.id ∧ p.tab.history.length ≤ kMaxTabHistory

structure Evolves (r next : Tabs) : Prop where
  counted : r.nextId ≤ next.nextId
  slots : ∀ s' ∈ next.tabs,
    (r.nextId ≤ s'.id ∧ s'.id < next.nextId ∧ s'.tab.history.length ≤ kMaxTabHistory) ∨
      ∃ s ∈ r.tabs, s'.id = s.id ∧ s'.tab.history = s.tab.history
  waiting : ∀ p, next.pending = some p → r.pending = some p

theorem Evolves.refl (r : Tabs) : Evolves r r :=
  ⟨Nat.le_refl _, fun s hs => .inr ⟨s, hs, rfl, rfl⟩, fun _ hp => hp⟩

theorem Evolves.trans {r next last : Tabs} (h : Evolves r next) (h' : Evolves next last) :
    Evolves r last := by
  refine ⟨Nat.le_trans h.counted h'.counted, fun s hs => ?_,
    fun p hp => h.waiting p (h'.waiting p hp)⟩
  rcases h'.slots s hs with ⟨hid, hlt, hcap⟩ | ⟨t, ht, hid, hhist⟩
  · exact .inl ⟨Nat.le_trans h.counted hid, hlt, hcap⟩
  · rcases h.slots t ht with ⟨hnew, hlt, hcap⟩ | ⟨u, hu, hid', hhist'⟩
    · exact .inl ⟨hid ▸ hnew, hid ▸ Nat.lt_of_lt_of_le hlt h'.counted, hhist ▸ hcap⟩
    · exact .inr ⟨u, hu, hid.trans hid', hhist.trans hhist'⟩

theorem Inv.slot_eq {r : Tabs} (h : Inv r) (hs : s ∈ r.tabs) (ht : t ∈ r.tabs)
    (he : s.id = t.id) : s = t :=
  List.inj_on_of_nodup_map h.ids hs ht he

theorem Inv.evolves_fresh {r next : Tabs} (h : Inv r) (he : Evolves r next) :
    ∀ s ∈ next.tabs, s.id < next.nextId := by
  intro s hs
  rcases he.slots s hs with ⟨-, hlt, -⟩ | ⟨t, ht, hid, -⟩
  · exact hlt
  · exact hid ▸ Nat.lt_of_lt_of_le (h.fresh t ht) he.counted

theorem Inv.evolves_capped {r next : Tabs} (h : Inv r) (he : Evolves r next) :
    ∀ s ∈ next.tabs, s.tab.history.length ≤ kMaxTabHistory := by
  intro s hs
  rcases he.slots s hs with ⟨-, -, hcap⟩ | ⟨t, ht, -, hhist⟩
  · exact hcap
  · exact hhist ▸ h.capped t ht

theorem Inv.evolves_kept {r next : Tabs} (h : Inv r) (he : Evolves r next) :
    r.KeepsHistories next := by
  intro s hs s' hs' hid
  rcases he.slots s' hs' with ⟨hnew, -, -⟩ | ⟨t, ht, hid', hhist⟩
  · exact absurd (h.fresh s hs) (Nat.not_lt.2 (hid ▸ hnew))
  · rw [hhist, h.slot_eq ht hs (hid'.symm.trans hid)]

section Slots
variable {l : List Slot} {f : RepeaterTab → RepeaterTab}

theorem ids_modify (l : List Slot) (i : Nat) (f : RepeaterTab → RepeaterTab) :
    (l.modify i (Slot.map f)).map Slot.id = l.map Slot.id := by
  induction l generalizing i with
  | nil => rw [List.modify_nil]
  | cons s l ih =>
    cases i with
    | zero => rfl
    | succ i => exact congrArg (s.id :: ·) (ih i)

theorem mem_modify (h : s' ∈ l.modify i (Slot.map f)) :
    ∃ s ∈ l, s' = s ∨ s' = s.map f := by
  induction l generalizing i with
  | nil =>
    rw [List.modify_nil] at h
    exact absurd h List.not_mem_nil
  | cons s l ih =>
    cases i with
    | zero =>
      rcases List.mem_cons.1 h with rfl | h
      · exact ⟨s, List.mem_cons_self, .inr rfl⟩
      · exact ⟨s', List.mem_cons_of_mem s h, .inl rfl⟩
    | succ i =>
      rcases List.mem_cons.1 h with rfl | h
      · exact ⟨_, List.mem_cons_self, .inl rfl⟩
      · obtain ⟨t, ht, he⟩ := ih h
        exact ⟨t, List.mem_cons_of_mem s ht, he⟩

theorem modify_eq_map (hnodup : (l.map Slot.id).Nodup) (hi : (l.map Slot.id)[i]? = some k) :
    l.modify i (Slot.map f) = l.map (fun s => if s.id = k then s.map f else s) := by
  induction l generalizing i with
  | nil => cases hi
  | cons s l ih =>
    obtain ⟨hs, hrest⟩ := List.nodup_cons.1 hnodup
    cases i with
    | zero =>
      have hk : s.id = k := Option.some.inj hi
      have hsame : l.map (fun t => if t.id = k then t.map f else t) = l := by
        refine (List.map_congr_left (fun t ht => ?_)).trans (List.map_id l)
        have hne : t.id ≠ k := fun he =>
          hs (List.mem_map.2 ⟨t, ht, he.trans hk.symm⟩)
        exact if_neg hne
      rw [List.map_cons, if_pos hk, hsame]
      rfl
    | succ i =>
      have hk : k ∈ l.map Slot.id := List.mem_of_getElem? hi
      have hne : s.id ≠ k := fun he => hs (he ▸ hk)
      rw [List.map_cons, if_neg hne, ← ih hrest hi]
      rfl

end Slots

def Grows (r next : Tabs) : Prop :=
  ∃ added, next.ids = r.ids ++ added ∧ added.Nodup ∧ ∀ i ∈ added, r.nextId ≤ i

theorem Inv.mem_ids {r : Tabs} (h : Inv r) (hi : i ∈ r.ids) : i < r.nextId := by
  obtain ⟨s, hs, rfl⟩ := List.mem_map.1 hi
  exact h.fresh s hs

theorem Inv.grows_nodup {r next : Tabs} (h : Inv r) (hg : Grows r next) : next.ids.Nodup := by
  obtain ⟨added, hids, hnodup, hnew⟩ := hg
  rw [hids]
  apply List.Nodup.append h.ids hnodup
  intro i hi hadded
  exact absurd (h.mem_ids hi) (Nat.not_lt.2 (hnew i hadded))

theorem grows_position {r next : Tabs} {i k : Nat} (hg : Grows r next) (hi : r.ids[i]? = some k) :
    next.ids[i]? = some k := by
  obtain ⟨added, hids, -, -⟩ := hg
  rw [hids, List.getElem?_append_left (List.getElem?_eq_some_iff.1 hi).1]
  exact hi

theorem Inv.next {r next : Tabs} (h : Inv r) (he : Evolves r next) (hg : Grows r next)
    (hrange : next.active < next.tabs.length) : Inv next where
  range := hrange
  ids := h.grows_nodup hg
  fresh := h.evolves_fresh he
  capped := h.evolves_capped he
  pending p hp := by
    obtain ⟨hpos, hcap⟩ := h.pending p (he.waiting p hp)
    exact ⟨grows_position hg hpos, hcap⟩

theorem activeTab_eq {r : Tabs} (h : Inv r) : r.activeTab_ = r :=
  if_neg (Nat.not_le.2 h.range)

theorem modifyAt_ids (r : Tabs) (i : Nat) (f : RepeaterTab → RepeaterTab) :
    (r.modifyAt i f).ids = r.ids := ids_modify r.tabs i f

theorem modifyAt_grows (r : Tabs) (i : Nat) (f : RepeaterTab → RepeaterTab) :
    Grows r (r.modifyAt i f) :=
  ⟨[], by rw [modifyAt_ids, List.append_nil], List.nodup_nil,
    fun _ h => absurd h List.not_mem_nil⟩

theorem modifyAt_evolves (r : Tabs) (i : Nat) (hf : ∀ t, (f t).history = t.history) :
    Evolves r (r.modifyAt i f) := by
  refine ⟨Nat.le_refl _, fun s' hs' => .inr ?_, fun _ hp => hp⟩
  obtain ⟨s, hs, rfl | rfl⟩ := mem_modify hs'
  · exact ⟨s', hs, rfl, rfl⟩
  · exact ⟨s, hs, rfl, hf s.tab⟩

theorem Inv.modifyAt {r : Tabs} (h : Inv r) (i : Nat) (hf : ∀ t, (f t).history = t.history) :
    Inv (r.modifyAt i f) := by
  apply h.next (modifyAt_evolves r i hf) (modifyAt_grows r i f)
  show r.active < (r.tabs.modify i (Slot.map f)).length
  rw [List.length_modify]
  exact h.range

theorem append_grows (r : Tabs) (t : RepeaterTab) : Grows r (r.append t) := by
  refine ⟨[r.nextId], ?_, List.nodup_singleton _, ?_⟩
  · show (r.tabs ++ [(⟨r.nextId, t⟩ : Slot)]).map Slot.id = r.ids ++ [r.nextId]
    rw [List.map_append]
    rfl
  · intro i hi
    exact List.mem_singleton.1 hi ▸ Nat.le_refl _

theorem append_evolves (r : Tabs) (h : t.history.length ≤ kMaxTabHistory) :
    Evolves r (r.append t) := by
  refine ⟨Nat.le_succ _, fun s' hs' => ?_, fun _ hp => hp⟩
  rcases List.mem_append.1 hs' with hs' | hs'
  · exact .inr ⟨s', hs', rfl, rfl⟩
  · obtain rfl := List.mem_singleton.1 hs'
    exact .inl ⟨Nat.le_refl _, Nat.lt_succ_self _, h⟩

theorem appendActive_evolves (r : Tabs) (ht : t.history.length ≤ kMaxTabHistory) :
    Evolves r (r.appendActive t) :=
  ⟨(append_evolves r ht).counted, (append_evolves r ht).slots, fun _ hp => hp⟩

theorem Inv.appendActive {r : Tabs} (h : Inv r) (ht : t.history.length ≤ kMaxTabHistory) :
    Inv (r.appendActive t) := by
  have hg : Grows r (r.appendActive t) := append_grows r t
  apply h.next (appendActive_evolves r ht) hg
  show r.tabs.length < (r.tabs ++ [(⟨r.nextId, t⟩ : Slot)]).length
  rw [List.length_append]
  exact Nat.lt_succ_self _

section Refilled
variable {restored : List RepeaterTab}

theorem foldl_append_evolves (h : ∀ t ∈ restored, t.history.length ≤ kMaxTabHistory)
    (r : Tabs) : Evolves r (restored.foldl append r) := by
  induction restored generalizing r with
  | nil => exact Evolves.refl r
  | cons t restored ih =>
    have hrest := ih (fun u hu => h u (List.mem_cons_of_mem t hu)) (r.append t)
    exact (append_evolves r (h t List.mem_cons_self)).trans hrest

theorem foldl_append_length (restored : List RepeaterTab) (r : Tabs) :
    (restored.foldl append r).tabs.length = r.tabs.length + restored.length := by
  induction restored generalizing r with
  | nil => rfl
  | cons t restored ih =>
    have happend : (r.append t).tabs.length = r.tabs.length + 1 := List.length_append
    rw [List.foldl_cons, ih, happend, List.length_cons, Nat.add_assoc, Nat.add_comm 1]

theorem foldl_append_nodup (restored : List RepeaterTab) (r : Tabs) (hids : r.ids.Nodup)
    (hfresh : ∀ i ∈ r.ids, i < r.nextId) : (restored.foldl append r).ids.Nodup := by
  induction restored generalizing r with
  | nil => exact hids
  | cons t restored ih =>
    have happend : (r.append t).ids = r.ids ++ [r.nextId] := List.map_append
    apply ih (r.append t)
    · rw [happend]
      apply List.Nodup.append hids (List.nodup_singleton _)
      intro i hi hnew
      exact absurd (hfresh i hi) (List.mem_singleton.1 hnew ▸ Nat.lt_irrefl _)
    · intro i hi
      rw [happend] at hi
      rcases List.mem_append.1 hi with hi | hi
      · exact Nat.lt_succ_of_lt (hfresh i hi)
      · exact List.mem_singleton.1 hi ▸ Nat.lt_succ_self _

theorem Inv.refilled {r : Tabs} (h : Inv r) (hidle : r.pending = none)
    (hcap : ∀ t ∈ restored, t.history.length ≤ kMaxTabHistory) (active : Nat)
    (hactive : active < restored.length) :
    Evolves r { restored.foldl append { r with tabs := [] } with active := active } ∧
      Inv { restored.foldl append { r with tabs := [] } with active := active } := by
  have he := foldl_append_evolves hcap { r with tabs := [] }
  have hevolves :
      Evolves r { restored.foldl append { r with tabs := [] } with active := active } := by
    refine ⟨he.counted, fun s hs => ?_, fun p hp => he.waiting p hp⟩
    rcases he.slots s hs with hnew | ⟨t, ht, -⟩
    · exact .inl hnew
    · exact absurd ht List.not_mem_nil
  refine ⟨hevolves, ?_, ?_, h.evolves_fresh hevolves, h.evolves_capped hevolves, ?_⟩
  · show active < (restored.foldl append { r with tabs := [] }).tabs.length
    rw [foldl_append_length]
    exact Nat.lt_of_lt_of_le hactive (Nat.le_add_left _ _)
  · exact foldl_append_nodup restored { r with tabs := [] } List.nodup_nil
      (fun i hi => absurd hi List.not_mem_nil)
  · intro p hp
    exact absurd ((hevolves.waiting p hp).symm.trans hidle) (Option.some_ne_none p)

end Refilled

theorem idle_of_not_busy {r : Tabs} (h : ¬ r.busy = true) : r.pending = none := by
  cases hp : r.pending with
  | none => rfl
  | some p => exact absurd (congrArg Option.isSome hp) h

theorem clamp_lt (x : Int) (h : 0 < n) : (qBound 0 x ((n : Nat) - 1)).toNat < n := by
  rw [qBound]
  split
  · exact h
  split
  · omega
  · omega

theorem importState_inv {r : Tabs} (h : Inv r) (state : QJsonObject) :
    Evolves r (r.importState state) ∧ Inv (r.importState state) := by
  rw [importState]
  split
  · exact ⟨Evolves.refl r, h⟩
  rename_i hidle
  apply h.refilled (idle_of_not_busy hidle)
  · intro t ht
    split at ht
    · obtain rfl := List.mem_singleton.1 ht
      exact Nat.zero_le _
    · obtain ⟨v, -, rfl⟩ := List.mem_map.1 ht
      exact Nat.zero_le _
  · apply clamp_lt
    split
    · exact Nat.zero_lt_one
    · rename_i hne
      exact List.length_pos_iff.2 (fun he => hne (List.isEmpty_iff.2 he))

theorem clearAll_inv {r : Tabs} (h : Inv r) : Evolves r r.clearAll ∧ Inv r.clearAll := by
  rw [clearAll]
  split
  · exact ⟨Evolves.refl r, h⟩
  rename_i hidle
  have hblank : ∀ t ∈ [makeBlankTab (utf16 "tab 1")], t.history.length ≤ kMaxTabHistory := by
    intro t ht
    obtain rfl := List.mem_singleton.1 ht
    exact Nat.zero_le _
  exact h.refilled (idle_of_not_busy hidle) hblank 0 Nat.zero_lt_one

theorem modifyActive_eq {r : Tabs} (h : Inv r) (f : RepeaterTab → RepeaterTab) :
    r.modifyActive f = r.modifyAt r.active f := by
  rw [modifyActive, activeTab_eq h]

theorem modifyActive_inv {r : Tabs} (h : Inv r) (hf : ∀ t, (f t).history = t.history) :
    Evolves r (r.modifyActive f) ∧ Inv (r.modifyActive f) := by
  rw [modifyActive_eq h]
  exact ⟨modifyAt_evolves r r.active hf, h.modifyAt r.active hf⟩

theorem position_lt {r : Tabs} (h : r.position index = some i) : i < r.tabs.length := by
  rw [position] at h
  split at h
  · cases h
  · rename_i hrange
    cases h
    omega

theorem renameTab_inv {r : Tabs} (h : Inv r) (index : Int) (name : QString) :
    Evolves r (r.renameTab index name) ∧ Inv (r.renameTab index name) := by
  rw [renameTab]
  cases r.position index with
  | none => exact ⟨Evolves.refl r, h⟩
  | some i => exact ⟨modifyAt_evolves r i (fun _ => rfl), h.modifyAt i (fun _ => rfl)⟩

theorem setTabNotes_inv {r : Tabs} (h : Inv r) (index : Int) (notes : QString) :
    Evolves r (r.setTabNotes index notes) ∧ Inv (r.setTabNotes index notes) := by
  rw [setTabNotes]
  cases r.position index with
  | none => exact ⟨Evolves.refl r, h⟩
  | some i => exact ⟨modifyAt_evolves r i (fun _ => rfl), h.modifyAt i (fun _ => rfl)⟩

theorem setActiveTab_inv {r : Tabs} (h : Inv r) (index : Int) :
    Evolves r (r.setActiveTab index) ∧ Inv (r.setActiveTab index) := by
  rw [setActiveTab]
  cases hi : r.position index with
  | none => exact ⟨Evolves.refl r, h⟩
  | some i =>
    have he : Evolves r { r with active := i } := ⟨Nat.le_refl _, (Evolves.refl r).slots, fun _ hp => hp⟩
    exact ⟨he, position_lt hi, h.ids, h.fresh, h.capped, h.pending⟩

theorem duplicateTab_inv {r : Tabs} (h : Inv r) (index : Int) :
    Evolves r (r.duplicateTab index) ∧ Inv (r.duplicateTab index) := by
  rw [duplicateTab]
  cases hi : r.position index with
  | none => exact ⟨Evolves.refl r, h⟩
  | some i =>
    dsimp only
    cases hs : r.slotAt i with
    | none => exact ⟨Evolves.refl r, h⟩
    | some s =>
      have hcap : (RepeaterTab.copyOf s.tab).history.length ≤ kMaxTabHistory :=
        h.capped s (List.mem_of_getElem? hs)
      exact ⟨appendActive_evolves r hcap, h.appendActive hcap⟩

theorem loadHistoryAt_inv {r : Tabs} (h : Inv r) (index : Int) :
    Evolves r (r.loadHistoryAt index) ∧ Inv (r.loadHistoryAt index) := by
  unfold loadHistoryAt
  rw [activeTab_eq h]
  dsimp only
  split
  · exact ⟨Evolves.refl r, h⟩
  split
  · exact ⟨Evolves.refl r, h⟩
  split
  · exact ⟨Evolves.refl r, h⟩
  · exact modifyActive_inv h (fun _ => rfl)

theorem sendAsync_cases {r : Tabs} (h : Inv r) :
    r.sendAsync = r ∨ ∃ s, r.activeSlot = some s ∧
      r.sendAsync = { r with pending := some ⟨r.active, s.id, s.tab⟩ } := by
  unfold sendAsync
  rw [activeTab_eq h]
  split
  · exact .inl rfl
  dsimp only
  split
  · exact .inl rfl
  rename_i s hs
  split
  · exact .inl rfl
  · exact .inr ⟨s, hs, rfl⟩

theorem sendAsync_inv {r : Tabs} (h : Inv r) : Inv r.sendAsync := by
  rcases sendAsync_cases h with hsame | ⟨s, hs, hsent⟩
  · rw [hsame]
    exact h
  · rw [hsent]
    refine ⟨h.range, h.ids, h.fresh, h.capped, ?_⟩
    intro p hp
    cases hp
    refine ⟨?_, h.capped s (List.mem_of_getElem? hs)⟩
    show (r.tabs.map Slot.id)[r.active]? = some s.id
    rw [List.getElem?_map]
    exact congrArg (Option.map Slot.id) hs

theorem sendAsync_sent {r : Tabs} (h : Inv r) : r.SentFromActive r.sendAsync := by
  intro p hp
  rcases sendAsync_cases h with hsame | ⟨s, hs, hsent⟩
  · exact .inl (hsame ▸ hp)
  · rw [hsent] at hp
    cases hp
    exact .inr hs

theorem sendAsync_kept {r : Tabs} (h : Inv r) : r.KeepsHistories r.sendAsync := by
  intro s hs s' hs' hid
  have htabs : r.sendAsync.tabs = r.tabs := by
    rcases sendAsync_cases h with hsame | ⟨t, -, hsent⟩
    · rw [hsame]
    · rw [hsent]
  rw [h.slot_eq (htabs ▸ hs') hs hid]

theorem closeTab_cases {r : Tabs} (h : Inv r) (hidle : r.busy = false)
    (hi : r.position index = some i) :
    (r.tabs.length = 1 ∧ r.closeTab index =
      { [makeBlankTab (utf16 "tab 1")].foldl append { r with tabs := [] } with active := 0 }) ∨
    (1 < r.tabs.length ∧ r.closeTab index =
      { r with
        tabs := r.tabs.eraseIdx i
        active := if r.tabs.length - 1 ≤ r.active then r.tabs.length - 2 else r.active }) := by
  have hlt := position_lt hi
  have hlen : (r.tabs.eraseIdx i).length = r.tabs.length - 1 := List.length_eraseIdx_of_lt hlt
  have hactive := h.range
  have hnot : ¬ r.busy = true := Bool.eq_false_iff.1 hidle
  rw [closeTab, if_neg hnot, hi]
  dsimp only
  by_cases hone : r.tabs.length = 1
  · have hnil : r.tabs.eraseIdx i = [] := List.length_eq_zero_iff.1 (by omega)
    have hzero : r.active = 0 := by omega
    refine .inl ⟨hone, ?_⟩
    rw [hnil, if_pos (show ([] : List Slot).isEmpty = true from rfl)]
    have hrange : ¬ ({ r with tabs := [] } : Tabs).tabs.length + 1 ≤ r.active := by
      rw [hzero]
      exact Nat.not_succ_le_zero _
    refine (if_neg hrange).trans ?_
    rw [List.foldl_cons, List.foldl_nil, ← hzero]
    rfl
  · have hmany : 1 < r.tabs.length := by omega
    have hne : (r.tabs.eraseIdx i).isEmpty ≠ true := by
      intro he
      have hz := List.isEmpty_iff_length_eq_zero.1 he
      omega
    refine .inr ⟨hmany, ?_⟩
    rw [if_neg hne, hlen]
    split
    · rw [Nat.sub_sub]
    · rfl

theorem closeTab_inv {r : Tabs} (h : Inv r) (index : Int) :
    Evolves r (r.closeTab index) ∧ Inv (r.closeTab index) := by
  cases hbusy : r.busy with
  | true =>
    rw [closeTab, if_pos hbusy]
    exact ⟨Evolves.refl r, h⟩
  | false =>
    have hidle := idle_of_not_busy (Bool.eq_false_iff.1 hbusy)
    cases hi : r.position index with
    | none =>
      rw [closeTab, if_neg (Bool.eq_false_iff.1 hbusy), hi]
      exact ⟨Evolves.refl r, h⟩
    | some i =>
      rcases closeTab_cases h hbusy hi with ⟨-, hclose⟩ | ⟨hmany, hclose⟩
      · rw [hclose]
        have hblank : ∀ t ∈ [makeBlankTab (utf16 "tab 1")],
            t.history.length ≤ kMaxTabHistory := by
          intro t ht
          obtain rfl := List.mem_singleton.1 ht
          exact Nat.zero_le _
        exact h.refilled hidle hblank 0 Nat.zero_lt_one
      · rw [hclose]
        have hsub : ∀ s ∈ r.tabs.eraseIdx i, s ∈ r.tabs := fun s hs => List.mem_of_mem_eraseIdx hs
        refine ⟨⟨Nat.le_refl _, fun s hs => .inr ⟨s, hsub s hs, rfl, rfl⟩, fun _ hp => hp⟩,
          ?_, ?_, ?_, ?_, ?_⟩
        · have hlen : (r.tabs.eraseIdx i).length = r.tabs.length - 1 :=
            List.length_eraseIdx_of_lt (position_lt hi)
          show (if r.tabs.length - 1 ≤ r.active then r.tabs.length - 2 else r.active) <
            (r.tabs.eraseIdx i).length
          rw [hlen]
          split
          · omega
          · omega
        · exact h.ids.sublist ((List.eraseIdx_sublist r.tabs i).map Slot.id)
        · exact fun s hs => h.fresh s (hsub s hs)
        · exact fun s hs => h.capped s (hsub s hs)
        · exact fun p hp => absurd (hp.symm.trans hidle) (Option.some_ne_none p)

theorem Inv.next_slot_ne {r : Tabs} (h : Inv r) (hlt : r.active + 1 < r.tabs.length) :
    r.tabs[r.active + 1]? ≠ r.tabs[r.active]? := by
  intro he
  have hids : r.ids[r.active + 1]? = r.ids[r.active]? := by
    rw [Tabs.ids, List.getElem?_map, List.getElem?_map, he]
  have hlen : r.active + 1 < r.ids.length := by rwa [Tabs.ids, List.length_map]
  exact absurd ((List.getElem?_inj hlen h.ids).1 hids) (Nat.succ_ne_self _)

theorem activeKept_iff {r : Tabs} (h : Inv r) (index : Int) :
    r.ActiveKept (r.closeTab index) index ↔ NoShift r (.closeTab index) := by
  apply forall_congr'
  intro hidle
  apply forall_congr'
  intro i
  apply forall_congr'
  intro hi
  have hlt := position_lt hi
  have hactive := h.range
  rcases closeTab_cases h hidle hi with ⟨hone, -⟩ | ⟨hmany, hclose⟩
  · constructor
    · intro _ hbefore
      omega
    · intro _ hne
      omega
  · rw [hclose, activeSlot, slotAt, activeSlot, slotAt]
    constructor
    · intro hkept hbefore
      by_contra hlast
      have hinner : ¬ r.tabs.length - 1 ≤ r.active := by omega
      have hslot := hkept (Nat.ne_of_lt hbefore)
      rw [if_neg hinner, List.getElem?_eraseIdx_of_ge (Nat.le_of_lt hbefore)] at hslot
      exact h.next_slot_ne (by omega) hslot
    · intro hcond hne
      rcases Nat.lt_or_gt_of_ne hne with hbefore | hafter
      · have hlast := hcond hbefore
        have hclamp : r.tabs.length - 1 ≤ r.active := by omega
        have hpos : r.tabs.length - 2 + 1 = r.active := by omega
        have hend : i ≤ r.tabs.length - 2 := by omega
        rw [if_pos hclamp, List.getElem?_eraseIdx_of_ge hend, hpos]
      · have hinner : ¬ r.tabs.length - 1 ≤ r.active := by omega
        rw [if_neg hinner, List.getElem?_eraseIdx_of_lt hafter]

section Completion
variable (L : TextLibrary)

theorem recorded_capped (sentAt : QString) (t : RepeaterTab) :
    (RepeaterTab.recorded sentAt t).history.length ≤ kMaxTabHistory := by
  show ((t.history ++ [t.entry sentAt]).drop
    ((t.history ++ [t.entry sentAt]).length - kMaxTabHistory)).length ≤ kMaxTabHistory
  rw [List.length_drop]
  omega

theorem send_capped (outcome : Option Exchange) (h : t.history.length ≤ kMaxTabHistory) :
    (RepeaterTab.send L outcome t).history.length ≤ kMaxTabHistory := by
  unfold RepeaterTab.send
  split
  · exact h
  split
  · exact h
  split
  · exact h
  · exact recorded_capped _ _

theorem completed_stored {r : Tabs} (h : Inv r) (outcome : Option Exchange) :
    r.StoredInSender L (r.completed L outcome) outcome := by
  intro p hp
  have hpos := (h.pending p hp).1
  refine ⟨List.mem_of_getElem? hpos, ?_⟩
  rw [completed, hp]
  exact modify_eq_map h.ids hpos

theorem completed_inv {r : Tabs} (h : Inv r) (outcome : Option Exchange) :
    Inv (r.completed L outcome) := by
  cases hp : r.pending with
  | none =>
    rw [completed, hp]
    exact h
  | some p =>
    have hids : (r.completed L outcome).ids = r.ids := by
      rw [completed, hp]
      exact modifyAt_ids r p.tabIndex _
    have hslots : ∀ s ∈ (r.completed L outcome).tabs, ∃ t ∈ r.tabs, s.id = t.id ∧
        s.tab.history.length ≤ kMaxTabHistory := by
      intro s hs
      rw [completed, hp] at hs
      obtain ⟨t, ht, rfl | rfl⟩ := mem_modify hs
      · exact ⟨s, ht, rfl, h.capped s ht⟩
      · exact ⟨t, ht, rfl, send_capped L outcome (h.pending p hp).2⟩
    have hnext : (r.completed L outcome).nextId = r.nextId := by rw [completed, hp]; rfl
    refine ⟨?_, hids ▸ h.ids, ?_, ?_, ?_⟩
    · rw [completed, hp]
      show r.active < (r.tabs.modify p.tabIndex _).length
      rw [List.length_modify]
      exact h.range
    · intro s hs
      obtain ⟨t, ht, hid, -⟩ := hslots s hs
      exact hnext ▸ hid ▸ h.fresh t ht
    · intro s hs
      obtain ⟨t, -, -, hcap⟩ := hslots s hs
      exact hcap
    · intro q hq
      rw [completed, hp] at hq
      cases hq

theorem completed_pending (r : Tabs) (outcome : Option Exchange) :
    (r.completed L outcome).pending = none := by
  cases hp : r.pending with
  | none => rw [completed, hp, hp]
  | some p => rw [completed, hp]

end Completion

theorem clear_inv {r : Tabs} (h : Inv r) : Evolves r r.clear ∧ Inv r.clear := by
  rw [clear]
  split
  · exact ⟨Evolves.refl r, h⟩
  · exact modifyActive_inv h (fun _ => rfl)

theorem loadFromHistory_inv {r : Tabs} (h : Inv r) (host : QString) (port : Int) (tls : Bool)
    (bytes : QByteArray) :
    Evolves r (r.loadFromHistory host port tls bytes) ∧
      Inv (r.loadFromHistory host port tls bytes) := by
  rw [loadFromHistory]
  split
  · exact ⟨Evolves.refl r, h⟩
  · apply modifyActive_inv h
    intro t
    rw [RepeaterTab.withHistoryRow]
    split
    · rfl
    · rfl

theorem withHost_history (L : TextLibrary) (host : QString) (t : RepeaterTab) :
    (RepeaterTab.withHost L host t).history = t.history := by
  rw [RepeaterTab.withHost]
  split
  · rfl
  · rfl

theorem withTls_history (tls : Bool) (t : RepeaterTab) :
    (RepeaterTab.withTls tls t).history = t.history := by
  rw [RepeaterTab.withTls]
  split
  · rfl
  · rfl

theorem added_inv {r : Tabs} (h : Inv r) (ht : t.history = []) :
    Evolves r (r.appendActive t) ∧ Inv (r.appendActive t) := by
  have hcap : t.history.length ≤ kMaxTabHistory := ht ▸ Nat.zero_le _
  exact ⟨appendActive_evolves r hcap, h.appendActive hcap⟩

theorem addTabFromHistory_inv {r : Tabs} (h : Inv r) (host : QString) (port : Int) (tls : Bool)
    (bytes : QByteArray) :
    Evolves r (r.addTabFromHistory host port tls bytes) ∧
      Inv (r.addTabFromHistory host port tls bytes) := by
  rw [addTabFromHistory]
  split
  · exact ⟨Evolves.refl r, h⟩
  · exact added_inv h rfl

section Run
variable {L : TextLibrary}

theorem step_evolves {r : Tabs} (h : Inv r) (hsend : a ≠ .sendAsync)
    (ha : ∀ outcome, a ≠ .completed outcome) : Evolves r (step L r a) ∧ Inv (step L r a) := by
  cases a with
  | setHost host => exact modifyActive_inv h (withHost_history L host)
  | setPort p => exact modifyActive_inv h (fun _ => rfl)
  | setUseTls tls => exact modifyActive_inv h (withTls_history tls)
  | setRequestBytes bytes => exact modifyActive_inv h (fun _ => rfl)
  | setRequestText text => exact modifyActive_inv h (fun _ => rfl)
  | setRequestLatin1 enabled => exact modifyActive_inv h (fun _ => rfl)
  | loadFromHistory host port tls bytes => exact loadFromHistory_inv h host port tls bytes
  | clear => exact clear_inv h
  | clearAll => exact clearAll_inv h
  | sendAsync => exact absurd rfl hsend
  | completed outcome => exact absurd rfl (ha outcome)
  | loadHistoryAt index => exact loadHistoryAt_inv h index
  | importState state => exact importState_inv h state
  | addTab name => exact added_inv h rfl
  | addTabFromHistory host port tls bytes => exact addTabFromHistory_inv h host port tls bytes
  | closeTab index => exact closeTab_inv h index
  | setActiveTab index => exact setActiveTab_inv h index
  | renameTab index name => exact renameTab_inv h index name
  | setTabNotes index notes => exact setTabNotes_inv h index notes
  | duplicateTab index => exact duplicateTab_inv h index

/-- Every step keeps the invariant, and only a completed send adds to a history. -/
theorem step_spec (L : TextLibrary) {r : Tabs} (h : Inv r) (a : Action) :
    Inv (step L r a) ∧ r.SentFromActive (step L r a) ∧
      ((∀ outcome, a ≠ .completed outcome) → r.KeepsHistories (step L r a)) := by
  by_cases hdone : ∃ outcome, a = .completed outcome
  · obtain ⟨outcome, rfl⟩ := hdone
    refine ⟨completed_inv L h outcome, ?_, fun hne => absurd rfl (hne outcome)⟩
    intro p hp
    exact absurd (hp.symm.trans (completed_pending L r outcome)) (Option.some_ne_none p)
  · by_cases hsend : a = .sendAsync
    · subst hsend
      exact ⟨sendAsync_inv h, sendAsync_sent h, fun _ => sendAsync_kept h⟩
    · obtain ⟨he, hinv⟩ : Evolves r (step L r a) ∧ Inv (step L r a) :=
        step_evolves h hsend (fun outcome he => hdone ⟨outcome, he⟩)
      exact ⟨hinv, fun p hp => .inl (he.waiting p hp), fun _ => h.evolves_kept he⟩

theorem sound_iff (L : TextLibrary) {r : Tabs} (h : Inv r) (a : Action) :
    Sound L r a ↔ NoShift r a := by
  obtain ⟨hinv, hsent, hkept⟩ := step_spec L h a
  have hbase (hactive : ∀ index, a = .closeTab index → r.ActiveKept (step L r a) index) :
      Sound L r a :=
    ⟨hinv.range, hinv.ids, hinv.capped, hsent,
      fun outcome he => he ▸ completed_stored L h outcome, hkept, hactive⟩
  by_cases hclose : ∃ index, a = .closeTab index
  · obtain ⟨index, rfl⟩ := hclose
    constructor
    · intro hs
      exact (activeKept_iff h index).1 (hs.active index rfl)
    · intro hcond
      apply hbase
      intro j hj
      cases hj
      exact (activeKept_iff h index).2 hcond
  · constructor
    · intro _
      cases a with
      | closeTab index => exact absurd ⟨index, rfl⟩ hclose
      | _ => trivial
    · intro _
      exact hbase (fun index he => absurd ⟨index, he⟩ hclose)

def init : Tabs := {}

theorem init_inv : Inv init where
  range := Nat.zero_lt_one
  ids := List.nodup_singleton _
  fresh s hs := by
    rw [List.mem_singleton.1 hs]
    exact Nat.zero_lt_one
  capped s hs := by
    rw [List.mem_singleton.1 hs]
    exact Nat.zero_le _
  pending _ hp := nomatch hp

/-- Tabs are editors of their own as long as none in front of the active one is closed. -/
theorem editors_sound_iff (L : TextLibrary) (actions : List Action) :
    Along (step L) (Sound L) init actions ↔ Along (step L) NoShift init actions :=
  along_congr (I := Inv) (fun _ a h => (step_spec L h a).1) (fun _ a h => sound_iff L h a)
    init_inv actions

/-- With the second of three tabs open, closing the first opens the third. -/
theorem closing_shifts :
    ¬ Along (step Proxy.asciiLibrary) (Sound Proxy.asciiLibrary) init
      [.addTab (utf16 "b"), .addTab (utf16 "c"), .setActiveTab 1, .closeTab 0] := by
  rintro ⟨-, -, -, hclose, -⟩
  have hslot := hclose.active 0 rfl rfl 0 rfl Nat.zero_ne_one
  have hid : (2 : Nat) = 1 := Option.some.inj (congrArg (Option.map Slot.id) hslot)
  exact absurd hid (by decide)

end Run

end Tabs

end Nullock.Repeater

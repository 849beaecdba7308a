import Nullock.RepeaterRuns
import Nullock.HistoryRecords

namespace Nullock.Repeater
open SessionRules QJsonObject

def errorMark : QString := utf16 "[error]"

namespace RepeaterTab

def members (t : RepeaterTab) : List (String × QJsonValue) :=
  [("name", .string t.name), ("host", .string t.host), ("port", .double t.port),
    ("tls", .bool t.useTls), ("request", .string t.requestText),
    ("requestLatin1", .bool t.requestLatin1), ("notes", .string t.notes),
    ("statusLine", .string t.statusLine),
    ("responseWireBase64", .string (fromLatin1 (QByteArray.toBase64 t.rawResponse))),
    ("responseBodyBase64", .string (fromLatin1 (QByteArray.toBase64 t.responseBody))),
    ("responseBodyDecoded", .bool t.responseBodyDecoded),
    ("responseError", .string (if errorMark.isPrefixOf t.responseText then t.responseText else [])),
    ("elapsedMs", .double t.elapsedMs), ("responseBytes", .double t.responseBytes)]

def toJson (t : RepeaterTab) : QJsonObject := ofMembers t.members

def Shown (text : QString) (wire body : QByteArray) : Prop :=
  errorMark <+: text ∨ text = responseDisplay wire body

structure Faithful (t : RepeaterTab) : Prop where
  shown : Shown t.responseText t.rawResponse t.responseBody
  port : IsInt32 t.port
  bytes : IsInt32 t.responseBytes
  history : ∀ h ∈ t.history,
    Shown h.response h.rawResponse h.responseBody ∧ IsInt32 h.responseBytes

def withoutHistory (t : RepeaterTab) : RepeaterTab := { t with history := [] }

theorem variantToLongLong_int (n : Int) : variantToLongLong (.double n) = n := by
  rw [variantToLongLong, if_pos (Rat.den_intCast n), Rat.num_intCast]

theorem ofJson_toJson (h : Faithful t) : ofJson t.toJson = t.withoutHistory := by
  have htext : (if (if errorMark.isPrefixOf t.responseText then t.responseText
      else []).isEmpty then responseDisplay t.rawResponse t.responseBody
      else if errorMark.isPrefixOf t.responseText then t.responseText else []) =
      t.responseText := by
    by_cases herror : errorMark <+: t.responseText
    · have hne : t.responseText.isEmpty = false := by
        rw [List.isEmpty_eq_false_iff]
        rintro hempty
        rw [hempty] at herror
        exact absurd (List.prefix_nil.1 herror) (by decide)
      rw [if_pos (List.isPrefixOf_iff_prefix.2 herror), hne, if_neg Bool.false_ne_true]
    · rw [if_neg (fun hp => herror (List.isPrefixOf_iff_prefix.1 hp))]
      exact (h.shown.resolve_left herror).symm
  have hmembers : (t.members.map Prod.fst).all isLiteral = true := by
    simp only [members, List.map_cons, List.map_nil]
    decide
  have hvalue {key : String} (hkey : isLiteral key = true) :
      t.toJson.value key = (t.members.lookup key).getD .undefined := value_lookup hkey hmembers
  have hcontains {key : String} (hkey : isLiteral key = true) :
      t.toJson.contains key = (t.members.lookup key).isSome := contains_lookup hkey hmembers
  simp (disch := decide) only [ofJson, hvalue, hcontains, members, List.lookup_cons,
    String.reduceBEq, Option.getD_some, Option.isSome_some, if_true, QJsonValue.toQString,
    QJsonValue.toBool, toLatin1_fromLatin1, QByteArray.fromBase64_toBase64,
    QJsonValue.toInt_double h.port, QJsonValue.toInt_double h.bytes, variantToLongLong_int, htext]
  rfl

variable {t : RepeaterTab}

theorem blank_shown : Shown [] [] [] := .inr rfl

theorem blank_bytes : IsInt32 (-1) := by decide

theorem makeBlankTab_faithful (name : QString) : (makeBlankTab name).Faithful :=
  ⟨blank_shown, show IsInt32 443 by decide, blank_bytes, fun _ hh => absurd hh List.not_mem_nil⟩

theorem Faithful.withHost (h : t.Faithful) (L : TextLibrary) (host : QString) :
    (t.withHost L host).Faithful := by
  rw [RepeaterTab.withHost]
  split
  · exact h
  · exact ⟨h.shown, h.port, h.bytes, h.history⟩

theorem Faithful.withTls (h : t.Faithful) (tls : Bool) : (t.withTls tls).Faithful := by
  rw [RepeaterTab.withTls]
  split
  · exact h
  · refine ⟨h.shown, ?_, h.bytes, h.history⟩
    dsimp only
    split
    · decide
    split
    · decide
    · exact h.port

theorem Faithful.cleared (h : t.Faithful) : t.cleared.Faithful :=
  ⟨blank_shown, h.port, blank_bytes, h.history⟩

theorem Faithful.copyOf (h : t.Faithful) : t.copyOf.Faithful :=
  ⟨blank_shown, h.port, blank_bytes, h.history⟩

theorem Faithful.loaded (h : t.Faithful) {e : RepeaterHistoryEntry}
    (he : Shown e.response e.rawResponse e.responseBody ∧ IsInt32 e.responseBytes) :
    (t.loaded e).Faithful :=
  ⟨he.1, h.port, he.2, h.history⟩

theorem Faithful.withHistoryRow (h : t.Faithful) (host : QString) {port : Int}
    (hport : IsInt32 port)
    (tls : Bool) (bytes : QByteArray) : (t.withHistoryRow host port tls bytes).Faithful := by
  rw [RepeaterTab.withHistoryRow]
  split
  · exact ⟨h.shown, hport, h.bytes, h.history⟩
  · exact ⟨h.shown, hport, h.bytes, h.history⟩

theorem ofHistory_faithful (host : QString) {port : Int} (hport : IsInt32 port) (tls : Bool)
    (bytes : QByteArray) : (ofHistory host port tls bytes).Faithful :=
  ⟨blank_shown, hport, blank_bytes, fun _ hh => absurd hh List.not_mem_nil⟩

theorem Faithful.store {completed : RepeaterTab} (hc : completed.Faithful) (h : t.Faithful) :
    (RepeaterTab.store completed t).Faithful :=
  ⟨hc.shown, h.port, hc.bytes, hc.history⟩

theorem Faithful.recorded (h : t.Faithful) (sentAt : QString) : (t.recorded sentAt).Faithful := by
  refine ⟨h.shown, h.port, h.bytes, fun e he => ?_⟩
  rcases List.mem_append.1 (List.mem_of_mem_drop he) with he | he
  · exact h.history e he
  · rw [List.mem_singleton.1 he]
    exact ⟨h.shown, h.bytes⟩

theorem Faithful.answered (h : t.Faithful) (L : TextLibrary) {x : Exchange}
    (hx : x.rawResponse.length < 2 ^ 31) : (t.answered L x).Faithful := by
  refine ⟨?_, h.port, ⟨?_, ?_⟩, h.history⟩
  · rw [RepeaterTab.answered]
    dsimp only
    split
    · exact .inr rfl
    · exact .inl ⟨utf16 " " ++ x.errorMessage, by rw [← List.append_assoc]; rfl⟩
  · show -2 ^ 31 ≤ (x.rawResponse.length : Int)
    omega
  · show (x.rawResponse.length : Int) < 2 ^ 31
    omega

theorem Faithful.send (h : t.Faithful) (L : TextLibrary) {outcome : Option Exchange}
    (hx : ∀ x, outcome = some x → x.rawResponse.length < 2 ^ 31) :
    (RepeaterTab.send L outcome t).Faithful := by
  cases outcome with
  | none => exact h
  | some x =>
    rw [RepeaterTab.send]
    split
    · exact h
    split
    · refine ⟨.inl ?_, h.port, show IsInt32 0 by decide, h.history⟩
      show errorMark <+: utf16
        "[error] Request contains characters outside Latin-1. Select UTF-8 encoding."
      exact List.isPrefixOf_iff_prefix.1 (by decide)
    · exact (h.answered L (hx x rfl)).recorded x.sentAt

theorem Faithful.withoutHistory (h : t.Faithful) : t.withoutHistory.Faithful :=
  ⟨h.shown, h.port, h.bytes, fun _ he => absurd he List.not_mem_nil⟩

end RepeaterTab

namespace Tabs

structure Faithful (r : Tabs) : Prop where
  tabs : ∀ s ∈ r.tabs, s.tab.Faithful
  pending : ∀ p, r.pending = some p → p.tab.Faithful

variable {r : Tabs}

theorem Faithful.modifyAt (h : r.Faithful) (i : Nat)
    (hf : ∀ t : RepeaterTab, t.Faithful → (f t).Faithful) : (r.modifyAt i f).Faithful := by
  refine ⟨fun s hs => ?_, h.pending⟩
  obtain ⟨s₀, hs₀, rfl | rfl⟩ := mem_modify hs
  · exact h.tabs _ hs₀
  · exact hf _ (h.tabs s₀ hs₀)

theorem Faithful.modifyActive (h : r.Faithful) (hinv : Inv r)
    (hf : ∀ t : RepeaterTab, t.Faithful → (f t).Faithful) : (r.modifyActive f).Faithful := by
  rw [modifyActive_eq hinv]
  exact h.modifyAt r.active hf

theorem Faithful.append (h : r.Faithful) {t : RepeaterTab} (ht : t.Faithful) :
    (r.append t).Faithful := by
  refine ⟨fun s hs => ?_, h.pending⟩
  rcases List.mem_append.1 hs with hs | hs
  · exact h.tabs s hs
  · rw [List.mem_singleton.1 hs]
    exact ht

theorem Faithful.appendActive (h : r.Faithful) {t : RepeaterTab} (ht : t.Faithful) :
    (r.appendActive t).Faithful :=
  ⟨(h.append ht).tabs, (h.append ht).pending⟩

def Sized : Action → Prop
  | .setPort p => IsInt32 p
  | .loadFromHistory _ port _ _ => IsInt32 port
  | .addTabFromHistory _ port _ _ => IsInt32 port
  | .completed outcome => ∀ x, outcome = some x → x.rawResponse.length < 2 ^ 31
  | .importState _ => False
  | _ => True

theorem step_faithful (L : TextLibrary) (hinv : Inv r) (h : r.Faithful) (ha : Sized a) :
    (step L r a).Faithful := by
  cases a with
  | setHost host => exact h.modifyActive hinv (fun t ht => ht.withHost L host)
  | setPort p => exact h.modifyActive hinv (fun t ht => ⟨ht.shown, ha, ht.bytes, ht.history⟩)
  | setUseTls tls => exact h.modifyActive hinv (fun t ht => ht.withTls tls)
  | setRequestBytes bytes =>
    exact h.modifyActive hinv (fun t ht => ⟨ht.shown, ht.port, ht.bytes, ht.history⟩)
  | setRequestText text =>
    exact h.modifyActive hinv (fun t ht => ⟨ht.shown, ht.port, ht.bytes, ht.history⟩)
  | setRequestLatin1 enabled =>
    exact h.modifyActive hinv (fun t ht => ⟨ht.shown, ht.port, ht.bytes, ht.history⟩)
  | loadFromHistory host port tls bytes =>
    rw [step, loadFromHistory]
    split
    · exact h
    · exact h.modifyActive hinv (fun t ht => ht.withHistoryRow host ha tls bytes)
  | clear =>
    rw [step, clear]
    split
    · exact h
    · exact h.modifyActive hinv (fun t ht => ht.cleared)
  | clearAll =>
    rw [step, clearAll]
    split
    · exact h
    · have hnone : ({ r with tabs := [] } : Tabs).Faithful :=
        ⟨fun s hs => absurd hs List.not_mem_nil, h.pending⟩
      have hblank := hnone.append (RepeaterTab.makeBlankTab_faithful (utf16 "tab 1"))
      exact ⟨hblank.tabs, hblank.pending⟩
  | sendAsync =>
    rw [step]
    rcases sendAsync_cases hinv with hsame | ⟨s, hs, hsend⟩
    · rw [hsame]
      exact h
    · rw [hsend]
      refine ⟨h.tabs, fun p hp => ?_⟩
      cases hp
      exact h.tabs s (List.mem_of_getElem? hs)
  | completed outcome =>
    rw [step, completed]
    cases hp : r.pending with
    | none => exact h
    | some p =>
      have hsent := (h.pending p hp).send L ha
      exact ⟨(h.modifyAt p.tabIndex (fun t ht => hsent.store ht)).tabs, fun q hq => by cases hq⟩
  | loadHistoryAt index =>
    rw [step]
    unfold loadHistoryAt
    rw [activeTab_eq hinv]
    dsimp only
    split
    · exact h
    split
    · exact h
    split
    · exact h
    · rename_i s hs _ _ e he
      have hentry := (h.tabs s (List.mem_of_getElem? hs)).history e (List.mem_of_getElem? he)
      exact h.modifyActive hinv (fun t ht => ht.loaded hentry)
  | importState state => exact absurd ha id
  | addTab name => exact h.appendActive (RepeaterTab.makeBlankTab_faithful _)
  | addTabFromHistory host port tls bytes =>
    rw [step, addTabFromHistory]
    split
    · exact h
    · exact h.appendActive (RepeaterTab.ofHistory_faithful host ha tls bytes)
  | closeTab index =>
    rw [step]
    have hblank := RepeaterTab.makeBlankTab_faithful (utf16 "tab 1")
    by_cases hbusy : r.busy = true
    · rw [closeTab, if_pos hbusy]
      exact h
    cases hi : r.position index with
    | none =>
      rw [closeTab, if_neg hbusy, hi]
      exact h
    | some i =>
      rcases closeTab_cases hinv (Bool.eq_false_iff.2 hbusy) hi with ⟨-, heq⟩ | ⟨-, heq⟩
      · have hnone : ({ r with tabs := [] } : Tabs).Faithful :=
          ⟨fun s hs => absurd hs List.not_mem_nil, h.pending⟩
        have hone := hnone.append hblank
        rw [heq]
        exact ⟨hone.tabs, hone.pending⟩
      · rw [heq]
        exact ⟨fun s hs => h.tabs s (List.mem_of_mem_eraseIdx hs), h.pending⟩
  | setActiveTab index =>
    rw [step, setActiveTab]
    split
    · exact h
    · exact ⟨h.tabs, h.pending⟩
  | renameTab index name =>
    rw [step, renameTab]
    split
    · exact h
    · exact h.modifyAt _ (fun t ht => ⟨ht.shown, ht.port, ht.bytes, ht.history⟩)
  | setTabNotes index notes =>
    rw [step, setTabNotes]
    split
    · exact h
    · exact h.modifyAt _ (fun t ht => ⟨ht.shown, ht.port, ht.bytes, ht.history⟩)
  | duplicateTab index =>
    rw [step, duplicateTab]
    split
    · exact h
    split
    · exact h
    · rename_i s hs
      exact h.appendActive (h.tabs s (List.mem_of_getElem? hs)).copyOf

end Tabs

structure State where
  tabs : Tabs := {}
  autoContentLength : Bool := true
  followPolicy : Int := 0
  followCookies : Bool := true

namespace State

def setAutoContentLength (r : State) (on : Bool) : State := { r with autoContentLength := on }

def setFollowRedirects (r : State) (policy : Int) : State :=
  { r with followPolicy := if policy < 0 ∨ 3 < policy then 0 else policy }

def setProcessCookies (r : State) (on : Bool) : State := { r with followCookies := on }

def exportState (r : State) : QJsonObject :=
  ofMembers [("activeTab", .double (r.tabs.active : Int)),
    ("tabs", .array (r.tabs.tabs.map (fun s => .object s.tab.toJson))),
    ("autoContentLength", .bool r.autoContentLength), ("followRedirects", .double r.followPolicy),
    ("processCookies", .bool r.followCookies)]

def importState (r : State) (state : QJsonObject) : State :=
  if r.tabs.busy then r
  else
    ((({ r with tabs := r.tabs.importState state }).setAutoContentLength
      ((state.value "autoContentLength").toBool true)).setFollowRedirects
      ((state.value "followRedirects").toInt 0)).setProcessCookies
      ((state.value "processCookies").toBool true)

inductive Reachable (L : TextLibrary) : State → Prop
  | new : Reachable L {}
  | step : Reachable L r → Tabs.Sized a → (Repeater.step L r.tabs a).tabs.length ≤ 2 ^ 31 →
      Reachable L { r with tabs := Repeater.step L r.tabs a }
  | setAutoContentLength (on : Bool) : Reachable L r → Reachable L (r.setAutoContentLength on)
  | setFollowRedirects (policy : Int) : Reachable L r → Reachable L (r.setFollowRedirects policy)
  | setProcessCookies (on : Bool) : Reachable L r → Reachable L (r.setProcessCookies on)
  | importState : Reachable L r → Reachable L saved →
      Reachable L (r.importState saved.exportState)

structure Sound (r : State) : Prop where
  inv : Tabs.Inv r.tabs
  faithful : r.tabs.Faithful
  count : r.tabs.tabs.length ≤ 2 ^ 31
  policy : 0 ≤ r.followPolicy ∧ r.followPolicy ≤ 3

theorem foldl_append_tabs (restored : List RepeaterTab) (r : Tabs) :
    (restored.foldl Tabs.append r).tabs.map Slot.tab = r.tabs.map Slot.tab ++ restored := by
  induction restored generalizing r with
  | nil => exact (List.append_nil _).symm
  | cons t restored ih =>
    rw [List.foldl_cons, ih, Tabs.append, List.map_append, List.append_assoc]
    rfl

def qBoundOf (r : State) : Int := Tabs.qBound 0 r.tabs.active (r.tabs.tabs.length - 1)

theorem Sound.restored (h : Sound r) {target : State} (hidle : target.tabs.busy = false) :
    (target.importState r.exportState).tabs.tabs.map Slot.tab =
        r.tabs.tabs.map (fun s => s.tab.withoutHistory) ∧
      (target.importState r.exportState).tabs.active = r.tabs.active ∧
      (target.importState r.exportState).autoContentLength = r.autoContentLength ∧
      (target.importState r.exportState).followPolicy = r.followPolicy ∧
      (target.importState r.exportState).followCookies = r.followCookies := by
  have hlength : r.tabs.active < r.tabs.tabs.length := h.inv.range
  have hactive : IsInt32 (r.tabs.active : Int) := ⟨by omega, by have := h.count; omega⟩
  have hpolicy : IsInt32 r.followPolicy := ⟨by have := h.policy; omega, by have := h.policy; omega⟩
  have hidle' : ¬ target.tabs.busy = true := Bool.eq_false_iff.1 hidle
  have htabs : (SessionManager.toArray (r.exportState.value "tabs")).map
      (fun v => RepeaterTab.ofJson v.toObject) =
        r.tabs.tabs.map (fun s => s.tab.withoutHistory) := by
    simp (disch := decide) only [exportState, value_ofMembers, String.reduceEq, if_true, if_false,
      SessionManager.toArray, List.map_map]
    apply List.map_congr_left
    intro s hs
    rw [Function.comp_apply, QJsonValue.toObject]
    exact RepeaterTab.ofJson_toJson (h.faithful.tabs s hs)
  have hne : ¬ (r.tabs.tabs.map (fun s => s.tab.withoutHistory)).isEmpty = true := by
    rw [List.isEmpty_iff, List.map_eq_nil_iff]
    intro hnil
    rw [hnil] at hlength
    exact absurd hlength (Nat.not_lt_zero _)
  have hindex : (r.exportState.value "activeTab").toInt 0 = r.tabs.active := by
    simp (disch := decide) only [exportState, value_ofMembers, if_true,
      QJsonValue.toInt_double hactive]
  have himport : target.tabs.importState r.exportState =
      { (r.tabs.tabs.map (fun s => s.tab.withoutHistory)).foldl Tabs.append
          { target.tabs with tabs := [] } with
        active := (qBoundOf r).toNat } := by
    rw [Tabs.importState, if_neg hidle', htabs]
    dsimp only
    rw [if_neg hne, hindex, List.length_map]
    rfl
  have hauto : (r.exportState.value "autoContentLength").toBool true = r.autoContentLength := by
    simp (disch := decide) only [exportState, value_ofMembers, String.reduceEq, if_true, if_false,
      QJsonValue.toBool]
  have hfollow : (r.exportState.value "followRedirects").toInt 0 = r.followPolicy := by
    simp (disch := decide) only [exportState, value_ofMembers, String.reduceEq, if_true, if_false,
      QJsonValue.toInt_double hpolicy]
  have hcookies : (r.exportState.value "processCookies").toBool true = r.followCookies := by
    simp (disch := decide) only [exportState, value_ofMembers, String.reduceEq, if_true, if_false,
      QJsonValue.toBool]
  rw [importState, if_neg hidle', hauto, hfollow, hcookies, himport]
  refine ⟨foldl_append_tabs _ _, ?_, rfl, if_neg (by have := h.policy; omega), rfl⟩
  show (qBoundOf r).toNat = r.tabs.active
  rw [qBoundOf, Tabs.qBound, if_neg (by omega), if_neg (by omega), Int.toNat_natCast]

theorem Reachable.sound (h : Reachable L r) : Sound r := by
  induction h with
  | new =>
    refine ⟨Tabs.init_inv, ⟨fun s hs => ?_, fun p hp => by cases hp⟩, by decide, by decide⟩
    rw [List.mem_singleton.1 hs]
    exact RepeaterTab.makeBlankTab_faithful _
  | step _ ha hlen ih =>
    exact ⟨(Tabs.step_spec L ih.inv _).1, Tabs.step_faithful L ih.inv ih.faithful ha, hlen,
      ih.policy⟩
  | setAutoContentLength on _ ih => exact ⟨ih.inv, ih.faithful, ih.count, ih.policy⟩
  | setFollowRedirects policy _ ih =>
    refine ⟨ih.inv, ih.faithful, ih.count, ?_⟩
    unfold State.setFollowRedirects
    dsimp only
    split
    · decide
    · omega
  | setProcessCookies on _ ih => exact ⟨ih.inv, ih.faithful, ih.count, ih.policy⟩
  | @importState r saved _ _ ih ihs =>
    by_cases hbusy : r.tabs.busy = true
    · rw [State.importState, if_pos hbusy]
      exact ih
    · obtain ⟨htabs, -, -, hpolicy, -⟩ := ihs.restored (Bool.eq_false_iff.2 hbusy)
      have heq : (r.importState saved.exportState).tabs =
          r.tabs.importState saved.exportState := by
        rw [State.importState, if_neg hbusy]
        rfl
      refine ⟨?_, ⟨fun s hs => ?_, fun p hp => ?_⟩, ?_, hpolicy ▸ ihs.policy⟩
      · rw [heq]
        exact (Tabs.importState_inv ih.inv _).2
      · have hmem := List.mem_map_of_mem (f := Slot.tab) hs
        rw [htabs] at hmem
        obtain ⟨s₀, hs₀, ht⟩ := List.mem_map.1 hmem
        rw [← ht]
        exact (ihs.faithful.tabs s₀ hs₀).withoutHistory
      · rw [heq] at hp
        have hwaiting := (Tabs.importState_inv ih.inv saved.exportState).1.waiting p hp
        rw [Tabs.idle_of_not_busy hbusy] at hwaiting
        cases hwaiting
      · have hlength := congrArg List.length htabs
        rw [List.length_map, List.length_map] at hlength
        rw [hlength]
        exact ihs.count

/-- What a Repeater saves brings back its tabs, their order and the options. -/
theorem saved_restored (L : TextLibrary) {r target : State} (h : Reachable L r)
    (hidle : target.tabs.busy = false) :
    (target.importState r.exportState).tabs.tabs.map Slot.tab =
        r.tabs.tabs.map (fun s => s.tab.withoutHistory) ∧
      (target.importState r.exportState).tabs.active = r.tabs.active ∧
      (target.importState r.exportState).autoContentLength = r.autoContentLength ∧
      (target.importState r.exportState).followPolicy = r.followPolicy ∧
      (target.importState r.exportState).followCookies = r.followCookies :=
  h.sound.restored hidle

theorem restored_policy :
    (State.importState {} (State.exportState (State.setFollowRedirects {} 2))).followPolicy =
      2 :=
  (saved_restored Proxy.asciiLibrary (.setFollowRedirects 2 .new) rfl).2.2.2.1

end State

end Nullock.Repeater

import Nullock.SequencerCapture
import Nullock.Revisions
import Nullock.SessionIsolation

namespace Nullock.SequencerCapture
open HttpLogic SessionRules QJsonObject
open SessionVariables (ExtractLibrary InspectedResponse)

structure Patch where
  members : QJsonObject
  sorted : Sorted members

inductive Action where
  | start (req : Request)
  | stop
  | clear
  | send
  | shot (res : Option InspectedResponse)
  | appendText (text : QString)
  /-- A client that read the engine at one moment of the run patches the draft. -/
  | patchDraft (readAt : Nat) (patch : Patch) (textRevision : Int)
  | importState (state : QJsonObject)
  | exportState
  | restart

/-- The engine, its saved state, and what it has shown in the run. -/
structure Desk where
  engine : Engine
  saved : QJsonObject := []
  restarts : Nat := 0
  moments : List (Moment QJsonValue)

def Engine.moment (c : Engine) (restarts : Nat) : Moment QJsonValue :=
  ⟨restarts, c.textRevision, c.text⟩

def restored (saved : QJsonObject) : Engine := Engine.importState {} saved

def Desk.init (saved : QJsonObject) : Desk where
  engine := restored saved
  saved := saved
  moments := [(restored saved).moment 0]

section
variable (L : TextLibrary) (X : ExtractLibrary)

def Engine.next (c : Engine) (saved : QJsonObject) : Action → Engine
  | .start req => (c.start req).1
  | .stop => c.requestStop
  | .clear => c.clear
  | .send => c.send
  | .shot res => c.shot L X res
  | .appendText text => (c.appendText text).1
  | .patchDraft _ patch textRevision => (c.patchDraft patch.members textRevision).1
  | .importState state => c.importState state
  | .exportState => c
  | .restart => restored saved

def step (d : Desk) (a : Action) : Desk :=
  let engine := d.engine.next L X d.saved a
  let restarts := match a with
    | .restart => d.restarts + 1
    | _ => d.restarts
  { engine := engine
    saved := match a with
      | .exportState => d.engine.exportState
      | _ => d.saved
    restarts := restarts
    moments := d.moments ++ [engine.moment restarts] }

end

def Kept (before after : Engine) : Prop :=
  after.draft = before.draft ∧ after.tokens = before.tokens ∧ after.revision = before.revision ∧
    after.textRevision = before.textRevision

def Unseen (d : Desk) : Action → Prop
  | .patchDraft readAt patch textRevision =>
    match d.engine.patchDraft patch.members textRevision with
    | (c, some _) => Kept d.engine c
    | (c, none) => c.text ≠ d.engine.text → ∀ m, d.moments[readAt]? = some m →
        m.revision = textRevision → d.engine.text = m.content
  | .appendText text => ∀ e, (d.engine.appendText text).2 = some e →
      Kept d.engine (d.engine.appendText text).1
  | _ => True

def Replaces (patch : Patch) (c : Engine) : Prop :=
  (∀ m ∈ patch.members, Engine.fieldValid m.1 m.2 = true) ∧ patch.members.contains "text" = true ∧
    patch.members.value "text" ≠ c.text

/-- A restarted count has not come back on another text to a number still held. -/
def NotRecounted (d : Desk) : Action → Prop
  | .patchDraft readAt patch textRevision => Replaces patch d.engine → ∀ m,
      d.moments[readAt]? = some m → m.restarts < d.restarts → m.revision = textRevision →
      d.engine.textRevision = textRevision → d.engine.text = m.content
  | _ => True

def Stands (before after : Engine) : Prop :=
  after.text = before.text ∧ after.textRevision = before.textRevision

def Counted (before after : Engine) : Prop :=
  Stands before after ∨ after.textRevision = before.textRevision + 1

theorem Stands.refl (c : Engine) : Stands c c := ⟨rfl, rfl⟩

theorem Counted.refl (c : Engine) : Counted c c := .inl (Stands.refl c)

section Operations
variable {c : Engine}

theorem value_setMembers (h : ∀ m ∈ members, isLiteral m.1 = true ∧ m.1 ≠ "text")
    (o : QJsonObject) : (Engine.setMembers members o).value "text" = o.value "text" := by
  induction members generalizing o with
  | nil => rfl
  | cons m members ih =>
    obtain ⟨hlit, hne⟩ := h m List.mem_cons_self
    have hrest := ih (fun n hn => h n (List.mem_cons_of_mem m hn)) (insert (utf16 m.1) m.2 o)
    exact hrest.trans ((value_insert (by decide) hlit m.2 o).trans (if_neg hne.symm))

theorem requestMembers_names (req : Request) :
    ∀ m ∈ Engine.requestMembers req, isLiteral m.1 = true ∧ m.1 ≠ "text" := by
  intro m hm
  have hnames : m.1 ∈ ["capHost", "capPort", "capTls", "capRequest", "capCount",
      "capThrottleMs", "capExtractFrom", "capExtractKey", "capDelimStart", "capDelimEnd"] := by
    rw [Engine.requestMembers] at hm
    split at hm
    · exact List.mem_map_of_mem (f := Prod.fst) hm
    · exact List.mem_append_left ["capDelimStart", "capDelimEnd"]
        (List.mem_map_of_mem (f := Prod.fst) hm)
  revert hnames
  generalize m.1 = name
  revert name
  decide

theorem start_stands (req : Request) : Stands c (c.start req).1 := by
  rw [Engine.start]
  split
  · exact Stands.refl c
  split
  · exact Stands.refl c
  split
  · exact Stands.refl c
  dsimp only
  split
  · exact Stands.refl c
  · have htext := value_setMembers (requestMembers_names { req with
      count := clampCaptureCount req.count kMaxTokens
      throttleMs := clampThrottleMs req.throttleMs }) c.draft
    refine ⟨?_, rfl⟩
    rw [Engine.text, Engine.text]
    exact htext

theorem clear_stands : Stands c c.clear := by
  rw [Engine.clear]
  split
  · exact Stands.refl c
  · exact ⟨rfl, rfl⟩

theorem send_stands : Stands c c.send := by
  rw [Engine.send]
  split
  · exact Stands.refl c
  split
  · exact Stands.refl c
  split
  · exact ⟨rfl, rfl⟩
  · exact ⟨rfl, rfl⟩

theorem tally_counted (consecFail : Int) (token : QString) (cls : ShotClass) :
    Counted c (c.tally consecFail token cls).1 := by
  cases cls with
  | token =>
    rw [Engine.tally, Engine.appendToken]
    split
    · exact .inl ⟨rfl, rfl⟩
    · exact .inr rfl
  | emptyExtract => exact .inl ⟨rfl, rfl⟩
  | httpError => exact .inl ⟨rfl, rfl⟩
  | transportError => exact .inl ⟨rfl, rfl⟩

theorem shot_counted (L : TextLibrary) (X : ExtractLibrary) (res : Option InspectedResponse) :
    Counted c (c.shot L X res) := by
  unfold Engine.shot
  split
  · exact Counted.refl c
  split
  · exact Counted.refl c
  rename_i w _ _
  cases res with
  | none =>
    have h := tally_counted (c := c) w.consecFail [] (classifyShot false 0 true)
    dsimp only
    split
    · exact h
    · exact h
  | some resp =>
    have h := tally_counted (c := c.noteResponse resp) w.consecFail
      (Engine.tokenOf L X w.req (some resp))
      (classifyShot true resp.statusCode (Engine.tokenOf L X w.req (some resp)).isEmpty)
    dsimp only
    split
    · exact h
    · exact h

theorem importState_counted (state : QJsonObject) : Counted c (c.importState state) := by
  rw [Engine.importState]
  split
  · exact Counted.refl c
  · exact .inr (congrArg (· + 1) clear_stands.2)

theorem appendText_counted (text : QString) : Counted c (c.appendText text).1 := by
  rw [Engine.appendText]
  split
  · exact Counted.refl c
  · exact .inr rfl

theorem appendText_refused (h : (c.appendText text).2 = some e) :
    (c.appendText text).1 = c := by
  rw [Engine.appendText] at h ⊢
  split at h
  · rename_i hbig
    rw [if_pos hbig]
  · cases h

theorem patchFields_valid (h : Engine.patchFields members draft = .ok d) :
    ∀ m ∈ members, Engine.fieldValid m.1 m.2 = true := by
  induction members generalizing draft with
  | nil => exact fun m hm => absurd hm List.not_mem_nil
  | cons n members ih =>
    rw [Engine.patchFields] at h
    split at h
    · rename_i hn
      intro m hm
      rcases List.mem_cons.1 hm with rfl | hm
      · exact hn
      · exact ih h m hm
    · cases h

theorem patchFields_accepts (h : ∀ m ∈ members, Engine.fieldValid m.1 m.2 = true)
    (draft : QJsonObject) : ∃ d, Engine.patchFields members draft = .ok d := by
  induction members generalizing draft with
  | nil => exact ⟨draft, rfl⟩
  | cons n members ih =>
    rw [Engine.patchFields, if_pos (h n List.mem_cons_self)]
    exact ih (fun m hm => h m (List.mem_cons_of_mem n hm)) _

theorem patchFields_lookup (hsorted : Sorted members)
    (h : Engine.patchFields members draft = .ok d) (name : QString) :
    d.lookup name = (members.lookup name).or (draft.lookup name) := by
  induction members generalizing draft with
  | nil =>
    cases h
    rfl
  | cons m members ih =>
    obtain ⟨hm, hrest⟩ := List.pairwise_cons.1 hsorted
    rw [Engine.patchFields] at h
    split at h
    · rw [ih hrest h, lookup_insert, List.lookup_cons, beq_eq_decide]
      by_cases hname : name = m.1
      · have hnone : members.lookup name = none := by
          apply List.lookup_eq_none_iff.2
          intro n hn
          have hne : name ≠ n.1 := by
            rintro rfl
            exact List.lt_irrefl _ (hname ▸ hm n hn)
          exact bne_iff_ne.2 hne
        rw [if_pos hname, hnone, decide_eq_true hname]
        rfl
      · rw [if_neg hname, decide_eq_false hname]
    · cases h

theorem patched_text (patch : Patch) (h : Engine.patchFields patch.members c.draft = .ok d) :
    d.value "text" =
      if patch.members.contains "text" then patch.members.value "text" else c.text := by
  rw [value, patchFields_lookup patch.sorted h, Engine.text, value, value, contains]
  cases patch.members.lookup (utf16 "text") with
  | none => rfl
  | some v => rfl

/-- A patch is refused and changes nothing, or it named the text that it replaces. -/
theorem patchDraft_cases (patch : Patch) (textRevision : Int) :
    (∃ e, c.patchDraft patch.members textRevision = (c, some e)) ∨
      ∃ d, c.patchDraft patch.members textRevision = (d, none) ∧
        (∀ m ∈ patch.members, Engine.fieldValid m.1 m.2 = true) ∧
        (patch.members.contains "text" = true → textRevision = c.textRevision ∧
          d.textRevision = c.textRevision + 1 ∧ d.text = patch.members.value "text") ∧
        (patch.members.contains "text" = false → Stands c d) := by
  rw [Engine.patchDraft]
  split
  · exact .inl ⟨_, rfl⟩
  rename_i hrev
  cases hfields : Engine.patchFields patch.members c.draft with
  | error e => exact .inl ⟨e, rfl⟩
  | ok draft =>
    have htext := patched_text patch hfields
    refine .inr ⟨_, rfl, patchFields_valid hfields, ?_, ?_⟩
    · intro hcontains
      have hsame : textRevision = c.textRevision := by
        by_contra hne
        exact hrev (Bool.and_eq_true_iff.2 ⟨hcontains, bne_iff_ne.2 hne⟩)
      exact ⟨hsame, if_pos hcontains, htext.trans (if_pos hcontains)⟩
    · intro hcontains
      have hno : ¬ patch.members.contains "text" = true := Bool.eq_false_iff.1 hcontains
      exact ⟨htext.trans (if_neg hno), if_neg hno⟩

theorem patchDraft_counted (patch : Patch) (textRevision : Int) :
    Counted c (c.patchDraft patch.members textRevision).1 := by
  rcases patchDraft_cases (c := c) patch textRevision with ⟨e, he⟩ | ⟨d, hd, -, hwith, hwithout⟩
  · rw [he]
    exact Counted.refl c
  · rw [hd]
    cases hcontains : patch.members.contains "text" with
    | true => exact .inr (hwith hcontains).2.1
    | false => exact .inl (hwithout hcontains)

theorem patchDraft_accepts (patch : Patch) (h : Replaces patch c) :
    ∃ d, c.patchDraft patch.members c.textRevision = (d, none) := by
  obtain ⟨draft, hfields⟩ := patchFields_accepts h.1 c.draft
  rw [Engine.patchDraft, if_neg (by rw [bne_self_eq_false, Bool.and_false]; exact nofun),
    hfields]
  exact ⟨_, rfl⟩

end Operations

section Run
variable {L : TextLibrary} {X : ExtractLibrary}

theorem next_counted (h : a ≠ .restart) (c : Engine) (saved : QJsonObject) :
    Counted c (c.next L X saved a) := by
  cases a with
  | start req => exact .inl (start_stands req)
  | stop => exact .inl ⟨rfl, rfl⟩
  | clear => exact .inl clear_stands
  | send => exact .inl send_stands
  | shot res => exact shot_counted L X res
  | appendText text => exact appendText_counted text
  | patchDraft _ patch textRevision => exact patchDraft_counted patch textRevision
  | importState state => exact importState_counted state
  | exportState => exact Counted.refl c
  | restart => exact absurd rfl h

theorem Counted.follows (h : Counted c c') (restarts : Nat) :
    (c.moment restarts).Follows (c'.moment restarts) := by
  refine .inr ⟨rfl, ?_⟩
  rcases h with ⟨htext, hrev⟩ | hrev
  · exact ⟨hrev.ge, fun _ => htext⟩
  · have hlt : c.textRevision < c'.textRevision := hrev ▸ Int.lt_succ c.textRevision
    exact ⟨Int.le_of_lt hlt, fun hstill => absurd hstill (Int.ne_of_gt hlt)⟩

def Desk.Told (d : Desk) : Prop := Witnessed d.moments (d.engine.moment d.restarts)

theorem Desk.init_told (saved : QJsonObject) : (Desk.init saved).Told :=
  Witnessed.singleton _

theorem step_told (d : Desk) (a : Action) (h : d.Told) : (step L X d a).Told := by
  by_cases ha : a = .restart
  · subst ha
    exact Witnessed.next h (.inl (Nat.lt_succ_self _))
  · have hrestarts : (step L X d a).restarts = d.restarts := by
      cases a with
      | restart => exact absurd rfl ha
      | _ => rfl
    have hnext : (d.engine.moment d.restarts).Follows
        ((step L X d a).engine.moment (step L X d a).restarts) :=
      hrestarts ▸ (next_counted ha d.engine d.saved).follows d.restarts
    exact Witnessed.next h hnext

theorem unseen_iff (d : Desk) (a : Action) (h : d.Told) : Unseen d a ↔ NotRecounted d a := by
  cases a with
  | appendText text =>
    refine ⟨fun _ => trivial, fun _ e he => ?_⟩
    rw [appendText_refused he]
    exact ⟨rfl, rfl, rfl, rfl⟩
  | patchDraft readAt patch textRevision =>
    rw [Unseen, NotRecounted]
    rcases patchDraft_cases (c := d.engine) patch textRevision with
      ⟨e, he⟩ | ⟨c, hc, hvalid, hwith, hwithout⟩
    · rw [he]
      refine ⟨fun _ hreplaces m _ _ _ hnow => ?_, fun _ => ⟨rfl, rfl, rfl, rfl⟩⟩
      obtain ⟨c, hc⟩ := patchDraft_accepts patch hreplaces
      rw [hnow, he] at hc
      cases hc
    · rw [hc]
      constructor
      · intro hseen hreplaces m hm _ hrev _
        have htext := (hwith hreplaces.2.1).2.2
        exact hseen (htext ▸ hreplaces.2.2) m hm hrev
      · intro hcond hchanged m hm hrev
        have hcontains : patch.members.contains "text" = true := by
          by_contra hno
          exact hchanged (hwithout (Bool.eq_false_iff.2 hno)).1
        obtain ⟨hnow, -, htext⟩ := hwith hcontains
        have hmem := List.mem_of_getElem? hm
        rcases Nat.lt_or_ge m.restarts d.restarts with hold | hsame
        · exact hcond ⟨hvalid, hcontains, htext ▸ hchanged⟩ m hm hold hrev hnow.symm
        · have hrun : m.restarts = d.restarts := Nat.le_antisymm (h.past m hmem) hsame
          exact (h.same m hmem hrun (hrev.trans hnow)).symm
  | _ => exact Iff.rfl

/-- No text is overwritten unseen as long as no restarted count comes round. -/
theorem overwrites_seen_iff (L : TextLibrary) (X : ExtractLibrary) (saved : QJsonObject)
    (actions : List Action) :
    Along (step L X) Unseen (Desk.init saved) actions ↔
      Along (step L X) NotRecounted (Desk.init saved) actions :=
  along_congr step_told unseen_iff (Desk.init_told saved) actions

theorem restored_exportState (c : Engine) :
    (restored c.exportState).text = c.text ∧ (restored c.exportState).textRevision = 1 := by
  refine ⟨?_, rfl⟩
  have hdraft : c.exportState.value "draft" = .object c.draft := by
    simp (disch := decide) only [Engine.exportState, value_ofMembers, String.reduceEq, if_true,
      if_false]
  show (c.exportState.value "draft").toObject.value "text" = c.text
  rw [hdraft]
  rfl

def textPatch (s : String) : Patch := ⟨ofMembers [("text", .string (utf16 s))], sorted_ofMembers _⟩

theorem textPatch_value (s : String) :
    (textPatch s).members.value "text" = .string (utf16 s) := by
  rw [textPatch, value_ofMembers (by decide) (by decide), if_pos rfl]

theorem textPatch_contains (s : String) : (textPatch s).members.contains "text" = true := by
  rw [textPatch, contains_ofMembers (by decide) (by decide), if_pos rfl]

theorem textPatch_valid (s : String)
    (h : Engine.fieldValid (utf16 "text") (.string (utf16 s)) = true) :
    ∀ m ∈ (textPatch s).members, Engine.fieldValid m.1 m.2 = true := by
  intro m hm
  rw [List.mem_singleton.1 hm]
  simpa only using h

theorem step_saved_restart (d : Desk) :
    (step L X (step L X d .exportState) .restart).engine = restored d.engine.exportState := rfl

/-- Who read the empty corpus before a restart overwrites the restored one. -/
theorem restart_recounts :
    ¬ Along (step Proxy.asciiLibrary SessionVariables.noExtracts) Unseen (Desk.init [])
      [.appendText (utf16 "a"), .exportState, .restart, .patchDraft 0 (textPatch "b") 1] := by
  rintro ⟨-, -, -, hpatch, -⟩
  have hcond := (unseen_iff _ _ (step_told _ _ (step_told _ _ (step_told _ _
    (Desk.init_told []))))).1 hpatch
  have hengine := @step_saved_restart Proxy.asciiLibrary SessionVariables.noExtracts
    (step Proxy.asciiLibrary SessionVariables.noExtracts (Desk.init []) (.appendText (utf16 "a")))
  obtain ⟨htext, hrev⟩ := restored_exportState
    (step Proxy.asciiLibrary SessionVariables.noExtracts (Desk.init []) (.appendText (utf16 "a"))).engine
  have htoken : (step Proxy.asciiLibrary SessionVariables.noExtracts (Desk.init [])
      (.appendText (utf16 "a"))).engine.text = .string (utf16 "a") := rfl
  rw [NotRecounted, Replaces, hengine, htext, hrev, htoken, textPatch_value] at hcond
  have hother : QJsonValue.string (utf16 "b") ≠ .string (utf16 "a") := fun h =>
    absurd (QJsonValue.string.inj h) (by decide)
  have hempty := hcond ⟨textPatch_valid "b" (by decide), textPatch_contains "b", hother⟩
    ⟨0, 1, .undefined⟩ rfl Nat.zero_lt_one rfl rfl
  exact QJsonValue.noConfusion hempty

end Run

end Nullock.SequencerCapture

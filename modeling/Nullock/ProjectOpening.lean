import Nullock.FindingsKept

namespace Nullock.ProjectStore
open QJsonObject Proxy HttpLogic FrontEnd

/-- The store, and the directory whose metadata it has in memory. -/
structure OwnedStore where
  world : World
  owner : Option QString := none

section Owners
variable {J : JsonLibrary} (D : DateTimes) (U : UrlLibrary)

def entered (w : World) (i : OpenInput) : Option World :=
  if !i.guard || (QString.trimmed i.dir).isEmpty || !i.ok .makeDir then none
  else
    match incomingWorkspaces J w i with
    | .error _ => none
    | .ok incoming =>
      let (saved, w) := saveWorkspaces J D { w with lastError := [] } i.tools
      if saved && i.ok .remakeDir then some (enterDirectory w i incoming) else none

/-- Whose metadata are in memory once they have been read, or made anew. -/
def ownerRead (w : World) (i : OpenInput) (owner : Option QString) : Option QString :=
  match w.disk w.dir .project with
  | none => some w.dir
  | some bytes =>
    if !i.ok .readProject then owner
    else
      match objectOf J bytes with
      | none => owner
      | some o => if (metadataFromJson J D o w.projectMeta).1 then some w.dir else none

def ownerAfter (s : OwnedStore) : Action J → Option QString
  | .openDir i =>
    match entered (J := J) D s.world i with
    | none => s.owner
    | some w => ownerRead (J := J) D w i s.owner
  | _ => s.owner

def ownedStep (s : OwnedStore) (a : Action J) : OwnedStore :=
  ⟨step D U s.world a, ownerAfter D s a⟩

end Owners

section Opening
variable {J : JsonLibrary} {D : DateTimes} {w : World}

theorem ownerRead_stands (h : ensureMetadata J D w i = (true, w')) (owner : Option QString) :
    ownerRead (J := J) D w i owner = some w.dir := by
  rw [ensureMetadata] at h
  rw [ownerRead]
  cases hfile : w.disk w.dir .project with
  | none => rfl
  | some bytes =>
    rw [hfile] at h
    dsimp only at h ⊢
    cases hreads : i.ok .readProject with
    | false =>
      rw [hreads] at h
      cases h
    | true =>
      rw [hreads] at h
      cases hobject : objectOf J bytes with
      | none =>
        rw [hobject] at h
        cases h
      | some o =>
        rw [hobject] at h
        have hwhole : (metadataFromJson J D o w.projectMeta).1 = true := congrArg Prod.fst h
        exact if_pos hwhole

inductive Opening (J : JsonLibrary) (D : DateTimes) (w : World) (i : OpenInput) :
    Option World → Bool × World → Prop where
  | refused (error : QString) : Opening J D w i none (false, { w with lastError := error })
  | unsaved (w' : World)
      (h : saveWorkspaces J D { w with lastError := [] } i.tools = (false, w')) :
      Opening J D w i none (false, w')
  | unmade (w' : World) (h : w'.isOpen = false) : Opening J D w i none (false, w')
  | unread (m m' : World) (hclosed : m.isOpen = false)
      (h : ensureMetadata J D m i = (false, m')) : Opening J D w i (some m) (false, m')
  | stands (m m' : World) (hclosed : m.isOpen = false)
      (h : ensureMetadata J D m i = (true, m')) :
      Opening J D w i (some m) (openArchives J D m' i)

theorem openProject_opening (w : World) (i : OpenInput) :
    Opening J D w i (entered (J := J) D w i) (openProject J D w i) := by
  rw [entered, openProject]
  cases hguard : i.guard with
  | false => exact .refused _
  | true =>
    cases hmake : (QString.trimmed i.dir).isEmpty || !i.ok .makeDir with
    | true =>
      simp only [hmake, Bool.not_true, Bool.false_or, if_true, Bool.false_eq_true, if_false]
      exact .refused _
    | false =>
      simp only [hmake, Bool.not_true, Bool.false_or, Bool.false_eq_true, if_false]
      cases incomingWorkspaces J w i with
      | error e => exact .refused _
      | ok incoming =>
        dsimp only
        cases hsave : saveWorkspaces J D { w with lastError := [] } i.tools with
        | mk saved w' =>
          cases saved with
          | false => exact .unsaved w' hsave
          | true =>
            have hclosed : (enterDirectory w' i incoming).isOpen = false := rfl
            rw [enterProject]
            cases hremake : i.ok .remakeDir with
            | false => exact .unmade _ hclosed
            | true =>
              dsimp only
              cases hmeta : ensureMetadata J D (enterDirectory w' i incoming) i with
              | mk stands m' =>
                cases stands with
                | false => exact .unread _ m' hclosed hmeta
                | true => exact .stands _ m' hclosed hmeta

theorem openArchives_failed (hclosed : w.isOpen = false)
    (h : (openArchives J D w i).1 = false) : (openArchives J D w i).2.isOpen = false := by
  rw [openArchives] at h ⊢
  cases hopen : i.ok .openHistory with
  | true =>
    rw [hopen] at h
    cases h
  | false =>
    have hsaves := saves_ensureEpoch J D w i
    have hloads := (loads_loadHistory J D (ensureEpoch J D w i) i).frame
    show (loadHistory J D (ensureEpoch J D w i) i).isOpen = false
    rw [hloads]
    exact hsaves.isOpen.trans hclosed

theorem dir_openFindings (w : World) (i : OpenInput) : (openFindings J D w i).dir = w.dir := by
  have hstream : (streamExistingFindings J D w (i.ok .readFindings)).dir = w.dir := by
    rw [streamExistingFindings]
    split
    · rfl
    split
    · rfl
    · rfl
  rw [openFindings]
  split
  · exact hstream
  · exact hstream

theorem dir_openArchives (w : World) (i : OpenInput) : (openArchives J D w i).2.dir = w.dir := by
  have hsaves := saves_ensureEpoch J D w i
  have hloads := (loads_loadHistory J D (ensureEpoch J D w i) i).frame
  have hdir : (loadHistory J D (ensureEpoch J D w i) i).dir = w.dir := by
    rw [hloads]
    exact hsaves.dir
  rw [openArchives]
  split
  · exact hdir
  · exact (dir_openFindings _ i).trans hdir

theorem dir_moveAside (h : moveAside w name backup renames = some w') : w'.dir = w.dir := by
  rw [moveAside] at h
  cases hrename : w.disk.rename w.dir name backup with
  | none =>
    rw [hrename] at h
    cases h
  | some disk =>
    rw [hrename] at h
    cases renames with
    | false => cases h
    | true =>
      cases h
      rfl

theorem dir_finishClear (w : World) (i : ClearInput) : (finishClear w i).dir = w.dir := by
  rw [finishClear_frame]

theorem dir_replaceArchives (w before : World) (i : ClearInput) :
    (replaceArchives J D w before i).2.dir = w.dir := by
  rw [replaceArchives]
  dsimp only
  split
  · rfl
  split
  · rfl
  split
  · exact (saves_saveMetadata J D _ i.now _).dir
  split
  · exact (saves_saveMetadata J D _ i.later _).dir.trans (saves_saveMetadata J D _ i.now _).dir
  · rw [dir_finishClear]
    split
    · exact (saves_saveMetadata J D _ i.now _).dir
    · exact (saves_saveMetadata J D _ i.now _).dir

theorem dir_clearHistory (w : World) (i : ClearInput) : (clearHistory J D w i).2.dir = w.dir := by
  rw [clearHistory]
  split
  · rfl
  split
  · rfl
  dsimp only
  split
  · rfl
  · rename_i hmoved
    have hhistory := dir_moveAside hmoved
    split
    · exact hhistory
    · rename_i hmoved'
      have hfindings := dir_moveAside hmoved'
      exact (dir_replaceArchives _ _ i).trans (hfindings.trans hhistory)

def OwnMetadata (s : OwnedStore) : Prop := s.world.isOpen = true → s.owner = some s.world.dir

theorem OwnMetadata.of_same {s t : OwnedStore} (h : OwnMetadata s) (howner : t.owner = s.owner)
    (hdir : t.world.dir = s.world.dir) (hopen : t.world.isOpen = true → s.world.isOpen = true) :
    OwnMetadata t := by
  intro ht
  rw [howner, hdir]
  exact h (hopen ht)

theorem ownMetadata_open {s : OwnedStore} (h : OwnMetadata s) (i : OpenInput) :
    OwnMetadata ⟨(openProject J D s.world i).2, ownerAfter (J := J) D s (.openDir i)⟩ := by
  have hopening := openProject_opening (J := J) (D := D) s.world i
  rw [ownerAfter]
  generalize entered (J := J) D s.world i = reached at hopening ⊢
  generalize openProject J D s.world i = result at hopening ⊢
  cases hopening with
  | refused error => exact h.of_same rfl rfl id
  | unsaved w' hsave =>
    have hsaves := saves_saveWorkspaces J D { s.world with lastError := [] } i.tools
    rw [hsave] at hsaves
    have hopen : w'.isOpen = s.world.isOpen := hsaves.isOpen
    exact h.of_same rfl hsaves.dir (fun ht => hopen ▸ ht)
  | unmade w' hclosed => exact fun ht => absurd (hclosed.symm.trans ht) Bool.false_ne_true
  | unread m m' hclosed hmeta =>
    have hsaves := saves_ensureMetadata J D m i
    rw [hmeta] at hsaves
    intro ht
    exact absurd ((hsaves.isOpen.trans hclosed).symm.trans ht) Bool.false_ne_true
  | stands m m' hclosed hmeta =>
    have hsaves := saves_ensureMetadata J D m i
    rw [hmeta] at hsaves
    intro _
    show ownerRead (J := J) D m i s.owner = some (openArchives J D m' i).2.dir
    rw [ownerRead_stands hmeta, dir_openArchives, hsaves.dir]

theorem ownMetadata_step (U : UrlLibrary) {s : OwnedStore} (a : Action J) (h : OwnMetadata s) :
    OwnMetadata (ownedStep D U s a) := by
  have hhistory {w' : World} (hw : HistoryOnly s.world w') : OwnMetadata ⟨w', s.owner⟩ := by
    refine h.of_same (t := ⟨w', s.owner⟩) rfl ?_ ?_
    · show w'.dir = s.world.dir
      rw [hw.frame]
    · intro ht
      have hopen : w'.isOpen = s.world.isOpen := by
        rw [hw.frame]
        rfl
      exact hopen ▸ ht
  have hsaves {w' : World} (hw : Saves s.world w') : OwnMetadata ⟨w', s.owner⟩ :=
    h.of_same rfl hw.dir (fun ht => hw.isOpen ▸ ht)
  cases a with
  | respond req resp outcome inserts =>
    exact hhistory (historyOnly_respond s.world req resp outcome inserts)
  | importHar env harJson => exact hhistory (historyOnly_importHar env s.world harJson)
  | clear i =>
    refine h.of_same rfl (dir_clearHistory s.world i) ?_
    intro ht
    cases hopen : s.world.isOpen with
    | true => rfl
    | false =>
      have hsame : clearHistory J D s.world i = (false, s.world) := by
        rw [clearHistory, hopen]
        rfl
      have hstep : (clearHistory J D s.world i).2.isOpen = true := ht
      rw [hsame, hopen] at hstep
      exact hstep
  | openDir i => exact ownMetadata_open h i
  | close => exact fun ht => absurd ht Bool.false_ne_true
  | finding f outcome =>
    have hframe : ∃ disk keys, appendFinding J D s.world f.toFinding outcome =
        { s.world with disk := disk, findingKeys := keys } := by
      rw [appendFinding]
      split
      · exact ⟨_, _, rfl⟩
      split
      · exact ⟨_, _, rfl⟩
      · cases outcome with
        | done => exact ⟨_, _, rfl⟩
        | fails kept => exact ⟨_, _, rfl⟩
    obtain ⟨disk, keys, heq⟩ := hframe
    show OwnMetadata ⟨appendFinding J D s.world f.toFinding outcome, s.owner⟩
    rw [heq]
    exact h.of_same rfl rfl id
  | restoreFindings reads =>
    have hframe : ∃ keys, streamExistingFindings J D s.world reads =
        { s.world with findingKeys := keys } := by
      rw [streamExistingFindings]
      split
      · exact ⟨_, rfl⟩
      split
      · exact ⟨_, rfl⟩
      · exact ⟨_, rfl⟩
    obtain ⟨keys, heq⟩ := hframe
    show OwnMetadata ⟨streamExistingFindings J D s.world reads, s.owner⟩
    rw [heq]
    exact h.of_same rfl rfl id
  | setMeta change now commits => exact hsaves (saves_setMetadata J D s.world change now commits)
  | annotate id patch now commits =>
    exact hsaves (saves_annotateHistory J D s.world id patch now commits)
  | saveTools tools => exact hsaves (saves_saveWorkspaces J D s.world tools)

/-- The project that stays open; what was saved of it is all that changed. -/
structure Retained (w w' : World) : Prop where
  saves : Saves w w'
  metadata : ∃ repeater cookies updated, w'.projectMeta = { w.projectMeta with
    repeaterState := repeater
    cookieJar := cookies
    updated := updated }

theorem metadata_saveSession (w : World) (repeater : QJsonObject) (cookies : List QJsonValue)
    (now : QDateTime) (commits : Bool) :
    ∃ r c u, (saveSessionWorkspace J D w repeater cookies now commits).2.projectMeta =
      { w.projectMeta with repeaterState := r, cookieJar := c, updated := u } := by
  rw [saveSessionWorkspace, saveMetadata]
  dsimp only
  cases w.dir.isEmpty with
  | true => exact ⟨_, _, _, rfl⟩
  | false =>
    cases commits with
    | true => exact ⟨_, _, _, rfl⟩
    | false => exact ⟨_, _, _, rfl⟩

theorem metadata_saveWorkspaces (w : World) (tools : ToolStates) :
    ∃ r c u, (saveWorkspaces J D w tools).2.projectMeta =
      { w.projectMeta with repeaterState := r, cookieJar := c, updated := u } := by
  have hintruder : (saveIntruderWorkspace J w tools.intruder tools.intruderCommits).2.projectMeta =
      w.projectMeta := by
    rw [saveIntruderWorkspace]
    split
    · rfl
    split
    · rfl
    · rfl
  have hsequencer (w : World) : (saveSequencerWorkspace J w tools.sequencer
      tools.sequencerCommits).2.projectMeta = w.projectMeta := by
    rw [saveSequencerWorkspace]
    split
    · rfl
    split
    · rfl
    · rfl
  obtain ⟨r, c, u, hsession⟩ := metadata_saveSession (J := J) (D := D)
    (saveSequencerWorkspace J (saveIntruderWorkspace J w tools.intruder tools.intruderCommits).2
      tools.sequencer tools.sequencerCommits).2
    tools.repeater tools.cookies tools.now tools.sessionCommits
  rw [hsequencer, hintruder] at hsession
  rw [saveWorkspaces]
  split
  · exact ⟨_, _, _, rfl⟩
  · exact ⟨r, c, u, hsession⟩

/-- A failed open saves workspaces at most, or leaves no project open. -/
def OpensWhole (J : JsonLibrary) (D : DateTimes) (w : World) : Prop :=
  ∀ i, (openProject J D w i).1 = false →
    (∃ error, (openProject J D w i).2 = { w with lastError := error }) ∨
      ((saveWorkspaces J D { w with lastError := [] } i.tools).1 = false ∧
        Retained w (openProject J D w i).2) ∨
      (openProject J D w i).2.isOpen = false

theorem opensWhole (w : World) : OpensWhole J D w := by
  intro i hfails
  have hopening := openProject_opening (J := J) (D := D) w i
  generalize entered (J := J) D w i = reached at hopening
  generalize openProject J D w i = result at hopening hfails ⊢
  cases hopening with
  | refused error => exact .inl ⟨error, rfl⟩
  | unsaved w' hsave =>
    have hsaves := saves_saveWorkspaces J D { w with lastError := [] } i.tools
    have hmeta := metadata_saveWorkspaces (J := J) (D := D) { w with lastError := [] } i.tools
    rw [hsave] at hsaves hmeta
    refine .inr (.inl ⟨by rw [hsave], ?_, hmeta⟩)
    exact (Saves.memory w w.projectMeta []).trans hsaves
  | unmade w' hclosed => exact .inr (.inr hclosed)
  | unread m m' hclosed hmeta =>
    have hsaves := saves_ensureMetadata J D m i
    rw [hmeta] at hsaves
    exact .inr (.inr (hsaves.isOpen.trans hclosed))
  | stands m m' hclosed hmeta =>
    have hsaves := saves_ensureMetadata J D m i
    rw [hmeta] at hsaves
    exact .inr (.inr (openArchives_failed (hsaves.isOpen.trans hclosed) hfails))

def SavesIntoOwn (J : JsonLibrary) (D : DateTimes) (s : OwnedStore) : Prop :=
  s.world.isOpen = true → ∀ change now commits d n,
    (setMetadata J D s.world change now commits).disk d n ≠ s.world.disk d n → s.owner = some d

theorem OwnMetadata.savesIntoOwn {s : OwnedStore} (h : OwnMetadata s) : SavesIntoOwn J D s := by
  intro hopen change now commits d n hwritten
  have hdir : d = s.world.dir := by
    by_contra hne
    exact hwritten ((saves_setMetadata J D s.world change now commits).elsewhere d n hne)
  rw [hdir]
  exact h hopen

end Opening

/-- An open that fails leaves the old project as it is, or none open. -/
theorem opens_atomically (J : JsonLibrary) (D : DateTimes) (U : UrlLibrary) (s : OwnedStore)
    (hown : OwnMetadata s) (actions : List (Action J)) :
    Throughout (ownedStep D U)
      (fun s => OpensWhole J D s.world ∧ OwnMetadata s ∧ SavesIntoOwn J D s) s actions := by
  have hsteps : Along (ownedStep D U) (fun _ _ => True) s actions := by
    induction actions generalizing s with
    | nil => trivial
    | cons a actions ih => exact ⟨trivial, ih _ (ownMetadata_step U a hown)⟩
  exact throughout_of_along (I := OwnMetadata) (fun s a h _ => ownMetadata_step U a h)
    (fun s h => ⟨opensWhole s.world, h, h.savesIntoOwn⟩) hown hsteps

theorem shop_opens_atomically :
    Throughout (ownedStep epochDates httpUrls)
      (fun s => OpensWhole JsonText.textLibrary epochDates s.world ∧ OwnMetadata s ∧
        SavesIntoOwn JsonText.textLibrary epochDates s)
      ⟨newStore, none⟩ ([.openDir shopOpen] : List (Action JsonText.textLibrary)) :=
  opens_atomically JsonText.textLibrary epochDates httpUrls ⟨newStore, none⟩
    (fun h => absurd h Bool.false_ne_true) [.openDir shopOpen]

def kBrokenDir : QString := utf16 "/projects/broken"

def brokenNextDoor : World :=
  { newStore with disk := newStore.disk.put kBrokenDir .project (some (latin1 "\x7b")) }

def leaveShop (sequencerCommits : Bool) : OpenInput :=
  { shopOpen with
    dir := kBrokenDir
    tools := {
      intruder := latin1 "\x7b\x7d"
      sequencer := latin1 "\x7b\x7d"
      repeater := []
      cookies := []
      sequencerCommits := sequencerCommits } }

def shopOpened : World :=
  step epochDates httpUrls brokenNextDoor (.openDir shopOpen : Action JsonText.textLibrary)

theorem saved_where_it_stands (J : JsonLibrary) (D : DateTimes) (now : QDateTime) {w : World}
    (hdir : w.dir = d) (hne : d ≠ []) :
    ∃ m, m.name = w.projectMeta.name ∧
      (setMetadata J D w id now true).disk d .project = some (metadataBytes J D m) := by
  obtain ⟨m, hm, hsaved⟩ := saveMetadata_commits (J := J) (D := D) (w := w)
    (show true = true from rfl) (hdir ▸ hne) now
  refine ⟨m, hm ▸ rfl, ?_⟩
  have hset : setMetadata J D w id now true = (saveMetadata J D w now true).2 := rfl
  rw [hset, hsaved, ← hdir]
  exact Disk.put_same _ _ _ _

theorem left_dir :
    (openProject JsonText.textLibrary epochDates shopOpened (leaveShop true)).2.dir =
      kBrokenDir := by decide

theorem left_name :
    (openProject JsonText.textLibrary epochDates shopOpened (leaveShop true)).2.projectMeta.name =
      utf16 "shop" := by decide

/-- An open that fails has saved a workspace, or saves metadata in the new directory. -/
theorem failed_open_writes :
    ((openProject JsonText.textLibrary epochDates shopOpened (leaveShop false)).1 = false ∧
      (openProject JsonText.textLibrary epochDates shopOpened (leaveShop false)).2.isOpen = true ∧
      (openProject JsonText.textLibrary epochDates shopOpened (leaveShop false)).2.disk
        shopOpen.dir .intruder ≠ shopOpened.disk shopOpen.dir .intruder) ∧
      (openProject JsonText.textLibrary epochDates shopOpened (leaveShop true)).1 = false ∧
      ∃ m, m.name = utf16 "shop" ∧
        (setMetadata JsonText.textLibrary epochDates
          (openProject JsonText.textLibrary epochDates shopOpened (leaveShop true)).2 id none
          true).disk kBrokenDir .project =
            some (metadataBytes JsonText.textLibrary epochDates m) := by
  refine ⟨⟨by decide, by decide, by decide⟩, by decide, ?_⟩
  obtain ⟨m, hname, hsaved⟩ := saved_where_it_stands JsonText.textLibrary epochDates none
    left_dir (by decide)
  exact ⟨m, hname.trans left_name, hsaved⟩

end Nullock.ProjectStore

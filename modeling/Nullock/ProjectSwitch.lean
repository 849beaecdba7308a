import Nullock.ProjectStore

namespace Nullock.ProjectStore
open QJsonObject Proxy HttpLogic FrontEnd

inductive OpenStep where
  | makeDir
  | readIntruder
  | readSequencer
  | remakeDir
  | readProject
  | saveNew
  | saveEpoch
  | openIndex
  | deleteRows
  | readHistory
  | openHistory
  | readFindings
  | openFindings
deriving DecidableEq

structure OpenInput where
  dir : QString
  guard : Bool := true
  ok : OpenStep → Bool
  tools : ToolStates
  epoch : QString
  now : QDateTime := none
  inserts : Nat → Bool := fun _ => true

def kBusyError : QString :=
  utf16 ("Project is busy. Finish active requests/scans and close proxy connections before " ++
    "switching or clearing history.")

section Opening
variable (J : JsonLibrary) (D : DateTimes)

def incomingWorkspace (content : Option QByteArray) (reads : Bool) (valid : QByteArray → Bool)
    (unreadable invalid : QString) : Except QString QByteArray :=
  match content with
  | none => .ok (latin1 "{}")
  | some bytes =>
    if !reads || bytes.length > kMaxWorkspaceBytes then .error unreadable
    else if !valid bytes then .error invalid
    else .ok bytes

def kSequencerError : QString :=
  utf16 "Invalid or unreadable Sequencer workspace; current project retained"

/-- Both workspaces are checked before the current project is given up. -/
def incomingWorkspaces (w : World) (i : OpenInput) : Except QString (QByteArray × QByteArray) :=
  match incomingWorkspace (w.disk i.dir .intruder) (i.ok .readIntruder) (validWorkspace J)
      (utf16 "Could not read Intruder workspace; current project retained")
      (utf16 "Invalid Intruder workspace; current project retained") with
  | .error e => .error e
  | .ok intruder =>
    match incomingWorkspace (w.disk i.dir .sequencer) (i.ok .readSequencer)
        (validSequencerWorkspace J) kSequencerError kSequencerError with
    | .error e => .error e
    | .ok sequencer => .ok (intruder, sequencer)

def close (w : World) : World :=
  { w with
    indexOpen := false
    historyOpen := false
    findingsOpen := false
    findingKeys := []
    dir := [] }

def fileNameOf (dir : QString) : QString := ((dir.splitOn 0x2F).getLast?).getD []

def newMeta (dir : QString) (now : QDateTime) : ProjectMeta :=
  { name := fileNameOf dir, created := now, updated := now }

def ensureMetadata (w : World) (i : OpenInput) : Bool × World :=
  match w.disk w.dir .project with
  | some bytes =>
    if !i.ok .readProject then (false, w)
    else
      match objectOf J bytes with
      | none => (false, w)
      | some o =>
        let (whole, read) := metadataFromJson J D o w.projectMeta
        (whole, { w with projectMeta := read })
  | none =>
    saveMetadata J D { w with projectMeta := newMeta w.dir i.now } i.now (i.ok .saveNew)

def ensureEpoch (w : World) (i : OpenInput) : World :=
  if w.projectMeta.historyEpoch.isEmpty then
    (saveMetadata J D { w with projectMeta := { w.projectMeta with historyEpoch := i.epoch } } i.now
      (i.ok .saveEpoch)).2
  else w

def rebuildIndex (w : World) (i : OpenInput) : World :=
  let opened := { w with indexOpen := i.ok .openIndex }
  if i.ok .openIndex && i.ok .deleteRows then opened.deleteRows else opened

def loadHistory (w : World) (i : OpenInput) : World :=
  streamExistingHistory J D
    { rebuildIndex w i with nextRowId := 1, archiveAnnotations := [], numbered := [] }
    (i.ok .readHistory) i.inserts

def openFindings (w : World) (i : OpenInput) : World :=
  let w := streamExistingFindings J D w (i.ok .readFindings)
  if i.ok .openFindings then
    { w with disk := w.disk.touch w.dir .findings, findingsOpen := true }
  else w

def openArchives (w : World) (i : OpenInput) : Bool × World :=
  let w := loadHistory J D (ensureEpoch J D w i) i
  if !i.ok .openHistory then (false, w)
  else
    (true,
      openFindings J D { w with disk := w.disk.touch w.dir .history, historyOpen := true } i)

def startingWorkspaces (w : World) (i : OpenInput) (incoming : QByteArray × QByteArray) :
    QByteArray × QByteArray :=
  if w.isOpen && w.dir == i.dir then (w.intruderWorkspace, w.sequencerWorkspace) else incoming

def enterDirectory (w : World) (i : OpenInput) (incoming : QByteArray × QByteArray) : World :=
  let start := startingWorkspaces w i incoming
  { close { w with model := w.model.clear } with
    dir := i.dir
    intruderWorkspace := start.1
    sequencerWorkspace := start.2 }

def enterProject (w : World) (i : OpenInput) (incoming : QByteArray × QByteArray) : Bool × World :=
  let w := enterDirectory w i incoming
  if !i.ok .remakeDir then (false, w)
  else
    let (stands, w) := ensureMetadata J D w i
    if !stands then (false, w) else openArchives J D w i

def openProject (w : World) (i : OpenInput) : Bool × World :=
  if !i.guard then (false, { w with lastError := kBusyError })
  else if (QString.trimmed i.dir).isEmpty || !i.ok .makeDir then
    (false, { w with lastError := utf16 "Could not create project directory: " ++ i.dir })
  else
    match incomingWorkspaces J w i with
    | .error e => (false, { w with lastError := e })
    | .ok incoming =>
      let (saved, w) := saveWorkspaces J D { w with lastError := [] } i.tools
      if !saved then (false, w) else enterProject J D w i incoming

theorem openProject_cases (w : World) (i : OpenInput) :
    (∃ error, openProject J D w i = (false, { w with lastError := error })) ∨
      (∃ w', saveWorkspaces J D { w with lastError := [] } i.tools = (false, w') ∧
        openProject J D w i = (false, w')) ∨
      ∃ w' incoming, saveWorkspaces J D { w with lastError := [] } i.tools = (true, w') ∧
        openProject J D w i = enterProject J D w' i incoming := by
  rw [openProject]
  split
  · exact .inl ⟨_, rfl⟩
  split
  · exact .inl ⟨_, rfl⟩
  cases incomingWorkspaces J w i with
  | error e => exact .inl ⟨_, rfl⟩
  | ok incoming =>
    dsimp only
    cases hsave : saveWorkspaces J D { w with lastError := [] } i.tools with
    | mk saved w' =>
      cases saved with
      | false => exact .inr (.inl ⟨w', rfl, rfl⟩)
      | true => exact .inr (.inr ⟨w', incoming, rfl, rfl⟩)

theorem enterProject_cases (w : World) (i : OpenInput) (incoming : QByteArray × QByteArray) :
    (i.ok .remakeDir = false ∧
        enterProject J D w i incoming = (false, enterDirectory w i incoming)) ∨
      (∃ m, ensureMetadata J D (enterDirectory w i incoming) i = (false, m) ∧
        enterProject J D w i incoming = (false, m)) ∨
      ∃ m, ensureMetadata J D (enterDirectory w i incoming) i = (true, m) ∧
        enterProject J D w i incoming = openArchives J D m i := by
  rw [enterProject]
  cases hmake : i.ok .remakeDir with
  | false => exact .inl ⟨rfl, rfl⟩
  | true =>
    dsimp only
    cases hmeta : ensureMetadata J D (enterDirectory w i incoming) i with
    | mk stands m =>
      cases stands with
      | false => exact .inr (.inl ⟨m, rfl, rfl⟩)
      | true => exact .inr (.inr ⟨m, rfl, rfl⟩)

theorem saves_ensureMetadata (w : World) (i : OpenInput) :
    Saves w (ensureMetadata J D w i).2 := by
  rw [ensureMetadata]
  split
  · split
    · exact .refl w
    split
    · exact .refl w
    · exact .memory w _ w.lastError
  · exact (Saves.memory w _ w.lastError).trans (saves_saveMetadata J D _ _ _)

theorem saves_ensureEpoch (w : World) (i : OpenInput) : Saves w (ensureEpoch J D w i) := by
  rw [ensureEpoch]
  split
  · exact (Saves.memory w _ w.lastError).trans (saves_saveMetadata J D _ _ _)
  · exact .refl w

structure Loads (w w' : World) : Prop where
  frame : w' = { w with
    tables := w'.tables
    indexOpen := w'.indexOpen
    nextRowId := w'.nextRowId
    archiveAnnotations := w'.archiveAnnotations
    numbered := w'.numbered
    model := w'.model }

theorem loads_foldl (inserts : Nat → Bool) (records : List QJsonObject) (w : World) :
    Loads w (records.foldl (loadRecord J D inserts) w) := by
  induction records generalizing w with
  | nil => exact ⟨rfl⟩
  | cons o records ih =>
    obtain ⟨archived, tables, heq⟩ := loadRecord_eq J D inserts w o
    have hframe := (ih (loadRecord J D inserts w o)).frame
    rw [List.foldl_cons]
    refine ⟨hframe.trans ?_⟩
    rw [heq]

theorem loads_loadHistory (w : World) (i : OpenInput) : Loads w (loadHistory J D w i) := by
  have hrebuilt : Loads w
      { rebuildIndex w i with nextRowId := 1, archiveAnnotations := [], numbered := [] } := by
    rw [rebuildIndex]
    dsimp only
    split
    · exact ⟨rfl⟩
    · exact ⟨rfl⟩
  rw [loadHistory, streamExistingHistory]
  split
  · exact hrebuilt
  split
  · rename_i records _ _
    have hframe := (loads_foldl J D i.inserts (recordsOf J (streamLines records))
      { rebuildIndex w i with nextRowId := 1, archiveAnnotations := [], numbered := [] }).frame
    refine ⟨hframe.trans ?_⟩
    rw [hrebuilt.frame]
  · exact hrebuilt

end Opening

/-- What can fail while the history is cleared, and while that is rolled back. -/
inductive ClearStep where
  | moveHistory
  | moveFindings
  | openHistory
  | openFindings
  | saveMetadata
  | clearIndex
  | removeHistory
  | restoreHistory
  | removeFindings
  | restoreFindings
  | reopenHistory
  | reopenFindings
  | resaveMetadata
  | removeHistoryBackup
  | removeFindingsBackup
deriving DecidableEq

/-- What the history is cleared with; the suffix and the epoch are fresh. -/
structure ClearInput where
  guard : Bool := true
  ok : ClearStep → Bool
  suffix : QString
  epoch : QString
  now : QDateTime := none
  later : QDateTime := none

section Clearing
variable (J : JsonLibrary) (D : DateTimes)

/-- A backup takes its file's place again; whether it does, and what is on the disk then. -/
def restoreBackup (disk : Disk) (dir : QString) (name backup : FileName) (removes renames : Bool) :
    Bool × Disk :=
  let (removed, disk) :=
    match disk dir name with
    | none => (true, disk)
    | some _ => if removes then (true, disk.put dir name none) else (false, disk)
  match disk.rename dir backup name with
  | some restored => if renames then (removed, restored) else (false, disk)
  | none => (false, disk)

def openAppend (disk : Disk) (dir : QString) (name : FileName) (opens : Bool) : Bool × Disk :=
  if opens then (true, disk.touch dir name) else (false, disk)

/-- The archives come back, and the metadata are those of `before`. -/
def restoreArchives (w before : World) (historyMoved findingsMoved : Bool) (i : ClearInput) : World :=
  let (restored₁, disk) :=
    if historyMoved then
      restoreBackup w.disk w.dir .history (.historyBackup i.suffix) (i.ok .removeHistory)
        (i.ok .restoreHistory)
    else (true, w.disk)
  let (restored₂, disk) :=
    if findingsMoved then
      restoreBackup disk w.dir .findings (.findingsBackup i.suffix) (i.ok .removeFindings)
        (i.ok .restoreFindings)
    else (true, disk)
  let (historyOpens, disk) := openAppend disk w.dir .history (i.ok .reopenHistory)
  let (findingsOpens, disk) := openAppend disk w.dir .findings (i.ok .reopenFindings)
  { w with
    disk := disk
    historyOpen := historyOpens
    findingsOpen := findingsOpens
    projectMeta := { w.projectMeta with
      historyEpoch := before.projectMeta.historyEpoch
      historyAnnotations := before.projectMeta.historyAnnotations }
    lastError :=
      if restored₁ && restored₂ && historyOpens && findingsOpens then
        utf16 "Could not clear project history; original archives retained"
      else
        utf16 ("Could not restore history; recover the .clear-backup files in the project " ++
          "directory") }

def moveAside (w : World) (name backup : FileName) (renames : Bool) : Option World :=
  match w.disk.rename w.dir name backup with
  | some disk => if renames then some { w with disk := disk } else none
  | none => none

def finishClear (w : World) (i : ClearInput) : World :=
  let w := if i.ok .removeHistoryBackup then w.setFile (.historyBackup i.suffix) none else w
  let w := if i.ok .removeFindingsBackup then w.setFile (.findingsBackup i.suffix) none else w
  { w with
    nextRowId := 1
    archiveAnnotations := []
    findingKeys := []
    numbered := []
    model := w.model.clear }

/-- The new archives are opened, the metadata saved and the index emptied. -/
def replaceArchives (w before : World) (i : ClearInput) : Bool × World :=
  let (historyOpens, disk) := openAppend w.disk w.dir .history (i.ok .openHistory)
  let w := { w with disk := disk, historyOpen := historyOpens }
  if !historyOpens then (false, restoreArchives w before true true i)
  else
    let (findingsOpens, disk) := openAppend w.disk w.dir .findings (i.ok .openFindings)
    let w := { w with disk := disk, findingsOpen := findingsOpens }
    if !findingsOpens then (false, restoreArchives w before true true i)
    else
      let cleared := { w.projectMeta with historyEpoch := i.epoch, historyAnnotations := [] }
      let (saved, w) := saveMetadata J D { w with projectMeta := cleared } i.now
        (i.ok .saveMetadata)
      if !saved then (false, restoreArchives w before true true i)
      else if w.indexOpen && !i.ok .clearIndex then
        (false, (saveMetadata J D (restoreArchives w before true true i) i.later
          (i.ok .resaveMetadata)).2)
      else
        (true, finishClear (if w.indexOpen then w.deleteRows else w) i)

def clearHistory (w : World) (i : ClearInput) : Bool × World :=
  if !w.isOpen then (false, w)
  else if !i.guard then (false, { w with lastError := kBusyError })
  else
    let before := { w with lastError := [] }
    let closed := { before with historyOpen := false, findingsOpen := false }
    match moveAside closed .history (.historyBackup i.suffix) (i.ok .moveHistory) with
    | none => (false, restoreArchives closed before false false i)
    | some w₁ =>
      match moveAside w₁ .findings (.findingsBackup i.suffix) (i.ok .moveFindings) with
      | none => (false, restoreArchives w₁ before true false i)
      | some w₂ => replaceArchives J D w₂ before i

end Clearing

end Nullock.ProjectStore

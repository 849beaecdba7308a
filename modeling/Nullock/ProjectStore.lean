import Nullock.FindingSerial
import Nullock.ProjectMetadata

namespace Nullock.FrontEnd
open Proxy

structure ProxyModel where
  entries : List (Nat × HistoryRequest × HistoryResponse) := []
  nextId : Nat := 1
  firstId : Nat := 1
  maxRows : Nat := 10000

namespace ProxyModel

def clear (m : ProxyModel) : ProxyModel := { m with entries := [], nextId := 1, firstId := 1 }

def addResponse (m : ProxyModel) (request : HistoryRequest) (response : HistoryResponse) :
    ProxyModel :=
  let entries := m.entries ++ [(m.nextId, request, response)]
  let evicted := entries.length - m.maxRows
  { m with
    entries := entries.drop evicted
    nextId := m.nextId + 1
    firstId := m.firstId + evicted }

def rowById (m : ProxyModel) (id : Nat) : Option (HistoryRequest × HistoryResponse) :=
  if id < m.firstId then none else (m.entries[id - m.firstId]?).map (·.2)

end ProxyModel

end Nullock.FrontEnd

namespace Nullock.ProjectStore
open QJsonObject Proxy HttpLogic FrontEnd
open SessionManager (toArray)

/-- The files of a project directory; a backup has a suffix of its own. -/
inductive FileName where
  | project
  | history
  | findings
  | intruder
  | sequencer
  | historyBackup (suffix : QString)
  | findingsBackup (suffix : QString)
deriving DecidableEq

abbrev Disk := QString → FileName → Option QByteArray

namespace Disk

def put (disk : Disk) (dir : QString) (name : FileName) (content : Option QByteArray) : Disk :=
  fun d n => if d = dir ∧ n = name then content else disk d n

/-- `QFile::rename`: the file has to exist, and the new name may not. -/
def rename (disk : Disk) (dir : QString) (source target : FileName) : Option Disk :=
  match disk dir source, disk dir target with
  | some content, none => some ((disk.put dir target (some content)).put dir source none)
  | _, _ => none

def touch (disk : Disk) (dir : QString) (name : FileName) : Disk :=
  disk.put dir name (some ((disk dir name).getD []))

@[simp] theorem put_same (disk : Disk) (dir : QString) (name : FileName)
    (content : Option QByteArray) : disk.put dir name content dir name = content :=
  if_pos ⟨rfl, rfl⟩

theorem put_other (disk : Disk) (dir : QString) (content : Option QByteArray) (h : n ≠ name) :
    disk.put dir name content d n = disk d n := if_neg (fun he => h he.2)

theorem put_elsewhere (disk : Disk) (name : FileName) (content : Option QByteArray)
    (h : d ≠ dir) : disk.put dir name content d n = disk d n := if_neg (fun he => h he.1)

theorem rename_some (hs : disk dir source = some content) (ht : disk dir target = none) :
    rename disk dir source target =
      some ((disk.put dir target (some content)).put dir source none) := by
  rw [rename, hs, ht]

end Disk

inductive WriteOutcome where
  | done
  | fails (kept : Nat)
deriving DecidableEq

structure World where
  disk : Disk
  /-- The rows of the index of each directory. -/
  tables : QString → Nat → Option HistoryIndex.Row
  /-- The index of the directory is open. -/
  indexOpen : Bool := false
  /-- The directory; empty where no project is. -/
  dir : QString := []
  projectMeta : ProjectMeta := {}
  historyOpen : Bool := false
  findingsOpen : Bool := false
  nextRowId : Nat := 1
  archiveAnnotations : QJsonObject := []
  findingKeys : List QString := []
  intruderWorkspace : QByteArray := []
  sequencerWorkspace : QByteArray := []
  lastError : QString := []
  model : ProxyModel := {}
  /-- The rows that the store has numbered since the history was opened or cleared. -/
  numbered : List (Nat × HistoryRequest × HistoryResponse) := []

namespace World

def isOpen (w : World) : Bool := w.historyOpen

def content (w : World) (name : FileName) : QByteArray := (w.disk w.dir name).getD []

def setFile (w : World) (name : FileName) (content : Option QByteArray) : World :=
  { w with disk := w.disk.put w.dir name content }

def writeLine (w : World) (name : FileName) (line : QByteArray) (outcome : WriteOutcome) : World :=
  match outcome with
  | .done => w.setFile name (some (w.content name ++ line))
  | .fails kept => w.setFile name (some (w.content name ++ line.take kept))

theorem content_setFile (w : World) (name : FileName) (bytes : QByteArray) :
    (w.setFile name (some bytes)).content name = bytes := by
  have hput : (w.disk.put w.dir name (some bytes)) w.dir name = some bytes := Disk.put_same _ _ _ _
  exact congrArg (Option.getD · []) hput

theorem content_setFile_other (w : World) (content : Option QByteArray) (h : other ≠ name) :
    (w.setFile name content).content other = w.content other :=
  congrArg (Option.getD · []) (Disk.put_other _ _ _ h)

section Index
variable (J : JsonLibrary) (D : DateTimes)

/-- `HistoryIndex::append`; a row that cannot be inserted is left out. -/
def indexAppend (w : World) (id : Nat) (request : HistoryRequest) (response : HistoryResponse)
    (inserts : Bool) : World :=
  { w with
    tables := fun d i =>
      if (w.indexOpen && inserts) = true ∧ d = w.dir ∧ i = id then
        some (HistoryIndex.rowOf J D request response)
      else w.tables d i }

/-- `HistoryIndex::loadFullRow` on the index of the open project. -/
def indexRow (w : World) (id : Nat) : Option (HistoryRequest × HistoryResponse) :=
  if w.indexOpen then (w.tables w.dir id).bind (HistoryIndex.loadFullRow J) else none

def deleteRows (w : World) : World :=
  { w with tables := fun d i => if d = w.dir then none else w.tables d i }

end Index

def historyAnnotations (w : World) : QJsonObject :=
  if w.isOpen then
    w.projectMeta.historyAnnotations.foldl
      (fun notes m =>
        match m.2 with
        | .null => notes.filter (·.1 != m.1)
        | v => insert m.1 v notes)
      w.archiveAnnotations
  else []

end World

section Metadata
variable (J : JsonLibrary) (D : DateTimes)

def saveMetadata (w : World) (now : QDateTime) (commits : Bool) : Bool × World :=
  if w.dir.isEmpty then (false, w)
  else
    let w := { w with projectMeta := { w.projectMeta with updated := now } }
    if commits then (true, w.setFile .project (some (metadataBytes J D w.projectMeta)))
    else (false, w)

def setMetadata (w : World) (change : ProjectMeta → ProjectMeta) (now : QDateTime)
    (commits : Bool) : World :=
  (saveMetadata J D { w with projectMeta := change w.projectMeta } now commits).2

/-- Annotations with the note of a row; an empty one removes the archived one. -/
def patchedAnnotations (w : World) (key : QString) (note : QJsonObject) : QJsonObject :=
  if (note.value "color").toQString.isEmpty && (note.value "comment").toQString.isEmpty then
    if (w.archiveAnnotations.lookup key).isSome then
      insert key .null w.projectMeta.historyAnnotations
    else w.projectMeta.historyAnnotations.filter (·.1 != key)
  else insert key (.object note) w.projectMeta.historyAnnotations

/-- A row is annotated; nothing changes if the annotations do not fit or cannot be saved. -/
def annotateHistory (w : World) (id : Int) (patch : QJsonObject) (now : QDateTime)
    (commits : Bool) : Bool × World :=
  if !(annotationError patch).isEmpty then (false, { w with lastError := annotationError patch })
  else if !w.isOpen || id ≤ 0 || id ≥ w.nextRowId then
    (false, { w with lastError := utf16 "History row not found in this project" })
  else if patch.isEmpty then (false, { w with lastError := utf16 "Supply a color or comment" })
  else
    let key := QString.number id
    let note := patch.foldl (fun note m => insert m.1 m.2 note)
      (w.historyAnnotations.valueOf key).toObject
    let previous := w.projectMeta.historyAnnotations
    let changed := patchedAnnotations w key note
    let patched := { w with
      projectMeta := { w.projectMeta with historyAnnotations := changed }, lastError := [] }
    if !NotesFit J changed || !NotesFit J patched.historyAnnotations then
      (false, { w with lastError := utf16 "Project annotations exceed the 1 MiB limit" })
    else
      let (saved, w') := saveMetadata J D patched now commits
      if saved then (true, w')
      else
        (false, { w' with
          projectMeta := { w'.projectMeta with historyAnnotations := previous }
          lastError := utf16 "Could not save annotation; the previous note is unchanged" })

end Metadata

section Workspaces
variable (J : JsonLibrary) (D : DateTimes)

def kMaxWorkspaceBytes : Nat := 64 * 1024 * 1024

/-- `QJsonDocument::fromJson` of a document that is an object. -/
def objectOf (bytes : QByteArray) : Option QJsonObject :=
  match J.fromJson bytes with
  | some (.object o) => some o
  | _ => none

def isArray : QJsonValue → Bool
  | .array _ => true
  | _ => false

def validWorkspace (bytes : QByteArray) : Bool :=
  bytes.length ≤ kMaxWorkspaceBytes &&
    match objectOf J bytes with
    | none => false
    | some object =>
      object.isEmpty || ((value object "config").isObject && isArray (value object "rows"))

def kDraftNumbers : List QString := ["capPort", "capCount", "capThrottleMs", "sigLevel"].map utf16

def kDraftTexts : List QString :=
  ["text", "capHost", "capRequest", "capExtractFrom", "capExtractKey", "capDelimStart",
    "capDelimEnd"].map utf16

def draftMemberValid (m : QString × QJsonValue) : Bool :=
  if m.1 = utf16 "capTls" then m.2.isBool
  else if m.1 ∈ kDraftNumbers then m.2.isDouble
  else if m.1 ∈ kDraftTexts then m.2.isString && m.2.toQString.length ≤ 16 * 1024 * 1024
  else false

def validSequencerWorkspace (bytes : QByteArray) : Bool :=
  bytes.length ≤ kMaxWorkspaceBytes &&
    match objectOf J bytes with
    | none => false
    | some o =>
      o.isEmpty ||
        ((value o "version").toInt 0 == 1 && (value o "draft").isObject &&
          (value o "capture").isObject && isArray (value o "tokens") &&
          (toArray (value o "tokens")).length ≤ 10000 &&
          (toArray (value o "tokens")).all QJsonValue.isString &&
          (value o "draft").toObject.all draftMemberValid)

def saveIntruderWorkspace (w : World) (state : QByteArray) (commits : Bool) : Bool × World :=
  if !w.isOpen || !validWorkspace J state then
    (false, { w with
      lastError := utf16
        "Could not save Intruder workspace: no open project or invalid/oversized state" })
  else if !commits then
    (false, { w with
      lastError := utf16 ("Could not save Intruder workspace; keep this project open and retry " ++
        "or export the attack") })
  else
    (true, { w.setFile .intruder (some state) with intruderWorkspace := state, lastError := [] })

def saveSequencerWorkspace (w : World) (state : QByteArray) (commits : Bool) : Bool × World :=
  if !w.isOpen || !validSequencerWorkspace J state then
    (false, { w with
      lastError := utf16 "Could not save Sequencer workspace: invalid or oversized state" })
  else if !commits then
    (false, { w with
      lastError := utf16 "Could not save Sequencer workspace; keep this project open and retry" })
  else
    (true, { w.setFile .sequencer (some state) with sequencerWorkspace := state, lastError := [] })

def saveSessionWorkspace (w : World) (repeater : QJsonObject) (cookies : List QJsonValue)
    (now : QDateTime) (commits : Bool) : Bool × World :=
  let changed := { w.projectMeta with repeaterState := repeater, cookieJar := cookies }
  let (saved, w') := saveMetadata J D { w with projectMeta := changed } now commits
  if saved then (true, { w' with lastError := [] })
  else
    (false, { w' with
      projectMeta := { w'.projectMeta with
        repeaterState := w.projectMeta.repeaterState, cookieJar := w.projectMeta.cookieJar }
      lastError := utf16
        "Could not save Repeater tabs and cookies; keep this project open and retry" })

/-- What the tools hold when their workspaces are saved, and which files can be written. -/
structure ToolStates where
  intruder : QByteArray
  sequencer : QByteArray
  repeater : QJsonObject
  cookies : List QJsonValue
  intruderCommits : Bool := true
  sequencerCommits : Bool := true
  sessionCommits : Bool := true
  now : QDateTime := none

def saveWorkspaces (w : World) (tools : ToolStates) : Bool × World :=
  if !w.isOpen then (true, w)
  else
    let (ok₁, w₁) := saveIntruderWorkspace J w tools.intruder tools.intruderCommits
    let (ok₂, w₂) := saveSequencerWorkspace J w₁ tools.sequencer tools.sequencerCommits
    let (ok₃, w₃) := saveSessionWorkspace J D w₂ tools.repeater tools.cookies tools.now
      tools.sessionCommits
    let errors := (if ok₁ then [] else [w₁.lastError]) ++ (if ok₂ then [] else [w₂.lastError]) ++
      (if ok₃ then [] else [w₃.lastError])
    (ok₁ && ok₂ && ok₃, { w₃ with lastError := (utf16 "; ").intercalate errors })

structure Saves (w w' : World) : Prop where
  frame : w' = { w with
    disk := w'.disk
    projectMeta := w'.projectMeta
    intruderWorkspace := w'.intruderWorkspace
    sequencerWorkspace := w'.sequencerWorkspace
    lastError := w'.lastError }
  archives : ∀ d n, n ≠ .project → n ≠ .intruder → n ≠ .sequencer → w'.disk d n = w.disk d n
  elsewhere : ∀ d n, d ≠ w.dir → w'.disk d n = w.disk d n

theorem Saves.refl (w : World) : Saves w w := ⟨rfl, fun _ _ _ _ _ => rfl, fun _ _ _ => rfl⟩

theorem Saves.dir {w' : World} (h : Saves w w') : w'.dir = w.dir := by rw [h.frame]

theorem Saves.isOpen {w' : World} (h : Saves w w') : w'.isOpen = w.isOpen := by
  rw [h.frame]
  rfl

theorem Saves.trans {w' w'' : World} (h : Saves w w') (h' : Saves w' w'') : Saves w w'' where
  frame := by rw [h'.frame, h.frame]
  archives d n hp hi hs := (h'.archives d n hp hi hs).trans (h.archives d n hp hi hs)
  elsewhere d n hd := (h'.elsewhere d n (h.dir ▸ hd)).trans (h.elsewhere d n hd)

theorem Saves.content {w' : World} (h : Saves w w') (hp : n ≠ .project) (hi : n ≠ .intruder)
    (hs : n ≠ .sequencer) : w'.content n = w.content n := by
  rw [World.content, World.content, h.dir, h.archives _ n hp hi hs]

theorem Saves.memory (w : World) (changed : ProjectMeta) (error : QString) :
    Saves w { w with projectMeta := changed, lastError := error } :=
  ⟨rfl, fun _ _ _ _ _ => rfl, fun _ _ _ => rfl⟩

theorem Saves.setFile (w : World) (content : Option QByteArray)
    (h : name = .project ∨ name = .intruder ∨ name = .sequencer) :
    Saves w (w.setFile name content) where
  frame := rfl
  archives d n hp hi hs := by
    refine Disk.put_other _ _ _ ?_
    rintro rfl
    rcases h with h | h | h
    · exact hp h
    · exact hi h
    · exact hs h
  elsewhere d n hd := Disk.put_elsewhere _ _ _ hd

theorem saveMetadata_fails (h : commits = false ∨ w.dir = []) (now : QDateTime) :
    ∃ updated, saveMetadata J D w now commits =
      (false, { w with projectMeta := { w.projectMeta with updated := updated } }) := by
  rw [saveMetadata]
  cases hempty : w.dir.isEmpty with
  | true => exact ⟨w.projectMeta.updated, rfl⟩
  | false =>
    rcases h with rfl | hnone
    · exact ⟨now, rfl⟩
    · rw [hnone] at hempty
      exact absurd hempty.symm Bool.false_ne_true

theorem saveMetadata_commits (hcommits : commits = true) (h : w.dir ≠ []) (now : QDateTime) :
    ∃ m, m = { w.projectMeta with updated := now } ∧
      saveMetadata J D w now commits =
        (true, { w with
          projectMeta := m
          disk := w.disk.put w.dir .project (some (metadataBytes J D m)) }) := by
  have hdir : w.dir.isEmpty = false := List.isEmpty_eq_false_iff.2 h
  refine ⟨_, rfl, ?_⟩
  rw [saveMetadata, hdir, hcommits]
  rfl

theorem saves_saveMetadata (w : World) (now : QDateTime) (commits : Bool) :
    Saves w (saveMetadata J D w now commits).2 := by
  rw [saveMetadata]
  split
  · exact .refl w
  · dsimp only
    split
    · exact (Saves.memory w { w.projectMeta with updated := now } w.lastError).trans
        (.setFile _ _ (.inl rfl))
    · exact .memory w { w.projectMeta with updated := now } w.lastError

theorem saves_setMetadata (w : World) (change : ProjectMeta → ProjectMeta) (now : QDateTime)
    (commits : Bool) : Saves w (setMetadata J D w change now commits) :=
  (Saves.memory w (change w.projectMeta) w.lastError).trans (saves_saveMetadata J D _ now commits)

theorem saves_annotateHistory (w : World) (id : Int) (patch : QJsonObject) (now : QDateTime)
    (commits : Bool) : Saves w (annotateHistory J D w id patch now commits).2 := by
  rw [annotateHistory]
  split
  · exact .memory w w.projectMeta _
  split
  · exact .memory w w.projectMeta _
  split
  · exact .memory w w.projectMeta _
  dsimp only
  split
  · exact .memory w w.projectMeta _
  split
  · exact (Saves.memory w _ []).trans (saves_saveMetadata J D _ now commits)
  · exact ((Saves.memory w _ []).trans (saves_saveMetadata J D _ now commits)).trans (.memory _ _ _)

theorem saves_intruder (w : World) (state : QByteArray) (commits : Bool) :
    Saves w (saveIntruderWorkspace J w state commits).2 := by
  rw [saveIntruderWorkspace]
  split
  · exact .memory w w.projectMeta _
  split
  · exact .memory w w.projectMeta _
  · have h : Saves w (w.setFile .intruder (some state)) := .setFile w _ (.inr (.inl rfl))
    exact ⟨rfl, h.archives, h.elsewhere⟩

theorem saves_sequencer (w : World) (state : QByteArray) (commits : Bool) :
    Saves w (saveSequencerWorkspace J w state commits).2 := by
  rw [saveSequencerWorkspace]
  split
  · exact .memory w w.projectMeta _
  split
  · exact .memory w w.projectMeta _
  · have h : Saves w (w.setFile .sequencer (some state)) := .setFile w _ (.inr (.inr rfl))
    exact ⟨rfl, h.archives, h.elsewhere⟩

theorem saves_session (w : World) (repeater : QJsonObject) (cookies : List QJsonValue)
    (now : QDateTime) (commits : Bool) :
    Saves w (saveSessionWorkspace J D w repeater cookies now commits).2 := by
  have h := (Saves.memory w { w.projectMeta with repeaterState := repeater, cookieJar := cookies }
    w.lastError).trans (saves_saveMetadata J D _ now commits)
  rw [saveSessionWorkspace]
  split
  · rename_i saved w' he
    rw [he] at h
    split
    · exact h.trans (.memory w' w'.projectMeta _)
    · exact h.trans (.memory w' _ _)

theorem saves_saveWorkspaces (w : World) (tools : ToolStates) :
    Saves w (saveWorkspaces J D w tools).2 := by
  have h₁ := saves_intruder J w tools.intruder tools.intruderCommits
  have h₂ := saves_sequencer J (saveIntruderWorkspace J w tools.intruder tools.intruderCommits).2
    tools.sequencer tools.sequencerCommits
  have h₃ := saves_session J D (saveSequencerWorkspace J
    (saveIntruderWorkspace J w tools.intruder tools.intruderCommits).2 tools.sequencer
    tools.sequencerCommits).2 tools.repeater tools.cookies tools.now tools.sessionCommits
  rw [saveWorkspaces]
  split
  · exact .refl w
  · exact ((h₁.trans h₂).trans h₃).trans (.memory _ _ _)

end Workspaces

section Histories
variable (J : JsonLibrary) (D : DateTimes)

def kAppendError : QString := utf16 "Could not append project history"

def appendAnnotatedEntry (w : World) (request : HistoryRequest) (response : HistoryResponse)
    ( annotation : QJsonObject) (outcome : WriteOutcome) (inserts : Bool) : Bool × World :=
  let line := entryLine J D request response annotation ++ [0x0A]
  if !w.isOpen then (false, w)
  else
    match outcome with
    | .fails kept =>
      (false, { w.writeLine .history line (.fails kept) with lastError := kAppendError })
    | .done =>
      let rowId := w.nextRowId
      let w' := ({ w.writeLine .history line .done with
        nextRowId := rowId + 1
        numbered := w.numbered ++ [(rowId, request, response)] } : World).indexAppend J D rowId
          request response inserts
      (true,
        if annotation.isEmpty then w'
        else { w' with
          archiveAnnotations :=
            insert (QString.number (rowId : Nat)) (.object annotation) w'.archiveAnnotations })

structure Appended (w w' : World) (t : Transaction) (inserts : Bool) : Prop where
  history : w'.content .history =
    w.content .history ++ (entryLine J D t.req t.resp t.note ++ [0x0A])
  others : ∀ name ≠ FileName.history, w'.content name = w.content name
  annotations : w'.archiveAnnotations =
    if t.note.isEmpty then w.archiveAnnotations
    else insert (QString.number (w.nextRowId : Nat)) (.object t.note) w.archiveAnnotations
  frame : w' = { w.indexAppend J D w.nextRowId t.req t.resp inserts with
    disk := w'.disk
    nextRowId := w.nextRowId + 1
    archiveAnnotations := w'.archiveAnnotations
    numbered := w.numbered ++ [(w.nextRowId, t.req, t.resp)] }

section
variable {J D} {w' : World}

theorem Appended.nextRowId (h : Appended J D w w' t inserts) :
    w'.nextRowId = w.nextRowId + 1 := by
  rw [h.frame]

theorem Appended.numbered (h : Appended J D w w' t inserts) :
    w'.numbered = w.numbered ++ [(w.nextRowId, t.req, t.resp)] := by
  rw [h.frame]

theorem Appended.model (h : Appended J D w w' t inserts) : w'.model = w.model := by
  rw [h.frame]
  rfl

theorem Appended.isOpen (h : Appended J D w w' t inserts) : w'.isOpen = w.isOpen := by
  rw [h.frame]
  rfl

end

theorem appendAnnotatedEntry_done (h : w.isOpen = true) (t : Transaction) (inserts : Bool) :
    (appendAnnotatedEntry J D w t.req t.resp t.note .done inserts).1 = true ∧
      Appended J D w (appendAnnotatedEntry J D w t.req t.resp t.note .done inserts).2 t
        inserts := by
  rw [appendAnnotatedEntry, h]
  refine ⟨rfl, ?_⟩
  cases hnote : t.note.isEmpty with
  | true =>
    constructor
    · exact World.content_setFile w .history _
    · exact fun name hne => World.content_setFile_other w _ hne
    · rw [hnote]
      rfl
    · rfl
  | false =>
    constructor
    · exact World.content_setFile w .history _
    · exact fun name hne => World.content_setFile_other w _ hne
    · rw [hnote]
      rfl
    · rfl

structure HistoryOnly (w w' : World) : Prop where
  frame : w' = { w with
    disk := w'.disk
    tables := w'.tables
    nextRowId := w'.nextRowId
    archiveAnnotations := w'.archiveAnnotations
    numbered := w'.numbered
    lastError := w'.lastError
    model := w'.model }
  others : ∀ d n, n ≠ .history → w'.disk d n = w.disk d n

theorem HistoryOnly.refl (w : World) : HistoryOnly w w := ⟨rfl, fun _ _ _ => rfl⟩

theorem HistoryOnly.trans {w' w'' : World} (h : HistoryOnly w w') (h' : HistoryOnly w' w'') :
    HistoryOnly w w'' where
  frame := by rw [h'.frame, h.frame]
  others d n hn := (h'.others d n hn).trans (h.others d n hn)

theorem HistoryOnly.content {w' : World} (h : HistoryOnly w w') (hn : n ≠ .history) :
    w'.content n = w.content n := by
  have hdir : w'.dir = w.dir := by rw [h.frame]
  rw [World.content, World.content, hdir, h.others _ n hn]

theorem historyOnly_append (w : World) (req : HistoryRequest) (resp : HistoryResponse)
    (note : QJsonObject) (outcome : WriteOutcome) (inserts : Bool) :
    HistoryOnly w (appendAnnotatedEntry J D w req resp note outcome inserts).2 := by
  rw [appendAnnotatedEntry.eq_def]
  dsimp only
  split
  · exact .refl w
  cases outcome with
  | fails kept => exact ⟨rfl, fun _ _ hn => Disk.put_other _ _ _ hn⟩
  | done =>
    dsimp only
    split
    · exact ⟨rfl, fun _ _ hn => Disk.put_other _ _ _ hn⟩
    · exact ⟨rfl, fun _ _ hn => Disk.put_other _ _ _ hn⟩

theorem appendAnnotatedEntry_closed (h : w.isOpen = false) (t : Transaction)
    (outcome : WriteOutcome) (inserts : Bool) :
    appendAnnotatedEntry J D w t.req t.resp t.note outcome inserts = (false, w) := by
  rw [appendAnnotatedEntry.eq_def, h]
  rfl

theorem appendAnnotatedEntry_fails (h : w.isOpen = true) (t : Transaction) (kept : Nat)
    (inserts : Bool) :
    appendAnnotatedEntry J D w t.req t.resp t.note (.fails kept) inserts =
      (false, { w.setFile .history (some (w.content .history ++
        (entryLine J D t.req t.resp t.note ++ [0x0A]).take kept)) with
        lastError := kAppendError }) := by
  rw [appendAnnotatedEntry, h]
  rfl

def appendEntry (w : World) (request : HistoryRequest) (response : HistoryResponse)
    (outcome : WriteOutcome) (inserts : Bool) : World :=
  (appendAnnotatedEntry J D w request response [] outcome inserts).2

/-- A row of the history is loaded: numbered, put into the index and shown. -/
def loadRecord (inserts : Nat → Bool) (w : World) (o : QJsonObject) : World :=
  let req := requestFromJson (o.value "request").toObject
  let resp := responseFromJson (o.value "response").toObject
  let note := (o.value "annotation").toObject
  let rowId := w.nextRowId
  let w :=
    if !note.isEmpty && (annotationError note).isEmpty then
      { w with
        archiveAnnotations :=
          insert (QString.number (rowId : Nat)) (.object note) w.archiveAnnotations }
    else w
  let w := w.indexAppend J D rowId req resp (inserts rowId)
  { w with
    nextRowId := rowId + 1
    numbered := w.numbered ++ [(rowId, req, resp)]
    model := w.model.addResponse req resp }

theorem loadRecord_eq (inserts : Nat → Bool) (w : World) (o : QJsonObject) :
    ∃ archived tables, loadRecord J D inserts w o = { w with
      archiveAnnotations := archived
      tables := tables
      nextRowId := w.nextRowId + 1
      numbered := w.numbered ++ [(w.nextRowId,
        requestFromJson (o.value "request").toObject,
        responseFromJson (o.value "response").toObject)]
      model := w.model.addResponse (requestFromJson (o.value "request").toObject)
        (responseFromJson (o.value "response").toObject) } := by
  rw [loadRecord]
  split
  · exact ⟨_, _, rfl⟩
  · exact ⟨_, _, rfl⟩

def streamExistingHistory (w : World) (reads : Bool) (inserts : Nat → Bool) : World :=
  match w.disk w.dir .history with
  | none => w
  | some content =>
    if reads then (recordsOf J (streamLines content)).foldl (loadRecord J D inserts) w else w

end Histories

section Findings
variable (J : JsonLibrary) (D : DateTimes)

def appendFinding (w : World) (f : Finding) (outcome : WriteOutcome) : World :=
  if !w.findingsOpen then w
  else if findingKey f ∈ w.findingKeys then w
  else
    ({ w with findingKeys := findingKey f :: w.findingKeys } : World).writeLine .findings
      (findingLine J D f ++ [0x0A]) outcome

def streamExistingFindings (w : World) (reads : Bool) : World :=
  match w.disk w.dir .findings with
  | none => w
  | some content =>
    if reads then
      { w with findingKeys := (loadedFindings J D content).map findingKey ++ w.findingKeys }
    else w

end Findings

end Nullock.ProjectStore

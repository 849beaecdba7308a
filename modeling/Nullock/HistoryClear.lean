import Nullock.HistoryReload
import Nullock.ProjectSwitch

namespace Nullock.ProjectStore
open QJsonObject Proxy HttpLogic FrontEnd

section Disk
variable {disk : Disk} {dir : QString}

theorem Disk.touch_getD (disk : Disk) (dir : QString) (name : FileName) (d : QString)
    (n : FileName) : (disk.touch dir name d n).getD [] = (disk d n).getD [] := by
  rw [Disk.touch, Disk.put]
  split
  · rename_i he
    rw [he.1, he.2]
    rfl
  · rfl

theorem Disk.touch_same (disk : Disk) (dir : QString) (name : FileName) :
    disk.touch dir name dir name = some ((disk dir name).getD []) := Disk.put_same _ _ _ _

theorem Disk.touch_other (disk : Disk) (dir : QString) (h : n ≠ name) :
    disk.touch dir name d n = disk d n := Disk.put_other _ _ _ h

theorem Disk.touch_some (disk : Disk) (dir : QString) (name : FileName)
    (h : disk d n = some bytes) : disk.touch dir name d n = some bytes := by
  rw [Disk.touch, Disk.put]
  split
  · rename_i he
    rw [← he.1, ← he.2, h]
    rfl
  · exact h

theorem moveAside_some {w w' : World} (h : moveAside w name backup renames = some w') :
    ∃ bytes, w.disk w.dir name = some bytes ∧ w.disk w.dir backup = none ∧ renames = true ∧
      w' = { w with disk := (w.disk.put w.dir backup (some bytes)).put w.dir name none } := by
  rw [moveAside, Disk.rename] at h
  split at h
  · rename_i moved hmoved
    split at hmoved
    · rename_i bytes hbytes hnone
      split at h
      · rename_i hrenames
        rw [← Option.some.inj hmoved] at h
        exact ⟨bytes, hbytes, hnone, hrenames, (Option.some.inj h).symm⟩
      · exact absurd h (Option.some_ne_none _).symm
    · exact absurd hmoved (Option.some_ne_none _).symm
  · exact absurd h (Option.some_ne_none _).symm

theorem moveAside_none {w : World} (h : moveAside w name backup renames = none)
    (hfresh : w.disk w.dir backup = none) : renames = false ∨ w.disk w.dir name = none := by
  rw [moveAside] at h
  cases hname : w.disk w.dir name with
  | none => exact .inr rfl
  | some bytes =>
    rw [Disk.rename_some hname hfresh] at h
    cases renames with
    | true => exact absurd h (Option.some_ne_none _)
    | false => exact .inl rfl

theorem restoreBackup_ok (hne : backup ≠ name) (h : disk dir backup = some bytes) :
    ∃ restored, restoreBackup disk dir name backup true true = (true, restored) ∧
      restored dir name = some bytes ∧
      ∀ d n, n ≠ name → n ≠ backup → restored d n = disk d n := by
  rw [restoreBackup]
  cases hname : disk dir name with
  | none =>
    dsimp only
    rw [Disk.rename_some h hname]
    refine ⟨_, rfl, ?_, ?_⟩
    · rw [Disk.put_other _ _ _ hne.symm, Disk.put_same]
    · intro d n hn hb
      rw [Disk.put_other _ _ _ hb, Disk.put_other _ _ _ hn]
  | some old =>
    have hbackup : (disk.put dir name none) dir backup = some bytes := by
      rw [Disk.put_other _ _ _ hne, h]
    dsimp only
    rw [if_pos rfl]
    dsimp only
    rw [Disk.rename_some hbackup (Disk.put_same _ _ _ _)]
    refine ⟨_, rfl, ?_, ?_⟩
    · rw [Disk.put_other _ _ _ hne.symm, Disk.put_same]
    · intro d n hn hb
      rw [Disk.put_other _ _ _ hb, Disk.put_other _ _ _ hn, Disk.put_other _ _ _ hn]

/-- Where the rollback finds an archive: under its backup name, if it was moved. -/
def Recoverable (disk : Disk) (dir : QString) (name backup : FileName)
    (original : Option QByteArray) : Bool → Prop
  | true => disk dir backup = original ∧ original ≠ none
  | false => disk dir name = original

theorem Recoverable.given_back (hne : backup ≠ name)
    (h : Recoverable disk dir name backup original moved) :
    ∃ restored,
      (if moved then restoreBackup disk dir name backup true true else (true, disk)) =
        (true, restored) ∧
      restored dir name = original ∧
      ∀ d n, n ≠ name → n ≠ backup → restored d n = disk d n := by
  cases moved with
  | false => exact ⟨disk, rfl, h, fun _ _ _ _ => rfl⟩
  | true =>
    obtain ⟨hbackup, hsome⟩ := h
    obtain ⟨bytes, hbytes⟩ := Option.ne_none_iff_exists'.1 hsome
    obtain ⟨restored, heq, hname, hothers⟩ := restoreBackup_ok hne (hbackup.trans hbytes)
    exact ⟨restored, heq, hname.trans hbytes.symm, hothers⟩

theorem Recoverable.of_others (h : Recoverable disk dir name backup original moved)
    (hname : disk' dir name = disk dir name) (hbackup : disk' dir backup = disk dir backup) :
    Recoverable disk' dir name backup original moved := by
  cases moved with
  | false => exact hname.trans h
  | true => exact ⟨hbackup.trans h.1, h.2⟩

/-- An archive holds what it held; one that was missing may be there, and empty. -/
structure ArchiveKept (original now : Option QByteArray) : Prop where
  content : now.getD [] = original.getD []
  existing : original ≠ none → now = original

theorem ArchiveKept.refl (original : Option QByteArray) : ArchiveKept original original :=
  ⟨rfl, fun _ => rfl⟩

theorem ArchiveKept.touch (disk : Disk) (dir : QString) (name : FileName) :
    ArchiveKept (disk dir name) (disk.touch dir name dir name) where
  content := Disk.touch_getD disk dir name dir name
  existing h := by
    obtain ⟨bytes, hbytes⟩ := Option.ne_none_iff_exists'.1 h
    rw [hbytes, Disk.touch_some disk dir name hbytes]

end Disk

structure ClearInput.RollsBack (i : ClearInput) : Prop where
  removeHistory : i.ok .removeHistory = true
  restoreHistory : i.ok .restoreHistory = true
  removeFindings : i.ok .removeFindings = true
  restoreFindings : i.ok .restoreFindings = true
  reopenHistory : i.ok .reopenHistory = true
  reopenFindings : i.ok .reopenFindings = true

structure ClearInput.Fresh (i : ClearInput) (w : World) : Prop where
  history : w.disk w.dir (.historyBackup i.suffix) = none
  findings : w.disk w.dir (.findingsBackup i.suffix) = none

/-- What the rollback gives back: both archives, the epoch and the annotations. -/
structure Restored (w w' : World) : Prop where
  dir : w'.dir = w.dir
  opened : w'.isOpen = w.isOpen
  history : ArchiveKept (w.disk w.dir .history) (w'.disk w.dir .history)
  findings : ArchiveKept (w.disk w.dir .findings) (w'.disk w.dir .findings)
  epoch : w'.projectMeta.historyEpoch = w.projectMeta.historyEpoch
  annotations : w'.projectMeta.historyAnnotations = w.projectMeta.historyAnnotations
  archived : w'.archiveAnnotations = w.archiveAnnotations
  nextRowId : w'.nextRowId = w.nextRowId
  findingKeys : w'.findingKeys = w.findingKeys
  numbered : w'.numbered = w.numbered
  model : w'.model = w.model
  tables : w'.tables = w.tables
  indexOpen : w'.indexOpen = w.indexOpen

/-- A clear under way: what is untouched, and where the archives are. -/
structure Interrupted (i : ClearInput) (before w : World) (historyMoved findingsMoved : Bool) :
    Prop where
  frame : w = { before with
    disk := w.disk
    projectMeta := { before.projectMeta with
      historyEpoch := w.projectMeta.historyEpoch
      historyAnnotations := w.projectMeta.historyAnnotations
      updated := w.projectMeta.updated }
    historyOpen := w.historyOpen
    findingsOpen := w.findingsOpen
    lastError := w.lastError }
  history : Recoverable w.disk before.dir .history (.historyBackup i.suffix)
    (before.disk before.dir .history) historyMoved
  findings : Recoverable w.disk before.dir .findings (.findingsBackup i.suffix)
    (before.disk before.dir .findings) findingsMoved

section Rollback
variable {i : ClearInput} {before w : World}

theorem Interrupted.dir (h : Interrupted i before w historyMoved findingsMoved) :
    w.dir = before.dir := by
  rw [h.frame]

theorem restoreArchives_eq (hroll : i.RollsBack)
    (h : Interrupted i before w historyMoved findingsMoved) :
    ∃ disk : Disk, restoreArchives w before historyMoved findingsMoved i = { w with
        disk := (disk.touch w.dir .history).touch w.dir .findings
        historyOpen := true
        findingsOpen := true
        projectMeta := { w.projectMeta with
          historyEpoch := before.projectMeta.historyEpoch
          historyAnnotations := before.projectMeta.historyAnnotations }
        lastError := utf16 "Could not clear project history; original archives retained" } ∧
      disk w.dir .history = before.disk w.dir .history ∧
      disk w.dir .findings = before.disk w.dir .findings ∧
      disk w.dir .project = w.disk w.dir .project := by
  have hdir := h.dir
  obtain ⟨disk₁, heq₁, hhistory, hothers₁⟩ := h.history.given_back (by nofun)
  have hfindings : Recoverable disk₁ before.dir .findings (.findingsBackup i.suffix)
      (before.disk before.dir .findings) findingsMoved := by
    apply h.findings.of_others
    · exact hothers₁ _ .findings nofun nofun
    · exact hothers₁ _ (.findingsBackup i.suffix) nofun nofun
  obtain ⟨disk₂, heq₂, hfound, hothers₂⟩ := hfindings.given_back (by nofun)
  rw [← hdir] at heq₁ heq₂ hhistory hfound
  refine ⟨disk₂, ?_, ?_, hfound, ?_⟩
  · rw [restoreArchives, hroll.removeHistory, hroll.restoreHistory, heq₁]
    dsimp only
    rw [hroll.removeFindings, hroll.restoreFindings, heq₂, hroll.reopenHistory,
      hroll.reopenFindings]
    rfl
  · exact (hothers₂ _ .history nofun nofun).trans hhistory
  · exact (hothers₂ _ .project nofun nofun).trans (hothers₁ _ .project nofun nofun)

theorem restoreArchives_restored (hopen : before.isOpen = true) (hroll : i.RollsBack)
    (h : Interrupted i before w historyMoved findingsMoved) :
    Restored before (restoreArchives w before historyMoved findingsMoved i) ∧
      (restoreArchives w before historyMoved findingsMoved i).disk before.dir .project =
        w.disk before.dir .project ∧
      (restoreArchives w before historyMoved findingsMoved i).projectMeta =
        { before.projectMeta with updated := w.projectMeta.updated } := by
  obtain ⟨disk, heq, hhistory, hfindings, hproject⟩ := restoreArchives_eq hroll h
  have hdir := h.dir
  rw [hdir] at hhistory hfindings hproject
  rw [heq]
  refine ⟨?_, ?_, ?_⟩
  · constructor
    · exact hdir
    · exact hopen.symm
    · dsimp only
      rw [hdir, ← hhistory, Disk.touch_other _ _ (by nofun)]
      exact .touch _ _ _
    · have hfirst : (disk.touch before.dir .history) before.dir .findings =
          disk before.dir .findings := Disk.touch_other _ _ (by nofun)
      dsimp only
      rw [hdir, ← hfindings, ← hfirst]
      exact .touch _ _ _
    · rfl
    · rfl
    · rw [h.frame]
    · rw [h.frame]
    · rw [h.frame]
    · rw [h.frame]
    · rw [h.frame]
    · rw [h.frame]
    · rw [h.frame]
  · dsimp only
    rw [Disk.touch_other _ _ (by nofun), Disk.touch_other _ _ (by nofun)]
    exact hproject
  · rw [h.frame]

end Rollback

section Clear
variable (J : JsonLibrary) (D : DateTimes)

structure Cleared (i : ClearInput) (w w' : World) : Prop where
  dir : w'.dir = w.dir
  opened : w'.isOpen = true
  findingsOpen : w'.findingsOpen = true
  history : w'.disk w.dir .history = some []
  findings : w'.disk w.dir .findings = some []
  epoch : w'.projectMeta.historyEpoch = i.epoch
  annotations : w'.projectMeta.historyAnnotations = []
  archived : w'.archiveAnnotations = []
  saved : w'.disk w.dir .project = some (metadataBytes J D w'.projectMeta)
  nextRowId : w'.nextRowId = 1
  findingKeys : w'.findingKeys = []
  numbered : w'.numbered = []
  model : w'.model = w.model.clear
  indexOpen : w'.indexOpen = w.indexOpen
  rows : w.indexOpen = true → ∀ id, w'.tables w.dir id = none

def ClearInput.Fails (i : ClearInput) (w : World) : ClearStep → Prop
  | .moveHistory => i.ok .moveHistory = false ∨ w.disk w.dir .history = none
  | .moveFindings => i.ok .moveFindings = false ∨ w.disk w.dir .findings = none
  | .saveMetadata => i.ok .saveMetadata = false ∨ w.dir = []
  | s => i.ok s = false

def ClearStep.isForward : ClearStep → Bool
  | .moveHistory | .moveFindings | .openHistory | .openFindings | .saveMetadata | .clearIndex =>
    true
  | _ => false

inductive ClearOutcome (i : ClearInput) (w : World) : Bool × World → Prop
  /-- A step has failed, and the rollback follows. -/
  | back {w' : World} : Interrupted i w w' historyMoved findingsMoved →
      w'.disk w.dir .project = w.disk w.dir .project →
      ClearStep.isForward s = true → s ≠ .clearIndex → i.Fails w s →
      ClearOutcome i w (false, restoreArchives w' w historyMoved findingsMoved i)
  /-- The index cannot be emptied, and the metadata are saved behind the rollback. -/
  | resaved {w' : World} : Interrupted i w w' true true → w.dir ≠ [] →
      i.ok .clearIndex = false →
      ClearOutcome i w (false, (saveMetadata J D (restoreArchives w' w true true i) i.later
        (i.ok .resaveMetadata)).2)
  | done {w' : World} : Cleared J D i w w' → ClearOutcome i w (true, w')

section Outcomes
variable {J D} {i : ClearInput} {w w' : World}

theorem Interrupted.of_backups (h : Interrupted i w w' true true)
    (hframe : w'' = { w' with
      disk := w''.disk
      projectMeta := { w'.projectMeta with
        historyEpoch := w''.projectMeta.historyEpoch
        historyAnnotations := w''.projectMeta.historyAnnotations
        updated := w''.projectMeta.updated }
      historyOpen := w''.historyOpen
      findingsOpen := w''.findingsOpen })
    (hdisk : ∀ n, n ≠ .history → n ≠ .findings → n ≠ .project →
      w''.disk w.dir n = w'.disk w.dir n) : Interrupted i w w'' true true where
  frame := by
    rw [hframe, h.frame]
  history := ⟨(hdisk (.historyBackup i.suffix) nofun nofun nofun).trans h.history.1, h.history.2⟩
  findings :=
    ⟨(hdisk (.findingsBackup i.suffix) nofun nofun nofun).trans h.findings.1, h.findings.2⟩

structure MovedAside (i : ClearInput) (w w' : World) : Prop where
  interrupted : Interrupted i w w' true true
  projectMeta : w'.projectMeta = w.projectMeta
  history : w'.disk w.dir .history = none
  findings : w'.disk w.dir .findings = none
  project : w'.disk w.dir .project = w.disk w.dir .project

def reopened (w : World) (i : ClearInput) : World :=
  { w with
    disk := (w.disk.touch w.dir .history).touch w.dir .findings
    historyOpen := true
    findingsOpen := true
    projectMeta := { w.projectMeta with historyEpoch := i.epoch, historyAnnotations := [] } }

theorem replaceArchives_reopened (hhistory : i.ok .openHistory = true)
    (hfindings : i.ok .openFindings = true)
    (hsave : saveMetadata J D (reopened w' i) i.now (i.ok .saveMetadata) = (saved, w'')) :
    replaceArchives J D w' w i =
      if !saved then (false, restoreArchives w'' w true true i)
      else if w''.indexOpen && !i.ok .clearIndex then
        (false, (saveMetadata J D (restoreArchives w'' w true true i) i.later
          (i.ok .resaveMetadata)).2)
      else (true, finishClear (if w''.indexOpen then w''.deleteRows else w'') i) := by
  rw [reopened] at hsave
  simp only [replaceArchives, openAppend, hhistory, hfindings, Bool.not_true, Bool.false_eq_true,
    if_false, if_true, hsave]

theorem reopened_disk (w : World) (i : ClearInput) (d : QString) (hh : n ≠ .history)
    (hf : n ≠ .findings) : (reopened w i).disk d n = w.disk d n :=
  (Disk.touch_other _ _ hf).trans (Disk.touch_other _ _ hh)

theorem MovedAside.reopened_archives (h : MovedAside i w w') :
    (reopened w' i).disk w.dir .history = some [] ∧
      (reopened w' i).disk w.dir .findings = some [] := by
  have hhistory := h.history
  have hfindings := h.findings
  rw [← h.interrupted.dir] at hhistory hfindings ⊢
  constructor
  · have hfirst : (w'.disk.touch w'.dir .history) w'.dir .history = some [] := by
      rw [Disk.touch_same, hhistory]
      rfl
    exact (Disk.touch_other _ _ (by nofun)).trans hfirst
  · have hfirst : (w'.disk.touch w'.dir .history) w'.dir .findings = none :=
      (Disk.touch_other _ _ (by nofun)).trans hfindings
    exact (Disk.touch_same _ _ _).trans (congrArg (fun o => some (Option.getD o [])) hfirst)

theorem finishClear_disk (w : World) (i : ClearInput) (h₁ : n ≠ .historyBackup i.suffix)
    (h₂ : n ≠ .findingsBackup i.suffix) (d : QString) :
    (finishClear w i).disk d n = w.disk d n := by
  rw [finishClear]
  cases i.ok .removeHistoryBackup with
  | true =>
    cases i.ok .removeFindingsBackup with
    | true => exact (Disk.put_other _ _ _ h₂).trans (Disk.put_other _ _ _ h₁)
    | false => exact Disk.put_other _ _ _ h₁
  | false =>
    cases i.ok .removeFindingsBackup with
    | true => exact Disk.put_other _ _ _ h₂
    | false => rfl

theorem finishClear_frame (w : World) (i : ClearInput) :
    finishClear w i = { w with
      disk := (finishClear w i).disk
      nextRowId := 1
      archiveAnnotations := []
      findingKeys := []
      numbered := []
      model := w.model.clear } := by
  rw [finishClear]
  cases i.ok .removeHistoryBackup with
  | true =>
    cases i.ok .removeFindingsBackup with
    | true => rfl
    | false => rfl
  | false =>
    cases i.ok .removeFindingsBackup with
    | true => rfl
    | false => rfl

theorem deleteRows_frame (w : World) :
    ∃ tables, (if w.indexOpen then w.deleteRows else w) = { w with tables := tables } ∧
      (w.indexOpen = true → ∀ id, tables w.dir id = none) := by
  cases hindex : w.indexOpen with
  | true =>
    refine ⟨w.deleteRows.tables, ?_, fun _ id => if_pos rfl⟩
    rw [if_pos rfl, ← hindex]
    rfl
  | false =>
    refine ⟨w.tables, ?_, fun h => absurd h Bool.false_ne_true⟩
    rw [if_neg Bool.false_ne_true, ← hindex]

theorem MovedAside.cleared (h : MovedAside i w w') {m : ProjectMeta}
    (hepoch : m.historyEpoch = i.epoch) (hnotes : m.historyAnnotations = []) {w'' : World}
    (heq : w'' = { reopened w' i with
      projectMeta := m
      disk := (reopened w' i).disk.put (reopened w' i).dir .project
        (some (metadataBytes J D m)) }) :
    Cleared J D i w (finishClear (if w''.indexOpen then w''.deleteRows else w'') i) := by
  have hdir : w''.dir = w.dir := by
    rw [heq]
    exact h.interrupted.dir
  have hindex : w''.indexOpen = w.indexOpen := by
    rw [heq, reopened, h.interrupted.frame]
  obtain ⟨hhistory, hfindings⟩ := h.reopened_archives
  obtain ⟨tables, hrows, hnone⟩ := deleteRows_frame w''
  have hdisk : ∀ n, n ≠ .historyBackup i.suffix → n ≠ .findingsBackup i.suffix →
      (finishClear { w'' with tables := tables } i).disk w.dir n = w''.disk w.dir n :=
    fun n h₁ h₂ => finishClear_disk _ i h₁ h₂ w.dir
  have hothers : ∀ n, n ≠ .project → w''.disk w.dir n = (reopened w' i).disk w.dir n := by
    intro n hn
    rw [heq]
    exact Disk.put_other _ _ _ hn
  have hproject : w''.disk w.dir .project = some (metadataBytes J D m) := by
    rw [← hdir, heq]
    exact Disk.put_same _ _ _ _
  rw [hrows]
  constructor
  · rw [finishClear_frame]
    exact hdir
  · rw [finishClear_frame, heq]
    rfl
  · rw [finishClear_frame, heq]
    rfl
  · rw [hdisk _ (by nofun) (by nofun), hothers _ (by nofun)]
    exact hhistory
  · rw [hdisk _ (by nofun) (by nofun), hothers _ (by nofun)]
    exact hfindings
  · rw [finishClear_frame, heq]
    exact hepoch
  · rw [finishClear_frame, heq]
    exact hnotes
  · rw [finishClear_frame]
  · rw [hdisk _ (by nofun) (by nofun), hproject, finishClear_frame, heq]
  · rw [finishClear_frame]
  · rw [finishClear_frame]
  · rw [finishClear_frame]
  · rw [finishClear_frame, heq, reopened, h.interrupted.frame]
  · rw [finishClear_frame]
    exact hindex
  · intro hopen id
    rw [finishClear_frame, ← hdir]
    exact hnone (hindex.trans hopen) id

theorem replaceArchives_outcome (h : MovedAside i w w') :
    ClearOutcome J D i w (replaceArchives J D w' w i) := by
  have hdir := h.interrupted.dir
  cases hhistory : i.ok .openHistory with
  | false =>
    have hback : Interrupted i w { w' with historyOpen := false } true true :=
      h.interrupted.of_backups rfl (fun _ _ _ _ => rfl)
    rw [replaceArchives, hhistory]
    exact .back hback h.project (s := .openHistory) rfl nofun hhistory
  | true =>
  cases hfindings : i.ok .openFindings with
  | false =>
    have hback : Interrupted i w { w' with
        disk := w'.disk.touch w'.dir .history, historyOpen := true, findingsOpen := false }
        true true :=
      h.interrupted.of_backups rfl (fun _ hh _ _ => Disk.touch_other _ _ hh)
    rw [replaceArchives, hhistory, hfindings]
    exact .back hback ((Disk.touch_other _ _ (by nofun)).trans h.project) (s := .openFindings) rfl
      nofun hfindings
  | true =>
  by_cases hsave : i.ok .saveMetadata = true ∧ w.dir ≠ []
  · obtain ⟨hok, hne⟩ := hsave
    obtain ⟨m, hm, hsaved⟩ := saveMetadata_commits J D hok (w := reopened w' i)
      (fun he => hne (hdir.symm.trans he)) i.now
    rw [replaceArchives_reopened hhistory hfindings hsaved, Bool.not_true,
      if_neg Bool.false_ne_true]
    split
    · rename_i hindex
      obtain ⟨-, hclear⟩ := Bool.and_eq_true_iff.1 hindex
      refine .resaved (h.interrupted.of_backups ?_ ?_) hne (Bool.not_eq_true' _ ▸ hclear)
      · rw [hm]
        rfl
      · intro n hh hf hp
        exact (Disk.put_other _ _ _ hp).trans (reopened_disk w' i w.dir hh hf)
    · exact .done (h.cleared (hm ▸ rfl) (hm ▸ rfl) rfl)
  · have hfails : i.ok .saveMetadata = false ∨ w.dir = [] := by
      by_contra hn
      obtain ⟨hok, hne⟩ := not_or.1 hn
      exact hsave ⟨Bool.eq_true_of_not_eq_false hok, hne⟩
    obtain ⟨updated, hsaved⟩ := saveMetadata_fails J D (w := reopened w' i)
      (hfails.imp_right hdir.trans) i.now
    rw [replaceArchives_reopened hhistory hfindings hsaved]
    refine .back (h.interrupted.of_backups rfl ?_) ?_ (s := .saveMetadata) rfl nofun hfails
    · exact fun n hh hf _ => reopened_disk w' i w.dir hh hf
    · exact (reopened_disk w' i w.dir (by nofun) (by nofun)).trans h.project

def closedArchives (w : World) : World :=
  { w with lastError := [], historyOpen := false, findingsOpen := false }

theorem interrupted_moveHistory
    (h : moveAside (closedArchives w) .history (.historyBackup i.suffix) renames = some w') :
    Interrupted i w w' true false ∧ w'.projectMeta = w.projectMeta ∧
      w'.disk w.dir .history = none ∧
      ∀ n, n ≠ .history → n ≠ .historyBackup i.suffix → w'.disk w.dir n = w.disk w.dir n := by
  obtain ⟨bytes, hbytes, -, -, rfl⟩ := moveAside_some h
  have hothers : ∀ n, n ≠ .history → n ≠ .historyBackup i.suffix →
      ((w.disk.put w.dir (.historyBackup i.suffix) (some bytes)).put w.dir .history none) w.dir n =
        w.disk w.dir n := by
    intro n hh hb
    rw [Disk.put_other _ _ _ hh, Disk.put_other _ _ _ hb]
  refine ⟨⟨rfl, ⟨?_, ?_⟩, hothers _ (by nofun) (by nofun)⟩, rfl, Disk.put_same _ _ _ _, hothers⟩
  · have hput : ((w.disk.put w.dir (.historyBackup i.suffix) (some bytes)).put w.dir .history none)
        w.dir (.historyBackup i.suffix) = some bytes := by
      rw [Disk.put_other _ _ _ (by nofun), Disk.put_same]
    exact hput.trans hbytes.symm
  · rw [show w.disk w.dir .history = some bytes from hbytes]
    exact Option.some_ne_none bytes

theorem movedAside_moveFindings (h : Interrupted i w w' true false)
    (hmeta : w'.projectMeta = w.projectMeta) (hhistory : w'.disk w.dir .history = none)
    (hothers : ∀ n, n ≠ .history → n ≠ .historyBackup i.suffix →
      w'.disk w.dir n = w.disk w.dir n)
    (hmove : moveAside w' .findings (.findingsBackup i.suffix) renames = some w'') :
    MovedAside i w w'' := by
  obtain ⟨bytes, hbytes, -, -, rfl⟩ := moveAside_some hmove
  have hdir := h.dir
  rw [hdir] at hbytes
  rw [hothers _ (by nofun) (by nofun)] at hbytes
  have hdisk : ∀ n, n ≠ .findings → n ≠ .findingsBackup i.suffix →
      ((w'.disk.put w'.dir (.findingsBackup i.suffix) (some bytes)).put w'.dir .findings none)
        w.dir n = w'.disk w.dir n := by
    intro n hf hb
    rw [Disk.put_other _ _ _ hf, Disk.put_other _ _ _ hb]
  have hbackup : ((w'.disk.put w'.dir (.findingsBackup i.suffix) (some bytes)).put w'.dir .findings
      none) w.dir (.findingsBackup i.suffix) = some bytes := by
    rw [Disk.put_other _ _ _ (by nofun), ← hdir, Disk.put_same]
  constructor
  · constructor
    · rw [h.frame]
    · exact ⟨(hdisk (.historyBackup i.suffix) nofun nofun).trans h.history.1, h.history.2⟩
    · refine ⟨hbackup.trans hbytes.symm, ?_⟩
      rw [hbytes]
      exact Option.some_ne_none bytes
  · exact hmeta
  · exact (hdisk _ (by nofun) (by nofun)).trans hhistory
  · rw [← hdir]
    exact Disk.put_same _ _ _ _
  · exact (hdisk _ (by nofun) (by nofun)).trans (hothers _ (by nofun) (by nofun))

theorem clearHistory_outcome (hopen : w.isOpen = true) (hguard : i.guard = true)
    (hfresh : i.Fresh w) : ClearOutcome J D i w (clearHistory J D w i) := by
  rw [clearHistory, hopen, hguard, if_neg (by decide), if_neg (by decide)]
  cases hhistory : moveAside (closedArchives w) .history (.historyBackup i.suffix)
      (i.ok .moveHistory) with
  | none =>
    rw [closedArchives] at hhistory
    dsimp only
    rw [hhistory]
    have hfails := moveAside_none hhistory hfresh.history
    have hback : Interrupted i w
        { w with lastError := [], historyOpen := false, findingsOpen := false } false false :=
      ⟨rfl, rfl, rfl⟩
    exact .back hback rfl (s := .moveHistory) rfl nofun hfails
  | some w₁ =>
    obtain ⟨hback, hmeta, hgone, hothers⟩ := interrupted_moveHistory hhistory
    rw [closedArchives] at hhistory
    dsimp only
    rw [hhistory]
    dsimp only
    cases hfindings : moveAside w₁ .findings (.findingsBackup i.suffix) (i.ok .moveFindings) with
    | none =>
      have hunused : w₁.disk w₁.dir (.findingsBackup i.suffix) = none := by
        rw [hback.dir, hothers _ (by nofun) (by nofun)]
        exact hfresh.findings
      have hfails := moveAside_none hfindings hunused
      rw [hback.dir, hothers _ (by nofun) (by nofun)] at hfails
      exact .back hback (hothers _ nofun nofun) (s := .moveFindings) rfl nofun hfails
    | some w₂ =>
      have hmoved := movedAside_moveFindings hback hmeta hgone hothers hfindings
      exact replaceArchives_outcome hmoved

theorem Restored.saveMetadata {w' : World} (h : Restored w w') (now : QDateTime)
    (commits : Bool) : Restored w (saveMetadata J D w' now commits).2 := by
  have hsaves := saves_saveMetadata J D w' now commits
  have hfile : ∀ n, n ≠ .project → n ≠ .intruder → n ≠ .sequencer →
      (ProjectStore.saveMetadata J D w' now commits).2.disk w.dir n = w'.disk w.dir n :=
    fun n => hsaves.archives w.dir n
  have hmeta : ∃ updated, (ProjectStore.saveMetadata J D w' now commits).2.projectMeta =
      { w'.projectMeta with updated := updated } := by
    rw [ProjectStore.saveMetadata]
    split
    · exact ⟨_, rfl⟩
    · dsimp only
      split
      · exact ⟨now, rfl⟩
      · exact ⟨now, rfl⟩
  obtain ⟨updated, hmeta⟩ := hmeta
  constructor
  · exact hsaves.dir.trans h.dir
  · exact hsaves.isOpen.trans h.opened
  · rw [hfile _ (fun h => by cases h) (fun h => by cases h) (fun h => by cases h)]
    exact h.history
  · rw [hfile _ (fun h => by cases h) (fun h => by cases h) (fun h => by cases h)]
    exact h.findings
  · rw [hmeta]
    exact h.epoch
  · rw [hmeta]
    exact h.annotations
  · rw [hsaves.frame]
    exact h.archived
  · rw [hsaves.frame]
    exact h.nextRowId
  · rw [hsaves.frame]
    exact h.findingKeys
  · rw [hsaves.frame]
    exact h.numbered
  · rw [hsaves.frame]
    exact h.model
  · rw [hsaves.frame]
    exact h.tables
  · rw [hsaves.frame]
    exact h.indexOpen

theorem Restored.refl (w : World) : Restored w w :=
  ⟨rfl, rfl, .refl _, .refl _, rfl, rfl, rfl, rfl, rfl, rfl, rfl, rfl, rfl⟩

theorem Restored.lastError (w : World) (error : QString) :
    Restored w { w with lastError := error } :=
  ⟨rfl, rfl, .refl _, .refl _, rfl, rfl, rfl, rfl, rfl, rfl, rfl, rfl, rfl⟩

theorem clearHistory_restored (hroll : i.RollsBack) (hfresh : i.Fresh w)
    (hresult : (clearHistory J D w i).1 = false) : Restored w (clearHistory J D w i).2 := by
  cases hopen : w.isOpen with
  | false =>
    rw [clearHistory, hopen]
    exact .refl w
  | true =>
  cases hguard : i.guard with
  | false =>
    rw [clearHistory, hopen, hguard]
    exact .lastError w _
  | true =>
  have houtcome := clearHistory_outcome (J := J) (D := D) hopen hguard hfresh
  cases hr : clearHistory J D w i with
  | mk result w' =>
    rw [hr] at houtcome hresult
    cases houtcome with
    | back h _ _ _ _ => exact (restoreArchives_restored hopen hroll h).1
    | resaved h _ _ => exact (restoreArchives_restored hopen hroll h).1.saveMetadata _ _
    | done _ => exact absurd hresult.symm Bool.false_ne_true

theorem clearHistory_cleared (hfresh : i.Fresh w) (hresult : (clearHistory J D w i).1 = true) :
    Cleared J D i w (clearHistory J D w i).2 := by
  cases hopen : w.isOpen with
  | false =>
    rw [clearHistory, hopen] at hresult
    exact absurd hresult Bool.false_ne_true
  | true =>
  cases hguard : i.guard with
  | false =>
    rw [clearHistory, hopen, hguard] at hresult
    exact absurd hresult Bool.false_ne_true
  | true =>
  have houtcome := clearHistory_outcome (J := J) (D := D) hopen hguard hfresh
  cases hr : clearHistory J D w i with
  | mk result w' =>
    rw [hr] at houtcome hresult
    cases houtcome with
    | back _ _ _ _ _ => exact absurd hresult Bool.false_ne_true
    | resaved _ _ _ => exact absurd hresult Bool.false_ne_true
    | done h => exact h

structure ClearInput.FailsOnly (i : ClearInput) (w : World) (s : ClearStep) : Prop where
  others : ∀ t, t ≠ s → i.ok t = true
  history : w.disk w.dir .history = none → s = .moveHistory
  findings : w.disk w.dir .findings = none → s = .moveHistory ∨ s = .moveFindings
  directory : w.dir = [] → s = .saveMetadata

theorem ClearInput.FailsOnly.eq_of_not_ok (h : i.FailsOnly w s) (ht : i.ok t = false) : t = s := by
  by_contra hn
  rw [h.others t hn] at ht
  exact absurd ht.symm Bool.false_ne_true

theorem ClearInput.FailsOnly.isForward (h : i.FailsOnly w s) (ht : t.isForward = true)
    (hne : t ≠ .clearIndex) (hfails : i.Fails w t) :
    s.isForward = true ∧ s ≠ .clearIndex := by
  have hok : i.ok t = false → s.isForward = true ∧ s ≠ .clearIndex :=
    fun hf => h.eq_of_not_ok hf ▸ ⟨ht, hne⟩
  cases t with
  | moveHistory =>
    rcases hfails with hf | hnone
    · exact hok hf
    · rw [h.history hnone]
      exact ⟨rfl, nofun⟩
  | moveFindings =>
    rcases hfails with hf | hnone
    · exact hok hf
    · rcases h.findings hnone with rfl | rfl
      · exact ⟨rfl, nofun⟩
      · exact ⟨rfl, nofun⟩
  | saveMetadata =>
    rcases hfails with hf | hnone
    · exact hok hf
    · rw [h.directory hnone]
      exact ⟨rfl, nofun⟩
  | _ => exact hok hfails

theorem ClearInput.FailsOnly.rollsBack (h : i.FailsOnly w s) (hs : s.isForward = true) :
    i.RollsBack := by
  have hok : ∀ t, t.isForward = false → i.ok t = true := by
    intro t ht
    refine h.others t (fun he => ?_)
    rw [he, hs] at ht
    exact absurd ht.symm Bool.false_ne_true
  constructor
  · exact hok _ rfl
  · exact hok _ rfl
  · exact hok _ rfl
  · exact hok _ rfl
  · exact hok _ rfl
  · exact hok _ rfl

/-- A failed clear leaves the project file, or what memory holds. -/
def ProjectFileKept (J : JsonLibrary) (D : DateTimes) (i : ClearInput) (s : ClearStep)
    (w w' : World) : Prop :=
  w'.disk w.dir .project = w.disk w.dir .project ∨
    (s = .clearIndex ∧
      w'.disk w.dir .project =
        some (metadataBytes J D { w.projectMeta with updated := i.later }))

theorem ClearOutcome.kept (hopen : w.isOpen = true) (h : i.FailsOnly w s)
    (houtcome : ClearOutcome J D i w (false, w')) :
    Restored w w' ∧ ((s ≠ .clearIndex ∧ w'.disk w.dir .project = w.disk w.dir .project) ∨
      (s = .clearIndex ∧ w'.disk w.dir .project =
        some (metadataBytes J D { w.projectMeta with updated := i.later }))) := by
  cases houtcome with
  | back hback hproject ht hne hfails =>
    obtain ⟨hs, hother⟩ := h.isForward ht hne hfails
    obtain ⟨hrestored, hfile, -⟩ := restoreArchives_restored hopen (h.rollsBack hs) hback
    exact ⟨hrestored, .inl ⟨hother, hfile.trans hproject⟩⟩
  | @resaved w'' hback hne hclear =>
    have hs : ClearStep.clearIndex = s := h.eq_of_not_ok hclear
    have hroll := h.rollsBack (hs ▸ rfl)
    obtain ⟨hrestored, -, hmeta⟩ := restoreArchives_restored hopen hroll hback
    have hresave : i.ok .resaveMetadata = true := h.others _ (by rw [← hs]; nofun)
    refine ⟨hrestored.saveMetadata _ _, .inr ⟨hs.symm, ?_⟩⟩
    obtain ⟨m, hm, hsaved⟩ := saveMetadata_commits J D hresave
      (fun he => hne (hrestored.dir.symm.trans he)) i.later
    rw [hsaved, ← hrestored.dir]
    refine (Disk.put_same _ _ _ _).trans ?_
    rw [hm, hmeta]

theorem clearHistory_failed (hopen : w.isOpen = true) (hguard : i.guard = true)
    (hfresh : i.Fresh w) (hresult : (clearHistory J D w i).1 = false) :
    ClearOutcome J D i w (false, (clearHistory J D w i).2) := by
  have houtcome := clearHistory_outcome (J := J) (D := D) hopen hguard hfresh
  rwa [show clearHistory J D w i = (false, (clearHistory J D w i).2) from
    Prod.ext hresult rfl] at houtcome

end Outcomes

def savedNotes (w : World) : Option (QString × QJsonObject) :=
  (w.disk w.dir .project).bind (fun bytes => (objectOf J bytes).map (fun o =>
    ((o.value "historyEpoch").toQString, (o.value "historyAnnotations").toObject)))

def ClearsAllOrNothing (i : ClearInput) (w : World) : Prop :=
  ((clearHistory J D w i).1 = true → Cleared J D i w (clearHistory J D w i).2) ∧
    ((clearHistory J D w i).1 = false →
      Restored w (clearHistory J D w i).2 ∧
        savedNotes J (clearHistory J D w i).2 = savedNotes J w)

end Clear

/-- Clearing empties all, or gives it back and leaves the file alone. -/
theorem clear_all_or_nothing (J : JsonLibrary) (D : DateTimes) (i : ClearInput) (w : World)
    (s : ClearStep) (hfresh : i.Fresh w) (hs : i.FailsOnly w s) :
    ((clearHistory J D w i).1 = true → Cleared J D i w (clearHistory J D w i).2) ∧
      ((clearHistory J D w i).1 = false →
        Restored w (clearHistory J D w i).2 ∧
          ProjectFileKept J D i s w (clearHistory J D w i).2) := by
  refine ⟨clearHistory_cleared hfresh, fun hresult => ?_⟩
  cases hopen : w.isOpen with
  | false =>
    rw [clearHistory, hopen]
    exact ⟨.refl w, .inl rfl⟩
  | true =>
  cases hguard : i.guard with
  | false =>
    rw [clearHistory, hopen, hguard]
    exact ⟨.lastError w _, .inl rfl⟩
  | true =>
    obtain ⟨hrestored, hfile⟩ := (clearHistory_failed hopen hguard hfresh hresult).kept hopen hs
    exact ⟨hrestored, hfile.imp_left And.right⟩

def legacyDisk : Disk := fun d n =>
  if d = utf16 "/projects/shop" ∧ n = .project then some (latin1 "{}") else none

def legacyOpen : OpenInput where
  dir := utf16 "/projects/shop"
  ok s := s ≠ .saveEpoch
  tools := { intruder := [], sequencer := [], repeater := [], cookies := [] }
  epoch := utf16 "0b2d"

def legacyProject : World :=
  (openProject JsonText.textLibrary epochDates
    { disk := legacyDisk, tables := fun _ _ => none } legacyOpen).2

def stuckIndex : ClearInput where
  ok s := s ≠ .clearIndex
  suffix := utf16 "-5f10"
  epoch := utf16 "77aa"

theorem stuckIndex_fresh : stuckIndex.Fresh legacyProject := by
  constructor
  · decide
  · decide

theorem stuckIndex_failsOnly : stuckIndex.FailsOnly legacyProject .clearIndex := by
  constructor
  · exact fun t ht => decide_eq_true ht
  · exact fun h => absurd h (by decide)
  · exact fun h => absurd h (by decide)
  · exact fun h => absurd h (by decide)

theorem legacy_history_back :
    (clearHistory JsonText.textLibrary epochDates legacyProject stuckIndex).2.content .history =
      legacyProject.content .history := by
  obtain ⟨-, hfailed⟩ := clear_all_or_nothing JsonText.textLibrary epochDates stuckIndex
    legacyProject .clearIndex stuckIndex_fresh stuckIndex_failsOnly
  have hresult : (clearHistory JsonText.textLibrary epochDates legacyProject stuckIndex).1 =
      false := by decide
  obtain ⟨hrestored, -⟩ := hfailed hresult
  rw [World.content, World.content, hrestored.dir]
  exact hrestored.history.content

theorem savedNotes_written (h : Storable J (kNestingLimit - 1) m)
    (hfile : w.disk w.dir .project = some (metadataBytes J D m)) :
    savedNotes J w = some (m.historyEpoch, m.historyAnnotations) := by
  have hread : objectOf J (metadataBytes J D m) = some (metadataToJson D m) := by
    rw [objectOf, metadataBytes, J.read_indented _ rfl (stored_metadata h)]
  rw [savedNotes, hfile, Option.bind_some, hread, Option.map_some, metadata_epoch,
    metadata_annotations]

theorem storable_epoch (J : JsonLibrary) (epoch : QString) :
    Storable J (depth + 1) { historyEpoch := epoch } where
  annotations := .object List.Pairwise.nil nofun
  repeater := .object List.Pairwise.nil nofun
  ruleSections := nofun
  arrays a ha := by
    simp only [List.mem_cons, List.not_mem_nil, or_false, or_self] at ha
    rw [ha]
    exact .array nofun

theorem legacy_epoch_saved :
    ¬ ClearsAllOrNothing JsonText.textLibrary epochDates stuckIndex legacyProject := by
  intro h
  have hresult : (clearHistory JsonText.textLibrary epochDates legacyProject stuckIndex).1 =
      false := by decide
  obtain ⟨hrestored, hnotes⟩ := h.2 hresult
  have hopen : legacyProject.isOpen = true := by decide
  obtain ⟨-, hfile⟩ := (clearHistory_failed hopen rfl stuckIndex_fresh hresult).kept hopen
    stuckIndex_failsOnly
  rcases hfile with ⟨hne, -⟩ | ⟨-, hfile⟩
  · exact hne rfl
  · have hmeta : legacyProject.projectMeta = { historyEpoch := utf16 "0b2d" } := rfl
    have hbefore : savedNotes JsonText.textLibrary legacyProject = some ([], []) := rfl
    rw [hmeta, ← hrestored.dir] at hfile
    rw [savedNotes_written (storable_epoch _ _) hfile, hbefore] at hnotes
    have hepoch : utf16 "0b2d" = [] := congrArg Prod.fst (Option.some.inj hnotes)
    exact absurd hepoch (by decide)

end Nullock.ProjectStore

import Nullock.HarAtomicity
import Nullock.ProjectSwitch
import Nullock.Runs

namespace Nullock.ProjectStore
open QJsonObject Proxy HttpLogic FrontEnd

/-- What happens to a project store, with what the outside decides at each step. -/
inductive Action (J : JsonLibrary) where
  /-- A response comes in: the model shows it, and the store appends it. -/
  | respond (req : HistoryRequest) (resp : HistoryResponse) (outcome : WriteOutcome)
      (inserts : Bool)
  | importHar (env : ImportEnv) (harJson : QByteArray)
  | clear (i : ClearInput)
  | openDir (i : OpenInput)
  | close
  | finding (f : ScanFinding J) (outcome : WriteOutcome)
  | restoreFindings (reads : Bool)
  | setMeta (change : ProjectMeta → ProjectMeta) (now : QDateTime) (commits : Bool)
  | annotate (id : Int) (patch : QJsonObject) (now : QDateTime) (commits : Bool)
  | saveTools (tools : ToolStates)

section Step
variable {J : JsonLibrary} (D : DateTimes) (U : UrlLibrary)

def step (w : World) : Action J → World
  | .respond req resp outcome inserts =>
    appendEntry J D { w with model := w.model.addResponse req resp } req resp outcome inserts
  | .importHar env harJson => (importHarBytes J D U env w harJson).2
  | .clear i => (clearHistory J D w i).2
  | .openDir i => (openProject J D w i).2
  | .close => close w
  | .finding f outcome => appendFinding J D w f.toFinding outcome
  | .restoreFindings reads => streamExistingFindings J D w reads
  | .setMeta change now commits => setMetadata J D w change now commits
  | .annotate id patch now commits => (annotateHistory J D w id patch now commits).2
  | .saveTools tools => (saveWorkspaces J D w tools).2

end Step

section Frames
variable {J : JsonLibrary} {D : DateTimes} {U : UrlLibrary} {w : World}

theorem historyOnly_model (w : World) (model : ProxyModel) :
    HistoryOnly w { w with model := model } := ⟨rfl, fun _ _ _ => rfl⟩

theorem historyOnly_importEntries (env : ImportEnv) (w : World) (imported : Nat)
    (entries : List QJsonObject) :
    HistoryOnly w (importEntries J D U env w imported entries).2 := by
  induction entries generalizing w imported with
  | nil => exact .refl w
  | cons entry rest ih =>
    have happend := historyOnly_append J D w (harTransaction U D (env.now imported) entry).req
      (harTransaction U D (env.now imported) entry).resp
      (harTransaction U D (env.now imported) entry).note (env.outcome imported)
      (env.inserts imported)
    rw [importEntries]
    dsimp only
    split
    · exact (happend.trans (historyOnly_model _ _)).trans (ih _ _)
    · exact happend

theorem historyOnly_importHar (env : ImportEnv) (w : World) (harJson : QByteArray) :
    HistoryOnly w (importHarBytes J D U env w harJson).2 := by
  rw [importHarBytes]
  split
  · exact .refl w
  · exact historyOnly_importEntries env w 0 _

theorem historyOnly_respond (w : World) (req : HistoryRequest) (resp : HistoryResponse)
    (outcome : WriteOutcome) (inserts : Bool) :
    HistoryOnly w (appendEntry J D { w with model := w.model.addResponse req resp } req resp
      outcome inserts) :=
  (historyOnly_model w _).trans (historyOnly_append J D _ req resp [] outcome inserts)

end Frames

end Nullock.ProjectStore

import Nullock.HistoryClear
import Nullock.ProjectRuns

namespace Nullock.ProjectStore
open QJsonObject Proxy HttpLogic FrontEnd

section Findings
variable (J : JsonLibrary) (D : DateTimes)

def FindingsKept (w : World) : Prop :=
  ∀ f, findingKey f ∈ w.findingKeys →
    ∃ g ∈ loadedFindings J D (w.content .findings), SameFinding g f

/-- Every key is that of a line in the file whose fields it tells apart. -/
def KeysInFile (w : World) : Prop :=
  ∀ key ∈ w.findingKeys, ∃ g ∈ loadedFindings J D (w.content .findings),
    NoSeparator g ∧ findingKey g = key

def CleanFindings (content : QByteArray) : Prop := ∀ g ∈ loadedFindings J D content, NoSeparator g

/-- Findings are written behind whole lines, and rollbacks succeed. -/
def KeepsFindings (w : World) : Action J → Prop
  | .finding f outcome =>
    w.findingsOpen = true → findingKey f.toFinding ∉ w.findingKeys →
      outcome = .done ∧ Closed 0x0A (w.content .findings) ∧ NoSeparator f.toFinding
  | .openDir i => CleanFindings J D ((w.disk i.dir .findings).getD [])
  | .restoreFindings _ => CleanFindings J D (w.content .findings)
  | .clear i => i.RollsBack ∧ i.Fresh w
  | _ => True

variable {J D} {w w' : World}

theorem KeysInFile.kept (h : KeysInFile J D w) : FindingsKept J D w := by
  intro f hf
  obtain ⟨g, hg, hclean, hkey⟩ := h (findingKey f) hf
  exact ⟨g, hg, sameFinding_of_key hclean hkey⟩

theorem KeysInFile.of_nil (h : w.findingKeys = []) : KeysInFile J D w := by
  intro key hkey
  rw [h] at hkey
  exact absurd hkey List.not_mem_nil

theorem KeysInFile.of_same (h : KeysInFile J D w) (hkeys : w'.findingKeys = w.findingKeys)
    (hcontent : w'.content .findings = w.content .findings) : KeysInFile J D w' := by
  intro key hkey
  rw [hkeys] at hkey
  rw [hcontent]
  exact h key hkey

theorem KeysInFile.of_loaded (hclean : CleanFindings J D (w.content .findings))
    (h : ∀ key ∈ w.findingKeys,
      key ∈ (loadedFindings J D (w.content .findings)).map findingKey) : KeysInFile J D w := by
  intro key hkey
  obtain ⟨g, hg, rfl⟩ := List.mem_map.1 (h key hkey)
  exact ⟨g, hg, hclean g hg, rfl⟩

theorem Saves.findingKeys (h : Saves w w') : w'.findingKeys = w.findingKeys := by
  rw [h.frame]

theorem KeysInFile.saves (h : KeysInFile J D w) (hsaves : Saves w w') : KeysInFile J D w' :=
  h.of_same hsaves.findingKeys (hsaves.content nofun nofun nofun)

theorem KeysInFile.historyOnly (h : KeysInFile J D w) (honly : HistoryOnly w w') :
    KeysInFile J D w' := by
  apply h.of_same
  · rw [honly.frame]
  · exact honly.content nofun

theorem KeysInFile.appendFinding (h : KeysInFile J D w) (f : ScanFinding J)
    (outcome : WriteOutcome) (hf : KeepsFindings J D w (.finding f outcome)) :
    KeysInFile J D (appendFinding J D w f.toFinding outcome) := by
  rw [ProjectStore.appendFinding]
  split
  · exact h
  split
  · exact h
  rename_i hclosed hknown
  obtain ⟨rfl, hclosed, hclean⟩ := hf (by simpa using hclosed) hknown
  intro key hkey
  have hcontent : (World.writeLine { w with findingKeys := findingKey f.toFinding :: w.findingKeys }
      .findings (findingLine J D f.toFinding ++ [0x0A]) .done).content .findings =
        w.content .findings ++ (findingLine J D f.toFinding ++ [0x0A]) :=
    World.content_setFile _ _ _
  rw [hcontent, loadedFindings_append D f hclosed]
  rcases List.mem_cons.1 hkey with rfl | hkey
  · exact ⟨_, List.mem_append_right _ List.mem_cons_self, hclean, rfl⟩
  · obtain ⟨g, hg, hg'⟩ := h key hkey
    exact ⟨g, List.mem_append_left _ hg, hg'⟩

def KeysLoaded (J : JsonLibrary) (D : DateTimes) (content : QByteArray) (w : World) : Prop :=
  w.findingKeys = [] ∨
    (w.content .findings = content ∧
      w.findingKeys = (loadedFindings J D content).map findingKey)

theorem keysLoaded_openFindings (hkeys : w.findingKeys = []) (i : OpenInput) :
    KeysLoaded J D (w.content .findings) (openFindings J D w i) := by
  have hloaded : KeysLoaded J D (w.content .findings)
        (streamExistingFindings J D w (i.ok .readFindings)) ∧
      (streamExistingFindings J D w (i.ok .readFindings)).dir = w.dir := by
    rw [streamExistingFindings]
    split
    · exact ⟨.inl hkeys, rfl⟩
    · rename_i content hcontent
      split
      · refine ⟨.inr ⟨rfl, ?_⟩, rfl⟩
        have hfile : w.content .findings = content := congrArg (Option.getD · []) hcontent
        rw [hfile, hkeys, List.append_nil]
      · exact ⟨.inl hkeys, rfl⟩
  obtain ⟨hloaded, -⟩ := hloaded
  rw [openFindings]
  split
  · rcases hloaded with hnil | ⟨hcontent, hmap⟩
    · exact .inl hnil
    · exact .inr ⟨(Disk.touch_getD _ _ _ _ _).trans hcontent, hmap⟩
  · exact hloaded

theorem keysLoaded_openArchives (hkeys : w.findingKeys = []) (i : OpenInput) :
    KeysLoaded J D (w.content .findings) (openArchives J D w i).2 := by
  have hsaves := saves_ensureEpoch J D w i
  have hloads := (loads_loadHistory J D (ensureEpoch J D w i) i).frame
  have hnone : (loadHistory J D (ensureEpoch J D w i) i).findingKeys = [] := by
    rw [hloads, hsaves.frame]
    exact hkeys
  have hfile : (loadHistory J D (ensureEpoch J D w i) i).content .findings =
      w.content .findings := by
    rw [hloads]
    exact hsaves.content nofun nofun nofun
  rw [openArchives]
  split
  · exact .inl hnone
  · have htouched : World.content { loadHistory J D (ensureEpoch J D w i) i with
        disk := (loadHistory J D (ensureEpoch J D w i) i).disk.touch
          (loadHistory J D (ensureEpoch J D w i) i).dir .history
        historyOpen := true } .findings = w.content .findings :=
      (Disk.touch_getD _ _ _ _ _).trans hfile
    rw [← htouched]
    apply keysLoaded_openFindings
    exact hnone

theorem openProject_findings (w : World) (i : OpenInput) :
    ((openProject J D w i).2.findingKeys = w.findingKeys ∧
        (openProject J D w i).2.content .findings = w.content .findings) ∨
      KeysLoaded J D ((w.disk i.dir .findings).getD []) (openProject J D w i).2 := by
  have hsaves := saves_saveWorkspaces J D { w with lastError := [] } i.tools
  rcases openProject_cases J D w i with ⟨error, heq⟩ | ⟨w', hsaved, heq⟩ |
    ⟨w', incoming, hsaved, heq⟩
  · rw [heq]
    exact .inl ⟨rfl, rfl⟩
  · rw [hsaved] at hsaves
    rw [heq]
    exact .inl ⟨hsaves.findingKeys, hsaves.content (n := .findings) nofun nofun nofun⟩
  · rw [hsaved] at hsaves
    rw [heq]
    refine .inr ?_
    have hfile : (enterDirectory w' i incoming).content .findings =
        (w.disk i.dir .findings).getD [] :=
      congrArg (Option.getD · []) (hsaves.archives i.dir .findings nofun nofun nofun)
    have hmeta := saves_ensureMetadata J D (enterDirectory w' i incoming) i
    rcases enterProject_cases J D w' i incoming with ⟨-, heq⟩ | ⟨m, hm, heq⟩ | ⟨m, hm, heq⟩
    · rw [heq]
      exact .inl rfl
    · rw [hm] at hmeta
      rw [heq]
      exact .inl hmeta.findingKeys
    · rw [hm] at hmeta
      have hkept : m.content .findings = (enterDirectory w' i incoming).content .findings :=
        hmeta.content (n := .findings) nofun nofun nofun
      rw [heq, ← hfile, ← hkept]
      exact keysLoaded_openArchives hmeta.findingKeys i

theorem KeysInFile.of_keysLoaded (hclean : CleanFindings J D content)
    (h : KeysLoaded J D content w) : KeysInFile J D w := by
  rcases h with hnil | ⟨rfl, hmap⟩
  · exact .of_nil hnil
  · exact .of_loaded hclean (fun key hkey => hmap ▸ hkey)

theorem keysInFile_restore (h : KeysInFile J D w) (hclean : CleanFindings J D (w.content .findings))
    (reads : Bool) : KeysInFile J D (streamExistingFindings J D w reads) := by
  rw [streamExistingFindings]
  split
  · exact h
  · rename_i content hcontent
    split
    · have hfile : w.content .findings = content := congrArg (Option.getD · []) hcontent
      intro key hkey
      rcases List.mem_append.1 hkey with hnew | hold
      · obtain ⟨g, hg, rfl⟩ := List.mem_map.1 hnew
        rw [hfile] at hclean
        exact ⟨g, hfile.symm ▸ hg, hclean g hg, rfl⟩
      · exact h key hold
    · exact h

theorem keysInFile_clear (h : KeysInFile J D w) (i : ClearInput) (hroll : i.RollsBack)
    (hfresh : i.Fresh w) : KeysInFile J D (clearHistory J D w i).2 := by
  cases hresult : (clearHistory J D w i).1 with
  | true => exact .of_nil (clearHistory_cleared hfresh hresult).findingKeys
  | false =>
    have hrestored := clearHistory_restored hroll hfresh hresult
    refine h.of_same hrestored.findingKeys ?_
    rw [World.content, World.content, hrestored.dir]
    exact hrestored.findings.content

theorem keysInFile_step (U : UrlLibrary) (a : Action J) (h : KeysInFile J D w)
    (ha : KeepsFindings J D w a) : KeysInFile J D (step D U w a) := by
  cases a with
  | respond req resp outcome inserts =>
    exact h.historyOnly (historyOnly_respond w req resp outcome inserts)
  | importHar env harJson => exact h.historyOnly (historyOnly_importHar env w harJson)
  | clear i => exact keysInFile_clear h i ha.1 ha.2
  | openDir i =>
    rcases openProject_findings (J := J) (D := D) w i with ⟨hkeys, hcontent⟩ | hloaded
    · exact h.of_same hkeys hcontent
    · exact .of_keysLoaded ha hloaded
  | close => exact .of_nil rfl
  | finding f outcome => exact h.appendFinding f outcome ha
  | restoreFindings reads => exact keysInFile_restore h ha reads
  | setMeta change now commits => exact h.saves (saves_setMetadata J D w change now commits)
  | annotate id patch now commits =>
    exact h.saves (saves_annotateHistory J D w id patch now commits)
  | saveTools tools => exact h.saves (saves_saveWorkspaces J D w tools)

end Findings

/-- In such a run whatever counts as persisted is in the file, in every state. -/
theorem findings_kept (J : JsonLibrary) (D : DateTimes) (U : UrlLibrary) (w : World)
    (actions : List (Action J)) (hnew : w.findingKeys = [])
    (h : Along (step D U) (KeepsFindings J D) w actions) :
    Throughout (step D U) (FindingsKept J D) w actions :=
  throughout_of_along (fun _ a hi ha => keysInFile_step U a hi ha) (fun _ hi => hi.kept)
    (.of_nil hnew) h

def newStore : World where
  disk := fun _ _ => none
  tables := fun _ _ => none

def shopOpen : OpenInput where
  dir := utf16 "/projects/shop"
  ok _ := true
  tools := { intruder := [], sequencer := [], repeater := [], cookies := [] }
  epoch := utf16 "0b2d"

def missingHeader : ScanFinding JsonText.textLibrary where
  kind := utf16 "missing-hsts"
  host := utf16 "shop.test"
  id_int := by decide
  rowId_int := by decide
  cvss_double := (rfl : (0 : Rat).den = 1)

theorem header_finding_kept :
    FindingsKept JsonText.textLibrary epochDates
      ([.openDir shopOpen, .finding missingHeader .done].foldl (step epochDates httpUrls)
        newStore) := by
  have hopened : (step epochDates httpUrls newStore
      (.openDir shopOpen : Action JsonText.textLibrary)).content .findings = [] := by decide
  refine findings_kept JsonText.textLibrary epochDates httpUrls newStore _ rfl ?_ _
    (List.prefix_refl _)
  refine ⟨fun g hg => absurd hg List.not_mem_nil, ⟨fun _ _ => ⟨rfl, ?_, by decide⟩, trivial⟩⟩
  rw [hopened]
  exact closed_nil

/-- A finding whose line was lost counts as kept and is never written. -/
theorem lost_finding :
    ¬ Throughout (step epochDates httpUrls) (FindingsKept JsonText.textLibrary epochDates) newStore
      [.openDir shopOpen, .finding missingHeader (.fails 0)] := by
  intro h
  have hlast := h _ (List.prefix_refl _)
  have hkey : findingKey missingHeader.toFinding ∈
      ([.openDir shopOpen, .finding missingHeader (.fails 0)].foldl (step epochDates httpUrls)
        newStore).findingKeys := by decide
  have hfile : ([.openDir shopOpen, .finding missingHeader (.fails 0)].foldl
      (step epochDates httpUrls) newStore).content .findings = [] := by decide
  obtain ⟨g, hg, -⟩ := hlast missingHeader.toFinding hkey
  rw [hfile] at hg
  exact absurd hg List.not_mem_nil

end Nullock.ProjectStore

import Nullock.ProjectOpening

namespace Nullock.ProjectStore
open QJsonObject Proxy HttpLogic FrontEnd

/-- What the history holds of a transaction: neither the transport nor the time. -/
def recorded (row : HistoryRequest × HistoryResponse) : HistoryRequest × HistoryResponse :=
  ({ row.1 with tls := false, timestamp := none }, row.2)

section Rows
variable (J : JsonLibrary) (D : DateTimes)

structure RowsCounted (w : World) : Prop where
  assigned : w.numbered.map (·.1) = List.range' 1 w.numbered.length
  next : w.nextRowId = w.numbered.length + 1
  shown_next : w.model.nextId = w.nextRowId
  shown : ∃ evicted ≤ w.numbered.length, w.model.firstId = evicted + 1 ∧
    w.model.entries = w.numbered.drop evicted
  indexed : w.indexOpen = true → ∀ id row, w.tables w.dir id = some row →
    ∃ req resp, (id, req, resp) ∈ w.numbered ∧ row = HistoryIndex.rowOf J D req resp

structure RowsAgree (w : World) : Prop extends RowsCounted J D w where
  loaded : loadedEntries J (w.content .history) = w.numbered.map (fun row => recorded row.2)
  exported : exportRecords J (w.content .history) =
    recordsOf J (streamLines (w.content .history))

def AgreeWhenOpen (w : World) : Prop := w.isOpen = true → RowsAgree J D w

variable {J D} {w w' : World}

theorem RowsCounted.push (h : RowsCounted J D w)
    (hnumbered : w'.numbered = w.numbered ++ [(w.nextRowId, req, resp)])
    (hnext : w'.nextRowId = w.nextRowId + 1) (hmodel : w'.model = w.model.addResponse req resp)
    (hindex : w'.indexOpen = true → w.indexOpen = true)
    (htables : ∀ id row, w'.tables w'.dir id = some row →
      (id = w.nextRowId ∧ row = HistoryIndex.rowOf J D req resp) ∨
        w.tables w.dir id = some row) : RowsCounted J D w' := by
  have hlength : w'.numbered.length = w.numbered.length + 1 := by
    rw [hnumbered, List.length_append]
    rfl
  constructor
  · rw [hlength, hnumbered, List.map_append, h.assigned, List.range'_1_concat, h.next,
      Nat.add_comm 1]
    rfl
  · rw [hnext, h.next, hlength]
  · rw [hmodel, hnext, ← h.shown_next]
    rfl
  · obtain ⟨k, hk, hfirst, hentries⟩ := h.shown
    have hshown : w.model.entries ++ [(w.model.nextId, req, resp)] = w'.numbered.drop k := by
      rw [hentries, hnumbered, List.drop_append_of_le_length hk, h.shown_next]
    rw [hmodel]
    refine ⟨k + ((w'.numbered.drop k).length - w.model.maxRows), ?_, ?_, ?_⟩
    · rw [List.length_drop]
      omega
    · show w.model.firstId + ((w.model.entries ++ [(w.model.nextId, req, resp)]).length -
        w.model.maxRows) = _
      rw [hshown, hfirst]
      omega
    · show (w.model.entries ++ [(w.model.nextId, req, resp)]).drop
        ((w.model.entries ++ [(w.model.nextId, req, resp)]).length - w.model.maxRows) = _
      rw [hshown, List.drop_drop]
  · intro hopen id row hrow
    rw [hnumbered]
    rcases htables id row hrow with ⟨rfl, rfl⟩ | hold
    · exact ⟨req, resp, List.mem_append_right _ (List.mem_singleton.2 rfl), rfl⟩
    · obtain ⟨req', resp', hmem, hrow'⟩ := h.indexed (hindex hopen) id row hold
      exact ⟨req', resp', List.mem_append_left _ hmem, hrow'⟩

theorem indexAppend_row (w : World) (id : Nat) (req : HistoryRequest) (resp : HistoryResponse)
    (inserts : Bool) (h : (w.indexAppend J D id req resp inserts).tables w.dir n = some row) :
    (n = id ∧ row = HistoryIndex.rowOf J D req resp) ∨ w.tables w.dir n = some row := by
  have hrow : (if (w.indexOpen && inserts) = true ∧ w.dir = w.dir ∧ n = id then
      some (HistoryIndex.rowOf J D req resp) else w.tables w.dir n) = some row := h
  split at hrow
  · rename_i hn
    exact .inl ⟨hn.2.2, (Option.some.inj hrow).symm⟩
  · exact .inr hrow

theorem RowsAgree.append (h : RowsAgree J D w) (happended : Appended J D w w' t inserts)
    (hclosed : Closed 0x0A (w.content .history))
    (hnote : (QJsonValue.object t.note).Stored J.Exact (kNestingLimit - 1)) :
    RowsAgree J D { w' with model := w'.model.addResponse t.req t.resp } := by
  have hcontent : World.content { w' with model := w'.model.addResponse t.req t.resp } .history =
      w.content .history ++ (entryLine J D t.req t.resp t.note ++ [0x0A]) := happended.history
  refine ⟨?_, ?_, ?_⟩
  · refine h.toRowsCounted.push happended.numbered happended.nextRowId ?_ ?_ ?_
    · show w'.model.addResponse t.req t.resp = _
      rw [happended.model]
    · intro hopen
      rw [happended.frame] at hopen
      exact hopen
    · intro id row hrow
      apply indexAppend_row w w.nextRowId t.req t.resp inserts
      rw [happended.frame] at hrow
      exact hrow
  · show loadedEntries J _ = w'.numbered.map _
    rw [hcontent, loadedEntries_append J D t.req t.resp hnote hclosed, h.loaded,
      happended.numbered, List.map_append]
    rfl
  · show exportRecords J _ = recordsOf J (streamLines _)
    rw [hcontent, entryLine,
      exportRecords_append_line J (stored_entry D t.req t.resp hnote) hclosed,
      recordsOf_append_line J (stored_entry D t.req t.resp hnote) hclosed, h.exported]

structure SameRows (w w' : World) : Prop where
  history : w'.content .history = w.content .history
  numbered : w'.numbered = w.numbered
  nextRowId : w'.nextRowId = w.nextRowId
  model : w'.model = w.model
  indexed : w'.indexOpen = true →
    w.indexOpen = true ∧ ∀ id row, w'.tables w'.dir id = some row → w.tables w.dir id = some row

theorem RowsAgree.of_same (h : RowsAgree J D w) (hs : SameRows w w') : RowsAgree J D w' := by
  obtain ⟨⟨hassigned, hnext, hshownNext, hshown, hindexed⟩, hloaded, hexported⟩ := h
  refine ⟨⟨?_, ?_, ?_, ?_, ?_⟩, ?_, ?_⟩
  · rw [hs.numbered]
    exact hassigned
  · rw [hs.nextRowId, hs.numbered]
    exact hnext
  · rw [hs.model, hs.nextRowId]
    exact hshownNext
  · rw [hs.model, hs.numbered]
    exact hshown
  · intro hopen id row hrow
    obtain ⟨hindex, hrows⟩ := hs.indexed hopen
    rw [hs.numbered]
    exact hindexed hindex id row (hrows id row hrow)
  · rw [hs.history, hs.numbered]
    exact hloaded
  · rw [hs.history]
    exact hexported

theorem Saves.sameRows (h : Saves w w') : SameRows w w' := by
  have hcontent : w'.content .history = w.content .history :=
    h.content (n := .history) nofun nofun nofun
  refine ⟨hcontent, ?_, ?_, ?_, ?_⟩
  · rw [h.frame]
  · rw [h.frame]
  · rw [h.frame]
  · intro hopen
    rw [h.frame] at hopen
    refine ⟨hopen, ?_⟩
    intro id row hrow
    rw [h.frame] at hrow
    exact hrow

theorem Restored.sameRows (h : Restored w w') : SameRows w w' := by
  refine ⟨?_, h.numbered, h.nextRowId, h.model, ?_⟩
  · rw [World.content, World.content, h.dir, h.history.content]
  · intro hopen
    rw [h.indexOpen] at hopen
    refine ⟨hopen, ?_⟩
    intro id row hrow
    rw [h.tables, h.dir] at hrow
    exact hrow

theorem RowsCounted.of_empty (hnumbered : w.numbered = []) (hnext : w.nextRowId = 1)
    (hmodel : w.model = ProxyModel.clear m)
    (hrows : w.indexOpen = true → ∀ id, w.tables w.dir id = none) : RowsCounted J D w := by
  constructor
  · rw [hnumbered]
    rfl
  · rw [hnumbered]
    exact hnext
  · rw [hmodel, hnext]
    rfl
  · rw [hmodel, hnumbered]
    exact ⟨0, Nat.le_refl 0, rfl, rfl⟩
  · intro hopen id row hrow
    rw [hrows hopen id] at hrow
    cases hrow

theorem RowsAgree.cleared (h : Cleared J D i w w') : RowsAgree J D w' := by
  have hhistory : w'.content .history = [] := by
    rw [World.content, h.dir, h.history]
    rfl
  refine ⟨.of_empty h.numbered h.nextRowId h.model ?_, ?_, ?_⟩
  · intro hopen
    rw [h.indexOpen] at hopen
    rw [h.dir]
    exact h.rows hopen
  · rw [hhistory, h.numbered]
    rfl
  · rw [hhistory]
    rfl

theorem RowsCounted.loadRecord (h : RowsCounted J D w) (inserts : Nat → Bool) (o : QJsonObject) :
    RowsCounted J D (loadRecord J D inserts w o) := by
  have htables : ∀ id row,
      (ProjectStore.loadRecord J D inserts w o).tables w.dir id = some row →
        (id = w.nextRowId ∧ row = HistoryIndex.rowOf J D
          (requestFromJson (o.value "request").toObject)
          (responseFromJson (o.value "response").toObject)) ∨ w.tables w.dir id = some row := by
    intro id row hrow
    apply indexAppend_row w w.nextRowId _ _ (inserts w.nextRowId)
    rw [ProjectStore.loadRecord] at hrow
    split at hrow
    · exact hrow
    · exact hrow
  obtain ⟨archived, tables, heq⟩ := loadRecord_eq J D inserts w o
  rw [heq] at htables ⊢
  exact h.push rfl rfl rfl id htables

theorem loadRecords_counted (h : RowsCounted J D w) (inserts : Nat → Bool)
    (records : List QJsonObject) :
    RowsCounted J D (records.foldl (ProjectStore.loadRecord J D inserts) w) ∧
      (records.foldl (ProjectStore.loadRecord J D inserts) w).numbered.map (·.2) =
        w.numbered.map (·.2) ++ records.map (fun o =>
          (requestFromJson (o.value "request").toObject,
            responseFromJson (o.value "response").toObject)) := by
  induction records generalizing w with
  | nil => exact ⟨h, (List.append_nil _).symm⟩
  | cons o records ih =>
    obtain ⟨hcounted, hnumbered⟩ := ih (h.loadRecord inserts o)
    refine ⟨hcounted, ?_⟩
    obtain ⟨archived, tables, heq⟩ := loadRecord_eq J D inserts w o
    rw [List.foldl_cons, hnumbered, heq, List.map_append, List.append_assoc]
    rfl

theorem RowsCounted.stream (h : RowsCounted J D w) (hnone : w.numbered = [])
    (inserts : Nat → Bool) (hreads : reads = true ∨ w.disk w.dir .history = none) :
    RowsCounted J D (streamExistingHistory J D w reads inserts) ∧
      loadedEntries J (w.content .history) =
        (streamExistingHistory J D w reads inserts).numbered.map (fun row => recorded row.2) := by
  rw [streamExistingHistory]
  cases hfile : w.disk w.dir .history with
  | none =>
    have hcontent : w.content .history = [] := congrArg (Option.getD · []) hfile
    rw [hcontent, hnone]
    exact ⟨h, rfl⟩
  | some content =>
    have hcontent : w.content .history = content := congrArg (Option.getD · []) hfile
    rcases hreads with rfl | hnone'
    · obtain ⟨hcounted, hnumbered⟩ :=
        loadRecords_counted h inserts (recordsOf J (streamLines content))
      rw [hnone, List.map_nil, List.nil_append] at hnumbered
      refine ⟨hcounted, ?_⟩
      have hrecorded : ∀ rows : List (Nat × HistoryRequest × HistoryResponse),
          rows.map (fun row => recorded row.2) = (rows.map (·.2)).map recorded := by
        intro rows
        rw [List.map_map]
        rfl
      rw [hcontent, hrecorded]
      dsimp only
      rw [if_pos rfl, hnumbered, List.map_map, loadedEntries]
      rfl
    · rw [hfile] at hnone'
      cases hnone'

/-- Store and export read the file alike, and the index can be emptied. -/
structure ReadsWhole (J : JsonLibrary) (w : World) (i : OpenInput) : Prop where
  reads : i.ok .readHistory = true ∨ w.disk i.dir .history = none
  empties : i.ok .openIndex = true → i.ok .deleteRows = true
  alike : ∀ content, w.disk i.dir .history = some content →
    exportRecords J content = recordsOf J (streamLines content)

theorem counted_rebuilt (hmodel : w.model = ProxyModel.clear m) (i : OpenInput)
    (hempties : i.ok .openIndex = true → i.ok .deleteRows = true) :
    RowsCounted J D
      { rebuildIndex w i with nextRowId := 1, archiveAnnotations := [], numbered := [] } := by
  rw [rebuildIndex]
  cases hindex : i.ok .openIndex with
  | true =>
    rw [hempties hindex]
    refine .of_empty rfl rfl hmodel ?_
    intro _ id
    exact if_pos rfl
  | false =>
    refine .of_empty rfl rfl hmodel ?_
    intro hopen
    exact absurd hopen Bool.false_ne_true

theorem content_loadHistory (w : World) (i : OpenInput) :
    (loadHistory J D w i).content .history = w.content .history := by
  rw [(loads_loadHistory J D w i).frame]
  rfl

theorem agree_loadHistory (hmodel : w.model = ProxyModel.clear m) (i : OpenInput)
    (hempties : i.ok .openIndex = true → i.ok .deleteRows = true)
    (hreads : i.ok .readHistory = true ∨ w.disk w.dir .history = none)
    (halike : exportRecords J (w.content .history) =
      recordsOf J (streamLines (w.content .history))) :
    RowsAgree J D (loadHistory J D w i) := by
  have hrebuilt := counted_rebuilt (J := J) (D := D) hmodel i hempties
  have hdisk : (rebuildIndex w i).disk = w.disk ∧ (rebuildIndex w i).dir = w.dir := by
    rw [rebuildIndex]
    split
    · exact ⟨rfl, rfl⟩
    · exact ⟨rfl, rfl⟩
  have hfile : (rebuildIndex w i).disk (rebuildIndex w i).dir .history = w.disk w.dir .history := by
    rw [hdisk.1, hdisk.2]
  obtain ⟨hcounted, hloaded⟩ := hrebuilt.stream rfl i.inserts
    (hreads.imp_right (fun hnone => hfile.trans hnone))
  have hcontent : World.content
      { rebuildIndex w i with nextRowId := 1, archiveAnnotations := [], numbered := [] } .history =
        w.content .history := congrArg (Option.getD · []) hfile
  rw [hcontent] at hloaded
  refine ⟨hcounted, ?_, ?_⟩
  · rw [content_loadHistory]
    exact hloaded
  · rw [content_loadHistory]
    exact halike

theorem SameRows.refl (w : World) : SameRows w w :=
  ⟨rfl, rfl, rfl, rfl, fun hopen => ⟨hopen, fun _ _ hrow => hrow⟩⟩

theorem SameRows.trans {w'' : World} (h : SameRows w w') (h' : SameRows w' w'') :
    SameRows w w'' := by
  refine ⟨h'.history.trans h.history, h'.numbered.trans h.numbered,
    h'.nextRowId.trans h.nextRowId, h'.model.trans h.model, ?_⟩
  intro hopen
  obtain ⟨hindex', hrows'⟩ := h'.indexed hopen
  obtain ⟨hindex, hrows⟩ := h.indexed hindex'
  exact ⟨hindex, fun id row hrow => hrows id row (hrows' id row hrow)⟩

theorem SameRows.touched (w : World) :
    SameRows w { w with disk := w.disk.touch w.dir .history, historyOpen := true } :=
  ⟨Disk.touch_getD _ _ _ _ _, rfl, rfl, rfl, fun hopen => ⟨hopen, fun _ _ hrow => hrow⟩⟩

theorem sameRows_findings (w : World) (reads : Bool) :
    SameRows w (streamExistingFindings J D w reads) := by
  rw [streamExistingFindings]
  split
  · exact .refl w
  split
  · exact ⟨rfl, rfl, rfl, rfl, fun hopen => ⟨hopen, fun _ _ hrow => hrow⟩⟩
  · exact .refl w

theorem sameRows_openFindings (w : World) (i : OpenInput) :
    SameRows w (openFindings J D w i) := by
  have hstream := sameRows_findings (J := J) (D := D) w (i.ok .readFindings)
  rw [openFindings]
  split
  · refine hstream.trans ⟨?_, rfl, rfl, rfl, fun hopen => ⟨hopen, fun _ _ hrow => hrow⟩⟩
    exact Disk.touch_getD _ _ _ _ _
  · exact hstream

theorem sameRows_openArchives (w : World) (i : OpenInput) :
    SameRows (loadHistory J D (ensureEpoch J D w i) i) (openArchives J D w i).2 := by
  rw [openArchives]
  split
  · exact .refl _
  · exact SameRows.trans (.touched _) (sameRows_openFindings _ i)

theorem agree_openArchives (hmodel : w.model = ProxyModel.clear m) (i : OpenInput)
    (hempties : i.ok .openIndex = true → i.ok .deleteRows = true)
    (hreads : i.ok .readHistory = true ∨ w.disk w.dir .history = none)
    (halike : exportRecords J (w.content .history) =
      recordsOf J (streamLines (w.content .history))) :
    RowsAgree J D (openArchives J D w i).2 := by
  have hsaves := saves_ensureEpoch J D w i
  have hcontent : (ensureEpoch J D w i).content .history = w.content .history :=
    hsaves.content (n := .history) nofun nofun nofun
  have hfile : (ensureEpoch J D w i).disk (ensureEpoch J D w i).dir .history =
      w.disk w.dir .history := by
    rw [hsaves.dir, hsaves.archives w.dir .history nofun nofun nofun]
  have hmodel' : (ensureEpoch J D w i).model = ProxyModel.clear m := by
    rw [hsaves.frame]
    exact hmodel
  apply RowsAgree.of_same ?_ (sameRows_openArchives w i)
  apply agree_loadHistory hmodel' i hempties
  · rw [hfile]
    exact hreads
  · rw [hcontent]
    exact halike

/-- Transactions are written whole, directories read whole, and no rollback fails. -/
def KeepsRowIds (J : JsonLibrary) (w : World) : Action J → Prop
  | .respond _ _ outcome _ =>
    w.isOpen = true → outcome = .done ∧ Closed 0x0A (w.content .history)
  | .importHar env harJson =>
    w.isOpen = true → (∀ n, env.outcome n = .done) ∧ Closed 0x0A (w.content .history) ∧
      ∀ entries, acceptedEntries J w.historyAnnotations w.nextRowId harJson = some entries →
        ∀ entry ∈ entries, Sorted ( harAnnotation entry)
  | .clear i => i.RollsBack ∧ i.Fresh w
  | .openDir i => ReadsWhole J w i
  | _ => True

theorem shown_appended (h : w.isOpen = true) (req : HistoryRequest) (resp : HistoryResponse)
    (inserts : Bool) :
    appendEntry J D { w with model := w.model.addResponse req resp } req resp .done inserts =
      { (appendAnnotatedEntry J D w req resp [] .done inserts).2 with
        model := (appendAnnotatedEntry J D w req resp [] .done inserts).2.model.addResponse
          req resp } := by
  have hopen : World.isOpen { w with model := w.model.addResponse req resp } = true := h
  rw [appendEntry, appendAnnotatedEntry, appendAnnotatedEntry, hopen, h]
  rfl

theorem entered_fresh (h : entered (J := J) D w i = some m) :
    m.model = ProxyModel.clear w.model ∧ m.disk m.dir .history = w.disk i.dir .history := by
  rw [entered] at h
  split at h
  · cases h
  split at h
  · cases h
  · have hsaves := saves_saveWorkspaces J D { w with lastError := [] } i.tools
    dsimp only at h
    split at h
    · cases h
      refine ⟨?_, hsaves.archives i.dir .history (fun h => by cases h) (fun h => by cases h)
        (fun h => by cases h)⟩
      show ProxyModel.clear (saveWorkspaces J D { w with lastError := [] } i.tools).2.model = _
      rw [hsaves.frame]
    · cases h

theorem agree_importEntries (U : UrlLibrary) (env : ImportEnv) (h : RowsAgree J D w)
    (hopen : w.isOpen = true) (hdone : ∀ n, env.outcome n = .done)
    (hclosed : Closed 0x0A (w.content .history))
    (hnotes : ∀ entry ∈ entries,
      (QJsonValue.object ( harAnnotation entry)).Stored J.Exact (kNestingLimit - 1))
    (imported : Nat) : RowsAgree J D (importEntries J D U env w imported entries).2 := by
  induction entries generalizing w imported with
  | nil => exact h
  | cons entry rest ih =>
    obtain ⟨w', happended, heq⟩ := importEntries_cons_done (J := J) (D := D) (U := U) hopen
      (hdone imported) entry rest
    rw [heq]
    apply ih
    · exact h.append happended hclosed (hnotes entry List.mem_cons_self)
    · exact happended.isOpen.trans hopen
    · show Closed 0x0A (w'.content .history)
      rw [happended.history]
      exact (closed_line _).append hclosed
    · exact fun e he => hnotes e (List.mem_cons_of_mem _ he)

theorem agree_openProject (h : AgreeWhenOpen J D w) (i : OpenInput) (hi : ReadsWhole J w i) :
    AgreeWhenOpen J D (openProject J D w i).2 := by
  have hopening := openProject_opening (J := J) (D := D) w i
  rcases hreached : entered (J := J) D w i with _ | m
  · rw [hreached] at hopening
    generalize openProject J D w i = result at hopening ⊢
    cases hopening with
    | refused error =>
      exact fun hopen => (h hopen).of_same
        ⟨rfl, rfl, rfl, rfl, fun hindex => ⟨hindex, fun _ _ hrow => hrow⟩⟩
    | unsaved w' hsave =>
      have hsaves := saves_saveWorkspaces J D { w with lastError := [] } i.tools
      rw [hsave] at hsaves
      have hwhole : Saves w w' := (Saves.memory w w.projectMeta []).trans hsaves
      intro hopen
      rw [hwhole.isOpen] at hopen
      exact (h hopen).of_same hwhole.sameRows
    | unmade w' hclosed => exact fun hopen => absurd (hclosed.symm.trans hopen) Bool.false_ne_true
  · obtain ⟨hmodel, hfile⟩ := entered_fresh hreached
    rw [hreached] at hopening
    generalize openProject J D w i = result at hopening ⊢
    cases hopening with
    | unread _ m' hclosed hmeta =>
      have hsaves := saves_ensureMetadata J D m i
      rw [hmeta] at hsaves
      intro hopen
      exact absurd ((hsaves.isOpen.trans hclosed).symm.trans hopen) Bool.false_ne_true
    | stands _ m' hclosed hmeta =>
      have hsaves := saves_ensureMetadata J D m i
      rw [hmeta] at hsaves
      have hkept : m'.disk m'.dir .history = w.disk i.dir .history := by
        rw [hsaves.dir, hsaves.archives m.dir .history nofun nofun nofun, hfile]
      have hcleared : m'.model = ProxyModel.clear w.model :=
        (congrArg World.model hsaves.frame).trans hmodel
      intro _
      apply agree_openArchives hcleared i hi.empties
      · rw [hkept]
        exact hi.reads
      · rw [World.content, hkept]
        cases hcontent : w.disk i.dir .history with
        | none => rfl
        | some content => exact hi.alike content hcontent

theorem accepted_valid (h : acceptedEntries J notes n harJson = some entries) :
    ∀ entry ∈ entries, annotationError ( harAnnotation entry) = [] := by
  rw [acceptedEntries] at h
  split at h
  · dsimp only at h
    split at h
    · rename_i hvalid
      cases h
      intro entry hentry
      have hentry' := List.all_eq_true.1 hvalid.1 entry hentry
      rw [entryValid, Bool.and_eq_true, Bool.and_eq_true, Bool.and_eq_true] at hentry'
      exact List.isEmpty_iff.1 hentry'.1.1.2
    · cases h
  · cases h

theorem agree_step (U : UrlLibrary) (a : Action J) (h : AgreeWhenOpen J D w)
    (ha : KeepsRowIds J w a) : AgreeWhenOpen J D (step D U w a) := by
  have hsaves {w' : World} (hw : Saves w w') : AgreeWhenOpen J D w' := by
    intro hopen
    rw [hw.isOpen] at hopen
    exact (h hopen).of_same hw.sameRows
  cases a with
  | respond req resp outcome inserts =>
    intro hopen
    have hbefore : w.isOpen = true := by
      rw [step, (historyOnly_respond w req resp outcome inserts).frame] at hopen
      exact hopen
    obtain ⟨rfl, hclosed⟩ := ha hbefore
    rw [step, shown_appended hbefore]
    obtain ⟨_, happended⟩ := appendAnnotatedEntry_done J D hbefore ⟨req, resp, []⟩ inserts
    exact (h hbefore).append happended hclosed ( stored_no_annotation J)
  | importHar env harJson =>
    intro hopen
    have hbefore : w.isOpen = true := by
      rw [step, (historyOnly_importHar env w harJson).frame] at hopen
      exact hopen
    obtain ⟨hdone, hclosed, hsorted⟩ := ha hbefore
    rw [step, importHarBytes]
    cases haccepted : acceptedEntries J w.historyAnnotations w.nextRowId harJson with
    | none => exact h hbefore
    | some entries =>
      apply agree_importEntries U env (h hbefore) hbefore hdone hclosed
      intro entry hentry
      apply stored_note J (hsorted entries haccepted entry hentry)
      exact accepted_valid haccepted entry hentry
  | clear i =>
    intro hopen
    cases hresult : (clearHistory J D w i).1 with
    | true => exact .cleared (clearHistory_cleared ha.2 hresult)
    | false =>
      have hrestored := clearHistory_restored ha.1 ha.2 hresult
      have hbefore : w.isOpen = true := hrestored.opened.symm.trans hopen
      exact (h hbefore).of_same hrestored.sameRows
  | openDir i => exact agree_openProject h i ha
  | close => exact fun hopen => absurd hopen Bool.false_ne_true
  | finding f outcome =>
    have hframe : ∃ keys, appendFinding J D w f.toFinding outcome = { w with
        disk := (appendFinding J D w f.toFinding outcome).disk
        findingKeys := keys } ∧ (appendFinding J D w f.toFinding outcome).content .history =
          w.content .history := by
      rw [appendFinding]
      split
      · exact ⟨_, rfl, rfl⟩
      split
      · exact ⟨_, rfl, rfl⟩
      · cases outcome with
        | done => exact ⟨_, rfl, World.content_setFile_other _ _ (fun h => by cases h)⟩
        | fails kept => exact ⟨_, rfl, World.content_setFile_other _ _ (fun h => by cases h)⟩
    obtain ⟨keys, heq, hcontent⟩ := hframe
    have hsame : SameRows w (appendFinding J D w f.toFinding outcome) := by
      refine ⟨hcontent, ?_, ?_, ?_, ?_⟩
      · rw [heq]
      · rw [heq]
      · rw [heq]
      · intro hindex
        rw [heq] at hindex
        refine ⟨hindex, ?_⟩
        intro id row hrow
        rw [heq] at hrow
        exact hrow
    intro hopen
    have hbefore : w.isOpen = true := by
      rw [step, heq] at hopen
      exact hopen
    exact (h hbefore).of_same hsame
  | restoreFindings reads =>
    intro hopen
    have hbefore : w.isOpen = true := by
      rw [step, streamExistingFindings] at hopen
      split at hopen
      · exact hopen
      split at hopen
      · exact hopen
      · exact hopen
    exact (h hbefore).of_same (sameRows_findings w reads)
  | setMeta change now commits => exact hsaves (saves_setMetadata J D w change now commits)
  | annotate id patch now commits => exact hsaves (saves_annotateHistory J D w id patch now commits)
  | saveTools tools => exact hsaves (saves_saveWorkspaces J D w tools)

structure SameNumber (J : JsonLibrary) (D : DateTimes) (w : World) (id : Nat)
    (row : HistoryRequest × HistoryResponse) : Prop where
  shown : w.model.rowById id = if id < w.model.firstId then none else some row
  loaded : (loadedEntries J (w.content .history))[id - 1]? = some (recorded row)
  exported : ((exportRecords J (w.content .history))[id - 1]?).map (fun o =>
    (requestFromJson (o.value "request").toObject,
      responseFromJson (o.value "response").toObject)) = some (recorded row)
  indexed : w.indexOpen = true → ∀ r, w.tables w.dir id = some r →
    r = HistoryIndex.rowOf J D row.1 row.2

def NumbersAgree (J : JsonLibrary) (D : DateTimes) (w : World) : Prop :=
  w.isOpen = true → (∀ r ∈ w.numbered, SameNumber J D w r.1 r.2) ∧
    w.model.nextId = w.nextRowId ∧
      (loadedEntries J (w.content .history)).length + 1 = w.nextRowId

theorem RowsCounted.position (h : RowsCounted J D w) (hr : r ∈ w.numbered) :
    ∃ k, r.1 = k + 1 ∧ w.numbered[k]? = some r := by
  obtain ⟨k, hk⟩ := List.mem_iff_getElem?.1 hr
  refine ⟨k, ?_, hk⟩
  have hlt : k < w.numbered.length := (List.getElem?_eq_some_iff.1 hk).1
  have hid : (w.numbered.map (·.1))[k]? = some r.1 := by
    rw [List.getElem?_map, hk]
    rfl
  rw [h.assigned, List.getElem?_range' hlt] at hid
  have hsum : 1 + 1 * k = r.1 := Option.some.inj hid
  omega

theorem RowsAgree.sameNumber (h : RowsAgree J D w) (hr : r ∈ w.numbered) :
    SameNumber J D w r.1 r.2 := by
  obtain ⟨k, hid, hk⟩ := h.position hr
  have hloaded : (loadedEntries J (w.content .history))[r.1 - 1]? = some (recorded r.2) := by
    rw [h.loaded, hid, Nat.add_sub_cancel, List.getElem?_map, hk]
    rfl
  constructor
  · obtain ⟨e, he, hfirst, hentries⟩ := h.shown
    rw [ProxyModel.rowById]
    split
    · rfl
    · rename_i hshown
      rw [hfirst, hid] at hshown ⊢
      have hsum : e + (k + 1 - (e + 1)) = k := by omega
      rw [hentries, List.getElem?_drop, hsum, hk]
      rfl
  · exact hloaded
  · rw [h.exported, ← List.getElem?_map]
    exact hloaded
  · intro hindex row hrow
    obtain ⟨req, resp, hmem, rfl⟩ := h.indexed hindex r.1 row hrow
    obtain ⟨k', hid', hk'⟩ := h.position hmem
    have hsame : k' = k := by
      rw [hid] at hid'
      exact (Nat.succ.inj hid').symm
    rw [hsame, hk] at hk'
    rw [Option.some.inj hk']

theorem AgreeWhenOpen.numbers (h : AgreeWhenOpen J D w) : NumbersAgree J D w := by
  intro hopen
  have hagree := h hopen
  refine ⟨fun r hr => hagree.sameNumber hr, hagree.shown_next, ?_⟩
  rw [hagree.loaded, List.length_map, hagree.next]

end Rows

theorem numbers_agree (J : JsonLibrary) (D : DateTimes) (U : UrlLibrary) (w : World)
    (hclosed : w.isOpen = false) (actions : List (Action J))
    (h : Along (step D U) (KeepsRowIds J) w actions) :
    Throughout (step D U) (NumbersAgree J D) w actions :=
  throughout_of_along (fun _ a hi ha => agree_step U a hi ha) (fun _ hi => hi.numbers)
    (fun hopen => absurd (hclosed.symm.trans hopen) Bool.false_ne_true) h

def oneCapture (outcome : WriteOutcome) : List (Action JsonText.textLibrary) :=
  [.openDir shopOpen, .respond tlsRequest okResponse outcome true]

theorem capture_numbered :
    NumbersAgree JsonText.textLibrary epochDates
      ((oneCapture .done).foldl (step epochDates httpUrls) newStore) := by
  have hopened : (step epochDates httpUrls newStore
      (.openDir shopOpen : Action JsonText.textLibrary)).content .history = [] := by decide
  refine numbers_agree JsonText.textLibrary epochDates httpUrls newStore rfl _ ?_ _
    (List.prefix_refl _)
  refine ⟨⟨.inr rfl, fun _ => rfl, fun content hcontent => by cases hcontent⟩, ?_, trivial⟩
  intro _
  rw [hopened]
  exact ⟨rfl, closed_nil⟩

/-- A capture not written is shown all the same, and the next has two numbers. -/
theorem unwritten_capture :
    ¬ Throughout (step epochDates httpUrls) (NumbersAgree JsonText.textLibrary epochDates) newStore
      (oneCapture (.fails 0)) := by
  intro h
  have hopen : ((oneCapture (.fails 0)).foldl (step epochDates httpUrls)
      newStore).isOpen = true := by decide
  have hshown : ((oneCapture (.fails 0)).foldl (step epochDates httpUrls)
      newStore).model.nextId = 2 := by decide
  have hnumbered : ((oneCapture (.fails 0)).foldl (step epochDates httpUrls)
      newStore).nextRowId = 1 := by decide
  obtain ⟨_, hnext, _⟩ := h _ (List.prefix_refl _) hopen
  rw [hshown, hnumbered] at hnext
  exact absurd hnext (by decide)

end Nullock.ProjectStore

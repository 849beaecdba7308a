import Nullock.HarRoundTrip
import Nullock.ProjectStore

namespace Nullock.ProjectStore
open QJsonObject Proxy HttpLogic FrontEnd
open SessionManager (toArray)

structure ImportEnv where
  now : Nat → QDateTime
  outcome : Nat → WriteOutcome
  inserts : Nat → Bool

section Import
variable (J : JsonLibrary) (D : DateTimes) (U : UrlLibrary) (env : ImportEnv)

/-- Entries appended up to the first that cannot be; `imported` counts them. -/
def importEntries : World → Nat → List QJsonObject → Int × World
  | w, imported, [] => (imported, w)
  | w, imported, entry :: rest =>
    let t := harTransaction U D (env.now imported) entry
    let (appended, w') := appendAnnotatedEntry J D w t.req t.resp t.note (env.outcome imported)
      (env.inserts imported)
    if appended then
      importEntries { w' with model := w'.model.addResponse t.req t.resp } (imported + 1) rest
    else (-1, w')

def importHarBytes (w : World) (harJson : QByteArray) : Int × World :=
  match acceptedEntries J w.historyAnnotations w.nextRowId harJson with
  | none => (-1, w)
  | some entries => importEntries J D U env w 0 entries

def transactionsFrom (imported : Nat) (entries : List QJsonObject) : List Transaction :=
  entries.mapIdx (fun i entry => harTransaction U D (env.now (imported + i)) entry)

def harEntriesOf (harJson : QByteArray) : Option (List QJsonObject) :=
  (objectOf J harJson).map (fun doc =>
    (toArray ((value doc "log").toObject.value "entries")).map QJsonValue.toObject)

structure AllAppended (w w' : World) (ts : List Transaction) : Prop where
  history : w'.content .history = w.content .history ++
    (ts.map (fun t => entryLine J D t.req t.resp t.note ++ [0x0A])).flatten
  nextRowId : w'.nextRowId = w.nextRowId + ts.length
  numbered : w'.numbered = w.numbered ++
    ts.mapIdx (fun i t => (w.nextRowId + i, t.req, t.resp))
  annotations : w'.archiveAnnotations =
    prospectiveNotes w.archiveAnnotations w.nextRowId (ts.map Transaction.note)
  model : w'.model = ts.foldl (fun m t => m.addResponse t.req t.resp) w.model

structure Untouched (w w' : World) : Prop where
  history : w'.content .history = w.content .history
  nextRowId : w'.nextRowId = w.nextRowId
  archived : w'.archiveAnnotations = w.archiveAnnotations
  annotations : w'.historyAnnotations = w.historyAnnotations
  model : w'.model = w.model

def ImportsAllOrNothing (w : World) (harJson : QByteArray) : Prop :=
  ((importHarBytes J D U env w harJson).1 = -1 →
      Untouched w (importHarBytes J D U env w harJson).2) ∧
    ((importHarBytes J D U env w harJson).1 ≠ -1 →
      ∃ entries, harEntriesOf J harJson = some entries ∧
        (importHarBytes J D U env w harJson).1 = entries.length ∧
        AllAppended J D w (importHarBytes J D U env w harJson).2
          (transactionsFrom D U env 0 entries))

def ImportEnv.WritesWhole (count : Nat) : Prop :=
  (∀ i < count, env.outcome i = .done) ∨ env.outcome 0 = .fails 0

end Import

section Entries
variable {J : JsonLibrary} {D : DateTimes} {U : UrlLibrary} {env : ImportEnv} {w : World}

theorem AllAppended.nil : AllAppended J D w w [] :=
  ⟨(List.append_nil _).symm, rfl, (List.append_nil _).symm, rfl, rfl⟩

theorem AllAppended.cons {t : Transaction} (h : Appended J D w w' t inserts)
    (hrest : AllAppended J D { w' with model := w'.model.addResponse t.req t.resp } w'' ts) :
    AllAppended J D w w'' (t :: ts) := by
  constructor
  · have hhistory : w''.content .history = w'.content .history ++ _ := hrest.history
    rw [hhistory, h.history, List.map_cons, List.flatten_cons, List.append_assoc]
  · have hnext : w''.nextRowId = w'.nextRowId + ts.length := hrest.nextRowId
    rw [hnext, h.nextRowId, List.length_cons, Nat.add_assoc, Nat.add_comm 1]
  · have hrows : w''.numbered = w'.numbered ++
        ts.mapIdx (fun i t => (w'.nextRowId + i, t.req, t.resp)) := hrest.numbered
    have hshift : (fun (i : Nat) (t : Transaction) => (w.nextRowId + 1 + i, t.req, t.resp)) =
        fun i t => (w.nextRowId + (i + 1), t.req, t.resp) := by
      funext i t
      rw [Nat.add_assoc, Nat.add_comm 1]
    rw [hrows, h.numbered, h.nextRowId, hshift, List.mapIdx_cons, List.append_assoc]
    rfl
  · have hnotes : w''.archiveAnnotations =
        prospectiveNotes w'.archiveAnnotations w'.nextRowId (ts.map Transaction.note) :=
      hrest.annotations
    rw [hnotes, h.annotations, h.nextRowId]
    rfl
  · have hshown : w''.model = ts.foldl (fun m t => m.addResponse t.req t.resp)
        (w'.model.addResponse t.req t.resp) := hrest.model
    rw [hshown, h.model]
    rfl

theorem transactionsFrom_cons (imported : Nat) (entry : QJsonObject) (rest : List QJsonObject) :
    transactionsFrom D U env imported (entry :: rest) =
      harTransaction U D (env.now imported) entry ::
        transactionsFrom D U env (imported + 1) rest := by
  have hshift : (fun (i : Nat) (e : QJsonObject) =>
      harTransaction U D (env.now (imported + 1 + i)) e) =
        fun i e => harTransaction U D (env.now (imported + (i + 1))) e := by
    funext i e
    rw [Nat.add_assoc, Nat.add_comm 1]
  rw [transactionsFrom, transactionsFrom, List.mapIdx_cons, hshift, Nat.add_zero]

theorem importEntries_cons_done (h : w.isOpen = true) (hdone : env.outcome imported = .done)
    (entry : QJsonObject) (rest : List QJsonObject) :
    ∃ w', Appended J D w w' (harTransaction U D (env.now imported) entry)
        (env.inserts imported) ∧
      importEntries J D U env w imported (entry :: rest) =
        importEntries J D U env
          { w' with
            model := w'.model.addResponse (harTransaction U D (env.now imported) entry).req
              (harTransaction U D (env.now imported) entry).resp }
          (imported + 1) rest := by
  obtain ⟨hok, happended⟩ := appendAnnotatedEntry_done J D h
    (harTransaction U D (env.now imported) entry) (env.inserts imported)
  refine ⟨_, happended, ?_⟩
  rw [importEntries, hdone]
  dsimp only
  rw [hok, if_pos rfl]

theorem importEntries_done (h : w.isOpen = true)
    (hdone : ∀ i < entries.length, env.outcome (imported + i) = .done) :
    (importEntries J D U env w imported entries).1 = (imported + entries.length : Nat) ∧
      AllAppended J D w (importEntries J D U env w imported entries).2
        (transactionsFrom D U env imported entries) := by
  induction entries generalizing w imported with
  | nil => exact ⟨rfl, .nil⟩
  | cons entry rest ih =>
    have hfirst : env.outcome imported = .done := hdone 0 (Nat.zero_lt_succ _)
    obtain ⟨w', happended, heq⟩ := importEntries_cons_done h hfirst entry rest (J := J) (D := D)
      (U := U)
    have hopen : w'.isOpen = true := happended.isOpen.trans h
    have hrest : ∀ i < rest.length, env.outcome (imported + 1 + i) = .done := by
      intro i hi
      rw [Nat.add_assoc, Nat.add_comm 1]
      exact hdone (i + 1) (Nat.succ_lt_succ hi)
    rw [heq, transactionsFrom_cons]
    obtain ⟨hcount, hall⟩ := ih (w := { w' with model := w'.model.addResponse _ _ }) hopen hrest
    refine ⟨?_, .cons happended hall⟩
    rw [hcount, List.length_cons, Nat.add_assoc, Nat.add_comm 1]

theorem importEntries_stops (h : w.isOpen = true) (hk : k < entries.length)
    (hdone : ∀ i < k, env.outcome (imported + i) = .done)
    (hfails : env.outcome (imported + k) = .fails kept) :
    (importEntries J D U env w imported entries).1 = -1 ∧
      (importEntries J D U env w imported entries).2.nextRowId = w.nextRowId + k := by
  induction k generalizing w imported entries with
  | zero =>
    cases entries with
    | nil => exact absurd hk (Nat.not_lt_zero _)
    | cons entry rest =>
      have hfirst : env.outcome imported = .fails kept := hfails
      rw [importEntries, hfirst, appendAnnotatedEntry_fails J D h]
      exact ⟨rfl, rfl⟩
  | succ k ih =>
    cases entries with
    | nil => exact absurd hk (Nat.not_lt_zero _)
    | cons entry rest =>
      have hfirst : env.outcome imported = .done := hdone 0 (Nat.zero_lt_succ _)
      obtain ⟨w', happended, heq⟩ := importEntries_cons_done h hfirst entry rest (J := J) (D := D)
        (U := U)
      have hopen : w'.isOpen = true := happended.isOpen.trans h
      have hrest : ∀ i < k, env.outcome (imported + 1 + i) = .done := by
        intro i hi
        rw [Nat.add_assoc, Nat.add_comm 1]
        exact hdone (i + 1) (Nat.succ_lt_succ hi)
      have hlast : env.outcome (imported + 1 + k) = .fails kept := by
        rw [Nat.add_assoc, Nat.add_comm 1]
        exact hfails
      rw [heq]
      obtain ⟨hresult, hnext⟩ := ih (w := { w' with model := w'.model.addResponse _ _ }) hopen
        (Nat.lt_of_succ_lt_succ hk) hrest hlast
      refine ⟨hresult, hnext.trans ?_⟩
      dsimp only
      rw [happended.nextRowId, Nat.add_assoc, Nat.add_comm 1]

theorem importEntries_first (h : w.isOpen = true) (hfails : env.outcome imported = .fails kept)
    (entry : QJsonObject) (rest : List QJsonObject) :
    importEntries J D U env w imported (entry :: rest) =
      (-1, { w.setFile .history (some (w.content .history ++
        (entryLine J D (harTransaction U D (env.now imported) entry).req
          (harTransaction U D (env.now imported) entry).resp
          (harTransaction U D (env.now imported) entry).note ++ [0x0A]).take kept)) with
          lastError := kAppendError }) := by
  rw [importEntries, hfails, appendAnnotatedEntry_fails J D h]
  rfl

theorem importEntries_closed (h : w.isOpen = false) (entry : QJsonObject)
    (rest : List QJsonObject) :
    importEntries J D U env w imported (entry :: rest) = (-1, w) := by
  rw [importEntries, appendAnnotatedEntry_closed J D h]
  rfl

theorem acceptedEntries_entries
    (h : acceptedEntries J notes nextRowId harJson = some entries) :
    harEntriesOf J harJson = some entries := by
  rw [acceptedEntries] at h
  rw [harEntriesOf, objectOf]
  cases hdoc : J.fromJson harJson with
  | none =>
    rw [hdoc] at h
    cases h
  | some v =>
    rw [hdoc] at h
    cases v with
    | object doc =>
      dsimp only at h ⊢
      split at h
      · exact h
      · cases h
    | _ => cases h

theorem untouched_refl : Untouched w w := ⟨rfl, rfl, rfl, rfl, rfl⟩

theorem untouched_first (line : QByteArray) (error : QString) : Untouched w
    { w.setFile .history (some (w.content .history ++ line.take 0)) with
      lastError := error } where
  history := (World.content_setFile w .history _).trans (List.append_nil _)
  nextRowId := rfl
  archived := rfl
  annotations := rfl
  model := rfl

theorem ImportEnv.first_failure (env : ImportEnv) (count : Nat) :
    (∀ i < count, env.outcome i = .done) ∨
      ∃ k < count, (∀ i < k, env.outcome i = .done) ∧ ∃ kept, env.outcome k = .fails kept := by
  induction count with
  | zero => exact .inl (fun i hi => absurd hi (Nat.not_lt_zero i))
  | succ count ih =>
    rcases ih with hall | ⟨k, hk, hdone, hfails⟩
    · cases hlast : env.outcome count with
      | done =>
        refine .inl (fun i hi => ?_)
        rcases Nat.lt_succ_iff_lt_or_eq.1 hi with hi | rfl
        · exact hall i hi
        · exact hlast
      | fails kept => exact .inr ⟨count, Nat.lt_succ_self count, hall, kept, hlast⟩
    · exact .inr ⟨k, Nat.lt_succ_of_lt hk, hdone, hfails⟩

theorem entryLine_ne_nil (req : HistoryRequest) (resp : HistoryResponse) (note : QJsonObject) :
    entryLine J D req resp note ++ [0x0A] ≠ [] :=
  List.append_ne_nil_of_right_ne_nil _ (List.cons_ne_nil _ _)

theorem ne_append_take {content line : QByteArray} (hline : line ≠ []) (hkept : kept ≠ 0) :
    content ++ line.take kept ≠ content := by
  intro he
  have hnil : line.take kept = [] := List.append_right_eq_self.1 he
  rcases List.take_eq_nil_iff.1 hnil with hzero | hempty
  · exact hkept hzero
  · exact hline hempty

section Accepted
variable (haccepted : acceptedEntries J w.historyAnnotations w.nextRowId harJson = some entries)
include haccepted

theorem importHarBytes_accepted :
    importHarBytes J D U env w harJson = importEntries J D U env w 0 entries := by
  rw [importHarBytes, haccepted]

theorem importsAllOrNothing_closed (h : w.isOpen = false) :
    ImportsAllOrNothing J D U env w harJson := by
  have hentries := acceptedEntries_entries haccepted
  rw [ImportsAllOrNothing, importHarBytes_accepted haccepted]
  cases entries with
  | nil =>
    refine ⟨fun hresult => ?_, fun _ => ⟨[], hentries, rfl, .nil⟩⟩
    exact untouched_refl
  | cons entry rest =>
    rw [importEntries_closed h]
    exact ⟨fun _ => untouched_refl, fun hresult => absurd rfl hresult⟩

theorem importsAllOrNothing_iff_whole (h : w.isOpen = true) :
    ImportsAllOrNothing J D U env w harJson ↔ env.WritesWhole entries.length := by
  have hentries := acceptedEntries_entries haccepted
  rw [ImportsAllOrNothing, importHarBytes_accepted haccepted]
  constructor
  · rintro ⟨hnothing, _⟩
    rcases env.first_failure entries.length with hall | ⟨k, hk, hdone, kept, hfails⟩
    · exact .inl hall
    · have hbefore : ∀ i < k, env.outcome (0 + i) = .done := by
        intro i hi
        rw [Nat.zero_add]
        exact hdone i hi
      have hstop : env.outcome (0 + k) = .fails kept := by
        rw [Nat.zero_add]
        exact hfails
      obtain ⟨hresult, hrow⟩ := importEntries_stops (J := J) (D := D) (U := U) h hk hbefore hstop
      have huntouched := hnothing hresult
      -- A failure behind the first entry has moved the row counter.
      have hk0 : k = 0 := by
        have hsame := huntouched.nextRowId
        rw [hrow] at hsame
        exact Nat.add_eq_left.1 hsame
      subst hk0
      cases entries with
      | nil => exact absurd hk (Nat.not_lt_zero 0)
      | cons entry rest =>
        have hhistory := huntouched.history
        rw [importEntries_first h hfails] at hhistory
        have hcontent := (World.content_setFile w .history _).symm.trans hhistory
        by_cases hkept : kept = 0
        · exact .inr (hkept ▸ hfails)
        · exact absurd hcontent (ne_append_take (entryLine_ne_nil _ _ _) hkept)
  · rintro (hall | hfirst)
    · have hdone : ∀ i < entries.length, env.outcome (0 + i) = .done := by
        intro i hi
        rw [Nat.zero_add]
        exact hall i hi
      obtain ⟨hcount, happended⟩ := importEntries_done (J := J) (D := D) (U := U) h hdone
      rw [Nat.zero_add] at hcount
      refine ⟨fun hresult => ?_, fun _ => ⟨entries, hentries, hcount, happended⟩⟩
      rw [hcount] at hresult
      exact absurd hresult (by omega)
    · cases entries with
      | nil => exact ⟨fun _ => untouched_refl, fun _ => ⟨[], hentries, rfl, .nil⟩⟩
      | cons entry rest =>
        rw [importEntries_first h hfirst]
        exact ⟨fun _ => untouched_first _ _, fun hresult => absurd rfl hresult⟩

end Accepted

end Entries

/-- An import takes all or nothing just when no write fails, or the first leaves nothing. -/
theorem har_import_atomic_iff (J : JsonLibrary) (D : DateTimes) (U : UrlLibrary) (env : ImportEnv)
    (w : World) (harJson : QByteArray) :
    ImportsAllOrNothing J D U env w harJson ↔
      ∀ entries, acceptedEntries J w.historyAnnotations w.nextRowId harJson = some entries →
        w.isOpen = true → env.WritesWhole entries.length := by
  cases haccepted : acceptedEntries J w.historyAnnotations w.nextRowId harJson with
  | none =>
    refine iff_of_true ?_ (fun _ he => absurd he (Option.some_ne_none _).symm)
    rw [ImportsAllOrNothing, importHarBytes, haccepted]
    exact ⟨fun _ => untouched_refl, fun hresult => absurd rfl hresult⟩
  | some entries =>
    cases hopen : w.isOpen with
    | false =>
      exact iff_of_true (importsAllOrNothing_closed haccepted hopen)
        (fun _ _ he => absurd he Bool.false_ne_true)
    | true =>
      rw [importsAllOrNothing_iff_whole haccepted hopen]
      constructor
      · intro hwhole entries' he _
        rw [← Option.some.inj he]
        exact hwhole
      · intro hwhole
        exact hwhole entries rfl rfl

def emptyProject : World where
  disk := fun _ _ => none
  tables := fun _ _ => none
  dir := utf16 "/projects/shop"
  historyOpen := true

def fullDisk : ImportEnv where
  now _ := none
  outcome i := if i = 0 then .done else .fails 0
  inserts _ := true

def accountEntry : QJsonObject :=
  harEntry JsonText.textLibrary false []
    (entryToJson epochDates tlsRequest okResponse [])

theorem account_exportable_entry :
    (recordTransaction [] (entryToJson epochDates tlsRequest okResponse [])).Exportable := by
  obtain ⟨hreq, hresp⟩ := entryRecord epochDates tlsRequest okResponse []
  rw [recordTransaction, hreq, hresp, requestFromJson_toJson, responseFromJson_toJson]
  exact account_exportable (by decide)

theorem accepted_accounts :
    acceptedEntries JsonText.textLibrary emptyProject.historyAnnotations emptyProject.nextRowId
        (JsonText.textLibrary.indented
          (harDocument (utf16 "1.0") [accountEntry, accountEntry])) =
      some [accountEntry, accountEntry] := by
  have hentry : ∀ e ∈ [accountEntry, accountEntry], e = accountEntry := by
    intro e he
    rcases List.mem_cons.1 he with rfl | he
    · rfl
    · exact List.mem_singleton.1 he
  have hstored : (QJsonValue.object accountEntry).Stored JsonText.textLibrary.Exact
      (kNestingLimit - 3) := stored_harEntry _ account_exportable_entry
  have hvalid : entryValid accountEntry = true := entryValid_harEntry _ _ _ rfl
  have hnote : harAnnotation accountEntry = importedNote [] := harAnnotation_harEntry _ _ _
  have hfit : NotesFit JsonText.textLibrary
      (prospectiveNotes [] 1 [importedNote [], importedNote []]) := by decide
  rw [acceptedEntries_harDocument JsonText.textLibrary (utf16 "1.0")
    (fun e he => hentry e he ▸ hstored) (fun e he => hentry e he ▸ hvalid), List.map_cons,
    List.map_cons, List.map_nil, hnote]
  exact if_pos hfit

/-- The second of two lines cannot be written, and the first one stays. -/
theorem half_imported :
    ¬ ImportsAllOrNothing JsonText.textLibrary epochDates httpUrls fullDisk emptyProject
      (JsonText.textLibrary.indented
        (harDocument (utf16 "1.0") [accountEntry, accountEntry])) := by
  intro h
  rcases (importsAllOrNothing_iff_whole accepted_accounts rfl).1 h with hall | hfirst
  · exact absurd (hall 1 (by decide)) (by decide)
  · exact absurd hfirst (by decide)

end Nullock.ProjectStore

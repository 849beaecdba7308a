import Nullock.HistoryRecords
import Nullock.JsonText
import Nullock.Runs

namespace Nullock.Workspace
open QJsonObject
open SessionManager (toArray)

def kSep : UInt16 := 0x1F

def identityKey (f : QJsonObject) : QString :=
  (f.value "kind").toQString ++ kSep :: (f.value "host").toQString ++
    kSep :: (f.value "url").toQString ++ kSep :: (f.value "summary").toQString

structure EngagementRow where
  id : QString
  name : Option QString
  createdMs : Int
  seq : Nat

structure FindingRow where
  engagement : QString
  ikey : QString
  seq : Nat
  updatedMs : Int
  author : QString
  json : QString

structure Database where
  engagements : List EngagementRow := []
  findings : List FindingRow := []

inductive Statement where
  | upsertEngagement
  | readSeq
  | upsertFinding (n : Nat)
  | writeSeq
  | commit
deriving DecidableEq

inductive PushReply where
  | badRequest (error : QString)
  | serverError (what : QString)
  | ok (engagement : QString) (newSeq accepted : Nat)

section Handlers
variable (J : JsonLibrary)

/-- `QJsonDocument::fromJson(…).object()`; empty if it is no object. -/
def documentObject (bytes : QByteArray) : QJsonObject :=
  match J.fromJson bytes with
  | some (.object o) => o
  | _ => []

/-- The engagement is there behind this, with its old name if it gets none. -/
def upsertEngagement (rows : List EngagementRow) (id : QString) (name : Option QString)
    (now : Int) : List EngagementRow :=
  if rows.any (·.id == id) then
    rows.map (fun r => if r.id = id then { r with name := name.or r.name } else r)
  else rows ++ [⟨id, name, now, 0⟩]

def readSeq (rows : List EngagementRow) (id : QString) : Option Nat :=
  (rows.find? (·.id == id)).map (·.seq)

def writeSeq (rows : List EngagementRow) (id : QString) (seq : Nat) : List EngagementRow :=
  rows.map (fun r => if r.id = id then { r with seq := seq } else r)

def FindingRow.sameKey (r row : FindingRow) : Bool :=
  r.engagement == row.engagement && r.ikey == row.ikey

def upsertFinding (rows : List FindingRow) (row : FindingRow) : List FindingRow :=
  if rows.any (·.sameKey row) then rows.map (fun r => if r.sameKey row then row else r)
  else rows ++ [row]

def findingRow (eng author : QString) (now : Int) (seq : Nat) (f : QJsonObject) : FindingRow where
  engagement := eng
  ikey := identityKey f
  seq := seq
  updatedMs := now
  author := author
  json := QString.fromUtf8 (J.compact (.object f))

/-- Findings written under the next numbers; one without a kind is skipped. -/
def pushFindings (eng author : QString) (now : Int) (ok : Statement → Bool) :
    List QJsonObject → Nat → Nat → List FindingRow → Option (Nat × Nat × List FindingRow)
  | [], seq, accepted, rows => some (seq, accepted, rows)
  | f :: fs, seq, accepted, rows =>
    if (f.value "kind").toQString.isEmpty then pushFindings eng author now ok fs seq accepted rows
    else if ok (.upsertFinding accepted) then
      pushFindings eng author now ok fs (seq + 1) (accepted + 1)
        (upsertFinding rows (findingRow J eng author now (seq + 1) f))
    else none

def engagementName : QJsonValue → Option QString
  | .string s => some s
  | _ => none

def push (db : Database) (body : QByteArray) (now : Int) (ok : Statement → Bool) :
    PushReply × Database :=
  let request := documentObject J body
  let eng := (request.value "engagement").toQString
  let findings := (toArray (request.value "findings")).map QJsonValue.toObject
  if eng.isEmpty then (.badRequest (utf16 "engagement required"), db)
  else if findings.isEmpty then
    (.badRequest (utf16 "findings array required and non-empty"), db)
  else if !ok .upsertEngagement then (.serverError (utf16 "engagement upsert"), db)
  else
    let engagements := upsertEngagement db.engagements eng
      (engagementName (request.value "name")) now
    match (if ok .readSeq then readSeq engagements eng else none) with
    | none => (.serverError (utf16 "seq read"), db)
    | some seq =>
      match pushFindings J eng (request.value "author").toQString now ok findings seq 0
          db.findings with
      | none => (.serverError (utf16 "finding upsert"), db)
      | some (newSeq, accepted, rows) =>
        if !ok .writeSeq then (.serverError (utf16 "seq write"), db)
        else if !ok .commit then (.serverError (utf16 "commit"), db)
        else
          (.ok eng newSeq accepted,
            { engagements := writeSeq engagements eng newSeq, findings := rows })

def FindingRow.finding (r : FindingRow) : QJsonObject := documentObject J (toUtf8 r.json)

structure PullReply where
  seq : Nat
  findings : List QJsonObject

/-- `SELECT json, seq FROM findings WHERE engagement=? AND seq>? ORDER BY seq` -/
def selectFindings (db : Database) (eng : QString) (since : Nat) : List FindingRow :=
  (db.findings.filter (fun r => r.engagement == eng && since < r.seq)).mergeSort
    (fun r r' => decide (r.seq ≤ r'.seq))

def pull (db : Database) (eng : QString) (since : Nat) : PullReply where
  seq := (selectFindings db eng since).foldl (fun seq r => max seq r.seq) since
  findings := (selectFindings db eng since).map (FindingRow.finding J)

end Handlers

end Nullock.Workspace

namespace Nullock.QJsonValue
open SessionManager (toArray)

theorem Stored.value {o : QJsonObject} (h : (QJsonValue.object o).Stored Exact depth)
    (key : String) : o.value key = .undefined ∨ (o.value key).Stored Exact depth := by
  rw [QJsonObject.value]
  cases hlookup : o.lookup (utf16 key) with
  | none => exact .inl rfl
  | some v =>
    cases h with
    | object _ hmembers =>
      obtain ⟨l₁, l₂, hl, -⟩ := List.lookup_eq_some_iff.1 hlookup
      have hmem : (utf16 key, v) ∈ o := by
        rw [hl]
        exact List.mem_append_right _ List.mem_cons_self
      exact .inr ((hmembers _ hmem).mono (Nat.le_succ _))

theorem Stored.elem {a v : QJsonValue} (h : a = .undefined ∨ a.Stored Exact depth)
    (hv : v ∈ toArray a) : v.Stored Exact depth := by
  rcases h with rfl | h
  · exact absurd hv List.not_mem_nil
  · cases h with
    | array helems => exact (helems v hv).mono (Nat.le_succ _)
    | _ => exact absurd hv List.not_mem_nil

theorem Stored.toObject {v : QJsonValue} (h : v.Stored Exact (depth + 1)) :
    (QJsonValue.object v.toObject).Stored Exact (depth + 1) := by
  cases h with
  | object hs hmembers => exact .object hs hmembers
  | _ => exact .object List.Pairwise.nil nofun

end Nullock.QJsonValue

namespace Nullock.Workspace
open QJsonObject
open SessionManager (toArray)

/-- The number a client pulls from, and what it has under each key. -/
structure View where
  cursor : Nat := 0
  held : QString → Option QJsonObject := fun _ => none

/-- The findings that a client has been given, the later ones over the earlier. -/
def merge (held : QString → Option QJsonObject) : List QJsonObject → QString → Option QJsonObject
  | [] => held
  | f :: fs => merge (fun key => if key = identityKey f then some f else held key) fs

abbrev Pushed := QString → QString → Option QJsonObject

def record (pushed : Pushed) (eng : QString) : List QJsonObject → Pushed
  | [] => pushed
  | f :: fs =>
    if (f.value "kind").toQString.isEmpty then record pushed eng fs
    else record (fun e key => if e = eng ∧ key = identityKey f then some f else pushed e key) eng fs

structure Team where
  db : Database := {}
  views : Nat → QString → View := fun _ _ => {}
  pushed : Pushed := fun _ _ => none

inductive TeamAction where
  | push (body : QByteArray) (now : Int) (ok : Statement → Bool)
  | pull (client : Nat) (eng : QString)

section Step
variable (J : JsonLibrary)

def pullView (db : Database) (eng : QString) (v : View) : View where
  cursor := (pull J db eng v.cursor).seq
  held := merge v.held (pull J db eng v.cursor).findings

def step (t : Team) : TeamAction → Team
  | .push body now ok =>
    match push J t.db body now ok with
    | (.ok eng _ _, db) =>
      { t with
        db := db
        pushed := record t.pushed eng
          ((toArray ((documentObject J body).value "findings")).map QJsonValue.toObject) }
    | (_, db) => { t with db := db }
  | .pull client eng =>
    { t with
      views := fun c e =>
        if c = client ∧ e = eng then pullView J t.db eng (t.views c e) else t.views c e }

end Step

def Database.seq (db : Database) (eng : QString) : Nat := (readSeq db.engagements eng).getD 0

section Rows
variable (J : JsonLibrary)

/-- The last version of each finding, under its own number within the bound. -/
structure Stored (bound : QString → Nat) (rows : List FindingRow) (pushed : Pushed) : Prop where
  keys : rows.Pairwise (fun r r' => r.sameKey r' = false)
  seqs : rows.Pairwise (fun r r' => r.engagement = r'.engagement → r.seq ≠ r'.seq)
  bounded : ∀ r ∈ rows, r.seq ≤ bound r.engagement
  named : ∀ r ∈ rows, identityKey (r.finding J) = r.ikey
  version : ∀ r ∈ rows, pushed r.engagement r.ikey = some (r.finding J)
  present : ∀ eng key, pushed eng key ≠ none → ∃ r ∈ rows, r.engagement = eng ∧ r.ikey = key

structure Synced (bound : QString → Nat) (rows : List FindingRow) (pushed : Pushed) (eng : QString)
    (v : View) : Prop where
  cursor : v.cursor ≤ bound eng
  seen : ∀ r ∈ rows, r.engagement = eng → r.seq ≤ v.cursor → v.held r.ikey = some (r.finding J)
  held : ∀ key, v.held key ≠ none → pushed eng key ≠ none

variable {J} {bound : QString → Nat} {rows : List FindingRow} {pushed : Pushed}

theorem sameKey_iff {r row : FindingRow} :
    r.sameKey row = true ↔ r.engagement = row.engagement ∧ r.ikey = row.ikey := by
  rw [FindingRow.sameKey, Bool.and_eq_true, beq_iff_eq, beq_iff_eq]

theorem sameKey_symm {r row : FindingRow} (h : r.sameKey row = false) : row.sameKey r = false := by
  refine Bool.eq_false_iff.2 (fun hs => ?_)
  obtain ⟨heng, hkey⟩ := sameKey_iff.1 hs
  exact absurd (sameKey_iff.2 ⟨heng.symm, hkey.symm⟩) (Bool.eq_false_iff.1 h)

theorem mem_upsertFinding {row : FindingRow} :
    r ∈ upsertFinding rows row ↔ r = row ∨ (r ∈ rows ∧ r.sameKey row = false) := by
  rw [upsertFinding]
  split
  · rename_i hany
    rw [List.mem_map]
    constructor
    · rintro ⟨r', hr', rfl⟩
      split
      · exact .inl rfl
      · rename_i hne
        exact .inr ⟨hr', Bool.eq_false_iff.2 hne⟩
    · rintro (rfl | ⟨hr, hne⟩)
      · obtain ⟨r', hr', hsame⟩ := List.any_eq_true.1 hany
        exact ⟨r', hr', if_pos hsame⟩
      · exact ⟨r, hr, if_neg (Bool.eq_false_iff.1 hne)⟩
  · rename_i hany
    rw [List.mem_append, List.mem_singleton]
    constructor
    · rintro (hr | rfl)
      · refine .inr ⟨hr, Bool.eq_false_iff.2 (fun hs => hany ?_)⟩
        exact List.any_eq_true.2 ⟨r, hr, hs⟩
      · exact .inl rfl
    · rintro (rfl | ⟨hr, _⟩)
      · exact .inr rfl
      · exact .inl hr

theorem pairwise_upsertFinding {R : FindingRow → FindingRow → Prop} {row : FindingRow}
    (hsymm : ∀ r r', R r r' → R r' r) (h : rows.Pairwise R)
    (hkeys : rows.Pairwise (fun r r' => r.sameKey r' = false))
    (hnew : ∀ r ∈ rows, r.sameKey row = false → R r row) :
    (upsertFinding rows row).Pairwise R := by
  rw [upsertFinding]
  split
  · rw [List.pairwise_map]
    refine (h.and hkeys).imp_of_mem (fun {r r'} hr hr' hrel => ?_)
    cases hs : r.sameKey row with
    | true =>
      cases hs' : r'.sameKey row with
      | true =>
        obtain ⟨heng, hkey⟩ := sameKey_iff.1 hs
        obtain ⟨heng', hkey'⟩ := sameKey_iff.1 hs'
        have hsame : r.sameKey r' = true :=
          sameKey_iff.2 ⟨heng.trans heng'.symm, hkey.trans hkey'.symm⟩
        exact absurd (hsame.symm.trans hrel.2) Bool.noConfusion
      | false => exact hsymm _ _ (hnew r' hr' hs')
    | false =>
      cases hs' : r'.sameKey row with
      | true => exact hnew r hr hs
      | false => exact hrel.1
  · rename_i hany
    refine List.pairwise_append.2 ⟨h, List.pairwise_singleton _ _, fun r hr r' hr' => ?_⟩
    rw [List.mem_singleton.1 hr']
    exact hnew r hr (Bool.eq_false_iff.2 (fun hs => hany (List.any_eq_true.2 ⟨r, hr, hs⟩)))

def raised (bound : QString → Nat) (eng : QString) (seq : Nat) : QString → Nat :=
  fun e => if e = eng then seq else bound e

def replaced (pushed : Pushed) (row : FindingRow) (f : QJsonObject) : Pushed :=
  fun e key => if e = row.engagement ∧ key = row.ikey then some f else pushed e key

theorem Stored.upsert (h : Stored J bound rows pushed) (row : FindingRow)
    (hseq : bound row.engagement < row.seq) (hname : identityKey (row.finding J) = row.ikey) :
    Stored J (raised bound row.engagement row.seq) (upsertFinding rows row)
      (replaced pushed row (row.finding J)) where
  keys := pairwise_upsertFinding (fun _ _ => sameKey_symm) h.keys h.keys (fun _ _ hr => hr)
  seqs := by
    refine pairwise_upsertFinding (fun r r' hr heng he => hr heng.symm he.symm) h.seqs h.keys ?_
    intro r hr _ heng he
    have hle := h.bounded r hr
    rw [heng, he] at hle
    exact absurd hseq (Nat.not_lt.2 hle)
  bounded r hr := by
    rw [raised]
    rcases mem_upsertFinding.1 hr with rfl | ⟨hr, _⟩
    · rw [if_pos rfl]
    · have hle := h.bounded r hr
      split
      · rename_i heng
        rw [heng] at hle
        exact Nat.le_of_lt (Nat.lt_of_le_of_lt hle hseq)
      · exact hle
  named r hr := by
    rcases mem_upsertFinding.1 hr with rfl | ⟨hr, _⟩
    · exact hname
    · exact h.named r hr
  version r hr := by
    rcases mem_upsertFinding.1 hr with rfl | ⟨hr, hs⟩
    · exact if_pos ⟨rfl, rfl⟩
    · rw [replaced, if_neg (fun he => Bool.eq_false_iff.1 hs (sameKey_iff.2 he))]
      exact h.version r hr
  present eng key hne := by
    rw [replaced] at hne
    split at hne
    · rename_i he
      exact ⟨row, mem_upsertFinding.2 (.inl rfl), he.1.symm, he.2.symm⟩
    · rename_i hother
      obtain ⟨r, hr, heng, hkey⟩ := h.present eng key hne
      refine ⟨r, mem_upsertFinding.2 (.inr ⟨hr, Bool.eq_false_iff.2 (fun hs => hother ?_)⟩), heng,
        hkey⟩
      obtain ⟨he, hk⟩ := sameKey_iff.1 hs
      exact ⟨heng.symm.trans he, hkey.symm.trans hk⟩

theorem Stored.unique (h : Stored J bound rows pushed) {r r' : FindingRow} (hr : r ∈ rows)
    (hr' : r' ∈ rows) (hs : r.sameKey r' = true) : r = r' := by
  by_contra hne
  have hsymm : Std.Symm (fun r r' : FindingRow => r.sameKey r' = false) :=
    ⟨fun _ _ => sameKey_symm⟩
  have hother : r.sameKey r' = false := h.keys.forall hr hr' hne
  exact absurd (hs.symm.trans hother) Bool.noConfusion

theorem Synced.upsert (h : Synced J bound rows pushed eng v) (row : FindingRow) (f : QJsonObject)
    (hseq : bound row.engagement < row.seq) :
    Synced J (raised bound row.engagement row.seq) (upsertFinding rows row)
      (replaced pushed row f) eng v where
  cursor := by
    rw [raised]
    split
    · rename_i heng
      have hle := h.cursor
      rw [heng] at hle
      exact Nat.le_of_lt (Nat.lt_of_le_of_lt hle hseq)
    · exact h.cursor
  seen r hr heng hle := by
    rcases mem_upsertFinding.1 hr with rfl | ⟨hr, _⟩
    · have hcursor := h.cursor
      rw [← heng] at hcursor
      exact absurd (Nat.lt_of_lt_of_le hseq (hle.trans hcursor)) (Nat.lt_irrefl _)
    · exact h.seen r hr heng hle
  held key hne := by
    rw [replaced]
    split
    · exact Option.some_ne_none _
    · exact h.held key hne

structure Consistent (J : JsonLibrary) (bound : QString → Nat) (rows : List FindingRow)
    (pushed : Pushed) (views : Nat → QString → View) : Prop where
  stored : Stored J bound rows pushed
  synced : ∀ c eng, Synced J bound rows pushed eng (views c eng)

theorem finding_findingRow (hf : (QJsonValue.object f).Stored J.Exact kNestingLimit)
    (eng author : QString) (now : Int) (seq : Nat) :
    (findingRow J eng author now seq f).finding J = f := by
  rw [FindingRow.finding, findingRow, documentObject, J.toUtf8_compact rfl,
    J.read_compact _ rfl hf]

theorem raised_raised (bound : QString → Nat) (eng : QString) (m n : Nat) :
    raised (raised bound eng m) eng n = raised bound eng n := by
  funext e
  rw [raised, raised, raised]
  split
  · rfl
  · rfl

theorem raised_self (bound : QString → Nat) (eng : QString) :
    raised bound eng (bound eng) = bound := by
  funext e
  rw [raised]
  split
  · rename_i he
    rw [he]
  · rfl

theorem Consistent.pushFindings (h : Consistent J bound rows pushed views)
    (hfs : ∀ f ∈ fs, (QJsonValue.object f).Stored J.Exact kNestingLimit)
    (hpush : pushFindings J eng author now ok fs (bound eng) accepted rows =
      some (newSeq, newAccepted, newRows)) :
    bound eng ≤ newSeq ∧
      Consistent J (raised bound eng newSeq) newRows (record pushed eng fs) views := by
  induction fs generalizing bound accepted rows pushed with
  | nil =>
    obtain ⟨rfl, rfl, rfl⟩ : bound eng = newSeq ∧ accepted = newAccepted ∧ rows = newRows := by
      simpa [Workspace.pushFindings] using hpush
    refine ⟨Nat.le_refl _, ?_⟩
    rw [raised_self]
    exact h
  | cons f fs ih =>
    have hrest : ∀ f ∈ fs, (QJsonValue.object f).Stored J.Exact kNestingLimit :=
      fun g hg => hfs g (List.mem_cons_of_mem f hg)
    rw [Workspace.pushFindings] at hpush
    rw [record]
    split at hpush
    · rename_i hkind
      rw [if_pos hkind]
      exact ih h hrest hpush
    rename_i hkind
    rw [if_neg hkind]
    split at hpush
    · have hfinding := finding_findingRow (hfs f List.mem_cons_self) eng author now (bound eng + 1)
      have hnext : Consistent J (raised bound eng (bound eng + 1))
          (upsertFinding rows (findingRow J eng author now (bound eng + 1) f))
          (replaced pushed (findingRow J eng author now (bound eng + 1) f) f) views := by
        constructor
        · have hstored := h.stored.upsert (findingRow J eng author now (bound eng + 1) f)
            (Nat.lt_succ_self _) (by rw [hfinding]; rfl)
          rwa [hfinding] at hstored
        · exact fun c e => (h.synced c e).upsert (findingRow J eng author now (bound eng + 1) f) f
            (Nat.lt_succ_self _)
      have hseq : raised bound eng (bound eng + 1) eng = bound eng + 1 := if_pos rfl
      have hpush' : Workspace.pushFindings J eng author now ok fs
          (raised bound eng (bound eng + 1) eng) (accepted + 1)
          (upsertFinding rows (findingRow J eng author now (bound eng + 1) f)) =
            some (newSeq, newAccepted, newRows) := by
        rw [hseq]
        exact hpush
      obtain ⟨hle, hdone⟩ := ih hnext hrest hpush'
      rw [hseq] at hle
      rw [raised_raised] at hdone
      exact ⟨Nat.le_of_succ_le hle, hdone⟩
    · exact absurd hpush (Option.some_ne_none _).symm

end Rows

section Engagements
variable {rows : List EngagementRow}

theorem find_map {f : EngagementRow → EngagementRow} (h : ∀ r, (f r).id = r.id) (e : QString) :
    (rows.map f).find? (·.id == e) = (rows.find? (·.id == e)).map f := by
  have hsame : (fun r : EngagementRow => r.id == e) ∘ f = (fun r => r.id == e) := by
    funext r
    exact congrArg (· == e) (h r)
  rw [List.find?_map, hsame]

theorem readSeq_upsertEngagement (id : QString) (name : Option QString) (now : Int) (e : QString) :
    readSeq (upsertEngagement rows id name now) e =
      if e = id then some ((readSeq rows id).getD 0) else readSeq rows e := by
  rw [upsertEngagement]
  split
  · rename_i hany
    have hkept : readSeq (rows.map (fun r =>
        if r.id = id then { r with name := name.or r.name } else r)) e = readSeq rows e := by
      have hid : ∀ r : EngagementRow,
          (if r.id = id then { r with name := name.or r.name } else r).id = r.id := by
        intro r
        split
        · rfl
        · rfl
      rw [readSeq, find_map hid, Option.map_map, readSeq]
      congr 1
      funext r
      rw [Function.comp_apply]
      split
      · rfl
      · rfl
    rw [hkept]
    split
    · rename_i he
      obtain ⟨r, hr⟩ := Option.isSome_iff_exists.1 (List.find?_isSome.2 (List.any_eq_true.1 hany))
      rw [he, readSeq, hr]
      rfl
    · rfl
  · rename_i hany
    have hnone : rows.find? (·.id == id) = none :=
      List.find?_eq_none.2 (fun r hr hid => hany (List.any_eq_true.2 ⟨r, hr, hid⟩))
    rw [readSeq, List.find?_append, readSeq]
    split
    · rename_i he
      rw [he, hnone, List.find?_cons_of_pos (by exact beq_self_eq_true id)]
      rfl
    · rename_i he
      have hne : ((⟨id, name, now, 0⟩ : EngagementRow).id == e) = false :=
        beq_eq_false_iff_ne.2 (Ne.symm he)
      rw [List.find?_cons_of_neg (by rw [hne]; exact Bool.false_ne_true), List.find?_nil,
        Option.or_none, readSeq]

theorem readSeq_writeSeq (id : QString) (seq : Nat) (e : QString) :
    readSeq (writeSeq rows id seq) e =
      if e = id then (readSeq rows id).map (fun _ => seq) else readSeq rows e := by
  have hid : ∀ r : EngagementRow, (if r.id = id then { r with seq := seq } else r).id = r.id := by
    intro r
    split
    · rfl
    · rfl
  rw [readSeq, writeSeq, find_map hid, Option.map_map]
  cases hfound : rows.find? (·.id == e) with
  | none =>
    split
    · rename_i he
      rw [readSeq, ← he, hfound]
      rfl
    · rw [readSeq, hfound]
      rfl
  | some r =>
    have hbeq : (r.id == e) = true := List.find?_some (p := fun r : EngagementRow => r.id == e) hfound
    have hr : r.id = e := eq_of_beq hbeq
    split
    · rename_i he
      rw [readSeq, ← he, hfound, Option.map_some, Option.map_some, Option.map_some,
        Function.comp_apply, if_pos hr]
    · rename_i he
      rw [readSeq, hfound, Option.map_some, Option.map_some, Function.comp_apply,
        if_neg (fun hid => he (hr.symm.trans hid))]

end Engagements

section Push
variable {J : JsonLibrary} {db : Database}

def pushedFindings (J : JsonLibrary) (body : QByteArray) : List QJsonObject :=
  (toArray ((documentObject J body).value "findings")).map QJsonValue.toObject

theorem push_cases (J : JsonLibrary) (db : Database) (body : QByteArray) (now : Int)
    (ok : Statement → Bool) :
    ((push J db body now ok).2 = db ∧
        ∀ eng newSeq accepted, (push J db body now ok).1 ≠ .ok eng newSeq accepted) ∨
      ∃ eng newSeq accepted author rows engagements,
        push J db body now ok =
          (.ok eng newSeq accepted, { engagements := engagements, findings := rows }) ∧
        pushFindings J eng author now ok (pushedFindings J body) (db.seq eng) 0 db.findings =
          some (newSeq, accepted, rows) ∧
        ∀ e, (readSeq engagements e).getD 0 = raised db.seq eng newSeq e := by
  rw [push]
  split
  · exact .inl ⟨rfl, nofun⟩
  split
  · exact .inl ⟨rfl, nofun⟩
  split
  · exact .inl ⟨rfl, nofun⟩
  dsimp only
  cases hread : ok .readSeq with
  | false => exact .inl ⟨rfl, nofun⟩
  | true =>
  rw [if_pos rfl, readSeq_upsertEngagement, if_pos rfl]
  dsimp only
  split
  · exact .inl ⟨rfl, nofun⟩
  · rename_i newSeq accepted rows hpush
    split
    · exact .inl ⟨rfl, nofun⟩
    split
    · exact .inl ⟨rfl, nofun⟩
    · refine .inr ⟨_, newSeq, accepted, _, rows, _, rfl, hpush, fun e => ?_⟩
      rw [readSeq_writeSeq, readSeq_upsertEngagement, if_pos rfl, readSeq_upsertEngagement, raised]
      split
      · rfl
      · rfl

end Push

section Pull
variable {J : JsonLibrary} {db : Database} {bound : QString → Nat} {pushed : Pushed}

theorem merge_other {fs : List QJsonObject} (h : ∀ f ∈ fs, identityKey f ≠ key) :
    merge held fs key = held key := by
  induction fs generalizing held with
  | nil => rfl
  | cons f fs ih =>
    rw [merge, ih (fun g hg => h g (List.mem_cons_of_mem f hg))]
    exact if_neg (Ne.symm (h f List.mem_cons_self))

theorem merge_mem {fs : List QJsonObject} (hf : f ∈ fs)
    (hkeys : fs.Pairwise (fun f g => identityKey f ≠ identityKey g)) :
    merge held fs (identityKey f) = some f := by
  induction fs generalizing held with
  | nil => exact absurd hf List.not_mem_nil
  | cons g fs ih =>
    obtain ⟨hg, hrest⟩ := List.pairwise_cons.1 hkeys
    rw [merge]
    rcases List.mem_cons.1 hf with rfl | hf
    · rw [merge_other (fun g hmem => (hg g hmem).symm)]
      exact if_pos rfl
    · exact ih hf hrest

theorem mem_selectFindings {r : FindingRow} {since : Nat} :
    r ∈ selectFindings db eng since ↔
      r ∈ db.findings ∧ r.engagement = eng ∧ since < r.seq := by
  rw [selectFindings, List.mem_mergeSort, List.mem_filter, Bool.and_eq_true, beq_iff_eq,
    decide_eq_true_eq]

theorem foldl_max_le {rows : List FindingRow} {since top : Nat} (hsince : since ≤ top)
    (h : ∀ r ∈ rows, r.seq ≤ top) : rows.foldl (fun seq r => max seq r.seq) since ≤ top := by
  induction rows generalizing since with
  | nil => exact hsince
  | cons r rows ih =>
    exact ih (Nat.max_le.2 ⟨hsince, h r List.mem_cons_self⟩)
      (fun r' hr' => h r' (List.mem_cons_of_mem r hr'))

theorem Stored.selected (h : Stored J bound db.findings pushed) (eng : QString) (since : Nat) :
    ((selectFindings db eng since).map (FindingRow.finding J)).Pairwise
      (fun f g => identityKey f ≠ identityKey g) := by
  have hperm : (selectFindings db eng since).Perm
      (db.findings.filter (fun r => r.engagement == eng && since < r.seq)) :=
    List.mergeSort_perm _ _
  have hkeys : (selectFindings db eng since).Pairwise (fun r r' => r.sameKey r' = false) :=
    hperm.symm.pairwise (h.keys.filter _) (fun hr => sameKey_symm hr)
  rw [List.pairwise_map]
  refine hkeys.imp_of_mem (fun {r r'} hr hr' hne => ?_)
  obtain ⟨hr, heng, -⟩ := mem_selectFindings.1 hr
  obtain ⟨hr', heng', -⟩ := mem_selectFindings.1 hr'
  rw [h.named r hr, h.named r' hr']
  exact fun hkey => Bool.eq_false_iff.1 hne (sameKey_iff.2 ⟨heng.trans heng'.symm, hkey⟩)

theorem pullView_held (h : Stored J bound db.findings pushed)
    (hv : Synced J bound db.findings pushed eng v) (hr : r ∈ db.findings)
    (heng : r.engagement = eng) : (pullView J db eng v).held r.ikey = some (r.finding J) := by
  rcases Nat.lt_or_ge v.cursor r.seq with hlt | hge
  · have hmem : r.finding J ∈ (selectFindings db eng v.cursor).map (FindingRow.finding J) :=
      List.mem_map_of_mem (mem_selectFindings.2 ⟨hr, heng, hlt⟩)
    rw [← h.named r hr]
    exact merge_mem hmem (h.selected eng v.cursor)
  · have hother : ∀ f ∈ (selectFindings db eng v.cursor).map (FindingRow.finding J),
        identityKey f ≠ r.ikey := by
      intro f hf hkey
      obtain ⟨r', hr', rfl⟩ := List.mem_map.1 hf
      obtain ⟨hr', heng', hlt⟩ := mem_selectFindings.1 hr'
      rw [h.named r' hr'] at hkey
      have hsame : r' = r := h.unique hr' hr (sameKey_iff.2 ⟨heng'.trans heng.symm, hkey⟩)
      rw [hsame] at hlt
      exact absurd hlt (Nat.not_lt.2 hge)
    exact (merge_other hother).trans (hv.seen r hr heng hge)

theorem pullView_complete (h : Stored J bound db.findings pushed)
    (hv : Synced J bound db.findings pushed eng v) : (pullView J db eng v).held = pushed eng := by
  funext key
  cases hpushed : pushed eng key with
  | some f =>
    obtain ⟨r, hr, rfl, rfl⟩ := h.present eng key (by rw [hpushed]; exact Option.some_ne_none f)
    rw [pullView_held h hv hr rfl, ← hpushed, h.version r hr]
  | none =>
    have hother : ∀ f ∈ (selectFindings db eng v.cursor).map (FindingRow.finding J),
        identityKey f ≠ key := by
      rintro f hf rfl
      obtain ⟨r, hr, rfl⟩ := List.mem_map.1 hf
      obtain ⟨hmem, rfl, -⟩ := mem_selectFindings.1 hr
      rw [h.named r hmem, h.version r hmem] at hpushed
      exact absurd hpushed (Option.some_ne_none _)
    refine (merge_other hother).trans ?_
    by_contra hne
    exact hv.held key hne hpushed

theorem Synced.pullView (h : Stored J bound db.findings pushed)
    (hv : Synced J bound db.findings pushed eng v) :
    Synced J bound db.findings pushed eng (pullView J db eng v) where
  cursor := foldl_max_le hv.cursor (fun r hr => by
    obtain ⟨hmem, rfl, -⟩ := mem_selectFindings.1 hr
    exact h.bounded r hmem)
  seen r hr heng _ := pullView_held h hv hr heng
  held key hne := by
    rw [pullView_complete h hv] at hne
    exact hne

end Pull

section Runs
variable (J : JsonLibrary)

def Team.Consistent (t : Team) : Prop :=
  Workspace.Consistent J t.db.seq t.db.findings t.pushed t.views

variable {J} {t : Team}

theorem pushedFindings_stored (J : JsonLibrary) (body : QByteArray) :
    ∀ f ∈ pushedFindings J body, (QJsonValue.object f).Stored J.Exact kNestingLimit := by
  intro f hf
  obtain ⟨v, hv, rfl⟩ := List.mem_map.1 hf
  have hrequest : (QJsonValue.object (documentObject J body)).Stored J.Exact kNestingLimit := by
    rw [documentObject]
    split
    · rename_i o ho
      exact (J.read_stored body _ ho).2
    · exact .object List.Pairwise.nil nofun
  exact (QJsonValue.Stored.elem (hrequest.value "findings") hv).toObject

theorem Team.Consistent.step (h : t.Consistent J) (a : TeamAction) :
    (Workspace.step J t a).Consistent J ∧
      ∀ eng, t.db.seq eng ≤ (Workspace.step J t a).db.seq eng := by
  cases a with
  | push body now ok =>
    rcases push_cases J t.db body now ok with ⟨hsame, hreply⟩ |
      ⟨eng, newSeq, accepted, author, rows, engagements, heq, hpush, hseq⟩
    · have hstep : Workspace.step J t (.push body now ok) = t := by
        rw [Workspace.step]
        split
        · rename_i eng newSeq accepted db heq
          exact absurd (congrArg Prod.fst heq) (hreply eng newSeq accepted)
        · rename_i db _ heq
          have hdb : db = t.db := (congrArg Prod.snd heq).symm.trans hsame
          rw [hdb]
      rw [hstep]
      exact ⟨h, fun _ => Nat.le_refl _⟩
    · have hbound : Database.seq { engagements := engagements, findings := rows } =
          raised t.db.seq eng newSeq := funext hseq
      obtain ⟨hle, hdone⟩ := Consistent.pushFindings h (pushedFindings_stored J body) hpush
      rw [Workspace.step, heq]
      refine ⟨?_, fun e => ?_⟩
      · rw [Team.Consistent]
        dsimp only
        rw [hbound]
        exact hdone
      · dsimp only
        rw [hbound, raised]
        split
        · rename_i he
          rw [he]
          exact hle
        · exact Nat.le_refl _
  | pull client eng =>
    refine ⟨⟨h.stored, fun c e => ?_⟩, fun _ => Nat.le_refl _⟩
    show Synced J t.db.seq t.db.findings t.pushed e
      (if c = client ∧ e = eng then pullView J t.db eng (t.views c e) else t.views c e)
    split
    · rename_i he
      have hv := h.synced c e
      rw [he.2] at hv ⊢
      exact hv.pullView h.stored
    · exact h.synced c e

end Runs

end Nullock.Workspace

import Nullock.HistoryRecords

namespace Nullock.ProjectStore
open QJsonObject Proxy HttpLogic
open SessionManager (toArray)

structure Finding where
  id : Int := 0
  rowId : Int := 0
  ts : QDateTime := none
  severity : QString := []
  kind : QString := []
  summary : QString := []
  evidence : QString := []
  host : QString := []
  url : QString := []
  cwe : QString := []
  owasp : QString := []
  cvssScore : Rat := 0
  cvssVector : QString := []
  compliance : List QString := []
  fixSummary : QString := []
  confidence : QString := []

structure ScanFinding (J : JsonLibrary) extends Finding where
  id_int : IsInt32 id
  rowId_int : IsInt32 rowId
  cvss_double : J.Exact cvssScore

namespace FindingSerial

def toJson (D : DateTimes) (f : Finding) : QJsonObject :=
  ofMembers [
    ("id", .double f.id),
    ("rowId", .double f.rowId),
    ("ts", .string (D.isoDateWithMs f.ts)),
    ("severity", .string f.severity),
    ("kind", .string f.kind),
    ("summary", .string f.summary),
    ("evidence", .string f.evidence),
    ("host", .string f.host),
    ("url", .string f.url),
    ("cwe", .string f.cwe),
    ("owasp", .string f.owasp),
    ("cvssScore", .double f.cvssScore),
    ("cvssVector", .string f.cvssVector),
    ("compliance", .array (f.compliance.map .string)),
    ("fixSummary", .string f.fixSummary),
    ("confidence", .string f.confidence)]

def fromJson (D : DateTimes) (o : QJsonObject) : Finding where
  id := (o.value "id").toInt 0
  rowId := (o.value "rowId").toInt 0
  ts := D.fromIsoDate (o.value "ts").toQString
  severity := (o.value "severity").toQString
  kind := (o.value "kind").toQString
  summary := (o.value "summary").toQString
  evidence := (o.value "evidence").toQString
  host := (o.value "host").toQString
  url := (o.value "url").toQString
  cwe := (o.value "cwe").toQString
  owasp := (o.value "owasp").toQString
  cvssScore := (o.value "cvssScore").toDouble
  cvssVector := (o.value "cvssVector").toQString
  compliance := (toArray (o.value "compliance")).map QJsonValue.toQString
  fixSummary := (o.value "fixSummary").toQString
  confidence := (o.value "confidence").toQString

end FindingSerial

def kUnitSeparator : UInt16 := 0x1F

def findingKey (f : Finding) : QString :=
  f.kind ++ kUnitSeparator :: (f.host ++ kUnitSeparator :: (f.url ++ kUnitSeparator :: f.summary))

def findingLine (J : JsonLibrary) (D : DateTimes) (f : Finding) : QByteArray :=
  J.compact (.object (FindingSerial.toJson D f))

def loadedFindings (J : JsonLibrary) (D : DateTimes) (content : QByteArray) : List Finding :=
  (recordsOf J (streamLines content)).map (FindingSerial.fromJson D)

section RoundTrip
variable {J : JsonLibrary} {D : DateTimes}

theorem finding_literal : ["id", "rowId", "ts", "severity", "kind", "summary", "evidence", "host",
    "url", "cwe", "owasp", "cvssScore", "cvssVector", "compliance", "fixSummary",
    "confidence"].all isLiteral = true := by
  decide

theorem fromJson_toJson (f : ScanFinding J) :
    FindingSerial.fromJson D (FindingSerial.toJson D f.toFinding) =
      { f.toFinding with ts := D.fromIsoDate (D.isoDateWithMs f.ts) } := by
  have hstrings : (f.compliance.map QJsonValue.string).map QJsonValue.toQString = f.compliance := by
    rw [List.map_map]
    exact (List.map_congr_left (fun _ _ => rfl)).trans (List.map_id _)
  simp (disch := first | decide | simpa only [List.map_cons, List.map_nil] using finding_literal)
    only [FindingSerial.fromJson, FindingSerial.toJson, value_lookup]
  simp only [List.lookup_cons, String.reduceBEq, Option.getD_some, QJsonValue.toQString,
    QJsonValue.toInt_double f.id_int, QJsonValue.toInt_double f.rowId_int, QJsonValue.toDouble,
    toArray, hstrings]

theorem stored_finding (f : ScanFinding J) :
    (QJsonValue.object (FindingSerial.toJson D f.toFinding)).Stored J.Exact (depth + 2) := by
  have hcompliance : (QJsonValue.array (f.compliance.map .string)).Stored J.Exact (depth + 1) := by
    refine .array (fun v hv => ?_)
    obtain ⟨s, _, rfl⟩ := List.mem_map.1 hv
    exact .string
  refine .ofMembers (fun m hm => ?_)
  simp only [List.mem_cons, List.not_mem_nil, or_false] at hm
  rcases hm with rfl | rfl | rfl | rfl | rfl | rfl | rfl | rfl | rfl | rfl | rfl | rfl | rfl | rfl |
    rfl | rfl
  · exact .double (J.exact_int32 f.id_int)
  · exact .double (J.exact_int32 f.rowId_int)
  · exact .string
  · exact .string
  · exact .string
  · exact .string
  · exact .string
  · exact .string
  · exact .string
  · exact .string
  · exact .string
  · exact .double f.cvss_double
  · exact .string
  · exact hcompliance
  · exact .string
  · exact .string

theorem loadedFindings_append (D : DateTimes) (f : ScanFinding J) (hc : Closed 0x0A content) :
    loadedFindings J D (content ++ (findingLine J D f.toFinding ++ [0x0A])) =
      loadedFindings J D content ++
        [{ f.toFinding with ts := D.fromIsoDate (D.isoDateWithMs f.ts) }] := by
  have hstored : (QJsonValue.object (FindingSerial.toJson D f.toFinding)).Stored J.Exact
      kNestingLimit := stored_finding f
  rw [loadedFindings, findingLine, recordsOf_append_line J hstored hc, List.map_append,
    List.map_singleton, fromJson_toJson]
  rfl

end RoundTrip

section Keys

def SameFinding (f g : Finding) : Prop :=
  f.kind = g.kind ∧ f.host = g.host ∧ f.url = g.url ∧ f.summary = g.summary

def NoSeparator (f : Finding) : Prop :=
  kUnitSeparator ∉ f.kind ∧ kUnitSeparator ∉ f.host ∧ kUnitSeparator ∉ f.url ∧
    kUnitSeparator ∉ f.summary

instance (f g : Finding) : Decidable (SameFinding f g) :=
  inferInstanceAs (Decidable (_ ∧ _ ∧ _ ∧ _))

instance (f : Finding) : Decidable (NoSeparator f) := inferInstanceAs (Decidable (_ ∧ _ ∧ _ ∧ _))

theorem append_cons_inj {x : α} {a b : List α} {a' b' : List α} (ha : x ∉ a) (ha' : x ∉ b)
    (h : a ++ x :: a' = b ++ x :: b') : a = b ∧ a' = b' := by
  induction a generalizing b with
  | nil =>
    cases b with
    | nil => exact ⟨rfl, (List.cons.inj h).2⟩
    | cons c b => exact absurd ((List.cons.inj h).1 ▸ List.mem_cons_self) ha'
  | cons c a ih =>
    cases b with
    | nil => exact absurd ((List.cons.inj h).1.symm ▸ List.mem_cons_self) ha
    | cons d b =>
      obtain ⟨hcd, hrest⟩ := List.cons.inj h
      obtain ⟨hab, hrest⟩ := ih (fun hm => ha (List.mem_cons_of_mem c hm))
        (fun hm => ha' (List.mem_cons_of_mem d hm)) hrest
      exact ⟨by rw [hcd, hab], hrest⟩

theorem count_findingKey (f : Finding) :
    (findingKey f).count kUnitSeparator =
      f.kind.count kUnitSeparator + f.host.count kUnitSeparator + f.url.count kUnitSeparator +
        f.summary.count kUnitSeparator + 3 := by
  rw [findingKey, List.count_append, List.count_cons_self, List.count_append, List.count_cons_self,
    List.count_append, List.count_cons_self]
  omega

theorem sameFinding_of_key (h : NoSeparator f) (hk : findingKey f = findingKey g) :
    SameFinding f g := by
  obtain ⟨hkind, hhost, hurl, hsummary⟩ := h
  have hcount := congrArg (List.count kUnitSeparator) hk
  rw [count_findingKey, count_findingKey, List.count_eq_zero_of_not_mem hkind,
    List.count_eq_zero_of_not_mem hhost, List.count_eq_zero_of_not_mem hurl,
    List.count_eq_zero_of_not_mem hsummary] at hcount
  have hg : NoSeparator g := by
    refine ⟨?_, ?_, ?_, ?_⟩ <;>
    · refine List.count_eq_zero.1 ?_
      omega
  rw [findingKey, findingKey] at hk
  obtain ⟨hk1, hk⟩ := append_cons_inj hkind hg.1 hk
  obtain ⟨hk2, hk⟩ := append_cons_inj hhost hg.2.1 hk
  obtain ⟨hk3, hk4⟩ := append_cons_inj hurl hg.2.2.1 hk
  exact ⟨hk1, hk2, hk3, hk4⟩

end Keys

end Nullock.ProjectStore

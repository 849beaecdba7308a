import Nullock.HarImport

namespace Nullock.ProjectStore
open QJsonObject Proxy HttpLogic
open SessionManager (toArray)

structure MatchReplaceRule where
  enabled : Bool := true
  name : QString := []
  hostGlob : QString := []
  ruleSection : Int := 1
  find : QString := []
  replace : QString := []
  caseInsensitive : Bool := true
  literal : Bool := false
  comment : QString := []

structure ProjectMeta where
  name : QString := []
  historyEpoch : QString := []
  historyAnnotations : QJsonObject := []
  inScope : List QString := []
  outOfScope : List QString := []
  notes : QString := []
  created : QDateTime := none
  updated : QDateTime := none
  rules : List MatchReplaceRule := []
  repeaterState : QJsonObject := []
  interceptRules : List QJsonValue := []
  interceptAutoContentLength : Bool := true
  interceptAutoFixNewlines : Bool := true
  logOutOfScope : Bool := false
  sessionMacros : List QJsonValue := []
  advancedScope : List QJsonValue := []
  acceptInvalidUpstreamHosts : List QJsonValue := []
  sessionRulesJson : List QJsonValue := []
  cookieJar : List QJsonValue := []
  suppressedKinds : List QString := []
  falsePositiveKeys : List QString := []
  severityOverrides : List QJsonValue := []
  deletedKeys : List QString := []

def kCredentialMarkers : List QString :=
  ["cookie", "set-cookie", "authorization", "proxy-authorization", "bearer", "x-api-key",
    "x-auth-token", "x-csrf-token", "x-xsrf-token", "x-session-id", "x-amz-security-token"].map utf16

def isWildcardHost (g : QString) : Bool :=
  let t := QString.trimmed g
  t.isEmpty || t == utf16 "*" || t == utf16 ".*" || t == utf16 "**"

def looksCredential (s : QString) : Bool :=
  kCredentialMarkers.any (fun marker => (indexOf marker (toLower s)).isSome)

def ruleFromJson (r : QJsonObject) : MatchReplaceRule where
  enabled := (r.value "enabled").toBool true
  name := (r.value "name").toQString
  hostGlob := (r.value "hostGlob").toQString
  ruleSection := (r.value "section").toInt 1
  find := (r.value "find").toQString
  replace := (r.value "replace").toQString
  caseInsensitive := (r.value "caseInsensitive").toBool true
  literal := (r.value "literal").toBool false
  comment := (r.value "comment").toQString

def kQuarantineTag : QString :=
  utf16 (" [QUARANTINED on load: catch-all host + credential-header touch. " ++
    "Review and re-enable if intentional.]")

/-- A rule that is loaded; one for every host that touches credentials is disabled. -/
def quarantined (rule : MatchReplaceRule) : MatchReplaceRule :=
  if rule.enabled && isWildcardHost rule.hostGlob &&
      (looksCredential rule.find || looksCredential rule.replace) then
    { rule with
      enabled := false
      comment :=
        if (indexOf (utf16 "QUARANTINED") rule.comment).isSome then rule.comment
        else rule.comment ++ kQuarantineTag }
  else rule

def ruleToJson (r : MatchReplaceRule) : QJsonValue :=
  .object (ofMembers [
    ("enabled", .bool r.enabled),
    ("name", .string r.name),
    ("hostGlob", .string r.hostGlob),
    ("section", .double r.ruleSection),
    ("find", .string r.find),
    ("replace", .string r.replace),
    ("caseInsensitive", .bool r.caseInsensitive),
    ("literal", .bool r.literal),
    ("comment", .string r.comment)])

def stringsFromJson (v : QJsonValue) : List QString := (toArray v).map QJsonValue.toQString

def stringsToJson (strings : List QString) : QJsonValue := .array (strings.map .string)

def rowNoteValid (m : QString × QJsonValue) : Bool :=
  let id := QString.toInt m.1
  0 < id && QString.number id == m.1 &&
    match m.2 with
    | .null => true
    | .object note => (annotationError note).isEmpty
    | _ => false

section Metadata
variable (J : JsonLibrary) (D : DateTimes)

/-- The members up to the annotations, over what was there before. -/
def metadataHead (o : QJsonObject) (before : ProjectMeta) : ProjectMeta :=
  { before with
    name := (o.value "name").toQString
    historyEpoch := (o.value "historyEpoch").toQString
    notes := (o.value "notes").toQString
    created := D.fromIsoDate (o.value "created").toQString
    updated := D.fromIsoDate (o.value "updated").toQString
    inScope := stringsFromJson (o.value "inScope")
    outOfScope := stringsFromJson (o.value "outOfScope")
    rules := (toArray (o.value "rules")).map (fun v => quarantined (ruleFromJson v.toObject))
    repeaterState := (o.value "repeater").toObject
    historyAnnotations := (o.value "historyAnnotations").toObject }

def metadataRest (o : QJsonObject) (before : ProjectMeta) : ProjectMeta :=
  { before with
    interceptRules := toArray (o.value "interceptRules")
    interceptAutoContentLength := (o.value "interceptAutoContentLength").toBool true
    interceptAutoFixNewlines := (o.value "interceptAutoFixNewlines").toBool true
    logOutOfScope := (o.value "logOutOfScope").toBool false
    sessionMacros := toArray (o.value "sessionMacros")
    advancedScope := toArray (o.value "advancedScope")
    acceptInvalidUpstreamHosts := toArray (o.value "acceptInvalidUpstreamHosts")
    sessionRulesJson := toArray (o.value "sessionRules")
    cookieJar := toArray (o.value "cookieJar")
    suppressedKinds := stringsFromJson (o.value "suppressedKinds")
    falsePositiveKeys := stringsFromJson (o.value "falsePositiveKeys")
    severityOverrides := toArray (o.value "severityOverrides")
    deletedKeys := stringsFromJson (o.value "deletedKeys") }

def annotationsValid (annotations : QJsonObject) : Bool :=
  NotesFit J annotations && annotations.all rowNoteValid

/-- The metadata that is read from a project file, and whether all of it is. -/
def metadataFromJson (o : QJsonObject) (before : ProjectMeta) : Bool × ProjectMeta :=
  if annotationsValid J (o.value "historyAnnotations").toObject then
    (true, metadataRest o (metadataHead D o before))
  else (false, metadataHead D o before)

def metadataToJson (m : ProjectMeta) : QJsonObject :=
  ofMembers [
    ("v", .double kSchemaVersion),
    ("name", .string m.name),
    ("historyEpoch", .string m.historyEpoch),
    ("historyAnnotations", .object m.historyAnnotations),
    ("notes", .string m.notes),
    ("created", .string (D.isoDateWithMs m.created)),
    ("updated", .string (D.isoDateWithMs m.updated)),
    ("inScope", stringsToJson m.inScope),
    ("outOfScope", stringsToJson m.outOfScope),
    ("rules", .array (m.rules.map ruleToJson)),
    ("repeater", .object m.repeaterState),
    ("interceptRules", .array m.interceptRules),
    ("interceptAutoContentLength", .bool m.interceptAutoContentLength),
    ("interceptAutoFixNewlines", .bool m.interceptAutoFixNewlines),
    ("logOutOfScope", .bool m.logOutOfScope),
    ("sessionMacros", .array m.sessionMacros),
    ("advancedScope", .array m.advancedScope),
    ("acceptInvalidUpstreamHosts", .array m.acceptInvalidUpstreamHosts),
    ("sessionRules", .array m.sessionRulesJson),
    ("cookieJar", .array m.cookieJar),
    ("suppressedKinds", stringsToJson m.suppressedKinds),
    ("falsePositiveKeys", stringsToJson m.falsePositiveKeys),
    ("severityOverrides", .array m.severityOverrides),
    ("deletedKeys", stringsToJson m.deletedKeys)]

def metadataBytes (m : ProjectMeta) : QByteArray := J.indented (.object (metadataToJson D m))

end Metadata

structure Storable (J : JsonLibrary) (depth : Nat) (m : ProjectMeta) : Prop where
  annotations : (QJsonValue.object m.historyAnnotations).Stored J.Exact depth
  repeater : (QJsonValue.object m.repeaterState).Stored J.Exact depth
  ruleSections : ∀ r ∈ m.rules, IsInt32 r.ruleSection
  arrays : ∀ a ∈ [m.interceptRules, m.sessionMacros, m.advancedScope, m.acceptInvalidUpstreamHosts,
    m.sessionRulesJson, m.cookieJar, m.severityOverrides],
    (QJsonValue.array a).Stored J.Exact depth

section Storable
variable {J : JsonLibrary} {D : DateTimes} {m : ProjectMeta}

theorem stored_strings (strings : List QString) :
    (stringsToJson strings).Stored J.Exact (depth + 1) := by
  refine .array (fun v hv => ?_)
  obtain ⟨s, _, rfl⟩ := List.mem_map.1 hv
  exact .string

theorem stored_rule {r : MatchReplaceRule} (h : IsInt32 r.ruleSection) :
    (ruleToJson r).Stored J.Exact (depth + 1) := by
  refine .ofMembers (fun m hm => ?_)
  simp only [List.mem_cons, List.not_mem_nil, or_false] at hm
  rcases hm with rfl | rfl | rfl | rfl | rfl | rfl | rfl | rfl | rfl
  · exact .bool
  · exact .string
  · exact .string
  · exact .double (J.exact_int32 h)
  · exact .string
  · exact .string
  · exact .bool
  · exact .bool
  · exact .string

theorem stored_metadata (h : Storable J (depth + 2) m) :
    (QJsonValue.object (metadataToJson D m)).Stored J.Exact (depth + 3) := by
  have hrules : (QJsonValue.array (m.rules.map ruleToJson)).Stored J.Exact (depth + 2) := by
    refine .array (fun v hv => ?_)
    obtain ⟨r, hr, rfl⟩ := List.mem_map.1 hv
    exact stored_rule (h.ruleSections r hr)
  have harrays := h.arrays
  simp only [List.forall_mem_cons, List.not_mem_nil, false_implies, implies_true, and_true]
    at harrays
  obtain ⟨hintercept, hmacros, hscope, hhosts, hsession, hcookies, hseverity⟩ := harrays
  refine .ofMembers (fun v hv => ?_)
  simp only [List.mem_cons, List.not_mem_nil, or_false] at hv
  rcases hv with rfl | rfl | rfl | rfl | rfl | rfl | rfl | rfl | rfl | rfl | rfl | rfl | rfl | rfl |
    rfl | rfl | rfl | rfl | rfl | rfl | rfl | rfl | rfl | rfl
  · exact .double (J.exact_nat (by decide))
  · exact .string
  · exact .string
  · exact h.annotations
  · exact .string
  · exact .string
  · exact .string
  · exact stored_strings _
  · exact stored_strings _
  · exact hrules
  · exact h.repeater
  · exact hintercept
  · exact .bool
  · exact .bool
  · exact .bool
  · exact hmacros
  · exact hscope
  · exact hhosts
  · exact hsession
  · exact hcookies
  · exact stored_strings _
  · exact stored_strings _
  · exact hseverity
  · exact stored_strings _

theorem metadata_literal : ["v", "name", "historyEpoch", "historyAnnotations", "notes", "created",
    "updated", "inScope", "outOfScope", "rules", "repeater", "interceptRules",
    "interceptAutoContentLength", "interceptAutoFixNewlines", "logOutOfScope", "sessionMacros",
    "advancedScope", "acceptInvalidUpstreamHosts", "sessionRules", "cookieJar", "suppressedKinds",
    "falsePositiveKeys", "severityOverrides", "deletedKeys"].all isLiteral = true := by
  decide

theorem metadata_epoch (D : DateTimes) (m : ProjectMeta) :
    ((metadataToJson D m).value "historyEpoch").toQString = m.historyEpoch := by
  simp (disch := first | decide | simpa only [List.map_cons, List.map_nil] using metadata_literal)
    only [metadataToJson, value_lookup]
  simp only [List.lookup_cons, String.reduceBEq, Option.getD_some, QJsonValue.toQString]

theorem metadata_annotations (D : DateTimes) (m : ProjectMeta) :
    ((metadataToJson D m).value "historyAnnotations").toObject = m.historyAnnotations := by
  simp (disch := first | decide | simpa only [List.map_cons, List.map_nil] using metadata_literal)
    only [metadataToJson, value_lookup]
  simp only [List.lookup_cons, String.reduceBEq, Option.getD_some, QJsonValue.toObject]

end Storable

end Nullock.ProjectStore

import Nullock.Intruder
import Nullock.FindingSerial

namespace Nullock.IntruderPersist
open Intruder IntruderEngine IntruderRules QJsonObject SessionManager

def kFormatVersion : Int := 1

/-- A saved attack with the format's version and the pause between two requests. -/
structure RunFile extends SavedRun where
  version : Int := kFormatVersion
  throttleMs : Int := 0

def toNullable : QJsonValue → Option QString
  | .string s => some s
  | _ => none

def comboToJson (combo : Combo) : QJsonValue :=
  .array (combo.map (fun v => match v with
    | none => .null
    | some v => .string v))

def comboFromJson (a : List QJsonValue) : Combo := a.map toNullable

def stringsToJson (xs : List QString) : QJsonValue := .array (xs.map .string)

def stringsFromJson (a : List QJsonValue) : List QString := a.map QJsonValue.toQString

def rulesToJson (rules : List Rule) : QJsonValue :=
  .array (rules.map (fun r => .object (ofMembers [("op", .string r.op), ("arg", .string r.arg)])))

def rulesFromJson (a : List QJsonValue) : List Rule :=
  a.map (fun v =>
    { op := (v.toObject.value "op").toQString
      arg := (v.toObject.value "arg").toQString })

def rowToJson (r : ResultRow) : QJsonObject :=
  ofMembers [
    ("id", .double r.id),
    ("payloads", stringsToJson r.payloadValues),
    ("combo", comboToJson r.combo),
    ("status", .double r.statusCode),
    ("size", .double r.responseSize),
    ("ms", .double r.elapsedMs),
    ("err", .string r.errorMessage),
    ("complete", .bool r.complete),
    ("matched", .bool r.matched),
    ("reflected", .bool r.reflected),
    ("extracted", .string r.extracted)]

def rowFromJson (o : QJsonObject) : ResultRow where
  id := (o.value "id").toInt 0
  payloadValues := stringsFromJson (toArray (o.value "payloads"))
  combo := comboFromJson (toArray (o.value "combo"))
  statusCode := (o.value "status").toInt 0
  responseSize := ((o.value "size").toInt 0).toNat
  elapsedMs := (o.value "ms").toInt 0
  errorMessage := (o.value "err").toQString
  complete := (o.value "complete").toBool false
  matched := (o.value "matched").toBool false
  reflected := (o.value "reflected").toBool false
  extracted := (o.value "extracted").toQString

def extractToJson (spec : ExtractSpec) : QJsonObject :=
  ofMembers [
    ("regex", .string spec.regex),
    ("start", .string spec.start),
    ("end", .string spec.end_)]

def extractFromJson (o : QJsonObject) : ExtractSpec where
  regex := (o.value "regex").toQString
  start := (o.value "start").toQString
  end_ := (o.value "end").toQString

def configMembers (c : RunConfig) (throttleMs : Int) : List (String × QJsonValue) :=
  [ ("host", .string c.host),
    ("port", .double c.port),
    ("tls", .bool c.tls),
    ("template", .string c.requestTemplate),
    ("requestLatin1", .bool c.requestLatin1),
    ("attackType", .double c.attackType),
    ("payloadSets", stringsToJson c.payloadSets),
    ("rules", rulesToJson c.rules),
    ("grepMatch", stringsToJson c.grepMatch),
    ("grepPayloadReflection", .bool c.grepPayloadReflection),
    ("grepExtract", .object (extractToJson c.grepExtract)),
    ("concurrency", .double c.concurrency),
    ("throttleMs", .double throttleMs),
    ("retries", .double c.retries),
    ("globalEncodeChars", .string c.globalEncodeChars),
    ("recursiveGrep", .bool c.recursiveGrep),
    ("recursiveGrepSeed", .string (c.recursiveGrepSeed.getD [])),
    ("recursiveGrepCount", .double c.recursiveGrepCount),
    ("followPolicy", .double c.followPolicy),
    ("followCookies", .bool c.followCookies)]

def configToJson (c : RunConfig) (throttleMs : Int) : QJsonObject :=
  ofMembers (configMembers c throttleMs)

def configFromJson (o : QJsonObject) : RunConfig where
  host := (o.value "host").toQString
  port := (o.value "port").toInt 443
  tls := (o.value "tls").toBool true
  requestTemplate := (o.value "template").toQString
  requestLatin1 := (o.value "requestLatin1").toBool false
  attackType := (o.value "attackType").toInt 0
  payloadSets := stringsFromJson (toArray (o.value "payloadSets"))
  rules := rulesFromJson (toArray (o.value "rules"))
  grepMatch := stringsFromJson (toArray (o.value "grepMatch"))
  grepPayloadReflection := (o.value "grepPayloadReflection").toBool false
  grepExtract := extractFromJson (o.value "grepExtract").toObject
  concurrency := (o.value "concurrency").toInt 10
  retries := (o.value "retries").toInt 0
  globalEncodeChars := (o.value "globalEncodeChars").toQString
  recursiveGrep := (o.value "recursiveGrep").toBool false
  recursiveGrepSeed := toNullable (o.value "recursiveGrepSeed")
  recursiveGrepCount := (o.value "recursiveGrepCount").toInt 10
  followPolicy := (o.value "followPolicy").toInt 0
  followCookies := (o.value "followCookies").toBool true

def toJson (run : RunFile) : QJsonObject :=
  ofMembers [
    ("kind", .string (utf16 "nullock.intruder.run")),
    ("version", .double run.version),
    ("config", .object (configToJson run.config run.throttleMs)),
    ("rows", .array (run.rows.map (fun r => .object (rowToJson r))))]

def fromJson (obj : QJsonObject) : RunFile where
  version := if obj.contains "version" then (obj.value "version").toInt kFormatVersion
    else kFormatVersion
  config := configFromJson (obj.value "config").toObject
  throttleMs := ((obj.value "config").toObject.value "throttleMs").toInt 0
  rows := (toArray (obj.value "rows")).map (fun v => rowFromJson v.toObject)

def toBytes (J : JsonLibrary) (run : RunFile) : QByteArray := J.compact (.object (toJson run))

def fromBytes (J : JsonLibrary) (bytes : QByteArray) : RunFile :=
  match J.fromJson bytes with
  | some (.object obj) => fromJson obj
  | _ => {}

section RoundTrip

structure IntRow (r : ResultRow) : Prop where
  id_int : IsInt32 r.id
  status_int : IsInt32 r.statusCode
  size_int : IsInt32 r.responseSize
  elapsed_int : IsInt32 r.elapsedMs

structure IntConfig (c : RunConfig) : Prop where
  port_int : IsInt32 c.port
  attackType_int : IsInt32 c.attackType
  concurrency_int : IsInt32 c.concurrency
  retries_int : IsInt32 c.retries
  count_int : IsInt32 c.recursiveGrepCount
  policy_int : IsInt32 c.followPolicy

def readBack (c : RunConfig) : RunConfig :=
  { c with recursiveGrepSeed := some (c.recursiveGrepSeed.getD []) }

theorem toObject_object (o : QJsonObject) : (QJsonValue.object o).toObject = o := rfl

theorem strings_back (xs : List QString) : stringsFromJson (toArray (stringsToJson xs)) = xs := by
  simp only [stringsFromJson, stringsToJson, toArray, List.map_map]
  exact (List.map_congr_left (fun _ _ => rfl)).trans (List.map_id _)

theorem combo_back (combo : Combo) : comboFromJson (toArray (comboToJson combo)) = combo := by
  simp only [comboFromJson, comboToJson, toArray, List.map_map]
  refine (List.map_congr_left (fun v _ => ?_)).trans (List.map_id _)
  cases v with
  | none => rfl
  | some s => rfl

theorem rules_back (rules : List Rule) : rulesFromJson (toArray (rulesToJson rules)) = rules := by
  simp only [rulesFromJson, rulesToJson, toArray, List.map_map]
  refine (List.map_congr_left (fun r _ => ?_)).trans (List.map_id _)
  simp (disch := decide) only [Function.comp_apply, QJsonValue.toObject, value_ofMembers,
    String.reduceEq, if_true, if_false, QJsonValue.toQString]
  rfl

theorem extract_back (spec : ExtractSpec) : extractFromJson (extractToJson spec) = spec := by
  simp (disch := decide) only [extractFromJson, extractToJson, value_ofMembers, String.reduceEq,
    if_true, if_false, QJsonValue.toQString]

theorem size_back (h : IsInt32 (n : Nat)) : ((QJsonValue.double (n : Rat)).toInt 0).toNat = n := by
  have hcast : ((n : Nat) : Rat) = ((n : Int) : Rat) := (Int.cast_natCast n).symm
  rw [hcast, QJsonValue.toInt_double h, Int.toNat_natCast]

theorem row_literal : ["id", "payloads", "combo", "status", "size", "ms", "err", "complete", "matched",
    "reflected", "extracted"].all isLiteral = true := by
  decide

theorem row_back (h : IntRow r) : rowFromJson (rowToJson r) = r := by
  simp (disch := first | decide | simpa only [List.map_cons, List.map_nil] using row_literal)
    only [rowFromJson, rowToJson, value_lookup]
  simp only [List.lookup_cons, String.reduceBEq, Option.getD_some,
    QJsonValue.toInt_double h.id_int, QJsonValue.toInt_double h.status_int,
    QJsonValue.toInt_double h.elapsed_int, size_back h.size_int, strings_back, combo_back,
    QJsonValue.toQString, QJsonValue.toBool]

theorem config_value (c : RunConfig) (throttleMs : Int) (h : isLiteral key = true) :
    (configToJson c throttleMs).value key =
      ((configMembers c throttleMs).lookup key).getD .undefined := by
  apply value_lookup h
  show ["host", "port", "tls", "template", "requestLatin1", "attackType", "payloadSets", "rules",
    "grepMatch", "grepPayloadReflection", "grepExtract", "concurrency", "throttleMs", "retries",
    "globalEncodeChars", "recursiveGrep", "recursiveGrepSeed", "recursiveGrepCount",
    "followPolicy", "followCookies"].all isLiteral = true
  decide

theorem config_back (h : IntConfig c) (throttleMs : Int) :
    configFromJson (configToJson c throttleMs) = readBack c := by
  simp (disch := decide) only [configFromJson, config_value, configMembers, List.lookup_cons,
    String.reduceBEq, Option.getD_some,
    QJsonValue.toInt_double h.port_int, QJsonValue.toInt_double h.attackType_int,
    QJsonValue.toInt_double h.concurrency_int, QJsonValue.toInt_double h.retries_int,
    QJsonValue.toInt_double h.count_int, QJsonValue.toInt_double h.policy_int, strings_back,
    rules_back, QJsonValue.toObject, extract_back, QJsonValue.toQString, QJsonValue.toBool,
    toNullable]
  rfl

theorem throttle_back (c : RunConfig) (h : IsInt32 throttleMs) :
    ((configToJson c throttleMs).value "throttleMs").toInt 0 = throttleMs := by
  rw [config_value c throttleMs (by decide)]
  simp only [configMembers, List.lookup_cons, String.reduceBEq, Option.getD_some,
    QJsonValue.toInt_double h]

theorem rows_back {rows : List ResultRow} (h : ∀ r ∈ rows, IntRow r) :
    (rows.map (fun r => QJsonValue.object (rowToJson r))).map
      (fun v => rowFromJson v.toObject) = rows := by
  rw [List.map_map]
  refine (List.map_congr_left (fun r hr => ?_)).trans (List.map_id _)
  rw [Function.comp_apply, toObject_object, row_back (h r hr)]
  rfl

theorem fromJson_toJson {run : RunFile} (hversion : IsInt32 run.version)
    (hthrottle : IsInt32 run.throttleMs) (hconfig : IntConfig run.config)
    (hrows : ∀ r ∈ run.rows, IntRow r) :
    fromJson (toJson run) = { run with config := readBack run.config } := by
  simp (disch := decide) only [fromJson, toJson, value_ofMembers, contains_ofMembers,
    String.reduceEq, if_true, if_false, QJsonValue.toInt_double hversion, toObject_object,
    toArray, config_back hconfig, throttle_back run.config hthrottle, rows_back hrows]

section Bytes
variable {J : JsonLibrary}

theorem stored_strings (xs : List QString) : (stringsToJson xs).Stored J.Exact (depth + 1) := by
  apply QJsonValue.Stored.array
  intro v hv
  obtain ⟨s, _, rfl⟩ := List.mem_map.1 hv
  exact .string

theorem stored_combo (combo : Combo) : (comboToJson combo).Stored J.Exact (depth + 1) := by
  apply QJsonValue.Stored.array
  intro v hv
  obtain ⟨s, _, rfl⟩ := List.mem_map.1 hv
  cases s with
  | none => exact .null
  | some s => exact .string

theorem stored_rules (rules : List Rule) : (rulesToJson rules).Stored J.Exact (depth + 2) := by
  apply QJsonValue.Stored.array
  intro v hv
  obtain ⟨r, _, rfl⟩ := List.mem_map.1 hv
  apply QJsonValue.Stored.ofMembers
  intro m hm
  simp only [List.mem_cons, List.not_mem_nil, or_false] at hm
  rcases hm with rfl | rfl
  · exact .string
  · exact .string

theorem exact_size (h : IsInt32 (n : Nat)) : J.Exact (n : Rat) :=
  J.exact_nat (by have := h.2; omega)

theorem stored_row (h : IntRow r) :
    (QJsonValue.object (rowToJson r)).Stored J.Exact (depth + 2) := by
  apply QJsonValue.Stored.ofMembers
  intro m hm
  simp only [List.mem_cons, List.not_mem_nil, or_false] at hm
  rcases hm with rfl | rfl | rfl | rfl | rfl | rfl | rfl | rfl | rfl | rfl | rfl
  · exact .double (J.exact_int32 h.id_int)
  · exact stored_strings r.payloadValues
  · exact stored_combo r.combo
  · exact .double (J.exact_int32 h.status_int)
  · exact .double (exact_size h.size_int)
  · exact .double (J.exact_int32 h.elapsed_int)
  · exact .string
  · exact .bool
  · exact .bool
  · exact .bool
  · exact .string

theorem stored_extract (spec : ExtractSpec) :
    (QJsonValue.object (extractToJson spec)).Stored J.Exact (depth + 1) := by
  apply QJsonValue.Stored.ofMembers
  intro m hm
  simp only [List.mem_cons, List.not_mem_nil, or_false] at hm
  rcases hm with rfl | rfl | rfl
  · exact .string
  · exact .string
  · exact .string

theorem stored_config (h : IntConfig c) (hthrottle : IsInt32 throttleMs) :
    (QJsonValue.object (configToJson c throttleMs)).Stored J.Exact (depth + 3) := by
  apply QJsonValue.Stored.ofMembers
  intro m hm
  simp only [configMembers, List.mem_cons, List.not_mem_nil, or_false] at hm
  rcases hm with rfl | rfl | rfl | rfl | rfl | rfl | rfl | rfl | rfl | rfl | rfl | rfl | rfl | rfl |
    rfl | rfl | rfl | rfl | rfl | rfl
  · exact .string
  · exact .double (J.exact_int32 h.port_int)
  · exact .bool
  · exact .string
  · exact .bool
  · exact .double (J.exact_int32 h.attackType_int)
  · exact stored_strings c.payloadSets
  · exact stored_rules c.rules
  · exact stored_strings c.grepMatch
  · exact .bool
  · exact stored_extract c.grepExtract
  · exact .double (J.exact_int32 h.concurrency_int)
  · exact .double (J.exact_int32 hthrottle)
  · exact .double (J.exact_int32 h.retries_int)
  · exact .string
  · exact .bool
  · exact .string
  · exact .double (J.exact_int32 h.count_int)
  · exact .double (J.exact_int32 h.policy_int)
  · exact .bool

theorem stored_run {run : RunFile} (hversion : IsInt32 run.version)
    (hthrottle : IsInt32 run.throttleMs) (hconfig : IntConfig run.config)
    (hrows : ∀ r ∈ run.rows, IntRow r) :
    (QJsonValue.object (toJson run)).Stored J.Exact kNestingLimit := by
  apply QJsonValue.Stored.ofMembers
  intro m hm
  simp only [List.mem_cons, List.not_mem_nil, or_false] at hm
  rcases hm with rfl | rfl | rfl | rfl
  · exact .string
  · exact .double (J.exact_int32 hversion)
  · exact stored_config hconfig hthrottle
  · apply QJsonValue.Stored.array
    intro v hv
    obtain ⟨r, hr, rfl⟩ := List.mem_map.1 hv
    exact stored_row (hrows r hr)

theorem fromBytes_toBytes {run : RunFile} (hversion : IsInt32 run.version)
    (hthrottle : IsInt32 run.throttleMs) (hconfig : IntConfig run.config)
    (hrows : ∀ r ∈ run.rows, IntRow r) :
    fromBytes J (toBytes J run) = { run with config := readBack run.config } := by
  have hread := J.read_compact (.object (toJson run)) rfl
    (stored_run hversion hthrottle hconfig hrows)
  rw [fromBytes, toBytes, hread]
  exact fromJson_toJson hversion hthrottle hconfig hrows

end Bytes

end RoundTrip

end Nullock.IntruderPersist

import Nullock.Base64
import Nullock.CookieJar
import Nullock.JsonDocuments
import Nullock.RecordLines

namespace Nullock

abbrev QDateTime := Option Int64

/-- What the dates of the records rest on. -/
structure DateTimes where
  /-- The text of a date in UTC, with milliseconds; it is empty for an invalid one. -/
  isoDateWithMs : QDateTime → QString
  fromIsoDate : QString → QDateTime
  /-- What an invalid date gives as its milliseconds. -/
  invalidMSecs : Int64

def DateTimes.toMSecsSinceEpoch (D : DateTimes) (date : QDateTime) : Int64 :=
  date.getD D.invalidMSecs

theorem QJsonValue.isInt32_toInt (h : IsInt32 default) (v : QJsonValue) :
    IsInt32 (v.toInt default) := by
  cases v with
  | double d =>
    rw [toInt]
    split
    · rename_i hd
      exact hd.2
    · exact h
  | _ => exact h

theorem QJsonValue.toInt_double (h : IsInt32 n) (default : Int) :
    (QJsonValue.double n).toInt default = n := by
  rw [toInt, if_pos ⟨Rat.den_intCast n, by rwa [Rat.num_intCast]⟩, Rat.num_intCast]

def QJsonValue.toLongLong : QJsonValue → Int64
  | .double d => Int64.ofInt (if d.den = 1 then d.num else (d + 1 / 2).floor)
  | _ => 0

end Nullock

namespace Nullock.Proxy

/-- A request as the history holds it. -/
@[ext] structure HistoryRequest extends ProxiedRequest where
  timestamp : QDateTime
  port_lt : port < 65536

/-- A response as the history holds it, without the decoded copy of its body. -/
@[ext] structure HistoryResponse extends HttpResponse where
  peerAddress : QString
  wasTls : Bool
  status_int : IsInt32 statusCode

end Nullock.Proxy

namespace Nullock.ProjectStore
open QJsonObject Proxy HttpLogic
open SessionManager (toArray)

def kSchemaVersion : Int := 1

def headersToJson (headers : List Header) : QJsonValue :=
  .array (headers.map (fun h => .array [.string h.1, .string h.2]))

def headersFromJson (arr : List QJsonValue) : List Header :=
  arr.filterMap (fun v =>
    match toArray v with
    | [name, value] => some (name.toQString, value.toQString)
    | _ => none)

def bodyToJson (body : QByteArray) : QJsonValue :=
  .string (fromLatin1 (QByteArray.toBase64 body))

def bodyFromJson (v : QJsonValue) : QByteArray :=
  QByteArray.fromBase64 (toLatin1 v.toQString)

def requestToJson (r : HistoryRequest) : QJsonObject :=
  ofMembers [
    ("method", .string r.method),
    ("host", .string r.host),
    ("port", .double (r.port : Int)),
    ("path", .string r.path),
    ("target", .string r.target),
    ("httpVersion", .string r.httpVersion),
    ("headers", headersToJson r.headers),
    ("body_b64", bodyToJson r.body)]

def responseToJson (r : HistoryResponse) : QJsonObject :=
  ofMembers [
    ("httpVersion", .string r.httpVersion),
    ("statusCode", .double r.statusCode),
    ("reasonPhrase", .string r.reasonPhrase),
    ("headers", headersToJson r.headers),
    ("body_b64", bodyToJson r.body),
    ("peerAddress", .string r.peerAddress),
    ("wasTls", .bool r.wasTls)]

def requestFromJson (o : QJsonObject) : HistoryRequest where
  method := (o.value "method").toQString
  host := (o.value "host").toQString
  port := ((o.value "port").toInt 80 % 65536).toNat
  path := (o.value "path").toQString
  target := (o.value "target").toQString
  httpVersion := (o.value "httpVersion").toQString
  headers := headersFromJson (toArray (o.value "headers"))
  body := bodyFromJson (o.value "body_b64")
  tls := false
  timestamp := none
  port_lt := by omega

def responseFromJson (o : QJsonObject) : HistoryResponse where
  httpVersion := (o.value "httpVersion").toQString
  statusCode := (o.value "statusCode").toInt 0
  reasonPhrase := (o.value "reasonPhrase").toQString
  headers := headersFromJson (toArray (o.value "headers"))
  body := bodyFromJson (o.value "body_b64")
  peerAddress := (o.value "peerAddress").toQString
  wasTls := (o.value "wasTls").toBool false
  status_int := QJsonValue.isInt32_toInt (by decide) _

def entryToJson (D : DateTimes) (request : HistoryRequest) (response : HistoryResponse)
    ( annotation : QJsonObject) : QJsonObject :=
  ofMembers ([
    ("v", .double kSchemaVersion),
    ("ts", .string (D.isoDateWithMs request.timestamp)),
    ("request", .object (requestToJson request)),
    ("response", .object (responseToJson response))] ++
    if annotation.isEmpty then [] else [("annotation", .object annotation)])

def entryLine (J : JsonLibrary) (D : DateTimes) (request : HistoryRequest)
    (response : HistoryResponse) ( annotation : QJsonObject) : QByteArray :=
  J.compact (.object (entryToJson D request response annotation))

def recordsOf (J : JsonLibrary) (lines : List QByteArray) : List QJsonObject :=
  lines.filterMap (fun line =>
    if (QByteArray.trimmed line).isEmpty then none
    else
      match J.fromJson line with
      | some (.object o) => some o
      | _ => none)

/-- The transactions that the history is loaded with when a project is opened. -/
def loadedEntries (J : JsonLibrary) (content : QByteArray) :
    List (HistoryRequest × HistoryResponse) :=
  (recordsOf J (streamLines content)).map (fun o =>
    (requestFromJson (o.value "request").toObject, responseFromJson (o.value "response").toObject))

end Nullock.ProjectStore

namespace Nullock.HistoryIndex
open QJsonObject Proxy ProjectStore HttpLogic
open SessionManager (toArray)

def requestToJson (D : DateTimes) (r : HistoryRequest) : QJsonObject :=
  ofMembers [
    ("method", .string r.method),
    ("target", .string r.target),
    ("path", .string r.path),
    ("host", .string r.host),
    ("port", .double (r.port : Int)),
    ("httpVersion", .string r.httpVersion),
    ("ts", .double (D.toMSecsSinceEpoch r.timestamp).toInt),
    ("headers", headersToJson r.headers),
    ("body_b64", bodyToJson r.body)]

def responseToJson (r : HistoryResponse) : QJsonObject :=
  ofMembers [
    ("httpVersion", .string r.httpVersion),
    ("statusCode", .double r.statusCode),
    ("reasonPhrase", .string r.reasonPhrase),
    ("wasTls", .bool r.wasTls),
    ("peerAddress", .string r.peerAddress),
    ("headers", headersToJson r.headers),
    ("body_b64", bodyToJson r.body)]

/-- The transport is not among the members, and the time is always a valid date. -/
def requestFromJson (o : QJsonObject) : HistoryRequest where
  method := (o.value "method").toQString
  target := (o.value "target").toQString
  path := (o.value "path").toQString
  host := (o.value "host").toQString
  port := ((o.value "port").toInt 0 % 65536).toNat
  httpVersion := (o.value "httpVersion").toQString
  timestamp := some (o.value "ts").toLongLong
  headers := headersFromJson (toArray (o.value "headers"))
  body := bodyFromJson (o.value "body_b64")
  tls := false
  port_lt := by omega

def responseFromJson (o : QJsonObject) : HistoryResponse where
  httpVersion := (o.value "httpVersion").toQString
  statusCode := (o.value "statusCode").toInt 0
  reasonPhrase := (o.value "reasonPhrase").toQString
  wasTls := (o.value "wasTls").toBool false
  peerAddress := (o.value "peerAddress").toQString
  headers := headersFromJson (toArray (o.value "headers"))
  body := bodyFromJson (o.value "body_b64")
  status_int := QJsonValue.isInt32_toInt (by decide) _

structure Row where
  reqJson : QString
  respJson : QString

def rowOf (J : JsonLibrary) (D : DateTimes) (req : HistoryRequest) (resp : HistoryResponse) :
    Row where
  reqJson := QString.fromUtf8 (J.compact (.object (requestToJson D req)))
  respJson := QString.fromUtf8 (J.compact (.object (responseToJson resp)))

def loadFullRow (J : JsonLibrary) (row : Row) : Option (HistoryRequest × HistoryResponse) :=
  match J.fromJson (toUtf8 row.reqJson), J.fromJson (toUtf8 row.respJson) with
  | some (.object req), some (.object resp) => some (requestFromJson req, responseFromJson resp)
  | _, _ => none

end Nullock.HistoryIndex

namespace Nullock.ProjectStore
open QJsonObject Proxy HttpLogic
open SessionManager (toArray)

section RoundTrip

theorem headersFromJson_toJson (headers : List Header) :
    headersFromJson (toArray (headersToJson headers)) = headers := by
  induction headers with
  | nil => rfl
  | cons h headers ih => exact congrArg (h :: ·) ih

theorem bodyFromJson_toJson (body : QByteArray) : bodyFromJson (bodyToJson body) = body := by
  rw [bodyToJson, bodyFromJson, QJsonValue.toQString, toLatin1_fromLatin1,
    QByteArray.fromBase64_toBase64]

theorem port_toInt {port : Nat} (h : port < 65536) (default : Int) :
    ((QJsonValue.double ((port : Int) : Rat)).toInt default % 65536).toNat = port := by
  have hint : IsInt32 (port : Int) := ⟨by omega, by omega⟩
  rw [QJsonValue.toInt_double hint]
  omega

theorem request_literal : ["method", "host", "port", "path", "target", "httpVersion", "headers",
    "body_b64"].all isLiteral = true := by
  decide

theorem requestFromJson_toJson (r : HistoryRequest) :
    requestFromJson (requestToJson r) = { r with tls := false, timestamp := none } := by
  simp (disch := first | decide | simpa only [List.map_cons, List.map_nil] using request_literal)
    only [requestFromJson, requestToJson, value_lookup]
  simp only [List.lookup_cons, String.reduceBEq, Option.getD_some, QJsonValue.toQString,
    port_toInt r.port_lt, headersFromJson_toJson, bodyFromJson_toJson]

theorem response_literal : ["httpVersion", "statusCode", "reasonPhrase", "headers", "body_b64",
    "peerAddress", "wasTls"].all isLiteral = true := by
  decide

theorem responseFromJson_toJson (r : HistoryResponse) :
    responseFromJson (responseToJson r) = r := by
  simp (disch := first | decide | simpa only [List.map_cons, List.map_nil] using response_literal)
    only [responseFromJson, responseToJson, value_lookup]
  simp only [List.lookup_cons, String.reduceBEq, Option.getD_some, QJsonValue.toQString,
    QJsonValue.toBool, QJsonValue.toInt_double r.status_int, headersFromJson_toJson,
    bodyFromJson_toJson]

end RoundTrip

section Stored
variable {J : JsonLibrary}

theorem stored_headers (headers : List Header) :
    (headersToJson headers).Stored J.Exact (depth + 2) := by
  refine .array (fun v hv => ?_)
  obtain ⟨h, _, rfl⟩ := List.mem_map.1 hv
  refine .array (fun w hw => ?_)
  simp only [List.mem_cons, List.not_mem_nil, or_false] at hw
  rcases hw with rfl | rfl
  · exact .string
  · exact .string

theorem stored_port {port : Nat} (h : port < 65536) :
    (QJsonValue.double ((port : Int) : Rat)).Stored J.Exact depth :=
  .double (J.exact_int port (by omega) (by omega))

theorem stored_request (r : HistoryRequest) :
    (QJsonValue.object (requestToJson r)).Stored J.Exact (depth + 3) := by
  refine .ofMembers (List.forall_mem_cons.2 ⟨.string, ?_⟩)
  simp only [List.forall_mem_cons]
  exact ⟨.string, stored_port r.port_lt, .string, .string, .string, stored_headers r.headers,
    .string, fun _ h => absurd h List.not_mem_nil⟩

theorem stored_response (r : HistoryResponse) :
    (QJsonValue.object (responseToJson r)).Stored J.Exact (depth + 3) := by
  refine .ofMembers (List.forall_mem_cons.2 ⟨.string, ?_⟩)
  simp only [List.forall_mem_cons]
  exact ⟨.double (J.exact_int32 r.status_int), .string, stored_headers r.headers, .string, .string,
    .bool, fun _ h => absurd h List.not_mem_nil⟩

theorem stored_entry (D : DateTimes) (request : HistoryRequest) (response : HistoryResponse)
    (h : (QJsonValue.object annotation).Stored J.Exact (depth + 3)) :
    (QJsonValue.object (entryToJson D request response annotation)).Stored J.Exact (depth + 4) := by
  refine .ofMembers (fun m hm => ?_)
  rcases List.mem_append.1 hm with hm | hm
  · simp only [List.mem_cons, List.not_mem_nil, or_false] at hm
    rcases hm with rfl | rfl | rfl | rfl
    · exact .double (J.exact_int _ (by decide) (by decide))
    · exact .string
    · exact stored_request request
    · exact stored_response response
  · split at hm
    · exact absurd hm List.not_mem_nil
    · rw [List.mem_singleton.1 hm]
      exact h

end Stored

section Lines
variable (J : JsonLibrary)

theorem plainLine_compact (o : QJsonObject) : PlainLine (J.compact (.object o)) where
  text := J.compact_text _
  printed := J.compact_line _
  front := by
    obtain ⟨s, hs⟩ := J.compact_object o
    exact ⟨s ++ [0x7D], hs⟩

theorem recordsOf_append (a b : List QByteArray) :
    recordsOf J (a ++ b) = recordsOf J a ++ recordsOf J b := List.filterMap_append

theorem recordsOf_compact (h : (QJsonValue.object o).Stored J.Exact kNestingLimit) :
    recordsOf J [J.compact (.object o)] = [o] := by
  have hne : (QByteArray.trimmed (J.compact (.object o))).isEmpty = false := by
    obtain ⟨s, hs⟩ := J.compact_object o
    rw [List.isEmpty_eq_false_iff, hs]
    exact List.ne_nil_of_mem (mem_trimWith List.mem_cons_self (by decide))
  rw [recordsOf, List.filterMap_cons, hne, J.read_compact _ rfl h]
  rfl

theorem recordsOf_append_line (h : (QJsonValue.object o).Stored J.Exact kNestingLimit)
    (hc : Closed 0x0A content) :
    recordsOf J (streamLines (content ++ (J.compact (.object o) ++ [0x0A]))) =
      recordsOf J (streamLines content) ++ [o] := by
  rw [streamLines_append_line hc (plainLine_compact J o), recordsOf_append,
    recordsOf_compact J h]

end Lines

theorem entryRecord (D : DateTimes) (request : HistoryRequest) (response : HistoryResponse)
    ( annotation : QJsonObject) :
    ((entryToJson D request response annotation).value "request").toObject =
        requestToJson request ∧
      ((entryToJson D request response annotation).value "response").toObject =
        responseToJson response := by
  simp (disch := decide) only [entryToJson, List.cons_append, List.nil_append, value_ofMembers,
    String.reduceEq, if_true, if_false, QJsonValue.toObject, and_self]

theorem entry_ts (D : DateTimes) (request : HistoryRequest) (response : HistoryResponse)
    ( annotation : QJsonObject) :
    ((entryToJson D request response annotation).value "ts").toQString =
      D.isoDateWithMs request.timestamp := by
  simp (disch := decide) only [entryToJson, List.cons_append, List.nil_append, value_ofMembers,
    String.reduceEq, if_true, if_false, QJsonValue.toQString]

theorem loadedEntries_append (J : JsonLibrary) (D : DateTimes) (request : HistoryRequest)
    (response : HistoryResponse)
    (h : (QJsonValue.object annotation).Stored J.Exact (kNestingLimit - 1))
    (hc : Closed 0x0A content) :
    loadedEntries J (content ++ (entryLine J D request response annotation ++ [0x0A])) =
      loadedEntries J content ++ [({ request with tls := false, timestamp := none }, response)] := by
  obtain ⟨hreq, hresp⟩ := entryRecord D request response annotation
  rw [loadedEntries, entryLine, recordsOf_append_line J (stored_entry D request response h) hc,
    List.map_append, List.map_singleton, hreq, hresp, requestFromJson_toJson,
    responseFromJson_toJson]
  rfl

end Nullock.ProjectStore

namespace Nullock.HistoryIndex
open QJsonObject Proxy ProjectStore HttpLogic

theorem toLongLong_double (t : Int64) : (QJsonValue.double (t.toInt : Rat)).toLongLong = t := by
  rw [QJsonValue.toLongLong, if_pos (Rat.den_intCast _), Rat.num_intCast, Int64.ofInt_toInt]

theorem request_literal : ["method", "target", "path", "host", "port", "httpVersion", "ts", "headers",
    "body_b64"].all isLiteral = true := by
  decide

theorem requestFromJson_toJson (D : DateTimes) (r : HistoryRequest) :
    requestFromJson (requestToJson D r) =
      { r with tls := false, timestamp := some (D.toMSecsSinceEpoch r.timestamp) } := by
  simp (disch := first | decide | simpa only [List.map_cons, List.map_nil] using request_literal)
    only [requestFromJson, requestToJson, value_lookup]
  simp only [List.lookup_cons, String.reduceBEq, Option.getD_some, QJsonValue.toQString,
    port_toInt r.port_lt, headersFromJson_toJson, bodyFromJson_toJson, toLongLong_double]

theorem response_literal : ["httpVersion", "statusCode", "reasonPhrase", "wasTls", "peerAddress",
    "headers", "body_b64"].all isLiteral = true := by
  decide

theorem responseFromJson_toJson (r : HistoryResponse) :
    responseFromJson (responseToJson r) = r := by
  simp (disch := first | decide | simpa only [List.map_cons, List.map_nil] using response_literal)
    only [responseFromJson, responseToJson, value_lookup]
  simp only [List.lookup_cons, String.reduceBEq, Option.getD_some, QJsonValue.toQString,
    QJsonValue.toBool, QJsonValue.toInt_double r.status_int, headersFromJson_toJson,
    bodyFromJson_toJson]

theorem stored_request (J : JsonLibrary) (D : DateTimes) (r : HistoryRequest) :
    (QJsonValue.object (requestToJson D r)).Stored J.Exact (depth + 3) := by
  have hts := (D.toMSecsSinceEpoch r.timestamp).le_toInt
  have hts' := (D.toMSecsSinceEpoch r.timestamp).toInt_lt
  refine .ofMembers (List.forall_mem_cons.2 ⟨.string, ?_⟩)
  simp only [List.forall_mem_cons]
  exact ⟨.string, .string, .string, stored_port r.port_lt, .string,
    .double (J.exact_int _ hts hts'), stored_headers r.headers, .string,
    fun _ h => absurd h List.not_mem_nil⟩

theorem stored_response (J : JsonLibrary) (r : HistoryResponse) :
    (QJsonValue.object (responseToJson r)).Stored J.Exact (depth + 3) := by
  refine .ofMembers (List.forall_mem_cons.2 ⟨.string, ?_⟩)
  simp only [List.forall_mem_cons]
  exact ⟨.double (J.exact_int32 r.status_int), .string, .bool, .string, stored_headers r.headers,
    .string, fun _ h => absurd h List.not_mem_nil⟩

theorem loadFullRow_rowOf (J : JsonLibrary) (D : DateTimes) (req : HistoryRequest)
    (resp : HistoryResponse) :
    loadFullRow J (rowOf J D req resp) =
      some ({ req with tls := false, timestamp := some (D.toMSecsSinceEpoch req.timestamp) },
        resp) := by
  have hreq : (QJsonValue.object (requestToJson D req)).Stored J.Exact kNestingLimit :=
    stored_request J D req
  have hresp : (QJsonValue.object (responseToJson resp)).Stored J.Exact kNestingLimit :=
    stored_response J resp
  rw [loadFullRow, rowOf, J.toUtf8_compact rfl, J.toUtf8_compact rfl, J.read_compact _ rfl hreq,
    J.read_compact _ rfl hresp]
  dsimp only
  rw [requestFromJson_toJson, responseFromJson_toJson]

end Nullock.HistoryIndex

import Nullock.HistoryRecords

namespace Nullock

def splitFirst [BEq α] (x : α) : List α → List α × Option (List α)
  | [] => ([], none)
  | c :: s => if c == x then ([], some s) else (c :: (splitFirst x s).1, (splitFirst x s).2)

section
variable [BEq α] [LawfulBEq α] {x : α}

theorem splitFirst_append (h : x ∉ a) (b : List α) : splitFirst x (a ++ x :: b) = (a, some b) := by
  induction a with
  | nil => rw [List.nil_append, splitFirst, beq_self_eq_true, if_pos rfl]
  | cons c a ih =>
    have hc : (c == x) = false := beq_false_of_ne (fun he => h (he ▸ List.mem_cons_self))
    rw [List.cons_append, splitFirst, hc, if_neg Bool.false_ne_true,
      ih (fun hm => h (List.mem_cons_of_mem c hm))]

theorem splitFirst_none (h : x ∉ s) : splitFirst x s = (s, none) := by
  induction s with
  | nil => rfl
  | cons c s ih =>
    have hc : (c == x) = false := beq_false_of_ne (fun he => h (he ▸ List.mem_cons_self))
    rw [splitFirst, hc, if_neg Bool.false_ne_true, ih (fun hm => h (List.mem_cons_of_mem c hm))]

theorem splitFirst_cases (x : α) (s : List α) :
    (x ∉ s ∧ splitFirst x s = (s, none)) ∨
      ∃ a b, x ∉ a ∧ s = a ++ x :: b ∧ splitFirst x s = (a, some b) := by
  by_cases h : x ∈ s
  · obtain ⟨a, b, rfl, ha⟩ := List.eq_append_cons_of_mem h
    exact .inr ⟨a, b, ha, rfl, splitFirst_append ha b⟩
  · exact .inl ⟨h, splitFirst_none h⟩

end

def QJsonObject.valueOf (o : QJsonObject) (key : QString) : QJsonValue :=
  (o.lookup key).getD .undefined

end Nullock

namespace Nullock.ProjectStore
open QJsonObject Proxy HttpLogic
open SessionManager (toArray)

def kSensitiveHeaders : List QString :=
  ["authorization", "proxy-authorization", "cookie", "set-cookie", "x-api-key", "x-auth-token",
    "x-csrf-token", "x-xsrf-token", "x-session-id", "x-amz-security-token",
    "x-goog-iam-authorization-token"].map utf16

def isSensitiveHeader (name : QString) : Bool := kSensitiveHeaders.contains (toLower name)

def kSensitiveParamKeys : List QString :=
  ["token", "access_token", "access-token", "refresh_token", "id_token", "auth", "authorization",
    "api_key", "apikey", "x-api-key", "key", "client_secret", "secret", "password", "passwd", "pwd",
    "session", "sessionid", "sid", "jwt", "code", "signature", "sig", "x-amz-signature",
    "x-amz-security-token"].map utf16

def isSensitiveParamKey (name : QString) : Bool :=
  kSensitiveParamKeys.contains (toLower (QString.trimmed name))

def harRedactMarker (n : Nat) : QString :=
  utf16 "<redacted: " ++ QString.number n ++ utf16 " chars>"

def redactPair (pair : QString) : QString :=
  match splitFirst 0x3D pair with
  | (key, some value) =>
    if isSensitiveParamKey key then key ++ utf16 "=" ++ harRedactMarker value.length else pair
  | (_, none) => pair

def redactParamString (s : QString) : QString :=
  [0x26].intercalate ((s.splitOn 0x26).map redactPair)

def kRedactLevels : Nat := 13

/-- The sensitive strings of a value, as many levels deep as are left. -/
def redactJsonValue : Nat → QJsonValue → QJsonValue
  | 0, v => v
  | levels + 1, .object o =>
    .object (o.map (fun m =>
      (m.1, if isSensitiveParamKey m.1 && m.2.isString then
          .string (harRedactMarker m.2.toQString.length)
        else redactJsonValue levels m.2)))
  | levels + 1, .array elems => .array (elems.map (redactJsonValue levels))
  | _ + 1, v => v

def isFormType (contentType : QString) : Bool :=
  (indexOf (utf16 "application/x-www-form-urlencoded") (toLower contentType)).isSome

def isJsonType (contentType : QString) : Bool :=
  (indexOf (utf16 "json") (toLower contentType)).isSome

def redactBody (J : JsonLibrary) (body : QByteArray) (contentType : QString) (redact : Bool) :
    QString :=
  if !redact || body.isEmpty then QString.fromUtf8 body
  else if isFormType contentType then redactParamString (QString.fromUtf8 body)
  else if isJsonType contentType then
    match J.fromJson body with
    | some v => QString.fromUtf8 (J.compact (redactJsonValue kRedactLevels v))
    | none => QString.fromUtf8 body
  else QString.fromUtf8 body

def harHeader (redact : Bool) (kv : Header) : QJsonValue :=
  .object (ofMembers [
    ("name", .string kv.1),
    ("value", .string (if redact && isSensitiveHeader kv.1 then harRedactMarker kv.2.length
      else kv.2))])

def harHeaders (headers : List Header) (redact : Bool) : QJsonValue :=
  .array (headers.map (harHeader redact))

def harQueryPair (redact : Bool) (pair : QString) : QJsonValue :=
  match splitFirst 0x3D pair with
  | (key, some val) =>
    .object (ofMembers [
      ("name", .string key),
      ("value", .string (if redact && isSensitiveParamKey key then harRedactMarker val.length
        else val))])
  | (_, none) => .object (ofMembers [("name", .string pair), ("value", .string [])])

def queryOf (path : QString) : Option (QString × QString) :=
  match splitFirst 0x3F path with
  | (base, some query) => if query.isEmpty then none else some (base, query)
  | (_, none) => none

def harQueryString (path : QString) (redact : Bool) : QJsonValue :=
  match queryOf path with
  | some (_, query) =>
    .array (((query.splitOn 0x26).filter (fun pair => !pair.isEmpty)).map (harQueryPair redact))
  | none => .array []

def findContentType (headers : List Header) : QString := findHeader headers (utf16 "Content-Type")

def IsText (body : QByteArray) : Prop := toUtf8 (QString.fromUtf8 body) = body ∧ 0x00 ∉ body

instance (body : QByteArray) : Decidable (IsText body) := inferInstanceAs (Decidable (_ ∧ _))

/-- The text that a body is exported as, and whether that is its base64. -/
def harText (J : JsonLibrary) (body : QByteArray) (type : QString) (redact : Bool) :
    QString × Bool :=
  if IsText body then (redactBody J body type redact, false)
  else (fromLatin1 (QByteArray.toBase64 body), true)

def harBody (text : QString × Bool) (encodingKey : String) : List (String × QJsonValue) :=
  ("text", .string text.1) ::
    if text.2 then [(encodingKey, .string (utf16 "base64"))] else []

def harPath (path : QString) (redact : Bool) : QString :=
  if redact then
    match queryOf path with
    | some (base, query) => base ++ utf16 "?" ++ redactParamString query
    | none => path
  else path

def harUrl (r : HistoryRequest) (wasTls : Bool) (redact : Bool) : QString :=
  (if wasTls then utf16 "https://" else utf16 "http://") ++ r.host ++
    (if r.port = 80 ∨ r.port = 443 then [] else utf16 ":" ++ QString.number r.port) ++
    harPath r.path redact

def sizeToJson (n : Nat) : QJsonValue := .double (n : Int)

def harPostData (J : JsonLibrary) (r : HistoryRequest) (redact : Bool) : QJsonObject :=
  let ct := findContentType r.headers
  ofMembers (("mimeType", .string ct) :: harBody (harText J r.body ct redact) "_encoding")

def harRequest (J : JsonLibrary) (r : HistoryRequest) (wasTls redact : Bool) : QJsonObject :=
  ofMembers ([
    ("method", .string r.method),
    ("url", .string (harUrl r wasTls redact)),
    ("httpVersion", .string r.httpVersion),
    ("headers", harHeaders r.headers redact),
    ("queryString", harQueryString r.path redact),
    ("cookies", .array []),
    ("headersSize", .double (-1 : Int)),
    ("bodySize", sizeToJson r.body.length)] ++
    if r.body.isEmpty then [] else [("postData", .object (harPostData J r redact))])

def harContent (J : JsonLibrary) (r : HistoryResponse) (redact : Bool) : QJsonObject :=
  let ct := findContentType r.headers
  ofMembers (("size", sizeToJson r.body.length) :: ("mimeType", .string ct) ::
    harBody (harText J r.body ct redact) "encoding")

def harResponse (J : JsonLibrary) (r : HistoryResponse) (redact : Bool) : QJsonObject :=
  ofMembers [
    ("status", .double r.statusCode),
    ("statusText", .string r.reasonPhrase),
    ("httpVersion", .string r.httpVersion),
    ("headers", harHeaders r.headers redact),
    ("cookies", .array []),
    ("content", .object (harContent J r redact)),
    ("redirectURL", .string []),
    ("headersSize", .double (-1 : Int)),
    ("bodySize", sizeToJson r.body.length)]

def harTimings : QJsonObject :=
  ofMembers [("send", .double (-1 : Int)), ("wait", .double (-1 : Int)),
    ("receive", .double (-1 : Int))]

def harEntry (J : JsonLibrary) (redact : Bool) ( annotation src : QJsonObject) : QJsonObject :=
  let req := requestFromJson (src.value "request").toObject
  let resp := responseFromJson (src.value "response").toObject
  ofMembers ([
    ("startedDateTime", .string (src.value "ts").toQString),
    ("time", .double (0 : Int)),
    ("request", .object (harRequest J req resp.wasTls redact)),
    ("response", .object (harResponse J resp redact)),
    ("cache", .object []),
    ("timings", .object harTimings),
    ("serverIPAddress", .string resp.peerAddress)] ++
    if annotation.isEmpty then []
    else [("_nullockAnnotation", .object annotation),
      ("comment", .string ( annotation.value "comment").toQString)])

/-- The objects of the history as the export reads them, line by line. -/
def exportRecords (J : JsonLibrary) (content : QByteArray) : List QJsonObject :=
  recordsOf J ((linesOf 0x0A content).map QByteArray.trimmed)

/-- The entries of a list of objects, whose rows are numbered from one. -/
def harEntries (J : JsonLibrary) (redact : Bool) (annotations : QJsonObject)
    (records : List QJsonObject) : List QJsonObject :=
  records.mapIdx (fun i src =>
    harEntry J redact (annotations.valueOf (QString.number (i + 1 : Nat))).toObject src)

def harDocument (version : QString) (entries : List QJsonObject) : QJsonValue :=
  .object (ofMembers [
    ("log", .object (ofMembers [
      ("version", .string (utf16 "1.2")),
      ("creator", .object (ofMembers [
        ("name", .string (utf16 "Nullock")),
        ("version", .string version)])),
      ("entries", .array (entries.map .object))]))])

def exportHar (J : JsonLibrary) (version : QString) (redact : Bool) (annotations : QJsonObject)
    (content : QByteArray) : QJsonValue :=
  harDocument version (harEntries J redact annotations (exportRecords J content))

theorem trimmed_compact (J : JsonLibrary) (o : QJsonObject) :
    QByteArray.trimmed (J.compact (.object o)) = J.compact (.object o) := by
  obtain ⟨s, hs⟩ := J.compact_object o
  rw [hs]
  apply trimWith_eq_self
  · intro c hc
    rw [← Option.some.inj hc]
    rfl
  · intro c hc
    rw [← List.cons_append, List.getLast?_concat] at hc
    rw [← Option.some.inj hc]
    rfl

theorem exportRecords_append_line (J : JsonLibrary)
    (h : (QJsonValue.object o).Stored J.Exact kNestingLimit) (hc : Closed 0x0A content) :
    exportRecords J (content ++ (J.compact (.object o) ++ [0x0A])) =
      exportRecords J content ++ [o] := by
  rw [exportRecords, linesOf_append hc, linesOf_line (plainLine_compact J o).noFeed,
    List.map_append, List.map_singleton, trimmed_compact, recordsOf_append, recordsOf_compact J h]
  rfl

end Nullock.ProjectStore

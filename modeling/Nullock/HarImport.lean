import Nullock.HttpUrls

namespace Nullock

def QJsonValue.toQStringOr (defaultValue : QString) : QJsonValue → QString
  | .string s => s
  | _ => defaultValue

end Nullock

namespace Nullock.ProjectStore
open QJsonObject Proxy HttpLogic
open SessionManager (toArray)

def kMaxAnnotationsBytes : Nat := 1024 * 1024

def kAnnotationColors : List QString :=
  ["", "red", "orange", "yellow", "green", "cyan", "blue", "purple", "pink", "gray"].map utf16

def annotationFieldError (m : QString × QJsonValue) : Option QString :=
  if m.1 ≠ utf16 "color" ∧ m.1 ≠ utf16 "comment" then some (utf16 "Unknown annotation field")
  else if m.2.isString = false then some (utf16 "Annotation fields must be strings")
  else none

/-- What is wrong with an annotation; nothing is, if the text is empty. -/
def annotationError (note : QJsonObject) : QString :=
  match note.findSome? annotationFieldError with
  | some error => error
  | none =>
    if (note.value "color").toQString ∉ kAnnotationColors then utf16 "Unknown highlight color"
    else if (note.value "comment").toQString.length > 4096 then
      utf16 "Comments are limited to 4096 characters"
    else []

def harAnnotation (entry : QJsonObject) : QJsonObject :=
  let nullock := (entry.value "_nullockAnnotation").toObject
  let note :=
    if entry.contains "comment" then insert (utf16 "comment") (entry.value "comment") nullock
    else nullock
  if (annotationError note).isEmpty && (note.value "color").toQString.isEmpty &&
      (note.value "comment").toQString.isEmpty then []
  else note

def bodyEncoding (content : QJsonObject) : QString :=
  (content.value "encoding").toQStringOr ((content.value "_encoding").toQStringOr [])

def importHarBody (content : QJsonObject) : QByteArray :=
  let text := toUtf8 (content.value "text").toQString
  if bodyEncoding content = utf16 "base64" then (QByteArray.fromBase64Encoding text).getD []
  else text

def harHeadersFrom (v : QJsonValue) : List Header :=
  (toArray v).map (fun h =>
    ((h.toObject.value "name").toQString, (h.toObject.value "value").toQString))

/-- The version of an entry, which is `HTTP/1.1` where there is none. -/
def harVersion (v : QJsonValue) : QString :=
  if v.toQString.isEmpty then utf16 "HTTP/1.1" else v.toQString

section Entries
variable (U : UrlLibrary) (D : DateTimes)

def urlPath (url : U.Url) : QString :=
  let path := U.encodedPath url ++ component 0x3F (U.encodedQuery url)
  if path.isEmpty then utf16 "/" else path

def harEntryToRequest (now : QDateTime) (entry : QJsonObject) : HistoryRequest :=
  let r := (entry.value "request").toObject
  let url := U.ofText (r.value "url").toQString
  let started := D.fromIsoDate (entry.value "startedDateTime").toQString
  { method := (r.value "method").toQString
    httpVersion := harVersion (r.value "httpVersion")
    host := U.host url
    port := (U.portOr (if U.scheme url = utf16 "https" then 443 else 80) url % 65536).toNat
    path := urlPath U url
    target := (r.value "url").toQString
    headers := harHeadersFrom (r.value "headers")
    body := importHarBody (r.value "postData").toObject
    tls := false
    timestamp := if started.isSome then started else now
    port_lt := by omega }

def harEntryToResponse (entry : QJsonObject) : HistoryResponse :=
  let r := (entry.value "response").toObject
  { httpVersion := harVersion (r.value "httpVersion")
    statusCode := (r.value "status").toInt 0
    reasonPhrase := (r.value "statusText").toQString
    headers := harHeadersFrom (r.value "headers")
    body := importHarBody (r.value "content").toObject
    peerAddress := (entry.value "serverIPAddress").toQString
    wasTls := U.scheme (U.ofText ((entry.value "request").toObject.value "url").toQString) ==
      utf16 "https"
    status_int := QJsonValue.isInt32_toInt (by decide) _ }

structure Transaction where
  req : HistoryRequest
  resp : HistoryResponse
  note : QJsonObject

def harTransaction (now : QDateTime) (entry : QJsonObject) : Transaction where
  req := harEntryToRequest U D now entry
  resp := harEntryToResponse U entry
  note := harAnnotation entry

end Entries

def bodyValid (body : QJsonObject) : Bool :=
  let encoding := bodyEncoding body
  if encoding = utf16 "base64" then
    (QByteArray.fromBase64Encoding (toLatin1 (body.value "text").toQString)).isSome
  else encoding.isEmpty

def entryValid (entry : QJsonObject) : Bool :=
  (!entry.contains "_nullockAnnotation" || (entry.value "_nullockAnnotation").isObject) &&
    (annotationError ( harAnnotation entry)).isEmpty &&
    bodyValid ((entry.value "request").toObject.value "postData").toObject &&
    bodyValid ((entry.value "response").toObject.value "content").toObject

/-- The annotations with a list of further ones for the rows from `id` on. -/
def prospectiveNotes (notes : QJsonObject) (id : Nat) : List QJsonObject → QJsonObject
  | [] => notes
  | note :: rest =>
    prospectiveNotes
      (if note.isEmpty then notes else insert (QString.number (id : Nat)) (.object note) notes)
      (id + 1) rest

section Documents
variable (J : JsonLibrary)

def NotesFit (notes : QJsonObject) : Prop :=
  (J.compact (.object notes)).length ≤ kMaxAnnotationsBytes

instance (notes : QJsonObject) : Decidable (NotesFit J notes) :=
  inferInstanceAs (Decidable (_ ≤ _))

/-- The entries of a document that is imported, if it passes the checks. -/
def acceptedEntries (notes : QJsonObject) (nextRowId : Nat) (harJson : QByteArray) :
    Option (List QJsonObject) :=
  match J.fromJson harJson with
  | some (.object doc) =>
    let entries := (toArray ((value doc "log").toObject.value "entries")).map QJsonValue.toObject
    if entries.all entryValid ∧
        NotesFit J (prospectiveNotes notes nextRowId (entries.map harAnnotation)) then some entries
    else none
  | _ => none

end Documents

end Nullock.ProjectStore

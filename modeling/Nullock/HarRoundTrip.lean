import Nullock.HarImport
import Nullock.HistoryReload

namespace Nullock.ProjectStore
open QJsonObject Proxy HttpLogic
open SessionManager (toArray)

def pathParts (path : QString) : QString × Option QString × Option QString :=
  let front := splitFirst 0x23 path
  let base := splitFirst 0x3F front.1
  (base.1, base.2, front.2)

theorem pathParts_eq (path : QString) :
    path = (pathParts path).1 ++ component 0x3F (pathParts path).2.1 ++
        component 0x23 (pathParts path).2.2 ∧
      0x3F ∉ (pathParts path).1 ∧ 0x23 ∉ (pathParts path).1 ∧
      ∀ query ∈ (pathParts path).2.1, 0x23 ∉ query := by
  obtain ⟨hpath, hfrag⟩ := splitFirst_eq 0x23 path
  obtain ⟨hfront, hquery⟩ := splitFirst_eq 0x3F (splitFirst 0x23 path).1
  have hmem : ∀ c, c ∈ (splitFirst 0x3F (splitFirst 0x23 path).1).1 ∨
      c ∈ component 0x3F (splitFirst 0x3F (splitFirst 0x23 path).1).2 →
      c ∈ (splitFirst 0x23 path).1 := by
    intro c hc
    rw [hfront]
    exact List.mem_append.2 hc
  refine ⟨?_, hquery, fun hm => hfrag (hmem _ (.inl hm)), fun query hq hm => ?_⟩
  · rw [pathParts, ← hfront, ← hpath]
  · have hq' : (splitFirst 0x3F (splitFirst 0x23 path).1).2 = some query := hq
    refine hfrag (hmem _ (.inr ?_))
    rw [hq']
    exact List.mem_cons_of_mem _ hm

def noteAt (annotations : QJsonObject) (i : Nat) : QJsonObject :=
  (annotations.valueOf (QString.number (i + 1 : Nat))).toObject

def recordTransaction (note src : QJsonObject) : Transaction where
  req := requestFromJson (src.value "request").toObject
  resp := responseFromJson (src.value "response").toObject
  note := note

/-- The transactions of a history with the annotations of their rows. -/
def storedTransactions (J : JsonLibrary) (annotations : QJsonObject) (content : QByteArray) :
    List Transaction :=
  (exportRecords J content).mapIdx (fun i src => recordTransaction (noteAt annotations i) src)

/-- A transaction of plain name and path with a valid annotation. -/
structure Transaction.Exportable (t : Transaction) : Prop where
  host : isDnsName t.req.host = true
  path_front : t.req.path.head? = some 0x2F
  path_chars : ∀ c ∈ t.req.path, isUrlChar c = true
  request_size : t.req.body.length < 2 ^ 63
  response_size : t.resp.body.length < 2 ^ 63
  note_sorted : Sorted t.note
  note_valid : annotationError t.note = []

structure Transaction.Reproduced (t e : Transaction) : Prop where
  method : e.req.method = t.req.method
  host : e.req.host = t.req.host
  port : e.req.port = t.req.port
  tls : e.resp.wasTls = t.resp.wasTls
  path : e.req.path = t.req.path
  requestHeaders : e.req.headers = t.req.headers
  responseHeaders : e.resp.headers = t.resp.headers
  requestBody : e.req.body = t.req.body
  responseBody : e.resp.body = t.resp.body
  status : e.resp.statusCode = t.resp.statusCode
  reason : e.resp.reasonPhrase = t.resp.reasonPhrase
  color : (e.note.value "color").toQString = (t.note.value "color").toQString
  comment : (e.note.value "comment").toQString = (t.note.value "comment").toQString

/-- A port that is left out of the URL is the default one of the scheme. -/
def PortAgrees (https : Bool) (port : Nat) : Prop :=
  (port = 80 → https = false) ∧ (port = 443 → https = true)

/-- A host and a path that a URL gives back as they are. -/
structure UrlLibrary.Keeps (U : UrlLibrary) (host path : QString) : Prop where
  host_kept : U.hostForm host = host
  path_kept : U.pathForm (pathParts path).1 = (pathParts path).1
  query_kept : ∀ query ∈ (pathParts path).2.1, U.queryForm query = query
  no_fragment : 0x23 ∉ path

def Transaction.urlParts (t : Transaction) : UrlParts where
  https := t.resp.wasTls
  host := t.req.host
  port := if t.req.port = 80 ∨ t.req.port = 443 then none else some t.req.port
  path := (pathParts t.req.path).1
  query := (pathParts t.req.path).2.1
  fragment := (pathParts t.req.path).2.2

theorem Transaction.harUrl_eq (t : Transaction) :
    harUrl t.req t.resp.wasTls false = t.urlParts.text := by
  have hport : (if t.req.port = 80 ∨ t.req.port = 443 then ([] : QString)
      else utf16 ":" ++ QString.number t.req.port) =
        component 0x3A (t.urlParts.port.map portText) := by
    rw [urlParts]
    dsimp only
    split
    · rfl
    · rfl
  have hscheme : (if t.resp.wasTls then utf16 "https://" else utf16 "http://") =
      schemeText t.urlParts.https ++ utf16 "://" := by
    rw [urlParts, schemeText]
    cases t.resp.wasTls with
    | true => rfl
    | false => rfl
  rw [harUrl, UrlParts.text, hport, hscheme, harPath, if_neg Bool.false_ne_true]
  simp only [List.append_assoc]
  congr 4
  exact (pathParts_eq t.req.path).1.trans (List.append_assoc _ _ _)

theorem Transaction.Exportable.legal {t : Transaction} (h : t.Exportable) : t.urlParts.Legal := by
  obtain ⟨hpath, hquery, hfrag, hqfrag⟩ := pathParts_eq t.req.path
  have hchars := h.path_chars
  have hfront := h.path_front
  rw [hpath] at hchars hfront
  constructor
  · exact h.host
  · intro n hn
    rw [urlParts] at hn
    dsimp only at hn
    split at hn
    · exact absurd hn (Option.not_mem_none n)
    · rw [← Option.some.inj hn]
      exact t.req.port_lt
  · cases hb : (pathParts t.req.path).1 with
    | cons c base =>
      rw [hb] at hfront
      rw [urlParts]
      dsimp only
      rw [hb]
      exact hfront
    | nil =>
      rw [hb, List.nil_append] at hfront
      cases hq : (pathParts t.req.path).2.1 with
      | some q =>
        rw [hq] at hfront
        have hc : (0x3F : UInt16) = 0x2F := Option.some.inj hfront
        exact absurd hc (by decide)
      | none =>
        rw [hq] at hfront
        exact absurd (component_front _ _ hfront) (by decide)
  · intro c hc
    refine ⟨hchars c (List.mem_append_left _ (List.mem_append_left _ hc)), ?_, ?_⟩
    · exact fun he => hquery (he ▸ hc)
    · exact fun he => hfrag (he ▸ hc)
  · intro s hs c hc
    have hs' : (pathParts t.req.path).2.1 = some s := hs
    refine ⟨hchars c (List.mem_append_left _ (List.mem_append_right _ ?_)), ?_⟩
    · rw [hs']
      exact List.mem_cons_of_mem _ hc
    · exact fun he => hqfrag s hs (he ▸ hc)
  · intro s hs c hc
    have hs' : (pathParts t.req.path).2.2 = some s := hs
    refine hchars c (List.mem_append_right _ ?_)
    rw [hs']
    exact List.mem_cons_of_mem _ hc

section Urls
variable (U : UrlLibrary) {t : Transaction}

theorem front_ne_nil {s : QString} (h : s.head? = some 0x2F) : s ≠ [] := by
  rintro rfl
  exact Option.not_mem_none _ h

theorem urlPath_eq (h : t.Exportable) (hhost : U.hostForm t.req.host = t.req.host) :
    urlPath U (U.ofText t.urlParts.text) =
      U.pathForm (pathParts t.req.path).1 ++
        component 0x3F ((pathParts t.req.path).2.1.map U.queryForm) := by
  have hfront := U.pathForm_front _ h.legal.path_front
  have hne : (U.pathForm t.urlParts.path ++
      component 0x3F (t.urlParts.query.map U.queryForm)).isEmpty = false :=
    List.isEmpty_eq_false_iff.2 (List.append_ne_nil_of_left_ne_nil (front_ne_nil hfront) _)
  rw [urlPath, U.path_text _ h.legal hhost, U.query_text _ h.legal hhost, hne,
    if_neg Bool.false_ne_true]
  rfl

theorem urlPath_eq_iff (h : t.Exportable) (hhost : U.hostForm t.req.host = t.req.host) :
    urlPath U (U.ofText t.urlParts.text) = t.req.path ↔ U.Keeps t.req.host t.req.path := by
  obtain ⟨hpath, hquery, hfrag, hqfrag⟩ := pathParts_eq t.req.path
  rw [urlPath_eq U h hhost]
  constructor
  · intro he
    have hclean : 0x23 ∉ t.req.path := by
      rw [← he]
      intro hm
      rcases List.mem_append.1 hm with hm | hm
      · exact U.pathForm_fragment _ hm
      · cases hq : (pathParts t.req.path).2.1 with
        | none =>
          rw [hq] at hm
          exact List.not_mem_nil hm
        | some q =>
          rw [hq] at hm
          rcases List.mem_cons.1 hm with hc | hm
          · exact absurd hc (by decide)
          · exact U.queryForm_fragment _ hm
    have hnone : component 0x23 (pathParts t.req.path).2.2 = [] := by
      cases hf : (pathParts t.req.path).2.2 with
      | none => rfl
      | some f =>
        rw [hf] at hpath
        refine absurd ?_ hclean
        rw [hpath]
        exact List.mem_append_right _ List.mem_cons_self
    rw [hnone, List.append_nil] at hpath
    obtain ⟨hbase, hq⟩ := component_inj (U.pathForm_query _) hquery (he.trans hpath)
    refine ⟨hhost, hbase, fun q hm => ?_, hclean⟩
    have hq' : (pathParts t.req.path).2.1 = some q := hm
    rw [hq'] at hq
    exact Option.some.inj hq
  · intro hk
    have hfront : splitFirst 0x23 t.req.path = (t.req.path, none) := splitFirst_none hk.no_fragment
    have hnone : (pathParts t.req.path).2.2 = none := by rw [pathParts, hfront]
    have hmap : (pathParts t.req.path).2.1.map U.queryForm = (pathParts t.req.path).2.1 := by
      cases hq : (pathParts t.req.path).2.1 with
      | none => rfl
      | some q => exact congrArg some (hk.query_kept q hq)
    rw [hnone, component, List.append_nil] at hpath
    rw [hk.path_kept, hmap]
    exact hpath.symm

theorem scheme_https (h : t.Exportable) (hhost : U.hostForm t.req.host = t.req.host) :
    (U.scheme (U.ofText t.urlParts.text) == utf16 "https") = t.resp.wasTls := by
  rw [U.scheme_text _ h.legal hhost, schemeText, Transaction.urlParts]
  cases t.resp.wasTls with
  | true => rfl
  | false => rfl

theorem portOr_eq_iff (h : t.Exportable) (hhost : U.hostForm t.req.host = t.req.host) :
    (U.portOr (if U.scheme (U.ofText t.urlParts.text) = utf16 "https" then 443 else 80)
        (U.ofText t.urlParts.text) % 65536).toNat = t.req.port ↔
      PortAgrees t.resp.wasTls t.req.port := by
  have hscheme := scheme_https U h hhost
  have hlt := t.req.port_lt
  rw [UrlLibrary.portOr, U.port_text _ h.legal hhost]
  by_cases hp : t.req.port = 80 ∨ t.req.port = 443
  · have hport : t.urlParts.port = none := if_pos hp
    rw [hport, portNumber, if_pos rfl, PortAgrees]
    cases hs : t.resp.wasTls with
    | true =>
      rw [hs] at hscheme
      rw [if_pos (eq_of_beq hscheme)]
      constructor
      · intro he
        exact ⟨fun h80 => absurd (he.trans h80) (by decide), fun _ => rfl⟩
      · rintro ⟨h80, _⟩
        rcases hp with hp | hp
        · exact absurd (h80 hp) Bool.true_eq_false.mp
        · exact hp.symm
    | false =>
      rw [hs] at hscheme
      rw [if_neg (ne_of_beq_false hscheme)]
      constructor
      · intro he
        exact ⟨fun _ => rfl, fun h443 => absurd (he.trans h443) (by decide)⟩
      · rintro ⟨_, h443⟩
        rcases hp with hp | hp
        · exact hp.symm
        · exact absurd (h443 hp) Bool.false_ne_true
  · have hport : t.urlParts.port = some t.req.port := if_neg hp
    obtain ⟨h80, h443⟩ := not_or.1 hp
    have hint : (t.req.port : Int) ≠ -1 := by omega
    have hmod : ((t.req.port : Int) % 65536).toNat = t.req.port := by omega
    rw [hport, portNumber, if_neg hint, hmod]
    exact iff_of_true rfl ⟨fun he => absurd he h80, fun he => absurd he h443⟩

end Urls

section Bodies
variable (J : JsonLibrary)

/-- An exported body passes the check and is imported as it was. -/
structure HoldsBody (content : QJsonObject) (body : QByteArray) : Prop where
  imported : importHarBody content = body
  valid : bodyValid content = true

theorem holdsBody_text (h : IsText body)
    (htext : content.value "text" = .string (QString.fromUtf8 body))
    (hencoding : bodyEncoding content = []) : HoldsBody content body := by
  have hne : ([] : QString) ≠ utf16 "base64" := by decide
  constructor
  · rw [importHarBody, hencoding, htext, if_neg hne]
    exact h.1
  · rw [bodyValid, hencoding, if_neg hne]
    rfl

theorem holdsBody_base64
    (htext : content.value "text" = .string (fromLatin1 (QByteArray.toBase64 body)))
    (hencoding : bodyEncoding content = utf16 "base64") : HoldsBody content body := by
  constructor
  · rw [importHarBody, hencoding, htext, if_pos rfl, QJsonValue.toQString,
      toUtf8_fromLatin1 (QByteArray.toBase64_ascii body), QByteArray.fromBase64Encoding_toBase64]
    rfl
  · rw [bodyValid, hencoding, htext, if_pos rfl, QJsonValue.toQString, toLatin1_fromLatin1,
      QByteArray.fromBase64Encoding_toBase64]
    rfl

theorem harText_plain (h : IsText body) :
    harText J body ct false = (QString.fromUtf8 body, false) := by
  rw [harText, if_pos h, redactBody]
  rfl

theorem harText_binary (h : ¬ IsText body) :
    harText J body ct false = (fromLatin1 (QByteArray.toBase64 body), true) := if_neg h

theorem holdsBody_nil : HoldsBody [] [] :=
  ⟨by decide, by decide⟩

theorem holdsBody_postData (r : HistoryRequest) : HoldsBody (harPostData J r false) r.body := by
  by_cases h : IsText r.body
  · apply holdsBody_text h
    · simp (disch := decide) only [harPostData, harText_plain J h, harBody, if_false,
        value_ofMembers, String.reduceEq, if_true, Bool.false_eq_true]
    · simp (disch := decide) only [harPostData, harText_plain J h, harBody, if_false,
        bodyEncoding, value_ofMembers, String.reduceEq, Bool.false_eq_true]
      rfl
  · apply holdsBody_base64
    · simp (disch := decide) only [harPostData, harText_binary J h, harBody, if_false,
        value_ofMembers, String.reduceEq, if_true]
    · simp (disch := decide) only [harPostData, harText_binary J h, harBody, if_false,
        bodyEncoding, value_ofMembers, String.reduceEq, if_true]
      rfl

theorem holdsBody_content (r : HistoryResponse) : HoldsBody (harContent J r false) r.body := by
  by_cases h : IsText r.body
  · apply holdsBody_text h
    · simp (disch := decide) only [harContent, harText_plain J h, harBody, if_false,
        value_ofMembers, String.reduceEq, if_true, Bool.false_eq_true]
    · simp (disch := decide) only [harContent, harText_plain J h, harBody, if_false,
        bodyEncoding, value_ofMembers, String.reduceEq, Bool.false_eq_true]
      rfl
  · apply holdsBody_base64
    · simp (disch := decide) only [harContent, harText_binary J h, harBody, if_false,
        value_ofMembers, String.reduceEq, if_true]
    · simp (disch := decide) only [harContent, harText_binary J h, harBody, if_false,
        bodyEncoding, value_ofMembers, String.reduceEq, if_true]
      rfl

theorem harHeadersFrom_harHeaders (headers : List Header) :
    harHeadersFrom (harHeaders headers false) = headers := by
  have hheader (h : Header) :
      (((harHeader false h).toObject.value "name").toQString,
        ((harHeader false h).toObject.value "value").toQString) = h := by
    simp (disch := decide) only [harHeader, QJsonValue.toObject, value_ofMembers, String.reduceEq,
      if_true, if_false, QJsonValue.toQString, Bool.false_and, Bool.false_eq_true]
  rw [harHeadersFrom, harHeaders, toArray, List.map_map]
  conv => rhs; rw [← List.map_id headers]
  exact List.map_congr_left (fun h _ => hheader h)

end Bodies

section Annotations

theorem annotationError_eq_nil_iff :
    annotationError note = [] ↔ (∀ m ∈ note, annotationFieldError m = none) ∧
      (note.value "color").toQString ∈ kAnnotationColors ∧
      (note.value "comment").toQString.length ≤ 4096 := by
  rw [annotationError]
  cases hfield : note.findSome? annotationFieldError with
  | some error =>
    obtain ⟨m, hm, he⟩ := List.exists_of_findSome?_eq_some hfield
    constructor
    · intro hnil
      have hnil : error = [] := hnil
      rw [annotationFieldError, hnil] at he
      split at he
      · exact absurd (Option.some.inj he) (by decide)
      split at he
      · exact absurd (Option.some.inj he) (by decide)
      · exact absurd he (Option.some_ne_none _).symm
    · rintro ⟨hall, _⟩
      rw [hall m hm] at he
      exact absurd he (Option.some_ne_none _).symm
  | none =>
    dsimp only
    have hall := List.findSome?_eq_none_iff.1 hfield
    split
    · rename_i hcolor
      exact ⟨fun h => absurd h (by decide), fun h => absurd h.2.1 hcolor⟩
    split
    · rename_i hlen
      exact ⟨fun h => absurd h (by decide), fun h => absurd h.2.2 (Nat.not_le.2 hlen)⟩
    · rename_i hcolor hlen
      exact ⟨fun _ => ⟨hall, not_not.1 hcolor, Nat.not_lt.1 hlen⟩, fun _ => rfl⟩

def importedNote (note : QJsonObject) : QJsonObject :=
  harAnnotation
    (if note.isEmpty then []
    else ofMembers [("_nullockAnnotation", .object note),
      ("comment", .string (note.value "comment").toQString)])

theorem importedNote_eq (hne : note.isEmpty = false) :
    importedNote note =
      let full := insert (utf16 "comment") (.string (note.value "comment").toQString) note
      if (annotationError full).isEmpty && (note.value "color").toQString.isEmpty &&
        (note.value "comment").toQString.isEmpty then [] else full := by
  rw [importedNote, hne, if_neg Bool.false_ne_true, harAnnotation]
  simp (disch := decide) only [value_ofMembers, contains_ofMembers, value_insert, String.reduceEq,
    if_true, if_false, QJsonValue.toObject]
  rfl

theorem importedNote_valid (h : annotationError note = []) :
    annotationError (importedNote note) = [] ∧
      ((importedNote note).value "color").toQString = (note.value "color").toQString ∧
      ((importedNote note).value "comment").toQString = (note.value "comment").toQString := by
  cases hne : note.isEmpty with
  | true =>
    rw [List.isEmpty_iff.1 hne]
    exact ⟨by decide, by decide, by decide⟩
  | false =>
    obtain ⟨hfields, hcolor, hlen⟩ := annotationError_eq_nil_iff.1 h
    have hfull : annotationError
        (insert (utf16 "comment") (.string (note.value "comment").toQString) note) = [] := by
      refine annotationError_eq_nil_iff.2 ⟨fun m hm => ?_, ?_, ?_⟩
      · rcases mem_insert hm with rfl | hm
        · rfl
        · exact hfields m hm
      · rw [value_insert (by decide) (by decide), if_neg (by decide)]
        exact hcolor
      · rw [value_insert (by decide) (by decide), if_pos rfl]
        exact hlen
    rw [importedNote_eq hne]
    dsimp only
    split
    · rename_i hempty
      obtain ⟨hleft, hcomment⟩ := Bool.and_eq_true_iff.1 hempty
      rw [List.isEmpty_iff.1 hcomment, List.isEmpty_iff.1 (Bool.and_eq_true_iff.1 hleft).2]
      exact ⟨by decide, rfl, rfl⟩
    · rw [value_insert (by decide) (by decide), value_insert (by decide) (by decide),
        if_neg (by decide), if_pos rfl]
      exact ⟨hfull, rfl, rfl⟩

end Annotations

section Entries
variable (J : JsonLibrary) (U : UrlLibrary) (D : DateTimes) (note src : QJsonObject)

theorem harEntry_members :
    (harEntry J false note src).value "request" =
        .object (harRequest J (recordTransaction note src).req
          (recordTransaction note src).resp.wasTls false) ∧
      (harEntry J false note src).value "response" =
        .object (harResponse J (recordTransaction note src).resp false) := by
  simp (disch := decide) only [harEntry, List.cons_append, List.nil_append, value_ofMembers,
    String.reduceEq, if_true, if_false]
  exact ⟨rfl, rfl⟩

theorem entry_literal : ["startedDateTime", "time", "request", "response", "cache", "timings",
    "serverIPAddress"].all isLiteral = true := by
  decide

theorem annotated_literal : ["startedDateTime", "time", "request", "response", "cache", "timings",
    "serverIPAddress", "_nullockAnnotation", "comment"].all isLiteral = true := by
  decide

theorem note_literal : ["_nullockAnnotation", "comment"].all isLiteral = true := by
  decide

theorem harAnnotation_harEntry : harAnnotation (harEntry J false note src) = importedNote note := by
  rw [importedNote, harAnnotation, harAnnotation, harEntry]
  cases note.isEmpty with
  | true =>
    simp (disch := first | decide | simpa only [List.map_cons, List.map_nil] using entry_literal)
      only [List.cons_append, List.nil_append, if_true, value_lookup, contains_lookup]
    simp only [List.lookup_cons, List.lookup_nil, String.reduceBEq]
    rfl
  | false =>
    simp (disch := first
      | decide
      | simpa only [List.map_cons, List.map_nil] using annotated_literal
      | simpa only [List.map_cons, List.map_nil] using note_literal) only
      [List.cons_append, List.nil_append, if_false, Bool.false_eq_true, value_lookup,
        contains_lookup]
    simp only [List.lookup_cons, String.reduceBEq]
    rfl

theorem harEntry_annotation :
    (!(harEntry J false note src).contains "_nullockAnnotation" ||
      ((harEntry J false note src).value "_nullockAnnotation").isObject) = true := by
  rw [harEntry]
  cases note.isEmpty with
  | true =>
    simp (disch := first | decide | simpa only [List.map_cons, List.map_nil] using entry_literal)
      only [List.cons_append, List.nil_append, if_true, value_lookup, contains_lookup]
    simp only [List.lookup_cons, List.lookup_nil, String.reduceBEq]
    rfl
  | false =>
    simp (disch := first | decide | simpa only [List.map_cons, List.map_nil] using annotated_literal)
      only [List.cons_append, List.nil_append, if_false, Bool.false_eq_true, value_lookup,
        contains_lookup]
    simp only [List.lookup_cons, String.reduceBEq]
    rfl

theorem harRequest_members (r : HistoryRequest) (wasTls : Bool) :
    (harRequest J r wasTls false).value "method" = .string r.method ∧
      (harRequest J r wasTls false).value "url" = .string (harUrl r wasTls false) ∧
      (harRequest J r wasTls false).value "headers" = harHeaders r.headers false ∧
      (harRequest J r wasTls false).value "postData" =
        if r.body.isEmpty then .undefined else .object (harPostData J r false) := by
  rw [harRequest]
  cases r.body.isEmpty with
  | true =>
    simp (disch := decide) only [List.cons_append, List.nil_append, value_ofMembers,
      String.reduceEq, if_true, if_false, true_and]
    rfl
  | false =>
    simp (disch := decide) only [List.cons_append, List.nil_append, value_ofMembers,
      String.reduceEq, if_true, if_false, Bool.false_eq_true, and_self]

theorem harResponse_members (r : HistoryResponse) :
    (harResponse J r false).value "status" = .double r.statusCode ∧
      (harResponse J r false).value "statusText" = .string r.reasonPhrase ∧
      (harResponse J r false).value "headers" = harHeaders r.headers false ∧
      (harResponse J r false).value "content" = .object (harContent J r false) := by
  simp (disch := decide) only [harResponse, value_ofMembers, String.reduceEq, if_true, if_false,
    and_self]

theorem holdsBody_request (r : HistoryRequest) (wasTls : Bool) :
    HoldsBody ((harRequest J r wasTls false).value "postData").toObject r.body := by
  obtain ⟨_, _, _, hpost⟩ := harRequest_members J r wasTls
  rw [hpost]
  cases hempty : r.body.isEmpty with
  | true =>
    rw [if_pos rfl, List.isEmpty_iff.1 hempty]
    exact holdsBody_nil
  | false =>
    rw [if_neg Bool.false_ne_true]
    exact holdsBody_postData J r

theorem holdsBody_response (r : HistoryResponse) :
    HoldsBody ((harResponse J r false).value "content").toObject r.body := by
  obtain ⟨_, _, _, hcontent⟩ := harResponse_members J r
  rw [hcontent]
  exact holdsBody_content J r

theorem entryValid_harEntry (h : annotationError note = []) :
    entryValid (harEntry J false note src) = true := by
  obtain ⟨hreq, hresp⟩ := harEntry_members J note src
  rw [entryValid, harEntry_annotation, harAnnotation_harEntry, (importedNote_valid h).1, hreq, hresp,
    QJsonValue.toObject, QJsonValue.toObject, (holdsBody_request J _ _).valid,
    (holdsBody_response J _).valid]
  rfl

theorem harEntry_url :
    (((harEntry J false note src).value "request").toObject.value "url").toQString =
      (recordTransaction note src).urlParts.text := by
  obtain ⟨hreq, _⟩ := harEntry_members J note src
  rw [hreq, QJsonValue.toObject, (harRequest_members J _ _).2.1, QJsonValue.toQString,
    Transaction.harUrl_eq]

theorem harTransaction_fields (now : QDateTime)
    (e : Transaction) (he : e = harTransaction U D now (harEntry J false note src)) :
    e.req.method = (recordTransaction note src).req.method ∧
      e.req.headers = (recordTransaction note src).req.headers ∧
      e.req.body = (recordTransaction note src).req.body ∧
      e.resp.headers = (recordTransaction note src).resp.headers ∧
      e.resp.body = (recordTransaction note src).resp.body ∧
      e.resp.statusCode = (recordTransaction note src).resp.statusCode ∧
      e.resp.reasonPhrase = (recordTransaction note src).resp.reasonPhrase := by
  obtain ⟨hreq, hresp⟩ := harEntry_members J note src
  subst he
  generalize recordTransaction note src = t at hreq hresp
  obtain ⟨hmethod, _, hheaders, _⟩ := harRequest_members J t.req t.resp.wasTls
  obtain ⟨hstatus, hreason, hrespHeaders, _⟩ := harResponse_members J t.resp
  have hobject (o : QJsonObject) : (QJsonValue.object o).toObject = o := rfl
  simp only [harTransaction, harEntryToRequest, harEntryToResponse, hreq, hresp, hobject, hmethod,
    hheaders, hstatus, hreason, hrespHeaders,
    harHeadersFrom_harHeaders, QJsonValue.toQString, QJsonValue.toInt_double t.resp.status_int,
    true_and, and_true]
  exact ⟨(holdsBody_request J t.req t.resp.wasTls).imported,
    (holdsBody_response J t.resp).imported⟩

theorem reproduced_iff (now : QDateTime) (h : (recordTransaction note src).Exportable) :
    (recordTransaction note src).Reproduced (harTransaction U D now (harEntry J false note src)) ↔
      PortAgrees (recordTransaction note src).resp.wasTls (recordTransaction note src).req.port ∧
        U.Keeps (recordTransaction note src).req.host (recordTransaction note src).req.path := by
  have hurl := harEntry_url J note src
  have hnote := harAnnotation_harEntry J note src
  obtain ⟨_, hcolor, hcomment⟩ := importedNote_valid h.note_valid
  obtain ⟨hmethod, hheaders, hbody, hrespHeaders, hrespBody, hstatus, hreason⟩ :=
    harTransaction_fields J U D note src now _ rfl
  have hhostText := U.host_text _ h.legal
  constructor
  · intro hr
    have hhost := hr.host
    have hport := hr.port
    have hpath := hr.path
    simp only [harTransaction, harEntryToRequest, hurl] at hhost hport hpath
    rw [hhostText] at hhost
    exact ⟨(portOr_eq_iff U h hhost).1 hport, (urlPath_eq_iff U h hhost).1 hpath⟩
  · rintro ⟨hport, hkeeps⟩
    have hhost := hkeeps.host_kept
    have hport := (portOr_eq_iff U h hhost).2 hport
    have hpath := (urlPath_eq_iff U h hhost).2 hkeeps
    have htls := scheme_https U h hhost
    constructor
    · exact hmethod
    · simp only [harTransaction, harEntryToRequest, hurl]
      exact hhostText.trans hhost
    · simp only [harTransaction, harEntryToRequest, hurl]
      exact hport
    · simp only [harTransaction, harEntryToResponse, hurl]
      exact htls
    · simp only [harTransaction, harEntryToRequest, hurl]
      exact hpath
    · exact hheaders
    · exact hrespHeaders
    · exact hbody
    · exact hrespBody
    · exact hstatus
    · exact hreason
    · rw [harTransaction, hnote]
      exact hcolor
    · rw [harTransaction, hnote]
      exact hcomment

end Entries

section Stored
variable (J : JsonLibrary)

theorem stored_pair (a b : QString) :
    (QJsonValue.object (ofMembers [("name", .string a), ("value", .string b)])).Stored J.Exact
      (depth + 1) := by
  refine .ofMembers (List.forall_mem_cons.2 ⟨.string, ?_⟩)
  exact List.forall_mem_singleton.2 .string

theorem stored_harHeaders (headers : List Header) :
    (harHeaders headers redact).Stored J.Exact (depth + 2) := by
  refine .array (fun v hv => ?_)
  obtain ⟨h, _, rfl⟩ := List.mem_map.1 hv
  exact stored_pair J _ _

theorem stored_harQueryString (path : QString) :
    (harQueryString path redact).Stored J.Exact (depth + 2) := by
  rw [harQueryString]
  cases queryOf path with
  | none => exact .array (fun v hv => absurd hv List.not_mem_nil)
  | some q =>
    refine .array (fun v hv => ?_)
    obtain ⟨pair, _, rfl⟩ := List.mem_map.1 hv
    rw [harQueryPair]
    split
    · exact stored_pair J _ _
    · exact stored_pair J _ _

theorem stored_harBody (text : QString × Bool) (key : String) :
    ∀ m ∈ harBody text key, QJsonValue.Stored J.Exact depth m.2 := by
  intro m hm
  rw [harBody] at hm
  rcases List.mem_cons.1 hm with rfl | hm
  · exact .string
  split at hm
  · rw [List.mem_singleton.1 hm]
    exact .string
  · exact absurd hm List.not_mem_nil

theorem stored_size (h : n < 2 ^ 63) : (sizeToJson n).Stored J.Exact depth :=
  .double (J.exact_nat h)

theorem stored_harRequest (r : HistoryRequest) (wasTls : Bool) (h : r.body.length < 2 ^ 63) :
    (QJsonValue.object (harRequest J r wasTls redact)).Stored J.Exact (depth + 3) := by
  have hexact : J.Exact (-1 : Int) := J.exact_int _ (by decide) (by decide)
  refine .ofMembers (fun m hm => ?_)
  rcases List.mem_append.1 hm with hm | hm
  · simp only [List.mem_cons, List.not_mem_nil, or_false] at hm
    rcases hm with rfl | rfl | rfl | rfl | rfl | rfl | rfl | rfl
    · exact .string
    · exact .string
    · exact .string
    · exact stored_harHeaders J r.headers
    · exact stored_harQueryString J r.path
    · exact .array (fun v hv => absurd hv List.not_mem_nil)
    · exact .double hexact
    · exact stored_size J h
  · split at hm
    · exact absurd hm List.not_mem_nil
    · rw [List.mem_singleton.1 hm]
      refine .ofMembers (List.forall_mem_cons.2 ⟨.string, ?_⟩)
      exact stored_harBody J _ _

theorem stored_harResponse (r : HistoryResponse) (h : r.body.length < 2 ^ 63) :
    (QJsonValue.object (harResponse J r redact)).Stored J.Exact (depth + 3) := by
  have hexact : J.Exact (-1 : Int) := J.exact_int _ (by decide) (by decide)
  refine .ofMembers (fun m hm => ?_)
  simp only [List.mem_cons, List.not_mem_nil, or_false] at hm
  rcases hm with rfl | rfl | rfl | rfl | rfl | rfl | rfl | rfl | rfl
  · exact .double (J.exact_int32 r.status_int)
  · exact .string
  · exact .string
  · exact stored_harHeaders J r.headers
  · exact .array (fun v hv => absurd hv List.not_mem_nil)
  · refine .ofMembers (List.forall_mem_cons.2 ⟨stored_size J h, ?_⟩)
    exact List.forall_mem_cons.2 ⟨.string, stored_harBody J _ _⟩
  · exact .string
  · exact .double hexact
  · exact stored_size J h

theorem stored_note (hs : Sorted note) (h : annotationError note = []) :
    (QJsonValue.object note).Stored J.Exact (depth + 1) := by
  refine .object hs (fun m hm => ?_)
  have hfield := (annotationError_eq_nil_iff.1 h).1 m hm
  rw [annotationFieldError] at hfield
  split at hfield
  · exact absurd hfield (Option.some_ne_none _)
  split at hfield
  · exact absurd hfield (Option.some_ne_none _)
  · rename_i htext
    cases hv : m.2 with
    | string s => exact .string
    | _ =>
      rw [hv] at htext
      exact absurd rfl htext

theorem stored_harEntry (h : (recordTransaction note src).Exportable) :
    (QJsonValue.object (harEntry J redact note src)).Stored J.Exact (depth + 4) := by
  have hminus : J.Exact (-1 : Int) := J.exact_int _ (by decide) (by decide)
  refine .ofMembers (fun m hm => ?_)
  rcases List.mem_append.1 hm with hm | hm
  · simp only [List.mem_cons, List.not_mem_nil, or_false] at hm
    rcases hm with rfl | rfl | rfl | rfl | rfl | rfl | rfl
    · exact .string
    · exact .double (J.exact_int 0 (by decide) (by decide))
    · exact stored_harRequest J _ _ h.request_size
    · exact stored_harResponse J _ h.response_size
    · exact .object .nil (fun m hm => absurd hm List.not_mem_nil)
    · refine .ofMembers (List.forall_mem_cons.2 ⟨.double hminus, ?_⟩)
      refine List.forall_mem_cons.2 ⟨.double hminus, ?_⟩
      exact List.forall_mem_singleton.2 (.double hminus)
    · exact .string
  · split at hm
    · exact absurd hm List.not_mem_nil
    · simp only [List.mem_cons, List.not_mem_nil, or_false] at hm
      rcases hm with rfl | rfl
      · exact stored_note J h.note_sorted h.note_valid
      · exact .string

theorem stored_harDocument (version : QString)
    (h : ∀ e ∈ entries, (QJsonValue.object e).Stored J.Exact depth) :
    (harDocument version entries).Stored J.Exact (depth + 3) := by
  refine .ofMembers (List.forall_mem_singleton.2 (.ofMembers ?_))
  refine List.forall_mem_cons.2 ⟨.string, List.forall_mem_cons.2 ⟨?_, ?_⟩⟩
  · have hcreator : (QJsonValue.object (ofMembers [("name", .string (utf16 "Nullock")),
        ("version", .string version)])).Stored J.Exact 1 :=
      .ofMembers (List.forall_mem_cons.2 ⟨.string, List.forall_mem_singleton.2 .string⟩)
    exact hcreator.mono (Nat.succ_le_succ (Nat.zero_le _))
  · refine List.forall_mem_singleton.2 (.array (fun v hv => ?_))
    obtain ⟨e, he, rfl⟩ := List.mem_map.1 hv
    exact h e he

end Stored

theorem acceptedEntries_harDocument (J : JsonLibrary) (version : QString)
    (hstored : ∀ e ∈ entries, (QJsonValue.object e).Stored J.Exact (kNestingLimit - 3))
    (hvalid : ∀ e ∈ entries, entryValid e = true) (notes : QJsonObject) (nextRowId : Nat) :
    acceptedEntries J notes nextRowId (J.indented (harDocument version entries)) =
      if NotesFit J (prospectiveNotes notes nextRowId (entries.map harAnnotation)) then
        some entries
      else none := by
  have hlog : (toArray (((((harDocument version entries).toObject).value "log").toObject).value
      "entries")).map QJsonValue.toObject = entries := by
    simp (disch := decide) only [harDocument, QJsonValue.toObject, value_ofMembers,
      String.reduceEq, if_true, if_false]
    rw [toArray, List.map_map]
    conv => rhs; rw [← List.map_id entries]
    exact List.map_congr_left (fun _ _ => rfl)
  have hread := J.read_indented (harDocument version entries) rfl
    (stored_harDocument J version hstored)
  have hall : entries.all entryValid = true := List.all_eq_true.2 hvalid
  rw [acceptedEntries, hread]
  have hdoc : harDocument version entries = .object (harDocument version entries).toObject := rfl
  rw [hdoc]
  dsimp only
  rw [hlog, hall]
  simp only [true_and]

theorem map_mapIdx (f : β → γ) (g : Nat → α → β) (s : List α) :
    (s.mapIdx g).map f = s.mapIdx (fun i a => f (g i a)) := by
  induction s generalizing g with
  | nil => rfl
  | cons a s ih => rw [List.mapIdx_cons, List.mapIdx_cons, List.map_cons, ih]

theorem forall₂_mapIdx_iff {R : β → γ → Prop} {P S : β → Prop} {f : Nat → α → β}
    {g : Nat → α → γ} (s : List α) (hP : ∀ b ∈ s.mapIdx f, P b)
    (h : ∀ i a, P (f i a) → (R (f i a) (g i a) ↔ S (f i a))) :
    List.Forall₂ R (s.mapIdx f) (s.mapIdx g) ↔ ∀ b ∈ s.mapIdx f, S b := by
  induction s generalizing f g with
  | nil => exact ⟨fun _ b hb => absurd hb List.not_mem_nil, fun _ => .nil⟩
  | cons a s ih =>
    rw [List.mapIdx_cons] at hP ⊢
    obtain ⟨ha, hs⟩ := List.forall_mem_cons.1 hP
    rw [List.mapIdx_cons, List.forall₂_cons, List.forall_mem_cons, h 0 a ha,
      ih hs (fun i b => h (i + 1) b)]

theorem forall_mapIdx {P : β → Prop} {Q : γ → Prop} {f : Nat → α → β} {g : Nat → α → γ}
    {s : List α} (hP : ∀ b ∈ s.mapIdx f, P b) (h : ∀ i a, P (f i a) → Q (g i a)) :
    ∀ c ∈ s.mapIdx g, Q c := by
  intro c hc
  obtain ⟨i, hi, rfl⟩ := List.mem_mapIdx.1 hc
  exact h i _ (hP _ (List.mem_mapIdx.2 ⟨i, hi, rfl⟩))

/-- What an exported history is imported as, with these annotations and rows. -/
def importedTransactions (J : JsonLibrary) (U : UrlLibrary) (D : DateTimes) (now : QDateTime)
    (notes : QJsonObject) (nextRowId : Nat) (harJson : QByteArray) : Option (List Transaction) :=
  (acceptedEntries J notes nextRowId harJson).map (fun entries =>
    entries.map (harTransaction U D now))

def Transaction.Survives (U : UrlLibrary) (t : Transaction) : Prop :=
  PortAgrees t.resp.wasTls t.req.port ∧ U.Keeps t.req.host t.req.path

section Histories
variable (J : JsonLibrary) (U : UrlLibrary) (D : DateTimes) (now : QDateTime)
  (annotations : QJsonObject) (content : QByteArray)

def returnedTransactions : List Transaction :=
  (exportRecords J content).mapIdx (fun i src =>
    harTransaction U D now (harEntry J false (noteAt annotations i) src))

variable {annotations content} (h : ∀ t ∈ storedTransactions J annotations content, t.Exportable)
include h

theorem importedTransactions_exportHar (version : QString) (notes : QJsonObject)
    (nextRowId : Nat) :
    importedTransactions J U D now notes nextRowId
        (J.indented (exportHar J version false annotations content)) =
      if NotesFit J (prospectiveNotes notes nextRowId
          ((storedTransactions J annotations content).map (importedNote ·.note))) then
        some (returnedTransactions J U D now annotations content)
      else none := by
  have hentries : ∀ e ∈ harEntries J false annotations (exportRecords J content),
      (QJsonValue.object e).Stored J.Exact (kNestingLimit - 3) ∧ entryValid e = true :=
    forall_mapIdx h (fun i src ht =>
      ⟨stored_harEntry J ht, entryValid_harEntry J _ src ht.note_valid⟩)
  have hnotes : (harEntries J false annotations (exportRecords J content)).map harAnnotation =
      (storedTransactions J annotations content).map (importedNote ·.note) := by
    rw [harEntries, storedTransactions, map_mapIdx, map_mapIdx]
    exact congrArg (List.mapIdx · _) (funext fun i => funext fun src =>
      harAnnotation_harEntry J (noteAt annotations i) src)
  have hreturned : (harEntries J false annotations (exportRecords J content)).map
      (harTransaction U D now) = returnedTransactions J U D now annotations content := by
    rw [harEntries, map_mapIdx]
    rfl
  rw [importedTransactions, exportHar, acceptedEntries_harDocument J version
    (fun e he => (hentries e he).1) (fun e he => (hentries e he).2), hnotes]
  split
  · exact congrArg some hreturned
  · rfl

theorem reproduced_all_iff :
    List.Forall₂ Transaction.Reproduced (storedTransactions J annotations content)
        (returnedTransactions J U D now annotations content) ↔
      ∀ t ∈ storedTransactions J annotations content, t.Survives U :=
  forall₂_mapIdx_iff (S := Transaction.Survives U) (exportRecords J content) h
    (fun i src ht => reproduced_iff J U D (noteAt annotations i) src now ht)

theorem survives_of_imported
    (himported : importedTransactions J U D now notes nextRowId
      (J.indented (exportHar J version false annotations content)) = some imported)
    (hall : List.Forall₂ Transaction.Reproduced (storedTransactions J annotations content)
      imported) :
    NotesFit J (prospectiveNotes notes nextRowId
        ((storedTransactions J annotations content).map (importedNote ·.note))) ∧
      ∀ t ∈ storedTransactions J annotations content, t.Survives U := by
  rw [importedTransactions_exportHar J U D now h] at himported
  split at himported
  · rename_i hfit
    rw [← Option.some.inj himported] at hall
    exact ⟨hfit, (reproduced_all_iff J U D now h).1 hall⟩
  · exact absurd himported (Option.some_ne_none _).symm

end Histories

/-- A history is reproduced when annotations fit and all survive. -/
theorem har_round_trips_iff (J : JsonLibrary) (U : UrlLibrary) (D : DateTimes) (now : QDateTime)
    (version : QString) (annotations : QJsonObject) (content : QByteArray)
    (h : ∀ t ∈ storedTransactions J annotations content, t.Exportable)
    (notes : QJsonObject) (nextRowId : Nat) :
    (∃ imported, importedTransactions J U D now notes nextRowId
        (J.indented (exportHar J version false annotations content)) = some imported ∧
        List.Forall₂ Transaction.Reproduced (storedTransactions J annotations content) imported) ↔
      NotesFit J (prospectiveNotes notes nextRowId
          ((storedTransactions J annotations content).map (importedNote ·.note))) ∧
        ∀ t ∈ storedTransactions J annotations content, t.Survives U := by
  constructor
  · rintro ⟨imported, himported, hall⟩
    exact survives_of_imported J U D now h himported hall
  · rintro ⟨hfit, hsurvive⟩
    refine ⟨_, ?_, (reproduced_all_iff J U D now h).2 hsurvive⟩
    rw [importedTransactions_exportHar J U D now h, if_pos hfit]

section Samples

theorem storedTransactions_line (J : JsonLibrary) (D : DateTimes) (req : HistoryRequest)
    (resp : HistoryResponse) :
    storedTransactions J [] (entryLine J D req resp [] ++ [0x0A]) =
      [⟨{ req with tls := false, timestamp := none }, resp, []⟩] := by
  have hnote : (QJsonValue.object []).Stored J.Exact (1020 + 3) := stored_no_annotation _
  have hstored : (QJsonValue.object (entryToJson D req resp [])).Stored J.Exact kNestingLimit :=
    stored_entry D req resp hnote
  have hline := exportRecords_append_line J hstored closed_nil
  have hnil : exportRecords J [] = [] := rfl
  obtain ⟨hreq, hresp⟩ := entryRecord D req resp []
  rw [List.nil_append, hnil, List.nil_append] at hline
  rw [storedTransactions, entryLine, hline, List.mapIdx_cons, List.mapIdx_nil, recordTransaction,
    hreq, hresp, requestFromJson_toJson, responseFromJson_toJson]
  rfl

/-- The transaction that is stored of a request through TLS to a port. -/
def accountTransaction (port : Nat) (h : port < 65536) : Transaction where
  req := { tlsRequest with port := port, port_lt := h, tls := false, timestamp := none }
  resp := okResponse
  note := []

def accountHistory (port : Nat) (h : port < 65536) : QByteArray :=
  entryLine JsonText.textLibrary epochDates { tlsRequest with port := port, port_lt := h }
    okResponse [] ++ [0x0A]

theorem stored_account {port : Nat} (h : port < 65536) :
    storedTransactions JsonText.textLibrary [] (accountHistory port h) =
      [accountTransaction port h] := storedTransactions_line _ _ _ _

theorem account_exportable {port : Nat} (h : port < 65536) :
    (accountTransaction port h).Exportable := by
  have hhost : isDnsName (utf16 "shop.test") = true := by decide
  have hpath : ∀ c ∈ utf16 "/account", isUrlChar c = true :=
    forall_mem_of_all (by decide)
  have hnote : annotationError [] = [] := by decide
  constructor
  · exact hhost
  · rfl
  · exact hpath
  · exact Nat.two_pow_pos 63
  · exact Nat.two_pow_pos 63
  · exact .nil
  · exact hnote

theorem account_survives_iff {port : Nat} (h : port < 65536) :
    (accountTransaction port h).Survives httpUrls ↔ port ≠ 80 := by
  have hkeeps : httpUrls.Keeps (utf16 "shop.test") (utf16 "/account") :=
    ⟨rfl, by decide, by decide, by decide⟩
  constructor
  · rintro ⟨⟨h80, _⟩, _⟩ he
    exact Bool.false_ne_true (h80 he).symm
  · intro hne
    exact ⟨⟨fun he => absurd he hne, fun _ => rfl⟩, hkeeps⟩

/-- The history of one account is imported into a new project as it was. -/
def AccountReturns (port : Nat) (h : port < 65536) : Prop :=
  ∃ imported, importedTransactions JsonText.textLibrary httpUrls epochDates none [] 1
      (JsonText.textLibrary.indented (exportHar JsonText.textLibrary (utf16 "1.0") false []
        (accountHistory port h))) = some imported ∧
    List.Forall₂ Transaction.Reproduced
      (storedTransactions JsonText.textLibrary [] (accountHistory port h)) imported

theorem accounts_exportable {port : Nat} (h : port < 65536) :
    ∀ t ∈ storedTransactions JsonText.textLibrary [] (accountHistory port h), t.Exportable := by
  rw [stored_account]
  exact List.forall_mem_singleton.2 (account_exportable h)

theorem account_returns : AccountReturns 443 (by decide) := by
  have hfit : NotesFit JsonText.textLibrary (prospectiveNotes [] 1 [importedNote []]) := by decide
  refine (har_round_trips_iff _ httpUrls epochDates none _ _ _
    (accounts_exportable (by decide)) [] 1).2 ?_
  rw [stored_account]
  exact ⟨hfit, List.forall_mem_singleton.2 ((account_survives_iff _).2 (by decide))⟩

/-- TLS to port 80: the URL has no port and is read back as 443. -/
theorem tls_port_lost :
    (∀ t ∈ storedTransactions JsonText.textLibrary [] (accountHistory 80 (by decide)),
        t.Exportable) ∧
      ¬ AccountReturns 80 (by decide) := by
  refine ⟨accounts_exportable (by decide), ?_⟩
  rintro ⟨imported, himported, hall⟩
  obtain ⟨_, hsurvive⟩ := survives_of_imported JsonText.textLibrary httpUrls epochDates none
    (accounts_exportable (by decide)) himported hall
  rw [stored_account] at hsurvive
  exact (account_survives_iff _).1 (List.forall_mem_singleton.1 hsurvive) rfl

end Samples

end Nullock.ProjectStore

import Nullock.ExtensionsApi

namespace Nullock.ExtensionsApi
open Proxy HttpLogic

def validHeader (h : Header) : Bool := isValidHeaderName h.1 && isValidHeaderValue h.2

def HeadersSurvive (headers : List Header) : Prop :=
  headers.length ≤ kMaxHeaders ∧ ∀ h ∈ headers, validHeader h = true

/-- A body that is UTF-8 and does not begin with a byte order mark. -/
def IsUtf8 (body : QByteArray) : Prop :=
  (∃ text, wellFormed text = true ∧ toUtf8 text = body) ∧ [0xEF, 0xBB, 0xBF].isPrefixOf body = false

def Idle (E : JsEngine) (h : Handler E) : Prop :=
  ∀ e, (h e).1 = e ∧ ∀ r, (h e).2 = some r → E.isObject r = false

theorem toUtf8_fromUtf8_iff (body : QByteArray) :
    toUtf8 (QString.fromUtf8 body) = body ↔ IsUtf8 body := by
  constructor
  · intro h
    have hbom := noBom_of_text h
    refine ⟨⟨QString.fromUtf8 body, ?_, h⟩, hbom⟩
    exact wellFormed_fromUtf8 _
  · rintro ⟨⟨text, hwell, rfl⟩, hbom⟩
    rw [QString.fromUtf8, hbom, if_neg Bool.false_ne_true, fromUtf8_toUtf8 hwell]

section Headers
variable {E : JsEngine}

theorem takeHeader_survives (arr : E.Value) (i : Nat) (h : HeadersSurvive out) :
    HeadersSurvive (takeHeader E arr out i) := by
  rw [takeHeader.eq_def]
  split
  · rename_i hroom
    dsimp only
    split
    · exact h
    split
    · exact h
    · rename_i hvalid
      constructor
      · rw [List.length_append]
        exact hroom
      · intro field hfield
        rcases List.mem_append.1 hfield with hfield | hfield
        · exact h.2 field hfield
        · rw [List.mem_singleton.1 hfield, validHeader]
          simpa using hvalid
  · exact h

theorem headersFromJs_survive (arr : E.Value) : HeadersSurvive (headersFromJs E arr) := by
  have hnil : HeadersSurvive [] := ⟨Nat.zero_le _, fun h hh => absurd hh List.not_mem_nil⟩
  rw [headersFromJs]
  split
  · exact hnil
  · exact List.foldlRecOn _ _ hnil (fun out h i _ => takeHeader_survives arr i h)

variable (hE : E.Documented)
include hE

theorem takeHeader_toJs {headers : List Header} (h : HeadersSurvive headers)
    (hi : n < headers.length) :
    takeHeader E (headersToJs E headers) (headers.take n) n = headers.take (n + 1) := by
  have hroom : (headers.take n).length < kMaxHeaders := by
    rw [List.length_take_of_le hi.le]
    exact Nat.lt_of_lt_of_le hi h.1
  have hpair : E.element (headersToJs E headers) n =
      E.array [E.string headers[n].1, E.string headers[n].2] :=
    hE.element_array _ n _ (by rw [List.getElem?_map, List.getElem?_eq_getElem hi]; rfl)
  have hlength : E.toInt (E.property
      (E.array [E.string headers[n].1, E.string headers[n].2]) (utf16 "length")) = 2 :=
    hE.length_array [E.string headers[n].1, E.string headers[n].2]
      (Nat.lt_of_lt_of_le (by decide : 2 < 3) (by decide))
  have hname : E.element (E.array [E.string headers[n].1, E.string headers[n].2]) 0 =
      E.string headers[n].1 := hE.element_array _ 0 _ rfl
  have hvalue : E.element (E.array [E.string headers[n].1, E.string headers[n].2]) 1 =
      E.string headers[n].2 := hE.element_array _ 1 _ rfl
  have hvalid := h.2 headers[n] (List.getElem_mem hi)
  rw [validHeader, Bool.and_eq_true] at hvalid
  rw [takeHeader, if_pos hroom]
  simp only [hpair, hE.isArray_array, hlength, hname, hvalue, hE.toQString_string, hvalid.1,
    hvalid.2, Bool.not_true, Bool.false_or, decide_eq_true_eq, Int.lt_irrefl, if_false,
    Bool.or_self, Bool.false_eq_true]
  rw [List.take_add_one, List.getElem?_eq_getElem hi]
  rfl

theorem headersFromJs_toJs {headers : List Header} (h : HeadersSurvive headers) :
    headersFromJs E (headersToJs E headers) = headers := by
  have hlength : E.toInt (E.property (headersToJs E headers) (utf16 "length")) =
      headers.length := by
    rw [headersToJs, hE.length_array, List.length_map]
    have hcap : kMaxHeaders < 2 ^ 31 := by decide
    rw [List.length_map]
    exact Nat.lt_of_le_of_lt h.1 hcap
  have hloop : ∀ n ≤ headers.length,
      (List.range n).foldl (takeHeader E (headersToJs E headers)) [] = headers.take n := by
    intro n
    induction n with
    | zero => exact fun _ => rfl
    | succ n ih =>
      intro hn
      rw [List.range_succ, List.foldl_append, ih (Nat.le_of_succ_le hn)]
      exact takeHeader_toJs hE h hn
  rw [headersFromJs, hlength, Int.toNat_natCast, hloop _ (Nat.le_refl _), List.take_length]
  have harray : E.isArray (headersToJs E headers) = true := hE.isArray_array _
  rw [harray]
  rfl

theorem headersFromJs_toJs_iff {headers : List Header} :
    headersFromJs E (headersToJs E headers) = headers ↔ HeadersSurvive headers := by
  constructor
  · intro h
    rw [← h]
    exact headersFromJs_survive _
  · exact headersFromJs_toJs hE

end Headers

section Entries
variable {E : JsEngine} (hE : E.Documented) (req : ProxiedRequest)
include hE

theorem requestEntry_properties :
    E.property (requestEntry E req) (utf16 "method") = E.string req.method ∧
      E.property (requestEntry E req) (utf16 "path") = E.string req.path ∧
      E.property (requestEntry E req) (utf16 "headers") = headersToJs E req.headers ∧
      E.property (requestEntry E req) (utf16 "bodyText") =
        E.string (QString.fromUtf8 req.body) := by
  have hkeys : (["method", "host", "port", "path", "headers", "bodyText"].map utf16).Nodup := by
    decide
  refine ⟨?_, ?_, ?_, ?_⟩
  · exact hE.property_object _ _ _ hkeys (by simp)
  · exact hE.property_object _ _ _ hkeys (by simp)
  · exact hE.property_object _ _ _ hkeys (by simp)
  · exact hE.property_object _ _ _ hkeys (by simp)

theorem buildEntry_properties (wasTls : Bool) (resp : HttpResponse) :
    E.property (buildEntry E req wasTls resp) (utf16 "status") = E.int resp.statusCode ∧
      E.property (buildEntry E req wasTls resp) (utf16 "reasonPhrase") =
        E.string resp.reasonPhrase ∧
      E.property (buildEntry E req wasTls resp) (utf16 "headers") = headersToJs E resp.headers ∧
      E.property (buildEntry E req wasTls resp) (utf16 "bodyText") =
        E.string (QString.fromUtf8 resp.body) := by
  have hkeys : (["method", "url", "status", "reasonPhrase", "headers", "bodyText",
      "responseSize"].map utf16).Nodup := by
    decide
  refine ⟨?_, ?_, ?_, ?_⟩
  · exact hE.property_object _ _ _ hkeys (by simp)
  · exact hE.property_object _ _ _ hkeys (by simp)
  · exact hE.property_object _ _ _ hkeys (by simp)
  · exact hE.property_object _ _ _ hkeys (by simp)

theorem readBack_requestEntry :
    readBack E req (requestEntry E req) = { req with
      headers := headersFromJs E (headersToJs E req.headers)
      body := toUtf8 (QString.fromUtf8 req.body) } := by
  obtain ⟨hmethod, hpath, hheaders, hbody⟩ := requestEntry_properties hE req
  simp only [readBack, hmethod, hpath, hheaders, hbody, hE.toQString_string, ite_self]

theorem applyBack_buildEntry (wasTls : Bool) {resp : HttpResponse} (h : IsInt32 resp.statusCode) :
    applyBack E resp (buildEntry E req wasTls resp) = { resp with
      headers := headersFromJs E (headersToJs E resp.headers) } := by
  obtain ⟨hstatus, hreason, hheaders, hbody⟩ := buildEntry_properties hE req wasTls resp
  simp only [applyBack, hstatus, hreason, hheaders, hbody, hE.toQString_string, hE.toInt_int _ h,
    ite_self, ne_eq, not_true_eq_false, if_false]

end Entries

section Idle
variable {E : JsEngine} {handlers : List (Handler E)}

theorem callRequestHandler_idle (h : Idle E handler) (entry : E.Value) :
    callRequestHandler E entry handler = entry := by
  obtain ⟨hedited, hreturn⟩ := h entry
  rw [callRequestHandler]
  split
  · rename_i edited heq
    rw [heq] at hedited
    exact hedited
  · rename_i edited r heq
    rw [heq] at hedited hreturn
    rw [hreturn r rfl, if_neg Bool.false_ne_true]
    exact hedited

theorem foldl_idle (hidle : ∀ h ∈ handlers, Idle E h) (entry : E.Value) :
    handlers.foldl (callRequestHandler E) entry = entry := by
  induction handlers with
  | nil => rfl
  | cons h handlers ih =>
    obtain ⟨hh, hrest⟩ := List.forall_mem_cons.1 hidle
    rw [List.foldl_cons, callRequestHandler_idle hh, ih hrest]

theorem doMutateRequest_idle (hE : E.Documented) (hidle : ∀ h ∈ handlers, Idle E h)
    (req : ProxiedRequest) :
    doMutateRequest E handlers req = req ↔
      handlers = [] ∨ HeadersSurvive req.headers ∧ IsUtf8 req.body := by
  rw [doMutateRequest]
  cases handlers with
  | nil => exact iff_of_true rfl (.inl rfl)
  | cons h handlers =>
    rw [List.isEmpty_cons, if_neg Bool.false_ne_true, foldl_idle hidle, readBack_requestEntry hE,
      ← headersFromJs_toJs_iff hE, ← toUtf8_fromUtf8_iff]
    constructor
    · intro he
      exact .inr ⟨congrArg (·.headers) he, congrArg (·.body) he⟩
    · rintro (he | ⟨hheaders, hbody⟩)
      · exact absurd he (List.cons_ne_nil _ _)
      · rw [hheaders, hbody]

variable {req : ProxiedRequest} {wasTls : Bool}

def granted (h : Handler E) : ResponseHandler E := ⟨h, true⟩

/-- A handler passes the response on, with the headers that survive. -/
theorem callResponseHandler_idle (hE : E.Documented) (hidle : Idle E h)
    (hint : IsInt32 resp.statusCode) :
    callResponseHandler E req wasTls resp (granted h) =
      if (h (buildEntry E req wasTls resp)).2 = none then resp
      else { resp with headers := headersFromJs E (headersToJs E resp.headers) } := by
  obtain ⟨hedited, hreturn⟩ := hidle (buildEntry E req wasTls resp)
  rw [callResponseHandler, granted]
  split
  · rename_i edited heq
    rw [if_pos (congrArg Prod.snd heq)]
  · rename_i edited r heq
    have hr : (h (buildEntry E req wasTls resp)).2 = some r := congrArg Prod.snd heq
    have harg : edited = buildEntry E req wasTls resp := (congrArg Prod.fst heq).symm.trans hedited
    rw [hr, if_neg (by simp), hreturn r hr, harg, if_neg Bool.false_ne_true,
      applyBack_buildEntry hE req wasTls hint]
    rfl

theorem foldl_survives (hE : E.Documented) (hidle : ∀ h ∈ handlers, Idle E h)
    (hint : IsInt32 resp.statusCode) (hsurvive : HeadersSurvive resp.headers) :
    (handlers.map granted).foldl (callResponseHandler E req wasTls) resp = resp := by
  induction handlers with
  | nil => rfl
  | cons h handlers ih =>
    obtain ⟨hh, hrest⟩ := List.forall_mem_cons.1 hidle
    have hstep : callResponseHandler E req wasTls resp (granted h) = resp := by
      rw [callResponseHandler_idle hE hh hint, headersFromJs_toJs hE hsurvive, ite_self]
    rw [List.map_cons, List.foldl_cons, hstep]
    exact ih hrest

theorem foldl_completes (hE : E.Documented) (hidle : ∀ h ∈ handlers, Idle E h)
    (hint : IsInt32 resp.statusCode)
    (hends : ∃ h ∈ handlers, (h (buildEntry E req wasTls resp)).2 ≠ none) :
    HeadersSurvive
      ((handlers.map granted).foldl (callResponseHandler E req wasTls) resp).headers := by
  induction handlers with
  | nil =>
    obtain ⟨h, hmem, -⟩ := hends
    exact absurd hmem List.not_mem_nil
  | cons h handlers ih =>
    obtain ⟨hh, hrest⟩ := List.forall_mem_cons.1 hidle
    rw [List.map_cons, List.foldl_cons, callResponseHandler_idle hE hh hint]
    split
    · rename_i hthrows
      obtain ⟨h', hmem, hends'⟩ := hends
      rcases List.mem_cons.1 hmem with rfl | hmem
      · exact absurd hthrows hends'
      · exact ih hrest ⟨h', hmem, hends'⟩
    · have hkept := headersFromJs_survive (E := E) (headersToJs E resp.headers)
      rw [foldl_survives hE hrest (by exact hint) (by exact hkept)]
      exact hkept

theorem doMutateResponse_idle (hE : E.Documented) (hidle : ∀ h ∈ handlers, Idle E h)
    (hint : IsInt32 resp.statusCode) :
    doMutateResponse E (handlers.map granted) req wasTls resp = resp ↔
      (∀ h ∈ handlers, (h (buildEntry E req wasTls resp)).2 = none) ∨
        HeadersSurvive resp.headers := by
  have hrun : doMutateResponse E (handlers.map granted) req wasTls resp =
      (handlers.map granted).foldl (callResponseHandler E req wasTls) resp := by
    rw [doMutateResponse]
    cases handlers with
    | nil => rfl
    | cons h handlers => rfl
  rw [hrun]
  constructor
  · intro he
    by_contra hcond
    obtain ⟨hends, hbroken⟩ := not_or.1 hcond
    obtain ⟨h, hmem, hh⟩ : ∃ h ∈ handlers, (h (buildEntry E req wasTls resp)).2 ≠ none := by
      simpa only [not_forall, exists_prop] using hends
    have hsurvive := foldl_completes hE hidle hint ⟨h, hmem, hh⟩
    rw [he] at hsurvive
    exact hbroken hsurvive
  · rintro (hthrows | hsurvive)
    · have hsame : ∀ fns : List (Handler E), (∀ h ∈ fns, Idle E h) →
          (∀ h ∈ fns, (h (buildEntry E req wasTls resp)).2 = none) →
          (fns.map granted).foldl (callResponseHandler E req wasTls) resp = resp := by
        intro fns
        induction fns with
        | nil => exact fun _ _ => rfl
        | cons h fns ih =>
          intro hidle hthrows
          obtain ⟨hh, hrest⟩ := List.forall_mem_cons.1 hidle
          obtain ⟨hth, hthrest⟩ := List.forall_mem_cons.1 hthrows
          rw [List.map_cons, List.foldl_cons, callResponseHandler_idle hE hh hint, if_pos hth]
          exact ih hrest hthrest
      exact hsame handlers hidle hthrows
    · exact foldl_survives hE hidle hint hsurvive

end Idle

theorem idle_unchanged_iff {E : JsEngine} (hE : E.Documented) {handlers : List (Handler E)}
    (hidle : ∀ h ∈ handlers, Idle E h) (req : ProxiedRequest) (wasTls : Bool)
    {resp : HttpResponse} (hint : IsInt32 resp.statusCode) :
    (doMutateRequest E handlers req = req ↔
        handlers = [] ∨ HeadersSurvive req.headers ∧ IsUtf8 req.body) ∧
      (doMutateResponse E (handlers.map granted) req wasTls resp = resp ↔
        (∀ h ∈ handlers, (h (buildEntry E req wasTls resp)).2 = none) ∨
          HeadersSurvive resp.headers) :=
  ⟨doMutateRequest_idle hE hidle req, doMutateResponse_idle hE hidle hint⟩

inductive PlainValue where
  | undefined
  | number (n : Int)
  | string (s : QString)
  | array (vs : List PlainValue)
  | object (members : List (QString × PlainValue))

namespace PlainValue

def property : PlainValue → QString → PlainValue
  | .array vs, name => if name = utf16 "length" then .number vs.length else .undefined
  | .object members, name => ((members.reverse.find? (·.1 == name)).map (·.2)).getD .undefined
  | _, _ => .undefined

def element : PlainValue → Nat → PlainValue
  | .array vs, i => vs.getD i .undefined
  | _, _ => .undefined

mutual

def toQString : PlainValue → QString
  | .undefined => utf16 "undefined"
  | .number n => QString.number n
  | .string s => s
  | .array vs => joined vs
  | .object _ => utf16 "[object Object]"

def joined : List PlainValue → QString
  | [] => []
  | [v] => toQString v
  | v :: vs => toQString v ++ 0x2C :: joined vs

end

def toInt : PlainValue → Int
  | .number n => n
  | _ => 0

def isArray : PlainValue → Bool
  | .array _ => true
  | _ => false

def isObject : PlainValue → Bool
  | .array _ => true
  | .object _ => true
  | _ => false

theorem property_object {members : List (QString × PlainValue)}
    (hkeys : (members.map Prod.fst).Nodup) (hmem : (k, v) ∈ members) :
    property (.object members) k = v := by
  have hfound : ((members.reverse.find? (·.1 == k)).isSome) = true := by
    rw [List.find?_isSome]
    exact ⟨(k, v), List.mem_reverse.2 hmem, beq_self_eq_true k⟩
  obtain ⟨⟨k', v'⟩, hfind⟩ := Option.isSome_iff_exists.1 hfound
  have hk : k' = k := by
    simpa only [beq_iff_eq] using List.find?_some hfind
  have hmem' : (k', v') ∈ members := List.mem_reverse.1 (List.mem_of_find?_eq_some hfind)
  have hsame : (k', v') = (k, v) := List.inj_on_of_nodup_map hkeys hmem' hmem hk
  rw [property, hfind, hsame]
  rfl

theorem toQString_string (s : QString) : toQString (.string s) = s := by
  rw [toQString]

theorem element_array {vs : List PlainValue} (h : vs[i]? = some v) :
    element (.array vs) i = v := by
  rw [element, List.getD_eq_getElem?_getD, h]
  rfl

end PlainValue

def plainEngine : JsEngine where
  Value := PlainValue
  string := .string
  int := .number
  array := .array
  object := .object
  property := PlainValue.property
  element := PlainValue.element
  toQString := PlainValue.toQString
  toInt := PlainValue.toInt
  isArray := PlainValue.isArray
  isObject := PlainValue.isObject

theorem plainEngine_documented : plainEngine.Documented where
  property_object _ _ _ hkeys hmem := PlainValue.property_object hkeys hmem
  element_array _ _ _ h := PlainValue.element_array h
  length_array _ _ := rfl
  isArray_array _ := rfl
  toQString_string := PlainValue.toQString_string
  toInt_int _ _ := rfl

def observe : Handler plainEngine := fun e => (e, some PlainValue.undefined)

theorem idle_observe : Idle plainEngine observe := by
  intro e
  refine ⟨rfl, fun r hr => ?_⟩
  rw [← Option.some.inj hr]
  rfl

def binaryUpload : ProxiedRequest where
  method := utf16 "POST"
  target := utf16 "/upload"
  httpVersion := utf16 "HTTP/1.1"
  headers := [(utf16 "Host", utf16 "a.test")]
  path := utf16 "/upload"
  body := [0xFF]
  host := utf16 "a.test"
  port := 80
  tls := false

def plainPage : HttpResponse where
  httpVersion := utf16 "HTTP/1.1"
  statusCode := 200
  reasonPhrase := utf16 "OK"
  headers := [(utf16 "Content-Type", utf16 "text/html")]
  body := [0x61]

/-- The upload goes out with other bytes though the handler has done nothing. -/
theorem upload_changed : Idle plainEngine observe ∧
    doMutateRequest plainEngine [observe] binaryUpload ≠ binaryUpload := by
  refine ⟨idle_observe, ?_⟩
  rw [ne_eq, doMutateRequest_idle plainEngine_documented
    (List.forall_mem_singleton.2 idle_observe) binaryUpload, ← toUtf8_fromUtf8_iff]
  rintro (h | h)
  · exact absurd h (List.cons_ne_nil _ _)
  · exact absurd h.2 (by decide)

theorem page_unchanged :
    doMutateResponse plainEngine [granted observe] binaryUpload false plainPage = plainPage :=
  (idle_unchanged_iff plainEngine_documented (List.forall_mem_singleton.2 idle_observe)
    binaryUpload false (by decide)).2.2 (.inr ⟨by decide, by decide⟩)

end Nullock.ExtensionsApi

import Nullock.HttpRelay
import Nullock.InjectionContained

namespace Nullock
open Proxy HttpLogic

def isUriByte (c : UInt8) : Bool :=
  isUnreserved c || (latin1 "%:/?[]@!$&'()*+,;=").contains c

def isUriChar (c : UInt16) : Bool := c < 0x80 && isUriByte c.toUInt8

section
variable (L : TextLibrary) (Q : QueryItems)

def pairText (kv : QString × QString) : QString := kv.1 ++ utf16 "=" ++ kv.2

structure PlainName (param : QString) : Prop where
  chars : ∀ c ∈ param, isUriChar c = true
  noAmpersand : 0x26 ∉ param
  noEquals : 0x3D ∉ param
  decoded : L.fromPercentEncoding (L.toUtf8 param) = param

end

section Pairs
variable {x : α} [BEq α] [LawfulBEq α]

end Pairs

section Coding
variable {L : TextLibrary}

end Coding

section Setting
variable {L : TextLibrary} {Q : QueryItems} {existing param value : QString}

end Setting

section Samples

end Samples

def IsTokenBytes (s : QByteArray) : Prop := s ≠ [] ∧ ∀ c ∈ s, isTokenChar c = true

instance (s : QByteArray) : Decidable (IsTokenBytes s) :=
  decidable_of_iff (s ≠ [] ∧ s.all isTokenChar = true) (and_congr_right fun _ => List.all_eq_true)

def IsTarget (s : QByteArray) : Prop := s ≠ [] ∧ ∀ c ∈ s, isUriByte c = true

def IsFieldValue (s : QByteArray) : Prop := 0x00 ∉ s ∧ 0x0A ∉ s ∧ 0x0D ∉ s

/-- A method, a target, and fields whose values keep their blanks. -/
structure BareRequest where
  method : QByteArray
  target : QByteArray
  fields : List (QByteArray × QByteArray)

namespace BareRequest

def line (r : BareRequest) : QByteArray :=
  r.method ++ 0x20 :: (r.target ++ latin1 " HTTP/1.1")

def fieldLine (f : QByteArray × QByteArray) : QByteArray := f.1 ++ 0x3A :: f.2

def bytes (r : BareRequest) : QByteArray :=
  headLines r.line (r.fields.map fieldLine) ++ (crlf ++ (crlf ++ []))

structure Valid (r : BareRequest) : Prop where
  method : IsTokenBytes r.method
  target : IsTarget r.target
  names : ∀ f ∈ r.fields, IsTokenBytes f.1
  values : ∀ f ∈ r.fields, IsFieldValue f.2

def named (name : String) (fields : List (QByteArray × QByteArray)) :
    List (QByteArray × QByteArray) :=
  fields.filter (fun f => equalsIgnoreCase (fromLatin1 f.1) (utf16 name))

def IsZero (value : QByteArray) : Prop :=
  trimWith isOws value ≠ [] ∧ ∀ c ∈ trimWith isOws value, c = 0x30

def Unframed (r : BareRequest) : Prop :=
  (∀ f ∈ named "Content-Length" r.fields, IsZero f.2) ∧ named "Transfer-Encoding" r.fields = []

theorem tokenChar_plain (h : isTokenChar c = true) : c ≠ 0x20 ∧ c ≠ 0x0D ∧ c ≠ 0x0A ∧ c ≠ 0x3A := by
  refine ⟨?_, ?_, ?_, ?_⟩
  · rintro rfl
    cases h
  · rintro rfl
    cases h
  · rintro rfl
    cases h
  · rintro rfl
    cases h

theorem uriByte_plain (h : isUriByte c = true) : c ≠ 0x20 ∧ c ≠ 0x0D ∧ c ≠ 0x0A := by
  refine ⟨?_, ?_, ?_⟩
  · rintro rfl
    cases h
  · rintro rfl
    cases h
  · rintro rfl
    cases h

end BareRequest

def hasBreak (s : QString) : Bool := s.contains 0x0D || s.contains 0x0A

abbrev ProbeHeader := QString × QString

def isCarried (dropped : List String) (h : ProbeHeader) : Bool :=
  !dropped.any (fun name => equalsIgnoreCase h.1 (utf16 name)) && !hasBreak h.1 && !hasBreak h.2

def carried (dropped : List String) (headers : List ProbeHeader) : List ProbeHeader :=
  headers.filter (isCarried dropped)

def headerBytes (h : ProbeHeader) : QByteArray :=
  toUtf8 h.1 ++ latin1 ": " ++ toUtf8 h.2 ++ crlf

def probeBytes (method target : QString) (headers : List ProbeHeader) : QByteArray :=
  toUtf8 method ++ latin1 " " ++ toUtf8 target ++ latin1 " HTTP/1.1" ++ crlf ++
    headers.flatMap headerBytes ++ crlf

/-- The headers of the builder with those of the captured request behind them. -/
def probeHeaders (front : List ProbeHeader) (dropped : List String) (headers : List ProbeHeader) :
    List ProbeHeader :=
  front ++ carried dropped headers ++ [(utf16 "Connection", utf16 "close")]

def fixedHeader (name value : String) : ProbeHeader := (utf16 name, utf16 value)

def queryTarget (path query : QString) : QString :=
  if query.isEmpty then path else path ++ utf16 "?" ++ query

namespace CorsTester

structure Request where
  method : QString
  basePath : QString
  host : QString
  headers : List ProbeHeader

def dropped : List String := ["Host", "Origin"]

def written (req : Request) (origin : QString) : List ProbeHeader :=
  probeHeaders
    [(utf16 "Host", req.host), fixedHeader "User-Agent" "Nullock/cors-tester",
      fixedHeader "Accept" "*/*", fixedHeader "Accept-Encoding" "identity",
      (utf16 "Origin", origin)]
    dropped req.headers

def buildRequest (req : Request) (origin : QString) : QByteArray :=
  if hasBreak req.method || hasBreak req.basePath || hasBreak req.host || hasBreak origin then []
  else probeBytes req.method req.basePath (written req origin)

end CorsTester

namespace SsrfScan

structure Request where
  method : QString
  basePath : QString
  host : QString
  headers : List ProbeHeader

def dropped : List String := ["Host", "Content-Length"]

def written (req : Request) : List ProbeHeader :=
  probeHeaders
    [(utf16 "Host", req.host), fixedHeader "User-Agent" "Nullock/ssrf", fixedHeader "Accept" "*/*",
      fixedHeader "Accept-Encoding" "identity"]
    dropped req.headers

def buildRequest (req : Request) (query : QString) : QByteArray :=
  if hasBreak req.method || hasBreak req.basePath || hasBreak req.host then []
  else probeBytes req.method (queryTarget req.basePath query) (written req)

end SsrfScan

namespace Http3Detect

structure Request where
  host : QString
  path : QString
  query : QString
  headers : List ProbeHeader

def dropped : List String :=
  ["Host", "Content-Length", "Transfer-Encoding", "Accept-Encoding", "Connection"]

def written (req : Request) : List ProbeHeader :=
  probeHeaders
    [(utf16 "Host", req.host), fixedHeader "User-Agent" "Nullock/http3-detect",
      fixedHeader "Accept" "*/*", fixedHeader "Accept-Encoding" "identity"]
    dropped req.headers

def buildGet (req : Request) : QByteArray :=
  if hasBreak req.host || hasBreak req.path || hasBreak req.query then []
  else
    probeBytes (utf16 "GET")
      (queryTarget (if req.path.isEmpty then utf16 "/" else req.path) req.query) (written req)

end Http3Detect

def readField (h : ProbeHeader) : QByteArray × QByteArray := (toUtf8 h.1, 0x20 :: toUtf8 h.2)

def OneRequest (headers : List ProbeHeader) (bytes : QByteArray) : Prop :=
  ∃ r : BareRequest, r.Valid ∧ bytes = r.bytes ∧ r.fields = headers.map readField ∧
    (BareRequest.named "Host" r.fields).length = 1 ∧ r.Unframed

structure PlainHeader (h : ProbeHeader) : Prop where
  name : IsTokenBytes (toUtf8 h.1)
  value : IsFieldValue (toUtf8 h.2)

theorem headerLines_eq (headers : List ProbeHeader) :
    crlf ++ headers.flatMap headerBytes =
      ((headers.map readField).map BareRequest.fieldLine).flatMap (crlf ++ ·) ++ crlf := by
  induction headers with
  | nil => rfl
  | cons h headers ih =>
    have hline : headerBytes h = BareRequest.fieldLine (readField h) ++ crlf := by
      rw [headerBytes, BareRequest.fieldLine, readField, List.append_assoc (toUtf8 h.1)]
      rfl
    rw [List.flatMap_cons, hline, List.append_assoc, ih, List.map_cons, List.map_cons,
      List.flatMap_cons, List.append_assoc, List.append_assoc]

theorem probeBytes_eq (method target : QString) (headers : List ProbeHeader) :
    probeBytes method target headers =
      BareRequest.bytes ⟨toUtf8 method, toUtf8 target, headers.map readField⟩ := by
  have hline : toUtf8 method ++ latin1 " " ++ toUtf8 target ++ latin1 " HTTP/1.1" =
      BareRequest.line ⟨toUtf8 method, toUtf8 target, headers.map readField⟩ := by
    rw [BareRequest.line, List.append_assoc, List.append_assoc]
    rfl
  rw [probeBytes, hline, BareRequest.bytes, headLines, List.append_nil,
    List.append_assoc (BareRequest.line _), headerLines_eq]
  simp only [List.append_assoc]

theorem probeBytes_line {r : BareRequest} (hr : r.Valid) {method target : QString}
    {headers : List ProbeHeader} (hfields : r.fields = headers.map readField)
    (h : probeBytes method target headers = r.bytes) :
    r.method = toUtf8 method ∧ r.target = toUtf8 target := by
  rw [probeBytes_eq, BareRequest.bytes, BareRequest.bytes, headLines, headLines, hfields] at h
  have hline := List.append_cancel_right (List.append_cancel_right h)
  rw [BareRequest.line, BareRequest.line, ← List.cons_append, ← List.cons_append,
    ← List.append_assoc, ← List.append_assoc] at hline
  have hparts : toUtf8 method ++ 0x20 :: toUtf8 target = r.method ++ 0x20 :: r.target :=
    List.append_cancel_right hline
  have hmethod : 0x20 ∉ r.method := fun hm => (BareRequest.tokenChar_plain (hr.method.2 _ hm)).1 rfl
  have htarget : 0x20 ∉ r.target := fun hm => (BareRequest.uriByte_plain (hr.target.2 _ hm)).1 rfl
  have hcount := congrArg (List.count 0x20) hparts
  rw [List.count_append, List.count_append, List.count_cons_self, List.count_cons_self,
    List.count_eq_zero_of_not_mem hmethod, List.count_eq_zero_of_not_mem htarget] at hcount
  have hfree : 0x20 ∉ toUtf8 method := by
    apply List.count_eq_zero.1
    omega
  obtain ⟨he, hrest⟩ := space_inj hfree hmethod hparts
  exact ⟨he.symm, hrest.symm⟩

theorem oneRequest_iff (method target : QString) (headers : List ProbeHeader) :
    OneRequest headers (probeBytes method target headers) ↔
      IsTokenBytes (toUtf8 method) ∧ IsTarget (toUtf8 target) ∧
        (∀ h ∈ headers, PlainHeader h) ∧
        (BareRequest.named "Host" (headers.map readField)).length = 1 ∧
        BareRequest.Unframed ⟨toUtf8 method, toUtf8 target, headers.map readField⟩ := by
  constructor
  · rintro ⟨⟨method', target', fields⟩, hvalid, hbytes, rfl, hhost, hframe⟩
    obtain ⟨rfl, rfl⟩ := probeBytes_line hvalid rfl hbytes
    refine ⟨hvalid.method, hvalid.target, ?_, hhost, hframe⟩
    intro h hh
    have hfield : readField h ∈ headers.map readField := List.mem_map_of_mem hh
    obtain ⟨hnul, hlf, hcr⟩ := hvalid.values _ hfield
    exact ⟨hvalid.names _ hfield, List.not_mem_of_not_mem_cons hnul,
      List.not_mem_of_not_mem_cons hlf, List.not_mem_of_not_mem_cons hcr⟩
  · rintro ⟨hmethod, htarget, hplain, hhost, hframe⟩
    refine ⟨⟨toUtf8 method, toUtf8 target, headers.map readField⟩, ?_, probeBytes_eq _ _ _, rfl,
      hhost, hframe⟩
    constructor
    · exact hmethod
    · exact htarget
    · intro f hf
      obtain ⟨h, hh, rfl⟩ := List.mem_map.1 hf
      exact (hplain h hh).name
    · intro f hf
      obtain ⟨h, hh, rfl⟩ := List.mem_map.1 hf
      obtain ⟨hnul, hlf, hcr⟩ := (hplain h hh).value
      refine ⟨?_, ?_, ?_⟩
      · exact List.not_mem_cons_of_ne_of_not_mem (by decide) hnul
      · exact List.not_mem_cons_of_ne_of_not_mem (by decide) hlf
      · exact List.not_mem_cons_of_ne_of_not_mem (by decide) hcr

theorem tokenChar_ascii (h : isTokenChar c = true) : c < 0x80 ∧ c ≠ 0x3F := by
  constructor
  · rw [isTokenChar, Bool.and_eq_true, Bool.and_eq_true, decide_eq_true_eq, decide_eq_true_eq] at h
    exact UInt8.lt_of_le_of_lt h.1.2 (by decide)
  · rintro rfl
    cases h

theorem fromLatin1_token {k : QString} (h : ∀ c ∈ toUtf8 k, isTokenChar c = true) :
    fromLatin1 (toUtf8 k) = k := by
  generalize hy : toUtf8 k = y at h ⊢
  induction y generalizing k with
  | nil => exact (toUtf8_eq_nil hy).symm
  | cons c y ih =>
    rw [List.forall_mem_cons] at h
    obtain ⟨hc, hne⟩ := tokenChar_ascii h.1
    obtain ⟨b, rfl, hb⟩ := toUtf8_cons hc hne hy
    rw [fromLatin1, List.map_cons, ← fromLatin1, ih hb h.2]

theorem mem_toUtf8_iff {c : UInt8} (hc : c < 0x80) (hne : c ≠ 0x3F) :
    c ∈ toUtf8 v ↔ c.toUInt16 ∈ v := by
  constructor
  · exact mem_toUtf8_ascii hc hne
  · intro h
    obtain ⟨a, b, rfl⟩ := List.append_of_mem h
    have hlt : c.toUInt16 < 0x80 := by
      rw [UInt16.lt_iff_toNat_lt, UInt8.toNat_toUInt16]
      exact UInt8.lt_iff_toNat_lt.1 hc
    rw [toUtf8_append hlt, UInt8.toUInt8_toUInt16]
    exact List.mem_append_right _ List.mem_cons_self

theorem hasBreak_eq_false : hasBreak s = false ↔ 0x0D ∉ s ∧ 0x0A ∉ s := by
  simp [hasBreak]

theorem isFieldValue_toUtf8 (h : hasBreak s = false) : IsFieldValue (toUtf8 s) ↔ 0x00 ∉ s := by
  obtain ⟨hcr, hlf⟩ := hasBreak_eq_false.1 h
  have hcr' : 0x0D ∉ toUtf8 s := fun hm => hcr (mem_toUtf8_ascii (by decide) (by decide) hm)
  have hlf' : 0x0A ∉ toUtf8 s := fun hm => hlf (mem_toUtf8_ascii (by decide) (by decide) hm)
  have hnul : 0x00 ∈ toUtf8 s ↔ 0x00 ∈ s := mem_toUtf8_iff (by decide) (by decide)
  constructor
  · intro hv hm
    exact hv.1 (hnul.2 hm)
  · intro hn
    exact ⟨fun hm => hn (hnul.1 hm), hlf', hcr'⟩

theorem named_readField {name : String} {headers : List ProbeHeader}
    (h : ∀ x ∈ headers, IsTokenBytes (toUtf8 x.1)) :
    BareRequest.named name (headers.map readField) =
      (headers.filter (fun x => equalsIgnoreCase x.1 (utf16 name))).map readField := by
  rw [BareRequest.named, List.filter_map]
  congr 1
  apply List.filter_congr
  intro x hx
  show equalsIgnoreCase (fromLatin1 (toUtf8 x.1)) (utf16 name) = equalsIgnoreCase x.1 (utf16 name)
  rw [fromLatin1_token (h x hx).2]

structure Generated (front : List ProbeHeader) : Prop where
  names : ∀ h ∈ front, IsTokenBytes (toUtf8 h.1)
  host : (front.filter (fun h => equalsIgnoreCase h.1 (utf16 "Host"))).length = 1
  unframed : ∀ h ∈ front, equalsIgnoreCase h.1 (utf16 "Content-Length") = false ∧
    equalsIgnoreCase h.1 (utf16 "Transfer-Encoding") = false
  oneLine : ∀ h ∈ front, hasBreak h.2 = false

structure Fitting (dropped : List String) (headers : List ProbeHeader) : Prop where
  name : ∀ h ∈ headers, isCarried dropped h = true → IsTokenBytes (toUtf8 h.1)
  value : ∀ h ∈ headers, isCarried dropped h = true → 0x00 ∉ h.2
  length : ∀ h ∈ headers, isCarried dropped h = true →
    equalsIgnoreCase h.1 (utf16 "Content-Length") = true →
      BareRequest.IsZero (0x20 :: toUtf8 h.2)
  coding : ∀ h ∈ headers, isCarried dropped h = true →
    equalsIgnoreCase h.1 (utf16 "Transfer-Encoding") = false

theorem isCarried_iff {dropped : List String} {h : ProbeHeader} :
    isCarried dropped h = true ↔
      (∀ name ∈ dropped, equalsIgnoreCase h.1 (utf16 name) = false) ∧ hasBreak h.1 = false ∧
        hasBreak h.2 = false := by
  simp [isCarried, and_assoc]

theorem closing_plain : PlainHeader (utf16 "Connection", utf16 "close") where
  name := by decide
  value := by
    refine ⟨?_, ?_, ?_⟩ <;> decide

theorem plain_iff {front headers : List ProbeHeader} {dropped : List String}
    (hf : Generated front) :
    (∀ h ∈ probeHeaders front dropped headers, PlainHeader h) ↔
      (∀ h ∈ front, 0x00 ∉ h.2) ∧
        ∀ h ∈ headers, isCarried dropped h = true → IsTokenBytes (toUtf8 h.1) ∧ 0x00 ∉ h.2 := by
  have hfront : (∀ h ∈ front, PlainHeader h) ↔ ∀ h ∈ front, 0x00 ∉ h.2 := by
    apply forall₂_congr
    intro h hh
    rw [← isFieldValue_toUtf8 (hf.oneLine h hh)]
    exact ⟨fun hp => hp.value, fun hv => ⟨hf.names h hh, hv⟩⟩
  have hkept : (∀ h ∈ carried dropped headers, PlainHeader h) ↔
      ∀ h ∈ headers, isCarried dropped h = true → IsTokenBytes (toUtf8 h.1) ∧ 0x00 ∉ h.2 := by
    rw [carried]
    simp only [List.mem_filter, and_imp]
    apply forall₃_congr
    intro h _ hc
    rw [← isFieldValue_toUtf8 (isCarried_iff.1 hc).2.2]
    exact ⟨fun hp => ⟨hp.name, hp.value⟩, fun hp => ⟨hp.1, hp.2⟩⟩
  rw [probeHeaders, List.forall_mem_append, List.forall_mem_append, hfront, hkept]
  exact and_iff_left (List.forall_mem_singleton.2 closing_plain)

theorem filter_probeHeaders (name : String) (front headers : List ProbeHeader)
    (dropped : List String)
    (hc : equalsIgnoreCase (utf16 "Connection") (utf16 name) = false) :
    (probeHeaders front dropped headers).filter (fun h => equalsIgnoreCase h.1 (utf16 name)) =
      front.filter (fun h => equalsIgnoreCase h.1 (utf16 name)) ++
        (carried dropped headers).filter (fun h => equalsIgnoreCase h.1 (utf16 name)) := by
  rw [probeHeaders, List.filter_append, List.filter_append,
    List.filter_cons_of_neg (by simpa using hc), List.filter_nil, List.append_nil]

theorem mem_carried_named {headers : List ProbeHeader} {dropped : List String} {name : String}
    {P : ProbeHeader → Prop} :
    (∀ h ∈ (carried dropped headers).filter (fun h => equalsIgnoreCase h.1 (utf16 name)), P h) ↔
      ∀ h ∈ headers, isCarried dropped h = true →
        equalsIgnoreCase h.1 (utf16 name) = true → P h := by
  simp only [carried, List.mem_filter, and_imp]

theorem framing_iff {front headers : List ProbeHeader} {dropped : List String}
    (hf : Generated front) (hhost : "Host" ∈ dropped) (method target : QByteArray)
    (hplain : ∀ h ∈ probeHeaders front dropped headers, PlainHeader h) :
    ((BareRequest.named "Host" ((probeHeaders front dropped headers).map readField)).length = 1 ∧
        BareRequest.Unframed
          ⟨method, target, (probeHeaders front dropped headers).map readField⟩) ↔
      (∀ h ∈ headers, isCarried dropped h = true →
        equalsIgnoreCase h.1 (utf16 "Content-Length") = true →
          BareRequest.IsZero (0x20 :: toUtf8 h.2)) ∧
        ∀ h ∈ headers, isCarried dropped h = true →
          equalsIgnoreCase h.1 (utf16 "Transfer-Encoding") = false := by
  have hnames : ∀ h ∈ probeHeaders front dropped headers, IsTokenBytes (toUtf8 h.1) :=
    fun h hh => (hplain h hh).name
  have hlengths : front.filter (fun h => equalsIgnoreCase h.1 (utf16 "Content-Length")) = [] :=
    List.filter_eq_nil_iff.2 (fun h hh => Bool.not_eq_true _ ▸ (hf.unframed h hh).1)
  have hcodings : front.filter (fun h => equalsIgnoreCase h.1 (utf16 "Transfer-Encoding")) = [] :=
    List.filter_eq_nil_iff.2 (fun h hh => Bool.not_eq_true _ ▸ (hf.unframed h hh).2)
  have hhosts : (carried dropped headers).filter
      (fun h => equalsIgnoreCase h.1 (utf16 "Host")) = [] := by
    apply List.filter_eq_nil_iff.2
    intro h hh
    rw [(isCarried_iff.1 (List.mem_filter.1 hh).2).1 _ hhost]
    exact Bool.false_ne_true
  have hone : (BareRequest.named "Host"
      ((probeHeaders front dropped headers).map readField)).length = 1 := by
    rw [named_readField hnames, filter_probeHeaders _ _ _ _ (by decide), hhosts, List.append_nil,
      List.length_map, hf.host]
  rw [and_iff_right hone, BareRequest.Unframed, named_readField hnames, named_readField hnames,
    filter_probeHeaders _ _ _ _ (by decide), filter_probeHeaders _ _ _ _ (by decide), hlengths,
    hcodings, List.nil_append, List.nil_append, List.forall_mem_map, mem_carried_named,
    List.map_eq_nil_iff, List.eq_nil_iff_forall_not_mem]
  apply and_congr_right
  intro _
  constructor
  · intro h x hx hc
    apply Bool.eq_false_of_not_eq_true
    intro hname
    exact h x (List.mem_filter.2 ⟨List.mem_filter.2 ⟨hx, hc⟩, hname⟩)
  · intro h x hx
    obtain ⟨hx, hname⟩ := List.mem_filter.1 hx
    obtain ⟨hx, hc⟩ := List.mem_filter.1 hx
    rw [h x hx hc] at hname
    cases hname

theorem probe_iff {front headers : List ProbeHeader} {dropped : List String}
    (hf : Generated front) (hhost : "Host" ∈ dropped) (method target : QString) :
    OneRequest (probeHeaders front dropped headers)
        (probeBytes method target (probeHeaders front dropped headers)) ↔
      IsTokenBytes (toUtf8 method) ∧ IsTarget (toUtf8 target) ∧ (∀ h ∈ front, 0x00 ∉ h.2) ∧
        Fitting dropped headers := by
  rw [oneRequest_iff, plain_iff hf]
  apply and_congr_right
  intro _
  apply and_congr_right
  intro _
  rw [and_assoc]
  apply and_congr_right
  intro hfront
  constructor
  · rintro ⟨hcarried, hframing⟩
    have hplain := (plain_iff hf).2 ⟨hfront, hcarried⟩
    obtain ⟨hlength, hcoding⟩ := (framing_iff hf hhost _ _ hplain).1 hframing
    exact ⟨fun h hh hc => (hcarried h hh hc).1, fun h hh hc => (hcarried h hh hc).2, hlength,
      hcoding⟩
  · rintro ⟨hname, hvalue, hlength, hcoding⟩
    have hcarried : ∀ h ∈ headers, isCarried dropped h = true →
        IsTokenBytes (toUtf8 h.1) ∧ 0x00 ∉ h.2 := fun h hh hc => ⟨hname h hh hc, hvalue h hh hc⟩
    have hplain := (plain_iff hf).2 ⟨hfront, hcarried⟩
    exact ⟨hcarried, (framing_iff hf hhost _ _ hplain).2 ⟨hlength, hcoding⟩⟩

def IsUri (s : QString) : Prop := ∀ c ∈ toUtf8 s, isUriByte c = true

instance (s : QString) : Decidable (IsUri s) :=
  decidable_of_iff ((toUtf8 s).all isUriByte = true) List.all_eq_true

theorem isTarget_iff {s : QString} : IsTarget (toUtf8 s) ↔ s ≠ [] ∧ IsUri s := by
  apply and_congr_left
  intro _
  constructor
  · rintro h rfl
    exact h rfl
  · intro h he
    exact h (toUtf8_eq_nil he)

theorem isUri_query (path query : QString) :
    IsUri (path ++ 0x3F :: query) ↔ IsUri path ∧ IsUri query := by
  have hmark : isUriByte 0x3F = true := by decide
  rw [IsUri, toUtf8_append (by decide), List.forall_mem_append, List.forall_mem_cons]
  exact and_congr_right fun _ => and_iff_right hmark

theorem isTarget_queryTarget (path query : QString) :
    IsTarget (toUtf8 (queryTarget path query)) ↔
      (path ≠ [] ∨ query ≠ []) ∧ IsUri path ∧ IsUri query := by
  rw [isTarget_iff, queryTarget]
  cases query with
  | nil => simp [IsUri, show toUtf8 [] = [] from rfl]
  | cons c query =>
    rw [if_neg (by simp), List.append_assoc,
      show utf16 "?" ++ c :: query = 0x3F :: c :: query from rfl, isUri_query]
    simp

def Sent (headers : List ProbeHeader) (bytes : QByteArray) : Prop :=
  bytes = [] ∨ OneRequest headers bytes

theorem probeBytes_ne_nil (method target : QString) (headers : List ProbeHeader) :
    probeBytes method target headers ≠ [] :=
  List.append_ne_nil_of_right_ne_nil _ (by decide)

theorem sent_iff {tainted : Bool} {method target : QString} {headers : List ProbeHeader} :
    Sent headers (if tainted then [] else probeBytes method target headers) ↔
      tainted = true ∨ OneRequest headers (probeBytes method target headers) := by
  cases tainted with
  | true => simp [Sent]
  | false => simp [Sent, probeBytes_ne_nil]

def isGeneratedName (name : QString) : Bool :=
  decide (IsTokenBytes (toUtf8 name)) &&
    ["Host", "Content-Length", "Transfer-Encoding"].all
      (fun other => !equalsIgnoreCase name (utf16 other))

theorem generated_front {host : QString} {front : List ProbeHeader} {names : List QString}
    (hnames : front.map Prod.fst = names) (hall : names.all isGeneratedName = true)
    (hlines : ∀ h ∈ front, hasBreak h.2 = false) (hhost : hasBreak host = false) :
    Generated ((utf16 "Host", host) :: front) := by
  subst hnames
  have hfront : ∀ h ∈ front, IsTokenBytes (toUtf8 h.1) ∧
      equalsIgnoreCase h.1 (utf16 "Host") = false ∧
        equalsIgnoreCase h.1 (utf16 "Content-Length") = false ∧
          equalsIgnoreCase h.1 (utf16 "Transfer-Encoding") = false := by
    simpa [isGeneratedName, List.all_eq_true] using hall
  have hname : IsTokenBytes (toUtf8 (utf16 "Host")) := by decide
  have hsame : equalsIgnoreCase (utf16 "Host") (utf16 "Host") = true := by decide
  have hother : equalsIgnoreCase (utf16 "Host") (utf16 "Content-Length") = false ∧
      equalsIgnoreCase (utf16 "Host") (utf16 "Transfer-Encoding") = false := by decide
  constructor
  · exact List.forall_mem_cons.2 ⟨hname, fun h hh => (hfront h hh).1⟩
  · have hrest : front.filter (fun h => equalsIgnoreCase h.1 (utf16 "Host")) = [] := by
      apply List.filter_eq_nil_iff.2
      intro h hh
      rw [(hfront h hh).2.1]
      exact Bool.false_ne_true
    rw [List.filter_cons, hrest, if_pos hsame]
    rfl
  · exact List.forall_mem_cons.2 ⟨hother, fun h hh => (hfront h hh).2.2⟩
  · exact List.forall_mem_cons.2 ⟨hhost, hlines⟩

/-- A text that is written as it stands: no break, and nothing a field may not hold. -/
def isConstant (s : QString) : Bool := !hasBreak s && !s.contains 0x00

theorem forall_constant {texts : List QString} (h : texts.all isConstant = true) :
    ∀ s ∈ texts, hasBreak s = false ∧ 0x00 ∉ s := by
  simpa [isConstant, List.all_eq_true] using h

theorem CorsTester.buildRequest_iff (req : CorsTester.Request) (origin : QString) :
    Sent (CorsTester.written req origin) (CorsTester.buildRequest req origin) ↔
      (hasBreak req.method || hasBreak req.basePath || hasBreak req.host || hasBreak origin)
          = true ∨
        IsTokenBytes (toUtf8 req.method) ∧ (req.basePath ≠ [] ∧ IsUri req.basePath) ∧
          (0x00 ∉ req.host ∧ 0x00 ∉ origin) ∧ Fitting CorsTester.dropped req.headers := by
  rw [CorsTester.buildRequest, sent_iff]
  apply or_congr_right'
  intro h
  simp only [Bool.or_eq_true, not_or, Bool.not_eq_true] at h
  have hnames : [utf16 "User-Agent", utf16 "Accept", utf16 "Accept-Encoding",
      utf16 "Origin"].all isGeneratedName = true := by decide
  have htexts : [utf16 "Nullock/cors-tester", utf16 "*/*", utf16 "identity"].all isConstant
      = true := by decide
  have hconst := forall_constant htexts
  simp only [List.forall_mem_cons] at hconst
  obtain ⟨hagent, haccept, hcoding, -⟩ := hconst
  have hf : Generated [(utf16 "Host", req.host), fixedHeader "User-Agent" "Nullock/cors-tester",
      fixedHeader "Accept" "*/*", fixedHeader "Accept-Encoding" "identity",
      (utf16 "Origin", origin)] := by
    refine generated_front ?_ hnames ?_ h.1.2
    · rfl
    · simp only [List.forall_mem_cons]
      exact ⟨hagent.1, haccept.1, hcoding.1, h.2, by simp⟩
  have hvalues : (∀ x ∈ [(utf16 "Host", req.host), fixedHeader "User-Agent" "Nullock/cors-tester",
      fixedHeader "Accept" "*/*", fixedHeader "Accept-Encoding" "identity",
      (utf16 "Origin", origin)],
      0x00 ∉ x.2) ↔ 0x00 ∉ req.host ∧ 0x00 ∉ origin := by
    simp only [List.forall_mem_cons]
    constructor
    · exact fun hv => ⟨hv.1, hv.2.2.2.2.1⟩
    · exact fun hv => ⟨hv.1, hagent.2, haccept.2, hcoding.2, hv.2, by simp⟩
  rw [CorsTester.written, probe_iff hf (by decide), isTarget_iff, hvalues]

theorem plain_front (agent : String) (host : QString) (h : hasBreak host = false)
    (ha : isConstant (utf16 agent) = true) :
    Generated [(utf16 "Host", host), fixedHeader "User-Agent" agent, fixedHeader "Accept" "*/*",
        fixedHeader "Accept-Encoding" "identity"] ∧
      ((∀ x ∈ [(utf16 "Host", host), fixedHeader "User-Agent" agent, fixedHeader "Accept" "*/*",
        fixedHeader "Accept-Encoding" "identity"], 0x00 ∉ x.2) ↔ 0x00 ∉ host) := by
  have hnames : [utf16 "User-Agent", utf16 "Accept", utf16 "Accept-Encoding"].all
      isGeneratedName = true := by decide
  have htexts : [utf16 agent, utf16 "*/*", utf16 "identity"].all isConstant = true := by
    rw [List.all_cons, ha]
    decide
  have hconst := forall_constant htexts
  simp only [List.forall_mem_cons] at hconst
  obtain ⟨hagent, haccept, hcoding, -⟩ := hconst
  constructor
  · refine generated_front ?_ hnames ?_ h
    · rfl
    · simp only [List.forall_mem_cons]
      exact ⟨hagent.1, haccept.1, hcoding.1, by simp⟩
  · simp only [List.forall_mem_cons]
    constructor
    · exact fun hv => hv.1
    · exact fun hv => ⟨hv, hagent.2, haccept.2, hcoding.2, by simp⟩

theorem SsrfScan.buildRequest_iff (req : SsrfScan.Request) (query : QString) :
    Sent (SsrfScan.written req) (SsrfScan.buildRequest req query) ↔
      (hasBreak req.method || hasBreak req.basePath || hasBreak req.host) = true ∨
        IsTokenBytes (toUtf8 req.method) ∧
          ((req.basePath ≠ [] ∨ query ≠ []) ∧ IsUri req.basePath ∧ IsUri query) ∧
            0x00 ∉ req.host ∧ Fitting SsrfScan.dropped req.headers := by
  rw [SsrfScan.buildRequest, sent_iff]
  apply or_congr_right'
  intro h
  simp only [Bool.or_eq_true, not_or, Bool.not_eq_true] at h
  obtain ⟨hf, hvalues⟩ := plain_front "Nullock/ssrf" req.host h.2 (by decide)
  rw [SsrfScan.written, probe_iff hf (by decide), isTarget_queryTarget, hvalues]

theorem Http3Detect.buildGet_iff (req : Http3Detect.Request) :
    Sent (Http3Detect.written req) (Http3Detect.buildGet req) ↔
      (hasBreak req.host || hasBreak req.path || hasBreak req.query) = true ∨
        (IsUri req.path ∧ IsUri req.query) ∧
          0x00 ∉ req.host ∧ Fitting Http3Detect.dropped req.headers := by
  rw [Http3Detect.buildGet, sent_iff]
  apply or_congr_right'
  intro h
  simp only [Bool.or_eq_true, not_or, Bool.not_eq_true] at h
  obtain ⟨hf, hvalues⟩ := plain_front "Nullock/http3-detect" req.host h.1.1 (by decide)
  have hget : IsTokenBytes (toUtf8 (utf16 "GET")) := by decide
  have hpath : (if req.path.isEmpty then utf16 "/" else req.path) ≠ [] ∧
      (IsUri (if req.path.isEmpty then utf16 "/" else req.path) ↔ IsUri req.path) := by
    have hroot : IsUri (utf16 "/") := by decide
    have hempty : IsUri [] := by decide
    cases hp : req.path with
    | nil => exact ⟨by decide, iff_of_true hroot hempty⟩
    | cons c path => exact ⟨List.cons_ne_nil c path, Iff.rfl⟩
  rw [Http3Detect.written, probe_iff hf (by decide), isTarget_queryTarget, hvalues,
    and_iff_right hget, and_iff_right (Or.inl hpath.1), hpath.2]

/-- A builder sends nothing or one bodiless request exactly when the parts fit. -/
theorem probe_requests_bare (cors : CorsTester.Request) (origin : QString)
    (ssrf : SsrfScan.Request) (query : QString) (http3 : Http3Detect.Request) :
    (Sent (CorsTester.written cors origin) (CorsTester.buildRequest cors origin) ↔
        (hasBreak cors.method || hasBreak cors.basePath || hasBreak cors.host || hasBreak origin)
            = true ∨
          IsTokenBytes (toUtf8 cors.method) ∧ (cors.basePath ≠ [] ∧ IsUri cors.basePath) ∧
            (0x00 ∉ cors.host ∧ 0x00 ∉ origin) ∧ Fitting CorsTester.dropped cors.headers) ∧
      (Sent (SsrfScan.written ssrf) (SsrfScan.buildRequest ssrf query) ↔
          (hasBreak ssrf.method || hasBreak ssrf.basePath || hasBreak ssrf.host) = true ∨
            IsTokenBytes (toUtf8 ssrf.method) ∧
              ((ssrf.basePath ≠ [] ∨ query ≠ []) ∧ IsUri ssrf.basePath ∧ IsUri query) ∧
                0x00 ∉ ssrf.host ∧ Fitting SsrfScan.dropped ssrf.headers) ∧
        (Sent (Http3Detect.written http3) (Http3Detect.buildGet http3) ↔
            (hasBreak http3.host || hasBreak http3.path || hasBreak http3.query) = true ∨
              (IsUri http3.path ∧ IsUri http3.query) ∧
                0x00 ∉ http3.host ∧ Fitting Http3Detect.dropped http3.headers) :=
  ⟨CorsTester.buildRequest_iff cors origin, SsrfScan.buildRequest_iff ssrf query,
    Http3Detect.buildGet_iff http3⟩

theorem probe_requests_framed :
    ¬∀ (req : CorsTester.Request) (origin : QString),
      Sent (CorsTester.written req origin) (CorsTester.buildRequest req origin) := by
  intro h
  have hsent := (CorsTester.buildRequest_iff
    ⟨utf16 "GET", utf16 "/", utf16 "a", [fixedHeader "Content-Length" "5"]⟩ (utf16 "null")).1
    (h _ _)
  rcases hsent with htainted | ⟨-, -, -, hfit⟩
  · exact absurd htainted (by decide)
  · have hzero :=
      hfit.length (fixedHeader "Content-Length" "5") List.mem_cons_self (by decide) (by decide)
    exact absurd (hzero.2 0x35 (by decide)) (by decide)

end Nullock

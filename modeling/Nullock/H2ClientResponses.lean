import Mathlib.Data.List.AList
import Nullock.H2Headers
import Nullock.RewriteBytes

namespace Nullock.Proxy.H2ClientLogic

def reasonFor (status : Int) : String :=
  if status = 200 then "OK"
  else if status = 201 then "Created"
  else if status = 204 then "No Content"
  else if status = 301 then "Moved Permanently"
  else if status = 302 then "Found"
  else if status = 304 then "Not Modified"
  else if status = 307 then "Temporary Redirect"
  else if status = 308 then "Permanent Redirect"
  else if status = 400 then "Bad Request"
  else if status = 401 then "Unauthorized"
  else if status = 403 then "Forbidden"
  else if status = 404 then "Not Found"
  else if status = 408 then "Request Timeout"
  else if status = 429 then "Too Many Requests"
  else if status = 500 then "Internal Server Error"
  else if status = 502 then "Bad Gateway"
  else if status = 503 then "Service Unavailable"
  else if status = 504 then "Gateway Timeout"
  else if 200 ≤ status ∧ status < 300 then "OK"
  else if 300 ≤ status ∧ status < 400 then "Redirect"
  else if 400 ≤ status ∧ status < 500 then "Client Error"
  else if 500 ≤ status ∧ status < 600 then "Server Error"
  else "Unknown"

def bodyOverBudget (accumulated cap : Int) : Bool := cap < accumulated

inductive AssembleOutcome where
  | success
  | fatal
  | streamError
  | noStatus
deriving DecidableEq

def assembleOutcome (done : Bool) (statusCode : Int) (hadError fatal : Bool) : AssembleOutcome :=
  if done ∧ statusCode ≠ 0 ∧ !hadError then .success
  else if fatal then .fatal
  else if hadError then .streamError
  else if statusCode = 0 then .noStatus
  else .success

end Nullock.Proxy.H2ClientLogic

namespace Nullock.Proxy.H2Client
open HttpLogic H2ClientLogic

abbrev StreamId := Nat

def kMaxBodyBytesPerStream : Int := 64 * 1024 * 1024

structure StreamState where
  done : Bool := false
  headersComplete : Bool := false
  hadError : Bool := false
  errorMessage : QString := []
  statusCode : Int := 0
  headers : List Header := []
  body : QByteArray := []
  bodyBytes : Int := 0

structure SessionState where
  streams : AList (fun _ : StreamId => StreamState) := ∅
  openStreams : Nat := 0
  fatal : Bool := false
  fatalMessage : QString := []

inductive FrameType where
  | data
  | headers
  | rstStream
  | other
deriving DecidableEq

inductive Callback where
  | header (name value : QByteArray)
  | dataChunk (data : QByteArray)
  | frameRecv (type : FrameType) (endHeaders endStream : Bool)
  | streamClose (errCode : Nat)

def onHeader (L : TextLibrary) (st : StreamState) (name value : QByteArray) : StreamState :=
  let n := L.fromUtf8 name
  let v := L.fromUtf8 value
  if n = utf16 ":status" then { st with statusCode := QString.toInt v }
  else if n.head? ≠ some 0x3A then { st with headers := st.headers ++ [(n, v)] }
  else st

def onDataChunk (st : StreamState) (data : QByteArray) : StreamState :=
  let st := { st with bodyBytes := st.bodyBytes + data.length }
  if bodyOverBudget st.bodyBytes kMaxBodyBytesPerStream then
    { st with
      hadError := true
      errorMessage := utf16 "h2: response body exceeded 67108864 bytes" }
  else { st with body := st.body ++ data }

def onFrameRecv (st : StreamState) (type : FrameType) (endHeaders endStream : Bool) :
    StreamState :=
  { st with
    headersComplete := st.headersComplete || (type = .headers && endHeaders)
    done := st.done || endStream }

def onStreamClose (st : StreamState) (errCode : Nat) : StreamState :=
  let st := { st with done := true }
  if errCode ≠ 0 ∧ !st.hadError then
    { st with
      hadError := true
      errorMessage := utf16 "h2 stream closed with error 0x" ++
        (Nat.toDigits 16 errCode).map (fun c => c.toNat.toUInt16) }
  else st

def StreamState.call (L : TextLibrary) (st : StreamState) : Callback → StreamState
  | .header name value => onHeader L st name value
  | .dataChunk data => onDataChunk st data
  | .frameRecv type endHeaders endStream => onFrameRecv st type endHeaders endStream
  | .streamClose errCode => onStreamClose st errCode

def SessionState.call (L : TextLibrary) (s : SessionState) (c : StreamId × Callback) :
    SessionState :=
  match s.streams.lookup c.1 with
  | none => s
  | some st =>
    let s := { s with streams := s.streams.insert c.1 (st.call L c.2) }
    match c.2 with
    | .streamClose _ => { s with openStreams := s.openStreams - 1 }
    | _ => s

structure Result where
  ok : Bool := false
  errorMessage : QString := []
  response : HttpResponse := ⟨[], 0, [], [], []⟩
  connectionFailed : Bool := false

def assembleResult (st : Option StreamState) (fatal : Bool) (fatalMsg : QString) : Result :=
  let st := st.getD {}
  match assembleOutcome st.done st.statusCode st.hadError fatal with
  | .fatal => { errorMessage := fatalMsg, connectionFailed := true }
  | .streamError => { errorMessage := st.errorMessage }
  | .noStatus => { errorMessage := utf16 "h2: no :status received" }
  | .success =>
    { ok := true
      response :=
        { httpVersion := utf16 "HTTP/1.1"
          statusCode := st.statusCode
          reasonPhrase := utf16 (reasonFor st.statusCode)
          headers := st.headers
          body := st.body } }

end Nullock.Proxy.H2Client

namespace Nullock.Proxy.H2Client
open HttpLogic H2ClientLogic

/-- A field as the library delivers it: its name is a token in lower case. -/
def RegularField (f : QByteArray × QByteArray) : Prop :=
  f.1 ≠ [] ∧ f.1.head? ≠ some 0x3A ∧ ∀ c ∈ f.1, c < 0x80

structure FieldBlock where
  fields : List (QByteArray × QByteArray)
  regular : ∀ f ∈ fields, RegularField f

structure StatusBlock extends FieldBlock where
  status : Nat
  digits : 100 ≤ status ∧ status < 1000

inductive Frame where
  | status (b : StatusBlock)
  | data (chunks : List QByteArray)
  | trailer (b : FieldBlock)

def FieldBlock.reports (b : FieldBlock) : List Callback :=
  b.fields.map (fun f => .header f.1 f.2)

def Frame.reports : Frame → List Callback
  | .status b => .header (latin1 ":status") (QByteArray.number b.status) :: b.reports
  | .data chunks => chunks.map .dataChunk
  | .trailer b => b.reports

def Frame.received (endStream : Bool) : Frame → Callback
  | .status _ => .frameRecv .headers true endStream
  | .data _ => .frameRecv .data false endStream
  | .trailer _ => .frameRecv .headers true endStream

def frameCallbacks (ended : Bool) : List Frame → List Callback
  | [] => []
  | [f] => f.reports ++ [f.received ended]
  | f :: g :: rest => f.reports ++ f.received false :: frameCallbacks ended (g :: rest)

/-- A response on a stream; it may be cut short or closed with an error. -/
structure ResponseStream where
  interims : List StatusBlock
  informational : ∀ b ∈ interims, b.status < 200
  final : StatusBlock
  isFinal : 200 ≤ final.status
  data : List (List QByteArray)
  trailer : Option FieldBlock
  ended : Bool
  trailerEnds : trailer ≠ none → ended = true
  closeCode : Option Nat

def ResponseStream.frames (r : ResponseStream) : List Frame :=
  r.interims.map .status ++ .status r.final :: r.data.map .data ++ r.trailer.toList.map .trailer

def ResponseStream.callbacks (r : ResponseStream) : List Callback :=
  frameCallbacks r.ended r.frames ++ r.closeCode.toList.map .streamClose

def FieldBlock.headers (L : TextLibrary) (b : FieldBlock) : List Header :=
  b.fields.map (fun f => (L.fromUtf8 f.1, L.fromUtf8 f.2))

def ResponseStream.body (r : ResponseStream) : QByteArray := r.data.flatten.flatten

/-- It has the status and fields of the final block, and the data as its body. -/
def ResponseStream.ReportedBy (L : TextLibrary) (r : ResponseStream) (resp : HttpResponse) :
    Prop :=
  resp.statusCode = r.final.status ∧ resp.headers = r.final.headers L ∧ resp.body = r.body

def ResponseStream.Delivered (r : ResponseStream) (fatal : Bool) : Prop :=
  (r.body.length : Int) ≤ kMaxBodyBytesPerStream ∧
    match r.closeCode with
    | some code => code = 0
    | none => r.ended = true ∨ fatal = false

def ResponseStream.Plain (r : ResponseStream) : Prop :=
  (∀ b ∈ r.interims, b.fields = []) ∧ ∀ b ∈ r.trailer, b.fields = []

def Callback.fields (L : TextLibrary) : Callback → List Header
  | .header name value =>
    if L.fromUtf8 name = utf16 ":status" ∨ (L.fromUtf8 name).head? = some 0x3A then []
    else [(L.fromUtf8 name, L.fromUtf8 value)]
  | _ => []

def Callback.statuses (L : TextLibrary) : Callback → List Int
  | .header name value =>
    if L.fromUtf8 name = utf16 ":status" then [QString.toInt (L.fromUtf8 value)] else []
  | _ => []

def Callback.data : Callback → QByteArray
  | .dataChunk data => data
  | _ => []

def Callback.ends : Callback → Bool
  | .frameRecv _ _ endStream => endStream
  | _ => false

def Callback.closes : Callback → Bool
  | .streamClose _ => true
  | _ => false

structure Summed (L : TextLibrary) (calls : List Callback) (st : StreamState) : Prop where
  headers : st.headers = calls.flatMap (Callback.fields L)
  statusCode : st.statusCode = (calls.flatMap (Callback.statuses L)).getLastD 0
  bodyBytes : st.bodyBytes = (calls.flatMap Callback.data).length
  hadError : st.hadError = bodyOverBudget st.bodyBytes kMaxBodyBytesPerStream
  body : st.hadError = false → st.body = calls.flatMap Callback.data
  done : st.done = calls.any Callback.ends

theorem Summed.empty (L : TextLibrary) : Summed L [] {} := ⟨rfl, rfl, rfl, rfl, fun _ => rfl, rfl⟩

theorem Summed.concat (h : Summed L calls st) {c : Callback} {st' : StreamState}
    (hheaders : st'.headers = st.headers ++ c.fields L)
    (hstatus : st'.statusCode = (c.statuses L).getLastD st.statusCode)
    (hbytes : st'.bodyBytes = st.bodyBytes + c.data.length)
    (herror : st'.hadError = bodyOverBudget st'.bodyBytes kMaxBodyBytesPerStream)
    (hbody : st'.hadError = false → st.hadError = false ∧ st'.body = st.body ++ c.data)
    (hdone : st'.done = (st.done || c.ends)) : Summed L (calls ++ [c]) st' := by
  have hconcat {α : Type} (g : Callback → List α) :
      (calls ++ [c]).flatMap g = calls.flatMap g ++ g c := by
    rw [List.flatMap_append, List.flatMap_singleton]
  refine ⟨?_, ?_, ?_, herror, ?_, ?_⟩
  · rw [hheaders, h.headers, hconcat]
  · rw [hstatus, h.statusCode, hconcat, List.getLastD_eq_getLast?, List.getLastD_eq_getLast?,
      List.getLastD_eq_getLast?, List.getLast?_append, Option.getD_or]
  · rw [hbytes, h.bodyBytes, hconcat, List.length_append, Int.natCast_add]
  · intro he
    obtain ⟨hold, hb⟩ := hbody he
    rw [hb, h.body hold, hconcat]
  · rw [hdone, h.done, List.any_append, List.any_cons, List.any_nil, Bool.or_false]

theorem Summed.header (h : Summed L calls st) (name value : QByteArray) :
    Summed L (calls ++ [Callback.header name value]) (onHeader L st name value) := by
  have hsame : (onHeader L st name value).bodyBytes = st.bodyBytes ∧
      (onHeader L st name value).hadError = st.hadError ∧
      (onHeader L st name value).body = st.body ∧
      (onHeader L st name value).done = st.done := by
    rw [onHeader]
    split
    · exact ⟨rfl, rfl, rfl, rfl⟩
    · split
      · exact ⟨rfl, rfl, rfl, rfl⟩
      · exact ⟨rfl, rfl, rfl, rfl⟩
  obtain ⟨hbytes, herror, hbody, hdone⟩ := hsame
  apply h.concat
  · rw [onHeader, Callback.fields]
    by_cases hstatus : L.fromUtf8 name = utf16 ":status"
    · rw [if_pos hstatus, if_pos (.inl hstatus), List.append_nil]
    · by_cases hpseudo : (L.fromUtf8 name).head? = some 0x3A
      · rw [if_neg hstatus, if_neg (fun hne => hne hpseudo), if_pos (.inr hpseudo),
          List.append_nil]
      · rw [if_neg hstatus, if_pos hpseudo, if_neg (not_or.2 ⟨hstatus, hpseudo⟩)]
  · rw [onHeader, Callback.statuses]
    split
    · rfl
    · split
      · rfl
      · rfl
  · rw [hbytes]
    exact (Int.add_zero _).symm
  · rw [herror, hbytes]
    exact h.hadError
  · intro he
    rw [herror] at he
    rw [hbody]
    exact ⟨he, (List.append_nil _).symm⟩
  · rw [hdone]
    exact (Bool.or_false _).symm

theorem Summed.dataChunk (h : Summed L calls st) (data : QByteArray) :
    Summed L (calls ++ [Callback.dataChunk data]) (onDataChunk st data) := by
  rw [onDataChunk]
  dsimp only
  split
  · rename_i hover
    apply h.concat
    · exact (List.append_nil _).symm
    · rfl
    · rfl
    · exact hover.symm
    · intro he
      cases he
    · exact (Bool.or_false _).symm
  · rename_i hover
    rw [Bool.not_eq_true] at hover
    have hold : st.hadError = false := by
      rw [h.hadError]
      rw [bodyOverBudget, decide_eq_false_iff_not, Int.not_lt] at hover ⊢
      omega
    apply h.concat
    · exact (List.append_nil _).symm
    · rfl
    · rfl
    · exact hold.trans hover.symm
    · intro _
      exact ⟨hold, rfl⟩
    · exact (Bool.or_false _).symm

theorem Summed.frameRecv (h : Summed L calls st) (type : FrameType)
    (endHeaders endStream : Bool) :
    Summed L (calls ++ [Callback.frameRecv type endHeaders endStream])
      (onFrameRecv st type endHeaders endStream) := by
  apply h.concat
  · exact (List.append_nil _).symm
  · rfl
  · exact (Int.add_zero _).symm
  · exact h.hadError
  · intro he
    exact ⟨he, (List.append_nil _).symm⟩
  · rfl

theorem summed (L : TextLibrary) (hopen : ∀ c ∈ calls, Callback.closes c = false) :
    Summed L calls (calls.foldl (StreamState.call L) {}) := by
  induction calls using List.reverseRecOn with
  | nil => exact .empty L
  | append_singleton calls c ih =>
    have hcalls := ih (fun d hd => hopen d (List.mem_append_left _ hd))
    have hc := hopen c (List.mem_append_right _ List.mem_cons_self)
    rw [List.foldl_append, List.foldl_cons, List.foldl_nil]
    cases c with
    | header name value => exact hcalls.header name value
    | dataChunk data => exact hcalls.dataChunk data
    | frameRecv type endHeaders endStream => exact hcalls.frameRecv type endHeaders endStream
    | streamClose errCode => cases hc

theorem Frame.reports_open (f : Frame) (hc : c ∈ f.reports) :
    c.closes = false ∧ c.ends = false := by
  have hfields (b : FieldBlock) (hc : c ∈ b.reports) : c.closes = false ∧ c.ends = false := by
    obtain ⟨field, _, he⟩ := List.mem_map.1 hc
    rw [← he]
    exact ⟨rfl, rfl⟩
  cases f with
  | status b =>
    rcases List.mem_cons.1 hc with he | hc
    · rw [he]
      exact ⟨rfl, rfl⟩
    · exact hfields _ hc
  | data chunks =>
    obtain ⟨chunk, _, he⟩ := List.mem_map.1 hc
    rw [← he]
    exact ⟨rfl, rfl⟩
  | trailer b => exact hfields b hc

theorem Frame.received_open (f : Frame) (endStream : Bool) :
    (f.received endStream).closes = false ∧ (f.received endStream).ends = endStream := by
  cases f with
  | status b => exact ⟨rfl, rfl⟩
  | data chunks => exact ⟨rfl, rfl⟩
  | trailer b => exact ⟨rfl, rfl⟩

theorem frameCallbacks_open (hc : c ∈ frameCallbacks ended frames) : c.closes = false := by
  induction frames with
  | nil => cases hc
  | cons f rest ih =>
    cases rest with
    | nil =>
      rcases List.mem_append.1 hc with hc | hc
      · exact (f.reports_open hc).1
      · rw [List.mem_singleton.1 hc]
        exact (f.received_open ended).1
    | cons g rest =>
      rcases List.mem_append.1 hc with hc | hc
      · exact (f.reports_open hc).1
      · rcases List.mem_cons.1 hc with he | hc
        · rw [he]
          exact (f.received_open false).1
        · exact ih hc

theorem frameCallbacks_ends (ended : Bool) (hne : frames ≠ []) :
    (frameCallbacks ended frames).any Callback.ends = ended := by
  induction frames with
  | nil => exact absurd rfl hne
  | cons f rest ih =>
    have hreports : f.reports.any Callback.ends = false :=
      List.any_eq_false.2 (fun c hc => Bool.not_eq_true _ ▸ (f.reports_open hc).2)
    cases rest with
    | nil =>
      rw [frameCallbacks, List.any_append, hreports, List.any_cons, (f.received_open ended).2]
      exact Bool.or_false _
    | cons g rest =>
      rw [frameCallbacks, List.any_append, hreports, List.any_cons, (f.received_open false).2,
        ih (List.cons_ne_nil g rest)]
      rfl

theorem frameCallbacks_flatMap (ended : Bool) (frames : List Frame) {g : Callback → List α}
    (hg : ∀ type endHeaders endStream, g (.frameRecv type endHeaders endStream) = []) :
    (frameCallbacks ended frames).flatMap g = frames.flatMap (fun f => f.reports.flatMap g) := by
  have hreceived (f : Frame) (endStream : Bool) : g (f.received endStream) = [] := by
    cases f with
    | status b => exact hg _ _ _
    | data chunks => exact hg _ _ _
    | trailer b => exact hg _ _ _
  induction frames with
  | nil => rfl
  | cons f rest ih =>
    cases rest with
    | nil =>
      rw [frameCallbacks, List.flatMap_append, List.flatMap_singleton, hreceived,
        List.flatMap_singleton, List.append_nil]
    | cons h rest =>
      rw [frameCallbacks, List.flatMap_append, List.flatMap_cons, hreceived, ih,
        List.flatMap_cons]
      rfl

theorem number_ascii (n : Nat) (hc : c ∈ QByteArray.number n) : c < 0x80 := by
  have hdigit := (isNumeral_iff.1 (number_numeral n).1).2 c.toUInt16
    (List.mem_map.2 ⟨c, hc, rfl⟩)
  rw [isDigit, Bool.and_eq_true, decide_eq_true_eq, decide_eq_true_eq] at hdigit
  have hle := UInt16.le_iff_toNat_le.1 hdigit.2
  rw [UInt8.toNat_toUInt16] at hle
  exact UInt8.lt_iff_toNat_lt.2 (Nat.lt_of_le_of_lt hle (by decide))

theorem toInt_of_toLongLong {n : Nat} (h : n < 2 ^ 31)
    (hs : QString.toLongLong s = some (n : Int)) : QString.toInt s = n := by
  have hfits : -2 ^ 31 ≤ (n : Int) ∧ (n : Int) < 2 ^ 31 := by omega
  rw [QString.toInt, hs]
  exact if_pos hfits

theorem toInt_number {n : Nat} (h : n < 2 ^ 31) :
    QString.toInt (fromLatin1 (QByteArray.number n)) = n := by
  obtain ⟨hnum, hval⟩ := number_numeral n
  have hlong : (n : Int) < 2 ^ 63 := by omega
  apply toInt_of_toLongLong h
  rw [QString.toLongLong, trimmed_numeral hnum, readLongLong_numeral hnum, hval]
  exact if_pos hlong

section
variable {L : TextLibrary}
  (hascii : ∀ s : QByteArray, (∀ c ∈ s, c < 0x80) → L.fromUtf8 s = fromLatin1 s)

include hascii

theorem RegularField.text (h : RegularField f) :
    L.fromUtf8 f.1 ≠ utf16 ":status" ∧ (L.fromUtf8 f.1).head? ≠ some 0x3A := by
  obtain ⟨hne, hhead, hsmall⟩ := h
  have hcolon : (L.fromUtf8 f.1).head? ≠ some 0x3A := by
    rw [hascii f.1 hsmall, fromLatin1, List.head?_map]
    cases hf : f.1.head? with
    | none =>
      intro he
      cases he
    | some c =>
      intro he
      rw [Option.map_some, Option.some.injEq] at he
      have hc : c = 0x3A := by
        apply UInt8.toNat_inj.1
        have hval := congrArg UInt16.toNat he
        rw [UInt8.toNat_toUInt16] at hval
        exact hval
      rw [hf, hc] at hhead
      exact hhead rfl
  refine ⟨?_, hcolon⟩
  intro he
  rw [he] at hcolon
  exact hcolon rfl

theorem FieldBlock.reports_fields (b : FieldBlock) :
    b.reports.flatMap (Callback.fields L) = b.headers L := by
  rw [FieldBlock.reports, FieldBlock.headers, List.flatMap_map, List.map_eq_flatMap]
  apply List.flatMap_congr
  intro f hf
  obtain ⟨hstatus, hcolon⟩ := (b.regular f hf).text hascii
  exact if_neg (not_or.2 ⟨hstatus, hcolon⟩)

theorem FieldBlock.reports_statuses (b : FieldBlock) :
    b.reports.flatMap (Callback.statuses L) = [] := by
  rw [FieldBlock.reports, List.flatMap_map]
  apply List.flatMap_eq_nil_iff.2
  intro f hf
  exact if_neg ((b.regular f hf).text hascii).1

theorem status_text : L.fromUtf8 (latin1 ":status") = utf16 ":status" := by
  rw [hascii _ (forall_mem_of_all (by decide))]
  rfl

theorem Frame.reports_fields (f : Frame) :
    f.reports.flatMap (Callback.fields L) =
      match f with
      | .status b => b.headers L
      | .data _ => []
      | .trailer b => b.headers L := by
  cases f with
  | status b =>
    rw [Frame.reports, List.flatMap_cons, Callback.fields, if_pos (.inl (status_text hascii)),
      List.nil_append]
    exact b.reports_fields hascii
  | data chunks =>
    rw [Frame.reports, List.flatMap_map]
    exact List.flatMap_eq_nil_iff.2 (fun _ _ => rfl)
  | trailer b => exact b.reports_fields hascii

theorem Frame.reports_statuses (f : Frame) :
    f.reports.flatMap (Callback.statuses L) =
      match f with
      | .status b => [(b.status : Int)]
      | .data _ => []
      | .trailer _ => [] := by
  cases f with
  | status b =>
    have hsmall : b.status < 2 ^ 31 := Nat.lt_trans b.digits.2 (by decide)
    rw [Frame.reports, List.flatMap_cons, Callback.statuses, if_pos (status_text hascii),
      hascii _ (fun c hc => number_ascii b.status hc), toInt_number hsmall]
    dsimp only
    rw [b.reports_statuses hascii, List.append_nil]
  | data chunks =>
    rw [Frame.reports, List.flatMap_map]
    exact List.flatMap_eq_nil_iff.2 (fun _ _ => rfl)
  | trailer b => exact b.reports_statuses hascii

theorem ResponseStream.fields_eq (r : ResponseStream) :
    (frameCallbacks r.ended r.frames).flatMap (Callback.fields L) =
      r.interims.flatMap (fun b => b.headers L) ++ r.final.headers L ++
        r.trailer.toList.flatMap (fun b => b.headers L) := by
  rw [frameCallbacks_flatMap _ _ (fun _ _ _ => rfl),
    List.flatMap_congr (fun f _ => f.reports_fields hascii), ResponseStream.frames]
  simp only [List.flatMap_append, List.flatMap_cons, List.flatMap_map, List.append_assoc]
  rw [List.flatMap_eq_nil_iff.2 (fun _ _ => rfl), List.nil_append]

theorem ResponseStream.statuses_eq (r : ResponseStream) :
    ((frameCallbacks r.ended r.frames).flatMap (Callback.statuses L)).getLastD 0 =
      r.final.status := by
  have htrailer : r.trailer.toList.flatMap (fun _ => ([] : List Int)) = [] :=
    List.flatMap_eq_nil_iff.2 (fun _ _ => rfl)
  have hdata : r.data.flatMap (fun _ => ([] : List Int)) = [] :=
    List.flatMap_eq_nil_iff.2 (fun _ _ => rfl)
  rw [frameCallbacks_flatMap _ _ (fun _ _ _ => rfl),
    List.flatMap_congr (fun f _ => f.reports_statuses hascii), ResponseStream.frames]
  simp only [List.flatMap_append, List.flatMap_cons, List.flatMap_map]
  rw [hdata, htrailer, List.append_nil, List.append_nil, List.getLastD_concat]

end

theorem Frame.reports_data (f : Frame) :
    f.reports.flatMap Callback.data =
      match f with
      | .status _ => []
      | .data chunks => chunks.flatten
      | .trailer _ => [] := by
  have hfields (b : FieldBlock) : b.reports.flatMap Callback.data = [] := by
    rw [FieldBlock.reports, List.flatMap_map]
    exact List.flatMap_eq_nil_iff.2 (fun _ _ => rfl)
  cases f with
  | status b =>
    rw [Frame.reports, List.flatMap_cons]
    exact hfields _
  | data chunks =>
    rw [Frame.reports, List.flatMap_map]
    exact List.flatMap_id
  | trailer b => exact hfields b

theorem ResponseStream.data_eq (r : ResponseStream) :
    (frameCallbacks r.ended r.frames).flatMap Callback.data = r.body := by
  have hstatus : r.interims.flatMap (fun _ => ([] : QByteArray)) = [] :=
    List.flatMap_eq_nil_iff.2 (fun _ _ => rfl)
  have htrailer : r.trailer.toList.flatMap (fun _ => ([] : QByteArray)) = [] :=
    List.flatMap_eq_nil_iff.2 (fun _ _ => rfl)
  rw [frameCallbacks_flatMap _ _ (fun _ _ _ => rfl),
    List.flatMap_congr (fun f _ => f.reports_data), ResponseStream.frames]
  simp only [List.flatMap_append, List.flatMap_cons, List.flatMap_map]
  rw [hstatus, htrailer, List.nil_append, List.nil_append, List.append_nil, List.flatMap_def,
    ResponseStream.body, List.flatten_flatten]

def ResponseStream.state (L : TextLibrary) (r : ResponseStream) : StreamState :=
  r.callbacks.foldl (StreamState.call L) {}

def ResponseStream.closeError (r : ResponseStream) : Bool := r.closeCode.getD 0 != 0

theorem ResponseStream.state_closed (L : TextLibrary) (r : ResponseStream) :
    ∃ st, Summed L (frameCallbacks r.ended r.frames) st ∧
      (r.state L).headers = st.headers ∧ (r.state L).statusCode = st.statusCode ∧
      (r.state L).body = st.body ∧ (r.state L).done = (st.done || r.closeCode.isSome) ∧
      (r.state L).hadError = (st.hadError || r.closeError) := by
  refine ⟨_, summed L (fun c hc => frameCallbacks_open hc), ?_⟩
  rw [ResponseStream.state, ResponseStream.callbacks, List.foldl_append,
    ResponseStream.closeError]
  generalize (frameCallbacks r.ended r.frames).foldl (StreamState.call L) {} = st
  cases r.closeCode with
  | none => exact ⟨rfl, rfl, rfl, (Bool.or_false _).symm, (Bool.or_false _).symm⟩
  | some code =>
    have hcall : ([code].map Callback.streamClose).foldl (StreamState.call L) st =
        onStreamClose st code := rfl
    rw [Option.toList_some, hcall, onStreamClose]
    dsimp only
    split
    · rename_i herr
      have hcode : (code != 0) = true := bne_iff_ne.2 herr.1
      rw [Option.getD_some, hcode]
      exact ⟨rfl, rfl, rfl, (Bool.or_true _).symm, (Bool.or_true _).symm⟩
    · rename_i herr
      refine ⟨rfl, rfl, rfl, (Bool.or_true _).symm, ?_⟩
      rw [Option.getD_some]
      by_cases hcode : code = 0
      · rw [hcode]
        exact (Bool.or_false _).symm
      · have hold : st.hadError = true := by
          by_contra hn
          rw [Bool.not_eq_true] at hn
          exact herr ⟨hcode, by rw [hn]; rfl⟩
        rw [hold]
        rfl

theorem assembleResult_ok_iff (hstatus : st.statusCode ≠ 0) (fatal : Bool) (msg : QString) :
    (assembleResult (some st) fatal msg).ok = true ↔
      st.hadError = false ∧ (st.done = true ∨ fatal = false) := by
  rw [assembleResult, assembleOutcome, Option.getD_some]
  cases st.done <;> cases st.hadError <;> cases fatal <;> simp [hstatus]

theorem assembleResult_response (h : (assembleResult (some st) fatal msg).ok = true) :
    (assembleResult (some st) fatal msg).response.statusCode = st.statusCode ∧
      (assembleResult (some st) fatal msg).response.headers = st.headers ∧
      (assembleResult (some st) fatal msg).response.body = st.body := by
  rw [assembleResult] at h ⊢
  cases ho : assembleOutcome ((some st).getD {}).done ((some st).getD {}).statusCode
      ((some st).getD {}).hadError fatal with
  | success => exact ⟨rfl, rfl, rfl⟩
  | fatal =>
    rw [ho] at h
    cases h
  | streamError =>
    rw [ho] at h
    cases h
  | noStatus =>
    rw [ho] at h
    cases h

def callsOf (sid : StreamId) (calls : List (StreamId × Callback)) : List Callback :=
  calls.filterMap (fun c => if c.1 = sid then some c.2 else none)

theorem lookup_calls (L : TextLibrary) {s : SessionState} (hs : s.streams.lookup sid = some st)
    (calls : List (StreamId × Callback)) :
    (calls.foldl (SessionState.call L) s).streams.lookup sid =
      some ((callsOf sid calls).foldl (StreamState.call L) st) := by
  induction calls generalizing s st with
  | nil => exact hs
  | cons c calls ih =>
    have hstreams (w : StreamState) (hw : s.streams.lookup c.1 = some w) :
        (s.call L c).streams = s.streams.insert c.1 (w.call L c.2) := by
      rw [SessionState.call, hw]
      dsimp only
      split
      · rfl
      · rfl
    by_cases hc : c.1 = sid
    · have hfirst : callsOf sid (c :: calls) = c.2 :: callsOf sid calls := by
        rw [callsOf, List.filterMap_cons, if_pos hc]
        rfl
      rw [hfirst, List.foldl_cons, List.foldl_cons]
      apply ih
      rw [← hc] at hs ⊢
      rw [hstreams st hs, AList.lookup_insert]
    · have hother : callsOf sid (c :: calls) = callsOf sid calls := by
        rw [callsOf, List.filterMap_cons, if_neg hc]
        rfl
      rw [hother, List.foldl_cons]
      apply ih
      cases hw : s.streams.lookup c.1 with
      | none =>
        rw [SessionState.call, hw]
        exact hs
      | some w =>
        rw [hstreams w hw, AList.lookup_insert_ne (Ne.symm hc)]
        exact hs

def resultOf (L : TextLibrary) (s : SessionState) (calls : List (StreamId × Callback))
    (sid : StreamId) (fatal : Bool) (fatalMsg : QString) : Result :=
  assembleResult ((calls.foldl (SessionState.call L) s).streams.lookup sid) fatal fatalMsg

theorem resultOf_state {s : SessionState} (hs : s.streams.lookup sid = some {})
    {r : ResponseStream} (hcalls : callsOf sid calls = r.callbacks) (fatal : Bool)
    (fatalMsg : QString) : resultOf L s calls sid fatal fatalMsg =
      assembleResult (some (r.state L)) fatal fatalMsg := by
  rw [resultOf, lookup_calls L hs, hcalls, ResponseStream.state]

section
variable {L : TextLibrary}
  (hascii : ∀ s : QByteArray, (∀ c ∈ s, c < 0x80) → L.fromUtf8 s = fromLatin1 s)

include hascii

theorem ResponseStream.state_status (r : ResponseStream) :
    (r.state L).statusCode = r.final.status := by
  obtain ⟨st, hst, _, hstatus, _⟩ := r.state_closed L
  rw [hstatus, hst.statusCode, r.statuses_eq hascii]

theorem ResponseStream.ok_iff (r : ResponseStream) (fatal : Bool) (msg : QString) :
    (assembleResult (some (r.state L)) fatal msg).ok = true ↔ r.Delivered fatal := by
  obtain ⟨st, hst, _, _, _, hdone, herror⟩ := r.state_closed L
  have hstatus : (r.state L).statusCode ≠ 0 := by
    rw [r.state_status hascii]
    have hmin := r.isFinal
    omega
  have hover : st.hadError = false ↔ (r.body.length : Int) ≤ kMaxBodyBytesPerStream := by
    rw [hst.hadError, hst.bodyBytes, r.data_eq, bodyOverBudget, decide_eq_false_iff_not,
      Int.not_lt]
  have hended : st.done = r.ended := by
    rw [hst.done]
    apply frameCallbacks_ends
    rw [ResponseStream.frames]
    simp
  rw [assembleResult_ok_iff hstatus, herror, hdone, Bool.or_eq_false_iff, hover, and_assoc,
    hended, ResponseStream.Delivered, ResponseStream.closeError]
  cases r.closeCode with
  | none => simp
  | some code => simp

theorem ResponseStream.state_headers (r : ResponseStream) :
    (r.state L).headers = r.interims.flatMap (fun b => b.headers L) ++ r.final.headers L ++
      r.trailer.toList.flatMap (fun b => b.headers L) := by
  obtain ⟨st, hst, hheaders, _⟩ := r.state_closed L
  rw [hheaders, hst.headers, r.fields_eq hascii]

theorem ResponseStream.state_body (r : ResponseStream)
    (h : (assembleResult (some (r.state L)) fatal msg).ok = true) :
    (r.state L).body = r.body := by
  have hin := ((r.ok_iff hascii fatal msg).1 h).1
  obtain ⟨st, hst, _, _, hbody, _⟩ := r.state_closed L
  rw [hbody, hst.body, r.data_eq]
  rw [hst.hadError, hst.bodyBytes, r.data_eq, bodyOverBudget, decide_eq_false_iff_not,
    Int.not_lt]
  exact hin

theorem ResponseStream.headers_eq_iff (r : ResponseStream) :
    (r.state L).headers = r.final.headers L ↔ r.Plain := by
  have hempty (b : FieldBlock) : b.headers L = [] ↔ b.fields = [] := List.map_eq_nil_iff
  rw [r.state_headers hascii, ResponseStream.Plain]
  constructor
  · intro h
    have hlen := congrArg List.length h
    rw [List.length_append, List.length_append] at hlen
    have hinterims : r.interims.flatMap (fun b => b.headers L) = [] :=
      List.eq_nil_of_length_eq_zero (by omega)
    have htrailer : r.trailer.toList.flatMap (fun b => b.headers L) = [] :=
      List.eq_nil_of_length_eq_zero (by omega)
    constructor
    · intro b hb
      exact (hempty _).1 (List.flatMap_eq_nil_iff.1 hinterims b hb)
    · intro b hb
      exact (hempty b).1 (List.flatMap_eq_nil_iff.1 htrailer b (Option.mem_toList.2 hb))
  · intro h
    obtain ⟨hinterims, htrailer⟩ := h
    rw [List.flatMap_eq_nil_iff.2 (fun b hb => (hempty _).2 (hinterims b hb)),
      List.flatMap_eq_nil_iff.2 (fun b hb => (hempty b).2 (htrailer b (Option.mem_toList.1 hb))),
      List.append_nil, List.nil_append]

theorem ResponseStream.reported_iff (r : ResponseStream) (fatal : Bool) (msg : QString) :
    ((assembleResult (some (r.state L)) fatal msg).ok = true →
        r.ReportedBy L (assembleResult (some (r.state L)) fatal msg).response) ↔
      ¬ r.Delivered fatal ∨ r.Plain := by
  rw [r.ok_iff hascii, imp_iff_not_or]
  apply or_congr_right'
  intro hdelivered
  rw [not_not] at hdelivered
  have hok := (r.ok_iff hascii fatal msg).2 hdelivered
  obtain ⟨hstatus, hheaders, hbody⟩ := assembleResult_response hok
  rw [ResponseStream.ReportedBy, hstatus, hheaders, hbody, r.state_status hascii,
    r.state_body hascii hok, r.headers_eq_iff hascii]
  exact ⟨fun h => h.2.1, fun h => ⟨rfl, h, rfl⟩⟩

/-- The final response is returned exactly when nothing is, or no other block has fields. -/
theorem response_reported_iff (s : SessionState) (hs : s.streams.lookup sid = some {})
    (r : ResponseStream) (calls : List (StreamId × Callback))
    (hcalls : callsOf sid calls = r.callbacks) (fatal : Bool) (fatalMsg : QString) :
    ((resultOf L s calls sid fatal fatalMsg).ok = true →
        r.ReportedBy L (resultOf L s calls sid fatal fatalMsg).response) ↔
      ¬ r.Delivered fatal ∨ r.Plain := by
  rw [resultOf_state hs hcalls]
  exact r.reported_iff hascii fatal fatalMsg

end

def oneStream : SessionState := { streams := AList.insert 1 {} ∅, openStreams := 1 }

theorem callsOf_map (sid : StreamId) (calls : List Callback) :
    callsOf sid (calls.map (fun c => (sid, c))) = calls := by
  rw [callsOf, List.filterMap_map]
  have hsame : ((fun c : StreamId × Callback => if c.1 = sid then some c.2 else none) ∘
      fun c => (sid, c)) = some := funext fun _ => if_pos rfl
  rw [hsame, List.filterMap_some]

def htmlFields : FieldBlock where
  fields := [(latin1 "content-type", latin1 "text/html")]
  regular := by
    intro f hf
    rw [List.mem_singleton.1 hf]
    exact ⟨by decide, by decide, forall_mem_of_all (by decide)⟩

def linkFields : FieldBlock where
  fields := [(latin1 "link", latin1 "</a.css>; rel=preload")]
  regular := by
    intro f hf
    rw [List.mem_singleton.1 hf]
    exact ⟨by decide, by decide, forall_mem_of_all (by decide)⟩

def pageStream (hints : Bool) : ResponseStream where
  interims := if hints then [{ linkFields with status := 103, digits := by decide }] else []
  informational := by
    cases hints with
    | false => exact fun _ hb => absurd hb List.not_mem_nil
    | true =>
      intro b hb
      rw [List.mem_singleton.1 hb]
      decide
  final := { htmlFields with status := 200, digits := by decide }
  isFinal := Nat.le_refl 200
  data := [[latin1 "hi"]]
  trailer := none
  ended := true
  trailerEnds _ := rfl
  closeCode := some 0

theorem response_reported_page :
    (resultOf asciiLibrary oneStream ((pageStream false).callbacks.map (fun c => (1, c))) 1 false
        []).ok = true ∧
      (pageStream false).ReportedBy asciiLibrary
        (resultOf asciiLibrary oneStream ((pageStream false).callbacks.map (fun c => (1, c))) 1
          false []).response := by
  have hok : (resultOf asciiLibrary oneStream ((pageStream false).callbacks.map (fun c => (1, c)))
      1 false []).ok = true := by decide
  refine ⟨hok, (response_reported_iff (fun _ _ => rfl) oneStream rfl (pageStream false) _
    (callsOf_map 1 _) false []).2 (.inr ⟨?_, ?_⟩) hok⟩
  · intro b hb
    exact absurd hb List.not_mem_nil
  · intro b hb
    cases hb

/-- The link of the early hints is reported as a field of the page. -/
theorem early_hints_merged :
    ¬ ((resultOf asciiLibrary oneStream ((pageStream true).callbacks.map (fun c => (1, c))) 1 false
        []).ok = true →
      (pageStream true).ReportedBy asciiLibrary
        (resultOf asciiLibrary oneStream ((pageStream true).callbacks.map (fun c => (1, c))) 1
          false []).response) := by
  rw [resultOf_state (L := asciiLibrary) rfl (callsOf_map 1 _),
    (pageStream true).reported_iff (fun _ _ => rfl), not_or, not_not]
  refine ⟨⟨by decide, rfl⟩, ?_⟩
  intro hplain
  exact absurd (hplain.1 _ List.mem_cons_self) (List.cons_ne_nil _ _)

end Nullock.Proxy.H2Client

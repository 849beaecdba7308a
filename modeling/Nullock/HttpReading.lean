import Nullock.Segments
import Nullock.HttpReserialise
import Nullock.HttpResponses

namespace Nullock.Proxy
open HttpLogic

def HeadFits (socket : List QByteArray) (start headLength : Nat) : Prop :=
  ∀ c, IsCut socket c → start + kMaxHeaderBytes < c → start + headLength ≤ c

structure ReadsHead (socket : List QByteArray) (headLength k : Nat) : Prop where
  cut : IsCut socket k
  complete : headLength ≤ k
  first : ∀ c, IsCut socket c → headLength ≤ c → k ≤ c

section
variable {socket : List QByteArray} {out : QByteArray}

theorem blank_in_prefix (h : indexOf (crlf ++ crlf) (out ++ rest) = some sep) :
    (indexOf (crlf ++ crlf) out).isSome = true ↔ sep + 4 ≤ out.length := by
  have h4 : (crlf ++ crlf).length = 4 := rfl
  rw [indexOf_of_append h, h4]
  split
  · rename_i hle
    exact ⟨fun _ => hle, fun _ => rfl⟩
  · rename_i hle
    exact ⟨fun hs => (nomatch hs), fun hs => absurd hs hle⟩

theorem readHeaderBlock_overflow (h : indexOf (crlf ++ crlf) (out ++ socket.flatten) = some sep)
    (hcut : IsCut socket c) (hover : kMaxHeaderBytes < out.length + c)
    (hunfinished : out.length + c < sep + 4) : readHeaderBlock out socket = none := by
  induction socket generalizing out c with
  | nil =>
    rw [isCut_nil.1 hcut] at hunfinished
    have hblank := blank_in_prefix h
    rw [List.flatten_nil, List.append_nil] at h
    rw [h] at hblank
    have := hblank.1 rfl
    omega
  | cons segment socket ih =>
    have hblank := blank_in_prefix h
    rw [List.flatten_cons, ← List.append_assoc] at h
    rw [readHeaderBlock, if_neg (fun hs => by have := hblank.1 hs; omega)]
    split
    · rfl
    · rename_i hsmall
      rcases isCut_cons.1 hcut with hc | ⟨c', hc', he⟩
      · omega
      · apply ih h hc'
        · rw [List.length_append]
          omega
        · rw [List.length_append]
          omega

theorem readHeaderBlock_fits (h : indexOf (crlf ++ crlf) (out ++ socket.flatten) = some sep)
    (hfit : ∀ c, IsCut socket c → kMaxHeaderBytes < out.length + c → sep + 4 ≤ out.length + c) :
    ∃ k left, readHeaderBlock out socket = some (out ++ socket.flatten.take k, left) ∧
      Advanced socket k left ∧ IsCut socket k ∧ sep + 4 ≤ out.length + k ∧
      ∀ c, IsCut socket c → sep + 4 ≤ out.length + c → k ≤ c := by
  induction socket generalizing out with
  | nil =>
    have hblank := blank_in_prefix h
    rw [List.flatten_nil, List.append_nil] at h
    rw [h] at hblank
    refine ⟨0, [], ?_, .refl _, .zero _, hblank.1 rfl, fun c _ _ => Nat.zero_le c⟩
    rw [readHeaderBlock, h, List.flatten_nil, List.take_nil, List.append_nil]
    rfl
  | cons segment socket ih =>
    have hblank := blank_in_prefix h
    by_cases hdone : sep + 4 ≤ out.length
    · refine ⟨0, segment :: socket, ?_, .refl _, .zero _, hdone, fun c _ _ => Nat.zero_le c⟩
      rw [readHeaderBlock, if_pos (hblank.2 hdone), List.take_zero, List.append_nil]
    · have hsmall : ¬ kMaxHeaderBytes < out.length := by
        intro hlarge
        exact hdone (hfit 0 (.zero _) hlarge)
      rw [List.flatten_cons, ← List.append_assoc] at h
      have hlen : (out ++ segment).length = out.length + segment.length := List.length_append
      obtain ⟨k, left, hread, hadv, hcut, hle, hfirst⟩ := ih h (by
        intro c hc hover
        rw [hlen] at hover ⊢
        have := hfit (segment.length + c) (isCut_cons.2 (.inr ⟨c, hc, rfl⟩)) (by omega)
        omega)
      refine ⟨segment.length + k, left, ?_, (Advanced.segment segment socket).trans hadv,
        isCut_cons.2 (.inr ⟨k, hcut, rfl⟩), by omega, ?_⟩
      · rw [readHeaderBlock, if_neg (fun hs => hdone (hblank.1 hs)), if_neg hsmall, hread,
          List.flatten_cons, List.take_length_add_append, List.append_assoc]
      · intro c hc hcle
        rcases isCut_cons.1 hc with h0 | ⟨c', hc', he⟩
        · omega
        · have := hfirst c' hc' (by omega)
          omega

theorem readExactOn_advances (hout : out.length ≤ n)
    (hle : n ≤ out.length + socket.flatten.length) :
    ∃ left, readExactOn n out socket = some (out ++ socket.flatten.take (n - out.length), left) ∧
      Advanced socket (n - out.length) left := by
  induction socket generalizing out with
  | nil =>
    rw [List.flatten_nil, List.length_nil] at hle
    have hn : n - out.length = 0 := by omega
    refine ⟨[], ?_, ?_⟩
    · rw [readExactOn, if_neg (by omega), List.flatten_nil, List.take_nil, List.append_nil]
    · rw [hn]
      exact .refl _
  | cons segment socket ih =>
    rw [List.flatten_cons, List.length_append] at hle
    have hlen : (out ++ segment).length = out.length + segment.length := List.length_append
    rw [readExactOn]
    split
    · split
      · obtain ⟨left, hread, hadv⟩ := ih (by omega) (by omega : n ≤ (out ++ segment).length + _)
        have hn : n - out.length = segment.length + (n - (out ++ segment).length) := by omega
        refine ⟨left, ?_, ?_⟩
        · rw [hread, hn, List.flatten_cons, List.take_length_add_append, List.append_assoc]
        · rw [hn]
          exact (Advanced.segment segment socket).trans hadv
      · refine ⟨_, ?_, Advanced.part (by omega) socket⟩
        rw [List.flatten_cons, List.take_append_of_le_length (by omega)]
    · have hn : n - out.length = 0 := by omega
      refine ⟨segment :: socket, ?_, ?_⟩
      · rw [hn, List.take_zero, List.append_nil]
      · rw [hn]
        exact .refl _

end

theorem readExactOn_rest {body : QByteArray} {left : List QByteArray}
    (hleft : left.flatten = (body ++ rest).drop m) (hm : m ≤ body.length) :
    ∃ left', readExactOn (body.length - m) [] left = some (body.drop m, left') ∧
      Advanced left (body.length - m) left' := by
  have hdrop : (body ++ rest).drop m = body.drop m ++ rest := List.drop_append_of_le_length hm
  rw [hdrop] at hleft
  have hlen : (body.drop m).length = body.length - m := List.length_drop
  have hfits : body.length - m ≤ ([] : QByteArray).length + left.flatten.length := by
    rw [hleft, List.length_append, hlen, List.length_nil]
    omega
  obtain ⟨left', hread, hadv⟩ := readExactOn_advances (Nat.zero_le _) hfits
  refine ⟨left', ?_, hadv⟩
  rw [hread, List.nil_append, List.length_nil, Nat.sub_zero, hleft, ← hlen, List.take_left]

/-- `readRequestFrom`, with the socket as the call leaves it. -/
def readRequestOn (socket : List QByteArray) : Option (HttpRequest × List QByteArray) :=
  match readHeaderBlock [] socket with
  | none => none
  | some (buf, socket) =>
    let sep := (indexOf (crlf ++ crlf) buf).getD 0
    let rest := buf.drop (sep + 4)
    match parseHead (buf.take sep) with
    | none => none
    | some req =>
      if isConnect req then some (req, socket)
      else if !isFramingSafe req.headers true then none
      else if (findHeader req.headers (utf16 "Content-Length")).isEmpty then some (req, socket)
      else
        let n := requestBodyLength req.headers
        if n < 0 ∨ (kMaxRequestBody : Int) < n then none
        else if (rest.length : Int) < n then
          match readExactOn (n.toNat - rest.length) [] socket with
          | none => none
          | some (extra, socket) => some ({ req with body := rest ++ extra }, socket)
        else some ({ req with body := rest.take n.toNat }, socket)

theorem readExactOn_fst (n : Nat) (out : QByteArray) (socket : List QByteArray) :
    (readExactOn n out socket).map Prod.fst = readExact n out socket := by
  induction socket generalizing out with
  | nil =>
    rw [readExactOn, readExact]
    split
    · rfl
    · rfl
  | cons segment socket ih =>
    rw [readExactOn, readExact]
    split
    · rename_i hlt
      split
      · rename_i hle
        rw [ih, List.take_of_length_le hle]
      · rename_i hle
        have hlen : (out ++ segment.take (n - out.length)).length = n := by
          rw [List.length_append, List.length_take]
          omega
        rw [Option.map_some]
        cases socket with
        | nil => rw [readExact, if_neg (by omega)]
        | cons segment' socket => rw [readExact, if_neg (by omega)]
    · rfl

theorem readRequestOn_fst (socket : List QByteArray) :
    (readRequestOn socket).map Prod.fst = readRequestFrom socket := by
  rw [readRequestOn, readRequestFrom]
  cases readHeaderBlock [] socket with
  | none => rfl
  | some p =>
    obtain ⟨buf, socket⟩ := p
    dsimp only
    cases parseHead (buf.take ((indexOf (crlf ++ crlf) buf).getD 0)) with
    | none => rfl
    | some req =>
      dsimp only
      split_ifs with h1 h2 h3 h4 h5
      · rfl
      · rfl
      · rfl
      · rfl
      · rw [← readExactOn_fst]
        cases readExactOn ((requestBodyLength req.headers).toNat -
          (buf.drop ((indexOf (crlf ++ crlf) buf).getD 0 + 4)).length) [] socket with
        | none => rfl
        | some p => rfl
      · rfl

theorem splitSkipEmpty_numeral (h : isNumeral v = true) : splitSkipEmpty v = [v] := by
  obtain ⟨hne, hd⟩ := isNumeral_iff.1 h
  have hcomma : 0x2C ∉ v := by
    intro hm
    cases hd _ hm
  rw [splitSkipEmpty, List.splitOn_eq_singleton hcomma, List.filter_singleton,
    List.isEmpty_eq_false_iff.2 hne]
  rfl

theorem toLongLong_numeral (h : isNumeral v = true) (hn : digitsFrom 10 0 v = some n) :
    QString.toLongLong v = if (n : Int) < 2 ^ 63 then some (n : Int) else none := by
  rw [QString.toLongLong, trimmed_numeral h, readLongLong_numeral h, hn]

theorem checkContentLength_numeral (h : isNumeral v = true) (hn : digitsFrom 10 0 v = some n) :
    checkContentLength [] (splitSkipEmpty v) = if (n : Int) < 2 ^ 63 then some v else none := by
  have hempty : v.isEmpty = false := List.isEmpty_eq_false_iff.2 (isNumeral_iff.1 h).1
  rw [splitSkipEmpty_numeral h, checkContentLength, trimmed_numeral h, toLongLong_numeral h hn]
  simp only [hempty, Bool.false_eq_true, ↓reduceIte, List.isEmpty_nil]
  split_ifs
  · rw [checkContentLength]
    dsimp only
    rw [if_neg (by omega)]
  · rfl

section
variable {headers : List Header}

structure PlainFields (headers : List Header) : Prop where
  clean : ∀ h ∈ headers, hasControlByte h.1 = false ∧ hasControlByte h.2 = false
  uncoded : ∀ h ∈ headers, equalsIgnoreCase h.1 (utf16 "Transfer-Encoding") = false

theorem PlainFields.tail (h : PlainFields (f :: headers)) : PlainFields headers where
  clean g hg := h.clean g (List.mem_cons_of_mem _ hg)
  uncoded g hg := h.uncoded g (List.mem_cons_of_mem _ hg)

theorem PlainFields.framingLoop (h : PlainFields (f :: headers)) (isRequest sawTE : Bool)
    (cl : QString) :
    HttpLogic.framingLoop isRequest (f :: headers) sawTE cl =
      if equalsIgnoreCase f.1 contentLengthName then
        match checkContentLength cl (splitSkipEmpty f.2) with
        | none => none
        | some cl => HttpLogic.framingLoop isRequest headers sawTE cl
      else HttpLogic.framingLoop isRequest headers sawTE cl := by
  obtain ⟨hn, hv⟩ := h.clean f List.mem_cons_self
  have hte := h.uncoded f List.mem_cons_self
  rw [HttpLogic.framingLoop, hn, hv, hte]
  rfl

theorem framingLoop_unsized (h : PlainFields headers) (hcl : contentLengths headers = [])
    (isRequest sawTE : Bool) (cl : QString) :
    framingLoop isRequest headers sawTE cl = some (sawTE, cl) := by
  induction headers with
  | nil => rfl
  | cons f headers ih =>
    rw [contentLengths_cons] at hcl
    rw [h.framingLoop]
    split_ifs at hcl ⊢ with hf
    exact ih h.tail hcl

theorem framingLoop_sized (h : PlainFields headers) (hcl : contentLengths headers = [v])
    (hv : isNumeral v = true) (hn : digitsFrom 10 0 v = some n) (isRequest sawTE : Bool) :
    framingLoop isRequest headers sawTE [] =
      if (n : Int) < 2 ^ 63 then some (sawTE, v) else none := by
  induction headers with
  | nil => cases hcl
  | cons f headers ih =>
    rw [contentLengths_cons] at hcl
    rw [h.framingLoop]
    split_ifs at hcl ⊢ with hf hfit hfit
    · obtain ⟨he, hcl⟩ := List.cons.inj hcl
      rw [he, checkContentLength_numeral hv hn, if_pos hfit]
      exact framingLoop_unsized h.tail hcl _ _ _
    · obtain ⟨he, hcl⟩ := List.cons.inj hcl
      rw [he, checkContentLength_numeral hv hn, if_neg hfit]
    · rw [ih h.tail hcl, if_pos hfit]
    · rw [ih h.tail hcl, if_neg hfit]

theorem isFramingSafe_sized (h : PlainFields headers) (hcl : contentLengths headers = [v])
    (hv : isNumeral v = true) (hn : digitsFrom 10 0 v = some n) (isRequest : Bool) :
    isFramingSafe headers isRequest = decide ((n : Int) < 2 ^ 63) := by
  rw [isFramingSafe, framingLoop_sized h hcl hv hn]
  split_ifs with hfit
  · rw [decide_eq_true hfit]
    rfl
  · rw [decide_eq_false hfit]

theorem isFramingSafe_unsized (h : PlainFields headers) (hcl : contentLengths headers = [])
    (isRequest : Bool) : isFramingSafe headers isRequest = true := by
  rw [isFramingSafe, framingLoop_unsized h hcl]
  rfl

end

/-- A well-formed request whose body has the length that its one field states. -/
structure ClientRequest where
  method : QByteArray
  target : QByteArray
  version : QByteArray
  fields : List WireField
  body : QByteArray
  parts : ∀ part ∈ [method, target, version], 0x20 ∉ part ∧ 0x0A ∉ part
  tunnelled : equalsIgnoreCase (fromLatin1 method) (utf16 "CONNECT") = false
  uncoded : ∀ f ∈ fields, equalsIgnoreCase f.header.1 (utf16 "Transfer-Encoding") = false
  length : contentLengths (fields.map WireField.header) = [] ∧ body = [] ∨
    ∃ v, contentLengths (fields.map WireField.header) = [v] ∧ isNumeral v = true ∧
      digitsFrom 10 0 v = some body.length

namespace ClientRequest

def headers (r : ClientRequest) : List Header := r.fields.map WireField.header

def line (r : ClientRequest) : QByteArray :=
  r.method ++ 0x20 :: (r.target ++ 0x20 :: r.version)

def block (r : ClientRequest) : QByteArray := headLines r.line (r.fields.map WireField.text)

def head (r : ClientRequest) : QByteArray := r.block ++ (crlf ++ crlf)

def bytes (r : ClientRequest) : QByteArray := r.head ++ r.body

def request (r : ClientRequest) : HttpRequest where
  method := fromLatin1 r.method
  target := fromLatin1 r.target
  httpVersion := fromLatin1 r.version
  headers := r.headers
  path := fromLatin1 r.target
  body := r.body

theorem line_lf (r : ClientRequest) : 0x0A ∉ r.line := by
  have hm := (r.parts r.method (by simp)).2
  have ht := (r.parts r.target (by simp)).2
  have hv := (r.parts r.version (by simp)).2
  simp only [line, List.mem_append, List.mem_cons, hm, ht, hv, or_false, false_or, not_or]
  decide

theorem splitOn_line (r : ClientRequest) :
    r.line.splitOn 0x20 = [r.method, r.target, r.version] := by
  have hm := (r.parts r.method (by simp)).1
  have ht := (r.parts r.target (by simp)).1
  have hv := (r.parts r.version (by simp)).1
  rw [line, List.splitOn_append_cons_self_of_not_mem hm,
    List.splitOn_append_cons_self_of_not_mem ht, List.splitOn_eq_singleton hv]

theorem parseHead_block (r : ClientRequest) :
    parseHead r.block = some { r.request with body := [] } := by
  rw [parseHead, block, requestLine_headLines r.line_lf, r.splitOn_line,
    parseHeaders_wire r.line_lf]
  rfl

theorem not_connect (r : ClientRequest) : isConnect { r.request with body := [] } = false :=
  r.tunnelled

theorem blank (r : ClientRequest) (rest : QByteArray) :
    indexOf (crlf ++ crlf) (r.bytes ++ rest) = some r.block.length := by
  have h := indexOf_blank_headLines r.line_lf (wire_lines r.fields) (r.body ++ rest)
  rw [← block] at h
  rw [← h, bytes, head]
  simp only [List.append_assoc]

theorem head_length (r : ClientRequest) : r.head.length = r.block.length + 4 := by
  rw [head, List.length_append]
  rfl

theorem bytes_length (r : ClientRequest) : r.bytes.length = r.head.length + r.body.length := by
  rw [bytes, List.length_append]

theorem plain (r : ClientRequest) : PlainFields r.headers where
  clean := by
    intro h hh
    obtain ⟨f, _, he⟩ := List.mem_map.1 hh
    rw [← he]
    exact f.clean_header
  uncoded := by
    intro h hh
    obtain ⟨f, hf, he⟩ := List.mem_map.1 hh
    rw [← he]
    exact r.uncoded f hf

theorem length_cases (r : ClientRequest) :
    ((findHeader r.headers contentLengthName).isEmpty = true ∧ r.body = [] ∧
        isFramingSafe r.headers true = true) ∨
      ((findHeader r.headers contentLengthName).isEmpty = false ∧
        isFramingSafe r.headers true = decide ((r.body.length : Int) < 2 ^ 63) ∧
        ((r.body.length : Int) < 2 ^ 63 → requestBodyLength r.headers = r.body.length)) := by
  rcases r.length with ⟨hcl, hb⟩ | ⟨v, hcl, hv, hn⟩
  · left
    rw [findHeader_contentLength, headers, hcl]
    exact ⟨rfl, hb, isFramingSafe_unsized r.plain hcl true⟩
  · right
    have hempty : v.isEmpty = false := List.isEmpty_eq_false_iff.2 (isNumeral_iff.1 hv).1
    refine ⟨?_, isFramingSafe_sized r.plain hcl hv hn true, ?_⟩
    · rw [findHeader_contentLength, headers, hcl]
      exact hempty
    · intro hfit
      rw [requestBodyLength_eq, headers, hcl, List.head?_cons]
      dsimp only
      rw [hempty, toLongLong_numeral hv hn, if_pos hfit]
      rfl

theorem readRequestOn_head (r : ClientRequest)
    (hread : readHeaderBlock [] socket = some (r.head ++ rest, left)) :
    readRequestOn socket =
      if isFramingSafe r.headers true = false then none
      else if (findHeader r.headers contentLengthName).isEmpty then
        some ({ r.request with body := [] }, left)
      else
        let n := requestBodyLength r.headers
        if n < 0 ∨ (kMaxRequestBody : Int) < n then none
        else if (rest.length : Int) < n then
          match readExactOn (n.toNat - rest.length) [] left with
          | none => none
          | some (extra, left) => some ({ r.request with body := rest ++ extra }, left)
        else some ({ r.request with body := rest.take n.toNat }, left) := by
  have hblank : indexOf (crlf ++ crlf) (r.head ++ rest) = some r.block.length := by
    have h := indexOf_blank_headLines r.line_lf (wire_lines r.fields) rest
    rw [← block] at h
    rw [← h, head]
    simp only [List.append_assoc]
  have htake : (r.head ++ rest).take r.block.length = r.block := by
    rw [head, List.append_assoc, List.take_left]
  have hdrop : (r.head ++ rest).drop (r.block.length + 4) = rest := by
    rw [← r.head_length, List.drop_left]
  rw [readRequestOn, hread]
  simp only [hblank, Option.getD_some, htake, hdrop, r.parseHead_block, r.not_connect,
    Bool.false_eq_true, ↓reduceIte, Bool.not_eq_true', contentLengthName]
  rfl

theorem head_read (r : ClientRequest) (h : socket.flatten = r.bytes ++ rest)
    (hfit : HeadFits socket 0 r.head.length) :
    ∃ k left, readHeaderBlock [] socket =
        some (r.head ++ (r.body ++ rest).take (k - r.head.length), left) ∧
      Advanced socket k left ∧ ReadsHead socket r.head.length k := by
  have hblank : indexOf (crlf ++ crlf) ([] ++ socket.flatten) = some r.block.length := by
    rw [List.nil_append, h, r.blank]
  have hlen := r.head_length
  obtain ⟨k, left, hread, hadv, hcut, hle, hfirst⟩ := readHeaderBlock_fits hblank (by
    intro c hc hover
    have := hfit c hc (by rw [List.length_nil] at hover; omega)
    omega)
  rw [List.length_nil] at hle hfirst
  refine ⟨k, left, ?_, hadv, hcut, by omega, fun c hc hcle => hfirst c hc (by omega)⟩
  rw [hread, List.nil_append, h, bytes, List.append_assoc, List.take_append,
    List.take_of_length_le (by omega)]

theorem read_none (r : ClientRequest) (h : socket.flatten = r.bytes ++ rest)
    (hn : ¬ (r.body.length ≤ kMaxRequestBody ∧ HeadFits socket 0 r.head.length)) :
    readRequestOn socket = none := by
  by_cases hfit : HeadFits socket 0 r.head.length
  · have hbody : ¬ r.body.length ≤ kMaxRequestBody := fun hb => hn ⟨hb, hfit⟩
    obtain ⟨k, left, hread, _, _⟩ := r.head_read h hfit
    rw [r.readRequestOn_head hread]
    rcases r.length_cases with ⟨_, hb, _⟩ | ⟨hcl, hsafe, hlength⟩
    · rw [hb] at hbody
      exact absurd (Nat.zero_le _) hbody
    · rw [hsafe, hcl]
      by_cases hfits : (r.body.length : Int) < 2 ^ 63
      · rw [decide_eq_true hfits, hlength hfits]
        dsimp only
        rw [if_neg nofun, if_neg Bool.false_ne_true, if_pos (by omega)]
      · rw [decide_eq_false hfits, if_pos rfl]
  · have hblank : indexOf (crlf ++ crlf) ([] ++ socket.flatten) = some r.block.length := by
      rw [List.nil_append, h, r.blank]
    have hlen := r.head_length
    obtain ⟨c, hc⟩ := not_forall.1 hfit
    obtain ⟨hcut, hc⟩ := Classical.not_imp.1 hc
    obtain ⟨hover, hc⟩ := Classical.not_imp.1 hc
    have hread : readHeaderBlock [] socket = none :=
      readHeaderBlock_overflow hblank hcut (by rw [List.length_nil]; omega)
        (by rw [List.length_nil]; omega)
    rw [readRequestOn, hread]

theorem read_some (r : ClientRequest) (h : socket.flatten = r.bytes ++ rest)
    (hbody : r.body.length ≤ kMaxRequestBody) (hfit : HeadFits socket 0 r.head.length) :
    ∃ k left, readRequestOn socket = some (r.request, left) ∧
      Advanced socket (max k r.bytes.length) left ∧ ReadsHead socket r.head.length k := by
  obtain ⟨k, left, hread, hadv, hreads⟩ := r.head_read h hfit
  have hbytes := r.bytes_length
  have hle := hreads.complete
  have hwithin := hadv.within
  rw [h, List.length_append, hbytes] at hwithin
  have hkept : ((r.body ++ rest).take (k - r.head.length)).length = k - r.head.length := by
    rw [List.length_take, List.length_append]
    omega
  have hleft : left.flatten = (r.body ++ rest).drop (k - r.head.length) := by
    rw [hadv.items, h, bytes, List.append_assoc, List.drop_append, List.drop_of_length_le hle,
      List.nil_append]
  rw [r.readRequestOn_head hread]
  rcases r.length_cases with ⟨hcl, hb, hsafe⟩ | ⟨hcl, hsafe, hlength⟩
  · rw [hsafe, hcl]
    refine ⟨k, left, ?_, ?_, hreads⟩
    · have hreq : ({ r.request with body := [] } : HttpRequest) = r.request := by
        rw [request, hb]
      rw [hreq]
      rfl
    · rw [hb, List.length_nil] at hbytes
      rw [Nat.max_eq_left (by omega)]
      exact hadv
  · have hmax : kMaxRequestBody < 2 ^ 63 := by decide
    have hfits : (r.body.length : Int) < 2 ^ 63 := by omega
    rw [hsafe, hcl, decide_eq_true hfits, hlength hfits, hkept]
    dsimp only
    rw [if_neg nofun, if_neg Bool.false_ne_true, if_neg (by omega), Int.toNat_natCast]
    split
    · rename_i hshort
      obtain ⟨left', hexact, hadv'⟩ := readExactOn_rest hleft (by omega)
      refine ⟨k, left', ?_, ?_, hreads⟩
      · rw [hexact]
        dsimp only
        rw [List.take_append_of_le_length (by omega), List.take_append_drop]
        rfl
      · have he : max k r.bytes.length = k + (r.body.length - (k - r.head.length)) := by omega
        rw [he]
        exact hadv.trans hadv'
    · rename_i hlong
      refine ⟨k, left, ?_, ?_, hreads⟩
      · rw [List.take_take, Nat.min_eq_left (by omega), List.take_left]
        rfl
      · rw [Nat.max_eq_left (by omega)]
        exact hadv

end ClientRequest

theorem readExactOn_shorter (h : readExactOn n out socket = some (bytes, left)) :
    left.flatten.length ≤ socket.flatten.length := by
  induction socket generalizing out with
  | nil =>
    rw [readExactOn] at h
    split at h
    · cases h
    · cases h
      exact Nat.le_refl _
  | cons segment socket ih =>
    rw [readExactOn] at h
    split at h
    · split at h
      · have hle := ih h
        rw [List.flatten_cons, List.length_append]
        omega
      · cases h
        rw [List.flatten_cons, List.flatten_cons, List.length_append, List.length_append,
          List.length_drop]
        omega
    · cases h
      exact Nat.le_refl _

theorem readHeaderBlock_shorter (h : readHeaderBlock [] socket = some (buf, left)) :
    left.flatten.length < socket.flatten.length := by
  obtain ⟨he, sep, hsep⟩ := readHeaderBlock_prefix h
  have hlen := (indexOf_split hsep).2
  have h4 : (crlf ++ crlf).length = 4 := rfl
  rw [List.nil_append] at he
  rw [← he, List.length_append]
  omega

theorem readRequestOn_shorter (h : readRequestOn socket = some (req, left)) :
    left.flatten.length < socket.flatten.length := by
  rw [readRequestOn] at h
  split at h
  · cases h
  · rename_i buf mid hread
    have hmid := readHeaderBlock_shorter hread
    dsimp only at h
    split at h
    · cases h
    · split_ifs at h
      · cases h
        exact hmid
      · cases h
        exact hmid
      · split at h
        · cases h
        · rename_i hexact
          have hle := readExactOn_shorter hexact
          cases h
          omega
      · cases h
        exact hmid

abbrev Exchange := Nat → HttpRequest → Option (HttpRequest × HttpResponse)

def tunnelReads (exchange : Exchange) (i : Nat) (socket : List QByteArray) :
    List (HttpRequest × QByteArray) :=
  match _h : readRequestOn socket with
  | none => []
  | some (req, left) =>
    (req, left.flatten) ::
      match exchange i req with
      | none => []
      | some (sent, resp) => if endsTunnel sent resp then [] else tunnelReads exchange (i + 1) left
termination_by socket.flatten.length
decreasing_by exact readRequestOn_shorter _h

theorem tunnelReads_none (h : readRequestOn socket = none) (exchange : Exchange) (i : Nat) :
    tunnelReads exchange i socket = [] := by
  rw [tunnelReads]
  split
  · rfl
  · rename_i he
    rw [h] at he
    cases he

theorem tunnelReads_some (h : readRequestOn socket = some (req, left)) (exchange : Exchange)
    (i : Nat) :
    tunnelReads exchange i socket = (req, left.flatten) ::
      match exchange i req with
      | none => []
      | some (sent, resp) =>
        if endsTunnel sent resp then [] else tunnelReads exchange (i + 1) left := by
  rw [tunnelReads]
  split
  · rename_i he
    rw [h] at he
    cases he
  · rename_i he
    rw [h] at he
    cases he
    rfl

def KeptAlive (exchange : Exchange) : Nat → List ClientRequest → Prop
  | _, [] => True
  | i, r :: rs =>
    (∃ sent resp, exchange i r.request = some (sent, resp) ∧ endsTunnel sent resp = false) ∧
      KeptAlive exchange (i + 1) rs

def streamOf (rs : List ClientRequest) : QByteArray := rs.flatMap ClientRequest.bytes

/-- Every request in turn, with the requests that follow it still to come. -/
def expectedReads : List ClientRequest → List (HttpRequest × QByteArray)
  | [] => []
  | r :: rs => (r.request, streamOf rs) :: expectedReads rs

def CutsSuit (socket : List QByteArray) (start : Nat) : List ClientRequest → Prop
  | [] => True
  | r :: rs =>
    r.body.length ≤ kMaxRequestBody ∧ HeadFits socket start r.head.length ∧
      (∃ c, IsCut socket c ∧ start + r.head.length ≤ c ∧ c ≤ start + r.bytes.length) ∧
      CutsSuit socket (start + r.bytes.length) rs

theorem ClientRequest.head_pos (r : ClientRequest) : 0 < r.head.length := by
  rw [r.head_length]
  omega

theorem headFits_advanced (h : Advanced socket n left) (start len : Nat) :
    HeadFits left start len ↔ HeadFits socket (n + start) len := by
  constructor
  · intro hfit c hc hover
    have hcut := (h.cuts (c - n) (by omega)).2 (by rw [Nat.add_sub_cancel' (by omega)]; exact hc)
    have := hfit _ hcut (by omega)
    omega
  · intro hfit c hc hover
    have := hfit _ ((h.cuts c (by omega)).1 hc) (by omega)
    omega

theorem cutsSuit_advanced (h : Advanced socket n left) (start : Nat) (rs : List ClientRequest) :
    CutsSuit left start rs ↔ CutsSuit socket (n + start) rs := by
  induction rs generalizing start with
  | nil => exact Iff.rfl
  | cons r rs ih =>
    have hpos := r.head_pos
    have hcut : (∃ c, IsCut left c ∧ start + r.head.length ≤ c ∧ c ≤ start + r.bytes.length) ↔
        ∃ c, IsCut socket c ∧ n + start + r.head.length ≤ c ∧
          c ≤ n + start + r.bytes.length := by
      constructor
      · intro hc
        obtain ⟨c, hc, hlo, hhi⟩ := hc
        exact ⟨n + c, (h.cuts c (by omega)).1 hc, by omega, by omega⟩
      · intro hc
        obtain ⟨c, hc, hlo, hhi⟩ := hc
        refine ⟨c - n, (h.cuts (c - n) (by omega)).2 ?_, by omega, by omega⟩
        rw [Nat.add_sub_cancel' (by omega)]
        exact hc
    rw [CutsSuit, CutsSuit, headFits_advanced h, hcut, ih, ← Nat.add_assoc]

theorem ReadsHead.le_iff (h : ReadsHead socket len k) (e : Nat) :
    k ≤ e ↔ ∃ c, IsCut socket c ∧ 0 + len ≤ c ∧ c ≤ 0 + e := by
  constructor
  · intro hk
    have := h.complete
    exact ⟨k, h.cut, by omega, by omega⟩
  · intro hc
    obtain ⟨c, hc, hlo, hhi⟩ := hc
    have := h.first c hc (by omega)
    omega

theorem readRequestOn_nil (h : socket.flatten = []) : readRequestOn socket = none := by
  cases hr : readRequestOn socket with
  | none => rfl
  | some p =>
    have hlt := readRequestOn_shorter hr
    rw [h] at hlt
    exact absurd hlt (Nat.not_lt_zero _)

/-- A tunnel reads its requests one by one exactly when the cuts suit them. -/
theorem tunnel_requests_iff (exchange : Exchange) (i : Nat) (rs : List ClientRequest)
    (socket : List QByteArray) (hstream : socket.flatten = streamOf rs)
    (halive : KeptAlive exchange i rs) :
    tunnelReads exchange i socket = expectedReads rs ↔ CutsSuit socket 0 rs := by
  induction rs generalizing i socket with
  | nil =>
    rw [tunnelReads_none (readRequestOn_nil hstream)]
    exact ⟨fun _ => trivial, fun _ => rfl⟩
  | cons r rs ih =>
    have hsplit : socket.flatten = r.bytes ++ streamOf rs := by
      rw [hstream, streamOf, List.flatMap_cons, streamOf]
    obtain ⟨⟨sent, resp, hex, hopen⟩, hrest⟩ := halive
    rw [CutsSuit, expectedReads]
    by_cases hsmall : r.body.length ≤ kMaxRequestBody ∧ HeadFits socket 0 r.head.length
    · obtain ⟨k, left, hread, hadv, hreads⟩ := r.read_some hsplit hsmall.1 hsmall.2
      rw [tunnelReads_some hread, hex]
      dsimp only
      rw [hopen, if_neg Bool.false_ne_true, List.cons.injEq, Prod.mk.injEq,
        ← hreads.le_iff r.bytes.length]
      have hleft : left.flatten = streamOf rs ↔ k ≤ r.bytes.length := by
        have hwithin := hadv.within
        rw [hadv.items]
        constructor
        · intro he
          have hl := congrArg List.length he
          rw [hsplit, List.length_append] at hwithin
          rw [hsplit, List.length_drop, List.length_append] at hl
          omega
        · intro hk
          rw [Nat.max_eq_right hk, hsplit, List.drop_left]
      constructor
      · intro h
        obtain ⟨⟨_, hl⟩, htail⟩ := h
        have hk := hleft.1 hl
        rw [Nat.max_eq_right hk] at hadv
        have hsuit := (ih (i + 1) left hl hrest).1 htail
        rw [cutsSuit_advanced hadv] at hsuit
        refine ⟨hsmall.1, hsmall.2, hk, ?_⟩
        rw [Nat.zero_add]
        exact hsuit
      · intro h
        obtain ⟨_, _, hk, hsuit⟩ := h
        have hl := hleft.2 hk
        rw [Nat.max_eq_right hk] at hadv
        rw [Nat.zero_add] at hsuit
        refine ⟨⟨rfl, hl⟩, (ih (i + 1) left hl hrest).2 ?_⟩
        rw [cutsSuit_advanced hadv]
        exact hsuit
    · rw [tunnelReads_none (r.read_none hsplit hsmall)]
      constructor
      · intro h
        cases h
      · intro h
        exact absurd ⟨h.1, h.2.1⟩ hsmall

theorem space_blank : ∀ c ∈ latin1 " ", isOws c = true := forall_mem_of_all (by decide)

def hostField : WireField where
  name := latin1 "Host"
  before := latin1 " "
  value := latin1 "h"
  after := []
  named := by decide
  token := forall_mem_of_all (by decide)
  blankBefore := space_blank
  blankAfter := forall_mem_of_all (by decide)
  trimmed := by decide
  clean := forall_mem_of_all (by decide)

def sizeField : WireField where
  name := latin1 "content-length"
  before := []
  value := latin1 "2"
  after := latin1 " "
  named := by decide
  token := forall_mem_of_all (by decide)
  blankBefore := forall_mem_of_all (by decide)
  blankAfter := forall_mem_of_all (by decide)
  trimmed := by decide
  clean := forall_mem_of_all (by decide)

def getRequest : ClientRequest where
  method := latin1 "GET"
  target := latin1 "/a"
  version := latin1 "HTTP/1.1"
  fields := [hostField]
  body := []
  parts := by decide
  tunnelled := by decide
  uncoded := by decide
  length := .inl ⟨by decide, rfl⟩

def postRequest : ClientRequest where
  method := latin1 "POST"
  target := latin1 "/b"
  version := latin1 "HTTP/1.1"
  fields := [sizeField, hostField]
  body := latin1 "hi"
  parts := by decide
  tunnelled := by decide
  uncoded := by decide
  length := .inr ⟨utf16 "2", by decide, by decide, by decide⟩

def keepOpen : Exchange := fun _ req =>
  some (req,
    { httpVersion := utf16 "HTTP/1.1"
      statusCode := 200
      reasonPhrase := utf16 "OK"
      headers := []
      body := [] })

theorem keepOpen_keptAlive : KeptAlive keepOpen 0 [postRequest, getRequest] :=
  ⟨⟨_, _, rfl, by decide⟩, ⟨_, _, rfl, by decide⟩, trivial⟩

/-- The first request is cut in its body; the rest brings the second. -/
theorem tunnel_requests_in_turn :
    tunnelReads keepOpen 0
      [postRequest.head ++ latin1 "h", latin1 "i" ++ getRequest.bytes] =
      expectedReads [postRequest, getRequest] := by
  apply (tunnel_requests_iff keepOpen 0 [postRequest, getRequest] _ (by decide)
    keepOpen_keptAlive).2
  have hpost : postRequest.head.length = 48 ∧ postRequest.bytes.length = 50 := by decide
  have hget : getRequest.head.length = 28 ∧ getRequest.bytes.length = 28 := by decide
  have hfit (start len : Nat) (h : start + len ≤ 78) :
      HeadFits [postRequest.head ++ latin1 "h", latin1 "i" ++ getRequest.bytes] start len := by
    intro c hc hover
    have hle := hc.le
    have hmax : kMaxHeaderBytes = 65536 := rfl
    have hlen : [postRequest.head ++ latin1 "h",
      latin1 "i" ++ getRequest.bytes].flatten.length = 78 := by decide
    omega
  refine ⟨by decide, hfit _ _ ?_, ⟨49, ⟨1, by decide⟩, ?_, ?_⟩, by decide, hfit _ _ ?_,
    ⟨78, ⟨2, by decide⟩, ?_, ?_⟩, trivial⟩
  · omega
  · omega
  · omega
  · omega
  · omega
  · omega

theorem pipelined_request_lost :
    let rs := [postRequest, getRequest]
    KeptAlive keepOpen 0 rs ∧
      tunnelReads keepOpen 0 [streamOf rs] = [(postRequest.request, [])] ∧
      tunnelReads keepOpen 0 [streamOf rs] ≠ expectedReads rs := by
  intro rs
  have hread : readRequestOn [streamOf rs] = some (postRequest.request, []) := by decide
  have htrace : tunnelReads keepOpen 0 [streamOf rs] = [(postRequest.request, [])] := by
    rw [tunnelReads_some hread, keepOpen]
    dsimp only
    rw [if_neg (by decide), tunnelReads_none (readRequestOn_nil rfl)]
    rfl
  refine ⟨keepOpen_keptAlive, htrace, ?_⟩
  rw [htrace]
  decide

end Nullock.Proxy

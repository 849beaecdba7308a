import Nullock.HttpResponseReads

namespace Nullock.Proxy
open HttpLogic

theorem framingLoop_codings (h : framingLoop isRequest headers sawTE cl = some r) :
    ∀ f ∈ headers, isTransferEncoding f = true → acceptedCodings f.2 = true := by
  induction headers generalizing sawTE cl with
  | nil => exact fun _ hf => (nomatch hf)
  | cons g headers ih =>
    obtain ⟨_, _, te, mid, hrest, _⟩ := framingLoop_cons h
    rw [List.forall_mem_cons]
    refine ⟨?_, ih hrest⟩
    intro hg
    rw [framingLoop] at h
    split at h
    · cases h
    · split at h
      · split at h
        · cases h
        · rename_i hcodings
          rw [Bool.not_eq_true'] at hcodings
          exact Bool.eq_true_of_not_eq_false hcodings
      · rename_i hte
        exact absurd hg hte

theorem isChunkedTransfer_of_accepted (h : acceptedCodings value = true) :
    isChunkedTransfer value = true := by
  rw [acceptedCodings, Bool.and_eq_true, List.getLast?_map, beq_iff_eq,
    Option.map_eq_some_iff] at h
  obtain ⟨⟨last, hlast, ht⟩, _⟩ := h
  rw [isChunkedTransfer, hlast]
  exact beq_iff_eq.2 ht

theorem isChunkedTransfer_iff (hsafe : isFramingSafe headers isRequest = true) :
    isChunkedTransfer (findHeader headers (utf16 "Transfer-Encoding")) =
      headers.any isTransferEncoding := by
  rw [findHeader]
  cases hf : headers.find? (fun h => equalsIgnoreCase h.1 (utf16 "Transfer-Encoding")) with
  | none =>
    have hall := List.find?_eq_none.1 hf
    have hany : headers.any isTransferEncoding = false := by
      rw [List.any_eq_false]
      exact hall
    rw [hany]
    rfl
  | some f =>
    have hmem := List.mem_of_find?_eq_some hf
    have hte : isTransferEncoding f = true := List.find?_some hf
    have hany : headers.any isTransferEncoding = true := List.any_eq_true.2 ⟨f, hmem, hte⟩
    rw [hany]
    dsimp only
    rw [isFramingSafe] at hsafe
    cases hl : framingLoop isRequest headers false [] with
    | none =>
      rw [hl] at hsafe
      cases hsafe
    | some r => exact isChunkedTransfer_of_accepted (framingLoop_codings hl f hmem hte)

theorem decodedBody_eq_some (r : Verdict × QByteArray × QByteArray) :
    decodedBody r = some body ↔ ∃ left, r = (.done, left, body) := by
  cases r with
  | mk v r =>
    obtain ⟨left, decoded⟩ := r
    cases v with
    | done =>
      simp only [decodedBody, Option.some.injEq, Prod.mk.injEq, true_and, exists_and_right,
        exists_eq']
    | more =>
      constructor
      · intro h
        cases h
      · intro h
        obtain ⟨_, h⟩ := h
        cases h
    | fail =>
      constructor
      · intro h
        cases h
      · intro h
        obtain ⟨_, h⟩ := h
        cases h

theorem transferEncoding_of_codings
    (h : (transferCodings headers).getLast?.any (equalsIgnoreCase · (utf16 "chunked")) = true) :
    headers.any isTransferEncoding = true := by
  cases hte : headers.any isTransferEncoding with
  | true => rfl
  | false =>
    have hnone : headers.filter isTransferEncoding = [] := by
      rw [List.filter_eq_nil_iff]
      exact List.any_eq_false.1 hte
    rw [transferCodings, hnone] at h
    cases h

theorem lengthElements_first (hfirst : (contentLengths headers).head? = some v)
    (he : e ∈ v.splitOn 0x2C) : trimWith isOwsChar e ∈ lengthElements headers :=
  List.mem_flatMap.2 ⟨v, List.mem_of_mem_head? hfirst, List.mem_map.2 ⟨e, he, rfl⟩⟩

theorem numeralValue_eq_some (h : numeralValue s = some n) :
    isNumeral s = true ∧ digitsFrom 10 0 s = some n := by
  rw [numeralValue, Option.ite_none_right_eq_some] at h
  exact h

theorem firstLength_eq (hsafe : isFramingSafe headers isRequest = true)
    (hfirst : (contentLengths headers).head? = some v)
    (hall : ∀ e ∈ lengthElements headers, numeralValue e = some n) :
    v.isEmpty = false ∧
      (QString.toLongLong v).getD 0 = if 0x2C ∈ v then 0 else (n : Int) := by
  have hnum (w : QString) (hw : w ∈ contentLengths headers) (e : QString)
      (he : e ∈ w.splitOn 0x2C) : isNumeral (trimWith isOwsChar e) = true := by
    exact (numeralValue_eq_some
      (hall _ (List.mem_flatMap.2 ⟨w, hw, List.mem_map.2 ⟨e, he, rfl⟩⟩))).1
  have hmem := List.mem_of_mem_head? hfirst
  constructor
  · rw [List.isEmpty_eq_false_iff]
    intro hnil
    have h := hnum v hmem [] (by rw [hnil]; exact List.mem_singleton.2 rfl)
    cases h
  · by_cases hcomma : 0x2C ∈ v
    · rw [if_pos hcomma, toLongLong_list hcomma]
      rfl
    · have hv : v ∈ v.splitOn 0x2C := by
        rw [List.splitOn_eq_singleton hcomma]
        exact List.mem_singleton.2 rfl
      have hnumeral := hnum v hmem v hv
      obtain ⟨cl, hcl⟩ := accepted_elements hsafe hnum
      obtain ⟨htext, _, m, hm, hc⟩ := hcl v hmem v hv
      have hn := (numeralValue_eq_some (hall _ (lengthElements_first hfirst hv))).2
      rw [htext, hm, Option.some.injEq] at hn
      rw [if_neg hcomma, QString.toLongLong, trimmed_of_numeral hnumeral, htext,
        ← hn, ← Option.getD_some (a := (m : Int)) (b := 0), ← hc, QString.toLongLong]
      rw [← htext, trimmed_numeral hnumeral]

def ReadsAsEmpty (headers : List Header) (follow : QByteArray) : Prop :=
  if headers.any isTransferEncoding then ∃ left, availableReader follow [] = (.done, left, [])
  else if (findHeader headers contentLengthName).isEmpty then follow = []
  else (QString.toLongLong (findHeader headers contentLengthName)).getD 0 = 0

theorem bodyOf_eq_empty (hsafe : isFramingSafe headers false = true)
    (hlate : late ≤ follow.length) :
    bodyOf headers follow late = some [] ↔ ReadsAsEmpty headers follow := by
  rw [bodyOf, ReadsAsEmpty, isChunkedTransfer_iff hsafe]
  split
  · exact decodedBody_eq_some _
  · split
    · constructor
      · intro h
        split at h
        · exact Option.some.inj h
        · cases h
      · intro h
        rw [h, List.length_nil] at hlate
        rw [h, if_pos (by omega)]
    · dsimp only
      generalize (QString.toLongLong (findHeader headers contentLengthName)).getD 0 = n
      constructor
      · intro h
        split_ifs at h with hn hle
        · have hlen := congrArg List.length (Option.some.inj h)
          rw [List.length_take, List.length_nil] at hlen
          omega
      · intro h
        rw [h, if_neg (by omega), Int.toNat_zero, if_pos (Nat.zero_le _), List.take_zero]

theorem sizedBody_iff (v : QString) (body rest : QByteArray) :
    (let n : Int := if 0x2C ∈ v then 0 else body.length
      if n < 0 ∨ (kMaxResponseBody : Int) < n then none
      else if n.toNat ≤ (body ++ rest).length then some ((body ++ rest).take n.toNat)
      else none) = some body ↔
      body.length ≤ kMaxResponseBody ∧ (0x2C ∉ v ∨ body = []) := by
  by_cases hcomma : 0x2C ∈ v
  · have hlist : (0x2C ∉ v ∨ body = []) ↔ body = [] := by
      rw [or_iff_right (not_not.2 hcomma)]
    dsimp only
    rw [if_pos hcomma, if_neg (by omega), Int.toNat_zero, if_pos (Nat.zero_le _),
      List.take_zero, hlist, Option.some.injEq]
    constructor
    · intro h
      rw [← h]
      exact ⟨Nat.zero_le _, rfl⟩
    · intro h
      exact h.2.symm
  · have hle : body.length ≤ (body ++ rest).length := by
      rw [List.length_append]
      omega
    dsimp only
    rw [if_neg hcomma, Int.toNat_natCast, if_pos hle, List.take_left]
    constructor
    · intro h
      split_ifs at h with hn
      exact ⟨by omega, .inl hcomma⟩
    · intro h
      have := h.1
      rw [if_neg (by omega)]

theorem bodyOf_eq_body (hsafe : isFramingSafe headers false = true)
    (hends : endsAtHead false status = false)
    (hframed : MessageBody false status headers follow body rest) :
    bodyOf headers follow late = some body ↔
      if headers.any isTransferEncoding then
        ∃ b : ChunkedBody, follow = b.bytes ++ rest ∧ body = b.decoded ∧ b.Admitted
      else
        match (contentLengths headers).head? with
        | some v => body.length ≤ kMaxResponseBody ∧ (0x2C ∉ v ∨ body = [])
        | none => late ≤ kMaxCloseDelimitedBytes := by
  rw [bodyOf, isChunkedTransfer_iff hsafe]
  cases hframed with
  | none h =>
    rw [h] at hends
    cases hends
  | chunked b _ hcodings =>
    rw [transferEncoding_of_codings hcodings, if_pos rfl, if_pos rfl, decodedBody_eq_some,
      b.done_iff]
    constructor
    · intro h
      exact ⟨b, rfl, rfl, h⟩
    · intro h
      obtain ⟨b', hbytes, hdecoded, hsmall⟩ := h
      rw [← b.done_iff rest, hbytes, hdecoded]
      exact (b'.done_iff rest).2 hsmall
  | coded _ hte _ =>
    rw [hte, if_pos rfl, if_pos rfl, decodedBody_eq_some]
    constructor
    · intro h
      obtain ⟨left, h⟩ := h
      have hlt := availableReader_done_lt _ h
      rw [List.length_nil] at hlt
      omega
    · intro h
      obtain ⟨b, hbytes, hdecoded, _⟩ := h
      have hlt := b.decoded_lt
      rw [List.append_nil] at hbytes
      rw [← hdecoded, ← hbytes] at hlt
      omega
  | sized _ hte hne hall =>
    cases hfirst : (contentLengths headers).head? with
    | none => exact absurd (List.head?_eq_none_iff.1 hfirst) hne
    | some v =>
      obtain ⟨hempty, hlength⟩ := firstLength_eq hsafe hfirst hall
      rw [findHeader_contentLength, hfirst, Option.getD_some, hempty, hlength, hte]
      simp only [Bool.false_eq_true, ↓reduceIte]
      exact sizedBody_iff v body rest
  | close _ hte hcl =>
    rw [findHeader_contentLength, hcl, hte]
    simp only [Bool.false_eq_true, ↓reduceIte, List.head?_nil, Option.getD_none, List.isEmpty_nil,
      Option.ite_none_right_eq_some, and_true]

theorem MessageBody.body_nil (h : MessageBody isHead status headers follow body rest)
    (hends : endsAtHead isHead status = true) : body = [] := by
  cases h with
  | none => rfl
  | chunked _ h =>
    rw [h] at hends
    cases hends
  | coded h =>
    rw [h] at hends
    cases hends
  | sized h =>
    rw [h] at hends
    cases hends
  | close h =>
    rw [h] at hends
    cases hends

theorem take_eq_nil_iff {follow : QByteArray} (hk : ReadsHead socket len k)
    (hle : k ≤ len + follow.length) : follow.take (k - len) = [] ↔ IsCut socket len := by
  have hcomplete := hk.complete
  rw [← List.length_eq_zero_iff, List.length_take]
  constructor
  · intro h
    obtain rfl : k = len := by omega
    exact hk.cut
  · intro h
    have := hk.first len h (Nat.le_refl _)
    omega

theorem late_iff (hk : ReadsHead socket len k) (total cap : Nat) :
    total - k ≤ cap ↔ ∀ c, IsCut socket c → len ≤ c → total - c ≤ cap := by
  constructor
  · intro h c hc hle
    have := hk.first c hc hle
    omega
  · intro h
    exact h k hk.cut hk.complete

/-- What an origin sends: interim heads, the final one, and the rest. -/
structure Upstream (isHead : Bool) where
  interims : List ResponseHead
  final : ResponseHead
  follow : QByteArray
  body : QByteArray
  rest : QByteArray
  interim : ∀ h ∈ interims, isInterim h.status = true
  notInterim : isInterim final.status = false
  safe : isFramingSafe final.headers false = true
  framed : MessageBody isHead final.status final.headers follow body rest

namespace Upstream

def bytes (m : Upstream isHead) : QByteArray :=
  m.interims.flatMap ResponseHead.bytes ++ (m.final.bytes ++ m.follow)

/-- The final response is returned and its body ends where the message does. -/
def EndsRight (m : Upstream isHead) (result : Option HttpResponse) : Prop :=
  ∃ resp, result = some resp ∧
    if m.final.status = 101 then { resp with body := [] } = m.final.response []
    else resp = m.final.response m.body

/-- The body is within the limits, and its length is not given by a list. -/
def BodySuits (m : Upstream isHead) (socket : List QByteArray) : Prop :=
  if m.final.headers.any isTransferEncoding then
    ∃ b : ChunkedBody, m.follow = b.bytes ++ m.rest ∧ m.body = b.decoded ∧ b.Admitted
  else
    match (contentLengths m.final.headers).head? with
    | some v => m.body.length ≤ kMaxResponseBody ∧ (0x2C ∉ v ∨ m.body = [])
    | none => ∀ c, IsCut socket c → m.final.bytes.length ≤ c →
        socket.flatten.length - c ≤ kMaxCloseDelimitedBytes

def Suits (m : Upstream isHead) (socket : List QByteArray) : Prop :=
  m.interims = [] ∧ m.final.fields ≠ [] ∧ HeadFits socket 0 m.final.bytes.length ∧
    if m.final.status = 101 then True
    else if m.final.status = 204 ∨ m.final.status = 304 then IsCut socket m.final.bytes.length
    else if isHead then ReadsAsEmpty m.final.headers m.follow
    else m.BodySuits socket

theorem isBodiless_iff (m : Upstream isHead) :
    isBodiless m.final.status = true ↔
      m.final.status = 101 ∨ m.final.status = 204 ∨ m.final.status = 304 := by
  have hn := m.notInterim
  rw [isInterim, Bool.and_eq_false_iff, Bool.and_eq_false_iff, decide_eq_false_iff_not,
    decide_eq_false_iff_not, bne_eq_false_iff_eq] at hn
  simp only [isBodiless, Bool.or_eq_true, Bool.and_eq_true, beq_iff_eq, decide_eq_true_eq]
  omega

theorem interim_taken (m : Upstream isHead) (h : m.interims ≠ [])
    (hstream : socket.flatten = m.bytes) : ¬ m.EndsRight ((readResponse socket).map Prod.fst) := by
  intro hright
  obtain ⟨resp, hresp, hend⟩ := hright
  cases hi : m.interims with
  | nil => exact h hi
  | cons g interims =>
    have hg := m.interim g (by rw [hi]; exact List.mem_cons_self)
    have hfirst : socket.flatten = g.bytes ++
        (interims.flatMap ResponseHead.bytes ++ (m.final.bytes ++ m.follow)) := by
      rw [hstream, bytes, hi, List.flatMap_cons, List.append_assoc]
    have hstatus : resp.statusCode = m.final.status := by
      split at hend
      · exact congrArg HttpResponse.statusCode hend
      · exact congrArg HttpResponse.statusCode hend
    by_cases hfit : HeadFits socket 0 g.bytes.length
    · obtain ⟨k, _, _, hread⟩ := readResponse_head g hfirst hfit
      rw [hresp] at hread
      have hcode : resp.statusCode = g.status := by
        split at hread
        · cases hread
        · split at hread
          · cases hread
            rfl
          · split at hread
            · cases hread
            · obtain ⟨body, _, he⟩ := Option.map_eq_some_iff.1 hread.symm
              rw [← he]
              rfl
      have heq : g.status = m.final.status := Int.natCast_inj.1 (hcode.symm.trans hstatus)
      rw [heq, m.notInterim] at hg
      cases hg
    · rw [readResponse_overflow g hfirst hfit] at hresp
      cases hresp

theorem endsRight_iff (m : Upstream isHead) (h101 : m.final.status ≠ 101)
    (r : Option QByteArray) :
    m.EndsRight (r.map m.final.response) ↔ r = some m.body := by
  constructor
  · intro h
    obtain ⟨resp, hr, hend⟩ := h
    obtain ⟨body, hbody, he⟩ := Option.map_eq_some_iff.1 hr
    rw [if_neg h101, ← he] at hend
    have hb : body = m.body := congrArg HttpResponse.body hend
    rw [hbody, hb]
  · intro h
    rw [h]
    exact ⟨_, rfl, by rw [if_neg h101]⟩

theorem body_of_bodiless (m : Upstream isHead)
    (h : m.final.status = 204 ∨ m.final.status = 304) : m.body = [] := by
  apply m.framed.body_nil
  rw [endsAtHead]
  rcases h with h | h
  · rw [h, Bool.or_assoc]
    exact Bool.or_true _
  · rw [h]
    exact Bool.or_true _

theorem not_endsAtHead (m : Upstream isHead) (h101 : m.final.status ≠ 101)
    (h : ¬ (m.final.status = 204 ∨ m.final.status = 304)) :
    endsAtHead false m.final.status = false := by
  have hn := m.notInterim
  rw [isInterim, Bool.and_eq_false_iff, Bool.and_eq_false_iff, decide_eq_false_iff_not,
    decide_eq_false_iff_not, bne_eq_false_iff_eq] at hn
  simp only [endsAtHead, Bool.false_or, Bool.or_eq_false_iff, Bool.and_eq_false_iff,
    decide_eq_false_iff_not, beq_eq_false_iff_ne]
  omega

theorem bodiless_right_iff (m : Upstream isHead) (h101 : m.final.status ≠ 101)
    (h : m.final.status = 204 ∨ m.final.status = 304)
    (hk : ReadsHead socket m.final.bytes.length k)
    (hle : k ≤ (m.final.bytes ++ m.follow).length) :
    m.EndsRight (some (m.final.response (m.follow.take (k - m.final.bytes.length)))) ↔
      IsCut socket m.final.bytes.length := by
  have hr := m.endsRight_iff h101 (some (m.follow.take (k - m.final.bytes.length)))
  rw [Option.map_some, m.body_of_bodiless h, Option.some.injEq] at hr
  rw [hr]
  apply take_eq_nil_iff hk
  rw [List.length_append] at hle
  exact hle

theorem bodyOf_iff (m : Upstream isHead) (h101 : m.final.status ≠ 101)
    (h : ¬ (m.final.status = 204 ∨ m.final.status = 304))
    (hfinal : socket.flatten = m.final.bytes ++ m.follow)
    (hk : ReadsHead socket m.final.bytes.length k) :
    bodyOf m.final.headers m.follow ((m.final.bytes ++ m.follow).length - k) = some m.body ↔
      if isHead then ReadsAsEmpty m.final.headers m.follow else m.BodySuits socket := by
  have hcomplete := hk.complete
  cases isHead with
  | true =>
    rw [if_pos rfl, m.framed.body_nil rfl]
    apply bodyOf_eq_empty m.safe
    rw [List.length_append]
    omega
  | false =>
    rw [if_neg Bool.false_ne_true, bodyOf_eq_body m.safe (m.not_endsAtHead h101 h) m.framed,
      BodySuits, hfinal]
    cases (contentLengths m.final.headers).head? with
    | none => simp only [late_iff hk]
    | some v => exact Iff.rfl

theorem final_right_iff (m : Upstream isHead) (hfields : m.final.fields ≠ [])
    (hfinal : socket.flatten = m.final.bytes ++ m.follow)
    (hfit : HeadFits socket 0 m.final.bytes.length) :
    m.EndsRight ((readResponse socket).map Prod.fst) ↔
      if m.final.status = 101 then True
      else if m.final.status = 204 ∨ m.final.status = 304 then IsCut socket m.final.bytes.length
      else if isHead then ReadsAsEmpty m.final.headers m.follow
      else m.BodySuits socket := by
  obtain ⟨k, hk, hle, hread⟩ := readResponse_head m.final hfinal hfit
  have hsafe : ¬ true = false := nofun
  rw [hread, m.safe, if_neg hfields, if_neg hsafe]
  by_cases h101 : m.final.status = 101
  · rw [if_pos h101, if_pos (m.isBodiless_iff.2 (.inl h101)), iff_true]
    exact ⟨_, rfl, by rw [if_pos h101]; rfl⟩
  · rw [if_neg h101]
    by_cases hbodiless : m.final.status = 204 ∨ m.final.status = 304
    · rw [if_pos hbodiless, if_pos (m.isBodiless_iff.2 (.inr hbodiless))]
      exact m.bodiless_right_iff h101 hbodiless hk hle
    · have hcoded : ¬ isBodiless m.final.status = true := by
        rw [m.isBodiless_iff]
        exact fun h => h.elim h101 hbodiless
      rw [if_neg hbodiless, if_neg hcoded, m.endsRight_iff h101]
      exact m.bodyOf_iff h101 hbodiless hfinal hk

theorem not_endsRight_none (m : Upstream isHead) : ¬ m.EndsRight none := by
  intro h
  obtain ⟨_, h, _⟩ := h
  cases h

theorem response_framing_iff (m : Upstream isHead) (socket : List QByteArray)
    (hstream : socket.flatten = m.bytes) :
    m.EndsRight ((readResponse socket).map Prod.fst) ↔ m.Suits socket := by
  by_cases hinterim : m.interims = []
  · have hfinal : socket.flatten = m.final.bytes ++ m.follow := by
      rw [hstream, bytes, hinterim, List.flatMap_nil, List.nil_append]
    by_cases hfit : HeadFits socket 0 m.final.bytes.length
    · by_cases hfields : m.final.fields = []
      · obtain ⟨k, _, _, hread⟩ := readResponse_head m.final hfinal hfit
        rw [hread, if_pos hfields]
        exact ⟨fun h => absurd h m.not_endsRight_none, fun h => absurd hfields h.2.1⟩
      · rw [m.final_right_iff hfields hfinal hfit, Suits]
        simp only [hinterim, ne_eq, hfields, not_false_eq_true, hfit, true_and]
    · rw [readResponse_overflow m.final hfinal hfit]
      exact ⟨fun h => absurd h m.not_endsRight_none, fun h => absurd h.2.2.1 hfit⟩
  · constructor
    · intro h
      exact absurd h (m.interim_taken hinterim hstream)
    · intro h
      exact absurd h.1 hinterim

end Upstream

theorem nil_blank : ∀ c ∈ ([] : QByteArray), isOws c = true :=
  fun _ hc => absurd hc List.not_mem_nil

def smallHead (code reason name value : String)
    (hcode : (latin1 code).length = 3 ∧ isNumeral (fromLatin1 (latin1 code)) = true)
    (hreason : (latin1 reason).all (fun c => decide (c ≠ 0x0D ∧ c ≠ 0x0A ∧ c ≠ 0x00)) = true)
    (hname : latin1 name ≠ [] ∧ (latin1 name).all isTokenChar = true)
    (hvalue : trimWith isOws (latin1 value) = latin1 value ∧
      (latin1 value).all (fun c => decide (c ≠ 0x0D ∧ c ≠ 0x0A ∧ c ≠ 0x00)) = true) :
    ResponseHead where
  version := latin1 "HTTP/1.1"
  code := latin1 code
  reason := latin1 reason
  fields := [{
    name := latin1 name
    before := latin1 " "
    value := latin1 value
    after := []
    named := hname.1
    token := List.all_eq_true.1 hname.2
    blankBefore := space_blank
    blankAfter := nil_blank
    trimmed := hvalue.1
    clean := forall_mem_of_all hvalue.2 }]
  versioned := by decide
  digits := hcode.1
  numeral := hcode.2
  clean := forall_mem_of_all hreason

def okHead : ResponseHead :=
  smallHead "200" "OK" "Content-Length" "2" (by decide) (by decide) (by decide) (by decide)

def hintsHead : ResponseHead :=
  smallHead "103" "Early Hints" "Link" "/x" (by decide) (by decide) (by decide) (by decide)

theorem okHead_framed (rest : QByteArray) :
    MessageBody false okHead.status okHead.headers (latin1 "hi" ++ rest) (latin1 "hi") rest :=
  .sized (by decide) (by decide) (by decide) (by decide)

def sizedAnswer : Upstream false where
  interims := []
  final := okHead
  follow := latin1 "hiHTTP"
  body := latin1 "hi"
  rest := latin1 "HTTP"
  interim := fun _ h => (nomatch h)
  notInterim := by decide
  safe := by decide
  framed := okHead_framed (latin1 "HTTP")

def hintedAnswer : Upstream false where
  interims := [hintsHead]
  final := okHead
  follow := latin1 "hi"
  body := latin1 "hi"
  rest := []
  interim := by decide
  notInterim := by decide
  safe := by decide
  framed := okHead_framed []

theorem sizedAnswer_ends_right :
    sizedAnswer.EndsRight
      ((readResponse [okHead.bytes ++ latin1 "h", latin1 "iHTTP"]).map Prod.fst) := by
  apply (Upstream.response_framing_iff sizedAnswer [okHead.bytes ++ latin1 "h", latin1 "iHTTP"]
    (by decide)).2
  refine ⟨rfl, List.cons_ne_nil _ _, ?_, ?_⟩
  · intro c hc hover
    have hle := hc.le
    have hmax : kMaxHeaderBytes = 65536 := rfl
    have hlen : [okHead.bytes ++ latin1 "h", latin1 "iHTTP"].flatten.length = 44 := by
      decide
    omega
  · rw [if_neg (by decide), if_neg (by decide), if_neg Bool.false_ne_true, Upstream.BodySuits,
      if_neg (by decide)]
    exact ⟨by decide, .inl (by decide)⟩

/-- The interim response is returned, with the final one as body. -/
theorem interim_response_taken :
    (readResponse [hintedAnswer.bytes]).map Prod.fst =
        some (hintsHead.response (okHead.bytes ++ latin1 "hi")) ∧
      ¬ hintedAnswer.EndsRight ((readResponse [hintedAnswer.bytes]).map Prod.fst) := by
  have hread : (readResponse [hintedAnswer.bytes]).map Prod.fst =
      some (hintsHead.response (okHead.bytes ++ latin1 "hi")) := by decide
  refine ⟨hread, ?_⟩
  rw [hread]
  intro h
  obtain ⟨resp, hresp, hend⟩ := h
  rw [if_neg (by decide), ← Option.some.inj hresp] at hend
  exact absurd (congrArg HttpResponse.statusCode hend) (by decide)

end Nullock.Proxy

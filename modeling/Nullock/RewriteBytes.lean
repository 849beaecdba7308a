import Nullock.RewriteLengths

namespace Nullock.Proxy
open ScopeLogic HttpLogic SessionRules SessionRulesLogic

def BytesAgree (bytes : QByteArray) : Prop :=
  LengthsAgree (parseRequestBytes bytes [] 80 false).headers
    (parseRequestBytes bytes [] 80 false).body

structure PlainKey (key : QString) : Prop where
  noLf : 0x0A ∉ key
  noColon : 0x3A ∉ key
  trimmed : QString.trimmed key = key

structure WritableField (f : Header) : Prop where
  name : PlainKey f.1
  valueLf : 0x0A ∉ f.2
  blanks : equalsIgnoreCase f.1 contentLengthName = true →
    QByteArray.trimmed (toLatin1 f.2) = trimWith isOws (toLatin1 f.2)

structure Writable (req : ProxiedRequest) : Prop where
  method : 0x0A ∉ req.method
  path : 0x0A ∉ req.path
  version : 0x0A ∉ req.httpVersion
  fields : ∀ f ∈ req.headers, WritableField f

def readBack (f : Header) : Option Header :=
  if f.1 = [] then none
  else some (fromLatin1 (toLatin1 f.1), fromLatin1 (QByteArray.trimmed (toLatin1 f.2)))

section Reading

theorem notMem_toLatin1 {d : UInt8} (hd : d ≠ 0x3F) (h : d.toUInt16 ∉ s) : d ∉ toLatin1 s := by
  intro hm
  obtain ⟨c, hc, he⟩ := List.mem_map.1 hm
  rw [(toLatin1Char_eq_iff hd).1 he] at hc
  exact h hc

theorem lf_toLatin1 (h : 0x0A ∉ s) : 0x0A ∉ toLatin1 s := notMem_toLatin1 (by decide) h

theorem colon_toLatin1 (h : 0x3A ∉ s) : 0x3A ∉ toLatin1 s := notMem_toLatin1 (by decide) h

theorem chopCr_append (h : a.getLast? = some c) (hc : c ≠ 0x0D) (s : QByteArray) :
    chopCr (a ++ s) = a ++ chopCr s := by
  cases s with
  | nil =>
    have hnil : chopCr [] = [] := rfl
    rw [hnil, List.append_nil, chopCr, h, if_neg]
    intro he
    exact hc (Option.some.inj he)
  | cons d s =>
    rw [chopCr, chopCr, List.getLast?_append_of_ne_nil _ (List.cons_ne_nil d s)]
    split
    · rw [List.dropLast_append_of_ne_nil (List.cons_ne_nil d s)]
    · rfl

theorem trimmed_chopCr (s : QByteArray) :
    QByteArray.trimmed (chopCr s) = QByteArray.trimmed s := by
  rw [chopCr]
  split
  · rename_i hl
    obtain ⟨t, ht⟩ := List.getLast?_eq_some_iff.1 hl
    have hblank : ∀ c ∈ ([0x0D] : QByteArray), isAsciiSpace c = true :=
      forall_mem_of_all (by decide)
    rw [ht, List.dropLast_concat, QByteArray.trimmed, QByteArray.trimmed, trimWith_concat hblank]
  · rfl

theorem trimmed_wire (h : QString.trimmed s = s) :
    QString.trimmed (fromLatin1 (toLatin1 s)) = fromLatin1 (toLatin1 s) := by
  have hchar (c : UInt16) (hc : isSpace c = false) :
      isSpace (toLatin1Char c).toUInt16 = false := by
    by_cases hle : c ≤ 0xFF
    · rw [toUInt16_toLatin1Char hle]
      exact hc
    · rw [toLatin1Char, if_neg hle]
      rfl
  obtain ⟨hfirst, hlast⟩ := trimWith_ends isSpace s
  rw [QString.trimmed] at h
  rw [h] at hfirst hlast
  rw [fromLatin1, toLatin1, List.map_map, QString.trimmed]
  apply trimWith_eq_self
  · intro d hd
    rw [List.head?_map, Option.map_eq_some_iff] at hd
    obtain ⟨c, hc, he⟩ := hd
    rw [← he]
    exact hchar c (hfirst c hc)
  · intro d hd
    rw [List.getLast?_map, Option.map_eq_some_iff] at hd
    obtain ⟨c, hc, he⟩ := hd
    rw [← he]
    exact hchar c (hlast c hc)

theorem splitField_text (h : PlainKey name) (value : QByteArray) :
    splitField (toLatin1 name ++ (latin1 ": " ++ value)) =
      if name = [] then none
      else some (fromLatin1 (toLatin1 name), fromLatin1 (QByteArray.trimmed value)) := by
  have hcolon : indexOf (latin1 ":") (toLatin1 name ++ (latin1 ": " ++ value)) =
      some (toLatin1 name).length :=
    indexOf_singleton (colon_toLatin1 h.noColon) (0x20 :: value)
  have hdrop : (toLatin1 name ++ (latin1 ": " ++ value)).drop ((toLatin1 name).length + 1) =
      0x20 :: value := by
    rw [← List.drop_drop, List.drop_left]
    rfl
  have hblank : ∀ c ∈ ([0x20] : QByteArray), isAsciiSpace c = true :=
    forall_mem_of_all (by decide)
  have htrim : QByteArray.trimmed (0x20 :: value) = QByteArray.trimmed value :=
    trimWith_prepend hblank value
  rw [splitField, hcolon]
  dsimp only
  rw [List.take_left, hdrop, htrim, trimmed_wire h.trimmed]
  have hlen : (toLatin1 name).length = 0 ↔ name = [] := by
    rw [toLatin1, List.length_map, List.length_eq_zero_iff]
  simp only [hlen]

theorem WritableField.parse (h : WritableField f) : parseFieldLine (fieldText f) = readBack f := by
  have hsep : (toLatin1 f.1 ++ latin1 ": ").getLast? = some 0x20 := by
    rw [List.getLast?_append_of_ne_nil _ (by decide)]
    rfl
  rw [parseFieldLine, fieldText, ← List.append_assoc, chopCr_append hsep (by decide),
    List.append_assoc, splitField_text h.name, trimmed_chopCr]
  rfl

theorem WritableField.parse_cr (h : WritableField f) :
    parseFieldLine (fieldText f ++ [0x0D]) = readBack f := by
  rw [parseFieldLine, chopCr_concat, fieldText, splitField_text h.name]
  rfl

theorem WritableField.text_lf (h : WritableField f) : 0x0A ∉ fieldText f := by
  have hsep : 0x0A ∉ latin1 ": " := by decide
  rw [fieldText, List.mem_append, List.mem_append, not_or, not_or]
  exact ⟨lf_toLatin1 h.name.noLf, hsep, lf_toLatin1 h.valueLf⟩

theorem filterMap_headLines {fields : List Header} (hf : WritableField f)
    (hall : ∀ g ∈ fields, WritableField g) :
    ((headLines (fieldText f) (fields.map fieldText)).splitOn 0x0A).filterMap parseFieldLine =
      (f :: fields).filterMap readBack := by
  induction fields generalizing f with
  | nil =>
    rw [List.map_nil, headLines_nil, List.splitOn_eq_singleton hf.text_lf, List.filterMap_cons,
      List.filterMap_cons, hf.parse]
    rfl
  | cons g fields ih =>
    rw [List.forall_mem_cons] at hall
    rw [List.map_cons, splitOn_headLines_cons hf.text_lf, List.filterMap_cons, hf.parse_cr,
      ih hall.1 hall.2, List.filterMap_cons (a := f)]

theorem Writable.line_lf (h : Writable req) : 0x0A ∉ sentLine req.toHttpRequest := by
  have hspace : 0x0A ∉ latin1 " " := by decide
  rw [sentLine, List.mem_append, List.mem_append, List.mem_append, List.mem_append, not_or, not_or,
    not_or, not_or]
  exact ⟨⟨⟨⟨lf_toLatin1 h.method, hspace⟩, lf_toLatin1 h.path⟩, hspace⟩, lf_toLatin1 h.version⟩

theorem Writable.sent (h : Writable req) : ∀ f ∈ sentFields req.headers, WritableField f :=
  fun f hf => h.fields f (List.mem_filter.1 hf).1

theorem splitHead_serialize {req : HttpRequest} (hline : 0x0A ∉ sentLine req)
    (hfields : ∀ f ∈ sentFields req.headers, 0x0A ∉ fieldText f) :
    splitHead (serializeRequestForOrigin req) =
      (headLines (sentLine req) ((sentFields req.headers).map fieldText), req.body) := by
  have hlines : ∀ l ∈ (sentFields req.headers).map fieldText, l ≠ [] ∧ 0x0A ∉ l := by
    intro l hl
    obtain ⟨f, hf, he⟩ := List.mem_map.1 hl
    rw [← he]
    exact ⟨fieldText_ne_nil f, hfields f hf⟩
  have hblank := indexOf_blank_lines hline hlines req.body
  have hdrop (a : QByteArray) : (a ++ (crlf ++ (crlf ++ req.body))).drop (a.length + 4) =
      req.body := by
    rw [← List.drop_drop, List.drop_left]
    rfl
  rw [serializeRequestForOrigin_eq, headText_eq, splitHead, hblank]
  dsimp only
  rw [List.take_left, hdrop]

theorem Writable.splitHead (h : Writable req) :
    splitHead (serializeRequestForOrigin req.toHttpRequest) =
      (headLines (sentLine req.toHttpRequest) ((sentFields req.headers).map fieldText),
        req.body) :=
  splitHead_serialize h.line_lf (fun f hf => (h.sent f hf).text_lf)

theorem Writable.readsBack (h : Writable req) (host : QString) (port : Nat) (tls : Bool) :
    (parseRequestBytes (serializeRequestForOrigin req.toHttpRequest) host port tls).headers =
        (sentFields req.headers).filterMap readBack ∧
      (parseRequestBytes (serializeRequestForOrigin req.toHttpRequest) host port tls).body =
        req.body := by
  rw [parseRequestBytes, h.splitHead]
  refine ⟨?_, rfl⟩
  dsimp only
  have hsent := h.sent
  cases hfields : sentFields req.headers with
  | nil =>
    rw [List.map_nil, headLines_nil, List.splitOn_eq_singleton h.line_lf]
    rfl
  | cons f fields =>
    rw [hfields, List.forall_mem_cons] at hsent
    rw [List.map_cons, splitOn_headLines_cons h.line_lf, List.drop_succ_cons, List.drop_zero]
    exact filterMap_headLines hsent.1 hsent.2

end Reading

section Lengths

def wire (s : QString) : QString := fromLatin1 (toLatin1 s)

theorem numeralValue_wire (e : QString) : numeralValue (wire e) = numeralValue e := by
  have h := numberOf_toLatin1 e
  rw [numberOf] at h
  exact h

theorem wire_eq_map (s : QString) : wire s = s.map (fun c => (toLatin1Char c).toUInt16) := by
  rw [wire, fromLatin1, toLatin1, List.map_map]
  rfl

theorem isOwsChar_wire (c : UInt16) : isOwsChar (toLatin1Char c).toUInt16 = isOwsChar c := by
  rw [isOwsChar_toUInt16, isOws_toLatin1Char]

theorem comma_wire (c : UInt16) : ((toLatin1Char c).toUInt16 == 0x2C) = (c == 0x2C) := by
  rw [Bool.eq_iff_iff, beq_iff_eq, beq_iff_eq]
  have hc : (toLatin1Char c).toUInt16 = 0x2C ↔ toLatin1Char c = 0x2C := by
    constructor
    · intro h
      have h8 := congrArg UInt16.toUInt8 h
      rw [UInt8.toUInt8_toUInt16] at h8
      exact h8
    · intro h
      rw [h]
      rfl
  rw [hc, toLatin1Char_eq_iff (by decide)]
  rfl

theorem valueElements_wire (v : QString) : valueElements (wire v) = (valueElements v).map wire := by
  rw [valueElements, valueElements, wire_eq_map, splitOn_map comma_wire, List.map_map,
    List.map_map]
  apply List.map_congr_left
  intro e _
  rw [Function.comp_apply, trimWith_map isOwsChar_wire, Function.comp_apply, wire_eq_map]

theorem valueElements_trim (v : QString) :
    valueElements (trimWith isOwsChar v) = valueElements v := by
  rw [valueElements, valueElements]
  exact splitOn_trimWith rfl v

theorem saysLength_readBack
    (h : QByteArray.trimmed (toLatin1 v) = trimWith isOws (toLatin1 v)) :
    SaysLength n (fromLatin1 (QByteArray.trimmed (toLatin1 v))) ↔ SaysLength n v := by
  have hv : fromLatin1 (trimWith isOws (toLatin1 v)) = trimWith isOwsChar (wire v) := by
    rw [fromLatin1, ← trimWith_map isOwsChar_toUInt16, wire, fromLatin1]
  rw [h, hv, SaysLength, valueElements_trim, valueElements_wire, List.forall_mem_map]
  simp only [numeralValue_wire]
  rfl

theorem contentLengths_readBack {fields : List Header} (hall : ∀ f ∈ fields, WritableField f) :
    contentLengths (fields.filterMap readBack) = (contentLengths fields).map
      (fun v => fromLatin1 (QByteArray.trimmed (toLatin1 v))) := by
  induction fields with
  | nil => rfl
  | cons f fields ih =>
    rw [List.forall_mem_cons] at hall
    have hrest := ih hall.2
    rw [List.filterMap_cons, readBack, contentLengths_cons]
    by_cases hname : f.1 = []
    · have hempty : equalsIgnoreCase f.1 contentLengthName = false := by
        rw [hname]
        rfl
      rw [if_pos hname, hempty, if_neg Bool.false_ne_true]
      exact hrest
    · rw [if_neg hname]
      dsimp only
      rw [contentLengths_cons, equalsIgnoreCase_wire contentLength_wireSafe, hrest]
      split
      · rfl
      · rfl

theorem mem_contentLengths (h : v ∈ contentLengths headers) :
    ∃ f ∈ headers, equalsIgnoreCase f.1 contentLengthName = true ∧ f.2 = v := by
  obtain ⟨f, hf, he⟩ := List.mem_map.1 h
  obtain ⟨hmem, hname⟩ := List.mem_filter.1 hf
  exact ⟨f, hmem, hname, he⟩

theorem Writable.bytesAgree_iff (h : Writable req) :
    BytesAgree (serializeRequestForOrigin req.toHttpRequest) ↔
      LengthsAgree req.headers req.body := by
  obtain ⟨hheaders, hbody⟩ := h.readsBack [] 80 false
  have hsent : contentLengths (sentFields req.headers) = contentLengths req.headers := by
    apply contentLengths_filter
    intro f hf
    rw [contentLength_not_hop hf]
    rfl
  rw [BytesAgree, LengthsAgree, hheaders, hbody, contentLengths_readBack h.sent, hsent,
    List.forall_mem_map, LengthsAgree]
  apply forall₂_congr
  intro v hv
  obtain ⟨f, hf, hname, he⟩ := mem_contentLengths hv
  apply saysLength_readBack
  rw [← he]
  exact (h.fields f hf).blanks hname

end Lengths

section Parsing

theorem notMem_fromLatin1 {d : UInt16} (h : d.toUInt8 ∉ s) : d ∉ fromLatin1 s := by
  intro hm
  obtain ⟨c, hc, he⟩ := List.mem_map.1 hm
  have h8 := congrArg UInt16.toUInt8 he
  rw [UInt8.toUInt8_toUInt16] at h8
  rw [h8] at hc
  exact h hc

theorem lf_fromLatin1 (h : 0x0A ∉ s) : 0x0A ∉ fromLatin1 s := notMem_fromLatin1 h

theorem colon_fromLatin1 (h : 0x3A ∉ s) : 0x3A ∉ fromLatin1 s := notMem_fromLatin1 h

theorem isAsciiSpace_of_isOws (h : isOws c = true) : isAsciiSpace c = true := by
  rw [isOws, Bool.or_eq_true, beq_iff_eq, beq_iff_eq] at h
  rcases h with h | h
  · rw [h]
    rfl
  · rw [h]
    rfl

theorem trimOws_trimmed (s : QByteArray) :
    trimWith isOws (QByteArray.trimmed s) = QByteArray.trimmed s := by
  obtain ⟨hfirst, hlast⟩ := trimWith_ends isAsciiSpace s
  have hows (c : UInt8) (hc : isAsciiSpace c = false) : isOws c = false := by
    rw [← Bool.not_eq_true]
    intro ho
    rw [isAsciiSpace_of_isOws ho] at hc
    cases hc
  apply trimWith_eq_self
  · intro c hc
    exact hows c (hfirst c hc)
  · intro c hc
    exact hows c (hlast c hc)

theorem splitField_writable (h : splitField l = some f) (hl : 0x0A ∉ l) : WritableField f := by
  rw [splitField] at h
  split at h
  · cases h
  · rename_i c hc
    split at h
    · cases h
    · rw [Option.some.injEq] at h
      subst h
      have hname : 0x0A ∉ l.take c := fun hm => hl (List.mem_of_mem_take hm)
      have hvalue : 0x0A ∉ l.drop (c + 1) := fun hm => hl (List.mem_of_mem_drop hm)
      refine ⟨⟨?_, ?_, trimWith_idem isSpace _⟩, ?_, ?_⟩
      · intro hm
        exact lf_fromLatin1 hname (mem_of_mem_trimWith hm)
      · intro hm
        exact colon_fromLatin1 (not_mem_take_indexOf hc) (mem_of_mem_trimWith hm)
      · apply lf_fromLatin1
        intro hm
        exact hvalue (mem_of_mem_trimWith hm)
      · intro _
        rw [toLatin1_fromLatin1, trimOws_trimmed]
        exact trimWith_idem isAsciiSpace _

theorem parseRequestBytes_writable (raw : QByteArray) (host : QString) (port : Nat) (tls : Bool) :
    Writable (parseRequestBytes raw host port tls) := by
  rw [parseRequestBytes]
  generalize splitHead raw = parts
  obtain ⟨head, body⟩ := parts
  dsimp only
  have hline (l : QByteArray) (hl : l ∈ head.splitOn 0x0A) : 0x0A ∉ l :=
    not_mem_of_mem_splitOn hl
  have hfirst : 0x0A ∉ QByteArray.trimmed ((head.splitOn 0x0A).headD []) := by
    intro hm
    cases hs : head.splitOn 0x0A with
    | nil => exact absurd hs (List.splitOn_ne_nil _ _)
    | cons l ls =>
      rw [hs] at hm hline
      exact hline l List.mem_cons_self (mem_of_mem_trimWith hm)
  have hpart (i : Nat) : 0x0A ∉ fromLatin1
      (((QByteArray.trimmed ((head.splitOn 0x0A).headD [])).splitOn 0x20).getD i []) := by
    apply lf_fromLatin1
    intro hm
    rw [List.getD_eq_getElem?_getD] at hm
    cases hi : ((QByteArray.trimmed ((head.splitOn 0x0A).headD [])).splitOn 0x20)[i]? with
    | none =>
      rw [hi] at hm
      cases hm
    | some part =>
      rw [hi, Option.getD_some] at hm
      exact hfirst (mem_of_mem_splitOn (List.mem_of_getElem? hi) hm)
  have hif (b : Prop) [Decidable b] (s : QString) (hs : 0x0A ∉ s) :
      0x0A ∉ if b then s else [] := by
    split
    · exact hs
    · exact List.not_mem_nil
  refine ⟨hif _ _ (hpart 0), hif _ _ (hpart 1), hif _ _ (hpart 2), ?_⟩
  intro f hf
  obtain ⟨l, hl, hparse⟩ := List.mem_filterMap.1 hf
  apply splitField_writable hparse
  intro hm
  rw [chopCr] at hm
  have hlf := hline l (List.mem_of_mem_drop hl)
  split at hm
  · exact hlf ((List.dropLast_prefix l).subset hm)
  · exact hlf hm

end Parsing

section Injection
variable {L : TextLibrary} {headers : List Header}

theorem sanitize_chars (hc : c ∈ sanitizeHeaderValue v) : 0x20 ≤ c ∨ c = 0x09 := by
  have h := (List.mem_filter.1 hc).2
  rw [Bool.or_eq_true, decide_eq_true_eq, beq_iff_eq] at h
  exact h

theorem sanitize_lf (v : QString) : 0x0A ∉ sanitizeHeaderValue v := by
  intro hm
  rcases sanitize_chars hm with h | h
  · exact absurd h (by decide)
  · cases h

theorem sanitize_blanks (v : QString) :
    QByteArray.trimmed (toLatin1 (sanitizeHeaderValue v)) =
      trimWith isOws (toLatin1 (sanitizeHeaderValue v)) := by
  have hchar (c : UInt8) (hc : c ∈ toLatin1 (sanitizeHeaderValue v)) :
      isAsciiSpace c = isOws c := by
    obtain ⟨u, hu, he⟩ := List.mem_map.1 hc
    have hcontrol (d : UInt8) (hd : d ≠ 0x3F) (hlow : ¬ 0x20 ≤ d.toUInt16 ∧ d.toUInt16 ≠ 0x09) :
        c ≠ d := by
      intro hcd
      rw [hcd] at he
      rw [(toLatin1Char_eq_iff hd).1 he] at hu
      rcases sanitize_chars hu with h | h
      · exact hlow.1 h
      · exact hlow.2 h
    have hA := hcontrol 0x0A (by decide) (by decide)
    have hB := hcontrol 0x0B (by decide) (by decide)
    have hC := hcontrol 0x0C (by decide) (by decide)
    have hD := hcontrol 0x0D (by decide) (by decide)
    simp only [ne_eq, ← UInt8.toNat_inj, UInt8.reduceToNat] at hA hB hC hD
    rw [Bool.eq_iff_iff, isAsciiSpace, isOws]
    simp only [Bool.or_eq_true, Bool.and_eq_true, beq_iff_eq, decide_eq_true_eq, ← UInt8.toNat_inj,
      UInt8.le_iff_toNat_le, UInt8.reduceToNat]
    omega
  generalize toLatin1 (sanitizeHeaderValue v) = s at hchar
  have hdrop (t : QByteArray) (ht : ∀ c ∈ t, isAsciiSpace c = isOws c) :
      t.dropWhile isAsciiSpace = t.dropWhile isOws := by
    induction t with
    | nil => rfl
    | cons c t ih =>
      rw [List.forall_mem_cons] at ht
      rw [List.dropWhile_cons, List.dropWhile_cons, ht.1, ih ht.2]
  rw [QByteArray.trimmed, trimWith, trimWith, hdrop s hchar, List.rdropWhile, List.rdropWhile,
    hdrop]
  intro c hc
  exact hchar c ((List.dropWhile_suffix _).subset (List.mem_reverse.1 hc))

theorem injectHeader_writable (hall : ∀ f ∈ headers, WritableField f) (hkey : PlainKey key)
    (v : QString) :
    ∀ f ∈ injectHeader L key (sanitizeHeaderValue v) headers, WritableField f := by
  induction headers with
  | nil =>
    intro f hf
    rw [List.mem_singleton.1 hf]
    exact ⟨hkey, sanitize_lf v, fun _ => sanitize_blanks v⟩
  | cons g headers ih =>
    rw [List.forall_mem_cons] at hall
    rw [injectHeader]
    split
    · rw [List.forall_mem_cons]
      exact ⟨⟨hall.1.name, sanitize_lf v, fun _ => sanitize_blanks v⟩, hall.2⟩
    · rw [List.forall_mem_cons]
      exact ⟨hall.1, ih hall.2⟩

theorem updateCookie_writable (hall : ∀ f ∈ headers, WritableField f) {update : QString → QString}
    (hupdate : ∀ s, 0x0A ∉ s → 0x0A ∉ update s) :
    ∀ f ∈ updateCookie update headers, WritableField f := by
  induction headers with
  | nil =>
    intro f hf
    have hcookie : PlainKey (utf16 "Cookie") := ⟨by decide, by decide, by decide⟩
    have hlength : equalsIgnoreCase (utf16 "Cookie") contentLengthName ≠ true := by decide
    rw [List.mem_singleton.1 hf]
    exact ⟨hcookie, hupdate [] List.not_mem_nil, fun hname => absurd hname hlength⟩
  | cons g headers ih =>
    rw [List.forall_mem_cons] at hall
    rw [updateCookie]
    split
    · rename_i hname
      have hlength : equalsIgnoreCase g.1 contentLengthName = false :=
        equalsIgnoreCase_exclusive (by decide) hname
      rw [List.forall_mem_cons]
      refine ⟨⟨hall.1.name, hupdate g.2 hall.1.valueLf, ?_⟩, hall.2⟩
      intro h
      rw [hlength] at h
      cases h
    · rw [List.forall_mem_cons]
      exact ⟨hall.1, ih hall.2⟩

theorem not_mem_intercalate {d : UInt16} {parts : List QString} (hsep : d ∉ sep)
    (hall : ∀ s ∈ parts, d ∉ s) : d ∉ List.intercalate sep parts := by
  intro h
  rcases mem_intercalate h with h | ⟨s, hs, hd⟩
  · exact hsep h
  · exact hall s hs hd

theorem not_mem_injectCookieValue {d : UInt16} (hsep : d ∉ utf16 "; ") (heq : d ∉ utf16 "=")
    (hkey : d ∉ key) (hvalue : d ∉ value) (hcookies : d ∉ cookies) :
    d ∉ injectCookieValue L key value cookies := by
  have hpair : d ∉ key ++ utf16 "=" ++ value := by
    rw [List.mem_append, List.mem_append, not_or, not_or]
    exact ⟨⟨hkey, heq⟩, hvalue⟩
  have hsegment : ∀ s ∈ ((cookies.splitOn 0x3B).filter (fun seg => !seg.isEmpty)).map
      QString.trimmed, d ∉ s := by
    intro s hs hm
    obtain ⟨seg, hseg, he⟩ := List.mem_map.1 hs
    rw [← he] at hm
    exact hcookies (mem_of_mem_splitOn (List.mem_filter.1 hseg).1 (mem_of_mem_trimWith hm))
  rw [injectCookieValue]
  apply not_mem_intercalate hsep
  intro s hs
  have hpart : ∀ s ∈ (((cookies.splitOn 0x3B).filter (fun seg => !seg.isEmpty)).map
      QString.trimmed).map (fun s => if decide (L.caseFold (cookieName s) = L.caseFold key) = true
        then key ++ utf16 "=" ++ value else s), d ∉ s := by
    intro s hs
    obtain ⟨t, ht, he⟩ := List.mem_map.1 hs
    rw [← he]
    split
    · exact hpair
    · exact hsegment t ht
  split at hs
  · exact hpart s hs
  · rcases List.mem_append.1 hs with hs | hs
    · exact hpart s hs
    · rw [List.mem_singleton.1 hs]
      exact hpair

theorem injectUrl_lf (hpath : 0x0A ∉ path) (key value : QString) :
    0x0A ∉ injectUrl L path key value := by
  have hform : 0x0A ∉ utf16 "%1%2=%3" := by decide
  have harg (text value : QString) (ht : 0x0A ∉ text) (hv : 0x0A ∉ value) :
      0x0A ∉ L.arg text value := by
    intro hm
    rcases L.arg_mem text value _ hm with hm | hm
    · exact ht hm
    · exact hv hm
  have hsep : 0x0A ∉ if 0x3F ∈ path then utf16 "&" else utf16 "?" := by
    split
    · decide
    · decide
  rw [injectUrl, List.mem_append, not_or]
  exact ⟨hpath, harg _ _ (harg _ _ (harg _ _ hform hsep) (L.percentEncoded_oneLine key))
    (L.percentEncoded_oneLine value)⟩

theorem inject_body (hinto : r.injectInto = .body) (L : TextLibrary) (req : ProxiedRequest)
    (value : QString) :
    (inject L req r value).1 = { req with body := injectBody L req r value } := by
  rw [inject, hinto]
  dsimp only
  split
  · rfl
  · rename_i hsame
    rw [not_not.1 hsame]

theorem inject_writable (h : Writable req) (hkey : PlainKey r.injectKey) (value : QString) :
    Writable (inject L req r value).1 := by
  cases hinto : r.injectInto with
  | header =>
    rw [inject, hinto]
    exact ⟨h.method, h.path, h.version, injectHeader_writable h.fields hkey value⟩
  | cookie =>
    rw [inject, hinto]
    refine ⟨h.method, h.path, h.version, updateCookie_writable h.fields ?_⟩
    intro s hs
    apply not_mem_injectCookieValue (by decide) (by decide) hkey.noLf ?_ hs
    intro hm
    exact sanitize_lf value (List.mem_filter.1 hm).1
  | body =>
    rw [inject_body hinto]
    exact ⟨h.method, h.path, h.version, h.fields⟩
  | url =>
    rw [inject, hinto]
    exact ⟨h.method, injectUrl_lf h.path _ _, h.version, h.fields⟩
  | other =>
    rw [inject, hinto]
    exact h

theorem inject_unchanged (h : (inject L req r value).2 = false) :
    (inject L req r value).1 = req := by
  rw [inject] at h ⊢
  cases hinto : r.injectInto with
  | header =>
    rw [hinto] at h
    cases h
  | cookie =>
    rw [hinto] at h
    cases h
  | body =>
    rw [hinto] at h
    dsimp only at h ⊢
    split at h
    · cases h
    · rename_i hsame
      rw [if_neg hsame]
  | url =>
    rw [hinto] at h
    cases h
  | other => rfl

end Injection

section Runs
variable {E : RegexEngine} {L : TextLibrary} {vars : QString → Option QString} {tool : UInt32}

theorem applyRule_writable (h : Writable state.1) (hkey : PlainKey r.injectKey) :
    Writable (applyRule E L vars tool state r).1 := by
  rw [applyRule]
  cases injectedValue E vars tool state.1 r with
  | none => exact h
  | some value => exact inject_writable h hkey value

theorem foldl_applyRule_writable {rules : List SessionRule} (h : Writable state.1)
    (hall : ∀ r ∈ rules, PlainKey r.injectKey) :
    Writable (rules.foldl (applyRule E L vars tool) state).1 := by
  induction rules generalizing state with
  | nil => exact h
  | cons r rules ih =>
    rw [List.forall_mem_cons] at hall
    exact ih (applyRule_writable h hall.1) hall.2

theorem applyRule_flag (h : (applyRule E L vars tool state r).2 = false) :
    applyRule E L vars tool state r = state := by
  rw [applyRule] at h ⊢
  cases hv : injectedValue E vars tool state.1 r with
  | none => rfl
  | some value =>
    rw [hv] at h
    dsimp only at h ⊢
    rw [Bool.or_eq_false_iff] at h
    rw [inject_unchanged h.2, h.1, h.2]
    exact Prod.ext rfl h.1.symm

theorem foldl_applyRule_flag {rules : List SessionRule}
    (h : (rules.foldl (applyRule E L vars tool) state).2 = false) :
    rules.foldl (applyRule E L vars tool) state = state := by
  induction rules generalizing state with
  | nil => rfl
  | cons r rules ih =>
    rw [List.foldl_cons] at h ⊢
    have hrest := ih h
    rw [hrest] at h
    rw [hrest]
    exact applyRule_flag h

end Runs

theorem applyToRequestBytes_agrees_iff {rules : List SessionRule}
    (hall : ∀ r ∈ rules, PlainKey r.injectKey) (varsByHost : QString → QString → Option QString)
    (raw : QByteArray) (host : QString) (tool : UInt32) :
    BytesAgree (applyToRequestBytes E L rules varsByHost raw host tool) ↔
      let req := (applyToRequest E L rules varsByHost tool (parseRequestBytes raw host 80 false)).1
      LengthsAgree req.headers req.body := by
  have hwritable : Writable
      (applyToRequest E L rules varsByHost tool (parseRequestBytes raw host 80 false)).1 :=
    foldl_applyRule_writable (parseRequestBytes_writable raw host 80 false) hall
  rw [applyToRequestBytes]
  cases hrun : applyToRequest E L rules varsByHost tool (parseRequestBytes raw host 80 false) with
  | mk req flag =>
    cases flag with
    | true =>
      rw [hrun] at hwritable
      exact hwritable.bytesAgree_iff
    | false =>
      rw [applyToRequest] at hrun
      have hflag : ((rules.foldl (applyRule E L
          (varsByHost (parseRequestBytes raw host 80 false).host) tool)
          (parseRequestBytes raw host 80 false, false))).2 = false := by rw [hrun]
      have hsame := foldl_applyRule_flag hflag
      rw [hrun, Prod.mk.injEq] at hsame
      rw [hsame.1]
      exact Iff.rfl

/-- Rewriting keeps lengths right exactly when the body rules and each rule do. -/
theorem rewriting_lengths_iff (E : RegexEngine) (L : TextLibrary) (R : ReplaceEngine)
    (server : RewriteState) (nowSec : Int) (req : ProxiedRequest) (rules : List SessionRule)
    (varsByHost : QString → QString → Option QString) (raw : QByteArray) (host : QString)
    (tool : UInt32) (hreq : LengthsAgree req.headers req.body)
    (hbody : ∀ r ∈ server.rules, r.ruleSection = .reqBody)
    (hraw : BytesAgree (ChainRunner.normalizeContentLength raw)) :
    ((∀ initial, initial <+: rules →
      LengthsAgree
        (applyRequestRules E L R (withSessionRules server initial varsByHost) nowSec req).headers
        (applyRequestRules E L R (withSessionRules server initial varsByHost) nowSec req).body) ↔
      (isUrlInScope E server.scope req.tls req.host req.port req.path = true →
        BodyRulesSuit E L R server.rules req ∧
          RulesKeep E L (varsByHost (preparedRequest E L R server nowSec req).host) ToolProxy
            (preparedRequest E L R server nowSec req) rules)) ∧
    ((∀ r ∈ rules, PlainKey r.injectKey) →
      ((∀ initial, initial <+: rules →
        BytesAgree (applyToRequestBytes E L initial varsByHost
          (ChainRunner.normalizeContentLength raw) host tool)) ↔
        RulesKeep E L (varsByHost host) tool
          (parseRequestBytes (ChainRunner.normalizeContentLength raw) host 80 false) rules)) := by
  refine ⟨proxied_lengths_iff hreq hbody rules varsByHost, ?_⟩
  intro hplain
  have hstart : LengthsAgree
      (parseRequestBytes (ChainRunner.normalizeContentLength raw) host 80 false).headers
      (parseRequestBytes (ChainRunner.normalizeContentLength raw) host 80 false).body := hraw
  rw [← rules_agree_iff hstart rules]
  apply forall₂_congr
  intro initial hi
  have hinitial : ∀ r ∈ initial, PlainKey r.injectKey := fun r hr => hplain r (hi.subset hr)
  exact applyToRequestBytes_agrees_iff hinitial varsByHost _ host tool

section Samples

def isUnreserved (c : UInt8) : Bool :=
  isWordChar c.toUInt16 || c == 0x2D || c == 0x2E || c == 0x7E

def hexDigits : QByteArray := latin1 "0123456789ABCDEF"

def percentByte (c : UInt8) : QByteArray :=
  if isUnreserved c then [c]
  else
    latin1 "%" ++ (hexDigits.drop (c.toNat / 16)).take 1 ++ (hexDigits.drop (c.toNat % 16)).take 1

theorem percentByte_lf (c : UInt8) : 0x0A ∉ percentByte c := by
  have hdigits : 0x0A ∉ hexDigits := by decide
  have hpercent : 0x0A ∉ latin1 "%" := by decide
  have hdigit (n : Nat) : 0x0A ∉ (hexDigits.drop n).take 1 :=
    fun hm => hdigits (List.mem_of_mem_drop (List.mem_of_mem_take hm))
  rw [percentByte]
  split
  · rename_i hc
    intro hm
    rw [← List.mem_singleton.1 hm] at hc
    cases hc
  · rw [List.mem_append, List.mem_append, not_or, not_or]
    exact ⟨⟨hpercent, hdigit _⟩, hdigit _⟩

def asciiLibrary : TextLibrary where
  toUtf8 := toLatin1
  fromUtf8 := fromLatin1
  toPercentEncoding s := (toLatin1 s).flatMap percentByte
  fromPercentEncoding := fromLatin1
  lowerCase := toLower
  caseFold s := s.map foldCase
  arg text value :=
    text.takeWhile (· != 0x25) ++ value ++ (text.dropWhile (· != 0x25)).drop 2
  jsonArray v := latin1 "[\"" ++ toLatin1 v ++ latin1 "\"]"
  caseFold_ascii s literal _ := by rw [equalsIgnoreCase, beq_iff_eq]
  percentEncoded_oneLine s := by
    apply lf_fromLatin1
    intro hm
    obtain ⟨c, _, hc⟩ := List.mem_flatMap.1 hm
    exact percentByte_lf c hc
  arg_mem text value c hc := by
    rcases List.mem_append.1 hc with hc | hc
    · rcases List.mem_append.1 hc with hc | hc
      · exact .inl ((List.takeWhile_prefix _).subset hc)
      · exact .inr hc
    · exact .inl ((List.dropWhile_suffix _).subset (List.mem_of_mem_drop hc))

def anyMatch : RegexEngine := ⟨fun _ => true, fun _ _ => true⟩

def noReplace : ReplaceEngine := ⟨fun _ => true, fun _ _ s => s⟩

def openServer : RewriteState where
  scope := ⟨[], [], []⟩
  rules := []
  sessionManager := none
  sessionRules := none

def formRequest : ProxiedRequest where
  method := utf16 "POST"
  target := utf16 "/login"
  httpVersion := utf16 "HTTP/1.1"
  headers := [(utf16 "Content-Type", utf16 "application/x-www-form-urlencoded"),
    (utf16 "Content-Length", utf16 "3")]
  path := utf16 "/login"
  body := latin1 "a=1"
  host := utf16 "a.example"
  port := 80
  tls := false

def formBytes : QByteArray :=
  latin1 "POST /login HTTP/1.1\r\nContent-Type: application/x-www-form-urlencoded\r\n" ++
    latin1 "Content-Length: 3\r\n\r\na=1"

def headerRule : SessionRule := { injectKey := utf16 "X-Token", injectTemplate := utf16 "abc" }

def bodyRule : SessionRule :=
  { injectInto := .body, injectKey := utf16 "t", injectTemplate := utf16 "abc" }

theorem formRequest_agrees : LengthsAgree formRequest.headers formRequest.body := by
  intro v hv
  have hlengths : contentLengths formRequest.headers = [utf16 "3"] := by decide
  rw [hlengths, List.mem_singleton] at hv
  rw [hv]
  exact saysLength_number 3

theorem formBytes_normalized : ChainRunner.normalizeContentLength formBytes = formBytes := by
  decide

theorem formBytes_agrees : BytesAgree (ChainRunner.normalizeContentLength formBytes) := by
  rw [formBytes_normalized]
  intro v hv
  have hparsed : contentLengths (parseRequestBytes formBytes [] 80 false).headers = [utf16 "3"] ∧
      (parseRequestBytes formBytes [] 80 false).body.length = 3 := by
    decide
  obtain ⟨hlengths, hbody⟩ := hparsed
  rw [hlengths, List.mem_singleton] at hv
  rw [hv, hbody]
  exact saysLength_number 3

theorem headerRule_keeps_form :
    LengthsAgree
        (applyRequestRules anyMatch asciiLibrary noReplace
          (withSessionRules openServer [headerRule] (fun _ _ => none)) 0 formRequest).headers
        (applyRequestRules anyMatch asciiLibrary noReplace
          (withSessionRules openServer [headerRule] (fun _ _ => none)) 0 formRequest).body ∧
      BytesAgree (applyToRequestBytes anyMatch asciiLibrary [headerRule] (fun _ _ => none)
        (ChainRunner.normalizeContentLength formBytes) (utf16 "a.example") ToolRepeater) := by
  have hname : equalsIgnoreCase (utf16 "X-Token") contentLengthName ≠ true := by decide
  have hkeep (req : ProxiedRequest) (tool : UInt32) :
      RulesKeep anyMatch asciiLibrary (fun _ => none) tool req [headerRule] :=
    ⟨fun _ _ hf => absurd hf hname, trivial⟩
  have hplain : ∀ r ∈ [headerRule], PlainKey r.injectKey := by
    intro r hr
    rw [List.mem_singleton.1 hr]
    exact ⟨by decide, by decide, by decide⟩
  have h := rewriting_lengths_iff anyMatch asciiLibrary noReplace openServer 0 formRequest
    [headerRule] (fun _ _ => none) formBytes (utf16 "a.example") ToolRepeater formRequest_agrees
    (fun _ hr => (nomatch hr)) formBytes_agrees
  refine ⟨h.1.2 ?_ [headerRule] (List.prefix_refl _), ?_⟩
  · intro _
    exact ⟨fun hf => (nomatch hf), hkeep _ _⟩
  · exact (h.2 hplain).2 (hkeep _ _) [headerRule] (List.prefix_refl _)

theorem bodyRule_leaves_length :
    isFramingSafe formRequest.headers true = true ∧
      LengthsAgree formRequest.headers formRequest.body ∧
      (applyRequestRules anyMatch asciiLibrary noReplace
          (withSessionRules openServer [bodyRule] (fun _ _ => none)) 0 formRequest).body =
        latin1 "a=1&t=abc" ∧
      applyToRequestBytes anyMatch asciiLibrary [bodyRule] (fun _ _ => none)
          (ChainRunner.normalizeContentLength formBytes) (utf16 "a.example") ToolRepeater =
        formBytes ++ latin1 "&t=abc" ∧
      ¬ LengthsAgree
        (applyRequestRules anyMatch asciiLibrary noReplace
          (withSessionRules openServer [bodyRule] (fun _ _ => none)) 0 formRequest).headers
        (applyRequestRules anyMatch asciiLibrary noReplace
          (withSessionRules openServer [bodyRule] (fun _ _ => none)) 0 formRequest).body := by
  have hrequest : applyRequestRules anyMatch asciiLibrary noReplace
      (withSessionRules openServer [bodyRule] (fun _ _ => none)) 0 formRequest =
        { formRequest with body := latin1 "a=1&t=abc" } := by
    decide
  have hsafe : isFramingSafe formRequest.headers true = true := by decide
  have hbytes : applyToRequestBytes anyMatch asciiLibrary [bodyRule] (fun _ _ => none) formBytes
      (utf16 "a.example") ToolRepeater = formBytes ++ latin1 "&t=abc" := by
    decide
  rw [formBytes_normalized]
  refine ⟨hsafe, formRequest_agrees, ?_, hbytes, ?_⟩
  · rw [hrequest]
  · rw [hrequest]
    intro h
    have hsize := (lengthsAgree_body_iff formRequest_agrees (latin1 "a=1&t=abc")).1 h
    exact absurd hsize (by decide)

end Samples

end Nullock.Proxy

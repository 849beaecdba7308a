import Nullock.HttpHeads

namespace Nullock.Proxy
open HttpLogic

structure ParsedField (h : Header) : Prop where
  nameLatin1 : ∀ c ∈ h.1, c ≤ 0xFF
  valueLatin1 : ∀ c ∈ h.2, c ≤ 0xFF
  nameTrimmed : QString.trimmed h.1 = h.1
  noColon : 0x3A ∉ h.1
  valueTrimmed : trimWith isOwsChar h.2 = h.2

theorem fromLatin1_le (s : QByteArray) : ∀ c ∈ fromLatin1 s, c ≤ 0xFF := by
  intro c hc
  obtain ⟨b, _, hb⟩ := List.mem_map.1 hc
  rw [← hb, UInt16.le_iff_toNat_le, UInt8.toNat_toUInt16]
  exact Nat.le_of_lt_succ b.toNat_lt

theorem isOwsChar_toUInt16 (c : UInt8) : isOwsChar c.toUInt16 = isOws c := by
  rw [← isOws_toLatin1Char, toLatin1Char_toUInt16]

theorem fieldValue_eq (value : QByteArray) :
    fieldValue value = trimWith isOwsChar (fromLatin1 value) := by
  rw [fieldValue, fromLatin1, fromLatin1, trimWith_map isOwsChar_toUInt16]

theorem fieldValue_trimmed (value : QByteArray) :
    trimWith isOwsChar (fieldValue value) = fieldValue value := by
  rw [fieldValue_eq, trimWith_idem]

theorem ParsedField.continued (h : ParsedField f) (hcont : fieldValue line ≠ []) :
    ParsedField (f.1, if f.2.isEmpty then fieldValue line else f.2 ++ 0x20 :: fieldValue line) := by
  split
  · exact ⟨h.nameLatin1, fromLatin1_le _, h.nameTrimmed, h.noColon, fieldValue_trimmed line⟩
  · rename_i hval
    rw [List.isEmpty_iff] at hval
    refine ⟨h.nameLatin1, ?_, h.nameTrimmed, h.noColon, ?_⟩
    · intro c hc
      rcases List.mem_append.1 hc with hc | hc
      · exact h.valueLatin1 c hc
      · cases hc with
        | head => decide
        | tail _ hc => exact fromLatin1_le _ c hc
    · exact trimmed_join h.valueTrimmed (fieldValue_trimmed line) hval hcont 0x20

theorem foldContinuation_parsed (hall : ∀ h ∈ headers, ParsedField h) (line : QByteArray) :
    ∀ h ∈ foldContinuation headers (fieldValue line), ParsedField h := by
  rw [foldContinuation]
  split
  · exact hall
  · rename_i last hlast
    split
    · exact hall
    · rename_i hcont
      rw [List.isEmpty_iff] at hcont
      intro h hh
      rcases List.mem_append.1 hh with hh | hh
      · exact hall h (List.dropLast_subset _ hh)
      · rw [List.mem_singleton.1 hh]
        exact (hall last (List.mem_of_getLast? hlast)).continued hcont

theorem ParsedField.start (hcolon : indexOf (latin1 ":") line = some colon) :
    ParsedField
      (QString.trimmed (fromLatin1 (line.take colon)), fieldValue (line.drop (colon + 1))) := by
  refine ⟨?_, fromLatin1_le _, trimWith_idem _ _, ?_, fieldValue_trimmed _⟩
  · intro c hc
    exact fromLatin1_le _ c (mem_of_mem_trimWith hc)
  · intro hc
    obtain ⟨b, hb, hbc⟩ := List.mem_map.1 (mem_of_mem_trimWith hc)
    have hb' : b = 0x3A := by
      rw [← toLatin1Char_toUInt16 b, hbc]
      rfl
    rw [hb'] at hb
    exact not_mem_take_indexOf hcolon hb

theorem parseLine_parsed (hall : ∀ h ∈ headers, ParsedField h) (line : QByteArray) :
    ∀ h ∈ parseLine headers line, ParsedField h := by
  rw [parseLine]
  split
  · exact hall
  · split
    · exact foldContinuation_parsed hall _
    · split
      · exact hall
      · rename_i colon hcolon
        split
        · exact hall
        · intro h hh
          rcases List.mem_append.1 hh with hh | hh
          · exact hall h hh
          · rw [List.mem_singleton.1 hh]
            exact .start hcolon

theorem parseHeaders_parsed (headerBlock : QByteArray) :
    ∀ h ∈ parseHeaders headerBlock, ParsedField h := by
  have hfold (lines : List QByteArray) (headers : List Header)
      (hall : ∀ h ∈ headers, ParsedField h) :
      ∀ h ∈ lines.foldl parseLine headers, ParsedField h := by
    induction lines generalizing headers with
    | nil => exact hall
    | cons line lines ih => exact ih _ (parseLine_parsed hall line)
  exact hfold _ [] (fun _ hh => (nomatch hh))

def fieldName (line : QByteArray) : Option QByteArray :=
  if line.isEmpty || isContinuation line then none
  else
    match indexOf (latin1 ":") line with
    | none => none
    | some colon => if colon = 0 then none else some (line.take colon)

def lineNames (line : QByteArray) : List QString :=
  match fieldName (chopCr line) with
  | none => []
  | some name => [QString.trimmed (fromLatin1 name)]

theorem foldContinuation_names (headers : List Header) (cont : QString) :
    (foldContinuation headers cont).map Prod.fst = headers.map Prod.fst := by
  rw [foldContinuation]
  split
  · rfl
  · rename_i last hlast
    split
    · rfl
    · have hh := List.dropLast_append_getLast? last hlast
      conv => rhs; rw [← hh]
      rw [List.map_append, List.map_append]
      rfl

theorem parseLine_names (headers : List Header) (line : QByteArray) :
    (parseLine headers line).map Prod.fst = headers.map Prod.fst ++ lineNames line := by
  rw [parseLine, lineNames, fieldName]
  by_cases hempty : (chopCr line).isEmpty = true
  · simp only [hempty, Bool.true_or, ↓reduceIte, List.append_nil]
  · by_cases hfold : isContinuation (chopCr line) = true
    · simp only [hempty, hfold, Bool.or_true, ↓reduceIte, List.append_nil, Bool.false_eq_true,
        foldContinuation_names]
    · rw [Bool.not_eq_true] at hempty hfold
      simp only [hempty, hfold, Bool.or_self, Bool.false_eq_true, ↓reduceIte]
      cases indexOf (latin1 ":") (chopCr line) with
      | none => exact (List.append_nil _).symm
      | some colon =>
        dsimp only
        by_cases h0 : colon = 0
        · rw [if_pos h0, if_pos h0]
          exact (List.append_nil _).symm
        · rw [if_neg h0, if_neg h0, List.map_append]
          rfl

theorem parseHeaders_names (headerBlock : QByteArray) :
    (parseHeaders headerBlock).map Prod.fst =
      ((headerBlock.splitOn 0x0A).drop 1).flatMap lineNames := by
  have hfold (lines : List QByteArray) (headers : List Header) :
      (lines.foldl parseLine headers).map Prod.fst =
        headers.map Prod.fst ++ lines.flatMap lineNames := by
    induction lines generalizing headers with
    | nil => exact (List.append_nil _).symm
    | cons line lines ih =>
      rw [List.foldl_cons, ih, parseLine_names, List.flatMap_cons, List.append_assoc]
  exact hfold _ []

/-- No line feed within the request line, and every field has a name. -/
structure PlainHead (headerBlock : QByteArray) : Prop where
  oneLine : ∀ part ∈ ((requestLine headerBlock).splitOn 0x20).take 3, 0x0A ∉ part
  named : ∀ line ∈ (headerBlock.splitOn 0x0A).drop 1, ∀ name, fieldName (chopCr line) = some name →
    ∃ c ∈ name, isSpace c.toUInt16 = false

theorem named_iff (headerBlock : QByteArray) :
    (∀ line ∈ (headerBlock.splitOn 0x0A).drop 1, ∀ name, fieldName (chopCr line) = some name →
      ∃ c ∈ name, isSpace c.toUInt16 = false) ↔
    ∀ h ∈ parseHeaders headerBlock, h.1 ≠ [] := by
  have hname (name : QByteArray) : (∃ c ∈ name, isSpace c.toUInt16 = false) ↔
      QString.trimmed (fromLatin1 name) ≠ [] := by
    rw [QString.trimmed, ne_eq, trimWith_eq_nil_iff, fromLatin1, List.forall_mem_map]
    simp only [not_forall, Bool.not_eq_true, exists_prop]
  have hmap : (∀ h ∈ parseHeaders headerBlock, h.1 ≠ []) ↔
      ∀ name ∈ (parseHeaders headerBlock).map Prod.fst, name ≠ [] := by
    rw [List.forall_mem_map]
  rw [hmap, parseHeaders_names]
  constructor
  · intro h name hn
    obtain ⟨line, hl, hn⟩ := List.mem_flatMap.1 hn
    rw [lineNames] at hn
    split at hn
    · cases hn
    · rename_i raw hraw
      rw [List.mem_singleton.1 hn]
      exact (hname raw).1 (h line hl raw hraw)
  · intro h line hl name hn
    apply (hname name).2
    apply h _ (List.mem_flatMap.2 ⟨line, hl, ?_⟩)
    rw [lineNames, hn]
    exact List.mem_cons_self

def fieldText (h : Header) : QByteArray := toLatin1 h.1 ++ (latin1 ": " ++ toLatin1 h.2)

structure SendableField (h : Header) : Prop extends ParsedField h where
  nameClean : hasControlByte h.1 = false
  valueClean : hasControlByte h.2 = false

theorem not_mem_toLatin1 (hs : hasControlByte s = false) (hd : d = 0x0D ∨ d = 0x0A) :
    d ∉ toLatin1 s := by
  intro hm
  obtain ⟨c, hc, he⟩ := List.mem_map.1 hm
  rw [hasControlByte, List.any_eq_false] at hs
  apply hs c hc
  rcases hd with hd | hd
  · subst hd
    rw [(toLatin1Char_eq_iff (by decide)).1 he]
    rfl
  · subst hd
    rw [(toLatin1Char_eq_iff (by decide)).1 he]
    rfl

theorem SendableField.no_break (h : SendableField f) (hd : d = 0x0D ∨ d = 0x0A) :
    d ∉ fieldText f := by
  intro hm
  rcases List.mem_append.1 hm with hm | hm
  · exact not_mem_toLatin1 h.nameClean hd hm
  · rcases List.mem_append.1 hm with hm | hm
    · rcases hd with hd | hd
      · subst hd
        revert hm
        decide
      · subst hd
        revert hm
        decide
    · exact not_mem_toLatin1 h.valueClean hd hm

theorem fieldText_ne_nil (f : Header) : fieldText f ≠ [] := by
  intro h
  rw [fieldText, List.append_eq_nil_iff, List.append_eq_nil_iff] at h
  exact absurd h.2.1 (by decide)

theorem SendableField.not_continuation (h : SendableField f) :
    isContinuation (fieldText f) = false := by
  cases hn : f.1 with
  | nil =>
    rw [fieldText, hn]
    rfl
  | cons c name =>
    have hc : isSpace c = false := by
      have he := (trimWith_ends isSpace f.1).1
      rw [show trimWith isSpace f.1 = f.1 from h.nameTrimmed] at he
      exact he c (by rw [hn, List.head?_cons])
    rw [fieldText, hn]
    rw [← Bool.not_eq_true]
    intro hcont
    rw [isContinuation, Bool.or_eq_true, beq_iff_eq, beq_iff_eq] at hcont
    rcases hcont with hcont | hcont
    · rw [(toLatin1Char_eq_iff (by decide)).1 (Option.some.inj hcont)] at hc
      cases hc
    · rw [(toLatin1Char_eq_iff (by decide)).1 (Option.some.inj hcont)] at hc
      cases hc

theorem SendableField.parseLine (h : SendableField f) (headers : List Header)
    (hline : chopCr line = fieldText f) :
    HttpLogic.parseLine headers line = headers ++ [f].filter (fun g => !g.1.isEmpty) := by
  have hempty : (fieldText f).isEmpty = false := List.isEmpty_eq_false_iff.2 (fieldText_ne_nil f)
  have hcolon : 0x3A ∉ toLatin1 f.1 := by
    intro hm
    obtain ⟨c, hc, he⟩ := List.mem_map.1 hm
    rw [(toLatin1Char_eq_iff (by decide)).1 he] at hc
    exact h.noColon hc
  have hindex : indexOf (latin1 ":") (fieldText f) = some (toLatin1 f.1).length :=
    indexOf_singleton hcolon _
  have hname : QString.trimmed (fromLatin1 ((fieldText f).take (toLatin1 f.1).length)) = f.1 := by
    rw [fieldText, List.take_left, fromLatin1_toLatin1 h.nameLatin1, h.nameTrimmed]
  have hvalue : fieldValue ((fieldText f).drop ((toLatin1 f.1).length + 1)) = f.2 := by
    have hd : (fieldText f).drop ((toLatin1 f.1).length + 1) = 0x20 :: toLatin1 f.2 := by
      rw [fieldText, ← List.drop_drop, List.drop_left]
      rfl
    have hl : fromLatin1 (0x20 :: toLatin1 f.2) = [0x20] ++ (f.2 ++ []) := by
      rw [List.append_nil, fromLatin1, List.map_cons]
      exact congrArg (0x20 :: ·) (fromLatin1_toLatin1 h.valueLatin1)
    rw [hd, fieldValue_eq, hl]
    apply trimWith_append _ _ h.valueTrimmed
    · intro c hc
      rw [List.mem_singleton.1 hc]
      rfl
    · intro c hc
      cases hc
  rw [HttpLogic.parseLine, hline]
  simp only [hempty, h.not_continuation, Bool.false_eq_true, ↓reduceIte, hindex, hname, hvalue]
  simp only [toLatin1, List.length_map, List.length_eq_zero_iff, List.filter_singleton]
  by_cases hn : f.1 = []
  · rw [if_pos hn, hn]
    exact (List.append_nil _).symm
  · rw [if_neg hn, List.isEmpty_eq_false_iff.2 hn]
    rfl

/-- A request line and the fields below it, each on a line of its own. -/
def headText (line : QByteArray) (fields : List Header) : QByteArray :=
  line ++ fields.flatMap (fun f => crlf ++ fieldText f)

theorem headText_eq (line : QByteArray) (fields : List Header) :
    headText line fields = headLines line (fields.map fieldText) := by
  rw [headText, headLines, List.flatMap_map]

theorem fieldText_lines {fields : List Header} (hall : ∀ f ∈ fields, SendableField f) :
    ∀ l ∈ fields.map fieldText, TextLine l := by
  intro l hl
  obtain ⟨f, hf, he⟩ := List.mem_map.1 hl
  rw [← he]
  exact ⟨fieldText_ne_nil f, (hall f hf).no_break (.inl rfl), (hall f hf).no_break (.inr rfl)⟩

theorem foldl_parseLine_fields {fields : List Header} (hall : ∀ f ∈ fields, SendableField f)
    (headers : List Header) :
    (fields.map fieldText).foldl parseLine headers =
      headers ++ fields.filter (fun g => !g.1.isEmpty) := by
  induction fields generalizing headers with
  | nil => exact (List.append_nil headers).symm
  | cons f fields ih =>
    rw [List.forall_mem_cons] at hall
    rw [List.map_cons, List.foldl_cons,
      hall.1.parseLine headers (chopCr_clean (hall.1.no_break (.inl rfl))), ih hall.2,
      List.append_assoc, ← List.filter_append]
    rfl

theorem parseHeaders_headText (h : 0x0A ∉ line) (hall : ∀ f ∈ fields, SendableField f) :
    parseHeaders (headText line fields) = fields.filter (fun f => !f.1.isEmpty) := by
  rw [headText_eq, parseHeaders_headLines h (fieldText_lines hall), foldl_parseLine_fields hall,
    List.nil_append]

def sentLine (req : HttpRequest) : QByteArray :=
  toLatin1 req.method ++ latin1 " " ++ toLatin1 req.path ++ latin1 " " ++ toLatin1 req.httpVersion

def sentFields (headers : List Header) : List Header :=
  headers.filter (fun h => !isProxyHopRequestHeader h.1)

theorem fieldLines_eq (fields : List Header) :
    crlf ++ fields.flatMap (fun f => fieldLine (toLatin1 f.1, toLatin1 f.2)) =
      fields.flatMap (fun f => crlf ++ fieldText f) ++ crlf := by
  induction fields with
  | nil => rfl
  | cons f fields ih =>
    rw [List.flatMap_cons, List.flatMap_cons, List.append_assoc, ← ih, fieldLine, fieldText]
    simp only [List.append_assoc]

theorem serializeRequestForOrigin_eq (req : HttpRequest) :
    serializeRequestForOrigin req =
      headText (sentLine req) (sentFields req.headers) ++ (crlf ++ (crlf ++ req.body)) := by
  have hfields : (forwardedFields req.headers).flatMap fieldLine =
      (sentFields req.headers).flatMap (fun f => fieldLine (toLatin1 f.1, toLatin1 f.2)) := by
    rw [forwardedFields, List.flatMap_map]
    rfl
  calc serializeRequestForOrigin req
      = sentLine req ++ ((crlf ++ (forwardedFields req.headers).flatMap fieldLine) ++
          (crlf ++ req.body)) := by
        simp only [serializeRequestForOrigin, sentLine, List.append_assoc]
    _ = sentLine req ++ (((sentFields req.headers).flatMap (fun f => crlf ++ fieldText f) ++
          crlf) ++ (crlf ++ req.body)) := by rw [hfields, fieldLines_eq]
    _ = headText (sentLine req) (sentFields req.headers) ++ (crlf ++ (crlf ++ req.body)) := by
        simp only [headText, List.append_assoc]

def parseRequest (bytes : QByteArray) : Option HttpRequest :=
  match indexOf (crlf ++ crlf) bytes with
  | none => none
  | some sep =>
    match parseHead (bytes.take sep) with
    | none => none
    | some req =>
      if isConnect req then some req
      else some { req with
        body := (bytes.drop (sep + 4)).take (requestBodyLength req.headers).toNat }

/-- The serialised request reads back the same, and its request line is one line. -/
def Faithful (req : HttpRequest) : Prop :=
  parseRequest (serializeRequestForOrigin req) =
      some { req with headers := sentFields req.headers } ∧ 0x0A ∉ sentLine req

structure AcceptedHead (headerBlock : QByteArray) (req : HttpRequest) : Prop where
  parts : ∃ method target version more,
    (requestLine headerBlock).splitOn 0x20 = method :: target :: version :: more ∧
      req.method = fromLatin1 method ∧ req.target = fromLatin1 target ∧
      req.httpVersion = fromLatin1 version ∧ req.path = fromLatin1 target
  fields : req.headers = parseHeaders headerBlock
  noBody : isConnect req = true → req.body = []
  bodyLength : isConnect req = false → (req.body.length : Int) = requestBodyLength req.headers

theorem parseHead_eq_some (h : parseHead headerBlock = some req) :
    (∃ method target version more,
      (requestLine headerBlock).splitOn 0x20 = method :: target :: version :: more ∧
        req.method = fromLatin1 method ∧ req.target = fromLatin1 target ∧
        req.httpVersion = fromLatin1 version ∧ req.path = fromLatin1 target) ∧
      req.headers = parseHeaders headerBlock ∧ req.body = [] := by
  rw [parseHead] at h
  split at h
  · rename_i method target version more hs
    cases h
    exact ⟨⟨method, target, version, more, hs, rfl, rfl, rfl, rfl⟩, rfl, rfl⟩
  · cases h

theorem readExact_length (h : readExact n out socket = some bytes) (hle : out.length ≤ n) :
    bytes.length = n := by
  induction socket generalizing out with
  | nil =>
    rw [readExact] at h
    split at h
    · cases h
    · cases h
      omega
  | cons segment socket ih =>
    rw [readExact] at h
    split at h
    · apply ih h
      rw [List.length_append, List.length_take]
      omega
    · cases h
      omega

theorem readHeaderBlock_prefix (h : readHeaderBlock out socket = some (buf, left)) :
    buf ++ left.flatten = out ++ socket.flatten ∧ ∃ sep, indexOf (crlf ++ crlf) buf = some sep := by
  induction socket generalizing out with
  | nil =>
    rw [readHeaderBlock] at h
    split at h
    · rename_i hsep
      cases h
      exact ⟨rfl, Option.isSome_iff_exists.1 hsep⟩
    · cases h
  | cons segment socket ih =>
    rw [readHeaderBlock] at h
    split at h
    · rename_i hsep
      cases h
      exact ⟨rfl, Option.isSome_iff_exists.1 hsep⟩
    · split at h
      · cases h
      · obtain ⟨he, hs⟩ := ih h
        refine ⟨?_, hs⟩
        rw [he, List.append_assoc, List.flatten_cons]

def headerBlockOf (socket : List QByteArray) : QByteArray :=
  socket.flatten.take ((indexOf (crlf ++ crlf) socket.flatten).getD 0)

theorem readRequestFrom_accepted (h : readRequestFrom socket = some req) :
    AcceptedHead (headerBlockOf socket) req := by
  rw [readRequestFrom] at h
  split at h
  · cases h
  · rename_i buf left hread
    obtain ⟨he, sep, hsep⟩ := readHeaderBlock_prefix hread
    rw [List.nil_append] at he
    have hblock : headerBlockOf socket = buf.take sep := by
      rw [headerBlockOf, ← he, indexOf_append_right hsep, Option.getD_some,
        List.take_append_of_le_length]
      have hl := (indexOf_split hsep).2
      omega
    rw [hblock]
    rw [hsep] at h
    dsimp only [Option.getD_some] at h
    split at h
    · cases h
    · rename_i req' hhead
      obtain ⟨hparts, hfields, hbody⟩ := parseHead_eq_some hhead
      split at h
      · rename_i hconnect
        cases h
        exact ⟨hparts, hfields, fun _ => hbody, fun hc => absurd (hconnect.symm.trans hc) nofun⟩
      · rename_i hconnect
        split at h
        · cases h
        · split at h
          · rename_i hcl
            cases h
            refine ⟨hparts, hfields, fun hc => absurd hc hconnect, ?_⟩
            intro _
            rw [hbody, requestBodyLength, if_pos hcl]
            rfl
          · split at h
            · cases h
            · rename_i hn
              split at h
              · split at h
                · cases h
                · rename_i extra hextra
                  have hlen := readExact_length hextra (Nat.zero_le _)
                  cases h
                  refine ⟨hparts, hfields, fun hc => absurd hc hconnect, ?_⟩
                  intro _
                  simp only [List.length_append, hlen]
                  omega
              · cases h
                refine ⟨hparts, hfields, fun hc => absurd hc hconnect, ?_⟩
                intro _
                simp only [List.length_take]
                omega

theorem framingLoop_clean (h : framingLoop isRequest headers sawTE cl = some r) :
    ∀ f ∈ headers, hasControlByte f.1 = false ∧ hasControlByte f.2 = false := by
  induction headers generalizing sawTE cl with
  | nil => exact fun _ hf => (nomatch hf)
  | cons f headers ih =>
    obtain ⟨hn, hv, te, mid, hrest, _⟩ := framingLoop_cons h
    rw [List.forall_mem_cons]
    exact ⟨⟨hn, hv⟩, ih hrest⟩

theorem isFramingSafe_clean (h : isFramingSafe headers isRequest = true) :
    ∀ f ∈ headers, hasControlByte f.1 = false ∧ hasControlByte f.2 = false := by
  rw [isFramingSafe] at h
  split at h
  · cases h
  · rename_i hl
    exact framingLoop_clean hl

theorem contentLengths_filter (p : Header → Bool) (headers : List Header)
    (hp : ∀ f, equalsIgnoreCase f.1 contentLengthName = true → p f = true) :
    contentLengths (headers.filter p) = contentLengths headers := by
  rw [contentLengths, contentLengths, List.filter_filter]
  congr 1
  apply List.filter_congr
  intro f _
  cases hf : equalsIgnoreCase f.1 contentLengthName with
  | false => rfl
  | true => rw [hp f hf]; rfl

theorem requestBodyLength_filter (p : Header → Bool) (headers : List Header)
    (hp : ∀ f, equalsIgnoreCase f.1 contentLengthName = true → p f = true) :
    requestBodyLength (headers.filter p) = requestBodyLength headers := by
  rw [requestBodyLength_eq, requestBodyLength_eq, contentLengths_filter p headers hp]

theorem AcceptedHead.sendable (h : AcceptedHead headerBlock req)
    (hsafe : isFramingSafe req.headers true = true) :
    ∀ f ∈ sentFields req.headers, SendableField f := by
  intro f hf
  have hmem := (List.mem_filter.1 hf).1
  obtain ⟨hn, hv⟩ := isFramingSafe_clean hsafe f hmem
  rw [h.fields] at hmem
  exact ⟨parseHeaders_parsed headerBlock f hmem, hn, hv⟩

theorem AcceptedHead.oneLine_iff (h : AcceptedHead headerBlock req) :
    (∀ part ∈ ((requestLine headerBlock).splitOn 0x20).take 3, 0x0A ∉ part) ↔
      0x0A ∉ sentLine req := by
  obtain ⟨m, t, v, more, hs, hm, _, hv, hp⟩ := h.parts
  have hspace : 0x0A ∉ latin1 " " := by decide
  rw [hs, sentLine, hm, hv, hp, toLatin1_fromLatin1, toLatin1_fromLatin1, toLatin1_fromLatin1]
  simp only [List.take_succ_cons, List.take_zero, List.forall_mem_cons, List.not_mem_nil,
    false_implies, implies_true, and_true, List.mem_append, not_or, hspace, not_false_eq_true,
    and_assoc]

theorem AcceptedHead.splitOn_sentLine (h : AcceptedHead headerBlock req) :
    (sentLine req).splitOn 0x20 =
      [toLatin1 req.method, toLatin1 req.target, toLatin1 req.httpVersion] := by
  obtain ⟨m, t, v, more, hs, hm, ht, hv, hp⟩ := h.parts
  have hnot (part : QByteArray) (hmem : part ∈ m :: t :: v :: more) : 0x20 ∉ part := by
    rw [← hs] at hmem
    exact not_mem_of_mem_splitOn hmem
  have hm' := hnot m List.mem_cons_self
  have ht' := hnot t (List.mem_cons_of_mem _ List.mem_cons_self)
  have hv' := hnot v (List.mem_cons_of_mem _ (List.mem_cons_of_mem _ List.mem_cons_self))
  have heq : sentLine req = m ++ 0x20 :: (t ++ 0x20 :: v) := by
    rw [sentLine, hm, hv, hp, toLatin1_fromLatin1, toLatin1_fromLatin1, toLatin1_fromLatin1,
      List.append_assoc, List.append_assoc, List.append_assoc]
    rfl
  rw [heq, List.splitOn_append_cons_self_of_not_mem hm',
    List.splitOn_append_cons_self_of_not_mem ht', List.splitOn_eq_singleton hv', hm, ht, hv,
    toLatin1_fromLatin1, toLatin1_fromLatin1, toLatin1_fromLatin1]

/-- The reparsed request differs only in the nameless fields. -/
theorem AcceptedHead.reparse (h : AcceptedHead headerBlock req)
    (hsafe : isFramingSafe req.headers true = true) (hlf : 0x0A ∉ sentLine req) :
    parseRequest (serializeRequestForOrigin req) =
      some { req with
        headers := (sentFields req.headers).filter (fun f => !f.1.isEmpty) } := by
  have hall := h.sendable hsafe
  have hlen : requestBodyLength ((sentFields req.headers).filter (fun f => !f.1.isEmpty)) =
      requestBodyLength req.headers := by
    rw [requestBodyLength_filter, sentFields, requestBodyLength_filter]
    · intro f hf
      rw [contentLength_not_hop hf]
      rfl
    · intro f hf
      cases hn : f.1 with
      | nil => rw [hn] at hf; revert hf; decide
      | cons c name => rfl
  have hhead : parseHead (headText (sentLine req) (sentFields req.headers)) =
      some { req with
        headers := (sentFields req.headers).filter (fun f => !f.1.isEmpty), body := [] } := by
    obtain ⟨m, t, v, more, hs, hm, ht, hv, hp⟩ := h.parts
    rw [parseHead, parseHeaders_headText hlf hall, headText_eq, requestLine_headLines hlf,
      h.splitOn_sentLine]
    simp only [hm, ht, hv, hp, toLatin1_fromLatin1]
  have hdrop : (headText (sentLine req) (sentFields req.headers) ++
      (crlf ++ (crlf ++ req.body))).drop
        ((headText (sentLine req) (sentFields req.headers)).length + 4) = req.body := by
    rw [← List.drop_drop, List.drop_left]
    rfl
  rw [parseRequest, serializeRequestForOrigin_eq, headText_eq,
    indexOf_blank_headLines hlf (fieldText_lines hall), ← headText_eq]
  dsimp only
  rw [List.take_left, hhead, hdrop]
  dsimp only
  split
  · rename_i hconnect
    rw [h.noBody hconnect]
  · rename_i hconnect
    have hb := h.bodyLength (Bool.eq_false_iff.2 hconnect)
    rw [hlen, ← hb, Int.toNat_natCast, List.take_length]

/-- A request is serialised faithfully exactly when its header block is plain. -/
theorem reserialisation_faithful_iff (socket : List QByteArray) (req : HttpRequest)
    (hread : readRequestFrom socket = some req)
    (hsafe : isFramingSafe req.headers true = true) :
    Faithful req ↔ PlainHead (headerBlockOf socket) := by
  have h := readRequestFrom_accepted hread
  have hnamed : (∀ f ∈ req.headers, f.1 ≠ []) ↔
      (sentFields req.headers).filter (fun f => !f.1.isEmpty) = sentFields req.headers := by
    rw [List.filter_eq_self]
    constructor
    · intro hall f hf
      rw [List.isEmpty_eq_false_iff.2 (hall f (List.mem_filter.1 hf).1)]
      rfl
    · intro hall f hf hn
      have hhop : isProxyHopRequestHeader f.1 = false := by
        rw [hn]
        decide
      have hm : f ∈ sentFields req.headers := List.mem_filter.2 ⟨hf, by rw [hhop]; rfl⟩
      have he := hall f hm
      rw [hn] at he
      cases he
  constructor
  · intro hfaith
    obtain ⟨hparse, hlf⟩ := hfaith
    refine ⟨h.oneLine_iff.2 hlf, (named_iff _).2 ?_⟩
    rw [← h.fields]
    apply hnamed.2
    rw [h.reparse hsafe hlf, Option.some.injEq, HttpRequest.mk.injEq] at hparse
    exact hparse.2.2.2.1
  · intro hplain
    have hlf := h.oneLine_iff.1 hplain.oneLine
    have hn := (named_iff _).1 hplain.named
    rw [← h.fields] at hn
    refine ⟨?_, hlf⟩
    rw [h.reparse hsafe hlf, hnamed.1 hn]

def plainRequest : HttpRequest where
  method := utf16 "GET"
  target := utf16 "/"
  httpVersion := utf16 "HTTP/1.1"
  headers := [(utf16 "Host", utf16 "a"), (utf16 "Proxy-Connection", utf16 "close")]
  path := utf16 "/"
  body := []

theorem plain_request_faithful :
    PlainHead (headerBlockOf
      [latin1 "GET / HTTP/1.1\r\nHost: a\r\n", latin1 "Proxy-Connection: close\r\n\r\n"]) :=
  (reserialisation_faithful_iff
    [latin1 "GET / HTTP/1.1\r\nHost: a\r\n", latin1 "Proxy-Connection: close\r\n\r\n"]
    plainRequest (by decide) (by decide)).1
    ⟨by decide, by decide⟩

/-- The request parsed from a request line with a bare line feed in its target. -/
def splitRequest : HttpRequest where
  method := utf16 "GET"
  target := utf16 "/\nX:"
  httpVersion := utf16 "y"
  headers := [(utf16 "X", utf16 "y HTTP/1.1"), (utf16 "Host", utf16 "a")]
  path := utf16 "/\nX:"
  body := []

/-- The request line written is two lines, the second an unchecked field. -/
theorem split_request_line_smuggles :
    readRequestFrom [latin1 "GET /\nX: y HTTP/1.1\r\nHost: a\r\n\r\n"] = some splitRequest ∧
      isFramingSafe splitRequest.headers true = true ∧
      (parseRequest (serializeRequestForOrigin splitRequest)).map HttpRequest.headers =
        some ((utf16 "X", utf16 "y") :: splitRequest.headers) ∧ ¬ Faithful splitRequest := by
  refine ⟨by decide, by decide, by decide, ?_⟩
  intro h
  exact h.2 (by decide)

end Nullock.Proxy

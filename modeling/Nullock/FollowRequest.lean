import Nullock.HttpRelay
import Nullock.IntruderResend

namespace Nullock.RedirectLogic
open ScopeLogic HttpLogic Proxy

def lineText (line : QByteArray) : QByteArray := line.rdropWhile (· == 0x0D)

def lineTexts (message : QByteArray) : List QByteArray := (message.splitOn 0x0A).map lineText

def fieldLines (message : QByteArray) : List QByteArray :=
  ((lineTexts message).drop 1).takeWhile (fun line => !line.isEmpty)

def fieldName (line : QByteArray) : Option QByteArray := (fieldOf line).map Prod.fst

structure Follow (N : UrlLibrary) where
  url : N.Url
  method : QString
  cookieHeader : QString
  body : QByteArray
  previousRequest : QByteArray
  previousUrl : N.Url
  preserveBody : Bool

section
variable {N : UrlLibrary} (L : TextLibrary)

namespace Follow

def bytes (f : Follow N) : QByteArray :=
  buildFollowRequest N L f.url f.method f.cookieHeader f.body f.previousRequest f.previousUrl
    f.preserveBody

def target (f : Follow N) : QString :=
  let path := if (N.path f.url).isEmpty then utf16 "/" else N.path f.url
  if (N.query f.url).isEmpty then path else path ++ utf16 "?" ++ N.query f.url

def authority (f : Follow N) : QString :=
  let defaultPort : Int := if N.scheme f.url = utf16 "https" then 443 else 80
  let host := if 0x3A ∈ N.host f.url then utf16 "[" ++ N.host f.url ++ utf16 "]" else N.host f.url
  if 0 < N.port f.url ∧ N.port f.url ≠ defaultPort then
    host ++ utf16 ":" ++ fromLatin1 (QByteArray.number (N.port f.url))
  else host

def sameOrigin (f : Follow N) : Bool :=
  let defaultPort : Int := if N.scheme f.url = utf16 "https" then 443 else 80
  let previousDefault : Int := if N.scheme f.previousUrl = utf16 "https" then 443 else 80
  N.scheme f.previousUrl = N.scheme f.url ∧
    L.caseFold (N.host f.previousUrl) = L.caseFold (N.host f.url) ∧
    portOr N f.previousUrl previousDefault = portOr N f.url defaultPort

def requestLine (f : Follow N) : QByteArray :=
  L.toUtf8 f.method ++ latin1 " " ++ L.toUtf8 f.target ++ latin1 " HTTP/1.1"

def hostLine (f : Follow N) : QByteArray := latin1 "Host: " ++ L.toUtf8 f.authority

def acceptLine : QByteArray := latin1 "Accept: */*"

def cookieLine (f : Follow N) : QByteArray := latin1 "Cookie: " ++ toLatin1 f.cookieHeader

def lengthLine (f : Follow N) : QByteArray :=
  latin1 "Content-Length: " ++ QByteArray.number f.body.length

def closeLine : QByteArray := latin1 "Connection: close"

def generated (f : Follow N) : List QByteArray :=
  [f.hostLine L, acceptLine, f.cookieLine, f.lengthLine, closeLine]

/-- A field line of the previous request that the next one may have too. -/
structure Carriable (f : Follow N) (line : QByteArray) : Prop where
  field : line ∈ fieldLines f.previousRequest
  name : ∃ name, fieldName line = some name ∧ name ∉ skippedNames ∧
    (∀ m ∈ fieldLines f.previousRequest, name ∉ connectionTokens m) ∧
    (f.sameOrigin L = false → name ∈ crossOriginSafe)

structure HeadersOnly (f : Follow N) : Prop where
  first : (lineTexts (f.bytes L)).head? = some (f.requestLine L)
  carried : ∀ line ∈ fieldLines (f.bytes L),
    line ∈ (f.generated L).map lineText ∨ f.Carriable L line
  length : ∀ line ∈ fieldLines (f.bytes L),
    fieldName line = some (latin1 "content-length") → line = f.lengthLine

def passes (f : Follow N) (lines : List QByteArray) (line : QByteArray) : Bool :=
  (fieldName line).any (fun name =>
    !(skippedNames ++ lines.flatMap connectionTokens).contains name &&
      (f.sameOrigin L || crossOriginSafe.contains name) &&
      (f.preserveBody || !(latin1 "content-").isPrefixOf name))

/-- All that is written is on one line, and only header fields pass the filter. -/
structure OnlyFieldsPass (f : Follow N) : Prop where
  requestLine : 0x0A ∉ f.requestLine L
  hostLine : 0x0A ∉ f.hostLine L
  cookieLine : 0x0A ∉ f.cookieLine
  lines : ∀ line ∈ (headOf f.previousRequest).splitOn 0x0A,
    f.passes L ((headOf f.previousRequest).splitOn 0x0A) line = true →
      lineText line ∈ fieldLines f.previousRequest ∨ lineText line = acceptLine

def carriedOver (f : Follow N) : List QByteArray :=
  (carriedLines (f.sameOrigin L) f.preserveBody
    ((headOf f.previousRequest).splitOn 0x0A)).map Prod.snd

def hasAccept (f : Follow N) : Bool :=
  (carriedLines (f.sameOrigin L) f.preserveBody ((headOf f.previousRequest).splitOn 0x0A)).any
    (fun c => c.1 == latin1 "accept")

def sendsLength (f : Follow N) : Bool :=
  !f.body.isEmpty || f.method == utf16 "POST" || f.method == utf16 "PUT" ||
    f.method == utf16 "PATCH"

def written (f : Follow N) : List QByteArray :=
  f.hostLine L :: (f.carriedOver L ++ ((if f.hasAccept L then [] else [acceptLine]) ++
    ((if f.cookieHeader.isEmpty then [] else [f.cookieLine]) ++
      ((if f.sendsLength then [f.lengthLine] else []) ++ [closeLine]))))

theorem bytes_eq (f : Follow N) :
    f.bytes L = (f.requestLine L :: f.written L).flatMap (· ++ crlf) ++ (crlf ++ f.body) := by
  have hhost : latin1 " HTTP/1.1\r\nHost: " = latin1 " HTTP/1.1" ++ (crlf ++ latin1 "Host: ") := rfl
  have haccept : latin1 "Accept: */*\r\n" = acceptLine ++ crlf := rfl
  have hclose : latin1 "Connection: close\r\n\r\n" = closeLine ++ (crlf ++ crlf) := rfl
  have hnot (b : Bool) (line : QByteArray) :
      (if b then [] else [line]).flatMap (· ++ crlf) = if b then [] else line ++ crlf := by
    cases b with
    | true => rfl
    | false => exact List.append_nil _
  have hif (b : Bool) (line : QByteArray) :
      (if b then [line] else []).flatMap (· ++ crlf) = if b then line ++ crlf else [] := by
    cases b with
    | true => exact List.append_nil _
    | false => rfl
  have hbytes : f.bytes L = L.toUtf8 f.method ++ latin1 " " ++ L.toUtf8 f.target ++
      latin1 " HTTP/1.1\r\nHost: " ++ L.toUtf8 f.authority ++ crlf ++
      (carriedLines (f.sameOrigin L) f.preserveBody
        ((headOf f.previousRequest).splitOn 0x0A)).flatMap (fun c => c.2 ++ crlf) ++
      (if f.hasAccept L then [] else latin1 "Accept: */*\r\n") ++
      (if f.cookieHeader.isEmpty then []
        else latin1 "Cookie: " ++ toLatin1 f.cookieHeader ++ crlf) ++
      (if f.sendsLength then latin1 "Content-Length: " ++ QByteArray.number f.body.length ++ crlf
        else []) ++
      latin1 "Connection: close\r\n\r\n" ++ f.body := rfl
  rw [hbytes, written, carriedOver, hhost, haccept, hclose, requestLine, hostLine, cookieLine,
    lengthLine]
  simp only [List.flatMap_cons, List.flatMap_append, List.flatMap_nil, List.flatMap_map, hnot, hif,
    List.append_assoc, List.append_nil]

end Follow

end

section Lines

theorem lineText_split (line : QByteArray) :
    ∃ b, line = lineText line ++ b ∧ ∀ c ∈ b, c = 0x0D := by
  refine ⟨line.rtakeWhile (· == 0x0D), List.rdropWhile_append_rtakeWhile.symm, ?_⟩
  intro c hc
  have hcr := List.mem_rtakeWhile_imp (p := (· == 0x0D)) hc
  exact beq_iff_eq.1 hcr

theorem mem_lineText_iff (hc : c ≠ 0x0D) : c ∈ lineText line ↔ c ∈ line := by
  obtain ⟨b, hline, hb⟩ := lineText_split line
  constructor
  · intro h
    rw [hline]
    exact List.mem_append_left b h
  · intro h
    rw [hline] at h
    rcases List.mem_append.1 h with h | h
    · exact h
    · exact absurd (hb c h) hc

theorem lineText_append_cr (line : QByteArray) : lineText (line ++ [0x0D]) = lineText line :=
  List.rdropWhile_concat_pos _ _ _ rfl

theorem lineText_chopCr (line : QByteArray) : lineText (chopCr line) = lineText line := by
  rw [chopCr]
  split
  · rename_i hlast
    obtain ⟨front, hfront⟩ := List.getLast?_eq_some_iff.1 hlast
    rw [hfront, List.dropLast_concat, lineText_append_cr]
  · rfl

theorem indexOf_singleton_none {x : UInt8} {s : QByteArray} (h : x ∉ s) : indexOf [x] s = none := by
  apply indexOf_eq_none_iff.2
  intro i _ hp
  exact h (List.mem_of_mem_drop (hp.subset List.mem_cons_self))

theorem fieldOf_append (hb : ∀ c ∈ b, c = 0x0D) (line : QByteArray) :
    fieldOf (line ++ b) = (fieldOf line).map (fun f => (f.1, f.2 ++ b)) := by
  by_cases hcolon : 0x3A ∈ line
  · obtain ⟨front, rest, rfl, hfront⟩ := List.eq_append_cons_of_mem hcolon
    have hfound (tail : QByteArray) : fieldOf (front ++ 0x3A :: tail) =
        some (ChainRunner.asciiLower (QByteArray.trimmed front), tail) := by
      rw [fieldOf, show latin1 ":" = [0x3A] from rfl, indexOf_singleton hfront, Option.map_some,
        List.take_left, ← List.drop_drop, List.drop_left]
      rfl
    rw [List.append_assoc, List.cons_append, hfound, hfound]
    rfl
  · have hnone : 0x3A ∉ line ++ b := by
      rw [List.mem_append, not_or]
      exact ⟨hcolon, fun hm => absurd (hb _ hm) (by decide)⟩
    rw [fieldOf, fieldOf, show latin1 ":" = [0x3A] from rfl, indexOf_singleton_none hcolon,
      indexOf_singleton_none hnone]
    rfl

theorem fieldName_append (hb : ∀ c ∈ b, c = 0x0D) (line : QByteArray) :
    fieldName (line ++ b) = fieldName line := by
  rw [fieldName, fieldOf_append hb, Option.map_map]
  rfl

theorem fieldName_lineText (line : QByteArray) : fieldName (lineText line) = fieldName line := by
  obtain ⟨b, hline, hb⟩ := lineText_split line
  conv => rhs; rw [hline]
  exact (fieldName_append hb _).symm

theorem fieldName_chopCr (line : QByteArray) : fieldName (chopCr line) = fieldName line := by
  rw [← fieldName_lineText, lineText_chopCr, fieldName_lineText]

theorem connectionTokens_lineText (line : QByteArray) :
    connectionTokens (lineText line) = connectionTokens line := by
  obtain ⟨b, hline, hb⟩ := lineText_split line
  conv => rhs; rw [hline]
  rw [connectionTokens, connectionTokens, fieldOf_append hb]
  cases fieldOf (lineText line) with
  | none => rfl
  | some field =>
    obtain ⟨name, rest⟩ := field
    dsimp only [Option.map_some]
    split
    · have hcomma : 0x2C ∉ b := fun hm => absurd (hb _ hm) (by decide)
      have hspace : ∀ c ∈ b, isAsciiSpace c = true := by
        intro c hc
        rw [hb c hc]
        rfl
      obtain ⟨front, last, hrest, hlonger⟩ := splitOn_concat hcomma rest
      have hlast : QByteArray.trimmed (last ++ b) = QByteArray.trimmed last :=
        trimWith_concat hspace last
      rw [hrest, hlonger, List.map_append, List.map_append, List.map_singleton,
        List.map_singleton, hlast]
    · rfl

theorem fieldName_literal (h : 0x3A ∉ n) (value : QByteArray) :
    fieldName (n ++ 0x3A :: value) = some (ChainRunner.asciiLower (QByteArray.trimmed n)) := by
  rw [fieldName, fieldOf, show latin1 ":" = [0x3A] from rfl, indexOf_singleton h]
  simp only [Option.map_some, List.take_left]

theorem lineTexts_append (h : 0x0A ∉ line) (rest : QByteArray) :
    lineTexts (line ++ crlf ++ rest) = lineText line :: lineTexts rest := by
  have hcr : 0x0A ∉ line ++ [0x0D] := by
    rw [List.mem_append, not_or]
    exact ⟨h, by decide⟩
  have hsplit : line ++ crlf ++ rest = (line ++ [0x0D]) ++ 0x0A :: rest := by
    rw [crlf, List.append_assoc, List.append_assoc]
    rfl
  rw [lineTexts, hsplit, List.splitOn_append_cons_self_of_not_mem hcr, List.map_cons,
    lineText_append_cr]
  rfl

theorem lineTexts_lines {lines : List QByteArray} (h : ∀ line ∈ lines, 0x0A ∉ line) (rest : QByteArray) :
    lineTexts (lines.flatMap (· ++ crlf) ++ rest) = lines.map lineText ++ lineTexts rest := by
  induction lines with
  | nil => rfl
  | cons line lines ih =>
    rw [List.forall_mem_cons] at h
    rw [List.flatMap_cons, List.append_assoc, lineTexts_append h.1, ih h.2]
    rfl

theorem firstSection_literal {literal : QByteArray} (h : 0x0A ∉ literal) (rest : QByteArray) :
    firstSection 0x0A (literal ++ rest) = literal ++ firstSection 0x0A rest := by
  rw [firstSection, List.takeWhile_append_of_pos]
  · rfl
  · intro c hc
    rw [bne_iff_ne]
    rintro rfl
    exact h hc

theorem firstSection_clean {line : QByteArray} (h : 0x0A ∉ line) : firstSection 0x0A line = line := by
  apply List.takeWhile_eq_self_iff.2
  intro c hc
  rw [bne_iff_ne]
  rintro rfl
  exact h hc

theorem lineTexts_first (line rest : QByteArray) :
    ∃ later, lineTexts (line ++ crlf ++ rest) = lineText (firstSection 0x0A line) :: later := by
  by_cases h : 0x0A ∈ line
  · obtain ⟨front, back, rfl, hfront⟩ := List.eq_append_cons_of_mem h
    have hfirst : firstSection 0x0A (front ++ 0x0A :: back) = front := by
      rw [firstSection_literal hfront]
      exact List.append_nil front
    refine ⟨lineTexts (back ++ crlf ++ rest), ?_⟩
    rw [hfirst, lineTexts, List.append_assoc, List.append_assoc, List.cons_append,
      List.splitOn_append_cons_self_of_not_mem hfront, List.append_assoc]
    rfl
  · rw [firstSection_clean h, lineTexts_append h]
    exact ⟨_, rfl⟩

theorem lf_firstSection (line : QByteArray) : 0x0A ∉ firstSection 0x0A line := by
  intro hm
  have hne := List.mem_takeWhile_imp hm
  exact absurd hne (by decide)

theorem lineText_clean (h : 0x0D ∉ line) : lineText line = line := by
  obtain ⟨b, hline, hb⟩ := lineText_split line
  cases b with
  | nil => exact (hline.trans (List.append_nil _)).symm
  | cons c b =>
    rw [hb c List.mem_cons_self] at hline
    rw [hline] at h
    exact absurd (List.mem_append_right _ List.mem_cons_self) h

theorem lineText_ne_nil (h : fieldName line = some name) : lineText line ≠ [] := by
  intro hnil
  rw [← fieldName_lineText, hnil] at h
  cases h

theorem fieldLines_lines {lines : List QByteArray} (hfirst : 0x0A ∉ first)
    (h : ∀ line ∈ lines, 0x0A ∉ line) (hne : ∀ line ∈ lines, lineText line ≠ []) (rest : QByteArray) :
    fieldLines ((first :: lines).flatMap (· ++ crlf) ++ rest) =
      lines.map lineText ++ (lineTexts rest).takeWhile (fun line => !line.isEmpty) := by
  rw [fieldLines, lineTexts_lines (List.forall_mem_cons.2 ⟨hfirst, h⟩), List.map_cons,
    List.cons_append, List.drop_one, List.tail_cons, List.takeWhile_append_of_pos]
  intro text htext
  obtain ⟨line, hline, rfl⟩ := List.mem_map.1 htext
  rw [Bool.not_eq_true', List.isEmpty_eq_false_iff]
  exact hne line hline

theorem mem_takeWhile_append {p : α → Bool} {s : List α} (hd : p d = false)
    (h : c ∈ (s ++ d :: t).takeWhile p) : c ∈ s := by
  induction s with
  | nil =>
    rw [List.nil_append, List.takeWhile_cons, hd] at h
    cases h
  | cons e s ih =>
    rw [List.cons_append, List.takeWhile_cons] at h
    split at h
    · rcases List.mem_cons.1 h with rfl | h
      · exact List.mem_cons_self
      · exact List.mem_cons_of_mem e (ih h)
    · cases h

theorem mem_fieldLines (h : text ∈ fieldLines request) :
    ∃ line ∈ (headOf request).splitOn 0x0A, text = lineText line := by
  rw [headOf]
  cases hblank : indexOf (crlf ++ crlf) request with
  | none =>
    obtain ⟨line, hline, he⟩ :=
      List.mem_map.1 (List.mem_of_mem_drop (List.takeWhile_subset _ h))
    exact ⟨line, hline, he.symm⟩
  | some sep =>
    obtain ⟨hrequest, -⟩ := indexOf_split hblank
    dsimp only
    generalize request.take sep = head at hrequest ⊢
    generalize request.drop (sep + (crlf ++ crlf).length) = body at hrequest
    have hbytes : request = (head ++ [0x0D]) ++ 0x0A :: ([0x0D] ++ 0x0A :: body) := by
      rw [hrequest, List.append_assoc head [0x0D]]
      rfl
    obtain ⟨front, last, hhead, hlonger⟩ := splitOn_concat (x := 0x0A) (b := [0x0D]) (by decide) head
    have htexts : lineTexts request = (head.splitOn 0x0A).map lineText ++
        [] :: (body.splitOn 0x0A).map lineText := by
      rw [lineTexts, hbytes, List.splitOn_append_cons_self, List.splitOn_append_cons_self, hlonger, hhead]
      simp only [List.map_append, List.map_singleton, lineText_append_cr]
      rfl
    rw [fieldLines, htexts, List.drop_append_of_le_length] at h
    · obtain ⟨line, hline, he⟩ := List.mem_map.1 (List.mem_of_mem_drop (mem_takeWhile_append rfl h))
      exact ⟨line, hline, he.symm⟩
    · rw [List.length_map, hhead, List.length_append]
      exact Nat.le_add_left 1 _

end Lines

namespace Follow
variable {N : UrlLibrary} {L : TextLibrary} {f : Follow N}

def carriedLine (f : Follow N) (L : TextLibrary) (lines : List QByteArray) (line : QByteArray) :
    Option (QByteArray × QByteArray) :=
  match fieldOf line with
  | none => none
  | some (name, _) =>
    if (skippedNames ++ lines.flatMap connectionTokens).contains name ||
        (!f.sameOrigin L && !crossOriginSafe.contains name) then none
    else if !f.preserveBody && (latin1 "content-").isPrefixOf name then none
    else some (name, line)

theorem carriedOver_eq (f : Follow N) :
    f.carriedOver L = (((headOf f.previousRequest).splitOn 0x0A).filter
      (f.passes L ((headOf f.previousRequest).splitOn 0x0A))).map chopCr := by
  rw [carriedOver, carriedLines]
  generalize (headOf f.previousRequest).splitOn 0x0A = lines
  have hall (rest : List QByteArray) :
      ((rest.map chopCr).filterMap (f.carriedLine L lines)).map Prod.snd =
        (rest.filter (f.passes L lines)).map chopCr := by
    induction rest with
    | nil => rfl
    | cons line rest ih =>
      have hname := fieldName_chopCr line
      rw [List.map_cons, List.filterMap_cons, List.filter_cons, carriedLine]
      cases hfield : fieldOf (chopCr line) with
      | none =>
        rw [fieldName, hfield, Option.map_none] at hname
        have hpasses : f.passes L lines line = false := by
          rw [passes, ← hname]
          rfl
        rw [hpasses, if_neg Bool.false_ne_true]
        exact ih
      | some field =>
        rw [fieldName, hfield, Option.map_some] at hname
        have hpasses : f.passes L lines line =
            (!((skippedNames ++ lines.flatMap connectionTokens).contains field.1 ||
                (!f.sameOrigin L && !crossOriginSafe.contains field.1)) &&
              !(!f.preserveBody && (latin1 "content-").isPrefixOf field.1)) := by
          rw [passes, ← hname, Option.any_some]
          simp only [Bool.not_or, Bool.not_and, Bool.not_not]
        rw [hpasses]
        dsimp only
        generalize ((skippedNames ++ lines.flatMap connectionTokens).contains field.1 ||
          (!f.sameOrigin L && !crossOriginSafe.contains field.1)) = skipped
        generalize (!f.preserveBody && (latin1 "content-").isPrefixOf field.1) = representation
        cases skipped with
        | true => exact ih
        | false =>
          cases representation with
          | true => exact ih
          | false => exact congrArg (chopCr line :: ·) ih
  exact hall lines

theorem mem_carriedOver :
    line ∈ f.carriedOver L ↔ ∃ l ∈ (headOf f.previousRequest).splitOn 0x0A,
      f.passes L ((headOf f.previousRequest).splitOn 0x0A) l = true ∧ chopCr l = line := by
  rw [carriedOver_eq, List.mem_map]
  simp only [List.mem_filter, and_assoc]

theorem passes_name (h : f.passes L lines line = true) :
    ∃ name, fieldName line = some name ∧ name ∉ skippedNames ∧
      (∀ m ∈ lines, name ∉ connectionTokens m) ∧
      (f.sameOrigin L = false → name ∈ crossOriginSafe) := by
  rw [passes, Option.any_eq_true] at h
  obtain ⟨name, hname, h⟩ := h
  simp only [Bool.and_eq_true, Bool.not_eq_true', ← Bool.not_eq_true, List.contains_iff_mem,
    List.mem_append, not_or, Bool.or_eq_true, List.mem_flatMap, not_exists, not_and] at h
  obtain ⟨⟨⟨hskip, htokens⟩, horigin⟩, -⟩ := h
  refine ⟨name, hname, hskip, htokens, ?_⟩
  intro hcross
  exact horigin.resolve_left (fun hsame => Bool.false_ne_true (hcross.symm.trans hsame))

section Names

theorem hostLine_name (f : Follow N) : fieldName (f.hostLine L) = some (latin1 "host") :=
  fieldName_literal (n := latin1 "Host") (by decide) (latin1 " " ++ L.toUtf8 f.authority)

theorem acceptLine_name : fieldName acceptLine = some (latin1 "accept") :=
  fieldName_literal (n := latin1 "Accept") (by decide) (latin1 " */*")

theorem cookieLine_name (f : Follow N) : fieldName f.cookieLine = some (latin1 "cookie") :=
  fieldName_literal (n := latin1 "Cookie") (by decide) (latin1 " " ++ toLatin1 f.cookieHeader)

theorem lengthLine_name (f : Follow N) : fieldName f.lengthLine = some (latin1 "content-length") :=
  fieldName_literal (n := latin1 "Content-Length") (by decide)
    (latin1 " " ++ QByteArray.number f.body.length)

theorem closeLine_name : fieldName closeLine = some (latin1 "connection") :=
  fieldName_literal (n := latin1 "Connection") (by decide) (latin1 " close")

theorem generated_name (h : text ∈ (f.generated L).map lineText) :
    (fieldName text = some (latin1 "host") ∧ text = lineText (f.hostLine L)) ∨
    (fieldName text = some (latin1 "accept") ∧ text = lineText acceptLine) ∨
    (fieldName text = some (latin1 "cookie") ∧ text = lineText f.cookieLine) ∨
    (fieldName text = some (latin1 "content-length") ∧ text = lineText f.lengthLine) ∨
    (fieldName text = some (latin1 "connection") ∧ text = lineText closeLine) := by
  obtain ⟨line, hline, rfl⟩ := List.mem_map.1 h
  rw [fieldName_lineText]
  simp only [generated, List.mem_cons, List.not_mem_nil, or_false] at hline
  rcases hline with rfl | rfl | rfl | rfl | rfl
  · exact .inl ⟨f.hostLine_name, rfl⟩
  · exact .inr (.inl ⟨acceptLine_name, rfl⟩)
  · exact .inr (.inr (.inl ⟨f.cookieLine_name, rfl⟩))
  · exact .inr (.inr (.inr (.inl ⟨f.lengthLine_name, rfl⟩)))
  · exact .inr (.inr (.inr (.inr ⟨closeLine_name, rfl⟩)))

end Names

theorem HeadersOnly.not_broken (h : f.HeadersOnly L) (hskip : name ∈ skippedNames)
    (hname : fieldName (firstSection 0x0A line) = some name)
    (hown : ∀ text ∈ (f.generated L).map lineText, fieldName text = some name →
      text = lineText line)
    (hshown : lineText (firstSection 0x0A line) ∈ fieldLines (f.bytes L)) : 0x0A ∉ line := by
  intro hlf
  rw [← fieldName_lineText] at hname
  rcases h.carried _ hshown with hgenerated | hcarriable
  · have heq := hown _ hgenerated hname
    have hmem : 0x0A ∈ lineText line := (mem_lineText_iff (by decide)).2 hlf
    rw [← heq, mem_lineText_iff (by decide)] at hmem
    exact lf_firstSection line hmem
  · obtain ⟨carried, hcarried, hnot, -⟩ := hcarriable.name
    rw [hname, Option.some.injEq] at hcarried
    exact hnot (hcarried ▸ hskip)

theorem HeadersOnly.requestLine (h : f.HeadersOnly L) : 0x0A ∉ f.requestLine L := by
  intro hlf
  obtain ⟨later, hlater⟩ := lineTexts_first (f.requestLine L)
    ((f.written L).flatMap (· ++ crlf) ++ (crlf ++ f.body))
  have hfirst := h.first
  rw [bytes_eq, List.flatMap_cons, List.append_assoc, hlater, List.head?_cons,
    Option.some.injEq] at hfirst
  rw [← hfirst, mem_lineText_iff (by decide)] at hlf
  exact lf_firstSection _ hlf

theorem carriedOver_clean (h : line ∈ f.carriedOver L) :
    0x0A ∉ line ∧ ∃ name, fieldName line = some name ∧ name ∉ skippedNames := by
  obtain ⟨l, hl, hpasses, rfl⟩ := mem_carriedOver.1 h
  obtain ⟨name, hname, hskip, -⟩ := passes_name hpasses
  refine ⟨?_, name, (fieldName_chopCr l).trans hname, hskip⟩
  intro hm
  have hchop : chopCr l <+: l := by
    rw [chopCr]
    split
    · exact List.dropLast_prefix l
    · exact List.prefix_rfl
  exact not_mem_of_mem_splitOn hl (hchop.subset hm)

theorem shown (hfirst : 0x0A ∉ f.requestLine L) (hsplit : f.written L = before ++ line :: after)
    (hbefore : ∀ l ∈ before, 0x0A ∉ l ∧ lineText l ≠ [])
    (hne : lineText (firstSection 0x0A line) ≠ []) :
    lineText (firstSection 0x0A line) ∈ fieldLines (f.bytes L) := by
  obtain ⟨later, hlater⟩ := lineTexts_first line (after.flatMap (· ++ crlf) ++ (crlf ++ f.body))
  have hbytes : f.bytes L = (f.requestLine L :: before).flatMap (· ++ crlf) ++
      (line ++ crlf ++ (after.flatMap (· ++ crlf) ++ (crlf ++ f.body))) := by
    rw [bytes_eq, hsplit]
    simp only [List.flatMap_cons, List.flatMap_append, List.append_assoc]
  rw [hbytes, fieldLines_lines hfirst (fun l hl => (hbefore l hl).1)
    (fun l hl => (hbefore l hl).2), hlater, List.takeWhile_cons_of_pos]
  · exact List.mem_append_right _ List.mem_cons_self
  · rw [Bool.not_eq_true', List.isEmpty_eq_false_iff]
    exact hne

theorem HeadersOnly.hostLine (h : f.HeadersOnly L) : 0x0A ∉ f.hostLine L := by
  have hname : fieldName (firstSection 0x0A (f.hostLine L)) = some (latin1 "host") := by
    rw [Follow.hostLine, firstSection_literal (by decide)]
    exact fieldName_literal (n := latin1 "Host") (by decide)
      (latin1 " " ++ firstSection 0x0A (L.toUtf8 f.authority))
  have hshown := shown h.requestLine  rfl (fun l hl => absurd hl List.not_mem_nil)
    (lineText_ne_nil hname)
  refine h.not_broken (by decide) hname ?_ hshown
  intro text htext hhost
  rcases generated_name htext with hown | hown | hown | hown | hown
  · exact hown.2
  · exact absurd (hown.1.symm.trans hhost) (by decide)
  · exact absurd (hown.1.symm.trans hhost) (by decide)
  · exact absurd (hown.1.symm.trans hhost) (by decide)
  · exact absurd (hown.1.symm.trans hhost) (by decide)

theorem clean_front (hhost : 0x0A ∉ f.hostLine L) :
    ∀ l ∈ f.hostLine L :: (f.carriedOver L ++ if f.hasAccept L then [] else [acceptLine]),
      0x0A ∉ l ∧ lineText l ≠ [] := by
  rw [List.forall_mem_cons]
  refine ⟨⟨hhost, lineText_ne_nil f.hostLine_name⟩, ?_⟩
  intro l hl
  rcases List.mem_append.1 hl with hl | hl
  · obtain ⟨hlf, name, hname, -⟩ := carriedOver_clean hl
    exact ⟨hlf, lineText_ne_nil hname⟩
  · split at hl
    · cases hl
    · rw [List.mem_singleton.1 hl]
      exact ⟨by decide, lineText_ne_nil acceptLine_name⟩

theorem HeadersOnly.carriedOver (h : f.HeadersOnly L) (hline : line ∈ f.carriedOver L) :
    lineText line ∈ fieldLines (f.bytes L) := by
  obtain ⟨before, after, hsplit⟩ := List.append_of_mem hline
  obtain ⟨hlf, name, hname, -⟩ := carriedOver_clean hline
  have hfront := clean_front h.hostLine
  have hbefore : ∀ l ∈ f.hostLine L :: before, 0x0A ∉ l ∧ lineText l ≠ [] := by
    intro l hl
    apply hfront
    rw [hsplit]
    rcases List.mem_cons.1 hl with rfl | hl
    · exact List.mem_cons_self
    · exact List.mem_cons_of_mem _ (List.mem_append_left _ (List.mem_append_left _ hl))
  have hwritten : f.written L = (f.hostLine L :: before) ++ line :: (after ++
      ((if f.hasAccept L then [] else [acceptLine]) ++
        ((if f.cookieHeader.isEmpty then [] else [f.cookieLine]) ++
          ((if f.sendsLength then [f.lengthLine] else []) ++ [closeLine])))) := by
    rw [written, hsplit, List.append_assoc, List.cons_append, List.cons_append]
  have hne : lineText (firstSection 0x0A line) ≠ [] := by
    rw [firstSection_clean hlf]
    exact lineText_ne_nil hname
  have hshown := shown h.requestLine hwritten hbefore hne
  rw [firstSection_clean hlf] at hshown
  exact hshown

theorem HeadersOnly.cookieLine (h : f.HeadersOnly L) : 0x0A ∉ f.cookieLine := by
  by_cases hempty : f.cookieHeader.isEmpty = true
  · rw [Follow.cookieLine, List.isEmpty_iff.1 hempty]
    decide
  · have hname : fieldName (firstSection 0x0A f.cookieLine) = some (latin1 "cookie") := by
      rw [Follow.cookieLine, firstSection_literal (by decide)]
      exact fieldName_literal (n := latin1 "Cookie") (by decide)
        (latin1 " " ++ firstSection 0x0A (toLatin1 f.cookieHeader))
    have hwritten : f.written L =
        (f.hostLine L :: (f.carriedOver L ++ if f.hasAccept L then [] else [acceptLine])) ++
          f.cookieLine :: ((if f.sendsLength then [f.lengthLine] else []) ++ [closeLine]) := by
      rw [written, if_neg hempty]
      simp only [List.append_assoc, List.cons_append, List.nil_append]
    have hshown := shown h.requestLine hwritten (clean_front h.hostLine) (lineText_ne_nil hname)
    refine h.not_broken (by decide) hname ?_ hshown
    intro text htext hcookie
    rcases generated_name htext with hown | hown | hown | hown | hown
    · exact absurd (hown.1.symm.trans hcookie) (by decide)
    · exact absurd (hown.1.symm.trans hcookie) (by decide)
    · exact hown.2
    · exact absurd (hown.1.symm.trans hcookie) (by decide)
    · exact absurd (hown.1.symm.trans hcookie) (by decide)

theorem carried_generated (hskip : name ∉ skippedNames) (hname : fieldName text = some name)
    (h : text ∈ (f.generated L).map lineText) : text = acceptLine := by
  have hnot {other : QByteArray} (hother : fieldName text = some other)
      (hin : other ∈ skippedNames) : False := by
    rw [hname, Option.some.injEq] at hother
    exact hskip (hother ▸ hin)
  rcases generated_name h with hown | hown | hown | hown | hown
  · exact (hnot hown.1 (by decide)).elim
  · exact hown.2.trans (lineText_clean (by decide))
  · exact (hnot hown.1 (by decide)).elim
  · exact (hnot hown.1 (by decide)).elim
  · exact (hnot hown.1 (by decide)).elim

theorem HeadersOnly.onlyFieldsPass (h : f.HeadersOnly L) : f.OnlyFieldsPass L where
  requestLine := h.requestLine
  hostLine := h.hostLine
  cookieLine := h.cookieLine
  lines := by
    intro l hl hpasses
    have hcarried := mem_carriedOver.2 ⟨l, hl, hpasses, rfl⟩
    obtain ⟨name, hname, hskip, -⟩ := passes_name hpasses
    have hshown := h.carriedOver hcarried
    rw [lineText_chopCr] at hshown
    rcases h.carried _ hshown with hgenerated | hcarriable
    · exact .inr (carried_generated hskip ((fieldName_lineText l).trans hname) hgenerated)
    · exact .inl hcarriable.field

theorem mem_written (h : line ∈ f.written L) :
    line ∈ f.carriedOver L ∨ line ∈ f.generated L := by
  simp only [written, List.mem_cons, List.mem_append] at h
  simp only [generated, List.mem_cons]
  rcases h with h | h | h | h | h | h
  · exact .inr (.inl h)
  · exact .inl h
  · split at h
    · cases h
    · exact .inr (.inr (.inl (List.mem_singleton.1 h)))
  · split at h
    · cases h
    · exact .inr (.inr (.inr (.inl (List.mem_singleton.1 h))))
  · split at h
    · exact .inr (.inr (.inr (.inr (.inl (List.mem_singleton.1 h)))))
    · cases h
  · rcases h with h | h
    · exact .inr (.inr (.inr (.inr (.inr (.inl h)))))
    · cases h

theorem lengthLine_clean (f : Follow N) : 0x0D ∉ f.lengthLine ∧ 0x0A ∉ f.lengthLine := by
  rw [lengthLine, List.mem_append, List.mem_append, not_or, not_or]
  exact ⟨⟨by decide, fun hm => (number_clean _ hm).1 rfl⟩, by decide,
    fun hm => (number_clean _ hm).2.1 rfl⟩

theorem written_clean (h : f.OnlyFieldsPass L) (hline : line ∈ f.written L) :
    0x0A ∉ line ∧ lineText line ≠ [] := by
  rcases mem_written hline with hline | hline
  · obtain ⟨hlf, name, hname, -⟩ := carriedOver_clean hline
    exact ⟨hlf, lineText_ne_nil hname⟩
  · simp only [generated, List.mem_cons, List.not_mem_nil, or_false] at hline
    rcases hline with rfl | rfl | rfl | rfl | rfl
    · exact ⟨h.hostLine, lineText_ne_nil f.hostLine_name⟩
    · exact ⟨by decide, lineText_ne_nil acceptLine_name⟩
    · exact ⟨h.cookieLine, lineText_ne_nil f.cookieLine_name⟩
    · exact ⟨f.lengthLine_clean.2, lineText_ne_nil f.lengthLine_name⟩
    · exact ⟨by decide, lineText_ne_nil closeLine_name⟩

theorem OnlyFieldsPass.fieldLines (h : f.OnlyFieldsPass L) :
    RedirectLogic.fieldLines (f.bytes L) = (f.written L).map lineText := by
  have hend : lineTexts (crlf ++ f.body) = [] :: lineTexts f.body :=
    lineTexts_append List.not_mem_nil f.body
  rw [bytes_eq, fieldLines_lines h.requestLine (fun l hl => (written_clean h hl).1)
    (fun l hl => (written_clean h hl).2), hend]
  exact List.append_nil _

theorem OnlyFieldsPass.carriable (h : f.OnlyFieldsPass L)
    (hl : l ∈ (headOf f.previousRequest).splitOn 0x0A)
    (hpasses : f.passes L ((headOf f.previousRequest).splitOn 0x0A) l = true) :
    lineText l ∈ (f.generated L).map lineText ∨ f.Carriable L (lineText l) := by
  rcases h.lines l hl hpasses with hfield | haccept
  · obtain ⟨name, hname, hskip, htokens, horigin⟩ := passes_name hpasses
    refine .inr ⟨hfield, name, (fieldName_lineText l).trans hname, hskip, ?_, horigin⟩
    intro m hm
    obtain ⟨above, habove, rfl⟩ := mem_fieldLines hm
    rw [connectionTokens_lineText]
    exact htokens above habove
  · refine .inl (List.mem_map.2 ⟨acceptLine, ?_, ?_⟩)
    · exact List.mem_cons_of_mem _ List.mem_cons_self
    · rw [haccept]
      exact lineText_clean (by decide)

theorem OnlyFieldsPass.headersOnly (h : f.OnlyFieldsPass L) : f.HeadersOnly L where
  first := by
    have hversion : lineText (f.requestLine L) = f.requestLine L := by
      apply rdropWhile_eq_self
      intro c hc
      rw [Follow.requestLine, List.getLast?_append] at hc
      cases hc
      rfl
    rw [bytes_eq, List.flatMap_cons, List.append_assoc, lineTexts_append h.requestLine,
      List.head?_cons, hversion]
  carried := by
    rw [h.fieldLines]
    intro text htext
    obtain ⟨line, hline, rfl⟩ := List.mem_map.1 htext
    rcases mem_written hline with hcarried | hgenerated
    · obtain ⟨l, hl, hpasses, rfl⟩ := mem_carriedOver.1 hcarried
      rw [lineText_chopCr]
      exact h.carriable hl hpasses
    · exact .inl (List.mem_map_of_mem hgenerated)
  length := by
    rw [h.fieldLines]
    intro text htext hname
    obtain ⟨line, hline, rfl⟩ := List.mem_map.1 htext
    rcases mem_written hline with hcarried | hgenerated
    · obtain ⟨-, name, hown, hskip⟩ := carriedOver_clean hcarried
      rw [fieldName_lineText, hown, Option.some.injEq] at hname
      exact absurd (hname ▸ (by decide : latin1 "content-length" ∈ skippedNames)) hskip
    · rcases generated_name (List.mem_map_of_mem hgenerated) with hown | hown | hown | hown | hown
      · exact absurd (hown.1.symm.trans hname) (by decide)
      · exact absurd (hown.1.symm.trans hname) (by decide)
      · exact absurd (hown.1.symm.trans hname) (by decide)
      · rw [hown.2]
        exact lineText_clean f.lengthLine_clean.1
      · exact absurd (hown.1.symm.trans hname) (by decide)

theorem headersOnly_iff (L : TextLibrary) (f : Follow N) :
    f.HeadersOnly L ↔ f.OnlyFieldsPass L :=
  ⟨HeadersOnly.onlyFieldsPass, OnlyFieldsPass.headersOnly⟩

def onSite (previousRequest : QByteArray) : Follow Intruder.plainUrls where
  url := Intruder.PlainUrl.mk (utf16 "http") (utf16 "a.example") (-1) (utf16 "/in") []
  method := utf16 "GET"
  cookieHeader := []
  body := []
  previousRequest := previousRequest
  previousUrl := Intruder.PlainUrl.mk (utf16 "http") (utf16 "a.example") (-1) (utf16 "/") []
  preserveBody := false

/-- A request line with a colon is carried over, and so may be the body. -/
theorem request_line_carried :
    ¬ (onSite (latin1 "GET /a:b HTTP/1.1\r\n\r\n")).HeadersOnly asciiLibrary ∧
      ¬ (onSite (latin1 "POST / HTTP/1.1\n\nkey: x")).HeadersOnly asciiLibrary := by
  constructor
  · intro h
    have hline := h.onlyFieldsPass.lines (latin1 "GET /a:b HTTP/1.1") (by decide) (by decide)
    revert hline
    decide
  · intro h
    have hline := h.onlyFieldsPass.lines (latin1 "key: x") (by decide) (by decide)
    revert hline
    decide

end Follow

end Nullock.RedirectLogic

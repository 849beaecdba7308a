import Nullock.PlaceMarkers
import Nullock.TranscodeExact
import Nullock.XmlReading

namespace Nullock.InspectorLogic
open Proxy HttpLogic

def kBodyPreview : Nat := 8 * 1024

section Definitions

def isPatternSpace (c : UInt16) : Bool := c == 0x20 || (0x09 ≤ c && c ≤ 0x0D)

def valueAt (s : QString) : Option QString :=
  let t := s.dropWhile isPatternSpace
  let unquoted := t.takeWhile (· != 0x3B)
  if t.head? = some 0x22 ∧ 0x22 ∈ t.tail then some (t.tail.takeWhile (· != 0x22))
  else if unquoted ≠ [] then some (QString.trimmed unquoted)
  else if t.length < s.length then some []
  else none

def keyAt (key s : QString) : Bool :=
  startsWithIgnoreCase s key &&
    ((s.drop key.length).dropWhile isPatternSpace).head? == some 0x3D

def paramAt (key s : QString) : Option QString :=
  if keyAt key s then valueAt ((s.drop key.length).dropWhile isPatternSpace).tail else none

def headerParam (headerVal key : QString) : QString :=
  match headerVal with
  | [] => []
  | c :: s =>
    match paramAt key (c :: s) with
    | some value => value
    | none => headerParam s key

def chopLineEnd (part : QByteArray) : QByteArray :=
  if crlf.isSuffixOf part then part.take (part.length - 2)
  else if part.getLast? = some 0x0A then part.dropLast
  else part

def splitPart (part : QByteArray) : QByteArray × QByteArray :=
  match indexOf (crlf ++ crlf) part with
  | some hb => (part.take hb, part.drop (hb + 4))
  | none =>
    match indexOf [0x0A, 0x0A] part with
    | some hb => (part.take hb, part.drop (hb + 2))
    | none => (part, [])

def dispositionOf (phead : QByteArray) : QString :=
  (phead.splitOn 0x0A).foldl (fun cd rawLine =>
    let h := QString.fromUtf8 (chopCr rawLine)
    if startsWithIgnoreCase h (utf16 "Content-Disposition") then h else cd) []

def paramOf (part : QByteArray) : QString × QString :=
  let (phead, pbody) := splitPart part
  let cd := dispositionOf phead
  let name := headerParam cd (utf16 "name")
  let filename := headerParam cd (utf16 "filename")
  if filename ≠ [] then
    (name, QString.arg (QString.arg (utf16 "[file: %1, %2 bytes]") filename)
      (QString.number pbody.length))
  else (name, QString.fromUtf8 (pbody.take kBodyPreview))

def partsFrom (delim : QByteArray) : Nat → QByteArray → List (QString × QString)
  | 0, _ => []
  | room + 1, rest =>
    if rest.take 2 = latin1 "--" then []
    else
      let start :=
        if rest.take 2 = crlf then rest.drop 2
        else if rest.take 1 = [0x0A] then rest.drop 1
        else rest
      match indexOf delim start with
      | none => []
      | some next =>
        paramOf (chopLineEnd (start.take next)) ::
          partsFrom delim room (start.drop (next + delim.length))

def parseMultipart (body boundary : QByteArray) (maxParams : Int) : List (QString × QString) :=
  if boundary.isEmpty then []
  else
    let delim := latin1 "--" ++ boundary
    match indexOf delim body with
    | none => []
    | some pos => partsFrom delim maxParams.toNat (body.drop (pos + delim.length))

/-! ### Encoded parts -/

structure IsQuotable (s : QString) : Prop where
  wellFormed : wellFormed s = true
  noQuote : 0x22 ∉ s
  noCr : 0x0D ∉ s
  noLf : 0x0A ∉ s

structure FormPart where
  name : QString
  filename : Option QString
  filenameFirst : Bool
  before : List QByteArray
  after : List QByteArray
  content : QByteArray
  name_ok : IsQuotable name
  filename_ok : ∀ f, filename = some f → IsQuotable f
  lines_ok : ∀ l ∈ before ++ after, TextLine l

def quoted (key : String) (value : QString) : QString :=
  utf16 key ++ 0x3D :: 0x22 :: (value ++ [0x22])

def FormPart.disposition (p : FormPart) : QString :=
  utf16 "Content-Disposition: form-data; " ++
    match p.filename with
    | none => quoted "name" p.name
    | some f =>
      if p.filenameFirst then quoted "filename" f ++ utf16 "; " ++ quoted "name" p.name
      else quoted "name" p.name ++ utf16 "; " ++ quoted "filename" f

def headText : List QByteArray → QByteArray
  | [] => []
  | l :: ls => headLines l ls

def FormPart.lines (p : FormPart) : List QByteArray :=
  p.before ++ toUtf8 p.disposition :: p.after

def FormPart.text (p : FormPart) : QByteArray :=
  headText p.lines ++ (crlf ++ (crlf ++ p.content))

structure Boundary where
  text : QByteArray
  nonempty : text ≠ []
  noCr : 0x0D ∉ text
  noLf : 0x0A ∉ text

def Boundary.delim (b : Boundary) : QByteArray := latin1 "--" ++ b.text

def encode (b : Boundary) (parts : List FormPart) : QByteArray :=
  parts.flatMap (fun p => b.delim ++ (crlf ++ (p.text ++ crlf))) ++
    (b.delim ++ latin1 "--\r\n")

def Shows (p : FormPart) (shown : QString × QString) : Prop :=
  shown.1 = p.name ∧
    match p.filename with
    | some f => shown.2 = utf16 "[file: " ++ f ++ utf16 ", " ++
        QString.number p.content.length ++ utf16 " bytes]"
    | none => p.content.length ≤ kBodyPreview → toUtf8 shown.2 = p.content

def mentions (key : QString) : QString → Bool
  | [] => false
  | c :: s => keyAt key (c :: s) || mentions key s

structure Plain (b : Boundary) (p : FormPart) : Prop where
  delimited : indexOf b.delim p.text = none
  after : ∀ l ∈ p.after,
    startsWithIgnoreCase (QString.fromUtf8 l) (utf16 "Content-Disposition") = false
  name : p.filenameFirst = false ∨ p.filename = none →
    mentions (utf16 "filename") p.name = false
  filename : ∀ f, p.filename = some f → f ≠ [] ∧ (∀ m ∈ markers f, 2 < m) ∧
    (p.filenameFirst = true → f = p.name)
  content : p.filename = none → p.content.length ≤ kBodyPreview →
    toUtf8 (QString.fromUtf8 p.content) = p.content

end Definitions

/-! ### Delimiters -/

theorem Boundary.delim_oneLine (b : Boundary) : 0x0D ∉ b.delim ∧ 0x0A ∉ b.delim := by
  rw [Boundary.delim, List.mem_append, List.mem_append, not_or, not_or]
  exact ⟨⟨by decide, b.noCr⟩, by decide, b.noLf⟩

theorem Boundary.delim_pos (b : Boundary) : 0 < b.delim.length := by
  rw [Boundary.delim, List.length_append]
  exact Nat.lt_add_right _ (by decide)

theorem indexOf_delim (b : Boundary) {text : QByteArray} (h : indexOf b.delim text = none)
    (rest : QByteArray) :
    indexOf b.delim ((text ++ crlf) ++ (b.delim ++ rest)) = some (text ++ crlf).length := by
  have hpos := b.delim_pos
  obtain ⟨hcr, hlf⟩ := b.delim_oneLine
  rw [indexOf_append, indexOf_front]
  · rfl
  intro j hj hp
  rw [List.length_append] at hj
  have hget (k : Nat) (hk : k < b.delim.length) :
      (text ++ (crlf ++ (b.delim ++ rest)))[j + k]? = some b.delim[k] := by
    obtain ⟨u, hu⟩ := hp
    rw [← List.append_assoc, ← List.getElem?_drop, ← hu, List.getElem?_append_left hk,
      List.getElem?_eq_getElem hk]
  by_cases hinside : j + b.delim.length ≤ text.length
  · apply indexOf_eq_none_iff.1 h j (by omega)
    rw [List.append_assoc, List.drop_append_of_le_length (by omega)] at hp
    refine List.prefix_of_prefix_length_le hp (List.prefix_append _ _) ?_
    rw [List.length_drop]
    omega
  by_cases hcrlf : j ≤ text.length
  · have hk : text.length - j < b.delim.length := by omega
    have hat := hget _ hk
    rw [show j + (text.length - j) = text.length by omega, List.getElem?_append_right le_rfl,
      Nat.sub_self] at hat
    exact hcr (Option.some.inj hat ▸ List.getElem_mem hk)
  · have hlength : crlf.length = 2 := rfl
    have hat := hget 0 hpos
    rw [show j + 0 = text.length + 1 by omega, List.getElem?_append_right (by omega),
      Nat.add_sub_cancel_left] at hat
    exact hlf (Option.some.inj hat ▸ List.getElem_mem hpos)

theorem chopLineEnd_crlf (text : QByteArray) : chopLineEnd (text ++ crlf) = text := by
  have hsuffix : crlf.isSuffixOf (text ++ crlf) = true :=
    List.isSuffixOf_iff_suffix.2 (List.suffix_append text crlf)
  have hlength : (text ++ crlf).length - 2 = text.length := by
    rw [List.length_append]
    rfl
  rw [chopLineEnd, if_pos hsuffix, hlength, List.take_left]

theorem partsFrom_part (b : Boundary) {p : FormPart} (h : indexOf b.delim p.text = none)
    (room : Nat) (rest : QByteArray) :
    partsFrom b.delim (room + 1) (crlf ++ (p.text ++ (crlf ++ (b.delim ++ rest)))) =
      paramOf p.text :: partsFrom b.delim room rest := by
  have htake : (crlf ++ (p.text ++ (crlf ++ (b.delim ++ rest)))).take 2 = crlf := rfl
  have hdrop : (crlf ++ (p.text ++ (crlf ++ (b.delim ++ rest)))).drop 2 =
      (p.text ++ crlf) ++ (b.delim ++ rest) := by
    show p.text ++ (crlf ++ (b.delim ++ rest)) = _
    rw [List.append_assoc]
  have hnext := indexOf_delim b h rest
  have hbehind : ((p.text ++ crlf) ++ (b.delim ++ rest)).drop
      ((p.text ++ crlf).length + b.delim.length) = rest := by
    rw [← List.append_assoc, ← List.length_append, List.drop_left]
  rw [partsFrom, htake, if_neg (by decide), if_pos rfl, hdrop]
  dsimp only
  rw [hnext]
  dsimp only
  rw [List.take_left, chopLineEnd_crlf, hbehind]

theorem partsFrom_encode (b : Boundary) {parts : List FormPart}
    (h : ∀ p ∈ parts, indexOf b.delim p.text = none) (room : Nat) :
    ∃ rest, encode b parts = b.delim ++ rest ∧
      partsFrom b.delim room rest = (parts.take room).map (fun p => paramOf p.text) := by
  induction parts generalizing room with
  | nil =>
    refine ⟨latin1 "--\r\n", rfl, ?_⟩
    rw [List.take_nil]
    cases room <;> rfl
  | cons p parts ih =>
    rw [List.forall_mem_cons] at h
    obtain ⟨-, hencode, -⟩ := ih h.2 0
    refine ⟨crlf ++ (p.text ++ (crlf ++ encode b parts)), ?_, ?_⟩
    · rw [encode, encode, List.flatMap_cons]
      simp only [List.append_assoc]
    cases room with
    | zero => rfl
    | succ room =>
      obtain ⟨rest, hencode, hrest⟩ := ih h.2 room
      rw [hencode, partsFrom_part b h.1, hrest]
      rfl

theorem parseMultipart_encode (b : Boundary) {parts : List FormPart}
    (h : ∀ p ∈ parts, indexOf b.delim p.text = none) (maxParams : Int) :
    parseMultipart (encode b parts) b.text maxParams =
      (parts.take maxParams.toNat).map (fun p => paramOf p.text) := by
  obtain ⟨rest, hencode, hrest⟩ := partsFrom_encode b h maxParams.toNat
  rw [parseMultipart, if_neg (mt List.isEmpty_iff.1 b.nonempty), hencode]
  dsimp only
  rw [← Boundary.delim, indexOf_front]
  dsimp only
  rw [Nat.zero_add, List.drop_left, hrest]

/-! ### Heads -/

theorem headLines_split {l : QByteArray} (hl : TextLine l) {ls : List QByteArray}
    (hall : ∀ m ∈ ls, TextLine m) :
    ((headLines l ls).splitOn 0x0A).map chopCr = l :: ls := by
  induction ls generalizing l with
  | nil =>
    rw [headLines_nil, List.splitOn_eq_singleton hl.noLf, List.map_singleton, chopCr_clean hl.noCr]
  | cons m ls ih =>
    rw [List.forall_mem_cons] at hall
    rw [splitOn_headLines_cons hl.noLf, List.map_cons, chopCr_concat, ih hall.1 hall.2]

theorem headText_split {ls : List QByteArray} (hne : ls ≠ []) (hall : ∀ m ∈ ls, TextLine m) :
    ((headText ls).splitOn 0x0A).map chopCr = ls := by
  cases ls with
  | nil => exact absurd rfl hne
  | cons l ls =>
    rw [List.forall_mem_cons] at hall
    exact headLines_split hall.1 hall.2

theorem splitPart_text {ls : List QByteArray} (hne : ls ≠ []) (hall : ∀ m ∈ ls, TextLine m)
    (content : QByteArray) :
    splitPart (headText ls ++ (crlf ++ (crlf ++ content))) = (headText ls, content) := by
  cases ls with
  | nil => exact absurd rfl hne
  | cons l ls =>
    rw [List.forall_mem_cons] at hall
    have hblank := indexOf_blank_headLines hall.1.noLf hall.2 content
    have hdrop : (headLines l ls ++ (crlf ++ (crlf ++ content))).drop
        ((headLines l ls).length + 4) = content := by
      rw [← List.drop_drop, List.drop_left]
      rfl
    rw [splitPart, headText, hblank]
    dsimp only
    rw [List.take_left, hdrop]

structure IsLine (s : QString) : Prop where
  wellFormed : wellFormed s = true
  noCr : 0x0D ∉ s
  noLf : 0x0A ∉ s

theorem IsLine.append (ha : IsLine a) (hb : IsLine b) : IsLine (a ++ b) := by
  refine ⟨Xml.wellFormed_append ha.wellFormed hb.wellFormed, ?_, ?_⟩
  · rw [List.mem_append, not_or]
    exact ⟨ha.noCr, hb.noCr⟩
  · rw [List.mem_append, not_or]
    exact ⟨ha.noLf, hb.noLf⟩

theorem isLine_ascii (h : s.all (fun c => c < 0x80 && c != 0x0D && c != 0x0A) = true) :
    IsLine s := by
  have hall : ∀ c ∈ s, c < 0x80 ∧ c ≠ 0x0D ∧ c ≠ 0x0A := by
    intro c hc
    have hc := List.all_eq_true.1 h c hc
    rw [Bool.and_eq_true, Bool.and_eq_true, decide_eq_true_eq, bne_iff_ne, bne_iff_ne] at hc
    exact ⟨hc.1.1, hc.1.2, hc.2⟩
  exact ⟨wellFormed_ascii fun c hc => (hall c hc).1, fun hc => (hall _ hc).2.1 rfl,
    fun hc => (hall _ hc).2.2 rfl⟩

theorem IsQuotable.isLine (h : IsQuotable s) : IsLine s := ⟨h.wellFormed, h.noCr, h.noLf⟩

theorem IsLine.quoted {key : String} (hkey : IsLine (utf16 key)) (h : IsQuotable value) :
    IsLine (quoted key value) := by
  have hend : IsLine (value ++ [0x22]) := h.isLine.append (isLine_ascii rfl)
  have hopen : IsLine ([0x3D, 0x22] ++ (value ++ [0x22])) := (isLine_ascii rfl).append hend
  exact hkey.append hopen

theorem IsLine.textLine (h : IsLine s) (hne : s ≠ []) : TextLine (toUtf8 s) := by
  refine ⟨?_, ?_, ?_⟩
  · intro he
    have hback := fromUtf8_toUtf8 h.wellFormed
    rw [he] at hback
    exact hne hback.symm
  · exact fun hc => h.noCr (mem_toUtf8_ascii (by decide) (by decide) hc)
  · exact fun hc => h.noLf (mem_toUtf8_ascii (by decide) (by decide) hc)

theorem disposition_isLine (p : FormPart) : IsLine p.disposition := by
  have hmark : IsLine (utf16 "Content-Disposition: form-data; ") := isLine_ascii (by decide)
  have hname : IsLine (quoted "name" p.name) := IsLine.quoted (isLine_ascii (by decide)) p.name_ok
  have hgap : IsLine (utf16 "; ") := isLine_ascii (by decide)
  rw [FormPart.disposition]
  apply hmark.append
  cases hf : p.filename with
  | none => exact hname
  | some f =>
    have hfile : IsLine (quoted "filename" f) :=
      IsLine.quoted (isLine_ascii (by decide)) (p.filename_ok f hf)
    dsimp only
    split
    · exact (hfile.append hgap).append hname
    · exact (hname.append hgap).append hfile

theorem disposition_kept (p : FormPart) :
    QString.fromUtf8 (toUtf8 p.disposition) = p.disposition := by
  apply (Transcode.fromUtf8_kept (disposition_isLine p).wellFormed).2
  exact fun hhead => absurd hhead (by rw [FormPart.disposition]; exact nofun)

theorem disposition_begins (p : FormPart) :
    startsWithIgnoreCase p.disposition (utf16 "Content-Disposition") = true := by
  rw [startsWithIgnoreCase, List.isPrefixOf_iff_prefix, FormPart.disposition, List.map_append]
  refine List.IsPrefix.trans ?_ (List.prefix_append _ _)
  exact List.isPrefixOf_iff_prefix.1 (by decide)

theorem lines_ok (p : FormPart) : ∀ l ∈ p.lines, TextLine l := by
  intro l hl
  have hne : p.disposition ≠ [] := by
    rw [FormPart.disposition]
    exact nofun
  rw [FormPart.lines, List.mem_append, List.mem_cons] at hl
  rcases hl with hl | rfl | hl
  · exact p.lines_ok l (List.mem_append_left _ hl)
  · exact (disposition_isLine p).textLine hne
  · exact p.lines_ok l (List.mem_append_right _ hl)

theorem foldl_disposition {rawLines : List QByteArray} (cd : QString)
    (h : ∀ l ∈ rawLines, startsWithIgnoreCase (QString.fromUtf8 l)
      (utf16 "Content-Disposition") = false) :
    rawLines.foldl (fun cd h => if startsWithIgnoreCase (QString.fromUtf8 h)
      (utf16 "Content-Disposition") = true then QString.fromUtf8 h else cd) cd = cd := by
  induction rawLines with
  | nil => rfl
  | cons l rawLines ih =>
    rw [List.forall_mem_cons] at h
    rw [List.foldl_cons, h.1, if_neg Bool.false_ne_true]
    exact ih h.2

theorem dispositionOf_lines {before after : List QByteArray} {cd : QByteArray}
    (hall : ∀ l ∈ before ++ cd :: after, TextLine l)
    (hcd : startsWithIgnoreCase (QString.fromUtf8 cd) (utf16 "Content-Disposition") = true)
    (hafter : ∀ l ∈ after, startsWithIgnoreCase (QString.fromUtf8 l)
      (utf16 "Content-Disposition") = false) :
    dispositionOf (headText (before ++ cd :: after)) = QString.fromUtf8 cd := by
  have hne : before ++ cd :: after ≠ [] := by
    intro he
    exact List.cons_ne_nil cd after (List.append_eq_nil_iff.1 he).2
  have hsplit := headText_split hne hall
  have hfold : dispositionOf (headText (before ++ cd :: after)) =
      (((headText (before ++ cd :: after)).splitOn 0x0A).map chopCr).foldl
        (fun cd h => if startsWithIgnoreCase (QString.fromUtf8 h)
          (utf16 "Content-Disposition") = true then QString.fromUtf8 h else cd) [] := by
    rw [List.foldl_map]
    rfl
  rw [hfold, hsplit, List.foldl_append, List.foldl_cons, if_pos hcd]
  exact foldl_disposition _ hafter

/-! ### Parameters -/

/-- A key cannot begin at a place where its characters and those of the text differ. -/
def clashes (key s : QString) : Bool :=
  (List.zipWith (fun c d => foldCase c != foldCase d) key s).any id

theorem clashes_append {key s : QString} (h : clashes key s = true) (t : QString) :
    startsWithIgnoreCase (s ++ t) key = false := by
  rw [← Bool.not_eq_true, startsWithIgnoreCase, List.isPrefixOf_iff_prefix]
  intro hp
  induction key generalizing s with
  | nil => cases h
  | cons c key ih =>
    cases s with
    | nil => cases h
    | cons d s =>
      obtain ⟨hcd, hp⟩ := List.cons_prefix_cons.1 hp
      rw [clashes, List.zipWith_cons_cons, List.any_cons, Bool.or_eq_true] at h
      rcases h with h | h
      · exact bne_iff_ne.1 h hcd
      · exact ih h hp

theorem paramAt_none {key s : QString} (h : startsWithIgnoreCase s key = false) :
    paramAt key s = none := by
  rw [paramAt, keyAt, h, Bool.false_and, if_neg Bool.false_ne_true]

theorem headerParam_cons {key s : QString} {c : UInt16} (h : paramAt key (c :: s) = none) :
    headerParam (c :: s) key = headerParam s key := by
  rw [headerParam, h]

theorem headerParam_found {key s : QString} (hne : s ≠ []) (h : paramAt key s = some value) :
    headerParam s key = value := by
  cases s with
  | nil => exact absurd rfl hne
  | cons c s => rw [headerParam, h]

theorem headerParam_pass {key pre : QString}
    (h : pre.tails.dropLast.all (clashes key) = true) (s : QString) :
    headerParam (pre ++ s) key = headerParam s key := by
  induction pre with
  | nil => rfl
  | cons c pre ih =>
    have htails : (c :: pre).tails.dropLast = (c :: pre) :: pre.tails.dropLast := by
      cases pre <;> rfl
    rw [htails, List.all_cons, Bool.and_eq_true] at h
    have hclash := clashes_append h.1 s
    rw [List.cons_append] at hclash
    rw [List.cons_append, headerParam_cons (paramAt_none hclash), ih h.2]

theorem takeWhile_quote {value : QString} (h : 0x22 ∉ value) (rest : QString) :
    (value ++ 0x22 :: rest).takeWhile (· != 0x22) = value := by
  rw [List.takeWhile_append_of_pos]
  · rw [List.takeWhile_cons_of_neg (by decide), List.append_nil]
  · intro c hc
    exact bne_iff_ne.2 fun he => h (he ▸ hc)

theorem paramAt_quoted {key value : QString} (h : 0x22 ∉ value)
    (rest : QString) :
    paramAt key (key ++ 0x3D :: 0x22 :: (value ++ 0x22 :: rest)) = some value := by
  have hstart :
      startsWithIgnoreCase (key ++ 0x3D :: 0x22 :: (value ++ 0x22 :: rest)) key = true := by
    rw [startsWithIgnoreCase, List.isPrefixOf_iff_prefix, List.map_append]
    exact List.prefix_append _ _
  have hequals : ((key ++ 0x3D :: 0x22 :: (value ++ 0x22 :: rest)).drop key.length).dropWhile
      isPatternSpace = 0x3D :: 0x22 :: (value ++ 0x22 :: rest) := by
    rw [List.drop_left]
    rfl
  have hvalue : valueAt (0x22 :: (value ++ 0x22 :: rest)) = some value := by
    have hopen : (0x22 :: (value ++ 0x22 :: rest)).dropWhile isPatternSpace =
        0x22 :: (value ++ 0x22 :: rest) := rfl
    rw [valueAt, hopen, if_pos]
    · exact congrArg some (takeWhile_quote h rest)
    · exact ⟨rfl, List.mem_append_right _ List.mem_cons_self⟩
  rw [paramAt, keyAt, hstart, hequals]
  exact hvalue

theorem dropWhile_quote (t rest : QString)
    (h : ((t ++ 0x22 :: rest).dropWhile isPatternSpace).head? = some 0x3D) :
    (t.dropWhile isPatternSpace).head? = some 0x3D := by
  induction t with
  | nil => cases h
  | cons c t ih =>
    by_cases hc : isPatternSpace c = true
    · rw [List.cons_append, List.dropWhile_cons_of_pos hc] at h
      rw [List.dropWhile_cons_of_pos hc]
      exact ih h
    · rw [List.cons_append, List.dropWhile_cons_of_neg hc] at h
      rw [List.dropWhile_cons_of_neg hc]
      exact h

theorem keyAt_quote {key : QString} (hkey : 0x22 ∉ key.map foldCase) {s rest : QString}
    (h : keyAt key (s ++ 0x22 :: rest) = true) : keyAt key s = true := by
  rw [keyAt, Bool.and_eq_true, startsWithIgnoreCase, List.isPrefixOf_iff_prefix, beq_iff_eq] at h
  obtain ⟨hp, hequals⟩ := h
  have hlength : key.length ≤ s.length := by
    by_contra hshort
    have hlt : s.length < (key.map foldCase).length := by
      rw [List.length_map]
      omega
    obtain ⟨u, hu⟩ := hp
    have hat : (key.map foldCase)[s.length]? = some 0x22 := by
      have hleft : (key.map foldCase ++ u)[s.length]? = (key.map foldCase)[s.length]? :=
        List.getElem?_append_left hlt
      rw [← hleft, hu, List.map_append, List.map_cons,
        List.getElem?_append_right (by rw [List.length_map]), List.length_map, Nat.sub_self]
      rfl
    exact hkey (List.mem_of_getElem? hat)
  rw [List.drop_append_of_le_length hlength] at hequals
  rw [keyAt, Bool.and_eq_true, startsWithIgnoreCase, List.isPrefixOf_iff_prefix, beq_iff_eq]
  refine ⟨?_, dropWhile_quote _ rest hequals⟩
  rw [List.map_append] at hp
  refine List.prefix_of_prefix_length_le hp (List.prefix_append _ _) ?_
  rw [List.length_map, List.length_map]
  exact hlength

theorem headerParam_unmentioned {key value : QString} (hkey : 0x22 ∉ key.map foldCase)
    (h : mentions key value = false) (rest : QString) :
    headerParam (value ++ 0x22 :: rest) key = headerParam (0x22 :: rest) key := by
  induction value with
  | nil => rfl
  | cons c value ih =>
    rw [mentions, Bool.or_eq_false_iff] at h
    have hnone : paramAt key (c :: (value ++ 0x22 :: rest)) = none := by
      rw [paramAt, if_neg]
      intro hat
      have hinside := keyAt_quote (s := c :: value) hkey hat
      rw [h.1] at hinside
      cases hinside
    rw [List.cons_append, headerParam_cons hnone, ih h.2]

theorem headerParam_quoted (key : String) (hkey : utf16 key ≠ []) (h : IsQuotable value)
    (rest : QString) : headerParam (quoted key value ++ rest) (utf16 key) = value := by
  have hshape : quoted key value ++ rest =
      utf16 key ++ 0x3D :: 0x22 :: (value ++ 0x22 :: rest) := by
    rw [quoted]
    simp only [List.append_assoc, List.cons_append, List.nil_append]
  rw [hshape]
  apply headerParam_found
  · exact List.append_ne_nil_of_left_ne_nil hkey _
  · exact paramAt_quoted h.noQuote rest

theorem headerParam_mark (s : QString) :
    headerParam (utf16 "Content-Disposition: form-data; " ++ s) (utf16 "name") =
        headerParam s (utf16 "name") ∧
      headerParam (utf16 "Content-Disposition: form-data; " ++ s) (utf16 "filename") =
        headerParam s (utf16 "filename") :=
  ⟨headerParam_pass (by decide) s, headerParam_pass (by decide) s⟩

theorem filename_behind {name : QString} (h : mentions (utf16 "filename") name = false)
    (rest : QString) : headerParam (quoted "name" name ++ rest) (utf16 "filename") =
      headerParam (0x22 :: rest) (utf16 "filename") := by
  have hshape : quoted "name" name ++ rest = utf16 "name=\"" ++ (name ++ 0x22 :: rest) := by
    rw [quoted]
    simp only [List.append_assoc, List.cons_append, List.nil_append]
    rfl
  rw [hshape, headerParam_pass (by decide), headerParam_unmentioned (by decide) h]

theorem name_read (p : FormPart)
    (h : ∀ f, p.filename = some f → p.filenameFirst = true → f = p.name) :
    headerParam p.disposition (utf16 "name") = p.name := by
  rw [FormPart.disposition, (headerParam_mark _).1]
  cases hf : p.filename with
  | none =>
    have hread := headerParam_quoted "name" (by decide) p.name_ok []
    rw [List.append_nil] at hread
    exact hread
  | some f =>
    dsimp only
    split
    · next hfirst =>
      have hshape : quoted "filename" f ++ utf16 "; " ++ quoted "name" p.name =
          utf16 "file" ++ (quoted "name" f ++ (utf16 "; " ++ quoted "name" p.name)) := by
        rw [List.append_assoc]
        rfl
      rw [hshape, headerParam_pass (by decide),
        headerParam_quoted "name" (by decide) (p.filename_ok f hf), h f hf hfirst]
    · rw [List.append_assoc]
      exact headerParam_quoted "name" (by decide) p.name_ok _

theorem filename_read (p : FormPart)
    (h : p.filenameFirst = false ∨ p.filename = none → mentions (utf16 "filename") p.name = false) :
    headerParam p.disposition (utf16 "filename") = p.filename.getD [] := by
  rw [FormPart.disposition, (headerParam_mark _).2]
  cases hf : p.filename with
  | none =>
    have hread := filename_behind (h (.inr hf)) []
    rw [List.append_nil] at hread
    exact hread
  | some f =>
    dsimp only
    split
    · rw [List.append_assoc]
      exact headerParam_quoted "filename" (by decide) (p.filename_ok f hf) _
    · next hfirst =>
      have hgap : (0x22 :: (utf16 "; " ++ quoted "filename" f)) =
          utf16 "\"; " ++ quoted "filename" f := rfl
      have hread := headerParam_quoted "filename" (by decide) (p.filename_ok f hf) []
      rw [List.append_nil] at hread
      rw [List.append_assoc, filename_behind (h (.inl (Bool.eq_false_iff.2 hfirst))), hgap,
        headerParam_pass (by decide), hread]
      rfl

/-! ### What is shown -/

theorem arg_file (f : QString) :
    QString.arg (utf16 "[file: %1, %2 bytes]") f =
      utf16 "[file: " ++ (f ++ utf16 ", %2 bytes]") := by
  have hmin : (markers (utf16 "[file: %1, %2 bytes]")).min? = some 1 := by decide
  rw [QString.arg, hmin]
  rfl

theorem arg_size {f : QString} (h : ∀ m ∈ markers f, 2 < m) (n : QString) :
    QString.arg (utf16 "[file: " ++ (f ++ utf16 ", %2 bytes]")) n =
      utf16 "[file: " ++ f ++ utf16 ", " ++ n ++ utf16 " bytes]" := by
  have hmarkers : markers (utf16 "[file: " ++ (f ++ utf16 ", %2 bytes]")) = markers f ++ [2] := by
    have hfront (s : QString) : markers (utf16 "[file: " ++ s) = markers s := rfl
    rw [hfront]
    exact markers_comma f (utf16 " %2 bytes]")
  have hmin : (markers f ++ [2]).min? = some 2 := by
    rw [List.min?_eq_some_iff]
    refine ⟨List.mem_append_right _ (List.mem_singleton_self 2), fun m hm => ?_⟩
    rcases List.mem_append.1 hm with hm | hm
    · exact Nat.le_of_lt (h m hm)
    · exact (List.mem_singleton.1 hm).ge
  have hrest := replaceMarker_comma (fun m hm => Nat.ne_of_gt (h m hm)) n (utf16 " %2 bytes]")
  have hfront : replaceMarker 2 n 0 (utf16 "[file: " ++ (f ++ 0x2C :: utf16 " %2 bytes]")) =
      utf16 "[file: " ++ replaceMarker 2 n 0 (f ++ 0x2C :: utf16 " %2 bytes]") := rfl
  have hend : replaceMarker 2 n 0 (utf16 " %2 bytes]") = utf16 " " ++ (n ++ utf16 " bytes]") := rfl
  rw [QString.arg, hmarkers, hmin]
  refine hfront.trans ?_
  rw [hrest, hend]
  simp only [List.append_assoc]
  rfl

theorem paramOf_shows {b : Boundary} {p : FormPart} (h : Plain b p) : Shows p (paramOf p.text) := by
  have hne : p.lines ≠ [] := by
    intro he
    exact List.cons_ne_nil _ p.after (List.append_eq_nil_iff.1 he).2
  have hkept := disposition_kept p
  have hcd : dispositionOf (headText p.lines) = p.disposition := by
    rw [← hkept]
    apply dispositionOf_lines (lines_ok p) ?_ h.after
    rw [hkept]
    exact disposition_begins p
  have hname := name_read p fun f hf => (h.filename f hf).2.2
  have hfilename := filename_read p h.name
  rw [paramOf, FormPart.text, splitPart_text hne (lines_ok p)]
  dsimp only
  rw [hcd, hname, hfilename, Shows]
  cases hf : p.filename with
  | none =>
    refine ⟨rfl, fun hshort => ?_⟩
    show toUtf8 (QString.fromUtf8 (p.content.take kBodyPreview)) = p.content
    rw [List.take_of_length_le hshort]
    exact h.content hf hshort
  | some f =>
    obtain ⟨hf, hmarkers, -⟩ := h.filename f hf
    rw [Option.getD_some, if_pos hf, arg_file, arg_size hmarkers]
    exact ⟨rfl, rfl⟩

/-- A body is shown in parts where nothing in them is mistaken. -/
theorem multipart_shown (b : Boundary) (parts : List FormPart) (maxParams : Int)
    (h : ∀ p ∈ parts, Plain b p) :
    List.Forall₂ Shows (parts.take maxParams.toNat)
      (parseMultipart (encode b parts) b.text maxParams) := by
  rw [parseMultipart_encode b (fun p hp => (h p hp).delimited), List.forall₂_map_right_iff,
    List.forall₂_same]
  exact fun p hp => paramOf_shows (h p (List.mem_of_mem_take hp))

theorem isQuotable_ascii (h : s.all (fun c => c < 0x80 && c != 0x0D && c != 0x0A) = true)
    (hquote : 0x22 ∉ s) : IsQuotable s :=
  ⟨(isLine_ascii h).wellFormed, hquote, (isLine_ascii h).noCr, (isLine_ascii h).noLf⟩

def shortBoundary : Boundary where
  text := latin1 "B"
  nonempty := by decide
  noCr := by decide
  noLf := by decide

def titlePart : FormPart where
  name := utf16 "title"
  filename := none
  filenameFirst := false
  before := []
  after := []
  content := latin1 "Hello World"
  name_ok := isQuotable_ascii (by decide) (by decide)
  filename_ok := nofun
  lines_ok := nofun

theorem title_shown : List.Forall₂ Shows ([titlePart].take (100 : Int).toNat)
    (parseMultipart (encode shortBoundary [titlePart]) shortBoundary.text 100) :=
  multipart_shown shortBoundary [titlePart] 100 (List.forall_mem_singleton.2
    { delimited := by decide +kernel
      after := nofun
      name := fun _ => by decide
      filename := nofun
      content := fun _ _ => by decide +kernel })

def FreeOf (b : Boundary) (content : QByteArray) : Prop :=
  ¬ b.delim <+: content ∧ ¬ (0x0A :: b.delim) <:+: content

def uploadPart : FormPart where
  name := utf16 "avatar"
  filename := some (utf16 "pic.png")
  filenameFirst := true
  before := []
  after := []
  content := []
  name_ok := isQuotable_ascii (by decide) (by decide)
  filename_ok := by
    rintro f ⟨⟩
    exact isQuotable_ascii (by decide) (by decide)
  lines_ok := nofun

theorem filename_taken : ¬ ∀ (b : Boundary) (parts : List FormPart) (maxParams : Int),
    (∀ p ∈ parts, FreeOf b p.content) → parts.length ≤ maxParams →
      List.Forall₂ Shows parts (parseMultipart (encode b parts) b.text maxParams) := by
  intro h
  have hfree : ∀ p ∈ [uploadPart], FreeOf shortBoundary p.content :=
    List.forall_mem_singleton.2 ⟨by decide, by decide⟩
  have hall := h shortBoundary [uploadPart] 1 hfree (by decide)
  rw [parseMultipart_encode shortBoundary (List.forall_mem_singleton.2 (by decide +kernel))] at hall
  cases hall with
  | cons hfirst _ => exact absurd hfirst.1 (by decide +kernel)

end Nullock.InspectorLogic

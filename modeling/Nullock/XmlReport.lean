import Nullock.CookieJar
import Nullock.DecimalOrder
import Nullock.XmlReading

namespace Nullock.ControlLogic
open Xml (Element Attributes Frame IsName IsPlain Quotable Readable pop_child pop_root printed
  resolveFrom resolve)

def xmlAttrChar (c : UInt16) : QString :=
  if c < 0x20 then utf16 " "
  else if c = 0x26 then utf16 "&amp;"
  else if c = 0x3C then utf16 "&lt;"
  else if c = 0x3E then utf16 "&gt;"
  else if c = 0x22 then utf16 "&quot;"
  else if c = 0x27 then utf16 "&apos;"
  else [c]

def xmlAttrEscape (s : QString) : QString := s.flatMap xmlAttrChar

/-- A number with one decimal in ASCII, without control characters. -/
structure DecimalText where
  fixed1 : Rat → QString
  fixed1_ascii : ∀ d, ∀ c ∈ fixed1 d, 0x20 ≤ c ∧ c < 0x80

def attr (name val : QString) : QString :=
  if val.isEmpty then []
  else utf16 " " ++ name ++ utf16 "=\"" ++ xmlAttrEscape val ++ utf16 "\""

def el (tag val : QString) : QString :=
  if val.isEmpty then []
  else utf16 "    <" ++ tag ++ utf16 ">" ++ xmlAttrEscape val ++ utf16 "</" ++ tag ++ utf16 ">\n"

def str (f : QJsonObject) (k : String) : QString := (f.value k).toQString

section Report
variable (T : DecimalText)

def issueXml (v : QJsonValue) : QString :=
  let f := v.toObject
  let cvss := (f.value "cvssScore").toDouble
  utf16 "  <issue" ++ attr (utf16 "severity") (str f "severity") ++
    attr (utf16 "confidence") (str f "confidence") ++
    (if 0 < cvss then utf16 " cvss=\"" ++ xmlAttrEscape (T.fixed1 cvss) ++ utf16 "\"" else []) ++
    (if (f.value "fixed").toBool false then utf16 " fixed=\"true\"" else []) ++ utf16 ">\n" ++
    el (utf16 "name") (str f "kind") ++ el (utf16 "host") (str f "host") ++
    el (utf16 "url") (str f "url") ++ el (utf16 "cwe") (str f "cwe") ++
    el (utf16 "owasp") (str f "owasp") ++ el (utf16 "detail") (str f "summary") ++
    el (utf16 "remediation") (str f "fixSummary") ++ utf16 "  </issue>\n"

def findingsJsonToXml (findings : List QJsonValue) (project generatedIso : QString) : QString :=
  utf16 "<?xml version=\"1.0\" encoding=\"UTF-8\"?>\n" ++
    (utf16 "<nullockReport project=\"" ++ xmlAttrEscape project ++ utf16 "\" generated=\"" ++
      xmlAttrEscape generatedIso ++ utf16 "\" issueCount=\"" ++ QString.number findings.length ++
      utf16 "\">\n") ++
    findings.flatMap (issueXml T) ++ utf16 "</nullockReport>\n"

def spaced (s : QString) : QString := s.map (fun c => if c < 0x20 then 0x20 else c)

def optional (name val : QString) : List (QString × QString) :=
  if val.isEmpty then [] else [(name, val)]

def issueAttributes (v : QJsonValue) : List (QString × QString) :=
  let f := v.toObject
  let cvss := (f.value "cvssScore").toDouble
  optional (utf16 "severity") (str f "severity") ++
    (optional (utf16 "confidence") (str f "confidence") ++
      ((if 0 < cvss then [(utf16 "cvss", T.fixed1 cvss)] else []) ++
        (if (f.value "fixed").toBool false then [(utf16 "fixed", utf16 "true")] else [])))

/-- The names of an issue's children, and what a finding has the strings under. -/
def issueFields : List (QString × String) :=
  [(utf16 "name", "kind"), (utf16 "host", "host"), (utf16 "url", "url"), (utf16 "cwe", "cwe"),
    (utf16 "owasp", "owasp"), (utf16 "detail", "summary"), (utf16 "remediation", "fixSummary")]

def issueChildren (v : QJsonValue) : List (QString × QString) :=
  issueFields.flatMap (fun field => optional field.1 (str v.toObject field.2))

def spacedAttributes (l : List (QString × QString)) : Attributes :=
  l.map (fun a => (a.1, spaced a.2))

def issueElement (v : QJsonValue) : Element :=
  .element (utf16 "issue") (spacedAttributes (issueAttributes T v))
    ((issueChildren v).flatMap (fun _ => utf16 "\n    ") ++ utf16 "\n  ")
    ((issueChildren v).map (fun c => .element c.1 [] (spaced c.2) []))

def reportElement (findings : List QJsonValue) (project generatedIso : QString) : Element :=
  .element (utf16 "nullockReport")
    [(utf16 "project", spaced project), (utf16 "generated", spaced generatedIso),
      (utf16 "issueCount", QString.number findings.length)]
    (findings.flatMap (fun _ => utf16 "\n  ") ++ utf16 "\n") (findings.map (issueElement T))

/-- Characters a document may contain, once controls are spaces. -/
def IsClean (s : QString) : Prop := wellFormed s = true ∧ 0xFFFE ∉ s ∧ 0xFFFF ∉ s

instance (s : QString) : Decidable (IsClean s) := inferInstanceAs (Decidable (_ ∧ _))

def shownKeys : List String := ["severity", "confidence"] ++ issueFields.map Prod.snd

end Report

section Escaping

theorem resolve_char (c : UInt16) (s : QString) :
    resolveFrom 0 (xmlAttrChar c ++ s) =
      (resolveFrom 0 s).map ((if c < 0x20 then 0x20 else c) :: ·) := by
  rw [xmlAttrChar]
  by_cases hcontrol : c < 0x20
  · rw [if_pos hcontrol, if_pos hcontrol]
    rfl
  rw [if_neg hcontrol, if_neg hcontrol]
  split
  · rename_i h
    rw [h]
    rfl
  rename_i hamp
  split
  · rename_i h
    rw [h]
    rfl
  split
  · rename_i h
    rw [h]
    rfl
  split
  · rename_i h
    rw [h]
    rfl
  split
  · rename_i h
    rw [h]
    rfl
  · rw [List.singleton_append, resolveFrom, if_neg hamp]

theorem resolve_xmlAttrEscape (s : QString) : resolve (xmlAttrEscape s) = some (spaced s) := by
  induction s with
  | nil => rfl
  | cons c s ih =>
    rw [resolve, xmlAttrEscape] at ih
    rw [resolve, xmlAttrEscape, List.flatMap_cons, resolve_char, ih]
    rfl

/-- A character of text that is neither a control character nor one of markup. -/
def IsData (u : UInt16) : Prop := 0x20 ≤ u ∧ u ≠ 0x3C ∧ u ≠ 0x3E ∧ u ≠ 0x22

instance (u : UInt16) : Decidable (IsData u) := inferInstanceAs (Decidable (_ ∧ _))

theorem xmlAttrChar_cases (c : UInt16) :
    (c < 0x80 ∧ xmlAttrChar c ≠ [] ∧ ∀ u ∈ xmlAttrChar c, IsData u ∧ u < 0x80) ∨
      (xmlAttrChar c = [c] ∧ IsData c) := by
  rw [xmlAttrChar]
  split
  · rename_i h
    exact .inl ⟨UInt16.lt_trans h (by decide), by decide, forall_mem_of_all (by decide)⟩
  rename_i hcontrol
  split
  · rename_i h
    exact .inl ⟨h ▸ by decide, by decide, forall_mem_of_all (by decide)⟩
  split
  · rename_i h
    exact .inl ⟨h ▸ by decide, by decide, forall_mem_of_all (by decide)⟩
  rename_i hlt
  split
  · rename_i h
    exact .inl ⟨h ▸ by decide, by decide, forall_mem_of_all (by decide)⟩
  rename_i hgt
  split
  · rename_i h
    exact .inl ⟨h ▸ by decide, by decide, forall_mem_of_all (by decide)⟩
  rename_i hquote
  split
  · rename_i h
    exact .inl ⟨h ▸ by decide, by decide, forall_mem_of_all (by decide)⟩
  · exact .inr ⟨rfl, UInt16.not_lt.1 hcontrol, hlt, hgt, hquote⟩

theorem xmlAttrEscape_data (h : u ∈ xmlAttrEscape s) : IsData u := by
  obtain ⟨c, -, hu⟩ := List.mem_flatMap.1 h
  rcases xmlAttrChar_cases c with ⟨-, -, hascii⟩ | ⟨hone, hdata⟩
  · exact (hascii u hu).1
  · rw [hone] at hu
    rw [List.mem_singleton.1 hu]
    exact hdata

theorem isLegalUnit_data (h : IsData u) :
    Xml.isLegalUnit u = true ↔ u ≠ 0xFFFE ∧ u ≠ 0xFFFF := by
  obtain ⟨hlow, -⟩ := h
  have hcontrol (d : UInt16) (hd : d < 0x20) : (u == d) = false := by
    rw [beq_eq_false_iff_ne]
    rintro rfl
    exact UInt16.not_lt.2 hlow hd
  rw [Xml.isLegalUnit, hcontrol 0x09 (by decide), hcontrol 0x0A (by decide),
    hcontrol 0x0D (by decide), decide_eq_true hlow]
  simp

theorem legal_xmlAttrEscape (s : QString) :
    (xmlAttrEscape s).all Xml.isLegalUnit = true ↔ 0xFFFE ∉ s ∧ 0xFFFF ∉ s := by
  rw [List.all_eq_true]
  constructor
  · intro h
    have hkept (u : UInt16) (hu : ¬u < 0x80) (hillegal : Xml.isLegalUnit u = false) : u ∉ s := by
      intro hmem
      rcases xmlAttrChar_cases u with ⟨hascii, -⟩ | ⟨hone, -⟩
      · exact hu hascii
      · have hlegal := h u (List.mem_flatMap.2 ⟨u, hmem, hone.symm ▸ List.mem_cons_self⟩)
        rw [hillegal] at hlegal
        cases hlegal
    exact ⟨hkept _ (by decide) (by decide), hkept _ (by decide) (by decide)⟩
  · rintro ⟨hfffe, hffff⟩ u hu
    obtain ⟨c, hc, huc⟩ := List.mem_flatMap.1 hu
    apply (isLegalUnit_data (xmlAttrEscape_data hu)).2
    rcases xmlAttrChar_cases c with ⟨-, -, hascii⟩ | ⟨hone, -⟩
    · have hlt := (hascii u huc).2
      refine ⟨?_, ?_⟩
      · rintro rfl
        exact absurd hlt (by decide)
      · rintro rfl
        exact absurd hlt (by decide)
    · rw [hone] at huc
      rw [List.mem_singleton.1 huc]
      exact ⟨fun he => hfffe (he ▸ hc), fun he => hffff (he ▸ hc)⟩

theorem xmlAttrChar_low (c : UInt16) (s : QString) : ∃ d t, xmlAttrChar c ++ s = d :: t ∧
    isLowSurrogate d.toNat = isLowSurrogate c.toNat := by
  rcases xmlAttrChar_cases c with ⟨hc, hne, hascii⟩ | ⟨hone, -⟩
  · obtain ⟨d, t, he⟩ := List.exists_cons_of_ne_nil hne
    refine ⟨d, t ++ s, by rw [he]; rfl, ?_⟩
    have hd := (hascii d (he ▸ List.mem_cons_self)).2
    rw [(ascii_alone hd).2, (ascii_alone hc).2]
  · exact ⟨c, s, by rw [hone]; rfl, rfl⟩

theorem wellFormed_ascii_append (h : ∀ c ∈ a, c < 0x80) (s : QString) :
    wellFormed (a ++ s) = wellFormed s := by
  induction a with
  | nil => rfl
  | cons c a ih =>
    obtain ⟨hhigh, hlow⟩ := ascii_alone (h c List.mem_cons_self)
    rw [← ih (fun d hd => h d (List.mem_cons_of_mem c hd)), wellFormed, wellFormed]
    exact wellFormedUnits_cons hhigh hlow _

theorem wellFormed_xmlAttrEscape (s : QString) : wellFormed (xmlAttrEscape s) = wellFormed s := by
  induction hn : s.length using Nat.strongRecOn generalizing s with
  | ind n ih =>
    cases s with
    | nil => rfl
    | cons c s =>
      rw [List.length_cons] at hn
      have hrest := ih s.length (by omega) s rfl
      rw [xmlAttrEscape, List.flatMap_cons, ← xmlAttrEscape]
      rcases xmlAttrChar_cases c with ⟨hc, -, hascii⟩ | ⟨hone, -⟩
      · rw [wellFormed_ascii_append (fun u hu => (hascii u hu).2), hrest]
        exact (wellFormed_ascii_append (a := [c]) (List.forall_mem_singleton.2 hc) s).symm
      · rw [hone, List.singleton_append, wellFormed, wellFormed, List.map_cons, List.map_cons]
        cases hhigh : isHighSurrogate c.toNat with
        | false =>
          rw [wellFormedUnits.eq_def, wellFormedUnits.eq_def (c.toNat :: s.map UInt16.toNat)]
          dsimp only
          rw [hhigh, if_neg Bool.false_ne_true, if_neg Bool.false_ne_true]
          exact congrArg _ hrest
        | true =>
          cases s with
          | nil => rfl
          | cons d s =>
            rw [List.length_cons] at hn
            have hpair := ih s.length (by omega) s rfl
            obtain ⟨e, t, he, hlow⟩ := xmlAttrChar_low d (xmlAttrEscape s)
            rw [xmlAttrEscape, List.flatMap_cons, ← xmlAttrEscape, he, List.map_cons, List.map_cons,
              wellFormedUnits, wellFormedUnits, hhigh, if_pos rfl, if_pos rfl, hlow]
            rcases xmlAttrChar_cases d with ⟨hd, -⟩ | ⟨hone, -⟩
            · rw [(ascii_alone hd).2]
              rfl
            · rw [hone, List.singleton_append] at he
              rw [← (List.cons.inj he).2]
              exact congrArg _ hpair

theorem isLegal_xmlAttrEscape (s : QString) :
    Xml.isLegal (xmlAttrEscape s) = true ↔ IsClean s := by
  rw [Xml.isLegal, Bool.and_eq_true, wellFormed_xmlAttrEscape, legal_xmlAttrEscape]
  rfl

end Escaping

section Reading

theorem quotable_xmlAttrEscape (s : QString) : Quotable (xmlAttrEscape s) (spaced s) := by
  have hnormal : Xml.normalize (xmlAttrEscape s) = xmlAttrEscape s := by
    refine (List.map_congr_left fun c hc => ?_).trans (List.map_id _)
    split
    · rename_i hblank
      have hlow := (xmlAttrEscape_data hc).1
      simp only [Xml.isSpace, Bool.or_eq_true, beq_iff_eq] at hblank
      rcases hblank with ((rfl | rfl) | rfl) | rfl
      · rfl
      · exact absurd hlow (by decide)
      · exact absurd hlow (by decide)
      · exact absurd hlow (by decide)
    · rfl
  refine ⟨fun h => (xmlAttrEscape_data h).2.1 rfl, fun h => (xmlAttrEscape_data h).2.2.2 rfl, ?_⟩
  rw [hnormal, resolve_xmlAttrEscape]

theorem readable_xmlAttrEscape (s : QString) : Readable (xmlAttrEscape s) (spaced s) :=
  ⟨fun h => (xmlAttrEscape_data h).2.1 rfl, fun h => (xmlAttrEscape_data h).2.2.1 rfl,
    resolve_xmlAttrEscape s⟩

theorem xmlAttrEscape_self (h : ∀ c ∈ s, xmlAttrChar c = [c]) : xmlAttrEscape s = s := by
  induction s with
  | nil => rfl
  | cons c s ih =>
    rw [xmlAttrEscape, List.flatMap_cons, h c List.mem_cons_self, ← xmlAttrEscape,
      ih (fun d hd => h d (List.mem_cons_of_mem c hd))]
    rfl

def written (l : List (QString × QString)) : List (QString × QString) :=
  l.map (fun a => (a.1, xmlAttrEscape a.2))

def printedAttributes (l : List (QString × QString)) : QString :=
  (written l).flatMap (fun w => printed w.1 w.2)

theorem quoted_eq (name val : QString) :
    utf16 " " ++ name ++ utf16 "=\"" ++ xmlAttrEscape val ++ utf16 "\"" =
      printedAttributes [(name, val)] := by
  rw [printedAttributes, written, List.map_singleton, List.flatMap_singleton]
  simp [printed, utf16]

theorem attr_eq (name val : QString) : attr name val = printedAttributes (optional name val) := by
  rw [attr, optional]
  split
  · rfl
  · exact quoted_eq name val

theorem printedAttributes_append (a b : List (QString × QString)) :
    printedAttributes (a ++ b) = printedAttributes a ++ printedAttributes b := by
  rw [printedAttributes, written, List.map_append, List.flatMap_append]
  rfl

def printedChildren (l : List (QString × QString)) : QString :=
  l.flatMap (fun c => utf16 "    <" ++ c.1 ++ utf16 ">" ++ xmlAttrEscape c.2 ++ utf16 "</" ++ c.1 ++
    utf16 ">\n")

theorem el_eq (tag val : QString) : el tag val = printedChildren (optional tag val) := by
  rw [el, optional]
  split
  · rfl
  · exact (List.append_nil _).symm

variable (T : DecimalText)

theorem printedChildren_append (a b : List (QString × QString)) :
    printedChildren (a ++ b) = printedChildren a ++ printedChildren b := List.flatMap_append

theorem issueXml_eq (v : QJsonValue) : issueXml T v =
    utf16 "  <issue" ++ (printedAttributes (issueAttributes T v) ++ (utf16 ">\n" ++
      (printedChildren (issueChildren v) ++ utf16 "  </issue>\n"))) := by
  have hcvss (d : Rat) : (if 0 < d then utf16 " cvss=\"" ++ xmlAttrEscape (T.fixed1 d) ++ utf16 "\""
      else []) = printedAttributes (if 0 < d then [(utf16 "cvss", T.fixed1 d)] else []) := by
    split
    · exact quoted_eq (utf16 "cvss") (T.fixed1 d)
    · rfl
  have hfixed (b : Bool) : (if b then utf16 " fixed=\"true\"" else []) =
      printedAttributes (if b then [(utf16 "fixed", utf16 "true")] else []) := by
    cases b with
    | true => decide
    | false => rfl
  rw [issueXml, hcvss, hfixed]
  simp only [issueAttributes, issueChildren, issueFields, List.flatMap_cons, List.flatMap_nil,
    List.append_nil, attr_eq, el_eq, printedAttributes_append, printedChildren_append,
    List.append_assoc]

def Named (l : List (QString × QString)) : Prop := ∀ a ∈ l, IsName a.1

theorem named_optional (h : IsName name) (val : QString) : Named (optional name val) := by
  rw [optional]
  split
  · exact fun a ha => absurd ha List.not_mem_nil
  · exact List.forall_mem_singleton.2 h

theorem named_append (ha : Named a) (hb : Named b) : Named (a ++ b) := fun x hx =>
  (List.mem_append.1 hx).elim (ha x) (hb x)

theorem named_issueChildren (v : QJsonValue) : Named (issueChildren v) := by
  have hfields : ∀ field ∈ issueFields, IsName field.1 := by decide
  intro a ha
  obtain ⟨field, hfield, hin⟩ := List.mem_flatMap.1 ha
  exact named_optional (hfields field hfield) _ a hin

theorem named_issueAttributes (v : QJsonValue) : Named (issueAttributes T v) := by
  apply named_append (named_optional (by decide) _)
  apply named_append (named_optional (by decide) _)
  have hnames : IsName (utf16 "cvss") ∧ IsName (utf16 "fixed") := by decide
  apply named_append
  · split
    · exact List.forall_mem_singleton.2 hnames.1
    · exact fun a ha => absurd ha List.not_mem_nil
  · split
    · exact List.forall_mem_singleton.2 hnames.2
    · exact fun a ha => absurd ha List.not_mem_nil

theorem optional_keys (name val : QString) : ((optional name val).map Prod.fst).Sublist [name] := by
  rw [optional]
  split
  · exact List.nil_sublist _
  · exact List.Sublist.refl _

theorem issueAttributes_nodup (v : QJsonValue) : ((issueAttributes T v).map Prod.fst).Nodup := by
  have hall : [utf16 "severity", utf16 "confidence", utf16 "cvss", utf16 "fixed"].Nodup := by
    decide
  refine List.Nodup.sublist ?_ hall
  rw [issueAttributes, List.map_append, List.map_append, List.map_append]
  apply List.Sublist.append (optional_keys (utf16 "severity") _)
  apply List.Sublist.append (optional_keys (utf16 "confidence") _)
  refine List.Sublist.append (?_ : List.Sublist _ [utf16 "cvss"]) ?_
  · split
    · exact List.Sublist.refl _
    · exact List.nil_sublist _
  · split
    · exact List.Sublist.refl _
    · exact List.nil_sublist _

theorem written_values {l : List (QString × QString)} (h : Named l) :
    List.Forall₂ (fun w a => w.1 = a.1 ∧ IsName w.1 ∧ Quotable w.2 a.2) (written l)
      (spacedAttributes l) := by
  induction l with
  | nil => exact .nil
  | cons a l ih =>
    exact .cons ⟨rfl, h a List.mem_cons_self, quotable_xmlAttrEscape a.2⟩
      (ih (fun x hx => h x (List.mem_cons_of_mem a hx)))

def leaf (c : QString × QString) : Element := .element c.1 [] (spaced c.2) []

variable {stack : List Frame} {root : Option Element}

theorem run_printedChildren {l : List (QString × QString)} (h : Named l) (frame : Frame) :
    Xml.run ⟨.text [0x0A], frame :: stack, root⟩ (printedChildren l) =
      some ⟨.text [0x0A], { frame with
        text := frame.text ++ l.flatMap (fun _ => utf16 "\n    ")
        children := frame.children ++ l.map leaf } :: stack, root⟩ := by
  induction l generalizing frame with
  | nil =>
    rw [List.flatMap_nil, List.map_nil, List.append_nil, List.append_nil]
    rfl
  | cons c l ih =>
    have hline : utf16 "    <" ++ c.1 ++ utf16 ">" ++ xmlAttrEscape c.2 ++ utf16 "</" ++ c.1 ++
        utf16 ">\n" = utf16 "    " ++ ((0x3C :: (c.1 ++ (0x3E :: (xmlAttrEscape c.2 ++
          (0x3C :: 0x2F :: (c.1 ++ [0x3E])))))) ++ [0x0A]) := by
      simp [utf16]
    have hblank : Readable (utf16 "\n    ") (utf16 "\n    ") :=
      ⟨by decide, by decide, by decide⟩
    have hleaf : Xml.run ⟨.text (utf16 "\n    "), frame :: stack, root⟩ (0x3C :: (c.1 ++ (0x3E ::
        (xmlAttrEscape c.2 ++ (0x3C :: 0x2F :: (c.1 ++ [0x3E])))))) =
        some ⟨.text [], { frame with
          text := frame.text ++ utf16 "\n    "
          children := frame.children ++ [leaf c] } :: stack, root⟩ :=
      Xml.run_leaf hblank (h c List.mem_cons_self) (readable_xmlAttrEscape c.2)
    rw [printedChildren, List.flatMap_cons, ← printedChildren, hline, List.append_assoc,
      Xml.run_append (Xml.run_text (by decide) _), List.append_assoc]
    refine (Xml.run_append hleaf _).trans ?_
    rw [Xml.run_append (Xml.run_text (by decide) _), List.nil_append,
      ih (fun x hx => h x (List.mem_cons_of_mem c hx))]
    simp only [List.append_assoc, List.flatMap_cons, List.map_cons, List.singleton_append, leaf]

theorem flush_blank {frame : Frame} {mode : Xml.Mode} {blank : QString}
    (h : Readable blank blank) :
    Xml.State.flush ⟨mode, frame :: stack, root⟩ blank =
      some ⟨mode, { frame with text := frame.text ++ blank } :: stack, root⟩ :=
  Xml.flush_data h.2.1 h.2.2 mode frame

theorem run_issueXml (v : QJsonValue) (frame : Frame) :
    Xml.run ⟨.text [0x0A], frame :: stack, root⟩ (issueXml T v) =
      some ⟨.text [0x0A], { frame with
        text := frame.text ++ utf16 "\n  "
        children := frame.children ++ [issueElement T v] } :: stack, root⟩ := by
  have hblank : Readable (utf16 "\n  ") (utf16 "\n  ") := ⟨by decide, by decide, by decide⟩
  have hname : IsName (utf16 "issue") := by decide
  have hkeys : ((spacedAttributes (issueAttributes T v)).map Prod.fst).Nodup := by
    rw [spacedAttributes, List.map_map]
    exact issueAttributes_nodup T v
  let opened : Frame :=
    { name := utf16 "issue", attributes := spacedAttributes (issueAttributes T v) }
  let filled : Frame := { opened with
    text := (issueChildren v).flatMap (fun _ => utf16 "\n    ")
    children := (issueChildren v).map leaf }
  have hopen : Xml.run ⟨.text (utf16 "\n  "), frame :: stack, root⟩ (0x3C :: (utf16 "issue" ++
      (printedAttributes (issueAttributes T v) ++ [0x3E]))) =
      some ⟨.text [], opened :: { frame with text := frame.text ++ utf16 "\n  " } :: stack, root⟩ :=
    Xml.run_open (flush_blank hblank) hname (written_values (named_issueAttributes T v)) hkeys
      (.inl (List.cons_ne_nil _ _))
  have hclose : Xml.run ⟨.text (utf16 "\n  "),
      filled :: { frame with text := frame.text ++ utf16 "\n  " } :: stack, root⟩
      (0x3C :: 0x2F :: (utf16 "issue" ++ [0x3E])) =
      some ⟨.text [], { frame with
        text := frame.text ++ utf16 "\n  "
        children := frame.children ++ [issueElement T v] } :: stack, root⟩ :=
    Xml.run_close (flush_blank hblank) hname (pop_child _ _ _)
  have hsplit : issueXml T v = utf16 "  " ++ ((0x3C :: (utf16 "issue" ++
      (printedAttributes (issueAttributes T v) ++ [0x3E]))) ++ ([0x0A] ++
        (printedChildren (issueChildren v) ++ (utf16 "  " ++
          ((0x3C :: 0x2F :: (utf16 "issue" ++ [0x3E])) ++ [0x0A]))))) := by
    rw [issueXml_eq]
    simp [utf16]
  rw [hsplit, Xml.run_append (Xml.run_text (by decide) _)]
  refine (Xml.run_append hopen _).trans ?_
  rw [Xml.run_append (Xml.run_text (by decide) _), List.nil_append,
    Xml.run_append (run_printedChildren (named_issueChildren v) _),
    Xml.run_append (Xml.run_text (by decide) _)]
  refine (Xml.run_append hclose _).trans ?_
  exact Xml.run_text (by decide) _

theorem run_issues (findings : List QJsonValue) (frame : Frame) :
    Xml.run ⟨.text [0x0A], frame :: stack, root⟩ (findings.flatMap (issueXml T)) =
      some ⟨.text [0x0A], { frame with
        text := frame.text ++ findings.flatMap (fun _ => utf16 "\n  ")
        children := frame.children ++ findings.map (issueElement T) } :: stack, root⟩ := by
  induction findings generalizing frame with
  | nil =>
    rw [List.flatMap_nil, List.flatMap_nil, List.map_nil, List.append_nil, List.append_nil]
    rfl
  | cons v findings ih =>
    rw [List.flatMap_cons, Xml.run_append (run_issueXml T v frame), ih]
    simp only [List.append_assoc, List.flatMap_cons, List.map_cons, List.singleton_append]

def rootAttributes (findings : List QJsonValue) (project generatedIso : QString) :
    List (QString × QString) :=
  [(utf16 "project", project), (utf16 "generated", generatedIso),
    (utf16 "issueCount", QString.number findings.length)]

theorem named_rootAttributes (findings : List QJsonValue) (project generatedIso : QString) :
    Named (rootAttributes findings project generatedIso) := by
  have hnames : IsName (utf16 "project") ∧ IsName (utf16 "generated") ∧
      IsName (utf16 "issueCount") := by decide
  intro a ha
  simp only [rootAttributes, List.mem_cons, List.not_mem_nil, or_false] at ha
  rcases ha with rfl | rfl | rfl
  · exact hnames.1
  · exact hnames.2.1
  · exact hnames.2.2

theorem number_escape (n : Nat) : xmlAttrEscape (QString.number n) = QString.number n ∧
    spaced (QString.number n) = QString.number n := by
  have hdigit : ∀ c ∈ QString.number n, 0x30 ≤ c ∧ c ≤ 0x39 := by
    intro c hc
    have hc := number_digits n c hc
    rw [isDigit, Bool.and_eq_true, decide_eq_true_eq, decide_eq_true_eq] at hc
    exact hc
  have hcontrol (c : UInt16) (hc : 0x30 ≤ c) : ¬c < 0x20 := fun h =>
    UInt16.not_lt.2 hc (UInt16.lt_trans h (by decide))
  have hne (c d : UInt16) (hc : 0x30 ≤ c ∧ c ≤ 0x39) (hd : ¬(0x30 ≤ d ∧ d ≤ 0x39)) : c ≠ d :=
    fun he => hd (he ▸ hc)
  refine ⟨xmlAttrEscape_self (fun c hc => ?_), ?_⟩
  · have hc := hdigit c hc
    rw [xmlAttrChar, if_neg (hcontrol c hc.1), if_neg (hne c _ hc (by decide)),
      if_neg (hne c _ hc (by decide)), if_neg (hne c _ hc (by decide)),
      if_neg (hne c _ hc (by decide)), if_neg (hne c _ hc (by decide))]
  · refine (List.map_congr_left fun c hc => ?_).trans (List.map_id _)
    exact if_neg (hcontrol c (hdigit c hc).1)

def reportBody (findings : List QJsonValue) (project generatedIso : QString) : QString :=
  [0x0A] ++ ((0x3C :: (utf16 "nullockReport" ++
    (printedAttributes (rootAttributes findings project generatedIso) ++ [0x3E]))) ++ ([0x0A] ++
      (findings.flatMap (issueXml T) ++
        ((0x3C :: 0x2F :: (utf16 "nullockReport" ++ [0x3E])) ++ [0x0A]))))

theorem findingsJsonToXml_eq (findings : List QJsonValue) (project generatedIso : QString) :
    findingsJsonToXml T findings project generatedIso =
      Xml.declaration ++ reportBody T findings project generatedIso := by
  simp [findingsJsonToXml, Xml.declaration, reportBody, printedAttributes, written, rootAttributes,
    printed, (number_escape findings.length).1, utf16]

theorem run_reportBody (findings : List QJsonValue) (project generatedIso : QString) :
    Xml.run {} (reportBody T findings project generatedIso) =
      some ⟨.text [0x0A], [], some (reportElement T findings project generatedIso)⟩ := by
  have hname : IsName (utf16 "nullockReport") := by decide
  have hdistinct : [utf16 "project", utf16 "generated", utf16 "issueCount"].Nodup := by decide
  have hblank : Readable [0x0A] [0x0A] := ⟨by decide, by decide, by decide⟩
  let opened : Frame := {
    name := utf16 "nullockReport"
    attributes := spacedAttributes (rootAttributes findings project generatedIso) }
  let filled : Frame := { opened with
    text := findings.flatMap (fun _ => utf16 "\n  ")
    children := findings.map (issueElement T) }
  have hopen : Xml.run ⟨.text [0x0A], [], none⟩ (0x3C :: (utf16 "nullockReport" ++
      (printedAttributes (rootAttributes findings project generatedIso) ++ [0x3E]))) =
      some ⟨.text [], [opened], none⟩ :=
    Xml.run_open rfl hname (written_values (named_rootAttributes findings project generatedIso))
      hdistinct (.inr rfl)
  have hattributes : spacedAttributes (rootAttributes findings project generatedIso) =
      [(utf16 "project", spaced project), (utf16 "generated", spaced generatedIso),
        (utf16 "issueCount", QString.number findings.length)] := by
    rw [spacedAttributes, rootAttributes, List.map_cons, List.map_cons, List.map_singleton,
      (number_escape findings.length).2]
  have helement : Frame.close { filled with text := filled.text ++ [0x0A] } =
      reportElement T findings project generatedIso := by
    rw [reportElement, ← hattributes]
    rfl
  have hclose : Xml.run ⟨.text [0x0A], [filled], none⟩
      (0x3C :: 0x2F :: (utf16 "nullockReport" ++ [0x3E])) =
      some ⟨.text [], [], some (reportElement T findings project generatedIso)⟩ := by
    rw [← helement]
    exact Xml.run_close (flush_blank hblank) hname (pop_root _ _)
  rw [reportBody, Xml.run_append (Xml.run_text (by decide) _)]
  refine (Xml.run_append hopen _).trans ?_
  rw [Xml.run_append (Xml.run_text (by decide) _), List.nil_append,
    Xml.run_append (run_issues T findings _)]
  refine (Xml.run_append hclose _).trans ?_
  exact Xml.run_text (by decide) _

end Reading

section Exact
variable (T : DecimalText)

theorem plain_xmlAttrEscape (h : IsClean s) : IsPlain (xmlAttrEscape s) :=
  ⟨(isLegal_xmlAttrEscape s).2 h, fun hcr => absurd (xmlAttrEscape_data hcr).1 (by decide)⟩

theorem clean_ascii (h : ∀ c ∈ s, c < 0x80) : IsClean s :=
  ⟨wellFormed_ascii h, fun hc => absurd (h _ hc) (by decide), fun hc => absurd (h _ hc) (by decide)⟩

theorem clean_nil : IsClean [] := by decide

theorem plain_printedAttributes {l : List (QString × QString)} (hnamed : Named l)
    (h : ∀ a ∈ l, IsClean a.2) : IsPlain (printedAttributes l) := by
  apply IsPlain.flatMap
  intro w hw
  obtain ⟨a, ha, rfl⟩ := List.mem_map.1 hw
  exact IsPlain.printed (hnamed a ha) (plain_xmlAttrEscape (h a ha))

theorem mem_optional (h : a ∈ optional name val) : a = (name, val) ∧ val ≠ [] := by
  rw [optional] at h
  split at h
  · cases h
  · rename_i hne
    exact ⟨List.mem_singleton.1 h, fun he => hne (he ▸ rfl)⟩

theorem optional_mem (h : val ≠ []) : (name, val) ∈ optional name val := by
  rw [optional, if_neg (fun he => h (List.isEmpty_iff.1 he))]
  exact List.mem_cons_self

theorem clean_issueAttributes (h : ∀ k ∈ shownKeys, IsClean (str v.toObject k)) :
    ∀ a ∈ issueAttributes T v, IsClean a.2 := by
  intro a ha
  rcases List.mem_append.1 ha with ha | ha
  · rw [(mem_optional ha).1]
    exact h _ (by decide)
  rcases List.mem_append.1 ha with ha | ha
  · rw [(mem_optional ha).1]
    exact h _ (by decide)
  rcases List.mem_append.1 ha with ha | ha
  · split at ha
    · rw [List.mem_singleton.1 ha]
      exact clean_ascii (fun c hc => (T.fixed1_ascii _ c hc).2)
    · cases ha
  · split at ha
    · rw [List.mem_singleton.1 ha]
      exact clean_ascii (forall_mem_of_all (by decide))
    · cases ha

theorem clean_issueChildren (h : ∀ k ∈ shownKeys, IsClean (str v.toObject k)) :
    ∀ a ∈ issueChildren v, IsClean a.2 := by
  intro a ha
  obtain ⟨field, hfield, hin⟩ := List.mem_flatMap.1 ha
  rw [(mem_optional hin).1]
  exact h _ (List.mem_append_right _ (List.mem_map_of_mem hfield))

theorem plain_printedChildren {l : List (QString × QString)} (hnamed : Named l)
    (h : ∀ a ∈ l, IsClean a.2) : IsPlain (printedChildren l) := by
  apply IsPlain.flatMap
  intro c hc
  have hopen : IsPlain (utf16 "    <") := IsPlain.of_ascii (forall_mem_of_all (by decide))
  have hend : IsPlain (utf16 ">") := IsPlain.of_ascii (forall_mem_of_all (by decide))
  have hclose : IsPlain (utf16 "</") := IsPlain.of_ascii (forall_mem_of_all (by decide))
  have hline : IsPlain (utf16 ">\n") := IsPlain.of_ascii (forall_mem_of_all (by decide))
  exact (((((hopen.append (hnamed c hc).plain).append hend).append
    (plain_xmlAttrEscape (h c hc))).append hclose).append (hnamed c hc).plain).append hline

theorem plain_issueXml (h : ∀ k ∈ shownKeys, IsClean (str v.toObject k)) :
    IsPlain (issueXml T v) := by
  have hopen : IsPlain (utf16 "  <issue") := IsPlain.of_ascii (forall_mem_of_all (by decide))
  have hline : IsPlain (utf16 ">\n") := IsPlain.of_ascii (forall_mem_of_all (by decide))
  have hclose : IsPlain (utf16 "  </issue>\n") := IsPlain.of_ascii (forall_mem_of_all (by decide))
  rw [issueXml_eq]
  apply hopen.append
  apply (plain_printedAttributes (named_issueAttributes T v) (clean_issueAttributes T h)).append
  apply hline.append
  exact (plain_printedChildren (named_issueChildren v) (clean_issueChildren h)).append hclose

def Clean (findings : List QJsonValue) (project generatedIso : QString) : Prop :=
  IsClean project ∧ IsClean generatedIso ∧
    ∀ v ∈ findings, ∀ k ∈ shownKeys, IsClean (str v.toObject k)

theorem plain_reportBody (h : Clean findings project generatedIso) :
    IsPlain (reportBody T findings project generatedIso) := by
  obtain ⟨hproject, hiso, hfindings⟩ := h
  have hline : IsPlain [0x0A] := IsPlain.of_ascii (forall_mem_of_all (by decide))
  have hopen : IsPlain (0x3C :: utf16 "nullockReport") :=
    IsPlain.of_ascii (forall_mem_of_all (by decide))
  have hend : IsPlain [0x3E] := IsPlain.of_ascii (forall_mem_of_all (by decide))
  have hclose : IsPlain (0x3C :: 0x2F :: (utf16 "nullockReport" ++ [0x3E])) :=
    IsPlain.of_ascii (forall_mem_of_all (by decide))
  have hroot : ∀ a ∈ rootAttributes findings project generatedIso, IsClean a.2 := by
    intro a ha
    simp only [rootAttributes, List.mem_cons, List.not_mem_nil, or_false] at ha
    rcases ha with rfl | rfl | rfl
    · exact hproject
    · exact hiso
    · refine clean_ascii (fun c hc => ?_)
      have hdigit := number_digits findings.length c hc
      rw [isDigit, Bool.and_eq_true, decide_eq_true_eq, decide_eq_true_eq] at hdigit
      exact UInt16.lt_of_le_of_lt hdigit.2 (by decide)
  apply hline.append
  apply IsPlain.append
  · apply IsPlain.append hopen
    exact (plain_printedAttributes (named_rootAttributes _ _ _) hroot).append hend
  · apply hline.append
    apply (IsPlain.flatMap (fun v hv => plain_issueXml T (hfindings v hv))).append
    exact hclose.append hline

theorem shows_printedAttributes {l : List (QString × QString)} (h : a ∈ l) :
    Xml.Shows (printedAttributes l) (xmlAttrEscape a.2) := by
  apply Xml.Shows.flatMap (x := (a.1, xmlAttrEscape a.2))
    (List.mem_map_of_mem (f := fun a : QString × QString => (a.1, xmlAttrEscape a.2)) h)
  exact ⟨0x20 :: (a.1 ++ [0x3D]), 0x22, 0x22, [], by decide, by decide, by simp [printed]⟩

theorem shows_printedChildren {l : List (QString × QString)} (h : c ∈ l) :
    Xml.Shows (printedChildren l) (xmlAttrEscape c.2) := by
  apply Xml.Shows.flatMap h
  exact ⟨utf16 "    <" ++ c.1, 0x3E, 0x3C, 0x2F :: (c.1 ++ utf16 ">\n"), by decide, by decide,
    by simp [utf16]⟩

theorem clean_of_optional (name : QString) (hs : ∀ e, Xml.Shows s e → Xml.isLegal e = true)
    (h : (name, val) ∈ optional name val → Xml.Shows s (xmlAttrEscape val)) : IsClean val := by
  by_cases hnil : val = []
  · rw [hnil]
    exact clean_nil
  · exact (isLegal_xmlAttrEscape val).1 (hs _ (h (optional_mem hnil)))

theorem clean_of_issueXml (hs : ∀ e, Xml.Shows (issueXml T v) e → Xml.isLegal e = true) :
    ∀ k ∈ shownKeys, IsClean (str v.toObject k) := by
  rw [issueXml_eq] at hs
  have hattribute (name : QString) {val : QString}
      (ha : ∀ x ∈ optional name val, x ∈ issueAttributes T v) : IsClean val := by
    refine clean_of_optional name hs (fun hin => ?_)
    exact ((shows_printedAttributes (ha _ hin)).append_right _).append_left _
  intro k hk
  rcases List.mem_append.1 hk with hk | hk
  · simp only [List.mem_cons, List.not_mem_nil, or_false] at hk
    rcases hk with rfl | rfl
    · exact hattribute (utf16 "severity") (fun x hx => List.mem_append_left _ hx)
    · exact hattribute (utf16 "confidence")
        (fun x hx => List.mem_append_right _ (List.mem_append_left _ hx))
  · obtain ⟨field, hfield, rfl⟩ := List.mem_map.1 hk
    refine clean_of_optional field.1 hs (fun hin => ?_)
    have hchild : (field.1, str v.toObject field.2) ∈ issueChildren v :=
      List.mem_flatMap.2 ⟨field, hfield, hin⟩
    have hshows := (shows_printedChildren hchild).append_right (utf16 "  </issue>\n")
    exact ((hshows.append_left _).append_left _).append_left _

theorem clean_of_report
    (hs : Xml.isLegal (findingsJsonToXml T findings project generatedIso) = true) :
    Clean findings project generatedIso := by
  have hroot (a : QString × QString) (ha : a ∈ rootAttributes findings project generatedIso) :
      IsClean a.2 := by
    have hshows : Xml.Shows (findingsJsonToXml T findings project generatedIso)
        (xmlAttrEscape a.2) := by
      rw [findingsJsonToXml_eq, reportBody]
      have htag := ((shows_printedAttributes ha).append_right [0x3E]).append_left
        (0x3C :: utf16 "nullockReport")
      exact ((htag.append_right _).append_left _).append_left _
    exact (isLegal_xmlAttrEscape a.2).1 (hshows.legal hs)
  refine ⟨hroot _ List.mem_cons_self, hroot _ (List.mem_cons_of_mem _ List.mem_cons_self), ?_⟩
  intro v hv
  apply clean_of_issueXml T
  intro e he
  have hshows : Xml.Shows (findingsJsonToXml T findings project generatedIso) e := by
    rw [findingsJsonToXml_eq, reportBody]
    have hissues := (Xml.Shows.flatMap hv he).append_right
      ((0x3C :: 0x2F :: (utf16 "nullockReport" ++ [0x3E])) ++ [0x0A])
    exact (((hissues.append_left _).append_left _).append_left _).append_left _
  exact hshows.legal hs

/-- The report is well formed exactly if all strings are text for a document. -/
theorem report_read_iff (findings : List QJsonValue) (project generatedIso : QString) :
    Xml.read (findingsJsonToXml T findings project generatedIso) =
        some (reportElement T findings project generatedIso) ↔
      Clean findings project generatedIso := by
  constructor
  · intro h
    rw [Xml.read] at h
    split at h
    · rename_i hlegal
      exact clean_of_report T hlegal.1
    · cases h
  · intro h
    have hplain := plain_reportBody T h
    have hdeclaration : IsPlain Xml.declaration := IsPlain.of_ascii (forall_mem_of_all (by decide))
    have hlegal := (hdeclaration.append hplain).1
    have hprefix : Xml.declaration.isPrefixOf
        (Xml.declaration ++ reportBody T findings project generatedIso) = true :=
      List.isPrefixOf_iff_prefix.2 ⟨_, rfl⟩
    rw [findingsJsonToXml_eq, Xml.read, if_pos ⟨hlegal, hprefix⟩, List.drop_left,
      Xml.lineEnds_plain hplain.2, run_reportBody]
    rfl

def tenths : DecimalText where
  fixed1 d :=
    let n := (d * 10 + 1 / 2).floor.toNat
    QString.number (n / 10 : Nat) ++ utf16 "." ++ QString.number (n % 10 : Nat)
  fixed1_ascii d c hc := by
    have hdigits (n : Nat) (h : c ∈ QString.number n) : 0x20 ≤ c ∧ c < 0x80 := by
      have hdigit := number_digits n c h
      rw [isDigit, Bool.and_eq_true, decide_eq_true_eq, decide_eq_true_eq] at hdigit
      exact ⟨UInt16.le_trans (by decide) hdigit.1, UInt16.lt_of_le_of_lt hdigit.2 (by decide)⟩
    rcases List.mem_append.1 hc with hc | hc
    · rcases List.mem_append.1 hc with hc | hc
      · exact hdigits _ hc
      · rw [List.mem_singleton.1 hc]
        decide
    · exact hdigits _ hc

/-- A character that no document may contain goes into the report as it is. -/
theorem noncharacter_kept :
    Xml.isLegal (findingsJsonToXml tenths [.object [(utf16 "kind", .string [0xFFFE])]] (utf16 "p")
      (utf16 "t")) = false ∧
    Xml.read (findingsJsonToXml tenths [.object [(utf16 "kind", .string [0xFFFE])]] (utf16 "p")
      (utf16 "t")) = none := by
  have hillegal : Xml.isLegal (findingsJsonToXml tenths
      [.object [(utf16 "kind", .string [0xFFFE])]] (utf16 "p") (utf16 "t")) = false := by
    rw [Bool.eq_false_iff]
    intro hlegal
    have hclean := (clean_of_report tenths hlegal).2.2 _ List.mem_cons_self "kind" (by decide)
    exact hclean.2.1 (by decide)
  refine ⟨hillegal, ?_⟩
  rw [Xml.read, if_neg]
  rw [hillegal]
  exact fun h => Bool.false_ne_true h.1

end Exact

end Nullock.ControlLogic

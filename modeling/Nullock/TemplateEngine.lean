import Nullock.RewriteBytes
import Nullock.CookieJar
import Nullock.Intruder

namespace Nullock.TemplateEngine
open SessionRules ScopeLogic QJsonObject
open SessionManager (toArray)

def kMaxScan : Nat := 512 * 1024

structure Matcher where
  type : QString
  part : QString
  values : List QString
  condition : QString
  negative : Bool

structure Extractor where
  type : QString
  part : QString
  name : QString
  values : List QString

structure Template where
  id : QString
  name : QString
  severity : QString
  matchersCondition : QString
  matchers : List Matcher
  extractors : List Extractor

structure Response where
  statusCode : Int
  headersText : QString
  body : QString

structure MatchResult where
  matched : Bool
  extracted : List (QString × List QString)

/-- What the engine calls of expressions and numbers. -/
structure EngineLibrary where
  text : TextLibrary
  regex : RegexEngine
  /-- The first group of each match, or all of it where there is none. -/
  captures : QString → QString → List QString
  realText : Rat → QString

section Model
variable (E : EngineLibrary)

def partText (part : QString) (r : Response) : QString :=
  if part = utf16 "header" then r.headersText
  else if part = utf16 "all" then r.headersText ++ [0x0A] ++ r.body
  else r.body

def boundedPartText (part : QString) (r : Response) : QString := (partText part r).take kMaxScan

def toStringOr (default : QString) : QJsonValue → QString
  | .string s => s
  | _ => default

def jsonOne : QJsonValue → QString
  | .string s => s
  | .bool b => if b then utf16 "true" else utf16 "false"
  | .double d =>
    if d.den = 1 ∧ -2 ^ 63 ≤ d.num ∧ d.num < 2 ^ 63 then QString.number d.num else E.realText d
  | _ => []

def jsonStrings : QJsonValue → List QString
  | .array elems => elems.map (jsonOne E)
  | .null => []
  | .undefined => []
  | .object _ => []
  | v => [jsonOne E v]

def valuesMember (o : QJsonObject) (type : QString) : Option QJsonValue :=
  if o.contains "values" then some (o.value "values")
  else if type = utf16 "word" ∧ o.contains "words" then some (o.value "words")
  else if type = utf16 "regex" ∧ o.contains "regex" then some (o.value "regex")
  else if type = utf16 "regex" ∧ o.contains "patterns" then some (o.value "patterns")
  else if type = utf16 "status" ∧ o.contains "status" then some (o.value "status")
  else none

def matcherValues (o : QJsonObject) (type : QString) : List QString :=
  match valuesMember o type with
  | some v => jsonStrings E v
  | none => []

def wordPresent (hay w : QString) : Bool := !w.isEmpty && (indexOf w hay).isSome

def patternPresent (hay pat : QString) : Bool :=
  E.regex.isValid ⟨pat, false⟩ && E.regex.hasMatch ⟨pat, false⟩ hay

def wantsAll (m : Matcher) : Bool :=
  E.text.lowerCase (QString.trimmed m.condition) == utf16 "and"

def combined (all : Bool) (present : QString → Bool) (values : List QString) : Bool :=
  if all then values.all present else values.any present

def hitsOn (m : Matcher) (r : Response) (hay : QString) : Bool :=
  if m.type = utf16 "status" then
    m.values.any (fun v => QString.trimmed v == QString.number r.statusCode)
  else if m.values.isEmpty then false
  else if m.type = utf16 "word" then combined (wantsAll E m) (wordPresent hay) m.values
  else if m.type = utf16 "regex" then combined (wantsAll E m) (patternPresent E hay) m.values
  else false

def matcherHits (m : Matcher) (r : Response) : Bool := hitsOn E m r (boundedPartText m.part r)

def parseMatcher (mo : QJsonObject) : Matcher :=
  let type := E.text.lowerCase (mo.value "type").toQString
  { type := type
    part := E.text.lowerCase (toStringOr (utf16 "body") (mo.value "part"))
    values := matcherValues E mo type
    condition := E.text.lowerCase (toStringOr (utf16 "or") (mo.value "condition"))
    negative := (mo.value "negative").toBool false }

def parseExtractor (eo : QJsonObject) : Extractor where
  type := E.text.lowerCase (toStringOr (utf16 "regex") (eo.value "type"))
  part := E.text.lowerCase (toStringOr (utf16 "body") (eo.value "part"))
  name := (eo.value "name").toQString
  values :=
    if eo.contains "regex" then jsonStrings E (eo.value "regex")
    else jsonStrings E (eo.value "values")

def parseTemplate (obj : QJsonObject) : Template :=
  let mc := toStringOr (obj.value "matchersCondition").toQString (obj.value "matchers-condition")
  { id := (obj.value "id").toQString
    name := (obj.value "name").toQString
    severity := (obj.value "severity").toQString
    matchersCondition := if mc.isEmpty then utf16 "and" else E.text.lowerCase mc
    matchers := ((toArray (obj.value "matchers")).map (fun mv => parseMatcher E mv.toObject)).filter
      (fun m => !m.type.isEmpty)
    extractors := (toArray (obj.value "extractors")).map (fun ev => parseExtractor E ev.toObject) }

def counted (m : Matcher) (r : Response) : Bool := matcherHits E m r != m.negative

def extract (e : Extractor) (r : Response) : List QString :=
  if e.type ≠ utf16 "regex" ∨ e.name.isEmpty then []
  else
    e.values.flatMap (fun pat =>
      if E.regex.isValid ⟨pat, false⟩ then
        (E.captures pat (boundedPartText e.part r)).take 1000
      else [])

def evaluate (tpl : Template) (resp : Response) : MatchResult where
  matched :=
    if tpl.matchers.isEmpty then false
    else if tpl.matchersCondition = utf16 "or" then
      tpl.matchers.any (fun m => counted E m resp)
    else tpl.matchers.all (fun m => counted E m resp)
  extracted := tpl.extractors.foldl (fun extracted e =>
    let caps := extract E e resp
    if caps.isEmpty then extracted
    else extracted.filter (fun x => x.1 != e.name) ++ [(e.name, caps)]) []

/-! ### What a template says of a response -/

def Combined (all : Bool) (p : QString → Prop) (values : List QString) : Prop :=
  if all = true then ∀ v ∈ values, p v else ∃ v ∈ values, p v

def Occurs (text w : QString) : Prop := w ≠ [] ∧ w <:+: text

def Found (text pat : QString) : Prop :=
  E.regex.isValid ⟨pat, false⟩ = true ∧ E.regex.hasMatch ⟨pat, false⟩ text = true

def Satisfied (m : Matcher) (r : Response) (text : QString) : Prop :=
  m.type = utf16 "status" ∧ (∃ v ∈ m.values, QString.trimmed v = QString.number r.statusCode) ∨
  m.type = utf16 "word" ∧ m.values ≠ [] ∧ Combined (wantsAll E m) (Occurs text) m.values ∨
  m.type = utf16 "regex" ∧ m.values ≠ [] ∧ Combined (wantsAll E m) (Found E text) m.values

def isString : QJsonValue → Bool
  | .string _ => true
  | _ => false

def absentOr (kind : QJsonValue → Bool) : QJsonValue → Bool
  | .undefined => true
  | v => kind v

def isBool : QJsonValue → Bool
  | .bool _ => true
  | _ => false

def isPlain : QJsonValue → Bool
  | .string _ => true
  | .bool _ => true
  | .double _ => true
  | _ => false

def plainValues : QJsonValue → Bool
  | .array elems => elems.all isPlain
  | v => isPlain v

def fullyParsed : QJsonValue → Bool
  | .object members =>
    let o : QJsonObject := members
    isString (o.value "type") && absentOr isString (o.value "part") &&
      absentOr isString (o.value "condition") && absentOr isBool (o.value "negative") &&
      (valuesMember o (E.text.lowerCase (o.value "type").toQString)).all plainValues
  | _ => false

def supported (type : QString) : Bool :=
  type == utf16 "status" || type == utf16 "word" || type == utf16 "regex"

def validPatterns (m : Matcher) : Bool :=
  m.type != utf16 "regex" || m.values.all (fun pat => E.regex.isValid ⟨pat, false⟩)

def matcherOf (mv : QJsonValue) : Matcher := parseMatcher E mv.toObject

def determined (mv : QJsonValue) : Bool :=
  fullyParsed E mv && supported (matcherOf E mv).type && !(matcherOf E mv).values.isEmpty &&
    validPatterns E (matcherOf E mv)

def Says (mv : QJsonValue) (r : Response) : Prop :=
  determined E mv = true ∧
    (Satisfied E (matcherOf E mv) r (partText (matcherOf E mv).part r) ↔
      (matcherOf E mv).negative = false)

def isOr (obj : QJsonObject) : Bool := (parseTemplate E obj).matchersCondition == utf16 "or"

def entriesOf (obj : QJsonObject) : List QJsonValue := toArray (obj.value "matchers")

def Follows (obj : QJsonObject) (r : Response) : Prop :=
  if isOr E obj = true then ∃ mv ∈ entriesOf obj, Says E mv r
  else entriesOf obj ≠ [] ∧ ∀ mv ∈ entriesOf obj, Says E mv r

/-! ### Where the engine counts what it could not evaluate -/

def kept (mv : QJsonValue) : Bool := !(matcherOf E mv).type.isEmpty

def Passes (mv : QJsonValue) (r : Response) : Prop :=
  Satisfied E (matcherOf E mv) r (boundedPartText (matcherOf E mv).part r) ↔
    (matcherOf E mv).negative = false

def Misleads (mv : QJsonValue) (r : Response) : Prop :=
  determined E mv = false ∧ Passes E mv r ∨
  determined E mv = true ∧ (matcherOf E mv).negative = true ∧
    ¬ Satisfied E (matcherOf E mv) r (boundedPartText (matcherOf E mv).part r) ∧
    Satisfied E (matcherOf E mv) r (partText (matcherOf E mv).part r) ∨
  determined E mv = true ∧ (matcherOf E mv).negative = false ∧
    (matcherOf E mv).type = utf16 "regex" ∧
    Satisfied E (matcherOf E mv) r (boundedPartText (matcherOf E mv).part r) ∧
    ¬ Satisfied E (matcherOf E mv) r (partText (matcherOf E mv).part r)

def Faithful (obj : QJsonObject) (r : Response) : Prop :=
  if isOr E obj = true then
    (∀ mv ∈ entriesOf obj, kept E mv = true → ¬ Misleads E mv r) ∨
      ∃ mv ∈ entriesOf obj, Says E mv r
  else
    (∀ mv ∈ entriesOf obj, kept E mv = true ∧ ¬ Misleads E mv r) ∨
      (∃ mv ∈ entriesOf obj, kept E mv = true ∧ ¬ Passes E mv r) ∨
      ∀ mv ∈ entriesOf obj, kept E mv = false

/-! ### One matcher -/

theorem wordPresent_iff (text w : QString) : wordPresent text w = true ↔ Occurs text w := by
  have hsome : (indexOf w text).isSome = true ↔ w <:+: text := by
    constructor
    · intro h
      obtain ⟨i, hi⟩ := Option.isSome_iff_exists.1 h
      exact ⟨_, _, (List.append_assoc _ _ _).trans (indexOf_split hi).1.symm⟩
    · rintro ⟨pre, post, rfl⟩
      cases hi : indexOf w (pre ++ w ++ post) with
      | some i => rfl
      | none =>
        refine absurd ?_ (indexOf_eq_none_iff.1 hi pre.length (by simp))
        rw [List.append_assoc, List.drop_left]
        exact ⟨post, rfl⟩
  simp [wordPresent, Occurs, hsome]

theorem patternPresent_iff (text pat : QString) :
    patternPresent E text pat = true ↔ Found E text pat := by
  simp [patternPresent, Found]

theorem combined_iff {present : QString → Bool} {p : QString → Prop}
    (h : ∀ v, present v = true ↔ p v) (all : Bool) (values : List QString) :
    combined all present values = true ↔ Combined all p values := by
  cases all <;> simp [combined, Combined, h]

theorem hitsOn_iff (m : Matcher) : hitsOn E m r text = true ↔ Satisfied E m r text := by
  unfold hitsOn Satisfied
  by_cases hs : m.type = utf16 "status"
  · have hw : m.type ≠ utf16 "word" := by rw [hs]; decide
    have hr : m.type ≠ utf16 "regex" := by rw [hs]; decide
    simp [hs, show utf16 "status" ≠ utf16 "word" by decide,
      show utf16 "status" ≠ utf16 "regex" by decide]
  · simp only [hs, false_and, false_or]
    cases hv : m.values with
    | nil => simp
    | cons v vs =>
      by_cases hw : m.type = utf16 "word"
      · simp [hw, show utf16 "word" ≠ utf16 "regex" by decide,
          combined_iff (wordPresent_iff text)]
      · by_cases hr : m.type = utf16 "regex"
        · simp [hr, show utf16 "regex" ≠ utf16 "word" by decide,
            combined_iff (patternPresent_iff E text)]
        · simp [hw, hr]

theorem counted_iff (mv : QJsonValue) :
    counted E (matcherOf E mv) r = true ↔ Passes E mv r := by
  simp only [counted, Passes, matcherHits, bne_iff_ne, ← hitsOn_iff]
  cases hitsOn E (matcherOf E mv) r (boundedPartText (matcherOf E mv).part r) <;>
    cases (matcherOf E mv).negative <;> simp

theorem satisfied_grows {m : Matcher} (text : QString) (hr : m.type ≠ utf16 "regex")
    (h : Satisfied E m r (text.take n)) : Satisfied E m r text := by
  have hgrow : ∀ w, Occurs (text.take n) w → Occurs text w := by
    intro w ⟨hne, hin⟩
    exact ⟨hne, hin.trans (List.take_prefix n text).isInfix⟩
  rcases h with hs | ⟨hw, hne, hc⟩ | ⟨hreg, _⟩
  · exact .inl hs
  · refine .inr (.inl ⟨hw, hne, ?_⟩)
    unfold Combined at hc ⊢
    split at hc
    · next ha =>
      rw [if_pos ha]
      exact fun v hv => hgrow v (hc v hv)
    · next ha =>
      rw [if_neg ha]
      obtain ⟨v, hv, ho⟩ := hc
      exact ⟨v, hv, hgrow v ho⟩
  · exact absurd hreg hr

theorem misleads_iff (mv : QJsonValue) : Misleads E mv r ↔ Passes E mv r ∧ ¬ Says E mv r := by
  unfold Misleads Passes Says
  have hgrow (hr : (matcherOf E mv).type ≠ utf16 "regex") :
      Satisfied E (matcherOf E mv) r (boundedPartText (matcherOf E mv).part r) →
        Satisfied E (matcherOf E mv) r (partText (matcherOf E mv).part r) :=
    satisfied_grows E _ hr
  by_cases hr : (matcherOf E mv).type = utf16 "regex"
  · cases determined E mv <;> cases (matcherOf E mv).negative <;> simp [hr, and_comm]
  · have hgrow := hgrow hr
    cases determined E mv <;> cases (matcherOf E mv).negative <;> simp [hr, and_comm]
    exact hgrow

/-! ### The template -/

theorem matchers_eq (obj : QJsonObject) : (parseTemplate E obj).matchers =
    ((entriesOf obj).filter (kept E)).map (matcherOf E) := by
  rw [parseTemplate, List.filter_map]
  rfl

theorem matched_iff (obj : QJsonObject) : (evaluate E (parseTemplate E obj) r).matched = true ↔
    if isOr E obj = true then ∃ mv ∈ entriesOf obj, kept E mv = true ∧ Passes E mv r
    else (∃ mv ∈ entriesOf obj, kept E mv = true) ∧
      ∀ mv ∈ entriesOf obj, kept E mv = true → Passes E mv r := by
  have hor : (parseTemplate E obj).matchersCondition = utf16 "or" ↔ isOr E obj = true := by
    simp [isOr]
  have hempty : (parseTemplate E obj).matchers.isEmpty = true ↔
      ¬ ∃ mv ∈ entriesOf obj, kept E mv = true := by
    simp [matchers_eq, List.isEmpty_iff]
  unfold evaluate
  simp only [hor]
  by_cases he : (parseTemplate E obj).matchers.isEmpty = true
  · have hnone := hempty.1 he
    rw [if_pos he]
    split
    · simpa using fun mv hm hk => absurd ⟨mv, hm, hk⟩ hnone
    · simp [hnone]
  · have hsome := not_not.1 (mt hempty.2 he)
    rw [if_neg he]
    split
    · simp [matchers_eq, counted_iff]
    · rw [and_iff_right hsome]
      simp only [matchers_eq, List.all_eq_true, List.forall_mem_map, List.mem_filter, counted_iff,
        and_imp]

theorem kept_of_told (h : Says E mv r) : kept E mv = true := by
  obtain ⟨hd, _⟩ := h
  simp only [determined, Bool.and_eq_true] at hd
  have hs := hd.1.1.2
  unfold kept
  generalize (matcherOf E mv).type = type at hs ⊢
  cases type with
  | nil => exact absurd hs (by decide)
  | cons c cs => rfl

/-- A match follows from what the template says exactly where no entry misleads. -/
theorem matched_follows_iff (obj : QJsonObject) (r : Response) :
    ((evaluate E (parseTemplate E obj) r).matched = true → Follows E obj r) ↔
      Faithful E obj r := by
  rw [matched_iff, Follows, Faithful]
  simp only [misleads_iff]
  split
  · constructor
    · intro h
      by_cases hs : ∃ mv ∈ entriesOf obj, Says E mv r
      · exact .inr hs
      · exact .inl (fun mv hm hk hp => hs (h ⟨mv, hm, hk, hp.1⟩))
    · rintro (h | h) ⟨mv, hm, hk, hp⟩
      · by_contra hs
        exact h mv hm hk ⟨hp, fun hsaid => hs ⟨mv, hm, hsaid⟩⟩
      · exact h
  · constructor
    · intro h
      by_cases hkept : ∃ mv ∈ entriesOf obj, kept E mv = true
      · by_cases hpass : ∀ mv ∈ entriesOf obj, kept E mv = true → Passes E mv r
        · have hsaid := (h ⟨hkept, hpass⟩).2
          exact .inl (fun mv hm => ⟨kept_of_told E (hsaid mv hm), fun hp => hp.2 (hsaid mv hm)⟩)
        · push Not at hpass
          exact .inr (.inl hpass)
      · refine .inr (.inr fun mv hm => ?_)
        exact Bool.eq_false_iff.2 fun hk => hkept ⟨mv, hm, hk⟩
    · rintro (h | ⟨mv, hm, hk, hp⟩ | h) ⟨⟨mv', hm', hk'⟩, hpass⟩
      · refine ⟨List.ne_nil_of_mem hm', fun mv hm => ?_⟩
        by_contra hs
        exact (h mv hm).2 ⟨hpass mv hm (h mv hm).1, hs⟩
      · exact absurd (hpass mv hm hk) hp
      · rw [h mv' hm'] at hk'
        cases hk'

end Model

def bracketLibrary : EngineLibrary where
  text := Proxy.asciiLibrary
  regex := ⟨fun re => re.pattern != utf16 "[", fun re text => (indexOf re.pattern text).isSome⟩
  captures := fun _ _ => []
  realText := fun _ => []

def negatedBracket : QJsonObject :=
  [(utf16 "matchers", .array [.object [(utf16 "type", .string (utf16 "regex")),
    (utf16 "regex", .array [.string (utf16 "[")]), (utf16 "negative", .bool true)]])]

/-- The negation of a pattern that is not valid fires on every response. -/
theorem negated_pattern_fires : ¬ ∀ (E : EngineLibrary) (obj : QJsonObject) (r : Response),
    (evaluate E (parseTemplate E obj) r).matched = true → Follows E obj r := by
  intro h
  have hfires : (evaluate bracketLibrary (parseTemplate bracketLibrary negatedBracket)
      ⟨404, [], []⟩).matched = true := by decide
  have hfollows := h bracketLibrary negatedBracket ⟨404, [], []⟩ hfires
  have hor : isOr bracketLibrary negatedBracket = false := by decide
  rw [Follows, hor, if_neg Bool.false_ne_true] at hfollows
  obtain ⟨hdetermined, _⟩ := hfollows.2 _ (List.mem_singleton_self _)
  exact absurd hdetermined (by decide)

end Nullock.TemplateEngine

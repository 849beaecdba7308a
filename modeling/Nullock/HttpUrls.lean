import Nullock.HarDocument

namespace Nullock.ProjectStore

def isDnsChar (c : UInt16) : Bool :=
  (0x61 ≤ c && c ≤ 0x7A) || (0x30 ≤ c && c ≤ 0x39) || c == 0x2D

def isDnsName (host : QString) : Bool :=
  (host.splitOn 0x2E).all (fun label => !label.isEmpty && label.all isDnsChar)

def kUrlPunctuation : QString := utf16 "-._~:/?#[]@!$&'()*+,;=%"

def isUrlChar (c : UInt16) : Bool :=
  (0x41 ≤ c && c ≤ 0x5A) || (0x61 ≤ c && c ≤ 0x7A) || (0x30 ≤ c && c ≤ 0x39) ||
    kUrlPunctuation.contains c

def schemeText (https : Bool) : QString := if https then utf16 "https" else utf16 "http"

def component (delimiter : UInt16) : Option QString → QString
  | some s => delimiter :: s
  | none => []

def portNumber : Option Nat → Int
  | some n => n
  | none => -1

def portText (port : Nat) : QString := QString.number port

structure UrlParts where
  https : Bool
  host : QString
  port : Option Nat
  path : QString
  query : Option QString
  fragment : Option QString

def UrlParts.text (p : UrlParts) : QString :=
  schemeText p.https ++ utf16 "://" ++ p.host ++ component 0x3A (p.port.map portText) ++
    p.path ++ component 0x3F p.query ++ component 0x23 p.fragment

structure UrlParts.Legal (p : UrlParts) : Prop where
  host : isDnsName p.host = true
  port : ∀ n ∈ p.port, n < 65536
  path_front : p.path.head? = some 0x2F
  path_chars : ∀ c ∈ p.path, isUrlChar c = true ∧ c ≠ 0x3F ∧ c ≠ 0x23
  query_chars : ∀ s ∈ p.query, ∀ c ∈ s, isUrlChar c = true ∧ c ≠ 0x23
  fragment_chars : ∀ s ∈ p.fragment, ∀ c ∈ s, isUrlChar c = true

/-- `QUrl`, with the forms in which it gives a host, a path and a query back. -/
structure UrlLibrary where
  Url : Type
  ofText : QString → Url
  scheme : Url → QString
  host : Url → QString
  /-- The port, or -1. -/
  port : Url → Int
  /-- The path, fully encoded. -/
  encodedPath : Url → QString
  /-- The query, fully encoded, if there is one. -/
  encodedQuery : Url → Option QString
  hostForm : QString → QString
  pathForm : QString → QString
  queryForm : QString → QString
  pathForm_front : ∀ s, s.head? = some 0x2F → (pathForm s).head? = some 0x2F
  pathForm_query : ∀ s, 0x3F ∉ pathForm s
  pathForm_fragment : ∀ s, 0x23 ∉ pathForm s
  queryForm_fragment : ∀ s, 0x23 ∉ queryForm s
  host_text : ∀ p : UrlParts, p.Legal → host (ofText p.text) = hostForm p.host
  scheme_text : ∀ p : UrlParts, p.Legal → hostForm p.host = p.host →
    scheme (ofText p.text) = schemeText p.https
  port_text : ∀ p : UrlParts, p.Legal → hostForm p.host = p.host →
    port (ofText p.text) = portNumber p.port
  path_text : ∀ p : UrlParts, p.Legal → hostForm p.host = p.host →
    encodedPath (ofText p.text) = pathForm p.path
  query_text : ∀ p : UrlParts, p.Legal → hostForm p.host = p.host →
    encodedQuery (ofText p.text) = p.query.map queryForm

def UrlLibrary.portOr (U : UrlLibrary) (defaultPort : Int) (url : U.Url) : Int :=
  if U.port url = -1 then defaultPort else U.port url

theorem splitFirst_eq (x : UInt16) (s : QString) :
    s = (splitFirst x s).1 ++ component x (splitFirst x s).2 ∧ x ∉ (splitFirst x s).1 := by
  rcases splitFirst_cases x s with ⟨hx, he⟩ | ⟨a, b, ha, hs, he⟩
  · rw [he]
    exact ⟨(List.append_nil s).symm, hx⟩
  · rw [he]
    exact ⟨hs, ha⟩

theorem component_front (s : Option QString) : ∀ c ∈ (component x s).head?, c = x := by
  cases s with
  | none => exact fun c hc => absurd hc (Option.not_mem_none c)
  | some s => exact fun c hc => (Option.some.inj hc).symm

theorem splitFirst_component {x : UInt16} (ha : x ∉ a) (s : Option QString) :
    splitFirst x (a ++ component x s) = (a, s) := by
  cases s with
  | none => rw [component, List.append_nil, splitFirst_none ha]
  | some s => rw [component, splitFirst_append ha]

theorem component_inj {x : UInt16} (ha : x ∉ a) (hb : x ∉ b)
    (h : a ++ component x s = b ++ component x t) : a = b ∧ s = t := by
  have he := congrArg (splitFirst x) h
  rw [splitFirst_component ha, splitFirst_component hb] at he
  exact Prod.mk.inj he

section Http

def queryChar (c : UInt16) : QString := if c = 0x23 then utf16 "%23" else [c]

def pathChar (c : UInt16) : QString := if c = 0x3F then utf16 "%3F" else queryChar c

theorem queryChar_clean (c : UInt16) : 0x23 ∉ queryChar c := by
  rw [queryChar]
  split
  · decide
  · rename_i hc
    exact fun h => hc (List.mem_singleton.1 h).symm

theorem pathChar_clean (c : UInt16) : 0x3F ∉ pathChar c ∧ 0x23 ∉ pathChar c := by
  rw [pathChar]
  split
  · decide
  · rename_i hquery
    refine ⟨?_, queryChar_clean c⟩
    rw [queryChar]
    split
    · decide
    · exact fun h => hquery (List.mem_singleton.1 h).symm

def UrlParts.ofText (text : QString) : UrlParts :=
  let front := splitFirst 0x23 text
  let hier := splitFirst 0x3F front.1
  let scheme := splitFirst 0x3A hier.1
  let rest := splitFirst 0x2F ((scheme.2.getD []).drop 2)
  let authority := splitFirst 0x3A rest.1
  { https := scheme.1 == utf16 "https"
    host := authority.1
    port := authority.2.bind (digitsFrom 10 0)
    path := component 0x2F rest.2
    query := hier.2
    fragment := front.2 }

theorem isDnsName_char (h : isDnsName host = true) (hc : c ∈ host) :
    c = 0x2E ∨ isDnsChar c = true := by
  by_cases hdot : c = 0x2E
  · exact .inl hdot
  · obtain ⟨label, hlabel, hmem⟩ := exists_mem_splitOn hc hdot
    have hall := (Bool.and_eq_true_iff.1 (List.all_eq_true.1 h label hlabel)).2
    exact .inr (List.all_eq_true.1 hall c hmem)

theorem isDnsName_clean (h : isDnsName host = true) (hc : c ∈ host) :
    c ≠ 0x2F ∧ c ≠ 0x3A ∧ c ≠ 0x3F ∧ c ≠ 0x23 := by
  rcases isDnsName_char h hc with rfl | hdns
  · decide
  · refine ⟨?_, ?_, ?_, ?_⟩ <;>
    · rintro rfl
      exact absurd hdns (by decide)

theorem portText_digit {port : Option Nat} (hc : c ∈ component 0x3A (port.map portText)) :
    c = 0x3A ∨ isDigit c = true := by
  cases port with
  | none => exact absurd hc List.not_mem_nil
  | some n =>
    rcases List.mem_cons.1 hc with rfl | hc
    · exact .inl rfl
    · exact .inr ((isNumeral_iff.1 (number_numeral n).1).2 c hc)

theorem portText_clean {port : Option Nat} (hc : c ∈ component 0x3A (port.map portText)) :
    c ≠ 0x2F ∧ c ≠ 0x3F ∧ c ≠ 0x23 := by
  rcases portText_digit hc with rfl | hdigit
  · decide
  · refine ⟨?_, ?_, ?_⟩ <;>
    · rintro rfl
      exact absurd hdigit (by decide)

theorem schemeText_clean (https : Bool) (hc : c ∈ schemeText https) :
    c ≠ 0x3A ∧ c ≠ 0x3F ∧ c ≠ 0x23 := by
  cases https with
  | true =>
    have h : ∀ c ∈ utf16 "https", c ≠ 0x3A ∧ c ≠ 0x3F ∧ c ≠ 0x23 :=
      forall_mem_of_all (by decide)
    exact h c hc
  | false =>
    have h : ∀ c ∈ utf16 "http", c ≠ 0x3A ∧ c ≠ 0x3F ∧ c ≠ 0x23 :=
      forall_mem_of_all (by decide)
    exact h c hc

theorem authority_clean {p : UrlParts} (h : p.Legal)
    (hc : c ∈ p.host ++ component 0x3A (p.port.map portText)) :
    c ≠ 0x2F ∧ c ≠ 0x3F ∧ c ≠ 0x23 := by
  rcases List.mem_append.1 hc with hc | hc
  · obtain ⟨hslash, _, hquery, hfragment⟩ := isDnsName_clean h.host hc
    exact ⟨hslash, hquery, hfragment⟩
  · exact portText_clean hc

theorem hierarchy_clean {p : UrlParts} (h : p.Legal)
    (hc : c ∈ schemeText p.https ++
      0x3A :: 0x2F :: 0x2F :: (p.host ++ component 0x3A (p.port.map portText) ++ p.path)) :
    c ≠ 0x3F ∧ c ≠ 0x23 := by
  rcases List.mem_append.1 hc with hc | hc
  · exact (schemeText_clean _ hc).2
  rcases List.mem_cons.1 hc with rfl | hc
  · decide
  rcases List.mem_cons.1 hc with rfl | hc
  · decide
  rcases List.mem_cons.1 hc with rfl | hc
  · decide
  rcases List.mem_append.1 hc with hc | hc
  · exact (authority_clean h hc).2
  · exact (h.path_chars c hc).2

theorem UrlParts.text_eq (p : UrlParts) :
    p.text = schemeText p.https ++
        0x3A :: 0x2F :: 0x2F :: (p.host ++ component 0x3A (p.port.map portText) ++ p.path) ++
      component 0x3F p.query ++ component 0x23 p.fragment := by
  have hcolon : utf16 "://" = [0x3A, 0x2F, 0x2F] := rfl
  rw [UrlParts.text, hcolon]
  simp only [List.append_assoc, List.cons_append, List.nil_append]

theorem UrlParts.ofText_text {p : UrlParts} (h : p.Legal) : UrlParts.ofText p.text = p := by
  obtain ⟨path, hpath⟩ := List.head?_eq_some_iff.1 h.path_front
  have hfragment : 0x23 ∉ schemeText p.https ++
      0x3A :: 0x2F :: 0x2F :: (p.host ++ component 0x3A (p.port.map portText) ++ p.path) ++
        component 0x3F p.query := by
    intro hc
    rcases List.mem_append.1 hc with hc | hc
    · exact (hierarchy_clean h hc).2 rfl
    · cases hq : p.query with
      | none =>
        rw [hq] at hc
        exact List.not_mem_nil hc
      | some q =>
        rw [hq] at hc
        rcases List.mem_cons.1 hc with hc | hc
        · exact absurd hc (by decide)
        · exact (h.query_chars q hq _ hc).2 rfl
  have hquery : 0x3F ∉ schemeText p.https ++
      0x3A :: 0x2F :: 0x2F :: (p.host ++ component 0x3A (p.port.map portText) ++ p.path) :=
    fun hc => (hierarchy_clean h hc).1 rfl
  have hscheme : 0x3A ∉ schemeText p.https := fun hc => (schemeText_clean _ hc).1 rfl
  have hauthority : 0x2F ∉ p.host ++ component 0x3A (p.port.map portText) :=
    fun hc => (authority_clean h hc).1 rfl
  have hhost : 0x3A ∉ p.host := fun hc => (isDnsName_clean h.host hc).2.1 rfl
  have hdrop (s : QString) : List.drop 2 (0x2F :: 0x2F :: s) = s := rfl
  have hport : (p.port.map portText).bind (digitsFrom 10 0) = p.port := by
    cases p.port with
    | none => rfl
    | some n => exact (number_numeral n).2
  have hhttps : (schemeText p.https == utf16 "https") = p.https := by
    cases p.https with
    | true => rfl
    | false => rfl
  rw [UrlParts.ofText, UrlParts.text_eq, splitFirst_component hfragment]
  dsimp only
  rw [splitFirst_component hquery]
  dsimp only
  rw [splitFirst_append hscheme, hpath]
  rw [Option.getD_some, hdrop, splitFirst_append hauthority]
  dsimp only
  rw [splitFirst_component hhost, hhttps, hport, component, ← hpath]

/-- Host, path and query come back as they are, delimiters escaped. -/
def httpUrls : UrlLibrary where
  Url := UrlParts
  ofText := UrlParts.ofText
  scheme url := schemeText url.https
  host url := url.host
  port url := portNumber url.port
  encodedPath url := url.path.flatMap pathChar
  encodedQuery url := url.query.map (·.flatMap queryChar)
  hostForm host := host
  pathForm path := path.flatMap pathChar
  queryForm query := query.flatMap queryChar
  pathForm_front := by
    intro s hs
    obtain ⟨t, rfl⟩ := List.head?_eq_some_iff.1 hs
    rfl
  pathForm_query := by
    intro s hm
    obtain ⟨c, _, hc⟩ := List.mem_flatMap.1 hm
    exact (pathChar_clean c).1 hc
  pathForm_fragment := by
    intro s hm
    obtain ⟨c, _, hc⟩ := List.mem_flatMap.1 hm
    exact (pathChar_clean c).2 hc
  queryForm_fragment := by
    intro s hm
    obtain ⟨c, _, hc⟩ := List.mem_flatMap.1 hm
    exact queryChar_clean c hc
  host_text := fun p h => by rw [UrlParts.ofText_text h]
  scheme_text := fun p h _ => by rw [UrlParts.ofText_text h]
  port_text := fun p h _ => by rw [UrlParts.ofText_text h]
  path_text := fun p h _ => by rw [UrlParts.ofText_text h]
  query_text := fun p h _ => by rw [UrlParts.ofText_text h]

end Http

end Nullock.ProjectStore

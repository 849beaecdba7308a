import Nullock.CookieJarRestore
import Nullock.Enumerations
import Nullock.Fillings

namespace Nullock.TemplateRequest
open SessionRules Fillings
open Proxy (asciiLibrary)

def kMaxRequests : Nat := 10000

structure RequestSpec where
  method : QString := utf16 "GET"
  path : QString := utf16 "/"
  headers : List (QString × QString) := []
  body : QString := []
  payloads : List (List QString) := []
  pitchfork : Bool := false

structure Vars where
  baseUrl : QString
  hostname : QString

structure BuiltRequest where
  bytes : QByteArray
  usedPayloads : List QString

def stripCrlf (s : QString) : QString := s.filter (fun c => c != 0x0D && c != 0x0A)

def tokenOf (key : QString) : QString := utf16 "\x7b\x7b" ++ key ++ utf16 "\x7d\x7d"

def substitute (text : QString) (values : List (QString × QString)) (sanitize : Bool) : QString :=
  let out := values.foldl (fun out kv => replaceAll (tokenOf kv.1) kv.2 out) text
  if sanitize then stripCrlf out else out

def odometer (sets : List (List QString)) : Nat → List Nat → List (List QString)
  | 0, _ => []
  | room + 1, idx =>
    List.zipWith (fun s i => s.getD i []) sets idx ::
      match advance (sets.map List.length) idx with
      | some idx' => odometer sets room idx'
      | none => []

def minLen (sets : List (List QString)) : Nat :=
  sets.foldl (fun m s => min m s.length) (sets.headD []).length

def expand (sets : List (List QString)) (pitchfork : Bool) (cap : Nat) : List (List QString) :=
  if sets.isEmpty then [[]]
  else if sets.any (·.isEmpty) then []
  else if pitchfork then
    (List.range (min (minLen sets) cap)).map (fun i => sets.map (fun s => s.getD i []))
  else odometer sets cap (sets.map (fun _ => 0))

def valuesOf (vars : Vars) (combo : List QString) : List (QString × QString) :=
  [(utf16 "BaseURL", vars.baseUrl), (utf16 "Hostname", vars.hostname)] ++
    match combo with
    | [] => []
    | first :: _ =>
      (utf16 "payload", first) ::
        combo.zipIdx.map (fun x => (utf16 "payload" ++ QString.number ((x.2 : Int) + 1), x.1))

/-- The texts after substitution; a header without a name is not emitted. -/
structure Parts where
  method : QString
  path : QString
  headers : List (QString × QString)
  body : QString

def RequestSpec.parts (spec : RequestSpec) (head body : QString → QString) : Parts where
  method := head spec.method
  path := head spec.path
  headers := (spec.headers.map (fun h => (head h.1, head h.2))).filter (fun h => !h.1.isEmpty)
  body := body spec.body

section Model
variable (L : TextLibrary)

def headerLine (name value : QString) : QByteArray :=
  L.toUtf8 name ++ latin1 ": " ++ L.toUtf8 value ++ latin1 "\r\n"

def Parts.bytes (p : Parts) (vars : Vars) (host length connection : Bool) : QByteArray :=
  let body := L.toUtf8 p.body
  L.toUtf8 p.method ++ latin1 " " ++ L.toUtf8 p.path ++ latin1 " HTTP/1.1\r\n" ++
    (if host then latin1 "Host: " ++ L.toUtf8 (stripCrlf vars.hostname) ++ latin1 "\r\n" else []) ++
    p.headers.flatMap (fun h => headerLine L h.1 h.2) ++
    (if length then latin1 "Content-Length: " ++ QByteArray.number body.length ++ latin1 "\r\n"
      else []) ++
    (if connection then latin1 "Connection: close\r\n" else []) ++
    latin1 "\r\n" ++ body

def Parts.emitted (p : Parts) : List QString := p.headers.map (fun h => L.lowerCase h.1)

def Parts.addsHost (p : Parts) (vars : Vars) : Bool :=
  !(p.emitted L).contains (utf16 "host") && !vars.hostname.isEmpty

def Parts.addsLength (p : Parts) : Bool :=
  !(L.toUtf8 p.body).isEmpty && !(p.emitted L).contains (utf16 "content-length") &&
    !(p.emitted L).contains (utf16 "transfer-encoding")

def Parts.addsConnection (p : Parts) : Bool := !(p.emitted L).contains (utf16 "connection")

def buildRequest (spec : RequestSpec) (vars : Vars) (combo : List QString) : BuiltRequest :=
  let vals := valuesOf vars combo
  let p := spec.parts (fun text => substitute text vals true)
    (fun text => substitute text vals false)
  { bytes := p.bytes L vars (p.addsHost L vars) (p.addsLength L) (p.addsConnection L)
    usedPayloads := combo }

def buildRequests (spec : RequestSpec) (vars : Vars) : List BuiltRequest :=
  (expand spec.payloads spec.pitchfork kMaxRequests).map (buildRequest L spec vars)

/-! ### The requests as they are written -/

def zipped : List (List QString) → List (List QString)
  | [] => [[]]
  | [xs] => xs.map (fun x => [x])
  | xs :: ys :: xss => List.zipWith (· :: ·) xs (zipped (ys :: xss))

def combinations (spec : RequestSpec) : List (List QString) :=
  (if spec.pitchfork then zipped spec.payloads else tuples spec.payloads).take kMaxRequests

def tokensOf (vars : Vars) (combo : List QString) : List (QString × QString) :=
  (valuesOf vars combo).map (fun kv => (tokenOf kv.1, kv.2))

/-- All placeholders of the parts replaced, without line breaks in the head. -/
def written (spec : RequestSpec) (vars : Vars) (combo : List QString) : Parts :=
  spec.parts (fun text => stripCrlf (fill (tokensOf vars combo) text))
    (fill (tokensOf vars combo))

def fieldName (name : QString) : QString := L.lowerCase (name.takeWhile (· != 0x3A))

def Parts.Names (p : Parts) (field : String) : Prop :=
  ∃ h ∈ p.headers, fieldName L h.1 = utf16 field

structure AsWritten (spec : RequestSpec) (vars : Vars) (combo : List QString) (r : BuiltRequest) :
    Prop where
  usedPayloads : r.usedPayloads = combo
  bytes : ∃ host length connection,
    r.bytes = (written spec vars combo).bytes L vars host length connection ∧
      (host = true → ¬ (written spec vars combo).Names L "host") ∧
      (length = true → ¬ (written spec vars combo).Names L "content-length") ∧
      (connection = true → ¬ (written spec vars combo).Names L "connection")

def RequestSpec.texts (spec : RequestSpec) : List QString :=
  spec.method :: spec.path :: spec.body :: spec.headers.flatMap (fun h => [h.1, h.2])

/-- A header name with a colon in it that begins with the name of a field. -/
def Parts.Hides (p : Parts) (field : String) : Prop :=
  ∃ h ∈ p.headers, 0x3A ∈ h.1 ∧ fieldName L h.1 = utf16 field

/-- No value reads as a placeholder, and no generated line meets a colon. -/
structure Plain (spec : RequestSpec) (vars : Vars) (combo : List QString) : Prop where
  unread : ∀ text ∈ spec.texts, NothingRead (tokensOf vars combo) (text.map Piece.text)
  host : (written spec vars combo).addsHost L vars = true →
    ¬ (written spec vars combo).Hides L "host"
  length : (written spec vars combo).addsLength L = true →
    ¬ (written spec vars combo).Hides L "content-length"
  connection : (written spec vars combo).addsConnection L = true →
    ¬ (written spec vars combo).Hides L "connection"

end Model

/-! ### Combinations -/

theorem odometer_eq (sets : List (List QString)) (room : Nat) (idx : List Nat) :
    odometer sets room idx = (sweep (sets.map List.length) room idx).map
      (List.zipWith (fun s i => s.getD i []) sets) := by
  induction room generalizing idx with
  | zero => rfl
  | succ room ih =>
    rw [odometer, sweep, List.map_cons]
    congr 1
    cases advance (sets.map List.length) idx with
    | some idx' => exact ih idx'
    | none => rfl

theorem odometer_tuples (h : ∀ s ∈ sets, s ≠ []) (cap : Nat) :
    odometer sets cap (sets.map (fun _ => 0)) = (tuples sets).take cap := by
  have hpos : ∀ n ∈ sets.map List.length, 0 < n := by
    intro n hn
    obtain ⟨s, hs, rfl⟩ := List.mem_map.1 hn
    exact List.length_pos_iff.2 (h s hs)
  have hzero : sets.map (fun _ => 0) = (sets.map List.length).map (fun _ => 0) := by
    rw [List.map_map]
    rfl
  have hget : List.zipWith (fun (s : List QString) (i : Nat) => s.getD i []) sets =
      List.map (fun x : Option QString => x.getD []) ∘
        List.zipWith (fun (s : List QString) (i : Nat) => s[i]?) sets := by
    funext idx
    rw [Function.comp_apply, List.map_zipWith]
    simp only [List.getD_eq_getElem?_getD]
  have hid : (List.map (fun x : Option QString => x.getD []) ∘ List.map some :
      List QString → List QString) = id := by
    funext c
    rw [Function.comp_apply, List.map_map]
    exact List.map_id c
  rw [odometer_eq, hzero, sweep_eq (placed_zero hpos), indicesFrom_zero hpos, List.map_take, hget,
    ← List.map_map, indices_elements, List.map_map, hid, List.map_id]

theorem foldl_min (sets : List (List QString)) (a b : Nat) :
    sets.foldl (fun m s => min m s.length) (min a b) =
      min a (sets.foldl (fun m s => min m s.length) b) := by
  induction sets generalizing b with
  | nil => rfl
  | cons s sets ih => rw [List.foldl_cons, List.foldl_cons, Nat.min_assoc, ih]

theorem minLen_cons (s : List QString) (sets : List (List QString)) :
    minLen (s :: sets) = sets.foldl (fun m s => min m s.length) s.length := by
  rw [minLen, List.headD_cons, List.foldl_cons, Nat.min_self]

theorem minLen_cons_cons (s t : List QString) (sets : List (List QString)) :
    minLen (s :: t :: sets) = min s.length (minLen (t :: sets)) := by
  rw [minLen_cons, minLen_cons, List.foldl_cons, foldl_min]

theorem zipped_eq (h : sets ≠ []) : zipped sets =
    (List.range (minLen sets)).map (fun i => sets.map (fun s => s.getD i [])) := by
  induction sets with
  | nil => exact absurd rfl h
  | cons s sets ih =>
    cases sets with
    | nil =>
      rw [zipped, minLen_cons]
      apply List.ext_getElem
      · simp
      · intro i hi hi'
        simp only [List.length_map] at hi
        simp [List.getD_eq_getElem?_getD, hi]
    | cons t sets =>
      rw [zipped, ih (List.cons_ne_nil _ _), minLen_cons_cons]
      apply List.ext_getElem
      · simp
      · intro i hi hi'
        simp only [List.length_zipWith, List.length_map, List.length_range] at hi
        have hs : i < s.length := by omega
        simp [List.getD_eq_getElem?_getD, hs]

theorem minLen_zero (h : [] ∈ sets) : minLen sets = 0 := by
  induction sets with
  | nil => cases h
  | cons s sets ih =>
    cases sets with
    | nil =>
      rw [List.mem_singleton] at h
      rw [← h]
      rfl
    | cons t sets =>
      rw [minLen_cons_cons]
      rcases List.mem_cons.1 h with rfl | h
      · exact Nat.zero_min _
      · rw [ih h, Nat.min_zero]

theorem expand_combinations (spec : RequestSpec) :
    expand spec.payloads spec.pitchfork kMaxRequests = combinations spec := by
  rw [expand, combinations]
  by_cases hnone : spec.payloads = []
  · rw [hnone]
    cases spec.pitchfork <;> rfl
  rw [if_neg (mt List.isEmpty_iff.1 hnone)]
  by_cases hany : spec.payloads.any (·.isEmpty) = true
  · obtain ⟨s, hs, he⟩ := List.any_eq_true.1 hany
    have hmem : [] ∈ spec.payloads := List.isEmpty_iff.1 he ▸ hs
    rw [if_pos hany, tuples_eq_nil hmem, zipped_eq hnone, minLen_zero hmem]
    cases spec.pitchfork <;> rfl
  rw [if_neg hany]
  have hall : ∀ s ∈ spec.payloads, s ≠ [] := fun s hs he =>
    hany (List.any_eq_true.2 ⟨s, hs, List.isEmpty_iff.2 he⟩)
  cases spec.pitchfork with
  | true =>
    rw [if_pos rfl, if_pos rfl, zipped_eq hnone, ← List.map_take, List.take_range, Nat.min_comm]
  | false =>
    rw [if_neg Bool.false_ne_true, if_neg Bool.false_ne_true, odometer_tuples hall]

/-! ### Substitution -/

theorem apart_tokens (key : QString) {other : QString} (h : 0x7B ∉ other) :
    Apart (tokenOf key) (tokenOf other) := by
  intro k hk hlt
  have hrest : 0x7B ∉ other ++ utf16 "\x7d\x7d" := by
    rw [List.mem_append, not_or]
    exact ⟨h, by decide⟩
  have hother : tokenOf other = 0x7B :: 0x7B :: (other ++ utf16 "\x7d\x7d") := rfl
  have hkey : tokenOf key = 0x7B :: 0x7B :: (key ++ utf16 "\x7d\x7d") := rfl
  have hend : 0 < (other ++ utf16 "\x7d\x7d").length := by
    rw [List.length_append]
    exact Nat.lt_add_left _ (by decide)
  rw [hother] at hlt ⊢
  generalize other ++ utf16 "\x7d\x7d" = rest at hrest hlt hend ⊢
  have hne (i : Nat) (hi : i < rest.length) : 0x7B ≠ rest[i] := fun he =>
    hrest (he ▸ List.getElem_mem hi)
  match k with
  | 1 =>
    refine ⟨1, 0x7B, rest[0], by rw [hkey]; rfl, ?_, hne 0 hend⟩
    exact List.getElem?_eq_getElem hend
  | k + 2 =>
    have hi : k < rest.length := Nat.lt_of_add_lt_add_right hlt
    refine ⟨0, 0x7B, rest[k], by rw [hkey]; rfl, ?_, hne k hi⟩
    exact List.getElem?_eq_getElem hi

theorem keys_plain (vars : Vars) (combo : List QString) :
    ∀ kv ∈ valuesOf vars combo, 0x7B ∉ kv.1 := by
  intro kv hkv
  unfold valuesOf at hkv
  rw [List.mem_append] at hkv
  rcases hkv with hkv | hkv
  · revert kv
    exact List.forall_mem_cons.2 ⟨by show 0x7B ∉ utf16 "BaseURL"; decide,
      List.forall_mem_singleton.2 (by show 0x7B ∉ utf16 "Hostname"; decide)⟩
  · cases combo with
    | nil => cases hkv
    | cons first combo =>
      rcases List.mem_cons.1 hkv with rfl | hkv
      · show 0x7B ∉ utf16 "payload"
        decide
      · obtain ⟨x, -, rfl⟩ := List.mem_map.1 hkv
        rw [List.mem_append, not_or]
        refine ⟨by decide, fun hbrace => ?_⟩
        exact absurd (number_chars _ hbrace) (by decide)

theorem substitute_fill (vars : Vars) (combo : List QString) {text : QString}
    (h : NothingRead (tokensOf vars combo) (text.map Piece.text)) (sanitize : Bool) :
    substitute text (valuesOf vars combo) sanitize =
      if sanitize then stripCrlf (fill (tokensOf vars combo) text)
      else fill (tokensOf vars combo) text := by
  have hkeys := keys_plain vars combo
  have hne : ∀ u ∈ tokensOf vars combo, u.1 ≠ [] := by
    intro u hu
    obtain ⟨kv, -, rfl⟩ := List.mem_map.1 hu
    exact List.cons_ne_nil _ _
  have hapart : (tokensOf vars combo).Pairwise (fun t u => Apart t.1 u.1) := by
    rw [tokensOf, List.pairwise_map]
    exact List.pairwise_of_forall_mem_list fun kv _ other ho => apart_tokens kv.1 (hkeys other ho)
  have hpasses := passes_fill hne hapart h
  have htext : flatten (text.map Piece.text) = text := by
    have happend := flatten_text text []
    rw [List.append_nil] at happend
    exact happend.trans (List.append_nil text)
  rw [htext, tokensOf, List.foldl_map] at hpasses
  rw [substitute, fill, tokensOf]
  exact congrArg (fun out => if sanitize = true then stripCrlf out else out) hpasses

theorem parts_congr (spec : RequestSpec) {head body head' body' : QString → QString}
    (hh : ∀ text ∈ spec.texts, head text = head' text)
    (hb : body spec.body = body' spec.body) : spec.parts head body = spec.parts head' body' := by
  have hmethod : spec.method ∈ spec.texts := List.mem_cons_self
  have hpath : spec.path ∈ spec.texts := List.mem_cons_of_mem _ List.mem_cons_self
  have hheaders : ∀ h ∈ spec.headers, (head h.1, head h.2) = (head' h.1, head' h.2) := by
    intro h hm
    have hname : ∀ text ∈ [h.1, h.2], text ∈ spec.texts := fun text ht =>
      List.mem_cons_of_mem _ (List.mem_cons_of_mem _ (List.mem_cons_of_mem _
        (List.mem_flatMap.2 ⟨h, hm, ht⟩)))
    rw [hh _ (hname _ List.mem_cons_self),
      hh _ (hname _ (List.mem_cons_of_mem _ List.mem_cons_self))]
  rw [RequestSpec.parts, RequestSpec.parts, hh _ hmethod, hh _ hpath, hb,
    List.map_congr_left hheaders]

theorem buildRequest_written (L : TextLibrary) (spec : RequestSpec) (vars : Vars)
    (combo : List QString)
    (h : ∀ text ∈ spec.texts, NothingRead (tokensOf vars combo) (text.map Piece.text)) :
    buildRequest L spec vars combo =
      { bytes := (written spec vars combo).bytes L vars ((written spec vars combo).addsHost L vars)
          ((written spec vars combo).addsLength L) ((written spec vars combo).addsConnection L)
        usedPayloads := combo } := by
  have hbody : spec.body ∈ spec.texts :=
    List.mem_cons_of_mem _ (List.mem_cons_of_mem _ List.mem_cons_self)
  have hparts : spec.parts (fun text => substitute text (valuesOf vars combo) true)
      (fun text => substitute text (valuesOf vars combo) false) = written spec vars combo :=
    parts_congr spec (fun text ht => substitute_fill vars combo (h text ht) true)
      (substitute_fill vars combo (h _ hbody) false)
  rw [buildRequest, hparts]

/-! ### Generated lines -/

theorem not_names {L : TextLibrary} {p : Parts} {field : String}
    (hemitted : (p.emitted L).contains (utf16 field) = false) (hhides : ¬ p.Hides L field) :
    ¬ p.Names L field := by
  rintro ⟨h, hm, hname⟩
  by_cases hcolon : 0x3A ∈ h.1
  · exact hhides ⟨h, hm, hcolon, hname⟩
  · have hwhole : h.1.takeWhile (· != 0x3A) = h.1 := by
      rw [List.takeWhile_eq_self_iff]
      intro c hc
      exact bne_iff_ne.2 fun he => hcolon (he ▸ hc)
    rw [fieldName, hwhole] at hname
    have hmem : utf16 field ∈ p.emitted L := List.mem_map.2 ⟨h, hm, hname⟩
    rw [List.contains_iff_mem.2 hmem] at hemitted
    cases hemitted

/-- Every combination has its request as written where nothing else is replaced. -/
theorem requests_written (L : TextLibrary) (spec : RequestSpec) (vars : Vars) :
    List.Forall₂ (fun combo r => r.usedPayloads = combo ∧
        (Plain L spec vars combo → AsWritten L spec vars combo r))
      (combinations spec) (buildRequests L spec vars) := by
  rw [buildRequests, expand_combinations, List.forall₂_map_right_iff, List.forall₂_same]
  rintro combo -
  refine ⟨rfl, fun ⟨hunread, hhost, hlength, hconnection⟩ => ?_⟩
  rw [buildRequest_written L spec vars combo hunread]
  refine ⟨rfl, _, _, _, rfl, fun hadds => ?_, fun hadds => ?_, fun hadds => ?_⟩
  · apply not_names ?_ (hhost hadds)
    rw [Parts.addsHost, Bool.and_eq_true, Bool.not_eq_true'] at hadds
    exact hadds.1
  · apply not_names ?_ (hlength hadds)
    rw [Parts.addsLength, Bool.and_eq_true, Bool.and_eq_true, Bool.not_eq_true',
      Bool.not_eq_true', Bool.not_eq_true'] at hadds
    exact hadds.1.2
  · apply not_names ?_ (hconnection hadds)
    rw [Parts.addsConnection, Bool.not_eq_true'] at hadds
    exact hadds

/-- A payload that spells no placeholder, beside a template's own braces. -/
example : ∀ text ∈ [utf16 "/\x7b" ++ tokenOf (utf16 "payload"), tokenOf (utf16 "BaseURL")],
    NothingRead (tokensOf ⟨utf16 "http://h/", utf16 "h"⟩ [utf16 "a\x7b\x7db"])
      (text.map Piece.text) := by
  decide +kernel

def spelledPayload : RequestSpec where
  path := utf16 "/" ++ tokenOf (utf16 "payload1")
  payloads := [[tokenOf (utf16 "payload2")], [utf16 "x"]]

theorem payload_searched : ¬ ∀ (L : TextLibrary) (spec : RequestSpec) (vars : Vars),
    List.Forall₂ (AsWritten L spec vars) (combinations spec) (buildRequests L spec vars) := by
  intro h
  have hall := h asciiLibrary spelledPayload ⟨[], []⟩
  have hcombinations : combinations spelledPayload =
      [[tokenOf (utf16 "payload2"), utf16 "x"]] := by
    decide +kernel
  rw [buildRequests, expand_combinations, hcombinations, List.map_singleton] at hall
  cases hall with
  | cons hfirst _ =>
    obtain ⟨host, length, connection, hbytes, -⟩ := hfirst.bytes
    have hstart := congrArg (List.take 6) hbytes
    revert hstart
    cases host <;> cases length <;> cases connection <;> decide +kernel

/-- Values that are read for placeholders may still come back as they were. -/
example :
    let vars : Vars := ⟨tokenOf (utf16 "Hostname"), tokenOf (utf16 "payload")⟩
    let combo := [tokenOf (utf16 "Hostname")]
    let text := tokenOf (utf16 "BaseURL")
    substitute text (valuesOf vars combo) false = fill (tokensOf vars combo) text := by
  decide +kernel

end Nullock.TemplateRequest

import Nullock.H2Headers
import Nullock.ProxyLegs
import Nullock.RewriteBytes

namespace Nullock

/-- What the text library promises of lower case and of UTF-8. -/
structure TextLaws (L : TextLibrary) : Prop where
  lowerCase_ascii : ∀ s literal : QString, (∀ c ∈ literal, c < 0x80) →
    (L.lowerCase s = literal ↔ toLower s = literal)
  toUtf8_append : ∀ s t : QString, (∀ c ∈ t, c < 0x80) →
    L.toUtf8 (s ++ t) = L.toUtf8 s ++ toLatin1 t
  toUtf8_ascii : ∀ s t : QString, (∀ c ∈ t, c < 0x80 ∧ c ≠ 0x3F) →
    (L.toUtf8 s = toLatin1 t ↔ s = t)

theorem TextLaws.lowerCase_nil (h : TextLaws L) : L.lowerCase s = [] ↔ s = [] := by
  rw [h.lowerCase_ascii s [] (fun _ hc => absurd hc List.not_mem_nil), toLower,
    List.map_eq_nil_iff]

theorem TextLaws.toUtf8_nil (h : TextLaws L) : L.toUtf8 s = [] ↔ s = [] :=
  h.toUtf8_ascii s [] (fun _ hc => absurd hc List.not_mem_nil)

theorem toLower_eq_map_foldCase (h : ∀ c ∈ s, c ≤ 0xFF) : toLower s = s.map foldCase := by
  rw [toLower]
  apply List.map_congr_left
  intro c hc
  have hle := h c hc
  have hlong : c ≠ 0x017F := by
    intro he
    rw [he] at hle
    exact absurd hle (by decide)
  rw [foldCase, if_neg hlong]

theorem equalsIgnoreCase_iff_toLower (h : ∀ c ∈ s, c ≤ 0xFF) (literal : QString) :
    equalsIgnoreCase s literal = true ↔ toLower s = literal.map foldCase := by
  rw [equalsIgnoreCase, beq_iff_eq, toLower_eq_map_foldCase h]

theorem colon_of_toLower (h : 0x3A ∈ toLower s) : 0x3A ∈ s := by
  obtain ⟨c, hc, he⟩ := List.mem_map.1 h
  split_ifs at he with hupper hkelvin
  · have hval := congrArg UInt16.toNat he
    have hlow := UInt16.le_iff_toNat_le.1 hupper.1
    have hhigh := UInt16.le_iff_toNat_le.1 hupper.2
    rw [UInt16.toNat_add, Nat.mod_eq_of_lt] at hval
    · have h41 : UInt16.toNat 0x41 = 0x41 := rfl
      have h20 : UInt16.toNat 0x20 = 0x20 := rfl
      have h3A : UInt16.toNat 0x3A = 0x3A := rfl
      omega
    · exact Nat.lt_of_le_of_lt (Nat.add_le_add_right hhigh _) (by decide)
  · cases he
  · rw [← he]
    exact hc

end Nullock

namespace Nullock.Proxy.H2Client
open HttpLogic H2ClientLogic

def submittedHeaders (L : TextLibrary) (req : ProxiedRequest) : List HeaderNV :=
  buildRequestHeaders L req.method req.host req.path req.headers

def namedByConnection (L : TextLibrary) (headers : List Header) (name : QString) : Bool :=
  headers.any (fun kv => equalsIgnoreCase kv.1 (utf16 "connection") &&
    (kv.2.splitOn 0x2C).any (fun tok =>
      !(L.lowerCase (QString.trimmed tok)).isEmpty &&
        L.lowerCase (QString.trimmed tok) == L.lowerCase name))

def withheld (L : TextLibrary) (headers : List Header) (name : QString) : Bool :=
  isHopByHopHeader (L.lowerCase name) || namedByConnection L headers name ||
    isProxyHopRequestHeader name

def authorityOf (req : ProxiedRequest) : QString :=
  if req.port = 443 then req.host
  else req.host ++ (utf16 ":" ++ fromLatin1 (QByteArray.number req.port))

def pseudoHeaders (L : TextLibrary) (req : ProxiedRequest) : List HeaderNV :=
  [⟨latin1 ":method", L.toUtf8 req.method⟩, ⟨latin1 ":scheme", latin1 "https"⟩,
    ⟨latin1 ":authority", L.toUtf8 (authorityOf req)⟩, ⟨latin1 ":path", L.toUtf8 req.path⟩]

def pseudoNames : List QString :=
  [utf16 ":method", utf16 ":scheme", utf16 ":authority", utf16 ":path"]

def translated (L : TextLibrary) (keep : QString → Bool) (headers : List Header) :
    List HeaderNV :=
  (headers.filter (fun h => keep h.1)).map (fun h => nameValue L (L.lowerCase h.1) h.2)

/-- Pseudo-headers once and in front, then the headers meant for the origin. -/
def Preserved (L : TextLibrary) (req : ProxiedRequest) (block : List HeaderNV) : Prop :=
  block = pseudoHeaders L req ++
      translated L (fun name => !withheld L req.headers name) req.headers ∧
    ∀ nv ∈ block.drop 4, nv.name ∉ pseudoNames.map toLatin1

def passes (L : TextLibrary) (headers : List Header) (name : QString) : Bool :=
  !name.isEmpty && !isHopByHopHeader (L.lowerCase name) &&
    !decide (L.lowerCase name ∈ connectionNamedHeaders L headers)

theorem submittedHeaders_eq (L : TextLibrary) (req : ProxiedRequest) :
    submittedHeaders L req =
      [⟨latin1 ":method", L.toUtf8 (if req.method.isEmpty then utf16 "GET" else req.method)⟩,
        ⟨latin1 ":scheme", latin1 "https"⟩, ⟨latin1 ":authority", L.toUtf8 req.host⟩,
        ⟨latin1 ":path", L.toUtf8 (if req.path.isEmpty then utf16 "/" else req.path)⟩] ++
      translated L (passes L req.headers) req.headers := by
  rw [submittedHeaders, buildRequestHeaders, translated]
  congr 1
  rw [← List.filterMap_eq_map, List.filterMap_filter]
  apply List.filterMap_congr
  intro h _
  rw [passes]
  cases he : h.1.isEmpty <;> cases hhop : isHopByHopHeader (L.lowerCase h.1) <;>
    by_cases hn : L.lowerCase h.1 ∈ connectionNamedHeaders L req.headers <;> simp [hhop, hn]

section
variable {L : TextLibrary} (laws : TextLaws L)

include laws

theorem mem_connectionNamed (headers : List Header) (hname : name ≠ []) :
    L.lowerCase name ∈ connectionNamedHeaders L headers ↔
      namedByConnection L headers name = true := by
  have hlower : L.lowerCase name ≠ [] := fun he => hname (laws.lowerCase_nil.1 he)
  rw [connectionNamedHeaders, namedByConnection, List.mem_flatMap, List.any_eq_true]
  constructor
  · intro h
    obtain ⟨kv, hkv, hm⟩ := h
    obtain ⟨hmem, hconnection⟩ := List.mem_filter.1 hkv
    obtain ⟨hm, hne⟩ := List.mem_filter.1 hm
    obtain ⟨tok, htok, he⟩ := List.mem_map.1 hm
    refine ⟨kv, hmem, ?_⟩
    rw [Bool.and_eq_true, List.any_eq_true]
    refine ⟨hconnection, tok, (List.mem_filter.1 htok).1, ?_⟩
    rw [he, hne, Bool.true_and, beq_self_eq_true]
  · intro h
    obtain ⟨kv, hmem, hkv⟩ := h
    rw [Bool.and_eq_true, List.any_eq_true] at hkv
    obtain ⟨hconnection, tok, htok, he⟩ := hkv
    rw [Bool.and_eq_true, beq_iff_eq] at he
    have htokne : tok ≠ [] := by
      intro hnil
      have htrim : QString.trimmed [] = [] := rfl
      rw [hnil, htrim, laws.lowerCase_nil.2 rfl] at he
      exact hlower he.2.symm
    refine ⟨kv, List.mem_filter.2 ⟨hmem, hconnection⟩, List.mem_filter.2 ⟨?_, ?_⟩⟩
    · refine List.mem_map.2 ⟨tok, List.mem_filter.2 ⟨htok, ?_⟩, he.2⟩
      rw [List.isEmpty_eq_false_iff.2 htokne]
      rfl
    · rw [List.isEmpty_eq_false_iff.2 hlower]
      rfl

theorem passes_iff (headers : List Header) (name : QString) :
    passes L headers name = true ↔ name ≠ [] ∧ isHopByHopHeader (L.lowerCase name) = false ∧
      namedByConnection L headers name = false := by
  rw [passes, Bool.and_eq_true, Bool.and_eq_true, Bool.not_eq_true', Bool.not_eq_true',
    Bool.not_eq_true', decide_eq_false_iff_not, List.isEmpty_eq_false_iff, and_assoc]
  apply and_congr_right
  intro hname
  rw [mem_connectionNamed laws headers hname, Bool.not_eq_true]

theorem lowerCase_iff (hlatin : ∀ c ∈ name, c ≤ 0xFF) {literal lower : QString}
    (hfold : literal.map foldCase = lower) (hlower : ∀ c ∈ lower, c < 0x80) :
    L.lowerCase name = lower ↔ equalsIgnoreCase name literal = true := by
  rw [laws.lowerCase_ascii name _ hlower, equalsIgnoreCase_iff_toLower hlatin, hfold]

theorem proxyAuthorization_iff (hlatin : ∀ c ∈ name, c ≤ 0xFF) :
    L.lowerCase name = utf16 "proxy-authorization" ↔
      equalsIgnoreCase name (utf16 "Proxy-Authorization") = true :=
  lowerCase_iff laws hlatin (by decide) (forall_mem_of_all (by decide))

theorem withheld_iff (headers : List Header) (hlatin : ∀ c ∈ name, c ≤ 0xFF) :
    withheld L headers name = true ↔ isHopByHopHeader (L.lowerCase name) = true ∨
      namedByConnection L headers name = true ∨
      equalsIgnoreCase name (utf16 "Proxy-Authorization") = true := by
  rw [withheld, Bool.or_eq_true, Bool.or_eq_true, or_assoc, isProxyHopRequestHeader,
    Bool.or_eq_true]
  constructor
  · intro h
    rcases h with h | h | h | h
    · exact .inl h
    · exact .inr (.inl h)
    · left
      have hlower : L.lowerCase name = utf16 "proxy-connection" :=
        (lowerCase_iff laws hlatin (by decide) (forall_mem_of_all (by decide))).2 h
      rw [hlower]
      rfl
    · exact .inr (.inr h)
  · intro h
    rcases h with h | h | h
    · exact .inl h
    · exact .inr (.inl h)
    · exact .inr (.inr (.inr h))

theorem withheld_nil (headers : List Header) : withheld L headers [] = false := by
  have hlower : L.lowerCase [] = [] := laws.lowerCase_nil.2 rfl
  have hnamed : namedByConnection L headers [] = false := by
    rw [namedByConnection, List.any_eq_false]
    intro kv _ h
    rw [Bool.and_eq_true, List.any_eq_true] at h
    obtain ⟨_, tok, _, he⟩ := h
    rw [hlower, Bool.and_eq_true, beq_iff_eq] at he
    rw [he.2] at he
    exact absurd he.1 (by decide)
  rw [withheld, hlower, hnamed]
  rfl

omit laws in
theorem mem_translated {keep : QString → Bool} (h : nv ∈ translated L keep headers) :
    ∃ f ∈ headers, keep f.1 = true ∧ nv.name = L.toUtf8 (L.lowerCase f.1) := by
  obtain ⟨f, hf, he⟩ := List.mem_map.1 h
  obtain ⟨hmem, hkeep⟩ := List.mem_filter.1 hf
  rw [← he]
  exact ⟨f, hmem, hkeep, rfl⟩

omit laws in
theorem translated_mem (keep : QString → Bool) (hf : f ∈ headers) (hkeep : keep f.1 = true) :
    nameValue L (L.lowerCase f.1) f.2 ∈ translated L keep headers :=
  List.mem_map.2 ⟨f, List.mem_filter.2 ⟨hf, hkeep⟩, rfl⟩

theorem translated_eq_iff {headers : List Header}
    (hlatin : ∀ h ∈ headers, ∀ c ∈ h.1, c ≤ 0xFF) :
    translated L (passes L headers) headers =
        translated L (fun name => !withheld L headers name) headers ↔
      ∀ h ∈ headers, h.1 ≠ [] ∧
        (equalsIgnoreCase h.1 (utf16 "Proxy-Authorization") = true →
          namedByConnection L headers h.1 = true) := by
  constructor
  · intro heq h hh
    constructor
    · intro hnil
      have hkeep : (!withheld L headers h.1) = true := by
        rw [hnil, withheld_nil laws]
        rfl
      have hin := translated_mem (L := L) (fun name => !withheld L headers name) hh hkeep
      rw [← heq] at hin
      obtain ⟨f, _, hpass, hname⟩ := mem_translated hin
      have hempty : L.toUtf8 (L.lowerCase h.1) = [] := by
        rw [laws.toUtf8_nil, laws.lowerCase_nil]
        exact hnil
      have hfempty : f.1 = [] := by
        rw [← laws.lowerCase_nil, ← laws.toUtf8_nil, ← hname]
        exact hempty
      exact ((passes_iff laws headers f.1).1 hpass).1 hfempty
    · intro hcredentials
      by_contra hnamed
      rw [Bool.not_eq_true] at hnamed
      have hlower := (proxyAuthorization_iff laws (hlatin h hh)).2 hcredentials
      have hpass : passes L headers h.1 = true := by
        rw [passes_iff laws]
        refine ⟨?_, ?_, hnamed⟩
        · intro hnil
          rw [laws.lowerCase_nil.2 hnil] at hlower
          cases hlower
        · rw [hlower]
          rfl
      have hin := translated_mem (L := L) (passes L headers) hh hpass
      rw [heq] at hin
      obtain ⟨f, hf, hkeep, hname⟩ := mem_translated hin
      have hascii : ∀ c ∈ utf16 "proxy-authorization", c < 0x80 ∧ c ≠ 0x3F :=
        forall_mem_of_all (by decide)
      have hsame : L.toUtf8 (L.lowerCase f.1) = toLatin1 (utf16 "proxy-authorization") := by
        rw [← hname]
        exact (laws.toUtf8_ascii _ _ hascii).2 hlower
      have hcredentials' := (proxyAuthorization_iff laws (hlatin f hf)).1
        ((laws.toUtf8_ascii _ _ hascii).1 hsame)
      rw [(withheld_iff laws headers (hlatin f hf)).2 (.inr (.inr hcredentials'))] at hkeep
      cases hkeep
  · intro hall
    rw [translated, translated]
    congr 1
    apply List.filter_congr
    intro h hh
    obtain ⟨hne, hcredentials⟩ := hall h hh
    have hkeep : (!withheld L headers h.1) = true ↔ ¬ withheld L headers h.1 = true := by
      rw [Bool.not_eq_true', Bool.not_eq_true]
    rw [Bool.eq_iff_iff, passes_iff laws, hkeep, withheld_iff laws headers (hlatin h hh), not_or,
      not_or, Bool.not_eq_true, Bool.not_eq_true]
    constructor
    · intro hp
      refine ⟨hp.2.1, hp.2.2, ?_⟩
      intro hc
      rw [hcredentials hc] at hp
      cases hp.2.2
    · intro hp
      exact ⟨hne, hp.1, hp.2.1⟩

theorem translated_pseudo {keep : QString → Bool} (hcolon : ∀ h ∈ headers, 0x3A ∉ h.1)
    (h : nv ∈ translated L keep headers) : nv.name ∉ pseudoNames.map toLatin1 := by
  obtain ⟨f, hf, _, hname⟩ := mem_translated h
  intro hm
  obtain ⟨pseudo, hp, he⟩ := List.mem_map.1 hm
  have hall : ∀ s ∈ pseudoNames,
      s.all (fun c => decide (c < 0x80 ∧ c ≠ 0x3F)) = true ∧ 0x3A ∈ s := by decide
  have hpseudo := And.imp_left forall_mem_of_all (hall pseudo hp)
  have hlower : L.lowerCase f.1 = pseudo :=
    (laws.toUtf8_ascii _ _ hpseudo.1).1 (hname.symm.trans he.symm)
  have htext := (laws.lowerCase_ascii f.1 pseudo (fun c hc => (hpseudo.1 c hc).1)).1 hlower
  apply hcolon f hf
  apply colon_of_toLower
  rw [htext]
  exact hpseudo.2

theorem preserved_iff (req : ProxiedRequest) (hlatin : ∀ h ∈ req.headers, ∀ c ∈ h.1, c ≤ 0xFF)
    (hcolon : ∀ h ∈ req.headers, 0x3A ∉ h.1) (hpath : req.path ≠ []) :
    Preserved L req (submittedHeaders L req) ↔ req.method ≠ [] ∧ req.port = 443 ∧
      ∀ h ∈ req.headers, h.1 ≠ [] ∧
        (equalsIgnoreCase h.1 (utf16 "Proxy-Authorization") = true →
          namedByConnection L req.headers h.1 = true) := by
  have hmethod : L.toUtf8 (if req.method.isEmpty then utf16 "GET" else req.method) =
      L.toUtf8 req.method ↔ req.method ≠ [] := by
    split
    · rename_i he
      rw [List.isEmpty_iff] at he
      rw [he, laws.toUtf8_nil.2 rfl, laws.toUtf8_nil]
      exact iff_of_false (by decide) (fun hne => hne rfl)
    · rename_i he
      exact iff_of_true rfl (fun hnil => he (List.isEmpty_iff.2 hnil))
  have hauthority : L.toUtf8 req.host = L.toUtf8 (authorityOf req) ↔ req.port = 443 := by
    rw [authorityOf]
    split
    · rename_i hport
      exact iff_of_true rfl hport
    · rename_i hport
      apply iff_of_false _ hport
      rw [laws.toUtf8_append]
      · intro he
        have hlen := congrArg List.length he
        rw [List.length_append, toLatin1, List.length_map, List.length_append] at hlen
        have hone : (utf16 ":").length = 1 := rfl
        omega
      · intro c hc
        rcases List.mem_append.1 hc with hc | hc
        · rw [List.mem_singleton.1 hc]
          decide
        · have hdigit := (isNumeral_iff.1 (number_numeral req.port).1).2 c hc
          rw [isDigit, Bool.and_eq_true, decide_eq_true_eq, decide_eq_true_eq] at hdigit
          exact UInt16.lt_of_le_of_lt hdigit.2 (by decide)
  have hrest : ∀ nv ∈ (submittedHeaders L req).drop 4, nv.name ∉ pseudoNames.map toLatin1 := by
    intro nv hnv
    rw [submittedHeaders_eq] at hnv
    exact translated_pseudo laws hcolon hnv
  rw [Preserved, and_iff_left hrest, submittedHeaders_eq, pseudoHeaders,
    if_neg (fun he => hpath (List.isEmpty_iff.1 he)), ← hmethod, ← hauthority,
    ← translated_eq_iff laws hlatin]
  simp only [List.cons_append, List.nil_append, List.cons.injEq, HeaderNV.mk.injEq, true_and]

/-- A block says what the request says exactly for a method, the port of `https`, and plain
headers. -/
theorem translation_preserved_iff (hread : readRequestFrom socket = some req) (host : QString)
    (port : Nat) :
    Preserved L (tunnelled host port req) (submittedHeaders L (tunnelled host port req)) ↔
      req.method ≠ [] ∧ port = 443 ∧ ∀ h ∈ req.headers, h.1 ≠ [] ∧
        (equalsIgnoreCase h.1 (utf16 "Proxy-Authorization") = true →
          namedByConnection L req.headers h.1 = true) := by
  have hparsed : ∀ h ∈ req.headers, ParsedField h := by
    rw [(readRequestFrom_accepted hread).fields]
    exact parseHeaders_parsed _
  have hpath : (tunnelled host port req).path ≠ [] := by
    rw [tunnelled]
    dsimp only
    split
    · rename_i hslash
      intro he
      rw [he] at hslash
      cases hslash
    · exact List.cons_ne_nil _ _
  exact preserved_iff laws (tunnelled host port req)
    (fun h hh => (hparsed h hh).nameLatin1) (fun h hh => (hparsed h hh).noColon) hpath

end

theorem asciiLibrary_laws : TextLaws asciiLibrary where
  lowerCase_ascii _ _ _ := Iff.rfl
  toUtf8_append _ _ _ := List.map_append
  toUtf8_ascii s t ht := by
    constructor
    · intro h
      induction s generalizing t with
      | nil => exact (List.map_eq_nil_iff.1 h.symm).symm
      | cons c s ih =>
        cases t with
        | nil => cases h
        | cons d t =>
          rw [List.forall_mem_cons] at ht
          obtain ⟨hc, hrest⟩ := List.cons.inj h
          have hd : d ≤ 0xFF := UInt16.le_of_lt (UInt16.lt_of_lt_of_le ht.1.1 (by decide))
          have hback : (toLatin1Char d).toUInt16 = d := toUInt16_toLatin1Char hd
          have hmark : toLatin1Char d ≠ 0x3F := by
            intro he
            rw [he] at hback
            exact ht.1.2 hback.symm
          rw [(toLatin1Char_eq_iff hmark).1 hc, hback, ih t ht.2 hrest]
    · intro h
      rw [h]
      rfl

def getRequest (headers : List Header) : HttpRequest where
  method := utf16 "GET"
  target := utf16 "/"
  httpVersion := utf16 "HTTP/1.1"
  headers := headers
  path := utf16 "/"
  body := []

theorem translation_preserved_get :
    Preserved asciiLibrary (tunnelled (utf16 "a.example") 443
        (getRequest [(utf16 "Host", utf16 "a.example")]))
      (submittedHeaders asciiLibrary (tunnelled (utf16 "a.example") 443
        (getRequest [(utf16 "Host", utf16 "a.example")]))) := by
  have hread : readRequestFrom [latin1 "GET / HTTP/1.1\r\nHost: a.example\r\n\r\n"] =
      some (getRequest [(utf16 "Host", utf16 "a.example")]) := by decide
  apply (translation_preserved_iff asciiLibrary_laws hread _ _).2
  decide

theorem getRequest_latin (h : name.all (fun c => decide (c ≤ 0xFF)) = true) (value host : QString)
    (port : Nat) : ∀ f ∈ (tunnelled host port (getRequest [(name, value)])).headers,
      ∀ c ∈ f.1, c ≤ 0xFF := by
  intro f hf
  rw [List.mem_singleton.1 hf]
  exact forall_mem_of_all h

/-- The origin's port is lost, and it gets the proxy's credentials. -/
theorem port_lost_and_credentials_sent :
    (readRequestFrom [latin1 "GET / HTTP/1.1\r\nHost: a.example:8443\r\n\r\n"] =
        some (getRequest [(utf16 "Host", utf16 "a.example:8443")]) ∧
      ¬ Preserved asciiLibrary (tunnelled (utf16 "a.example") 8443
          (getRequest [(utf16 "Host", utf16 "a.example:8443")]))
        (submittedHeaders asciiLibrary (tunnelled (utf16 "a.example") 8443
          (getRequest [(utf16 "Host", utf16 "a.example:8443")])))) ∧
    readRequestFrom [latin1 "GET / HTTP/1.1\r\nProxy-Authorization: Basic eA==\r\n\r\n"] =
        some (getRequest [(utf16 "Proxy-Authorization", utf16 "Basic eA==")]) ∧
      ¬ Preserved asciiLibrary (tunnelled (utf16 "a.example") 443
          (getRequest [(utf16 "Proxy-Authorization", utf16 "Basic eA==")]))
        (submittedHeaders asciiLibrary (tunnelled (utf16 "a.example") 443
          (getRequest [(utf16 "Proxy-Authorization", utf16 "Basic eA==")]))) := by
  refine ⟨⟨by decide, ?_⟩, by decide, ?_⟩
  · rw [preserved_iff asciiLibrary_laws _ (getRequest_latin (by decide) _ _ _) (by decide)
      (by decide)]
    decide
  · rw [preserved_iff asciiLibrary_laws _ (getRequest_latin (by decide) _ _ _) (by decide)
      (by decide)]
    decide

end Nullock.Proxy.H2Client

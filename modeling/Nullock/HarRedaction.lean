import Nullock.HarDocument
import Nullock.HistoryReload

namespace Nullock

section Twins

def PairTwins (sep : α) (secret : List α → Bool) (size : List α → Nat) (p q : List α) : Prop :=
  p = q ∨ ∃ name v w, sep ∉ name ∧ p = name ++ sep :: v ∧ q = name ++ sep :: w ∧
    secret name = true ∧ size v = size w

def PairListTwins [BEq α] (amp sep : α) (secret : List α → Bool) (size : List α → Nat)
    (s t : List α) : Prop :=
  List.Forall₂ (PairTwins sep secret size) (s.splitOn amp) (t.splitOn amp)

variable {sep amp : α} {secret : List α → Bool} {size : List α → Nat}

theorem PairTwins.isEmpty_eq (h : PairTwins sep secret size p q) : p.isEmpty = q.isEmpty := by
  rcases h with rfl | ⟨name, v, w, _, rfl, rfl, _⟩
  · rfl
  · rw [List.isEmpty_eq_false_iff.2 (List.append_ne_nil_of_right_ne_nil _ (List.cons_ne_nil _ _)),
      List.isEmpty_eq_false_iff.2 (List.append_ne_nil_of_right_ne_nil _ (List.cons_ne_nil _ _))]

theorem map_eq_of_forall₂ {R : α → β → Prop} {f : α → γ} {g : β → γ}
    (h : List.Forall₂ R s t) (hfg : ∀ a b, R a b → f a = g b) : s.map f = t.map g := by
  induction h with
  | nil => rfl
  | cons hab _ ih => rw [List.map_cons, List.map_cons, hfg _ _ hab, ih]

theorem forall₂_of_map_eq {R : α → β → Prop} {f : α → γ} {g : β → γ} {S : α → β → Prop}
    (h : List.Forall₂ R s t) (he : s.map f = t.map g) (hS : ∀ a b, R a b → f a = g b → S a b) :
    List.Forall₂ S s t := by
  induction h with
  | nil => exact .nil
  | cons hab _ ih =>
    obtain ⟨hfg, he⟩ := List.cons.inj he
    exact .cons (hS _ _ hab hfg) (ih he)

theorem filter_nonempty_twins (h : List.Forall₂ (PairTwins sep secret size) s t) :
    List.Forall₂ (PairTwins sep secret size) (s.filter (fun p => !p.isEmpty))
      (t.filter (fun p => !p.isEmpty)) := by
  induction h with
  | nil => exact .nil
  | cons hpq _ ih =>
    rw [List.filter_cons, List.filter_cons, hpq.isEmpty_eq]
    split
    · exact .cons hpq ih
    · exact ih

variable [BEq α] [LawfulBEq α]

theorem isEmpty_iff_splitOn (x : α) (s : List α) :
    s.isEmpty = true ↔ (s.splitOn x).map List.isEmpty = [true] := by
  constructor
  · intro h
    rw [List.isEmpty_iff.1 h, List.splitOn_nil]
    rfl
  · intro h
    obtain ⟨part, hs, hpart⟩ := List.map_eq_singleton_iff.1 h
    have hjoin : [x].intercalate (s.splitOn x) = s := List.intercalate_splitOn x
    rw [← hjoin, hs, List.isEmpty_iff.1 hpart]
    rfl

theorem PairListTwins.isEmpty_eq (h : PairListTwins amp sep secret size s t) :
    s.isEmpty = t.isEmpty := by
  rw [Bool.eq_iff_iff, isEmpty_iff_splitOn amp s, isEmpty_iff_splitOn amp t,
    map_eq_of_forall₂ h (fun _ _ hpq => hpq.isEmpty_eq)]

end Twins

end Nullock

namespace Nullock.ProjectStore
open QJsonObject Proxy HttpLogic

/-- Two queries that differ in the values of sensitive parameters only. -/
def QueryTwins (s t : QString) : Prop := PairListTwins 0x26 0x3D isSensitiveParamKey List.length s t

def FormTwins (s t : QByteArray) : Prop :=
  PairListTwins 0x26 0x3D (fun name => isSensitiveParamKey (fromUtf8 name))
    (fun value => (fromUtf8 value).length) s t

def PathTwins (p q : QString) : Prop :=
  p = q ∨ ∃ base s t, 0x3F ∉ base ∧ p = base ++ 0x3F :: s ∧ q = base ++ 0x3F :: t ∧ QueryTwins s t

def HeaderTwins (h k : Header) : Prop :=
  h = k ∨ h.1 = k.1 ∧ isSensitiveHeader h.1 = true ∧ h.2.length = k.2.length

/-- Two values that differ only under sensitive names within the first `levels` levels. -/
def JsonTwins : Nat → QJsonValue → QJsonValue → Prop
  | 0, v, w => v = w
  | levels + 1, .object o, .object p =>
    List.Forall₂ (fun m n => m.1 = n.1 ∧
      ((isSensitiveParamKey m.1 = true ∧ ∃ s t, m.2 = .string s ∧ n.2 = .string t ∧
        s.length = t.length) ∨ JsonTwins levels m.2 n.2)) o p
  | levels + 1, .array a, .array b => List.Forall₂ (JsonTwins levels) a b
  | _ + 1, v, w => v = w

def BodyTwins (J : JsonLibrary) (contentType : QString) (b c : QByteArray) : Prop :=
  b = c ∨ (isFormType contentType = true ∧ FormTwins b c) ∨
    (isFormType contentType = false ∧ isJsonType contentType = true ∧
      ∃ v w levels, J.fromJson b = some v ∧ J.fromJson c = some w ∧ JsonTwins levels v w)

structure RequestTwins (J : JsonLibrary) (r s : HistoryRequest) : Prop where
  method : r.method = s.method
  host : r.host = s.host
  port : r.port = s.port
  httpVersion : r.httpVersion = s.httpVersion
  path : PathTwins r.path s.path
  headers : List.Forall₂ HeaderTwins r.headers s.headers
  body : BodyTwins J (findContentType r.headers) r.body s.body

structure ResponseTwins (J : JsonLibrary) (r s : HistoryResponse) : Prop where
  httpVersion : r.httpVersion = s.httpVersion
  statusCode : r.statusCode = s.statusCode
  reasonPhrase : r.reasonPhrase = s.reasonPhrase
  peerAddress : r.peerAddress = s.peerAddress
  wasTls : r.wasTls = s.wasTls
  headers : List.Forall₂ HeaderTwins r.headers s.headers
  body : BodyTwins J (findContentType r.headers) r.body s.body

def recordRequest (src : QJsonObject) : HistoryRequest :=
  requestFromJson (src.value "request").toObject

def recordResponse (src : QJsonObject) : HistoryResponse :=
  responseFromJson (src.value "response").toObject

/-- Two stored transactions that differ in secrets only; the target is not exported. -/
structure RecordTwins (J : JsonLibrary) (src dst : QJsonObject) : Prop where
  ts : (src.value "ts").toQString = (dst.value "ts").toQString
  request : RequestTwins J (recordRequest src) (recordRequest dst)
  response : ResponseTwins J (recordResponse src) (recordResponse dst)

/-- The bodies are equal, or text of one size whose secrets stand in the first levels. -/
def BodyHidden (J : JsonLibrary) (contentType : QString) (b c : QByteArray) : Prop :=
  b = c ∨ (b.length = c.length ∧ IsText b ∧ IsText c ∧
    (isFormType contentType = true ∨
      (isJsonType contentType = true ∧ ∃ v w, J.fromJson b = some v ∧ J.fromJson c = some w ∧
        JsonTwins kRedactLevels v w)))

/-- The secrets in the bodies of two stored transactions cannot be told apart. -/
def RecordHidden (J : JsonLibrary) (src dst : QJsonObject) : Prop :=
  BodyHidden J (findContentType (recordRequest src).headers) (recordRequest src).body
      (recordRequest dst).body ∧
    BodyHidden J (findContentType (recordResponse src).headers) (recordResponse src).body
      (recordResponse dst).body

section Hidden

theorem redactPair_twins (h : PairTwins 0x3D isSensitiveParamKey List.length p q) :
    redactPair p = redactPair q := by
  rcases h with rfl | ⟨name, v, w, hname, rfl, rfl, hsecret, hsize⟩
  · rfl
  · rw [redactPair, redactPair, splitFirst_append hname, splitFirst_append hname]
    dsimp only
    rw [hsecret, if_pos rfl, if_pos rfl, hsize]

theorem redactParamString_twins (h : QueryTwins s t) :
    redactParamString s = redactParamString t := by
  rw [redactParamString, redactParamString, map_eq_of_forall₂ h (fun _ _ => redactPair_twins)]

theorem harQueryPair_twins (h : PairTwins 0x3D isSensitiveParamKey List.length p q) :
    harQueryPair true p = harQueryPair true q := by
  rcases h with rfl | ⟨name, v, w, hname, rfl, rfl, hsecret, hsize⟩
  · rfl
  · rw [harQueryPair, harQueryPair, splitFirst_append hname, splitFirst_append hname]
    dsimp only
    rw [hsecret, Bool.and_self, if_pos rfl, if_pos rfl, hsize]

theorem queryOf_append (h : 0x3F ∉ base) (query : QString) :
    queryOf (base ++ 0x3F :: query) = if query.isEmpty then none else some (base, query) := by
  rw [queryOf, splitFirst_append h]

theorem harQueryString_twins (h : PathTwins p q) :
    harQueryString p true = harQueryString q true := by
  rcases h with rfl | ⟨base, s, t, hbase, rfl, rfl, hst⟩
  · rfl
  · rw [harQueryString, harQueryString, queryOf_append hbase, queryOf_append hbase, hst.isEmpty_eq]
    by_cases ht : t.isEmpty = true
    · rw [if_pos ht, if_pos ht]
    · rw [if_neg ht, if_neg ht]
      dsimp only
      rw [map_eq_of_forall₂ (filter_nonempty_twins hst) (fun _ _ => harQueryPair_twins)]

theorem harPath_twins (h : PathTwins p q) : harPath p true = harPath q true := by
  rcases h with rfl | ⟨base, s, t, hbase, rfl, rfl, hst⟩
  · rfl
  · rw [harPath, harPath, if_pos rfl, if_pos rfl, queryOf_append hbase, queryOf_append hbase,
      hst.isEmpty_eq]
    by_cases ht : t.isEmpty = true
    · have hs : s = [] := List.isEmpty_iff.1 (hst.isEmpty_eq.trans ht)
      rw [if_pos ht, if_pos ht, hs, List.isEmpty_iff.1 ht]
    · rw [if_neg ht, if_neg ht]
      dsimp only
      rw [redactParamString_twins hst]

theorem harHeaders_twins (h : List.Forall₂ HeaderTwins a b) :
    harHeaders a true = harHeaders b true := by
  rw [harHeaders, harHeaders, map_eq_of_forall₂ h]
  rintro k l (rfl | ⟨hname, hsecret, hsize⟩)
  · rfl
  · rw [harHeader, harHeader, ← hname, hsecret, Bool.and_self, if_pos rfl, if_pos rfl, hsize]

theorem contentType_not_sensitive (h : equalsIgnoreCase name (utf16 "Content-Type") = true) :
    isSensitiveHeader name = false := by
  have hfold : name.map foldCase = (utf16 "Content-Type").map foldCase := eq_of_beq h
  have hlength : (toLower name).length = 12 := by
    have hl := congrArg List.length hfold
    rw [List.length_map] at hl
    rw [toLower, List.length_map, hl]
    rfl
  have hhead : (toLower name).head? = some 0x63 := by
    cases name with
    | nil => exact absurd hlength (by decide)
    | cons c name =>
      have hc : foldCase c = 0x63 := (List.cons.inj hfold).1
      have hcc : c = 0x43 ∨ c = 0x63 := by
        rw [foldCase] at hc
        split at hc
        · have hsum : c + 0x20 = 0x43 + 0x20 := hc
          exact .inl ((UInt16.add_left_inj 0x20).1 hsum)
        split at hc
        · exact absurd hc (by decide)
        split at hc
        · exact absurd hc (by decide)
        · exact .inr hc
      rcases hcc with rfl | rfl
      · rfl
      · rfl
  have hall : ∀ k ∈ kSensitiveHeaders, k.length ≠ 12 ∨ k.head? ≠ some 0x63 :=
    forall_mem_of_all (by decide)
  rw [isSensitiveHeader, Bool.eq_false_iff]
  intro hmem
  rcases hall _ (List.contains_iff_mem.1 hmem) with hne | hne
  · exact hne hlength
  · exact hne hhead

theorem findContentType_twins (h : List.Forall₂ HeaderTwins a b) :
    findContentType a = findContentType b := by
  rw [findContentType, findContentType, findHeader, findHeader]
  induction h with
  | nil => rfl
  | @cons k l a b hkl _ ih =>
    rw [List.find?_cons, List.find?_cons]
    rcases hkl with rfl | ⟨hname, hsecret, _⟩
    · cases equalsIgnoreCase k.1 (utf16 "Content-Type") with
      | true => rfl
      | false => exact ih
    · have hk : equalsIgnoreCase k.1 (utf16 "Content-Type") = false := by
        rw [Bool.eq_false_iff]
        intro hn
        rw [contentType_not_sensitive hn] at hsecret
        exact Bool.false_ne_true hsecret
      rw [← hname, hk]
      exact ih

theorem jsonTwins_refl (levels : Nat) (v : QJsonValue) : JsonTwins levels v v := by
  induction levels generalizing v with
  | zero => rfl
  | succ levels ih =>
    cases v with
    | object o =>
      rw [JsonTwins]
      exact List.forall₂_same.2 (fun m _ => ⟨rfl, .inr (ih m.2)⟩)
    | array a =>
      rw [JsonTwins]
      exact List.forall₂_same.2 (fun w _ => ih w)
    | _ => rfl

def MemberTwins (levels : Nat) (m n : QString × QJsonValue) : Prop :=
  m.1 = n.1 ∧ ((isSensitiveParamKey m.1 = true ∧ ∃ s t, m.2 = .string s ∧ n.2 = .string t ∧
    s.length = t.length) ∨ JsonTwins levels m.2 n.2)

theorem JsonTwins.succ_cases (h : JsonTwins (levels + 1) v w) :
    v = w ∨ (∃ o p, v = .object o ∧ w = .object p ∧ List.Forall₂ (MemberTwins levels) o p) ∨
      ∃ a b, v = .array a ∧ w = .array b ∧ List.Forall₂ (JsonTwins levels) a b := by
  cases v with
  | object o =>
    cases w with
    | object p => exact .inr (.inl ⟨o, p, rfl, rfl, h⟩)
    | _ => exact .inl h
  | array a =>
    cases w with
    | array b => exact .inr (.inr ⟨a, b, rfl, rfl, h⟩)
    | _ => exact .inl h
  | _ => exact .inl h

theorem JsonTwins.eq_or_notString (h : JsonTwins levels v w) :
    v = w ∨ v.isString = false ∧ w.isString = false := by
  cases levels with
  | zero => exact .inl h
  | succ levels =>
    rcases h.succ_cases with he | ⟨o, p, rfl, rfl, _⟩ | ⟨a, b, rfl, rfl, _⟩
    · exact .inl he
    · exact .inr ⟨rfl, rfl⟩
    · exact .inr ⟨rfl, rfl⟩

def redactMember (levels : Nat) (m : QString × QJsonValue) : QString × QJsonValue :=
  (m.1, if isSensitiveParamKey m.1 && m.2.isString then
      .string (harRedactMarker m.2.toQString.length)
    else redactJsonValue levels m.2)

theorem redactMember_notString (h : m.2.isString = false) :
    redactMember levels m = (m.1, redactJsonValue levels m.2) := by
  rw [redactMember, h, Bool.and_false, if_neg Bool.false_ne_true]

theorem redactJsonValue_twins (h : JsonTwins levels v w) :
    redactJsonValue levels v = redactJsonValue levels w := by
  induction levels generalizing v w with
  | zero => exact h
  | succ levels ih =>
    rcases h.succ_cases with rfl | ⟨o, p, rfl, rfl, hop⟩ | ⟨a, b, rfl, rfl, hab⟩
    · rfl
    · rw [redactJsonValue, redactJsonValue]
      refine congrArg QJsonValue.object (map_eq_of_forall₂ hop ?_)
      rintro ⟨key, x⟩ ⟨key', y⟩ ⟨rfl, ⟨hsecret, s, t, rfl, rfl, hlen⟩ | htwins⟩
      · dsimp only [QJsonValue.isString, QJsonValue.toQString]
        rw [hsecret, hlen]
        rfl
      · show redactMember levels (key, x) = redactMember levels (key, y)
        rcases htwins.eq_or_notString with rfl | ⟨hx, hy⟩
        · rfl
        · rw [redactMember_notString hx, redactMember_notString hy, ih htwins]
    · rw [redactJsonValue, redactJsonValue, map_eq_of_forall₂ hab (fun _ _ => ih)]

theorem jsonTwins_of_redact (h : JsonTwins l v w)
    (he : redactJsonValue levels v = redactJsonValue levels w) : JsonTwins levels v w := by
  induction levels generalizing l v w with
  | zero => exact he
  | succ levels ih =>
    cases l with
    | zero => exact h ▸ jsonTwins_refl _ v
    | succ l =>
      rcases h.succ_cases with rfl | ⟨o, p, rfl, rfl, hop⟩ | ⟨a, b, rfl, rfl, hab⟩
      · exact jsonTwins_refl _ v
      · rw [redactJsonValue, redactJsonValue, QJsonValue.object.injEq] at he
        rw [JsonTwins]
        refine forall₂_of_map_eq hop he ?_
        rintro m n ⟨hkey, hsecret | htwins⟩ hmn
        · exact ⟨hkey, .inl hsecret⟩
        · refine ⟨hkey, .inr ?_⟩
          rcases htwins.eq_or_notString with heq | ⟨hm, hn⟩
          · exact heq ▸ jsonTwins_refl _ m.2
          · have hredacted : redactMember levels m = redactMember levels n := hmn
            rw [redactMember_notString hm, redactMember_notString hn] at hredacted
            exact ih htwins (Prod.mk.inj hredacted).2
      · rw [redactJsonValue, redactJsonValue, QJsonValue.array.injEq] at he
        rw [JsonTwins]
        exact forall₂_of_map_eq hab he (fun _ _ hx hxy => ih hx hxy)

theorem stored_redact {Exact : Rat → Prop} (h : v.Stored Exact depth) (levels : Nat) :
    (redactJsonValue levels v).Stored Exact depth := by
  induction h generalizing levels with
  | null => cases levels <;> exact .null
  | bool => cases levels <;> exact .bool
  | double hd => cases levels <;> exact .double hd
  | string => cases levels <;> exact .string
  | array hall ih =>
    cases levels with
    | zero => exact .array hall
    | succ levels =>
      rw [redactJsonValue]
      refine .array (fun w hw => ?_)
      obtain ⟨x, hx, rfl⟩ := List.mem_map.1 hw
      exact ih x hx levels
  | object hs hall ih =>
    cases levels with
    | zero => exact .object hs hall
    | succ levels =>
      rw [redactJsonValue]
      refine .object (List.pairwise_map.2 hs) (fun n hn => ?_)
      obtain ⟨m, hm, rfl⟩ := List.mem_map.1 hn
      dsimp only
      split
      · exact .string
      · exact ih m hm levels

theorem isDocument_redact (levels : Nat) (v : QJsonValue) :
    (redactJsonValue levels v).isDocument = v.isDocument := by
  cases levels with
  | zero => rfl
  | succ levels => cases v <;> rfl

theorem redacted_text_eq_iff {J : JsonLibrary} (hv : J.fromJson b = some v) (hw : J.fromJson c = some w)
    (h : JsonTwins levels v w) :
    QString.fromUtf8 (J.compact (redactJsonValue kRedactLevels v)) =
        QString.fromUtf8 (J.compact (redactJsonValue kRedactLevels w)) ↔
      JsonTwins kRedactLevels v w := by
  obtain ⟨hvd, hvs⟩ := J.read_stored _ _ hv
  obtain ⟨hwd, hws⟩ := J.read_stored _ _ hw
  have hvd' : (redactJsonValue kRedactLevels v).isDocument = true := by
    rw [isDocument_redact, hvd]
  have hwd' : (redactJsonValue kRedactLevels w).isDocument = true := by
    rw [isDocument_redact, hwd]
  constructor
  · intro he
    have hbytes := congrArg toUtf8 he
    rw [J.toUtf8_compact hvd', J.toUtf8_compact hwd'] at hbytes
    exact jsonTwins_of_redact h
      (J.compact_injective hvd' hwd' (stored_redact hvs _) (stored_redact hws _) hbytes)
  · intro ht
    rw [redactJsonValue_twins ht]

theorem FormTwins.text (h : FormTwins b c) : QueryTwins (fromUtf8 b) (fromUtf8 c) := by
  have hsplit (s : QByteArray) : (fromUtf8 s).splitOn 0x26 = (s.splitOn 0x26).map fromUtf8 :=
    splitOn_fromUtf8 (c := 0x26) (by decide) s
  rw [QueryTwins, PairListTwins, hsplit, hsplit, List.forall₂_map_left_iff,
    List.forall₂_map_right_iff]
  refine h.imp ?_
  rintro p q (rfl | ⟨name, v, w, hname, rfl, rfl, hsecret, hsize⟩)
  · exact .inl rfl
  · refine .inr ⟨fromUtf8 name, fromUtf8 v, fromUtf8 w, ?_, ?_, ?_, hsecret, hsize⟩
    · exact fun hm => hname (mem_fromUtf8_ascii (c := 0x3D) (by decide) hm)
    · exact fromUtf8_append (by decide) name v
    · exact fromUtf8_append (by decide) name w

theorem IsText.fromUtf8_eq (h : IsText b) : QString.fromUtf8 b = fromUtf8 b := by
  rw [QString.fromUtf8, noBom_of_text h.1, if_neg Bool.false_ne_true]

theorem redactBody_form (hct : isFormType ct = true) (h : IsText b) :
    redactBody J b ct true = redactParamString (fromUtf8 b) := by
  rw [redactBody, h.fromUtf8_eq, hct, if_pos rfl, Bool.not_true, Bool.false_or]
  split
  · rename_i he
    rw [List.isEmpty_iff.1 he]
    rfl
  · rfl

theorem redactBody_json {J : JsonLibrary} (hform : isFormType ct = false)
    (hjson : isJsonType ct = true) (hne : b ≠ []) (hv : J.fromJson b = some v) :
    redactBody J b ct true = QString.fromUtf8 (J.compact (redactJsonValue kRedactLevels v)) := by
  rw [redactBody, hform, hjson, hv, List.isEmpty_eq_false_iff.2 hne]
  rfl

theorem harText_text (h : IsText b) :
    harText J b ct redact = (redactBody J b ct redact, false) := if_pos h

theorem harText_base64 (h : ¬ IsText b) :
    harText J b ct redact = (fromLatin1 (QByteArray.toBase64 b), true) := if_neg h

theorem eq_nil_of_length (hlen : b.length = c.length) (hb : b = []) : c = [] := by
  rw [hb] at hlen
  exact List.length_eq_zero_iff.1 hlen.symm

theorem redactBody_eq_iff {J : JsonLibrary} (h : BodyTwins J ct b c) (hb : IsText b)
    (hc : IsText c) (hlen : b.length = c.length) :
    redactBody J b ct true = redactBody J c ct true ↔ BodyHidden J ct b c := by
  rcases h with rfl | ⟨hform, hbc⟩ | ⟨hform, hjson, v, w, levels, hv, hw, hvw⟩
  · exact ⟨fun _ => .inl rfl, fun _ => rfl⟩
  · rw [redactBody_form hform hb, redactBody_form hform hc]
    exact ⟨fun _ => .inr ⟨hlen, hb, hc, .inl hform⟩, fun _ => redactParamString_twins hbc.text⟩
  · by_cases hne : b = []
    · rw [hne, eq_nil_of_length hlen hne]
      exact ⟨fun _ => .inl rfl, fun _ => rfl⟩
    have hne' : c ≠ [] := fun he => hne (eq_nil_of_length hlen.symm he)
    rw [redactBody_json hform hjson hne hv, redactBody_json hform hjson hne' hw,
      redacted_text_eq_iff hv hw hvw]
    constructor
    · intro ht
      exact .inr ⟨hlen, hb, hc, .inr ⟨hjson, v, w, hv, hw, ht⟩⟩
    · rintro (rfl | ⟨_, _, _, hf | ⟨_, v', w', hv', hw', ht⟩⟩)
      · rw [Option.some.inj (hv.symm.trans hw)]
        exact jsonTwins_refl _ w
      · rw [hform] at hf
        exact absurd hf Bool.false_ne_true
      · rw [Option.some.inj (hv.symm.trans hv'), Option.some.inj (hw.symm.trans hw')]
        exact ht

theorem harText_eq_iff {J : JsonLibrary} (h : BodyTwins J ct b c) :
    (b.length = c.length ∧ harText J b ct true = harText J c ct true) ↔ BodyHidden J ct b c := by
  constructor
  · rintro ⟨hlen, he⟩
    by_cases hb : IsText b
    · by_cases hc : IsText c
      · rw [harText_text hb, harText_text hc] at he
        exact (redactBody_eq_iff h hb hc hlen).1 (Prod.mk.inj he).1
      · rw [harText_text hb, harText_base64 hc] at he
        exact absurd (Prod.mk.inj he).2 Bool.false_ne_true
    · by_cases hc : IsText c
      · rw [harText_base64 hb, harText_text hc] at he
        exact absurd (Prod.mk.inj he).2 Bool.false_ne_true.symm
      · rw [harText_base64 hb, harText_base64 hc] at he
        have hbytes := congrArg toLatin1 (Prod.mk.inj he).1
        rw [toLatin1_fromLatin1, toLatin1_fromLatin1] at hbytes
        exact .inl (QByteArray.toBase64_injective hbytes)
  · intro hh
    rcases id hh with rfl | ⟨hlen, hb, hc, _⟩
    · exact ⟨rfl, rfl⟩
    · refine ⟨hlen, ?_⟩
      rw [harText_text hb, harText_text hc, (redactBody_eq_iff h hb hc hlen).2 hh]

theorem sizeToJson_inj (h : sizeToJson m = sizeToJson n) : m = n := by
  have he : ((m : Int) : Rat) = (n : Int) := QJsonValue.double.inj h
  exact_mod_cast he

theorem harPostData_text (J : JsonLibrary) (r : HistoryRequest) (redact : Bool) :
    (harPostData J r redact).value "text" =
        .string (harText J r.body (findContentType r.headers) redact).1 ∧
      (harPostData J r redact).contains "_encoding" =
        (harText J r.body (findContentType r.headers) redact).2 := by
  rw [harPostData, harBody]
  cases (harText J r.body (findContentType r.headers) redact).2 with
  | false =>
    simp (disch := decide) only [value_ofMembers, contains_ofMembers, String.reduceEq, if_true,
      if_false, Bool.false_eq_true, true_and]
    rfl
  | true =>
    simp (disch := decide) only [value_ofMembers, contains_ofMembers, String.reduceEq, if_true,
      if_false, and_self]

theorem harContent_text (J : JsonLibrary) (r : HistoryResponse) (redact : Bool) :
    (harContent J r redact).value "text" =
        .string (harText J r.body (findContentType r.headers) redact).1 ∧
      (harContent J r redact).contains "encoding" =
        (harText J r.body (findContentType r.headers) redact).2 := by
  rw [harContent, harBody]
  cases (harText J r.body (findContentType r.headers) redact).2 with
  | false =>
    simp (disch := decide) only [value_ofMembers, contains_ofMembers, String.reduceEq, if_true,
      if_false, Bool.false_eq_true, true_and]
    rfl
  | true =>
    simp (disch := decide) only [value_ofMembers, contains_ofMembers, String.reduceEq, if_true,
      if_false, and_self]

theorem harRequest_parts (J : JsonLibrary) (r : HistoryRequest) (wasTls redact : Bool) :
    (harRequest J r wasTls redact).value "bodySize" = sizeToJson r.body.length ∧
      (harRequest J r wasTls redact).value "postData" =
        if r.body.isEmpty then .undefined else .object (harPostData J r redact) := by
  rw [harRequest]
  split
  · simp (disch := decide) only [List.cons_append, List.nil_append, value_ofMembers,
      String.reduceEq, if_true, if_false, true_and]
    rfl
  · simp (disch := decide) only [List.cons_append, List.nil_append, value_ofMembers,
      String.reduceEq, if_true, if_false, and_self]

theorem harResponse_parts (J : JsonLibrary) (r : HistoryResponse) (redact : Bool) :
    (harResponse J r redact).value "bodySize" = sizeToJson r.body.length ∧
      (harResponse J r redact).value "content" = .object (harContent J r redact) := by
  simp (disch := decide) only [harResponse, value_ofMembers, String.reduceEq, if_true, if_false,
    and_self]

theorem harRequest_eq_iff (h : RequestTwins J r s) (wasTls : Bool) :
    harRequest J r wasTls true = harRequest J s wasTls true ↔
      BodyHidden J (findContentType r.headers) r.body s.body := by
  have hct := findContentType_twins h.headers
  rw [← harText_eq_iff h.body]
  constructor
  · intro he
    obtain ⟨hsize, hpost⟩ := harRequest_parts J r wasTls true
    obtain ⟨hsize', hpost'⟩ := harRequest_parts J s wasTls true
    rw [he] at hsize hpost
    have hlen := sizeToJson_inj (hsize.symm.trans hsize')
    refine ⟨hlen, ?_⟩
    by_cases hr : r.body = []
    · rw [hr, eq_nil_of_length hlen hr]
    · have hs : s.body ≠ [] := fun hs => hr (eq_nil_of_length hlen.symm hs)
      have hobj := hpost.symm.trans hpost'
      rw [List.isEmpty_eq_false_iff.2 hr, List.isEmpty_eq_false_iff.2 hs,
        if_neg Bool.false_ne_true, if_neg Bool.false_ne_true, QJsonValue.object.injEq] at hobj
      obtain ⟨htext, hencoded⟩ := harPostData_text J r true
      obtain ⟨htext', hencoded'⟩ := harPostData_text J s true
      rw [hobj] at htext hencoded
      rw [← hct] at htext' hencoded'
      exact Prod.ext (QJsonValue.string.inj (htext.symm.trans htext'))
        (hencoded.symm.trans hencoded')
  · rintro ⟨hlen, htext⟩
    have hempty : r.body.isEmpty = s.body.isEmpty := by
      rw [Bool.eq_iff_iff, List.isEmpty_iff, List.isEmpty_iff]
      exact ⟨eq_nil_of_length hlen, eq_nil_of_length hlen.symm⟩
    have hurl : harUrl r wasTls true = harUrl s wasTls true := by
      rw [harUrl, harUrl, h.host, h.port, harPath_twins h.path]
    have hpost : harPostData J r true = harPostData J s true := by
      rw [harPostData, harPostData, ← hct, htext]
    rw [harRequest, harRequest, h.method, hurl, h.httpVersion, harHeaders_twins h.headers,
      harQueryString_twins h.path, hlen, hempty, hpost]

theorem harResponse_eq_iff (h : ResponseTwins J r s) :
    harResponse J r true = harResponse J s true ↔
      BodyHidden J (findContentType r.headers) r.body s.body := by
  have hct := findContentType_twins h.headers
  rw [← harText_eq_iff h.body]
  constructor
  · intro he
    obtain ⟨hsize, hcontent⟩ := harResponse_parts J r true
    obtain ⟨hsize', hcontent'⟩ := harResponse_parts J s true
    rw [he] at hsize hcontent
    have hobj := QJsonValue.object.inj (hcontent.symm.trans hcontent')
    obtain ⟨htext, hencoded⟩ := harContent_text J r true
    obtain ⟨htext', hencoded'⟩ := harContent_text J s true
    rw [hobj] at htext hencoded
    rw [← hct] at htext' hencoded'
    exact ⟨sizeToJson_inj (hsize.symm.trans hsize'),
      Prod.ext (QJsonValue.string.inj (htext.symm.trans htext')) (hencoded.symm.trans hencoded')⟩
  · rintro ⟨hlen, htext⟩
    have hcontent : harContent J r true = harContent J s true := by
      rw [harContent, harContent, ← hct, htext, hlen]
    rw [harResponse, harResponse, h.statusCode, h.reasonPhrase, h.httpVersion,
      harHeaders_twins h.headers, hcontent, hlen]

theorem harEntry_parts (J : JsonLibrary) (redact : Bool) ( annotation src : QJsonObject) :
    (harEntry J redact annotation src).value "request" =
        .object (harRequest J (recordRequest src) (recordResponse src).wasTls redact) ∧
      (harEntry J redact annotation src).value "response" =
        .object (harResponse J (recordResponse src) redact) := by
  simp (disch := decide) only [harEntry, List.cons_append, List.nil_append, value_ofMembers,
    String.reduceEq, if_true, if_false, recordRequest, recordResponse, and_self]

theorem harEntry_eq_iff (h : RecordTwins J src dst) ( annotation : QJsonObject) :
    harEntry J true annotation src = harEntry J true annotation dst ↔ RecordHidden J src dst := by
  rw [RecordHidden, ← harRequest_eq_iff h.request (recordResponse src).wasTls,
    ← harResponse_eq_iff h.response]
  constructor
  · intro he
    obtain ⟨hreq, hresp⟩ := harEntry_parts J true annotation src
    obtain ⟨hreq', hresp'⟩ := harEntry_parts J true annotation dst
    rw [he] at hreq hresp
    have hr := QJsonValue.object.inj (hreq.symm.trans hreq')
    rw [← h.response.wasTls] at hr
    exact ⟨hr, QJsonValue.object.inj (hresp.symm.trans hresp')⟩
  · rintro ⟨hreq, hresp⟩
    have hpeer := h.response.peerAddress
    have htls := h.response.wasTls
    rw [recordRequest, recordRequest, recordResponse] at hreq
    rw [recordResponse, recordResponse] at hresp hpeer htls
    rw [harEntry, harEntry, h.ts, ← htls, hreq, hresp, hpeer]

end Hidden

theorem mapIdx_eq_iff_forall₂ {R S : α → α → Prop} {f : Nat → α → β} (h : List.Forall₂ R s t)
    (hf : ∀ i a b, R a b → (f i a = f i b ↔ S a b)) :
    s.mapIdx f = t.mapIdx f ↔ List.Forall₂ S s t := by
  induction h generalizing f with
  | nil => exact ⟨fun _ => .nil, fun _ => rfl⟩
  | cons hab _ ih =>
    rw [List.mapIdx_cons, List.mapIdx_cons, List.cons.injEq, List.forall₂_cons, hf 0 _ _ hab,
      ih (fun i => hf (i + 1))]

theorem harEntries_eq_iff (h : List.Forall₂ (RecordTwins J) s t) (annotations : QJsonObject) :
    harEntries J true annotations s = harEntries J true annotations t ↔
      List.Forall₂ (RecordHidden J) s t :=
  mapIdx_eq_iff_forall₂ h (fun _ _ _ hab => harEntry_eq_iff hab _)

theorem harDocument_inj (h : harDocument version entries = harDocument version entries') :
    entries = entries' := by
  have hlog (entries : List QJsonObject) :
      ((((harDocument version entries).toObject.value "log").toObject).value "entries") =
        .array (entries.map .object) := by
    simp (disch := decide) only [harDocument, QJsonValue.toObject, value_ofMembers,
      String.reduceEq, if_true, if_false]
  have he := hlog entries
  rw [h, hlog] at he
  exact (List.map_injective_iff.2 (fun _ _ => QJsonValue.object.inj)
    (QJsonValue.array.inj he)).symm

/-- Twins are exported alike exactly when their bodies are hidden. -/
theorem redacted_har_eq_iff (J : JsonLibrary) (version : QString) (annotations : QJsonObject)
    (history history' : QByteArray)
    (h : List.Forall₂ (RecordTwins J) (exportRecords J history) (exportRecords J history')) :
    exportHar J version true annotations history = exportHar J version true annotations history' ↔
      List.Forall₂ (RecordHidden J) (exportRecords J history) (exportRecords J history') := by
  rw [← harEntries_eq_iff h annotations]
  constructor
  · exact harDocument_inj
  · intro he
    rw [exportHar, exportHar, he]

def loginRequest (body : QByteArray) : HistoryRequest where
  method := utf16 "POST"
  target := utf16 "/login"
  httpVersion := utf16 "HTTP/1.1"
  headers := [(utf16 "Content-Type", utf16 "application/x-www-form-urlencoded")]
  path := utf16 "/login"
  body := body
  host := utf16 "shop.test"
  port := 80
  tls := false
  timestamp := none
  port_lt := by decide

def loginRecord (body : QByteArray) : QJsonObject :=
  entryToJson epochDates (loginRequest body) okResponse []

def loginHistory (body : QByteArray) : QByteArray :=
  entryLine JsonText.textLibrary epochDates (loginRequest body) okResponse [] ++ [0x0A]

theorem exportRecords_login (body : QByteArray) :
    exportRecords JsonText.textLibrary (loginHistory body) = [loginRecord body] := by
  have hnote : (QJsonValue.object []).Stored JsonText.textLibrary.Exact (1020 + 3) :=
    stored_no_annotation _
  have hstored : (QJsonValue.object (loginRecord body)).Stored JsonText.textLibrary.Exact
      kNestingLimit := stored_entry epochDates (loginRequest body) okResponse hnote
  have hline := exportRecords_append_line JsonText.textLibrary hstored closed_nil
  rw [List.nil_append] at hline
  exact hline

theorem recordRequest_login (body : QByteArray) :
    recordRequest (loginRecord body) = loginRequest body := by
  rw [recordRequest, loginRecord, (entryRecord epochDates _ okResponse []).1,
    requestFromJson_toJson]
  rfl

theorem recordResponse_login (body : QByteArray) :
    recordResponse (loginRecord body) = okResponse := by
  rw [recordResponse, loginRecord, (entryRecord epochDates _ okResponse []).2,
    responseFromJson_toJson]

theorem login_form : isFormType (findContentType (loginRequest body).headers) = true := by
  have hct : findContentType (loginRequest body).headers =
      utf16 "application/x-www-form-urlencoded" := rfl
  rw [hct]
  decide

theorem password_sensitive : isSensitiveParamKey (fromUtf8 (latin1 "password")) = true := by
  decide

theorem login_twins (h : FormTwins b c) :
    List.Forall₂ (RecordTwins JsonText.textLibrary)
      (exportRecords JsonText.textLibrary (loginHistory b))
      (exportRecords JsonText.textLibrary (loginHistory c)) := by
  have htwins : RecordTwins JsonText.textLibrary (loginRecord b) (loginRecord c) := by
    constructor
    · rw [loginRecord, loginRecord, entry_ts, entry_ts]
      rfl
    · rw [recordRequest_login, recordRequest_login]
      exact ⟨rfl, rfl, rfl, rfl, .inl rfl, List.forall₂_same.2 (fun _ _ => .inl rfl),
        .inr (.inl ⟨login_form, h⟩)⟩
    · rw [recordResponse_login, recordResponse_login]
      exact ⟨rfl, rfl, rfl, rfl, rfl, List.forall₂_same.2 (fun _ _ => .inl rfl), .inl rfl⟩
  rw [exportRecords_login, exportRecords_login]
  exact .cons htwins .nil

theorem login_hidden_iff (b c : QByteArray) :
    RecordHidden JsonText.textLibrary (loginRecord b) (loginRecord c) ↔
      b = c ∨ (b.length = c.length ∧ IsText b ∧ IsText c) := by
  rw [RecordHidden, recordRequest_login, recordRequest_login, recordResponse_login,
    recordResponse_login]
  constructor
  · rintro ⟨he | ⟨hlen, hb, hc, _⟩, _⟩
    · exact .inl he
    · exact .inr ⟨hlen, hb, hc⟩
  · rintro (he | ⟨hlen, hb, hc⟩)
    · exact ⟨.inl he, .inl rfl⟩
    · exact ⟨.inr ⟨hlen, hb, hc, .inl login_form⟩, .inl rfl⟩

theorem password_redacted :
    exportHar JsonText.textLibrary (utf16 "1.0") true [] (loginHistory (latin1 "password=a")) =
      exportHar JsonText.textLibrary (utf16 "1.0") true []
        (loginHistory (latin1 "password=b")) := by
  have hforms : FormTwins (latin1 "password=a") (latin1 "password=b") :=
    .cons (.inr ⟨latin1 "password", latin1 "a", latin1 "b", by decide, rfl, rfl,
      password_sensitive, rfl⟩) .nil
  refine (redacted_har_eq_iff _ _ _ _ _ (login_twins hforms)).2 ?_
  rw [exportRecords_login, exportRecords_login]
  have ha : IsText (latin1 "password=a") := ⟨by decide, by decide⟩
  have hb : IsText (latin1 "password=b") := ⟨by decide, by decide⟩
  have hlen : (latin1 "password=a").length = (latin1 "password=b").length := by decide
  have hhidden := (login_hidden_iff (latin1 "password=a") (latin1 "password=b")).2
    (.inr ⟨hlen, ha, hb⟩)
  exact .cons hhidden .nil

theorem binary_form_leaks :
    List.Forall₂ (RecordTwins JsonText.textLibrary)
        (exportRecords JsonText.textLibrary (loginHistory (latin1 "password=a&x=\x00")))
        (exportRecords JsonText.textLibrary (loginHistory (latin1 "password=b&x=\x00"))) ∧
      exportHar JsonText.textLibrary (utf16 "1.0") true []
          (loginHistory (latin1 "password=a&x=\x00")) ≠
        exportHar JsonText.textLibrary (utf16 "1.0") true []
          (loginHistory (latin1 "password=b&x=\x00")) := by
  have hforms : FormTwins (latin1 "password=a&x=\x00") (latin1 "password=b&x=\x00") :=
    .cons (.inr ⟨latin1 "password", latin1 "a", latin1 "b", by decide, rfl, rfl,
      password_sensitive, rfl⟩) (.cons (.inl rfl) .nil)
  have htwins := login_twins hforms
  refine ⟨htwins, fun he => ?_⟩
  have hhidden := (harEntries_eq_iff htwins []).1 (harDocument_inj he)
  rw [exportRecords_login, exportRecords_login, List.forall₂_cons, login_hidden_iff] at hhidden
  rcases hhidden.1 with heq | ⟨_, htext, _⟩
  · exact absurd heq (by decide)
  · exact htext.2 (by decide)

end Nullock.ProjectStore

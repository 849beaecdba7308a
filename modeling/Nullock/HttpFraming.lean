import Nullock.HttpRequests

namespace Nullock.Proxy
open HttpLogic

def contentLengthName : QString := utf16 "Content-Length"

def contentLengths (headers : List Header) : List QString :=
  (headers.filter (fun h => equalsIgnoreCase h.1 contentLengthName)).map Prod.snd

def numberOf (s : QByteArray) : Option Nat :=
  if isNumeral (fromLatin1 s) then digitsFrom 10 0 (fromLatin1 s) else none

/-- The elements of the `Content-Length` fields an origin receives. -/
def originElements (fields : List (QByteArray × QByteArray)) : List QByteArray :=
  (fields.filter (fun f => equalsIgnoreCase (fromLatin1 f.1) contentLengthName)).flatMap
    (fun f => (f.2.splitOn 0x2C).map (trimWith isOws))

def originLength (fields : List (QByteArray × QByteArray)) : Option Nat :=
  match originElements fields with
  | [] => some 0
  | e :: elements =>
    match numberOf e with
    | none => none
    | some n => if elements.all (fun e => numberOf e == some n) then some n else none

def isOwsChar (c : UInt16) : Bool := c == 0x20 || c == 0x09

/-- Every element is a numeral, and a first field that lists several of them lists zeros. -/
structure PlainLengths (headers : List Header) : Prop where
  numerals : ∀ v ∈ contentLengths headers, ∀ e ∈ v.splitOn 0x2C,
    isNumeral (trimWith isOwsChar e) = true
  first : ∀ v, (contentLengths headers).head? = some v →
    0x2C ∉ v ∨ ∀ e ∈ v.splitOn 0x2C, ∀ c ∈ trimWith isOwsChar e, c = 0x30

def AcceptedLength (cl : QString) : Prop :=
  cl ≠ [] ∧ ∃ n, 0 ≤ n ∧ QString.toLongLong cl = some n

theorem checkContentLength_spec (h : checkContentLength cl vals = some cl') :
    (cl ≠ [] → cl' = cl) ∧ ∀ v ∈ vals, QString.trimmed v = cl' ∧ AcceptedLength cl' := by
  induction vals generalizing cl with
  | nil =>
    cases h
    exact ⟨fun _ => rfl, fun _ hv => (nomatch hv)⟩
  | cons v vals ih =>
    rw [checkContentLength] at h
    split at h
    · cases h
    · rename_i hv
      rw [List.isEmpty_iff] at hv
      split at h
      · cases h
      · rename_i n hn
        split at h
        · cases h
        · rename_i hneg
          split at h
          · rename_i hcl
            obtain ⟨hkeep, hall⟩ := ih h
            rw [List.isEmpty_iff] at hcl
            refine ⟨fun hne => absurd hcl hne, ?_⟩
            rw [List.forall_mem_cons]
            rw [hkeep hv] at hall ⊢
            exact ⟨⟨rfl, hv, n, Int.not_lt.1 hneg, hn⟩, hall⟩
          · rename_i hcl
            rw [List.isEmpty_iff] at hcl
            split at h
            · cases h
            · rename_i heq
              obtain ⟨hkeep, hall⟩ := ih h
              rw [not_not] at heq
              subst heq
              refine ⟨hkeep, ?_⟩
              rw [List.forall_mem_cons]
              rw [hkeep hv] at hall ⊢
              exact ⟨⟨rfl, hv, n, Int.not_lt.1 hneg, hn⟩, hall⟩

theorem equalsIgnoreCase_exclusive (hne : literal.map foldCase ≠ literal'.map foldCase)
    (h : equalsIgnoreCase name literal = true) : equalsIgnoreCase name literal' = false := by
  rw [equalsIgnoreCase, beq_iff_eq] at h
  rw [equalsIgnoreCase, h]
  exact beq_eq_false_iff_ne.2 hne

theorem framingLoop_cons (h : framingLoop isRequest (f :: headers) sawTE cl = some r) :
    hasControlByte f.1 = false ∧ hasControlByte f.2 = false ∧
      ∃ sawTE' cl', framingLoop isRequest headers sawTE' cl' = some r ∧
        if equalsIgnoreCase f.1 contentLengthName then
          checkContentLength cl (splitSkipEmpty f.2) = some cl'
        else cl' = cl := by
  rw [framingLoop] at h
  split at h
  · cases h
  · rename_i hcontrol
    rw [Bool.or_eq_true, not_or, Bool.not_eq_true, Bool.not_eq_true] at hcontrol
    refine ⟨hcontrol.1, hcontrol.2, ?_⟩
    split at h
    · rename_i hte
      have hcl : equalsIgnoreCase f.1 contentLengthName = false :=
        equalsIgnoreCase_exclusive (by decide) hte
      rw [hcl]
      split at h
      · cases h
      · split at h
        · cases h
        · exact ⟨true, cl, h, rfl⟩
    · split at h
      · rename_i hcl
        rw [contentLengthName, hcl]
        split at h
        · cases h
        · rename_i cl' hc
          exact ⟨sawTE, cl', h, hc⟩
      · rename_i hcl
        exact ⟨sawTE, cl, h, by rw [contentLengthName, if_neg hcl]⟩

theorem contentLengths_cons (f : Header) (headers : List Header) :
    contentLengths (f :: headers) =
      if equalsIgnoreCase f.1 contentLengthName then f.2 :: contentLengths headers
      else contentLengths headers := by
  rw [contentLengths, List.filter_cons]
  split
  · rfl
  · rfl

theorem framingLoop_spec (h : framingLoop isRequest headers sawTE cl = some (sawTE', cl')) :
    (cl ≠ [] → cl' = cl) ∧ ∀ v ∈ contentLengths headers, ∀ e ∈ splitSkipEmpty v,
      QString.trimmed e = cl' ∧ AcceptedLength cl' := by
  induction headers generalizing sawTE cl with
  | nil =>
    cases h
    exact ⟨fun _ => rfl, fun _ hv => (nomatch hv)⟩
  | cons f headers ih =>
    obtain ⟨_, _, te, mid, hrest, hmid⟩ := framingLoop_cons h
    obtain ⟨hkeep, hall⟩ := ih hrest
    rw [contentLengths_cons]
    split at hmid
    · rename_i hf
      obtain ⟨hkeep', hall'⟩ := checkContentLength_spec hmid
      rw [if_pos hf, List.forall_mem_cons]
      refine ⟨?_, ?_, hall⟩
      · intro hne
        rw [hkeep (by rw [hkeep' hne]; exact hne), hkeep' hne]
      · intro e he
        obtain ⟨ht, ha⟩ := hall' e he
        rw [hkeep ha.1]
        exact ⟨ht, ha⟩
    · rename_i hf
      subst hmid
      rw [if_neg hf]
      exact ⟨hkeep, hall⟩

theorem findHeader_contentLength (headers : List Header) :
    findHeader headers contentLengthName = (contentLengths headers).head?.getD [] := by
  rw [contentLengths, List.head?_map, List.head?_filter, findHeader]
  cases headers.find? (fun h => equalsIgnoreCase h.1 contentLengthName) with
  | none => rfl
  | some f => rfl

theorem foldCase_of_lt (h : ¬ c ≤ 0xFF) :
    foldCase c = 0x73 ∨ foldCase c = 0x6B ∨ foldCase c = c := by
  have hup : ¬ (0x41 ≤ c ∧ c ≤ 0x5A) := by
    intro hc
    exact h (UInt16.le_trans hc.2 (by decide))
  rw [foldCase, if_neg hup]
  split
  · exact .inl rfl
  · split
    · exact .inr (.inl rfl)
    · exact .inr (.inr rfl)

/-- The texts that a name matches, or not, once on the wire. -/
def wireSafe (literal : QString) : Bool :=
  (literal.map foldCase).all (fun t => t ≤ 0xFF && t != 0x3F && t != 0x73 && t != 0x6B)

theorem foldCase_toLatin1Char
    (h : (decide (t ≤ 0xFF) && t != 0x3F && t != 0x73 && t != 0x6B) = true) (c : UInt16) :
    foldCase (toLatin1Char c).toUInt16 = t ↔ foldCase c = t := by
  simp only [Bool.and_eq_true, decide_eq_true_eq, bne_iff_ne, ne_eq, and_assoc] at h
  by_cases hc : c ≤ 0xFF
  · rw [toUInt16_toLatin1Char hc]
  · have hq : foldCase (toLatin1Char c).toUInt16 = 0x3F := by
      rw [toLatin1Char, if_neg hc]
      rfl
    rw [hq]
    constructor
    · intro he
      exact absurd he.symm h.2.1
    · intro he
      rcases foldCase_of_lt hc with hs | hk | hn
      · exact absurd (he.symm.trans hs) h.2.2.1
      · exact absurd (he.symm.trans hk) h.2.2.2
      · rw [hn] at he
        rw [he] at hc
        exact absurd h.1 hc

theorem map_eq_congr {f g : α → β} (h : ∀ t ∈ ts, ∀ c, f c = t ↔ g c = t) :
    List.map f s = ts ↔ List.map g s = ts := by
  induction s generalizing ts with
  | nil => rfl
  | cons c s ih =>
    cases ts with
    | nil => simp only [List.map_cons, reduceCtorEq]
    | cons t ts =>
      rw [List.forall_mem_cons] at h
      rw [List.map_cons, List.map_cons, List.cons.injEq, List.cons.injEq, h.1 c, ih h.2]

theorem equalsIgnoreCase_wire (h : wireSafe literal = true) (name : QString) :
    equalsIgnoreCase (fromLatin1 (toLatin1 name)) literal = equalsIgnoreCase name literal := by
  rw [Bool.eq_iff_iff, equalsIgnoreCase, equalsIgnoreCase, beq_iff_eq, beq_iff_eq, fromLatin1,
    toLatin1, List.map_map, List.map_map]
  rw [wireSafe, List.all_eq_true] at h
  exact map_eq_congr (fun t ht c => foldCase_toLatin1Char (h t ht) c)

theorem isOws_toLatin1Char (c : UInt16) : isOws (toLatin1Char c) = isOwsChar c := by
  rw [Bool.eq_iff_iff, isOws, isOwsChar, Bool.or_eq_true, Bool.or_eq_true, beq_iff_eq, beq_iff_eq,
    beq_iff_eq, beq_iff_eq, toLatin1Char_eq_iff (by decide), toLatin1Char_eq_iff (by decide)]
  rfl

theorem isDigit_toLatin1Char (c : UInt16) : isDigit (toLatin1Char c).toUInt16 = isDigit c := by
  by_cases hc : c ≤ 0xFF
  · rw [toUInt16_toLatin1Char hc]
  · have hbig : isDigit c = false := by
      rw [isDigit, Bool.and_eq_false_iff, decide_eq_false_iff_not, decide_eq_false_iff_not]
      exact .inr (fun h9 => hc (UInt16.le_trans h9 (by decide)))
    rw [hbig, toLatin1Char, if_neg hc]
    rfl

theorem isNumeral_wire (s : QString) : isNumeral (fromLatin1 (toLatin1 s)) = isNumeral s := by
  rw [isNumeral, isNumeral, fromLatin1, toLatin1, List.map_map, List.isEmpty_map, List.all_map]
  exact congrArg (!s.isEmpty && ·) (List.all_congr rfl isDigit_toLatin1Char)

theorem numberOf_toLatin1 (s : QString) :
    numberOf (toLatin1 s) = if isNumeral s then digitsFrom 10 0 s else none := by
  rw [numberOf, isNumeral_wire]
  split
  · rename_i hs
    rw [fromLatin1_toLatin1]
    intro c hc
    have hd := (isNumeral_iff.1 hs).2 c hc
    rw [isDigit, Bool.and_eq_true, decide_eq_true_eq, decide_eq_true_eq] at hd
    exact UInt16.le_trans hd.2 (by decide)
  · rfl

theorem contentLength_wireSafe : wireSafe contentLengthName = true := by
  decide

theorem contentLength_not_hop (h : equalsIgnoreCase name contentLengthName = true) :
    isProxyHopRequestHeader name = false := by
  rw [isProxyHopRequestHeader, equalsIgnoreCase_exclusive (by decide) h,
    equalsIgnoreCase_exclusive (by decide) h, Bool.or_false]

theorem originElements_forwarded (headers : List Header) :
    originElements (forwardedFields headers) = (contentLengths headers).flatMap
      (fun v => (v.splitOn 0x2C).map (fun e => toLatin1 (trimWith isOwsChar e))) := by
  have hfilter : (forwardedFields headers).filter
      (fun f => equalsIgnoreCase (fromLatin1 f.1) contentLengthName) =
      (headers.filter (fun h => equalsIgnoreCase h.1 contentLengthName)).map
        (fun h => (toLatin1 h.1, toLatin1 h.2)) := by
    rw [forwardedFields, List.filter_map, List.filter_filter]
    congr 1
    apply List.filter_congr
    intro f _
    simp only [Function.comp_apply, equalsIgnoreCase_wire contentLength_wireSafe]
    cases hf : equalsIgnoreCase f.1 contentLengthName with
    | false => rfl
    | true => rw [contentLength_not_hop hf]; rfl
  have hcomma (c : UInt16) : (toLatin1Char c == 0x2C) = (c == 0x2C) := by
    rw [Bool.eq_iff_iff, beq_iff_eq, beq_iff_eq]
    exact toLatin1Char_eq_iff (by decide)
  rw [originElements, hfilter, contentLengths, List.flatMap_map, List.flatMap_map]
  apply List.flatMap_congr
  intro f _
  dsimp only
  rw [show toLatin1 f.2 = f.2.map toLatin1Char from rfl, splitOn_map hcomma, List.map_map]
  apply List.map_congr_left
  intro e _
  exact trimWith_map isOws_toLatin1Char e

theorem originLength_eq_some_iff : originLength fields = some n ↔
    (originElements fields = [] ∧ n = 0) ∨
      (originElements fields ≠ [] ∧ ∀ e ∈ originElements fields, numberOf e = some n) := by
  rw [originLength]
  cases originElements fields with
  | nil => simp only [Option.some.injEq, eq_comm, true_and, ne_eq, not_true_eq_false, false_and,
      or_false]
  | cons e elements =>
    simp only [reduceCtorEq, false_and, ne_eq, not_false_eq_true, true_and, false_or,
      List.forall_mem_cons]
    cases he : numberOf e with
    | none => simp only [reduceCtorEq, false_and]
    | some m =>
      dsimp only
      rw [Option.some.injEq]
      split
      · rename_i hall
        rw [List.all_eq_true] at hall
        constructor
        · intro hm
          cases hm
          exact ⟨rfl, fun e he => beq_iff_eq.1 (hall e he)⟩
        · intro hm
          rw [hm.1]
      · rename_i hall
        rw [List.all_eq_true] at hall
        constructor
        · intro hm
          cases hm
        · intro hm
          obtain ⟨hmn, hrest⟩ := hm
          subst hmn
          exact absurd (fun e he => beq_iff_eq.2 (hrest e he)) hall

theorem originLength_forwarded (headers : List Header) (n : Nat) :
    originLength (forwardedFields headers) = some n ↔
      (contentLengths headers = [] ∧ n = 0) ∨
      (contentLengths headers ≠ [] ∧ ∀ v ∈ contentLengths headers, ∀ e ∈ v.splitOn 0x2C,
        isNumeral (trimWith isOwsChar e) = true ∧
          digitsFrom 10 0 (trimWith isOwsChar e) = some n) := by
  have hnil : originElements (forwardedFields headers) = [] ↔ contentLengths headers = [] := by
    rw [originElements_forwarded, List.flatMap_eq_nil_iff]
    constructor
    · intro h
      cases hc : contentLengths headers with
      | nil => rfl
      | cons v vs =>
        have hv := h v (by rw [hc]; exact List.mem_cons_self)
        exact absurd (List.map_eq_nil_iff.1 hv) (List.splitOn_ne_nil _ _)
    · intro h
      rw [h]
      exact fun _ hv => (nomatch hv)
  have hmem : (∀ e ∈ originElements (forwardedFields headers), numberOf e = some n) ↔
      ∀ v ∈ contentLengths headers, ∀ e ∈ v.splitOn 0x2C,
        isNumeral (trimWith isOwsChar e) = true ∧
          digitsFrom 10 0 (trimWith isOwsChar e) = some n := by
    have hn (s : QString) : numberOf (toLatin1 s) = some n ↔
        isNumeral s = true ∧ digitsFrom 10 0 s = some n := by
      rw [numberOf_toLatin1, Option.ite_none_right_eq_some]
    simp only [originElements_forwarded, List.mem_flatMap, List.mem_map, forall_exists_index,
      and_imp, ← hn]
    exact ⟨fun h v hv e he => h _ v hv e he rfl, fun h _ v hv e he hx => hx ▸ h v hv e he⟩
  rw [originLength_eq_some_iff, hmem, ne_eq, hnil]

theorem toLongLong_list (h : 0x2C ∈ v) : QString.toLongLong v = none :=
  readLongLong_eq_none (mem_trimWith h rfl) rfl (by decide) (by decide)

theorem requestBodyLength_eq (headers : List Header) :
    requestBodyLength headers = match (contentLengths headers).head? with
      | none => 0
      | some v => if v.isEmpty then 0 else (QString.toLongLong v).getD 0 := by
  rw [requestBodyLength]
  have hf := findHeader_contentLength headers
  rw [contentLengthName] at hf
  rw [hf]
  cases (contentLengths headers).head? with
  | none => rfl
  | some v => rfl

theorem isSpace_of_isDigit (h : isDigit c = true) : isSpace c = false := by
  simp only [isDigit, Bool.and_eq_true, decide_eq_true_eq, UInt16.le_iff_toNat_le,
    UInt16.reduceToNat] at h
  simp only [isSpace, Bool.or_eq_false_iff, Bool.and_eq_false_iff, beq_eq_false_iff_ne,
    decide_eq_false_iff_not, ne_eq, ← UInt16.toNat_inj, UInt16.le_iff_toNat_le,
    UInt16.reduceToNat]
  omega

theorem trimmed_numeral (h : isNumeral s = true) : QString.trimmed s = s := by
  have hd := (isNumeral_iff.1 h).2
  apply trimWith_eq_self
  · intro c hc
    exact isSpace_of_isDigit (hd c (List.mem_of_mem_head? hc))
  · intro c hc
    exact isSpace_of_isDigit (hd c (List.mem_of_getLast? hc))

theorem trimmed_of_numeral (h : isNumeral (trimWith isOwsChar e) = true) :
    QString.trimmed e = trimWith isOwsChar e := by
  have hows (c : UInt16) (hc : isOwsChar c = true) : isSpace c = true := by
    rw [isOwsChar, Bool.or_eq_true, beq_iff_eq, beq_iff_eq] at hc
    rcases hc with hc | hc
    · rw [hc]; rfl
    · rw [hc]; rfl
  obtain ⟨a, b, he, ha, hb⟩ := trimWith_split isOwsChar e
  conv => lhs; rw [he]
  exact trimWith_append (fun c hc => hows c (ha c hc)) (fun c hc => hows c (hb c hc))
    (trimmed_numeral h)

theorem mem_splitSkipEmpty (he : e ∈ v.splitOn 0x2C)
    (h : isNumeral (trimWith isOwsChar e) = true) : e ∈ splitSkipEmpty v := by
  apply List.mem_filter.2 ⟨he, ?_⟩
  rw [Bool.not_eq_true', List.isEmpty_eq_false_iff]
  intro hn
  rw [hn] at h
  cases h

theorem accepted_elements (hsafe : isFramingSafe headers isRequest = true)
    (hnum : ∀ v ∈ contentLengths headers, ∀ e ∈ v.splitOn 0x2C,
      isNumeral (trimWith isOwsChar e) = true) :
    ∃ cl, ∀ v ∈ contentLengths headers, ∀ e ∈ v.splitOn 0x2C,
      trimWith isOwsChar e = cl ∧ QString.trimmed e = cl ∧
        ∃ n : Nat, digitsFrom 10 0 cl = some n ∧ QString.toLongLong cl = some (n : Int) := by
  rw [isFramingSafe] at hsafe
  cases hl : framingLoop isRequest headers false [] with
  | none => rw [hl] at hsafe; cases hsafe
  | some r =>
    refine ⟨r.2, ?_⟩
    intro v hv e he
    have hn := hnum v hv e he
    obtain ⟨ht, _, m, hm, hc⟩ := (framingLoop_spec hl).2 v hv e (mem_splitSkipEmpty he hn)
    have htrim := trimmed_of_numeral hn
    rw [← ht, htrim] at hc
    rw [QString.toLongLong, trimmed_numeral hn, readLongLong_numeral hn] at hc
    rw [← ht, htrim, QString.toLongLong, trimmed_numeral hn, readLongLong_numeral hn]
    refine ⟨rfl, rfl, ?_⟩
    cases hd : digitsFrom 10 0 (trimWith isOwsChar e) with
    | none => rw [hd] at hc; cases hc
    | some n =>
      rw [hd] at hc
      dsimp only at hc ⊢
      refine ⟨n, rfl, ?_⟩
      split at hc
      · rename_i hlt
        rw [if_pos hlt]
      · cases hc

theorem requestBodyLength_none (h : contentLengths headers = []) :
    requestBodyLength headers = 0 := by
  rw [requestBodyLength_eq, h]
  rfl

theorem requestBodyLength_list (hfirst : (contentLengths headers).head? = some v)
    (hcomma : 0x2C ∈ v) : requestBodyLength headers = 0 := by
  rw [requestBodyLength_eq, hfirst]
  dsimp only
  rw [toLongLong_list hcomma, Option.getD_none, ite_self]

theorem requestBodyLength_single (hfirst : (contentLengths headers).head? = some v)
    (hnum : isNumeral (trimWith isOwsChar v) = true) :
    requestBodyLength headers = (QString.toLongLong (trimWith isOwsChar v)).getD 0 := by
  have hempty : v.isEmpty = false := by
    rw [List.isEmpty_eq_false_iff]
    intro hnil
    rw [hnil] at hnum
    cases hnum
  rw [requestBodyLength_eq, hfirst]
  dsimp only
  rw [hempty, QString.toLongLong, QString.toLongLong, trimmed_of_numeral hnum,
    trimmed_numeral hnum]
  rfl

theorem plainLengths_of_agrees (ho : originLength (forwardedFields headers) = some n)
    (hr : requestBodyLength headers = (n : Int)) : PlainLengths headers := by
  rcases (originLength_forwarded headers n).1 ho with ⟨hnil, _⟩ | ⟨_, hall⟩
  · refine ⟨?_, ?_⟩
    · rw [hnil]
      exact fun _ hv => (nomatch hv)
    · rw [hnil]
      exact fun _ hv => (nomatch hv)
  · refine ⟨fun v hv e he => (hall v hv e he).1, ?_⟩
    intro v hv
    by_cases hcomma : 0x2C ∈ v
    · right
      intro e he c hc
      rw [requestBodyLength_list hv hcomma] at hr
      obtain ⟨hn, hd⟩ := hall v (List.mem_of_mem_head? hv) e he
      rw [← Int.natCast_inj.1 hr] at hd
      exact ((digitsFrom_eq_zero (isNumeral_iff.1 hn).2).1 hd).2 c hc
    · exact .inl hcomma

theorem requestBodyLength_plain (h : PlainLengths headers)
    (hfirst : (contentLengths headers).head? = some v)
    (htext : ∀ e ∈ v.splitOn 0x2C, trimWith isOwsChar e = cl)
    (hn : digitsFrom 10 0 cl = some n) (hc : QString.toLongLong cl = some (n : Int)) :
    requestBodyLength headers = (n : Int) := by
  have hmem := List.mem_of_mem_head? hfirst
  by_cases hcomma : 0x2C ∈ v
  · obtain ⟨e, he⟩ := List.exists_mem_of_ne_nil _ (List.splitOn_ne_nil 0x2C v)
    have hnum := h.numerals v hmem e he
    have hzero := (h.first v hfirst).resolve_left (not_not.2 hcomma) e he
    have h0 := (digitsFrom_eq_zero (isNumeral_iff.1 hnum).2).2 ⟨rfl, hzero⟩
    rw [htext e he, hn, Option.some.injEq] at h0
    rw [requestBodyLength_list hfirst hcomma, h0]
    rfl
  · have hv : v ∈ v.splitOn 0x2C := by
      rw [List.splitOn_eq_singleton hcomma]
      exact List.mem_cons_self
    rw [requestBodyLength_single hfirst (h.numerals v hmem v hv), htext v hv, hc]
    rfl

theorem agrees_of_plainLengths (hsafe : isFramingSafe headers true = true)
    (h : PlainLengths headers) :
    ∃ n : Nat, originLength (forwardedFields headers) = some n ∧
      requestBodyLength headers = (n : Int) := by
  obtain ⟨cl, hcl⟩ := accepted_elements hsafe h.numerals
  cases hv : contentLengths headers with
  | nil =>
    exact ⟨0, (originLength_forwarded headers 0).2 (.inl ⟨hv, rfl⟩), requestBodyLength_none hv⟩
  | cons v vs =>
    have hne : contentLengths headers ≠ [] := by
      rw [hv]
      exact List.cons_ne_nil v vs
    have hfirst : (contentLengths headers).head? = some v := by rw [hv, List.head?_cons]
    have hmem := List.mem_of_mem_head? hfirst
    obtain ⟨e, he⟩ := List.exists_mem_of_ne_nil _ (List.splitOn_ne_nil 0x2C v)
    obtain ⟨_, _, n, hn, hc⟩ := hcl v hmem e he
    refine ⟨n, (originLength_forwarded headers n).2 (.inr ⟨hne, ?_⟩), ?_⟩
    · intro v' hv' e' he'
      refine ⟨h.numerals v' hv' e' he', ?_⟩
      rw [(hcl v' hv' e' he').1, hn]
    · exact requestBodyLength_plain h hfirst (fun e' he' => (hcl v hmem e' he').1) hn hc

/-- The proxy and the origin take one body when lengths are plain. -/
theorem framing_agrees_iff (headers : List Header) (hsafe : isFramingSafe headers true = true) :
    (∃ n : Nat, originLength (forwardedFields headers) = some n ∧
      requestBodyLength headers = (n : Int)) ↔ PlainLengths headers := by
  constructor
  · intro h
    obtain ⟨n, ho, hr⟩ := h
    exact plainLengths_of_agrees ho hr
  · exact agrees_of_plainLengths hsafe

theorem framing_agrees_on_number :
    ∃ n : Nat, originLength (forwardedFields [(utf16 "content-length", utf16 "5")]) = some n ∧
      requestBodyLength [(utf16 "content-length", utf16 "5")] = (n : Int) :=
  (framing_agrees_iff [(utf16 "content-length", utf16 "5")] (by decide)).2
    ⟨by decide, fun v hv => .inl (by cases hv; decide)⟩

/-- A repeated length in one field passes; the origin reads five bytes, the proxy none. -/
theorem repeated_length_desyncs :
    isFramingSafe [(utf16 "Content-Length", utf16 "5, 5")] true = true ∧
      originLength (forwardedFields [(utf16 "Content-Length", utf16 "5, 5")]) = some 5 ∧
      requestBodyLength [(utf16 "Content-Length", utf16 "5, 5")] = 0 := by
  decide

end Nullock.Proxy

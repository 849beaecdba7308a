import Nullock.CookieJarRestore

namespace Nullock.SessionLogic

/-- A numeral with an optional minus sign, of any magnitude: RFC 6265 5.2.2. -/
def deltaSeconds (v : QString) : Option Int :=
  let negative := v.head? == some 0x2D
  let digits := if negative then v.drop 1 else v
  if isNumeral digits then
    (digitsFrom 10 0 digits).map (fun n : Nat => if negative then -(n : Int) else n)
  else none

def valueOf (name : String) (part : QString) : Option QString :=
  let seg := asciiTrimmed part
  if !seg.isEmpty ∧ toLower (asciiTrimmed (splitPair seg).1) = utf16 name then
    some (asciiTrimmed ((splitPair seg).2.getD []))
  else none

def attributeParts (raw : QString) : List QString := ((stripCtrl raw).splitOn 0x3B).drop 1

def maxAgeValues (raw : QString) : List QString := (attributeParts raw).filterMap (valueOf "max-age")

/-- A field with a pair in front, without which its attributes are not read. -/
def namesCookie (raw : QString) : Bool :=
  (indexOf (utf16 "=") (asciiTrimmed (firstSection 0x3B (stripCtrl raw)))).any (· != 0)

def lastSome (f : α → Option β) (values : List α) : Option β := values.reverse.findSome? f

def lastMaxAge (raw : QString) : Option Int := lastSome deltaSeconds (maxAgeValues raw)

def wellFormed (v : QString) : Bool := (deltaSeconds v).isSome

def readMaxAge (values : List QString) : Int := (lastSome QString.toLongLong values).getD kNoMaxAge

def expiresValue (raw : QString) : QString :=
  (lastSome (valueOf "expires") (attributeParts raw)).getD []

def withoutMalformed (raw : QString) : QString :=
  List.intercalate [0x3B] (firstSection 0x3B (stripCtrl raw) ::
    (attributeParts raw).filter (fun part => (valueOf "max-age" part).all wellFormed))

theorem lastSome_concat (f : α → Option β) (values : List α) (v : α) :
    lastSome f (values ++ [v]) = (f v).or (lastSome f values) := by
  rw [lastSome, lastSome, List.reverse_concat, List.findSome?_cons]
  cases f v <;> rfl

theorem maxAge_applyAttribute (L : TextLibrary) (c : JarCookie) (part : QString) :
    (applyAttribute L c part).maxAge =
      ((valueOf "max-age" part).bind QString.toLongLong).getD c.maxAge := by
  rw [applyAttribute, valueOf]
  cases hempty : (asciiTrimmed part).isEmpty with
  | true => rfl
  | false =>
    simp only [Bool.false_eq_true, ↓reduceIte, Bool.not_false, true_and]
    by_cases hkey : toLower (asciiTrimmed (splitPair (asciiTrimmed part)).1) = utf16 "max-age"
    · rw [hkey, if_neg (by decide), if_neg (by decide), if_pos rfl, if_pos rfl, Option.bind_some]
    · rw [if_neg hkey, if_neg hkey, Option.bind_none, Option.getD_none]
      split_ifs <;> rfl

theorem expires_applyAttribute (L : TextLibrary) (c : JarCookie) (part : QString) :
    (applyAttribute L c part).expires = (valueOf "expires" part).getD c.expires := by
  rw [applyAttribute, valueOf]
  cases hempty : (asciiTrimmed part).isEmpty with
  | true => rfl
  | false =>
    simp only [Bool.false_eq_true, ↓reduceIte, Bool.not_false, true_and]
    by_cases hkey : toLower (asciiTrimmed (splitPair (asciiTrimmed part)).1) = utf16 "expires"
    · rw [hkey, if_neg (by decide), if_pos rfl, if_pos rfl, Option.getD_some]
    · rw [if_neg hkey, if_neg hkey, Option.getD_none]
      split_ifs <;> rfl

theorem foldl_applyAttribute (L : TextLibrary) (c : JarCookie) (parts : List QString) :
    (parts.foldl (applyAttribute L) c).maxAge =
        (lastSome QString.toLongLong (parts.filterMap (valueOf "max-age"))).getD c.maxAge ∧
      (parts.foldl (applyAttribute L) c).expires =
        (lastSome (valueOf "expires") parts).getD c.expires := by
  induction parts using List.reverseRecOn with
  | nil => exact ⟨rfl, rfl⟩
  | append_singleton parts part ih =>
    rw [List.foldl_concat, maxAge_applyAttribute, expires_applyAttribute, ih.1, ih.2,
      List.filterMap_append, lastSome_concat]
    constructor
    · cases hv : valueOf "max-age" part with
      | none => rw [List.filterMap_cons_none hv, List.filterMap_nil, List.append_nil]; rfl
      | some v =>
        rw [List.filterMap_cons_some hv, List.filterMap_nil, lastSome_concat, Option.bind_some]
        cases QString.toLongLong v <;> rfl
    · cases valueOf "expires" part <;> rfl

theorem headD_splitOn (x : UInt16) (s : QString) :
    (s.splitOn x).headD [] = firstSection x s := by
  induction s with
  | nil => rfl
  | cons c s ih =>
    rw [List.splitOn_cons_eq_if_modifyHead, firstSection, List.takeWhile_cons]
    by_cases hc : (c == x) = true
    · rw [if_pos hc, bne, hc]
      rfl
    · rw [if_neg hc, bne, Bool.eq_false_iff.2 hc, Bool.not_false, if_pos rfl, ← firstSection, ← ih]
      cases hparts : s.splitOn x with
      | nil => exact absurd hparts (List.splitOn_ne_nil x s)
      | cons l ls => rfl

theorem parseSetCookie_lifetime (L : TextLibrary) (raw : QString) :
    (parseSetCookie L raw).maxAge =
        (if namesCookie raw then readMaxAge (maxAgeValues raw) else kNoMaxAge) ∧
      (parseSetCookie L raw).expires = if namesCookie raw then expiresValue raw else [] := by
  simp only [parseSetCookie, namesCookie, ← headD_splitOn]
  cases heq : indexOf (utf16 "=") (asciiTrimmed (((stripCtrl raw).splitOn 0x3B).headD [])) with
  | none => exact ⟨rfl, rfl⟩
  | some eq =>
    cases eq with
    | zero => exact ⟨rfl, rfl⟩
    | succ eq =>
      dsimp only
      rw [if_neg (Nat.succ_ne_zero eq)]
      exact foldl_applyAttribute L _ _

theorem toLongLong_deltaSeconds (h : deltaSeconds v = some n) :
    QString.toLongLong v = if -2 ^ 63 ≤ n ∧ n < 2 ^ 63 then some n else none := by
  have hdigits : isNumeral (if v.head? == some 0x2D then v.drop 1 else v) = true := by
    rw [deltaSeconds] at h
    by_contra hnot
    simp only [hnot, ↓reduceIte] at h
    cases h
  obtain ⟨hne, hall⟩ := isNumeral_iff.1 hdigits
  have hsafe : ∀ c ∈ v, isSpace c = false := by
    intro c hc
    by_cases hminus : (v.head? == some 0x2D) = true
    · rw [if_pos hminus] at hall
      cases v with
      | nil => cases hc
      | cons d v =>
        rcases List.mem_cons.1 hc with rfl | hc
        · rw [Option.some.inj (beq_iff_eq.1 hminus)]
          rfl
        · exact Proxy.isSpace_of_isDigit (hall c hc)
    · rw [if_neg hminus] at hall
      exact Proxy.isSpace_of_isDigit (hall c hc)
  have htrim : QString.trimmed v = v :=
    trimWith_eq_self (fun c hc => hsafe c (List.mem_of_mem_head? hc))
      (fun c hc => hsafe c (List.mem_of_getLast? hc))
  rw [QString.toLongLong, htrim]
  rw [deltaSeconds, hdigits, if_pos rfl] at h
  by_cases hminus : (v.head? == some 0x2D) = true
  · rw [if_pos hminus] at h hdigits hne
    simp only [hminus, ↓reduceIte] at h
    obtain ⟨m, hm, rfl⟩ := Option.map_eq_some_iff.1 h
    simp only [readLongLong, hminus, true_or, ↓reduceIte, Nat.reduceEqDiff, List.isEmpty_iff, hne,
      hm]
  · rw [if_neg hminus] at h hdigits
    simp only [hminus, Bool.false_eq_true, ↓reduceIte] at h
    obtain ⟨m, hm, rfl⟩ := Option.map_eq_some_iff.1 h
    rw [readLongLong_numeral hdigits, hm]
    dsimp only
    by_cases hfit : (m : Int) < 2 ^ 63
    · rw [if_pos hfit, if_pos ⟨by omega, hfit⟩]
    · rw [if_neg hfit, if_neg (fun hrange => hfit hrange.2)]

def takenMaxAge (raw : QString) : Int := readMaxAge ((maxAgeValues raw).filter wellFormed)

theorem lastSome_wellFormed (h : lastSome deltaSeconds values = some n) (hn : -2 ^ 63 ≤ n)
    (hn' : n < 2 ^ 63) : lastSome QString.toLongLong (values.filter wellFormed) = some n := by
  induction values using List.reverseRecOn with
  | nil => cases h
  | append_singleton values v ih =>
    rw [lastSome_concat] at h
    rw [List.filter_append]
    cases hv : deltaSeconds v with
    | none =>
      rw [hv, Option.none_or] at h
      rw [List.filter_cons_of_neg (by rw [wellFormed, hv]; decide), List.filter_nil,
        List.append_nil]
      exact ih h
    | some m =>
      rw [hv, Option.some_or, Option.some.injEq] at h
      subst h
      rw [List.filter_cons_of_pos (by rw [wellFormed, hv]; rfl), List.filter_nil, lastSome_concat,
        toLongLong_deltaSeconds hv, if_pos ⟨hn, hn'⟩, Option.some_or]

theorem takenMaxAge_eq (h : lastMaxAge raw = some n) (hn : -2 ^ 63 ≤ n) (hn' : n < 2 ^ 63) :
    takenMaxAge raw = n := by
  rw [takenMaxAge, readMaxAge, lastSome_wellFormed h hn hn', Option.getD_some]

theorem withoutMalformed_parts (raw : QString) :
    firstSection 0x3B (stripCtrl (withoutMalformed raw)) = firstSection 0x3B (stripCtrl raw) ∧
      attributeParts (withoutMalformed raw) = (attributeParts raw).filter
        (fun part => (valueOf "max-age" part).all wellFormed) := by
  have hsplit : (stripCtrl raw).splitOn 0x3B =
      firstSection 0x3B (stripCtrl raw) :: attributeParts raw := by
    rw [← headD_splitOn, attributeParts]
    cases hparts : (stripCtrl raw).splitOn 0x3B with
    | nil => exact absurd hparts (List.splitOn_ne_nil _ _)
    | cons l ls => rfl
  have hmem {part : QString} (h : part ∈ firstSection 0x3B (stripCtrl raw) ::
      (attributeParts raw).filter (fun part => (valueOf "max-age" part).all wellFormed)) :
      part ∈ (stripCtrl raw).splitOn 0x3B := by
    rw [hsplit]
    rcases List.mem_cons.1 h with rfl | h
    · exact List.mem_cons_self
    · exact List.mem_cons_of_mem _ (List.mem_filter.1 h).1
  have hclean : stripCtrl (withoutMalformed raw) = withoutMalformed raw := by
    rw [stripCtrl, List.filter_eq_self]
    intro c hc
    by_contra hlow
    have hparts : ∀ part ∈ firstSection 0x3B (stripCtrl raw) ::
        (attributeParts raw).filter (fun part => (valueOf "max-age" part).all wellFormed),
        c ∉ part := by
      intro part hpart hin
      exact hlow (List.mem_filter.1 (mem_of_mem_splitOn (hmem hpart) hin)).2
    have hsep : c ∉ ([0x3B] : QString) := by
      rw [List.mem_singleton]
      rintro rfl
      exact hlow rfl
    exact Proxy.not_mem_intercalate hsep hparts hc
  have hagain : (stripCtrl (withoutMalformed raw)).splitOn 0x3B =
      firstSection 0x3B (stripCtrl raw) ::
        (attributeParts raw).filter (fun part => (valueOf "max-age" part).all wellFormed) := by
    rw [hclean]
    exact List.splitOn_intercalate 0x3B (fun part hpart => not_mem_of_mem_splitOn (hmem hpart))
      (List.cons_ne_nil _ _)
  rw [attributeParts, ← headD_splitOn 0x3B (stripCtrl (withoutMalformed raw)), hagain]
  exact ⟨rfl, rfl⟩

theorem maxAgeValues_withoutMalformed (raw : QString) :
    maxAgeValues (withoutMalformed raw) = (maxAgeValues raw).filter wellFormed := by
  rw [maxAgeValues, (withoutMalformed_parts raw).2, maxAgeValues]
  induction attributeParts raw with
  | nil => rfl
  | cons part parts ih =>
    cases hv : valueOf "max-age" part with
    | none =>
      rw [List.filter_cons_of_pos (by rw [hv]; rfl), List.filterMap_cons_none hv,
        List.filterMap_cons_none hv, ih]
    | some v =>
      rw [List.filterMap_cons_some hv]
      cases hw : wellFormed v with
      | true =>
        rw [List.filter_cons_of_pos (by rw [hv]; exact hw), List.filterMap_cons_some hv,
          List.filter_cons_of_pos hw, ih]
      | false =>
        rw [List.filter_cons_of_neg (by rw [hv, Option.all_some, hw]; decide),
          List.filter_cons_of_neg (by rw [hw]; decide), ih]

theorem parseCookieExpires_nil (D : DateLibrary) : parseCookieExpires D [] = -1 := rfl

def datePassed (D : DateLibrary) (expires : QString) (now : Int) : Prop :=
  0 ≤ parseCookieExpires D expires ∧ parseCookieExpires D expires ≤ now

theorem expired_at_capture (D : DateLibrary) (c : JarCookie) (hnow : now < 2 ^ 63) :
    cookieExpired (resolveCookieExpiry D c now).toCapturedCookie now = true ↔
      if c.maxAge = kNoMaxAge then datePassed D c.expires now
      else c.maxAge ≤ 0 ∨ now = 2 ^ 63 - 1 := by
  by_cases hage : c.maxAge = kNoMaxAge
  · rw [if_pos hage, datePassed]
    simp only [resolveCookieExpiry, hage, ne_eq, not_true_eq_false, ↓reduceIte]
    by_cases hdate : (!c.expires.isEmpty) = true ∧ 0 ≤ parseCookieExpires D c.expires
    · rw [if_pos hdate]
      simp only [cookieExpired, Bool.true_and, decide_eq_true_eq]
      exact ⟨fun h => ⟨hdate.2, h⟩, fun h => h.2⟩
    · rw [if_neg hdate]
      simp only [cookieExpired, Bool.false_and, Bool.false_eq_true, false_iff, not_and]
      intro hpos
      exfalso
      apply hdate
      refine ⟨?_, hpos⟩
      cases hexp : c.expires with
      | nil =>
        rw [hexp, parseCookieExpires_nil] at hpos
        exact absurd hpos (by decide)
      | cons d s => rfl
  · rw [if_neg hage]
    simp only [resolveCookieExpiry, ne_eq, hage, not_false_eq_true, ↓reduceIte, cookieExpired,
      Bool.true_and, decide_eq_true_eq]
    split
    · omega
    · omega

def RestExpired (D : DateLibrary) (raw : QString) (now : Int) : Prop :=
  if takenMaxAge raw = kNoMaxAge then datePassed D (expiresValue raw) now
  else takenMaxAge raw ≤ 0 ∨ now = 2 ^ 63 - 1

/-- The lifetime of a cookie captured at a time is what its field states. -/
structure LifetimeFollows (L : TextLibrary) (D : DateLibrary) (raw : QString) (now : Int) :
    Prop where
  deleted : ∀ n, lastMaxAge raw = some n → n ≤ 0 →
    cookieExpired (resolveCookieExpiry D (parseSetCookie L raw) now).toCapturedCookie now = true
  kept : ∀ n, lastMaxAge raw = some n → 0 < n →
    cookieExpired (resolveCookieExpiry D (parseSetCookie L raw) now).toCapturedCookie now = false
  ignored : (parseSetCookie L raw).maxAge = (parseSetCookie L (withoutMalformed raw)).maxAge
  /-- The sums that are formed fit. -/
  sums : (parseSetCookie L raw).maxAge ≠ kNoMaxAge →
    (0 < (parseSetCookie L raw).maxAge →
      Fits (2 ^ 63 - 1 - (parseSetCookie L raw).maxAge)) ∧
    (¬ (0 < (parseSetCookie L raw).maxAge ∧
        2 ^ 63 - 1 - (parseSetCookie L raw).maxAge < now) →
      Fits (now + (parseSetCookie L raw).maxAge))

/-- No malformed `Max-Age` is taken, and a huge one changes nothing. -/
structure LifetimeReadable (D : DateLibrary) (raw : QString) (now : Int) : Prop where
  named : ∀ n, lastMaxAge raw = some n → n ≤ 0 → namesCookie raw = true
  wellFormed : namesCookie raw = true → readMaxAge (maxAgeValues raw) = takenMaxAge raw
  tooSmall : namesCookie raw = true → ∀ n, lastMaxAge raw = some n → n ≤ -2 ^ 63 →
    RestExpired D raw now
  tooLarge : namesCookie raw = true → ∀ n, lastMaxAge raw = some n → 2 ^ 63 ≤ n →
    ¬ RestExpired D raw now
  early : namesCookie raw = true → ∀ n, lastMaxAge raw = some n → 0 < n → n < 2 ^ 63 →
    now ≠ 2 ^ 63 - 1
  room : namesCookie raw = true → takenMaxAge raw ≠ kNoMaxAge → takenMaxAge raw ≤ 0 →
    -2 ^ 63 ≤ now + takenMaxAge raw

theorem expired_unnamed (h : namesCookie raw = false) (hnow : now < 2 ^ 63) :
    cookieExpired (resolveCookieExpiry D (parseSetCookie L raw) now).toCapturedCookie now =
      false := by
  obtain ⟨hage, hexp⟩ := parseSetCookie_lifetime L raw
  rw [h, if_neg Bool.false_ne_true] at hage hexp
  rw [Bool.eq_false_iff]
  intro hexpired
  have hdate := (expired_at_capture D _ hnow).1 hexpired
  rw [if_pos hage, hexp, datePassed, parseCookieExpires_nil] at hdate
  exact absurd hdate.1 (by decide)

theorem expired_named (h : namesCookie raw = true)
    (hread : readMaxAge (maxAgeValues raw) = takenMaxAge raw) (hnow : now < 2 ^ 63) :
    cookieExpired (resolveCookieExpiry D (parseSetCookie L raw) now).toCapturedCookie now = true ↔
      RestExpired D raw now := by
  obtain ⟨hage, hexp⟩ := parseSetCookie_lifetime L raw
  rw [h, if_pos rfl] at hage hexp
  rw [expired_at_capture D _ hnow, hage, hexp, hread, RestExpired]

theorem ignored_iff (L : TextLibrary) (raw : QString) :
    (parseSetCookie L raw).maxAge = (parseSetCookie L (withoutMalformed raw)).maxAge ↔
      (namesCookie raw = true → readMaxAge (maxAgeValues raw) = takenMaxAge raw) := by
  have hnamed : namesCookie (withoutMalformed raw) = namesCookie raw := by
    rw [namesCookie, (withoutMalformed_parts raw).1, namesCookie]
  rw [(parseSetCookie_lifetime L raw).1, (parseSetCookie_lifetime L _).1, hnamed,
    maxAgeValues_withoutMalformed, takenMaxAge]
  cases namesCookie raw with
  | true => exact ⟨fun h _ => h, fun h => h rfl⟩
  | false => exact ⟨fun _ h => (Bool.false_ne_true h).elim, fun _ => rfl⟩

theorem restExpired_fits (h : lastMaxAge raw = some n) (hn : -2 ^ 63 < n) (hn' : n < 2 ^ 63) :
    RestExpired D raw now ↔ n ≤ 0 ∨ now = 2 ^ 63 - 1 := by
  have htaken := takenMaxAge_eq h (Int.le_of_lt hn) hn'
  rw [RestExpired, htaken, if_neg]
  rw [kNoMaxAge]
  omega

theorem takenMaxAge_range (raw : QString) : Fits (takenMaxAge raw) := by
  rw [takenMaxAge, readMaxAge]
  cases h : lastSome QString.toLongLong ((maxAgeValues raw).filter wellFormed) with
  | none => exact ⟨by decide, by decide⟩
  | some n =>
    obtain ⟨v, -, hv⟩ := List.exists_of_findSome?_eq_some h
    exact readLongLong_fits hv

theorem lifetimeFollows_iff (L : TextLibrary) (D : DateLibrary) (raw : QString) (now : Int64) :
    LifetimeFollows L D raw now.toInt ↔ LifetimeReadable D raw now.toInt := by
  have hlt : now.toInt < 2 ^ 63 := now.toInt_lt
  have hle : -2 ^ 63 ≤ now.toInt := now.le_toInt
  generalize now.toInt = now at hlt hle
  have hage := (parseSetCookie_lifetime L raw).1
  constructor
  · intro h
    have hwell := (ignored_iff L raw).1 h.ignored
    have hexpired (hnamed : namesCookie raw = true) :=
      expired_named (L := L) (D := D) hnamed (hwell hnamed) hlt
    refine ⟨?_, hwell, ?_, ?_, ?_, ?_⟩
    · intro n hn hneg
      by_contra hnamed
      have hdel := h.deleted n hn hneg
      rw [expired_unnamed (Bool.eq_false_iff.2 hnamed) hlt] at hdel
      cases hdel
    · intro hnamed n hn hsmall
      exact (hexpired hnamed).1 (h.deleted n hn (by omega))
    · intro hnamed n hn hlarge hrest
      have hkept := h.kept n hn (by omega)
      rw [(hexpired hnamed).2 hrest] at hkept
      cases hkept
    · intro hnamed n hn hpos hfit hnow
      have hkept := h.kept n hn hpos
      rw [(hexpired hnamed).2 ((restExpired_fits hn (by omega) hfit).2 (.inr hnow))] at hkept
      cases hkept
    · intro hnamed htaken hneg
      rw [if_pos hnamed, hwell hnamed] at hage
      have hsums := h.sums
      rw [hage] at hsums
      exact ((hsums htaken).2 (fun hover => by omega)).1
  · intro h
    have hexpired (hnamed : namesCookie raw = true) :=
      expired_named (L := L) (D := D) hnamed (h.wellFormed hnamed) hlt
    refine ⟨?_, ?_, (ignored_iff L raw).2 h.wellFormed, ?_⟩
    · intro n hn hneg
      have hnamed := h.named n hn hneg
      apply (hexpired hnamed).2
      by_cases hsmall : n ≤ -2 ^ 63
      · exact h.tooSmall hnamed n hn hsmall
      · exact (restExpired_fits hn (by omega) (by omega)).2 (.inl hneg)
    · intro n hn hpos
      cases hnamed : namesCookie raw with
      | false => exact expired_unnamed hnamed hlt
      | true =>
        rw [Bool.eq_false_iff]
        intro hdead
        have hrest := (hexpired hnamed).1 hdead
        by_cases hlarge : 2 ^ 63 ≤ n
        · exact h.tooLarge hnamed n hn hlarge hrest
        · rcases (restExpired_fits hn (by omega) (by omega)).1 hrest with hneg | hnow
          · omega
          · exact h.early hnamed n hn hpos (by omega) hnow
    · cases hnamed : namesCookie raw with
      | false =>
        rw [hnamed, if_neg Bool.false_ne_true] at hage
        intro hne
        exact absurd hage hne
      | true =>
        rw [if_pos hnamed, h.wellFormed hnamed] at hage
        rw [hage]
        intro hne
        obtain ⟨hmin, hmax⟩ := takenMaxAge_range raw
        rw [Fits, Fits]
        refine ⟨fun hpos => ⟨by omega, by omega⟩, ?_⟩
        intro hover
        by_cases hpos : 0 < takenMaxAge raw
        · exact ⟨by omega, by omega⟩
        · have hroom := h.room hnamed hne (by omega)
          exact ⟨hroom, by omega⟩

/-- A huge `Max-Age` keeps a deleted cookie, and a malformed zero deletes one. -/
theorem deleted_cookie_kept :
    ¬ (∀ (L : TextLibrary) (D : DateLibrary) (raw : QString) (now : Int64),
        LifetimeFollows L D raw now.toInt) ∧
      ¬ LifetimeFollows Proxy.asciiLibrary SessionManager.noDates
        (utf16 "sid=1; Max-Age=-9223372036854775808") 0 ∧
      ¬ LifetimeFollows Proxy.asciiLibrary SessionManager.noDates
        (utf16 "sid=1; Max-Age=5; Max-Age=+0") 0 := by
  have hsmall : ¬ LifetimeFollows Proxy.asciiLibrary SessionManager.noDates
      (utf16 "sid=1; Max-Age=-9223372036854775808") (0 : Int64).toInt := by
    intro h
    have hrest := ((lifetimeFollows_iff _ _ _ _).1 h).tooSmall (by decide) (-2 ^ 63) (by decide)
      (by decide)
    rw [RestExpired, if_pos (by decide)] at hrest
    exact absurd hrest.1 (by decide)
  refine ⟨fun h => hsmall (h _ _ _ _), hsmall, ?_⟩
  intro h
  have hwell := ((lifetimeFollows_iff _ _ _ 0).1 h).wellFormed (by decide)
  revert hwell
  decide

end Nullock.SessionLogic

import Nullock.CookieJarRuns

namespace Nullock
open Proxy

theorem isSpace_of_number (h : isDigit c = true ∨ c = 0x2D) : isSpace c = false := by
  rcases h with h | h
  · exact isSpace_of_isDigit h
  · rw [h]
    rfl

theorem number_chars (n : Int) (hc : c ∈ QString.number n) : isDigit c = true ∨ c = 0x2D := by
  cases n with
  | ofNat n => exact .inl ((isNumeral_iff.1 (number_numeral n).1).2 c hc)
  | negSucc n =>
    rw [QString.number, QByteArray.number, fromLatin1, List.map_append] at hc
    rcases List.mem_append.1 hc with hc | hc
    · exact .inr (List.mem_singleton.1 hc)
    · exact .inl (isDigit_decimalDigits _ c hc)

theorem readLongLong_fits (h : readLongLong base s = some v) : -2 ^ 63 ≤ v ∧ v < 2 ^ 63 := by
  rw [readLongLong] at h
  dsimp only at h
  generalize (if base = 16 then dropHexPrefix
    (if (s.head? == some 0x2D) = true ∨ s.head? = some 0x2B then s.drop 1 else s)
    else (if (s.head? == some 0x2D) = true ∨ s.head? = some 0x2B then s.drop 1 else s)) = t at h
  by_cases ht : t.isEmpty = true
  · rw [if_pos ht] at h
    cases h
  · rw [if_neg ht] at h
    cases hd : digitsFrom base 0 t with
    | none =>
      rw [hd] at h
      cases h
    | some n =>
      rw [hd] at h
      dsimp only at h
      generalize (if (s.head? == some 0x2D) = true then -(n : Int) else (n : Int)) = w at h
      by_cases hw : -2 ^ 63 ≤ w ∧ w < 2 ^ 63
      · rw [if_pos hw] at h
        cases h
        exact hw
      · rw [if_neg hw] at h
        cases h

theorem toLongLong_number (h : -2 ^ 63 ≤ n ∧ n < 2 ^ 63) :
    QString.toLongLong (QString.number n) = some n := by
  have htrim : QString.trimmed (QString.number n) = QString.number n := by
    apply trimWith_eq_self
    · intro c hc
      exact isSpace_of_number (number_chars n (List.mem_of_mem_head? hc))
    · intro c hc
      exact isSpace_of_number (number_chars n (List.mem_of_getLast? hc))
  rw [QString.toLongLong, htrim]
  cases n with
  | ofNat n =>
    obtain ⟨hnum, hval⟩ := number_numeral n
    rw [QString.number]
    rw [Int.ofNat_eq_natCast, readLongLong_numeral hnum, hval]
    exact if_pos h.2
  | negSucc n =>
    have hread : digitsFrom 10 0 (fromLatin1 (decimalDigits (n + 1))) = some (n + 1) :=
      digitsFrom_decimalDigits (n + 1)
    have hne : (fromLatin1 (decimalDigits (n + 1))).isEmpty = false := by
      rw [List.isEmpty_eq_false_iff, fromLatin1, ne_eq, List.map_eq_nil_iff,
        decimalDigits_step (Nat.succ_ne_zero n)]
      exact List.append_ne_nil_of_right_ne_nil _ (List.cons_ne_nil _ _)
    have hs : QString.number (.negSucc n) = 0x2D :: fromLatin1 (decimalDigits (n + 1)) := rfl
    rw [hs]
    simp only [readLongLong, List.head?_cons, beq_self_eq_true, true_or, if_true, List.drop_one,
      List.tail_cons, Nat.reduceEqDiff, if_false, hne, Bool.false_eq_true, hread]
    rw [Int.negSucc_eq] at h ⊢
    exact if_pos h

end Nullock

namespace Nullock.SessionLogic
open SessionManager

def Fits (n : Int) : Prop := -2 ^ 63 ≤ n ∧ n < 2 ^ 63

theorem parseCookieExpires_lt (D : DateLibrary) (httpDate : QString) :
    parseCookieExpires D httpDate < 2 ^ 63 := by
  rw [parseCookieExpires]
  dsimp only
  split
  · decide
  · generalize QString.trimmed httpDate = s
    cases hr : D.rfc2822Date s with
    | some n => exact D.rfc2822Date_fits s n hr
    | none =>
      rw [Option.orElse_none]
      cases hf : ["ddd, dd MMM yyyy hh:mm:ss 'GMT'", "ddd, dd-MMM-yyyy hh:mm:ss 'GMT'",
          "ddd MMM d hh:mm:ss yyyy"].findSome? (D.toDateTime s) with
      | none => decide
      | some n =>
        obtain ⟨format, _, he⟩ := List.exists_of_findSome?_eq_some hf
        exact D.toDateTime_fits s format n he

theorem applyAttribute_maxAge (L : TextLibrary) (h : Fits c.maxAge) (part : QString) :
    Fits (applyAttribute L c part).maxAge := by
  rw [applyAttribute]
  dsimp only
  split_ifs
  · exact h
  · exact h
  · exact h
  · cases hv : QString.toLongLong (asciiTrimmed ((splitPair (asciiTrimmed part)).2.getD [])) with
    | none => exact h
    | some n => exact readLongLong_fits hv
  · exact h
  · exact h
  · exact h
  · exact h
  · exact h

theorem parseSetCookie_maxAge (L : TextLibrary) (raw : QString) :
    Fits (parseSetCookie L raw).maxAge := by
  have hnone : Fits kNoMaxAge := by
    rw [kNoMaxAge, Fits]
    decide
  have hfold (parts : List QString) (c : JarCookie) (hc : Fits c.maxAge) :
      Fits (parts.foldl (applyAttribute L) c).maxAge := by
    induction parts generalizing c with
    | nil => exact hc
    | cons part parts ih => exact ih _ (applyAttribute_maxAge L hc part)
  rw [parseSetCookie]
  split
  · exact hnone
  · split
    · exact hnone
    · exact hfold _ _ hnone

theorem resolveCookieExpiry_fits (D : DateLibrary) (h : Fits c.maxAge) (hnow : 0 ≤ now)
    (hlt : now < 2 ^ 63) : Fits (resolveCookieExpiry D c now).expiresEpoch := by
  obtain ⟨hlow, hhigh⟩ := h
  have hmax : Fits (2 ^ 63 - 1) := ⟨by decide, by decide⟩
  have hzero : Fits 0 := ⟨by decide, by decide⟩
  rw [resolveCookieExpiry]
  dsimp only
  split
  · dsimp only
    split
    · exact hmax
    · rename_i hclamp
      rw [not_and_or] at hclamp
      rw [Fits]
      omega
  · split
    · rename_i he
      exact ⟨Int.le_trans (by decide) he.2, parseCookieExpires_lt D c.expires⟩
    · exact hzero

def FitCookies (cookies : List JarCookie) : Prop := ∀ c ∈ cookies, Fits c.expiresEpoch

theorem replaceCookie_mem (h : replaceCookie c cookies = some cookies') (hm : d ∈ cookies') :
    d = c ∨ d ∈ cookies := by
  induction cookies generalizing cookies' with
  | nil => cases h
  | cons existing cookies ih =>
    rw [replaceCookie] at h
    split at h
    · cases h
      rcases List.mem_cons.1 hm with hm | hm
      · exact .inl hm
      · exact .inr (List.mem_cons_of_mem _ hm)
    · obtain ⟨rest, hr, he⟩ := Option.map_eq_some_iff.1 h
      cases he
      rcases List.mem_cons.1 hm with hm | hm
      · exact .inr (List.mem_cons.2 (.inl hm))
      · rcases ih hr hm with hd | hd
        · exact .inl hd
        · exact .inr (List.mem_cons_of_mem _ hd)

theorem FitCookies.replace {c : JarCookie} (h : FitCookies cookies) (hc : Fits c.expiresEpoch)
    (hr : replaceCookie c cookies = some cookies') : FitCookies cookies' := by
  intro d hd
  rcases replaceCookie_mem hr hd with he | hm
  · rw [he]
    exact hc
  · exact h d hm

theorem FitCookies.concat {c : JarCookie} (h : FitCookies cookies) (hc : Fits c.expiresEpoch) :
    FitCookies (cookies ++ [c]) := by
  intro d hd
  rcases List.mem_append.1 hd with hd | hd
  · exact h d hd
  · rw [List.mem_singleton.1 hd]
    exact hc

theorem FitCookies.sublist (h : FitCookies cookies) (hs : cookies'.Sublist cookies) :
    FitCookies cookies' := fun d hd => h d (hs.subset hd)

theorem FitCookies.capture (h : FitCookies cookies) (hc : Fits c.expiresEpoch) (nowSec : Int) :
    FitCookies (captureCookie nowSec cookies c) := by
  rw [captureCookie]
  split
  · exact h.sublist (removeCookieByName_sublist c.name cookies)
  · cases hr : replaceCookie c cookies with
    | some replaced => exact h.replace hc hr
    | none =>
      dsimp only
      split
      · exact (h.sublist (List.drop_sublist 1 cookies)).concat hc
      · exact h.concat hc

theorem FitCookies.captureAll (h : FitCookies cookies) (hfresh : FitCookies fresh)
    (nowSec : Int) : FitCookies (fresh.foldl (captureCookie nowSec) cookies) := by
  induction fresh generalizing cookies with
  | nil => exact h
  | cons c fresh ih =>
    have hc := hfresh c List.mem_cons_self
    exact ih (h.capture hc nowSec) (fun d hd => hfresh d (List.mem_cons_of_mem _ hd))

theorem FitCookies.upsert (h : FitCookies cookies) (hc : Fits c.expiresEpoch) :
    FitCookies (upsertCookie cookies c) := by
  rw [upsertCookie]
  cases hr : replaceCookie c cookies with
  | some cookies' => exact h.replace hc hr
  | none => exact h.concat hc

theorem removeCookieByName_view (name : QString)
    (h : cookies.map JarCookie.toCapturedCookie = cookies'.map JarCookie.toCapturedCookie) :
    (removeCookieByName name cookies).2 = (removeCookieByName name cookies').2 ∧
      (removeCookieByName name cookies).1.map JarCookie.toCapturedCookie =
        (removeCookieByName name cookies').1.map JarCookie.toCapturedCookie := by
  induction cookies generalizing cookies' with
  | nil =>
    cases cookies' with
    | nil => exact ⟨rfl, rfl⟩
    | cons c' cookies' => cases h
  | cons c cookies ih =>
    cases cookies' with
    | nil => cases h
    | cons c' cookies' =>
      rw [List.map_cons, List.map_cons, List.cons.injEq] at h
      have hname : c.name = c'.name := congrArg CapturedCookie.name h.1
      rw [removeCookieByName, removeCookieByName, hname]
      split
      · exact ⟨rfl, h.2⟩
      · obtain ⟨hremoved, hrest⟩ := ih h.2
        refine ⟨hremoved, ?_⟩
        rw [List.map_cons, List.map_cons, h.1, hrest]

end Nullock.SessionLogic

namespace Nullock.SessionManager
open SessionLogic SessionRules Proxy HttpLogic

inductive Reachable (L : TextLibrary) (D : DateLibrary) (O : HashOrder) : Jar → Prop where
  | empty : Reachable L D O ∅
  | action : Reachable L D O jar → ∀ a : JarAction, Reachable L D O (a.apply L D O jar)
  | imported : ∀ arr nowEpoch, Reachable L D O (importJson arr nowEpoch)

structure WellStored (L : TextLibrary) (key : QString) (s : JarSession) : Prop where
  keyed : key = L.lowerCase s.host ∨ key = s.host
  cookies : FitCookies s.cookies

def StoredJar (L : TextLibrary) (jar : Jar) : Prop :=
  ∀ key s, jar.lookup key = some s → WellStored L key s

theorem StoredJar.erase (h : StoredJar L jar) (key : QString) : StoredJar L (jar.erase key) := by
  intro k s hl
  exact h k s (lookup_erase_cases hl).2

theorem StoredJar.insert (h : StoredJar L jar) (hs : WellStored L key s) :
    StoredJar L (jar.insert key s) := by
  intro k t hl
  rcases lookup_insert_cases hl with ⟨rfl, rfl⟩ | ⟨_, hl⟩
  · exact hs
  · exact h k t hl

theorem StoredJar.makeRoom (h : StoredJar L jar) : StoredJar L (makeRoom O jar key now) := by
  rw [SessionManager.makeRoom]
  split
  · split
    · exact h
    · exact h.erase _
  · exact h

theorem StoredJar.getD (h : StoredJar L jar) (key : QString) :
    FitCookies ((jar.lookup key).getD {}).cookies := by
  cases hl : jar.lookup key with
  | none =>
    intro c hc
    cases hc
  | some s => exact (h key s hl).cookies

theorem freshCookies_fit (L : TextLibrary) (D : DateLibrary) (clock : Clock)
    (headers : List Header) : FitCookies (freshCookies L D clock.secs headers) := by
  intro c hc
  obtain ⟨f, _, hf⟩ := List.mem_filterMap.1 hc
  split at hf
  · dsimp only at hf
    split at hf
    · cases hf
    · cases hf
      exact resolveCookieExpiry_fits D (parseSetCookie_maxAge L f.2) clock.fits.1 clock.fits.2
  · cases hf

theorem sessionFromJson_fit (nowEpoch : Int) (v : QJsonValue) :
    FitCookies (sessionFromJson nowEpoch v).cookies := by
  intro c hc
  obtain ⟨cv, _, he⟩ := List.mem_map.1 (List.mem_filter.1 hc).1
  rw [← he, cookieFromJson]
  dsimp only
  cases hn : QString.toLongLong (cv.toObject.value "expiresEpoch").toQString with
  | none => exact ⟨by decide, by decide⟩
  | some n => exact readLongLong_fits hn

theorem StoredJar.imported (L : TextLibrary) (arr : List QJsonValue) (nowEpoch : Int) :
    StoredJar L (importJson arr nowEpoch) := by
  intro key s hl
  rcases import_lookup hl with ⟨v, _, hs, hk, _⟩ | hl
  · refine ⟨.inr hk, ?_⟩
    rw [hs]
    exact sessionFromJson_fit nowEpoch v
  · rw [AList.lookup_empty] at hl
    cases hl

theorem StoredJar.apply (D : DateLibrary) (O : HashOrder) (h : StoredJar L jar)
    (a : JarAction) : StoredJar L (a.apply L D O jar) := by
  cases a with
  | responseReceived req resp clock =>
    rw [JarAction.apply, onResponseReceived]
    split
    · exact h
    · dsimp only
      split
      · exact h
      · have hroom : StoredJar L (SessionManager.makeRoom O jar (L.lowerCase req.host)
            clock.before) := h.makeRoom
        refine hroom.insert ⟨.inl rfl, ?_⟩
        exact (hroom.getD _).captureAll (freshCookies_fit L D clock resp.headers) clock.secs
  | setCookie host name value path httpOnly secure sameSite now =>
    rw [JarAction.apply, SessionManager.setCookie]
    split
    · exact h
    · have hzero : Fits 0 := ⟨by decide, by decide⟩
      exact h.insert ⟨.inl rfl, (h.getD _).upsert hzero⟩
  | removeCookie host name =>
    rw [JarAction.apply, SessionManager.removeCookie]
    cases hl : jar.lookup (L.lowerCase host) with
    | none => exact h
    | some s =>
      obtain ⟨hkeyed, hcookies⟩ := h _ s hl
      exact h.insert ⟨hkeyed, hcookies.sublist (removeCookieByName_sublist name s.cookies)⟩
  | setAutoInject host on =>
    rw [JarAction.apply, SessionManager.setAutoInject]
    cases hl : jar.lookup (L.lowerCase host) with
    | none => exact h
    | some s => exact h.insert ⟨(h _ s hl).keyed, (h _ s hl).cookies⟩
  | clearHost host => exact h.erase _
  | clearAll =>
    intro key s hl
    cases hl
  | copyTo fromHost toHost now =>
    rw [JarAction.apply, SessionManager.copyTo]
    cases hl : jar.lookup (L.lowerCase fromHost) with
    | none => exact h
    | some src => exact h.insert ⟨.inl rfl, (h _ src hl).cookies⟩
  | reload nowEpoch => exact .imported L _ nowEpoch

theorem Reachable.stored (h : Reachable L D O jar) : StoredJar L jar := by
  induction h with
  | empty =>
    intro key s hl
    cases hl
  | action _ a ih => exact ih.apply D O a
  | imported arr nowEpoch => exact .imported L arr nowEpoch

end Nullock.SessionManager

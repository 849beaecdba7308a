import Nullock.CookieJarRestore

namespace Nullock.SessionManager
open SessionLogic SessionRules Proxy HttpLogic

inductive Probe where
  | injectInto (req : ProxiedRequest) (nowSec : Int)
  | setAutoInject (host : QString) (on : Bool)
  | removeCookie (host name : QString)
  | clearHost (host : QString)

inductive Answer where
  | request (req : ProxiedRequest)
  | found (found : Bool)

def Probe.apply (L : TextLibrary) (jar : Jar) : Probe → Jar × Answer
  | .injectInto req nowSec => (jar, .request (injectFrom L jar nowSec req))
  | .setAutoInject host on =>
    ((SessionManager.setAutoInject L jar host on).1,
      .found (SessionManager.setAutoInject L jar host on).2)
  | .removeCookie host name =>
    ((SessionManager.removeCookie L jar host name).1,
      .found (SessionManager.removeCookie L jar host name).2)
  | .clearHost host =>
    ((SessionManager.clearHost L jar host).1, .found (SessionManager.clearHost L jar host).2)

/-- No sequence of operations tells the restored jar from the stored one. -/
def Transparent (L : TextLibrary) (O : HashOrder) (jar : Jar) (nowEpoch : Int) : Prop :=
  ∀ probes, answers (Probe.apply L) (reloaded O jar nowEpoch) probes =
    answers (Probe.apply L) jar probes

def Unexpired (jar : Jar) (nowEpoch : Int) : Prop :=
  ∀ key s, jar.lookup key = some s →
    ∀ c ∈ s.cookies, cookieExpired c.toCapturedCookie nowEpoch = false

/-- The two jars hold the same for every host that is sent or answers. -/
def SameView (L : TextLibrary) (jar jar' : Jar) : Prop :=
  ∀ host, (jar.lookup (L.lowerCase host)).map JarSession.toHostSession =
    (jar'.lookup (L.lowerCase host)).map JarSession.toHostSession

theorem SameView.insert (h : SameView L jar jar') (key : QString) {s s' : JarSession}
    (hs : s.toHostSession = s'.toHostSession) :
    SameView L (jar.insert key s) (jar'.insert key s') := by
  intro host
  by_cases hk : L.lowerCase host = key
  · rw [hk, AList.lookup_insert, AList.lookup_insert, Option.map_some, Option.map_some, hs]
  · rw [AList.lookup_insert_ne hk, AList.lookup_insert_ne hk]
    exact h host

theorem SameView.erase (h : SameView L jar jar') (key : QString) :
    SameView L (jar.erase key) (jar'.erase key) := by
  intro host
  by_cases hk : L.lowerCase host = key
  · rw [hk, AList.lookup_erase, AList.lookup_erase]
  · rw [AList.lookup_erase_ne hk, AList.lookup_erase_ne hk]
    exact h host

/-- A host is stored in both jars with the same view, or in neither. -/
theorem SameView.cases (h : SameView L jar jar') (host : QString) :
    (jar.lookup (L.lowerCase host) = none ∧ jar'.lookup (L.lowerCase host) = none) ∨
      ∃ s s', jar.lookup (L.lowerCase host) = some s ∧
        jar'.lookup (L.lowerCase host) = some s' ∧ s.toHostSession = s'.toHostSession := by
  have hhost := h host
  cases hl : jar.lookup (L.lowerCase host) with
  | none =>
    cases hl' : jar'.lookup (L.lowerCase host) with
    | none => exact .inl ⟨rfl, rfl⟩
    | some s' =>
      rw [hl, hl'] at hhost
      cases hhost
  | some s =>
    cases hl' : jar'.lookup (L.lowerCase host) with
    | none =>
      rw [hl, hl'] at hhost
      cases hhost
    | some s' =>
      rw [hl, hl'] at hhost
      exact .inr ⟨s, s', rfl, rfl, Option.some.inj hhost⟩

theorem injectFrom_view (h : SameView L jar jar') (nowSec : Int) (req : ProxiedRequest) :
    injectFrom L jar nowSec req = injectFrom L jar' nowSec req := by
  rw [injectFrom, injectFrom, SessionManager.injectInto, SessionManager.injectInto, h req.host]

theorem setAutoInject_view (h : SameView L jar jar') (host : QString) (on : Bool) :
    (SessionManager.setAutoInject L jar host on).2 =
        (SessionManager.setAutoInject L jar' host on).2 ∧
      SameView L (SessionManager.setAutoInject L jar host on).1
        (SessionManager.setAutoInject L jar' host on).1 := by
  rw [SessionManager.setAutoInject, SessionManager.setAutoInject]
  rcases h.cases host with ⟨hl, hl'⟩ | ⟨s, s', hl, hl', hs⟩
  · rw [hl, hl']
    exact ⟨rfl, h⟩
  · rw [hl, hl']
    refine ⟨rfl, h.insert _ ?_⟩
    have hcookies := congrArg HostSession.cookies hs
    exact congrArg (fun cookies => HostSession.mk cookies on) hcookies

theorem removeCookie_view (h : SameView L jar jar') (host name : QString) :
    (SessionManager.removeCookie L jar host name).2 =
        (SessionManager.removeCookie L jar' host name).2 ∧
      SameView L (SessionManager.removeCookie L jar host name).1
        (SessionManager.removeCookie L jar' host name).1 := by
  rw [SessionManager.removeCookie, SessionManager.removeCookie]
  rcases h.cases host with ⟨hl, hl'⟩ | ⟨s, s', hl, hl', hs⟩
  · rw [hl, hl']
    exact ⟨rfl, h⟩
  · rw [hl, hl']
    obtain ⟨hremoved, hrest⟩ := removeCookieByName_view name (congrArg HostSession.cookies hs)
    refine ⟨hremoved, h.insert _ ?_⟩
    have hauto : s.autoInject = s'.autoInject := congrArg HostSession.autoInject hs
    rw [JarSession.toHostSession, JarSession.toHostSession]
    dsimp only
    rw [hrest, hauto]

theorem clearHost_view (h : SameView L jar jar') (host : QString) :
    (SessionManager.clearHost L jar host).2 = (SessionManager.clearHost L jar' host).2 ∧
      SameView L (SessionManager.clearHost L jar host).1
        (SessionManager.clearHost L jar' host).1 := by
  refine ⟨?_, h.erase _⟩
  have hmem : L.lowerCase host ∈ jar ↔ L.lowerCase host ∈ jar' := by
    rw [← AList.lookup_isSome, ← AList.lookup_isSome]
    rcases h.cases host with ⟨hl, hl'⟩ | ⟨s, s', hl, hl', _⟩
    · rw [hl, hl']
    · rw [hl, hl']
      exact iff_of_true rfl rfl
  exact decide_eq_decide.2 hmem

theorem Probe.apply_view (p : Probe) (h : SameView L jar jar') :
    (p.apply L jar).2 = (p.apply L jar').2 ∧
      SameView L (p.apply L jar).1 (p.apply L jar').1 := by
  cases p with
  | injectInto req nowSec =>
    exact ⟨congrArg Answer.request (injectFrom_view h nowSec req), h⟩
  | setAutoInject host on =>
    obtain ⟨hanswer, hnext⟩ := setAutoInject_view h host on
    exact ⟨congrArg Answer.found hanswer, hnext⟩
  | removeCookie host name =>
    obtain ⟨hanswer, hnext⟩ := removeCookie_view h host name
    exact ⟨congrArg Answer.found hanswer, hnext⟩
  | clearHost host =>
    obtain ⟨hanswer, hnext⟩ := clearHost_view h host
    exact ⟨congrArg Answer.found hanswer, hnext⟩

theorem restoredCookie_view (h : Fits c.expiresEpoch) :
    (restoredCookie c).toCapturedCookie = c.toCapturedCookie := by
  rw [restoredCookie, toLongLong_number h]
  rfl

theorem restored_view (hfits : FitCookies s.cookies)
    (hfresh : ∀ c ∈ s.cookies, cookieExpired c.toCapturedCookie nowEpoch = false) :
    (SessionManager.restored nowEpoch s).toHostSession = s.toHostSession := by
  have hview : (s.cookies.map restoredCookie).map JarCookie.toCapturedCookie =
      s.cookies.map JarCookie.toCapturedCookie := by
    rw [List.map_map]
    apply List.map_congr_left
    intro c hc
    exact restoredCookie_view (hfits c hc)
  have hkeep : (s.cookies.map restoredCookie).filter
      (fun c => !cookieExpired c.toCapturedCookie nowEpoch) = s.cookies.map restoredCookie := by
    apply List.filter_eq_self.2
    intro c' hc'
    obtain ⟨c, hc, he⟩ := List.mem_map.1 hc'
    rw [← he, restoredCookie_view (hfits c hc), hfresh c hc, Bool.not_false]
  rw [JarSession.toHostSession, JarSession.toHostSession, SessionManager.restored]
  dsimp only
  rw [hkeep, hview]

theorem StoredJar.restored_at (h : StoredJar L jar) (hkey : L.lowerCase key = key)
    (hl : (reloaded O jar nowEpoch).lookup key = some t) :
    ∃ s, jar.lookup key = some s ∧ t = SessionManager.restored nowEpoch s ∧
      s.host = key ∧ key ≠ [] := by
  obtain ⟨k, s, hk, ht, hhost, hne⟩ := reloaded_lookup hl
  have hsame : k = key := by
    rcases (h k s hk).keyed with he | he
    · rw [he, ← hhost, hkey]
    · rw [he, ← hhost]
  rw [hsame] at hk
  exact ⟨s, hk, ht, hhost.symm, hne⟩

/-- A restored jar is the same exactly when keys are their sessions' hosts. -/
theorem restore_transparent_iff (L : TextLibrary) (D : DateLibrary) (O : HashOrder)
    (hL : ∀ s, L.lowerCase (L.lowerCase s) = L.lowerCase s) (jar : Jar)
    (h : Reachable L D O jar) (nowEpoch : Int) (hfresh : Unexpired jar nowEpoch) :
    Transparent L O jar nowEpoch ↔
      ∀ key s, jar.lookup key = some s → L.lowerCase key = key → s.host = key ∧ key ≠ [] := by
  constructor
  · intro ht key s hl hkey
    have hprobe : (SessionManager.setAutoInject L (reloaded O jar nowEpoch) key true).2 =
        (SessionManager.setAutoInject L jar key true).2 :=
      Answer.found.inj (List.cons.inj (ht [.setAutoInject key true])).1
    rw [SessionManager.setAutoInject, SessionManager.setAutoInject, hkey, hl] at hprobe
    cases hr : (reloaded O jar nowEpoch).lookup key with
    | none =>
      rw [hr] at hprobe
      cases hprobe
    | some t =>
      obtain ⟨s', hl', _, hhost, hne⟩ := h.stored.restored_at hkey hr
      rw [hl, Option.some.injEq] at hl'
      rw [hl']
      exact ⟨hhost, hne⟩
  · intro hall probes
    apply answers_eq_of_related (R := SameView L)
    · intro jar₁ jar₂ p hsame
      exact p.apply_view hsame
    · intro host
      cases hl : jar.lookup (L.lowerCase host) with
      | none =>
        cases hr : (reloaded O jar nowEpoch).lookup (L.lowerCase host) with
        | none => rfl
        | some t =>
          obtain ⟨s, hs, _⟩ := h.stored.restored_at (hL host) hr
          rw [hl] at hs
          cases hs
      | some s =>
        obtain ⟨hhost, hne⟩ := hall _ s hl (hL host)
        have hmem := (reloaded_mem O jar nowEpoch _).2 ⟨_, s, hl, hhost, hne⟩
        obtain ⟨t, hr⟩ := Option.isSome_iff_exists.1 (AList.lookup_isSome.2 hmem)
        obtain ⟨s', hs', ht, _⟩ := h.stored.restored_at (hL host) hr
        rw [hl, Option.some.injEq] at hs'
        rw [hr, Option.map_some, Option.map_some, ht, ← hs',
          restored_view (h.stored _ s hl).cookies (hfresh _ s hl)]

theorem toLower_toLower (s : QString) : toLower (toLower s) = toLower s := by
  have hall : toLower (toLower s) = s.map _ := List.map_map
  rw [hall, toLower]
  apply List.map_congr_left
  intro c _
  rw [Function.comp_apply]
  by_cases hupper : 0x41 ≤ c ∧ c ≤ 0x5A
  · have hlow := UInt16.le_iff_toNat_le.1 hupper.1
    have hhigh := UInt16.le_iff_toNat_le.1 hupper.2
    have hsum : (c + 0x20).toNat = c.toNat + 0x20 := by
      rw [UInt16.toNat_add]
      apply Nat.mod_eq_of_lt
      exact Nat.lt_of_le_of_lt (Nat.add_le_add_right hhigh _) (by decide)
    have hnotUpper : ¬ (0x41 ≤ c + 0x20 ∧ c + 0x20 ≤ 0x5A) := by
      intro hc
      have hle := UInt16.le_iff_toNat_le.1 hc.2
      rw [hsum] at hle
      exact absurd (Nat.le_trans (Nat.add_le_add_right hlow _) hle) (by decide)
    have hnotKelvin : c + 0x20 ≠ 0x212A := by
      intro he
      have hval := congrArg UInt16.toNat he
      have hle := Nat.add_le_add_right hhigh 0x20
      rw [← hsum, hval] at hle
      exact absurd hle (by decide)
    rw [if_pos hupper, if_neg hnotUpper, if_neg hnotKelvin]
  · by_cases hkelvin : c = 0x212A
    · rw [hkelvin]
      decide
    · rw [if_neg hupper, if_neg hkelvin, if_neg hupper, if_neg hkelvin]

def enteredJar (host : QString) : Jar :=
  (SessionManager.setCookie asciiLibrary ∅ host (utf16 "sid") (utf16 "1") [] false false []
    0).1

theorem enteredJar_reachable (host : QString) :
    Reachable asciiLibrary noDates storedOrder (enteredJar host) :=
  .action .empty (.setCookie host (utf16 "sid") (utf16 "1") [] false false [] 0)

theorem enteredJar_lookup (hhost : host ≠ []) (h : (enteredJar host).lookup key = some s) :
    key = toLower host ∧ s.host = host ∧
      s.cookies = [enteredCookie (utf16 "sid") (utf16 "1") [] false false []] := by
  have hgo : ¬ (host.isEmpty || !isValidCookieName (utf16 "sid")) = true := by
    rw [show isValidCookieName (utf16 "sid") = true from rfl, Bool.not_true, Bool.or_false,
      List.isEmpty_iff]
    exact hhost
  rw [enteredJar, SessionManager.setCookie, if_neg hgo] at h
  dsimp only at h
  rw [show asciiLibrary.lowerCase host = toLower host from rfl, AList.lookup_empty] at h
  rcases lookup_insert_cases h with ⟨hk, rfl⟩ | ⟨_, h⟩
  · exact ⟨hk, rfl, rfl⟩
  · cases h

theorem enteredJar_unexpired (hhost : host ≠ []) (nowEpoch : Int) :
    Unexpired (enteredJar host) nowEpoch := by
  intro key s hl c hc
  rw [(enteredJar_lookup hhost hl).2.2, List.mem_singleton] at hc
  rw [hc]
  rfl

theorem restore_transparent_lower :
    Transparent asciiLibrary storedOrder (enteredJar (utf16 "app.local")) 0 := by
  have hne : utf16 "app.local" ≠ [] := by decide
  apply (restore_transparent_iff asciiLibrary noDates storedOrder toLower_toLower _
    (enteredJar_reachable _) 0 (enteredJar_unexpired hne 0)).2
  intro key s hl _
  obtain ⟨hkey, hhost, _⟩ := enteredJar_lookup hne hl
  rw [hkey, hhost]
  decide

/-- After a restart a host that was entered in mixed case is not found. -/
theorem mixed_case_forgotten :
    ¬ ∀ jar nowEpoch, Reachable asciiLibrary noDates storedOrder jar → Unexpired jar nowEpoch →
      Transparent asciiLibrary storedOrder jar nowEpoch := by
  intro h
  have hne : utf16 "App.Local" ≠ [] := by decide
  have ht := h _ 0 (enteredJar_reachable (utf16 "App.Local")) (enteredJar_unexpired hne 0)
  have hanswer : (SessionManager.setAutoInject asciiLibrary
        (reloaded storedOrder (enteredJar (utf16 "App.Local")) 0) (utf16 "App.Local") true).2 =
      (SessionManager.setAutoInject asciiLibrary (enteredJar (utf16 "App.Local"))
        (utf16 "App.Local") true).2 :=
    Answer.found.inj (List.cons.inj (ht [.setAutoInject (utf16 "App.Local") true])).1
  exact absurd hanswer (by decide)

end Nullock.SessionManager

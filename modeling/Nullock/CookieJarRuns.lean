import Nullock.CookieJarStore
import Nullock.RewriteBytes

namespace Nullock.SessionLogic
open SessionManager

structure SoundCookies (cookies : List JarCookie) : Prop where
  names : (cookies.map (fun c => c.name)).Nodup
  few : cookies.length ≤ kMaxCookiesPerHost

theorem SoundCookies.nil : SoundCookies [] := ⟨List.nodup_nil, Nat.zero_le _⟩

theorem SoundCookies.sublist (h : SoundCookies cookies) (hs : cookies'.Sublist cookies) :
    SoundCookies cookies' :=
  ⟨h.names.sublist (hs.map _), Nat.le_trans hs.length_le h.few⟩

theorem replaceCookie_some (h : replaceCookie c cookies = some cookies') :
    c.name ∈ cookies.map (fun c => c.name) ∧
      cookies'.map (fun c => c.name) = cookies.map (fun c => c.name) := by
  induction cookies generalizing cookies' with
  | nil => cases h
  | cons existing cookies ih =>
    rw [replaceCookie] at h
    split at h
    · rename_i he
      cases h
      rw [List.map_cons, List.map_cons, he]
      exact ⟨List.mem_cons_self, rfl⟩
    · obtain ⟨rest, hr, he⟩ := Option.map_eq_some_iff.1 h
      obtain ⟨hmem, hnames⟩ := ih hr
      cases he
      rw [List.map_cons, List.map_cons, hnames]
      exact ⟨List.mem_cons_of_mem _ hmem, rfl⟩

theorem replaceCookie_none (h : replaceCookie c cookies = none) :
    c.name ∉ cookies.map (fun c => c.name) := by
  induction cookies with
  | nil => exact List.not_mem_nil
  | cons existing cookies ih =>
    rw [replaceCookie] at h
    split at h
    · cases h
    · rename_i he
      rw [List.map_cons, List.mem_cons, not_or]
      exact ⟨fun hc => he hc.symm, ih (Option.map_eq_none_iff.1 h)⟩

theorem SoundCookies.replace (h : SoundCookies cookies)
    (hr : replaceCookie c cookies = some cookies') : SoundCookies cookies' := by
  have hnames := (replaceCookie_some hr).2
  have hlen := congrArg List.length hnames
  rw [List.length_map, List.length_map] at hlen
  refine ⟨?_, ?_⟩
  · rw [hnames]
    exact h.names
  · rw [hlen]
    exact h.few

theorem soundCookies_concat_iff {cookies : List JarCookie} {c : JarCookie}
    (h : (cookies.map (fun c => c.name)).Nodup)
    (hc : c.name ∉ cookies.map (fun c => c.name)) :
    SoundCookies (cookies ++ [c]) ↔ cookies.length < kMaxCookiesPerHost := by
  have hlen : (cookies ++ [c]).length = cookies.length + 1 := List.length_append
  constructor
  · intro hs
    have hfew := hs.few
    omega
  · intro hlt
    refine ⟨?_, by omega⟩
    rw [List.map_append, List.map_singleton, ← List.concat_eq_append]
    exact h.concat hc

theorem soundCookies_upsert_iff (h : SoundCookies cookies) :
    SoundCookies (upsertCookie cookies c) ↔
      c.name ∈ cookies.map (fun c => c.name) ∨ cookies.length < kMaxCookiesPerHost := by
  rw [upsertCookie]
  cases hr : replaceCookie c cookies with
  | none =>
    have hc := replaceCookie_none hr
    rw [Option.getD_none, soundCookies_concat_iff h.names hc]
    exact ⟨.inr, fun ho => ho.resolve_left hc⟩
  | some cookies' => exact ⟨fun _ => .inl (replaceCookie_some hr).1, fun _ => h.replace hr⟩

theorem removeCookieByName_sublist (name : QString) (cookies : List JarCookie) :
    (removeCookieByName name cookies).1.Sublist cookies := by
  induction cookies with
  | nil => exact .slnil
  | cons c cookies ih =>
    rw [removeCookieByName]
    split
    · exact List.sublist_cons_self c cookies
    · exact ih.cons_cons c

theorem SoundCookies.capture (h : SoundCookies cookies) (nowSec : Int) (c : JarCookie) :
    SoundCookies (captureCookie nowSec cookies c) := by
  rw [captureCookie]
  split
  · exact h.sublist (removeCookieByName_sublist c.name cookies)
  · cases hr : replaceCookie c cookies with
    | some replaced => exact h.replace hr
    | none =>
      have hc := replaceCookie_none hr
      dsimp only
      split
      · rename_i hfull
        have hd : (cookies.drop 1).Sublist cookies := List.drop_sublist 1 cookies
        have hnot : c.name ∉ (cookies.drop 1).map (fun c => c.name) :=
          fun hm => hc ((hd.map _).subset hm)
        have hfew := h.few
        have hpos : 0 < kMaxCookiesPerHost := by decide
        rw [soundCookies_concat_iff (h.sublist hd).names hnot, List.length_drop]
        omega
      · rw [soundCookies_concat_iff h.names hc]
        omega

theorem SoundCookies.captureAll (h : SoundCookies cookies) (nowSec : Int)
    (fresh : List JarCookie) : SoundCookies (fresh.foldl (captureCookie nowSec) cookies) := by
  induction fresh generalizing cookies with
  | nil => exact h
  | cons c fresh ih => exact ih (h.capture nowSec c)

end Nullock.SessionLogic

namespace Nullock.SessionManager
open SessionLogic SessionRules Proxy HttpLogic

/-- Keys are lower-cased hosts, their cookies are sound, and hosts are few. -/
structure JarInv (L : TextLibrary) (jar : Jar) : Prop where
  keys : ∀ key s, jar.lookup key = some s → key = L.lowerCase s.host
  cookies : ∀ key s, jar.lookup key = some s → SoundCookies s.cookies
  hosts : jar.keys.length ≤ kMaxHosts

inductive JarAction where
  | responseReceived (req : ProxiedRequest) (resp : HttpResponse) (clock : Clock)
  | setCookie (host name value path : QString) (httpOnly secure : Bool) (sameSite : QString)
      (now : Int)
  | removeCookie (host name : QString)
  | setAutoInject (host : QString) (on : Bool)
  | clearHost (host : QString)
  | clearAll
  | copyTo (fromHost toHost : QString) (now : Int)
  | reload (nowEpoch : Int)

section Runs
variable (L : TextLibrary) (D : DateLibrary) (O : HashOrder)

def JarAction.apply (jar : Jar) : JarAction → Jar
  | .responseReceived req resp clock => onResponseReceived L D O jar req resp clock
  | .setCookie host name value path httpOnly secure sameSite now =>
    (SessionManager.setCookie L jar host name value path httpOnly secure sameSite now).1
  | .removeCookie host name => (SessionManager.removeCookie L jar host name).1
  | .setAutoInject host on => (SessionManager.setAutoInject L jar host on).1
  | .clearHost host => (SessionManager.clearHost L jar host).1
  | .clearAll => ∅
  | .copyTo fromHost toHost now => (SessionManager.copyTo L jar fromHost toHost now).1
  | .reload nowEpoch => reloaded O jar nowEpoch

def Captures (D : DateLibrary) (req : ProxiedRequest) (resp : HttpResponse) (clock : Clock) :
    Prop :=
  ¬ ((utf16 "WS").isPrefixOf req.method || req.host.isEmpty) = true ∧
    freshCookies L D clock.secs resp.headers ≠ []

def JarAction.Fits (jar : Jar) : JarAction → Prop
  | .responseReceived req resp clock =>
    Captures L D req resp clock → L.lowerCase req.host ∉ jar →
      kMaxHosts ≤ jar.keys.length → oldestKey O jar clock.before ≠ []
  | .setCookie host name _ _ _ _ _ _ =>
    host ≠ [] → isValidCookieName name = true →
      match jar.lookup (L.lowerCase host) with
      | none => jar.keys.length < kMaxHosts
      | some s => name ∈ s.cookies.map (fun c => c.name) ∨ s.cookies.length < kMaxCookiesPerHost
  | .copyTo fromHost toHost _ =>
    L.lowerCase fromHost ∈ jar → L.lowerCase toHost ∉ jar → jar.keys.length < kMaxHosts
  | .reload _ => ∀ key s, jar.lookup key = some s → s.host = [] ∨ L.lowerCase s.host = s.host
  | _ => True

end Runs

theorem JarInv.empty : JarInv L ∅ where
  keys key s h := by cases h
  cookies key s h := by cases h
  hosts := Nat.zero_le _

theorem JarInv.erase (h : JarInv L jar) (key : QString) : JarInv L (jar.erase key) where
  keys k s hk := h.keys k s (lookup_erase_cases hk).2
  cookies k s hk := h.cookies k s (lookup_erase_cases hk).2
  hosts := Nat.le_trans (length_erase_le jar key) h.hosts

theorem jarInv_insert_iff (h : JarInv L jar) :
    JarInv L (jar.insert key s) ↔ key = L.lowerCase s.host ∧ SoundCookies s.cookies ∧
      (key ∉ jar → jar.keys.length < kMaxHosts) := by
  have hself : (jar.insert key s).lookup key = some s := AList.lookup_insert jar
  constructor
  · intro hi
    refine ⟨hi.keys key s hself, hi.cookies key s hself, ?_⟩
    intro hk
    have hhosts := hi.hosts
    rw [length_insert_of_notMem hk] at hhosts
    omega
  · intro hi
    obtain ⟨hkey, hsound, hroom⟩ := hi
    refine ⟨?_, ?_, ?_⟩
    · intro k t hl
      rcases lookup_insert_cases hl with ⟨hk, ht⟩ | ⟨_, hl⟩
      · rw [hk, ht]
        exact hkey
      · exact h.keys k t hl
    · intro k t hl
      rcases lookup_insert_cases hl with ⟨_, ht⟩ | ⟨_, hl⟩
      · rw [ht]
        exact hsound
      · exact h.cookies k t hl
    · by_cases hk : key ∈ jar
      · rw [length_insert_of_mem hk]
        exact h.hosts
      · rw [length_insert_of_notMem hk]
        exact hroom hk

theorem foldl_older (entries : List (Sigma fun _ : QString => JarSession)) (found : Int × QString) :
    (entries.foldl older found).2 = found.2 ∨
      ∃ entry ∈ entries, (entries.foldl older found).2 = entry.1 := by
  induction entries generalizing found with
  | nil => exact .inl rfl
  | cons entry entries ih =>
    rw [List.foldl_cons]
    rcases ih (older found entry) with h | ⟨e, he, h⟩
    · rw [h, older]
      split
      · exact .inr ⟨entry, List.mem_cons_self, rfl⟩
      · exact .inl rfl
    · exact .inr ⟨e, List.mem_cons_of_mem _ he, h⟩

theorem oldestKey_mem (h : oldestKey O jar now ≠ []) : oldestKey O jar now ∈ jar := by
  rcases foldl_older (O.entries jar) (now + 1, []) with hf | ⟨entry, he, hf⟩
  · exact absurd hf h
  · have hm := (O.perm jar).mem_iff.1 he
    rw [oldestKey, hf, AList.mem_keys, AList.keys]
    exact List.mem_keys_of_mem hm

theorem JarInv.makeRoom (h : JarInv L jar) : JarInv L (makeRoom O jar key now) := by
  rw [SessionManager.makeRoom]
  split
  · split
    · exact h
    · exact h.erase _
  · exact h

theorem makeRoom_room_iff (h : JarInv L jar) :
    (key ∉ makeRoom O jar key now → (makeRoom O jar key now).keys.length < kMaxHosts) ↔
      (key ∉ jar → kMaxHosts ≤ jar.keys.length → oldestKey O jar now ≠ []) := by
  by_cases hk : key ∈ jar
  · have hm : makeRoom O jar key now = jar := by
      rw [makeRoom, if_neg (fun hc => hc.1 hk)]
    rw [hm]
    exact ⟨fun _ hn => absurd hk hn, fun _ hn => absurd hk hn⟩
  · by_cases hfull : kMaxHosts ≤ jar.keys.length
    · rw [makeRoom, if_pos ⟨hk, hfull⟩]
      by_cases ho : oldestKey O jar now = []
      · rw [ho, if_pos List.isEmpty_nil]
        constructor
        · intro hr
          exact absurd (hr hk) (Nat.not_lt.2 hfull)
        · intro hr
          exact absurd rfl (hr hk hfull)
      · rw [if_neg (fun he => ho (List.isEmpty_iff.1 he))]
        have hlen := length_erase_of_mem (oldestKey_mem ho)
        have hhosts := h.hosts
        constructor
        · intro _ _ _
          exact ho
        · intro _ _
          omega
    · rw [makeRoom, if_neg (fun hc => hfull hc.2)]
      constructor
      · intro _ _ hc
        exact absurd hc hfull
      · intro _ _
        exact Nat.not_le.1 hfull

theorem responseReceived_iff (D : DateLibrary) (O : HashOrder) (h : JarInv L jar)
    (req : ProxiedRequest) (resp : HttpResponse) (clock : Clock) :
    JarInv L (onResponseReceived L D O jar req resp clock) ↔
      (Captures L D req resp clock → L.lowerCase req.host ∉ jar →
        kMaxHosts ≤ jar.keys.length → oldestKey O jar clock.before ≠ []) := by
  rw [onResponseReceived]
  split
  · rename_i hskip
    exact ⟨fun _ hc => absurd hskip hc.1, fun _ => h⟩
  · rename_i hskip
    dsimp only
    split
    · rename_i hnone
      exact ⟨fun _ hc => absurd (List.isEmpty_iff.1 hnone) hc.2, fun _ => h⟩
    · rename_i hsome
      have hcaptures : Captures L D req resp clock :=
        ⟨hskip, fun he => hsome (List.isEmpty_iff.2 he)⟩
      have hroom : JarInv L (makeRoom O jar (L.lowerCase req.host) clock.before) := h.makeRoom
      have hcookies : SoundCookies (((makeRoom O jar (L.lowerCase req.host) clock.before).lookup
          (L.lowerCase req.host)).getD {}).cookies := by
        cases hl : (makeRoom O jar (L.lowerCase req.host) clock.before).lookup
            (L.lowerCase req.host) with
        | none => exact .nil
        | some s => exact hroom.cookies _ s hl
      rw [jarInv_insert_iff hroom, makeRoom_room_iff h]
      constructor
      · intro hi _
        exact hi.2.2
      · intro hi
        exact ⟨rfl, hcookies.captureAll clock.secs _, hi hcaptures⟩

theorem setCookie_iff (h : JarInv L jar) (host name value path : QString)
    (httpOnly secure : Bool) (sameSite : QString) (now : Int) :
    JarInv L (SessionManager.setCookie L jar host name value path httpOnly secure sameSite now).1 ↔
      (host ≠ [] → isValidCookieName name = true →
        match jar.lookup (L.lowerCase host) with
        | none => jar.keys.length < kMaxHosts
        | some s =>
          name ∈ s.cookies.map (fun c => c.name) ∨ s.cookies.length < kMaxCookiesPerHost) := by
  rw [SessionManager.setCookie]
  by_cases hvalid : host ≠ [] ∧ isValidCookieName name = true
  · have hgo : ¬ (host.isEmpty || !isValidCookieName name) = true := by
      rw [hvalid.2, Bool.not_true, Bool.or_false, List.isEmpty_iff]
      exact hvalid.1
    rw [if_neg hgo, jarInv_insert_iff h]
    cases hl : jar.lookup (L.lowerCase host) with
    | none =>
      have hk := AList.lookup_eq_none.1 hl
      have hone : SoundCookies
          (upsertCookie [] (enteredCookie name value path httpOnly secure sameSite)) :=
        (soundCookies_upsert_iff .nil).2 (.inr (by decide))
      constructor
      · intro hi _ _
        exact hi.2.2 hk
      · intro hi
        exact ⟨rfl, hone, fun _ => hi hvalid.1 hvalid.2⟩
    | some s =>
      have hk : L.lowerCase host ∈ jar := AList.lookup_isSome.1 (by rw [hl]; rfl)
      have hs := soundCookies_upsert_iff
        (c := enteredCookie name value path httpOnly secure sameSite) (h.cookies _ s hl)
      constructor
      · intro hi _ _
        exact hs.1 hi.2.1
      · intro hi
        exact ⟨rfl, hs.2 (hi hvalid.1 hvalid.2), fun hn => absurd hk hn⟩
  · have hstop : (host.isEmpty || !isValidCookieName name) = true := by
      rw [Bool.or_eq_true, List.isEmpty_iff, Bool.not_eq_true']
      by_cases hh : host = []
      · exact .inl hh
      · exact .inr (Bool.not_eq_true _ ▸ fun hn => hvalid ⟨hh, hn⟩)
    rw [if_pos hstop]
    exact ⟨fun _ hh hn => absurd ⟨hh, hn⟩ hvalid, fun _ => h⟩

theorem JarInv.update (h : JarInv L jar) (hl : jar.lookup key = some s) {s' : JarSession}
    (hhost : s'.host = s.host) (hcookies : SoundCookies s'.cookies) :
    JarInv L (jar.insert key s') := by
  have hk : key ∈ jar := AList.lookup_isSome.1 (by rw [hl]; rfl)
  apply (jarInv_insert_iff h).2
  refine ⟨?_, hcookies, fun hn => absurd hk hn⟩
  rw [hhost]
  exact h.keys key s hl

theorem JarInv.removeCookie (h : JarInv L jar) (host name : QString) :
    JarInv L (SessionManager.removeCookie L jar host name).1 := by
  rw [SessionManager.removeCookie]
  cases hl : jar.lookup (L.lowerCase host) with
  | none => exact h
  | some s =>
    have hs := (h.cookies _ s hl).sublist (removeCookieByName_sublist name s.cookies)
    exact h.update hl rfl hs

theorem JarInv.setAutoInject (h : JarInv L jar) (host : QString) (on : Bool) :
    JarInv L (SessionManager.setAutoInject L jar host on).1 := by
  rw [SessionManager.setAutoInject]
  cases hl : jar.lookup (L.lowerCase host) with
  | none => exact h
  | some s => exact h.update hl rfl (h.cookies _ s hl)

theorem copyTo_iff (h : JarInv L jar) (fromHost toHost : QString) (now : Int) :
    JarInv L (SessionManager.copyTo L jar fromHost toHost now).1 ↔
      (L.lowerCase fromHost ∈ jar → L.lowerCase toHost ∉ jar →
        jar.keys.length < kMaxHosts) := by
  rw [SessionManager.copyTo]
  cases hl : jar.lookup (L.lowerCase fromHost) with
  | none => exact ⟨fun _ hk => absurd hk (AList.lookup_eq_none.1 hl), fun _ => h⟩
  | some src =>
    have hk : L.lowerCase fromHost ∈ jar := AList.lookup_isSome.1 (by rw [hl]; rfl)
    dsimp only
    rw [jarInv_insert_iff h]
    constructor
    · intro hi _
      exact hi.2.2
    · intro hi
      exact ⟨rfl, h.cookies _ src hl, hi hk⟩

theorem restoredCookie_names (cookies : List JarCookie) :
    (cookies.map restoredCookie).map (fun c => c.name) = cookies.map (fun c => c.name) := by
  rw [List.map_map]
  rfl

theorem soundCookies_restored (h : SoundCookies s.cookies) (nowEpoch : Int) :
    SoundCookies (SessionManager.restored nowEpoch s).cookies := by
  have hall : SoundCookies (s.cookies.map restoredCookie) := by
    refine ⟨?_, ?_⟩
    · rw [restoredCookie_names]
      exact h.names
    · rw [List.length_map]
      exact h.few
  exact hall.sublist List.filter_sublist

theorem reloaded_iff (O : HashOrder) (h : JarInv L jar) (nowEpoch : Int) :
    JarInv L (reloaded O jar nowEpoch) ↔
      ∀ key s, jar.lookup key = some s → s.host = [] ∨ L.lowerCase s.host = s.host := by
  constructor
  · intro hi key s hl
    by_cases he : s.host = []
    · exact .inl he
    · right
      have hmem := (reloaded_mem O jar nowEpoch s.host).2 ⟨key, s, hl, rfl, he⟩
      obtain ⟨t, ht⟩ := Option.isSome_iff_exists.1 (AList.lookup_isSome.2 hmem)
      obtain ⟨k, s', _, htr, hhost, _⟩ := reloaded_lookup ht
      have hkey := hi.keys s.host t ht
      have hth : t.host = s.host := by
        rw [htr, hhost]
        rfl
      rw [hth] at hkey
      exact hkey.symm
  · intro hall
    refine ⟨?_, ?_, Nat.le_trans (reloaded_length O jar nowEpoch) h.hosts⟩
    · intro key t ht
      obtain ⟨k, s, hl, htr, hhost, hne⟩ := reloaded_lookup ht
      have hlow := (hall k s hl).resolve_left (fun he => hne (hhost.trans he))
      have hth : t.host = s.host := by
        rw [htr]
        rfl
      rw [hth, hlow]
      exact hhost
    · intro key t ht
      obtain ⟨k, s, hl, htr, _, _⟩ := reloaded_lookup ht
      rw [htr]
      exact soundCookies_restored (h.cookies k s hl) nowEpoch

theorem JarAction.apply_iff (D : DateLibrary) (O : HashOrder) (h : JarInv L jar)
    (a : JarAction) : JarInv L (a.apply L D O jar) ↔ a.Fits L D O jar := by
  cases a with
  | responseReceived req resp clock => exact responseReceived_iff D O h req resp clock
  | setCookie host name value path httpOnly secure sameSite now =>
    exact setCookie_iff h host name value path httpOnly secure sameSite now
  | removeCookie host name => exact iff_of_true (h.removeCookie host name) trivial
  | setAutoInject host on => exact iff_of_true (h.setAutoInject host on) trivial
  | clearHost host => exact iff_of_true (h.erase _) trivial
  | clearAll => exact iff_of_true .empty trivial
  | copyTo fromHost toHost now => exact copyTo_iff h fromHost toHost now
  | reload nowEpoch => exact reloaded_iff O h nowEpoch

theorem jar_invariants_iff (L : TextLibrary) (D : DateLibrary) (O : HashOrder)
    (actions : List JarAction) :
    Throughout (fun jar a => JarAction.apply L D O jar a) (JarInv L) ∅ actions ↔
      Along (fun jar a => JarAction.apply L D O jar a) (fun jar a => a.Fits L D O jar) ∅
        actions := by
  have hkeep (jar : Jar) (a : JarAction) (_ : True) (h : JarInv L jar) :
      JarInv L (a.apply L D O jar) ↔ a.Fits L D O jar := a.apply_iff D O h
  exact throughout_iff_along (I := fun _ => True) (fun _ _ _ => trivial) hkeep trivial .empty
    actions

def noDates : DateLibrary := ⟨fun _ => none, fun _ _ => none, nofun, nofun⟩

def storedOrder : HashOrder := ⟨fun jar => jar.entries, fun _ => .refl _⟩

def mixedCaseRun : List JarAction :=
  [.setCookie (utf16 "App.Local") (utf16 "sid") (utf16 "1") [] false false [] 0, .reload 0]

theorem mixed_case_reload :
    ¬ Throughout (fun jar a => JarAction.apply asciiLibrary noDates storedOrder jar a)
      (JarInv asciiLibrary) ∅ mixedCaseRun := by
  intro h
  have hend := h mixedCaseRun (List.prefix_refl _)
  have hhost : ((mixedCaseRun.foldl
      (fun jar a => JarAction.apply asciiLibrary noDates storedOrder jar a) ∅).lookup
      (utf16 "App.Local")).map (fun s => s.host) = some (utf16 "App.Local") := by decide
  obtain ⟨s, hs, he⟩ := Option.map_eq_some_iff.1 hhost
  have hkey := hend.keys (utf16 "App.Local") s hs
  rw [he] at hkey
  exact absurd hkey (by decide)

end Nullock.SessionManager

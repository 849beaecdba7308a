import Nullock.InjectedParts

namespace Nullock

theorem exists_last (p : α → Bool) (xs : List α) :
    (∀ x ∈ xs, p x = false) ∨ ∃ a x b, xs = a ++ x :: b ∧ p x = true ∧ ∀ y ∈ b, p y = false := by
  induction xs with
  | nil => exact .inl (fun x hx => nomatch hx)
  | cons x xs ih =>
    rcases ih with hnone | ⟨a, y, b, rfl, hy, hb⟩
    · cases hx : p x with
      | true => exact .inr ⟨[], x, xs, rfl, hx, hnone⟩
      | false => exact .inl (List.forall_mem_cons.2 ⟨hx, hnone⟩)
    · exact .inr ⟨x :: a, y, b, rfl, hy, hb⟩

end Nullock

namespace Nullock.SessionManager
open SessionLogic SessionRules Proxy HttpLogic

/-- A cookie of a field: its name and value, and its text as sent. -/
structure CookieEntry where
  pair : Option (QString × QString)
  text : QString

def pairText (pair : QString × QString) : QString := pair.1 ++ utf16 "=" ++ pair.2

def pairOf (text : QString) : Option (QString × QString) :=
  match indexOf (utf16 "=") text with
  | none => none
  | some eq =>
    if eq = 0 then none
    else some (QString.trimmed (text.take eq), QString.trimmed (text.drop (eq + 1)))

def CookieEntry.named (name : QString) (e : CookieEntry) : Bool := e.pair.any (fun kv => kv.1 == name)

def clientEntries (value : QString) : List CookieEntry :=
  (cookiePairs value).map (fun text => ⟨pairOf text, text⟩)

def storedEntry (c : CapturedCookie) : CookieEntry :=
  ⟨some (c.name, c.value), pairText (c.name, c.value)⟩

/-- A cookie in the place of the last of its name, or behind all others. -/
def overlayOne (entries : List CookieEntry) (c : CapturedCookie) : List CookieEntry :=
  match lastIndexOf true (entries.map (CookieEntry.named c.name)) with
  | some i => entries.set i (storedEntry c)
  | none => entries ++ [storedEntry c]

def overlay (eligible : List CapturedCookie) (value : QString) : List CookieEntry :=
  eligible.foldl overlayOne (clientEntries value)

def entriesText (entries : List CookieEntry) : QString :=
  List.intercalate (utf16 "; ") (entries.map CookieEntry.text)

def eligible (L : TextLibrary) (byHost : QString → Option HostSession) (nowSec : Int)
    (req : ProxiedRequest) : List CapturedCookie :=
  if req.host.isEmpty then []
  else
    match byHost (L.lowerCase req.host) with
    | none => []
    | some session =>
      if session.autoInject then
        session.cookies.filter (fun c => !(c.persistent && decide (c.expiresEpoch ≤ nowSec)) &&
          (!c.secure || req.tls) && pathMatches c.path req.path)
      else []

/-- Only the first `Cookie` field changes; other cookies stay as sent. -/
structure InjectedMinimally (L : TextLibrary) (byHost : QString → Option HostSession)
    (nowSec : Int) (req : ProxiedRequest) : Prop where
  unchanged : eligible L byHost nowSec req = [] → injectInto L byHost nowSec req = req
  written : eligible L byHost nowSec req ≠ [] → injectInto L byHost nowSec req =
    { req with
      headers := updateCookie (fun value => entriesText (overlay (eligible L byHost nowSec req) value))
        req.headers }

def cookieField (headers : List Header) : QString :=
  ((headers.find? (fun h => equalsIgnoreCase h.1 (utf16 "Cookie"))).map Prod.snd).getD []

def CookieEntry.Plain (e : CookieEntry) : Prop := e.pair.map pairText = some e.text

def PlainField (value : QString) : Prop :=
  (∀ e ∈ clientEntries value, e.Plain) ∧ value = entriesText (clientEntries value)

def consulted (L : TextLibrary) (byHost : QString → Option HostSession) (req : ProxiedRequest) :
    Bool :=
  !req.host.isEmpty &&
    (byHost (L.lowerCase req.host)).any (fun s => s.autoInject && !s.cookies.isEmpty)

def ClientPlain (L : TextLibrary) (byHost : QString → Option HostSession) (nowSec : Int)
    (req : ProxiedRequest) : Prop :=
  if eligible L byHost nowSec req = [] then
    consulted L byHost req = true → PlainField (cookieField req.headers)
  else ∀ e ∈ overlay (eligible L byHost nowSec req) (cookieField req.headers), e.Plain

section Overlay
variable {entries : List CookieEntry}

theorem overlayOne_cases (entries : List CookieEntry) (c : CapturedCookie) :
    (∀ e ∈ entries, e.named c.name = false) ∧
      overlayOne entries c = entries ++ [storedEntry c] ∨
    ∃ a e b, entries = a ++ e :: b ∧ e.named c.name = true ∧
      (∀ e ∈ b, e.named c.name = false) ∧ overlayOne entries c = a ++ storedEntry c :: b := by
  rcases exists_last (CookieEntry.named c.name) entries with hnone | ⟨a, e, b, rfl, he, hb⟩
  · refine .inl ⟨hnone, ?_⟩
    have hindex : lastIndexOf true (entries.map (CookieEntry.named c.name)) = none := by
      apply lastIndexOf_none
      intro hmem
      obtain ⟨e, hmem, he⟩ := List.mem_map.1 hmem
      rw [hnone e hmem] at he
      cases he
    rw [overlayOne, hindex]
  · refine .inr ⟨a, e, b, rfl, he, hb, ?_⟩
    have hindex : lastIndexOf true ((a ++ e :: b).map (CookieEntry.named c.name)) =
        some a.length := by
      have hlater : true ∉ b.map (CookieEntry.named c.name) := by
        intro hmem
        obtain ⟨d, hmem, hd⟩ := List.mem_map.1 hmem
        rw [hb d hmem] at hd
        cases hd
      have hsplit := lastIndexOf_split hlater (a.map (CookieEntry.named c.name))
      rw [List.length_map] at hsplit
      rw [List.map_append, List.map_cons, he, hsplit]
    rw [overlayOne, hindex]
    dsimp only
    rw [List.set_append_right _ _ (Nat.le_refl _), Nat.sub_self]
    rfl

theorem mem_overlayOne (h : e ∈ overlayOne entries c) : e ∈ entries ∨ e = storedEntry c := by
  rcases overlayOne_cases entries c with ⟨-, heq⟩ | ⟨a, d, b, rfl, -, -, heq⟩
  · rw [heq] at h
    rcases List.mem_append.1 h with h | h
    · exact .inl h
    · exact .inr (List.mem_singleton.1 h)
  · rw [heq] at h
    rcases List.mem_append.1 h with h | h
    · exact .inl (List.mem_append_left _ h)
    · rcases List.mem_cons.1 h with rfl | h
      · exact .inr rfl
      · exact .inl (List.mem_append_right _ (List.mem_cons_of_mem _ h))

theorem overlay_sound (h : e ∈ overlay cookies value) :
    e ∈ clientEntries value ∨ ∃ c ∈ cookies, e = storedEntry c := by
  rw [overlay] at h
  generalize clientEntries value = entries at h ⊢
  induction cookies generalizing entries with
  | nil => exact .inl h
  | cons c cookies ih =>
    rcases ih _ h with h | ⟨d, hd, rfl⟩
    · rcases mem_overlayOne h with h | rfl
      · exact .inl h
      · exact .inr ⟨c, List.mem_cons_self, rfl⟩
    · exact .inr ⟨d, List.mem_cons_of_mem _ hd, rfl⟩

theorem filterMap_overlayOne (entries : List CookieEntry) (c : CapturedCookie) :
    (overlayOne entries c).filterMap CookieEntry.pair =
      override (entries.filterMap CookieEntry.pair) c.name c.value := by
  have hstored : (storedEntry c).pair = some (c.name, c.value) := rfl
  have hout {es : List CookieEntry} (h : ∀ e ∈ es, e.named c.name = false) :
      c.name ∉ (es.filterMap CookieEntry.pair).map Prod.fst := by
    intro hmem
    obtain ⟨kv, hkv, hname⟩ := List.mem_map.1 hmem
    obtain ⟨e, he, hpair⟩ := List.mem_filterMap.1 hkv
    have hnamed := h e he
    rw [CookieEntry.named, hpair, Option.any_some, beq_eq_false_iff_ne] at hnamed
    exact hnamed hname
  rcases overlayOne_cases entries c with ⟨hnone, heq⟩ | ⟨a, e, b, rfl, he, hb, heq⟩
  · rw [heq, override, lastIndexOf_none (hout hnone), List.filterMap_append,
      List.filterMap_cons_some hstored, List.filterMap_nil]
  · obtain ⟨kv, hpair, hname⟩ := (Option.any_eq_true _ _).1 he
    have hindex := lastIndexOf_split (hout hb) ((a.filterMap CookieEntry.pair).map Prod.fst)
    rw [heq, override, List.filterMap_append, List.filterMap_append,
      List.filterMap_cons_some hstored, List.filterMap_cons_some hpair, List.map_append,
      List.map_cons, beq_iff_eq.1 hname, hindex, List.length_map]
    dsimp only
    rw [List.set_append_right _ _ (Nat.le_refl _), Nat.sub_self]
    rfl

theorem clientCookies_eq (value : QString) :
    clientCookies value = (clientEntries value).filterMap CookieEntry.pair := by
  rw [clientCookies, clientEntries, List.filterMap_map, cookiePairs]
  induction value.splitOn 0x3B with
  | nil => rfl
  | cons p parts ih =>
    rw [List.filterMap_cons, ih, List.map_cons]
    cases hp : QString.trimmed p with
    | nil => rfl
    | cons c s =>
      rw [List.filter_cons_of_pos rfl, List.filterMap_cons]
      rfl

theorem combinedCookies_eq (use : List CapturedCookie) (req : ProxiedRequest) (nowSec : Int)
    (value : QString) : combinedCookies use req nowSec value =
      (overlay (use.filter (injectable req.tls req.path nowSec)) value).filterMap
        CookieEntry.pair := by
  rw [combinedCookies, overlay, clientCookies_eq]
  generalize clientEntries value = entries
  induction use.filter (injectable req.tls req.path nowSec) generalizing entries with
  | nil => rfl
  | cons c cookies ih =>
    rw [List.foldl_cons, List.foldl_cons, ← ih, filterMap_overlayOne]

def CookieEntry.Written (e : CookieEntry) : Prop :=
  ∀ kv, e.pair = some kv → pairText kv = e.text ∨ (pairText kv).length < e.text.length

theorem length_trimmed_lt (s : QString) :
    QString.trimmed s = s ∨ (QString.trimmed s).length < s.length := by
  obtain ⟨a, b, hs, -, -⟩ := trimWith_split isSpace s
  have hlength := congrArg List.length hs
  rw [List.length_append, List.length_append] at hlength
  cases a with
  | nil =>
    cases b with
    | nil =>
      rw [List.nil_append, List.append_nil] at hs
      exact .inl hs.symm
    | cons c b =>
      rw [List.length_cons] at hlength
      refine .inr ?_
      rw [QString.trimmed]
      omega
  | cons c a =>
    rw [List.length_cons] at hlength
    refine .inr ?_
    rw [QString.trimmed]
    omega

theorem length_pairText (name value : QString) :
    (pairText (name, value)).length = name.length + 1 + value.length := by
  rw [pairText, List.length_append, List.length_append]
  rfl

theorem written_pairOf (text : QString) : CookieEntry.Written ⟨pairOf text, text⟩ := by
  intro kv hkv
  dsimp only at hkv ⊢
  rw [pairOf] at hkv
  cases heq : indexOf (utf16 "=") text with
  | none =>
    rw [heq] at hkv
    cases hkv
  | some eq =>
    rw [heq] at hkv
    dsimp only at hkv
    obtain ⟨hsplit, -⟩ := indexOf_split heq
    split at hkv
    · cases hkv
    · cases hkv
      have hlength : text.length = (text.take eq).length + (1 + (text.drop (eq + 1)).length) := by
        have h := congrArg List.length hsplit
        rw [List.length_append, List.length_append] at h
        exact h
      rcases length_trimmed_lt (text.take eq) with hname | hname
      · rcases length_trimmed_lt (text.drop (eq + 1)) with hvalue | hvalue
        · refine .inl ?_
          rw [pairText, hname, hvalue, List.append_assoc]
          exact hsplit.symm
        · refine .inr ?_
          rw [length_pairText, hname, hlength]
          omega
      · refine .inr ?_
        rw [length_pairText, hlength]
        have hle : (QString.trimmed (text.drop (eq + 1))).length ≤ (text.drop (eq + 1)).length := by
          rcases length_trimmed_lt (text.drop (eq + 1)) with hvalue | hvalue
          · rw [hvalue]
          · exact Nat.le_of_lt hvalue
        omega

theorem overlay_written (cookies : List CapturedCookie) (value : QString) :
    ∀ e ∈ overlay cookies value, e.Written := by
  intro e he
  rcases overlay_sound he with he | ⟨c, -, rfl⟩
  · obtain ⟨text, -, rfl⟩ := List.mem_map.1 he
    exact written_pairOf text
  · intro kv hkv
    cases hkv
    exact .inl rfl

theorem overlay_pairs_ne_nil (h : cookies ≠ []) (value : QString) :
    (overlay cookies value).filterMap CookieEntry.pair ≠ [] := by
  obtain ⟨init, c, rfl⟩ := List.eq_nil_or_concat' cookies |>.resolve_left h
  rw [overlay, List.foldl_concat]
  have hmem : storedEntry c ∈ overlayOne (init.foldl overlayOne (clientEntries value)) c := by
    rcases overlayOne_cases (init.foldl overlayOne (clientEntries value)) c with
      ⟨-, heq⟩ | ⟨a, e, b, -, -, -, heq⟩
    · rw [heq]
      exact List.mem_append_right _ List.mem_cons_self
    · rw [heq]
      exact List.mem_append_right _ List.mem_cons_self
  have hpair : (c.name, c.value) ∈ (overlayOne (init.foldl overlayOne (clientEntries value))
      c).filterMap CookieEntry.pair := List.mem_filterMap.2 ⟨_, hmem, rfl⟩
  exact List.ne_nil_of_mem hpair

theorem length_join (h : parts ≠ []) : (List.intercalate (utf16 "; ") parts).length + 2 =
    (parts.map (fun s => s.length + 2)).sum := by
  induction parts with
  | nil => exact absurd rfl h
  | cons s parts ih =>
    cases parts with
    | nil => rw [List.intercalate_singleton]; rfl
    | cons t parts =>
      have hsep : (utf16 "; ").length = 2 := rfl
      rw [List.intercalate_cons_cons, List.length_append, List.length_append, List.map_cons,
        List.sum_cons, ← ih (List.cons_ne_nil t parts)]
      omega

theorem pairs_length (h : ∀ e ∈ entries, e.Written) :
    (((entries.filterMap CookieEntry.pair).map pairText).map (fun s => s.length + 2)).sum ≤
        ((entries.map CookieEntry.text).map (fun s => s.length + 2)).sum ∧
      ((((entries.filterMap CookieEntry.pair).map pairText).map (fun s => s.length + 2)).sum =
        ((entries.map CookieEntry.text).map (fun s => s.length + 2)).sum →
          ∀ e ∈ entries, e.Plain) := by
  induction entries with
  | nil => exact ⟨Nat.le_refl _, fun _ e he => nomatch he⟩
  | cons e entries ih =>
    obtain ⟨he, hrest⟩ := List.forall_mem_cons.1 h
    obtain ⟨hle, hplain⟩ := ih hrest
    cases hpair : e.pair with
    | none =>
      rw [List.filterMap_cons_none hpair, List.map_cons, List.map_cons, List.sum_cons]
      exact ⟨by omega, fun heq => by omega⟩
    | some kv =>
      rw [List.filterMap_cons_some hpair, List.map_cons, List.map_cons, List.map_cons,
        List.map_cons, List.sum_cons, List.sum_cons]
      rcases he kv hpair with htext | hlt
      · rw [htext]
        refine ⟨by omega, fun heq => List.forall_mem_cons.2 ⟨?_, hplain (by omega)⟩⟩
        rw [CookieEntry.Plain, hpair, Option.map_some, htext]
      · exact ⟨by omega, fun heq => by omega⟩

theorem joinCookies_plain (h : ∀ e ∈ entries, e.Plain) :
    joinCookies (entries.filterMap CookieEntry.pair) = entriesText entries := by
  have hmap : (entries.filterMap CookieEntry.pair).map pairText =
      entries.map CookieEntry.text := by
    induction entries with
    | nil => rfl
    | cons e entries ih =>
      obtain ⟨he, hrest⟩ := List.forall_mem_cons.1 h
      obtain ⟨kv, hpair, htext⟩ := Option.map_eq_some_iff.1 he
      rw [List.filterMap_cons_some hpair, List.map_cons, ih hrest, htext, List.map_cons]
  exact congrArg (List.intercalate (utf16 "; ")) hmap

theorem joinCookies_eq_iff (h : ∀ e ∈ entries, e.Written)
    (hne : entries.filterMap CookieEntry.pair ≠ []) :
    joinCookies (entries.filterMap CookieEntry.pair) = entriesText entries ↔
      ∀ e ∈ entries, e.Plain := by
  refine ⟨?_, joinCookies_plain⟩
  intro heq
  apply (pairs_length h).2
  have hentries : entries ≠ [] := by
    rintro rfl
    exact hne rfl
  rw [← length_join (fun he => hne (List.map_eq_nil_iff.1 he)),
    ← length_join (fun he => hentries (List.map_eq_nil_iff.1 he))]
  exact congrArg (fun s => List.length s + 2) heq

theorem trimmed_pairText (h : QString.trimmed text = text) (hpair : pairOf text = some kv) :
    QString.trimmed (pairText kv) = pairText kv := by
  rw [pairOf] at hpair
  cases heq : indexOf (utf16 "=") text with
  | none =>
    rw [heq] at hpair
    cases hpair
  | some eq =>
    rw [heq] at hpair
    dsimp only at hpair
    split at hpair
    · cases hpair
    · rename_i hpos
      cases hpair
      have hends := trimWith_ends isSpace
      have hname : QString.trimmed (text.take eq) ≠ [] := by
        cases text with
        | nil =>
          have hnone : indexOf (utf16 "=") ([] : QString) = none := by decide
          rw [hnone] at heq
          cases heq
        | cons c text =>
          obtain ⟨i, rfl⟩ := Nat.exists_eq_succ_of_ne_zero hpos
          have hself : trimWith isSpace (c :: text) = c :: text := h
          have hc := (hends (c :: text)).1 c
          rw [hself] at hc
          exact List.ne_nil_of_mem (mem_trimWith List.mem_cons_self (hc rfl))
      apply trimWith_eq_self
      · intro c hc
        rw [pairText, List.append_assoc, List.head?_append_of_ne_nil _ hname] at hc
        exact (hends _).1 c hc
      · intro c hc
        rw [pairText, List.getLast?_append] at hc
        cases hlast : (QString.trimmed (text.drop (eq + 1))).getLast? with
        | none =>
          rw [hlast, Option.none_or, List.getLast?_append] at hc
          cases hc
          rfl
        | some d =>
          rw [hlast, Option.some_or] at hc
          cases hc
          exact (hends _).2 c hlast

theorem mem_clientCookies (h : kv ∈ clientCookies value) :
    0x3B ∉ pairText kv ∧ QString.trimmed (pairText kv) = pairText kv ∧ pairText kv ≠ [] := by
  rw [clientCookies_eq] at h
  obtain ⟨e, he, hpair⟩ := List.mem_filterMap.1 h
  obtain ⟨text, htext, rfl⟩ := List.mem_map.1 he
  obtain ⟨hmem, -⟩ := List.mem_filter.1 htext
  obtain ⟨part, hpart, rfl⟩ := List.mem_map.1 hmem
  have hsemi : 0x3B ∉ part := not_mem_of_mem_splitOn hpart
  refine ⟨?_, trimmed_pairText (trimWith_idem isSpace part) hpair, ?_⟩
  · dsimp only at hpair
    rw [pairOf] at hpair
    split at hpair
    · cases hpair
    · split at hpair
      · cases hpair
      · cases hpair
        rw [pairText, List.mem_append, List.mem_append, not_or, not_or]
        refine ⟨⟨?_, by decide⟩, ?_⟩
        · intro hm
          exact hsemi (mem_of_mem_trimWith (List.mem_of_mem_take (mem_of_mem_trimWith hm)))
        · intro hm
          exact hsemi (mem_of_mem_trimWith (List.mem_of_mem_drop (mem_of_mem_trimWith hm)))
  · rw [pairText, List.append_assoc]
    exact List.append_ne_nil_of_right_ne_nil _ (List.append_ne_nil_of_left_ne_nil (by decide) _)

theorem joinCookies_client_iff (value : QString) :
    joinCookies (clientCookies value) = value ↔ PlainField value := by
  constructor
  · intro h
    have htexts : (clientEntries value).map CookieEntry.text =
        (clientCookies value).map pairText := by
      have hpairs : cookiePairs value = (clientCookies value).map pairText := by
        conv => lhs; rw [← h]
        have hjoin : joinCookies (clientCookies value) =
            List.intercalate (utf16 "; ") ((clientCookies value).map pairText) := rfl
        rw [hjoin, cookiePairs_intercalate, List.map_map, List.filter_eq_self.2]
        · apply List.map_congr_left
          intro kv hkv
          exact (mem_clientCookies hkv).2.1
        · intro text htext
          obtain ⟨kv, hkv, rfl⟩ := List.mem_map.1 htext
          have hne := (mem_clientCookies hkv).2.2
          rw [Function.comp_apply, (mem_clientCookies hkv).2.1, Bool.not_eq_true',
            List.isEmpty_eq_false_iff]
          exact hne
        · intro text htext
          obtain ⟨kv, hkv, rfl⟩ := List.mem_map.1 htext
          exact (mem_clientCookies hkv).1
      rw [clientEntries, List.map_map, ← hpairs]
      exact List.map_id _
    have htext : entriesText (clientEntries value) = joinCookies (clientCookies value) :=
      congrArg (List.intercalate (utf16 "; ")) htexts
    refine ⟨?_, (htext.trans h).symm⟩
    by_cases hne : (clientEntries value).filterMap CookieEntry.pair = []
    · rw [clientCookies_eq, hne, List.map_nil, List.map_eq_nil_iff] at htexts
      rw [htexts]
      exact fun e he => nomatch he
    · rw [clientCookies_eq] at htext
      exact (joinCookies_eq_iff (overlay_written [] value) hne).1 htext.symm
  · rintro ⟨hplain, hvalue⟩
    rw [clientCookies_eq, joinCookies_plain hplain]
    exact hvalue.symm

end Overlay

theorem cookieField_cons (h : Header) (headers : List Header) :
    cookieField (h :: headers) =
      if equalsIgnoreCase h.1 (utf16 "Cookie") then h.2 else cookieField headers := by
  rw [cookieField, List.find?_cons]
  cases equalsIgnoreCase h.1 (utf16 "Cookie") with
  | true => rfl
  | false => rfl

theorem updateCookie_congr_iff (f g : QString → QString) (headers : List Header) :
    updateCookie f headers = updateCookie g headers ↔
      f (cookieField headers) = g (cookieField headers) := by
  induction headers with
  | nil => simp [updateCookie, cookieField]
  | cons h headers ih =>
    rw [updateCookie, updateCookie, cookieField_cons]
    split
    · simp
    · simp [ih]

theorem updateCookie_self_iff {headers : List Header}
    (hany : headers.any (fun h => equalsIgnoreCase h.1 (utf16 "Cookie")) = true)
    (f : QString → QString) :
    updateCookie f headers = headers ↔ f (cookieField headers) = cookieField headers := by
  induction headers with
  | nil => cases hany
  | cons h headers ih =>
    rw [List.any_cons, Bool.or_eq_true] at hany
    rw [updateCookie, cookieField_cons]
    split
    · rename_i hcookie
      rw [List.cons.injEq, and_iff_left rfl, Prod.ext_iff]
      simp
    · rename_i hother
      rw [List.cons.injEq, and_iff_right rfl]
      exact ih (hany.resolve_left hother)

theorem cookieField_none {headers : List Header}
    (hany : headers.any (fun h => equalsIgnoreCase h.1 (utf16 "Cookie")) = false) :
    cookieField headers = [] := by
  have hnone : headers.find? (fun h => equalsIgnoreCase h.1 (utf16 "Cookie")) = none := by
    rw [List.find?_eq_none]
    intro h hh
    exact List.any_eq_false.1 hany h hh
  rw [cookieField, hnone]
  rfl

theorem injectInto_eq (L : TextLibrary) (byHost : QString → Option HostSession) (nowSec : Int)
    (req : ProxiedRequest) :
    injectInto L byHost nowSec req =
      (if consulted L byHost req = true ∧
          (eligible L byHost nowSec req ≠ [] ∨
            req.headers.any (fun h => equalsIgnoreCase h.1 (utf16 "Cookie")) = true) then
        { req with
          headers := updateCookie (fun value => joinCookies
            ((overlay (eligible L byHost nowSec req) value).filterMap CookieEntry.pair))
            req.headers }
      else req) ∧
    (consulted L byHost req = false → eligible L byHost nowSec req = []) := by
  rw [injectInto, consulted, eligible]
  cases req.host.isEmpty with
  | true => exact ⟨rfl, fun _ => rfl⟩
  | false =>
    cases byHost (L.lowerCase req.host) with
    | none => exact ⟨rfl, fun _ => rfl⟩
    | some session =>
      cases hauto : session.autoInject with
      | false => exact ⟨by simp [hauto], fun _ => by simp [hauto]⟩
      | true =>
        cases hcookies : session.cookies with
        | nil => exact ⟨by simp [hauto, hcookies], fun _ => by simp [hauto, hcookies]⟩
        | cons c cookies =>
          refine ⟨?_, fun h => by simp [hauto, hcookies] at h⟩
          have hfilter : (c :: cookies).filter (fun c =>
              !(c.persistent && decide (c.expiresEpoch ≤ nowSec)) && (!c.secure || req.tls) &&
                pathMatches c.path req.path) =
              (c :: cookies).filter (injectable req.tls req.path nowSec) := rfl
          simp only [hauto, hcookies, combinedCookies_eq, hfilter, Bool.not_true,
            List.isEmpty_cons, Bool.or_false, Bool.false_eq_true, ↓reduceIte, Bool.not_false,
            Option.any_some, Bool.and_true, true_and]
          generalize (c :: cookies).filter (injectable req.tls req.path nowSec) = use
          cases use with
          | nil =>
            have hnil : ((overlay [] []).filterMap CookieEntry.pair).isEmpty = true := by decide
            simp only [hnil, Bool.true_and, ne_eq, not_true_eq_false, false_or]
            cases req.headers.any (fun h => equalsIgnoreCase h.1 (utf16 "Cookie")) with
            | true => rfl
            | false => rfl
          | cons d use =>
            have hne : ((overlay (d :: use) []).filterMap CookieEntry.pair).isEmpty = false :=
              List.isEmpty_eq_false_iff.2 (overlay_pairs_ne_nil (List.cons_ne_nil d use) [])
            simp only [hne, Bool.false_and, Bool.false_eq_true, ↓reduceIte, ne_eq, reduceCtorEq,
              not_false_eq_true, true_or]

theorem eq_of_headers (headers headers' : List Header) (req : ProxiedRequest) :
    { req with headers := headers } = { req with headers := headers' } ↔ headers = headers' := by
  refine ⟨fun h => congrArg (fun r => r.headers) h, ?_⟩
  rintro rfl
  rfl

/-- Injection is minimal exactly when the cookies that stay are written plainly. -/
theorem injectedMinimally_iff (L : TextLibrary) (byHost : QString → Option HostSession)
    (nowSec : Int) (req : ProxiedRequest) :
    InjectedMinimally L byHost nowSec req ↔ ClientPlain L byHost nowSec req := by
  obtain ⟨heq, hnot⟩ := injectInto_eq L byHost nowSec req
  rw [ClientPlain]
  by_cases hnil : eligible L byHost nowSec req = []
  · rw [if_pos hnil]
    have hself : { req with headers := req.headers } = req := rfl
    have hrebuilt (value : QString) : joinCookies ((overlay (eligible L byHost nowSec req)
        value).filterMap CookieEntry.pair) = joinCookies (clientCookies value) := by
      rw [hnil, overlay, List.foldl_nil, clientCookies_eq]
    have hunchanged : injectInto L byHost nowSec req = req ↔
        (consulted L byHost req = true → PlainField (cookieField req.headers)) := by
      rw [heq]
      by_cases hconsulted : consulted L byHost req = true
      · cases hany : req.headers.any (fun h => equalsIgnoreCase h.1 (utf16 "Cookie")) with
        | true =>
          rw [if_pos ⟨hconsulted, .inr rfl⟩]
          conv => lhs; rhs; rw [← hself]
          rw [eq_of_headers, updateCookie_self_iff hany, hrebuilt, joinCookies_client_iff]
          exact ⟨fun h _ => h, fun h => h hconsulted⟩
        | false =>
          rw [if_neg (fun h => h.2.elim (fun h => h hnil) Bool.false_ne_true),
            cookieField_none hany]
          exact ⟨fun _ _ => ⟨fun e he => (nomatch he), rfl⟩, fun _ => rfl⟩
      · rw [if_neg (fun h => hconsulted h.1)]
        exact ⟨fun _ h => absurd h hconsulted, fun _ => rfl⟩
    rw [← hunchanged]
    exact ⟨fun h => h.unchanged hnil, fun h => ⟨fun _ => h, fun hne => absurd hnil hne⟩⟩
  · rw [if_neg hnil]
    have hconsulted : consulted L byHost req = true := by
      by_contra hno
      exact hnil (hnot (Bool.eq_false_iff.2 hno))
    rw [if_pos ⟨hconsulted, .inl hnil⟩] at heq
    rw [← joinCookies_eq_iff (overlay_written _ _) (overlay_pairs_ne_nil hnil _)]
    rw [← updateCookie_congr_iff (fun value => joinCookies
      ((overlay (eligible L byHost nowSec req) value).filterMap CookieEntry.pair))
      (fun value => entriesText (overlay (eligible L byHost nowSec req) value)),
      ← eq_of_headers _ _ req]
    constructor
    · intro h
      exact heq.symm.trans (h.written hnil)
    · intro h
      exact ⟨fun he => absurd he hnil, fun _ => heq.trans h⟩

def cookieRequest (field : QString) : ProxiedRequest where
  method := utf16 "GET"
  path := utf16 "/"
  target := utf16 "/"
  httpVersion := utf16 "HTTP/1.1"
  headers := [(utf16 "Cookie", field)]
  body := []
  host := utf16 "a"
  port := 80
  tls := false

def storedSecure (secure : Bool) : QString → Option HostSession := fun _ =>
  some ⟨[⟨utf16 "sid", utf16 "1", [], secure, false, 0⟩], true⟩

/-- The blanks of a field change, and a cookie without a name is dropped. -/
theorem client_cookies_rewritten :
    ¬ (∀ (L : TextLibrary) (byHost : QString → Option HostSession) (nowSec : Int)
        (req : ProxiedRequest), InjectedMinimally L byHost nowSec req) ∧
      injectInto asciiLibrary (storedSecure true) 0 (cookieRequest (utf16 "a=1;b=2")) =
        cookieRequest (utf16 "a=1; b=2") ∧
      injectInto asciiLibrary (storedSecure false) 0 (cookieRequest (utf16 "flag; a=1")) =
        cookieRequest (utf16 "a=1; sid=1") := by
  have hspaced : injectInto asciiLibrary (storedSecure true) 0 (cookieRequest (utf16 "a=1;b=2")) =
      cookieRequest (utf16 "a=1; b=2") := by decide
  refine ⟨?_, hspaced, by decide⟩
  intro h
  have hsame := (h asciiLibrary (storedSecure true) 0 (cookieRequest (utf16 "a=1;b=2"))).unchanged
    (by decide)
  rw [hspaced] at hsame
  revert hsame
  decide

end Nullock.SessionManager

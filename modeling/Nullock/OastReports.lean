import Nullock.OastCorrelator
import Mathlib.Data.List.Dedup
import Mathlib.Data.List.Perm.Subperm

namespace Nullock.Oast
open QJsonObject
open SessionManager (toArray)

section Saved
variable {J : JsonLibrary} {W : WalkOrder} {tokens : Tokens}

theorem originFromJson_token (h : IsInt32 o.rowId) (token : QString) :
    ((tokenToJson token o).toObject.value "token").toQString = token ∧
      originFromJson (tokenToJson token o).toObject = o := by
  constructor
  · simp (disch := decide) only [tokenToJson, QJsonValue.toObject, value_ofMembers, if_true,
      QJsonValue.toQString]
  · simp (disch := decide) only [originFromJson, tokenToJson, QJsonValue.toObject, value_ofMembers,
      String.reduceEq, if_true, if_false, QJsonValue.toQString, QJsonValue.toInt_double h]

theorem lookup_readTokens {entries : List (Sigma fun _ : QString => OastOrigin)}
    (hkeys : entries.NodupKeys) (hnames : ∀ e ∈ entries, e.1 ≠ [])
    (hints : ∀ e ∈ entries, IsInt32 e.2.rowId) (m : Tokens) (token : QString) :
    ((entries.map (fun e => tokenToJson e.1 e.2)).foldl readToken m).lookup token =
      (entries.dlookup token).or (m.lookup token) := by
  induction entries generalizing m with
  | nil => rfl
  | cons e entries ih =>
    obtain ⟨hfresh, hrest⟩ := List.nodupKeys_cons.1 hkeys
    obtain ⟨htoken, horigin⟩ := originFromJson_token (hints e List.mem_cons_self) e.1
    have hread : readToken m (tokenToJson e.1 e.2) = m.insert e.1 e.2 := by
      rw [readToken, htoken, horigin]
      exact if_neg (fun he => hnames e List.mem_cons_self (List.isEmpty_iff.1 he))
    rw [List.map_cons, List.foldl_cons, hread,
      ih hrest (fun e' he => hnames e' (List.mem_cons_of_mem e he))
        (fun e' he => hints e' (List.mem_cons_of_mem e he))]
    by_cases he : token = e.1
    · subst he
      have hfirst : (e :: entries).dlookup e.1 = some e.2 := List.dlookup_cons_eq entries e.1 e.2
      rw [List.dlookup_eq_none.2 hfresh, AList.lookup_insert, hfirst]
      rfl
    · rw [AList.lookup_insert_ne he, List.dlookup_cons_ne entries e he]

theorem mem_readConfirmed {names : List QString} (h : [] ∉ names) (s : List QString) :
    t ∈ (names.map QJsonValue.string).foldl readConfirmed s ↔ t ∈ names ∨ t ∈ s := by
  induction names generalizing s with
  | nil => exact ⟨.inr, fun h => h.resolve_left List.not_mem_nil⟩
  | cons n names ih =>
    obtain ⟨hn, hrest⟩ := List.ne_and_not_mem_of_not_mem_cons h
    have hread : ∀ u, u ∈ readConfirmed s (.string n) ↔ u = n ∨ u ∈ s := by
      intro u
      show u ∈ (if n.isEmpty = true then s else addConfirmed s n) ↔ u = n ∨ u ∈ s
      rw [if_neg (fun he => hn (List.isEmpty_iff.1 he).symm), addConfirmed]
      split
      · rename_i hmem
        exact ⟨.inr, fun h => h.elim (fun he => he ▸ hmem) id⟩
      · exact List.mem_cons
    rw [List.map_cons, List.foldl_cons, ih hrest, hread, List.mem_cons]
    tauto

theorem stored_state (hints : ∀ e ∈ tokens.entries, IsInt32 e.2.rowId) (confirmed : List QString) :
    (QJsonValue.object (serializeState W tokens confirmed)).Stored J.Exact kNestingLimit := by
  have htoken : ∀ e ∈ W.tokens tokens,
      (tokenToJson e.1 e.2).Stored J.Exact (kNestingLimit - 2) := by
    intro e he
    refine .ofMembers (fun m hm => ?_)
    simp only [List.mem_cons, List.not_mem_nil, or_false] at hm
    rcases hm with rfl | rfl | rfl | rfl | rfl | rfl | rfl
    · exact .string
    · exact .double (J.exact_int32 (hints e ((W.tokens_perm tokens).mem_iff.1 he)))
    · exact .string
    · exact .string
    · exact .string
    · exact .string
    · exact .string
  refine .ofMembers (fun m hm => ?_)
  simp only [List.mem_cons, List.not_mem_nil, or_false] at hm
  rcases hm with rfl | rfl | rfl
  · exact .double (J.exact_nat (by decide))
  · refine .array (fun v hv => ?_)
    obtain ⟨e, he, rfl⟩ := List.mem_map.1 hv
    exact htoken e he
  · refine .array (fun v hv => ?_)
    obtain ⟨t, -, rfl⟩ := List.mem_map.1 hv
    exact .string

theorem deserializeState_serializeState (hnames : ∀ e ∈ tokens.entries, e.1 ≠ [])
    (hints : ∀ e ∈ tokens.entries, IsInt32 e.2.rowId) {confirmed : List QString}
    (hconfirmed : [] ∉ confirmed) :
    (∀ t, (deserializeState (serializeState W tokens confirmed)).1.lookup t = tokens.lookup t) ∧
      ∀ t, t ∈ (deserializeState (serializeState W tokens confirmed)).2 ↔ t ∈ confirmed := by
  have hperm := W.tokens_perm tokens
  have hkeys : (W.tokens tokens).NodupKeys := (List.perm_nodupKeys hperm).2 tokens.nodupKeys
  have hread : deserializeState (serializeState W tokens confirmed) =
      (((W.tokens tokens).map (fun e => tokenToJson e.1 e.2)).foldl readToken ∅,
        ((W.confirmed confirmed).map QJsonValue.string).foldl readConfirmed []) := by
    have hversion : ((serializeState W tokens confirmed).value "version").toInt 0 =
        kStateVersion := by
      simp (disch := decide) only [serializeState, value_ofMembers, if_true,
        QJsonValue.toInt_double (show IsInt32 kStateVersion by decide)]
    rw [deserializeState, if_neg (not_not_intro hversion)]
    simp (disch := decide) only [serializeState, value_ofMembers, String.reduceEq, if_true,
      if_false, toArray]
  rw [hread]
  constructor
  · intro t
    rw [lookup_readTokens hkeys (fun e he => hnames e (hperm.mem_iff.1 he))
      (fun e he => hints e (hperm.mem_iff.1 he)), AList.lookup_empty, Option.or_none]
    exact List.perm_dlookup t hkeys hperm
  · intro t
    have hperm' := W.confirmed_perm confirmed
    rw [mem_readConfirmed (fun he => hconfirmed (hperm'.mem_iff.1 he)), hperm'.mem_iff]
    exact or_iff_left List.not_mem_nil

end Saved

def RegisteredIn (early : List OastAction) (t : QString) : Prop :=
  ∃ origin h, OastAction.registerToken t origin h ∈ early

def ReportedIn (early : List OastAction) (t : QString) : Prop :=
  ∃ before hit after, early = before ++ .onHit hit :: after ∧ hit.token = t ∧
    RegisteredIn before t

def lastOrigin (early : List OastAction) (t : QString) : Option OastOrigin :=
  early.foldl (fun found a =>
    match a with
    | .registerToken token origin _ => if token = t then some origin else found
    | _ => found) none

def registeredTokens (actions : List OastAction) : List QString :=
  actions.filterMap (fun a =>
    match a with
    | .registerToken token _ _ => some token
    | _ => none)

section History

theorem lastOrigin_append (early : List OastAction) (a : OastAction) (t : QString) :
    lastOrigin (early ++ [a]) t =
      match a with
      | .registerToken token origin _ => if token = t then some origin else lastOrigin early t
      | _ => lastOrigin early t := by
  rw [lastOrigin, List.foldl_append]
  rfl

theorem registeredIn_iff (early : List OastAction) (t : QString) :
    RegisteredIn early t ↔ lastOrigin early t ≠ none := by
  induction early using List.reverseRecOn with
  | nil => exact ⟨fun ⟨_, _, h⟩ => absurd h List.not_mem_nil, fun h => absurd rfl h⟩
  | append_singleton early a ih =>
    rw [lastOrigin_append]
    have hsplit : RegisteredIn (early ++ [a]) t ↔
        RegisteredIn early t ∨ ∃ origin h, a = .registerToken t origin h := by
      constructor
      · rintro ⟨origin, h, hmem⟩
        rcases List.mem_append.1 hmem with hmem | hmem
        · exact .inl ⟨origin, h, hmem⟩
        · exact .inr ⟨origin, h, (List.mem_singleton.1 hmem).symm⟩
      · rintro (⟨origin, h, hmem⟩ | ⟨origin, h, rfl⟩)
        · exact ⟨origin, h, List.mem_append_left _ hmem⟩
        · exact ⟨origin, h, List.mem_append_right _ List.mem_cons_self⟩
    rw [hsplit, ih]
    cases a with
    | registerToken token origin h =>
      dsimp only
      split
      · rename_i he
        subst he
        exact iff_of_true (.inr ⟨origin, h, rfl⟩) (Option.some_ne_none _)
      · rename_i hne
        refine or_iff_left ?_
        rintro ⟨o, h', he⟩
        exact hne (OastAction.registerToken.inj he).1
    | onHit hit => exact or_iff_left (fun ⟨_, _, he⟩ => OastAction.noConfusion he)
    | restart => exact or_iff_left (fun ⟨_, _, he⟩ => OastAction.noConfusion he)

theorem reportedIn_append (early : List OastAction) (a : OastAction) (t : QString) :
    ReportedIn (early ++ [a]) t ↔
      ReportedIn early t ∨ ∃ hit, a = .onHit hit ∧ hit.token = t ∧ RegisteredIn early t := by
  constructor
  · rintro ⟨before, hit, after, heq, htoken, hreg⟩
    rcases List.eq_nil_or_concat after with rfl | ⟨after, last, rfl⟩
    · obtain ⟨rfl, ha⟩ := List.append_inj' heq rfl
      exact .inr ⟨hit, (List.cons.inj ha).1, htoken, hreg⟩
    · have hlast : early ++ [a] = (before ++ .onHit hit :: after) ++ [last] := by
        rw [heq, List.concat_eq_append, List.append_assoc, List.cons_append]
      obtain ⟨hearly, -⟩ := List.append_inj' hlast rfl
      exact .inl ⟨before, hit, after, hearly, htoken, hreg⟩
  · rintro (⟨before, hit, after, rfl, htoken, hreg⟩ | ⟨hit, rfl, htoken, hreg⟩)
    · exact ⟨before, hit, after ++ [a], by rw [List.append_assoc, List.cons_append], htoken, hreg⟩
    · exact ⟨early, hit, [], rfl, htoken, hreg⟩

end History

theorem lastOrigin_int (h : lastOrigin early t = some o) : IsInt32 o.rowId := by
  induction early using List.reverseRecOn with
  | nil => exact absurd h (Option.some_ne_none o).symm
  | append_singleton early a ih =>
    rw [lastOrigin_append] at h
    cases a with
    | registerToken token origin hint =>
      dsimp only at h
      split at h
      · rw [← Option.some.inj h]
        exact hint
      · exact ih h
    | onHit hit => exact ih h
    | restart => exact ih h

/-- Correlator and file know what the run has registered and reported. -/
structure Remembers (J : JsonLibrary) (W : WalkOrder) (all : List QString)
    (early : List OastAction) (c : Correlator) : Prop where
  tokens : ∀ t, c.tokens.lookup t = if t = [] then none else lastOrigin early t
  confirmed : ∀ t, t ∈ c.confirmed ↔ t ≠ [] ∧ ReportedIn early t
  known : ∀ t, t ∈ c.tokens → t ∈ all
  file : c = {} ∨ ∃ tokens confirmed,
    c.file = some (J.compact (.object (serializeState W tokens confirmed))) ∧
      (∀ t, tokens.lookup t = c.tokens.lookup t) ∧ ∀ t, t ∈ confirmed ↔ t ∈ c.confirmed

section Memory
variable {J : JsonLibrary} {W : WalkOrder} {c : Correlator} {all : List QString}

theorem length_keys_le {tokens : Tokens} (h : ∀ t, t ∈ tokens → t ∈ all)
    (hle : all.dedup.length ≤ kMaxTokens) : ¬ tokens.keys.length > kMaxTokens := by
  have hsub : tokens.keys ⊆ all.dedup :=
    fun t ht => List.mem_dedup.2 (h t (AList.mem_keys.2 ht))
  have hlen : tokens.keys.length ≤ all.dedup.length :=
    (List.subperm_of_subset tokens.keys_nodup hsub).length_le
  exact Nat.not_lt.2 (hlen.trans hle)

theorem Remembers.entry (h : Remembers J W all early c) {tokens : Tokens}
    (hsame : ∀ t, tokens.lookup t = c.tokens.lookup t) (he : e ∈ tokens.entries) :
    e.1 ≠ [] ∧ IsInt32 e.2.rowId := by
  have hlookup : tokens.lookup e.1 = some e.2 := AList.mem_lookup_iff.2 he
  rw [hsame, h.tokens] at hlookup
  split at hlookup
  · exact absurd hlookup (Option.some_ne_none _).symm
  · rename_i hne
    exact ⟨hne, lastOrigin_int hlookup⟩

theorem Remembers.registerToken (h : Remembers J W all early c) (hknown : t ∈ all)
    (hle : all.dedup.length ≤ kMaxTokens) (origin : OastOrigin) (hint : IsInt32 origin.rowId) :
    Remembers J W all (early ++ [OastAction.registerToken t origin hint])
      (registerToken J W c t origin) := by
  have hreported : ∀ u, ReportedIn (early ++ [OastAction.registerToken t origin hint]) u ↔
      ReportedIn early u := by
    intro u
    rw [reportedIn_append]
    exact or_iff_left (fun ⟨_, he, _⟩ => OastAction.noConfusion he)
  have hlast : ∀ u, lastOrigin (early ++ [OastAction.registerToken t origin hint]) u =
      if t = u then some origin else lastOrigin early u := fun u => lastOrigin_append early _ u
  rw [Oast.registerToken]
  split
  · rename_i hempty
    have hnil : t = [] := List.isEmpty_iff.1 hempty
    constructor
    · intro u
      rw [h.tokens, hlast]
      split
      · rfl
      · rename_i hu
        exact (if_neg (fun he : t = u => hu (he.symm.trans hnil))).symm
    · exact fun u => (h.confirmed u).trans (and_congr_right fun _ => (hreported u).symm)
    · exact h.known
    · exact h.file
  · rename_i hempty
    have hne : t ≠ [] := fun he => hempty (List.isEmpty_iff.2 he)
    have hmem : ∀ u, u ∈ c.tokens.insert t origin → u ∈ all := by
      intro u hu
      rcases (AList.mem_insert _).1 hu with rfl | hu
      · exact hknown
      · exact h.known u hu
    dsimp only
    rw [if_neg (length_keys_le hmem hle)]
    constructor
    · intro u
      rw [hlast]
      by_cases hu : u = t
      · subst hu
        rw [if_neg hne, if_pos rfl]
        exact AList.lookup_insert _
      · rw [if_neg (Ne.symm hu)]
        exact (AList.lookup_insert_ne hu).trans (h.tokens u)
    · exact fun u => (h.confirmed u).trans (and_congr_right fun _ => (hreported u).symm)
    · exact hmem
    · exact .inr ⟨_, _, rfl, fun _ => rfl, fun _ => Iff.rfl⟩

theorem Remembers.onHit (h : Remembers J W all early c) (hit : OastHit) :
    Remembers J W all (early ++ [OastAction.onHit hit]) (onHit J W c hit).1 ∧
      (onHit J W c hit).2 =
        if hit.token ≠ [] ∧ hit.token ∉ c.confirmed then
          (lastOrigin early hit.token).map (confirmedReport · hit)
        else none := by
  have hlast : ∀ u, lastOrigin (early ++ [OastAction.onHit hit]) u = lastOrigin early u :=
    fun u => lastOrigin_append early _ u
  have hreported : ∀ u, ReportedIn (early ++ [OastAction.onHit hit]) u ↔
      ReportedIn early u ∨ (hit.token = u ∧ lastOrigin early u ≠ none) := by
    intro u
    rw [reportedIn_append, ← registeredIn_iff]
    refine or_congr_right ⟨?_, fun hr => ⟨hit, rfl, hr⟩⟩
    rintro ⟨hit', he, hr⟩
    rw [OastAction.onHit.inj he]
    exact hr
  -- Where nothing is reported, the state stays as it is.
  have hsame : (∀ u, u ≠ [] → ReportedIn (early ++ [OastAction.onHit hit]) u → ReportedIn early u) →
      Remembers J W all (early ++ [OastAction.onHit hit]) c := by
    intro hold
    constructor
    · exact fun u => (h.tokens u).trans (by rw [hlast])
    · intro u
      rw [h.confirmed]
      exact and_congr_right fun hu => ⟨fun hr => (hreported u).2 (.inl hr), hold u hu⟩
    · exact h.known
    · exact h.file
  rw [Oast.onHit]
  split
  · rename_i hempty
    have hnil : hit.token = [] := List.isEmpty_iff.1 hempty
    refine ⟨hsame (fun u hu hr => ?_), (if_neg (fun hn => hn.1 hnil)).symm⟩
    exact ((hreported u).1 hr).resolve_right (fun he => hu (he.1 ▸ hnil))
  rename_i hempty
  have hne : hit.token ≠ [] := fun he => hempty (List.isEmpty_iff.2 he)
  have htokens := h.tokens hit.token
  rw [if_neg hne] at htokens
  cases hlookup : c.tokens.lookup hit.token with
  | none =>
    rw [hlookup] at htokens
    refine ⟨hsame (fun u _ hr => ?_), ?_⟩
    · exact ((hreported u).1 hr).resolve_right (fun he => he.2 (he.1 ▸ htokens.symm))
    · rw [← htokens, Option.map_none, ite_self]
  | some origin =>
    rw [hlookup] at htokens
    dsimp only
    split
    · rename_i hmem
      refine ⟨hsame (fun u _ hr => ?_), (if_neg (fun hn => hn.2 hmem)).symm⟩
      rcases (hreported u).1 hr with hr | ⟨rfl, -⟩
      · exact hr
      · exact ((h.confirmed _).1 hmem).2
    · rename_i hmem
      refine ⟨?_, ?_⟩
      · constructor
        · exact fun u => (h.tokens u).trans (by rw [hlast])
        · intro u
          have hadd : u ∈ addConfirmed c.confirmed hit.token ↔
              u = hit.token ∨ u ∈ c.confirmed := by
            rw [addConfirmed, if_neg hmem]
            exact List.mem_cons
          show u ∈ addConfirmed c.confirmed hit.token ↔ _
          rw [hadd, h.confirmed, hreported]
          constructor
          · rintro (rfl | ⟨hu, hr⟩)
            · exact ⟨hne, .inr ⟨rfl, by rw [← htokens]; exact Option.some_ne_none origin⟩⟩
            · exact ⟨hu, .inl hr⟩
          · rintro ⟨hu, hr | ⟨rfl, -⟩⟩
            · exact .inr ⟨hu, hr⟩
            · exact .inl rfl
        · exact h.known
        · exact .inr ⟨_, _, rfl, fun _ => rfl, fun _ => Iff.rfl⟩
      · rw [if_pos ⟨hne, hmem⟩, ← htokens]
        rfl

theorem Remembers.restart (h : Remembers J W all early c) :
    Remembers J W all (early ++ [OastAction.restart]) (setPersistPath J c.file) := by
  have hlast : ∀ u, lastOrigin (early ++ [OastAction.restart]) u = lastOrigin early u :=
    fun u => lastOrigin_append early _ u
  have hreported : ∀ u, ReportedIn (early ++ [OastAction.restart]) u ↔ ReportedIn early u := by
    intro u
    rw [reportedIn_append]
    exact or_iff_left (fun ⟨_, he, _⟩ => OastAction.noConfusion he)
  rcases h.file with rfl | ⟨tokens, confirmed, hfile, htokens, hconfirmed⟩
  · constructor
    · exact fun u => (h.tokens u).trans (by rw [hlast])
    · intro u
      rw [hreported]
      exact h.confirmed u
    · exact h.known
    · exact .inl rfl
  have hnil : [] ∉ confirmed := fun hmem => ((h.confirmed _).1 ((hconfirmed _).1 hmem)).1 rfl
  have hdoc : J.fromJson (J.compact (.object (serializeState W tokens confirmed))) =
      some (.object (serializeState W tokens confirmed)) :=
    J.read_compact _ rfl (stored_state (fun e he => (h.entry htokens he).2) confirmed)
  obtain ⟨hread, hreadConfirmed⟩ := deserializeState_serializeState (W := W)
    (fun e he => (h.entry htokens he).1) (fun e he => (h.entry htokens he).2) hnil
  rw [hfile, setPersistPath, Option.bind_some, hdoc]
  constructor
  · intro u
    rw [hlast]
    exact (hread u).trans ((htokens u).trans (h.tokens u))
  · intro u
    rw [hreported]
    exact (hreadConfirmed u).trans ((hconfirmed u).trans (h.confirmed u))
  · intro u hu
    refine h.known u (AList.lookup_isSome.1 ?_)
    rw [← htokens, ← hread]
    exact AList.lookup_isSome.2 hu
  · exact .inr ⟨tokens, confirmed, rfl, fun u => (hread u).symm, fun u => (hreadConfirmed u).symm⟩

end Memory

def correlatorAfter (J : JsonLibrary) (W : WalkOrder) (early : List OastAction) : Correlator :=
  early.foldl (fun c a => (step J W c a).1) {}

theorem remembers_run {J : JsonLibrary} {W : WalkOrder} {all : List QString}
    (hle : all.dedup.length ≤ kMaxTokens) (hall : ∀ t ∈ registeredTokens early, t ∈ all) :
    Remembers J W all early (correlatorAfter J W early) := by
  induction early using List.reverseRecOn with
  | nil =>
    constructor
    · intro t
      split
      · rfl
      · rfl
    · rintro t
      refine iff_of_false List.not_mem_nil ?_
      rintro ⟨-, before, hit, after, heq, -⟩
      exact absurd heq.symm (List.append_ne_nil_of_right_ne_nil _ (List.cons_ne_nil _ _))
    · exact fun t ht => absurd (AList.lookup_isSome.2 ht) Bool.false_ne_true
    · exact .inl rfl
  | append_singleton early a ih =>
    have hprev := ih (fun t ht => hall t (by
      rw [registeredTokens, List.filterMap_append]
      exact List.mem_append_left _ ht))
    rw [correlatorAfter, List.foldl_append]
    cases a with
    | registerToken t origin hint =>
      have ht : t ∈ all := hall t (by
        rw [registeredTokens, List.filterMap_append]
        exact List.mem_append_right _ List.mem_cons_self)
      exact hprev.registerToken ht hle origin hint
    | onHit hit => exact (hprev.onHit hit).1
    | restart => exact hprev.restart

def ReportsOnce (J : JsonLibrary) (W : WalkOrder) (actions : List OastAction) : Prop :=
  ∀ early hit late, actions = early ++ .onHit hit :: late →
    (hit.token ≠ [] ∧ RegisteredIn early hit.token ∧ ¬ ReportedIn early hit.token →
      ∃ origin, lastOrigin early hit.token = some origin ∧
        (onHit J W (correlatorAfter J W early) hit).2 = some (confirmedReport origin hit)) ∧
    (¬ (hit.token ≠ [] ∧ RegisteredIn early hit.token ∧ ¬ ReportedIn early hit.token) →
      (onHit J W (correlatorAfter J W early) hit).2 = none)

/-- Within the limit every registered token is reported once, restarts or not. -/
theorem reports_once (J : JsonLibrary) (W : WalkOrder) (actions : List OastAction)
    (h : (registeredTokens actions).dedup.length ≤ kMaxTokens) : ReportsOnce J W actions := by
  intro early hit late heq
  have hall : ∀ t ∈ registeredTokens early, t ∈ registeredTokens actions := by
    intro t ht
    rw [heq, registeredTokens, List.filterMap_append]
    exact List.mem_append_left _ ht
  have hremembers := remembers_run (J := J) (W := W) h hall
  obtain ⟨-, hreport⟩ := hremembers.onHit hit
  have hconfirmed := hremembers.confirmed hit.token
  rw [hreport]
  constructor
  · rintro ⟨hne, hregistered, hreported⟩
    obtain ⟨origin, horigin⟩ := Option.ne_none_iff_exists'.1 ((registeredIn_iff _ _).1 hregistered)
    refine ⟨origin, horigin, ?_⟩
    rw [if_pos ⟨hne, fun hr => hreported (hconfirmed.1 hr).2⟩, horigin]
    rfl
  · intro hnot
    split
    · rename_i hawaited
      cases horigin : lastOrigin early hit.token with
      | none => rfl
      | some origin =>
        have hregistered : RegisteredIn early hit.token :=
          (registeredIn_iff _ _).2 (by rw [horigin]; exact Option.some_ne_none origin)
        exact absurd ⟨hawaited.1, hregistered,
          fun hr => hawaited.2 (hconfirmed.2 ⟨hawaited.1, hr⟩)⟩ hnot
    · rfl

def plainOrder : WalkOrder where
  tokens m := m.entries
  confirmed s := s
  tokens_perm _ := .refl _
  confirmed_perm _ := .refl _

def kSsrfToken : QString := utf16 "00c0ffee00c0ffee"

def ssrfRun : List OastAction :=
  [.registerToken kSsrfToken { host := utf16 "shop.test" } (by decide), .restart,
    .onHit { token := kSsrfToken }, .onHit { token := kSsrfToken }]

theorem ssrf_reported_once : ReportsOnce JsonText.textLibrary plainOrder ssrfRun :=
  reports_once _ _ ssrfRun (by decide)

def probeToken (n : Nat) : QString := utf16 "t" ++ fromLatin1 (QByteArray.number n)

def probes (count : Nat) : List OastAction :=
  (List.range count).map (fun n => .registerToken (probeToken n) {} (by decide))

theorem probeToken_injective (h : probeToken m = probeToken n) : m = n := by
  have hdigits := (List.append_cancel_left h)
  have hm := (number_numeral m).2
  rw [hdigits, (number_numeral n).2] at hm
  exact (Option.some.inj hm).symm

theorem probes_succ (count : Nat) :
    probes (count + 1) =
      probes count ++ [OastAction.registerToken (probeToken count) {} (by decide)] := by
  rw [probes, List.range_succ, List.map_append]
  rfl

theorem correlatorAfter_probes (J : JsonLibrary) (W : WalkOrder) (h : count ≤ kMaxTokens) :
    (correlatorAfter J W (probes count)).tokens.keys.length = count ∧
      ∀ n, count ≤ n → probeToken n ∉ (correlatorAfter J W (probes count)).tokens := by
  induction count with
  | zero => exact ⟨rfl, fun n _ hn => absurd hn (AList.notMem_empty _)⟩
  | succ count ih =>
    obtain ⟨hlength, hfresh⟩ := ih (Nat.le_of_succ_le h)
    have hnew := hfresh count (Nat.le_refl _)
    have hgrown := length_insert_of_notMem (v := ({} : OastOrigin)) hnew
    rw [hlength] at hgrown
    have hkept : ¬ ((correlatorAfter J W (probes count)).tokens.insert (probeToken count)
        {}).keys.length > kMaxTokens := by
      rw [hgrown]
      exact Nat.not_lt.2 h
    have htokens : (correlatorAfter J W (probes (count + 1))).tokens =
        (correlatorAfter J W (probes count)).tokens.insert (probeToken count) {} := by
      rw [probes_succ, correlatorAfter, List.foldl_append]
      show (registerToken J W (correlatorAfter J W (probes count)) (probeToken count) {}).tokens = _
      rw [registerToken, if_neg (by exact Bool.false_ne_true)]
      dsimp only
      rw [if_neg hkept]
      rfl
    rw [htokens]
    refine ⟨hgrown, fun n hn hmem => ?_⟩
    rcases (AList.mem_insert _).1 hmem with he | hmem
    · exact absurd (probeToken_injective he) (Nat.ne_of_gt hn)
    · exact hfresh n (Nat.le_of_succ_le hn) hmem

theorem correlatorAfter_full (J : JsonLibrary) (W : WalkOrder) :
    (correlatorAfter J W (probes (kMaxTokens + 1))).tokens = ∅ := by
  obtain ⟨hlength, hfresh⟩ := correlatorAfter_probes J W (Nat.le_refl kMaxTokens)
  have hgrown := length_insert_of_notMem (v := ({} : OastOrigin)) (hfresh _ (Nat.le_refl _))
  rw [hlength] at hgrown
  rw [probes_succ, correlatorAfter, List.foldl_append]
  show (registerToken J W (correlatorAfter J W (probes kMaxTokens)) (probeToken kMaxTokens)
    {}).tokens = _
  rw [registerToken, if_neg (by exact Bool.false_ne_true)]
  dsimp only
  rw [if_pos (hgrown ▸ Nat.lt_succ_self _)]
  rfl

theorem first_probe_forgotten :
    ¬ ReportsOnce JsonText.textLibrary plainOrder
      (probes (kMaxTokens + 1) ++ [.onHit { token := probeToken 0 }]) := by
  intro h
  obtain ⟨hreported, -⟩ := h (probes (kMaxTokens + 1)) { token := probeToken 0 } [] rfl
  have hregistered : RegisteredIn (probes (kMaxTokens + 1)) (probeToken 0) :=
    ⟨{}, by decide, List.mem_map.2 ⟨0, List.mem_range.2 (Nat.succ_pos _), rfl⟩⟩
  have hnone : ¬ ReportedIn (probes (kMaxTokens + 1)) (probeToken 0) := by
    rintro ⟨before, hit, after, heq, -⟩
    have hmem : OastAction.onHit hit ∈ probes (kMaxTokens + 1) := by
      rw [heq]
      exact List.mem_append_right _ List.mem_cons_self
    obtain ⟨n, -, hn⟩ := List.mem_map.1 hmem
    exact OastAction.noConfusion hn
  obtain ⟨origin, -, hsome⟩ := hreported ⟨List.cons_ne_nil _ _, hregistered, hnone⟩
  rw [onHit, correlatorAfter_full, AList.lookup_empty] at hsome
  split at hsome
  · exact absurd hsome (Option.some_ne_none _).symm
  · exact absurd hsome (Option.some_ne_none _).symm

end Nullock.Oast

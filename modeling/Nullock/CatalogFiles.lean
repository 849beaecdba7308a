import Nullock.JsonText
import Nullock.Marketplace
import Mathlib.Data.List.Dedup

namespace Nullock.MarketplaceLogic
open UpdateLogic

structure TrustedUrl (U : AssetUrlLibrary) (url : QString) : Prop where
  valid : U.isValid (U.strict (QString.trimmed url)) = true
  account : U.userInfo (U.strict (QString.trimmed url)) = []
  port : U.port (U.strict (QString.trimmed url)) = -1 ∨ U.port (U.strict (QString.trimmed url)) = 443
  https : equalsIgnoreCase (U.scheme (U.strict (QString.trimmed url))) (utf16 "https") = true
  host : ∃ t ∈ trustedHosts, ∃ sub, (sub = [] ∨ sub.getLast? = some 0x2E) ∧
    toLower (U.host (U.strict (QString.trimmed url))) = sub ++ t

/-- A name of a script that stays in its directory and is no device. -/
structure SafeName (name : QString) (stem : QString) : Prop where
  extension : name = stem ++ utf16 ".js"
  nonempty : stem ≠ []
  separators : 0x2F ∉ name ∧ 0x5C ∉ name ∧ 0x3A ∉ name
  leading : stem.head? ≠ some 0x2E
  trailing : stem.getLast? ≠ some 0x2E
  device : toLower (stem.takeWhile (· ≠ 0x2E)) ∉ kReserved

structure SafeEntry (U : AssetUrlLibrary) (e : CatalogEntry) : Prop where
  name : ∃ stem, SafeName (safeScriptFileName e.id) stem
  url : TrustedUrl U e.url
  hash : e.sha256.length = 64 ∧ ∀ c ∈ e.sha256,
    (0x30 ≤ c ∧ c ≤ 0x39) ∨ (0x61 ≤ c ∧ c ≤ 0x66) ∨ (0x41 ≤ c ∧ c ≤ 0x46)

section Entries

theorem safeScriptFileName_eq {id : QString} (h : safeScriptFileName id ≠ []) :
    safeScriptFileName id = QString.trimmed id ++ utf16 ".js" ∧ QString.trimmed id ≠ [] ∧
      (∀ c ∈ QString.trimmed id, isNameChar c = true) ∧
      (QString.trimmed id).head? ≠ some 0x2E ∧ (QString.trimmed id).getLast? ≠ some 0x2E ∧
      isReservedDeviceName ((QString.trimmed id).takeWhile (· ≠ 0x2E)) = false := by
  rw [safeScriptFileName] at h ⊢
  split at h
  · exact absurd rfl h
  rename_i hlen
  split at h
  · exact absurd rfl h
  rename_i hchars
  split at h
  · exact absurd rfl h
  rename_i hdots
  split at h
  · exact absurd rfl h
  rename_i hhead
  split at h
  · exact absurd rfl h
  rename_i hlast
  split at h
  · exact absurd rfl h
  rename_i hdevice
  rw [if_neg hlen, if_neg hchars, if_neg hdots, if_neg hhead, if_neg hlast, if_neg hdevice]
  rw [not_or, List.isEmpty_iff] at hlen
  rw [Bool.not_eq_true', Bool.not_eq_false, List.all_eq_true] at hchars
  exact ⟨rfl, hlen.1, hchars, hhead, hlast, Bool.eq_false_iff.2 hdevice⟩

theorem safeName {id : QString} (h : safeScriptFileName id ≠ []) :
    SafeName (safeScriptFileName id) (QString.trimmed id) := by
  obtain ⟨hname, hne, hchars, hhead, hlast, hdevice⟩ := safeScriptFileName_eq h
  have hsep (c : UInt16) (hc : isNameChar c = false) (hjs : c ∉ utf16 ".js") :
      c ∉ safeScriptFileName id := by
    rw [hname, List.mem_append]
    rintro (hm | hm)
    · rw [hchars c hm] at hc
      cases hc
    · exact hjs hm
  refine ⟨hname, hne, ⟨hsep _ (by decide) (by decide), hsep _ (by decide) (by decide),
    hsep _ (by decide) (by decide)⟩, hhead, hlast, ?_⟩
  intro hm
  rw [isReservedDeviceName, List.contains_iff_mem.2 hm] at hdevice
  cases hdevice

theorem hexChar (h : (0x30 ≤ charLatin1 c && charLatin1 c ≤ 0x39 ||
      0x61 ≤ charLatin1 c && charLatin1 c ≤ 0x66 ||
      0x41 ≤ charLatin1 c && charLatin1 c ≤ 0x46) = true) :
    (0x30 ≤ c ∧ c ≤ 0x39) ∨ (0x61 ≤ c ∧ c ≤ 0x66) ∨ (0x41 ≤ c ∧ c ≤ 0x46) := by
  rw [charLatin1] at h
  split at h
  · rename_i hc
    have hn : c.toUInt8.toNat = c.toNat := by
      rw [UInt16.le_iff_toNat_le] at hc
      rw [UInt16.toNat_toUInt8]
      exact Nat.mod_eq_of_lt (Nat.lt_succ_of_le hc)
    simp only [Bool.or_eq_true, Bool.and_eq_true, decide_eq_true_eq, UInt8.le_iff_toNat_le,
      hn] at h
    simp only [UInt16.le_iff_toNat_le]
    exact or_assoc.1 h
  · exact absurd h (by decide)

theorem trustedUrl (h : isTrustedAssetUrl U url = true) : TrustedUrl U url := by
  simp only [isTrustedAssetUrl, Bool.and_eq_true, Bool.or_eq_true, beq_iff_eq,
    List.isEmpty_iff] at h
  obtain ⟨⟨⟨⟨⟨hvalid, hscheme⟩, haccount⟩, hport⟩, _⟩, hhost⟩ := h
  refine ⟨hvalid, haccount, hport, hscheme, ?_⟩
  obtain ⟨t, ht, hmatch⟩ := List.any_eq_true.1 hhost
  rw [Bool.or_eq_true, beq_iff_eq, List.isSuffixOf_iff_suffix] at hmatch
  refine ⟨t, ht, ?_⟩
  rcases hmatch with heq | ⟨sub, hsub⟩
  · exact ⟨[], Or.inl rfl, heq⟩
  · refine ⟨sub ++ [0x2E], Or.inr List.getLast?_concat, ?_⟩
    rw [← hsub, List.append_assoc]
    rfl

theorem safeEntry (h : isUsable U e = true) : SafeEntry U e := by
  simp only [isUsable, Bool.and_eq_true, Bool.not_eq_true', List.isEmpty_eq_false_iff] at h
  obtain ⟨⟨hname, hurl⟩, hhash⟩ := h
  refine ⟨⟨_, safeName hname⟩, trustedUrl hurl, ?_⟩
  simp only [isWellFormedSha256, Bool.and_eq_true, beq_iff_eq, List.all_eq_true] at hhash
  exact ⟨hhash.1, fun c hc => hexChar (by simpa using hhash.2 c hc)⟩

end Entries

section Listing
variable (U : AssetUrlLibrary)

def usableEntry : QJsonValue → Option CatalogEntry
  | .object o => if isUsable U (readEntry o) then some (readEntry o) else none
  | _ => none

/-- The identifiers of the elements that can be used, each where it comes first. -/
def firstIds (arr : List QJsonValue) : List QString :=
  ((arr.filterMap (usableEntry U)).map CatalogEntry.id).reverse.dedup.reverse

variable {U}

theorem usableEntry_eq (h : usableEntry U v = some e) :
    ∃ o, v = .object o ∧ isUsable U (readEntry o) = true ∧ e = readEntry o := by
  cases v with
  | object o =>
    rw [usableEntry] at h
    split at h
    · rename_i hu
      cases h
      exact ⟨o, rfl, hu, rfl⟩
    · cases h
  | _ => cases h

theorem addEntry_usable (h : usableEntry U v = some e) (entries : List CatalogEntry) :
    addEntry U entries v = if kMaxEntries ≤ entries.length ∨ e.id ∈ entries.map CatalogEntry.id
      then entries else entries ++ [e] := by
  obtain ⟨o, rfl, hu, rfl⟩ := usableEntry_eq h
  have hany : entries.any (fun other => other.id == (readEntry o).id) = true ↔
      (readEntry o).id ∈ entries.map CatalogEntry.id := by
    simp only [List.any_eq_true, beq_iff_eq, List.mem_map]
  rw [addEntry]
  dsimp only
  by_cases hfull : kMaxEntries ≤ entries.length
  · rw [if_pos hfull, if_pos (Or.inl hfull)]
  · rw [if_neg hfull, hu, Bool.not_true, if_neg Bool.false_ne_true]
    by_cases hmem : (readEntry o).id ∈ entries.map CatalogEntry.id
    · rw [if_pos (hany.2 hmem), if_pos (Or.inr hmem)]
    · rw [if_neg (fun ha => hmem (hany.1 ha)), if_neg (not_or.2 ⟨hfull, hmem⟩)]

theorem addEntry_unusable (h : usableEntry U v = none) (entries : List CatalogEntry) :
    addEntry U entries v = entries := by
  cases v with
  | object o =>
    rw [usableEntry] at h
    split at h
    · cases h
    · rename_i hu
      rw [addEntry]
      dsimp only
      rw [Bool.eq_false_iff.2 hu, Bool.not_false, if_pos rfl, ite_self]
  | _ => exact ite_self _

theorem firstIds_concat (arr : List QJsonValue) (v : QJsonValue) :
    firstIds U (arr ++ [v]) = match usableEntry U v with
      | none => firstIds U arr
      | some e => if e.id ∈ firstIds U arr then firstIds U arr else firstIds U arr ++ [e.id] := by
  rw [firstIds, List.filterMap_append, List.map_append, List.reverse_append]
  cases hv : usableEntry U v with
  | none => rw [List.filterMap_cons_none hv]; rfl
  | some e =>
    rw [List.filterMap_cons_some hv, List.filterMap_nil, List.map_singleton, List.reverse_singleton,
      List.singleton_append]
    dsimp only
    split
    · rename_i hm
      rw [firstIds, List.mem_reverse, List.mem_dedup] at hm
      rw [List.dedup_cons_of_mem hm, firstIds]
    · rename_i hm
      rw [firstIds, List.mem_reverse, List.mem_dedup] at hm
      rw [List.dedup_cons_of_notMem hm, List.reverse_cons, firstIds]

theorem entries_ids (arr : List QJsonValue) :
    (arr.foldl (addEntry U) []).map CatalogEntry.id = (firstIds U arr).take kMaxEntries := by
  induction arr using List.reverseRecOn with
  | nil => rfl
  | append_singleton arr v ih =>
    rw [List.foldl_append, List.foldl_cons, List.foldl_nil, firstIds_concat]
    cases hv : usableEntry U v with
    | none => rw [addEntry_unusable hv, ih]
    | some e =>
      have hlen := congrArg List.length ih
      rw [List.length_map, List.length_take] at hlen
      rw [addEntry_usable hv, ih, hlen]
      dsimp only
      by_cases hfull : kMaxEntries ≤ (firstIds U arr).length
      · rw [if_pos (Or.inl (by omega)), ih]
        split
        · rfl
        · rw [List.take_append_of_le_length hfull]
      · rw [List.take_of_length_le (by omega)]
        by_cases hm : e.id ∈ firstIds U arr
        · rw [if_pos (Or.inr hm), if_pos hm, ih]
        · rw [if_neg (not_or.2 ⟨by omega, hm⟩), if_neg hm, List.map_append, ih,
            List.take_of_length_le (by omega), List.take_of_length_le]
          · rfl
          · rw [List.length_append, List.length_singleton]
            omega

theorem entries_usable (arr : List QJsonValue) :
    ∀ e ∈ arr.foldl (addEntry U) [], isUsable U e = true := by
  induction arr using List.reverseRecOn with
  | nil => exact fun e he => (List.not_mem_nil he).elim
  | append_singleton arr v ih =>
    intro e he
    rw [List.foldl_append, List.foldl_cons, List.foldl_nil] at he
    cases hv : usableEntry U v with
    | none =>
      rw [addEntry_unusable hv] at he
      exact ih e he
    | some e' =>
      obtain ⟨o, _, hu, rfl⟩ := usableEntry_eq hv
      rw [addEntry_usable hv] at he
      split at he
      · exact ih e he
      · rcases List.mem_append.1 he with he | he
        · exact ih e he
        · rw [List.mem_singleton.1 he]
          exact hu

end Listing

section Catalogues
variable (J : JsonLibrary) (U : AssetUrlLibrary) (errorString : QByteArray → QString)

/-- The identifiers of usable elements, each once, up to the limit. -/
def catalogIds (json : QByteArray) : List QString :=
  if json.isEmpty ∨ kMaxCatalogBytes < json.length then []
  else
    match J.fromJson json with
    | some (.object root) => (firstIds U (extensions root)).take kMaxEntries
    | _ => []

theorem parseCatalog_ids (json : QByteArray) :
    (parseCatalog J U errorString json).entries.map CatalogEntry.id = catalogIds J U json := by
  rw [parseCatalog, catalogIds]
  by_cases hempty : json.isEmpty = true
  · rw [if_pos hempty, if_pos (Or.inl hempty)]
    rfl
  by_cases hlarge : kMaxCatalogBytes < json.length
  · rw [if_neg hempty, if_pos hlarge, if_pos (Or.inr hlarge)]
    rfl
  rw [if_neg hempty, if_neg hlarge, if_neg (not_or.2 ⟨hempty, hlarge⟩)]
  cases J.fromJson json with
  | none => rfl
  | some document =>
    cases document with
    | object root =>
      dsimp only
      rw [← entries_ids]
      split
      · rename_i harr
        rw [List.isEmpty_iff.1 harr]
        rfl
      · rfl
    | _ => rfl

theorem parseCatalog_usable (json : QByteArray) :
    ∀ e ∈ (parseCatalog J U errorString json).entries, isUsable U e = true := by
  intro e he
  rw [parseCatalog] at he
  split at he
  · cases he
  split at he
  · cases he
  split at he
  · dsimp only at he
    split at he
    · cases he
    · exact entries_usable _ e he
  · cases he

/-- Entries are safe, names unique, and files that are there installed. -/
structure ConfinedFiles (json : QByteArray) (files : List QString) : Prop where
  safe : ∀ e ∈ (parseCatalog J U errorString json).entries, SafeEntry U e
  distinct : ((parseCatalog J U errorString json).entries.map
    (fun e => toLower (safeScriptFileName e.id))).Nodup
  installed : ∀ versions current (i : Nat) (e : CatalogEntry),
    (parseCatalog J U errorString json).entries[i]? = some e →
    (((merge files versions current (parseCatalog J U errorString json))[i]?.map
        MergedEntry.state = some .Installed ∨
      (merge files versions current (parseCatalog J U errorString json))[i]?.map
        MergedEntry.state = some .UpdateAvailable) ↔
      safeScriptFileName e.id ∈ files)

structure Separated (files ids : List QString) : Prop where
  apart : (ids.map (fun id => toLower (QString.trimmed id))).Nodup
  found : ∀ id ∈ ids, (∃ ext, equalsIgnoreCase ext (utf16 ".js") = true ∧ id ++ ext ∈ files) ↔
    QString.trimmed id ++ utf16 ".js" ∈ files

theorem mem_installedIds {id : QString} : id ∈ installedIds files ↔
    ∃ ext, equalsIgnoreCase ext (utf16 ".js") = true ∧ id ++ ext ∈ files := by
  rw [installedIds, List.mem_dedup, List.mem_map]
  constructor
  · rintro ⟨f, hf, rfl⟩
    obtain ⟨hmem, hscript⟩ := List.mem_filter.1 hf
    exact ⟨f.drop (f.length - 3), hscript, by rwa [List.take_append_drop]⟩
  · rintro ⟨ext, hext, hmem⟩
    have hlen : ext.length = 3 := by
      rw [equalsIgnoreCase, beq_iff_eq] at hext
      have h := congrArg List.length hext
      rwa [List.length_map, List.length_map] at h
    have hcut : (id ++ ext).length - 3 = id.length := by
      rw [List.length_append, hlen]
      omega
    refine ⟨id ++ ext, List.mem_filter.2 ⟨hmem, ?_⟩, ?_⟩
    · rw [isScript, hcut, List.drop_left]
      exact hext
    · rw [hcut, List.take_left]

theorem mergeEntry_installed (e : CatalogEntry) :
    ((mergeEntry files versions current e).state = .Installed ∨
      (mergeEntry files versions current e).state = .UpdateAvailable) ↔
      e.id ∈ installedIds files := by
  rw [mergeEntry]
  by_cases h : e.id ∈ installedIds files
  · rw [if_pos h]
    dsimp only
    split
    · exact ⟨fun _ => h, fun _ => Or.inr rfl⟩
    · exact ⟨fun _ => h, fun _ => Or.inl rfl⟩
  · rw [if_neg h]
    constructor
    · rintro (hs | hs) <;> cases hs
    · exact fun hm => absurd hm h

theorem usable_file (h : isUsable U e = true) :
    safeScriptFileName e.id = QString.trimmed e.id ++ utf16 ".js" := by
  simp only [isUsable, Bool.and_eq_true, Bool.not_eq_true', List.isEmpty_eq_false_iff] at h
  exact (safeScriptFileName_eq h.1.1).1

theorem distinct_iff (json : QByteArray) :
    ((parseCatalog J U errorString json).entries.map
      (fun e => toLower (safeScriptFileName e.id))).Nodup ↔
      ((catalogIds J U json).map (fun id => toLower (QString.trimmed id))).Nodup := by
  have hnames : (parseCatalog J U errorString json).entries.map
      (fun e => toLower (safeScriptFileName e.id)) =
      ((catalogIds J U json).map (fun id => toLower (QString.trimmed id))).map
        (· ++ toLower (utf16 ".js")) := by
    rw [← parseCatalog_ids J U errorString, List.map_map, List.map_map]
    apply List.map_congr_left
    intro e he
    rw [usable_file U (parseCatalog_usable J U errorString json e he), toLower_append]
    rfl
  rw [hnames]
  exact List.nodup_map_iff (fun s t h => List.append_cancel_right h)

/-- Files are kept apart and found exactly if their identifiers are. -/
theorem confined_files_iff (json : QByteArray) (files : List QString) :
    ConfinedFiles J U errorString json files ↔ Separated files (catalogIds J U json) := by
  constructor
  · intro h
    refine ⟨(distinct_iff J U errorString json).1 h.distinct, ?_⟩
    intro id hid
    rw [← parseCatalog_ids J U errorString] at hid
    obtain ⟨e, he, rfl⟩ := List.mem_map.1 hid
    obtain ⟨i, hi⟩ := List.mem_iff_getElem?.1 he
    have hinstalled := h.installed [] [] i e hi
    rwa [merge_entry hi, Option.map_some, Option.some.injEq, Option.some.injEq,
      mergeEntry_installed, mem_installedIds,
      usable_file U (parseCatalog_usable J U errorString json e he)] at hinstalled
  · intro h
    refine ⟨fun e he => safeEntry (parseCatalog_usable J U errorString json e he),
      (distinct_iff J U errorString json).2 h.apart, ?_⟩
    intro versions current i e hi
    have he := List.mem_iff_getElem?.2 ⟨i, hi⟩
    have hid : e.id ∈ catalogIds J U json := by
      rw [← parseCatalog_ids J U errorString]
      exact List.mem_map_of_mem he
    rw [merge_entry hi, Option.map_some, Option.some.injEq, Option.some.injEq,
      mergeEntry_installed, mem_installedIds,
      usable_file U (parseCatalog_usable J U errorString json e he)]
    exact h.found e.id hid

end Catalogues

def plainUrls : AssetUrlLibrary where
  Url := QString
  strict := fun s => s
  isValid := fun _ => true
  scheme := List.takeWhile (· ≠ 0x3A)
  userInfo := fun _ => []
  port := fun _ => -1
  host := fun s => (s.drop 8).takeWhile (· ≠ 0x2F)

def scriptEntry (id : String) : QJsonValue :=
  .object (QJsonObject.ofMembers [("id", .string (utf16 id)),
    ("sha256", .string (List.replicate 64 0x30)),
    ("url", .string (utf16 "https://bikebrainz.github.io/a.js"))])

def caseTwins : QJsonValue :=
  .object (QJsonObject.ofMembers [("extensions", .array [scriptEntry "a", scriptEntry "A"])])

theorem scriptEntry_stored (id : String) (Ex : Rat → Prop) (depth : Nat) :
    (scriptEntry id).Stored Ex (depth + 1) := by
  apply QJsonValue.Stored.ofMembers
  intro m hm
  simp only [List.mem_cons, List.not_mem_nil, or_false] at hm
  rcases hm with rfl | rfl | rfl <;> exact .string

theorem caseTwins_stored (Ex : Rat → Prop) : caseTwins.Stored Ex kNestingLimit := by
  apply QJsonValue.Stored.ofMembers
  intro m hm
  rw [List.mem_singleton.1 hm]
  apply QJsonValue.Stored.array
  intro v hv
  simp only [List.mem_cons, List.not_mem_nil, or_false] at hv
  rcases hv with rfl | rfl <;> exact scriptEntry_stored _ _ _

set_option maxRecDepth 8000 in
theorem caseTwins_ids : catalogIds JsonText.textLibrary plainUrls
    (JsonText.textLibrary.compact caseTwins) = [utf16 "a", utf16 "A"] := by
  rw [catalogIds, if_neg, JsonText.textLibrary.read_compact _ rfl (caseTwins_stored _)]
  · decide
  · decide

/-- The scripts `a.js` and `A.js` are one file where case makes no difference. -/
theorem case_twins_collide : ¬ ConfinedFiles JsonText.textLibrary plainUrls (fun _ => [])
    (JsonText.textLibrary.compact caseTwins) [] := by
  intro h
  have hids := (distinct_iff _ _ _ _).1 h.distinct
  rw [caseTwins_ids] at hids
  exact absurd hids (by decide)

end Nullock.MarketplaceLogic

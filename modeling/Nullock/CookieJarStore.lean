import Nullock.Maps
import Nullock.CookieJar

namespace Nullock.SessionManager
open SessionLogic

def restoredCookie (c : JarCookie) : JarCookie :=
  { c with
    maxAge := kNoMaxAge
    expiresEpoch := (QString.toLongLong (QString.number c.expiresEpoch)).getD 0 }

def restored (nowEpoch : Int) (s : JarSession) : JarSession :=
  { s with
    lastSeen := (QString.toLongLong (QString.number s.lastSeen)).getD 0
    cookies := (s.cookies.map restoredCookie).filter
      (fun c => !cookieExpired c.toCapturedCookie nowEpoch) }

theorem sessionFromJson_toJson (nowEpoch : Int) (s : JarSession) :
    sessionFromJson nowEpoch (sessionToJson s) = restored nowEpoch s := by
  have hcookies : toArray ((sessionToJson s).toObject.value "cookies") =
      s.cookies.map (fun c => .object (cookieToJson c)) := rfl
  rw [sessionFromJson, hcookies, List.map_map]
  rfl

theorem import_length (arr : List QJsonValue) (nowEpoch : Int) (jar : Jar) :
    (arr.foldl (importSession nowEpoch) jar).keys.length ≤ jar.keys.length + arr.length := by
  induction arr generalizing jar with
  | nil => exact Nat.le_refl _
  | cons v arr ih =>
    have hone : (importSession nowEpoch jar v).keys.length ≤ jar.keys.length + 1 := by
      rw [importSession]
      split
      · exact Nat.le_succ _
      · exact length_insert_le jar _ _
    have hrest := ih (importSession nowEpoch jar v)
    rw [List.foldl_cons, List.length_cons]
    omega

theorem import_lookup {arr : List QJsonValue} {jar : Jar}
    (h : (arr.foldl (importSession nowEpoch) jar).lookup key = some s) :
    (∃ v ∈ arr, s = sessionFromJson nowEpoch v ∧ key = s.host ∧ key ≠ []) ∨
      jar.lookup key = some s := by
  induction arr generalizing jar with
  | nil => exact .inr h
  | cons v arr ih =>
    rw [List.foldl_cons] at h
    rcases ih h with ⟨w, hw, hs⟩ | hl
    · exact .inl ⟨w, List.mem_cons_of_mem _ hw, hs⟩
    · rw [importSession] at hl
      split at hl
      · exact .inr hl
      · rename_i hne
        rcases lookup_insert_cases hl with ⟨hk, rfl⟩ | ⟨_, hl⟩
        · exact .inl ⟨v, List.mem_cons_self, rfl, hk, fun he => hne (by rw [← hk, he]; rfl)⟩
        · exact .inr hl

theorem import_mem (arr : List QJsonValue) (nowEpoch : Int) (jar : Jar) (key : QString) :
    key ∈ arr.foldl (importSession nowEpoch) jar ↔ key ∈ jar ∨
      ∃ v ∈ arr, (sessionFromJson nowEpoch v).host = key ∧ key ≠ [] := by
  induction arr generalizing jar with
  | nil =>
    constructor
    · exact .inl
    · intro h
      rcases h with h | ⟨v, hv, _⟩
      · exact h
      · exact absurd hv List.not_mem_nil
  | cons v arr ih =>
    have hone : key ∈ importSession nowEpoch jar v ↔
        key ∈ jar ∨ ((sessionFromJson nowEpoch v).host = key ∧ key ≠ []) := by
      rw [importSession]
      split
      · rename_i he
        constructor
        · exact .inl
        · intro h
          rcases h with h | ⟨h, hne⟩
          · exact h
          · exact absurd (h ▸ List.isEmpty_iff.1 he) hne
      · rename_i hne
        rw [AList.mem_insert]
        constructor
        · intro h
          rcases h with h | h
          · refine .inr ⟨h.symm, ?_⟩
            intro hk
            apply hne
            rw [← h, hk]
            rfl
          · exact .inl h
        · intro h
          rcases h with h | h
          · exact .inr h
          · exact .inl h.1.symm
    rw [List.foldl_cons, ih, hone, List.exists_mem_cons_iff, or_assoc]

theorem entries_iff (O : HashOrder) (jar : Jar) (key : QString) (s : JarSession) :
    ⟨key, s⟩ ∈ O.entries jar ↔ jar.lookup key = some s := by
  rw [(O.perm jar).mem_iff]
  exact AList.mem_lookup_iff.symm

def reloaded (O : HashOrder) (jar : Jar) (nowEpoch : Int) : Jar :=
  importJson (exportJson O jar) nowEpoch

theorem reloaded_lookup (h : (reloaded O jar nowEpoch).lookup key = some t) :
    ∃ k s, jar.lookup k = some s ∧ t = restored nowEpoch s ∧ key = s.host ∧ key ≠ [] := by
  rcases import_lookup h with ⟨v, hv, ht, hk, hne⟩ | hl
  · obtain ⟨entry, he, hv⟩ := List.mem_map.1 hv
    have hs := (entries_iff O jar entry.1 entry.2).1 he
    rw [← hv, sessionFromJson_toJson] at ht
    refine ⟨entry.1, entry.2, hs, ht, ?_, hne⟩
    rw [hk, ht]
    rfl
  · rw [AList.lookup_empty] at hl
    cases hl

theorem reloaded_mem (O : HashOrder) (jar : Jar) (nowEpoch : Int) (key : QString) :
    key ∈ reloaded O jar nowEpoch ↔ ∃ k s, jar.lookup k = some s ∧ s.host = key ∧ key ≠ [] := by
  rw [reloaded, importJson, import_mem]
  constructor
  · intro h
    rcases h with h | ⟨v, hv, hk⟩
    · exact absurd h (AList.notMem_empty key)
    · obtain ⟨entry, he, hv⟩ := List.mem_map.1 hv
      rw [← hv, sessionFromJson_toJson] at hk
      exact ⟨entry.1, entry.2, (entries_iff O jar entry.1 entry.2).1 he, hk⟩
  · intro h
    obtain ⟨k, s, hl, hk⟩ := h
    refine .inr ⟨sessionToJson s, ?_, ?_⟩
    · exact List.mem_map.2 ⟨⟨k, s⟩, (entries_iff O jar k s).2 hl, rfl⟩
    · rw [sessionFromJson_toJson]
      exact hk

theorem reloaded_length (O : HashOrder) (jar : Jar) (nowEpoch : Int) :
    (reloaded O jar nowEpoch).keys.length ≤ jar.keys.length := by
  have hlen := import_length (exportJson O jar) nowEpoch ∅
  have hkeys : jar.keys.length = jar.entries.length := List.length_map _
  rw [AList.keys_empty, List.length_nil, exportJson, List.length_map,
    (O.perm jar).length_eq] at hlen
  rw [reloaded, importJson, exportJson]
  omega

end Nullock.SessionManager

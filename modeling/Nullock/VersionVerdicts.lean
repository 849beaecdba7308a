import Nullock.VersionTexts

namespace Nullock.ServiceVulns

def judged (hits : List CveHit) : List (QString × Bool) :=
  hits.map (fun h => (h.cveId, h.precise))

section Compare

theorem numsCmp_self (xs : List Int) : numsCmp xs xs = 0 := by
  induction xs with
  | nil => rfl
  | cons x xs ih =>
    rw [numsCmp, List.headD_cons, if_neg (fun hne => hne rfl)]
    exact ih

theorem numsCmp_head (h : numsCmp (x :: xs) (y :: ys) = 0) : x = y := by
  rw [numsCmp, List.headD_cons] at h
  split at h
  · split at h
    · cases h
    · cases h
  · rename_i heq
    exact not_not.1 heq

theorem isTruncated_self (xs : List Int) : isTruncated xs xs = false := by
  rw [isTruncated, decide_eq_false (Nat.lt_irrefl _), Bool.false_and]

theorem isTruncated_append (xs : List Int) (h : ys ≠ []) : isTruncated xs (xs ++ ys) = true := by
  have hlength : xs.length < (xs ++ ys).length := by
    rw [List.length_append]
    exact Nat.lt_add_of_pos_right (List.length_pos_iff.2 h)
  rw [isTruncated, decide_eq_true hlength, Bool.true_and, List.isPrefixOf_iff_prefix]
  exact List.prefix_append xs ys

variable (C : CharLibrary)

theorem verCmp_self (v : QString) : verCmp C v v = 0 := by
  rw [verCmp, numsCmp_self, if_neg (fun h => h rfl), if_neg (fun h => h rfl),
    if_neg (fun h => h rfl)]

theorem verCmp_zero (h : verCmp C a b = 0) :
    numsCmp (parseVer C a).nums (parseVer C b).nums = 0 ∧
      (parseVer C a).stage = (parseVer C b).stage ∧
      (parseVer C a).stageKey = (parseVer C b).stageKey := by
  rw [verCmp] at h
  split at h
  · rename_i hnums
    exact absurd h hnums
  · rename_i hnums
    split at h
    · split at h
      · cases h
      · cases h
    · rename_i hstage
      split at h
      · split at h
        · cases h
        · cases h
      · rename_i hkey
        exact ⟨not_not.1 hnums, not_not.1 hstage, not_not.1 hkey⟩

theorem evalCve_congr (h : parseVer C a = parseVer C b) (minVer maxVer : QString) (exact : Bool) :
    evalCve C a minVer maxVer exact = evalCve C b minVer maxVer exact := by
  unfold evalCve truncatedForExact truncatedAgainst verCmp verNums
  rw [h]

theorem evalCve_exact (hb : b ≠ []) : evalCve C a b [] true = ⟨true, true⟩ ↔
    isTruncated (verNums C a) (verNums C b) = false ∧ verCmp C a b = 0 := by
  have hverdict : evalCve C a b [] true =
      if isTruncated (verNums C a) (verNums C b) = true then ⟨true, false⟩
      else ⟨verCmp C a b == 0, true⟩ := by
    rw [evalCve, if_pos rfl, truncatedForExact, List.isEmpty_eq_false_iff.2 hb,
      if_neg Bool.false_ne_true]
  rw [hverdict]
  split
  · rename_i htrunc
    rw [htrunc, Verdict.mk.injEq]
    exact ⟨fun h => absurd h.2 Bool.false_ne_true, fun h => absurd h.1.symm Bool.false_ne_true⟩
  · rename_i htrunc
    rw [Verdict.mk.injEq, beq_iff_eq]
    exact ⟨fun h => ⟨Bool.eq_false_iff.2 htrunc, h.1⟩, fun h => ⟨h.2, rfl⟩⟩

end Compare

section Hits
variable (C : CharLibrary)

theorem tableHits_congr (h : parseVer C a = parseVer C b) (product : QString) :
    judged (tableHits C product a) = judged (tableHits C product b) := by
  rw [judged, judged, tableHits, tableHits, List.map_filterMap, List.map_filterMap]
  apply List.filterMap_congr
  intro c _
  dsimp only
  rw [evalCve_congr C h]
  split
  · rfl
  · split
    · rfl
    · rfl

theorem overlayHits_congr (h : parseVer C a = parseVer C b) (product : QString)
    (seenCve : List QString) (overlay : List ServiceCve) :
    judged (overlayHits C product a seenCve overlay) =
      judged (overlayHits C product b seenCve overlay) := by
  induction overlay generalizing seenCve with
  | nil => rfl
  | cons c overlay ih =>
    rw [overlayHits, overlayHits, evalCve_congr C h]
    split
    · exact ih _
    · split
      · exact ih _
      · dsimp only
        split
        · exact ih _
        · exact congrArg (_ :: ·) (ih _)

theorem seen_eq (hits : List CveHit) :
    hits.map (fun h => C.toLower h.cveId) = (judged hits).map (fun h => C.toLower h.1) := by
  rw [judged, List.map_map]
  rfl

theorem judged_congr (h : parseVer C a = parseVer C b) (ha : a.any isDigit = true)
    (hb : b.any isDigit = true) (overlay : List ServiceCve) (product : QString) :
    judged (matchVersion C overlay product a) = judged (matchVersion C overlay product b) := by
  have hfull {s : QString} (hs : s.any isDigit = true) : s.isEmpty = false := by
    cases s with
    | nil => cases hs
    | cons c s => rfl
  have happend (xs ys : List CveHit) : judged (xs ++ ys) = judged xs ++ judged ys :=
    List.map_append
  rw [matchVersion, matchVersion, ha, hb, hfull ha, hfull hb]
  split
  · rfl
  · dsimp only
    rw [Bool.not_true, if_neg nofun, if_neg nofun, happend, happend, tableHits_congr C h, seen_eq,
      seen_eq, tableHits_congr C h, overlayHits_congr C h]

theorem table_named (h : hit ∈ tableHits C product version) :
    hit.cveId ≠ [] ∧ C.toLower hit.cveId ≠ [] := by
  have hids : table.all (fun c => !c.cveId.isEmpty && c.cveId.all (fun d => d < 0x80)) = true := by
    decide
  obtain ⟨c, hc, hsome⟩ := List.mem_filterMap.1 h
  have hid : hit.cveId = c.cveId := by
    dsimp only at hsome
    split at hsome
    · cases hsome
    · split at hsome
      · cases hsome
      · cases hsome
        rfl
  obtain ⟨hne, hascii⟩ := Bool.and_eq_true_iff.1 (List.all_eq_true.1 hids c hc)
  have hne := List.isEmpty_eq_false_iff.1 ((Bool.not_eq_true' _).mp hne)
  rw [hid, C.toLower_ascii c.cveId (fun d hd => of_decide_eq_true (List.all_eq_true.1 hascii d hd))]
  exact ⟨hne, fun hnil => hne (List.map_eq_nil_iff.1 hnil)⟩

def onlyVersion (product version : QString) : List ServiceCve := [⟨product, [], version, [], true⟩]

theorem onlyVersion_hits (hproduct : product ≠ []) (ha : a.any isDigit = true) :
    ([], true) ∈ judged (matchVersion C (onlyVersion product b) product a) ↔
      evalCve C a b [] true = ⟨true, true⟩ := by
  have hfull : a.isEmpty = false := by
    cases a with
    | nil => cases ha
    | cons c s => rfl
  have hsame : sameProduct C product product = true := beq_self_eq_true _
  have hnone : ([], true) ∉ judged (tableHits C product a) := by
    intro hmem
    obtain ⟨hit, hhit, heq⟩ := List.mem_map.1 hmem
    exact (table_named C hhit).1 (Prod.mk.inj heq).1
  have hlow : C.toLower [] = [] := C.toLower_ascii [] (fun c hc => absurd hc List.not_mem_nil)
  have hfresh : ((tableHits C product a).map (fun h => C.toLower h.cveId)).contains
      (C.toLower []) = false := by
    apply Bool.eq_false_iff.2
    intro hcontains
    obtain ⟨hit, hhit, heq⟩ := List.mem_map.1 (List.contains_iff_mem.1 hcontains)
    exact (table_named C hhit).2 (heq.trans hlow)
  have hhits : matchVersion C (onlyVersion product b) product a =
      tableHits C product a ++ (if (evalCve C a b [] true).affected = false then [] else
        [⟨product, a, [], (evalCve C a b [] true).precise⟩]) := by
    rw [matchVersion, List.isEmpty_eq_false_iff.2 hproduct, hfull, ha]
    dsimp only
    rw [onlyVersion, overlayHits, hsame, hfresh, overlayHits]
    dsimp only
    cases (evalCve C a b [] true).affected with
    | false => rfl
    | true => rfl
  rw [hhits]
  have hiff : ([], true) ∈ judged (tableHits C product a ++
      (if (evalCve C a b [] true).affected = false then [] else
        [⟨product, a, [], (evalCve C a b [] true).precise⟩])) ↔
      ([], true) ∈ judged (if (evalCve C a b [] true).affected = false then [] else
        [⟨product, a, [], (evalCve C a b [] true).precise⟩]) := by
    rw [judged, List.map_append, List.mem_append]
    exact ⟨fun h => h.resolve_left hnone, .inr⟩
  rw [hiff]
  obtain ⟨affected, precise⟩ := evalCve C a b [] true
  cases affected with
  | false => exact ⟨fun h => absurd h List.not_mem_nil, nofun⟩
  | true =>
    constructor
    · intro h
      cases (Prod.mk.inj (List.mem_singleton.1 h)).2
      rfl
    · intro h
      cases h
      exact List.mem_singleton.2 rfl

theorem judged_equal (hproduct : product ≠ []) (ha : a.any isDigit = true)
    (hb : b.any isDigit = true)
    (h : ∀ overlay, judged (matchVersion C overlay product a) =
      judged (matchVersion C overlay product b)) :
    isTruncated (verNums C a) (verNums C b) = false ∧ verCmp C a b = 0 := by
  have hne : b ≠ [] := by
    rintro rfl
    cases hb
  apply (evalCve_exact C hne).1
  apply (onlyVersion_hits C hproduct ha).1
  rw [h]
  apply (onlyVersion_hits C hproduct hb).2
  exact (evalCve_exact C hne).2 ⟨isTruncated_self _, verCmp_self C b⟩

theorem judged_nonempty (hproduct : product ≠ []) (hb : b.any isDigit = true) :
    judged (matchVersion C (onlyVersion product b) product b) ≠ [] := by
  have hne : b ≠ [] := by
    rintro rfl
    cases hb
  apply List.ne_nil_of_mem
  exact (onlyVersion_hits C hproduct hb).2
    ((evalCve_exact C hne).2 ⟨isTruncated_self _, verCmp_self C b⟩)

end Hits

end Nullock.ServiceVulns

import Nullock.Enumerations
import Nullock.IntruderEngine

/-! The loops that enumerate an attack, over payloads that may be null. -/

namespace Nullock.IntruderEngine.Loops

section Definitions

def setAt (sets : List Combo) (p : Nat) : Combo := sets.getD p []

def batteringRam (positions : Nat) (sets : List Combo) (maxResults : Nat) : List Combo :=
  pushUntil maxResults [] ((setAt sets 0).map (List.replicate positions))

def sniperFrom (row : Nat → List Combo) (maxResults : Nat) (out : List Combo) :
    List Nat → List Combo
  | [] => out
  | pos :: rest =>
    if out.length < maxResults then
      sniperFrom row maxResults (pushUntil maxResults out (row pos)) rest
    else out

def sniper (positions : Nat) (sets : List Combo) (maxResults : Nat) : List Combo :=
  let row pos := (setAt sets 0).map (fun p => (List.replicate positions none).set pos p)
  sniperFrom row maxResults [] (List.range positions)

def shorter (minLen : Int) (s : Combo) : Int :=
  if s.length = 0 then minLen
  else if minLen < 0 ∨ s.length < minLen then s.length
  else minLen

def pitchforkFrom (sets : List Combo) (maxResults : Nat) (out : List Combo) :
    List Nat → List Combo
  | [] => out
  | k :: rest =>
    if out.length < maxResults then
      pitchforkFrom sets maxResults (out ++ [sets.map (fun s => s[k]?.join)]) rest
    else out

def pitchfork (positions : Nat) (sets : List Combo) (maxResults : Nat) : List Combo :=
  let sets := (List.range positions).map (setAt sets)
  let minLen := sets.foldl shorter (-1)
  if minLen < 0 then [] else pitchforkFrom sets maxResults [] (List.range minLen.toNat)

/-- The combinations from a place of the odometer on, with room for some more. -/
def clusterBombFrom (sets : List Combo) : Nat → List Nat → List Combo
  | 0, _ => []
  | room + 1, idx =>
    List.zipWith (fun s i => if s.isEmpty then none else s[i]?.join) sets idx ::
      match advance (sets.map List.length) idx with
      | some idx' => clusterBombFrom sets room idx'
      | none => []

def clusterBomb (positions : Nat) (sets : List Combo) (maxResults : Nat) : List Combo :=
  let sets := (List.range positions).map (setAt sets)
  if sets.any (!·.isEmpty) then clusterBombFrom sets maxResults (sets.map (fun _ => 0)) else []

def generateCombinations (type : AttackType) (positions : Int) (sets : List Combo)
    (maxResults : Int) : List Combo :=
  if positions ≤ 0 ∨ maxResults ≤ 0 then []
  else match type with
    | .batteringRam => batteringRam positions.toNat sets maxResults.toNat
    | .sniper => sniper positions.toNat sets maxResults.toNat
    | .pitchfork => pitchfork positions.toNat sets maxResults.toNat
    | .clusterBomb => clusterBomb positions.toNat sets maxResults.toNat

end Definitions

section Sequences

def shortest (sets : List Combo) : Option Nat := ((sets.map List.length).filter (· ≠ 0)).min?

/-- The combinations of an attack on positions with their payload sets, in order. -/
def sequence : AttackType → List Combo → List Combo
  | .batteringRam, sets => (sets.headD []).map (List.replicate sets.length)
  | .sniper, sets => (List.range sets.length).flatMap (fun pos =>
      (sets.headD []).map (fun p => (List.replicate sets.length none).set pos p))
  | .pitchfork, sets => (List.range ((shortest sets).getD 0)).map (fun k =>
      sets.map (fun s => s[k]?.join))
  | .clusterBomb, sets => tuples (sets.map (fun s => if s = [] then [none] else s))

theorem sniperFrom_eq (h : out.length ≤ maxResults) (row : Nat → List Combo) (ps : List Nat) :
    sniperFrom row maxResults out ps = (out ++ ps.flatMap row).take maxResults := by
  induction ps generalizing out with
  | nil =>
    rw [sniperFrom, List.flatMap_nil, List.append_nil, List.take_of_length_le h]
  | cons p ps ih =>
    rw [sniperFrom, List.flatMap_cons, ← List.append_assoc]
    by_cases hroom : out.length < maxResults
    · rw [if_pos hroom, pushUntil_eq hroom, ih (List.length_take_le _ _)]
      by_cases hfull : maxResults ≤ (out ++ row p).length
      · rw [List.take_append_of_le_length hfull, List.take_append_of_le_length]
        · rw [List.take_take, Nat.min_self]
        · rw [List.length_take_of_le hfull]
      · rw [List.take_of_length_le (Nat.le_of_not_le hfull)]
    · rw [if_neg hroom, List.append_assoc,
        List.take_left' (Nat.le_antisymm h (Nat.le_of_not_lt hroom))]

theorem pitchforkFrom_eq (h : out.length ≤ maxResults) (sets : List Combo) (ks : List Nat) :
    pitchforkFrom sets maxResults out ks =
      (out ++ ks.map (fun k => sets.map (fun s => s[k]?.join))).take maxResults := by
  induction ks generalizing out with
  | nil =>
    rw [pitchforkFrom, List.map_nil, List.append_nil, List.take_of_length_le h]
  | cons k ks ih =>
    rw [pitchforkFrom, List.map_cons]
    by_cases hroom : out.length < maxResults
    · have hlen : (out ++ [sets.map (fun s => s[k]?.join)]).length ≤ maxResults := by
        rw [List.length_append]
        exact hroom
      rw [if_pos hroom, ih hlen, List.append_assoc, List.singleton_append]
    · rw [if_neg hroom, List.take_left' (Nat.le_antisymm h (Nat.le_of_not_lt hroom))]

theorem foldl_shorter (sets : List Combo) (m : Nat) :
    sets.foldl shorter m = (((sets.map List.length).filter (· ≠ 0)).foldl min m : Nat) := by
  induction sets generalizing m with
  | nil => rfl
  | cons s sets ih =>
    rw [List.foldl_cons, List.map_cons, shorter]
    by_cases hzero : s.length = 0
    · rw [if_pos hzero, ih, List.filter_cons_of_neg (by simp [hzero])]
    · rw [if_neg hzero, List.filter_cons_of_pos (by simp [hzero]), List.foldl_cons, ← ih]
      congr 1
      split
      · rename_i hless
        have hle := hless.resolve_left (by omega)
        rw [Nat.min_eq_right (by omega)]
      · rename_i hmore
        rw [not_or] at hmore
        rw [Nat.min_eq_left (by omega)]

theorem foldl_shorter_start (sets : List Combo) :
    sets.foldl shorter (-1) = match shortest sets with
      | some n => (n : Int)
      | none => -1 := by
  induction sets with
  | nil => rfl
  | cons s sets ih =>
    rw [List.foldl_cons, shortest, List.map_cons, shorter]
    by_cases hzero : s.length = 0
    · rw [if_pos hzero, ih, List.filter_cons_of_neg (by simp [hzero])]
      rfl
    · rw [if_neg hzero, if_pos (.inl (by decide)), List.filter_cons_of_pos (by simp [hzero]),
        List.min?_cons', foldl_shorter]

def filled (s : Combo) : Combo := if s = [] then [none] else s

theorem filled_pos (s : Combo) : 0 < (filled s).length := by
  rw [filled]
  split
  · exact Nat.one_pos
  · exact List.length_pos_iff.2 (by assumption)

theorem filled_get (s : Combo) (i : Nat) :
    (if s.isEmpty then none else s[i]?.join) = (filled s)[i]?.join := by
  cases s with
  | nil =>
    cases i with
    | zero => rfl
    | succ i => rfl
  | cons p s => rfl

theorem advance_filled (sets : List Combo) (idx : List Nat) :
    advance (sets.map List.length) idx = advance ((sets.map filled).map List.length) idx := by
  induction sets generalizing idx with
  | nil => rfl
  | cons s sets ih =>
    cases idx with
    | nil => rfl
    | cons i idx =>
      have hlen : i + 1 < s.length ↔ i + 1 < (filled s).length := by
        cases s with
        | nil => exact iff_of_false (Nat.not_lt_zero _) (Nat.not_lt.2 (Nat.le_add_left 1 i))
        | cons p s => rfl
      rw [List.map_cons, List.map_cons, List.map_cons, advance, advance, ih]
      simp only [hlen]

theorem clusterBombFrom_eq (sets : List Combo) (room : Nat) (idx : List Nat) :
    clusterBombFrom sets room idx = (sweep ((sets.map filled).map List.length) room idx).map
      (List.zipWith (fun s i => s[i]?.join) (sets.map filled)) := by
  induction room generalizing idx with
  | zero => rfl
  | succ room ih =>
    have hcombo : List.zipWith (fun s i => if s.isEmpty then none else s[i]?.join) sets idx =
        List.zipWith (fun s i => s[i]?.join) (sets.map filled) idx := by
      rw [List.zipWith_map_left]
      simp only [filled_get]
    rw [clusterBombFrom, sweep, List.map_cons, hcombo, advance_filled]
    congr 1
    cases advance ((sets.map filled).map List.length) idx with
    | some idx' => exact ih idx'
    | none => rfl

theorem clusterBombFrom_product (sets : List Combo) (maxResults : Nat) :
    clusterBombFrom sets maxResults (sets.map (fun _ => 0)) =
      (tuples (sets.map filled)).take maxResults := by
  have hpos : ∀ n ∈ (sets.map filled).map List.length, 0 < n := by
    intro n hn
    obtain ⟨s, hs, rfl⟩ := List.mem_map.1 hn
    obtain ⟨s', -, rfl⟩ := List.mem_map.1 hs
    exact filled_pos s'
  have hzero : sets.map (fun _ => 0) =
      ((sets.map filled).map List.length).map (fun _ => 0) := by
    rw [List.map_map, List.map_map]
    rfl
  have hjoin : List.zipWith (fun (s : Combo) (i : Nat) => s[i]?.join) (sets.map filled) =
      List.map Option.join ∘
        List.zipWith (fun (s : Combo) (i : Nat) => s[i]?) (sets.map filled) := by
    funext idx
    rw [Function.comp_apply, List.map_zipWith]
  rw [clusterBombFrom_eq, hzero, sweep_eq (placed_zero hpos), indicesFrom_zero hpos, List.map_take,
    hjoin, ← List.map_map, indices_elements, List.map_map]
  congr 1
  have hid : (List.map Option.join ∘ List.map some : Combo → Combo) = id := by
    funext c
    rw [Function.comp_apply, List.map_map]
    exact List.map_id c
  rw [hid, List.map_id]

end Sequences

section Attacks

def positionSets (positions : Nat) (sets : List Combo) : List Combo :=
  (List.range positions).map (setAt sets)

theorem length_positionSets (positions : Nat) (sets : List Combo) :
    (positionSets positions sets).length = positions := by
  rw [positionSets, List.length_map, List.length_range]

theorem headD_positionSets (h : 0 < positions) (sets : List Combo) :
    (positionSets positions sets).headD [] = setAt sets 0 := by
  obtain ⟨k, rfl⟩ := Nat.exists_eq_add_one.2 h
  rw [positionSets, List.range_succ_eq_map]
  rfl

def HasCombinations (type : AttackType) (sets : List Combo) : Prop :=
  0 < sets.length ∧ (type = .clusterBomb → ∃ s ∈ sets, s ≠ [])

instance (type : AttackType) (sets : List Combo) : Decidable (HasCombinations type sets) :=
  inferInstanceAs (Decidable (_ ∧ _))

theorem generateCombinations_sequence (type : AttackType) (positions : Nat) (sets : List Combo)
    (maxResults : Nat) (h : HasCombinations type (positionSets positions sets)) :
    generateCombinations type positions sets maxResults =
      (sequence type (positionSets positions sets)).take maxResults := by
  obtain ⟨hpos, hbomb⟩ := h
  rw [length_positionSets] at hpos
  unfold generateCombinations
  by_cases hmax : maxResults = 0
  · rw [if_pos (.inr (by omega)), hmax, List.take_zero]
  · have hroom : ([] : List Combo).length < maxResults := Nat.pos_of_ne_zero hmax
    rw [if_neg (by omega), Int.toNat_natCast, Int.toNat_natCast]
    cases type with
    | batteringRam =>
      dsimp only
      rw [batteringRam, pushUntil_eq hroom, sequence, headD_positionSets hpos,
        length_positionSets, List.nil_append]
    | sniper =>
      dsimp only
      rw [sniper, sniperFrom_eq (Nat.le_of_lt hroom), sequence, headD_positionSets hpos,
        length_positionSets, List.nil_append]
    | pitchfork =>
      dsimp only
      rw [pitchfork, sequence]
      rw [← positionSets, foldl_shorter_start]
      cases shortest (positionSets positions sets) with
      | none =>
        dsimp only
        rw [if_pos (by decide), Option.getD_none, List.range_zero, List.map_nil, List.take_nil]
      | some n =>
        dsimp only
        rw [if_neg (Int.not_lt.2 (Int.natCast_nonneg n)), pitchforkFrom_eq (Nat.le_of_lt hroom), Int.toNat_natCast,
          Option.getD_some, List.nil_append]
    | clusterBomb =>
      dsimp only
      obtain ⟨s, hs, hne⟩ := hbomb rfl
      have hany : (positionSets positions sets).any (!·.isEmpty) = true :=
        List.any_eq_true.2 ⟨s, hs, by rw [Bool.not_eq_true', List.isEmpty_eq_false_iff]; exact hne⟩
      rw [clusterBomb, sequence]
      rw [← positionSets, if_pos hany, clusterBombFrom_product]
      rfl

theorem generateCombinations_nothing (type : AttackType) (positions : Nat) (sets : List Combo)
    (maxResults : Int) (h : ¬ HasCombinations type (positionSets positions sets)) :
    generateCombinations type positions sets maxResults = [] := by
  rw [HasCombinations, length_positionSets, not_and_or] at h
  unfold generateCombinations
  split
  · rfl
  · rename_i hrun
    obtain ⟨hpos, -⟩ := not_or.1 hrun
    have hbomb := h.resolve_left (by omega)
    rw [Classical.not_imp] at hbomb
    obtain ⟨rfl, hnone⟩ := hbomb
    dsimp only
    rw [clusterBomb, Int.toNat_natCast]
    rw [← positionSets, if_neg]
    intro hany
    obtain ⟨s, hs, hne⟩ := List.any_eq_true.1 hany
    rw [Bool.not_eq_true', List.isEmpty_eq_false_iff] at hne
    exact hnone ⟨s, hs, hne⟩

theorem generateCombinations_toNat (type : AttackType) (positions : Int) (sets : List Combo)
    (maxResults : Int) :
    generateCombinations type (positions.toNat : Int) sets (maxResults.toNat : Int) =
      generateCombinations type positions sets maxResults := by
  unfold generateCombinations
  rw [Int.toNat_natCast, Int.toNat_natCast]
  have hguard : ((positions.toNat : Int) ≤ 0 ∨ (maxResults.toNat : Int) ≤ 0) ↔
      (positions ≤ 0 ∨ maxResults ≤ 0) := by omega
  simp only [hguard]

end Attacks

end Nullock.IntruderEngine.Loops

namespace Nullock.IntruderEngine

section Agreement

def present (sets : List (List QString)) : List Combo := sets.map (List.map some)

theorem setAt_present (sets : List (List QString)) (p : Nat) :
    Loops.setAt (present sets) p = (setAt sets p).map some := by
  rw [Loops.setAt, setAt, List.getD_eq_getElem?_getD, List.getD_eq_getElem?_getD, present,
    List.getElem?_map]
  cases sets[p]? with
  | none => rfl
  | some s => rfl

theorem positionSets_present (positions : Nat) (sets : List (List QString)) :
    Loops.positionSets positions (present sets) =
      present ((List.range positions).map (setAt sets)) := by
  have hmap : present ((List.range positions).map (setAt sets)) =
      (List.range positions).map (fun p => (setAt sets p).map some) := by
    rw [present, List.map_map]
    rfl
  rw [hmap, Loops.positionSets]
  apply List.map_congr_left
  intro p _
  exact setAt_present sets p

theorem lengths_present (sets : List (List QString)) :
    (present sets).map List.length = sets.map List.length := by
  rw [present, List.map_map]
  apply List.map_congr_left
  intro s _
  exact List.length_map some

theorem get_present (s : List QString) (k : Nat) : (s.map some)[k]?.join = s[k]? := by
  rw [List.getElem?_map]
  cases s[k]? with
  | none => rfl
  | some p => rfl

theorem odometer_eq (sets : List (List QString)) (idx : List Nat) :
    odometer sets idx = advance (sets.map List.length) idx := by
  induction sets generalizing idx with
  | nil => rfl
  | cons s sets ih =>
    cases idx with
    | nil => rfl
    | cons i idx =>
      cases hnext : advance (sets.map List.length) idx with
      | some idx' => rw [odometer, ih, hnext, List.map_cons, advance, hnext]
      | none => rw [odometer, ih, hnext, List.map_cons, advance, hnext]

theorem clusterBombFrom_eq (sets : List (List QString)) (limit : Nat) (idx : List Nat) :
    clusterBombFrom sets limit idx = Loops.clusterBombFrom (present sets) limit idx := by
  induction limit generalizing idx with
  | zero => rfl
  | succ limit ih =>
    have hget (s : List QString) (i : Nat) :
        (if (s.map some).isEmpty then none else (s.map some)[i]?.join) = s[i]? := by
      rw [get_present]
      cases s with
      | nil => rfl
      | cons p s => rfl
    have hcombo : List.zipWith (fun (s : Combo) (i : Nat) =>
        if s.isEmpty then none else s[i]?.join) (present sets) idx =
        List.zipWith (fun s i => s[i]?) sets idx := by
      rw [present, List.zipWith_map_left]
      simp only [hget]
    rw [clusterBombFrom, Loops.clusterBombFrom, hcombo, odometer_eq, lengths_present]
    congr 1
    cases advance (sets.map List.length) idx with
    | some idx' => exact ih idx'
    | none => rfl

theorem sequence_batteringRam (positions : Nat) (sets : List (List QString)) :
    batteringRam positions sets = (Loops.setAt (present sets) 0).map (List.replicate positions) := by
  rw [setAt_present, List.map_map]
  rfl

theorem sequence_pitchfork (positions : Nat) (sets : List (List QString)) :
    pitchfork positions sets =
      Loops.sequence .pitchfork (Loops.positionSets positions (present sets)) := by
  have hshort : Loops.shortest (Loops.positionSets positions (present sets)) =
      minLen positions sets := by
    rw [Loops.shortest, positionSets_present, lengths_present, minLen, List.map_map]
    congr 1
    apply List.filter_congr
    intro n _
    exact (Bool.eq_iff_iff.2 (by simp))
  rw [Loops.sequence, hshort, pitchfork]
  cases minLen positions sets with
  | none => rfl
  | some n =>
    rw [Option.getD_some]
    apply List.map_congr_left
    intro k _
    rw [positionSets_present, present, List.map_map, List.map_map]
    apply List.map_congr_left
    intro p _
    exact (get_present (setAt sets p) k).symm

theorem sequence_sniper (positions : Nat) (sets : List (List QString)) :
    sniper positions sets = (List.range positions).flatMap (fun pos =>
      (Loops.setAt (present sets) 0).map (fun p => (List.replicate positions none).set pos p)) := by
  rw [setAt_present, sniper]
  simp only [List.map_map]
  rfl

theorem clusterBomb_loops (positions : Nat) (sets : List (List QString)) (maxResults : Nat) :
    clusterBomb positions sets maxResults =
      Loops.clusterBomb positions (present sets) maxResults := by
  have hempty (s : List QString) : (s.map some).isEmpty = s.isEmpty := by
    cases s with
    | nil => rfl
    | cons p s => rfl
  have hany (ss : List (List QString)) :
      (present ss).any (!·.isEmpty) = !ss.all (·.isEmpty) := by
    induction ss with
    | nil => rfl
    | cons s ss ih =>
      rw [present, List.map_cons, List.any_cons, List.all_cons, hempty, ← present, ih, Bool.not_and]
  have hzero (ss : List (List QString)) :
      (present ss).map (fun _ => 0) = ss.map (fun _ => 0) := by
    rw [present, List.map_map]
    rfl
  rw [clusterBomb, Loops.clusterBomb]
  rw [← Loops.positionSets, positionSets_present, hany, hzero, clusterBombFrom_eq]
  cases ((List.range positions).map (setAt sets)).all (·.isEmpty) with
  | true => rfl
  | false => rfl

theorem generateCombinations_loops (type : AttackType) (positions : Nat)
    (sets : List (List QString)) (maxResults : Nat) :
    generateCombinations type positions sets maxResults =
      Loops.generateCombinations type positions (present sets) maxResults := by
  by_cases hbomb : type = .clusterBomb
  · rw [hbomb]
    show clusterBomb positions sets maxResults = _
    rw [clusterBomb_loops]
    unfold Loops.generateCombinations
    split
    · rename_i hnone
      rw [Loops.clusterBomb]
      rcases hnone with hpos | hmax
      · rw [show positions = 0 by omega]
        rfl
      · rw [show maxResults = 0 by omega]
        split
        · rfl
        · rfl
    · rfl
  · by_cases hpos : positions = 0
    · have hnone : ¬ Loops.HasCombinations type (Loops.positionSets 0 (present sets)) :=
        fun h => Nat.lt_irrefl 0 h.1
      rw [hpos, Loops.generateCombinations_nothing type 0 _ _ hnone]
      cases type with
      | clusterBomb => exact absurd rfl hbomb
      | batteringRam => rfl
      | sniper => exact List.take_nil
      | pitchfork => exact List.take_nil
    · have hlen := Loops.length_positionSets positions (present sets)
      have hhead := Loops.headD_positionSets (Nat.pos_of_ne_zero hpos) (present sets)
      rw [Loops.generateCombinations_sequence type positions (present sets) maxResults
        ⟨hlen.symm ▸ Nat.pos_of_ne_zero hpos, fun h => absurd h hbomb⟩]
      cases type with
      | clusterBomb => exact absurd rfl hbomb
      | batteringRam =>
        rw [Loops.sequence, hlen, hhead, ← sequence_batteringRam]
        exact if_neg hpos
      | sniper =>
        rw [Loops.sequence, hlen, hhead, ← sequence_sniper]
        rfl
      | pitchfork =>
        rw [← sequence_pitchfork]
        rfl

end Agreement

section Templates

def templateText (pieces : List (QString × QString)) (rest : QString) : QString :=
  pieces.flatMap (fun p => p.1 ++ kMarker :: (p.2 ++ [kMarker])) ++ rest

/-- The signs of the markers are all that there are, but for one that is not closed. -/
structure Parted (pieces : List (QString × QString)) (rest : QString) : Prop where
  plain : ∀ p ∈ pieces, kMarker ∉ p.1 ∧ kMarker ∉ p.2
  unclosed : rest.count kMarker ≤ 1

/-- The template with a value for each marker; the default stands where there is none. -/
def filledText : List (QString × QString) → QString → Combo → QString
  | [], rest, _ => rest
  | p :: pieces, rest, combo =>
    p.1 ++ combo.head?.join.getD p.2 ++ filledText pieces rest combo.tail

theorem findMarkersFrom_plain (h : kMarker ∉ l) (i : Nat) (s : QString) :
    findMarkersFrom i none (l ++ s) = findMarkersFrom (i + l.length) none s := by
  induction l generalizing i with
  | nil => rfl
  | cons c l ih =>
    obtain ⟨hc, hl⟩ := not_or.1 (mt List.mem_cons.2 h)
    rw [List.cons_append, findMarkersFrom, if_neg (fun he => hc he.symm), ih hl, List.length_cons,
      Nat.add_assoc, Nat.add_comm 1]

theorem findMarkersFrom_open (h : kMarker ∉ d) (i start : Nat) (text s : QString) :
    findMarkersFrom i (some (start, text)) (d ++ s) =
      findMarkersFrom (i + d.length) (some (start, text ++ d)) s := by
  induction d generalizing i text with
  | nil => rw [List.nil_append, List.append_nil]; rfl
  | cons c d ih =>
    obtain ⟨hc, hd⟩ := not_or.1 (mt List.mem_cons.2 h)
    rw [List.cons_append, findMarkersFrom, if_neg (fun he => hc he.symm), ih hd, List.length_cons,
      List.append_assoc, Nat.add_assoc, Nat.add_comm 1]
    rfl

theorem findMarkersFrom_piece (hl : kMarker ∉ l) (hd : kMarker ∉ d) (i : Nat) (s : QString) :
    findMarkersFrom i none (l ++ kMarker :: (d ++ kMarker :: s)) =
      ⟨i + l.length, d.length + 2, d⟩ ::
        findMarkersFrom (i + l.length + (d.length + 2)) none s := by
  rw [findMarkersFrom_plain hl, findMarkersFrom, if_pos rfl, findMarkersFrom_open hd,
    findMarkersFrom, if_pos rfl, List.nil_append]
  have hlen : i + l.length + 1 + d.length + 1 - (i + l.length) = d.length + 2 := by omega
  have hend : i + l.length + 1 + d.length + 1 = i + l.length + (d.length + 2) := by omega
  rw [hlen, hend]

theorem findMarkersFrom_rest (h : s.count kMarker ≤ 1) (i : Nat) :
    findMarkersFrom i none s = [] := by
  by_cases hmem : kMarker ∈ s
  · obtain ⟨a, b, rfl, ha⟩ := List.eq_append_cons_of_mem hmem
    have hb : kMarker ∉ b := by
      intro hb
      have hpos := List.count_pos_iff.2 hb
      rw [List.count_append, List.count_cons_self] at h
      omega
    have hopen := findMarkersFrom_open hb (i + a.length + 1) (i + a.length) [] []
    rw [List.append_nil] at hopen
    rw [findMarkersFrom_plain ha, findMarkersFrom, if_pos rfl, hopen]
    rfl
  · have hplain := findMarkersFrom_plain hmem i []
    rw [List.append_nil] at hplain
    rw [hplain]
    rfl

theorem templateText_cons (p : QString × QString) (pieces : List (QString × QString))
    (rest : QString) : templateText (p :: pieces) rest =
      p.1 ++ kMarker :: (p.2 ++ kMarker :: templateText pieces rest) := by
  rw [templateText, List.flatMap_cons, List.append_assoc, List.append_assoc, List.cons_append,
    List.append_assoc]
  rfl

theorem applyPayloadsFrom_parted (h : Parted pieces rest) (front : QString) (combo : Combo) :
    applyPayloadsFrom (front ++ templateText pieces rest) front.length
        (findMarkersFrom front.length none (templateText pieces rest)) combo =
      filledText pieces rest combo := by
  induction pieces generalizing front combo with
  | nil =>
    have hrest : templateText [] rest = rest := rfl
    rw [hrest, findMarkersFrom_rest h.unclosed, applyPayloadsFrom, List.drop_left, filledText]
  | cons p pieces ih =>
    have hp := h.plain p List.mem_cons_self
    have hnext : Parted pieces rest :=
      ⟨fun q hq => h.plain q (List.mem_cons_of_mem p hq), h.unclosed⟩
    have hfront : front ++ templateText (p :: pieces) rest =
        (front ++ p.1 ++ kMarker :: (p.2 ++ [kMarker])) ++ templateText pieces rest := by
      rw [templateText_cons, List.append_assoc, List.append_assoc, List.cons_append,
        List.append_assoc]
      rfl
    have hlen : front.length + p.1.length + (p.2.length + 2) =
        (front ++ p.1 ++ kMarker :: (p.2 ++ [kMarker])).length := by
      rw [List.length_append, List.length_append, List.length_cons, List.length_append,
        List.length_singleton]
    have hbetween : ((front ++ templateText (p :: pieces) rest).drop front.length).take
        (front.length + p.1.length - front.length) = p.1 := by
      rw [List.drop_left, templateText_cons, Nat.add_sub_cancel_left, List.take_left]
    have hmarkers := findMarkersFrom_piece hp.1 hp.2 front.length (templateText pieces rest)
    rw [← templateText_cons p pieces rest, hlen] at hmarkers
    rw [hmarkers, applyPayloadsFrom]
    dsimp only
    rw [hbetween, hlen, hfront, ih hnext, filledText]

theorem exists_parted (templ : QString) :
    ∃ pieces rest, Parted pieces rest ∧ templ = templateText pieces rest := by
  induction hn : templ.length using Nat.strongRecOn generalizing templ with
  | ind n ih =>
    by_cases hcount : templ.count kMarker ≤ 1
    · exact ⟨[], templ, ⟨nofun, hcount⟩, rfl⟩
    · have hmem : kMarker ∈ templ := List.count_pos_iff.1 (by omega)
      obtain ⟨l, s, rfl, hl⟩ := List.eq_append_cons_of_mem hmem
      have hsecond : kMarker ∈ s := by
        apply List.count_pos_iff.1
        rw [List.count_append, List.count_cons_self, List.count_eq_zero_of_not_mem hl] at hcount
        omega
      obtain ⟨d, t, rfl, hd⟩ := List.eq_append_cons_of_mem hsecond
      have hshort : t.length < n := by
        rw [← hn, List.length_append, List.length_cons, List.length_append, List.length_cons]
        omega
      obtain ⟨pieces, rest, hparted, rfl⟩ := ih t.length hshort t rfl
      have htext := (templateText_cons (l, d) pieces rest).symm
      refine ⟨(l, d) :: pieces, rest, ⟨?_, hparted.unclosed⟩, htext⟩
      intro p hp
      rcases List.mem_cons.1 hp with rfl | hp
      · exact ⟨hl, hd⟩
      · exact hparted.plain p hp

theorem applyPayloads_parted (h : Parted pieces rest) (combo : Combo) :
    applyPayloads (templateText pieces rest) combo = filledText pieces rest combo :=
  applyPayloadsFrom_parted h [] combo

end Templates

/-- An attack is its sequence's start, filled in marker by marker. -/
theorem attack_enumerated (type : AttackType) (positions : Int) (sets : List Combo)
    (maxResults : Int) (templ : QString) :
    Loops.generateCombinations type positions sets maxResults =
        (if Loops.HasCombinations type (Loops.positionSets positions.toNat sets) then
          (Loops.sequence type (Loops.positionSets positions.toNat sets)).take maxResults.toNat
        else []) ∧
      (∃ pieces rest, Parted pieces rest ∧ templ = templateText pieces rest) ∧
      ∀ pieces rest, Parted pieces rest → templ = templateText pieces rest →
        ∀ combo, applyPayloads templ combo = filledText pieces rest combo := by
  refine ⟨?_, exists_parted templ, ?_⟩
  · rw [← Loops.generateCombinations_toNat]
    split
    · rename_i h
      exact Loops.generateCombinations_sequence type positions.toNat sets maxResults.toNat h
    · rename_i h
      exact Loops.generateCombinations_nothing type positions.toNat sets _ h
  · rintro pieces rest h rfl combo
    exact applyPayloads_parted h combo

/-- Sets that are all empty have one combination, which the attack has not. -/
theorem empty_sets_no_combination :
    Loops.generateCombinations .clusterBomb 2 [[], []] 10 ≠
      (Loops.sequence .clusterBomb [[], []]).take 10 := by
  decide

end Nullock.IntruderEngine

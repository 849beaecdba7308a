import Nullock.ChainShape
import Nullock.EncodedTexts

namespace Nullock.ChainRunner

def IsName (name : QString) : Prop :=
  (∀ c ∈ name, isNameChar c = true) ∧ name.head?.any isNameStart = true

section Pieces
variable {α : Type} (unit : α → UInt16)

structure Placed (α : Type) where
  before : List α
  text : List α
  name : QString

def findToken : List α → Option (Placed α × List α)
  | [] => none
  | c :: s =>
    match tokenAt unit (c :: s) with
    | some (name, after) => some (⟨[], (c :: s).take (name.length + 4), name.map unit⟩, after)
    | none => (findToken s).map (fun p => ({ p.1 with before := c :: p.1.before }, p.2))

variable {unit}

theorem tokenAt_iff {s : List α} : tokenAt unit s = some (name, after) ↔
    ∃ a b c d, s = a :: b :: (name ++ c :: d :: after) ∧ unit a = 0x7B ∧ unit b = 0x7B ∧
      unit c = 0x7D ∧ unit d = 0x7D ∧ IsName (name.map unit) := by
  constructor
  · intro h
    rw [tokenAt.eq_def] at h
    split at h
    · rename_i a b rest
      split at h
      · rename_i hopen
        split at h
        · rename_i c d rest' hdrop
          dsimp only at h
          split at h
          · rename_i hclose
            cases h
            refine ⟨a, b, c, d, ?_, hopen.1, hopen.2, hclose.1, hclose.2.1, ?_, ?_⟩
            · rw [← hdrop, List.takeWhile_append_dropWhile]
            · intro x hx
              obtain ⟨y, hy, rfl⟩ := List.mem_map.1 hx
              exact List.mem_takeWhile_imp (p := fun c => isNameChar (unit c)) hy
            · rw [List.head?_map, Option.any_map]
              exact hclose.2.2
          · cases h
        · cases h
      · cases h
    · cases h
  · rintro ⟨a, b, c, d, rfl, ha, hb, hc, hd, hname, hstart⟩
    have hstop : isNameChar (unit c) = false := by
      rw [hc]
      rfl
    have hall : ∀ x ∈ name, isNameChar (unit x) = true := fun x hx =>
      hname _ (List.mem_map_of_mem hx)
    have htake : (name ++ c :: d :: after).takeWhile (fun c => isNameChar (unit c)) = name := by
      rw [takeWhile_stop (p := fun c => isNameChar (unit c)) hstop]
      exact List.takeWhile_eq_self_iff.2 hall
    have hdrop : (name ++ c :: d :: after).dropWhile (fun c => isNameChar (unit c)) =
        c :: d :: after := by
      rw [dropWhile_stop (p := fun c => isNameChar (unit c)) hstop,
        List.dropWhile_eq_nil_iff.2 hall]
      rfl
    rw [List.head?_map, Option.any_map] at hstart
    rw [tokenAt, if_pos ⟨ha, hb⟩]
    dsimp only
    rw [hdrop, htake]
    exact if_pos ⟨hc, hd, hstart⟩

theorem findToken_append {s : List α} (h : findToken unit s = some (p, after)) :
    s = p.before ++ (p.text ++ after) ∧ p.text.length = p.name.length + 4 := by
  induction s generalizing p with
  | nil => cases h
  | cons c s ih =>
    rw [findToken] at h
    split at h
    · rename_i name rest htoken
      cases h
      obtain ⟨a, b, e, d, hs, _⟩ := tokenAt_iff.1 htoken
      have htext : c :: s = (a :: b :: (name ++ [e, d])) ++ after := by
        rw [hs]
        simp
      have hlen : (a :: b :: (name ++ [e, d])).length = name.length + 4 := by simp
      have htake : (c :: s).take (name.length + 4) = a :: b :: (name ++ [e, d]) := by
        rw [htext, ← hlen, List.take_left]
      rw [htake, List.length_map]
      exact ⟨htext, hlen⟩
    · obtain ⟨q, hq, he⟩ := Option.map_eq_some_iff.1 h
      cases he
      obtain ⟨hs, hlen⟩ := ih hq
      exact ⟨congrArg (List.cons c) hs, hlen⟩

theorem findToken_text {s : List α} (h : findToken unit s = some (p, after)) :
    p.text.map unit = 0x7B :: 0x7B :: (p.name ++ [0x7D, 0x7D]) ∧ IsName p.name := by
  induction s generalizing p with
  | nil => cases h
  | cons c s ih =>
    rw [findToken] at h
    split at h
    · rename_i name rest htoken
      cases h
      obtain ⟨a, b, e, d, hs, ha, hb, he, hd, hname⟩ := tokenAt_iff.1 htoken
      have htext : c :: s = (a :: b :: (name ++ [e, d])) ++ after := by
        rw [hs]
        simp
      have hlen : (a :: b :: (name ++ [e, d])).length = name.length + 4 := by simp
      rw [htext, ← hlen, List.take_left, List.map_cons, List.map_cons, List.map_append,
        List.map_cons, List.map_cons, List.map_nil, ha, hb, he, hd]
      exact ⟨rfl, hname⟩
    · obtain ⟨q, hq, he⟩ := Option.map_eq_some_iff.1 h
      cases he
      exact ih (p := q.1) hq

theorem findToken_lt {s : List α} (h : findToken unit s = some (p, after)) :
    after.length < s.length := by
  obtain ⟨hs, hlen⟩ := findToken_append h
  rw [hs, List.length_append, List.length_append]
  omega

theorem findToken_skip {s : List α} (h : ∀ c ∈ s, unit c ≠ 0x7B) (t : List α) :
    findToken unit (s ++ t) =
      (findToken unit t).map (fun p => ({ p.1 with before := s ++ p.1.before }, p.2)) := by
  induction s with
  | nil =>
    rw [List.nil_append]
    cases findToken unit t with
    | none => rfl
    | some p => rfl
  | cons c s ih =>
    have hnone : tokenAt unit (c :: (s ++ t)) = none := by
      apply Option.eq_none_iff_forall_ne_some.2
      rintro ⟨name, after⟩ htoken
      obtain ⟨a, b, e, d, hs, ha, _⟩ := tokenAt_iff.1 htoken
      rw [← (List.cons.inj hs).1] at ha
      exact h c List.mem_cons_self ha
    rw [List.cons_append, findToken, hnone, ih (fun x hx => h x (List.mem_cons_of_mem c hx))]
    cases findToken unit t with
    | none => rfl
    | some p => rfl

variable (unit)

/-- A template cut at its placeholders, from the left, and what follows the last one. -/
def pieces (s : List α) : List (Placed α) × List α :=
  match _h : findToken unit s with
  | none => ([], s)
  | some (p, after) => (p :: (pieces after).1, (pieces after).2)
termination_by s.length
decreasing_by exact findToken_lt _h

/-- All placeholders of a template replaced at once by what is known under their names. -/
def simultaneous (value : QString → Option (List α)) (s : List α) : List α :=
  (pieces unit s).1.flatMap (fun p => p.before ++ (value p.name).getD p.text) ++ (pieces unit s).2

variable {unit} {value : QString → Option (List α)}

theorem pieces_none {s : List α} (h : findToken unit s = none) : pieces unit s = ([], s) := by
  rw [pieces.eq_def]
  split
  · rfl
  · rename_i hsome
    rw [h] at hsome
    cases hsome

theorem pieces_some {s : List α} (h : findToken unit s = some (p, after)) :
    pieces unit s = (p :: (pieces unit after).1, (pieces unit after).2) := by
  rw [pieces.eq_def]
  split
  · rename_i hnone
    rw [h] at hnone
    cases hnone
  · rename_i hsome
    rw [h] at hsome
    cases hsome
    rfl

theorem simultaneous_none {s : List α} (h : findToken unit s = none) :
    simultaneous unit value s = s := by
  rw [simultaneous, pieces_none h]
  rfl

theorem simultaneous_some {s : List α} (h : findToken unit s = some (p, after)) :
    simultaneous unit value s =
      p.before ++ ((value p.name).getD p.text ++ simultaneous unit value after) := by
  rw [simultaneous, simultaneous, pieces_some h, List.flatMap_cons, List.append_assoc,
    List.append_assoc]

theorem pieces_join (s : List α) :
    (pieces unit s).1.flatMap (fun p => p.before ++ p.text) ++ (pieces unit s).2 = s := by
  induction hn : s.length using Nat.strongRecOn generalizing s with
  | ind n ih =>
    cases hfound : findToken unit s with
    | none =>
      rw [pieces_none hfound]
      rfl
    | some q =>
      obtain ⟨p, after⟩ := q
      rw [pieces_some hfound, List.flatMap_cons, List.append_assoc,
        ih _ (hn ▸ findToken_lt hfound) after rfl, List.append_assoc]
      exact (findToken_append hfound).1.symm

theorem simultaneous_skip {s : List α} (h : ∀ c ∈ s, unit c ≠ 0x7B) (t : List α) :
    simultaneous unit value (s ++ t) = s ++ simultaneous unit value t := by
  have hskip := findToken_skip h t
  cases hfound : findToken unit t with
  | none =>
    rw [hfound, Option.map_none] at hskip
    rw [simultaneous_none hskip, simultaneous_none hfound]
  | some q =>
    rw [hfound, Option.map_some] at hskip
    rw [simultaneous_some hskip, simultaneous_some hfound, List.append_assoc]

theorem simultaneous_cons {s : List α} (h : tokenAt unit (c :: s) = none) :
    simultaneous unit value (c :: s) = c :: simultaneous unit value s := by
  have hcons : findToken unit (c :: s) =
      (findToken unit s).map (fun p => ({ p.1 with before := c :: p.1.before }, p.2)) := by
    rw [findToken, h]
  cases hfound : findToken unit s with
  | none =>
    rw [hfound, Option.map_none] at hcons
    rw [simultaneous_none hcons, simultaneous_none hfound]
  | some q =>
    rw [hfound, Option.map_some] at hcons
    rw [simultaneous_some hcons, simultaneous_some hfound, List.cons_append]

theorem findToken_token {s : List α} (h : tokenAt unit s = some (name, after)) :
    ∃ text, s = text ++ after ∧ text.length = name.length + 4 ∧
      findToken unit s = some (⟨[], text, name.map unit⟩, after) := by
  cases s with
  | nil => cases h
  | cons c s =>
    have hfound : findToken unit (c :: s) =
        some (⟨[], (c :: s).take (name.length + 4), name.map unit⟩, after) := by
      rw [findToken, h]
    obtain ⟨hs, hlen⟩ := findToken_append hfound
    rw [List.length_map] at hlen
    exact ⟨_, hs, hlen, hfound⟩

theorem simultaneous_token (value : QString → Option (List α)) {s : List α}
    (h : tokenAt unit s = some (name, after)) :
    ∃ text, s = text ++ after ∧ text.length = name.length + 4 ∧
      simultaneous unit value s =
        (value (name.map unit)).getD text ++ simultaneous unit value after := by
  obtain ⟨text, hs, hlen, hfound⟩ := findToken_token h
  exact ⟨text, hs, hlen, simultaneous_some hfound⟩

theorem substituteFrom_skip (taken s : List α) :
    substituteFrom unit value taken.length (taken ++ s) = substituteFrom unit value 0 s := by
  induction taken with
  | nil => rfl
  | cons c taken ih => exact ih

theorem substituteFrom_eq (s : List α) :
    substituteFrom unit value 0 s = simultaneous unit value s := by
  induction hn : s.length using Nat.strongRecOn generalizing s with
  | ind n ih =>
    cases s with
    | nil => exact (simultaneous_none rfl).symm
    | cons c s =>
      rw [List.length_cons] at hn
      rw [substituteFrom]
      cases htoken : tokenAt unit (c :: s) with
      | none => rw [simultaneous_cons htoken, ih s.length (by omega) s rfl]
      | some q =>
        obtain ⟨name, after⟩ := q
        obtain ⟨text, hs, hlen, heq⟩ := simultaneous_token value htoken
        cases text with
        | nil => exact absurd hlen (by rw [List.length_nil]; omega)
        | cons d text =>
          rw [List.cons_append] at hs
          obtain ⟨rfl, hrest⟩ := List.cons.inj hs
          rw [List.length_cons] at hlen
          have htaken : name.length + 3 = text.length := by omega
          have hshort := congrArg List.length hrest
          rw [List.length_append] at hshort
          have htake : (c :: s).take (name.length + 4) = c :: text := by
            have hleft : ((c :: text) ++ after).take (c :: text).length = c :: text :=
              List.take_left
            rw [hrest, ← hlen]
            exact hleft
          dsimp only
          rw [heq, htake, hrest, htaken, substituteFrom_skip, ih after.length (by omega) after rfl]

end Pieces

section Loops

/-- A match from an offset on: where it starts, its capture, and where it ends. -/
def matchFrom (s : QString) (offset : Nat) : Option (Nat × QString × Nat) :=
  if wellFormed (s.drop offset) then
    (findToken id (s.drop offset)).map (fun p =>
      (offset + p.1.before.length, p.1.name,
        offset + p.1.before.length + p.1.text.length))
  else none

theorem matchFrom_some (h : matchFrom s offset = some (start, name, stop)) :
    ∃ p after, findToken id (s.drop offset) = some (p, after) ∧ name = p.name ∧
      start = offset + p.before.length ∧ stop = start + p.text.length ∧ s.drop stop = after ∧
      offset < stop ∧ stop ≤ s.length := by
  rw [matchFrom] at h
  split at h
  · obtain ⟨q, hq, he⟩ := Option.map_eq_some_iff.1 h
    obtain ⟨p, after⟩ := q
    cases he
    obtain ⟨hs, hlen⟩ := findToken_append hq
    have hdrop : s.drop (offset + p.before.length + p.text.length) = after := by
      rw [← List.drop_drop, ← List.drop_drop, hs, List.drop_left, List.drop_left]
    have hlength := congrArg List.length hs
    rw [List.length_drop, List.length_append, List.length_append] at hlength
    refine ⟨p, after, hq, rfl, rfl, rfl, hdrop, ?_, ?_⟩
    · dsimp only
      omega
    · dsimp only
      omega
  · cases h

theorem matchFrom_bounds (h : matchFrom s offset = some (start, name, stop)) :
    offset ≤ start ∧ start ≤ stop ∧ offset < stop ∧ stop ≤ s.length := by
  obtain ⟨p, after, -, -, hstart, hstop, -, hlt, hle⟩ := matchFrom_some h
  exact ⟨hstart ▸ Nat.le_add_right _ _, hstop ▸ Nat.le_add_right _ _, hlt, hle⟩

variable (vars : QString → Option QString)

/-- The loop of `substituteStr` and `substitute`, which goes on behind the value. -/
def replaceInPlace (out : QString) (offset : Nat) : QString :=
  match _h : matchFrom out offset with
  | none => out
  | some (start, name, stop) =>
    match vars name with
    | none => replaceInPlace out stop
    | some value =>
      replaceInPlace (out.take start ++ (value ++ out.drop stop)) (start + value.length)
termination_by out.length - offset
decreasing_by
  · have hbounds := matchFrom_bounds _h
    omega
  · have hbounds := matchFrom_bounds _h
    rw [List.length_append, List.length_append, List.length_take, List.length_drop]
    omega

/-- The loop of `substituteBytes`, over the Latin-1 view of the bytes. -/
def spliceBytes (s : QByteArray) (out : QByteArray) (last offset : Nat) : QByteArray :=
  match _h : matchFrom (fromLatin1 s) offset with
  | none => out ++ s.drop last
  | some (start, name, stop) =>
    match vars name with
    | none => spliceBytes s out last stop
    | some value =>
      spliceBytes s (out ++ (s.drop last).take (start - last) ++ toUtf8 value) stop stop
termination_by s.length - offset
decreasing_by
  · have hbounds := matchFrom_bounds _h
    rw [fromLatin1, List.length_map] at hbounds
    omega
  · have hbounds := matchFrom_bounds _h
    rw [fromLatin1, List.length_map] at hbounds
    omega

variable {vars}

theorem replaceInPlace_none (h : matchFrom out offset = none) :
    replaceInPlace vars out offset = out := by
  rw [replaceInPlace.eq_def]
  split
  · rfl
  · rename_i hsome
    rw [h] at hsome
    cases hsome

theorem replaceInPlace_some (h : matchFrom out offset = some (start, name, stop)) :
    replaceInPlace vars out offset =
      match vars name with
      | none => replaceInPlace vars out stop
      | some value =>
        replaceInPlace vars (out.take start ++ (value ++ out.drop stop))
          (start + value.length) := by
  rw [replaceInPlace.eq_def]
  split
  · rename_i hnone
    rw [h] at hnone
    cases hnone
  · rename_i hsome
    rw [h] at hsome
    cases hsome
    rfl

theorem spliceBytes_none (h : matchFrom (fromLatin1 s) offset = none) :
    spliceBytes vars s out last offset = out ++ s.drop last := by
  rw [spliceBytes.eq_def]
  split
  · rfl
  · rename_i hsome
    rw [h] at hsome
    cases hsome

theorem spliceBytes_some (h : matchFrom (fromLatin1 s) offset = some (start, name, stop)) :
    spliceBytes vars s out last offset =
      match vars name with
      | none => spliceBytes vars s out last stop
      | some value =>
        spliceBytes vars s (out ++ (s.drop last).take (start - last) ++ toUtf8 value) stop
          stop := by
  rw [spliceBytes.eq_def]
  split
  · rename_i hnone
    rw [h] at hnone
    cases hnone
  · rename_i hsome
    rw [h] at hsome
    cases hsome
    rfl

theorem findToken_wellFormed (h : findToken id s = some (p, after))
    (hw : wellFormed s = true) : wellFormed after = true := by
  have htext := (findToken_text h).1
  rw [List.map_id] at htext
  have hs : s = (p.before ++ (0x7B :: 0x7B :: (p.name ++ [0x7D]))) ++ 0x7D :: after := by
    rw [(findToken_append h).1, htext]
    simp
  rw [hs] at hw
  exact wellFormed_after (by decide) hw

theorem replaceInPlace_eq (hw : wellFormed (out.drop offset) = true) (ho : offset ≤ out.length) :
    replaceInPlace vars out offset = out.take offset ++ simultaneous id vars (out.drop offset) := by
  induction hn : (out.drop offset).length using Nat.strongRecOn generalizing out offset with
  | ind n ih =>
    cases hfound : findToken id (out.drop offset) with
    | none =>
      have hmatch : matchFrom out offset = none := by
        rw [matchFrom, if_pos hw, hfound]
        rfl
      rw [replaceInPlace_none hmatch, simultaneous_none hfound, List.take_append_drop]
    | some q =>
      obtain ⟨p, after⟩ := q
      have hmatch : matchFrom out offset = some (offset + p.before.length, p.name,
          offset + p.before.length + p.text.length) := by
        rw [matchFrom, if_pos hw, hfound]
        rfl
      have hbounds := matchFrom_bounds hmatch
      have hs := (findToken_append hfound).1
      have hafter := findToken_wellFormed hfound hw
      have hlt : after.length < n := hn ▸ findToken_lt hfound
      have hdrop : out.drop (offset + p.before.length + p.text.length) = after := by
        rw [← List.drop_drop, ← List.drop_drop, hs, List.drop_left, List.drop_left]
      have hstart : out.take (offset + p.before.length) = out.take offset ++ p.before := by
        rw [List.take_add, hs, List.take_left]
      rw [replaceInPlace_some hmatch, simultaneous_some hfound]
      cases hv : vars p.name with
      | none =>
        have hstop : out.take (offset + p.before.length + p.text.length) =
            out.take offset ++ (p.before ++ p.text) := by
          rw [Nat.add_assoc, ← List.length_append, List.take_add, hs, ← List.append_assoc,
            List.take_left]
        dsimp only
        rw [ih after.length hlt (hdrop ▸ hafter) hbounds.2.2.2 (congrArg List.length hdrop), hstop,
          hdrop]
        simp only [Option.getD_none, List.append_assoc]
      | some value =>
        have hlen : (out.take (offset + p.before.length) ++ value).length =
            offset + p.before.length + value.length := by
          rw [List.length_append, List.length_take, Nat.min_eq_left]
          omega
        have hprefix : (out.take (offset + p.before.length) ++ value ++ after).take
            (offset + p.before.length + value.length) =
              out.take (offset + p.before.length) ++ value := by
          rw [← hlen, List.take_left]
        have hrest : (out.take (offset + p.before.length) ++ value ++ after).drop
            (offset + p.before.length + value.length) = after := by
          rw [← hlen, List.drop_left]
        dsimp only
        rw [hdrop, ← List.append_assoc,
          ih after.length hlt (hrest.symm ▸ hafter) (by
            rw [List.length_append, hlen]
            exact Nat.le_add_right _ _) (congrArg List.length hrest), hprefix, hrest, hstart]
        simp only [Option.getD_some, List.append_assoc]

theorem tokenAt_map {α : Type} (unit : α → UInt16) (s : List α) :
    tokenAt id (s.map unit) = (tokenAt unit s).map (fun p => (p.1.map unit, p.2.map unit)) := by
  cases s with
  | nil => rfl
  | cons a s =>
    cases s with
    | nil => rfl
    | cons b s =>
      have htake : (s.map unit).takeWhile (fun c => isNameChar c) =
          (s.takeWhile (fun c => isNameChar (unit c))).map unit := List.takeWhile_map
      have hdrop : (s.map unit).dropWhile (fun c => isNameChar c) =
          (s.dropWhile (fun c => isNameChar (unit c))).map unit := List.dropWhile_map
      rw [List.map_cons, List.map_cons, tokenAt, tokenAt]
      dsimp only [id]
      rw [htake, hdrop]
      split
      · cases s.dropWhile (fun c => isNameChar (unit c)) with
        | nil => rfl
        | cons c rest =>
          cases rest with
          | nil => rfl
          | cons d rest =>
            simp only [List.map_cons, List.head?_map, Option.any_map]
            split
            · rfl
            · rfl
      · rfl

theorem findToken_map {α : Type} (unit : α → UInt16) (s : List α) :
    findToken id (s.map unit) = (findToken unit s).map (fun p =>
      (⟨p.1.before.map unit, p.1.text.map unit, p.1.name⟩, p.2.map unit)) := by
  induction s with
  | nil => rfl
  | cons c s ih =>
    have htoken := tokenAt_map unit (c :: s)
    rw [List.map_cons] at htoken ⊢
    rw [findToken, findToken, htoken]
    cases tokenAt unit (c :: s) with
    | none =>
      dsimp only [Option.map_none]
      rw [ih]
      cases findToken unit s with
      | none => rfl
      | some p => rfl
    | some p =>
      dsimp only [Option.map_some]
      rw [List.length_map, List.map_id, ← List.map_cons, ← List.map_take]
      rfl

theorem wellFormed_fromLatin1 (s : QByteArray) : wellFormed (fromLatin1 s) = true := by
  rw [wellFormed, fromLatin1]
  induction s with
  | nil => rfl
  | cons c s ih =>
    have hc : c.toUInt16.toNat < 0x100 := by
      rw [UInt8.toNat_toUInt16]
      exact c.toNat_lt
    rw [List.map_cons, List.map_cons, wellFormedUnits_cons]
    · exact ih
    · simp only [isHighSurrogate, Bool.and_eq_false_iff, decide_eq_false_iff_not]
      omega
    · simp only [isLowSurrogate, Bool.and_eq_false_iff, decide_eq_false_iff_not]
      omega

theorem spliceBytes_eq (hlast : last ≤ offset) (ho : offset ≤ s.length) :
    spliceBytes vars s out last offset = out ++ ((s.drop last).take (offset - last) ++
      simultaneous UInt8.toUInt16 (fun name => (vars name).map toUtf8) (s.drop offset)) := by
  induction hn : (s.drop offset).length using Nat.strongRecOn generalizing out last offset with
  | ind n ih =>
    have hview : (fromLatin1 s).drop offset = (s.drop offset).map UInt8.toUInt16 :=
      List.map_drop.symm
    have hw : wellFormed ((fromLatin1 s).drop offset) = true := hview ▸ wellFormed_fromLatin1 _
    have hpassed (k : Nat) : (s.drop last).take (offset - last + k) =
        (s.drop last).take (offset - last) ++ (s.drop offset).take k := by
      rw [List.take_add, List.drop_drop, Nat.add_sub_cancel' hlast]
    cases hfound : findToken UInt8.toUInt16 (s.drop offset) with
    | none =>
      have hmatch : matchFrom (fromLatin1 s) offset = none := by
        rw [matchFrom, if_pos hw, hview, findToken_map, hfound]
        rfl
      have hrest : s.drop last = (s.drop last).take (offset - last) ++ s.drop offset := by
        rw [← Nat.add_sub_cancel' hlast, ← List.drop_drop, Nat.add_sub_cancel_left,
          List.take_append_drop]
      rw [spliceBytes_none hmatch, simultaneous_none hfound, ← hrest]
    | some q =>
      obtain ⟨p, after⟩ := q
      have hmatch : matchFrom (fromLatin1 s) offset = some (offset + p.before.length, p.name,
          offset + p.before.length + p.text.length) := by
        rw [matchFrom, if_pos hw, hview, findToken_map, hfound]
        dsimp only [Option.map_some]
        rw [List.length_map, List.length_map]
      have hbounds := matchFrom_bounds hmatch
      rw [fromLatin1, List.length_map] at hbounds
      have hs := (findToken_append hfound).1
      have hlt : after.length < n := hn ▸ findToken_lt hfound
      have hdrop : s.drop (offset + p.before.length + p.text.length) = after := by
        rw [← List.drop_drop, ← List.drop_drop, hs, List.drop_left, List.drop_left]
      have hstart : (s.drop last).take (offset + p.before.length - last) =
          (s.drop last).take (offset - last) ++ p.before := by
        rw [Nat.sub_add_comm hlast, hpassed, hs, List.take_left]
      rw [spliceBytes_some hmatch, simultaneous_some hfound]
      cases hv : vars p.name with
      | none =>
        have hstop : (s.drop last).take (offset + p.before.length + p.text.length - last) =
            (s.drop last).take (offset - last) ++ (p.before ++ p.text) := by
          rw [Nat.add_assoc, Nat.sub_add_comm hlast, hpassed, hs, ← List.append_assoc,
            ← List.length_append, List.take_left]
        dsimp only
        rw [ih after.length hlt (by omega) hbounds.2.2.2 (congrArg List.length hdrop), hstop, hdrop]
        simp only [Option.map_none, Option.getD_none, List.append_assoc]
      | some value =>
        dsimp only
        rw [ih after.length hlt (Nat.le_refl _) hbounds.2.2.2 (congrArg List.length hdrop), hdrop,
          hstart, Nat.sub_self, List.take_zero]
        simp only [Option.map_some, Option.getD_some, List.append_assoc, List.nil_append]

end Loops

section Rules
open SessionRulesLogic

theorem isWordChar_eq (c : UInt16) : isWordChar c = isNameChar c := by
  rw [isWordChar, isNameChar, isNameStart, Bool.or_assoc, Bool.or_assoc, Bool.or_comm,
    ← Bool.or_assoc]
  rfl

theorem isNameStart_ascii {c : UInt16} (h : isNameStart c = true) : 0x39 < c ∧ c < 0x7B := by
  simp only [isNameStart, Bool.or_eq_true, Bool.and_eq_true, decide_eq_true_eq, beq_iff_eq] at h
  rcases h with (⟨hlow, hhigh⟩ | ⟨hlow, hhigh⟩) | rfl
  · exact ⟨UInt16.lt_of_lt_of_le (by decide) hlow, UInt16.lt_of_le_of_lt hhigh (by decide)⟩
  · exact ⟨UInt16.lt_of_lt_of_le (by decide) hlow, UInt16.lt_of_le_of_lt hhigh (by decide)⟩
  · exact ⟨by decide, by decide⟩

theorem isDigit_of_name {c : UInt16} (h : isNameChar c = true) :
    (!isDigit c) = isNameStart c := by
  cases hstart : isNameStart c with
  | true =>
    have hlt := (isNameStart_ascii hstart).1
    rw [isDigit, decide_eq_false (p := c ≤ 0x39) (fun hle => UInt16.not_le.2 hlt hle),
      Bool.and_false]
    rfl
  | false =>
    rw [isNameChar, hstart, Bool.false_or] at h
    exact congrArg Bool.not h

theorem name_head (name : QString) (h : ∀ c ∈ name, isNameChar c = true) :
    (name.head?.all (fun c => !isDigit c) && !name.isEmpty) = name.head?.any isNameStart := by
  cases name with
  | nil => rfl
  | cons c name =>
    have hc := isDigit_of_name (h c List.mem_cons_self)
    dsimp only [List.head?_cons, Option.all_some, Option.any_some, List.isEmpty_cons]
    rw [hc]
    exact Bool.and_true _

theorem isPrefixOf_pair {c d : UInt16} {s : QString} :
    List.isPrefixOf [c, d] s = true ↔ ∃ t, s = c :: d :: t := by
  rw [List.isPrefixOf_iff_prefix]
  constructor
  · rintro ⟨t, rfl⟩
    exact ⟨t, rfl⟩
  · rintro ⟨t, rfl⟩
    exact ⟨t, rfl⟩

theorem placeholder_open (t : QString) : placeholder (0x7B :: 0x7B :: t) =
    if (t.takeWhile isNameChar).head?.any isNameStart &&
        List.isPrefixOf [0x7D, 0x7D] (t.dropWhile isNameChar) then
      some (t.takeWhile isNameChar)
    else none := by
  have hword : isWordChar = isNameChar := funext isWordChar_eq
  have hdrop : t.drop (t.takeWhile isNameChar).length = t.dropWhile isNameChar := by
    have hsplit := List.takeWhile_append_dropWhile (p := isNameChar) (l := t)
    have hleft : (t.takeWhile isNameChar ++ t.dropWhile isNameChar).drop
        (t.takeWhile isNameChar).length = t.dropWhile isNameChar := List.drop_left
    rwa [hsplit] at hleft
  have hname := name_head (t.takeWhile isNameChar)
    (fun c hc => List.mem_takeWhile_imp (p := isNameChar) hc)
  rw [← hdrop, ← hname, placeholder, hword]
  exact if_pos rfl

theorem placeholder_eq (s : QString) : placeholder s = (tokenAt id s).map Prod.fst := by
  by_cases hopen : ∃ t, s = 0x7B :: 0x7B :: t
  · obtain ⟨t, rfl⟩ := hopen
    rw [placeholder_open]
    cases htoken : tokenAt id (0x7B :: 0x7B :: t) with
    | some q =>
      obtain ⟨name, after⟩ := q
      obtain ⟨a, b, c, d, hs, -, -, hc, hd, hall, hstart⟩ := tokenAt_iff.1 htoken
      rw [List.map_id] at hall hstart
      obtain rfl : c = 0x7D := hc
      obtain rfl : d = 0x7D := hd
      obtain rfl := (List.cons.inj (List.cons.inj hs).2).2
      rw [takeWhile_stop (by decide), dropWhile_stop (by decide),
        List.takeWhile_eq_self_iff.2 hall, List.dropWhile_eq_nil_iff.2 hall, hstart]
      exact if_pos rfl
    | none =>
      apply if_neg
      intro hcond
      obtain ⟨hstart, hclose⟩ := Bool.and_eq_true_iff.1 hcond
      obtain ⟨after, hafter⟩ := isPrefixOf_pair.1 hclose
      have hsome : tokenAt id (0x7B :: 0x7B :: t) = some (t.takeWhile isNameChar, after) := by
        refine tokenAt_iff.2 ⟨0x7B, 0x7B, 0x7D, 0x7D, ?_, rfl, rfl, rfl, rfl, ?_⟩
        · rw [← hafter, List.takeWhile_append_dropWhile]
        · rw [List.map_id]
          exact ⟨fun c hc => List.mem_takeWhile_imp (p := isNameChar) hc, hstart⟩
      rw [htoken] at hsome
      cases hsome
  · have hnone : tokenAt id s = none := by
      apply Option.eq_none_iff_forall_ne_some.2
      rintro ⟨name, after⟩ htoken
      obtain ⟨a, b, c, d, rfl, ha, hb, -⟩ := tokenAt_iff.1 htoken
      obtain rfl : a = 0x7B := ha
      obtain rfl : b = 0x7B := hb
      exact hopen ⟨_, rfl⟩
    rw [hnone, placeholder]
    exact if_neg (fun hfront => hopen (isPrefixOf_pair.1 hfront))

theorem isNameChar_ascii (h : isNameChar c = true) : c < 0x7B ∧ c ≠ 0x3F := by
  simp only [isNameChar, Bool.or_eq_true, Bool.and_eq_true, decide_eq_true_eq] at h
  rcases h with hstart | ⟨-, hhigh⟩
  · refine ⟨(isNameStart_ascii hstart).2, ?_⟩
    rintro rfl
    exact absurd hstart (by decide)
  · refine ⟨UInt16.lt_of_le_of_lt hhigh (by decide), ?_⟩
    rintro rfl
    exact absurd hhigh (by decide)

theorem substituteRules_skip (vars : QString → Option QString) (taken s : QString) :
    SessionRulesLogic.substituteFrom vars taken.length (taken ++ s) =
      SessionRulesLogic.substituteFrom vars 0 s := by
  induction taken with
  | nil => rfl
  | cons c taken ih => exact ih

theorem simultaneous_entered {vars : QString → Option QString}
    (h : tokenAt id (c :: s) = some (name, after)) (hv : vars name = none) :
    simultaneous id vars (c :: s) = c :: simultaneous id vars s := by
  obtain ⟨a, b, e, d, hs, ha, hb, he, hd, hall, hstart⟩ := tokenAt_iff.1 h
  rw [List.map_id] at hall hstart
  obtain ⟨rfl, rfl⟩ := List.cons.inj hs
  have hplain : ∀ x ∈ name ++ [e, d], id x ≠ 0x7B := by
    intro x hx
    rcases List.mem_append.1 hx with hx | hx
    · exact UInt16.ne_of_lt (isNameChar_ascii (hall x hx)).1
    · rcases List.mem_cons.1 hx with rfl | hx
      · rw [he]
        decide
      · rw [List.mem_singleton.1 hx, hd]
        decide
  have hinner : tokenAt id (b :: (name ++ e :: d :: after)) = none := by
    cases name with
    | nil => cases hstart
    | cons x name => exact if_neg (fun hopen => hplain x (List.mem_cons_self) hopen.2)
  obtain ⟨text, htext, hlen, heq⟩ := simultaneous_token vars h
  have hsplit : name ++ e :: d :: after = (name ++ [e, d]) ++ after := by simp
  have htext' : text = c :: b :: (name ++ [e, d]) := by
    have hboth : text ++ after = c :: b :: (name ++ [e, d]) ++ after := by
      rw [← htext, hsplit]
      rfl
    exact List.append_cancel_right hboth
  rw [List.map_id, hv, Option.getD_none] at heq
  rw [heq, simultaneous_cons hinner, hsplit, simultaneous_skip hplain, htext']
  rfl

theorem substituteRules_eq (vars : QString → Option QString) (s : QString) :
    SessionRulesLogic.substituteFrom vars 0 s = simultaneous id vars s := by
  induction hn : s.length using Nat.strongRecOn generalizing s with
  | ind n ih =>
    cases s with
    | nil => exact (simultaneous_none rfl).symm
    | cons c s =>
      rw [List.length_cons] at hn
      rw [SessionRulesLogic.substituteFrom, placeholder_eq]
      cases htoken : tokenAt id (c :: s) with
      | none =>
        rw [simultaneous_cons htoken]
        exact congrArg (List.cons c) (ih s.length (by omega) s rfl)
      | some q =>
        obtain ⟨name, after⟩ := q
        cases hv : vars name with
        | none =>
          rw [simultaneous_entered htoken hv]
          dsimp only [Option.map_some, Option.bind_some]
          rw [hv]
          exact congrArg (List.cons c) (ih s.length (by omega) s rfl)
        | some value =>
          obtain ⟨text, hs, hlen, heq⟩ := simultaneous_token vars htoken
          cases text with
          | nil => exact absurd hlen (by rw [List.length_nil]; omega)
          | cons d text =>
            rw [List.cons_append] at hs
            obtain ⟨rfl, hrest⟩ := List.cons.inj hs
            rw [List.length_cons] at hlen
            have htaken : name.length + 3 = text.length := by omega
            have hshort := congrArg List.length hrest
            rw [List.length_append] at hshort
            rw [List.map_id, hv, Option.getD_some] at heq
            dsimp only [Option.map_some, Option.bind_some]
            rw [hv, heq, hrest]
            dsimp only [Option.map_some]
            rw [htaken, substituteRules_skip, ih after.length (by omega) after rfl]

end Rules

section Utf8

theorem name_ascii (h : IsName name) : ∀ c ∈ name, c < 0x80 := fun c hc =>
  UInt16.lt_trans (isNameChar_ascii (h.1 c hc)).1 (by decide)

theorem tokenAt_toUtf8 (t : QString) :
    tokenAt UInt8.toUInt16 (toUtf8 t) =
      (tokenAt id t).map (fun p => (p.1.map UInt16.toUInt8, toUtf8 p.2)) := by
  cases htoken : tokenAt id t with
  | some q =>
    obtain ⟨name, after⟩ := q
    obtain ⟨a, b, c, d, rfl, ha, hb, hc, hd, hname⟩ := tokenAt_iff.1 htoken
    obtain rfl : a = 0x7B := ha
    obtain rfl : b = 0x7B := hb
    obtain rfl : c = 0x7D := hc
    obtain rfl : d = 0x7D := hd
    rw [List.map_id] at hname
    have hascii := name_ascii hname
    have hback : (name.map UInt16.toUInt8).map UInt8.toUInt16 = name := fromLatin1_plain hascii
    refine tokenAt_iff.2 ⟨0x7B, 0x7B, 0x7D, 0x7D, ?_, rfl, rfl, rfl, rfl, hback.symm ▸ hname⟩
    have hopen := toUtf8_plain (s := [0x7B, 0x7B]) (forall_mem_of_all (by decide))
      (name ++ 0x7D :: 0x7D :: after)
    have hclose := toUtf8_plain (s := [0x7D, 0x7D]) (forall_mem_of_all (by decide)) after
    rw [List.cons_append, List.cons_append, List.nil_append] at hopen hclose
    rw [hopen, toUtf8_plain hascii, hclose]
    rfl
  | none =>
    apply Option.eq_none_iff_forall_ne_some.2
    rintro ⟨name, after⟩ hsome
    obtain ⟨a, b, c, d, ht, ha, hb, hc, hd, hname⟩ := tokenAt_iff.1 hsome
    obtain rfl : a = 0x7B := UInt8.toUInt16_inj.1 ha
    obtain rfl : b = 0x7B := UInt8.toUInt16_inj.1 hb
    obtain rfl : c = 0x7D := UInt8.toUInt16_inj.1 hc
    obtain rfl : d = 0x7D := UInt8.toUInt16_inj.1 hd
    have hascii : ∀ c ∈ 0x7B :: 0x7B :: (name ++ [0x7D, 0x7D]), c < 0x80 ∧ c ≠ 0x3F := by
      intro c hc
      simp only [List.mem_cons, List.mem_append, List.not_mem_nil, or_false] at hc
      rcases hc with rfl | rfl | hc | rfl | rfl
      · decide
      · decide
      · have hchar := isNameChar_ascii (hname.1 _ (List.mem_map_of_mem hc))
        refine ⟨?_, ?_⟩
        · have hlt := UInt16.lt_iff_toNat_lt.1 hchar.1
          rw [UInt8.toNat_toUInt16] at hlt
          exact UInt8.lt_iff_toNat_lt.2 (Nat.lt_trans hlt (by decide))
        · rintro rfl
          exact hchar.2 rfl
      · decide
      · decide
    have hsplit : toUtf8 t = (0x7B :: 0x7B :: (name ++ [0x7D, 0x7D])) ++ after := by
      rw [ht]
      simp
    obtain ⟨u, hu, -⟩ := toUtf8_ascii_prefix hascii hsplit
    have hfound : tokenAt id t = some (fromLatin1 name, u) := by
      refine tokenAt_iff.2 ⟨0x7B, 0x7B, 0x7D, 0x7D, ?_, rfl, rfl, rfl, rfl, ?_⟩
      · rw [hu, fromLatin1, List.map_cons, List.map_cons, List.map_append]
        simp [fromLatin1]
      · rw [List.map_id]
        exact hname
    rw [htoken] at hfound
    cases hfound

theorem text_ascii {s : QString} (h : findToken id s = some (p, after)) :
    ∀ c ∈ p.text, c < 0x80 := by
  obtain ⟨htext, hname⟩ := findToken_text h
  rw [List.map_id] at htext
  intro c hc
  rw [htext] at hc
  simp only [List.mem_cons, List.mem_append, List.not_mem_nil, or_false] at hc
  rcases hc with rfl | rfl | hc | rfl | rfl
  · decide
  · decide
  · exact name_ascii hname c hc
  · decide
  · decide

theorem toUtf8_brace (b : QString) : toUtf8 (0x7B :: b) = 0x7B :: toUtf8 b :=
  toUtf8_append (c := 0x7B) (by decide) [] b

theorem findToken_front {t : QString} (h : tokenAt id t = some (name, after)) :
    ∃ text, findToken id t = some (⟨[], text, name⟩, after) ∧
      findToken UInt8.toUInt16 (toUtf8 t) = some (⟨[], toUtf8 text, name⟩, toUtf8 after) := by
  have htoken := tokenAt_toUtf8 t
  rw [h] at htoken
  obtain ⟨text, hs, -, hfound⟩ := findToken_token h
  obtain ⟨text', hs', -, hfound'⟩ := findToken_token htoken
  rw [List.map_id] at hfound
  have hname := name_ascii (findToken_text hfound).2
  have htext : text' = toUtf8 text := by
    have hboth : text' ++ toUtf8 after = toUtf8 text ++ toUtf8 after := by
      rw [← toUtf8_plain_append (text_ascii hfound), ← hs]
      exact hs'.symm
    exact List.append_cancel_right hboth
  have hback : (name.map UInt16.toUInt8).map UInt8.toUInt16 = name := fromLatin1_plain hname
  refine ⟨text, hfound, ?_⟩
  rw [hfound', htext]
  dsimp only
  rw [hback]

theorem no_brace {a : QString} (ha : 0x7B ∉ a) :
    (∀ c ∈ a, id c ≠ 0x7B) ∧ ∀ c ∈ toUtf8 a, c.toUInt16 ≠ 0x7B := by
  refine ⟨fun c hc he => ha (he ▸ hc), fun c hc he => ha ?_⟩
  obtain rfl : c = 0x7B := UInt8.toUInt16_inj.1 he
  exact mem_toUtf8_ascii (c := 0x7B) (by decide) (by decide) hc

theorem findToken_toUtf8 (t : QString) :
    findToken UInt8.toUInt16 (toUtf8 t) = (findToken id t).map (fun p =>
      (⟨toUtf8 p.1.before, toUtf8 p.1.text, p.1.name⟩, toUtf8 p.2)) := by
  induction hn : t.length using Nat.strongRecOn generalizing t with
  | ind n ih =>
    by_cases hopen : 0x7B ∈ t
    · obtain ⟨a, b, rfl, ha⟩ := List.eq_append_cons_of_mem hopen
      obtain ⟨hunits, hbytes⟩ := no_brace ha
      have hshort : b.length < n := by
        rw [← hn, List.length_append, List.length_cons]
        omega
      have hcut := toUtf8_append (c := 0x7B) (by decide) a b
      rw [hcut, findToken_skip hunits]
      refine (findToken_skip hbytes _).trans ?_
      rw [show UInt16.toUInt8 0x7B :: toUtf8 b = toUtf8 (0x7B :: b) from (toUtf8_brace b).symm]
      cases hfirst : tokenAt id (0x7B :: b) with
      | some q =>
        obtain ⟨name, after⟩ := q
        obtain ⟨text, hfound, hfound'⟩ := findToken_front hfirst
        rw [hfound, hfound']
        simp only [Option.map_some, List.append_nil]
      | none =>
        have hfirst' := tokenAt_toUtf8 (0x7B :: b)
        rw [hfirst, toUtf8_brace, Option.map_none] at hfirst'
        rw [toUtf8_brace, findToken, findToken, hfirst, hfirst', ih b.length hshort b rfl]
        cases findToken id b with
        | none => rfl
        | some p =>
          simp only [Option.map_some]
          rw [toUtf8_append (c := 0x7B) (by decide)]
          rfl
    · obtain ⟨hunits, hbytes⟩ := no_brace hopen
      have hnone := findToken_skip hunits []
      have hnone' := findToken_skip hbytes []
      rw [List.append_nil] at hnone hnone'
      rw [hnone, hnone']
      rfl

/-- The bytes of a text with every known placeholder replaced, piece by piece. -/
def encodedPieces (vars : QString → Option QString) (t : QString) : QByteArray :=
  (pieces id t).1.flatMap (fun p =>
    toUtf8 p.before ++ toUtf8 ((vars p.name).getD p.text)) ++ toUtf8 (pieces id t).2

theorem simultaneous_toUtf8 (vars : QString → Option QString) (t : QString) :
    simultaneous UInt8.toUInt16 (fun name => (vars name).map toUtf8) (toUtf8 t) =
      encodedPieces vars t := by
  induction hn : t.length using Nat.strongRecOn generalizing t with
  | ind n ih =>
    have hbytes := findToken_toUtf8 t
    cases hfound : findToken id t with
    | none =>
      rw [hfound] at hbytes
      rw [simultaneous_none hbytes, encodedPieces, pieces_none hfound]
      rfl
    | some q =>
      obtain ⟨p, after⟩ := q
      rw [hfound] at hbytes
      have hrest := ih after.length (hn ▸ findToken_lt hfound) after rfl
      rw [encodedPieces] at hrest
      rw [simultaneous_some hbytes, encodedPieces, pieces_some hfound, List.flatMap_cons, hrest]
      dsimp only
      rw [Option.getD_map, List.append_assoc, List.append_assoc]

theorem encodedPieces_eq {vars : QString → Option QString} (ht : wellFormed t = true)
    (hvars : ∀ name v, vars name = some v → wellFormed v = true) :
    encodedPieces vars t = toUtf8 (simultaneous id vars t) := by
  induction hn : t.length using Nat.strongRecOn generalizing t with
  | ind n ih =>
    cases hfound : findToken id t with
    | none =>
      rw [simultaneous_none hfound, encodedPieces, pieces_none hfound]
      rfl
    | some q =>
      obtain ⟨p, after⟩ := q
      have hrest := ih after.length (hn ▸ findToken_lt hfound) (findToken_wellFormed hfound ht) rfl
      have htext := (findToken_text hfound).1
      rw [List.map_id] at htext
      have hbefore : wellFormed p.before = true := by
        rw [(findToken_append hfound).1, htext] at ht
        exact wellFormed_before (by decide) ht
      have hvalue : wellFormed ((vars p.name).getD p.text) = true := by
        cases hv : vars p.name with
        | none => exact wellFormed_ascii (text_ascii hfound)
        | some v => exact hvars p.name v hv
      rw [encodedPieces] at hrest
      rw [encodedPieces, pieces_some hfound, simultaneous_some hfound, List.flatMap_cons,
        List.append_assoc, hrest, toUtf8_wellFormed_append hbefore,
        toUtf8_wellFormed_append hvalue, List.append_assoc]

end Utf8

section Replacement

theorem replaceInPlace_wellFormed (vars : QString → Option QString) (h : wellFormed t = true) :
    replaceInPlace vars t 0 = simultaneous id vars t := replaceInPlace_eq h (Nat.zero_le _)

theorem replaceInPlace_illFormed (vars : QString → Option QString) (h : wellFormed t = false) :
    replaceInPlace vars t 0 = t := by
  apply replaceInPlace_none
  rw [matchFrom, List.drop_zero, h]
  rfl

theorem replaceInPlace_substituteStr (t : QString) (vars : Vars) :
    replaceInPlace (fun name => vars.lookup name) t 0 = substituteStr t vars := by
  cases hw : wellFormed t with
  | true =>
    rw [replaceInPlace_wellFormed _ hw, substituteStr, if_pos hw, substituteFrom_eq]
  | false =>
    rw [replaceInPlace_illFormed _ hw, substituteStr, hw]
    rfl

theorem replaceInPlace_substitute (t : QString) (vars : QString → Option QString) :
    replaceInPlace vars t 0 = SessionRulesLogic.substitute t vars := by
  cases hw : wellFormed t with
  | true =>
    rw [replaceInPlace_wellFormed _ hw, SessionRulesLogic.substitute, if_pos hw,
      substituteRules_eq]
  | false =>
    rw [replaceInPlace_illFormed _ hw, SessionRulesLogic.substitute, hw]
    rfl

theorem spliceBytes_simultaneous (s : QByteArray) (vars : QString → Option QString) :
    spliceBytes vars s [] 0 0 =
      simultaneous UInt8.toUInt16 (fun name => (vars name).map toUtf8) s :=
  spliceBytes_eq (Nat.le_refl 0) (Nat.zero_le _)

theorem spliceBytes_substituteBytes (s : QByteArray) (vars : Vars) :
    spliceBytes (fun name => vars.lookup name) s [] 0 0 = substituteBytes s vars := by
  rw [spliceBytes_simultaneous, substituteBytes, substituteFrom_eq]

theorem replaced_at_once (vars : Vars) :
    (∀ t, wellFormed t = true →
      replaceInPlace (fun name => vars.lookup name) t 0 =
        simultaneous id (fun name => vars.lookup name) t) ∧
    (∀ t, wellFormed t = false → replaceInPlace (fun name => vars.lookup name) t 0 = t) ∧
    (∀ t, substituteStr t vars = replaceInPlace (fun name => vars.lookup name) t 0 ∧
      SessionRulesLogic.substitute t (fun name => vars.lookup name) =
        replaceInPlace (fun name => vars.lookup name) t 0) ∧
    (∀ t, spliceBytes (fun name => vars.lookup name) (toUtf8 t) [] 0 0 =
      encodedPieces (fun name => vars.lookup name) t) ∧
    (∀ t, wellFormed t = true → (∀ name v, vars.lookup name = some v → wellFormed v = true) →
      spliceBytes (fun name => vars.lookup name) (toUtf8 t) [] 0 0 =
        toUtf8 (simultaneous id (fun name => vars.lookup name) t)) ∧
    ∀ s, spliceBytes (fun name => vars.lookup name) s [] 0 0 =
        (pieces UInt8.toUInt16 s).1.flatMap (fun p =>
          p.before ++ ((vars.lookup p.name).map toUtf8).getD p.text) ++
        (pieces UInt8.toUInt16 s).2 ∧
      (pieces UInt8.toUInt16 s).1.flatMap (fun p => p.before ++ p.text) ++
        (pieces UInt8.toUInt16 s).2 = s ∧
      substituteBytes s vars = spliceBytes (fun name => vars.lookup name) s [] 0 0 := by
  have hbytes (t : QString) : spliceBytes (fun name => vars.lookup name) (toUtf8 t) [] 0 0 =
      encodedPieces (fun name => vars.lookup name) t :=
    (spliceBytes_simultaneous _ _).trans (simultaneous_toUtf8 _ t)
  refine ⟨fun t ht => replaceInPlace_wellFormed _ ht, fun t ht => replaceInPlace_illFormed _ ht,
    fun t => ⟨(replaceInPlace_substituteStr t vars).symm, (replaceInPlace_substitute t _).symm⟩,
    hbytes, ?_, ?_⟩
  · intro t ht hvars
    exact (hbytes t).trans (encodedPieces_eq ht hvars)
  · intro s
    exact ⟨spliceBytes_simultaneous s _, pieces_join s, (spliceBytes_substituteBytes s vars).symm⟩

/-- Half of a pair behind a known placeholder keeps the text from being searched. -/
theorem half_pair_unsearched :
    substituteStr (utf16 "\x7b\x7ba\x7d\x7d" ++ [0xD800]) [(utf16 "a", utf16 "x")] ≠
        simultaneous id (fun name => [(utf16 "a", utf16 "x")].lookup name)
          (utf16 "\x7b\x7ba\x7d\x7d" ++ [0xD800]) ∧
      SessionRulesLogic.substitute (utf16 "\x7b\x7ba\x7d\x7d" ++ [0xD800])
          (fun name => [(utf16 "a", utf16 "x")].lookup name) ≠
        simultaneous id (fun name => [(utf16 "a", utf16 "x")].lookup name)
          (utf16 "\x7b\x7ba\x7d\x7d" ++ [0xD800]) := by
  have hall : simultaneous id (fun name => [(utf16 "a", utf16 "x")].lookup name)
      (utf16 "\x7b\x7ba\x7d\x7d" ++ [0xD800]) = utf16 "x" ++ [0xD800] := by
    rw [← substituteFrom_eq]
    decide
  rw [hall]
  decide

end Replacement

end Nullock.ChainRunner

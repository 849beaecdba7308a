import Nullock.IntruderGenerators

namespace Nullock

def codePoint (n : Nat) (s : List Nat) : List Nat × Nat :=
  if isHighSurrogate n then
    match s.head? with
    | some d => if isLowSurrogate d then ([pairPoint n d], 1) else ([0xFFFD], 0)
    | none => ([0xFFFD], 0)
  else if isLowSurrogate n then ([0xFFFD], 0)
  else ([n], 0)

def toUcs4 (s : QString) : List Nat := unfoldFrom codePoint 0 (s.map UInt16.toNat)

def fromUcs4 (u : Nat) : QString :=
  if u < 0x10000 then [u.toUInt16]
  else [(0xD800 + (u - 0x10000) / 1024).toUInt16, (0xDC00 + (u - 0x10000) % 1024).toUInt16]

end Nullock

namespace Nullock.IntruderGenerators

section Definitions

def word (cps idx : List Nat) : QString := (idx.map (fun i => cps.getD i 0)).flatMap fromUcs4

def bruteRound (cps : List Nat) (len : Nat) : Nat → Int → List Nat → List QString × Int
  | 0, emitted, _ => ([], emitted)
  | room + 1, emitted, idx =>
    if emitted < kMaxChars then
      match advance (List.replicate len cps.length) idx with
      | some idx' =>
        let (rest, total) := bruteRound cps len room (emitted + len) idx'
        (word cps idx :: rest, total)
      | none => ([word cps idx], emitted + len)
    else ([], emitted)

def bruteFrom (cps : List Nat) : Nat → Nat → Nat → Int → List QString
  | 0, _, _, _ => []
  | lens + 1, len, room, emitted =>
    if 0 < room ∧ emitted < kMaxChars then
      let (round, total) := bruteRound cps len room emitted (List.replicate len 0)
      round ++ bruteFrom cps lens (len + 1) (room - round.length) total
    else []

def brute (charset : QString) (minLen maxLen : Int) : List QString :=
  if charset.isEmpty then []
  else
    let minLen := if minLen < 1 then 1 else minLen
    if maxLen < minLen then []
    else bruteFrom (toUcs4 charset) (maxLen + 1 - minLen).toNat minLen.toNat kMaxCount 0

/-- The combinations so far, with the items of the other positions behind them. -/
def customIteratorFrom (separator : QString) :
    Nat → List QString → List (List QString) → List QString
  | _, out, [] => out
  | pos, out, items :: positions =>
    let next := pushRows kMaxCount
      (fun front => items.map (fun item => if pos = 0 then item else front ++ separator ++ item))
      [] out
    customIteratorFrom separator (pos + 1) next positions

def customIterator (positions : List (List QString)) (separator : QString) : List QString :=
  if positions.isEmpty || positions.any (·.isEmpty) then []
  else customIteratorFrom separator 0 [[]] positions

end Definitions

section Brute

def enumeration (cps : List Nat) (minLen maxLen : Int) : List (List Nat) :=
  (List.range' (max 1 minLen).toNat (maxLen + 1 - max 1 minLen).toNat).flatMap
    (fun len => tuples (List.replicate len cps))

/-- The first strings of an enumeration: all of it, or up to one of the caps. -/
structure FirstWords (words all : List (List Nat)) : Prop where
  isPrefix : words <+: all
  complete : words = all ∨ words.length = kMaxCount ∨
    kMaxChars ≤ ((words.map List.length).sum : Nat)

theorem toUcs4_ne_nil (h : s ≠ []) : toUcs4 s ≠ [] := by
  obtain ⟨c, s, rfl⟩ := List.exists_cons_of_ne_nil h
  have hone (n : Nat) (t : List Nat) : (codePoint n t).1 ≠ [] := by
    rw [codePoint]
    split
    · split
      · split
        · exact List.cons_ne_nil _ _
        · exact List.cons_ne_nil _ _
      · exact List.cons_ne_nil _ _
    · split
      · exact List.cons_ne_nil _ _
      · exact List.cons_ne_nil _ _
  exact List.append_ne_nil_of_left_ne_nil (hone _ _) _

theorem map_getD (cps : List Nat) :
    (List.range cps.length).map (fun i => cps.getD i 0) = cps := by
  apply List.ext_getElem
  · rw [List.length_map, List.length_range]
  · intro i _ hi
    rw [List.getElem_map, List.getElem_range, List.getD_eq_getElem?_getD,
      List.getElem?_eq_getElem hi]
    rfl

theorem indices_words (cps : List Nat) (len : Nat) :
    (indices (List.replicate len cps.length)).map (List.map (fun i => cps.getD i 0)) =
      tuples (List.replicate len cps) := by
  rw [indices, List.map_replicate, ← tuples_map, List.map_replicate, map_getD]

theorem bruteRound_spec (cps : List Nat) (len room : Nat) (emitted : Int)
    (h : Placed (List.replicate len cps.length) idx) :
    ∃ is, is <+: indicesFrom (List.replicate len cps.length) idx ∧ is.length ≤ room ∧
      bruteRound cps len room emitted idx = (is.map (word cps), emitted + len * is.length) ∧
      (is = indicesFrom (List.replicate len cps.length) idx ∨ is.length = room ∨
        kMaxChars ≤ emitted + len * is.length) := by
  have hnone : emitted + len * (([] : List (List Nat)).length : Nat) = emitted := by
    rw [List.length_nil, Nat.cast_zero, Int.mul_zero, Int.add_zero]
  induction room generalizing emitted idx with
  | zero =>
    exact ⟨[], List.nil_prefix, Nat.le_refl 0, by rw [bruteRound, hnone]; rfl, .inr (.inl rfl)⟩
  | succ room ih =>
    rw [bruteRound]
    by_cases hcap : emitted < kMaxChars
    · rw [if_pos hcap]
      rcases advance_step h with ⟨hlast, hfrom⟩ | ⟨idx', hnext, hplaced, hfrom⟩
      · refine ⟨[idx], ?_, Nat.succ_le_succ (Nat.zero_le _), ?_, .inl hfrom.symm⟩
        · rw [hfrom]
        · rw [hlast, List.length_singleton, Nat.cast_one, Int.mul_one]
          rfl
      · have hzero : emitted + len + len * (([] : List (List Nat)).length : Nat) =
            emitted + len := by
          rw [List.length_nil, Nat.cast_zero, Int.mul_zero, Int.add_zero]
        obtain ⟨is, hprefix, hlen, hround, hend⟩ := ih (emitted + len) hplaced hzero
        have htotal : emitted + len + len * (is.length : Nat) =
            emitted + len * ((idx :: is).length : Nat) := by
          rw [List.length_cons, Nat.cast_add, Nat.cast_one, Int.mul_add, Int.mul_one]
          omega
        rw [htotal] at hround hend
        refine ⟨idx :: is, ?_, Nat.succ_le_succ hlen, ?_, ?_⟩
        · rw [hfrom]
          exact List.cons_prefix_cons.2 ⟨rfl, hprefix⟩
        · rw [hnext]
          dsimp only
          rw [hround]
          rfl
        · rw [hfrom]
          exact hend.imp (congrArg (idx :: ·)) (.imp_left (congrArg Nat.succ))
    · refine ⟨[], List.nil_prefix, Nat.zero_le _, ?_, .inr (.inr ?_)⟩
      · rw [if_neg hcap, hnone]
        rfl
      · rw [hnone]
        exact Int.not_lt.1 hcap

theorem placed_start (h : 0 < base) (len : Nat) :
    Placed (List.replicate len base) (List.replicate len 0) := by
  have hall : ∀ n ∈ List.replicate len base, 0 < n :=
    fun n hn => (List.eq_of_mem_replicate hn).symm ▸ h
  have hzero := placed_zero hall
  rw [List.map_replicate] at hzero
  exact hzero

theorem indicesFrom_start (h : 0 < base) (len : Nat) :
    indicesFrom (List.replicate len base) (List.replicate len 0) =
      indices (List.replicate len base) := by
  have hall : ∀ n ∈ List.replicate len base, 0 < n :=
    fun n hn => (List.eq_of_mem_replicate hn).symm ▸ h
  have hzero := indicesFrom_zero hall
  rw [List.map_replicate] at hzero
  exact hzero

theorem bruteRound_words (hcps : cps ≠ []) (len room : Nat) (emitted : Int) :
    ∃ words, words <+: tuples (List.replicate len cps) ∧ words.length ≤ room ∧
      bruteRound cps len room emitted (List.replicate len 0) =
        (words.map (List.flatMap fromUcs4), emitted + ((words.map List.length).sum : Nat)) ∧
      (words = tuples (List.replicate len cps) ∨ words.length = room ∨
        kMaxChars ≤ emitted + ((words.map List.length).sum : Nat)) := by
  have hbase := List.length_pos_iff.2 hcps
  obtain ⟨is, hprefix, hlen, hround, hend⟩ :=
    bruteRound_spec cps len room emitted (placed_start hbase len)
  rw [indicesFrom_start hbase] at hprefix hend
  have hwords := hprefix.map (List.map (fun i => cps.getD i 0))
  rw [indices_words] at hwords
  have hsum : ((is.map (List.map (fun i => cps.getD i 0))).map List.length).sum =
      len * is.length := by
    have hall : ∀ n ∈ (is.map (List.map (fun i => cps.getD i 0))).map List.length, n = len := by
      intro n hn
      obtain ⟨w, hw, rfl⟩ := List.mem_map.1 hn
      rw [length_of_mem_tuples (hwords.subset hw), List.length_replicate]
    rw [List.eq_replicate_of_mem hall, List.sum_replicate, List.length_map, List.length_map,
      Nat.nsmul_eq_mul, Nat.mul_comm]
  refine ⟨is.map (List.map (fun i => cps.getD i 0)), hwords, ?_, ?_, ?_⟩
  · rw [List.length_map]
    exact hlen
  · rw [hround, hsum, Nat.cast_mul, List.map_map]
    rfl
  · rw [hsum, Nat.cast_mul, List.length_map]
    refine hend.imp_left (fun hall => ?_)
    rw [hall, indices_words]

theorem bruteFrom_capped (h : ¬ (0 < room ∧ emitted < kMaxChars)) (cps : List Nat)
    (lens len : Nat) : bruteFrom cps lens len room emitted = [] := by
  cases lens with
  | zero => rfl
  | succ lens => rw [bruteFrom, if_neg h]

theorem bruteFrom_spec (hcps : cps ≠ []) (lens len room : Nat) (emitted : Int) :
    ∃ words, words <+: (List.range' len lens).flatMap (fun n => tuples (List.replicate n cps)) ∧
      words.length ≤ room ∧
      bruteFrom cps lens len room emitted = words.map (List.flatMap fromUcs4) ∧
      (words = (List.range' len lens).flatMap (fun n => tuples (List.replicate n cps)) ∨
        words.length = room ∨ kMaxChars ≤ emitted + ((words.map List.length).sum : Nat)) := by
  induction lens generalizing len room emitted with
  | zero => exact ⟨[], List.nil_prefix, Nat.zero_le _, rfl, .inl rfl⟩
  | succ lens ih =>
    rw [bruteFrom, List.range'_succ, List.flatMap_cons]
    by_cases hcap : 0 < room ∧ emitted < kMaxChars
    · obtain ⟨words, hprefix, hlen, hround, hend⟩ := bruteRound_words hcps len room emitted
      rw [if_pos hcap, hround]
      dsimp only
      rw [List.length_map]
      rcases hend with rfl | hstop
      · obtain ⟨rest, hrest, hrestLen, hleft, hrestEnd⟩ := ih (len + 1)
          (room - (tuples (List.replicate len cps)).length)
          (emitted + (((tuples (List.replicate len cps)).map List.length).sum : Nat))
        refine ⟨tuples (List.replicate len cps) ++ rest, ?_, ?_, ?_, ?_⟩
        · exact (List.prefix_append_right_inj _).2 hrest
        · rw [List.length_append]
          omega
        · rw [hleft, List.map_append]
        · rw [List.length_append, List.map_append, List.sum_append, Nat.cast_add, ← Int.add_assoc]
          refine hrestEnd.imp (fun hall => by rw [hall]) (.imp_left (fun hfull => ?_))
          omega
      · -- behind a cap nothing is given any more
        have hcapped : ¬ (0 < room - words.length ∧
            emitted + ((words.map List.length).sum : Nat) < kMaxChars) := by
          rintro ⟨hroom, hchars⟩
          rcases hstop with hfull | hfull
          · omega
          · exact Int.not_lt.2 hfull hchars
        refine ⟨words, hprefix.trans (List.prefix_append _ _), hlen, ?_, .inr hstop⟩
        rw [bruteFrom_capped hcapped, List.append_nil]
    · refine ⟨[], List.nil_prefix, Nat.zero_le _, by rw [if_neg hcap]; rfl, .inr ?_⟩
      rcases not_and_or.1 hcap with hroom | hfull
      · exact .inl (Nat.eq_zero_of_not_pos hroom).symm
      · right
        rw [List.map_nil, List.sum_nil, Nat.cast_zero, Int.add_zero]
        exact Int.not_lt.1 hfull

theorem brute_words (charset : QString) (minLen maxLen : Int) :
    ∃ words, FirstWords words (enumeration (toUcs4 charset) minLen maxLen) ∧
      brute charset minLen maxLen = words.map (List.flatMap fromUcs4) := by
  have hclamp : (if minLen < 1 then 1 else minLen) = max 1 minLen := by
    split
    · omega
    · omega
  rw [brute, hclamp]
  by_cases hempty : charset = []
  · have hnone : enumeration (toUcs4 charset) minLen maxLen = [] := by
      apply List.flatMap_eq_nil_iff.2
      intro len hlen
      have hpos : 0 < len := by
        have hle := (List.mem_range'_1.1 hlen).1
        omega
      obtain ⟨k, rfl⟩ := Nat.exists_eq_add_one.2 hpos
      rw [hempty]
      rfl
    rw [hnone, hempty]
    exact ⟨[], ⟨List.nil_prefix, .inl rfl⟩, rfl⟩
  · rw [if_neg (fun h => hempty (List.isEmpty_iff.1 h))]
    dsimp only
    by_cases hrange : maxLen < max 1 minLen
    · have hnone : enumeration (toUcs4 charset) minLen maxLen = [] := by
        rw [enumeration, show (maxLen + 1 - max 1 minLen).toNat = 0 by omega]
        rfl
      rw [hnone, if_pos hrange]
      exact ⟨[], ⟨List.nil_prefix, .inl rfl⟩, rfl⟩
    · rw [if_neg hrange]
      obtain ⟨words, hfront, -, hwords, hend⟩ := bruteFrom_spec (toUcs4_ne_nil hempty)
        (maxLen + 1 - max 1 minLen).toNat (max 1 minLen).toNat kMaxCount 0
      rw [Int.zero_add] at hend
      exact ⟨words, ⟨hfront, hend⟩, hwords⟩

end Brute

section Iterator

def joined (separator : QString) (items : List QString) : QString := separator.intercalate items

theorem joined_concat (separator : QString) (h : t ≠ []) (item : QString) :
    joined separator (t ++ [item]) = joined separator t ++ separator ++ item := by
  induction t with
  | nil => exact absurd rfl h
  | cons s t ih =>
    rw [joined, joined, List.cons_append]
    cases t with
    | nil =>
      rw [List.nil_append, List.intercalate_cons_cons, List.intercalate_singleton,
        List.intercalate_singleton]
    | cons u t =>
      have hrest := ih (List.cons_ne_nil u t)
      rw [joined, joined] at hrest
      rw [List.intercalate_cons_of_ne_nil (by exact List.cons_ne_nil _ _), hrest,
        List.intercalate_cons_of_ne_nil (List.cons_ne_nil u t), List.append_assoc,
        List.append_assoc, List.append_assoc, List.append_assoc, List.append_assoc]

theorem customIteratorFrom_spec (separator : QString) (h : ∀ items ∈ positions, items ≠ []) :
    customIteratorFrom separator done.length
        (((tuples done).map (joined separator)).take kMaxCount) positions =
      ((tuples (done ++ positions)).map (joined separator)).take kMaxCount := by
  induction positions generalizing done with
  | nil => rw [customIteratorFrom, List.append_nil]
  | cons items positions ih =>
    rw [List.forall_mem_cons] at h
    have hrows : ∀ front ∈ (tuples done).map (joined separator), items.map (fun item =>
        if done.length = 0 then item else front ++ separator ++ item) ≠ [] :=
      fun _ _ he => h.1 (List.map_eq_nil_iff.1 he)
    have hround : ((tuples done).map (joined separator)).flatMap (fun front =>
        items.map (fun item => if done.length = 0 then item else front ++ separator ++ item)) =
        (tuples (done ++ [items])).map (joined separator) := by
      rw [tuples_concat, List.map_flatMap, List.flatMap_map]
      apply List.flatMap_congr
      intro t ht
      have hlen := length_of_mem_tuples ht
      rw [List.map_map]
      apply List.map_congr_left
      intro item _
      rw [Function.comp_apply]
      split
      · rename_i hzero
        rw [hzero] at hlen
        rw [List.length_eq_zero_iff.1 hlen]
        exact List.intercalate_singleton.symm
      · rename_i hpos
        have ht : t ≠ [] := fun he => hpos (by rw [← hlen, he]; rfl)
        exact (joined_concat separator ht item).symm
    have hnext := @ih (done ++ [items]) h.2
    rw [List.length_append, List.length_singleton, List.append_assoc,
      List.singleton_append] at hnext
    rw [customIteratorFrom, pushRows_eq (by exact Nat.succ_pos _), List.nil_append,
      flatMap_take hrows, hround]
    exact hnext

theorem customIterator_product (h : positions ≠ []) (separator : QString) :
    customIterator positions separator =
      ((tuples positions).map (joined separator)).take kMaxCount := by
  rw [customIterator]
  by_cases hempty : positions.any (·.isEmpty) = true
  · obtain ⟨items, hmem, hitems⟩ := List.any_eq_true.1 hempty
    rw [hempty, Bool.or_true, if_pos rfl, tuples_eq_nil (List.isEmpty_iff.1 hitems ▸ hmem)]
    rfl
  · have hfull : ∀ items ∈ positions, items ≠ [] := by
      intro items hmem he
      exact hempty (List.any_eq_true.2 ⟨items, hmem, List.isEmpty_iff.2 he⟩)
    have hfirst := @customIteratorFrom_spec positions [] separator hfull
    rw [if_neg]
    · exact hfirst
    · rw [Bool.or_eq_true]
      exact not_or.2 ⟨fun he => h (List.isEmpty_iff.1 he), hempty⟩

theorem generators_prefixes (charset : QString) (minLen maxLen : Int)
    (positions : List (List QString)) (separator : QString) :
    (∃ words, FirstWords words (enumeration (toUcs4 charset) minLen maxLen) ∧
        brute charset minLen maxLen = words.map (List.flatMap fromUcs4)) ∧
      customIterator positions separator = if positions = [] then []
        else ((tuples positions).map (joined separator)).take kMaxCount := by
  refine ⟨brute_words charset minLen maxLen, ?_⟩
  split
  · rename_i hnone
    rw [hnone]
    rfl
  · rename_i hsome
    exact customIterator_product hsome separator

/-- No positions have one combination, which the generator omits. -/
theorem no_positions_no_combination :
    customIterator [] (utf16 "-") ≠
      ((tuples ([] : List (List QString))).map (joined (utf16 "-"))).take kMaxCount :=
  (List.cons_ne_nil _ _).symm

end Iterator

end Nullock.IntruderGenerators

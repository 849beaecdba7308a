import Nullock.Encodings

namespace Nullock

theorem ascii_alone {c : UInt16} (hc : c < 0x80) :
    isHighSurrogate c.toNat = false ∧ isLowSurrogate c.toNat = false := by
  have hlt := UInt16.lt_iff_toNat_lt.1 hc
  simp only [isHighSurrogate, isLowSurrogate, Bool.and_eq_false_iff, decide_eq_false_iff_not]
  exact ⟨.inl (fun hn => absurd (Nat.lt_of_le_of_lt hn hlt) (by decide)),
    .inl (fun hn => absurd (Nat.lt_of_le_of_lt hn hlt) (by decide))⟩

theorem wellFormed_after {c : UInt16} (hc : c < 0x80) (h : wellFormed (a ++ c :: b) = true) :
    wellFormed b = true := by
  rw [wellFormed, List.map_append, List.map_cons] at h
  rw [wellFormed]
  obtain ⟨hhigh, hlow⟩ := ascii_alone hc
  have hascii : wellFormedUnits (c.toNat :: b.map UInt16.toNat) = true →
      wellFormedUnits (b.map UInt16.toNat) = true := by
    intro hcons
    rwa [wellFormedUnits_cons hhigh hlow] at hcons
  generalize a.map UInt16.toNat = units at h
  induction hn : units.length using Nat.strongRecOn generalizing units with
  | ind n ih =>
    cases units with
    | nil => exact hascii h
    | cons m units =>
      rw [List.cons_append, wellFormedUnits.eq_def] at h
      dsimp only at h
      split at h
      · cases units with
        | nil =>
          rw [List.nil_append] at h
          dsimp only at h
          rw [hlow] at h
          cases h
        | cons d units =>
          rw [List.cons_append] at h
          dsimp only at h
          refine ih units.length ?_ units (Bool.and_eq_true_iff.1 h).2 rfl
          rw [← hn, List.length_cons, List.length_cons]
          omega
      · refine ih units.length ?_ units (Bool.and_eq_true_iff.1 h).2 rfl
        rw [← hn, List.length_cons]
        omega

theorem wellFormed_before {c : UInt16} (hc : c < 0x80) (h : wellFormed (a ++ c :: b) = true) :
    wellFormed a = true := by
  rw [wellFormed, List.map_append, List.map_cons] at h
  rw [wellFormed]
  generalize a.map UInt16.toNat = units at h ⊢
  induction units using wellFormedUnits.induct with
  | case1 => rfl
  | case2 n hhigh d s ih =>
    rw [List.cons_append, List.cons_append, wellFormedUnits, if_pos hhigh, Bool.and_eq_true] at h
    rw [wellFormedUnits, if_pos hhigh, h.1, ih h.2]
    rfl
  | case3 n hhigh =>
    rw [List.cons_append, List.nil_append, wellFormedUnits, if_pos hhigh, (ascii_alone hc).2] at h
    cases h
  | case4 n s hhigh ih =>
    rw [List.cons_append, wellFormedUnits.eq_def] at h
    dsimp only at h
    rw [if_neg hhigh, Bool.and_eq_true] at h
    rw [wellFormedUnits.eq_def]
    dsimp only
    rw [if_neg hhigh, h.1, ih h.2]
    rfl

theorem wellFormed_ascii {s : QString} (h : ∀ c ∈ s, c < 0x80) : wellFormed s = true := by
  rw [wellFormed]
  induction s with
  | nil => rfl
  | cons c s ih =>
    obtain ⟨hhigh, hlow⟩ := ascii_alone (h c List.mem_cons_self)
    rw [List.map_cons, wellFormedUnits_cons hhigh hlow]
    exact ih (fun d hd => h d (List.mem_cons_of_mem c hd))

theorem encodeUnit_alone (hhigh : isHighSurrogate n = false) (hlow : isLowSurrogate n = false)
    (s t : List Nat) : encodeUnit n s = ((encodeUnit n t).1, 0) := by
  rw [encodeUnit, encodeUnit, hhigh, hlow]
  split
  · rfl
  · split
    · rfl
    · rfl

theorem encodeUnit_pair (hhigh : isHighSurrogate n = true) (hlow : isLowSurrogate d = true)
    (s t : List Nat) : encodeUnit n (d :: s) = ((encodeUnit n (d :: t)).1, 1) := by
  have hbig : ¬n < 0x800 := by
    simp only [isHighSurrogate, Bool.and_eq_true, decide_eq_true_eq] at hhigh
    omega
  rw [encodeUnit, encodeUnit, if_neg (fun h => hbig (Nat.lt_trans h (by decide))), if_neg hbig,
    if_pos hhigh, if_neg (fun h => hbig (Nat.lt_trans h (by decide))), if_neg hbig, if_pos hhigh]
  dsimp only [List.head?_cons]
  rw [if_pos hlow]

theorem encodeUnits_append (h : wellFormedUnits a = true) (b : List Nat) :
    encodeUnits (a ++ b) = encodeUnits a ++ encodeUnits b := by
  induction a using wellFormedUnits.induct with
  | case1 => rfl
  | case2 n hhigh d s ih =>
    rw [wellFormedUnits, if_pos hhigh, Bool.and_eq_true] at h
    have hrest := ih h.2
    rw [encodeUnits, encodeUnits, encodeUnits] at hrest
    rw [List.cons_append, List.cons_append, encodeUnits, encodeUnits, encodeUnits, unfoldFrom,
      unfoldFrom, encodeUnit_pair hhigh h.1 (s ++ b) s, encodeUnit_pair hhigh h.1 s s, unfoldFrom,
      unfoldFrom, hrest, List.append_assoc]
  | case3 n hhigh =>
    rw [wellFormedUnits, if_pos hhigh] at h
    cases h
  | case4 n s hhigh ih =>
    rw [wellFormedUnits.eq_def] at h
    dsimp only at h
    rw [if_neg hhigh, Bool.and_eq_true, Bool.not_eq_true'] at h
    have hone := encodeUnit_alone (Bool.eq_false_iff.2 hhigh) h.1
    rw [List.cons_append, encodeUnits_cons (hone (s ++ b) s), encodeUnits_cons (hone s s), ih h.2,
      List.append_assoc]

theorem toUtf8_wellFormed_append (h : wellFormed a = true) (b : QString) :
    toUtf8 (a ++ b) = toUtf8 a ++ toUtf8 b := by
  rw [toUtf8, toUtf8, toUtf8, List.map_append, encodeUnits_append h, List.map_append]

theorem toUtf8_plain {s : QString} (h : ∀ c ∈ s, c < 0x80) (t : QString) :
    toUtf8 (s ++ t) = s.map UInt16.toUInt8 ++ toUtf8 t := by
  induction s with
  | nil => rfl
  | cons c s ih =>
    have hcons := toUtf8_append (h c List.mem_cons_self) [] (s ++ t)
    rw [ih (fun d hd => h d (List.mem_cons_of_mem c hd))] at hcons
    exact hcons

theorem toUInt16_toUInt8 {c : UInt16} (h : c < 0x80) : c.toUInt8.toUInt16 = c := by
  apply UInt16.toNat_inj.1
  have hlt := UInt16.lt_iff_toNat_lt.1 h
  rw [UInt8.toNat_toUInt16, UInt16.toNat_toUInt8]
  exact Nat.mod_eq_of_lt (Nat.lt_trans hlt (by decide))

theorem fromLatin1_plain {s : QString} (h : ∀ c ∈ s, c < 0x80) :
    fromLatin1 (s.map UInt16.toUInt8) = s := by
  rw [fromLatin1, List.map_map]
  exact (List.map_congr_left fun c hc => toUInt16_toUInt8 (h c hc)).trans (List.map_id _)

theorem toUtf8_plain_append {s : QString} (h : ∀ c ∈ s, c < 0x80) (t : QString) :
    toUtf8 (s ++ t) = toUtf8 s ++ toUtf8 t := by
  have hnil := toUtf8_plain h []
  rw [List.append_nil] at hnil
  rw [toUtf8_plain h, hnil, List.append_assoc]
  rfl

theorem toUtf8_ascii_prefix {t : QString} (h : ∀ c ∈ p, c < 0x80 ∧ c ≠ 0x3F)
    (ht : toUtf8 t = p ++ r) : ∃ u, t = fromLatin1 p ++ u ∧ toUtf8 u = r := by
  induction p generalizing t with
  | nil => exact ⟨t, rfl, ht⟩
  | cons c p ih =>
    obtain ⟨hc, hne⟩ := h c List.mem_cons_self
    obtain ⟨b, rfl, hb⟩ := toUtf8_cons hc hne ht
    obtain ⟨u, rfl, hu⟩ := ih (fun d hd => h d (List.mem_cons_of_mem c hd)) hb
    exact ⟨u, rfl, hu⟩

end Nullock

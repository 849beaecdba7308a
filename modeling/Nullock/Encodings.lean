import Nullock.Text

namespace Nullock

def isHighSurrogate (n : Nat) : Bool := 0xD800 ≤ n && n < 0xDC00

def isLowSurrogate (n : Nat) : Bool := 0xDC00 ≤ n && n < 0xE000

def wellFormedUnits : List Nat → Bool
  | [] => true
  | n :: s =>
    if isHighSurrogate n then
      match s with
      | d :: s' => isLowSurrogate d && wellFormedUnits s'
      | [] => false
    else !isLowSurrogate n && wellFormedUnits s

def pairPoint (n d : Nat) : Nat := 0x10000 + (n - 0xD800) * 1024 + (d - 0xDC00)

def unfoldFrom (f : Nat → List Nat → List Nat × Nat) : Nat → List Nat → List Nat
  | _, [] => []
  | skip + 1, _ :: s => unfoldFrom f skip s
  | 0, n :: s => (f n s).1 ++ unfoldFrom f (f n s).2 s

theorem unfoldFrom_skip (f : Nat → List Nat → List Nat × Nat) (taken s : List Nat) :
    unfoldFrom f taken.length (taken ++ s) = unfoldFrom f 0 s := by
  induction taken with
  | nil => rfl
  | cons n taken ih => exact ih

/-- A code unit in UTF-8; a lone half of a pair becomes a question mark. -/
def encodeUnit (n : Nat) (s : List Nat) : List Nat × Nat :=
  if n < 0x80 then ([n], 0)
  else if n < 0x800 then ([0xC0 + n / 64, 0x80 + n % 64], 0)
  else if isHighSurrogate n then
    match s.head? with
    | some d =>
      if isLowSurrogate d then
        let p := pairPoint n d
        ([0xF0 + p / 262144, 0x80 + p / 4096 % 64, 0x80 + p / 64 % 64, 0x80 + p % 64], 1)
      else ([0x3F], 0)
    | none => ([0x3F], 0)
  else if isLowSurrogate n then ([0x3F], 0)
  else ([0xE0 + n / 4096, 0x80 + n / 64 % 64, 0x80 + n % 64], 0)

def encodeUnits (s : List Nat) : List Nat := unfoldFrom encodeUnit 0 s

def isTail (b : Nat) : Bool := 0x80 ≤ b && b < 0xC0

/-- The code units a byte begins; one that begins none becomes a replacement. -/
def decodeByte (a : Nat) (s : List Nat) : List Nat × Nat :=
  let b := s.getD 0 0
  let c := s.getD 1 0
  let d := s.getD 2 0
  if a < 0x80 then ([a], 0)
  else if a < 0xC2 then ([0xFFFD], 0)
  else if a < 0xE0 then
    if isTail b then ([(a - 0xC0) * 64 + (b - 0x80)], 1) else ([0xFFFD], 0)
  else if a < 0xF0 then
    let n := (a - 0xE0) * 4096 + (b - 0x80) * 64 + (c - 0x80)
    if isTail b && isTail c && 0x800 ≤ n && !isHighSurrogate n && !isLowSurrogate n then ([n], 2)
    else ([0xFFFD], 0)
  else
    let p := (a - 0xF0) * 262144 + (b - 0x80) * 4096 + (c - 0x80) * 64 + (d - 0x80)
    if isTail b && isTail c && isTail d && 0x10000 ≤ p && p < 0x110000 then
      ([0xD800 + (p - 0x10000) / 1024, 0xDC00 + (p - 0x10000) % 1024], 3)
    else ([0xFFFD], 0)

def decodeBytes (s : List Nat) : List Nat := unfoldFrom decodeByte 0 s

section RoundTrip

theorem isTail_mod (k : Nat) : isTail (0x80 + k % 64) = true := by
  simp only [isTail, Bool.and_eq_true, decide_eq_true_eq]
  omega

theorem decodeByte_two (h : 0x80 ≤ n) (h' : n < 0x800) (s : List Nat) :
    decodeByte (0xC0 + n / 64) ((0x80 + n % 64) :: s) = ([n], 1) := by
  have hvalue : (0xC0 + n / 64 - 0xC0) * 64 + (0x80 + n % 64 - 0x80) = n := by omega
  rw [decodeByte, if_neg (by omega), if_neg (by omega), if_pos (by omega)]
  simp only [List.getD_cons_zero]
  rw [if_pos (isTail_mod n), hvalue]

theorem decodeByte_three (h : 0x800 ≤ n) (h' : n < 0x10000) (hhigh : isHighSurrogate n = false)
    (hlow : isLowSurrogate n = false) (s : List Nat) :
    decodeByte (0xE0 + n / 4096) ((0x80 + n / 64 % 64) :: (0x80 + n % 64) :: s) = ([n], 2) := by
  have hvalue : (0xE0 + n / 4096 - 0xE0) * 4096 + (0x80 + n / 64 % 64 - 0x80) * 64 +
      (0x80 + n % 64 - 0x80) = n := by omega
  rw [decodeByte, if_neg (by omega), if_neg (by omega), if_neg (by omega), if_pos (by omega)]
  simp only [List.getD_cons_zero, List.getD_cons_succ]
  rw [hvalue, isTail_mod, isTail_mod, hhigh, hlow, decide_eq_true h]
  rfl

theorem decodeByte_four (hhigh : isHighSurrogate n = true) (hlow : isLowSurrogate d = true)
    (s : List Nat) :
    decodeByte (0xF0 + pairPoint n d / 262144) ((0x80 + pairPoint n d / 4096 % 64) ::
      (0x80 + pairPoint n d / 64 % 64) :: (0x80 + pairPoint n d % 64) :: s) = ([n, d], 3) := by
  simp only [isHighSurrogate, isLowSurrogate, Bool.and_eq_true, decide_eq_true_eq] at hhigh hlow
  have hpoint : pairPoint n d = 0x10000 + (n - 0xD800) * 1024 + (d - 0xDC00) := rfl
  generalize pairPoint n d = p at hpoint
  have hvalue : (0xF0 + p / 262144 - 0xF0) * 262144 + (0x80 + p / 4096 % 64 - 0x80) * 4096 +
      (0x80 + p / 64 % 64 - 0x80) * 64 + (0x80 + p % 64 - 0x80) = p := by omega
  have hfirst : 0xD800 + (p - 0x10000) / 1024 = n := by omega
  have hsecond : 0xDC00 + (p - 0x10000) % 1024 = d := by omega
  have hlow : 0x10000 ≤ p := by omega
  have hhigh : p < 0x110000 := by omega
  rw [decodeByte, if_neg (by omega), if_neg (by omega), if_neg (by omega), if_neg (by omega)]
  simp only [List.getD_cons_zero, List.getD_cons_succ]
  rw [hvalue, hfirst, hsecond, isTail_mod, isTail_mod, isTail_mod, decide_eq_true hlow,
    decide_eq_true hhigh]
  rfl

theorem decodeBytes_head (b : Nat) (tail units : List Nat)
    (h : ∀ rest, decodeByte b (tail ++ rest) = (units, tail.length)) (rest : List Nat) :
    decodeBytes (b :: (tail ++ rest)) = units ++ decodeBytes rest := by
  rw [decodeBytes, unfoldFrom, h, unfoldFrom_skip]
  rfl

theorem encodeUnits_cons (h : encodeUnit n s = (bytes, 0)) :
    encodeUnits (n :: s) = bytes ++ encodeUnits s := by
  rw [encodeUnits, unfoldFrom, h]
  rfl

theorem decodeBytes_encodeUnits (h : wellFormedUnits s = true) (hs : ∀ n ∈ s, n < 0x10000) :
    decodeBytes (encodeUnits s) = s := by
  induction s using wellFormedUnits.induct with
  | case1 => rfl
  | case2 n hhigh d s ih =>
    rw [wellFormedUnits, if_pos hhigh, Bool.and_eq_true] at h
    rw [List.forall_mem_cons, List.forall_mem_cons] at hs
    have hbig : 0x800 ≤ n := by
      simp only [isHighSurrogate, Bool.and_eq_true, decide_eq_true_eq] at hhigh
      omega
    have hbytes : encodeUnits (n :: d :: s) =
        [0xF0 + pairPoint n d / 262144, 0x80 + pairPoint n d / 4096 % 64,
          0x80 + pairPoint n d / 64 % 64, 0x80 + pairPoint n d % 64] ++ encodeUnits s := by
      rw [encodeUnits, unfoldFrom, encodeUnit, if_neg (by omega), if_neg (by omega),
        if_pos hhigh]
      dsimp only [List.head?_cons]
      rw [if_pos h.1]
      rfl
    have hread := decodeBytes_head _ [0x80 + pairPoint n d / 4096 % 64,
      0x80 + pairPoint n d / 64 % 64, 0x80 + pairPoint n d % 64] [n, d]
      (fun rest => decodeByte_four hhigh h.1 rest) (encodeUnits s)
    rw [ih h.2 hs.2.2] at hread
    rw [hbytes]
    exact hread
  | case3 n hhigh =>
    rw [wellFormedUnits, if_pos hhigh] at h
    cases h
  | case4 n s hhigh ih =>
    rw [wellFormedUnits.eq_def] at h
    dsimp only at h
    rw [if_neg hhigh, Bool.and_eq_true, Bool.not_eq_true'] at h
    rw [List.forall_mem_cons] at hs
    have hhigh := Bool.eq_false_iff.2 hhigh
    rcases Nat.lt_or_ge n 0x80 with hone | hone
    · have hbytes : encodeUnit n s = ([n], 0) := by rw [encodeUnit, if_pos hone]
      have hread := decodeBytes_head n [] [n]
        (fun rest => by rw [decodeByte, if_pos hone]; rfl) (encodeUnits s)
      rw [ih h.2 hs.2] at hread
      rw [encodeUnits_cons hbytes]
      exact hread
    · rcases Nat.lt_or_ge n 0x800 with htwo | htwo
      · have hbytes : encodeUnit n s = ([0xC0 + n / 64, 0x80 + n % 64], 0) := by
          rw [encodeUnit, if_neg (by omega), if_pos htwo]
        have hread := decodeBytes_head _ [0x80 + n % 64] [n]
          (fun rest => decodeByte_two hone htwo rest) (encodeUnits s)
        rw [ih h.2 hs.2] at hread
        rw [encodeUnits_cons hbytes]
        exact hread
      · have hbytes : encodeUnit n s =
            ([0xE0 + n / 4096, 0x80 + n / 64 % 64, 0x80 + n % 64], 0) := by
          rw [encodeUnit, if_neg (by omega), if_neg (by omega), hhigh,
            if_neg Bool.false_ne_true, h.1, if_neg Bool.false_ne_true]
        have hread := decodeBytes_head _ [0x80 + n / 64 % 64, 0x80 + n % 64] [n]
          (fun rest => decodeByte_three htwo hs.1 hhigh h.1 rest) (encodeUnits s)
        rw [ih h.2 hs.2] at hread
        rw [encodeUnits_cons hbytes]
        exact hread

theorem mem_unfoldFrom {f : Nat → List Nat → List Nat × Nat} (h : x ∈ unfoldFrom f skip s) :
    ∃ n ∈ s, ∃ rest, x ∈ (f n rest).1 := by
  induction s generalizing skip with
  | nil =>
    rw [unfoldFrom] at h
    cases h
  | cons n s ih =>
    cases skip with
    | zero =>
      rw [unfoldFrom, List.mem_append] at h
      rcases h with h | h
      · exact ⟨n, List.mem_cons_self, s, h⟩
      · obtain ⟨m, hm, hx⟩ := ih h
        exact ⟨m, List.mem_cons_of_mem n hm, hx⟩
    | succ skip =>
      obtain ⟨m, hm, hx⟩ := ih h
      exact ⟨m, List.mem_cons_of_mem n hm, hx⟩

theorem encodeUnit_lt (hn : n < 0x10000) (h : b ∈ (encodeUnit n s).1) : b < 256 := by
  rw [encodeUnit] at h
  split at h
  · rw [List.mem_singleton.1 h]
    omega
  · split at h
    · simp only [List.mem_cons, List.not_mem_nil, or_false] at h
      omega
    · split at h
      · rename_i hhigh
        simp only [isHighSurrogate, Bool.and_eq_true, decide_eq_true_eq] at hhigh
        split at h
        · rename_i d _
          split at h
          · rename_i hlow
            simp only [isLowSurrogate, Bool.and_eq_true, decide_eq_true_eq] at hlow
            have hpoint : pairPoint n d = 0x10000 + (n - 0xD800) * 1024 + (d - 0xDC00) := rfl
            generalize pairPoint n d = p at h hpoint
            simp only [List.mem_cons, List.not_mem_nil, or_false] at h
            rcases h with rfl | rfl | rfl | rfl
            · omega
            · omega
            · omega
            · omega
          · rw [List.mem_singleton.1 h]
            omega
        · rw [List.mem_singleton.1 h]
          omega
      · split at h
        · rw [List.mem_singleton.1 h]
          omega
        · simp only [List.mem_cons, List.not_mem_nil, or_false] at h
          omega

theorem decodeBytes_ascii (h : ∀ b ∈ s, b < 0x80) : decodeBytes s = s := by
  induction s with
  | nil => rfl
  | cons b s ih =>
    rw [List.forall_mem_cons] at h
    have hread := decodeBytes_head b [] [b]
      (fun rest => by rw [decodeByte, if_pos h.1]; rfl) s
    rw [ih h.2] at hread
    exact hread

end RoundTrip

def wellFormed (s : QString) : Bool := wellFormedUnits (s.map UInt16.toNat)

def toUtf8 (s : QString) : QByteArray :=
  (encodeUnits (s.map UInt16.toNat)).map Nat.toUInt8

def fromUtf8 (s : QByteArray) : QString :=
  (decodeBytes (s.map UInt8.toNat)).map Nat.toUInt16

def QString.fromUtf8 (s : QByteArray) : QString :=
  Nullock.fromUtf8 (if [0xEF, 0xBB, 0xBF].isPrefixOf s then s.drop 3 else s)

theorem toNat_map_lt (s : QString) : ∀ n ∈ s.map UInt16.toNat, n < 0x10000 := by
  intro n hn
  obtain ⟨c, _, rfl⟩ := List.mem_map.1 hn
  exact c.toNat_lt

theorem encodeUnits_lt (s : QString) (h : b ∈ encodeUnits (s.map UInt16.toNat)) : b < 256 := by
  obtain ⟨n, hn, rest, hmem⟩ := mem_unfoldFrom h
  exact encodeUnit_lt (toNat_map_lt s n hn) hmem

theorem fromUtf8_toUtf8 (h : wellFormed s = true) : fromUtf8 (toUtf8 s) = s := by
  have hbytes : ((encodeUnits (s.map UInt16.toNat)).map Nat.toUInt8).map UInt8.toNat =
      encodeUnits (s.map UInt16.toNat) := by
    rw [List.map_map]
    conv => rhs; rw [← List.map_id (encodeUnits (s.map UInt16.toNat))]
    apply List.map_congr_left
    intro b hb
    exact UInt8.toNat_ofNat_of_lt (encodeUnits_lt s hb)
  rw [fromUtf8, toUtf8, hbytes, decodeBytes_encodeUnits h (toNat_map_lt s), List.map_map]
  conv => rhs; rw [← List.map_id s]
  apply List.map_congr_left
  intro c _
  exact UInt16.ofNat_toNat

theorem fromUtf8_ascii (h : ∀ b ∈ s, b < 0x80) : fromUtf8 s = fromLatin1 s := by
  have hascii : ∀ n ∈ s.map UInt8.toNat, n < 0x80 := by
    intro n hn
    obtain ⟨b, hb, rfl⟩ := List.mem_map.1 hn
    exact UInt8.lt_iff_toNat_lt.1 (h b hb)
  rw [fromUtf8, decodeBytes_ascii hascii, List.map_map, fromLatin1]
  apply List.map_congr_left
  intro b _
  apply UInt16.toNat_inj.1
  rw [UInt8.toNat_toUInt16]
  exact Nat.mod_eq_of_lt (Nat.lt_trans b.toNat_lt (by decide))

section Split

theorem encodeUnit_append (hc : c < 0x80) (n : Nat) (a b : List Nat) :
    encodeUnit n (a ++ c :: b) = encodeUnit n a := by
  have hlow : isLowSurrogate c = false := by
    simp only [isLowSurrogate, Bool.and_eq_false_iff, decide_eq_false_iff_not]
    omega
  rw [encodeUnit, encodeUnit]
  cases a with
  | nil =>
    dsimp only [List.nil_append, List.head?_cons, List.head?_nil]
    rw [hlow, if_neg Bool.false_ne_true]
  | cons d a => rfl

theorem encodeUnit_taken_le (n : Nat) (s : List Nat) : (encodeUnit n s).2 ≤ s.length := by
  rw [encodeUnit]
  split
  · exact Nat.zero_le _
  · split
    · exact Nat.zero_le _
    · split
      · cases s with
        | nil => exact Nat.zero_le _
        | cons d s =>
          dsimp only [List.head?_cons]
          split
          · exact Nat.succ_le_succ (Nat.zero_le _)
          · exact Nat.zero_le _
      · split
        · exact Nat.zero_le _
        · exact Nat.zero_le _

theorem encodeUnit_ascii (h : b ∈ (encodeUnit n s).1) (hb : b < 0x80) (hne : b ≠ 0x3F) :
    n = b ∧ encodeUnit n s = ([b], 0) := by
  rw [encodeUnit] at h ⊢
  split at h
  · rename_i hn
    rw [if_pos hn, List.mem_singleton.1 h]
    exact ⟨rfl, rfl⟩
  · exfalso
    split at h
    · simp only [List.mem_cons, List.not_mem_nil, or_false] at h
      omega
    · split at h
      · split at h
        · split at h
          · simp only [List.mem_cons, List.not_mem_nil, or_false] at h
            omega
          · exact hne (List.mem_singleton.1 h)
        · exact hne (List.mem_singleton.1 h)
      · split at h
        · exact hne (List.mem_singleton.1 h)
        · simp only [List.mem_cons, List.not_mem_nil, or_false] at h
          omega

theorem unfoldFrom_encodeUnit_append (hc : c < 0x80) (hskip : skip ≤ a.length) (b : List Nat) :
    unfoldFrom encodeUnit skip (a ++ c :: b) =
      unfoldFrom encodeUnit skip a ++ c :: encodeUnits b := by
  induction a generalizing skip with
  | nil =>
    have hone : encodeUnit c b = ([c], 0) := by rw [encodeUnit, if_pos hc]
    rw [Nat.le_zero.1 hskip]
    exact encodeUnits_cons hone
  | cons d a ih =>
    cases skip with
    | zero =>
      rw [List.cons_append, unfoldFrom, unfoldFrom, encodeUnit_append hc,
        ih (encodeUnit_taken_le d a), List.append_assoc]
    | succ skip => exact ih (Nat.le_of_succ_le_succ hskip)

theorem unfoldFrom_encodeUnit_split (hc : c < 0x80) (hne : c ≠ 0x3F)
    (h : unfoldFrom encodeUnit skip s = x ++ c :: y) :
    ∃ a b, s = a ++ c :: b ∧ unfoldFrom encodeUnit skip a = x ∧ encodeUnits b = y := by
  induction s generalizing skip x with
  | nil =>
    rw [unfoldFrom] at h
    exact absurd h.symm (List.append_ne_nil_of_right_ne_nil _ (List.cons_ne_nil _ _))
  | cons n s ih =>
    cases skip with
    | zero =>
      rw [unfoldFrom] at h
      rcases List.append_eq_append_iff.1 h with ⟨z, hx, hz⟩ | ⟨z, hbytes, hz⟩
      · obtain ⟨a, b, hs, ha, hb⟩ := ih hz
        refine ⟨n :: a, b, by rw [hs]; rfl, ?_, hb⟩
        rw [hs, encodeUnit_append hc] at hx ha
        rw [unfoldFrom, ha, hx]
      · cases z with
        | nil =>
          rw [List.nil_append] at hz
          rw [List.append_nil] at hbytes
          obtain ⟨a, b, hs, ha, hb⟩ := ih (x := []) hz.symm
          refine ⟨n :: a, b, by rw [hs]; rfl, ?_, hb⟩
          rw [hs, encodeUnit_append hc] at hbytes ha
          rw [unfoldFrom, ha, hbytes, List.append_nil]
        | cons e z =>
          rw [List.cons_append, List.cons.injEq] at hz
          have hmem : c ∈ (encodeUnit n s).1 := by
            rw [hbytes, hz.1]
            exact List.mem_append_right _ List.mem_cons_self
          obtain ⟨hn, hone⟩ := encodeUnit_ascii hmem hc hne
          rw [hone] at hbytes hz
          have hlen := congrArg List.length hbytes
          rw [List.length_append, List.length_singleton, List.length_cons] at hlen
          have hxnil : x = [] := List.eq_nil_of_length_eq_zero (by omega)
          have hznil : z = [] := List.eq_nil_of_length_eq_zero (by omega)
          rw [hznil, List.nil_append] at hz
          exact ⟨[], s, by rw [hn]; rfl, by rw [hxnil]; rfl, hz.2.symm⟩
    | succ skip =>
      obtain ⟨a, b, hs, ha, hb⟩ := ih h
      exact ⟨n :: a, b, by rw [hs]; rfl, ha, hb⟩

theorem toUtf8_append {c : UInt16} (hc : c < 0x80) (a b : QString) :
    toUtf8 (a ++ c :: b) = toUtf8 a ++ c.toUInt8 :: toUtf8 b := by
  have hlt := UInt16.lt_iff_toNat_lt.1 hc
  rw [toUtf8, List.map_append, List.map_cons, encodeUnits,
    unfoldFrom_encodeUnit_append hlt (Nat.zero_le _), List.map_append, List.map_cons]
  rfl

theorem toUtf8_fromLatin1 (h : ∀ c ∈ s, c < 0x80) : toUtf8 (fromLatin1 s) = s := by
  induction s with
  | nil => rfl
  | cons c s ih =>
    have hc : c.toUInt16 < 0x80 := by
      rw [UInt16.lt_iff_toNat_lt, UInt8.toNat_toUInt16]
      exact UInt8.lt_iff_toNat_lt.1 (h c List.mem_cons_self)
    have hcons := toUtf8_append hc [] (fromLatin1 s)
    rw [UInt8.toUInt8_toUInt16, ih (fun d hd => h d (List.mem_cons_of_mem c hd))] at hcons
    exact hcons

theorem toUtf8_split {c : UInt8} {t : QString} (hc : c < 0x80) (hne : c ≠ 0x3F)
    (h : toUtf8 t = x ++ c :: y) :
    ∃ a b, t = a ++ c.toUInt16 :: b ∧ toUtf8 a = x ∧ toUtf8 b = y := by
  rw [toUtf8] at h
  obtain ⟨x', z', hunits, hx, hz⟩ := List.map_eq_append_iff.1 h
  obtain ⟨n, y', rfl, hn, hy⟩ := List.map_eq_cons_iff.1 hz
  have hnat : n = c.toNat := by
    rw [← hn]
    refine (UInt8.toNat_ofNat_of_lt (encodeUnits_lt t ?_)).symm
    rw [hunits]
    exact List.mem_append_right _ List.mem_cons_self
  have hlt : n < 0x80 := by
    rw [hnat]
    exact UInt8.lt_iff_toNat_lt.1 hc
  have hne' : n ≠ 0x3F := by
    rw [hnat]
    exact fun he => hne (UInt8.toNat_inj.1 he)
  obtain ⟨a', b', ht, ha, hb⟩ := unfoldFrom_encodeUnit_split hlt hne' hunits
  obtain ⟨a, u, hu, rfl, hrest⟩ := List.map_eq_append_iff.1 ht
  obtain ⟨d, b, rfl, hd, rfl⟩ := List.map_eq_cons_iff.1 hrest
  have hchar : d = c.toUInt16 := by
    apply UInt16.toNat_inj.1
    rw [hd, hnat, UInt8.toNat_toUInt16]
  refine ⟨a, b, by rw [hu, hchar], ?_, ?_⟩
  · rw [toUtf8, encodeUnits, ha, hx]
  · rw [toUtf8, hb, hy]

theorem mem_toUtf8_ascii {c : UInt8} (hc : c < 0x80) (hne : c ≠ 0x3F) (h : c ∈ toUtf8 v) :
    c.toUInt16 ∈ v := by
  obtain ⟨x, y, hxy⟩ := List.append_of_mem h
  obtain ⟨a, b, hv, -⟩ := toUtf8_split hc hne hxy
  rw [hv]
  exact List.mem_append_right a List.mem_cons_self

theorem encodeUnit_ne_nil (n : Nat) (s : List Nat) : (encodeUnit n s).1 ≠ [] := by
  rw [encodeUnit]
  split
  · exact List.cons_ne_nil _ _
  · split
    · exact List.cons_ne_nil _ _
    · split
      · split
        · split
          · exact List.cons_ne_nil _ _
          · exact List.cons_ne_nil _ _
        · exact List.cons_ne_nil _ _
      · split
        · exact List.cons_ne_nil _ _
        · exact List.cons_ne_nil _ _

theorem toUtf8_eq_nil {t : QString} (h : toUtf8 t = []) : t = [] := by
  cases t with
  | nil => rfl
  | cons c t =>
    rw [toUtf8, List.map_eq_nil_iff, List.map_cons, encodeUnits, unfoldFrom,
      List.append_eq_nil_iff] at h
    exact absurd h.1 (encodeUnit_ne_nil _ _)

theorem toUtf8_cons {c : UInt8} {t : QString} (hc : c < 0x80) (hne : c ≠ 0x3F)
    (h : toUtf8 t = c :: y) : ∃ b, t = c.toUInt16 :: b ∧ toUtf8 b = y := by
  obtain ⟨a, b, ht, ha, hb⟩ := toUtf8_split (x := []) hc hne h
  rw [toUtf8_eq_nil ha] at ht
  exact ⟨b, ht, hb⟩

theorem lt_length_of_isTail {s : List Nat} (h : isTail (s.getD i 0) = true) : i < s.length := by
  by_contra hn
  rw [List.getD_eq_getElem?_getD, List.getElem?_eq_none (Nat.le_of_not_lt hn)] at h
  exact absurd h (by decide)

theorem decodeByte_congr {s t : List Nat} (h0 : s.getD 0 0 = t.getD 0 0)
    (h1 : 0xE0 ≤ n → s.getD 1 0 = t.getD 1 0) (h2 : 0xF0 ≤ n → s.getD 2 0 = t.getD 2 0) :
    decodeByte n s = decodeByte n t := by
  rw [decodeByte, decodeByte, h0]
  by_cases hE : 0xE0 ≤ n
  · rw [h1 hE]
    by_cases hF : 0xF0 ≤ n
    · rw [h2 hF]
    · simp only [if_pos (Nat.lt_of_not_le hF)]
  · simp only [if_pos (Nat.lt_of_not_le hE)]

theorem decodeByte_first (h : 0x80 ≤ n) (hb : isTail (s.getD 0 0) = false) :
    decodeByte n s = ([0xFFFD], 0) := by
  rw [decodeByte, if_neg (Nat.not_lt_of_le h), hb]
  split
  · rfl
  · split
    · rfl
    · split
      · rfl
      · rfl

theorem decodeByte_second (h : 0xE0 ≤ n) (hc : isTail (s.getD 1 0) = false) :
    decodeByte n s = ([0xFFFD], 0) := by
  rw [decodeByte, if_neg (by omega), if_neg (by omega), if_neg (by omega), hc,
    Bool.and_false]
  split
  · rfl
  · rfl

theorem decodeByte_third (h : 0xF0 ≤ n) (hd : isTail (s.getD 2 0) = false) :
    decodeByte n s = ([0xFFFD], 0) := by
  rw [decodeByte, if_neg (by omega), if_neg (by omega), if_neg (by omega), if_neg (by omega), hd,
    Bool.and_false]
  rfl

theorem decodeByte_append (hc : c < 0x80) (n : Nat) (a b : List Nat) :
    decodeByte n (a ++ c :: b) = decodeByte n a := by
  have htail : isTail c = false := by
    simp only [isTail, Bool.and_eq_false_iff, decide_eq_false_iff_not]
    omega
  match a with
  | [] =>
    by_cases h : 0x80 ≤ n
    · rw [List.nil_append, decodeByte_first (s := c :: b) h htail, decodeByte_first h rfl]
    · rw [decodeByte, decodeByte, if_pos (Nat.lt_of_not_le h), if_pos (Nat.lt_of_not_le h)]
  | [x] =>
    by_cases h : 0xE0 ≤ n
    · rw [decodeByte_second (s := [x] ++ c :: b) h htail,
        decodeByte_second h rfl]
    · exact decodeByte_congr rfl (fun hE => absurd hE h) (fun hF => absurd hF (by omega))
  | [x, y] =>
    by_cases h : 0xF0 ≤ n
    · rw [decodeByte_third (s := [x, y] ++ c :: b) h htail,
        decodeByte_third h rfl]
    · exact decodeByte_congr rfl (fun _ => rfl) (fun hF => absurd hF h)
  | x :: y :: z :: a => rfl

theorem decodeByte_taken_le (n : Nat) (s : List Nat) : (decodeByte n s).2 ≤ s.length := by
  rw [decodeByte]
  split
  · exact Nat.zero_le _
  · split
    · exact Nat.zero_le _
    · split
      · split
        · rename_i h
          exact lt_length_of_isTail h
        · exact Nat.zero_le _
      · split
        · dsimp only
          split
          · rename_i h
            simp only [Bool.and_eq_true] at h
            exact lt_length_of_isTail h.1.1.1.2
          · exact Nat.zero_le _
        · dsimp only
          split
          · rename_i h
            simp only [Bool.and_eq_true] at h
            exact lt_length_of_isTail h.1.1.2
          · exact Nat.zero_le _

theorem unfoldFrom_decodeByte_append (hc : c < 0x80) (hskip : skip ≤ a.length) (b : List Nat) :
    unfoldFrom decodeByte skip (a ++ c :: b) =
      unfoldFrom decodeByte skip a ++ c :: decodeBytes b := by
  induction a generalizing skip with
  | nil =>
    rw [Nat.le_zero.1 hskip]
    exact decodeBytes_head c [] [c] (fun rest => by rw [decodeByte, if_pos hc]; rfl) b
  | cons d a ih =>
    cases skip with
    | zero =>
      rw [List.cons_append, unfoldFrom, unfoldFrom, decodeByte_append hc,
        ih (decodeByte_taken_le d a), List.append_assoc]
    | succ skip => exact ih (Nat.le_of_succ_le_succ hskip)

theorem fromUtf8_append {c : UInt8} (hc : c < 0x80) (a b : QByteArray) :
    fromUtf8 (a ++ c :: b) = fromUtf8 a ++ c.toUInt16 :: fromUtf8 b := by
  have hlt := UInt8.lt_iff_toNat_lt.1 hc
  rw [fromUtf8, List.map_append, List.map_cons, decodeBytes,
    unfoldFrom_decodeByte_append hlt (Nat.zero_le _), List.map_append, List.map_cons,
    Nat.toUInt16, UInt16.ofNat_uInt8ToNat]
  rfl

theorem decodeByte_ascii (h : x ∈ (decodeByte n s).1) (hx : x < 0x80) : x = n := by
  rw [decodeByte] at h
  split at h
  · exact List.mem_singleton.1 h
  split at h
  · rw [List.mem_singleton.1 h] at hx
    omega
  split at h
  · split at h
    · rw [List.mem_singleton.1 h] at hx
      omega
    · rw [List.mem_singleton.1 h] at hx
      omega
  split at h
  · dsimp only at h
    split at h
    · rename_i hn
      simp only [Bool.and_eq_true, decide_eq_true_eq] at hn
      rw [List.mem_singleton.1 h] at hx
      omega
    · rw [List.mem_singleton.1 h] at hx
      omega
  · dsimp only at h
    split at h
    · simp only [List.mem_cons, List.not_mem_nil, or_false] at h
      omega
    · rw [List.mem_singleton.1 h] at hx
      omega

theorem decodeByte_lt (h : x ∈ (decodeByte n s).1) : x < 0x10000 := by
  rw [decodeByte] at h
  split at h
  · rw [List.mem_singleton.1 h]
    omega
  split at h
  · rw [List.mem_singleton.1 h]
    omega
  split at h
  · split at h
    · rename_i ht
      simp only [isTail, Bool.and_eq_true, decide_eq_true_eq] at ht
      rw [List.mem_singleton.1 h]
      omega
    · rw [List.mem_singleton.1 h]
      omega
  split at h
  · dsimp only at h
    split at h
    · rename_i hn
      simp only [isTail, Bool.and_eq_true, decide_eq_true_eq] at hn
      rw [List.mem_singleton.1 h]
      omega
    · rw [List.mem_singleton.1 h]
      omega
  · dsimp only at h
    split at h
    · rename_i hp
      simp only [Bool.and_eq_true, decide_eq_true_eq] at hp
      simp only [List.mem_cons, List.not_mem_nil, or_false] at h
      omega
    · rw [List.mem_singleton.1 h]
      omega

theorem mem_fromUtf8_ascii {c : UInt8} (hc : c < 0x80) (h : c.toUInt16 ∈ fromUtf8 s) : c ∈ s := by
  have hlt := UInt8.lt_iff_toNat_lt.1 hc
  obtain ⟨x, hx, he⟩ := List.mem_map.1 h
  obtain ⟨n, hn, rest, hmem⟩ := mem_unfoldFrom hx
  have hxc : x = c.toNat := by
    have hnat := congrArg UInt16.toNat he
    rwa [Nat.toUInt16, UInt16.toNat_ofNat_of_lt' (decodeByte_lt hmem), UInt8.toNat_toUInt16] at hnat
  obtain ⟨b, hb, rfl⟩ := List.mem_map.1 hn
  have hbyte := decodeByte_ascii hmem (hxc ▸ hlt)
  rwa [UInt8.toNat_inj.1 (hxc.symm.trans hbyte)]

theorem splitOn_fromUtf8 {c : UInt8} (hc : c < 0x80) (s : QByteArray) :
    (fromUtf8 s).splitOn c.toUInt16 = (s.splitOn c).map fromUtf8 := by
  induction hlen : s.length using Nat.strongRecOn generalizing s with
  | _ len ih =>
    by_cases h : c ∈ s
    · obtain ⟨a, b, rfl, ha⟩ := List.eq_append_cons_of_mem h
      have hb : b.length < len := by
        rw [← hlen, List.length_append, List.length_cons]
        omega
      rw [fromUtf8_append hc,
        List.splitOn_append_cons_self_of_not_mem (fun hm => ha (mem_fromUtf8_ascii hc hm)),
        List.splitOn_append_cons_self_of_not_mem ha, ih b.length hb b rfl]
      rfl
    · rw [List.splitOn_eq_singleton (fun hm => h (mem_fromUtf8_ascii hc hm)),
        List.splitOn_eq_singleton h]
      rfl

theorem wellFormedUnits_cons (hhigh : isHighSurrogate n = false) (hlow : isLowSurrogate n = false)
    (s : List Nat) : wellFormedUnits (n :: s) = wellFormedUnits s := by
  rw [wellFormedUnits.eq_def]
  dsimp only
  rw [hhigh, hlow]
  rfl

theorem wellFormedUnits_pair (hhigh : isHighSurrogate n = true) (hlow : isLowSurrogate d = true)
    (s : List Nat) : wellFormedUnits (n :: d :: s) = wellFormedUnits s := by
  rw [wellFormedUnits.eq_def]
  dsimp only
  rw [hhigh, hlow]
  rfl

theorem wellFormedUnits_decodeByte (hn : n < 256) (s rest : List Nat) :
    wellFormedUnits ((decodeByte n s).1 ++ rest) = wellFormedUnits rest := by
  have hone (m : Nat) (h : m < 0xD800 ∨ 0xE000 ≤ m) :
      wellFormedUnits ([m] ++ rest) = wellFormedUnits rest := by
    apply wellFormedUnits_cons
    · simp only [isHighSurrogate, Bool.and_eq_false_iff, decide_eq_false_iff_not]
      omega
    · simp only [isLowSurrogate, Bool.and_eq_false_iff, decide_eq_false_iff_not]
      omega
  rw [decodeByte]
  split
  · exact hone n (by omega)
  split
  · exact hone _ (by omega)
  split
  · split
    · rename_i ht
      simp only [isTail, Bool.and_eq_true, decide_eq_true_eq] at ht
      exact hone _ (by omega)
    · exact hone _ (by omega)
  split
  · dsimp only
    split
    · rename_i hc
      simp only [Bool.and_eq_true, Bool.not_eq_true'] at hc
      exact wellFormedUnits_cons hc.1.2 hc.2 rest
    · exact hone _ (by omega)
  · dsimp only
    split
    · rename_i hp
      simp only [Bool.and_eq_true, decide_eq_true_eq] at hp
      apply wellFormedUnits_pair
      · simp only [isHighSurrogate, Bool.and_eq_true, decide_eq_true_eq]
        omega
      · simp only [isLowSurrogate, Bool.and_eq_true, decide_eq_true_eq]
        omega
    · exact hone _ (by omega)

theorem wellFormedUnits_decoded (h : ∀ b ∈ s, b < 256) :
    wellFormedUnits (unfoldFrom decodeByte skip s) = true := by
  induction s generalizing skip with
  | nil => cases skip <;> rfl
  | cons n s ih =>
    have hs (k : Nat) : wellFormedUnits (unfoldFrom decodeByte k s) = true :=
      ih (fun b hb => h b (List.mem_cons_of_mem n hb))
    cases skip with
    | zero =>
      rw [unfoldFrom, wellFormedUnits_decodeByte (h n List.mem_cons_self)]
      exact hs _
    | succ skip => exact hs skip

theorem wellFormed_fromUtf8 (s : QByteArray) : wellFormed (fromUtf8 s) = true := by
  have hbyte : ∀ b ∈ s.map UInt8.toNat, b < 256 := by
    intro b hb
    obtain ⟨c, _, rfl⟩ := List.mem_map.1 hb
    exact c.toNat_lt
  have hunits : (fromUtf8 s).map UInt16.toNat = decodeBytes (s.map UInt8.toNat) := by
    rw [fromUtf8, List.map_map]
    refine (List.map_congr_left fun x hx => ?_).trans (List.map_id _)
    obtain ⟨n, _, rest, hmem⟩ := mem_unfoldFrom hx
    exact UInt16.toNat_ofNat_of_lt' (decodeByte_lt hmem)
  rw [wellFormed, hunits]
  exact wellFormedUnits_decoded hbyte

theorem fromUtf8_mark (t : QByteArray) :
    fromUtf8 ([0xEF, 0xBB, 0xBF] ++ t) = 0xFEFF :: fromUtf8 t := by
  have hhead := decodeBytes_head 0xEF [0xBB, 0xBF] [0xFEFF]
    (decodeByte_three (n := 0xFEFF) (by decide) (by decide) rfl rfl) (t.map UInt8.toNat)
  exact congrArg (List.map Nat.toUInt16) hhead

theorem noBom_of_text (h : toUtf8 (QString.fromUtf8 s) = s) :
    [0xEF, 0xBB, 0xBF].isPrefixOf s = false := by
  by_contra hb
  have hbom : [0xEF, 0xBB, 0xBF].isPrefixOf s = true := Bool.not_eq_false _ ▸ hb
  obtain ⟨t, rfl⟩ := List.isPrefixOf_iff_prefix.1 hbom
  have htext : toUtf8 (fromUtf8 t) = [0xEF, 0xBB, 0xBF] ++ t := by
    rw [QString.fromUtf8, hbom, if_pos rfl] at h
    exact h
  have hlength := congrArg List.length (fromUtf8_toUtf8 (wellFormed_fromUtf8 t))
  rw [htext, fromUtf8_mark, List.length_cons] at hlength
  omega

end Split

def markerDigits (s : QString) : QString :=
  (s.take 2).takeWhile (fun c => 0x30 ≤ c && c ≤ 0x39)

/-- The number of a place marker at the front of a text, and its length. -/
def placeMarker : QString → Option (Nat × Nat)
  | 0x25 :: s =>
    let width := if s.head? = some 0x4C then 2 else 1
    let digits := markerDigits (s.drop (width - 1))
    if digits.isEmpty then none
    else some (digits.foldl (fun n c => 10 * n + (c.toNat - 0x30)) 0, width + digits.length)
  | _ => none

/-- Markers of one number replaced; `skip` characters are still passed over. -/
def replaceMarkers (number : Nat) (value : QString) : Nat → QString → QString
  | _, [] => []
  | skip + 1, _ :: s => replaceMarkers number value skip s
  | 0, c :: s =>
    match placeMarker (c :: s) with
    | some (n, len) =>
      if n = number then value ++ replaceMarkers number value (len - 1) s
      else c :: replaceMarkers number value 0 s
    | none => c :: replaceMarkers number value 0 s

def lowestMarker (text : QString) : Option Nat :=
  ((text.tails.filterMap placeMarker).map Prod.fst).min?

/-- `QString::arg`: every place marker of the lowest number replaced. -/
def placeArg (text value : QString) : QString :=
  match lowestMarker text with
  | none => text
  | some number => replaceMarkers number value 0 text

example : placeArg (placeArg (utf16 "?%2=%3") (utf16 "a%2Bb")) (utf16 "v") =
    utf16 "?avBb=%3" := by decide

section Markers

def isMarkerChar (c : UInt16) : Bool := c == 0x25 || c == 0x4C || (0x30 ≤ c && c ≤ 0x39)

theorem take_markerDigits (s : QString) : s.take (markerDigits s).length = markerDigits s := by
  have hprefix : markerDigits s <+: s :=
    (List.takeWhile_prefix _).trans (List.take_prefix 2 s)
  exact (List.prefix_iff_eq_take.1 hprefix).symm

theorem markerDigits_chars (h : c ∈ markerDigits s) : isMarkerChar c = true := by
  have hdigit := List.mem_takeWhile_imp h
  rw [isMarkerChar, hdigit, Bool.or_true]

theorem placeMarker_local (t : QString) (h : placeMarker (0x25 :: 0x4C :: t) = some (n, len)) :
    len = 2 + (markerDigits t).length := by
  rw [placeMarker, List.head?_cons] at h
  rw [if_pos rfl] at h
  split at h
  · cases h
  · cases h
    rfl

theorem placeMarker_shared (t : QString) (hshared : t.head? ≠ some 0x4C)
    (h : placeMarker (0x25 :: t) = some (n, len)) : len = 1 + (markerDigits t).length := by
  rw [placeMarker] at h
  rw [if_neg hshared] at h
  split at h
  · cases h
  · cases h
    rfl

theorem placeMarker_plain (h : c ≠ 0x25) (s : QString) : placeMarker (c :: s) = none := by
  rw [placeMarker.eq_def]
  split
  · rename_i t heq
    exact absurd (List.cons.inj heq).1 h
  · rfl

theorem placeMarker_chars (h : placeMarker (d :: s) = some (n, len)) :
    0 < len ∧ ∀ c ∈ (d :: s).take len, isMarkerChar c = true := by
  rcases eq_or_ne d 0x25 with rfl | hplain
  · by_cases hlocal : s.head? = some 0x4C
    · obtain ⟨t, rfl⟩ := List.head?_eq_some_iff.1 hlocal
      have hlen := placeMarker_local t h
      have htake : (0x25 :: 0x4C :: t).take len = 0x25 :: 0x4C :: markerDigits t := by
        rw [hlen, Nat.add_comm, List.take_succ_cons, List.take_succ_cons, take_markerDigits]
      refine ⟨by omega, ?_⟩
      rw [htake, List.forall_mem_cons, List.forall_mem_cons]
      exact ⟨rfl, rfl, fun c hc => markerDigits_chars hc⟩
    · have hlen := placeMarker_shared s hlocal h
      have htake : (0x25 :: s).take len = 0x25 :: markerDigits s := by
        rw [hlen, Nat.add_comm, List.take_succ_cons, take_markerDigits]
      refine ⟨by omega, ?_⟩
      rw [htake, List.forall_mem_cons]
      exact ⟨rfl, fun c hc => markerDigits_chars hc⟩
  · rw [placeMarker_plain hplain] at h
    cases h

theorem replaceMarkers_keeps (hskip : ∀ x ∈ s.take skip, isMarkerChar x = true) (hc : c ∈ s)
    (hplain : isMarkerChar c = false) : c ∈ replaceMarkers number value skip s := by
  induction s generalizing skip with
  | nil => cases hc
  | cons d s ih =>
    cases skip with
    | succ skip =>
      rw [List.take_succ_cons, List.forall_mem_cons] at hskip
      rcases List.mem_cons.1 hc with rfl | hc
      · rw [hplain] at hskip
        cases hskip.1
      · exact ih hskip.2 hc
    | zero =>
      rw [replaceMarkers]
      split
      · rename_i n len hmarker
        split
        · rw [List.mem_append]
          right
          obtain ⟨hpos, hchars⟩ := placeMarker_chars hmarker
          obtain ⟨len, rfl⟩ := Nat.exists_eq_succ_of_ne_zero (Nat.ne_of_gt hpos)
          rw [List.take_succ_cons, List.forall_mem_cons] at hchars
          rcases List.mem_cons.1 hc with rfl | hc
          · rw [hchars.1] at hplain
            cases hplain
          · exact ih hchars.2 hc
        · rcases List.mem_cons.1 hc with rfl | hc
          · exact List.mem_cons_self
          · exact List.mem_cons_of_mem d (ih (fun x hx => by cases hx) hc)
      · rcases List.mem_cons.1 hc with rfl | hc
        · exact List.mem_cons_self
        · exact List.mem_cons_of_mem d (ih (fun x hx => by cases hx) hc)

theorem placeArg_keeps (hc : c ∈ text) (hplain : isMarkerChar c = false) :
    c ∈ placeArg text value := by
  rw [placeArg]
  split
  · exact hc
  · exact replaceMarkers_keeps (fun x hx => by cases hx) hc hplain

theorem mem_replaceMarkers (hc : c ∈ replaceMarkers number value skip s) : c ∈ s ∨ c ∈ value := by
  induction s generalizing skip with
  | nil =>
    rw [replaceMarkers] at hc
    cases hc
  | cons d s ih =>
    have hlater {skip : Nat} (hc : c ∈ replaceMarkers number value skip s) :
        c ∈ d :: s ∨ c ∈ value := (ih hc).imp (List.mem_cons_of_mem d) id
    have hkept (hc : c ∈ d :: replaceMarkers number value 0 s) : c ∈ d :: s ∨ c ∈ value := by
      rcases List.mem_cons.1 hc with rfl | hc
      · exact .inl List.mem_cons_self
      · exact hlater hc
    cases skip with
    | succ skip => exact hlater hc
    | zero =>
      rw [replaceMarkers] at hc
      split at hc
      · split at hc
        · rcases List.mem_append.1 hc with hc | hc
          · exact .inr hc
          · exact hlater hc
        · exact hkept hc
      · exact hkept hc

theorem placeArg_mem (hc : c ∈ placeArg text value) : c ∈ text ∨ c ∈ value := by
  rw [placeArg] at hc
  split at hc
  · exact .inl hc
  · exact mem_replaceMarkers hc

theorem placeArg_cons (h : c ≠ 0x25) (text value : QString) :
    placeArg (c :: text) value = c :: placeArg text value := by
  have hlowest : lowestMarker (c :: text) = lowestMarker text := by
    have htails : (c :: text).tails = (c :: text) :: text.tails := by rw [List.tails]
    rw [lowestMarker, htails, List.filterMap_cons_none (placeMarker_plain h text)]
    rfl
  rw [placeArg, placeArg, hlowest]
  split
  · rfl
  · rw [replaceMarkers, placeMarker_plain h]

end Markers

end Nullock

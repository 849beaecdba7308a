import Nullock.CompareDiff

namespace Nullock.Compare

open CommonSubsequences

section Tokenizers

def tokensFrom (first : QString → QString × QString) : Nat → QString → List QString
  | room + 1, c :: s => (first (c :: s)).1 :: tokensFrom first room (first (c :: s)).2
  | _, _ => []

def firstWord (s : QString) : QString × QString :=
  if s.head?.any isSpace then (s.takeWhile isSpace, s.dropWhile isSpace)
  else
    let behind := s.dropWhile (fun c => !isSpace c)
    (s.takeWhile (fun c => !isSpace c) ++ behind.takeWhile isSpace, behind.dropWhile isSpace)

def firstLine (s : QString) : QString × QString :=
  (s.takeWhile (· != 0x0A) ++ (s.dropWhile (· != 0x0A)).take 1, (s.dropWhile (· != 0x0A)).drop 1)

def isHighSurrogate (c : UInt16) : Bool := 0xD800 ≤ c && c ≤ 0xDBFF

def isLowSurrogate (c : UInt16) : Bool := 0xDC00 ≤ c && c ≤ 0xDFFF

def firstChar : QString → QString × QString
  | c :: d :: s => if isHighSurrogate c && isLowSurrogate d then ([c, d], s) else ([c], d :: s)
  | s => (s, [])

def kHex : QString := utf16 "0123456789abcdef"

def hexToken (b : UInt8) : QString :=
  [kHex.getD (b >>> 4).toNat 0, kHex.getD (b &&& 0x0F).toNat 0]

/-- One token more than the limit is kept, as a sign that there are more. -/
def kRoom : Nat := kMaxTokensPerSide + 1

def tokenizeWords (s : QString) : List QString := tokensFrom firstWord kRoom s

def tokenizeLines (s : QString) : List QString := tokensFrom firstLine kRoom s

def tokenizeChars (s : QString) : List QString := tokensFrom firstChar kRoom s

def tokenizeBytes (b : QByteArray) : List QString := (b.take kRoom).map hexToken

inductive Tokenized : List QString → List QString → Prop
  | words (s t : QString) : Tokenized (tokenizeWords s) (tokenizeWords t)
  | lines (s t : QString) : Tokenized (tokenizeLines s) (tokenizeLines t)
  | chars (s t : QString) : Tokenized (tokenizeChars s) (tokenizeChars t)
  | bytes (b c : QByteArray) : Tokenized (tokenizeBytes b) (tokenizeBytes c)

theorem flatten_tokensFrom (h : ∀ s, (first s).1 ++ (first s).2 = s)
    (hroom : (tokensFrom first room s).length < room) : (tokensFrom first room s).flatten = s := by
  induction room generalizing s with
  | zero => cases hroom
  | succ room ih =>
    cases s with
    | nil => rfl
    | cons c s =>
      rw [tokensFrom, List.length_cons] at hroom
      rw [tokensFrom, List.flatten_cons, ih (Nat.lt_of_succ_lt_succ hroom), h]

theorem firstWord_split (s : QString) : (firstWord s).1 ++ (firstWord s).2 = s := by
  rw [firstWord]
  split
  · exact List.takeWhile_append_dropWhile
  · dsimp only
    rw [List.append_assoc, List.takeWhile_append_dropWhile, List.takeWhile_append_dropWhile]

theorem firstLine_split (s : QString) : (firstLine s).1 ++ (firstLine s).2 = s := by
  rw [firstLine]
  dsimp only
  rw [List.append_assoc, List.take_append_drop, List.takeWhile_append_dropWhile]

theorem firstChar_split (s : QString) : (firstChar s).1 ++ (firstChar s).2 = s := by
  rw [firstChar.eq_def]
  split
  · split
    · rfl
    · rfl
  · exact List.append_nil s

def hexOctet (t : QString) : UInt8 := (kHex.idxOf (t.getD 0 0) * 16 + kHex.idxOf (t.getD 1 0)).toUInt8

set_option maxRecDepth 4000 in
theorem hexOctet_hexToken (b : UInt8) : hexOctet (hexToken b) = b := by
  have hall : ∀ n : Fin 256, hexOctet (hexToken (UInt8.ofNat n.val)) = UInt8.ofNat n.val := by
    decide
  have hb := hall ⟨b.toNat, b.toNat_lt⟩
  rwa [UInt8.ofNat_toNat] at hb

theorem hexToken_injective (h : hexToken b = hexToken c) : b = c := by
  rw [← hexOctet_hexToken b, h, hexOctet_hexToken]

theorem flatten_hexTokens {b c : QByteArray}
    (h : (b.map hexToken).flatten = (c.map hexToken).flatten) : b = c := by
  induction b generalizing c with
  | nil =>
    cases c with
    | nil => rfl
    | cons y c => cases h
  | cons x b ih =>
    cases c with
    | nil => cases h
    | cons y c =>
      rw [List.map_cons, List.map_cons, List.flatten_cons, List.flatten_cons] at h
      obtain ⟨hx, hrest⟩ := List.append_inj h rfl
      rw [hexToken_injective hx, ih hrest]

theorem Tokenized.eq_of_texts (h : Tokenized a b) (ha : a.length ≤ kMaxTokensPerSide)
    (hb : b.length ≤ kMaxTokensPerSide) (htexts : a.flatten = b.flatten) : a = b := by
  have htext (first : QString → QString × QString) (s t : QString)
      (hfirst : ∀ s, (first s).1 ++ (first s).2 = s)
      (hs : (tokensFrom first kRoom s).length ≤ kMaxTokensPerSide)
      (ht : (tokensFrom first kRoom t).length ≤ kMaxTokensPerSide)
      (h : (tokensFrom first kRoom s).flatten = (tokensFrom first kRoom t).flatten) :
      tokensFrom first kRoom s = tokensFrom first kRoom t := by
    rw [flatten_tokensFrom hfirst (show _ < kRoom from Nat.lt_succ_of_le hs),
      flatten_tokensFrom hfirst (show _ < kRoom from Nat.lt_succ_of_le ht)] at h
    rw [h]
  cases h with
  | words s t => exact htext firstWord s t firstWord_split ha hb htexts
  | lines s t => exact htext firstLine s t firstLine_split ha hb htexts
  | chars s t => exact htext firstChar s t firstChar_split ha hb htexts
  | bytes b c => exact congrArg (List.map hexToken) (flatten_hexTokens htexts)

end Tokenizers

section Exactness

/-- The segments are an edit script, the counts those of a longest common subsequence. -/
structure Exact (a b : List QString) : Prop where
  left : textOf .eq .del (lcsDiff a b).segments = (clipped a b).1.flatten
  right : textOf .eq .ins (lcsDiff a b).segments = (clipped a b).2.flatten
  attained : ∃ c, List.Sublist c (clipped a b).1 ∧ List.Sublist c (clipped a b).2 ∧
    c.length = (lcsDiff a b).common
  longest : ∀ c, List.Sublist c (clipped a b).1 → List.Sublist c (clipped a b).2 →
    c.length ≤ (lcsDiff a b).common
  removed : (lcsDiff a b).removed = (clipped a b).1.length - (lcsDiff a b).common
  added : (lcsDiff a b).added = (clipped a b).2.length - (lcsDiff a b).common
  truncated : (lcsDiff a b).truncated = false ↔ clipped a b = (a, b)
  identical : (lcsDiff a b).identical = true ↔ (lcsDiff a b).truncated = false ∧ a = b
  texts : Tokenized a b →
    ((lcsDiff a b).identical = true ↔ (lcsDiff a b).truncated = false ∧ a.flatten = b.flatten)

theorem wasCut_eq_false : wasCut a b = false ↔ clipped a b = (a, b) ∧
    a.length ≤ kMaxTokensPerSide ∧ b.length ≤ kMaxTokensPerSide := by
  rw [wasCut, clipped]
  simp only [Bool.or_eq_false_iff, decide_eq_false_iff_not, Nat.not_lt, Prod.mk.injEq]
  constructor
  · rintro ⟨⟨⟨ha, hb⟩, hsa⟩, hsb⟩
    rw [List.take_of_length_le ha, List.take_of_length_le hb] at *
    exact ⟨⟨List.take_of_length_le hsa, List.take_of_length_le hsb⟩, ha, hb⟩
  · rintro ⟨⟨hta, htb⟩, ha, hb⟩
    rw [List.take_of_length_le ha, List.take_of_length_le hb] at *
    have hsa := congrArg List.length hta
    have hsb := congrArg List.length htb
    rw [List.length_take] at hsa hsb
    exact ⟨⟨⟨ha, hb⟩, by omega⟩, by omega⟩

theorem clipped_length (h : clipped a b = (a, b)) :
    a.length ≤ kMaxTokensPerSide ∧ b.length ≤ kMaxTokensPerSide := by
  rw [clipped, Prod.mk.injEq] at h
  have hcut {l : List QString} {n : Nat} (hl : (l.take kMaxTokensPerSide).take n = l) :
      l.length ≤ kMaxTokensPerSide :=
    calc l.length = ((l.take kMaxTokensPerSide).take n).length := by rw [hl]
      _ ≤ (l.take kMaxTokensPerSide).length := List.length_take_le' _ _
      _ ≤ kMaxTokensPerSide := List.length_take_le _ _
  exact ⟨hcut h.1, hcut h.2⟩

theorem lcsDiff_parts (a b : List QString) :
    textOf .eq .del (lcsDiff a b).segments = (clipped a b).1.flatten ∧
      textOf .eq .ins (lcsDiff a b).segments = (clipped a b).2.flatten ∧
      (lcsDiff a b).removed + lcsLength (clipped a b).1 (clipped a b).2 =
        (clipped a b).1.length ∧
      (lcsDiff a b).added + lcsLength (clipped a b).1 (clipped a b).2 = (clipped a b).2.length ∧
      (lcsDiff a b).common = lcsLength (clipped a b).1 (clipped a b).2 ∧
      (lcsDiff a b).truncated = wasCut a b :=
  compareTokens_spec (wasCut a b) (clipped a b).1 (clipped a b).2

theorem identical_iff (a b : List QString) :
    (lcsDiff a b).identical = true ↔ (lcsDiff a b).truncated = false ∧ a = b := by
  obtain ⟨_, _, hremoved, hadded, _, htruncated⟩ := lcsDiff_parts a b
  have hidentical : (lcsDiff a b).identical =
      (!(lcsDiff a b).truncated && (lcsDiff a b).added == 0 && (lcsDiff a b).removed == 0) := rfl
  rw [hidentical, Bool.and_eq_true, Bool.and_eq_true, beq_iff_eq, beq_iff_eq, Bool.not_eq_true']
  constructor
  · rintro ⟨⟨hfull, hzero⟩, hzero'⟩
    refine ⟨hfull, ?_⟩
    rw [htruncated, wasCut_eq_false] at hfull
    rw [hfull.1, hzero'] at hremoved
    rw [hfull.1, hzero] at hadded
    dsimp only at hremoved hadded
    obtain ⟨c, hca, hcb, hc⟩ := exists_common a b
    rw [← hca.eq_of_length (by omega), ← hcb.eq_of_length (by omega)]
  · rintro ⟨hfull, rfl⟩
    have hcut := hfull
    rw [htruncated, wasCut_eq_false] at hcut
    rw [hcut.1] at hremoved hadded
    dsimp only at hremoved hadded
    have hself := length_le_lcsLength (List.Sublist.refl a) (List.Sublist.refl a)
    have hle := lcsLength_le a a
    exact ⟨⟨hfull, by omega⟩, by omega⟩

/-- Every difference is exact, and lists that have room are not cut. -/
theorem diff_exact : (∀ a b, Exact a b) ∧
    ∀ n m, (budgetedSizes n m).1 * (budgetedSizes n m).2 ≤ kMaxCells ∧
      (n * m ≤ kMaxCells → budgetedSizes n m = (n, m)) := by
  constructor
  · intro a b
    obtain ⟨hleft, hright, hremoved, hadded, hcommon, htruncated⟩ := lcsDiff_parts a b
    refine ⟨hleft, hright, ?_, ?_, ?_, ?_, ?_, identical_iff a b, ?_⟩
    · rw [hcommon]
      exact exists_common _ _
    · intro c ha hb
      rw [hcommon]
      exact length_le_lcsLength ha hb
    · rw [hcommon]
      omega
    · rw [hcommon]
      omega
    · rw [htruncated, wasCut_eq_false]
      exact ⟨And.left, fun h => ⟨h, clipped_length h⟩⟩
    · intro htokens
      rw [identical_iff]
      constructor
      · rintro ⟨hfull, rfl⟩
        exact ⟨hfull, rfl⟩
      · rintro ⟨hfull, htexts⟩
        have hcut := hfull
        rw [htruncated, wasCut_eq_false] at hcut
        exact ⟨hfull, htokens.eq_of_texts hcut.2.1 hcut.2.2 htexts⟩
  · intro n m
    exact ⟨(budgetedSizes_le n m).2.2, budgetedSizes_fit⟩

/-- Lists of different tokens are not identical, though their texts are. -/
theorem split_token_differs :
    ¬ ((lcsDiff [utf16 "ab"] [utf16 "a", utf16 "b"]).identical = true ↔
      (lcsDiff [utf16 "ab"] [utf16 "a", utf16 "b"]).truncated = false ∧
        [utf16 "ab"].flatten = [utf16 "a", utf16 "b"].flatten) := by
  intro h
  have hfull : (lcsDiff [utf16 "ab"] [utf16 "a", utf16 "b"]).truncated = false := by
    obtain ⟨_, _, _, _, _, htruncated⟩ := lcsDiff_parts [utf16 "ab"] [utf16 "a", utf16 "b"]
    rw [htruncated]
    decide
  have hsame := ((identical_iff _ _).1 (h.2 ⟨hfull, rfl⟩)).2
  exact absurd hsame (by decide)

end Exactness

end Nullock.Compare

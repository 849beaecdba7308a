import Nullock.CveVersions

namespace Nullock.CveDatabase

open ServiceVulns (readInt intMax isPatternSpace)

def isSuffixLetter (c : UInt16) : Bool := (0x41 ≤ c && c ≤ 0x5A) || (0x61 ≤ c && c ≤ 0x7A)

inductive Suffix
  | release
  | pre (separators word digits : QString)
  | patch (separators word digits : QString)

namespace Suffix

def text : Suffix → QString
  | release => []
  | pre separators word digits => separators ++ word ++ digits
  | patch separators word digits => separators ++ word ++ digits

def Valid : Suffix → Prop
  | release => True
  | pre separators word digits =>
    (∀ c ∈ separators, c = 0x2D ∨ c = 0x5F ∨ c = 0x2E) ∧ (∀ c ∈ word, isSuffixLetter c = true) ∧
      toLower word ∈ preWords ∧ ∀ c ∈ digits, isDigit c = true
  | patch separators word digits =>
    (∀ c ∈ separators, c = 0x2D ∨ c = 0x5F ∨ c = 0x2E) ∧ (∀ c ∈ word, isSuffixLetter c = true) ∧
      toLower word ∈ patchWords ∧ isNumeral digits = true

/-- Pre-releases are below the release, patches above it by level. -/
def order : Suffix → Suffix → Option Ordering
  | pre _ _ _, pre _ _ _ => none
  | pre _ _ _, _ => some .lt
  | _, pre _ _ _ => some .gt
  | release, release => some .eq
  | release, patch _ _ _ => some .lt
  | patch _ _ _, release => some .gt
  | patch _ _ m, patch _ _ n => some (compare (digitsValue 0 m) (digitsValue 0 n))

end Suffix

structure VersionText where
  numbers : List QString
  suffix : Suffix
  nonempty : numbers ≠ []
  atMost : numbers.length ≤ 4
  numerals : ∀ n ∈ numbers, isNumeral n = true
  bounded : ∀ n ∈ numbers, digitsValue 0 n < 2 ^ 31
  suffix_valid : suffix.Valid

namespace VersionText

def text (v : VersionText) : QString := [0x2E].intercalate v.numbers ++ v.suffix.text

def components (v : VersionText) : List Nat :=
  v.numbers.map (digitsValue 0) ++ List.replicate (4 - v.numbers.length) 0

def order (v w : VersionText) : Option Ordering :=
  match compare v.components w.components with
  | .eq => v.suffix.order w.suffix
  | o => some o

end VersionText

section Reading

theorem span_append {p : UInt16 → Bool} {s rest : QString} (hs : ∀ c ∈ s, p c = true)
    (hrest : ∀ c ∈ rest.head?, p c = false) :
    (s ++ rest).takeWhile p = s ∧ (s ++ rest).dropWhile p = rest := by
  rw [List.takeWhile_append_of_pos hs, List.dropWhile_append_of_pos hs]
  cases rest with
  | nil => exact ⟨List.append_nil s, rfl⟩
  | cons c rest =>
    have hc : ¬ p c = true := by
      rw [hrest c rfl]
      exact Bool.false_ne_true
    rw [List.takeWhile_cons_of_neg hc, List.dropWhile_cons_of_neg hc, List.append_nil]
    exact ⟨rfl, rfl⟩

def Ends (tail : QString) : Prop :=
  ∀ c ∈ tail.head?, isDigit c = false ∧ (c = 0x2E → ∀ d ∈ tail.tail.head?, isDigit d = false)

theorem takeWhile_nil {s : QString} (h : ∀ d ∈ s.head?, isDigit d = false) :
    s.takeWhile isDigit = [] := (span_append (s := []) (fun c hc => by cases hc) h).1

theorem dotted_head (ns : List QString) (htail : Ends tail) :
    ∀ c ∈ (ns.flatMap (0x2E :: ·) ++ tail).head?, isDigit c = false := by
  cases ns with
  | nil => exact fun c hc => (htail c hc).1
  | cons n ns =>
    intro c hc
    cases hc
    rfl

theorem moreComponents_text (hns : ∀ n ∈ ns, isNumeral n = true) (htail : Ends tail)
    (h : ns.length ≤ k) : moreComponents k (ns.flatMap (0x2E :: ·) ++ tail) = (ns, tail) := by
  induction ns generalizing k with
  | nil =>
    cases k with
    | zero => rfl
    | succ k =>
      cases tail with
      | nil => rfl
      | cons c tail =>
        rw [List.flatMap_nil, List.nil_append, moreComponents, if_neg]
        rintro ⟨hdot, hdigits⟩
        exact hdigits (takeWhile_nil ((htail c rfl).2 hdot))
  | cons n ns ih =>
    cases k with
    | zero => cases h
    | succ k =>
      obtain ⟨hne, hdigits⟩ := isNumeral_iff.1 (hns n List.mem_cons_self)
      obtain ⟨htake, hdrop⟩ := span_append hdigits (dotted_head ns htail)
      rw [List.flatMap_cons, List.cons_append, List.cons_append, List.append_assoc, moreComponents,
        htake, hdrop, if_pos ⟨rfl, hne⟩,
        ih (fun n hn => hns n (List.mem_cons_of_mem _ hn)) (Nat.le_of_succ_le_succ h)]

theorem intercalate_dots (n : QString) (ns : List QString) :
    [0x2E].intercalate (n :: ns) = n ++ ns.flatMap (0x2E :: ·) := by
  induction ns generalizing n with
  | nil => rw [List.intercalate_singleton, List.flatMap_nil, List.append_nil]
  | cons m ns ih =>
    rw [List.intercalate_cons_cons, ih, List.flatMap_cons, List.append_assoc]
    rfl

theorem allVersions_text (hne : ns ≠ []) (hle : ns.length ≤ 4) (hns : ∀ n ∈ ns, isNumeral n = true)
    (htail : Ends tail) (hchars : ∀ c ∈ tail, isTailChar c = true) :
    allVersions ([0x2E].intercalate ns ++ tail) = [captured ns tail] := by
  cases ns with
  | nil => exact absurd rfl hne
  | cons n ns =>
    obtain ⟨hn, hdigits⟩ := isNumeral_iff.1 (hns n List.mem_cons_self)
    cases n with
    | nil => exact absurd rfl hn
    | cons c s =>
      obtain ⟨htake, hdrop⟩ := span_append (fun d hd => hdigits d (List.mem_cons_of_mem c hd))
        (dotted_head ns htail)
      rw [intercalate_dots, List.append_assoc, List.cons_append, allVersions,
        if_pos (hdigits c List.mem_cons_self)]
      dsimp only
      rw [htake, hdrop, moreComponents_text (fun n hn => hns n (List.mem_cons_of_mem _ hn)) htail
        (Nat.le_of_succ_le_succ hle), List.takeWhile_eq_self_iff.2 hchars,
        List.dropWhile_eq_nil_iff.2 hchars, allVersions]

end Reading

section Suffixes

/-- A number as `QString::toInt` reads it: zero unless of 32 bits. -/
def readable (n : Nat) : Nat := if n < 2 ^ 31 then n else 0

theorem readInt_readable (h : isNumeral s = true) :
    (readInt s).getD 0 = (readable (digitsValue 0 s) : Int) := by
  rw [readInt_numeral h, readable]
  split
  · rfl
  · rfl

theorem separator_chars {c : UInt16} (h : c = 0x2D ∨ c = 0x5F ∨ c = 0x2E) :
    isTailChar c = true ∧ isDigit c = false ∧ isSeparator c = true ∧ toLower [c] = [c] := by
  rcases h with rfl | rfl | rfl <;> decide

theorem letter_chars {c : UInt16} (h : isSuffixLetter c = true) :
    isTailChar c = true ∧ isDigit c = false ∧ c ≠ 0x2E := by
  simp only [isSuffixLetter, Bool.or_eq_true, Bool.and_eq_true, decide_eq_true_eq,
    UInt16.le_iff_toNat_le, UInt16.reduceToNat] at h
  simp only [isTailChar, isDigit, Bool.or_eq_true, Bool.and_eq_true, decide_eq_true_eq,
    beq_iff_eq, Bool.and_eq_false_iff, decide_eq_false_iff_not, ne_eq, ← UInt16.toNat_inj,
    UInt16.le_iff_toNat_le, UInt16.reduceToNat]
  omega

theorem digit_tail {c : UInt16} (h : isDigit c = true) : isTailChar c = true := by
  rw [isTailChar, h]
  simp only [Bool.or_true, Bool.true_or]

theorem toLower_digits {s : QString} (h : ∀ c ∈ s, isDigit c = true) : toLower s = s := by
  conv => rhs; rw [← List.map_id s]
  apply List.map_congr_left
  intro c hc
  have hd := h c hc
  simp only [isDigit, Bool.and_eq_true, decide_eq_true_eq, UInt16.le_iff_toNat_le,
    UInt16.reduceToNat] at hd
  rw [if_neg, if_neg]
  · rfl
  · rintro rfl
    exact absurd hd (by decide)
  · simp only [UInt16.le_iff_toNat_le, UInt16.reduceToNat]
    omega

theorem toLower_separators {s : QString} (h : ∀ c ∈ s, c = 0x2D ∨ c = 0x5F ∨ c = 0x2E) :
    toLower s = s := by
  conv => rhs; rw [← List.map_id s]
  apply List.map_congr_left
  intro c hc
  exact List.singleton_inj.1 (separator_chars (h c hc)).2.2.2

theorem dropWhile_separators {s rest : QString} (hs : ∀ c ∈ s, c = 0x2D ∨ c = 0x5F ∨ c = 0x2E)
    (hrest : ∀ c ∈ rest.head?, isSeparator c = false) :
    (s ++ rest).dropWhile isSeparator = rest := by
  rw [List.dropWhile_append_of_pos (fun c hc => (separator_chars (hs c hc)).2.2.1)]
  cases rest with
  | nil => rfl
  | cons c rest => rw [List.dropWhile_cons_of_neg (by rw [hrest c rfl]; decide)]

section Words
variable {digits : QString}

theorem digitsBehind_word (w : QString) (h : ∀ c ∈ digits, isDigit c = true)
    (hlen : least ≤ digits.length) : digitsBehind (w ++ digits) least w = some digits := by
  rw [digitsBehind, if_pos (List.isPrefixOf_iff_prefix.2 (List.prefix_append _ _))]
  dsimp only
  rw [List.drop_left, List.takeWhile_eq_self_iff.2 h, if_pos hlen]

theorem wordDigits_found (h : digitsBehind t least w = some digits) (ws : List QString) :
    wordDigits (w :: ws) least t = some digits := by
  rw [wordDigits, List.findSome?_cons, h]

theorem wordDigits_skip (h : digitsBehind t least w = none) (ws : List QString) :
    wordDigits (w :: ws) least t = wordDigits ws least t := by
  rw [wordDigits, List.findSome?_cons, h]
  rfl

theorem patchDigits (hw : w ∈ patchWords) (h : isNumeral digits = true) :
    wordDigits patchWords 1 (w ++ digits) = some digits := by
  obtain ⟨hne, hdigits⟩ := isNumeral_iff.1 h
  have hfound := digitsBehind_word w hdigits (List.length_pos_iff.2 hne)
  simp only [patchWords, List.mem_cons, List.not_mem_nil, or_false] at hw
  rcases hw with rfl | rfl | rfl
  · exact wordDigits_found hfound _
  · rw [patchWords, wordDigits_skip rfl]
    exact wordDigits_found hfound _
  · rw [patchWords, wordDigits_skip rfl, wordDigits_skip rfl]
    exact wordDigits_found hfound _

theorem no_patchDigits (hw : w ∈ preWords) : wordDigits patchWords 1 (w ++ digits) = none := by
  simp only [preWords, List.mem_cons, List.not_mem_nil, or_false] at hw
  rcases hw with rfl | rfl | rfl | rfl | rfl | rfl | rfl <;> rfl

theorem preDigits (hw : w ∈ preWords) (h : ∀ c ∈ digits, isDigit c = true) :
    wordDigits preWords 0 (w ++ digits) = some digits := by
  have hfound := digitsBehind_word w h (Nat.zero_le _)
  -- Only the digits tell a text that begins with `pre` from one that begins with `preview`.
  have hpreview : digitsBehind (utf16 "pre" ++ digits) 0 (utf16 "preview") = none := by
    cases digits with
    | nil => rfl
    | cons d digits =>
      have hd : (0x76 == d) = false := by
        rw [beq_eq_false_iff_ne]
        rintro rfl
        exact absurd (h _ List.mem_cons_self) (by decide)
      have hprefix : (utf16 "preview").isPrefixOf (utf16 "pre" ++ d :: digits) =
          (0x76 == d && [0x69, 0x65, 0x77].isPrefixOf digits) := rfl
      rw [digitsBehind, hprefix, hd, Bool.false_and, if_neg Bool.false_ne_true]
  simp only [preWords, List.mem_cons, List.not_mem_nil, or_false] at hw
  rcases hw with rfl | rfl | rfl | rfl | rfl | rfl | rfl
  · exact wordDigits_found hfound _
  · rw [preWords, wordDigits_skip rfl]
    exact wordDigits_found hfound _
  · rw [preWords, wordDigits_skip rfl, wordDigits_skip rfl]
    exact wordDigits_found hfound _
  · rw [preWords, wordDigits_skip rfl, wordDigits_skip rfl, wordDigits_skip rfl]
    exact wordDigits_found hfound _
  · rw [preWords, wordDigits_skip rfl, wordDigits_skip rfl, wordDigits_skip rfl,
      wordDigits_skip rfl]
    exact wordDigits_found hfound _
  · rw [preWords, wordDigits_skip rfl, wordDigits_skip rfl, wordDigits_skip rfl,
      wordDigits_skip rfl, wordDigits_skip rfl]
    exact wordDigits_found hfound _
  · rw [preWords, wordDigits_skip rfl, wordDigits_skip rfl, wordDigits_skip rfl,
      wordDigits_skip rfl, wordDigits_skip rfl, wordDigits_skip hpreview]
    exact wordDigits_found hfound _

end Words

namespace Suffix

def rank : Suffix → Option Int
  | release => some 0
  | pre _ _ digits => addInt (-1000) (readable (digitsValue 0 digits))
  | patch _ _ digits => addInt 1000 (readable (digitsValue 0 digits))

theorem lowered_word {word : QString} (h : ∀ c ∈ word, isSuffixLetter c = true)
    (hne : toLower word ≠ []) :
    ∃ c t, toLower word = c :: t ∧ isSeparator c = false := by
  cases word with
  | nil => exact absurd rfl hne
  | cons c word =>
    refine ⟨_, _, rfl, ?_⟩
    have hc := h c List.mem_cons_self
    simp only [isSuffixLetter, Bool.or_eq_true, Bool.and_eq_true, decide_eq_true_eq] at hc
    dsimp only
    split
    · rename_i hupper
      obtain ⟨hlo, hhi⟩ := hupper
      simp only [UInt16.le_iff_toNat_le, UInt16.reduceToNat] at hlo hhi
      have hadd : (c + 0x20).toNat = c.toNat + 0x20 := by
        have h20 : (0x20 : UInt16).toNat = 0x20 := rfl
        rw [UInt16.toNat_add, h20]
        exact Nat.mod_eq_of_lt (by omega)
      simp only [isSeparator, Bool.or_eq_false_iff, beq_eq_false_iff_ne, ne_eq,
        ← UInt16.toNat_inj, hadd, UInt16.reduceToNat]
      omega
    · split
      · rfl
      · simp only [UInt16.le_iff_toNat_le, UInt16.reduceToNat] at hc
        simp only [isSeparator, Bool.or_eq_false_iff, beq_eq_false_iff_ne, ne_eq,
          ← UInt16.toNat_inj, UInt16.reduceToNat]
        omega

theorem lowered_text {separators word digits : QString}
    (hsep : ∀ c ∈ separators, c = 0x2D ∨ c = 0x5F ∨ c = 0x2E)
    (hword : ∀ c ∈ word, isSuffixLetter c = true) (hne : toLower word ≠ [])
    (hdigits : ∀ c ∈ digits, isDigit c = true) :
    (toLower (separators ++ word ++ digits)).dropWhile isSeparator = toLower word ++ digits ∧
      (toLower word ++ digits).isEmpty = false := by
  obtain ⟨c, t, hct, hc⟩ := lowered_word hword hne
  rw [toLower_append, toLower_append, toLower_separators hsep, toLower_digits hdigits,
    List.append_assoc, dropWhile_separators hsep, hct]
  · exact ⟨rfl, rfl⟩
  · rw [hct]
    intro d hd
    cases hd
    exact hc

theorem word_ne_nil (h : w ∈ patchWords ∨ w ∈ preWords) : w ≠ [] := by
  rintro rfl
  revert h
  decide

theorem suffixRank_text {s : Suffix} (h : s.Valid) : suffixRank s.text = s.rank := by
  cases s with
  | release => rfl
  | pre separators word digits =>
    obtain ⟨hsep, hword, hmem, hdigits⟩ := h
    obtain ⟨hdrop, hempty⟩ := lowered_text hsep hword (word_ne_nil (Or.inr hmem)) hdigits
    have hnumber : (if digits.isEmpty then 0 else (readInt digits).getD 0) =
        (readable (digitsValue 0 digits) : Int) := by
      cases hd : digits.isEmpty with
      | true =>
        rw [List.isEmpty_iff.1 hd]
        rfl
      | false =>
        rw [if_neg Bool.false_ne_true,
          readInt_readable (isNumeral_iff.2 ⟨List.isEmpty_eq_false_iff.1 hd, hdigits⟩)]
    rw [text, suffixRank, hdrop, hempty, if_neg Bool.false_ne_true, no_patchDigits hmem,
      preDigits hmem hdigits]
    dsimp only
    rw [hnumber, rank]
  | patch separators word digits =>
    obtain ⟨hsep, hword, hmem, hnum⟩ := h
    obtain ⟨hdrop, hempty⟩ := lowered_text hsep hword (word_ne_nil (Or.inl hmem))
      (isNumeral_iff.1 hnum).2
    rw [text, suffixRank, hdrop, hempty, if_neg Bool.false_ne_true, patchDigits hmem hnum]
    dsimp only
    rw [readInt_readable hnum, rank]

theorem word_text {separators word digits : QString}
    (hsep : ∀ c ∈ separators, c = 0x2D ∨ c = 0x5F ∨ c = 0x2E)
    (hword : ∀ c ∈ word, isSuffixLetter c = true) (hne : toLower word ≠ [])
    (hdigits : ∀ c ∈ digits, isDigit c = true) :
    (∀ c ∈ separators ++ word ++ digits, isTailChar c = true) ∧
      Ends (separators ++ word ++ digits) := by
  constructor
  · intro c hc
    rw [List.mem_append, List.mem_append] at hc
    rcases hc with (hc | hc) | hc
    · exact (separator_chars (hsep c hc)).1
    · exact (letter_chars (hword c hc)).1
    · exact digit_tail (hdigits c hc)
  · cases word with
    | nil => exact absurd rfl hne
    | cons w word =>
      have hw := letter_chars (hword w List.mem_cons_self)
      cases separators with
      | nil =>
        intro c hc
        cases hc
        exact ⟨hw.2.1, fun hdot => absurd hdot hw.2.2⟩
      | cons s separators =>
        intro c hc
        cases hc
        refine ⟨(separator_chars (hsep s List.mem_cons_self)).2.1, ?_⟩
        intro _ d hd
        cases separators with
        | nil =>
          cases hd
          exact hw.2.1
        | cons _ separators =>
          cases hd
          exact (separator_chars (hsep d (List.mem_cons_of_mem s List.mem_cons_self))).2.1

theorem text_chars {s : Suffix} (h : s.Valid) :
    (∀ c ∈ s.text, isTailChar c = true) ∧ Ends s.text := by
  cases s with
  | release =>
    constructor
    · intro c hc
      cases hc
    · intro c hc
      cases hc
  | pre separators word digits =>
    exact word_text h.1 h.2.1 (word_ne_nil (Or.inr h.2.2.1)) h.2.2.2
  | patch separators word digits =>
    exact word_text h.1 h.2.1 (word_ne_nil (Or.inl h.2.2.1)) (isNumeral_iff.1 h.2.2.2).2

end Suffix

end Suffixes

section Versions

theorem comp_numeral (h : isNumeral s = true) (hlt : digitsValue 0 s < 2 ^ 31) :
    comp s = (digitsValue 0 s : Int) := by
  rw [comp, toLongLong_numeral h, if_pos (by omega)]
  dsimp only
  have hmax : intMax = 2 ^ 31 - 1 := rfl
  rw [if_neg (by omega), if_neg (by omega)]

def VersionText.read (v : VersionText) (rank : Int) : Ver where
  p := v.components.map (fun n : Nat => (n : Int))
  ncomp := v.numbers.length
  suffix := rank
  valid := true

theorem parseVersion_text (v : VersionText) :
    parseVersion v.text = v.suffix.rank.map v.read := by
  obtain ⟨hchars, hends⟩ := Suffix.text_chars v.suffix_valid
  have hcomp : v.numbers.map comp =
      (v.numbers.map (digitsValue 0)).map (fun n : Nat => (n : Int)) := by
    rw [List.map_map]
    exact List.map_congr_left (fun n hn => comp_numeral (v.numerals n hn) (v.bounded n hn))
  rw [parseVersion, VersionText.text, allVersions_text v.nonempty v.atMost v.numerals hends hchars,
    List.foldl_cons, List.foldl_nil, Option.bind_some, captured,
    Suffix.suffixRank_text v.suffix_valid, hcomp]
  cases v.suffix.rank with
  | none => rfl
  | some r =>
    rw [Option.map_some, Option.map_some, Option.map_some, VersionText.read,
      VersionText.components, List.map_append, List.map_replicate]
    rfl

theorem cmpVer_read (v w : VersionText) (r t : Int) :
    cmpVer (v.read r) (w.read t) =
      orderSign ((compare v.components w.components).then (compare r t)) := by
  have hlen (u : VersionText) : u.components.length = 4 := by
    rw [VersionText.components, List.length_append, List.length_map, List.length_replicate]
    have := u.atMost
    omega
  have hranks : (if r ≠ t then (if r < t then (-1 : Int) else 1) else 0) =
      orderSign (compare r t) := by
    rcases lt_trichotomy r t with hlt | rfl | hgt
    · rw [if_pos (ne_of_lt hlt), if_pos hlt, compare_lt_iff_lt.2 hlt]
      rfl
    · rw [if_neg (not_not.2 rfl), compare_eq_iff_eq.2 rfl]
      rfl
    · rw [if_pos (ne_of_gt hgt), if_neg (not_lt.2 hgt.le), compare_gt_iff_gt.2 hgt]
      rfl
  rw [cmpVer, VersionText.read, VersionText.read]
  dsimp only
  rw [hranks]
  exact numbers_compare _ _ ((hlen v).trans (hlen w).symm) _

end Versions

def Ordered (v w : VersionText) : Prop :=
  ∃ x y, parseVersion v.text = some x ∧ parseVersion w.text = some y ∧
    ∀ o, v.order w = some o → cmpVer x y = orderSign o

namespace Suffix

def Sums : Suffix → Prop
  | patch _ _ digits => digitsValue 0 digits < 2 ^ 31 - 1000 ∨ 2 ^ 31 ≤ digitsValue 0 digits
  | _ => True

def Apart : Suffix → Suffix → Prop
  | pre _ _ m, release => digitsValue 0 m < 1000 ∨ 2 ^ 31 ≤ digitsValue 0 m
  | release, pre _ _ m => digitsValue 0 m < 1000 ∨ 2 ^ 31 ≤ digitsValue 0 m
  | pre _ _ m, patch _ _ n => readable (digitsValue 0 m) < readable (digitsValue 0 n) + 2000
  | patch _ _ n, pre _ _ m => readable (digitsValue 0 m) < readable (digitsValue 0 n) + 2000
  | patch _ _ m, patch _ _ n =>
    compare (readable (digitsValue 0 m)) (readable (digitsValue 0 n)) =
      compare (digitsValue 0 m) (digitsValue 0 n)
  | _, _ => True

def level : Suffix → Int
  | release => 0
  | pre _ _ digits => -1000 + readable (digitsValue 0 digits)
  | patch _ _ digits => 1000 + readable (digitsValue 0 digits)

theorem readable_lt (n : Nat) : readable n < 2 ^ 31 := by
  rw [readable]
  split
  · assumption
  · decide

theorem rank_eq (h : Sums s) : s.rank = some s.level := by
  cases s with
  | release => rfl
  | pre separators word digits =>
    have hlt := readable_lt (digitsValue 0 digits)
    rw [rank, addInt, if_pos (by omega), level]
  | patch separators word digits =>
    have hlt : readable (digitsValue 0 digits) < 2 ^ 31 - 1000 := by
      rcases h with h | h
      · rw [readable, if_pos (by omega)]
        exact h
      · rw [readable, if_neg (by omega)]
        decide
    rw [rank, addInt, if_pos (by omega), level]

theorem sums_of_rank (h : s.rank = some r) : Sums s := by
  cases s with
  | release => trivial
  | pre separators word digits => trivial
  | patch separators word digits =>
    by_contra hover
    rw [Sums, not_or] at hover
    have hread : readable (digitsValue 0 digits) = digitsValue 0 digits := by
      rw [readable, if_pos (by omega)]
    rw [rank, addInt, hread, if_neg (by omega)] at h
    cases h

theorem apart_iff (s t : Suffix) :
    (∀ o, s.order t = some o → compare s.level t.level = o) ↔ s.Apart t := by
  have hbelow (m : Nat) : -1000 + (readable m : Int) < 0 ↔ m < 1000 ∨ 2 ^ 31 ≤ m := by
    rw [readable]
    split <;> omega
  cases s with
  | release =>
    cases t with
    | release => exact ⟨fun _ => trivial, fun _ o ho => by cases ho; rfl⟩
    | pre separators word digits =>
      simp only [order, Option.some.injEq, forall_eq', level, Apart, compare_gt_iff_gt, hbelow]
    | patch separators word digits =>
      simp only [order, Option.some.injEq, forall_eq', level, Apart, compare_lt_iff_lt, iff_true]
      omega
  | pre separators word digits =>
    cases t with
    | release =>
      simp only [order, Option.some.injEq, forall_eq', level, Apart, compare_lt_iff_lt, hbelow]
    | pre separators' word' digits' => exact ⟨fun _ => trivial, fun _ o ho => by cases ho⟩
    | patch separators' word' digits' =>
      simp only [order, Option.some.injEq, forall_eq', level, Apart, compare_lt_iff_lt]
      omega
  | patch separators word digits =>
    cases t with
    | release =>
      simp only [order, Option.some.injEq, forall_eq', level, Apart, compare_gt_iff_gt, gt_iff_lt,
        iff_true]
      omega
    | pre separators' word' digits' =>
      simp only [order, Option.some.injEq, forall_eq', level, Apart, compare_gt_iff_gt]
      omega
    | patch separators' word' digits' =>
      have hcast (a b : Nat) : compare (1000 + (a : Int)) (1000 + (b : Int)) = compare a b := by
        rcases Nat.lt_trichotomy a b with hlt | rfl | hgt
        · rw [Nat.compare_eq_lt.2 hlt, compare_lt_iff_lt.2 (by omega)]
        · rw [Nat.compare_eq_eq.2 rfl, compare_eq_iff_eq.2 rfl]
        · rw [Nat.compare_eq_gt.2 hgt, compare_gt_iff_gt.2 (by omega)]
      simp only [order, Option.some.injEq, forall_eq', level, Apart, hcast]

end Suffix

structure Separable (v w : VersionText) : Prop where
  left : v.suffix.Sums
  right : w.suffix.Sums
  suffixes : v.components = w.components → v.suffix.Apart w.suffix

theorem compared_levels (v w : VersionText) :
    (∀ o, v.order w = some o →
      orderSign ((compare v.components w.components).then
        (compare v.suffix.level w.suffix.level)) = orderSign o) ↔
      (v.components = w.components → v.suffix.Apart w.suffix) := by
  rw [← Suffix.apart_iff, VersionText.order]
  cases hcomp : compare v.components w.components with
  | eq =>
    have heq := Std.LawfulEqOrd.eq_of_compare hcomp
    exact ⟨fun h _ o ho => orderSign_injective (h o ho), fun h o ho => by rw [← h heq o ho]; rfl⟩
  | lt =>
    have hne : v.components ≠ w.components := by
      intro he
      rw [he, Std.compare_self] at hcomp
      cases hcomp
    exact ⟨fun _ he => absurd he hne, fun _ o ho => by cases ho; rfl⟩
  | gt =>
    have hne : v.components ≠ w.components := by
      intro he
      rw [he, Std.compare_self] at hcomp
      cases hcomp
    exact ⟨fun _ he => absurd he hne, fun _ o ho => by cases ho; rfl⟩

theorem ordered_iff (v w : VersionText) : Ordered v w ↔ Separable v w := by
  constructor
  · rintro ⟨x, y, hx, hy, horder⟩
    rw [parseVersion_text] at hx hy
    obtain ⟨r, hr, hxr⟩ := Option.map_eq_some_iff.1 hx
    obtain ⟨t, ht, hyt⟩ := Option.map_eq_some_iff.1 hy
    have hv := Suffix.sums_of_rank hr
    have hw := Suffix.sums_of_rank ht
    rw [Suffix.rank_eq hv, Option.some.injEq] at hr
    rw [Suffix.rank_eq hw, Option.some.injEq] at ht
    refine ⟨hv, hw, (compared_levels v w).1 ?_⟩
    intro o ho
    rw [hr, ht, ← cmpVer_read, hxr, hyt]
    exact horder o ho
  · rintro ⟨hv, hw, happart⟩
    refine ⟨v.read v.suffix.level, w.read w.suffix.level, ?_, ?_, ?_⟩
    · rw [parseVersion_text, Suffix.rank_eq hv, Option.map_some]
    · rw [parseVersion_text, Suffix.rank_eq hw, Option.map_some]
    · intro o ho
      rw [cmpVer_read]
      exact (compared_levels v w).2 happart o ho

inductive Operator
  | less
  | atMost
  | greater
  | atLeast

namespace Operator

def text : Operator → QString
  | less => utf16 "<"
  | atMost => utf16 "<="
  | greater => utf16 ">"
  | atLeast => utf16 ">="

/-- Whether a version in this order to that of the bound is on the right side of it. -/
def admits : Operator → Ordering → Bool
  | less, o => o.isLT
  | atMost, o => o.isLE
  | greater, o => o.isGT
  | atLeast, o => o.isGE

theorem satisfies_text (op : Operator) (o : Ordering) :
    satisfies (orderSign o) op.text = op.admits o := by
  cases op <;> cases o <;> decide

end Operator

structure Bound where
  op : Operator
  version : VersionText

def Bound.text (b : Bound) : QString := b.op.text ++ b.version.text

structure Range where
  first : Bound
  others : List Bound

namespace Range

def bounds (r : Range) : List Bound := r.first :: r.others

def text (r : Range) : QString := [0x2C].intercalate (r.bounds.map Bound.text)

def Decided (r : Range) (v : VersionText) : Prop := ∀ b ∈ r.bounds, v.order b.version ≠ none

def Inside (r : Range) (v : VersionText) : Prop :=
  ∀ b ∈ r.bounds, ∀ o, v.order b.version = some o → b.op.admits o = true

def Exact (r : Range) (v : VersionText) : Prop :=
  ∀ x, parseVersion v.text = some x → r.Decided v →
    ∃ res, rangeMatches r.text x = some (res, true) ∧ (res = true ↔ r.Inside v)

end Range

section Texts

theorem VersionText.text_head (v : VersionText) : ∃ c t, v.text = c :: t ∧ isDigit c = true := by
  have hne := v.nonempty
  have hnum := v.numerals
  rw [VersionText.text]
  cases hns : v.numbers with
  | nil => exact absurd hns hne
  | cons n ns =>
    obtain ⟨hn, hdigits⟩ := isNumeral_iff.1 (hnum n (hns ▸ List.mem_cons_self))
    cases n with
    | nil => exact absurd rfl hn
    | cons c s =>
      rw [intercalate_dots]
      exact ⟨c, _, rfl, hdigits c List.mem_cons_self⟩

theorem VersionText.text_chars (v : VersionText) : ∀ c ∈ v.text, isBoundChar c = true := by
  intro c hc
  rw [VersionText.text, List.mem_append] at hc
  rcases hc with hc | hc
  · rw [isBoundChar]
    cases hns : v.numbers with
    | nil => exact absurd hns v.nonempty
    | cons n ns =>
      have hnum := v.numerals
      rw [hns, intercalate_dots, List.mem_append, List.mem_flatMap] at hc
      rw [hns] at hnum
      rcases hc with hc | ⟨m, hm, hc⟩
      · exact digit_tail ((isNumeral_iff.1 (hnum n List.mem_cons_self)).2 c hc)
      · rcases List.mem_cons.1 hc with rfl | hc
        · rfl
        · exact digit_tail ((isNumeral_iff.1 (hnum m (List.mem_cons_of_mem n hm))).2 c hc)
  · exact (Suffix.text_chars v.suffix_valid).1 c hc

theorem digit_front {c : UInt16} (h : isDigit c = true) : c ≠ 0x3D ∧ isPatternSpace c = false := by
  simp only [isDigit, Bool.and_eq_true, decide_eq_true_eq, UInt16.le_iff_toNat_le,
    UInt16.reduceToNat] at h
  simp only [isPatternSpace, Bool.or_eq_false_iff, beq_eq_false_iff_ne, Bool.and_eq_false_iff,
    decide_eq_false_iff_not, ne_eq, ← UInt16.toNat_inj, UInt16.le_iff_toNat_le,
    UInt16.reduceToNat]
  omega

theorem boundAt_version (v : VersionText) (hc : c = 0x3C ∨ c = 0x3E)
    (hop : operatorAt c s = (op, v.text ++ rest))
    (hrest : ∀ d ∈ rest.head?, isBoundChar d = false) :
    boundAt c s = some ((op, v.text), rest) := by
  obtain ⟨d, t, hdt, hd⟩ := v.text_head
  obtain ⟨htake, hdrop⟩ := span_append v.text_chars hrest
  have hspace : (v.text ++ rest).dropWhile isPatternSpace = v.text ++ rest := by
    rw [hdt, List.cons_append, List.dropWhile_cons_of_neg]
    rw [(digit_front hd).2]
    exact Bool.false_ne_true
  have hhead : (v.text ++ rest).head?.any isDigit = true := by
    rw [hdt]
    exact hd
  rw [boundAt, if_pos hc, hop]
  dsimp only
  rw [hspace, hhead, if_pos rfl, htake, hdrop]

theorem boundTexts_bound (b : Bound) (hrest : ∀ d ∈ rest.head?, isBoundChar d = false) :
    boundTexts (b.text ++ rest) = (b.op.text, b.version.text) :: boundTexts rest := by
  obtain ⟨d, t, hdt, hd⟩ := b.version.text_head
  have hplain (c : UInt16) : operatorAt c (b.version.text ++ rest) =
      ([c], b.version.text ++ rest) := by
    rw [operatorAt, if_neg]
    rw [hdt]
    intro he
    exact (digit_front hd).1 (Option.some.inj he)
  have hequal (c : UInt16) : operatorAt c (0x3D :: (b.version.text ++ rest)) =
      ([c, 0x3D], b.version.text ++ rest) := if_pos rfl
  have hstep (c : UInt16) (s op : QString) (hc : c = 0x3C ∨ c = 0x3E)
      (hop : operatorAt c s = (op, b.version.text ++ rest)) :
      boundTexts (c :: s) = (op, b.version.text) :: boundTexts rest := by
    rw [boundTexts]
    split
    · rename_i found rest' hfound
      rw [boundAt_version b.version hc hop hrest] at hfound
      cases hfound
      rfl
    · rename_i hnone
      rw [boundAt_version b.version hc hop hrest] at hnone
      cases hnone
  rw [Bound.text]
  cases b.op with
  | less => exact hstep _ _ _ (Or.inl rfl) (hplain _)
  | atMost => exact hstep _ _ _ (Or.inl rfl) (hequal _)
  | greater => exact hstep _ _ _ (Or.inr rfl) (hplain _)
  | atLeast => exact hstep _ _ _ (Or.inr rfl) (hequal _)

theorem boundTexts_range (b : Bound) (bs : List Bound) :
    boundTexts ([0x2C].intercalate ((b :: bs).map Bound.text)) =
      (b :: bs).map (fun b => (b.op.text, b.version.text)) := by
  induction bs generalizing b with
  | nil =>
    have hlast : boundTexts (b.text ++ []) = (b.op.text, b.version.text) :: boundTexts [] :=
      boundTexts_bound b (fun d hd => by cases hd)
    rw [List.append_nil, boundTexts] at hlast
    rw [List.map_singleton, List.intercalate_singleton, hlast]
    rfl
  | cons next bs ih =>
    have hcomma (s : QString) : boundTexts (0x2C :: s) = boundTexts s := by
      rw [boundTexts]
      split
      · rename_i hfound
        cases hfound
      · rfl
    rw [List.map_cons, List.map_cons, List.intercalate_cons_cons, List.append_assoc,
      boundTexts_bound b, List.singleton_append, hcomma, ← List.map_cons, ih]
    · rfl
    · intro d hd
      cases hd
      rfl

theorem readBounds_range {bs : List Bound} (h : ∀ b ∈ bs, b.version.suffix.Sums) :
    readBounds (bs.map (fun b => (b.op.text, b.version.text))) =
      some (bs.map (fun b => (b.op.text, b.version.read b.version.suffix.level))) := by
  induction bs with
  | nil => rfl
  | cons b bs ih =>
    rw [List.map_cons, readBounds, parseVersion_text,
      Suffix.rank_eq (h b List.mem_cons_self), Option.map_some, Option.bind_some,
      ih (fun b hb => h b (List.mem_cons_of_mem _ hb))]
    rfl

end Texts

theorem range_exact {r : Range} (h : ∀ b ∈ r.bounds, Separable v b.version) : r.Exact v := by
  intro x hx hdecided
  have hv := (h r.first List.mem_cons_self).left
  rw [parseVersion_text, Suffix.rank_eq hv, Option.map_some, Option.some.injEq] at hx
  subst hx
  have hbounds : readBounds (boundTexts r.text) =
      some (r.bounds.map (fun b => (b.op.text, b.version.read b.version.suffix.level))) := by
    rw [Range.text, Range.bounds, boundTexts_range]
    exact readBounds_range (fun b hb => (h b hb).right)
  have hempty : r.text.isEmpty = false := by
    rw [Range.text, Range.bounds, List.map_cons]
    cases r.others with
    | nil =>
      rw [List.map_nil, List.intercalate_singleton, Bound.text]
      cases r.first.op <;> rfl
    | cons next bs =>
      rw [List.map_cons, List.intercalate_cons_cons, Bound.text]
      cases r.first.op <;> rfl
  have hmatch (b : Bound) (hb : b ∈ r.bounds) (o : Ordering) (ho : v.order b.version = some o) :
      satisfies (cmpVer (v.read v.suffix.level) (b.version.read b.version.suffix.level))
        b.op.text = b.op.admits o := by
    rw [cmpVer_read, (compared_levels v b.version).2 (h b hb).suffixes o ho,
      Operator.satisfies_text]
  refine ⟨r.bounds.all (fun b => satisfies (cmpVer (v.read v.suffix.level)
    (b.version.read b.version.suffix.level)) b.op.text), ?_, ?_⟩
  · rw [rangeMatches, hempty, if_neg Bool.false_ne_true, hbounds, Option.bind_some]
    exact congrArg (fun res => some (res, true)) List.all_map
  · rw [List.all_eq_true, Range.Inside]
    constructor
    · intro hall b hb o ho
      rw [← hmatch b hb o ho]
      exact hall b hb
    · intro hin b hb
      obtain ⟨o, ho⟩ := Option.ne_none_iff_exists'.1 (hdecided b hb)
      rw [hmatch b hb o ho]
      exact hin b hb o ho

/-- A version is ordered to the bounds of a range exactly if it is told apart from each. -/
theorem versions_ordered_iff (v : VersionText) (r : Range) :
    ((∀ b ∈ r.bounds, Ordered v b.version) ∧ r.Exact v) ↔
      ∀ b ∈ r.bounds, Separable v b.version := by
  constructor
  · rintro ⟨h, _⟩ b hb
    exact (ordered_iff v b.version).1 (h b hb)
  · intro h
    exact ⟨fun b hb => (ordered_iff v b.version).2 (h b hb), range_exact h⟩

def oneZero (suffix : Suffix) (h : suffix.Valid) : VersionText where
  numbers := [utf16 "1", utf16 "0"]
  suffix := suffix
  nonempty := List.cons_ne_nil _ _
  atMost := by decide
  numerals := by decide
  bounded := by decide
  suffix_valid := h

def datedPre : VersionText :=
  oneZero (.pre [] (utf16 "rc") (utf16 "20240101"))
    ⟨fun _ h => (List.not_mem_nil h).elim, forall_mem_of_all (by decide), by decide,
      forall_mem_of_all (by decide)⟩

/-- The pre-release 1.0rc20240101 is taken to be newer than the release 1.0. -/
theorem dated_pre_above : ¬ ((∀ b ∈ (Range.mk ⟨.less, oneZero .release trivial⟩ []).bounds,
    Ordered datedPre b.version) ∧
      (Range.mk ⟨.less, oneZero .release trivial⟩ []).Exact datedPre) := by
  rintro ⟨h, _⟩
  have hapart : digitsValue 0 (utf16 "20240101") < 1000 ∨
      2 ^ 31 ≤ digitsValue 0 (utf16 "20240101") :=
    ((ordered_iff _ _).1 (h _ List.mem_cons_self)).suffixes (by decide)
  revert hapart
  decide

end Nullock.CveDatabase

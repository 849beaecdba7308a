import Nullock.ServiceVulns

namespace Nullock.ServiceVulns

def isLetter (c : UInt16) : Bool := (0x41 ≤ c && c ≤ 0x5A) || (0x61 ≤ c && c ≤ 0x7A)

def lowerChar (c : UInt16) : UInt16 := if 0x41 ≤ c ∧ c ≤ 0x5A then c + 0x20 else c

def lowerCase (s : QString) : QString := s.map lowerChar

inductive Suffix
  | release
  | portable (p : UInt16) (digits : QString)
  | letters (run : QString)
  | preRelease (word digits : QString)

namespace Suffix

def text : Suffix → QString
  | .release => []
  | .portable p digits => p :: digits
  | .letters run => run
  | .preRelease word digits => word ++ digits

def WellFormed : Suffix → Prop
  | .release => True
  | .portable p digits => (p = 0x70 ∨ p = 0x50) ∧ isNumeral digits = true
  | .letters run => run ≠ [] ∧ (∀ c ∈ run, isLetter c = true) ∧ lowerCase run ∉ preWords
  | .preRelease word digits =>
    (∀ c ∈ word, isLetter c = true) ∧ lowerCase word ∈ preWords ∧ ∀ c ∈ digits, isDigit c = true

end Suffix

structure VersionText where
  numbers : List QString
  suffix : Suffix
  numbers_ne : numbers ≠ []
  numerals : ∀ n ∈ numbers, isNumeral n = true
  suffix_ok : suffix.WellFormed

namespace VersionText

def release (v : VersionText) : QString := [0x2E].intercalate v.numbers

def text (v : VersionText) : QString := v.release ++ v.suffix.text

end VersionText

section Chars

theorem digit_ascii (h : isDigit c = true) : c < 0x80 := by
  unfold isDigit at h
  grind

theorem letter_ascii (h : isLetter c = true) : c < 0x80 := by
  unfold isLetter at h
  grind

theorem digit_not_letter (h : isDigit c = true) : isLetter c = false := by
  unfold isDigit at h
  unfold isLetter
  grind

theorem letter_not_digit (h : isLetter c = true) : isDigit c = false := by
  apply Bool.eq_false_iff.2
  intro hd
  rw [digit_not_letter hd] at h
  cases h

theorem lowerChar_digit (h : isDigit c = true) : lowerChar c = c := by
  unfold isDigit at h
  unfold lowerChar
  grind

theorem lowerChar_letter (h : isLetter c = true) :
    isLetter (lowerChar c) = true ∧ 0x61 ≤ lowerChar c ∧ lowerChar c ≤ 0x7A := by
  unfold isLetter at h ⊢
  unfold lowerChar
  have hcases : (0x41 ≤ c ∧ c ≤ 0x5A) ∨ (0x61 ≤ c ∧ c ≤ 0x7A) := by grind
  rcases hcases with hc | hc
  · rw [if_pos hc]
    have hlow : 0x61 ≤ c + 0x20 ∧ c + 0x20 ≤ 0x7A := by
      obtain ⟨h1, h2⟩ := hc
      rw [UInt16.le_iff_toNat_le] at h1 h2 ⊢
      rw [UInt16.le_iff_toNat_le, UInt16.toNat_add]
      have e1 : (0x41 : UInt16).toNat = 0x41 := rfl
      have e2 : (0x5A : UInt16).toNat = 0x5A := rfl
      have e3 : (0x20 : UInt16).toNat = 0x20 := rfl
      have e4 : (0x61 : UInt16).toNat = 0x61 := rfl
      have e5 : (0x7A : UInt16).toNat = 0x7A := rfl
      omega
    exact ⟨by grind, hlow.1, hlow.2⟩
  · have hnot : ¬ (0x41 ≤ c ∧ c ≤ 0x5A) := by grind
    rw [if_neg hnot]
    exact ⟨by grind, hc.1, hc.2⟩

theorem lowerCase_digits (h : ∀ c ∈ s, isDigit c = true) : lowerCase s = s := by
  rw [lowerCase]
  conv => rhs; rw [← List.map_id s]
  exact List.map_congr_left (fun c hc => lowerChar_digit (h c hc))

theorem lowerCase_letters (h : ∀ c ∈ s, isLetter c = true) :
    ∀ c ∈ lowerCase s, isLetter c = true := by
  intro c hc
  obtain ⟨d, hd, rfl⟩ := List.mem_map.1 hc
  exact (lowerChar_letter (h d hd)).1

end Chars

section Tokens
variable (C : CharLibrary)

theorem tokens_digits (h : ∀ c ∈ ds, isDigit c = true) (hcur : cur = [] ∨ curDigit = true)
    (hne : ds ≠ [] ∨ curDigit = true) (s : QString) :
    tokens C cur curDigit (ds ++ s) = tokens C (cur ++ ds) true s := by
  induction ds generalizing cur curDigit with
  | nil =>
    rw [hne.resolve_left (fun hnil => hnil rfl), List.append_nil]
    rfl
  | cons c ds ih =>
    have hc := h c List.mem_cons_self
    have hgo : (!cur.isEmpty && !curDigit) = false := by
      rcases hcur with rfl | rfl
      · rfl
      · exact Bool.and_false _
    rw [List.cons_append, tokens, C.isDigit_ascii c (digit_ascii hc), hc, if_pos rfl, hgo,
      if_neg nofun, ih (fun d hd => h d (List.mem_cons_of_mem c hd)) (.inr rfl) (.inr rfl),
      List.append_assoc]
    rfl

theorem letter_class (h : isLetter c = true) :
    C.isDigitChar c = false ∧ C.isLetterChar c = true := by
  refine ⟨?_, ?_⟩
  · rw [C.isDigit_ascii c (letter_ascii h)]
    exact letter_not_digit h
  · rw [C.isLetter_ascii c (letter_ascii h)]
    exact h

theorem tokens_letters (h : ∀ c ∈ ls, isLetter c = true) (hcur : cur = [] ∨ curDigit = false)
    (hne : ls ≠ [] ∨ curDigit = false) (s : QString) :
    tokens C cur curDigit (ls ++ s) = tokens C (cur ++ ls) false s := by
  induction ls generalizing cur curDigit with
  | nil =>
    rw [hne.resolve_left (fun hnil => hnil rfl), List.append_nil]
    rfl
  | cons c ls ih =>
    obtain ⟨hdigit, hletter⟩ := letter_class C (h c List.mem_cons_self)
    have hgo : (!cur.isEmpty && curDigit) = false := by
      rcases hcur with rfl | rfl
      · rfl
      · exact Bool.and_false _
    rw [List.cons_append, tokens, hdigit, if_neg nofun, hletter, if_pos rfl, hgo, if_neg nofun,
      ih (fun d hd => h d (List.mem_cons_of_mem c hd)) (.inr rfl) (.inr rfl), List.append_assoc]
    rfl

theorem tokens_turn (hcur : cur ≠ []) (hs : s = [] ∨ ∃ c t, s = c :: t ∧ isLetter c = true) :
    tokens C cur true s = cur :: tokens C [] true s := by
  have hempty : cur.isEmpty = false := List.isEmpty_eq_false_iff.2 hcur
  rcases hs with rfl | ⟨c, t, rfl, hc⟩
  · rw [tokens, flush, hempty]
    rfl
  · obtain ⟨hdigit, hletter⟩ := letter_class C hc
    rw [tokens, tokens, hdigit, if_neg nofun, hletter, if_pos rfl, hempty]
    rfl

theorem tokens_numbers (hne : numbers ≠ []) (h : ∀ n ∈ numbers, isNumeral n = true)
    (hs : s = [] ∨ ∃ c t, s = c :: t ∧ isLetter c = true) :
    tokens C [] curDigit ([0x2E].intercalate numbers ++ s) =
      numbers ++ tokens C [] true s := by
  induction numbers generalizing curDigit with
  | nil => exact absurd rfl hne
  | cons n numbers ih =>
    obtain ⟨hn, hdigits⟩ := isNumeral_iff.1 (h n List.mem_cons_self)
    cases numbers with
    | nil =>
      rw [List.intercalate_singleton, tokens_digits C hdigits (.inl rfl) (.inl hn)]
      exact tokens_turn C hn hs
    | cons m numbers =>
      have hdot : C.isDigitChar 0x2E = false ∧ C.isLetterChar 0x2E = false := by
        refine ⟨?_, ?_⟩
        · rw [C.isDigit_ascii 0x2E (by decide)]
          decide
        · rw [C.isLetter_ascii 0x2E (by decide)]
          decide
      rw [List.intercalate_cons_cons, List.append_assoc, List.append_assoc,
        tokens_digits C hdigits (.inl rfl) (.inl hn), List.singleton_append, tokens, hdot.1,
        if_neg nofun, hdot.2, if_neg nofun, List.nil_append, flush,
        List.isEmpty_eq_false_iff.2 hn, if_neg nofun,
        ih (List.cons_ne_nil m numbers) (fun k hk => h k (List.mem_cons_of_mem n hk))]
      rfl

theorem readTokens_numbers (h : ∀ n ∈ numbers, isNumeral n = true) (hout : out.stage = StageRelease)
    (toks : List QString) : readTokens out (numbers ++ toks) =
      readTokens { out with nums := out.nums ++ numbers.map component } toks := by
  induction numbers generalizing out with
  | nil => rw [List.map_nil, List.append_nil]; rfl
  | cons n numbers ih =>
    have hrest : ∀ k ∈ numbers, isNumeral k = true := fun k hk =>
      h k (List.mem_cons_of_mem n hk)
    have hstep : ({ out with nums := out.nums ++ [component n] } : Ver).stage = StageRelease :=
      hout
    rw [List.cons_append, readTokens, if_pos (h n List.mem_cons_self), if_pos hout,
      ih hrest hstep, List.append_assoc]
    rfl

end Tokens

section Parsed

theorem release_chars (h : ∀ n ∈ numbers, isNumeral n = true)
    (hc : c ∈ [0x2E].intercalate numbers) : isDigit c = true ∨ c = 0x2E := by
  induction numbers with
  | nil => exact absurd hc List.not_mem_nil
  | cons n numbers ih =>
    have hn := (isNumeral_iff.1 (h n List.mem_cons_self)).2
    cases numbers with
    | nil =>
      rw [List.intercalate_singleton] at hc
      exact .inl (hn c hc)
    | cons m numbers =>
      rw [List.intercalate_cons_cons, List.append_assoc] at hc
      rcases List.mem_append.1 hc with hc | hc
      · exact .inl (hn c hc)
      · rcases List.mem_append.1 hc with hc | hc
        · exact .inr (List.mem_singleton.1 hc)
        · exact ih (fun k hk => h k (List.mem_cons_of_mem n hk)) hc

theorem Suffix.chars {s : Suffix} (h : s.WellFormed) (hc : c ∈ s.text) :
    isDigit c = true ∨ isLetter c = true := by
  cases s with
  | release => exact absurd hc List.not_mem_nil
  | portable p digits =>
    rcases List.mem_cons.1 hc with rfl | hc
    · rcases h.1 with rfl | rfl
      · exact .inr rfl
      · exact .inr rfl
    · exact .inl ((isNumeral_iff.1 h.2).2 c hc)
  | letters run => exact .inr (h.2.1 c hc)
  | preRelease word digits =>
    rcases List.mem_append.1 hc with hc | hc
    · exact .inr (h.1 c hc)
    · exact .inl (h.2.2 c hc)

theorem VersionText.chars {v : VersionText} (hc : c ∈ v.text) :
    (isDigit c = true ∨ c = 0x2E) ∨ isLetter c = true := by
  rcases List.mem_append.1 hc with hc | hc
  · exact .inl (release_chars v.numerals hc)
  · exact (Suffix.chars v.suffix_ok hc).imp_left .inl

theorem VersionText.ascii {v : VersionText} : ∀ c ∈ v.text, c < 0x80 := by
  intro c hc
  rcases VersionText.chars hc with (hc | rfl) | hc
  · exact digit_ascii hc
  · decide
  · exact letter_ascii hc

theorem preWord_letters (h : word ∈ preWords) :
    word ≠ [] ∧ (∀ c ∈ word, isLetter c = true) ∧ word ≠ utf16 "p" := by
  have hall : preWords.all (fun w => !w.isEmpty && w.all isLetter && w != utf16 "p") = true := by
    decide
  have hword := List.all_eq_true.1 hall word h
  obtain ⟨hfirst, hp⟩ := Bool.and_eq_true_iff.1 hword
  obtain ⟨hne, hletters⟩ := Bool.and_eq_true_iff.1 hfirst
  exact ⟨List.isEmpty_eq_false_iff.1 ((Bool.not_eq_true' _).mp hne), List.all_eq_true.1 hletters,
    bne_iff_ne.1 hp⟩

theorem lowerChar_p (h : p = 0x70 ∨ p = 0x50) : lowerChar p = 0x70 := by
  rcases h with rfl | rfl
  · decide
  · decide

def Suffix.parsed (nums : List Int) : Suffix → Ver
  | .release => { nums := nums }
  | .portable _ digits =>
    if (readInt digits).isSome then { nums := nums ++ [component digits] }
    else { nums := nums, stage := StagePatch, stageKey := letterKey 0 (utf16 "p") }
  | .letters run =>
    { nums := nums, stage := StagePatch, stageKey := letterKey 0 (lowerCase run) }
  | .preRelease word digits =>
    { nums := nums, stage := StagePre,
      stageKey := preRank (lowerCase word) * 100000 + (readInt digits).getD 0 }

theorem letters_not_numeral (hne : ls ≠ []) (h : ∀ c ∈ ls, isLetter c = true) :
    isNumeral ls = false := by
  apply Bool.eq_false_iff.2
  intro hnum
  obtain ⟨c, hc⟩ := List.exists_mem_of_ne_nil ls hne
  have hdigit := letter_not_digit (h c hc)
  rw [(isNumeral_iff.1 hnum).2 c hc] at hdigit
  cases hdigit

theorem Suffix.head {s : Suffix} (h : s.WellFormed) :
    s = .release ∨ ∃ c t, s.text = c :: t ∧ isLetter c = true := by
  cases s with
  | release => exact .inl rfl
  | portable p digits =>
    refine .inr ⟨p, digits, rfl, ?_⟩
    rcases h.1 with rfl | rfl
    · rfl
    · rfl
  | letters run =>
    obtain ⟨c, run, rfl⟩ := List.exists_cons_of_ne_nil h.1
    exact .inr ⟨c, run, rfl, h.2.1 c List.mem_cons_self⟩
  | preRelease word digits =>
    obtain ⟨hne, -⟩ := preWord_letters h.2.1
    obtain ⟨c, word, rfl⟩ := List.exists_cons_of_ne_nil
      (fun hnil : word = [] => hne (by rw [hnil]; rfl))
    exact .inr ⟨c, word ++ digits, rfl, h.1 c List.mem_cons_self⟩

theorem Suffix.lower_head {s : Suffix} (h : s.WellFormed) :
    lowerCase s.text = [] ∨ ∃ c t, lowerCase s.text = c :: t ∧ isLetter c = true := by
  rcases Suffix.head h with rfl | ⟨c, t, heq, hc⟩
  · exact .inl rfl
  · rw [heq]
    exact .inr ⟨lowerChar c, lowerCase t, rfl, (lowerChar_letter hc).1⟩

theorem Suffix.read (C : CharLibrary) {s : Suffix} (h : s.WellFormed) (nums : List Int) :
    readTokens { nums := nums } (tokens C [] true (lowerCase s.text)) = s.parsed nums := by
  cases s with
  | release => rfl
  | portable p digits =>
    obtain ⟨hp, hnum⟩ := h
    obtain ⟨hne, hdigits⟩ := isNumeral_iff.1 hnum
    have hlower : lowerCase (p :: digits) = utf16 "p" ++ (digits ++ []) := by
      rw [List.append_nil]
      show lowerChar p :: lowerCase digits = _
      rw [lowerChar_p hp, lowerCase_digits hdigits]
      rfl
    have htoks : tokens C [] true (lowerCase (p :: digits)) = [utf16 "p", digits] := by
      have hturn : tokens C (utf16 "p") false (digits ++ []) =
          utf16 "p" :: tokens C [] true (digits ++ []) := by
        obtain ⟨d, digits, rfl⟩ := List.exists_cons_of_ne_nil hne
        have hd := hdigits d List.mem_cons_self
        rw [List.cons_append, tokens, tokens, C.isDigit_ascii d (digit_ascii hd), hd]
        rfl
      have hletter : ∀ c ∈ utf16 "p", isLetter c = true := List.all_eq_true.1 (by decide)
      rw [hlower, tokens_letters C hletter (.inl rfl) (.inl (by decide)), List.nil_append,
        hturn, tokens_digits C hdigits (.inl rfl) (.inl hne), List.nil_append, tokens, flush,
        List.isEmpty_eq_false_iff.2 hne]
      rfl
    show readTokens _ (tokens C [] true (lowerCase (p :: digits))) = _
    rw [htoks, readTokens, if_neg (by decide), Suffix.parsed]
    by_cases hsoft : (readInt digits).isSome = true
    · rw [if_pos ⟨rfl, hsoft⟩, if_pos hsoft, readTokens, if_pos hnum, if_pos rfl, readTokens]
    · rw [if_neg (fun h => hsoft h.2), if_neg hsoft, if_neg (by decide)]
  | letters run =>
    obtain ⟨hne, hletters, hword⟩ := h
    have hlow := lowerCase_letters hletters
    have hlne : lowerCase run ≠ [] := fun hnil => hne (List.map_eq_nil_iff.1 hnil)
    have htoks : tokens C [] true (lowerCase run) = [lowerCase run] := by
      have h := tokens_letters C hlow (.inl rfl : ([] : QString) = [] ∨ true = false)
        (.inl hlne) []
      rw [List.append_nil, List.nil_append] at h
      rw [h, tokens, flush, List.isEmpty_eq_false_iff.2 hlne]
      rfl
    show readTokens _ (tokens C [] true (lowerCase run)) = _
    rw [htoks, readTokens, letters_not_numeral hlne hlow, if_neg nofun,
      if_neg (fun h => absurd h.2 nofun), if_neg (fun h => hword (List.contains_iff_mem.1 h))]
    rfl
  | preRelease word digits =>
    obtain ⟨-, hword, hdigits⟩ := h
    obtain ⟨hne, hletters, hp⟩ := preWord_letters hword
    have hlower : lowerCase (word ++ digits) = lowerCase word ++ digits := by
      rw [lowerCase, List.map_append]
      exact congrArg (lowerCase word ++ ·) (lowerCase_digits hdigits)
    have htoks : ∃ toks, tokens C [] true (lowerCase (word ++ digits)) = lowerCase word :: toks ∧
        toks.head?.bind readInt = readInt digits := by
      rw [hlower, tokens_letters C hletters (.inl rfl) (.inl hne), List.nil_append]
      cases digits with
      | nil =>
        refine ⟨[], ?_, rfl⟩
        rw [tokens, flush, List.isEmpty_eq_false_iff.2 hne]
        rfl
      | cons d digits =>
        have hd := hdigits d List.mem_cons_self
        refine ⟨[d :: digits], ?_, rfl⟩
        have hrest := tokens_digits C (fun c hc => hdigits c (List.mem_cons_of_mem d hc))
          (.inr rfl : [d] = [] ∨ true = true) (.inr rfl) []
        rw [List.append_nil] at hrest
        rw [tokens, C.isDigit_ascii d (digit_ascii hd), hd, if_pos rfl,
          List.isEmpty_eq_false_iff.2 hne, hrest]
        rfl
    obtain ⟨toks, htoks, hnum⟩ := htoks
    show readTokens _ (tokens C [] true (lowerCase (word ++ digits))) = _
    rw [htoks, readTokens, letters_not_numeral hne hletters, if_neg nofun,
      if_neg (fun h => hp h.1), if_pos (List.contains_iff_mem.2 hword), hnum]
    rfl

theorem parseVer_text (C : CharLibrary) (v : VersionText) :
    parseVer C v.text = v.suffix.parsed (v.numbers.map component) := by
  have hlower : C.toLower v.text = v.release ++ lowerCase v.suffix.text := by
    rw [C.toLower_ascii v.text VersionText.ascii]
    show lowerCase (v.release ++ v.suffix.text) = _
    rw [lowerCase, List.map_append]
    refine congrArg (· ++ lowerCase v.suffix.text) ?_
    conv => rhs; rw [← List.map_id v.release]
    apply List.map_congr_left
    intro c hc
    rcases release_chars v.numerals hc with hc | rfl
    · exact lowerChar_digit hc
    · rfl
  rw [parseVer, hlower, VersionText.release,
    tokens_numbers C v.numbers_ne v.numerals (Suffix.lower_head v.suffix_ok),
    readTokens_numbers v.numerals rfl]
  exact Suffix.read C v.suffix_ok _

end Parsed

end Nullock.ServiceVulns

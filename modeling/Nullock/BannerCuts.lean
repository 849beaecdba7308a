import Nullock.BannerCaptures

namespace Nullock.ServiceVulns

section MariaDb

theorem mariadb_more (c : UInt16) :
    isMore Product.mariadb.pattern c = (isDigit c || [0x2E].contains (foldCase c)) := rfl

theorem letter_fold (h : isLetter c = true) : isLetter (foldCase c) = true := by
  unfold foldCase
  split
  · rename_i hc
    have hlow := (lowerChar_letter h).1
    rw [lowerChar, if_pos hc] at hlow
    exact hlow
  · split
    · decide
    · split
      · decide
      · exact h

theorem letter_not_dot (h : isLetter c = true) : foldCase c ≠ 0x2E := by
  intro hdot
  have hletter := letter_fold h
  rw [hdot] at hletter
  cases hletter

/-- A run of version characters with something else behind it is passed over. -/
theorem capture_pass (hu : ∀ c ∈ u, isMore Product.mariadb.pattern c = true)
    (hz : ∀ c ∈ z.head?, isMore Product.mariadb.pattern c = false)
    (hbehind : startsWith Product.mariadb.pattern.behind z = false) :
    capture Product.mariadb.pattern (u ++ z) = capture Product.mariadb.pattern z := by
  induction u with
  | nil => rfl
  | cons c u ih =>
    have hrest := fun d hd => hu d (List.mem_cons_of_mem c hd)
    have hdrop : (u ++ z).dropWhile (isMore Product.mariadb.pattern) = z := by
      rw [List.dropWhile_append_of_pos hrest]
      cases z with
      | nil => rfl
      | cons d z => rw [List.dropWhile_cons_of_neg (by rw [hz d rfl]; exact nofun)]
    have hnone : captureAt Product.mariadb.pattern (c :: (u ++ z)) = none := by
      show (if (isDigit c && _ && startsWith Product.mariadb.pattern.behind
        ((u ++ z).dropWhile (isMore Product.mariadb.pattern))) = true then _ else none) = none
      rw [hdrop, hbehind, Bool.and_false, if_neg Bool.false_ne_true]
    rw [List.cons_append, capture, hnone]
    exact ih hrest

theorem capture_letters (hl : ∀ c ∈ ls, isLetter c = true) (z : QString) :
    capture Product.mariadb.pattern (ls ++ z) = capture Product.mariadb.pattern z := by
  induction ls with
  | nil => rfl
  | cons c ls ih =>
    have hnone : captureAt Product.mariadb.pattern (c :: (ls ++ z)) = none := by
      show (if (isDigit c && _ && _) = true then _ else none) = none
      rw [letter_not_digit (hl c List.mem_cons_self), Bool.false_and, Bool.false_and,
        if_neg Bool.false_ne_true]
    rw [List.cons_append, capture, hnone]
    exact ih (fun d hd => hl d (List.mem_cons_of_mem c hd))

theorem capture_ends (hu : ∀ c ∈ u, isMore Product.mariadb.pattern c = true)
    (hhead : ∀ c ∈ u.head?, isDigit c = true) :
    capture Product.mariadb.pattern (u ++ utf16 "-MariaDB") =
      if 2 ≤ u.length then some u else none := by
  have hrun {u : QString} (hu : ∀ c ∈ u, isMore Product.mariadb.pattern c = true) :
      (u ++ utf16 "-MariaDB").takeWhile (isMore Product.mariadb.pattern) = u ∧
        (u ++ utf16 "-MariaDB").dropWhile (isMore Product.mariadb.pattern) =
          utf16 "-MariaDB" := by
    have htake : (utf16 "-MariaDB").takeWhile (isMore Product.mariadb.pattern) = [] := by decide
    have hdrop : (utf16 "-MariaDB").dropWhile (isMore Product.mariadb.pattern) =
        utf16 "-MariaDB" := by decide
    rw [List.takeWhile_append_of_pos hu, List.dropWhile_append_of_pos hu, htake, hdrop,
      List.append_nil]
    exact ⟨rfl, rfl⟩
  have hbare : capture Product.mariadb.pattern (utf16 "-MariaDB") = none := by decide
  cases u with
  | nil => exact hbare
  | cons d u =>
    have hd := hhead d rfl
    obtain ⟨htake, hdrop⟩ := hrun (fun c hc => hu c (List.mem_cons_of_mem d hc))
    have hat : captureAt Product.mariadb.pattern (d :: (u ++ utf16 "-MariaDB")) =
        if (!u.isEmpty) = true then some (d :: u) else none := by
      show (if (isDigit d && (!true || !((u ++ utf16 "-MariaDB").takeWhile
        (isMore Product.mariadb.pattern)).isEmpty) && startsWith (utf16 "-MariaDB")
          ((u ++ utf16 "-MariaDB").dropWhile (isMore Product.mariadb.pattern))) = true then
        some (d :: (u ++ utf16 "-MariaDB").takeWhile (isMore Product.mariadb.pattern))
        else none) = _
      rw [htake, hdrop, hd, Bool.true_and, Bool.not_true, Bool.false_or,
        show startsWith (utf16 "-MariaDB") (utf16 "-MariaDB") = true from by decide,
        Bool.and_true]
    rw [List.cons_append, capture, hat]
    cases u with
    | nil => exact hbare
    | cons e u =>
      have htwo : 2 ≤ (d :: e :: u).length := Nat.le_add_left 2 u.length
      rw [if_pos (show (!(e :: u).isEmpty) = true from rfl), if_pos htwo]

theorem release_more (v : VersionText) :
    ∀ c ∈ v.release, isMore Product.mariadb.pattern c = true := by
  intro c hc
  rcases release_chars v.numerals hc with hc | rfl
  · exact isMore_digit hc _
  · decide

def mariadbCaptured (v : VersionText) : Option QString :=
  match v.suffix with
  | .release => if 2 ≤ v.release.length then some v.release else none
  | .portable _ digits => if 2 ≤ digits.length then some digits else none
  | .letters _ => none
  | .preRelease _ digits => if 2 ≤ digits.length then some digits else none

theorem VersionText.release_head (v : VersionText) : ∀ c ∈ v.release.head?, isDigit c = true := by
  obtain ⟨d, t, htext, hd⟩ :=
    VersionText.text_head ⟨v.numbers, .release, v.numbers_ne, v.numerals, trivial⟩
  have hrelease : v.release = d :: t := (List.append_nil _).symm.trans htext
  intro c hc
  rw [hrelease] at hc
  cases hc
  exact hd

theorem capture_prefixed (v : VersionText) :
    capture Product.mariadb.pattern (Product.mariadb.banner v.text) =
      capture Product.mariadb.pattern (v.text ++ utf16 "-MariaDB") := by
  obtain ⟨d, t, htext, hd⟩ := v.text_head
  have hbanner : Product.mariadb.banner v.text =
      utf16 "5.5.5" ++ (0x2D :: (v.text ++ utf16 "-MariaDB")) := rfl
  have hmore : ∀ c ∈ utf16 "5.5.5", isMore Product.mariadb.pattern c = true :=
    forall_mem_of_all (by decide)
  have hbehind : startsWith Product.mariadb.pattern.behind
      (0x2D :: (v.text ++ utf16 "-MariaDB")) = false := by
    apply Bool.eq_false_iff.2
    intro hstarts
    rw [htext] at hstarts
    have heq := beq_iff_eq.1 hstarts
    have hfold : foldCase d = 0x6D := (List.cons.inj (List.cons.inj heq).2).1
    rw [foldCase_digit hd] at hfold
    rw [hfold] at hd
    exact absurd hd (by decide)
  have hhead : ∀ c ∈ (0x2D :: (v.text ++ utf16 "-MariaDB")).head?,
      isMore Product.mariadb.pattern c = false := by
    intro c hc
    cases hc
    decide
  rw [hbanner, capture_pass hmore hhead hbehind, capture]
  rfl

theorem letter_stops (h : isLetter c = true) : isMore Product.mariadb.pattern c = false := by
  rw [mariadb_more, letter_not_digit h, Bool.false_or]
  apply Bool.eq_false_iff.2
  intro hmem
  exact letter_not_dot h (List.mem_singleton.1 (List.contains_iff_mem.1 hmem))

theorem capture_release {v : VersionText} (hsuffix : v.suffix ≠ .release) :
    capture Product.mariadb.pattern (v.text ++ utf16 "-MariaDB") =
      capture Product.mariadb.pattern (v.suffix.text ++ utf16 "-MariaDB") := by
  obtain ⟨c, t, heq, hc⟩ := (Suffix.head v.suffix_ok).resolve_left hsuffix
  rw [VersionText.text, List.append_assoc]
  apply capture_pass (release_more v)
  · intro d hd
    rw [heq] at hd
    cases hd
    exact letter_stops hc
  · apply Bool.eq_false_iff.2
    intro hstarts
    rw [heq] at hstarts
    obtain ⟨d, s', hcons, hfold⟩ := startsWith_head hstarts
    cases hcons
    have hletter := letter_fold hc
    rw [hfold] at hletter
    cases hletter

theorem capture_digits (h : ∀ c ∈ digits, isDigit c = true) :
    capture Product.mariadb.pattern (digits ++ utf16 "-MariaDB") =
      if 2 ≤ digits.length then some digits else none := by
  apply capture_ends
  · intro c hc
    exact isMore_digit (h c hc) _
  · intro c hc
    exact h c (List.mem_of_mem_head? hc)

theorem mariadb_captured (v : VersionText) :
    capture Product.mariadb.pattern (Product.mariadb.banner v.text) = mariadbCaptured v := by
  have hok := v.suffix_ok
  rw [capture_prefixed]
  unfold mariadbCaptured
  cases hs : v.suffix with
  | release =>
    have htext : v.text = v.release := by
      rw [VersionText.text, hs]
      exact List.append_nil _
    rw [htext]
    exact capture_ends (release_more v) v.release_head
  | portable p digits =>
    rw [hs] at hok
    have hp : ∀ c ∈ [p], isLetter c = true := by
      intro c hc
      rw [List.mem_singleton.1 hc]
      rcases hok.1 with rfl | rfl
      · rfl
      · rfl
    rw [capture_release (by rw [hs]; exact nofun), hs]
    show capture Product.mariadb.pattern ([p] ++ (digits ++ utf16 "-MariaDB")) = _
    rw [capture_letters hp]
    exact capture_digits (isNumeral_iff.1 hok.2).2
  | letters run =>
    rw [hs] at hok
    rw [capture_release (by rw [hs]; exact nofun), hs]
    show capture Product.mariadb.pattern (run ++ utf16 "-MariaDB") = _
    have hbare : capture Product.mariadb.pattern (utf16 "-MariaDB") = none := by decide
    rw [capture_letters hok.2.1]
    exact hbare
  | preRelease word digits =>
    rw [hs] at hok
    rw [capture_release (by rw [hs]; exact nofun), hs]
    show capture Product.mariadb.pattern ((word ++ digits) ++ utf16 "-MariaDB") = _
    rw [List.append_assoc, capture_letters hok.1]
    exact capture_digits hok.2.2

theorem mariadb_banner (v : VersionText) :
    parseBanner (Product.mariadb.banner v.text) = match mariadbCaptured v with
      | some version => (Product.mariadb.name, version)
      | none => ([], []) := by
  have hlater : Product.mariadb.later.all (skips Product.mariadb.before true) = true := by decide
  have hnone : parseWith (Product.mariadb.banner v.text) Product.mariadb.later = ([], []) := by
    have hskip : ∀ q ∈ Product.mariadb.later,
        capture q (Product.mariadb.banner v.text) = none := by
      intro q hq
      apply skips_none (List.all_eq_true.1 hlater q hq) _ nofun
      have hbehind : ∀ c ∈ utf16 "-MariaDB", isPlain c = true := forall_mem_of_all (by decide)
      intro c hc
      rcases List.mem_append.1 hc with hc | hc
      · exact (text_plain v c hc).1
      · exact hbehind c hc
    have hend := parseWith_skip hskip []
    rw [List.append_nil] at hend
    exact hend
  have hown := parseBanner_own .mariadb v
  rw [mariadb_captured, hnone] at hown
  exact hown

end MariaDb

section Cut

def isP (c : UInt16) : Bool := lowerChar c == 0x70

theorem foldCase_letter (h : isLetter c = true) : foldCase c = lowerChar c := by
  unfold foldCase lowerChar
  split
  · rfl
  · have hlow : 0x61 ≤ c ∧ c ≤ 0x7A := by
      unfold isLetter at h
      grind
    obtain ⟨h1, h2⟩ := hlow
    rw [if_neg, if_neg]
    · rintro rfl
      exact absurd h2 (by decide)
    · rintro rfl
      exact absurd h2 (by decide)

theorem openssh_letter (h : isLetter c = true) : isMore Product.openssh.pattern c = isP c := by
  show (isDigit c || [0x2E, 0x70].contains (foldCase c)) = _
  have hdot : (lowerChar c == 0x2E) = false := by
    apply beq_eq_false_iff_ne.2
    rw [← foldCase_letter h]
    exact letter_not_dot h
  rw [letter_not_digit h, foldCase_letter h, Bool.false_or, List.contains_cons, hdot,
    Bool.false_or, List.contains_cons, List.contains_nil, Bool.or_false]
  rfl

theorem takeWhile_same {l : List α} {q r : α → Bool} (h : ∀ c ∈ l, q c = r c) :
    l.takeWhile q = l.takeWhile r := by
  induction l with
  | nil => rfl
  | cons c l ih =>
    have hrest := ih (fun d hd => h d (List.mem_cons_of_mem c hd))
    rw [List.takeWhile_cons, List.takeWhile_cons, h c List.mem_cons_self, hrest]

def VersionText.bare (v : VersionText) : VersionText where
  numbers := v.numbers
  suffix := .release
  numbers_ne := v.numbers_ne
  numerals := v.numerals
  suffix_ok := trivial

theorem bare_text (v : VersionText) : v.bare.text = v.release := List.append_nil _

theorem isP_letter (h : isP c = true) : isLetter c = true := by
  have hp : lowerChar c = 0x70 := beq_iff_eq.1 h
  unfold lowerChar at hp
  unfold isLetter
  split at hp
  · rename_i hc
    grind
  · rw [hp]
    decide

theorem preWord_not_ps (h : word ∈ preWords) : ∃ c ∈ word, c ≠ 0x70 := by
  have hall : preWords.all (fun w => w.any (· != 0x70)) = true := by decide
  obtain ⟨c, hc, hne⟩ := List.any_eq_true.1 (List.all_eq_true.1 hall word h)
  exact ⟨c, hc, bne_iff_ne.1 hne⟩

theorem ps_not_preWord (h : ∀ c ∈ ps, isP c = true) : lowerCase ps ∉ preWords := by
  intro hmem
  obtain ⟨c, hc, hne⟩ := preWord_not_ps hmem
  obtain ⟨d, hd, rfl⟩ := List.mem_map.1 hc
  exact hne (beq_iff_eq.1 (h d hd))

def VersionText.withPs (v : VersionText) (ps : QString) (hne : ps ≠ [])
    (h : ∀ c ∈ ps, isP c = true) : VersionText where
  numbers := v.numbers
  suffix := .letters ps
  numbers_ne := v.numbers_ne
  numerals := v.numerals
  suffix_ok := ⟨hne, fun c hc => isP_letter (h c hc), ps_not_preWord h⟩

def cutVer (nums : List Int) (ps : QString) : Ver :=
  if ps.isEmpty then { nums := nums }
  else { nums := nums, stage := StagePatch, stageKey := letterKey 0 (lowerCase ps) }

theorem parseVer_cut (C : CharLibrary) (v : VersionText) (h : ∀ c ∈ ps, isP c = true) :
    parseVer C (v.release ++ ps) = cutVer (v.numbers.map component) ps := by
  cases ps with
  | nil =>
    rw [List.append_nil, ← bare_text, parseVer_text]
    rfl
  | cons c ps => exact parseVer_text C (v.withPs (c :: ps) (List.cons_ne_nil c ps) h)

end Cut

section Keys

def IsLow (c : UInt16) : Prop := 0x61 ≤ c ∧ c ≤ 0x7A

theorem lowerCase_low (h : ∀ c ∈ s, isLetter c = true) : ∀ c ∈ lowerCase s, IsLow c := by
  intro c hc
  obtain ⟨d, hd, rfl⟩ := List.mem_map.1 hc
  exact (lowerChar_letter (h d hd)).2

theorem letterValue_pos (h : IsLow c) : 1 ≤ letterValue c := by
  obtain ⟨h1, h2⟩ := h
  have hascii : c ≤ 0x7F := UInt16.le_trans h2 (by decide)
  rw [UInt16.le_iff_toNat_le] at h1
  have hlow : (0x61 : UInt16).toNat = 0x61 := rfl
  rw [letterValue, if_pos hascii]
  omega

theorem letterKey_grows (h : ∀ c ∈ s, IsLow c) (hkey : 0 ≤ key) (hmax : key ≤ intMax) :
    key ≤ letterKey key s ∧ letterKey key s ≤ intMax ∧
      (s ≠ [] → key < intMax → key < letterKey key s) := by
  induction s generalizing key with
  | nil => exact ⟨Int.le_refl key, hmax, fun hne => absurd rfl hne⟩
  | cons c s ih =>
    have hvalue := letterValue_pos (h c List.mem_cons_self)
    have hgrow : key < key * 26 + letterValue c := by omega
    rw [letterKey]
    split
    · exact ⟨hmax, Int.le_refl _, fun _ hlt => hlt⟩
    · rename_i hfits
      obtain ⟨hle, hbound, -⟩ := ih (fun d hd => h d (List.mem_cons_of_mem c hd))
        (Int.le_of_lt (Int.lt_of_le_of_lt hkey hgrow)) (Int.not_lt.1 hfits)
      exact ⟨Int.le_trans (Int.le_of_lt hgrow) hle, hbound,
        fun _ _ => Int.lt_of_lt_of_le hgrow hle⟩

theorem letterKey_append (h : ∀ c ∈ a ++ b, IsLow c) (hkey : 0 ≤ key) (hmax : key ≤ intMax) :
    letterKey key (a ++ b) =
      if letterKey key a = intMax then intMax else letterKey (letterKey key a) b := by
  induction a generalizing key with
  | nil =>
    rw [List.nil_append, letterKey]
    split
    · rename_i heq
      obtain ⟨hle, hbound, -⟩ := letterKey_grows h hkey hmax
      rw [List.nil_append] at hle hbound
      exact Int.le_antisymm hbound (by rw [heq] at hle ⊢; exact hle)
    · rfl
  | cons c a ih =>
    have hvalue := letterValue_pos (h c List.mem_cons_self)
    rw [List.cons_append, letterKey, letterKey]
    split
    · rw [if_pos rfl]
    · rename_i hfits
      exact ih (fun d hd => h d (List.mem_cons_of_mem c hd)) (by omega) (Int.not_lt.1 hfits)

theorem ps_lower (h : ∀ c ∈ ps, isP c = true) : lowerCase ps = List.replicate ps.length 0x70 := by
  apply List.eq_replicate_iff.2
  refine ⟨List.length_map _, ?_⟩
  intro c hc
  obtain ⟨d, hd, rfl⟩ := List.mem_map.1 hc
  exact beq_iff_eq.1 (h d hd)

theorem ps_key (h : ∀ c ∈ ps, isP c = true) :
    letterKey 0 (lowerCase ps) = intMax ↔ 7 ≤ ps.length := by
  rw [ps_lower h]
  constructor
  · intro hkey
    by_contra hlt
    have hsmall : ∀ n ∈ List.range 7, letterKey 0 (List.replicate n 0x70) ≠ intMax :=
      forall_mem_of_all (by decide)
    exact hsmall ps.length (List.mem_range.2 (Nat.lt_of_not_le hlt)) hkey
  · intro hle
    have hsplit : List.replicate ps.length (0x70 : UInt16) =
        List.replicate 7 0x70 ++ List.replicate (ps.length - 7) 0x70 := by
      rw [List.replicate_append_replicate, Nat.add_sub_cancel' hle]
    have hlow : ∀ c ∈ List.replicate 7 (0x70 : UInt16) ++ List.replicate (ps.length - 7) 0x70,
        IsLow c := by
      rw [← hsplit]
      intro c hc
      rw [List.eq_of_mem_replicate hc]
      exact ⟨by decide, by decide⟩
    have hseven : letterKey 0 (List.replicate 7 0x70) = intMax := by decide
    rw [hsplit, letterKey_append hlow (Int.le_refl 0) (by decide), if_pos hseven]

end Keys

end Nullock.ServiceVulns

import Nullock.BannerCuts
import Nullock.VersionVerdicts

namespace Nullock.ServiceVulns

def bannerHits (C : CharLibrary) (overlay : List ServiceCve) (banner : QString) : List CveHit :=
  matchVersion C overlay (parseBanner banner).1 (parseBanner banner).2

def ReadWhole (p : Product) (v : VersionText) : Prop :=
  match v.suffix with
  | .release => p = .mariadb → 2 ≤ v.release.length
  | .portable _ _ => p = .openssh
  | .letters run =>
    p = .openssh ∧ ((∀ c ∈ run, isP c = true) ∨ 7 ≤ (run.takeWhile isP).length)
  | .preRelease _ _ => False

section Judged
variable (C : CharLibrary)

def JudgedAlike (p : Product) (v : VersionText) : Prop :=
  ∀ overlay, judged (bannerHits C overlay (p.banner v.text)) =
    judged (matchVersion C overlay p.name v.text)

theorem text_digit (v : VersionText) : v.text.any isDigit = true := by
  obtain ⟨d, t, htext, hd⟩ := v.text_head
  rw [htext, List.any_cons, hd, Bool.true_or]

theorem cut_digit (v : VersionText) (ps : QString) : (v.release ++ ps).any isDigit = true := by
  have hbare := text_digit v.bare
  rw [bare_text] at hbare
  rw [List.any_append, hbare, Bool.true_or]

theorem alike_cut (hps : ∀ c ∈ ps, isP c = true)
    (hbanner : parseBanner (p.banner v.text) = (Product.name p, VersionText.release v ++ ps))
    (h : JudgedAlike C p v) :
    isTruncated (v.numbers.map component) (v.suffix.parsed (v.numbers.map component)).nums =
        false ∧
      (cutVer (v.numbers.map component) ps).stage =
        (v.suffix.parsed (v.numbers.map component)).stage ∧
      (cutVer (v.numbers.map component) ps).stageKey =
        (v.suffix.parsed (v.numbers.map component)).stageKey := by
  have hequal := judged_equal C p.name_ne (cut_digit v ps) (text_digit v) (by
    intro overlay
    have hall := h overlay
    rw [bannerHits, hbanner] at hall
    exact hall)
  have hnums : (cutVer (v.numbers.map component) ps).nums = v.numbers.map component := by
    unfold cutVer
    split
    · rfl
    · rfl
  obtain ⟨-, hstage, hkey⟩ := verCmp_zero C hequal.2
  have htrunc := hequal.1
  rw [verNums, verNums, parseVer_cut C v hps, parseVer_text, hnums] at htrunc
  rw [parseVer_cut C v hps, parseVer_text] at hstage hkey
  exact ⟨htrunc, hstage, hkey⟩

theorem alike_bare
    (hbanner : parseBanner (p.banner v.text) = (Product.name p, VersionText.release v))
    (h : JudgedAlike C p v) : v.suffix = .release := by
  obtain ⟨htrunc, hstage, -⟩ := alike_cut C (fun c hc => absurd hc List.not_mem_nil)
    (by rw [List.append_nil]; exact hbanner) h
  cases hs : v.suffix with
  | release => rfl
  | portable p digits =>
    rw [hs, Suffix.parsed] at htrunc hstage
    split at htrunc
    · rw [isTruncated_append _ (List.cons_ne_nil _ _)] at htrunc
      cases htrunc
    · rename_i hsoft
      rw [if_neg hsoft] at hstage
      cases hstage
  | letters run =>
    rw [hs] at hstage
    cases hstage
  | preRelease word digits =>
    rw [hs] at hstage
    cases hstage

theorem judged_whole (hbanner : parseBanner (p.banner v.text) = (Product.name p, v.text)) :
    JudgedAlike C p v := by
  intro overlay
  rw [bannerHits, hbanner]

theorem release_text (hs : v.suffix = .release) : VersionText.text v = v.release := by
  rw [VersionText.text, hs]
  exact List.append_nil _

theorem other_banner (hssh : p ≠ Product.openssh) (hdb : p ≠ Product.mariadb) (v : VersionText) :
    parseBanner (p.banner v.text) = (p.name, v.release) := by
  have hdot : p.pattern.more = utf16 "." := by
    cases p with
    | openssh => exact absurd rfl hssh
    | _ => rfl
  have hmore : isMore p.pattern = isMore Product.mariadb.pattern := by
    funext c
    rw [isMore, hdot]
    rfl
  have hnone : v.suffix.text.takeWhile (isMore Product.mariadb.pattern) = [] := by
    rcases Suffix.head v.suffix_ok with hs | ⟨c, t, heq, hc⟩
    · rw [hs]
      rfl
    · rw [heq, List.takeWhile_cons_of_neg (by rw [letter_stops hc]; exact Bool.false_ne_true)]
  rw [banner_captured hdb, hmore, VersionText.text, List.takeWhile_append_of_pos (release_more v),
    hnone, List.append_nil]

theorem other_judged (hssh : p ≠ Product.openssh) (hdb : p ≠ Product.mariadb) (v : VersionText) :
    JudgedAlike C p v ↔ ReadWhole p v := by
  have hbanner := other_banner hssh hdb v
  constructor
  · intro h
    rw [ReadWhole, alike_bare C hbanner h]
    exact fun h => absurd h hdb
  · intro h
    have hs : v.suffix = .release := by
      unfold ReadWhole at h
      cases hs : v.suffix with
      | release => rfl
      | portable q digits =>
        rw [hs] at h
        exact absurd h hssh
      | letters run =>
        rw [hs] at h
        exact absurd h.1 hssh
      | preRelease word digits =>
        rw [hs] at h
        exact h.elim
    apply judged_whole
    rw [hbanner, release_text hs]

theorem openssh_banner (v : VersionText) :
    parseBanner (Product.openssh.banner v.text) = (Product.openssh.name,
      v.release ++ v.suffix.text.takeWhile (isMore Product.openssh.pattern)) := by
  have hmore : ∀ c ∈ v.release, isMore Product.openssh.pattern c = true := by
    intro c hc
    rcases release_chars v.numerals hc with hc | rfl
    · exact isMore_digit hc _
    · decide
  have hdb : Product.openssh ≠ Product.mariadb := nofun
  rw [banner_captured hdb, VersionText.text, List.takeWhile_append_of_pos hmore]

theorem openssh_judged (v : VersionText) :
    JudgedAlike C .openssh v ↔ ReadWhole .openssh v := by
  have hbanner := openssh_banner v
  have hok := v.suffix_ok
  unfold ReadWhole
  cases hs : v.suffix with
  | release =>
    rw [hs] at hbanner
    refine ⟨fun _ h => absurd h nofun, fun _ => judged_whole C ?_⟩
    rw [hbanner, release_text hs]
    exact congrArg (Product.openssh.name, ·) (List.append_nil _)
  | portable q digits =>
    rw [hs] at hbanner hok
    refine ⟨fun _ => rfl, fun _ => judged_whole C ?_⟩
    have hq : isMore Product.openssh.pattern q = true := by
      rcases hok.1 with rfl | rfl
      · decide
      · decide
    have hall : ∀ c ∈ q :: digits, isMore Product.openssh.pattern c = true := by
      intro c hc
      rcases List.mem_cons.1 hc with rfl | hc
      · exact hq
      · exact isMore_digit ((isNumeral_iff.1 hok.2).2 c hc) _
    have hwhole : (Suffix.portable q digits).text.takeWhile (isMore Product.openssh.pattern) =
        q :: digits := List.takeWhile_eq_self_iff.2 hall
    rw [hbanner, hwhole, VersionText.text, hs]
    rfl
  | letters run =>
    rw [hs] at hbanner hok
    have hcut : (Suffix.letters run).text.takeWhile (isMore Product.openssh.pattern) =
        run.takeWhile isP := takeWhile_same (fun c hc => openssh_letter (hok.2.1 c hc))
    have hps : ∀ c ∈ run.takeWhile isP, isP c = true := fun c hc => List.mem_takeWhile_imp hc
    have hrun : run = run.takeWhile isP ++ run.dropWhile isP :=
      List.takeWhile_append_dropWhile.symm
    have hlow : ∀ c ∈ lowerCase (run.takeWhile isP) ++ lowerCase (run.dropWhile isP), IsLow c := by
      rw [lowerCase, lowerCase, ← List.map_append, ← hrun]
      exact lowerCase_low hok.2.1
    have hlower : lowerCase run =
        lowerCase (run.takeWhile isP) ++ lowerCase (run.dropWhile isP) := by
      rw [lowerCase, lowerCase, lowerCase, ← List.map_append, ← hrun]
    have hkey := letterKey_append hlow (Int.le_refl 0) (by decide)
    rw [← hlower] at hkey
    rw [hcut] at hbanner
    constructor
    · intro h
      refine ⟨rfl, ?_⟩
      by_cases hrest : run.dropWhile isP = []
      · left
        rw [hrest, List.append_nil] at hrun
        rw [hrun]
        exact hps
      · right
        obtain ⟨-, hstage, hsame⟩ := alike_cut C hps hbanner h
        rw [hs] at hstage hsame
        have hne : (run.takeWhile isP).isEmpty = false := by
          apply Bool.eq_false_iff.2
          intro hempty
          rw [cutVer, hempty] at hstage
          cases hstage
        rw [cutVer, hne, if_neg Bool.false_ne_true] at hsame
        apply (ps_key hps).1
        by_contra hfits
        rw [if_neg hfits] at hkey
        have hletters : ∀ c ∈ lowerCase (run.takeWhile isP), IsLow c :=
          fun c hc => hlow c (List.mem_append_left _ hc)
        obtain ⟨hpos, hmax, -⟩ := letterKey_grows hletters (Int.le_refl 0) (by decide)
        obtain ⟨-, -, hgrows⟩ := letterKey_grows
          (fun c hc => hlow c (List.mem_append_right _ hc)) hpos hmax
        have hlt := hgrows (fun hnil => hrest (List.map_eq_nil_iff.1 hnil))
          (lt_of_le_of_ne hmax hfits)
        have heq : letterKey 0 (lowerCase (run.takeWhile isP)) = letterKey 0 (lowerCase run) :=
          hsame
        rw [hkey] at heq
        exact absurd heq (ne_of_lt hlt)
    · rintro ⟨-, hall | hseven⟩
      · apply judged_whole
        rw [hbanner, List.takeWhile_eq_self_iff.2 hall, VersionText.text, hs]
        rfl
      · intro overlay
        rw [bannerHits, hbanner]
        apply judged_congr C _ (cut_digit v _) (text_digit v)
        have hne : (run.takeWhile isP).isEmpty = false := by
          apply Bool.eq_false_iff.2
          intro hempty
          rw [List.isEmpty_iff.1 hempty] at hseven
          exact absurd hseven (by decide)
        have hmax := (ps_key hps).2 hseven
        rw [if_pos hmax] at hkey
        rw [parseVer_cut C v hps, parseVer_text, hs, cutVer, hne, if_neg Bool.false_ne_true, hmax,
          Suffix.parsed, hkey]
  | preRelease word digits =>
    rw [hs] at hbanner hok
    refine ⟨fun h => ?_, False.elim⟩
    have hnot : ¬ ∀ c ∈ word, isP c = true := fun hall => ps_not_preWord hall hok.2.1
    have hcut : (Suffix.preRelease word digits).text.takeWhile (isMore Product.openssh.pattern) =
        word.takeWhile isP := by
      have hsame : word.takeWhile (isMore Product.openssh.pattern) = word.takeWhile isP :=
        takeWhile_same (fun c hc => openssh_letter (hok.1 c hc))
      show (word ++ digits).takeWhile _ = _
      rw [List.takeWhile_append, hsame, if_neg]
      intro hlength
      apply hnot
      have hwhole : word.takeWhile isP = word :=
        (List.takeWhile_prefix isP).eq_of_length hlength
      exact List.takeWhile_eq_self_iff.1 hwhole
    rw [hcut] at hbanner
    have hps : ∀ c ∈ word.takeWhile isP, isP c = true := fun c hc => List.mem_takeWhile_imp hc
    obtain ⟨-, hstage, -⟩ := alike_cut C hps hbanner h
    rw [hs] at hstage
    unfold cutVer at hstage
    split at hstage
    · cases hstage
    · cases hstage

theorem mariadb_none (h : mariadbCaptured v = none) : ¬ JudgedAlike C .mariadb v := by
  intro hall
  have hnot := judged_nonempty C Product.mariadb.name_ne (text_digit v)
  rw [← hall, bannerHits, mariadb_banner, h] at hnot
  exact hnot rfl

theorem mariadb_digits (hdigits : ∀ c ∈ digits, isDigit c = true) (hlength : 2 ≤ digits.length)
    (hcaptured : mariadbCaptured v = some digits)
    (hparsed : (v.suffix.parsed (v.numbers.map component)).stage = StageRelease →
      (v.suffix.parsed (v.numbers.map component)).nums =
        v.numbers.map component ++ [component digits]) : ¬ JudgedAlike C .mariadb v := by
  intro h
  have hne : digits ≠ [] := by
    rintro rfl
    exact absurd hlength (by decide)
  have hnumeral : isNumeral digits = true := isNumeral_iff.2 ⟨hne, hdigits⟩
  have hparse : parseVer C digits = { nums := [component digits] } := by
    have htext := parseVer_text C ⟨[digits], .release, List.cons_ne_nil _ _, fun n hn => by
      rw [List.mem_singleton.1 hn]
      exact hnumeral, trivial⟩
    have heq : ([0x2E] : QString).intercalate [digits] ++ [] = digits := by
      rw [List.intercalate_singleton, List.append_nil]
    exact (congrArg (parseVer C) heq).symm.trans htext
  have hany : digits.any isDigit = true := by
    obtain ⟨c, hc⟩ := List.exists_mem_of_ne_nil digits hne
    exact List.any_eq_true.2 ⟨c, hc, hdigits c hc⟩
  obtain ⟨htrunc, hcmp⟩ := judged_equal C Product.mariadb.name_ne hany (text_digit v) (by
    intro overlay
    have hall := h overlay
    rw [bannerHits, mariadb_banner, hcaptured] at hall
    exact hall)
  obtain ⟨hnums, hstage, -⟩ := verCmp_zero C hcmp
  rw [hparse, parseVer_text] at hnums hstage
  rw [verNums, verNums, hparse, parseVer_text] at htrunc
  rw [hparsed hstage.symm] at hnums htrunc
  obtain ⟨n, numbers, heq⟩ := List.exists_cons_of_ne_nil
    (fun hnil => v.numbers_ne (List.map_eq_nil_iff.1 hnil) : v.numbers.map component ≠ [])
  rw [heq] at hnums htrunc
  rw [numsCmp_head hnums] at htrunc
  have hshort : isTruncated [n] ([n] ++ (numbers ++ [n])) = true :=
    isTruncated_append [n] (List.append_ne_nil_of_right_ne_nil _ (List.cons_ne_nil _ _))
  exact absurd (htrunc.symm.trans (numsCmp_head hnums ▸ hshort)) Bool.false_ne_true

theorem mariadb_judged (v : VersionText) :
    JudgedAlike C .mariadb v ↔ ReadWhole .mariadb v := by
  have hok := v.suffix_ok
  unfold ReadWhole
  cases hs : v.suffix with
  | release =>
    have hcaptured : mariadbCaptured v = if 2 ≤ v.release.length then some v.release else none := by
      rw [mariadbCaptured, hs]
    constructor
    · intro h _
      by_contra hshort
      rw [if_neg hshort] at hcaptured
      exact mariadb_none C hcaptured h
    · intro h
      apply judged_whole
      rw [mariadb_banner, hcaptured, if_pos (h rfl), release_text hs]
  | portable q digits =>
    rw [hs] at hok
    refine ⟨fun h => ?_, fun h => absurd h (fun h => by cases h)⟩
    have hcaptured : mariadbCaptured v = if 2 ≤ digits.length then some digits else none := by
      rw [mariadbCaptured, hs]
    by_cases hlength : 2 ≤ digits.length
    · rw [if_pos hlength] at hcaptured
      refine absurd h (mariadb_digits C (isNumeral_iff.1 hok.2).2 hlength hcaptured ?_)
      rw [hs, Suffix.parsed]
      split
      · exact fun _ => rfl
      · intro hstage
        cases hstage
    · rw [if_neg hlength] at hcaptured
      exact absurd h (mariadb_none C hcaptured)
  | letters run =>
    have hcaptured : mariadbCaptured v = none := by
      rw [mariadbCaptured, hs]
    exact ⟨fun h => absurd h (mariadb_none C hcaptured), fun h => absurd h.1 (fun h => by cases h)⟩
  | preRelease word digits =>
    rw [hs] at hok
    refine ⟨fun h => ?_, False.elim⟩
    have hcaptured : mariadbCaptured v = if 2 ≤ digits.length then some digits else none := by
      rw [mariadbCaptured, hs]
    by_cases hlength : 2 ≤ digits.length
    · rw [if_pos hlength] at hcaptured
      refine mariadb_digits C hok.2.2 hlength hcaptured ?_ h
      rw [hs]
      intro hstage
      cases hstage
    · rw [if_neg hlength] at hcaptured
      exact mariadb_none C hcaptured h

/-- A banner is judged as the version it states, exactly if that is taken whole. -/
theorem banner_judged_iff (p : Product) (v : VersionText) :
    (∀ overlay, judged (bannerHits C overlay (p.banner v.text)) =
      judged (matchVersion C overlay p.name v.text)) ↔ ReadWhole p v := by
  by_cases hssh : p = .openssh
  · rw [hssh]
    exact openssh_judged C v
  · by_cases hdb : p = .mariadb
    · rw [hdb]
      exact mariadb_judged C v
    · exact other_judged C hssh hdb v

end Judged

section Samples

def asciiChars : CharLibrary where
  isDigitChar := isDigit
  isLetterChar := isLetter
  toLower := lowerCase
  caseFold := lowerCase
  isDigit_ascii _ _ := rfl
  isLetter_ascii _ _ := rfl
  toLower_ascii _ _ := rfl

def letteredBuild : VersionText where
  numbers := [utf16 "1", utf16 "3", utf16 "5"]
  suffix := .letters (utf16 "a")
  numbers_ne := List.cons_ne_nil _ _
  numerals := List.all_eq_true.1 (by decide)
  suffix_ok := ⟨List.cons_ne_nil _ _, List.all_eq_true.1 (by decide), by decide⟩

/-- The banner of the fixed build is a sure hit, the version itself is none. -/
theorem lettered_build_hit :
    Product.proftpd.banner letteredBuild.text = utf16 "ProFTPD 1.3.5a" ∧
      judged (bannerHits asciiChars [] (Product.proftpd.banner letteredBuild.text)) =
        [(utf16 "CVE-2015-3306", true)] ∧
      judged (matchVersion asciiChars [] Product.proftpd.name letteredBuild.text) = [] := by
  refine ⟨?_, ?_, ?_⟩
  · decide
  · decide
  · decide

end Samples

end Nullock.ServiceVulns

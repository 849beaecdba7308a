import Nullock.BannerVersions
import Nullock.DecimalOrder
import Nullock.Padded

namespace Nullock.ServiceVulns
open Padded

structure Numeric where
  numbers : List QString
  numbers_ne : numbers ≠ []
  numerals : ∀ n ∈ numbers, isNumeral n = true

namespace Numeric

def toText (v : Numeric) : VersionText where
  numbers := v.numbers
  suffix := .release
  numbers_ne := v.numbers_ne
  numerals := v.numerals
  suffix_ok := trivial

def text (v : Numeric) : QString := v.toText.text

def values (v : Numeric) : List Nat := v.numbers.map (digitsValue 0)

def boundary (m : Option Numeric) : QString := (m.map text).getD []

end Numeric

section Numbers

def clamped (n : Nat) : Int := if intMax < n then intMax else n

theorem component_clamped (h : isNumeral t = true) :
    component t = clamped (digitsValue 0 t) := by
  have hmax : intMax = 2147483647 := rfl
  rw [component, toLongLong_numeral h, clamped]
  by_cases hlong : digitsValue 0 t < 2 ^ 63
  · rw [if_pos hlong]
  · rw [if_neg hlong, if_pos (by omega)]

theorem clamped_lt {x y : Nat} (hx : (x : Int) < intMax) : clamped x < clamped y ↔ x < y := by
  rw [clamped, clamped]
  split
  · omega
  · split
    · omega
    · omega

theorem clamped_inj {x y : Nat} (hx : (x : Int) < intMax) : clamped x = clamped y ↔ x = y := by
  rw [clamped, clamped]
  split
  · omega
  · split
    · omega
    · omega

theorem zerosCmp_clamped (b : List Nat) :
    (zerosCmp (b.map clamped) < 0 ↔ ∃ y ∈ b, 0 < y) ∧
      (zerosCmp (b.map clamped) = 0 ↔ ∀ y ∈ b, y = 0) := by
  induction b with
  | nil =>
    refine ⟨⟨nofun, ?_⟩, fun _ => nofun, fun _ => rfl⟩
    rintro ⟨y, hy, -⟩
    cases hy
  | cons y b ih =>
    have hmax : ((0 : Nat) : Int) < intMax := by decide
    rw [List.map_cons, zerosCmp]
    by_cases hy : y = 0
    · have hzero : ¬(0 : Int) ≠ clamped 0 := fun hne => hne rfl
      rw [hy, if_neg hzero]
      simpa using ih
    · have hpos : 0 < clamped y := (clamped_lt hmax).2 (Nat.pos_of_ne_zero hy)
      rw [if_pos hpos.ne, if_pos hpos]
      refine ⟨⟨fun _ => ⟨y, List.mem_cons_self, Nat.pos_of_ne_zero hy⟩, fun _ => by decide⟩,
        ⟨fun h => absurd h (by decide), fun h => absurd (h y List.mem_cons_self) hy⟩⟩

/-- Clamped components compare alike if those of one version are not clamped. -/
theorem numsCmp_clamped {a : List Nat} (ha : ∀ x ∈ a, (x : Int) < intMax) (b : List Nat) :
    (numsCmp (a.map clamped) (b.map clamped) < 0 ↔ Below a b) ∧
      (numsCmp (a.map clamped) (b.map clamped) = 0 ↔ Same a b) := by
  induction a generalizing b with
  | nil =>
    rw [List.map_nil, numsCmp, below_nil, same_nil]
    exact zerosCmp_clamped b
  | cons x a ih =>
    have hhead : (b.map clamped).headD 0 = clamped (part b 0) := by
      cases b with
      | nil => rfl
      | cons y b => rfl
    have htail : (b.map clamped).tail = b.tail.map clamped := List.map_tail.symm
    have hx := ha x List.mem_cons_self
    have hrest := ih (fun y hy => ha y (List.mem_cons_of_mem x hy)) b.tail
    rw [List.map_cons, numsCmp, hhead, htail, below_cons, same_cons]
    by_cases he : x = part b 0
    · have hnot : ¬clamped x ≠ clamped (part b 0) := fun hne => hne (congrArg clamped he)
      rw [if_neg hnot, hrest.1, hrest.2]
      refine ⟨⟨fun h => .inr ⟨he, h⟩, ?_⟩, ⟨fun h => ⟨he, h⟩, And.right⟩⟩
      rintro (hless | ⟨-, h⟩)
      · exact absurd he hless.ne
      · exact h
    · rw [if_pos (fun h => he ((clamped_inj hx).1 h))]
      by_cases hless : x < part b 0
      · rw [if_pos ((clamped_lt hx).2 hless)]
        exact ⟨⟨fun _ => .inl hless, fun _ => by decide⟩,
          ⟨fun h => absurd h (by decide), fun h => absurd h.1 he⟩⟩
      · rw [if_neg (fun h => hless ((clamped_lt hx).1 h))]
        refine ⟨⟨fun h => absurd h (by decide), ?_⟩,
          ⟨fun h => absurd h (by decide), fun h => absurd h.1 he⟩⟩
        rintro (h | ⟨h, -⟩)
        · exact absurd h hless
        · exact absurd h he

theorem isTruncated_clamped {a : List Nat} (ha : ∀ x ∈ a, (x : Int) < intMax) (b : List Nat) :
    isTruncated (a.map clamped) (b.map clamped) = true ↔ ∃ rest, b = a ++ rest ∧ rest ≠ [] := by
  rw [isTruncated, Bool.and_eq_true, decide_eq_true_eq, List.isPrefixOf_iff_prefix,
    List.length_map, List.length_map]
  constructor
  · rintro ⟨hlength, rest, hrest⟩
    obtain ⟨front, back, rfl, hfront, -⟩ := List.append_eq_map_iff.1 hrest
    have hlen : a.length = front.length := by
      rw [← List.length_map clamped, ← hfront, List.length_map]
    have hsame : a = front := by
      apply List.ext_getElem hlen
      intro i hi hi'
      have hmap := congrArg (fun l => l[i]?) hfront
      simp only [List.getElem?_map, List.getElem?_eq_getElem hi, List.getElem?_eq_getElem hi',
        Option.map_some, Option.some.injEq] at hmap
      exact ((clamped_inj (ha _ (List.getElem_mem hi))).1 hmap.symm)
    refine ⟨back, by rw [hsame], ?_⟩
    rintro rfl
    rw [List.append_nil, hlen] at hlength
    exact absurd hlength (Nat.lt_irrefl _)
  · rintro ⟨rest, rfl, hne⟩
    refine ⟨?_, ?_⟩
    · rw [List.length_append]
      exact Nat.lt_add_of_pos_right (List.length_pos_iff.2 hne)
    · rw [List.map_append]
      exact List.prefix_append _ _

end Numbers

section Verdicts
variable (C : CharLibrary) {v m : Numeric}

theorem parseVer_numeric (v : Numeric) : parseVer C v.text = { nums := v.values.map clamped } := by
  have hcomponents : v.numbers.map component = v.values.map clamped := by
    rw [Numeric.values, List.map_map]
    exact List.map_congr_left (fun t ht => component_clamped (v.numerals t ht))
  rw [Numeric.text, parseVer_text, ← hcomponents]
  rfl

theorem text_ne (m : Numeric) : m.text.isEmpty = false := by
  apply List.isEmpty_eq_false_iff.2
  intro hempty
  obtain ⟨numbers, hne, hnumerals⟩ := m
  have hrelease : [0x2E].intercalate numbers = ([] : QString) :=
    (List.append_eq_nil_iff.1 hempty).1
  cases numbers with
  | nil => exact hne rfl
  | cons n numbers =>
    have hn := (isNumeral_iff.1 (hnumerals n List.mem_cons_self)).1
    cases numbers with
    | nil =>
      rw [List.intercalate_singleton] at hrelease
      exact hn hrelease
    | cons k numbers =>
      rw [List.intercalate_cons_cons] at hrelease
      exact hn (List.append_eq_nil_iff.1 (List.append_eq_nil_iff.1 hrelease).1).1

theorem verCmp_numeric (v m : Numeric) :
    verCmp C v.text m.text = numsCmp (v.values.map clamped) (m.values.map clamped) := by
  rw [verCmp, parseVer_numeric, parseVer_numeric]
  dsimp only
  split
  · rfl
  · rename_i hzero
    rw [if_neg (fun h => h rfl), if_neg (fun h => h rfl)]
    exact (not_not.1 hzero).symm

theorem truncatedAgainst_numeric (hv : ∀ x ∈ v.values, (x : Int) < intMax) (m : Numeric) :
    truncatedAgainst C v.text m.text = true ↔ Undecided v.values m.values := by
  rw [truncatedAgainst, text_ne, if_neg Bool.false_ne_true, verNums, verNums, parseVer_numeric,
    parseVer_numeric]
  dsimp only
  rw [Bool.and_eq_true, isTruncated_clamped hv, List.length_map]
  constructor
  · rintro ⟨⟨rest, hrest, -⟩, hany⟩
    refine ⟨rest, hrest, ?_⟩
    rw [hrest, List.map_append, List.drop_left' (List.length_map _)] at hany
    obtain ⟨x, hx, hpos⟩ := List.any_eq_true.1 hany
    obtain ⟨y, hy, rfl⟩ := List.mem_map.1 hx
    refine ⟨y, hy, Nat.pos_of_ne_zero ?_⟩
    rintro rfl
    exact bne_iff_ne.1 hpos rfl
  · rintro ⟨rest, hrest, y, hy, hpos⟩
    refine ⟨⟨rest, hrest, List.ne_nil_of_mem hy⟩, ?_⟩
    rw [hrest, List.map_append, List.drop_left' (List.length_map _)]
    have hne : clamped y ≠ 0 := fun he =>
      (Nat.pos_iff_ne_zero.1 hpos)
        ((clamped_inj (x := 0) (by decide)).1 (he.symm : clamped 0 = clamped y)).symm
    exact List.any_eq_true.2 ⟨clamped y, List.mem_map_of_mem hy, bne_iff_ne.2 hne⟩

theorem above_numeric (hv : ∀ x ∈ v.values, (x : Int) < intMax) (lo : Option Numeric) :
    (!(!(Numeric.boundary lo).isEmpty) || decide (0 ≤ verCmp C v.text (Numeric.boundary lo)) ||
      (!(Numeric.boundary lo).isEmpty && truncatedAgainst C v.text (Numeric.boundary lo))) = true ↔
        ∀ m ∈ lo.map Numeric.values, Below v.values m → Undecided v.values m := by
  cases lo with
  | none => exact ⟨fun _ m hm => (Option.not_mem_none m hm).elim, fun _ => rfl⟩
  | some m =>
    have hbelow := (numsCmp_clamped hv m.values).1
    rw [← verCmp_numeric C] at hbelow
    show (!(!m.text.isEmpty) || decide (0 ≤ verCmp C v.text m.text) ||
      (!m.text.isEmpty && truncatedAgainst C v.text m.text)) = true ↔ _
    rw [text_ne, Bool.not_false, Bool.not_true, Bool.false_or, Bool.true_and, Bool.or_eq_true,
      decide_eq_true_eq, truncatedAgainst_numeric C hv, ← Int.not_lt, hbelow]
    constructor
    · intro h n hn hless
      obtain rfl : m.values = n := Option.some.inj hn
      exact h.resolve_left (fun hnot => hnot hless)
    · intro h
      by_cases hless : Below v.values m.values
      · exact .inr (h _ rfl hless)
      · exact .inl hless

theorem below_numeric (hv : ∀ x ∈ v.values, (x : Int) < intMax) (hi : Option Numeric) :
    (!(!(Numeric.boundary hi).isEmpty) || decide (verCmp C v.text (Numeric.boundary hi) < 0) ||
      (!(Numeric.boundary hi).isEmpty && truncatedAgainst C v.text (Numeric.boundary hi))) = true ↔
        ∀ m ∈ hi.map Numeric.values, Below v.values m := by
  cases hi with
  | none => exact ⟨fun _ m hm => (Option.not_mem_none m hm).elim, fun _ => rfl⟩
  | some m =>
    have hbelow := (numsCmp_clamped hv m.values).1
    rw [← verCmp_numeric C] at hbelow
    show (!(!m.text.isEmpty) || decide (verCmp C v.text m.text < 0) ||
      (!m.text.isEmpty && truncatedAgainst C v.text m.text)) = true ↔ _
    rw [text_ne, Bool.not_false, Bool.not_true, Bool.false_or, Bool.true_and, Bool.or_eq_true,
      decide_eq_true_eq, truncatedAgainst_numeric C hv, hbelow]
    constructor
    · intro h n hn
      obtain rfl : m.values = n := Option.some.inj hn
      exact h.elim id Undecided.below
    · intro h
      exact .inl (h _ rfl)

theorem open_numeric (hv : ∀ x ∈ v.values, (x : Int) < intMax) (b : Option Numeric) :
    (!(Numeric.boundary b).isEmpty && truncatedAgainst C v.text (Numeric.boundary b)) = true ↔
      ∃ m ∈ b.map Numeric.values, Undecided v.values m := by
  cases b with
  | none =>
    refine ⟨nofun, ?_⟩
    rintro ⟨m, hm, -⟩
    cases hm
  | some m =>
    show (!m.text.isEmpty && truncatedAgainst C v.text m.text) = true ↔ _
    rw [text_ne, Bool.not_false, Bool.true_and, truncatedAgainst_numeric C hv]
    refine ⟨fun h => ⟨m.values, rfl, h⟩, ?_⟩
    rintro ⟨n, hn, h⟩
    obtain rfl : m.values = n := Option.some.inj hn
    exact h

theorem evalCve_range (hv : ∀ x ∈ v.values, (x : Int) < intMax) (lo hi : Option Numeric) :
    ((evalCve C v.text (Numeric.boundary lo) (Numeric.boundary hi) false).affected = true ↔
      Reaches (lo.map Numeric.values) (hi.map Numeric.values) v.values) ∧
    ((evalCve C v.text (Numeric.boundary lo) (Numeric.boundary hi) false).precise = true ↔
      ¬Open (lo.map Numeric.values) (hi.map Numeric.values) v.values) := by
  rw [evalCve, if_neg Bool.false_ne_true]
  dsimp only
  rw [Bool.and_eq_true, above_numeric C hv, below_numeric C hv, Bool.not_eq_true',
    ← Bool.not_eq_true, Bool.or_eq_true, open_numeric C hv, open_numeric C hv]
  exact ⟨Iff.rfl, Iff.rfl⟩

theorem verdict_eq (w : Verdict) (a p : Bool) : w = ⟨a, p⟩ ↔ w.affected = a ∧ w.precise = p := by
  cases w
  rw [Verdict.mk.injEq]

theorem evalCve_one (hv : ∀ x ∈ v.values, (x : Int) < intMax) (m : Numeric) (maxVer : QString) :
    evalCve C v.text m.text maxVer true = ⟨true, true⟩ ↔
      m.numbers.length ≤ v.numbers.length ∧ Same v.values m.values := by
  have htrunc : truncatedForExact C v.text m.text = true ↔
      ∃ rest, m.values = v.values ++ rest ∧ rest ≠ [] := by
    rw [truncatedForExact, text_ne, if_neg Bool.false_ne_true, verNums, verNums,
      parseVer_numeric, parseVer_numeric]
    exact isTruncated_clamped hv m.values
  have hsame := (numsCmp_clamped hv m.values).2
  rw [← verCmp_numeric C] at hsame
  have hlength (n : Numeric) : n.numbers.length = n.values.length := (List.length_map _).symm
  rw [evalCve, if_pos rfl, hlength, hlength]
  by_cases hshort : truncatedForExact C v.text m.text = true
  · obtain ⟨rest, hrest, hne⟩ := htrunc.1 hshort
    rw [if_pos hshort, hrest, List.length_append]
    have hpos := List.length_pos_iff.2 hne
    refine ⟨fun h => ?_, fun h => ?_⟩
    · cases h
    · omega
  · rw [if_neg hshort, verdict_eq, beq_iff_eq, hsame]
    refine ⟨fun h => ⟨?_, h.1⟩, fun h => ⟨h.2, rfl⟩⟩
    by_contra hlong
    obtain ⟨rest, hrest⟩ := h.1.append (by omega)
    apply hshort
    refine htrunc.2 ⟨rest, hrest, ?_⟩
    rintro rfl
    rw [hrest, List.append_nil] at hlong
    exact hlong (Nat.le_refl _)

/-- What is said of a truncated version holds of all it may begin. -/
theorem verdicts_exact (v : Numeric) (hv : ∀ x ∈ v.values, (x : Int) < intMax) :
    (∀ lo hi : Option Numeric,
      (∀ m ∈ lo, ∀ n ∈ hi, Below m.values n.values) →
      (evalCve C v.text (Numeric.boundary lo) (Numeric.boundary hi) false = ⟨true, true⟩ ↔
        ∀ more, Within (lo.map Numeric.values) (hi.map Numeric.values) (v.values ++ more)) ∧
      (evalCve C v.text (Numeric.boundary lo) (Numeric.boundary hi) false = ⟨true, false⟩ ↔
        (∃ more, Within (lo.map Numeric.values) (hi.map Numeric.values) (v.values ++ more)) ∧
          ∃ more, ¬Within (lo.map Numeric.values) (hi.map Numeric.values) (v.values ++ more)) ∧
      ((evalCve C v.text (Numeric.boundary lo) (Numeric.boundary hi) false).affected = false ↔
        ∀ more, ¬Within (lo.map Numeric.values) (hi.map Numeric.values) (v.values ++ more))) ∧
    ∀ (m : Numeric) (maxVer : QString), evalCve C v.text m.text maxVer true = ⟨true, true⟩ ↔
      m.numbers.length ≤ v.numbers.length ∧ Same v.values m.values := by
  refine ⟨fun lo hi hrange => ?_, fun m maxVer => evalCve_one C hv m maxVer⟩
  have hbounds : ∀ m ∈ lo.map Numeric.values, ∀ n ∈ hi.map Numeric.values, Below m n := by
    intro m hm n hn
    obtain ⟨low, hlow, rfl⟩ := Option.map_eq_some_iff.1 hm
    obtain ⟨high, hhigh, rfl⟩ := Option.map_eq_some_iff.1 hn
    exact hrange low hlow high hhigh
  have hsome := exists_within (a := v.values) hbounds
  have hall := forall_within v.values (lo.map Numeric.values) (hi.map Numeric.values)
  obtain ⟨haffected, hprecise⟩ := evalCve_range C hv lo hi
  refine ⟨?_, ?_, ?_⟩
  · rw [verdict_eq, haffected, hprecise, hall]
  · rw [verdict_eq, haffected, ← Bool.not_eq_true, hprecise, hsome, ← not_forall, hall]
    tauto
  · rw [← Bool.not_eq_true, haffected, ← hsome, not_exists]

end Verdicts

def shortApache : Numeric where
  numbers := [utf16 "2", utf16 "4"]
  numbers_ne := List.cons_ne_nil _ _
  numerals := forall_mem_of_all (by decide)

def fixedApache : Numeric where
  numbers := [utf16 "2", utf16 "4", utf16 "56"]
  numbers_ne := List.cons_ne_nil _ _
  numerals := forall_mem_of_all (by decide)

/-- 2.4 may be affected by what 2.4.56 fixes, as some 2.4.x are. -/
theorem short_apache_lead :
    evalCve asciiChars shortApache.text (Numeric.boundary none)
        (Numeric.boundary (some fixedApache)) false = ⟨true, false⟩ ∧
      (∃ more, Within none (some fixedApache.values) (shortApache.values ++ more)) ∧
        ∃ more, ¬Within none (some fixedApache.values) (shortApache.values ++ more) := by
  have hsmall : ∀ x ∈ shortApache.values, (x : Int) < intMax := forall_mem_of_all (by decide)
  have hverdict : evalCve asciiChars shortApache.text (Numeric.boundary none)
      (Numeric.boundary (some fixedApache)) false = ⟨true, false⟩ := by decide
  have hexact := (verdicts_exact asciiChars shortApache hsmall).1 none (some fixedApache)
    (fun m hm => (Option.not_mem_none m hm).elim)
  exact ⟨hverdict, hexact.2.1.1 hverdict⟩

end Nullock.ServiceVulns

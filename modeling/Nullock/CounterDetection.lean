import Nullock.DecimalOrder
import Nullock.Medians
import Nullock.Wrappers
import Nullock.CookieJarRestore

namespace Nullock.SequencerLogic
open Wrappers

/-- The characters that are digits in any script; those of ASCII are among them. -/
structure DigitTable where
  digit : UInt16 → Bool
  ascii : ∀ c, isDigit c = true → digit c = true

section Model
variable (D : DigitTable)

def isHexLetterOrDigit (c : UInt16) : Bool :=
  isDigit c || (0x61 ≤ c && c ≤ 0x66) || (0x41 ≤ c && c ≤ 0x46)

/-- Digits are decimal; with hex letters or behind `0x`, hexadecimal. -/
def parseToken (tok : QString) : Option Int :=
  let t := QString.trimmed tok
  if t.isEmpty then none
  else if t.all isDigit then readLongLong 10 (QString.trimmed t)
  else
    let h := if (utf16 "0x").isPrefixOf t || (utf16 "0X").isPrefixOf t then t.drop 2 else t
    if !h.isEmpty && h.all isHexLetterOrDigit then readLongLong 16 (QString.trimmed h) else none

/-- The numbers among the tokens, if they are three or more and half of all. -/
def decodeNumeric (tokens : List QString) : List Int :=
  let nums := tokens.filterMap parseToken
  if nums.length < 3 ∨ nums.length * 2 < tokens.length then [] else nums

def affixChar (front : Bool) (s : QString) (k : Nat) : Option UInt16 :=
  (if front then s else s.reverse)[k]?

def commonAffixLen (t : List QString) (front : Bool) : Nat :=
  if t.length < 2 then 0
  else
    let first := t.headD []
    let n := t.foldl (fun n s => min n s.length) first.length
    ((List.range n).takeWhile
      (fun k => t.all (fun s => affixChar front s k == affixChar front first k))).length

def afterLastNonDigit (shared : QString) : Nat :=
  shared.zipIdx.foldl (fun stripPre c => if D.digit c.1 then stripPre else c.2 + 1) 0

def fromFirstNonDigit (shared : QString) : Nat :=
  match shared.findIdx? (fun c => !D.digit c) with
  | some j => shared.length - j
  | none => 0

def stripCommonNumericWrapper (tokens : List QString) : List QString :=
  if tokens.length < 2 then tokens
  else
    let first := tokens.headD []
    let p := commonAffixLen tokens true
    let s := commonAffixLen tokens false
    let stripPre := afterLastNonDigit D (first.take p)
    let stripSuf := fromFirstNonDigit D (first.drop (first.length - s))
    if stripPre = 0 ∧ stripSuf = 0 then tokens
    else tokens.map (fun t => (t.drop stripPre).take (t.length - stripPre - stripSuf))

def stepsOf (nums : List Int) : List Int :=
  List.zipWith (fun a b => (b - a).bmod (2 ^ 64)) nums nums.tail

def looksSequential (tokens : List QString) : Option Int :=
  let nums := decodeNumeric (stripCommonNumericWrapper D tokens)
  if nums.length < 3 then none
  else
    let deltas := stepsOf nums
    let sorted := deltas.mergeSort (· ≤ ·)
    let delta := sorted.getD (sorted.length / 2) 0
    if delta = 0 then none
    else if deltas.count delta ≥ 2 ∧ deltas.count delta * 4 ≥ deltas.length * 3 then some delta
    else none

end Model

section Affixes
variable {D : DigitTable}

theorem afterLastNonDigit_eq (shared : QString) :
    afterLastNonDigit D shared = (shared.rdropWhile D.digit).length := by
  rw [afterLastNonDigit]
  induction shared using List.reverseRecOn with
  | nil => rfl
  | append_singleton s c ih =>
    rw [List.zipIdx_append, List.foldl_append, ih, List.rdropWhile_concat]
    cases hc : D.digit c with
    | true => simp [hc]
    | false => simp [hc]

theorem fromFirstNonDigit_eq (shared : QString) :
    fromFirstNonDigit D shared = (shared.dropWhile D.digit).length := by
  rw [fromFirstNonDigit]
  induction shared with
  | nil => rfl
  | cons c s ih =>
    rw [List.findIdx?_cons, List.dropWhile_cons]
    cases hc : D.digit c with
    | true =>
      show (match (s.findIdx? (fun c => !D.digit c)).map (· + 1) with
        | some j => (c :: s).length - j
        | none => 0) = (s.dropWhile D.digit).length
      rw [← ih]
      cases s.findIdx? (fun c => !D.digit c) with
      | none => rfl
      | some j => exact Nat.succ_sub_succ s.length j
    | false => rfl

theorem min_lengths (t : List QString) (n : Nat) : k < t.foldl (fun n s => min n s.length) n ↔
    k < n ∧ ∀ s ∈ t, k < s.length := by
  induction t generalizing n with
  | nil => simp
  | cons s t ih => rw [List.foldl_cons, ih, List.forall_mem_cons, Nat.lt_min, and_assoc]

def oriented (front : Bool) (s : QString) : QString := if front then s else s.reverse

theorem commonAffixLen_spec {t : List QString} (h : 2 ≤ t.length) (front : Bool) :
    (∀ s ∈ t, (oriented front s).take (commonAffixLen t front) =
        (oriented front (t.headD [])).take (commonAffixLen t front) ∧
      commonAffixLen t front ≤ s.length) ∧
    ∀ a, (∀ s ∈ t, a <+: oriented front s) → a.length ≤ commonAffixLen t front := by
  obtain ⟨first, rest, rfl⟩ : ∃ first rest, t = first :: rest :=
    List.exists_cons_of_length_pos (by omega)
  rw [commonAffixLen, if_neg (by omega)]
  dsimp only
  rw [List.headD_cons]
  generalize hn : (first :: rest).foldl (fun n s => min n s.length) first.length = n
  have hmin {k : Nat} : k < n ↔ ∀ s ∈ first :: rest, k < s.length := by
    rw [← hn, min_lengths]
    exact ⟨fun h => h.2, fun h => ⟨h first List.mem_cons_self, h⟩⟩
  obtain ⟨hle, hall, hstop⟩ := takeWhile_range (fun k => (first :: rest).all
    (fun s => affixChar front s k == affixChar front first k)) n
  generalize ((List.range n).takeWhile (fun k => (first :: rest).all
    (fun s => affixChar front s k == affixChar front first k))).length = p at *
  have hsame {k : Nat} : ((first :: rest).all
      (fun s => affixChar front s k == affixChar front first k)) = true ↔
      ∀ s ∈ first :: rest, (oriented front s)[k]? = (oriented front first)[k]? := by
    rw [List.all_eq_true]
    exact forall₂_congr (fun s _ => beq_iff_eq)
  refine ⟨fun s hs => ⟨?_, ?_⟩, fun a ha => ?_⟩
  · apply List.ext_getElem?
    intro k
    rw [List.getElem?_take, List.getElem?_take]
    split
    · rename_i hk
      exact hsame.1 (hall k hk) s hs
    · rfl
  · cases p with
    | zero => exact Nat.zero_le _
    | succ p => exact hmin.1 (Nat.lt_of_lt_of_le (Nat.lt_succ_self p) hle) s hs
  · by_contra hlt
    rw [Nat.not_le] at hlt
    have hlength (s : QString) : (oriented front s).length = s.length := by
      cases front with
      | true => rfl
      | false => exact List.length_reverse
    have hpn : p < n := by
      apply hmin.2
      intro s hs
      have hprefix := (ha s hs).length_le
      rw [hlength] at hprefix
      omega
    have hagree : ∀ s ∈ first :: rest, (oriented front s)[p]? = (oriented front first)[p]? := by
      intro s hs
      rw [List.prefix_iff_getElem?.1 (ha s hs) p hlt,
        List.prefix_iff_getElem?.1 (ha first List.mem_cons_self) p hlt]
    rw [hsame.2 hagree] at hstop
    exact Bool.noConfusion (hstop hpn)

variable {P S : QString}

theorem shared_prefix {cores : List QString} (hdigits : ∀ b ∈ cores, ∀ c ∈ b, D.digit c = true)
    (hP : ∀ c, P.getLast? = some c → D.digit c = false)
    (hS : ∀ c, S.head? = some c → D.digit c = false) (hne : ∃ a ∈ cores, ∃ b ∈ cores, a ≠ b)
    (hlen : P.length ≤ X.length) (hX : ∀ b ∈ cores, X <+: P ++ b ++ S) :
    (X.rdropWhile D.digit).length = P.length := by
  obtain ⟨a, ha, b, hb, hab⟩ := hne
  have hinside {b : QString} (hb : b ∈ cores) : ∃ Y, X = P ++ Y ∧ Y <+: b ++ S := by
    have hfull := hX b hb
    rw [List.append_assoc] at hfull
    obtain ⟨Y, rfl⟩ := List.prefix_of_prefix_length_le (List.prefix_append P _) hfull hlen
    exact ⟨Y, rfl, (List.prefix_append_right_inj P).1 hfull⟩
  obtain ⟨Y, rfl, hYa⟩ := hinside ha
  have hY {b : QString} (hb : b ∈ cores) : Y <+: b ++ S := by
    obtain ⟨Z, hZ, hprefix⟩ := hinside hb
    rw [List.append_cancel_left hZ]
    exact hprefix
  rw [rdropWhile_append_core hP]
  intro c hc
  by_contra hdigit
  have hn : ∃ c ∈ Y, D.digit c = false := ⟨c, hc, Bool.eq_false_iff.2 hdigit⟩
  exact hab ((core_of_front (hdigits a ha) hS (hY ha) hn).trans
    (core_of_front (hdigits b hb) hS (hY hb) hn).symm)

theorem shared_suffix {cores : List QString} (hdigits : ∀ b ∈ cores, ∀ c ∈ b, D.digit c = true)
    (hP : ∀ c, P.getLast? = some c → D.digit c = false)
    (hS : ∀ c, S.head? = some c → D.digit c = false) (hne : ∃ a ∈ cores, ∃ b ∈ cores, a ≠ b)
    (hlen : S.length ≤ X.length) (hX : ∀ b ∈ cores, X <:+ P ++ b ++ S) :
    (X.dropWhile D.digit).length = S.length := by
  obtain ⟨a, ha, b, hb, hab⟩ := hne
  have hinside {b : QString} (hb : b ∈ cores) : ∃ Y, X = Y ++ S ∧ Y <:+ P ++ b := by
    have hfull := hX b hb
    obtain ⟨Y, rfl⟩ := List.suffix_of_suffix_length_le (List.suffix_append _ S) hfull hlen
    exact ⟨Y, rfl, (List.suffix_append_inj_of_length_eq rfl).1 hfull |>.1⟩
  obtain ⟨Y, rfl, hYa⟩ := hinside ha
  have hY {b : QString} (hb : b ∈ cores) : Y <:+ P ++ b := by
    obtain ⟨Z, hZ, hsuffix⟩ := hinside hb
    rw [List.append_cancel_right hZ]
    exact hsuffix
  rw [dropWhile_append_core]
  · intro c hc
    by_contra hdigit
    have hn : ∃ c ∈ Y, D.digit c = false := ⟨c, hc, Bool.eq_false_iff.2 hdigit⟩
    exact hab ((core_of_suffix (hdigits a ha) hP (hY ha) hn).trans
      (core_of_suffix (hdigits b hb) hP (hY hb) hn).symm)
  · exact hS

theorem strip_wrapped {cores : List QString}
    (hdigits : ∀ b ∈ cores, ∀ c ∈ b, D.digit c = true)
    (hP : ∀ c, P.getLast? = some c → D.digit c = false)
    (hS : ∀ c, S.head? = some c → D.digit c = false) (hne : ∃ a ∈ cores, ∃ b ∈ cores, a ≠ b) :
    stripCommonNumericWrapper D (cores.map (fun b => P ++ b ++ S)) = cores := by
  have htwo : 2 ≤ (cores.map (fun b => P ++ b ++ S)).length := by
    obtain ⟨a, ha, b, hb, hab⟩ := hne
    rw [List.length_map]
    match cores with
    | [] => cases ha
    | [c] => exact absurd ((List.mem_singleton.1 ha).trans (List.mem_singleton.1 hb).symm) hab
    | _ :: _ :: cores => simp
  obtain ⟨hfront, hmost⟩ := commonAffixLen_spec htwo true
  obtain ⟨hback, hleast⟩ := commonAffixLen_spec htwo false
  rw [stripCommonNumericWrapper, if_neg (by omega)]
  generalize hF : (cores.map (fun b => P ++ b ++ S)).headD [] = first at hfront hback
  generalize commonAffixLen (cores.map (fun b => P ++ b ++ S)) true = p at *
  generalize commonAffixLen (cores.map (fun b => P ++ b ++ S)) false = q at *
  have hfirst : first ∈ cores.map (fun b => P ++ b ++ S) := by
    cases cores with
    | nil => exact absurd htwo (by simp)
    | cons b cores =>
      rw [← hF]
      exact List.mem_cons_self
  have hmem {b : QString} (hb : b ∈ cores) :
      P ++ b ++ S ∈ cores.map (fun b => P ++ b ++ S) := List.mem_map_of_mem hb
  have hpre : afterLastNonDigit D (first.take p) = P.length := by
    rw [afterLastNonDigit_eq]
    apply shared_prefix hdigits hP hS hne
    · rw [List.length_take]
      refine Nat.le_min.2 ⟨hmost P fun s hs => ?_, ?_⟩
      · obtain ⟨b, hb, rfl⟩ := List.mem_map.1 hs
        exact ⟨b ++ S, (List.append_assoc P b S).symm⟩
      · obtain ⟨b, hb, rfl⟩ := List.mem_map.1 hfirst
        rw [List.append_assoc, List.length_append]
        exact Nat.le_add_right _ _
    · intro b hb
      rw [← show (P ++ b ++ S).take p = first.take p from (hfront _ (hmem hb)).1]
      exact List.take_prefix p _
  have hsuf : fromFirstNonDigit D (first.drop (first.length - q)) = S.length := by
    rw [fromFirstNonDigit_eq]
    apply shared_suffix hdigits hP hS hne
    · rw [List.length_drop]
      have hle : S.length ≤ q := by
        rw [← List.length_reverse]
        refine hleast S.reverse fun s hs => ?_
        obtain ⟨b, hb, rfl⟩ := List.mem_map.1 hs
        exact List.reverse_prefix.2 (List.suffix_append (P ++ b) S)
      have hfit := (hback first hfirst).2
      omega
    · intro b hb
      have hsame : (P ++ b ++ S).reverse.take q = first.reverse.take q :=
        (hback _ (hmem hb)).1
      rw [List.take_reverse, List.take_reverse, List.reverse_inj] at hsame
      rw [← hsame]
      exact List.drop_suffix _ _
  dsimp only
  rw [hpre, hsuf]
  split
  · rename_i hnone
    rw [List.length_eq_zero_iff.1 hnone.1, List.length_eq_zero_iff.1 hnone.2]
    simp
  · rw [List.map_map]
    refine (List.map_congr_left fun b hb => ?_).trans (List.map_id cores)
    have hkeep : (P ++ b ++ S).length - P.length - S.length = b.length := by
      rw [List.length_append, List.length_append]
      omega
    show ((P ++ b ++ S).drop P.length).take ((P ++ b ++ S).length - P.length - S.length) = b
    rw [hkeep, List.append_assoc, List.drop_left, List.take_left]

end Affixes

section Steps
variable {D : DigitTable}

theorem number_core (h : 0 ≤ n) :
    QString.number n ≠ [] ∧ ∀ c ∈ QString.number n, isDigit c = true := by
  obtain ⟨k, rfl⟩ := Int.eq_ofNat_of_zero_le h
  exact ⟨number_ne_nil k, number_digits k⟩

theorem parseToken_number (h : 0 ≤ n ∧ n < 2 ^ 63) : parseToken (QString.number n) = some n := by
  obtain ⟨hne, hdigits⟩ := number_core h.1
  have htrim : QString.trimmed (QString.number n) = QString.number n := by
    apply trimWith_eq_self
    · exact fun c hc => isSpace_of_number (number_chars n (List.mem_of_mem_head? hc))
    · exact fun c hc => isSpace_of_number (number_chars n (List.mem_of_getLast? hc))
  rw [parseToken, htrim]
  dsimp only
  rw [if_neg (fun hempty => hne (List.isEmpty_iff.1 hempty)), if_pos (List.all_eq_true.2 hdigits)]
  exact toLongLong_number ⟨by omega, h.2⟩

theorem decodeNumeric_numbers (hlen : 3 ≤ ns.length) (h : ∀ n ∈ ns, 0 ≤ n ∧ n < 2 ^ 63) :
    decodeNumeric (ns.map QString.number) = ns := by
  have hall : (ns.map QString.number).filterMap parseToken = ns := by
    rw [List.filterMap_map]
    refine (List.filterMap_congr fun n hn => ?_).trans (List.filterMap_some)
    exact parseToken_number (h n hn)
  rw [decodeNumeric, hall, List.length_map, if_neg (by omega)]

def differences (ns : List Int) : List Int := List.zipWith (fun a b => b - a) ns ns.tail

theorem mem_differences (h : d ∈ differences ns) : ∃ a ∈ ns, ∃ b ∈ ns, d = b - a := by
  rw [differences, ← List.map_uncurry_zip_eq_zipWith] at h
  obtain ⟨⟨a, b⟩, hab, rfl⟩ := List.mem_map.1 h
  obtain ⟨ha, hb⟩ := List.of_mem_zip hab
  exact ⟨a, ha, b, List.mem_of_mem_tail hb, rfl⟩

theorem differences_bounds (h : ∀ n ∈ ns, 0 ≤ n ∧ n < 2 ^ 63) :
    ∀ d ∈ differences ns, -2 ^ 63 ≤ d ∧ d < 2 ^ 63 := by
  intro d hd
  obtain ⟨a, ha, b, hb, rfl⟩ := mem_differences hd
  have hra := h a ha
  have hrb := h b hb
  omega

theorem stepsOf_eq (h : ∀ n ∈ ns, 0 ≤ n ∧ n < 2 ^ 63) : stepsOf ns = differences ns := by
  have hwrap : stepsOf ns = (differences ns).map (fun d => d.bmod (2 ^ 64)) := by
    rw [stepsOf, differences, List.map_zipWith]
  rw [hwrap]
  refine (List.map_congr_left fun d hd => ?_).trans (List.map_id _)
  have hbounds := differences_bounds h d hd
  exact Int.bmod_eq_of_le (by omega) (by omega)

def medianStep (deltas : List Int) : Int :=
  (deltas.mergeSort (· ≤ ·)).getD ((deltas.mergeSort (· ≤ ·)).length / 2) 0

theorem medianStep_mem {deltas : List Int} (h : deltas ≠ []) : medianStep deltas ∈ deltas := by
  have hpos := List.length_pos_iff.2 h
  have hlength := (List.mergeSort_perm deltas (· ≤ ·)).length_eq
  rw [medianStep, List.getD_eq_getElem?_getD, List.getElem?_eq_getElem (by omega)]
  exact List.mem_mergeSort.1 (List.getElem_mem _)

theorem rule_iff {deltas : List Int} (d : Int) :
    (if medianStep deltas = 0 then none
      else if deltas.count (medianStep deltas) ≥ 2 ∧
        deltas.count (medianStep deltas) * 4 ≥ deltas.length * 3 then some (medianStep deltas)
      else none) = some d ↔
    d ≠ 0 ∧ 2 ≤ deltas.count d ∧ deltas.length * 3 ≤ deltas.count d * 4 := by
  constructor
  · intro h
    split at h
    · cases h
    rename_i hzero
    split at h
    · rename_i hrule
      cases h
      exact ⟨hzero, hrule.1, hrule.2⟩
    · cases h
  · rintro ⟨hzero, htwo, hmost⟩
    have hmedian : medianStep deltas = d := by
      have hperm := List.mergeSort_perm deltas (· ≤ ·)
      have hmiddle := Medians.median_eq (d := d)
        (List.pairwise_mergeSort' (· ≤ ·) deltas) (by
          rw [hperm.length_eq, hperm.count_eq]
          have hle := List.count_le_length (a := d) (l := deltas)
          omega)
      rw [medianStep, List.getD_eq_getElem?_getD, hmiddle]
      rfl
    rw [hmedian, if_neg hzero, if_pos ⟨htwo, hmost⟩]

theorem looksSequential_eq (D : DigitTable) (tokens : List QString) :
    looksSequential D tokens =
      if (decodeNumeric (stripCommonNumericWrapper D tokens)).length < 3 then none
      else
        let deltas := stepsOf (decodeNumeric (stripCommonNumericWrapper D tokens))
        if medianStep deltas = 0 then none
        else if deltas.count (medianStep deltas) ≥ 2 ∧
          deltas.count (medianStep deltas) * 4 ≥ deltas.length * 3 then some (medianStep deltas)
        else none := rfl

theorem looksSequential_constant (D : DigitTable) {tokens : List QString}
    (h : ∀ t ∈ tokens, t = token) : looksSequential D tokens = none := by
  have hstrip : ∃ core, ∀ t ∈ stripCommonNumericWrapper D tokens, t = core := by
    have hmap (f : QString → QString) : ∀ t ∈ tokens.map f, t = f token := by
      intro t ht
      obtain ⟨s, hs, rfl⟩ := List.mem_map.1 ht
      rw [h s hs]
    rw [stripCommonNumericWrapper]
    split
    · exact ⟨token, h⟩
    dsimp only
    split
    · exact ⟨token, h⟩
    · exact ⟨_, hmap _⟩
  obtain ⟨core, hcore⟩ := hstrip
  have hnums : ∀ n ∈ decodeNumeric (stripCommonNumericWrapper D tokens),
      parseToken core = some n := by
    intro n hn
    unfold decodeNumeric at hn
    dsimp only at hn
    split at hn
    · cases hn
    · obtain ⟨t, ht, hparse⟩ := List.mem_filterMap.1 hn
      rw [← hcore t ht]
      exact hparse
  rw [looksSequential_eq]
  split
  · rfl
  rename_i hlen
  have hsteps : ∀ d ∈ stepsOf (decodeNumeric (stripCommonNumericWrapper D tokens)), d = 0 := by
    intro d hd
    have hwrap : stepsOf (decodeNumeric (stripCommonNumericWrapper D tokens)) =
        (differences (decodeNumeric (stripCommonNumericWrapper D tokens))).map
          (fun d => d.bmod (2 ^ 64)) := by
      rw [stepsOf, differences, List.map_zipWith]
    rw [hwrap] at hd
    obtain ⟨e, he, rfl⟩ := List.mem_map.1 hd
    obtain ⟨a, ha, b, hb, rfl⟩ := mem_differences he
    have hsame := (hnums a ha).symm.trans (hnums b hb)
    rw [Option.some.inj hsame, Int.sub_self]
    rfl
  have hne : stepsOf (decodeNumeric (stripCommonNumericWrapper D tokens)) ≠ [] := by
    rw [← List.length_pos_iff, stepsOf, List.length_zipWith, List.length_tail]
    omega
  exact if_pos (hsteps _ (medianStep_mem hne))

end Steps

theorem counter_exact (D : DigitTable) (P S : QString) (ns : List Int)
    (hP : ∀ c, P.getLast? = some c → D.digit c = false)
    (hS : ∀ c, S.head? = some c → D.digit c = false) (hlen : 3 ≤ ns.length)
    (hrange : ∀ n ∈ ns, 0 ≤ n ∧ n < 2 ^ 63) :
    (∀ d, looksSequential D (ns.map (fun n => P ++ QString.number n ++ S)) = some d ↔
      d ≠ 0 ∧ 2 ≤ (differences ns).count d ∧
        (differences ns).length * 3 ≤ (differences ns).count d * 4) ∧
    (∀ d ∈ differences ns, -2 ^ 63 ≤ d ∧ d < 2 ^ 63) ∧
    stepsOf ns = differences ns ∧
    ((∃ a ∈ ns, ∃ b ∈ ns, a ≠ b) →
      stripCommonNumericWrapper D (ns.map (fun n => P ++ QString.number n ++ S)) =
        ns.map QString.number) := by
  have hstrip (hne : ∃ a ∈ ns, ∃ b ∈ ns, a ≠ b) :
      stripCommonNumericWrapper D (ns.map (fun n => P ++ QString.number n ++ S)) =
        ns.map QString.number := by
    have hcores : ns.map (fun n => P ++ QString.number n ++ S) =
        (ns.map QString.number).map (fun b => P ++ b ++ S) := by
      rw [List.map_map]
      rfl
    rw [hcores]
    apply strip_wrapped _ hP hS
    · obtain ⟨a, ha, b, hb, hab⟩ := hne
      refine ⟨_, List.mem_map_of_mem ha, _, List.mem_map_of_mem hb, fun heq => hab ?_⟩
      have hread := parseToken_number (hrange a ha)
      rw [heq, parseToken_number (hrange b hb)] at hread
      exact (Option.some.inj hread).symm
    · intro b hb c hc
      obtain ⟨n, hn, rfl⟩ := List.mem_map.1 hb
      exact D.ascii c ((number_core (hrange n hn).1).2 c hc)
  refine ⟨fun d => ?_, differences_bounds hrange, stepsOf_eq hrange, hstrip⟩
  by_cases hne : ∃ a ∈ ns, ∃ b ∈ ns, a ≠ b
  · rw [looksSequential_eq, hstrip hne, decodeNumeric_numbers hlen hrange, stepsOf_eq hrange,
      if_neg (by omega)]
    exact rule_iff d
  · have hsame : ∀ a ∈ ns, ∀ b ∈ ns, a = b := fun a ha b hb => by
      by_contra hab
      exact hne ⟨a, ha, b, hb, hab⟩
    obtain ⟨first, rest, rfl⟩ := List.exists_cons_of_length_pos (by omega : 0 < ns.length)
    rw [@looksSequential_constant (P ++ QString.number first ++ S) D]
    · refine ⟨fun h => (by cases h), fun ⟨hzero, htwo, _⟩ => ?_⟩
      have hmem : d ∈ differences (first :: rest) :=
        List.count_pos_iff.1 (Nat.lt_of_lt_of_le Nat.zero_lt_two htwo)
      obtain ⟨a, ha, b, hb, hd⟩ := mem_differences hmem
      rw [hsame a ha b hb, Int.sub_self] at hd
      exact absurd hd hzero
    · intro t ht
      obtain ⟨n, hn, rfl⟩ := List.mem_map.1 ht
      rw [hsame n hn first List.mem_cons_self]

theorem session_counter : ∃ D : DigitTable,
    (∀ d, looksSequential D ([100, 110, 120, 130].map
        (fun n => utf16 "sess_" ++ QString.number n ++ [])) = some d ↔
      d ≠ 0 ∧ 2 ≤ (differences [100, 110, 120, 130]).count d ∧
        (differences [100, 110, 120, 130]).length * 3 ≤
          (differences [100, 110, 120, 130]).count d * 4) :=
  ⟨⟨isDigit, fun _ h => h⟩,
    (counter_exact ⟨isDigit, fun _ h => h⟩ (utf16 "sess_") [] [100, 110, 120, 130]
      (fun c hc => by cases hc; rfl) (fun c hc => by cases hc) (by decide) (by decide)).1⟩

end Nullock.SequencerLogic

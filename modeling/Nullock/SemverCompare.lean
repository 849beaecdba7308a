import Mathlib.Data.Ordering.Lemmas
import Nullock.DecimalOrder

namespace Nullock.UpdateLogic

open ServiceVulns (readInt)

structure SemverParts where
  nums : List Int := []
  pre : QString := []

def splitDots (s : QString) : List QString :=
  (s.splitOn 0x2E).filter (fun part => !part.isEmpty)

def parseSemver (s : QString) : SemverParts :=
  let s := QString.trimmed s
  let s := if s.head? = some 0x76 ∨ s.head? = some 0x56 then s.drop 1 else s
  let s := match indexOf [0x2B] s with
    | some plus => s.take plus
    | none => s
  let core := match indexOf [0x2D] s with
    | some dash => s.take dash
    | none => s
  let pre := match indexOf [0x2D] s with
    | some dash => s.drop (dash + 1)
    | none => []
  let nums := (splitDots core).map (fun p => (readInt p).getD 0)
  { nums := nums ++ List.replicate (3 - nums.length) 0, pre := pre }

/-- A numeral without the zeros it begins with; of zeros alone one stays. -/
def stripZeros : QString → QString
  | c :: d :: s => if c = 0x30 then stripZeros (d :: s) else c :: d :: s
  | s => s

def cmpNumeric (x y : QString) : Int :=
  let xs := stripZeros x
  let ys := stripZeros y
  if xs.length ≠ ys.length then (if xs.length < ys.length then -1 else 1)
  else orderSign (compare xs ys)

/-- The identifiers of two pre-releases, pair by pair, then their numbers. -/
def compareIdentifiers : List QString → List QString → Int
  | x :: xs, y :: ys =>
    if isNumeral x && isNumeral y then
      if cmpNumeric x y ≠ 0 then cmpNumeric x y else compareIdentifiers xs ys
    else if isNumeral x != isNumeral y then (if isNumeral x then -1 else 1)
    else if compare x y ≠ .eq then (if compare x y = .lt then -1 else 1)
    else compareIdentifiers xs ys
  | xs, ys => if xs.length ≠ ys.length then (if xs.length < ys.length then -1 else 1) else 0

def comparePre (a b : QString) : Int :=
  if a.isEmpty && b.isEmpty then 0
  else if a.isEmpty then 1
  else if b.isEmpty then -1
  else compareIdentifiers (splitDots a) (splitDots b)

def compareSemver (a b : QString) : Int :=
  let pa := parseSemver a
  let pb := parseSemver b
  match ((pa.nums.take 3).zip (pb.nums.take 3)).find? (fun n => n.1 != n.2) with
  | some (x, y) => if x < y then -1 else 1
  | none => comparePre pa.pre pb.pre

def isIdentifierChar (c : UInt16) : Bool :=
  isDigit c || (0x41 ≤ c && c ≤ 0x5A) || (0x61 ≤ c && c ≤ 0x7A) || c == 0x2D

inductive Identifier
  | numeric (n : Nat)
  | alphanumeric (s : QString)
deriving DecidableEq

namespace Identifier

def text : Identifier → QString
  | numeric n => fromLatin1 (QByteArray.number n)
  | alphanumeric s => s

def Valid : Identifier → Prop
  | numeric _ => True
  | alphanumeric s =>
    s ≠ [] ∧ (∀ c ∈ s, isIdentifierChar c = true) ∧ ∃ c ∈ s, isDigit c = false

def precedence : Identifier → Identifier → Ordering
  | numeric m, numeric n => compare m n
  | numeric _, alphanumeric _ => .lt
  | alphanumeric _, numeric _ => .gt
  | alphanumeric s, alphanumeric t => compare s t

end Identifier

structure Semver where
  major : Nat
  minor : Nat
  patch : Nat
  pre : List Identifier := []
  build : List QString := []
  pre_valid : ∀ i ∈ pre, i.Valid
  build_valid : ∀ b ∈ build, b ≠ [] ∧ ∀ c ∈ b, isIdentifierChar c = true

def dots (parts : List QString) : QString := [0x2E].intercalate parts

namespace Semver

def core (v : Semver) : List Nat := [v.major, v.minor, v.patch]

def text (marked : Bool) (v : Semver) : QString :=
  (if marked then [0x76] else []) ++
    dots (v.core.map (fun n => fromLatin1 (QByteArray.number (n : Nat)))) ++
    (if v.pre = [] then [] else 0x2D :: dots (v.pre.map Identifier.text)) ++
    (if v.build = [] then [] else 0x2B :: dots v.build)

/-- A release is above its pre-releases; these compare identifier by identifier. -/
def prePrecedence : List Identifier → List Identifier → Ordering :=
  compareLex (compareOn List.isEmpty) (List.compareLex Identifier.precedence)

def precedence (v w : Semver) : Ordering :=
  (compare v.core w.core).then (prePrecedence v.pre w.pre)

end Semver

instance : Std.OrientedCmp Identifier.precedence where
  eq_swap {a b} := by
    cases a with
    | numeric m =>
      cases b with
      | numeric n => exact (Nat.compare_swap n m).symm
      | alphanumeric t => rfl
    | alphanumeric s =>
      cases b with
      | numeric n => rfl
      | alphanumeric t => exact Std.OrientedOrd.eq_swap

instance : Std.TransCmp Identifier.precedence where
  isLE_trans {a b c} hab hbc := by
    cases a with
    | numeric m =>
      cases b with
      | numeric n =>
        cases c with
        | numeric k => exact Std.TransOrd.isLE_trans (α := Nat) hab hbc
        | alphanumeric u => rfl
      | alphanumeric t =>
        cases c with
        | numeric k => cases hbc
        | alphanumeric u => rfl
    | alphanumeric s =>
      cases b with
      | numeric n => cases hab
      | alphanumeric t =>
        cases c with
        | numeric k => cases hbc
        | alphanumeric u => exact Std.TransOrd.isLE_trans (α := QString) hab hbc

instance : Std.TransCmp Semver.prePrecedence :=
  inferInstanceAs (Std.TransCmp (compareLex (compareOn List.isEmpty)
    (List.compareLex Identifier.precedence)))

instance : Std.OrientedCmp Semver.precedence where
  eq_swap {v w} := by
    rw [Semver.precedence, Semver.precedence, Ordering.swap_then, ← Std.OrientedOrd.eq_swap,
      ← Std.OrientedCmp.eq_swap]

instance : Std.TransCmp Semver.precedence where
  isLE_trans {u v w} huv hvw := by
    rw [Semver.precedence, Ordering.isLE_then_iff_and] at *
    refine ⟨Std.TransOrd.isLE_trans huv.1 hvw.1, ?_⟩
    rcases huv.2 with hlt | hpre
    · exact Or.inl (Std.TransCmp.lt_of_lt_of_isLE hlt hvw.1)
    rcases hvw.2 with hlt | hpre'
    · exact Or.inl (Std.TransCmp.lt_of_isLE_of_lt huv.1 hlt)
    · exact Or.inr (Std.TransCmp.isLE_trans hpre hpre')

section Identifiers

theorem stripZeros_number (n : Nat) :
    stripZeros (fromLatin1 (QByteArray.number n)) = fromLatin1 (QByteArray.number n) := by
  rcases number_shape n with ⟨hzero, _⟩ | ⟨c, s, hcs, hc⟩
  · rw [hzero]
    rfl
  · rw [hcs]
    cases s with
    | nil => rfl
    | cons d s => rw [stripZeros, if_neg hc]

theorem cmpNumeric_number (m n : Nat) :
    cmpNumeric (fromLatin1 (QByteArray.number m)) (fromLatin1 (QByteArray.number n)) =
      orderSign (compare m n) := by
  rw [cmpNumeric, stripZeros_number, stripZeros_number]
  split
  · rename_i hne
    split
    · rename_i hlt
      rw [Nat.compare_eq_lt.2 (lt_of_number_length hlt)]
      rfl
    · rename_i hge
      rw [Nat.compare_eq_gt.2 (lt_of_number_length (by omega))]
      rfl
  · rename_i heq
    rw [compare_number m n (not_not.1 heq)]

theorem alphanumeric_not_numeral (h : (Identifier.alphanumeric s).Valid) :
    isNumeral s = false := by
  obtain ⟨_, _, c, hc, hdigit⟩ := h
  rw [← Bool.not_eq_true, isNumeral_iff]
  intro hnum
  rw [hnum.2 c hc] at hdigit
  cases hdigit

theorem compareIdentifiers_text (ha : ∀ i ∈ a, i.Valid) (hb : ∀ i ∈ b, i.Valid) :
    compareIdentifiers (a.map Identifier.text) (b.map Identifier.text) =
      orderSign (List.compareLex Identifier.precedence a b) := by
  induction a generalizing b with
  | nil =>
    cases b with
    | nil => rfl
    | cons j b => rfl
  | cons i a ih =>
    cases b with
    | nil => rfl
    | cons j b =>
      have hrest := ih (b := b) (fun k hk => ha k (List.mem_cons_of_mem i hk))
        (fun k hk => hb k (List.mem_cons_of_mem j hk))
      have hi := ha i List.mem_cons_self
      have hj := hb j List.mem_cons_self
      rw [List.map_cons, List.map_cons, compareIdentifiers, List.compareLex_cons_cons, hrest]
      cases i with
      | numeric m =>
        have hm := (number_numeral m).1
        cases j with
        | numeric n =>
          rw [Identifier.text, Identifier.text, hm, (number_numeral n).1, Bool.and_self, if_pos rfl,
            cmpNumeric_number, Identifier.precedence]
          cases compare m n <;> rfl
        | alphanumeric t =>
          rw [Identifier.text, Identifier.text, hm, alphanumeric_not_numeral hj]
          rfl
      | alphanumeric s =>
        cases j with
        | numeric n =>
          rw [Identifier.text, Identifier.text, (number_numeral n).1, alphanumeric_not_numeral hi]
          rfl
        | alphanumeric t =>
          rw [Identifier.text, Identifier.text, alphanumeric_not_numeral hi,
            alphanumeric_not_numeral hj, Identifier.precedence]
          cases compare s t <;> rfl

end Identifiers

section Texts

theorem identifierChar_plain (h : isIdentifierChar c = true) :
    isSpace c = false ∧ c ≠ 0x2E ∧ c ≠ 0x2B := by
  simp only [isIdentifierChar, isDigit, Bool.or_eq_true, Bool.and_eq_true, decide_eq_true_eq,
    beq_iff_eq, ← UInt16.toNat_inj, UInt16.le_iff_toNat_le, UInt16.reduceToNat] at h
  simp only [isSpace, Bool.or_eq_false_iff, Bool.and_eq_false_iff, beq_eq_false_iff_ne,
    decide_eq_false_iff_not, ne_eq, ← UInt16.toNat_inj, UInt16.le_iff_toNat_le,
    UInt16.reduceToNat]
  omega

theorem digit_identifierChar (h : isDigit c = true) : isIdentifierChar c = true ∧ c ≠ 0x2D := by
  unfold isIdentifierChar
  unfold isDigit at *
  grind

theorem Identifier.Valid.text_chars {i : Identifier} (h : i.Valid) :
    i.text ≠ [] ∧ ∀ c ∈ i.text, isIdentifierChar c = true := by
  cases i with
  | numeric n =>
    exact ⟨number_ne_nil n, fun c hc => (digit_identifierChar (number_digits n c hc)).1⟩
  | alphanumeric s => exact ⟨h.1, h.2.1⟩

theorem mem_dots (h : c ∈ dots parts) : c = 0x2E ∨ ∃ part ∈ parts, c ∈ part := by
  induction parts with
  | nil => cases h
  | cons p parts ih =>
    cases parts with
    | nil =>
      rw [dots, List.intercalate_singleton] at h
      exact Or.inr ⟨p, List.mem_cons_self, h⟩
    | cons q parts =>
      rw [dots, List.intercalate_cons_cons, List.mem_append, List.mem_append] at h
      rcases h with (h | h) | h
      · exact Or.inr ⟨p, List.mem_cons_self, h⟩
      · exact Or.inl (List.mem_singleton.1 h)
      · rcases ih h with hdot | ⟨part, hpart, hc⟩
        · exact Or.inl hdot
        · exact Or.inr ⟨part, List.mem_cons_of_mem p hpart, hc⟩

theorem splitDots_dots (hne : parts ≠ [])
    (h : ∀ part ∈ parts, part ≠ [] ∧ ∀ c ∈ part, isIdentifierChar c = true) :
    splitDots (dots parts) = parts := by
  rw [splitDots, dots, List.splitOn_intercalate 0x2E _ hne]
  · apply List.filter_eq_self.2
    intro part hpart
    cases part with
    | nil => exact absurd rfl (h [] hpart).1
    | cons c part => rfl
  · intro part hpart hdot
    exact (identifierChar_plain ((h part hpart).2 _ hdot)).2.1 rfl

theorem dots_ne_nil (hne : parts ≠ []) (h : ∀ part ∈ parts, part ≠ []) : dots parts ≠ [] := by
  cases parts with
  | nil => exact absurd rfl hne
  | cons p parts =>
    have hp := h p List.mem_cons_self
    cases parts with
    | nil => rwa [dots, List.intercalate_singleton]
    | cons q parts =>
      rw [dots, List.intercalate_cons_cons, List.append_assoc]
      exact List.append_ne_nil_of_left_ne_nil hp _

def behind (mark : UInt16) (part : QString) : QString := if part = [] then [] else mark :: part

theorem indexOf_behind {front : QString} (h : mark ∉ front) (part : QString) :
    indexOf [mark] (front ++ behind mark part) =
      if part = [] then none else some front.length := by
  rw [behind]
  split
  · rw [List.append_nil]
    apply indexOf_eq_none_iff.2
    intro i hi hp
    exact h (List.mem_of_mem_drop (hp.subset List.mem_cons_self))
  · exact indexOf_singleton h part

theorem take_behind {front : QString} (h : mark ∉ front) (part : QString) :
    (match indexOf [mark] (front ++ behind mark part) with
      | some i => (front ++ behind mark part).take i
      | none => front ++ behind mark part) = front := by
  rw [indexOf_behind h]
  split
  · rename_i i hi
    split at hi
    · cases hi
    · cases hi
      rw [List.take_left]
  · rename_i hi
    split at hi
    · rename_i hp
      rw [hp, behind, if_pos rfl, List.append_nil]
    · cases hi

theorem drop_behind {front : QString} (h : mark ∉ front) (part : QString) :
    (match indexOf [mark] (front ++ behind mark part) with
      | some i => (front ++ behind mark part).drop (i + 1)
      | none => []) = part := by
  rw [indexOf_behind h]
  split
  · rename_i i hi
    split at hi
    · cases hi
    · rename_i hp
      cases hi
      rw [behind, if_neg hp, ← List.drop_drop, List.drop_left]
      rfl
  · rename_i hi
    split at hi
    · rename_i hp
      exact hp.symm
    · cases hi

namespace Semver
variable (v : Semver)

def coreText : QString := dots (v.core.map (fun n => fromLatin1 (QByteArray.number (n : Nat))))

def preText : QString := dots (v.pre.map Identifier.text)

theorem pre_parts : ∀ part ∈ v.pre.map Identifier.text,
    part ≠ [] ∧ ∀ c ∈ part, isIdentifierChar c = true := by
  intro part hpart
  obtain ⟨i, hi, rfl⟩ := List.mem_map.1 hpart
  exact (v.pre_valid i hi).text_chars

theorem preText_eq_nil : v.preText = [] ↔ v.pre = [] := by
  constructor
  · intro h
    by_contra hne
    apply dots_ne_nil _ (fun part hpart => (v.pre_parts part hpart).1) h
    exact List.map_eq_nil_iff.not.2 hne
  · intro h
    rw [preText, h]
    rfl

theorem build_eq_nil : dots v.build = [] ↔ v.build = [] := by
  constructor
  · intro h
    by_contra hne
    exact dots_ne_nil hne (fun part hpart => (v.build_valid part hpart).1) h
  · intro h
    rw [h]
    rfl

theorem text_eq (marked : Bool) : v.text marked = (if marked then [0x76] else []) ++
    (v.coreText ++ behind 0x2D v.preText ++ behind 0x2B (dots v.build)) := by
  simp only [text, behind, preText_eq_nil, build_eq_nil, List.append_assoc]
  rfl

theorem core_parts : ∀ part ∈ v.core.map (fun n => fromLatin1 (QByteArray.number (n : Nat))),
    part ≠ [] ∧ ∀ c ∈ part, isDigit c = true := by
  intro part hpart
  obtain ⟨n, _, rfl⟩ := List.mem_map.1 hpart
  exact ⟨number_ne_nil n, number_digits n⟩

theorem mem_coreText (h : c ∈ v.coreText) : c = 0x2E ∨ isDigit c = true :=
  (mem_dots h).imp_right (fun ⟨part, hpart, hc⟩ => (v.core_parts part hpart).2 c hc)

theorem mem_preText (h : c ∈ v.preText) : c = 0x2E ∨ isIdentifierChar c = true :=
  (mem_dots h).imp_right (fun ⟨part, hpart, hc⟩ => (v.pre_parts part hpart).2 c hc)

theorem mem_behind {part : QString} (h : c ∈ behind mark part) : c = mark ∨ c ∈ part := by
  rw [behind] at h
  split at h
  · cases h
  · exact List.mem_cons.1 h

theorem coreText_head : ∃ c s, v.coreText = c :: s ∧ isDigit c = true := by
  have hdigits := number_digits v.major
  rw [coreText, core, List.map_cons, List.map_cons, dots, List.intercalate_cons_cons]
  cases hn : fromLatin1 (QByteArray.number (v.major : Nat)) with
  | nil => exact absurd hn (number_ne_nil _)
  | cons c s => exact ⟨c, _, rfl, hdigits c (hn ▸ List.mem_cons_self)⟩

theorem text_unspaced (marked : Bool) : ∀ c ∈ v.text marked, isSpace c = false := by
  intro c hc
  have hchar (c : UInt16) (h : c = 0x2E ∨ isIdentifierChar c = true) : isSpace c = false := by
    rcases h with rfl | h
    · rfl
    · exact (identifierChar_plain h).1
  rw [text_eq, List.mem_append, List.mem_append, List.mem_append] at hc
  rcases hc with hv | (hcore | hpre) | hbuild
  · cases marked with
    | true => rw [List.mem_singleton.1 hv]; rfl
    | false => cases hv
  · exact hchar c ((v.mem_coreText hcore).imp_right (fun h => (digit_identifierChar h).1))
  · rcases mem_behind hpre with rfl | hpre
    · rfl
    · exact hchar c (v.mem_preText hpre)
  · rcases mem_behind hbuild with rfl | hbuild
    · rfl
    · exact hchar c ((mem_dots hbuild).imp_right
        (fun ⟨part, hpart, hc⟩ => (v.build_valid part hpart).2 c hc))

end Semver

/-- A number of a version as it is read: zero where it is no number of 32 bits. -/
def held (n : Nat) : Nat := if n < 2 ^ 31 then n else 0

theorem readInt_held (n : Nat) : (readInt (fromLatin1 (QByteArray.number n))).getD 0 = held n := by
  rw [readInt_number, held]
  split
  · rfl
  · rfl

theorem drop_marked (marked : Bool) {s : QString} (h : ∃ c t, s = c :: t ∧ isDigit c = true) :
    (if ((if marked then [0x76] else []) ++ s).head? = some 0x76 ∨
        ((if marked then [0x76] else []) ++ s).head? = some 0x56
      then ((if marked then [0x76] else []) ++ s).drop 1
      else (if marked then [0x76] else []) ++ s) = s := by
  obtain ⟨c, t, rfl, hc⟩ := h
  cases marked with
  | true => rfl
  | false =>
    rw [if_neg Bool.false_ne_true, List.nil_append, List.head?_cons, if_neg]
    rintro (he | he) <;> cases he <;> cases hc

theorem parseSemver_text (marked : Bool) (v : Semver) :
    parseSemver (v.text marked) =
      { nums := v.core.map (fun n => (held n : Int)), pre := v.preText } := by
  have hplus : 0x2B ∉ v.coreText ++ behind 0x2D v.preText := by
    intro hm
    rcases List.mem_append.1 hm with hm | hm
    · rcases v.mem_coreText hm with he | he <;> cases he
    · rcases Semver.mem_behind hm with he | hm
      · cases he
      · rcases v.mem_preText hm with he | he <;> cases he
  have hdash : 0x2D ∉ v.coreText := by
    intro hm
    rcases v.mem_coreText hm with he | he <;> cases he
  have hhead : ∃ c t, v.coreText ++ behind 0x2D v.preText ++ behind 0x2B (dots v.build) = c :: t ∧
      isDigit c = true := by
    obtain ⟨c, t, hct, hc⟩ := v.coreText_head
    exact ⟨c, _, by rw [hct]; rfl, hc⟩
  have htrim : QString.trimmed (v.text marked) = v.text marked :=
    trimWith_eq_self (fun c hc => v.text_unspaced marked c (List.mem_of_mem_head? hc))
      (fun c hc => v.text_unspaced marked c (List.mem_of_getLast? hc))
  have hcore : splitDots v.coreText =
      v.core.map (fun n => fromLatin1 (QByteArray.number (n : Nat))) := by
    apply splitDots_dots (List.cons_ne_nil _ _)
    intro part hpart
    obtain ⟨hne, hdigits⟩ := v.core_parts part hpart
    exact ⟨hne, fun c hc => (digit_identifierChar (hdigits c hc)).1⟩
  rw [parseSemver, htrim, Semver.text_eq]
  rw [drop_marked marked hhead, take_behind hplus, take_behind hdash, drop_behind hdash, hcore,
    List.map_map, List.length_map, show 3 - v.core.length = 0 from rfl, List.replicate_zero,
    List.append_nil]
  congr 1
  exact List.map_congr_left (fun n _ => readInt_held n)

end Texts

section Comparison

namespace Semver

def heldVersion (v : Semver) : Semver :=
  { v with major := held v.major, minor := held v.minor, patch := held v.patch }

end Semver

theorem comparePre_text (v w : Semver) :
    comparePre v.preText w.preText = orderSign (Semver.prePrecedence v.pre w.pre) := by
  have hempty (u : Semver) : u.preText.isEmpty = u.pre.isEmpty := by
    rw [Bool.eq_iff_iff, List.isEmpty_iff, List.isEmpty_iff, Semver.preText_eq_nil]
  rw [comparePre, hempty, hempty, Semver.prePrecedence, compareLex, compareOn]
  cases hv : v.pre with
  | nil =>
    cases hw : w.pre with
    | nil => rfl
    | cons j b => rfl
  | cons i a =>
    cases hw : w.pre with
    | nil => rfl
    | cons j b =>
      rw [Semver.preText, Semver.preText, splitDots_dots _ v.pre_parts,
        splitDots_dots _ w.pre_parts, hv, hw]
      · exact compareIdentifiers_text (hv ▸ v.pre_valid) (hw ▸ w.pre_valid)
      · rw [hw]
        exact List.cons_ne_nil _ _
      · rw [hv]
        exact List.cons_ne_nil _ _

/-- Versions compare by precedence once numbers beyond 32 bits are zero. -/
theorem compareSemver_text (m n : Bool) (v w : Semver) :
    compareSemver (v.text m) (w.text n) = orderSign (v.heldVersion.precedence w.heldVersion) := by
  rw [compareSemver, parseSemver_text, parseSemver_text]
  dsimp only
  rw [comparePre_text, Semver.precedence,
    ← numbers_compare v.heldVersion.core w.heldVersion.core rfl]
  rfl

end Comparison

end Nullock.UpdateLogic

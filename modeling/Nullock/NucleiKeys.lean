import Nullock.NucleiReading

namespace Nullock.NucleiYaml

open QJsonObject

/-- A sequence or a map that is open, with the indentation its lines stand at. -/
structure Level where
  isSeq : Bool
  indent : Nat
deriving DecidableEq

def Level.takes (level : Level) (line : Line) : Bool :=
  line.indent == level.indent && startsWithDash line == level.isSeq

def levelOf (line : Line) : Level := ⟨startsWithDash line, line.indent⟩

section Walk
variable (digit : UInt16 → Bool) (raw : List QString)

/-- What a key with its colon at `c` opens, and the lines behind it. -/
def behindKey (line : Line) (c : Nat) (lines : List Line) : List Level × List Line :=
  let rest := QString.trimmed (line.text.drop (c + 1))
  match blockScalarIndicator digit rest with
  | some (style, chomp) =>
    let endRaw := (readBlockScalar raw (line.rawIdx + 1) line.indent style chomp).2
    ([], lines.dropWhile (fun l => decide (l.rawIdx < endRaw)))
  | none =>
    if !rest.isEmpty then ([], lines)
    else
      match lines with
      | [] => ([], [])
      | next :: lines =>
        if line.indent < next.indent then ([levelOf next], next :: lines)
        else if next.indent = line.indent ∧ startsWithDash next then
          ([⟨true, line.indent⟩], next :: lines)
        else ([], next :: lines)

def behindItem (line : Line) (lines : List Line) : List Level × List Line :=
  let rest := itemText line.text
  if rest.isEmpty then
    match lines with
    | [] => ([], [])
    | next :: lines =>
      if line.indent < next.indent then ([levelOf next], next :: lines)
      else ([], next :: lines)
  else if (keyColon rest).isSome then
    let moved : Line := ⟨line.indent + 2, rest, line.rawIdx⟩
    ([levelOf moved], moved :: lines)
  else ([], lines)

def behind (line : Line) (lines : List Line) : List Level × List Line :=
  if startsWithDash line then behindItem line lines
  else
    match keyColon line.text with
    | none => ([], lines)
    | some c => behindKey digit raw line c lines

/-- The lines the outermost level takes, each by the innermost level that does. -/
def met : Nat → List Level → List Line → List Line
  | 0, _, _ => []
  | _ + 1, _, [] => []
  | guard + 1, levels, line :: lines =>
    match levels.dropWhile (fun level => !level.takes line) with
    | [] => []
    | level :: levels =>
      let next := behind digit raw line lines
      (if levels.isEmpty then [line] else []) ++ met guard (next.1 ++ level :: levels) next.2

variable {digit raw} {guard : Nat}

theorem met_over (h : level.takes line = false) :
    met digit raw guard (level :: levels) (line :: lines) =
      met digit raw guard levels (line :: lines) := by
  cases guard with
  | zero => rfl
  | succ guard =>
    simp only [met]
    rw [List.dropWhile_cons_of_pos (by simp [h])]

theorem met_taken (h : level.takes line = true) (hlevels : levels ≠ []) :
    met digit raw (guard + 1) (level :: levels) (line :: lines) =
      met digit raw guard ((behind digit raw line lines).1 ++ level :: levels)
        (behind digit raw line lines).2 := by
  have hempty : levels.isEmpty = false := by simpa using hlevels
  simp only [met]
  rw [List.dropWhile_cons_of_neg (by simp [h])]
  simp [hempty]

theorem met_own (h : level.takes line = true) :
    met digit raw (guard + 1) [level] (line :: lines) =
      line :: met digit raw guard ((behind digit raw line lines).1 ++ [level])
        (behind digit raw line lines).2 := by
  simp only [met]
  rw [List.dropWhile_cons_of_neg (by simp [h])]
  simp

theorem met_nil : met digit raw guard levels [] = [] := by
  cases guard <;> rfl

/-- What was read of open levels leaves the walk to the levels around them. -/
def Closes (digit : UInt16 → Bool) (raw : List QString) (opened : List Level)
    (lines : List Line) (guard : Nat) (r : Parsed α) : Prop :=
  r.guard ≤ guard ∧
    ∀ levels : List Level, levels ≠ [] →
      met digit raw guard (opened ++ levels) lines = met digit raw r.guard levels r.lines

theorem closes_stay (v : α) (lines : List Line) :
    Closes digit raw [] lines guard (⟨v, lines, guard⟩ : Parsed α) :=
  ⟨Nat.le_refl _, fun levels hlevels => rfl⟩

theorem closes_block (hseq : ∀ lines d,
      Closes digit raw [⟨true, d⟩] lines guard (parseSeq digit raw lines d guard))
    (hmap : ∀ lines d,
      Closes digit raw [⟨false, d⟩] lines guard (parseMap digit raw [] lines d guard))
    (line : Line) (lines : List Line) :
    Closes digit raw [levelOf line] (line :: lines) guard
      (parseBlock digit raw (line :: lines) line.indent guard) := by
  rw [parseBlock]
  split
  · rename_i hguard
    subst hguard
    exact ⟨Nat.le_refl 0, fun levels hlevels => rfl⟩
  split
  · rename_i hdash
    have h := hseq (line :: lines) line.indent
    rw [levelOf, hdash.1]
    exact h
  · rename_i hdash
    have h := hmap (line :: lines) line.indent
    have hno : startsWithDash line = false := by simpa using hdash
    rw [levelOf, hno]
    exact h

theorem closes_item (hblock : ∀ line lines,
      Closes digit raw [levelOf line] (line :: lines) guard
        (parseBlock digit raw (line :: lines) line.indent guard))
    (line : Line) (lines : List Line) :
    Closes digit raw (behindItem line lines).1 (behindItem line lines).2 guard
      (parseItem digit raw line lines line.indent guard) := by
  rw [parseItem.eq_def, behindItem.eq_def]
  dsimp only
  split
  · cases lines with
    | nil => exact closes_stay _ _
    | cons next lines =>
      dsimp only
      split
      · exact hblock next lines
      · exact closes_stay _ _
  split
  · exact hblock ⟨line.indent + 2, itemText line.text, line.rawIdx⟩ lines
  · exact closes_stay _ _

theorem closes_entry (hseq : ∀ lines d,
      Closes digit raw [⟨true, d⟩] lines guard (parseSeq digit raw lines d guard))
    (hblock : ∀ line lines,
      Closes digit raw [levelOf line] (line :: lines) guard
        (parseBlock digit raw (line :: lines) line.indent guard))
    (line : Line) (c : Nat) (lines : List Line) :
    Closes digit raw (behindKey digit raw line c lines).1 (behindKey digit raw line c lines).2
      guard (parseEntry digit raw line c lines line.indent guard) := by
  rw [parseEntry.eq_def, behindKey.eq_def]
  dsimp only
  cases blockScalarIndicator digit (QString.trimmed (line.text.drop (c + 1))) with
  | some indicator => exact closes_stay _ _
  | none =>
    dsimp only
    split
    · exact closes_stay _ _
    cases lines with
    | nil => exact closes_stay _ _
    | cons next lines =>
      dsimp only
      split
      · exact hblock next lines
      split
      · exact hseq (next :: lines) line.indent
      · exact closes_stay _ _

theorem closes_seq (ih : ∀ line lines,
      Closes digit raw (behindItem line lines).1 (behindItem line lines).2 guard
        (parseItem digit raw line lines line.indent guard))
    (hseq : ∀ g ≤ guard, ∀ lines d,
      Closes digit raw [⟨true, d⟩] lines g (parseSeq digit raw lines d g))
    (lines : List Line) (d : Nat) :
    Closes digit raw [⟨true, d⟩] lines (guard + 1)
      (parseSeq digit raw lines d (guard + 1)) := by
  cases lines with
  | nil =>
    rw [parseSeq]
    exact ⟨Nat.le_refl _, fun levels hlevels => by rw [met_nil, met_nil]⟩
  | cons line lines =>
    rw [parseSeq]
    dsimp only
    split
    · rename_i htakes
      obtain ⟨hindent, hdash⟩ := htakes
      subst hindent
      obtain ⟨hspent, hitem⟩ := ih line lines
      have hle := Nat.min_eq_left hspent
      rw [hle]
      obtain ⟨hleft, hitems⟩ := hseq _ hspent
        (parseItem digit raw line lines line.indent guard).lines line.indent
      refine ⟨Nat.le_trans hleft (Nat.le_succ_of_le hspent), fun levels hlevels => ?_⟩
      have htaken : Level.takes ⟨true, line.indent⟩ line = true := by
        simp [Level.takes, hdash]
      rw [List.singleton_append, met_taken htaken hlevels, behind, if_pos hdash,
        hitem _ (List.cons_ne_nil _ _)]
      exact hitems levels hlevels
    · rename_i hother
      refine ⟨Nat.le_refl _, fun levels hlevels => met_over ?_⟩
      simpa [Level.takes] using hother

theorem closes_map (ih : ∀ line c lines,
      Closes digit raw (behindKey digit raw line c lines).1 (behindKey digit raw line c lines).2
        guard (parseEntry digit raw line c lines line.indent guard))
    (hmap : ∀ g ≤ guard, ∀ obj lines d,
      Closes digit raw [⟨false, d⟩] lines g (parseMap digit raw obj lines d g))
    (obj : QJsonObject) (lines : List Line) (d : Nat) :
    Closes digit raw [⟨false, d⟩] lines (guard + 1)
      (parseMap digit raw obj lines d (guard + 1)) := by
  cases lines with
  | nil =>
    rw [parseMap]
    exact ⟨Nat.le_refl _, fun levels hlevels => by rw [met_nil, met_nil]⟩
  | cons line lines =>
    rw [parseMap]
    dsimp only
    split
    · rename_i htakes
      obtain ⟨hindent, hdash⟩ := htakes
      subst hindent
      have hno : startsWithDash line = false := by simpa using hdash
      have htaken : Level.takes ⟨false, line.indent⟩ line = true := by
        simp [Level.takes, hno]
      have hbehind : behind digit raw line lines =
          match keyColon line.text with
          | none => ([], lines)
          | some c => behindKey digit raw line c lines := by
        simp [behind, hno]
      cases hc : keyColon line.text with
      | none =>
        rw [hc] at hbehind
        obtain ⟨hleft, hrest⟩ := hmap guard (Nat.le_refl _) obj lines line.indent
        refine ⟨Nat.le_succ_of_le hleft, fun levels hlevels => ?_⟩
        rw [List.singleton_append, met_taken htaken hlevels, hbehind]
        exact hrest levels hlevels
      | some c =>
        rw [hc] at hbehind
        dsimp only at hbehind ⊢
        obtain ⟨hspent, hentry⟩ := ih line c lines
        have hle := Nat.min_eq_left hspent
        rw [hle]
        obtain ⟨hleft, hrest⟩ := hmap _ hspent
          (obj.insert (unquote (QString.trimmed (line.text.take c)))
            (parseEntry digit raw line c lines line.indent guard).value)
          (parseEntry digit raw line c lines line.indent guard).lines line.indent
        refine ⟨Nat.le_trans hleft (Nat.le_succ_of_le hspent), fun levels hlevels => ?_⟩
        rw [List.singleton_append, met_taken htaken hlevels, hbehind,
          hentry _ (List.cons_ne_nil _ _)]
        exact hrest levels hlevels
    · rename_i hother
      refine ⟨Nat.le_refl _, fun levels hlevels => met_over ?_⟩
      simpa [Level.takes] using hother

theorem closes_levels (guard : Nat) :
    (∀ lines d, Closes digit raw [⟨true, d⟩] lines guard (parseSeq digit raw lines d guard)) ∧
      ∀ obj lines d,
        Closes digit raw [⟨false, d⟩] lines guard (parseMap digit raw obj lines d guard) := by
  induction guard using Nat.strong_induction_on with
  | _ guard ih =>
    cases guard with
    | zero =>
      refine ⟨fun lines d => ?_, fun obj lines d => ?_⟩
      · rw [parseSeq_spent]
        exact ⟨Nat.le_refl 0, fun levels hlevels => rfl⟩
      · rw [parseMap_spent]
        exact ⟨Nat.le_refl 0, fun levels hlevels => rfl⟩
    | succ guard =>
      obtain ⟨hseq, hmap⟩ := ih guard (Nat.lt_succ_self guard)
      have hblock := closes_block hseq (fun lines d => hmap [] lines d)
      constructor
      · exact closes_seq (closes_item hblock)
          (fun g hg => (ih g (Nat.lt_succ_of_le hg)).1)
      · exact closes_map (closes_entry hseq hblock)
          (fun g hg => (ih g (Nat.lt_succ_of_le hg)).2)

end Walk

def keyOf (line : Line) : Option QString :=
  if startsWithDash line then none
  else (keyColon line.text).map (fun c => unquote (QString.trimmed (line.text.take c)))

section Keys
variable (digit : UInt16 → Bool) (raw : List QString)

def headOf : Nat → Nat → QString → Option (Nat × UInt16 × Option UInt16)
  | 0, _, _ => none
  | fuel + 1, indent, text =>
    if text.head? = some kDash then
      let rest := itemText text
      match blockScalarIndicator digit rest with
      | some indicator => some (indent, indicator)
      | none => headOf fuel (indent + 2) rest
    else
      match keyColon text with
      | some c =>
        (blockScalarIndicator digit (QString.trimmed (text.drop (c + 1)))).map
          (fun indicator => (indent, indicator))
      | none => none

def inBlockScalar (lines : List Line) (line : Line) : Bool :=
  lines.any (fun head =>
    match headOf digit head.text.length head.indent head.text with
    | some (indent, style, chomp) =>
      decide (head.rawIdx < line.rawIdx) &&
        decide (line.rawIdx < (readBlockScalar raw (head.rawIdx + 1) indent style chomp).2)
    | none => false)

/-- The lines of keys at the indentation of the first line, outside block scalars. -/
def topKeys : List Line → List Line
  | [] => []
  | first :: lines => (first :: lines).filter (fun line =>
      line.indent == first.indent && (keyOf line).isSome &&
        !inBlockScalar digit raw (first :: lines) line)

def metLines : List Line → List Line
  | [] => []
  | first :: lines => met digit raw kGuard [levelOf first] (first :: lines)

variable {digit raw}

theorem keyOf_entry (hno : startsWithDash line = false) :
    keyOf line = (keyColon line.text).map
      (fun c => unquote (QString.trimmed (line.text.take c))) := by
  rw [keyOf, if_neg (by simp [hno])]

theorem lookup_parseMap (guard : Nat) (obj : QJsonObject) (lines : List Line) (d : Nat)
    (key : QString) :
    ((parseMap digit raw obj lines d guard).value.lookup key).isSome ↔
      (obj.lookup key).isSome ∨
        ∃ line ∈ met digit raw guard [⟨false, d⟩] lines, keyOf line = some key := by
  induction guard using Nat.strong_induction_on generalizing obj lines with
  | _ guard ih =>
    cases guard with
    | zero =>
      rw [parseMap_spent]
      simp [met]
    | succ guard =>
      cases lines with
      | nil =>
        rw [parseMap]
        simp [met]
      | cons line lines =>
        rw [parseMap]
        dsimp only
        split
        · rename_i htakes
          obtain ⟨hindent, hdash⟩ := htakes
          subst hindent
          have hno : startsWithDash line = false := by simpa using hdash
          have htaken : Level.takes ⟨false, line.indent⟩ line = true := by
            simp [Level.takes, hno]
          have hkeyOf := keyOf_entry hno
          rw [met_own htaken]
          cases hc : keyColon line.text with
          | none =>
            have hbehind : behind digit raw line lines = ([], lines) := by
              simp [behind, hno, hc]
            rw [hc] at hkeyOf
            rw [hbehind]
            dsimp only
            rw [ih guard (Nat.lt_succ_self guard)]
            simp [hkeyOf]
          | some c =>
            have hbehind : behind digit raw line lines = behindKey digit raw line c lines := by
              simp [behind, hno, hc]
            rw [hc] at hkeyOf
            rw [hbehind]
            dsimp only
            have hlevels := @closes_levels digit raw guard
            obtain ⟨hspent, hentry⟩ := closes_entry hlevels.1
              (closes_block hlevels.1 (fun lines d => hlevels.2 [] lines d)) line c lines
            rw [Nat.min_eq_left hspent, ih _ (Nat.lt_succ_of_le hspent), lookup_insert,
              hentry _ (List.cons_ne_nil _ _)]
            by_cases hname : key = unquote (QString.trimmed (line.text.take c))
            · simp [hkeyOf, hname]
            · have hother : keyOf line ≠ some key := by
                rw [hkeyOf]
                exact fun h => hname (Option.some.inj h).symm
              simp [hname, hother]
        · rename_i hother
          have hover : Level.takes ⟨false, d⟩ line = false := by
            simpa [Level.takes] using hother
          rw [met_over hover]
          simp [met]

theorem lookup_parseYaml (hdoc : tokenize (rawLines yaml) = first :: lines)
    (hfirst : keyOf first ≠ none) (key : QString) :
    ((parseYaml digit yaml).toObject.lookup key).isSome ↔
      ∃ line ∈ metLines digit (rawLines yaml) (tokenize (rawLines yaml)),
        keyOf line = some key := by
  have hno : startsWithDash first = false := by
    cases hdash : startsWithDash first with
    | false => rfl
    | true => exact absurd (by rw [keyOf, if_pos hdash]) hfirst
  rw [parseYaml, hdoc]
  dsimp only
  rw [parseBlock, if_neg (by decide), if_neg (by simp [hno])]
  have h := @lookup_parseMap digit (rawLines yaml) kGuard []
    (first :: lines) first.indent key
  have hlevel : levelOf first = ⟨false, first.indent⟩ := by rw [levelOf, hno]
  rw [metLines, hlevel]
  simpa [QJsonValue.toObject] using h

def KeepsKeys (digit : UInt16 → Bool) (yaml : QString) : Prop :=
  ∀ line ∈ topKeys digit (rawLines yaml) (tokenize (rawLines yaml)), ∀ key,
    keyOf line = some key → ((parseYaml digit yaml).toObject.lookup key).isSome

theorem keyOf_topKeys (h : line ∈ topKeys digit raw lines) : ∃ key, keyOf line = some key := by
  cases lines with
  | nil => cases h
  | cons first lines =>
    have hfilter := (List.mem_filter.1 h).2
    simp only [Bool.and_eq_true] at hfilter
    exact Option.isSome_iff_exists.1 hfilter.1.2

theorem keepsKeys_iff (hdoc : tokenize (rawLines yaml) = first :: lines)
    (hfirst : keyOf first ≠ none) :
    KeepsKeys digit yaml ↔
      ∀ line ∈ topKeys digit (rawLines yaml) (tokenize (rawLines yaml)),
        ∃ other ∈ metLines digit (rawLines yaml) (tokenize (rawLines yaml)),
          keyOf other = keyOf line := by
  constructor
  · intro hkept line hline
    obtain ⟨key, hkey⟩ := keyOf_topKeys hline
    obtain ⟨other, hmet, hother⟩ :=
      (lookup_parseYaml hdoc hfirst key).1 (hkept line hline key hkey)
    exact ⟨other, hmet, hother.trans hkey.symm⟩
  · intro hreached line hline key hkey
    obtain ⟨other, hmet, hother⟩ := hreached line hline
    exact (lookup_parseYaml hdoc hfirst key).2 ⟨other, hmet, hother.trans hkey⟩

end Keys

/-- No part of a document is dropped just where a line with each of its keys is met. -/
theorem keys_kept_iff (digit : UInt16 → Bool) (yaml : QString) (first : Line)
    (lines : List Line) (hdoc : tokenize (rawLines yaml) = first :: lines)
    (hfirst : keyOf first ≠ none) :
    KeepsKeys digit yaml ↔
      ∀ line ∈ topKeys digit (rawLines yaml) (tokenize (rawLines yaml)),
        ∃ other ∈ metLines digit (rawLines yaml) (tokenize (rawLines yaml)),
          keyOf other = keyOf line :=
  keepsKeys_iff hdoc hfirst

/-- A key whose lines are deeper than they have to be, in front of another key. -/
def kDeepItems : QString := utf16 "a:\n    - x\nb: 1"

theorem keys_kept_deepItems : KeepsKeys isAsciiDigit kDeepItems ↔
    ∀ line ∈ topKeys isAsciiDigit (rawLines kDeepItems) (tokenize (rawLines kDeepItems)),
      ∃ other ∈ metLines isAsciiDigit (rawLines kDeepItems) (tokenize (rawLines kDeepItems)),
        keyOf other = keyOf line :=
  keys_kept_iff isAsciiDigit kDeepItems ⟨0, utf16 "a:", 0⟩
    [⟨4, utf16 "- x", 1⟩, ⟨0, utf16 "b: 1", 2⟩] (by decide) (by decide)

def kItemScalar : QString := utf16 "a:\n  - |\n    text\nb: 1"

theorem tokenize_itemScalar : tokenize (rawLines kItemScalar) =
    [⟨0, utf16 "a:", 0⟩, ⟨2, utf16 "- |", 1⟩, ⟨4, utf16 "text", 2⟩, ⟨0, utf16 "b: 1", 3⟩] := by
  decide

/-- The text of the item fits no open level, and the key behind it is dropped. -/
theorem item_scalar_drops_key : (tokenize (rawLines kItemScalar)).length < 100000 ∧
    ((tokenize (rawLines kItemScalar)).head?.bind keyOf).isSome ∧
      ¬ KeepsKeys isAsciiDigit kItemScalar := by
  refine ⟨by rw [tokenize_itemScalar]; decide, by rw [tokenize_itemScalar]; decide, ?_⟩
  intro hkept
  have hfirst : keyOf ⟨0, utf16 "a:", 0⟩ ≠ none := by decide
  have hlast : (⟨0, utf16 "b: 1", 3⟩ : Line) ∈
      topKeys isAsciiDigit (rawLines kItemScalar) (tokenize (rawLines kItemScalar)) := by
    rw [tokenize_itemScalar]
    decide
  obtain ⟨other, hmet, hother⟩ :=
    (keepsKeys_iff tokenize_itemScalar hfirst).1 hkept _ hlast
  have hall : ∀ line ∈ metLines isAsciiDigit (rawLines kItemScalar)
      (tokenize (rawLines kItemScalar)), line = ⟨0, utf16 "a:", 0⟩ := by
    rw [tokenize_itemScalar]
    decide
  rw [hall other hmet] at hother
  revert hother
  decide

end Nullock.NucleiYaml

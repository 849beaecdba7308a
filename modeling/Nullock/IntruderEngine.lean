import Nullock.ScopeRules

namespace Nullock.IntruderEngine
open ScopeLogic

/-- One payload for each marker; `none` leaves a marker at its default. -/
abbrev Combo := List (Option QString)

def kMarker : UInt16 := 0xA7

structure Marker where
  start : Nat
  len : Nat
  dflt : QString
deriving DecidableEq

/-- The markers from a place on; an open one without an end is none. -/
def findMarkersFrom : Nat → Option (Nat × QString) → QString → List Marker
  | _, _, [] => []
  | i, none, c :: s => findMarkersFrom (i + 1) (if c = kMarker then some (i, []) else none) s
  | i, some (start, text), c :: s =>
    if c = kMarker then ⟨start, i + 1 - start, text⟩ :: findMarkersFrom (i + 1) none s
    else findMarkersFrom (i + 1) (some (start, text ++ [c])) s

def findMarkers (templ : QString) : List Marker := findMarkersFrom 0 none templ

def countMarkers (templ : QString) : Nat := (findMarkers templ).length

def applyPayloadsFrom (templ : QString) : Nat → List Marker → Combo → QString
  | cursor, [], _ => templ.drop cursor
  | cursor, m :: markers, combo =>
    (templ.drop cursor).take (m.start - cursor) ++ combo.head?.join.getD m.dflt ++
      applyPayloadsFrom templ (m.start + m.len) markers combo.tail

def applyPayloads (templ : QString) (combo : Combo) : QString :=
  applyPayloadsFrom templ 0 (findMarkers templ) combo

inductive AttackType where
  | sniper
  | batteringRam
  | pitchfork
  | clusterBomb
deriving DecidableEq

def setAt (sets : List (List QString)) (p : Nat) : List QString := sets.getD p []

def batteringRam (positions : Nat) (sets : List (List QString)) : List Combo :=
  (setAt sets 0).map (fun p => List.replicate positions (some p))

def sniper (positions : Nat) (sets : List (List QString)) : List Combo :=
  (List.range positions).flatMap (fun pos =>
    (setAt sets 0).map (fun p => (List.replicate positions none).set pos (some p)))

def minLen (positions : Nat) (sets : List (List QString)) : Option Nat :=
  (((List.range positions).map (fun p => (setAt sets p).length)).filter (· != 0)).min?

def pitchfork (positions : Nat) (sets : List (List QString)) : List Combo :=
  match minLen positions sets with
  | none => []
  | some n => (List.range n).map (fun k => (List.range positions).map (fun p => (setAt sets p)[k]?))

/-- The next place of the odometer; `none` when it has rolled over. -/
def odometer : List (List QString) → List Nat → Option (List Nat)
  | set :: sets, i :: idx =>
    match odometer sets idx with
    | some idx' => some (i :: idx')
    | none => if i + 1 < set.length then some ((i + 1) :: idx.map (fun _ => 0)) else none
  | _, _ => none

/-- The combinations from a place of the odometer on, at most `limit` of them. -/
def clusterBombFrom (sets : List (List QString)) : Nat → List Nat → List Combo
  | 0, _ => []
  | limit + 1, idx =>
    List.zipWith (fun set i => set[i]?) sets idx ::
      match odometer sets idx with
      | some idx' => clusterBombFrom sets limit idx'
      | none => []

def clusterBomb (positions : Nat) (sets : List (List QString)) (maxResults : Nat) : List Combo :=
  let sets := (List.range positions).map (setAt sets)
  if sets.all (·.isEmpty) then [] else clusterBombFrom sets maxResults (sets.map (fun _ => 0))

def generateCombinations (type : AttackType) (positions : Nat) (sets : List (List QString))
    (maxResults : Nat) : List Combo :=
  match type with
  | .batteringRam => if positions = 0 then [] else (batteringRam positions sets).take maxResults
  | .sniper => (sniper positions sets).take maxResults
  | .pitchfork => (pitchfork positions sets).take maxResults
  | .clusterBomb => clusterBomb positions sets maxResults

example : generateCombinations .clusterBomb 2 [[[1], [2]], [[3], [4]]] 3 =
    [[some [1], some [3]], [some [1], some [4]], [some [2], some [3]]] := by decide

example : applyPayloads (utf16 "a=§x§&b=§y§") [some (utf16 "1")] = utf16 "a=1&b=y" := by decide

end Nullock.IntruderEngine

namespace Nullock.IntruderRules
open ScopeLogic IntruderEngine

structure Rule where
  op : QString
  arg : QString
deriving DecidableEq

/-- What a rule makes of a value and the value before the chain. -/
abbrev RuleLibrary := Option QString → Rule → Option QString → Option QString

def Rule.isSkip (r : Rule) : Bool := toLower (QString.trimmed r.op) == utf16 "skip-if-matches"

def Rule.skips (E : RegexEngine) (r : Rule) (value : Option QString) : Bool :=
  !r.arg.isEmpty && E.isValid ⟨r.arg, false⟩ && E.hasMatch ⟨r.arg, false⟩ (value.getD [])

def applyRulesFrom (P : RuleLibrary) (original : Option QString) :
    Option QString → List Rule → Option QString
  | out, [] => out
  | out, r :: rules =>
    applyRulesFrom P original (if r.isSkip then out else P out r original) rules

def applyRules (P : RuleLibrary) (value : Option QString) (rules : List Rule) : Option QString :=
  applyRulesFrom P value value rules

def skippedFrom (E : RegexEngine) (P : RuleLibrary) (original : Option QString) :
    Option QString → List Rule → Bool
  | _, [] => false
  | out, r :: rules =>
    if r.isSkip then r.skips E out || skippedFrom E P original out rules
    else skippedFrom E P original (P out r original) rules

def skipped (E : RegexEngine) (P : RuleLibrary) (value : Option QString) (rules : List Rule) :
    Bool :=
  skippedFrom E P value value rules

def applyRulesToCombo (P : RuleLibrary) (combo : Combo) (rules : List Rule) : Combo :=
  if rules.isEmpty then combo
  else combo.map (fun v => if v.isNone then v else applyRules P v rules)

end Nullock.IntruderRules

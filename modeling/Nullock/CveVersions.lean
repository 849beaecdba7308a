import Nullock.DecimalOrder

namespace Nullock.CveDatabase

open ServiceVulns (readInt intMax isPatternSpace)

def addInt (a b : Int) : Option Int :=
  if -2 ^ 31 ≤ a + b ∧ a + b < 2 ^ 31 then some (a + b) else none

def isSeparator (c : UInt16) : Bool := c == 0x2D || c == 0x5F || c == 0x2E || c == 0x20

def patchWords : List QString := [utf16 "p", utf16 "patch", utf16 "pl"]

def preWords : List QString :=
  [utf16 "rc", utf16 "beta", utf16 "alpha", utf16 "dev", utf16 "snapshot", utf16 "preview",
    utf16 "pre"]

def digitsBehind (t : QString) (least : Nat) (w : QString) : Option QString :=
  if w.isPrefixOf t then
    let digits := (t.drop w.length).takeWhile isDigit
    if least ≤ digits.length then some digits else none
  else none

def wordDigits (words : List QString) (least : Nat) (t : QString) : Option QString :=
  words.findSome? (digitsBehind t least)

def suffixRank (sufIn : QString) : Option Int :=
  let t := (toLower sufIn).dropWhile isSeparator
  if t.isEmpty then some 0
  else
    match wordDigits patchWords 1 t with
    | some digits => addInt 1000 ((readInt digits).getD 0)
    | none =>
      match wordDigits preWords 0 t with
      | some digits => addInt (-1000) (if digits.isEmpty then 0 else (readInt digits).getD 0)
      | none => some 0

structure Ver where
  p : List Int := [0, 0, 0, 0]
  ncomp : Nat := 0
  suffix : Int := 0
  valid : Bool := false
deriving DecidableEq

def comp (c : QString) : Int :=
  match QString.toLongLong c with
  | none => intMax
  | some n => if intMax < n then intMax else if n < 0 then 0 else n

def isTailChar (c : UInt16) : Bool :=
  (0x41 ≤ c && c ≤ 0x5A) || (0x61 ≤ c && c ≤ 0x7A) || isDigit c || c == 0x2E || c == 0x5F ||
    c == 0x2D

/-- The components behind the first one, up to a number, and the rest. -/
def moreComponents : Nat → QString → List QString × QString
  | 0, s => ([], s)
  | n + 1, c :: s =>
    if c = 0x2E ∧ s.takeWhile isDigit ≠ [] then
      let rest := moreComponents n (s.dropWhile isDigit)
      (s.takeWhile isDigit :: rest.1, rest.2)
    else ([], c :: s)
  | _ + 1, [] => ([], [])

def captured (components : List QString) (tail : QString) : Option Ver :=
  (suffixRank tail).map (fun rank =>
    { p := components.map comp ++ List.replicate (4 - components.length) 0
      ncomp := components.length
      suffix := rank
      valid := true })

theorem moreComponents_le (n : Nat) (s : QString) : (moreComponents n s).2.length ≤ s.length := by
  induction n generalizing s with
  | zero => exact Nat.le_refl _
  | succ n ih =>
    cases s with
    | nil => exact Nat.le_refl _
    | cons c s =>
      rw [moreComponents]
      split
      · have hdrop := (List.dropWhile_suffix (l := s) isDigit).length_le
        exact (ih _).trans (hdrop.trans (Nat.le_succ _))
      · exact Nat.le_refl _

/-- The versions of a text: a run of digits is the first component of one. -/
def allVersions : QString → List (Option Ver)
  | [] => []
  | c :: s =>
    if isDigit c then
      let first := c :: s.takeWhile isDigit
      let more := moreComponents 3 (s.dropWhile isDigit)
      captured (first :: more.1) (more.2.takeWhile isTailChar) ::
        allVersions (more.2.dropWhile isTailChar)
    else allVersions s
termination_by s => s.length
decreasing_by
  · have htail := (List.dropWhile_suffix (l := (moreComponents 3 (s.dropWhile isDigit)).2)
      isTailChar).length_le
    have hmore := moreComponents_le 3 (s.dropWhile isDigit)
    have hdigits := (List.dropWhile_suffix (l := s) isDigit).length_le
    exact Nat.lt_succ_of_le (htail.trans (hmore.trans hdigits))
  · exact Nat.lt_succ_self _

def bestVersion (best v : Ver) : Ver :=
  if !best.valid || best.ncomp < v.ncomp then v else best

def parseVersion (s : QString) : Option Ver :=
  (allVersions s).foldl (fun best v => best.bind (fun b => v.map (bestVersion b))) (some {})

def cmpVer (x y : Ver) : Int :=
  match (x.p.zip y.p).find? (fun n => n.1 != n.2) with
  | some (a, b) => if a < b then -1 else 1
  | none => if x.suffix ≠ y.suffix then (if x.suffix < y.suffix then -1 else 1) else 0

def isBoundChar (c : UInt16) : Bool := isTailChar c

def operatorAt (c : UInt16) (s : QString) : QString × QString :=
  if s.head? = some 0x3D then ([c, 0x3D], s.drop 1) else ([c], s)

def boundAt (c : UInt16) (s : QString) : Option ((QString × QString) × QString) :=
  if c = 0x3C ∨ c = 0x3E then
    let rest := (operatorAt c s).2.dropWhile isPatternSpace
    if rest.head?.any isDigit then
      some (((operatorAt c s).1, rest.takeWhile isBoundChar), rest.dropWhile isBoundChar)
    else none
  else none

theorem operatorAt_le (c : UInt16) (s : QString) : (operatorAt c s).2.length ≤ s.length := by
  rw [operatorAt]
  split
  · rw [List.length_drop]
    exact Nat.sub_le _ _
  · exact Nat.le_refl _

theorem boundAt_le (h : boundAt c s = some (b, rest)) : rest.length ≤ s.length := by
  rw [boundAt] at h
  split at h
  · dsimp only at h
    split at h
    · cases h
      exact (List.dropWhile_suffix isBoundChar).length_le.trans
        ((List.dropWhile_suffix isPatternSpace).length_le.trans (operatorAt_le c s))
    · cases h
  · cases h

def boundTexts : QString → List (QString × QString)
  | [] => []
  | c :: s =>
    match _h : boundAt c s with
    | some (b, rest) => b :: boundTexts rest
    | none => boundTexts s
termination_by s => s.length
decreasing_by
  · exact Nat.lt_succ_of_le (boundAt_le _h)
  · exact Nat.lt_succ_self _

def readBounds : List (QString × QString) → Option (List (QString × Ver))
  | [] => some []
  | (op, text) :: bounds =>
    (parseVersion text).bind (fun v => (readBounds bounds).map (fun rest =>
      if v.valid then (op, v) :: rest else rest))

def isBare (range : QString) : Bool :=
  let parts := (trimWith isPatternSpace range).splitOn 0x2E
  parts.all isNumeral && decide (parts.length ≤ 4)

def satisfies (c : Int) (oper : QString) : Bool :=
  if oper = utf16 "<" then decide (c < 0)
  else if oper = utf16 "<=" then decide (c ≤ 0)
  else if oper = utf16 ">" then decide (0 < c)
  else if oper = utf16 ">=" then decide (0 ≤ c)
  else true

def rangeMatches (range : QString) (have_ : Ver) : Option (Bool × Bool) :=
  if range.isEmpty then some (true, false)
  else if !have_.valid then some (true, false)
  else
    (readBounds (boundTexts range)).bind fun
      | [] =>
        if isBare range then
          (parseVersion range).map (fun want => (want.valid && cmpVer have_ want == 0, true))
        else some (true, false)
      | bounds => some (bounds.all (fun b => satisfies (cmpVer have_ b.2) b.1), true)

end Nullock.CveDatabase

import Nullock.JsonDocuments
import Nullock.Numerals

namespace Nullock.JsonText

/-- The characters that are written with a backslash, and the letter behind it. -/
def shortEscapes : List (UInt16 × UInt16) :=
  [(0x22, 0x22), (0x5C, 0x5C), (0x08, 0x62), (0x0C, 0x66), (0x0A, 0x6E), (0x0D, 0x72), (0x09, 0x74)]

def hexChar (d : Nat) : UInt16 := if d < 10 then (0x30 + d).toUInt16 else (0x57 + d).toUInt16

/-- A character of a string; control characters and halves become numbers. -/
def escapedUnit (u : UInt16) : QString :=
  match shortEscapes.lookup u with
  | some letter => [0x5C, letter]
  | none =>
    if u < 0x20 || (0xD800 ≤ u && u < 0xE000) then
      [0x5C, 0x75, hexChar (u.toNat / 4096), hexChar (u.toNat / 256 % 16),
        hexChar (u.toNat / 16 % 16), hexChar (u.toNat % 16)]
    else [u]

def escapedString (s : QString) : QString := 0x22 :: s.flatMap escapedUnit ++ [0x22]

def numberText (d : Rat) : QString := fromLatin1 (QByteArray.number d.num)

def newline (compact : Bool) : QString := if compact then [] else [0x0A]

def indentation (compact : Bool) (indent : Nat) : QString :=
  if compact then [] else List.replicate (4 * indent) 0x20

mutual

def valueToJson (compact : Bool) (indent : Nat) : QJsonValue → QString
  | .null => utf16 "null"
  | .undefined => utf16 "null"
  | .bool b => if b then utf16 "true" else utf16 "false"
  | .double d => numberText d
  | .string s => escapedString s
  | .array elems =>
    0x5B :: newline compact ++ arrayContent compact (indent + 1) elems ++
      indentation compact indent ++ [0x5D]
  | .object members =>
    0x7B :: newline compact ++ objectContent compact (indent + 1) members ++
      indentation compact indent ++ [0x7D]

def arrayContent (compact : Bool) (indent : Nat) : List QJsonValue → QString
  | [] => []
  | v :: elems =>
    indentation compact indent ++ valueToJson compact indent v ++
      (if elems.isEmpty then [] else [0x2C]) ++ newline compact ++ arrayContent compact indent elems

def objectContent (compact : Bool) (indent : Nat) : List (QString × QJsonValue) → QString
  | [] => []
  | m :: members =>
    indentation compact indent ++ escapedString m.1 ++ 0x3A :: (if compact then [] else [0x20]) ++
      valueToJson compact indent m.2 ++
      (if members.isEmpty then [] else [0x2C]) ++ newline compact ++
      objectContent compact indent members

end

def isJsonSpace (u : UInt16) : Bool := u == 0x20 || u == 0x09 || u == 0x0A || u == 0x0D

def skipSpace (s : QString) : QString := s.dropWhile isJsonSpace

def hexNumber (digits : QString) : Option UInt16 := (digitsFrom 16 0 digits).map Nat.toUInt16

def parseString : QString → Option (QString × QString)
  | [] => none
  | 0x22 :: s => some ([], s)
  | 0x5C :: 0x75 :: a :: b :: c :: d :: s => do
    let u ← hexNumber [a, b, c, d]
    let (t, rest) ← parseString s
    return (u :: t, rest)
  | 0x5C :: letter :: s => do
    let u ← if letter = 0x2F then some 0x2F
      else (shortEscapes.find? (fun e => e.2 = letter)).map Prod.fst
    let (t, rest) ← parseString s
    return (u :: t, rest)
  | u :: s => do
    if u < 0x20 then failure
    let (t, rest) ← parseString s
    return (u :: t, rest)

def parseWord (s : QString) : Option (QJsonValue × QString) :=
  if (utf16 "null").isPrefixOf s then some (.null, s.drop 4)
  else if (utf16 "true").isPrefixOf s then some (.bool true, s.drop 4)
  else if (utf16 "false").isPrefixOf s then some (.bool false, s.drop 5)
  else
    let negative := s.head? == some 0x2D
    let t := if negative then s.drop 1 else s
    let digits := t.takeWhile isDigit
    if digits.isEmpty then none
    else
      (digitsFrom 10 0 digits).map (fun (n : Nat) =>
        (.double ((if negative then -(n : Int) else n : Int) : Rat), t.dropWhile isDigit))

mutual

/-- A value nested at most `depth` deep, and what stands behind it. -/
def parseValue (depth : Nat) : Nat → QString → Option (QJsonValue × QString)
  | 0, _ => none
  | fuel + 1, s =>
    match skipSpace s with
    | 0x5B :: s =>
      match depth with
      | 0 => none
      | depth + 1 =>
        match skipSpace s with
        | 0x5D :: s => some (.array [], s)
        | _ => (parseElems depth fuel s).map (fun (elems, rest) => (.array elems, rest))
    | 0x7B :: s =>
      match depth with
      | 0 => none
      | depth + 1 =>
        match skipSpace s with
        | 0x7D :: s => some (.object [], s)
        | _ => (parseMembers depth fuel s).map (fun (members, rest) =>
          (.object (members.foldl (fun o m => QJsonObject.insert m.1 m.2 o) []), rest))
    | 0x22 :: s => (parseString s).map (fun (t, rest) => (.string t, rest))
    | s => parseWord s

def parseElems (depth : Nat) : Nat → QString → Option (List QJsonValue × QString)
  | 0, _ => none
  | fuel + 1, s =>
    (parseValue depth fuel s).bind (fun (v, rest) =>
      match skipSpace rest with
      | 0x2C :: rest => (parseElems depth fuel rest).map (fun (elems, rest) => (v :: elems, rest))
      | 0x5D :: rest => some ([v], rest)
      | _ => none)

def parseMembers (depth : Nat) : Nat → QString → Option (List (QString × QJsonValue) × QString)
  | 0, _ => none
  | fuel + 1, s =>
    match skipSpace s with
    | 0x22 :: s =>
      (parseString s).bind (fun (key, rest) =>
        match skipSpace rest with
        | 0x3A :: rest =>
          (parseValue depth fuel rest).bind (fun (v, rest) =>
            match skipSpace rest with
            | 0x2C :: rest =>
              (parseMembers depth fuel rest).map (fun (members, rest) =>
                ((key, v) :: members, rest))
            | 0x7D :: rest => some ([(key, v)], rest)
            | _ => none)
        | _ => none)
    | _ => none

end

def parseDocument (s : QString) : Option QJsonValue :=
  match parseValue kNestingLimit (s.length + 1) s with
  | some (v, rest) => if (skipSpace rest).isEmpty && v.isDocument then some v else none
  | none => none

def fromJson (bytes : QByteArray) : Option QJsonValue :=
  let text := QString.fromUtf8 bytes
  if toUtf8 text = bytes ∨ [0xEF, 0xBB, 0xBF] ++ toUtf8 text = bytes then parseDocument text
  else none

def compact (v : QJsonValue) : QByteArray := toUtf8 (valueToJson true 0 v)

def indented (v : QJsonValue) : QByteArray := toUtf8 (valueToJson false 0 v ++ [0x0A])

example : compact (.object [(utf16 "a", .array [.double 1, .bool true]), (utf16 "b\n", .null)]) =
    latin1 "\x7b\"a\":[1,true],\"b\\n\":null\x7d" := by decide

section Strings

theorem digitValue_hexChar (h : d < 16) : digitValue (hexChar d) = some d := by
  have hall : ∀ d < 16, digitValue (hexChar d) = some d := by decide
  exact hall d h

theorem digitsFrom_hexChar (h : d < 16) (acc : Nat) (s : QString) :
    digitsFrom 16 acc (hexChar d :: s) = digitsFrom 16 (acc * 16 + d) s := by
  rw [digitsFrom, digitValue_hexChar h]
  exact if_pos h

theorem hexNumber_unit (u : UInt16) :
    hexNumber [hexChar (u.toNat / 4096), hexChar (u.toNat / 256 % 16),
      hexChar (u.toNat / 16 % 16), hexChar (u.toNat % 16)] = some u := by
  have hu := u.toNat_lt
  have hvalue : (((0 * 16 + u.toNat / 4096) * 16 + u.toNat / 256 % 16) * 16 +
      u.toNat / 16 % 16) * 16 + u.toNat % 16 = u.toNat := by omega
  rw [hexNumber, digitsFrom_hexChar (by omega), digitsFrom_hexChar (by omega),
    digitsFrom_hexChar (by omega), digitsFrom_hexChar (by omega), hvalue, digitsFrom]
  exact congrArg some UInt16.ofNat_toNat

theorem shortEscapes_letter (h : shortEscapes.lookup u = some letter) :
    letter ≠ 0x75 ∧ letter ≠ 0x2F ∧
      (shortEscapes.find? (fun e => e.2 = letter)).map Prod.fst = some u := by
  have hall : ∀ e ∈ shortEscapes, e.2 ≠ 0x75 ∧ e.2 ≠ 0x2F ∧
      (shortEscapes.find? (fun f => f.2 = e.2)).map Prod.fst = some e.1 :=
    forall_mem_of_all (by decide)
  obtain ⟨before, behind, hs, _⟩ := List.lookup_eq_some_iff.1 h
  exact hall (u, letter) (hs ▸ List.mem_append_right _ List.mem_cons_self)

theorem shortEscapes_none (h : shortEscapes.lookup u = none) : u ≠ 0x22 ∧ u ≠ 0x5C := by
  constructor
  · rintro rfl
    exact absurd h (by decide)
  · rintro rfl
    exact absurd h (by decide)

theorem parseString_plain (hquote : u ≠ 0x22) (hslash : u ≠ 0x5C) (hlow : ¬ u < 0x20)
    (s : QString) :
    parseString (u :: s) = (parseString s).map (fun (t, rest) => (u :: t, rest)) := by
  rw [parseString]
  · rw [if_neg hlow]
    cases parseString s with
    | none => rfl
    | some p => rfl
  · exact hquote
  · intro a b c d t hu
    exact absurd hu hslash
  · intro letter t hu
    exact absurd hu hslash

theorem parseString_unit (u : UInt16) (s : QString) :
    parseString (escapedUnit u ++ s) =
      (parseString s).map (fun (t, rest) => (u :: t, rest)) := by
  rw [escapedUnit]
  cases hl : shortEscapes.lookup u with
  | some letter =>
    obtain ⟨hnum, hslash, hfind⟩ := shortEscapes_letter hl
    dsimp only
    rw [List.cons_append, List.cons_append, List.nil_append, parseString]
    · rw [if_neg hslash, hfind]
      cases parseString s with
      | none => rfl
      | some p => rfl
    · intro a b c d t he
      exact absurd he hnum
  | none =>
    obtain ⟨hquote, hslash⟩ := shortEscapes_none hl
    dsimp only
    split
    · rw [List.cons_append, List.cons_append, List.cons_append, List.cons_append, List.cons_append,
        List.cons_append, List.nil_append, parseString, hexNumber_unit]
      cases parseString s with
      | none => rfl
      | some p => rfl
    · rename_i hu
      have hlow : ¬ u < 0x20 := fun h => hu (by rw [decide_eq_true h]; rfl)
      exact parseString_plain hquote hslash hlow s

theorem parseString_escaped (s rest : QString) :
    parseString (s.flatMap escapedUnit ++ 0x22 :: rest) = some (s, rest) := by
  induction s with
  | nil => rw [List.flatMap_nil, List.nil_append, parseString]
  | cons u s ih =>
    rw [List.flatMap_cons, List.append_assoc, parseString_unit, ih]
    rfl

end Strings

section Words

theorem skipSpace_gap (h : ∀ u ∈ gap, isJsonSpace u = true) (s : QString) :
    skipSpace (gap ++ s) = skipSpace s := by
  rw [skipSpace, skipSpace, List.dropWhile_append_of_pos h]

theorem skipSpace_cons (h : isJsonSpace u = false) (s : QString) :
    skipSpace (u :: s) = u :: s := by
  rw [skipSpace, List.dropWhile_cons, h]
  rfl

theorem isJsonSpace_newline (compact : Bool) : ∀ u ∈ newline compact, isJsonSpace u = true := by
  cases compact with
  | false => exact List.forall_mem_singleton.2 rfl
  | true => exact fun u hu => absurd hu List.not_mem_nil

theorem isJsonSpace_indentation (compact : Bool) (indent : Nat) :
    ∀ u ∈ indentation compact indent, isJsonSpace u = true := by
  intro u hu
  cases compact with
  | true => exact absurd hu List.not_mem_nil
  | false =>
    rw [List.eq_of_mem_replicate hu]
    rfl

def NoDigit (s : QString) : Prop := ∀ u, s.head? = some u → isDigit u = false

theorem takeWhile_digits (h : ∀ u ∈ digits, isDigit u = true) (hrest : NoDigit rest) :
    (digits ++ rest).takeWhile isDigit = digits ∧ (digits ++ rest).dropWhile isDigit = rest := by
  rw [List.takeWhile_append_of_pos h, List.dropWhile_append_of_pos h]
  cases rest with
  | nil => exact ⟨List.append_nil _, rfl⟩
  | cons u rest =>
    have hu := hrest u rfl
    rw [List.takeWhile_cons, List.dropWhile_cons, hu]
    exact ⟨List.append_nil _, rfl⟩

theorem parseWord_eq (hu : isDigit u = true ∨ u = 0x2D) (s : QString) :
    parseWord (u :: s) =
      let t := if u == 0x2D then s else u :: s
      let digits := t.takeWhile isDigit
      if digits.isEmpty then none
      else (digitsFrom 10 0 digits).map (fun (n : Nat) =>
        (.double ((if u == 0x2D then -(n : Int) else n : Int) : Rat), t.dropWhile isDigit)) := by
  have hword (v : UInt16) (w : QString) (hv : isDigit v = false) (hm : v ≠ 0x2D) :
      (v :: w).isPrefixOf (u :: s) = false := by
    have hne : v ≠ u := by
      rintro rfl
      rcases hu with hu | hu
      · exact absurd hu (by rw [hv]; exact Bool.false_ne_true)
      · exact hm hu
    rw [List.isPrefixOf, beq_false_of_ne hne]
    rfl
  have hn : (utf16 "null").isPrefixOf (u :: s) = false := hword 0x6E _ (by decide) (by decide)
  have ht : (utf16 "true").isPrefixOf (u :: s) = false := hword 0x74 _ (by decide) (by decide)
  have hf : (utf16 "false").isPrefixOf (u :: s) = false := hword 0x66 _ (by decide) (by decide)
  have hhead : ((u :: s).head? == some 0x2D) = (u == 0x2D) := by
    rw [List.head?_cons]
    rfl
  rw [parseWord, hn, ht, hf, hhead]
  rfl

theorem parseWord_digits {digits : QString} (h : isNumeral digits = true)
    (hvalue : digitsFrom 10 0 digits = some n) (hrest : NoDigit rest) :
    parseWord (digits ++ rest) = some (.double ((n : Int) : Rat), rest) := by
  obtain ⟨hne, hall⟩ := isNumeral_iff.1 h
  obtain ⟨d, ds, rfl⟩ := List.exists_cons_of_ne_nil hne
  have hd := hall d List.mem_cons_self
  have hminus : (d == 0x2D) = false := by
    rw [beq_eq_false_iff_ne]
    rintro rfl
    exact absurd hd (by decide)
  obtain ⟨htake, hdrop⟩ := takeWhile_digits hall hrest
  rw [List.cons_append] at htake hdrop ⊢
  rw [parseWord_eq (.inl hd), hminus]
  dsimp only
  rw [if_neg Bool.false_ne_true, htake, hdrop, hvalue]
  rfl

theorem parseWord_minus {digits : QString} (h : isNumeral digits = true)
    (hvalue : digitsFrom 10 0 digits = some n) (hrest : NoDigit rest) :
    parseWord (0x2D :: (digits ++ rest)) = some (.double ((-(n : Int) : Int) : Rat), rest) := by
  obtain ⟨hne, hall⟩ := isNumeral_iff.1 h
  obtain ⟨htake, hdrop⟩ := takeWhile_digits hall hrest
  have hminus : ((0x2D : UInt16) == 0x2D) = true := rfl
  rw [parseWord_eq (.inr rfl), hminus]
  dsimp only
  rw [if_pos rfl, htake, hdrop, hvalue, if_neg]
  · rfl
  · rw [List.isEmpty_iff]
    exact hne

theorem parseWord_number (n : Int) (hrest : NoDigit rest) :
    parseWord (numberText n ++ rest) = some (.double n, rest) := by
  rw [numberText, Rat.num_intCast]
  cases n with
  | ofNat n =>
    obtain ⟨hnum, hvalue⟩ := number_numeral n
    exact parseWord_digits hnum hvalue hrest
  | negSucc n =>
    have hvalue := digitsFrom_decimalDigits (n + 1)
    have hne : fromLatin1 (decimalDigits (n + 1)) ≠ [] := by
      intro he
      rw [he] at hvalue
      exact absurd (Option.some.inj hvalue) (Nat.succ_ne_zero n).symm
    exact parseWord_minus (isNumeral_iff.2 ⟨hne, isDigit_decimalDigits _⟩) hvalue hrest

end Words

section Values

/-- What a value that is no string, array or object begins with. -/
structure WordFront (u : UInt16) : Prop where
  noSpace : isJsonSpace u = false
  noArray : u ≠ 0x5B
  noObject : u ≠ 0x7B
  noString : u ≠ 0x22
  noEnd : u ≠ 0x5D

theorem parseValue_word (hgap : ∀ u ∈ gap, isJsonSpace u = true) (hu : WordFront u)
    (depth fuel : Nat) (s : QString) :
    parseValue depth (fuel + 1) (gap ++ u :: s) = parseWord (u :: s) := by
  rw [parseValue, skipSpace_gap hgap, skipSpace_cons hu.noSpace]
  split
  · rename_i h
    exact absurd (List.cons.inj h).1 hu.noArray
  · rename_i h
    exact absurd (List.cons.inj h).1 hu.noObject
  · rename_i h
    exact absurd (List.cons.inj h).1 hu.noString
  · rfl

theorem wordFront_digit (h : isDigit u = true) : WordFront u := by
  have hne (v : UInt16) (hv : isDigit v = false) : u ≠ v := by
    rintro rfl
    rw [hv] at h
    exact Bool.false_ne_true h
  refine ⟨?_, hne _ (by decide), hne _ (by decide), hne _ (by decide), hne _ (by decide)⟩
  simp only [isJsonSpace, Bool.or_eq_false_iff, beq_eq_false_iff_ne]
  exact ⟨⟨⟨hne _ (by decide), hne _ (by decide)⟩, hne _ (by decide)⟩, hne _ (by decide)⟩

theorem numberText_front (n : Int) : ∃ u s, numberText n = u :: s ∧ WordFront u := by
  rw [numberText, Rat.num_intCast]
  cases n with
  | ofNat n =>
    obtain ⟨hne, hall⟩ := isNumeral_iff.1 (number_numeral n).1
    obtain ⟨u, s, hs⟩ := List.exists_cons_of_ne_nil hne
    exact ⟨u, s, hs, wordFront_digit (hall u (hs ▸ List.mem_cons_self))⟩
  | negSucc n => exact ⟨0x2D, _, rfl, by constructor <;> decide⟩

def Reads (compact : Bool) (depth : Nat) (v : QJsonValue) : Prop :=
  ∀ indent fuel gap rest, (valueToJson compact indent v).length < fuel →
    (∀ u ∈ gap, isJsonSpace u = true) → NoDigit rest →
    parseValue depth fuel (gap ++ (valueToJson compact indent v ++ rest)) = some (v, rest)

theorem noDigit_cons (h : isDigit u = false) (s : QString) : NoDigit (u :: s) := by
  intro v hv
  rw [← Option.some.inj hv]
  exact h

theorem noDigit_gap (hgap : ∀ u ∈ gap, isJsonSpace u = true) (hs : NoDigit s) :
    NoDigit (gap ++ s) := by
  cases gap with
  | nil => exact hs
  | cons u gap =>
    apply noDigit_cons
    have hu := hgap u List.mem_cons_self
    cases hd : isDigit u with
    | false => rfl
    | true =>
      rw [(wordFront_digit hd).noSpace] at hu
      exact hu.symm

theorem isJsonSpace_append {a b : QString} (ha : ∀ u ∈ a, isJsonSpace u = true)
    (hb : ∀ u ∈ b, isJsonSpace u = true) : ∀ u ∈ a ++ b, isJsonSpace u = true :=
  fun u hu => (List.mem_append.1 hu).elim (ha u) (hb u)

theorem arrayContent_last (c : Bool) (indent : Nat) (v : QJsonValue) :
    arrayContent c indent [v] =
      indentation c indent ++ (valueToJson c indent v ++ newline c) := by
  rw [arrayContent, arrayContent, List.isEmpty_nil, if_pos rfl, List.append_nil, List.append_nil,
    List.append_assoc]

theorem arrayContent_cons (c : Bool) (indent : Nat) (v w : QJsonValue) (elems : List QJsonValue) :
    arrayContent c indent (v :: w :: elems) =
      indentation c indent ++ (valueToJson c indent v ++
        0x2C :: (newline c ++ arrayContent c indent (w :: elems))) := by
  rw [arrayContent, List.isEmpty_cons, if_neg Bool.false_ne_true]
  simp only [List.append_assoc, List.cons_append, List.nil_append]

theorem parseElems_written {c : Bool} (hne : elems ≠ []) (h : ∀ v ∈ elems, Reads c depth v)
    (hfuel : (arrayContent c indent elems).length + 1 < fuel)
    (hgap : ∀ u ∈ gap, isJsonSpace u = true) (hend : ∀ u ∈ gap', isJsonSpace u = true)
    (rest : QString) :
    parseElems depth fuel (gap ++ (arrayContent c indent elems ++ (gap' ++ 0x5D :: rest))) =
      some (elems, rest) := by
  induction elems generalizing fuel gap with
  | nil => exact absurd rfl hne
  | cons v elems ih =>
    obtain ⟨fuel, rfl⟩ := Nat.exists_eq_add_of_lt (Nat.lt_of_le_of_lt (Nat.zero_le _) hfuel)
    have hfront := isJsonSpace_append hgap (isJsonSpace_indentation c indent)
    rw [Nat.zero_add, parseElems]
    cases elems with
    | nil =>
      rw [arrayContent_last] at hfuel ⊢
      simp only [List.length_append] at hfuel
      have hback := isJsonSpace_append (isJsonSpace_newline c) hend
      have hv := h v List.mem_cons_self indent fuel _ _ (by omega) hfront
        (noDigit_gap hback (noDigit_cons (u := 0x5D) (by decide) rest))
      simp only [List.append_assoc] at hv ⊢
      rw [hv, Option.bind_some]
      dsimp only
      rw [← List.append_assoc, skipSpace_gap hback, skipSpace_cons (by decide)]
      rfl
    | cons w elems =>
      rw [arrayContent_cons] at hfuel ⊢
      simp only [List.length_append, List.length_cons] at hfuel
      have hv := h v List.mem_cons_self indent fuel _ _ (by omega) hfront
        (noDigit_cons (u := 0x2C) (by decide)
          (newline c ++ (arrayContent c indent (w :: elems) ++ (gap' ++ 0x5D :: rest))))
      have hshort : (arrayContent c indent (w :: elems)).length + 1 < fuel := by omega
      have hrest := ih (List.cons_ne_nil w elems) (fun x hx => h x (List.mem_cons_of_mem v hx))
        hshort (isJsonSpace_newline c)
      simp only [List.append_assoc, List.cons_append] at hv ⊢
      rw [hv, Option.bind_some]
      dsimp only
      rw [skipSpace_cons (by decide)]
      exact congrArg (Option.map (fun p => (v :: p.1, p.2))) hrest

theorem objectContent_last (c : Bool) (indent : Nat) (m : QString × QJsonValue) :
    objectContent c indent [m] =
      indentation c indent ++ (escapedString m.1 ++ 0x3A :: ((if c then [] else [0x20]) ++
        (valueToJson c indent m.2 ++ newline c))) := by
  rw [objectContent, objectContent, List.isEmpty_nil, if_pos rfl, List.append_nil]
  simp only [List.append_assoc, List.cons_append, List.append_nil]

theorem objectContent_cons (c : Bool) (indent : Nat) (m n : QString × QJsonValue)
    (members : List (QString × QJsonValue)) :
    objectContent c indent (m :: n :: members) =
      indentation c indent ++ (escapedString m.1 ++ 0x3A :: ((if c then [] else [0x20]) ++
        (valueToJson c indent m.2 ++
          0x2C :: (newline c ++ objectContent c indent (n :: members))))) := by
  rw [objectContent, List.isEmpty_cons, if_neg Bool.false_ne_true]
  simp only [List.append_assoc, List.cons_append, List.nil_append]

theorem isJsonSpace_colon (c : Bool) :
    ∀ u ∈ (if c then [] else [0x20] : QString), isJsonSpace u = true := by
  cases c with
  | false => exact List.forall_mem_singleton.2 rfl
  | true => exact fun u hu => absurd hu List.not_mem_nil

theorem parseMembers_name (hgap : ∀ u ∈ gap, isJsonSpace u = true) (depth fuel : Nat)
    (key s : QString) :
    parseMembers depth (fuel + 1) (gap ++ (escapedString key ++ 0x3A :: s)) =
      (parseValue depth fuel s).bind (fun (v, rest) =>
        match skipSpace rest with
        | 0x2C :: rest =>
          (parseMembers depth fuel rest).map (fun (members, rest) => ((key, v) :: members, rest))
        | 0x7D :: rest => some ([(key, v)], rest)
        | _ => none) := by
  have hkey : escapedString key ++ 0x3A :: s =
      0x22 :: (key.flatMap escapedUnit ++ 0x22 :: 0x3A :: s) := by
    rw [escapedString, List.cons_append, List.cons_append, List.append_assoc]
    rfl
  rw [parseMembers, skipSpace_gap hgap, hkey, skipSpace_cons (by decide)]
  refine (congrArg (Option.bind · _) (parseString_escaped key (0x3A :: s))).trans ?_
  rw [Option.bind_some]
  dsimp only
  rw [skipSpace_cons (by decide)]
  rfl

theorem parseMembers_written {c : Bool} (hne : members ≠ [])
    (h : ∀ m ∈ members, Reads c depth m.2)
    (hfuel : (objectContent c indent members).length + 1 < fuel)
    (hgap : ∀ u ∈ gap, isJsonSpace u = true) (hend : ∀ u ∈ gap', isJsonSpace u = true)
    (rest : QString) :
    parseMembers depth fuel (gap ++ (objectContent c indent members ++ (gap' ++ 0x7D :: rest))) =
      some (members, rest) := by
  induction members generalizing fuel gap with
  | nil => exact absurd rfl hne
  | cons m members ih =>
    obtain ⟨fuel, rfl⟩ := Nat.exists_eq_add_of_lt (Nat.lt_of_le_of_lt (Nat.zero_le _) hfuel)
    have hfront := isJsonSpace_append hgap (isJsonSpace_indentation c indent)
    rw [Nat.zero_add]
    cases members with
    | nil =>
      rw [objectContent_last] at hfuel ⊢
      simp only [List.length_append, List.length_cons] at hfuel
      have hback := isJsonSpace_append (isJsonSpace_newline c) hend
      have hv := h m List.mem_cons_self indent fuel _ _ (by omega) (isJsonSpace_colon c)
        (noDigit_gap hback (noDigit_cons (u := 0x7D) (by decide) rest))
      have hname := parseMembers_name hfront depth fuel m.1
        ((if c then [] else [0x20]) ++ (valueToJson c indent m.2 ++ ((newline c ++ gap') ++
          0x7D :: rest)))
      rw [hv, Option.bind_some] at hname
      simp only [List.append_assoc, List.cons_append] at hname ⊢
      rw [hname, ← List.append_assoc, skipSpace_gap hback, skipSpace_cons (by decide)]
      rfl
    | cons n members =>
      rw [objectContent_cons] at hfuel ⊢
      simp only [List.length_append, List.length_cons] at hfuel
      have hv := h m List.mem_cons_self indent fuel _ _ (by omega) (isJsonSpace_colon c)
        (noDigit_cons (u := 0x2C) (by decide) (newline c ++
          (objectContent c indent (n :: members) ++ (gap' ++ 0x7D :: rest))))
      have hshort : (objectContent c indent (n :: members)).length + 1 < fuel := by omega
      have hrest := ih (List.cons_ne_nil n members) (fun x hx => h x (List.mem_cons_of_mem m hx))
        hshort (isJsonSpace_newline c)
      have hname := parseMembers_name hfront depth fuel m.1
        ((if c then [] else [0x20]) ++ (valueToJson c indent m.2 ++ 0x2C :: (newline c ++
          (objectContent c indent (n :: members) ++ (gap' ++ 0x7D :: rest)))))
      rw [hv, Option.bind_some] at hname
      simp only [List.append_assoc, List.cons_append] at hname hrest ⊢
      rw [hname, skipSpace_cons (by decide)]
      exact congrArg (Option.map (fun p => ((m.1, m.2) :: p.1, p.2))) hrest

theorem valueToJson_front (c : Bool) (indent : Nat) (h : QJsonValue.Stored (·.den = 1) depth v) :
    ∃ u s, valueToJson c indent v = u :: s ∧ isJsonSpace u = false ∧ u ≠ 0x5D := by
  cases h with
  | null => exact ⟨0x6E, _, rfl, by decide, by decide⟩
  | bool =>
    rename_i b
    cases b with
    | false => exact ⟨0x66, _, rfl, by decide, by decide⟩
    | true => exact ⟨0x74, _, rfl, by decide, by decide⟩
  | double hd =>
    obtain ⟨u, s, hs, hu⟩ := numberText_front _
    rw [valueToJson, ← (Rat.den_eq_one_iff _).1 hd, hs]
    exact ⟨u, s, rfl, hu.noSpace, hu.noEnd⟩
  | string => exact ⟨0x22, _, rfl, by decide, by decide⟩
  | array => exact ⟨0x5B, _, rfl, by decide, by decide⟩
  | object => exact ⟨0x7B, _, rfl, by decide, by decide⟩

theorem foldl_insert_sorted {members : QJsonObject} (h : (o ++ members).Sorted) :
    members.foldl (fun o m => QJsonObject.insert m.1 m.2 o) o = o ++ members := by
  induction members generalizing o with
  | nil => exact (List.append_nil o).symm
  | cons m members ih =>
    have hlast : ∀ n ∈ o, n.1 < m.1 := fun n hn =>
      (List.pairwise_append.1 h).2.2 n hn m List.mem_cons_self
    rw [List.foldl_cons, QJsonObject.insert_last hlast, ih, List.append_assoc]
    · rfl
    · rw [List.append_assoc]
      exact h

theorem parseValue_array (hgap : ∀ u ∈ gap, isJsonSpace u = true) (depth fuel : Nat)
    (s : QString) :
    parseValue (depth + 1) (fuel + 1) (gap ++ 0x5B :: s) =
      match skipSpace s with
      | 0x5D :: s => some (.array [], s)
      | _ => (parseElems depth fuel s).map (fun (elems, rest) => (.array elems, rest)) := by
  rw [parseValue, skipSpace_gap hgap, skipSpace_cons (by decide)]
  rfl

theorem parseValue_object (hgap : ∀ u ∈ gap, isJsonSpace u = true) (depth fuel : Nat)
    (s : QString) :
    parseValue (depth + 1) (fuel + 1) (gap ++ 0x7B :: s) =
      match skipSpace s with
      | 0x7D :: s => some (.object [], s)
      | _ => (parseMembers depth fuel s).map (fun (members, rest) =>
        (.object (members.foldl (fun o m => QJsonObject.insert m.1 m.2 o) []), rest)) := by
  rw [parseValue, skipSpace_gap hgap, skipSpace_cons (by decide)]
  rfl

theorem parseValue_string (hgap : ∀ u ∈ gap, isJsonSpace u = true) (depth fuel : Nat)
    (t rest : QString) :
    parseValue depth (fuel + 1) (gap ++ (escapedString t ++ rest)) = some (.string t, rest) := by
  have htext : escapedString t ++ rest = 0x22 :: (t.flatMap escapedUnit ++ 0x22 :: rest) := by
    rw [escapedString, List.cons_append, List.cons_append, List.append_assoc]
    rfl
  rw [parseValue, skipSpace_gap hgap, htext, skipSpace_cons (by decide)]
  exact congrArg (Option.map (fun p => (QJsonValue.string p.1, p.2))) (parseString_escaped t rest)

theorem parseValue_elems {c : Bool} (h : ∀ v ∈ elems, Reads c depth v)
    (hstored : ∀ v ∈ elems, v.Stored (·.den = 1) depth)
    (hfuel : (arrayContent c (indent + 1) elems).length + 1 < fuel)
    (hgap : ∀ u ∈ gap, isJsonSpace u = true) (rest : QString) :
    parseValue (depth + 1) (fuel + 1) (gap ++ 0x5B :: (newline c ++
      (arrayContent c (indent + 1) elems ++ (indentation c indent ++ 0x5D :: rest)))) =
      some (.array elems, rest) := by
  rw [parseValue_array hgap, skipSpace_gap (isJsonSpace_newline c)]
  cases elems with
  | nil =>
    rw [arrayContent, List.nil_append, skipSpace_gap (isJsonSpace_indentation c indent),
      skipSpace_cons (by decide)]
    rfl
  | cons v elems =>
    have hparse := parseElems_written (List.cons_ne_nil v elems) h hfuel
      (isJsonSpace_newline c) (isJsonSpace_indentation c indent) rest
    rw [hparse]
    obtain ⟨u, s, hs, hu, hne⟩ := valueToJson_front c (indent + 1) (hstored v List.mem_cons_self)
    rw [arrayContent, hs]
    simp only [List.append_assoc, List.cons_append]
    rw [skipSpace_gap (isJsonSpace_indentation c _), skipSpace_cons hu]
    split
    · rename_i he
      exact absurd (List.cons.inj he).1 hne
    · rfl

theorem parseValue_members {c : Bool} (hs : QJsonObject.Sorted members)
    (h : ∀ m ∈ members, Reads c depth m.2)
    (hfuel : (objectContent c (indent + 1) members).length + 1 < fuel)
    (hgap : ∀ u ∈ gap, isJsonSpace u = true) (rest : QString) :
    parseValue (depth + 1) (fuel + 1) (gap ++ 0x7B :: (newline c ++
      (objectContent c (indent + 1) members ++ (indentation c indent ++ 0x7D :: rest)))) =
      some (.object members, rest) := by
  rw [parseValue_object hgap, skipSpace_gap (isJsonSpace_newline c)]
  cases members with
  | nil =>
    rw [objectContent, List.nil_append, skipSpace_gap (isJsonSpace_indentation c indent),
      skipSpace_cons (by decide)]
    rfl
  | cons m members =>
    have hparse := parseMembers_written (List.cons_ne_nil m members) h hfuel
      (isJsonSpace_newline c) (isJsonSpace_indentation c indent) rest
    rw [hparse, objectContent, escapedString]
    simp only [List.append_assoc, List.cons_append]
    rw [skipSpace_gap (isJsonSpace_indentation c _), skipSpace_cons (by decide), Option.map_some]
    dsimp only
    rw [foldl_insert_sorted (o := []) hs]
    rfl

theorem reads_of_stored (c : Bool) (h : QJsonValue.Stored (·.den = 1) depth v) :
    Reads c depth v := by
  induction h with
  | null =>
    intro indent fuel gap rest hfuel hgap hrest
    obtain ⟨fuel, rfl⟩ := Nat.exists_eq_add_of_lt (Nat.lt_of_le_of_lt (Nat.zero_le _) hfuel)
    rw [Nat.zero_add]
    exact parseValue_word hgap (by constructor <;> decide) _ fuel _
  | bool =>
    rename_i b
    intro indent fuel gap rest hfuel hgap hrest
    obtain ⟨fuel, rfl⟩ := Nat.exists_eq_add_of_lt (Nat.lt_of_le_of_lt (Nat.zero_le _) hfuel)
    rw [Nat.zero_add]
    cases b with
    | false => exact parseValue_word hgap (by constructor <;> decide) _ fuel _
    | true => exact parseValue_word hgap (by constructor <;> decide) _ fuel _
  | @double d depth hd =>
    intro indent fuel gap rest hfuel hgap hrest
    obtain ⟨fuel, rfl⟩ := Nat.exists_eq_add_of_lt (Nat.lt_of_le_of_lt (Nat.zero_le _) hfuel)
    have hint : ((d.num : Int) : Rat) = d := (Rat.den_eq_one_iff d).1 hd
    obtain ⟨u, s, hs, hu⟩ := numberText_front d.num
    have hword := parseWord_number d.num hrest
    rw [hint] at hs hword
    rw [Nat.zero_add, valueToJson]
    rw [hs] at hword ⊢
    exact (parseValue_word hgap hu _ fuel _).trans hword
  | @string t depth =>
    intro indent fuel gap rest hfuel hgap hrest
    obtain ⟨fuel, rfl⟩ := Nat.exists_eq_add_of_lt (Nat.lt_of_le_of_lt (Nat.zero_le _) hfuel)
    rw [Nat.zero_add]
    exact parseValue_string hgap _ fuel _ rest
  | @array elems depth hstored ih =>
    intro indent fuel gap rest hfuel hgap hrest
    obtain ⟨fuel, rfl⟩ := Nat.exists_eq_add_of_lt (Nat.lt_of_le_of_lt (Nat.zero_le _) hfuel)
    rw [valueToJson] at hfuel ⊢
    simp only [List.length_append, List.length_cons, List.length_nil] at hfuel
    have hshort : (arrayContent c (indent + 1) elems).length + 1 < fuel := by omega
    have hparse := parseValue_elems ih hstored hshort hgap rest
    simp only [List.append_assoc, List.cons_append, List.nil_append, Nat.zero_add] at hparse ⊢
    exact hparse
  | @object members depth hs hstored ih =>
    intro indent fuel gap rest hfuel hgap hrest
    obtain ⟨fuel, rfl⟩ := Nat.exists_eq_add_of_lt (Nat.lt_of_le_of_lt (Nat.zero_le _) hfuel)
    rw [valueToJson] at hfuel ⊢
    simp only [List.length_append, List.length_cons, List.length_nil] at hfuel
    have hshort : (objectContent c (indent + 1) members).length + 1 < fuel := by omega
    have hparse := parseValue_members hs ih hshort hgap rest
    simp only [List.append_assoc, List.cons_append, List.nil_append, Nat.zero_add] at hparse ⊢
    exact hparse

end Values

section Parsed

theorem parseWord_stored (h : parseWord s = some (v, rest)) :
    QJsonValue.Stored (·.den = 1) depth v := by
  rw [parseWord] at h
  split at h
  · obtain ⟨rfl, _⟩ := Prod.mk.inj (Option.some.inj h)
    exact .null
  split at h
  · obtain ⟨rfl, _⟩ := Prod.mk.inj (Option.some.inj h)
    exact .bool
  split at h
  · obtain ⟨rfl, _⟩ := Prod.mk.inj (Option.some.inj h)
    exact .bool
  generalize (s.head? == some 0x2D) = negative at h
  dsimp only at h
  generalize (if negative = true then s.drop 1 else s) = t at h
  split at h
  · exact absurd h (Option.some_ne_none _).symm
  · obtain ⟨n, _, he⟩ := Option.map_eq_some_iff.1 h
    obtain ⟨rfl, _⟩ := Prod.mk.inj he
    exact .double (Rat.den_intCast _)

theorem sorted_foldl (members : List (QString × QJsonValue)) (h : QJsonObject.Sorted o) :
    (members.foldl (fun o m => QJsonObject.insert m.1 m.2 o) o).Sorted := by
  induction members generalizing o with
  | nil => exact h
  | cons m members ih => exact ih (h.insert _ _)

theorem mem_foldl_insert {members : List (QString × QJsonValue)}
    (h : m ∈ members.foldl (fun o m => QJsonObject.insert m.1 m.2 o) o) : m ∈ members ∨ m ∈ o := by
  induction members generalizing o with
  | nil => exact .inr h
  | cons n members ih =>
    rcases ih h with hm | hm
    · exact .inl (List.mem_cons_of_mem n hm)
    · rcases QJsonObject.mem_insert hm with rfl | hm
      · exact .inl List.mem_cons_self
      · exact .inr hm

theorem parse_stored (fuel : Nat) :
    (∀ depth s v rest, parseValue depth fuel s = some (v, rest) →
      QJsonValue.Stored (·.den = 1) depth v) ∧
    (∀ depth s elems rest, parseElems depth fuel s = some (elems, rest) →
      ∀ v ∈ elems, QJsonValue.Stored (·.den = 1) depth v) ∧
    (∀ depth s members rest, parseMembers depth fuel s = some (members, rest) →
      ∀ m ∈ members, QJsonValue.Stored (·.den = 1) depth m.2) := by
  induction fuel with
  | zero =>
    refine ⟨fun depth s v rest h => ?_, fun depth s elems rest h => ?_,
      fun depth s members rest h => ?_⟩
    · rw [parseValue] at h
      exact absurd h (Option.some_ne_none _).symm
    · rw [parseElems] at h
      exact absurd h (Option.some_ne_none _).symm
    · rw [parseMembers] at h
      exact absurd h (Option.some_ne_none _).symm
  | succ fuel ih =>
    obtain ⟨ihValue, ihElems, ihMembers⟩ := ih
    refine ⟨fun depth s v rest h => ?_, fun depth s elems rest h => ?_,
      fun depth s members rest h => ?_⟩
    · rw [parseValue] at h
      split at h
      · split at h
        · exact absurd h (Option.some_ne_none _).symm
        · split at h
          · obtain ⟨rfl, _⟩ := Prod.mk.inj (Option.some.inj h)
            exact .array (fun v hv => absurd hv List.not_mem_nil)
          · obtain ⟨p, hp, he⟩ := Option.map_eq_some_iff.1 h
            obtain ⟨rfl, _⟩ := Prod.mk.inj he
            exact .array (ihElems _ _ _ _ hp)
      · split at h
        · exact absurd h (Option.some_ne_none _).symm
        · split at h
          · obtain ⟨rfl, _⟩ := Prod.mk.inj (Option.some.inj h)
            exact .object .nil (fun v hv => absurd hv List.not_mem_nil)
          · obtain ⟨p, hp, he⟩ := Option.map_eq_some_iff.1 h
            obtain ⟨rfl, _⟩ := Prod.mk.inj he
            refine .object (sorted_foldl _ .nil) (fun m hm => ?_)
            rcases mem_foldl_insert hm with hm | hm
            · exact ihMembers _ _ _ _ hp m hm
            · exact absurd hm List.not_mem_nil
      · obtain ⟨p, _, he⟩ := Option.map_eq_some_iff.1 h
        obtain ⟨rfl, _⟩ := Prod.mk.inj he
        exact .string
      · exact parseWord_stored h
    · rw [parseElems] at h
      obtain ⟨⟨v, t⟩, hv, h⟩ := Option.bind_eq_some_iff.1 h
      dsimp only at h
      split at h
      · obtain ⟨p, hp, he⟩ := Option.map_eq_some_iff.1 h
        obtain ⟨rfl, _⟩ := Prod.mk.inj he
        exact List.forall_mem_cons.2 ⟨ihValue _ _ _ _ hv, ihElems _ _ _ _ hp⟩
      · obtain ⟨rfl, _⟩ := Prod.mk.inj (Option.some.inj h)
        exact List.forall_mem_cons.2
          ⟨ihValue _ _ _ _ hv, fun v hv => absurd hv List.not_mem_nil⟩
      · exact absurd h (Option.some_ne_none _).symm
    · rw [parseMembers] at h
      split at h
      · obtain ⟨⟨key, t⟩, _, h⟩ := Option.bind_eq_some_iff.1 h
        dsimp only at h
        split at h
        · obtain ⟨⟨v, t⟩, hv, h⟩ := Option.bind_eq_some_iff.1 h
          dsimp only at h
          split at h
          · obtain ⟨p, hp, he⟩ := Option.map_eq_some_iff.1 h
            obtain ⟨rfl, _⟩ := Prod.mk.inj he
            exact List.forall_mem_cons.2 ⟨ihValue _ _ _ _ hv, ihMembers _ _ _ _ hp⟩
          · obtain ⟨rfl, _⟩ := Prod.mk.inj (Option.some.inj h)
            exact List.forall_mem_cons.2
              ⟨ihValue _ _ _ _ hv, fun v hv => absurd hv List.not_mem_nil⟩
          · exact absurd h (Option.some_ne_none _).symm
        · exact absurd h (Option.some_ne_none _).symm
      · exact absurd h (Option.some_ne_none _).symm

theorem fromJson_stored (h : fromJson s = some v) :
    v.isDocument = true ∧ v.Stored (·.den = 1) kNestingLimit := by
  rw [fromJson] at h
  split at h
  · rw [parseDocument] at h
    split at h
    · rename_i hp
      split at h
      · rename_i hd
        rw [← Option.some.inj h]
        exact ⟨(Bool.and_eq_true_iff.1 hd).2, (parse_stored _).1 _ _ _ _ hp⟩
      · exact absurd h (Option.some_ne_none _).symm
    · exact absurd h (Option.some_ne_none _).symm
  · exact absurd h (Option.some_ne_none _).symm

end Parsed

section Written

/-- No half of a pair, and in the compact layout no control character. -/
def Printed (c : Bool) (u : UInt16) : Prop := (u < 0xD800 ∨ 0xE000 ≤ u) ∧ (c = true → 0x20 ≤ u)

instance (c : Bool) (u : UInt16) : Decidable (Printed c u) := inferInstanceAs (Decidable (_ ∧ _))

theorem Printed.of_range (h : 0x20 ≤ u) (h' : u < 0xD800) (c : Bool) : Printed c u :=
  ⟨.inl h', fun _ => h⟩

theorem printed_hexChar (h : d < 16) (c : Bool) : Printed c (hexChar d) := by
  have hall : ∀ d < 16, 0x20 ≤ hexChar d ∧ hexChar d < 0xD800 := by decide
  exact .of_range (hall d h).1 (hall d h).2 c

theorem printed_escapedUnit (c : Bool) (u : UInt16) : ∀ v ∈ escapedUnit u, Printed c v := by
  intro v hv
  rw [escapedUnit] at hv
  split at hv
  · rename_i letter hl
    have hall : ∀ e ∈ shortEscapes, 0x20 ≤ e.2 ∧ e.2 < 0xD800 := forall_mem_of_all (by decide)
    obtain ⟨before, behind, hs, _⟩ := List.lookup_eq_some_iff.1 hl
    have hletter := hall (u, letter) (hs ▸ List.mem_append_right _ List.mem_cons_self)
    simp only [List.mem_cons, List.not_mem_nil, or_false] at hv
    rcases hv with rfl | rfl
    · exact .of_range (by decide) (by decide) c
    · exact .of_range hletter.1 hletter.2 c
  · have hu := u.toNat_lt
    split at hv
    · simp only [List.mem_cons, List.not_mem_nil, or_false] at hv
      rcases hv with rfl | rfl | rfl | rfl | rfl | rfl
      · exact .of_range (by decide) (by decide) c
      · exact .of_range (by decide) (by decide) c
      · exact printed_hexChar (by omega) c
      · exact printed_hexChar (by omega) c
      · exact printed_hexChar (by omega) c
      · exact printed_hexChar (by omega) c
    · rename_i hplain
      rw [List.mem_singleton.1 hv]
      simp only [Bool.or_eq_true, Bool.and_eq_true, decide_eq_true_eq, not_or, not_and_or,
        UInt16.not_lt, UInt16.not_le] at hplain
      exact ⟨hplain.2, fun _ => hplain.1⟩

theorem printed_append {a b : QString} (ha : ∀ u ∈ a, Printed c u) (hb : ∀ u ∈ b, Printed c u) :
    ∀ u ∈ a ++ b, Printed c u :=
  fun u hu => (List.mem_append.1 hu).elim (ha u) (hb u)

theorem printed_literal {s : QString} (h : s.all (fun u => 0x20 ≤ u && u < 0xD800) = true)
    (c : Bool) : ∀ u ∈ s, Printed c u := by
  intro u hu
  have hall := List.all_eq_true.1 h u hu
  rw [Bool.and_eq_true, decide_eq_true_eq, decide_eq_true_eq] at hall
  exact .of_range hall.1 hall.2 c

theorem printed_escapedString (c : Bool) (s : QString) : ∀ u ∈ escapedString s, Printed c u := by
  refine printed_append (a := 0x22 :: s.flatMap escapedUnit) ?_ (printed_literal (by decide) c)
  refine List.forall_mem_cons.2 ⟨.of_range (by decide) (by decide) c, fun u hu => ?_⟩
  obtain ⟨v, _, hv⟩ := List.mem_flatMap.1 hu
  exact printed_escapedUnit c v u hv

theorem printed_numberText (c : Bool) (d : Rat) : ∀ u ∈ numberText d, Printed c u := by
  have hdigit (u : UInt16) (hu : isDigit u = true) : Printed c u := by
    rw [isDigit, Bool.and_eq_true, decide_eq_true_eq, decide_eq_true_eq] at hu
    exact .of_range (UInt16.le_trans (by decide) hu.1) (UInt16.lt_of_le_of_lt hu.2 (by decide)) c
  intro u hu
  rw [numberText] at hu
  cases hn : d.num with
  | ofNat n =>
    rw [hn] at hu
    exact hdigit u ((isNumeral_iff.1 (number_numeral n).1).2 u hu)
  | negSucc n =>
    rw [hn] at hu
    rcases List.mem_cons.1 hu with rfl | hu
    · exact .of_range (by decide) (by decide) c
    · exact hdigit u (isDigit_decimalDigits _ u hu)

theorem printed_newline (c : Bool) : ∀ u ∈ newline c, Printed c u := by
  cases c with
  | false => exact List.forall_mem_singleton.2 (by decide)
  | true => exact fun u hu => absurd hu List.not_mem_nil

theorem printed_indentation (c : Bool) (indent : Nat) :
    ∀ u ∈ indentation c indent, Printed c u := by
  intro u hu
  cases c with
  | true => exact absurd hu List.not_mem_nil
  | false =>
    rw [List.eq_of_mem_replicate hu]
    decide

mutual

theorem printed_value (c : Bool) (indent : Nat) (v : QJsonValue) :
    ∀ u ∈ valueToJson c indent v, Printed c u := by
  match v with
  | .null =>
    rw [valueToJson]
    exact printed_literal (by decide) c
  | .undefined =>
    rw [valueToJson]
    exact printed_literal (by decide) c
  | .bool true =>
    rw [valueToJson]
    exact printed_literal (by decide) c
  | .bool false =>
    rw [valueToJson]
    exact printed_literal (by decide) c
  | .double d => exact printed_numberText c d
  | .string s => exact printed_escapedString c s
  | .array elems =>
    rw [valueToJson]
    refine printed_append (printed_append (printed_append (a := [0x5B] ++ newline c)
      (printed_append (printed_literal (by decide) c) (printed_newline c)) ?_)
      (printed_indentation c indent)) (printed_literal (by decide) c)
    exact printed_array c (indent + 1) elems
  | .object members =>
    rw [valueToJson]
    refine printed_append (printed_append (printed_append (a := [0x7B] ++ newline c)
      (printed_append (printed_literal (by decide) c) (printed_newline c)) ?_)
      (printed_indentation c indent)) (printed_literal (by decide) c)
    exact printed_object c (indent + 1) members

theorem printed_array (c : Bool) (indent : Nat) (elems : List QJsonValue) :
    ∀ u ∈ arrayContent c indent elems, Printed c u := by
  match elems with
  | [] => exact fun u hu => absurd hu List.not_mem_nil
  | v :: elems =>
    rw [arrayContent]
    refine printed_append (printed_append (printed_append (printed_append
      (printed_indentation c indent) (printed_value c indent v)) ?_) (printed_newline c))
      (printed_array c indent elems)
    split
    · exact fun u hu => absurd hu List.not_mem_nil
    · exact printed_literal (by decide) c

theorem printed_object (c : Bool) (indent : Nat) (members : List (QString × QJsonValue)) :
    ∀ u ∈ objectContent c indent members, Printed c u := by
  match members with
  | [] => exact fun u hu => absurd hu List.not_mem_nil
  | m :: members =>
    rw [objectContent]
    refine printed_append (printed_append (printed_append (printed_append (printed_append
      (printed_append (printed_indentation c indent) (printed_escapedString c m.1)) ?_)
      (printed_value c indent m.2)) ?_) (printed_newline c)) (printed_object c indent members)
    · cases c with
      | false => exact printed_literal (by decide) false
      | true => exact printed_literal (by decide) true
    · split
      · exact fun u hu => absurd hu List.not_mem_nil
      · exact printed_literal (by decide) c

end

theorem wellFormed_printed {s : QString} (h : ∀ u ∈ s, Printed c u) : wellFormed s = true := by
  induction s with
  | nil => rfl
  | cons u s ih =>
    have hu := (h u List.mem_cons_self).1
    have hs := ih (fun v hv => h v (List.mem_cons_of_mem u hv))
    simp only [UInt16.lt_iff_toNat_lt, UInt16.le_iff_toNat_le, UInt16.reduceToNat] at hu
    have hhigh : isHighSurrogate u.toNat = false := by
      simp only [isHighSurrogate, Bool.and_eq_false_iff, decide_eq_false_iff_not]
      omega
    have hlow : isLowSurrogate u.toNat = false := by
      simp only [isLowSurrogate, Bool.and_eq_false_iff, decide_eq_false_iff_not]
      omega
    rw [wellFormed, List.map_cons, wellFormedUnits.eq_def]
    dsimp only
    rw [hhigh, hlow]
    exact hs

theorem toUtf8_printed {s : QString} (h : ∀ u ∈ s, 0x20 ≤ u) : ∀ b ∈ toUtf8 s, 0x20 ≤ b := by
  intro b hb
  obtain ⟨n, hn, rfl⟩ := List.mem_map.1 hb
  have hlt := encodeUnits_lt s hn
  obtain ⟨m, hm, rest, hmem⟩ := mem_unfoldFrom hn
  obtain ⟨u, hu, rfl⟩ := List.mem_map.1 hm
  have hprinted := UInt16.le_iff_toNat_le.1 (h u hu)
  have hle : 0x20 ≤ n := by
    by_contra hlow
    have he := (encodeUnit_ascii hmem (by omega) (by omega)).1
    rw [he] at hprinted
    exact hlow hprinted
  rw [UInt8.le_iff_toNat_le, UInt8.toNat_ofNat_of_lt' hlt]
  exact hle

theorem toUtf8_cons_ascii {u : UInt16} (hu : u < 0x80) (s : QString) :
    toUtf8 (u :: s) = u.toUInt8 :: toUtf8 s := toUtf8_append hu [] s

theorem valueToJson_document (c : Bool) (h : v.isDocument = true) :
    ∃ s, valueToJson c 0 v = 0x5B :: s ∨ valueToJson c 0 v = 0x7B :: s := by
  cases v with
  | array elems => exact ⟨_, .inl rfl⟩
  | object members => exact ⟨_, .inr rfl⟩
  | _ => exact absurd h Bool.false_ne_true

theorem fromJson_text (h : v.isDocument = true) (hv : v.Stored (·.den = 1) kNestingLimit)
    (c : Bool) (hgap : ∀ u ∈ gap, isJsonSpace u = true) (hwell : ∀ u ∈ gap, Printed false u) :
    fromJson (toUtf8 (valueToJson c 0 v ++ gap)) = some v := by
  have hlen : (valueToJson c 0 v).length < (valueToJson c 0 v ++ gap).length + 1 := by
    rw [List.length_append]
    omega
  have hdigit : NoDigit gap := by
    have hnil : NoDigit [] := fun u hu => absurd hu (Option.some_ne_none u).symm
    have happend := noDigit_gap hgap hnil
    rwa [List.append_nil] at happend
  have hparse := reads_of_stored c hv 0 _ [] gap hlen (fun u hu => absurd hu List.not_mem_nil)
    hdigit
  have hprinted : ∀ u ∈ valueToJson c 0 v ++ gap, Printed false u := by
    intro u hu
    rcases List.mem_append.1 hu with hu | hu
    · exact ⟨(printed_value c 0 v u hu).1, fun he => absurd he Bool.false_ne_true⟩
    · exact hwell u hu
  have htext : QString.fromUtf8 (toUtf8 (valueToJson c 0 v ++ gap)) = valueToJson c 0 v ++ gap := by
    have hbom : [0xEF, 0xBB, 0xBF].isPrefixOf (toUtf8 (valueToJson c 0 v ++ gap)) = false := by
      obtain ⟨s, hs | hs⟩ := valueToJson_document c h
      · rw [hs, List.cons_append, toUtf8_cons_ascii (by decide)]
        rfl
      · rw [hs, List.cons_append, toUtf8_cons_ascii (by decide)]
        rfl
    rw [QString.fromUtf8, hbom, if_neg Bool.false_ne_true,
      fromUtf8_toUtf8 (wellFormed_printed hprinted)]
  have hskip : skipSpace gap = [] := by
    have happend := skipSpace_gap hgap []
    rwa [List.append_nil] at happend
  rw [List.nil_append] at hparse
  rw [fromJson, htext, if_pos (.inl rfl), parseDocument, hparse]
  dsimp only
  rw [hskip, h]
  rfl

end Written

def textLibrary : JsonLibrary where
  fromJson := fromJson
  compact := compact
  indented := indented
  Exact d := d.den = 1
  exact_int n _ _ := Rat.den_intCast n
  read_stored s v h := fromJson_stored h
  read_compact v h hv := by
    have hnone (P : UInt16 → Prop) : ∀ u ∈ ([] : QString), P u := fun u hu =>
      absurd hu List.not_mem_nil
    have htext := fromJson_text h hv true (hnone _) (hnone _)
    rwa [List.append_nil] at htext
  read_indented v h hv := fromJson_text h hv false (List.forall_mem_singleton.2 rfl)
    (List.forall_mem_singleton.2 (by decide))
  compact_text v :=
    congrArg toUtf8 (fromUtf8_toUtf8 (wellFormed_printed (printed_value true 0 v)))
  compact_line v := toUtf8_printed (fun u hu => (printed_value true 0 v u hu).2 rfl)
  compact_object o := by
    refine ⟨toUtf8 (objectContent true 1 o), ?_⟩
    have htext : valueToJson true 0 (.object o) = 0x7B :: (objectContent true 1 o ++ [0x7D]) := by
      rw [valueToJson, newline, indentation, if_pos rfl, if_pos rfl]
      simp only [List.append_assoc, List.cons_append, List.nil_append, Nat.zero_add]
    rw [compact, htext, toUtf8_cons_ascii (by decide), toUtf8_append (by decide)]
    rfl
  compact_array a := by
    have htext : ∃ s, valueToJson true 0 (.array a) = 0x5B :: s := ⟨_, rfl⟩
    obtain ⟨s, hs⟩ := htext
    rw [compact, hs, toUtf8_cons_ascii (by decide)]
    exact ⟨_, rfl⟩

end Nullock.JsonText

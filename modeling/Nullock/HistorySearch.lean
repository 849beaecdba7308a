import Nullock.JsonDocuments
import Mathlib.Algebra.Order.Floor.Ring
import Mathlib.Data.Rat.Floor
import Mathlib.Data.List.Infix

namespace Nullock.HistoryLogic

def kFindLimitDefault : Int := 200
def kFindLimitMax : Int := 5000

inductive QVariant where
  | text (s : QString)
  | number (n : Int)

structure FindQuery where
  sql : QString
  binds : List QVariant

def asciiUpper (s : QString) : QString :=
  s.map (fun c => if 0x61 ≤ c ∧ c ≤ 0x7A then c - 0x20 else c)

def nearestDouble (n : Int) : Int :=
  let m := n.natAbs
  let unit := 2 ^ (m.log2 - 52)
  let kept := m / unit
  let rest := m % unit
  let rounded := if unit < 2 * rest ∨ (unit = 2 * rest ∧ kept % 2 = 1) then kept + 1 else kept
  n.sign * (rounded * unit : Nat)

/-- A number as `toDouble` gives it: integers of 64 bits are stored as such. -/
def asDouble (x : Rat) : Rat :=
  if x.den = 1 ∧ -2 ^ 63 ≤ x.num ∧ x.num < 2 ^ 63 then nearestDouble x.num else x

def truncated (x : Rat) : Int := if 0 ≤ x then ⌊x⌋ else ⌈x⌉

def readInt64 (f : QJsonObject) (key : String) : Option Int :=
  match f.value key with
  | .double x =>
    let d := asDouble x
    if d < -2 ^ 63 ∨ 2 ^ 63 ≤ d then none else some (truncated d)
  | _ => none

structure Building where
  sql : QString
  binds : List QVariant := []
  ignored : List QString := []

def addNumeric (filters : QJsonObject) (key clause : String) (asInt : Bool) (out : Building) :
    Building :=
  if !filters.contains key then out
  else
    match readInt64 filters key with
    | none => { out with ignored := out.ignored ++ [utf16 key] }
    | some n => { out with
        sql := out.sql ++ utf16 clause
        binds := out.binds ++ [.number (if asInt then Int.bmod n (2 ^ 32) else n)] }

def addText (filters : QJsonObject) (key clause : String) (bound : QString → QString)
    (out : Building) : Building :=
  if filters.contains key then { out with
    sql := out.sql ++ utf16 clause
    binds := out.binds ++ [.text (bound (filters.value key).toQString)] }
  else out

def findLimit (filters : QJsonObject) : Int :=
  let limit := (filters.value "limit").toInt kFindLimitDefault
  let limit := if limit ≤ 0 then kFindLimitDefault else limit
  if kFindLimitMax < limit then kFindLimitMax else limit

def kSelect : String :=
  "SELECT id, ts, method, host, port, path, status, size, tls, mime FROM rows WHERE 1=1"

def buildFindQuery (filters : QJsonObject) : FindQuery × List QString :=
  let out : Building := { sql := utf16 kSelect }
  let out := addText filters "method" " AND UPPER(method) = ?" asciiUpper out
  let out := addText filters "host" " AND host LIKE ?" id out
  let out := addText filters "path" " AND path LIKE ?" id out
  let out := addNumeric filters "status" " AND status = ?" true out
  let out := addNumeric filters "minSize" " AND size >= ?" false out
  let out := addNumeric filters "maxSize" " AND size <= ?" false out
  let out := addNumeric filters "sinceMs" " AND ts >= ?" false out
  (⟨out.sql ++ utf16 " ORDER BY id DESC" ++ utf16 " LIMIT ?",
    out.binds ++ [.number (findLimit filters)]⟩, out.ignored)

structure Row where
  id : Int
  ts : Int := 0
  method : QString := []
  host : QString := []
  port : Int := 0
  path : QString := []
  status : Int := 0
  size : Int := 0
  tls : Int := 0
  mime : QString := []

section Sqlite

/-- `LIKE`, ASCII case ignored; `%` is any text, `_` one character. -/
def like : QString → QString → Bool
  | [], s => s.isEmpty
  | c :: pattern, s =>
    if c = 0x25 then s.tails.any (like pattern)
    else
      match s with
      | [] => false
      | d :: s =>
        if c = 0x5F then
          if isHighSurrogate d.toNat && (s.head?.any (fun e => isLowSurrogate e.toNat)) then
            like pattern s.tail
          else like pattern s
        else asciiUpper [c] == asciiUpper [d] && like pattern s

structure Clause where
  text : QString
  holds : QVariant → Row → Bool

def textClause (text : String) (holds : QString → Row → Bool) : Clause where
  text := utf16 text
  holds
    | .text s, row => holds s row
    | .number _, _ => false

def numberClause (text : String) (holds : Int → Row → Bool) : Clause where
  text := utf16 text
  holds
    | .text _, _ => false
    | .number n, row => holds n row

def methodClause : Clause :=
  textClause " AND UPPER(method) = ?" (fun s row => asciiUpper row.method == s)
def hostClause : Clause := textClause " AND host LIKE ?" (fun s row => like s row.host)
def pathClause : Clause := textClause " AND path LIKE ?" (fun s row => like s row.path)
def statusClause : Clause := numberClause " AND status = ?" (fun n row => row.status = n)
def minSizeClause : Clause := numberClause " AND size >= ?" (fun n row => n ≤ row.size)
def maxSizeClause : Clause := numberClause " AND size <= ?" (fun n row => row.size ≤ n)
def sinceClause : Clause := numberClause " AND ts >= ?" (fun n row => n ≤ row.ts)

def clauses : List Clause :=
  [methodClause, hostClause, pathClause, statusClause, minSizeClause, maxSizeClause, sinceClause]

/-- The comparisons at the front of a text, each with the next bound value. -/
def readClauses : List QVariant → QString → List (Row → Bool) × List QVariant × QString
  | [], s => ([], [], s)
  | v :: binds, s =>
    match clauses.find? (fun c => c.text.isPrefixOf s) with
    | none => ([], v :: binds, s)
    | some c =>
      let (conditions, rest) := readClauses binds (s.drop c.text.length)
      (c.holds v :: conditions, rest)

def newestFirst (rows : List Row) : List Row := rows.mergeSort (fun a b => b.id ≤ a.id)

/-- The rows that a query selects, as far as its text is one of those that are built. -/
def execute (q : FindQuery) (rows : List Row) : Option (List Row) :=
  if (utf16 kSelect).isPrefixOf q.sql then
    match readClauses q.binds (q.sql.drop (utf16 kSelect).length) with
    | (conditions, [.number limit], rest) =>
      if rest = utf16 " ORDER BY id DESC LIMIT ?" then
        some ((newestFirst (rows.filter (fun row => conditions.all (· row)))).take limit.toNat)
      else none
    | _ => none
  else none

end Sqlite

section Shape

def textPart (filters : QJsonObject) (key : String) (c : Clause) (bound : QString → QString) :
    List (Clause × QVariant) :=
  if filters.contains key then [(c, .text (bound (filters.value key).toQString))] else []

def numberPart (filters : QJsonObject) (key : String) (c : Clause) (asInt : Bool) :
    List (Clause × QVariant) :=
  ((readInt64 filters key).map (fun n =>
    (c, QVariant.number (if asInt then Int.bmod n (2 ^ 32) else n)))).toList

def queryParts (filters : QJsonObject) : List (Clause × QVariant) :=
  textPart filters "method" methodClause asciiUpper ++ textPart filters "host" hostClause id ++
    textPart filters "path" pathClause id ++ numberPart filters "status" statusClause true ++
    numberPart filters "minSize" minSizeClause false ++
    numberPart filters "maxSize" maxSizeClause false ++
    numberPart filters "sinceMs" sinceClause false

def Building.Holds (out : Building) (parts : List (Clause × QVariant)) : Prop :=
  out.sql = utf16 kSelect ++ parts.flatMap (fun p => p.1.text) ∧ out.binds = parts.map Prod.snd

theorem holds_text {out : Building} (h : out.Holds parts) (filters : QJsonObject)
    (key clause : String) (hc : utf16 clause = c.text) (bound : QString → QString) :
    (addText filters key clause bound out).Holds (parts ++ textPart filters key c bound) := by
  rw [addText, textPart]
  split
  · refine ⟨?_, ?_⟩
    · rw [h.1, List.flatMap_append, List.append_assoc, List.flatMap_singleton, hc]
    · rw [h.2, List.map_append]
      rfl
  · rw [List.append_nil]
    exact h

theorem readInt64_contains {filters : QJsonObject} (h : filters.contains key = false) :
    readInt64 filters key = none := by
  have hvalue : filters.value key = .undefined := by
    rw [QJsonObject.value, Option.isSome_eq_false_iff.1 h |> Option.isNone_iff_eq_none.1]
    rfl
  rw [readInt64, hvalue]

theorem holds_number {out : Building} (h : out.Holds parts) (filters : QJsonObject)
    (key clause : String) (hc : utf16 clause = c.text) (asInt : Bool) :
    (addNumeric filters key clause asInt out).Holds
      (parts ++ numberPart filters key c asInt) := by
  rw [addNumeric, numberPart]
  cases hkey : filters.contains key with
  | false =>
    rw [readInt64_contains hkey]
    refine ⟨?_, ?_⟩
    · rw [Option.map_none, Option.toList_none, List.append_nil]
      exact h.1
    · rw [Option.map_none, Option.toList_none, List.append_nil]
      exact h.2
  | true =>
    rw [Bool.not_true, if_neg Bool.false_ne_true]
    cases readInt64 filters key with
    | none =>
      rw [Option.map_none, Option.toList_none, List.append_nil]
      exact h
    | some n =>
      refine ⟨?_, ?_⟩
      · rw [Option.map_some, Option.toList_some, List.flatMap_append, List.flatMap_singleton,
          ← List.append_assoc, ← h.1, ← hc]
      · rw [Option.map_some, Option.toList_some, List.map_append, ← h.2]
        rfl

theorem buildFindQuery_parts (filters : QJsonObject) :
    (buildFindQuery filters).1.sql = utf16 kSelect ++
        ((queryParts filters).flatMap (fun p => p.1.text) ++ utf16 " ORDER BY id DESC LIMIT ?") ∧
      (buildFindQuery filters).1.binds =
        (queryParts filters).map Prod.snd ++ [.number (findLimit filters)] := by
  have hstart : (Building.mk (utf16 kSelect) [] []).Holds [] := ⟨(List.append_nil _).symm, rfl⟩
  have hmethod := holds_text (c := methodClause) hstart filters "method" _ rfl asciiUpper
  have hhost := holds_text (c := hostClause) hmethod filters "host" _ rfl id
  have hpath := holds_text (c := pathClause) hhost filters "path" _ rfl id
  have hstatus := holds_number (c := statusClause) hpath filters "status" _ rfl true
  have hmin := holds_number (c := minSizeClause) hstatus filters "minSize" _ rfl false
  have hmax := holds_number (c := maxSizeClause) hmin filters "maxSize" _ rfl false
  obtain ⟨hsql, hbinds⟩ := holds_number (c := sinceClause) hmax filters "sinceMs" _ rfl false
  refine ⟨?_, ?_⟩
  · rw [buildFindQuery]
    dsimp only
    rw [hsql, List.append_assoc, List.append_assoc]
    rfl
  · rw [buildFindQuery]
    dsimp only
    rw [hbinds]
    rfl

theorem clauses_read (h : c ∈ clauses) (v : QVariant) (binds : List QVariant) (s : QString) :
    readClauses (v :: binds) (c.text ++ s) =
      (c.holds v :: (readClauses binds s).1, (readClauses binds s).2) := by
  have hfind : clauses.find? (fun d => d.text.isPrefixOf (c.text ++ s)) = some c := by
    simp only [clauses, List.mem_cons, List.not_mem_nil, or_false] at h
    rcases h with rfl | rfl | rfl | rfl | rfl | rfl | rfl
    · rfl
    · rfl
    · rfl
    · rfl
    · rfl
    · rfl
    · rfl
  rw [readClauses, hfind]
  dsimp only
  rw [List.drop_left]

theorem parts_read (parts : List (Clause × QVariant)) (h : ∀ p ∈ parts, p.1 ∈ clauses)
    (binds : List QVariant) (s : QString) :
    readClauses (parts.map Prod.snd ++ binds) (parts.flatMap (fun p => p.1.text) ++ s) =
      (parts.map (fun p => p.1.holds p.2) ++ (readClauses binds s).1, (readClauses binds s).2) := by
  induction parts with
  | nil => rfl
  | cons p parts ih =>
    rw [List.forall_mem_cons] at h
    rw [List.map_cons, List.cons_append, List.flatMap_cons, List.append_assoc, clauses_read h.1,
      ih h.2]
    rfl

theorem mem_queryParts (h : p ∈ queryParts filters) : p.1 ∈ clauses := by
  have htext {key : String} {c : Clause} {bound : QString → QString}
      (hp : p ∈ textPart filters key c bound) : p.1 = c := by
    rw [textPart] at hp
    split at hp
    · rw [List.mem_singleton.1 hp]
    · cases hp
  have hnumber {key : String} {c : Clause} {asInt : Bool}
      (hp : p ∈ numberPart filters key c asInt) : p.1 = c := by
    rw [numberPart, Option.mem_toList, Option.map_eq_some_iff] at hp
    obtain ⟨n, -, rfl⟩ := hp
    rfl
  simp only [queryParts, List.mem_append] at h
  rcases h with (((((h | h) | h) | h) | h) | h) | h
  · rw [htext h]
    exact .head _
  · rw [htext h]
    exact .tail _ (.head _)
  · rw [htext h]
    exact .tail _ (.tail _ (.head _))
  · rw [hnumber h]
    exact .tail _ (.tail _ (.tail _ (.head _)))
  · rw [hnumber h]
    exact .tail _ (.tail _ (.tail _ (.tail _ (.head _))))
  · rw [hnumber h]
    exact .tail _ (.tail _ (.tail _ (.tail _ (.tail _ (.head _)))))
  · rw [hnumber h]
    exact .tail _ (.tail _ (.tail _ (.tail _ (.tail _ (.tail _ (.head _))))))

theorem execute_built (filters : QJsonObject) (rows : List Row) :
    execute (buildFindQuery filters).1 rows = some ((newestFirst (rows.filter (fun row =>
      (queryParts filters).all (fun p => p.1.holds p.2 row)))).take (findLimit filters).toNat) := by
  obtain ⟨hsql, hbinds⟩ := buildFindQuery_parts filters
  have hread := parts_read (queryParts filters) (fun p hp => mem_queryParts hp)
    [.number (findLimit filters)] (utf16 " ORDER BY id DESC LIMIT ?")
  have hlimit : readClauses [.number (findLimit filters)] (utf16 " ORDER BY id DESC LIMIT ?") =
      ([], [.number (findLimit filters)], utf16 " ORDER BY id DESC LIMIT ?") := rfl
  rw [hlimit, List.append_nil] at hread
  rw [execute, hsql, if_pos (List.isPrefixOf_iff_prefix.2 (List.prefix_append _ _)), List.drop_left,
    hbinds, hread]
  dsimp only
  rw [if_pos rfl]
  congr 4
  funext row
  rw [List.all_map]
  rfl

end Shape

section Reference

def given (filters : QJsonObject) (key : String) : Option Rat :=
  match filters.value key with
  | .double x => (readInt64 filters key).map (fun _ => x)
  | _ => none

def textHolds (filters : QJsonObject) (row : Row) : Bool :=
  (!filters.contains "method" ||
      asciiUpper row.method == asciiUpper (filters.value "method").toQString) &&
    (!filters.contains "host" || like (filters.value "host").toQString row.host) &&
    (!filters.contains "path" || like (filters.value "path").toQString row.path)

def reference (filters : QJsonObject) (row : Row) : Bool :=
  textHolds filters row && (given filters "status").all (fun x => (row.status : Rat) = x) &&
    (given filters "minSize").all (fun x => x ≤ (row.size : Rat)) &&
    (given filters "maxSize").all (fun x => (row.size : Rat) ≤ x) &&
    (given filters "sinceMs").all (fun x => x ≤ (row.ts : Rat))

def referenceRows (filters : QJsonObject) (rows : List Row) : List Row :=
  (newestFirst (rows.filter (reference filters))).take (findLimit filters).toNat

structure SameShape (f g : QJsonObject) : Prop where
  texts : ∀ key ∈ ["method", "host", "path"], f.contains key = g.contains key
  numbers : ∀ key ∈ ["status", "minSize", "maxSize", "sinceMs"],
    (readInt64 f key).isSome = (readInt64 g key).isSome

structure Answers (filters : QJsonObject) : Prop where
  shape : ∀ other, SameShape filters other →
    (buildFindQuery filters).1.sql = (buildFindQuery other).1.sql
  placeholders : (buildFindQuery filters).1.sql.count 0x3F = (buildFindQuery filters).1.binds.length
  rows : ∀ rows, execute (buildFindQuery filters).1 rows = some (referenceRows filters rows)

theorem textPart_text (filters : QJsonObject) (key : String) (c : Clause)
    (bound : QString → QString) :
    (textPart filters key c bound).flatMap (fun p => p.1.text) =
      if filters.contains key then c.text else [] := by
  rw [textPart]
  split
  · exact List.flatMap_singleton _ _
  · rfl

theorem numberPart_text (filters : QJsonObject) (key : String) (c : Clause) (asInt : Bool) :
    (numberPart filters key c asInt).flatMap (fun p => p.1.text) =
      if (readInt64 filters key).isSome then c.text else [] := by
  rw [numberPart]
  cases readInt64 filters key with
  | none => rfl
  | some n => exact List.flatMap_singleton _ _

theorem query_shape (h : SameShape f g) :
    (buildFindQuery f).1.sql = (buildFindQuery g).1.sql := by
  have htexts := h.texts
  have hnumbers := h.numbers
  simp only [List.forall_mem_cons, List.not_mem_nil, false_implies, implies_true, and_true]
    at htexts hnumbers
  obtain ⟨hmethod, hhost, hpath⟩ := htexts
  obtain ⟨hstatus, hmin, hmax, hsince⟩ := hnumbers
  rw [(buildFindQuery_parts f).1, (buildFindQuery_parts g).1]
  congr 2
  simp only [queryParts, List.flatMap_append, textPart_text, numberPart_text, hmethod, hhost, hpath,
    hstatus, hmin, hmax, hsince]

theorem clause_placeholder (h : c ∈ clauses) : c.text.count 0x3F = 1 := by
  simp only [clauses, List.mem_cons, List.not_mem_nil, or_false] at h
  rcases h with rfl | rfl | rfl | rfl | rfl | rfl | rfl
  · decide
  · decide
  · decide
  · decide
  · decide
  · decide
  · decide

theorem query_placeholders (filters : QJsonObject) :
    (buildFindQuery filters).1.sql.count 0x3F = (buildFindQuery filters).1.binds.length := by
  obtain ⟨hsql, hbinds⟩ := buildFindQuery_parts filters
  have hparts (parts : List (Clause × QVariant)) (h : ∀ p ∈ parts, p.1 ∈ clauses) :
      (parts.flatMap (fun p => p.1.text)).count 0x3F = parts.length := by
    induction parts with
    | nil => rfl
    | cons p parts ih =>
      rw [List.forall_mem_cons] at h
      rw [List.flatMap_cons, List.count_append, clause_placeholder h.1, ih h.2, List.length_cons,
        Nat.add_comm]
  have hselect : (utf16 kSelect).count 0x3F = 0 := by decide
  have hlimit : (utf16 " ORDER BY id DESC LIMIT ?").count 0x3F = 1 := by decide
  rw [hsql, hbinds, List.count_append, List.count_append, hselect, hlimit,
    hparts _ (fun p hp => mem_queryParts hp), List.length_append, List.length_map, Nat.zero_add]
  rfl

theorem queryParts_hold (filters : QJsonObject) (row : Row) :
    (queryParts filters).all (fun p => p.1.holds p.2 row) =
      (textHolds filters row &&
        (readInt64 filters "status").all (fun n => row.status = Int.bmod n (2 ^ 32)) &&
        (readInt64 filters "minSize").all (fun n => n ≤ row.size) &&
        (readInt64 filters "maxSize").all (fun n => row.size ≤ n) &&
        (readInt64 filters "sinceMs").all (fun n => n ≤ row.ts)) := by
  have htext (key : String) (c : Clause) (bound : QString → QString) :
      (textPart filters key c bound).all (fun p => p.1.holds p.2 row) =
        (!filters.contains key || c.holds (.text (bound (filters.value key).toQString)) row) := by
    rw [textPart]
    cases filters.contains key with
    | false => rfl
    | true => exact Bool.and_true _
  have hnumber (key : String) (c : Clause) (asInt : Bool) :
      (numberPart filters key c asInt).all (fun p => p.1.holds p.2 row) =
        (readInt64 filters key).all (fun n =>
          c.holds (.number (if asInt then Int.bmod n (2 ^ 32) else n)) row) := by
    rw [numberPart]
    cases readInt64 filters key with
    | none => rfl
    | some n => exact Bool.and_true _
  simp only [queryParts, List.all_append, htext, hnumber, textHolds]
  rfl

theorem findLimit_pos (filters : QJsonObject) : 1 ≤ (findLimit filters).toNat := by
  rw [findLimit]
  generalize (filters.value "limit").toInt kFindLimitDefault = limit
  rw [kFindLimitDefault, kFindLimitMax]
  split
  · decide
  · split
    · decide
    · omega

theorem rows_iff (filters : QJsonObject) :
    (∀ rows, execute (buildFindQuery filters).1 rows = some (referenceRows filters rows)) ↔
      ∀ row, (queryParts filters).all (fun p => p.1.holds p.2 row) = reference filters row := by
  have hone (p : Row → Bool) (row : Row) :
      (newestFirst ([row].filter p)).take (findLimit filters).toNat = if p row then [row] else [] := by
    rw [List.filter_singleton]
    cases p row with
    | false =>
      show (newestFirst []).take _ = []
      rw [newestFirst, List.mergeSort_nil, List.take_nil]
    | true =>
      show (newestFirst [row]).take _ = [row]
      rw [newestFirst, List.mergeSort_singleton]
      exact List.take_of_length_le (findLimit_pos filters)
  constructor
  · intro h row
    have hrow := h [row]
    rw [execute_built, Option.some.injEq, referenceRows, hone, hone] at hrow
    generalize (queryParts filters).all (fun p => p.1.holds p.2 row) = a at hrow ⊢
    generalize reference filters row = b at hrow ⊢
    cases a with
    | false =>
      cases b with
      | false => rfl
      | true => cases hrow
    | true =>
      cases b with
      | false => cases hrow
      | true => rfl
  · intro h rows
    rw [execute_built, referenceRows, funext h]

end Reference

section Numbers

theorem given_cases (h : given filters key = some x) :
    ∃ n, readInt64 filters key = some n ∧
      n = if x.den = 1 then nearestDouble x.num else truncated x := by
  rw [given] at h
  cases hvalue : filters.value key with
  | double y =>
    rw [hvalue] at h
    obtain ⟨n, hn, rfl⟩ := Option.map_eq_some_iff.1 h
    refine ⟨n, hn, ?_⟩
    rw [readInt64, hvalue] at hn
    dsimp only at hn
    split at hn
    · cases hn
    · rename_i hrange
      rw [← Option.some.inj hn]
      obtain ⟨hlo, hhi⟩ := not_or.1 hrange
      by_cases hden : y.den = 1
      · rw [if_pos hden]
        have hint : y = (y.num : Rat) := (Rat.den_eq_one_iff y).1 hden |>.symm
        by_cases hfits : -2 ^ 63 ≤ y.num ∧ y.num < 2 ^ 63
        · rw [asDouble, if_pos ⟨hden, hfits⟩, truncated, Int.floor_intCast, Int.ceil_intCast, ite_self]
        · exfalso
          apply hfits
          rw [asDouble, if_neg (fun hall => hfits hall.2), hint] at hlo hhi
          constructor
          · have hle := not_lt.1 hlo
            exact_mod_cast hle
          · have hlt := not_le.1 hhi
            exact_mod_cast hlt
      · rw [if_neg hden, asDouble, if_neg (fun hall => hden hall.1)]
  | _ =>
    rw [hvalue] at h
    cases h

theorem given_none (h : given filters key = none) : readInt64 filters key = none := by
  rw [given] at h
  cases hvalue : filters.value key with
  | double y =>
    rw [hvalue] at h
    exact Option.map_eq_none_iff.1 h
  | _ => rw [readInt64, hvalue]

/-- What is cut off does not matter for a lower bound. -/
def LowerExact (x : Rat) : Prop := if x.den = 1 then nearestDouble x.num = x.num else x < 0

def UpperExact (x : Rat) : Prop := if x.den = 1 then nearestDouble x.num = x.num else 0 < x

theorem floor_ne_ceil {x : Rat} (h : x.den ≠ 1) : ⌊x⌋ ≠ ⌈x⌉ := by
  intro he
  apply h
  have hle := Int.floor_le x
  have hge := Int.le_ceil x
  rw [← he] at hge
  have hint : x = (⌊x⌋ : Rat) := le_antisymm hge hle
  rw [hint]
  exact Rat.den_intCast _

theorem lower_iff (x : Rat) :
    (if x.den = 1 then nearestDouble x.num else truncated x) = ⌈x⌉ ↔ LowerExact x := by
  rw [LowerExact]
  by_cases hden : x.den = 1
  · have hint : x = (x.num : Rat) := (Rat.den_eq_one_iff x).1 hden |>.symm
    rw [if_pos hden, if_pos hden]
    have hceil : ⌈x⌉ = x.num := by
      conv => lhs; rw [hint]
      exact Int.ceil_intCast _
    rw [hceil]
  · rw [if_neg hden, if_neg hden, truncated]
    split
    · rename_i hpos
      exact iff_of_false (floor_ne_ceil hden) (not_lt.2 hpos)
    · rename_i hneg
      exact iff_of_true rfl (not_le.1 hneg)

theorem upper_iff (x : Rat) :
    (if x.den = 1 then nearestDouble x.num else truncated x) = ⌊x⌋ ↔ UpperExact x := by
  rw [UpperExact]
  by_cases hden : x.den = 1
  · have hint : x = (x.num : Rat) := (Rat.den_eq_one_iff x).1 hden |>.symm
    rw [if_pos hden, if_pos hden]
    have hfloor : ⌊x⌋ = x.num := by
      conv => lhs; rw [hint]
      exact Int.floor_intCast _
    rw [hfloor]
  · have hne : x ≠ 0 := by
      rintro rfl
      exact hden rfl
    rw [if_neg hden, if_neg hden, truncated]
    split
    · rename_i hpos
      exact iff_of_true rfl (lt_of_le_of_ne hpos hne.symm)
    · rename_i hneg
      exact iff_of_false (floor_ne_ceil hden).symm (fun hpos => hneg (le_of_lt hpos))

theorem nearestDouble_small {n : Int} (h : n.natAbs < 2 ^ 53) : nearestDouble n = n := by
  have hlog : n.natAbs.log2 - 52 = 0 := by
    by_cases hzero : n.natAbs = 0
    · rw [hzero]
      rfl
    · have hlt := (Nat.log2_lt hzero).2 h
      omega
  rw [nearestDouble, hlog]
  simp only [pow_zero, Nat.div_one, Nat.mod_one]
  rw [if_neg (by omega), mul_one]
  exact Int.sign_mul_natAbs n

theorem status_iff (x : Rat) :
    (∀ s : Int, s = Int.bmod (if x.den = 1 then nearestDouble x.num else truncated x) (2 ^ 32) ↔
      (s : Rat) = x) ↔ x.den = 1 ∧ IsInt32 x.num := by
  constructor
  · intro h
    have hx := (h _).1 rfl
    generalize (if x.den = 1 then nearestDouble x.num else truncated x) = n at hx
    rw [← hx]
    refine ⟨Rat.den_intCast _, ?_⟩
    rw [Rat.num_intCast, IsInt32]
    have hlo := @Int.le_bmod n (2 ^ 32) (by decide)
    have hhi := @Int.bmod_lt n (2 ^ 32) (by decide)
    omega
  · rintro ⟨hden, hlo, hhi⟩ s
    have hint : x = (x.num : Rat) := (Rat.den_eq_one_iff x).1 hden |>.symm
    have hsmall : nearestDouble x.num = x.num := nearestDouble_small (by omega)
    have hmod : Int.bmod x.num (2 ^ 32) = x.num := by
      apply Int.bmod_eq_of_le
      · omega
      · omega
    rw [if_pos hden, hsmall, hmod]
    conv => rhs; rw [hint]
    exact Int.cast_inj.symm

end Numbers

section Product

theorem product_iff {N N' : α → Prop} {S S' : β → Prop} {T T' : γ → Prop} (hN : ∃ s, N s)
    (hT : ∃ t, T t) (hT' : ∃ t, T' t) :
    (∀ s z t, (N s ∧ S z ∧ T t) ↔ (N' s ∧ S' z ∧ T' t)) ↔
      ((∀ s, N s ↔ N' s) ∧ (∀ z, S z ↔ S' z) ∧ ∀ t, T t ↔ T' t) ∨
        (∀ z, ¬ S z) ∧ ((∀ s, ¬ N' s) ∨ ∀ z, ¬ S' z) := by
  constructor
  · intro h
    by_cases hS : ∃ z, S z
    · left
      obtain ⟨s, hs⟩ := hN
      obtain ⟨z, hz⟩ := hS
      obtain ⟨t, ht⟩ := hT
      obtain ⟨hs', hz', ht'⟩ := (h s z t).1 ⟨hs, hz, ht⟩
      refine ⟨fun s₁ => ⟨fun h₁ => ?_, fun h₁ => ?_⟩, fun z₁ => ⟨fun h₁ => ?_, fun h₁ => ?_⟩,
        fun t₁ => ⟨fun h₁ => ?_, fun h₁ => ?_⟩⟩
      · exact ((h s₁ z t).1 ⟨h₁, hz, ht⟩).1
      · exact ((h s₁ z t).2 ⟨h₁, hz', ht'⟩).1
      · exact ((h s z₁ t).1 ⟨hs, h₁, ht⟩).2.1
      · exact ((h s z₁ t).2 ⟨hs', h₁, ht'⟩).2.1
      · exact ((h s z t₁).1 ⟨hs, hz, h₁⟩).2.2
      · exact ((h s z t₁).2 ⟨hs', hz', h₁⟩).2.2
    · right
      have hnone := not_exists.1 hS
      refine ⟨hnone, ?_⟩
      by_contra hboth
      obtain ⟨hstatus, hsize⟩ := not_or.1 hboth
      obtain ⟨s, hs⟩ := not_forall_not.1 hstatus
      obtain ⟨z, hz⟩ := not_forall_not.1 hsize
      obtain ⟨t, ht⟩ := hT'
      exact hnone z ((h s z t).2 ⟨hs, hz, ht⟩).2.1
  · rintro (⟨hs, hz, ht⟩ | ⟨hnone, hempty⟩) s z t
    · rw [hs, hz, ht]
    · apply iff_of_false (fun h => hnone z h.2.1)
      rintro ⟨h, h', -⟩
      rcases hempty with hempty | hempty
      · exact hempty s h
      · exact hempty z h'

def Within (lo hi : Option Int) (z : Int) : Prop := (∀ a ∈ lo, a ≤ z) ∧ ∀ b ∈ hi, z ≤ b

theorem within_none_iff {lo hi : Option Int} :
    (∀ z, ¬ Within lo hi z) ↔ ∃ a b, lo = some a ∧ hi = some b ∧ b < a := by
  cases lo with
  | none =>
    cases hi with
    | none => exact iff_of_false (fun h => h 0 ⟨nofun, nofun⟩) nofun
    | some b =>
      refine iff_of_false (fun h => h b ⟨nofun, ?_⟩) nofun
      rintro _ ⟨⟩
      exact le_refl b
  | some a =>
    cases hi with
    | none =>
      refine iff_of_false (fun h => h a ⟨?_, nofun⟩) (by rintro ⟨_, _, _, ⟨⟩, _⟩)
      rintro _ ⟨⟩
      exact le_refl a
    | some b =>
      constructor
      · intro h
        refine ⟨a, b, rfl, rfl, ?_⟩
        by_contra hle
        apply h a
        refine ⟨?_, ?_⟩
        · rintro _ ⟨⟩
          exact le_refl a
        · rintro _ ⟨⟩
          exact not_lt.1 hle
      · rintro ⟨_, _, ⟨⟩, ⟨⟩, hlt⟩ z ⟨hlo, hhi⟩
        have hz := le_trans (hlo a rfl) (hhi b rfl)
        omega

theorem within_inj {lo hi lo' hi' : Option Int} (hlo : lo.isSome = lo'.isSome)
    (hhi : hi.isSome = hi'.isSome) (h : ∀ z, Within lo hi z ↔ Within lo' hi' z)
    (hz : Within lo hi z) : lo = lo' ∧ hi = hi' := by
  have hz' := (h z).1 hz
  constructor
  · cases lo with
    | none =>
      cases lo' with
      | none => rfl
      | some a => cases hlo
    | some a =>
      cases lo' with
      | none => cases hlo
      | some a' =>
        have hfirst : Within (some a) hi a :=
          ⟨fun _ hx => (Option.some.inj hx).ge, fun b hb => le_trans (hz.1 a rfl) (hz.2 b hb)⟩
        have hfirst' : Within (some a') hi' a' :=
          ⟨fun _ hx => (Option.some.inj hx).ge, fun b hb => le_trans (hz'.1 a' rfl) (hz'.2 b hb)⟩
        have hle := ((h a).1 hfirst).1 a' rfl
        have hge := ((h a').2 hfirst').1 a rfl
        rw [le_antisymm hge hle]
  · cases hi with
    | none =>
      cases hi' with
      | none => rfl
      | some a => cases hhi
    | some b =>
      cases hi' with
      | none => cases hhi
      | some b' =>
        have hlast : Within lo (some b) b :=
          ⟨fun a ha => le_trans (hz.1 a ha) (hz.2 b rfl), fun _ hx => (Option.some.inj hx).le⟩
        have hlast' : Within lo' (some b') b' :=
          ⟨fun a ha => le_trans (hz'.1 a ha) (hz'.2 b' rfl), fun _ hx => (Option.some.inj hx).le⟩
        have hle := ((h b).1 hlast).2 b' rfl
        have hge := ((h b').2 hlast').2 b rfl
        rw [le_antisymm hle hge]

end Product

section Exact

theorem like_sat (pattern : QString) : ∃ s, like pattern s = true := by
  induction pattern with
  | nil => exact ⟨[], rfl⟩
  | cons c pattern ih =>
    obtain ⟨s, hs⟩ := ih
    by_cases hany : c = 0x25
    · refine ⟨s, ?_⟩
      rw [like.eq_def]
      dsimp only
      rw [if_pos hany, List.any_eq_true]
      exact ⟨s, (List.mem_tails _ _).2 (List.suffix_refl s), hs⟩
    · by_cases hone : c = 0x5F
      · refine ⟨0x61 :: s, ?_⟩
        rw [like, if_neg hany, if_pos hone, if_neg]
        · exact hs
        · exact Bool.false_ne_true
      · refine ⟨c :: s, ?_⟩
        rw [like, if_neg hany, if_neg hone, hs, beq_self_eq_true]
        rfl

theorem text_sat (filters : QJsonObject) : ∃ method host path, ∀ row : Row, row.method = method →
    row.host = host → row.path = path → textHolds filters row = true := by
  obtain ⟨host, hhost⟩ := like_sat (filters.value "host").toQString
  obtain ⟨path, hpath⟩ := like_sat (filters.value "path").toQString
  refine ⟨(filters.value "method").toQString, host, path, ?_⟩
  rintro row hm hh hp
  rw [textHolds, hm, hh, hp, hhost, hpath, beq_self_eq_true, Bool.or_true, Bool.or_true,
    Bool.or_true]
  rfl

/-- The status that the query asks for, and the one that is asked for. -/
def statusRead (filters : QJsonObject) (s : Int) : Prop :=
  ∀ n ∈ readInt64 filters "status", s = Int.bmod n (2 ^ 32)

def statusGiven (filters : QJsonObject) (s : Int) : Prop :=
  ∀ x ∈ given filters "status", (s : Rat) = x

theorem lower_given (o : Option Rat) (z : Int) :
    o.all (fun x => x ≤ (z : Rat)) = true ↔ ∀ a ∈ o.map Int.ceil, a ≤ z := by
  cases o with
  | none => exact iff_of_true rfl nofun
  | some x =>
    rw [Option.all_some, decide_eq_true_eq, ← Int.ceil_le]
    constructor
    · rintro h _ ⟨⟩
      exact h
    · exact fun h => h _ rfl

theorem upper_given (o : Option Rat) (z : Int) :
    o.all (fun x => (z : Rat) ≤ x) = true ↔ ∀ b ∈ o.map Int.floor, z ≤ b := by
  cases o with
  | none => exact iff_of_true rfl nofun
  | some x =>
    rw [Option.all_some, decide_eq_true_eq, ← Int.le_floor]
    constructor
    · rintro h _ ⟨⟩
      exact h
    · exact fun h => h _ rfl

theorem judged_iff (filters : QJsonObject) :
    (∀ row, (queryParts filters).all (fun p => p.1.holds p.2 row) = reference filters row) ↔
      ∀ s z t, (statusRead filters s ∧
          Within (readInt64 filters "minSize") (readInt64 filters "maxSize") z ∧
          Within (readInt64 filters "sinceMs") none t) ↔
        (statusGiven filters s ∧
          Within ((given filters "minSize").map Int.ceil) ((given filters "maxSize").map Int.floor) z ∧
          Within ((given filters "sinceMs").map Int.ceil) none t) := by
  have hread (row : Row) : (queryParts filters).all (fun p => p.1.holds p.2 row) = true ↔
      textHolds filters row = true ∧ statusRead filters row.status ∧
        Within (readInt64 filters "minSize") (readInt64 filters "maxSize") row.size ∧
        Within (readInt64 filters "sinceMs") none row.ts := by
    rw [queryParts_hold]
    simp only [Bool.and_eq_true, Option.all_eq_true, decide_eq_true_eq, statusRead, Within,
      Option.mem_def, and_assoc, reduceCtorEq, false_implies, implies_true, and_true]
  have hgiven (row : Row) : reference filters row = true ↔
      textHolds filters row = true ∧ statusGiven filters row.status ∧
        Within ((given filters "minSize").map Int.ceil) ((given filters "maxSize").map Int.floor)
          row.size ∧
        Within ((given filters "sinceMs").map Int.ceil) none row.ts := by
    rw [reference, Bool.and_eq_true, Bool.and_eq_true, Bool.and_eq_true, Bool.and_eq_true,
      lower_given, lower_given, upper_given, Option.all_eq_true]
    simp only [decide_eq_true_eq, statusGiven, Within, Option.mem_def, and_assoc, reduceCtorEq,
      false_implies, implies_true, and_true]
  constructor
  · intro h s z t
    obtain ⟨method, host, path, htext⟩ := text_sat filters
    have hrow := h ⟨0, t, method, host, 0, path, s, z, 0, []⟩
    have htexts := htext ⟨0, t, method, host, 0, path, s, z, 0, []⟩ rfl rfl rfl
    rw [Bool.eq_iff_iff, hread, hgiven, and_iff_right htexts, and_iff_right htexts] at hrow
    exact hrow
  · intro h row
    rw [Bool.eq_iff_iff, hread, hgiven, h]

/-- Every number that is read is the one given, as far as its comparison goes. -/
structure ExactNumbers (filters : QJsonObject) : Prop where
  status : ∀ x ∈ given filters "status", x.den = 1 ∧ IsInt32 x.num
  minSize : ∀ x ∈ given filters "minSize", LowerExact x
  maxSize : ∀ x ∈ given filters "maxSize", UpperExact x
  sinceMs : ∀ x ∈ given filters "sinceMs", LowerExact x

/-- The bounds of the size exclude each other, both as given and as integers. -/
def NothingFits (filters : QJsonObject) : Prop :=
  (∃ a b, readInt64 filters "minSize" = some a ∧ readInt64 filters "maxSize" = some b ∧ b < a) ∧
    ((∃ x ∈ given filters "status", x.den ≠ 1) ∨
      ∃ x ∈ given filters "minSize", ∃ y ∈ given filters "maxSize", ⌊y⌋ < ⌈x⌉)

theorem given_map (filters : QJsonObject) (key : String) (f : Rat → Int) :
    readInt64 filters key = (given filters key).map f ↔ ∀ x ∈ given filters key,
      (if x.den = 1 then nearestDouble x.num else truncated x) = f x := by
  cases h : given filters key with
  | none =>
    rw [given_none h]
    exact iff_of_true rfl nofun
  | some x =>
    obtain ⟨n, hn, he⟩ := given_cases h
    rw [hn, Option.map_some, Option.some.injEq, he]
    constructor
    · rintro hx _ ⟨⟩
      exact hx
    · exact fun hx => hx x rfl

theorem given_isSome (filters : QJsonObject) (key : String) (f : Rat → Int) :
    (readInt64 filters key).isSome = ((given filters key).map f).isSome := by
  cases h : given filters key with
  | none => rw [given_none h]; rfl
  | some x =>
    obtain ⟨n, hn, -⟩ := given_cases h
    rw [hn]
    rfl

theorem statuses_iff (filters : QJsonObject) :
    (∀ s, statusRead filters s ↔ statusGiven filters s) ↔
      ∀ x ∈ given filters "status", x.den = 1 ∧ IsInt32 x.num := by
  cases h : given filters "status" with
  | none =>
    refine iff_of_true (fun s => ?_) nofun
    rw [statusRead, statusGiven, h, given_none h]
    exact iff_of_true nofun nofun
  | some x =>
    obtain ⟨n, hn, he⟩ := given_cases h
    have hstatus := status_iff x
    rw [← he] at hstatus
    constructor
    · rintro hall _ ⟨⟩
      apply hstatus.1
      intro s
      have hs := hall s
      rw [statusRead, statusGiven, h, hn] at hs
      constructor
      · exact fun heq => hs.1 (fun _ hm => (Option.some.inj hm) ▸ heq) x rfl
      · exact fun heq => hs.2 (fun _ hm => (Option.some.inj hm) ▸ heq) n rfl
    · intro hall s
      have hs := hstatus.2 (hall x rfl) s
      rw [statusRead, statusGiven, h, hn]
      constructor
      · rintro hread _ ⟨⟩
        exact hs.1 (hread n rfl)
      · rintro hgiven _ ⟨⟩
        exact hs.2 (hgiven x rfl)

theorem answers_iff (filters : QJsonObject) :
    Answers filters ↔ ExactNumbers filters ∨ NothingFits filters := by
  have hstatus : ∃ s, statusRead filters s := by
    cases h : readInt64 filters "status" with
    | none => exact ⟨0, by rw [statusRead, h]; exact nofun⟩
    | some n =>
      refine ⟨Int.bmod n (2 ^ 32), ?_⟩
      rw [statusRead, h]
      rintro _ ⟨⟩
      rfl
  have htimes (lo : Option Int) : ∃ t, Within lo none t := by
    cases lo with
    | none => exact ⟨0, nofun, nofun⟩
    | some a => exact ⟨a, fun _ hx => (Option.some.inj hx).ge, nofun⟩
  have hrows := (rows_iff filters).trans ((judged_iff filters).trans
    (product_iff hstatus (htimes _) (htimes _)))
  have hanswers : Answers filters ↔ ∀ rows,
      execute (buildFindQuery filters).1 rows = some (referenceRows filters rows) :=
    ⟨fun h => h.rows, fun h => ⟨fun _ hother => query_shape hother, query_placeholders filters, h⟩⟩
  have hmin := given_map filters "minSize" Int.ceil
  have hmax := given_map filters "maxSize" Int.floor
  have hsince := given_map filters "sinceMs" Int.ceil
  simp only [lower_iff] at hmin hsince
  simp only [upper_iff] at hmax
  rw [hanswers, hrows, statuses_iff, within_none_iff, within_none_iff]
  have hgivenStatus : (∀ s, ¬ statusGiven filters s) ↔ ∃ x ∈ given filters "status", x.den ≠ 1 := by
    cases h : given filters "status" with
    | none =>
      refine iff_of_false (fun hall => hall 0 ?_) nofun
      rw [statusGiven, h]
      exact nofun
    | some x =>
      constructor
      · intro hall
        refine ⟨x, rfl, fun hden => hall x.num ?_⟩
        rw [statusGiven, h]
        rintro _ ⟨⟩
        exact (Rat.den_eq_one_iff x).1 hden
      · rintro ⟨_, ⟨⟩, hden⟩ s hs
        rw [statusGiven, h] at hs
        apply hden
        rw [← hs x rfl]
        exact Rat.den_intCast s
  have hgivenSizes : (∃ a b, (given filters "minSize").map Int.ceil = some a ∧
      (given filters "maxSize").map Int.floor = some b ∧ b < a) ↔
      ∃ x ∈ given filters "minSize", ∃ y ∈ given filters "maxSize", ⌊y⌋ < ⌈x⌉ := by
    constructor
    · rintro ⟨a, b, ha, hb, hlt⟩
      obtain ⟨x, hx, rfl⟩ := Option.map_eq_some_iff.1 ha
      obtain ⟨y, hy, rfl⟩ := Option.map_eq_some_iff.1 hb
      exact ⟨x, hx, y, hy, hlt⟩
    · rintro ⟨x, hx, y, hy, hlt⟩
      exact ⟨_, _, by rw [hx]; rfl, by rw [hy]; rfl, hlt⟩
  rw [hgivenStatus, hgivenSizes]
  constructor
  · rintro (⟨hs, hz, ht⟩ | hnothing)
    · by_cases hempty : ∃ a b, readInt64 filters "minSize" = some a ∧
          readInt64 filters "maxSize" = some b ∧ b < a
      · right
        refine ⟨hempty, .inr (hgivenSizes.1 ?_)⟩
        rw [← within_none_iff] at hempty ⊢
        exact fun z h => hempty z ((hz z).2 h)
      · left
        rw [← within_none_iff] at hempty
        obtain ⟨z, hwithin⟩ := not_forall_not.1 hempty
        obtain ⟨hlo, hhi⟩ := within_inj (given_isSome filters "minSize" Int.ceil)
          (given_isSome filters "maxSize" Int.floor) hz hwithin
        obtain ⟨t, htime⟩ := htimes (readInt64 filters "sinceMs")
        obtain ⟨hlow, -⟩ := within_inj (given_isSome filters "sinceMs" Int.ceil) rfl ht htime
        exact ⟨hs, hmin.1 hlo, hmax.1 hhi, hsince.1 hlow⟩
    · exact .inr hnothing
  · rintro (hexact | hnothing)
    · left
      rw [hmin.2 hexact.minSize, hmax.2 hexact.maxSize, hsince.2 hexact.sinceMs]
      exact ⟨hexact.status, fun _ => Iff.rfl, fun _ => Iff.rfl⟩
    · exact .inr hnothing

theorem wide_status_found :
    ¬ Answers [(utf16 "status", .double 4294967496)] := by
  intro h
  have hrow := (rows_iff _).1 h.rows { id := 1, status := 200 }
  exact absurd hrow (by decide)

end Exact

end Nullock.HistoryLogic

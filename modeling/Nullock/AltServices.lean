import Nullock.DecimalOrder
import Nullock.SessionVariables
import Nullock.CookieJarRestore
import Mathlib.Tactic.IntervalCases

namespace Nullock.Http3Detect
open SessionVariables (toIntOk)

structure AltProtocol where
  id : QString
  authority : QString
  maxAge : Int := -1
  isHttp3 : Bool := false
deriving DecidableEq

def looksHttp3 (id : QString) : Bool := id == utf16 "h3" || (utf16 "h3-").isPrefixOf id

def splitEntriesFrom (inQuotes : Bool) (entry : QString) : QString → List QString
  | [] => [entry]
  | [c] =>
    if c = 0x2C ∧ inQuotes = false then [entry, []] else [entry ++ [c]]
  | c :: d :: value =>
    if c = 0x5C ∧ inQuotes = true then splitEntriesFrom inQuotes (entry ++ [c, d]) value
    else if c = 0x22 then splitEntriesFrom (!inQuotes) (entry ++ [c]) (d :: value)
    else if c = 0x2C ∧ inQuotes = false then
      entry :: splitEntriesFrom inQuotes [] (d :: value)
    else splitEntriesFrom inQuotes (entry ++ [c]) (d :: value)

def splitAltSvcEntries (value : QString) : List QString := splitEntriesFrom false [] value

def ageOf (part : QString) : Option Int :=
  let param := QString.trimmed part
  if startsWithIgnoreCase param (utf16 "ma=") then toIntOk (QString.trimmed (param.drop 3))
  else none

def unquoted (authority : QString) : QString :=
  if authority.head? = some 0x22 ∧ authority.getLast? = some 0x22 ∧ authority.length ≥ 2 then
    (authority.drop 1).take (authority.length - 2)
  else authority

def parseEntry (entryRaw : QString) : Option AltProtocol :=
  let parts := entryRaw.splitOn 0x3B
  let head := QString.trimmed (parts.headD [])
  match indexOf [0x3D] head with
  | none => none
  | some eq =>
    if eq = 0 then none
    else
      let id := QString.trimmed (head.take eq)
      let authority := unquoted (QString.trimmed (head.drop (eq + 1)))
      let maxAge := (parts.drop 1).foldl (fun maxAge part => (ageOf part).getD maxAge) (-1)
      if id.isEmpty then none
      else some { id := id, authority := authority, maxAge := maxAge, isHttp3 := looksHttp3 id }

def parseAltSvc (value : QString) : List AltProtocol :=
  if equalsIgnoreCase (QString.trimmed value) (utf16 "clear") then []
  else (splitAltSvcEntries value).filterMap parseEntry

section Grammar

def isTchar (c : UInt16) : Bool :=
  0x21 ≤ c && c ≤ 0x7E && !(utf16 "\"(),/:;<=>?@[\\]\x7b\x7d").contains c

def IsToken (s : QString) : Prop := s ≠ [] ∧ ∀ c ∈ s, isTchar c = true

inductive Quoted : QString → Prop
  | nil : Quoted []
  | plain : c ≠ 0x22 → c ≠ 0x5C → Quoted s → Quoted (c :: s)
  | escaped : Quoted s → Quoted (0x5C :: c :: s)

def quote (s : QString) : QString := 0x22 :: (s ++ [0x22])

structure Param where
  name : QString
  value : QString
  quoted : Bool
  named : IsToken name
  other : equalsIgnoreCase name (utf16 "ma") = false
  valid : if quoted then Quoted value else IsToken value

def Param.text (p : Param) : QString :=
  p.name ++ 0x3D :: (if p.quoted then quote p.value else p.value)

structure Alternative where
  id : QString
  authority : QString
  before : List Param
  ma : Option Nat
  after : List Param
  named : IsToken id
  quoted : Quoted authority

def maText (n : Nat) : QString := utf16 "ma=" ++ QString.number n

def Alternative.params (a : Alternative) : List QString :=
  a.before.map Param.text ++ (a.ma.map maText).toList ++ a.after.map Param.text

def Alternative.text (a : Alternative) : QString :=
  a.id ++ 0x3D :: quote a.authority ++ (a.params.map (fun p => utf16 "; " ++ p)).flatten

def render (alternatives : List Alternative) : QString :=
  (utf16 ", ").intercalate (alternatives.map Alternative.text)

def Alternative.maxAge (a : Alternative) : Int := (a.ma.map Int.ofNat).getD (-1)

def Alternative.entry (a : Alternative) : AltProtocol where
  id := a.id
  authority := a.authority
  maxAge := a.maxAge
  isHttp3 := looksHttp3 a.id

def Param.ages (p : Param) : List Int :=
  if p.quoted then ((p.value.splitOn 0x3B).drop 1).dropLast.filterMap ageOf else []

/-- The ages read behind the alternative's own, or anywhere if it has none. -/
def Alternative.strays (a : Alternative) : List Int :=
  match a.ma with
  | some _ => a.after.flatMap Param.ages
  | none => (a.before ++ a.after).flatMap Param.ages

/-- No semicolon in the authority; the age is a number and the last one read. -/
def Alternative.Plain (a : Alternative) : Prop :=
  0x3B ∉ a.authority ∧ (∀ n, a.ma = some n → n < 2 ^ 31) ∧
    ∀ age, a.strays.getLast? = some age → age = a.maxAge

end Grammar

section Splitting

/-- A text that the scan runs through, outside of quotes before and after. -/
def Balanced (r : QString) : Prop :=
  ∀ entry rest, splitEntriesFrom false entry (r ++ rest) = splitEntriesFrom false (entry ++ r) rest

theorem splitEntries_plain {c : UInt16} (hq : c ≠ 0x22) (hcomma : c ≠ 0x2C ∨ q = true)
    (hback : c ≠ 0x5C ∨ q = false) (entry value : QString) :
    splitEntriesFrom q entry (c :: value) = splitEntriesFrom q (entry ++ [c]) value := by
  have hescape : ¬ (c = 0x5C ∧ q = true) := by
    rintro ⟨rfl, rfl⟩
    rcases hback with h | h
    · exact h rfl
    · cases h
  have hsplit : ¬ (c = 0x2C ∧ q = false) := by
    rintro ⟨rfl, rfl⟩
    rcases hcomma with h | h
    · exact h rfl
    · cases h
  cases value with
  | nil => simp only [splitEntriesFrom, if_neg hsplit]
  | cons d value => rw [splitEntriesFrom, if_neg hescape, if_neg hq, if_neg hsplit]

theorem splitEntries_quote (q : Bool) (entry value : QString) :
    splitEntriesFrom q entry (0x22 :: value) = splitEntriesFrom (!q) (entry ++ [0x22]) value := by
  cases value with
  | nil =>
    have hsplit : ¬ ((0x22 : UInt16) = 0x2C ∧ q = false) := fun h => absurd h.1 (by decide)
    simp only [splitEntriesFrom, if_neg hsplit]
  | cons d value =>
    rw [splitEntriesFrom, if_neg (fun h => absurd h.1 (by decide)), if_pos rfl]

theorem Balanced.append (ha : Balanced a) (hb : Balanced b) : Balanced (a ++ b) := by
  intro entry rest
  rw [List.append_assoc, ha, hb, List.append_assoc]

theorem balanced_plain (h : ∀ c ∈ s, c ≠ 0x22 ∧ c ≠ 0x2C) : Balanced s := by
  induction s with
  | nil =>
    intro entry rest
    rw [List.nil_append, List.append_nil]
  | cons c s ih =>
    intro entry rest
    obtain ⟨hc, hs⟩ := List.forall_mem_cons.1 h
    rw [List.cons_append, splitEntries_plain hc.1 (.inl hc.2) (.inr rfl), ih hs, List.append_assoc]
    rfl

theorem splitEntries_quoted (h : Quoted s) (entry rest : QString) :
    splitEntriesFrom true entry (s ++ rest) = splitEntriesFrom true (entry ++ s) rest := by
  induction h generalizing entry with
  | nil => rw [List.nil_append, List.append_nil]
  | @plain c s hq hback hs ih =>
    rw [List.cons_append, splitEntries_plain hq (.inr rfl) (.inl hback), ih, List.append_assoc]
    rfl
  | @escaped s c hs ih =>
    rw [List.cons_append, List.cons_append, splitEntriesFrom, if_pos ⟨rfl, rfl⟩, ih,
      List.append_assoc]
    rfl

theorem balanced_quote (h : Quoted s) : Balanced (quote s) := by
  intro entry rest
  have hsplit : quote s ++ rest = 0x22 :: (s ++ 0x22 :: rest) := by
    rw [quote, List.cons_append, List.append_assoc]
    rfl
  rw [hsplit, splitEntries_quote, Bool.not_false, splitEntries_quoted h, splitEntries_quote]
  congr 1
  rw [quote]
  simp only [List.append_assoc, List.cons_append, List.nil_append]

theorem tchar_facts (h : isTchar c = true) : c ≠ 0x22 ∧ c ≠ 0x2C ∧ c ≠ 0x3B ∧ c ≠ 0x3D ∧
    isSpace c = false := by
  have hdelim {d : UInt16} (hd : isTchar d = false) : c ≠ d := by
    rintro rfl
    rw [h] at hd
    cases hd
  refine ⟨hdelim (by decide), hdelim (by decide), hdelim (by decide), hdelim (by decide), ?_⟩
  rw [isTchar, Bool.and_eq_true, Bool.and_eq_true, decide_eq_true_eq, decide_eq_true_eq,
    UInt16.le_iff_toNat_le, UInt16.le_iff_toNat_le] at h
  simp only [isSpace, Bool.or_eq_false_iff, Bool.and_eq_false_iff, beq_eq_false_iff_ne,
    decide_eq_false_iff_not, ne_eq, ← UInt16.toNat_inj, UInt16.le_iff_toNat_le,
    UInt16.reduceToNat] at h ⊢
  omega

theorem IsToken.balanced (h : IsToken s) : Balanced s :=
  balanced_plain fun c hc => ⟨(tchar_facts (h.2 c hc)).1, (tchar_facts (h.2 c hc)).2.1⟩

theorem Param.balanced (p : Param) : Balanced p.text := by
  have hsplit : p.text = p.name ++ [0x3D] ++ (if p.quoted then quote p.value else p.value) := by
    rw [Param.text, List.append_assoc]
    rfl
  rw [hsplit]
  refine (p.named.balanced.append (balanced_plain (forall_mem_of_all (by decide)))).append ?_
  have hvalid := p.valid
  split
  · rename_i hquoted
    rw [if_pos hquoted] at hvalid
    exact balanced_quote hvalid
  · rename_i hquoted
    rw [if_neg hquoted] at hvalid
    exact hvalid.balanced

theorem number_token (n : Nat) : IsToken (QString.number n) := by
  refine ⟨number_ne_nil n, fun c hc => ?_⟩
  have hdigit := number_digits n c hc
  rw [isDigit, Bool.and_eq_true, decide_eq_true_eq, decide_eq_true_eq, UInt16.le_iff_toNat_le,
    UInt16.le_iff_toNat_le] at hdigit
  have hlo : 0x30 ≤ c.toNat := hdigit.1
  have hhi : c.toNat ≤ 0x39 := hdigit.2
  rw [← UInt16.ofNat_toNat (x := c)]
  generalize c.toNat = k at hlo hhi
  interval_cases k <;> decide

theorem Alternative.params_balanced (a : Alternative) : ∀ p ∈ a.params, Balanced p := by
  intro p hp
  rw [Alternative.params, List.mem_append, List.mem_append] at hp
  rcases hp with (hp | hp) | hp
  · obtain ⟨q, -, rfl⟩ := List.mem_map.1 hp
    exact q.balanced
  · cases hma : a.ma with
    | none =>
      rw [hma] at hp
      cases hp
    | some n =>
      rw [hma] at hp
      rw [List.mem_singleton.1 hp]
      exact (balanced_plain (forall_mem_of_all (by decide))).append (number_token n).balanced
  · obtain ⟨q, -, rfl⟩ := List.mem_map.1 hp
    exact q.balanced

theorem balanced_flatten {parts : List QString} (h : ∀ p ∈ parts, Balanced p) :
    Balanced (parts.map (fun p => utf16 "; " ++ p)).flatten := by
  induction parts with
  | nil => exact balanced_plain (fun c hc => absurd hc List.not_mem_nil)
  | cons p parts ih =>
    obtain ⟨hp, hparts⟩ := List.forall_mem_cons.1 h
    rw [List.map_cons, List.flatten_cons]
    exact ((balanced_plain (forall_mem_of_all (by decide))).append hp).append (ih hparts)

theorem Alternative.balanced (a : Alternative) : Balanced a.text := by
  have hsplit : a.text = a.id ++ [0x3D] ++ quote a.authority ++
      (a.params.map (fun p => utf16 "; " ++ p)).flatten := by
    simp only [Alternative.text, List.append_assoc, List.cons_append, List.nil_append]
  rw [hsplit]
  exact ((a.named.balanced.append (balanced_plain (forall_mem_of_all (by decide)))).append
    (balanced_quote a.quoted)).append (balanced_flatten a.params_balanced)

theorem splitEntries_tail (alternatives : List Alternative) (entry : QString) :
    splitEntriesFrom false entry (alternatives.map (fun a => utf16 ", " ++ a.text)).flatten =
      entry :: alternatives.map (fun a => utf16 " " ++ a.text) := by
  induction alternatives generalizing entry with
  | nil => rfl
  | cons a alternatives ih =>
    have hcomma (rest : QString) : splitEntriesFrom false entry (utf16 ", " ++ rest) =
        entry :: splitEntriesFrom false [] (utf16 " " ++ rest) := by
      show splitEntriesFrom false entry (0x2C :: 0x20 :: rest) = _
      rw [splitEntriesFrom, if_neg (fun h => absurd h.1 (by decide)),
        if_neg (fun h => absurd h (by decide)), if_pos ⟨rfl, rfl⟩]
      rfl
    have hblank : Balanced (utf16 " " ++ a.text) := (balanced_plain (forall_mem_of_all (by decide))).append a.balanced
    rw [List.map_cons, List.flatten_cons, List.append_assoc, hcomma, ← List.append_assoc, hblank,
      List.nil_append, ih]
    rfl

theorem splitAltSvcEntries_render (a : Alternative) (alternatives : List Alternative) :
    splitAltSvcEntries (render (a :: alternatives)) =
      a.text :: alternatives.map (fun b => utf16 " " ++ b.text) := by
  have hrender : render (a :: alternatives) =
      a.text ++ (alternatives.map (fun b => utf16 ", " ++ b.text)).flatten := by
    rw [render, List.map_cons]
    induction alternatives generalizing a with
    | nil => rw [List.map_nil, List.intercalate_singleton, List.map_nil, List.flatten_nil,
        List.append_nil]
    | cons b alternatives ih =>
      rw [List.map_cons, List.intercalate_cons_cons, ih b, List.map_cons, List.flatten_cons]
      simp only [List.append_assoc]
  rw [splitAltSvcEntries, hrender, a.balanced, splitEntries_tail]
  rfl

end Splitting

section Reading

theorem IsToken.trim (h : IsToken s) : QString.trimmed s = s := by
  apply trimWith_eq_self
  · exact fun c hc => (tchar_facts (h.2 c (List.mem_of_mem_head? hc))).2.2.2.2
  · exact fun c hc => (tchar_facts (h.2 c (List.mem_of_getLast? hc))).2.2.2.2

theorem IsToken.no_semicolon (h : IsToken s) : 0x3B ∉ s :=
  fun hm => (tchar_facts (h.2 _ hm)).2.2.1 rfl

theorem unquoted_quote (s : QString) : unquoted (quote s) = s := by
  have hlast : (quote s).getLast? = some 0x22 := by
    rw [quote, ← List.cons_append, List.getLast?_concat]
  have hlength : (quote s).length = s.length + 2 := by
    rw [quote, List.length_cons, List.length_append]
    rfl
  rw [unquoted, if_pos ⟨rfl, hlast, by omega⟩, hlength]
  show (s ++ [0x22]).take s.length = s
  rw [List.take_left]

theorem parseEntry_eq {blank id authority : QString}
    (hblank : ∀ c ∈ blank, isSpace c = true ∧ c ≠ 0x3B)
    (hid : IsToken id) (rest : List QString)
    (htext : text.splitOn 0x3B = (blank ++ (id ++ 0x3D :: quote authority)) :: rest) :
    parseEntry text = some
      { id := id
        authority := authority
        maxAge := ((rest.filterMap ageOf).getLast?).getD (-1)
        isHttp3 := looksHttp3 id } := by
  have htrim : QString.trimmed (blank ++ (id ++ 0x3D :: quote authority)) =
      id ++ 0x3D :: quote authority := by
    rw [QString.trimmed, trimWith_prepend (fun c hc => (hblank c hc).1)]
    apply trimWith_eq_self
    · intro c hc
      cases id with
      | nil => exact absurd rfl hid.1
      | cons d id =>
        cases hc
        exact (tchar_facts (hid.2 c List.mem_cons_self)).2.2.2.2
    · intro c hc
      have hend : id ++ 0x3D :: quote authority = (id ++ 0x3D :: 0x22 :: authority) ++ [0x22] := by
        simp only [quote, List.append_assoc, List.cons_append]
      rw [hend, List.getLast?_concat] at hc
      cases hc
      rfl
  have hquote : QString.trimmed (quote authority) = quote authority := by
    apply trimWith_eq_self
    · intro c hc
      cases hc
      rfl
    · intro c hc
      rw [quote, ← List.cons_append, List.getLast?_concat] at hc
      cases hc
      rfl
  have hages (parts : List QString) (m : Int) :
      parts.foldl (fun maxAge part => (ageOf part).getD maxAge) m =
        ((parts.filterMap ageOf).getLast?).getD m := by
    induction parts using List.reverseRecOn with
    | nil => rfl
    | append_singleton parts part ih =>
      rw [List.foldl_append, List.foldl_cons, List.foldl_nil, ih, List.filterMap_append]
      cases hage : ageOf part with
      | none => simp [hage]
      | some age => simp [hage]
  have hindex : indexOf [0x3D] (id ++ 0x3D :: quote authority) = some id.length :=
    indexOf_singleton (fun hm => (tchar_facts (hid.2 _ hm)).2.2.2.1 rfl) _
  have hdrop : (id ++ 0x3D :: quote authority).drop (id.length + 1) = quote authority := by
    rw [List.append_cons]
    exact List.drop_left' (by rw [List.length_append]; rfl)
  rw [parseEntry, htext]
  dsimp only
  rw [List.headD_cons, htrim, hindex]
  dsimp only
  rw [if_neg (fun h => hid.1 (List.length_eq_zero_iff.1 h)), List.take_left, hid.trim, hdrop,
    hquote, unquoted_quote, if_neg (fun h => hid.1 (List.isEmpty_iff.1 h)), List.drop_one,
    List.tail_cons, hages]

theorem splitOn_params (head : QString) (params : List QString) :
    (head ++ (params.map (fun p => utf16 "; " ++ p)).flatten).splitOn 0x3B =
      head.splitOn 0x3B ++ params.flatMap (fun p => (0x20 :: p).splitOn 0x3B) := by
  induction params generalizing head with
  | nil => rw [List.map_nil, List.flatten_nil, List.append_nil, List.flatMap_nil, List.append_nil]
  | cons p params ih =>
    rw [List.map_cons, List.flatten_cons, List.flatMap_cons, ← ih]
    exact List.splitOn_append_cons_self head _

theorem rdropWhile_named (u value : QString) :
    ∃ rest, (u ++ 0x3D :: value).rdropWhile isSpace = u ++ 0x3D :: rest := by
  induction value using List.reverseRecOn with
  | nil =>
    refine ⟨[], ?_⟩
    rw [List.rdropWhile_concat, if_neg (by decide)]
  | append_singleton value c ih =>
    rw [← List.cons_append, ← List.append_assoc, List.rdropWhile_concat]
    split
    · exact ih
    · exact ⟨value ++ [c], by rw [List.append_assoc, List.cons_append]⟩

theorem trimmed_named {name : QString} (h : IsToken name) (value : QString) :
    ∃ rest, QString.trimmed (0x20 :: (name ++ 0x3D :: value)) = name ++ 0x3D :: rest := by
  have hblank : QString.trimmed ([0x20] ++ (name ++ 0x3D :: value)) =
      QString.trimmed (name ++ 0x3D :: value) :=
    trimWith_prepend (forall_mem_of_all (by decide)) _
  have hfront : (name ++ 0x3D :: value).dropWhile isSpace = name ++ 0x3D :: value := by
    cases name with
    | nil => exact absurd rfl h.1
    | cons c name =>
      rw [List.cons_append, List.dropWhile_cons,
        (tchar_facts (h.2 c List.mem_cons_self)).2.2.2.2, if_neg Bool.false_ne_true]
  obtain ⟨rest, hrest⟩ := rdropWhile_named name value
  refine ⟨rest, ?_⟩
  rw [← hrest]
  refine hblank.trans ?_
  rw [QString.trimmed, trimWith, hfront]

theorem foldCase_equals {c : UInt16} (h : foldCase c = 0x3D) : c = 0x3D := by
  rw [foldCase] at h
  split at h
  · rename_i hupper
    rw [UInt16.le_iff_toNat_le, UInt16.le_iff_toNat_le] at hupper
    have hsum := congrArg UInt16.toNat h
    rw [UInt16.toNat_add] at hsum
    simp only [UInt16.reduceToNat] at hupper hsum
    omega
  split at h
  · cases h
  split at h
  · cases h
  · exact h

theorem ageOf_named {name : QString} (h : IsToken name)
    (hother : equalsIgnoreCase name (utf16 "ma") = false) (value : QString) :
    ageOf (0x20 :: (name ++ 0x3D :: value)) = none := by
  obtain ⟨rest, htrim⟩ := trimmed_named h value
  unfold ageOf
  rw [htrim, if_neg]
  intro hstart
  rw [startsWithIgnoreCase, List.isPrefixOf_iff_prefix] at hstart
  obtain ⟨t, ht⟩ := hstart
  match name with
  | [] => exact h.1 rfl
  | [a] =>
    rw [List.singleton_append, List.map_cons, List.map_cons] at ht
    have hsecond := (List.cons.inj (List.cons.inj ht).2).1
    exact absurd hsecond (by decide)
  | [a, b] =>
    have hfirst := (List.cons.inj ht).1
    have hsecond := (List.cons.inj (List.cons.inj ht).2).1
    have hma : equalsIgnoreCase [a, b] (utf16 "ma") = true := by
      rw [equalsIgnoreCase, beq_iff_eq]
      show [foldCase a, foldCase b] = _
      rw [← hfirst, ← hsecond]
      rfl
    rw [hma] at hother
    cases hother
  | a :: b :: c :: name =>
    have hthird := (List.cons.inj (List.cons.inj (List.cons.inj ht).2).2).1
    have hc := foldCase_equals hthird.symm
    exact (tchar_facts (h.2 c (by simp))).2.2.2.1 hc

theorem toIntOk_quote {s : QString} (h : 0x22 ∈ s) : toIntOk s = none := by
  have hmem : 0x22 ∈ QString.trimmed s := mem_trimWith h (by decide)
  have hread : QString.toLongLong s = none := by
    rw [QString.toLongLong, readLongLong]
    dsimp only
    generalize hdrop : (if (QString.trimmed s).head? == some 0x2D ∨
      (QString.trimmed s).head? = some 0x2B then (QString.trimmed s).drop 1
      else QString.trimmed s) = t
    have ht : 0x22 ∈ t := by
      rw [← hdrop]
      split
      · rename_i hsign
        cases htrim : QString.trimmed s with
        | nil =>
          rw [htrim] at hmem
          cases hmem
        | cons c u =>
          rw [htrim] at hmem hsign
          rcases List.mem_cons.1 hmem with rfl | hu
          · exact absurd hsign (by simp)
          · exact hu
      · exact hmem
    have hne : t.isEmpty = false := List.isEmpty_eq_false_iff.2 (List.ne_nil_of_mem ht)
    simp only [Nat.reduceEqDiff, if_false, hne, Bool.false_eq_true,
      digitsFrom_eq_none ht (by decide : digitValue 0x22 = none)]
  rw [toIntOk, hread]

theorem trimmed_quote (s : QString) : ∃ t, QString.trimmed (s ++ [0x22]) = t ++ [0x22] := by
  obtain ⟨a, b, hs, ha, hb⟩ := trimWith_split isSpace (s ++ [0x22])
  have hmem : 0x22 ∈ QString.trimmed (s ++ [0x22]) :=
    mem_trimWith (List.mem_append_right s List.mem_cons_self) (by decide)
  rw [QString.trimmed] at hmem ⊢
  generalize trimWith isSpace (s ++ [0x22]) = t at hs hmem
  rcases List.eq_nil_or_concat' b with rfl | ⟨init, c, rfl⟩
  · rcases List.eq_nil_or_concat' t with rfl | ⟨init, c, rfl⟩
    · cases hmem
    · rw [List.append_nil, ← List.append_assoc] at hs
      exact ⟨init, by rw [← (List.append_inj' hs rfl).2]⟩
  · rw [← List.append_assoc, ← List.append_assoc] at hs
    have hlast := List.singleton_inj.1 (List.append_inj' hs rfl).2
    have hspace := hb c (List.mem_append_right init List.mem_cons_self)
    rw [← hlast] at hspace
    cases hspace

theorem ageOf_quote (s : QString) : ageOf (s ++ [0x22]) = none := by
  obtain ⟨t, ht⟩ := trimmed_quote s
  unfold ageOf
  rw [ht]
  dsimp only
  split
  · rename_i hstart
    rw [startsWithIgnoreCase, List.isPrefixOf_iff_prefix] at hstart
    obtain ⟨u, hu⟩ := hstart
    apply toIntOk_quote
    apply mem_trimWith _ (by decide)
    match t with
    | [] => exact absurd (List.cons.inj hu).1 (by decide)
    | [a] => exact absurd (List.cons.inj (List.cons.inj hu).2).1 (by decide)
    | [a, b] =>
      exact absurd (List.cons.inj (List.cons.inj (List.cons.inj hu).2).2).1 (by decide)
    | a :: b :: c :: t => exact List.mem_append_right t List.mem_cons_self
  · rfl

theorem Param.read (p : Param) : ((0x20 :: p.text).splitOn 0x3B).filterMap ageOf = p.ages := by
  have hname : 0x3B ∉ (0x20 :: (p.name ++ [0x3D]) : QString) := by
    rw [List.mem_cons, List.mem_append, List.mem_singleton]
    rintro (h | h | h)
    · cases h
    · exact p.named.no_semicolon h
    · cases h
  have hsplit (value : QString) : 0x20 :: (p.name ++ 0x3D :: value) =
      0x20 :: (p.name ++ [0x3D]) ++ value := by
    rw [List.cons_append, List.append_assoc]
    rfl
  have hvalid := p.valid
  rw [Param.text, Param.ages]
  cases hq : p.quoted with
  | false =>
    rw [hq, if_neg Bool.false_ne_true] at hvalid
    rw [if_neg Bool.false_ne_true, if_neg Bool.false_ne_true, List.splitOn_eq_singleton]
    · rw [List.filterMap_cons, ageOf_named p.named p.other]
      rfl
    · rw [hsplit, List.mem_append, not_or]
      exact ⟨hname, hvalid.no_semicolon⟩
  | true =>
    rw [if_pos rfl, if_pos rfl]
    obtain ⟨front, last, hvalue, hquoted⟩ :=
      splitOn_concat (x := 0x3B) (b := [0x22]) (by decide) p.value
    have hopen : 0x20 :: (p.name ++ 0x3D :: quote p.value) =
        (0x20 :: (p.name ++ [0x3D, 0x22])) ++ (p.value ++ [0x22]) := by
      rw [quote, List.cons_append, List.append_assoc]
      rfl
    have hnone : 0x3B ∉ (0x20 :: (p.name ++ [0x3D, 0x22]) : QString) := by
      rw [List.mem_cons, List.mem_append]
      rintro (h | h | h)
      · cases h
      · exact p.named.no_semicolon h
      · exact absurd h (by decide)
    have hhead (v : QString) : ageOf (0x20 :: (p.name ++ [0x3D, 0x22]) ++ v) = none := by
      have hv := ageOf_named p.named p.other (0x22 :: v)
      rw [List.cons_append, List.append_assoc]
      exact hv
    rw [hopen, splitOn_prepend hnone, hquoted, hvalue]
    cases front with
    | nil =>
      show [ _ ].filterMap ageOf = _
      rw [List.filterMap_cons, hhead]
      rfl
    | cons v mid =>
      rw [List.cons_append, List.modifyHead_cons, List.filterMap_cons, hhead, List.filterMap_append,
        List.filterMap_cons, ageOf_quote, List.filterMap_nil, List.append_nil, List.cons_append,
        List.drop_one, List.tail_cons, List.dropLast_concat]

theorem maText_read (n : Nat) : ((0x20 :: maText n).splitOn 0x3B).filterMap ageOf =
    if n < 2 ^ 31 then [(n : Int)] else [] := by
  have hnumber := number_token n
  have hsplit : (0x20 :: maText n).splitOn 0x3B = [0x20 :: maText n] := by
    apply List.splitOn_eq_singleton
    rw [maText, List.mem_cons, List.mem_append]
    rintro (h | h | h)
    · cases h
    · exact absurd h (by decide)
    · exact hnumber.no_semicolon h
  have htrim : QString.trimmed (0x20 :: maText n) = maText n := by
    refine (trimWith_prepend (a := [0x20]) (forall_mem_of_all (by decide)) _).trans ?_
    apply trimWith_eq_self
    · intro c hc
      cases hc
      rfl
    · intro c hc
      rw [List.getLast?_append_of_ne_nil _ hnumber.1] at hc
      exact (tchar_facts (hnumber.2 c (List.mem_of_getLast? hc))).2.2.2.2
  have hread : ageOf (0x20 :: maText n) = if n < 2 ^ 31 then some (n : Int) else none := by
    unfold ageOf
    rw [htrim]
    have hstart : startsWithIgnoreCase (maText n) (utf16 "ma=") = true := by
      rw [startsWithIgnoreCase, List.isPrefixOf_iff_prefix, maText, List.map_append]
      exact List.prefix_append _ _
    have hdrop : (maText n).drop 3 = QString.number n := rfl
    dsimp only
    rw [if_pos hstart, hdrop, hnumber.trim, toIntOk, QString.toLongLong, hnumber.trim]
    obtain ⟨hnumeral, hvalue⟩ := number_numeral n
    have hlong : readLongLong 10 (QString.number n) =
        if (n : Int) < 2 ^ 63 then some (n : Int) else none := by
      refine (readLongLong_numeral hnumeral).trans ?_
      rw [hvalue]
    rw [hlong]
    by_cases hn : n < 2 ^ 31
    · rw [if_pos (by omega), if_pos hn]
      exact if_pos ⟨by omega, by omega⟩
    · rw [if_neg hn]
      split
      · rename_i m hm
        split at hm
        · cases hm
          exact if_neg (fun h => hn (by have := h.2; omega))
        · cases hm
      · rfl
  rw [hsplit, List.filterMap_cons, hread, List.filterMap_nil]
  by_cases hn : n < 2 ^ 31
  · rw [if_pos hn, if_pos hn]
  · rw [if_neg hn, if_neg hn]

theorem text_parts (a : Alternative) {blank : QString} (hblank : 0x3B ∉ blank)
    (hauth : 0x3B ∉ a.authority) : (blank ++ a.text).splitOn 0x3B =
      (blank ++ (a.id ++ 0x3D :: quote a.authority)) ::
        a.params.flatMap (fun p => (0x20 :: p).splitOn 0x3B) := by
  have hhead : 0x3B ∉ blank ++ (a.id ++ 0x3D :: quote a.authority) := by
    rw [List.mem_append, List.mem_append, List.mem_cons, quote, List.mem_cons, List.mem_append]
    rintro (h | h | h | h | h | h)
    · exact hblank h
    · exact a.named.no_semicolon h
    · cases h
    · cases h
    · exact hauth h
    · exact absurd h (by decide)
  have hparts := splitOn_params (blank ++ (a.id ++ 0x3D :: quote a.authority)) a.params
  rw [List.splitOn_eq_singleton hhead] at hparts
  rw [Alternative.text, ← List.append_assoc]
  exact hparts

theorem params_read (a : Alternative) (hma : ∀ n, a.ma = some n → n < 2 ^ 31) :
    (a.params.flatMap (fun p => (0x20 :: p).splitOn 0x3B)).filterMap ageOf =
      a.before.flatMap Param.ages ++ (a.ma.map Int.ofNat).toList ++
        a.after.flatMap Param.ages := by
  have hothers (ps : List Param) :
      ((ps.map Param.text).flatMap (fun p => (0x20 :: p).splitOn 0x3B)).filterMap ageOf =
        ps.flatMap Param.ages := by
    induction ps with
    | nil => rfl
    | cons p ps ih =>
      rw [List.map_cons, List.flatMap_cons, List.filterMap_append, p.read, ih, List.flatMap_cons]
  rw [Alternative.params, List.flatMap_append, List.flatMap_append, List.filterMap_append,
    List.filterMap_append, hothers, hothers]
  cases h : a.ma with
  | none => rfl
  | some n =>
    have hread := maText_read n
    rw [if_pos (hma n h)] at hread
    simp only [Option.map_some, Option.toList_some, List.flatMap_cons, List.flatMap_nil,
      List.append_nil, hread]
    rfl

theorem lastAge_iff (a : Alternative) :
    ((a.before.flatMap Param.ages ++ (a.ma.map Int.ofNat).toList ++
      a.after.flatMap Param.ages).getLast?).getD (-1) = a.maxAge ↔
      ∀ age, a.strays.getLast? = some age → age = a.maxAge := by
  have hlast (ages : List Int) (own : Int) : (ages.getLast?).getD own = own ↔
      ∀ age, ages.getLast? = some age → age = own := by
    cases ages.getLast? with
    | none => exact ⟨fun _ age h => (by cases h), fun _ => rfl⟩
    | some age => exact ⟨fun h _ hage => by cases hage; exact h, fun h => h age rfl⟩
  rw [Alternative.maxAge, Alternative.strays]
  cases a.ma with
  | none =>
    rw [Option.map_none, Option.toList_none, List.append_nil, ← List.flatMap_append]
    exact hlast _ _
  | some n =>
    rw [Option.map_some, Option.toList_some, Option.getD_some, ← hlast, List.getLast?_append,
      List.getLast?_append]
    cases (a.after.flatMap Param.ages).getLast? with
    | none => exact Iff.rfl
    | some age => exact Iff.rfl

theorem mem_of_mem_trimmed {s : QString} (h : c ∈ QString.trimmed s) : c ∈ s := by
  obtain ⟨a, b, hs, -, -⟩ := trimWith_split isSpace s
  rw [hs]
  exact List.mem_append_right a (List.mem_append_left b h)

theorem mem_of_mem_unquoted {s : QString} (h : c ∈ unquoted s) : c ∈ s := by
  rw [unquoted] at h
  split at h
  · exact List.mem_of_mem_drop (List.mem_of_mem_take h)
  · exact h

theorem ageOf_lt (h : ageOf part = some age) : age < 2 ^ 31 := by
  unfold ageOf at h
  dsimp only at h
  split at h
  · rw [toIntOk] at h
    split at h
    · split at h
      · rename_i hrange
        cases h
        exact hrange.2
      · cases h
    · cases h
  · cases h

theorem parseEntry_bounds (h : parseEntry text = some p) :
    0x3B ∉ p.authority ∧ p.maxAge < 2 ^ 31 := by
  have hages (parts : List QString) (m : Int) (hm : m < 2 ^ 31) :
      parts.foldl (fun maxAge part => (ageOf part).getD maxAge) m < 2 ^ 31 := by
    induction parts generalizing m with
    | nil => exact hm
    | cons part parts ih =>
      rw [List.foldl_cons]
      apply ih
      cases hage : ageOf part with
      | none => exact hm
      | some age => exact ageOf_lt hage
  have hhead : 0x3B ∉ (text.splitOn 0x3B).headD [] := by
    cases hparts : text.splitOn 0x3B with
    | nil => exact List.not_mem_nil
    | cons head parts => exact not_mem_of_mem_splitOn (hparts ▸ List.mem_cons_self)
  rw [parseEntry] at h
  dsimp only at h
  split at h
  · cases h
  split at h
  · cases h
  split at h
  · cases h
  cases h
  refine ⟨fun hm => hhead ?_, hages _ _ (by decide)⟩
  exact mem_of_mem_trimmed (List.mem_of_mem_drop (mem_of_mem_trimmed (mem_of_mem_unquoted hm)))

def Alternative.read (a : Alternative) : AltProtocol where
  id := a.id
  authority := a.authority
  maxAge := ((a.before.flatMap Param.ages ++ (a.ma.map Int.ofNat).toList ++
    a.after.flatMap Param.ages).getLast?).getD (-1)
  isHttp3 := looksHttp3 a.id

theorem parseEntry_text (a : Alternative) {blank : QString}
    (hblank : ∀ c ∈ blank, isSpace c = true ∧ c ≠ 0x3B) (hauth : 0x3B ∉ a.authority)
    (hma : ∀ n, a.ma = some n → n < 2 ^ 31) : parseEntry (blank ++ a.text) = some a.read := by
  have hparts := text_parts a (fun hm => (hblank _ hm).2 rfl) hauth
  rw [parseEntry_eq hblank a.named _ hparts, params_read a hma]
  rfl

theorem parseAltSvc_cons (a : Alternative) (alternatives : List Alternative) :
    parseAltSvc (render (a :: alternatives)) =
      (a.text :: alternatives.map (fun b => utf16 " " ++ b.text)).filterMap parseEntry := by
  have hquote : 0x22 ∈ render (a :: alternatives) := by
    have htext : 0x22 ∈ a.text := by
      rw [Alternative.text, List.append_assoc]
      exact List.mem_append_right _ (List.mem_cons_of_mem _ List.mem_cons_self)
    cases alternatives with
    | nil =>
      rw [render, List.map_singleton, List.intercalate_singleton]
      exact htext
    | cons b alternatives =>
      rw [render, List.map_cons, List.map_cons, List.intercalate_cons_cons, List.append_assoc]
      exact List.mem_append_left _ htext
  have hclear : ¬ equalsIgnoreCase (QString.trimmed (render (a :: alternatives)))
      (utf16 "clear") = true := by
    intro h
    rw [equalsIgnoreCase, beq_iff_eq] at h
    have hmem : foldCase 0x22 ∈ (QString.trimmed (render (a :: alternatives))).map foldCase :=
      List.mem_map_of_mem (mem_trimWith hquote (by decide))
    rw [h] at hmem
    exact absurd hmem (by decide)
  rw [parseAltSvc, if_neg hclear, splitAltSvcEntries_render]

theorem parseAltSvc_read {alternatives : List Alternative}
    (h : ∀ a ∈ alternatives, 0x3B ∉ a.authority ∧ ∀ n, a.ma = some n → n < 2 ^ 31) :
    parseAltSvc (render alternatives) = alternatives.map Alternative.read := by
  cases alternatives with
  | nil => rfl
  | cons a alternatives =>
    obtain ⟨ha, hrest⟩ := List.forall_mem_cons.1 h
    have hfirst := @parseEntry_text a [] (fun c hc => absurd hc List.not_mem_nil) ha.1 ha.2
    rw [parseAltSvc_cons, List.filterMap_cons, show a.text = [] ++ a.text from rfl, hfirst]
    dsimp only
    rw [List.map_cons, List.filterMap_map]
    congr 1
    have hothers : ∀ b ∈ alternatives,
        (parseEntry ∘ fun b => utf16 " " ++ b.text) b = some (Alternative.read b) := fun b hb =>
      parseEntry_text b (forall_mem_of_all (by decide)) (hrest b hb).1 (hrest b hb).2
    rw [List.filterMap_congr hothers, List.filterMap_eq_map']

end Reading

theorem parseAltSvc_iff (alternatives : List Alternative) :
    parseAltSvc (render alternatives) = alternatives.map Alternative.entry ↔
      ∀ a ∈ alternatives, a.Plain := by
  have hentry (a : Alternative) : a.read = a.entry ↔
      ∀ age, a.strays.getLast? = some age → age = a.maxAge := by
    rw [← lastAge_iff]
    exact ⟨fun h => congrArg AltProtocol.maxAge h, fun h => by rw [Alternative.read, h]; rfl⟩
  constructor
  · intro h
    have hplain : ∀ a ∈ alternatives, 0x3B ∉ a.authority ∧ ∀ n, a.ma = some n → n < 2 ^ 31 := by
      intro a ha
      cases alternatives with
      | nil => cases ha
      | cons b alternatives =>
        have hmem := List.mem_map_of_mem (f := Alternative.entry) ha
        rw [← h, parseAltSvc_cons] at hmem
        obtain ⟨piece, -, hpiece⟩ := List.mem_filterMap.1 hmem
        obtain ⟨hauth, hage⟩ := parseEntry_bounds hpiece
        refine ⟨hauth, fun n hn => ?_⟩
        have hmax : a.entry.maxAge = n := by
          rw [Alternative.entry, Alternative.maxAge, hn]
          rfl
        omega
    rw [parseAltSvc_read hplain, List.map_inj_left] at h
    exact fun a ha => ⟨(hplain a ha).1, (hplain a ha).2, (hentry a).1 (h a ha)⟩
  · intro h
    rw [parseAltSvc_read (fun a ha => ⟨(h a ha).1, (h a ha).2.1⟩), List.map_inj_left]
    exact fun a ha => (hentry a).2 (h a ha).2.2

def semicolonAlternative : Alternative where
  id := utf16 "h3"
  authority := utf16 "a;b:443"
  before := []
  ma := none
  after := []
  named := ⟨by decide, forall_mem_of_all (by decide)⟩
  quoted := .plain (by decide) (by decide) (.plain (by decide) (by decide)
    (.plain (by decide) (by decide) (.plain (by decide) (by decide) (.plain (by decide) (by decide)
      (.plain (by decide) (by decide) (.plain (by decide) (by decide) .nil))))))

theorem semicolon_splits :
    ¬ ∀ alternatives, parseAltSvc (render alternatives) =
      alternatives.map Alternative.entry := by
  intro h
  have hsplit := h [semicolonAlternative]
  revert hsplit
  decide +kernel

end Nullock.Http3Detect

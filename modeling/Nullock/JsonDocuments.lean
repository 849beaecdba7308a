import Nullock.Json
import Nullock.Encodings

namespace Nullock

namespace QJsonObject

def Sorted (o : QJsonObject) : Prop := o.Pairwise (fun m n => m.1 < n.1)

def insert (key : QString) (v : QJsonValue) : QJsonObject → QJsonObject
  | [] => [(key, v)]
  | m :: o =>
    if key < m.1 then (key, v) :: m :: o
    else if key = m.1 then (key, v) :: o
    else m :: insert key v o

def ofMembers : List (String × QJsonValue) → QJsonObject
  | [] => []
  | m :: members => insert (utf16 m.1) m.2 (ofMembers members)

theorem lt_of_not (h : ¬ key < name) (hne : key ≠ name) : (name : QString) < key := by
  by_contra hn
  exact hne (List.le_antisymm (List.not_lt.1 hn) (List.not_lt.1 h))

theorem mem_insert (h : m ∈ insert key v o) : m = (key, v) ∨ m ∈ o := by
  induction o with
  | nil => exact .inl (List.mem_singleton.1 h)
  | cons n o ih =>
    rw [insert] at h
    split at h
    · exact List.mem_cons.1 h
    split at h
    · exact (List.mem_cons.1 h).imp_right (List.mem_cons_of_mem n)
    · rcases List.mem_cons.1 h with rfl | h
      · exact .inr List.mem_cons_self
      · exact (ih h).imp_right (List.mem_cons_of_mem n)

theorem Sorted.insert (h : Sorted o) (key : QString) (v : QJsonValue) :
    Sorted (insert key v o) := by
  induction o with
  | nil => exact List.pairwise_singleton _ _
  | cons m o ih =>
    obtain ⟨hm, ho⟩ := List.pairwise_cons.1 h
    rw [QJsonObject.insert]
    split
    · rename_i hlt
      refine List.pairwise_cons.2 ⟨fun n hn => ?_, h⟩
      rcases List.mem_cons.1 hn with rfl | hn
      · exact hlt
      · exact List.lt_trans hlt (hm n hn)
    split
    · rename_i heq
      exact List.pairwise_cons.2 ⟨fun n hn => heq ▸ hm n hn, ho⟩
    · rename_i hlt hne
      refine List.pairwise_cons.2 ⟨fun n hn => ?_, ih ho⟩
      rcases mem_insert hn with rfl | hn
      · exact lt_of_not hlt hne
      · exact hm n hn

theorem insert_last (h : ∀ m ∈ o, m.1 < key) (v : QJsonValue) :
    insert key v o = o ++ [(key, v)] := by
  induction o with
  | nil => rfl
  | cons m o ih =>
    have hm : m.1 < key := h m List.mem_cons_self
    have hlt : ¬ key < m.1 := List.lt_asymm hm
    have hne : key ≠ m.1 := fun he => List.lt_irrefl key (he ▸ hm)
    rw [insert, if_neg hlt, if_neg hne, ih (fun n hn => h n (List.mem_cons_of_mem m hn))]
    rfl

theorem lookup_insert (name key : QString) (v : QJsonValue) (o : QJsonObject) :
    (insert key v o).lookup name = if name = key then some v else o.lookup name := by
  induction o with
  | nil =>
    rw [insert, List.lookup_cons, beq_eq_decide]
    by_cases h : name = key
    · rw [decide_eq_true h, if_pos h]
    · rw [decide_eq_false h, if_neg h]
  | cons m o ih =>
    rw [insert]
    split
    · rw [List.lookup_cons, beq_eq_decide]
      by_cases h : name = key
      · rw [decide_eq_true h, if_pos h]
      · rw [decide_eq_false h, if_neg h]
    split
    · rename_i hm
      rw [List.lookup_cons, beq_eq_decide]
      by_cases h : name = key
      · rw [decide_eq_true h, if_pos h]
      · rw [decide_eq_false h, if_neg h, List.lookup_cons, beq_eq_decide,
          decide_eq_false (fun he => h (he.trans hm.symm))]
    · rename_i hne
      rw [List.lookup_cons, List.lookup_cons, beq_eq_decide, ih]
      by_cases hm : name = m.1
      · have hk : name ≠ key := fun he => hne (he.symm.trans hm)
        rw [decide_eq_true hm, if_neg hk, if_neg hk]
      · rw [decide_eq_false hm]

theorem sorted_ofMembers (members : List (String × QJsonValue)) : Sorted (ofMembers members) := by
  induction members with
  | nil => exact List.Pairwise.nil
  | cons m members ih => exact ih.insert _ _

theorem mem_ofMembers (h : m ∈ ofMembers members) : ∃ n ∈ members, m = (utf16 n.1, n.2) := by
  induction members with
  | nil => exact absurd h List.not_mem_nil
  | cons n members ih =>
    rcases mem_insert h with rfl | h
    · exact ⟨n, List.mem_cons_self, rfl⟩
    · obtain ⟨n', hn', he⟩ := ih h
      exact ⟨n', List.mem_cons_of_mem n hn', he⟩

def isLiteral (s : String) : Bool := s.toList.all (fun c => c.toNat < 0x10000)

theorem toUInt16_inj {c d : Nat} (hc : c < 0x10000) (hd : d < 0x10000)
    (h : c.toUInt16 = d.toUInt16) : c = d := by
  have he := congrArg UInt16.toNat h
  rwa [UInt16.toNat_ofNat_of_lt' hc, UInt16.toNat_ofNat_of_lt' hd] at he

theorem map_code_inj {s t : List Char} (hs : s.all (fun c => c.toNat < 0x10000) = true)
    (ht : t.all (fun c => c.toNat < 0x10000) = true)
    (h : s.map (fun c => c.toNat.toUInt16) = t.map (fun c => c.toNat.toUInt16)) : s = t := by
  induction s generalizing t with
  | nil => exact (List.map_eq_nil_iff.1 h.symm).symm
  | cons c s ih =>
    cases t with
    | nil => exact absurd h (List.cons_ne_nil _ _)
    | cons d t =>
      obtain ⟨hc, hs⟩ := Bool.and_eq_true_iff.1 hs
      obtain ⟨hd, ht⟩ := Bool.and_eq_true_iff.1 ht
      obtain ⟨hcd, hst⟩ := List.cons.inj h
      have he : c = d :=
        Char.toNat_inj.1 (toUInt16_inj (of_decide_eq_true hc) (of_decide_eq_true hd) hcd)
      rw [he, ih hs ht hst]

theorem utf16_inj (hs : isLiteral s = true) (ht : isLiteral t = true) :
    utf16 s = utf16 t ↔ s = t :=
  ⟨fun h => String.toList_inj.1 (map_code_inj hs ht h), fun h => h ▸ rfl⟩

theorem value_insert (h : isLiteral key = true) (hk : isLiteral k = true) (v : QJsonValue)
    (o : QJsonObject) :
    (insert (utf16 k) v o).value key = if key = k then v else o.value key := by
  rw [value, lookup_insert, apply_ite (fun x => Option.getD x QJsonValue.undefined)]
  exact if_congr (utf16_inj h hk) rfl rfl

theorem value_ofMembers (h : isLiteral key = true) (hk : isLiteral k = true) (v : QJsonValue)
    (members : List (String × QJsonValue)) :
    (ofMembers ((k, v) :: members)).value key =
      if key = k then v else (ofMembers members).value key := by
  rw [value, ofMembers, lookup_insert, apply_ite (fun x => Option.getD x QJsonValue.undefined)]
  exact if_congr (utf16_inj h hk) rfl rfl

theorem value_lookup (hkey : isLiteral key = true)
    (hmembers : (members.map Prod.fst).all isLiteral = true) :
    (ofMembers members).value key = (members.lookup key).getD .undefined := by
  induction members with
  | nil => rfl
  | cons m members ih =>
    obtain ⟨hm, hrest⟩ := Bool.and_eq_true_iff.1 hmembers
    rw [value_ofMembers hkey hm, ih hrest, List.lookup_cons]
    by_cases h : key = m.1
    · rw [if_pos h, beq_iff_eq.2 h]
      rfl
    · rw [if_neg h, beq_false_of_ne h]

theorem contains_ofMembers (h : isLiteral key = true) (hk : isLiteral k = true) (v : QJsonValue)
    (members : List (String × QJsonValue)) :
    (ofMembers ((k, v) :: members)).contains key =
      if key = k then true else (ofMembers members).contains key := by
  rw [contains, ofMembers, lookup_insert, apply_ite Option.isSome]
  exact if_congr (utf16_inj h hk) rfl rfl

theorem contains_lookup (hkey : isLiteral key = true)
    (hmembers : (members.map Prod.fst).all isLiteral = true) :
    (ofMembers members).contains key = (members.lookup key).isSome := by
  induction members with
  | nil => rfl
  | cons m members ih =>
    obtain ⟨hm, hrest⟩ := Bool.and_eq_true_iff.1 hmembers
    rw [contains_ofMembers hkey hm, ih hrest, List.lookup_cons]
    by_cases h : key = m.1
    · rw [if_pos h, beq_iff_eq.2 h]
      rfl
    · rw [if_neg h, beq_false_of_ne h]

end QJsonObject

namespace QJsonValue

/-- Values nested at most `depth` deep, with ordered objects and exact numbers. -/
inductive Stored (Exact : Rat → Prop) : Nat → QJsonValue → Prop
  | null : Stored Exact depth .null
  | bool : Stored Exact depth (.bool b)
  | double : Exact d → Stored Exact depth (.double d)
  | string : Stored Exact depth (.string s)
  | array : (∀ v ∈ elems, Stored Exact depth v) → Stored Exact (depth + 1) (.array elems)
  | object : QJsonObject.Sorted members → (∀ m ∈ members, Stored Exact depth m.2) →
      Stored Exact (depth + 1) (.object members)

theorem Stored.ofMembers (h : ∀ m ∈ members, Stored Exact depth m.2) :
    Stored Exact (depth + 1) (.object (QJsonObject.ofMembers members)) := by
  refine .object (QJsonObject.sorted_ofMembers members) (fun m hm => ?_)
  obtain ⟨n, hn, rfl⟩ := QJsonObject.mem_ofMembers hm
  exact h n hn

theorem Stored.mono (h : Stored Exact depth v) (hle : depth ≤ depth') : Stored Exact depth' v := by
  induction h generalizing depth' with
  | null => exact .null
  | bool => exact .bool
  | double hd => exact .double hd
  | string => exact .string
  | array _ ih =>
    obtain ⟨d, rfl⟩ := Nat.exists_eq_add_of_lt (Nat.lt_of_succ_le hle)
    exact .array (fun v hv => ih v hv (Nat.le_add_right _ _))
  | object hs _ ih =>
    obtain ⟨d, rfl⟩ := Nat.exists_eq_add_of_lt (Nat.lt_of_succ_le hle)
    exact .object hs (fun m hm => ih m hm (Nat.le_add_right _ _))

def isDocument : QJsonValue → Bool
  | .array _ => true
  | .object _ => true
  | _ => false

end QJsonValue

def kNestingLimit : Nat := 1024

/-- `QJsonDocument`: what it reads, and the two layouts it writes. -/
structure JsonLibrary where
  fromJson : QByteArray → Option QJsonValue
  compact : QJsonValue → QByteArray
  indented : QJsonValue → QByteArray
  /-- The numbers that are written exactly. -/
  Exact : Rat → Prop
  exact_int : ∀ n : Int, -2 ^ 63 ≤ n → n < 2 ^ 63 → Exact n
  read_stored : ∀ s v, fromJson s = some v → v.isDocument = true ∧ v.Stored Exact kNestingLimit
  read_compact : ∀ v, v.isDocument = true → v.Stored Exact kNestingLimit →
    fromJson (compact v) = some v
  read_indented : ∀ v, v.isDocument = true → v.Stored Exact kNestingLimit →
    fromJson (indented v) = some v
  compact_text : ∀ v, toUtf8 (fromUtf8 (compact v)) = compact v
  compact_line : ∀ v, ∀ c ∈ compact v, 0x20 ≤ c
  compact_object : ∀ o, ∃ s, compact (.object o) = 0x7B :: (s ++ [0x7D])
  compact_array : ∀ a, ∃ s, compact (.array a) = 0x5B :: s

namespace JsonLibrary

variable (J : JsonLibrary)

theorem compact_injective (hv : v.isDocument = true) (hw : w.isDocument = true)
    (hvs : v.Stored J.Exact kNestingLimit) (hws : w.Stored J.Exact kNestingLimit)
    (h : J.compact v = J.compact w) : v = w := by
  have he := J.read_compact v hv hvs
  rw [h, J.read_compact w hw hws] at he
  exact (Option.some.inj he).symm

theorem toUtf8_compact (h : v.isDocument = true) :
    toUtf8 (QString.fromUtf8 (J.compact v)) = J.compact v := by
  have hbom : [0xEF, 0xBB, 0xBF].isPrefixOf (J.compact v) = false := by
    cases v with
    | array a =>
      obtain ⟨s, hs⟩ := J.compact_array a
      rw [hs]
      rfl
    | object o =>
      obtain ⟨s, hs⟩ := J.compact_object o
      rw [hs]
      rfl
    | _ => exact absurd h Bool.false_ne_true
  rw [QString.fromUtf8, hbom, if_neg Bool.false_ne_true, J.compact_text]

theorem exact_nat (h : n < 2 ^ 63) : J.Exact (n : Nat) :=
  J.exact_int n (by omega) (by exact_mod_cast h)

theorem exact_int32 (h : IsInt32 n) : J.Exact (n : Int) := by
  obtain ⟨hlo, hhi⟩ := h
  exact J.exact_int n (by omega) (by omega)

end JsonLibrary

end Nullock

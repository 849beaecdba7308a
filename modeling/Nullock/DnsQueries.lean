import Nullock.Text
import Mathlib.Data.List.Infix

namespace Nullock.DnsLogic

def kMaxDnsNameChars : Nat := 255

structure ParsedQuery where
  valid : Bool := false
  qname : QString := []
  qtype : Nat := 0
  qdcount : Nat := 0
  questionEnd : Nat := 0
deriving DecidableEq

def safeLabelChar (b : UInt8) : UInt16 :=
  if (0x41 ≤ b ∧ b ≤ 0x5A) ∨ (0x61 ≤ b ∧ b ≤ 0x7A) ∨ (0x30 ≤ b ∧ b ≤ 0x39) ∨ b = 0x2D ∨ b = 0x5F
  then b.toUInt16
  else 0x3F

def word (hi lo : UInt8) : Nat := hi.toNat * 256 + lo.toNat

section Parsing
variable (d : List UInt8)

def octets (start : Nat) : Nat → Option QByteArray
  | 0 => some []
  | n + 1 => d[start]?.bind (fun b : UInt8 => (octets (start + 1) n).map (b :: ·))

/-- A name with the label of a length behind it, as far as there is room. -/
def appendLabel (pos len : Nat) (qname : QString) : Option QString :=
  if qname.length < kMaxDnsNameChars then
    let qname := if qname.isEmpty then qname else qname ++ [0x2E]
    let take := min len (kMaxDnsNameChars - qname.length)
    (octets d (pos + 1) take).map (fun label => qname ++ label.map safeLabelChar)
  else some qname

def walkLabels (pos : Nat) (qname : QString) : Option (Option Nat × QString) :=
  if pos < d.length then
    match d[pos]? with
    | none => none
    | some len =>
      if len = 0 then some (some (pos + 1), qname)
      else if len &&& 0xC0 ≠ 0 then some (none, qname)
      else if d.length < pos + 1 + len.toNat then some (none, qname)
      else
        match appendLabel d pos len.toNat qname with
        | none => none
        | some qname => walkLabels (pos + 1 + len.toNat) qname
  else some (none, qname)
termination_by d.length - pos

/-- A parsed query; none where an octet behind the end is read. -/
def parseDnsQuery : Option ParsedQuery :=
  if d.length < 12 then some {}
  else
    d[2]?.bind fun flags : UInt8 =>
    if flags &&& 0x80 ≠ 0 then some {}
    else if (flags >>> 3) &&& 0x0F ≠ 0 then some {}
    else
      d[4]?.bind fun hi => d[5]?.bind fun lo =>
      if word hi lo ≠ 1 then some { qdcount := word hi lo }
      else
        (walkLabels d 12 []).bind fun
          | (none, qname) => some { qdcount := word hi lo, qname := qname }
          | (some pos, qname) =>
            if d.length < pos + 4 then some { qdcount := word hi lo, qname := qname }
            else
              d[pos]?.bind fun a => d[pos + 1]?.bind fun b =>
              some {
                valid := true
                qname := qname
                qtype := word a b
                qdcount := word hi lo
                questionEnd := pos + 4 }

end Parsing

def isLowerHex (c : UInt16) : Bool := (0x30 ≤ c && c ≤ 0x39) || (0x61 ≤ c && c ≤ 0x66)

def extractToken (qname : QString) : QString :=
  let head := toLower (match indexOf [0x2E] qname with
    | some dot => if 0 < dot then qname.take dot else qname
    | none => qname)
  if head.length = 16 ∧ head.all isLowerHex then head else []

def isHexOctet (b : UInt8) : Bool :=
  (0x30 ≤ b && b ≤ 0x39) || (0x61 ≤ b && b ≤ 0x66) || (0x41 ≤ b && b ≤ 0x46)

def wire (labels : List QByteArray) : QByteArray :=
  labels.flatMap (fun label => label.length.toUInt8 :: label)

def Labels (labels : List QByteArray) : Prop :=
  ∀ label ∈ labels, 1 ≤ label.length ∧ label.length ≤ 63

/-- The labels joined by dots, each octet that is unusual in a host replaced. -/
def dotted (labels : List QByteArray) : QString :=
  [0x2E].intercalate (labels.map (fun label => label.map safeLabelChar))

structure Question (d : List UInt8) (labels : List QByteArray) (a b : UInt8) : Prop where
  header : 12 ≤ d.length
  query : ∃ flags : UInt8, d[2]? = some flags ∧ flags &&& 0x80 = 0 ∧ (flags >>> 3) &&& 0x0F = 0
  count : ∃ hi lo : UInt8, d[4]? = some hi ∧ d[5]? = some lo ∧ word hi lo = 1
  isName : Labels labels
  body : ∃ c e rest, d.drop 12 = wire labels ++ 0 :: a :: b :: c :: e :: rest

set_option maxRecDepth 2000 in
theorem label_length_iff (len : UInt8) : len &&& 0xC0 = 0 ↔ len.toNat ≤ 63 := by
  have hall : ∀ n : Fin 256, (UInt8.ofNat n.val &&& 0xC0 = 0 ↔ n.val ≤ 63) := by decide
  have h := hall ⟨len.toNat, len.toNat_lt⟩
  rwa [UInt8.ofNat_toNat] at h

section Parsing
variable {d : List UInt8}

theorem octets_eq (start n : Nat) (h : start + n ≤ d.length) :
    octets d start n = some ((d.drop start).take n) := by
  induction n generalizing start with
  | zero => rfl
  | succ n ih =>
    have hlt : start < d.length := by omega
    rw [octets, List.getElem?_eq_getElem hlt, Option.bind_some, ih (start + 1) (by omega),
      List.drop_eq_getElem_cons hlt, List.take_succ_cons]
    rfl

theorem appendLabel_some (h : pos + 1 + len ≤ d.length) (qname : QString) :
    ∃ name, appendLabel d pos len qname = some name := by
  rw [appendLabel]
  split
  · dsimp only
    rw [octets_eq _ _ (by omega)]
    exact ⟨_, rfl⟩
  · exact ⟨_, rfl⟩

theorem walkLabels_some (pos : Nat) (qname : QString) : ∃ res, walkLabels d pos qname = some res := by
  induction hn : d.length - pos using Nat.strong_induction_on generalizing pos qname with
  | _ n ih =>
    rw [walkLabels]
    split
    · rename_i hlt
      rw [List.getElem?_eq_getElem hlt]
      dsimp only
      split
      · exact ⟨_, rfl⟩
      split
      · exact ⟨_, rfl⟩
      split
      · exact ⟨_, rfl⟩
      rename_i hroom
      obtain ⟨name, hname⟩ := appendLabel_some (Nat.le_of_not_lt hroom) qname
      rw [hname]
      exact ih _ (by omega) _ _ rfl
    · exact ⟨_, rfl⟩

theorem labels_of_walk (h : walkLabels d pos qname = some (some stop, name)) :
    ∃ labels rest, Labels labels ∧ d.drop pos = wire labels ++ 0 :: rest ∧
      stop = pos + (wire labels).length + 1 := by
  induction hn : d.length - pos using Nat.strong_induction_on generalizing pos qname with
  | _ n ih =>
    rw [walkLabels] at h
    split at h
    · rename_i hlt
      have hdrop := List.drop_eq_getElem_cons hlt
      rw [List.getElem?_eq_getElem hlt] at h
      dsimp only at h
      split at h
      · rename_i hzero
        cases h
        exact ⟨[], d.drop (pos + 1), fun label hl => (List.not_mem_nil hl).elim,
          by rw [hdrop, hzero]; rfl, rfl⟩
      split at h
      · cases h
      rename_i hnz hlong
      split at h
      · cases h
      rename_i hroom
      obtain ⟨name', hname⟩ := appendLabel_some (Nat.le_of_not_lt hroom) qname
      rw [hname] at h
      obtain ⟨labels, rest, hlabels, hrest, hstop⟩ := ih _ (by omega) h rfl
      have hlen : ((d.drop (pos + 1)).take d[pos].toNat).length = d[pos].toNat := by
        rw [List.length_take, List.length_drop]
        omega
      refine ⟨(d.drop (pos + 1)).take d[pos].toNat :: labels, rest, ?_, ?_, ?_⟩
      · intro label hl
        rcases List.mem_cons.1 hl with rfl | hl
        · have hle := (label_length_iff d[pos]).1 (not_not.1 hlong)
          have hpos : d[pos].toNat ≠ 0 := fun he => hnz (UInt8.toNat_inj.1 he)
          omega
        · exact hlabels label hl
      · rw [hdrop, wire, List.flatMap_cons, hlen, show d[pos].toNat.toUInt8 = d[pos] from
          UInt8.ofNat_toNat, List.cons_append, List.cons_append, List.append_assoc, ← wire, ← hrest,
          ← List.drop_drop (i := d[pos].toNat) (j := pos + 1), List.take_append_drop]
      · rw [hstop, wire, wire, List.flatMap_cons, List.length_append, List.length_cons, hlen]
        omega
    · cases h

def dottedFrom (full : QString) : List QByteArray → QString
  | [] => full
  | label :: labels =>
    dottedFrom ((if full.isEmpty then full else full ++ [0x2E]) ++ label.map safeLabelChar) labels

theorem dottedFrom_join (hfull : full ≠ []) (labels : List QByteArray) :
    dottedFrom full labels = [0x2E].intercalate
      (full :: labels.map (fun label => label.map safeLabelChar)) := by
  induction labels generalizing full with
  | nil => rw [dottedFrom, List.map_nil, List.intercalate_singleton]
  | cons label labels ih =>
    have hempty : full.isEmpty = false := by simpa using hfull
    rw [dottedFrom, hempty, if_neg Bool.false_ne_true, ih (by simp), List.map_cons]
    cases labels with
    | nil => simp [List.intercalate]
    | cons next labels => simp [List.intercalate]

theorem dottedFrom_nil (h : Labels labels) : dottedFrom [] labels = dotted labels := by
  cases labels with
  | nil => rfl
  | cons label labels =>
    have hlen := (h label List.mem_cons_self).1
    have hne : label.map safeLabelChar ≠ [] := by
      intro he
      rw [List.map_eq_nil_iff.1 he] at hlen
      cases hlen
    rw [dottedFrom, List.isEmpty_nil, if_pos rfl, List.nil_append, dottedFrom_join hne, dotted,
      List.map_cons]

theorem appendLabel_cut (h : pos + 1 + label.length ≤ d.length)
    (hlabel : (d.drop (pos + 1)).take label.length = label) (full : QString) :
    appendLabel d pos label.length (full.take kMaxDnsNameChars) =
      some (((if full.isEmpty then full else full ++ [0x2E]) ++
        label.map safeLabelChar).take kMaxDnsNameChars) := by
  have hoctets (n : Nat) (hn : n ≤ label.length) : octets d (pos + 1) n = some (label.take n) := by
    rw [octets_eq _ _ (by omega)]
    conv => rhs; rw [← hlabel]
    rw [List.take_take, Nat.min_eq_left hn]
  have hempty : (full.take kMaxDnsNameChars).isEmpty = full.isEmpty := by
    cases full with
    | nil => rfl
    | cons c full => rfl
  rw [appendLabel, hempty]
  by_cases hroom : full.length < kMaxDnsNameChars
  · rw [List.take_of_length_le (Nat.le_of_lt hroom), if_pos hroom]
    dsimp only
    rw [hoctets _ (Nat.min_le_left _ _), Option.map_some, List.take_append, List.map_take]
    generalize hq : (if full.isEmpty = true then full else full ++ [0x2E]) = q
    have hle : q.length ≤ kMaxDnsNameChars := by
      rw [← hq]
      split
      · omega
      · rw [List.length_append, List.length_singleton]
        omega
    rw [List.take_of_length_le hle, Nat.min_comm, ← List.take_take,
      List.take_of_length_le (List.length_map _).le]
  · have hge : kMaxDnsNameChars ≤ full.length := Nat.le_of_not_lt hroom
    have hcut : ¬ (full.take kMaxDnsNameChars).length < kMaxDnsNameChars := by
      rw [List.length_take]
      omega
    have hne : full.isEmpty = false := by
      cases full with
      | nil => cases hge
      | cons c full => rfl
    rw [if_neg hcut, hne, if_neg Bool.false_ne_true, List.append_assoc,
      List.take_append_of_le_length hge]

theorem walk_of_labels (h : Labels labels) (hdrop : d.drop pos = wire labels ++ 0 :: rest)
    (full : QString) :
    walkLabels d pos (full.take kMaxDnsNameChars) = some (some (pos + (wire labels).length + 1),
      (dottedFrom full labels).take kMaxDnsNameChars) := by
  induction labels generalizing pos full with
  | nil =>
    have hget : d[pos]? = some 0 := by rw [← List.head?_drop, hdrop]; rfl
    have hlt := (List.getElem?_eq_some_iff.1 hget).1
    rw [walkLabels, if_pos hlt, hget]
    rfl
  | cons label labels ih =>
    obtain ⟨hpos, hle⟩ := h label List.mem_cons_self
    have hnat : label.length.toUInt8.toNat = label.length :=
      UInt8.toNat_ofNat_of_lt' (Nat.lt_of_le_of_lt hle (by decide))
    rw [wire, List.flatMap_cons, ← wire, List.append_assoc, List.cons_append] at hdrop
    have hget : d[pos]? = some label.length.toUInt8 := by rw [← List.head?_drop, hdrop]; rfl
    have hlt := (List.getElem?_eq_some_iff.1 hget).1
    have hnext : d.drop (pos + 1) = label ++ (wire labels ++ 0 :: rest) := by
      rw [← List.drop_drop, hdrop]
      rfl
    have hbehind : d.drop (pos + 1 + label.length) = wire labels ++ 0 :: rest := by
      rw [← List.drop_drop, hnext, List.drop_left]
    have hroom : pos + 1 + label.length ≤ d.length := by
      have hlen := congrArg List.length hnext
      rw [List.length_drop, List.length_append] at hlen
      omega
    have hnz : label.length.toUInt8 ≠ 0 := by
      intro he
      rw [he] at hnat
      exact Nat.lt_irrefl _ (hnat ▸ hpos)
    have hshort : ¬ label.length.toUInt8 &&& 0xC0 ≠ 0 :=
      not_not.2 ((label_length_iff _).2 (hnat.symm ▸ hle))
    rw [walkLabels, if_pos hlt, hget]
    dsimp only
    rw [if_neg hnz, if_neg hshort, hnat, if_neg (Nat.not_lt.2 hroom),
      appendLabel_cut hroom (by rw [hnext, List.take_left])]
    dsimp only
    rw [ih (fun l hl => h l (List.mem_cons_of_mem label hl)) hbehind, dottedFrom, wire, wire,
      List.flatMap_cons, List.length_append, List.length_cons]
    congr 3
    omega

end Parsing

def IsToken (token : QByteArray) : Prop :=
  token.length = 16 ∧ ∀ b ∈ token, isHexOctet b = true

theorem parseDnsQuery_some (d : QByteArray) : ∃ r, parseDnsQuery d = some r := by
  rw [parseDnsQuery]
  by_cases hlen : d.length < 12
  · exact ⟨_, if_pos hlen⟩
  rw [if_neg hlen, List.getElem?_eq_getElem (show 2 < d.length by omega),
    List.getElem?_eq_getElem (show 4 < d.length by omega),
    List.getElem?_eq_getElem (show 5 < d.length by omega)]
  simp only [Option.bind_some]
  split
  · exact ⟨_, rfl⟩
  split
  · exact ⟨_, rfl⟩
  split
  · exact ⟨_, rfl⟩
  obtain ⟨⟨stop, name⟩, hwalk⟩ := walkLabels_some (d := d) 12 []
  rw [hwalk, Option.bind_some]
  cases stop with
  | none => exact ⟨_, rfl⟩
  | some pos =>
    dsimp only
    split
    · exact ⟨_, rfl⟩
    rw [List.getElem?_eq_getElem (show pos < d.length by omega),
      List.getElem?_eq_getElem (show pos + 1 < d.length by omega)]
    exact ⟨_, rfl⟩

theorem parse_of_question {d : QByteArray} (h : Question d labels a b) :
    parseDnsQuery d = some {
      valid := true
      qname := (dotted labels).take kMaxDnsNameChars
      qtype := word a b
      qdcount := 1
      questionEnd := 12 + (wire labels).length + 5 } := by
  obtain ⟨hheader, ⟨flags, hflags, hqr, hopcode⟩, ⟨hi, lo, hhi, hlo, hone⟩, hlabels, c, e, rest,
    hbody⟩ := h
  have hwalk := walk_of_labels hlabels hbody []
  rw [List.take_nil, dottedFrom_nil hlabels] at hwalk
  have hend : d.drop (12 + (wire labels).length + 1) = a :: b :: c :: e :: rest := by
    rw [Nat.add_assoc, ← List.drop_drop, hbody, ← List.drop_drop, List.drop_left]
    rfl
  have hlen : 12 + (wire labels).length + 1 + 4 ≤ d.length := by
    have hl := congrArg List.length hend
    rw [List.length_drop] at hl
    simp only [List.length_cons] at hl
    omega
  have ha : d[12 + (wire labels).length + 1]? = some a := by rw [← List.head?_drop, hend]; rfl
  have hb : d[12 + (wire labels).length + 1 + 1]? = some b := by
    rw [← List.head?_drop, ← List.drop_drop, hend]
    rfl
  rw [parseDnsQuery, if_neg (Nat.not_lt.2 hheader), hflags, Option.bind_some,
    if_neg (not_not.2 hqr), if_neg (not_not.2 hopcode), hhi, hlo, Option.bind_some,
    Option.bind_some, if_neg (not_not.2 hone), hwalk, Option.bind_some]
  dsimp only
  rw [if_neg (Nat.not_lt.2 hlen), ha, hb, Option.bind_some, Option.bind_some, hone]

theorem question_of_parse {d : QByteArray} (h : parseDnsQuery d = some r) (hvalid : r.valid = true) :
    ∃ labels a b, Question d labels a b := by
  rw [parseDnsQuery] at h
  split at h
  · cases h; cases hvalid
  rename_i hlen
  have hflags := List.getElem?_eq_getElem (show 2 < d.length by omega)
  have hhi := List.getElem?_eq_getElem (show 4 < d.length by omega)
  have hlo := List.getElem?_eq_getElem (show 5 < d.length by omega)
  rw [hflags, hhi, hlo] at h
  simp only [Option.bind_some] at h
  split at h
  · cases h; cases hvalid
  rename_i hqr
  split at h
  · cases h; cases hvalid
  rename_i hopcode
  split at h
  · cases h; cases hvalid
  rename_i hone
  obtain ⟨⟨stop, name⟩, hwalk⟩ := walkLabels_some (d := d) 12 []
  rw [hwalk, Option.bind_some] at h
  cases stop with
  | none => cases h; cases hvalid
  | some pos =>
    dsimp only at h
    split at h
    · cases h; cases hvalid
    rename_i hroom
    obtain ⟨labels, rest, hlabels, hdrop, hstop⟩ := labels_of_walk hwalk
    have hrest : d.drop pos = rest := by
      rw [hstop, Nat.add_assoc, ← List.drop_drop, hdrop, ← List.drop_drop, List.drop_left]
      rfl
    have hbehind : 4 ≤ rest.length := by
      rw [← hrest, List.length_drop]
      omega
    match rest, hbehind, hdrop with
    | a :: b :: c :: e :: rest, _, hdrop =>
      exact ⟨labels, a, b, Nat.le_of_not_lt hlen, ⟨_, hflags, not_not.1 hqr, not_not.1 hopcode⟩,
        ⟨_, _, hhi, hlo, not_not.1 hone⟩, hlabels, c, e, rest, hdrop⟩

end Nullock.DnsLogic

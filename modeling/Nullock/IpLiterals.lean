import Nullock.Blocklist

namespace Nullock.CertLogic

def sanEntryForHost (host : QString) : QString :=
  if isIpv4Literal host || isIpv6Literal host then utf16 "IP:" ++ host else utf16 "DNS:" ++ host

def IsByte (p : QString) : Prop :=
  p ≠ [] ∧ p.length ≤ 3 ∧ (∀ c ∈ p, isDigit c = true) ∧ ∃ n ≤ 255, digitsFrom 10 0 p = some n

def IsQuad (q : QString) : Prop :=
  ∃ bytes : List QString, bytes.length = 4 ∧ (∀ p ∈ bytes, IsByte p) ∧
    q = [0x2E].intercalate bytes

def IsGroup (g : QString) : Prop := g ≠ [] ∧ g.length ≤ 4 ∧ ∀ c ∈ g, isHexDigit c = true

/-- A group for each part; the last may be an IPv4 address for two. -/
inductive Pieces : List QString → Nat → Prop
  | nil : Pieces [] 0
  | quad : IsQuad q → Pieces [q] 2
  | cons : IsGroup g → Pieces ps n → Pieces (g :: ps) (n + 1)

def IsIpv6Text (s : QString) : Prop :=
  (∃ ps, Pieces ps 8 ∧ s = [0x3A].intercalate ps) ∨
    ∃ front back n, (∀ g ∈ front, IsGroup g) ∧ Pieces back n ∧ front.length + n ≤ 7 ∧
      s = [0x3A].intercalate front ++ utf16 "::" ++ [0x3A].intercalate back

section Parts

theorem isIpv4Part_iff : isIpv4Part p = true ↔ IsByte p := by
  rw [isIpv4Part, Bool.and_eq_true, Bool.and_eq_true, Bool.and_eq_true, Bool.not_eq_true',
    List.isEmpty_eq_false_iff, decide_eq_true_eq, List.all_eq_true, Option.any_eq_true, IsByte,
    and_assoc, and_assoc]
  refine and_congr_right fun _ => and_congr_right fun _ => and_congr_right fun _ => ?_
  constructor
  · rintro ⟨n, hn, hle⟩
    exact ⟨n, of_decide_eq_true hle, hn⟩
  · rintro ⟨n, hle, hn⟩
    exact ⟨n, hn, decide_eq_true hle⟩

theorem IsByte.noDot (h : IsByte p) : 0x2E ∉ p := fun hm => by cases h.2.2.1 _ hm

theorem isIpv4Literal_iff : isIpv4Literal host = true ↔ IsQuad host := by
  rw [isIpv4Literal, Bool.and_eq_true, beq_iff_eq, List.all_eq_true]
  constructor
  · rintro ⟨hlength, hparts⟩
    exact ⟨_, hlength, fun p hp => isIpv4Part_iff.1 (hparts p hp),
      (List.intercalate_splitOn 0x2E).symm⟩
  · rintro ⟨bytes, hlength, hbytes, rfl⟩
    have hne : bytes ≠ [] := by
      rintro rfl
      cases hlength
    rw [List.splitOn_intercalate 0x2E (fun p hp => (hbytes p hp).noDot) hne]
    exact ⟨hlength, fun p hp => isIpv4Part_iff.2 (hbytes p hp)⟩

theorem isIpv6Group_iff : isIpv6Group g = true ↔ IsGroup g := by
  rw [isIpv6Group, Bool.and_eq_true, Bool.and_eq_true, Bool.not_eq_true',
    List.isEmpty_eq_false_iff, decide_eq_true_eq, List.all_eq_true, and_assoc, IsGroup]

theorem IsGroup.noColon (h : IsGroup g) : 0x3A ∉ g := fun hm => by cases h.2.2 _ hm

theorem IsGroup.noDot (h : IsGroup g) : 0x2E ∉ g := fun hm => by cases h.2.2 _ hm

theorem IsQuad.chars (h : IsQuad q) (hc : c ∈ q) : isDigit c = true ∨ c = 0x2E := by
  obtain ⟨bytes, -, hbytes, rfl⟩ := h
  rcases mem_intercalate hc with hdot | ⟨p, hp, hmem⟩
  · exact .inr (List.mem_singleton.1 hdot)
  · exact .inl ((hbytes p hp).2.2.1 c hmem)

theorem IsQuad.noColon (h : IsQuad q) : 0x3A ∉ q := by
  intro hm
  rcases h.chars hm with hdigit | hdot
  · cases hdigit
  · cases hdot

theorem IsQuad.dot (h : IsQuad q) : 0x2E ∈ q := by
  obtain ⟨bytes, hlength, -, rfl⟩ := h
  match bytes with
  | [a, b, c, d] => simp

end Parts

section Pieces

def Groups (ps : List QString) (n : Nat) : Prop := (∀ g ∈ ps, IsGroup g) ∧ ps.length = n

theorem Groups.pieces (h : Groups ps n) : Pieces ps n := by
  obtain ⟨hgroups, rfl⟩ := h
  induction ps with
  | nil => exact .nil
  | cons g ps ih =>
    exact .cons (hgroups g List.mem_cons_self)
      (ih (fun p hp => hgroups p (List.mem_cons_of_mem g hp)))

theorem Groups.concat_quad (h : Groups ps n) (hq : IsQuad q) : Pieces (ps ++ [q]) (n + 2) := by
  obtain ⟨hgroups, rfl⟩ := h
  induction ps with
  | nil => exact .quad hq
  | cons g ps ih =>
    have hrest := ih (fun p hp => hgroups p (List.mem_cons_of_mem g hp))
    have hlength : (g :: ps).length + 2 = ps.length + 2 + 1 := by
      rw [List.length_cons]
    rw [hlength]
    exact .cons (hgroups g List.mem_cons_self) hrest

theorem Pieces.groups (h : Pieces ps n) :
    Groups ps n ∨ ∃ gs q m, ps = gs ++ [q] ∧ IsQuad q ∧ Groups gs m ∧ n = m + 2 := by
  induction h with
  | nil => exact .inl ⟨fun g hg => absurd hg List.not_mem_nil, rfl⟩
  | @quad q hq =>
    exact .inr ⟨[], q, 0, rfl, hq, ⟨fun g hg => absurd hg List.not_mem_nil, rfl⟩, rfl⟩
  | @cons g ps n hg h ih =>
    rcases ih with ⟨hgroups, hlength⟩ | ⟨gs, q, m, rfl, hq, ⟨hgroups, hlength⟩, rfl⟩
    · exact .inl ⟨List.forall_mem_cons.2 ⟨hg, hgroups⟩, by rw [List.length_cons, hlength]⟩
    · refine .inr ⟨g :: gs, q, m + 1, rfl, hq, ⟨List.forall_mem_cons.2 ⟨hg, hgroups⟩, ?_⟩, ?_⟩
      · rw [List.length_cons, hlength]
      · omega

theorem Pieces.noColon (h : Pieces ps n) : ∀ p ∈ ps, 0x3A ∉ p := by
  induction h with
  | nil => exact fun p hp => absurd hp List.not_mem_nil
  | quad hq => exact List.forall_mem_singleton.2 hq.noColon
  | cons hg h ih => exact List.forall_mem_cons.2 ⟨hg.noColon, ih⟩

def pad (ps : List QString) : List QString := if ps.isEmpty then [[]] else ps

theorem pad_ne (h : ps ≠ []) : pad ps = ps := by
  rw [pad, List.isEmpty_eq_false_iff.2 h, if_neg Bool.false_ne_true]

theorem splitOn_pad (h : ∀ p ∈ ps, 0x3A ∉ p) : ([0x3A].intercalate ps).splitOn 0x3A = pad ps := by
  cases ps with
  | nil => rfl
  | cons p ps =>
    rw [pad_ne (List.cons_ne_nil p ps)]
    exact List.splitOn_intercalate 0x3A h (List.cons_ne_nil p ps)

def Form (P : List QString → Nat → Prop) (parts : List QString) : Prop :=
  P parts 8 ∨ ∃ front back n, (∀ g ∈ front, IsGroup g) ∧ P back n ∧ front.length + n ≤ 7 ∧
    parts = pad front ++ [] :: pad back

theorem splitOn_double (a b : QString) : (a ++ utf16 "::" ++ b).splitOn 0x3A =
    a.splitOn 0x3A ++ [] :: b.splitOn 0x3A := by
  have hcolons : utf16 "::" = [0x3A, 0x3A] := rfl
  rw [hcolons, List.append_assoc]
  show (a ++ 0x3A :: 0x3A :: b).splitOn 0x3A = _
  rw [List.splitOn_append_cons_self]
  exact congrArg (a.splitOn 0x3A ++ ·) (List.splitOn_append_cons_self [] b)

theorem eq_of_splitOn {s t : QString} (h : s.splitOn 0x3A = t.splitOn 0x3A) : s = t := by
  calc
    s = [0x3A].intercalate (s.splitOn 0x3A) := (List.intercalate_splitOn 0x3A).symm
    _ = t := by rw [h, List.intercalate_splitOn]

theorem isIpv6Text_iff : IsIpv6Text s ↔ Form Pieces (s.splitOn 0x3A) := by
  constructor
  · rintro (⟨ps, hps, rfl⟩ | ⟨front, back, n, hfront, hback, hle, rfl⟩)
    · apply Or.inl
      rw [splitOn_pad hps.noColon, pad_ne]
      · exact hps
      · rintro rfl
        cases hps
    · apply Or.inr
      refine ⟨front, back, n, hfront, hback, hle, ?_⟩
      rw [splitOn_double, splitOn_pad (fun g hg => (hfront g hg).noColon),
        splitOn_pad hback.noColon]
  · rintro (hps | ⟨front, back, n, hfront, hback, hle, hparts⟩)
    · exact .inl ⟨_, hps, (List.intercalate_splitOn 0x3A).symm⟩
    · refine .inr ⟨front, back, n, hfront, hback, hle, eq_of_splitOn ?_⟩
      rw [splitOn_double, splitOn_pad (fun g hg => (hfront g hg).noColon),
        splitOn_pad hback.noColon, hparts]

end Pieces

section Code

theorem pad_colonGroups (s : QString) : pad (colonGroups s) = s.splitOn 0x3A := by
  rw [colonGroups]
  cases s with
  | nil => rfl
  | cons c s =>
    rw [List.isEmpty_cons, if_neg Bool.false_ne_true]
    exact pad_ne (List.splitOn_ne_nil _ _)

theorem double_splitOn {s : QString} (h : utf16 "::" <+: s.drop j) : ∃ before after,
    s.splitOn 0x3A = before ++ [] :: after ∧ before ≠ [] ∧ after ≠ [] := by
  obtain ⟨rest, hrest⟩ := h
  refine ⟨(s.take j).splitOn 0x3A, rest.splitOn 0x3A, ?_, List.splitOn_ne_nil _ _,
    List.splitOn_ne_nil _ _⟩
  rw [← splitOn_double, List.append_assoc, hrest, List.take_append_drop]

theorem indexOf_double_none {s : QString}
    (h : ∀ before after, s.splitOn 0x3A = before ++ [] :: after →
      before ≠ [] → after ≠ [] → False) : indexOf (utf16 "::") s = none := by
  apply indexOf_eq_none_iff.2
  intro i hi hprefix
  obtain ⟨before, after, hsplit, hbefore, hafter⟩ := double_splitOn hprefix
  exact h before after hsplit hbefore hafter

theorem nil_notMem_groups {ps : List QString} (h : ∀ g ∈ ps, IsGroup g) : [] ∉ ps :=
  fun hm => (h [] hm).1 rfl

theorem indexOf_double {front back : List QString} (hfront : ∀ g ∈ front, IsGroup g) :
    indexOf (utf16 "::") ([0x3A].intercalate front ++ utf16 "::" ++ [0x3A].intercalate back) =
      some ([0x3A].intercalate front : QString).length := by
  have hplain := splitOn_pad (fun g hg => (hfront g hg).noColon)
  generalize hF : ([0x3A].intercalate front : QString) = F at hplain
  generalize ([0x3A].intercalate back : QString) = B
  apply indexOf_eq_some_iff.2
  refine ⟨?_, ?_, ?_⟩
  · rw [List.append_assoc, List.drop_left]
    exact List.prefix_append _ _
  · rw [List.append_assoc, List.length_append]
    exact Nat.le_add_right _ _
  · rintro j hj hprefix
    have hinside : utf16 "::" <+: (F ++ [0x3A]).drop j := by
      have hall : F ++ utf16 "::" ++ B = F ++ [0x3A] ++ (0x3A :: B) := by
        rw [List.append_assoc, List.append_assoc]
        rfl
      rw [hall, List.drop_append_of_le_length (by rw [List.length_append]; omega)] at hprefix
      apply List.prefix_of_prefix_length_le hprefix (List.prefix_append _ _)
      rw [List.length_drop, List.length_append, List.length_singleton]
      have hlength : (utf16 "::").length = 2 := rfl
      omega
    obtain ⟨before, after, hsplit, hbefore, hafter⟩ := double_splitOn hinside
    have hconcat : (F ++ [0x3A]).splitOn 0x3A = pad front ++ [[]] := by
      rw [← hplain]
      exact List.splitOn_append_cons_self F []
    have hne : front ≠ [] := by
      rintro rfl
      rw [← hF] at hj
      exact absurd hj (Nat.not_lt_zero j)
    rw [hconcat, pad_ne hne] at hsplit
    obtain ⟨init, last, rfl⟩ : ∃ init last, after = init ++ [last] :=
      ⟨_, _, (List.dropLast_append_getLast hafter).symm⟩
    have hinit : front = before ++ [] :: init := by
      rw [← List.cons_append, ← List.append_assoc] at hsplit
      exact (List.append_inj' hsplit rfl).1
    apply nil_notMem_groups hfront
    rw [hinit]
    exact List.mem_append_right _ List.mem_cons_self

theorem loneColon_false (hhead : ∀ parts, host.splitOn 0x3A = [] :: parts → utf16 "::" <+: host)
    (hlast : ∀ parts, host.splitOn 0x3A = parts ++ [[]] → utf16 "::" <:+ host) :
    loneColon host = false := by
  rw [loneColon, Bool.or_eq_false_iff]
  constructor
  · by_contra hlone
    rw [Bool.not_eq_false, Bool.and_eq_true, beq_iff_eq, Bool.not_eq_true'] at hlone
    obtain ⟨s, hs⟩ := List.head?_eq_some_iff.1 hlone.1
    have hprefix := hhead (s.splitOn 0x3A) (by rw [hs]; exact List.splitOn_append_cons_self [] s)
    rw [List.isPrefixOf_iff_prefix.2 hprefix] at hlone
    exact Bool.noConfusion hlone.2
  · by_contra hlone
    rw [Bool.not_eq_false, Bool.and_eq_true, beq_iff_eq, Bool.not_eq_true'] at hlone
    obtain ⟨s, hs⟩ := List.getLast?_eq_some_iff.1 hlone.1
    have hsuffix := hlast (s.splitOn 0x3A) (by rw [hs]; exact List.splitOn_append_cons_self s [])
    rw [List.isSuffixOf_iff_suffix.2 hsuffix] at hlone
    exact Bool.noConfusion hlone.2

theorem all_groups {ps : List QString} : ps.all isIpv6Group = true ↔ ∀ g ∈ ps, IsGroup g := by
  rw [List.all_eq_true]
  exact forall₂_congr (fun g _ => isIpv6Group_iff)

theorem colonGroups_intercalate {ps : List QString} (h : ∀ g ∈ ps, IsGroup g) :
    colonGroups ([0x3A].intercalate ps) = ps := by
  have hsplit := splitOn_pad (fun g hg => (h g hg).noColon)
  cases ps with
  | nil => rfl
  | cons g ps =>
    rw [pad_ne (List.cons_ne_nil g ps)] at hsplit
    rw [colonGroups, if_neg, hsplit]
    intro hempty
    rw [List.isEmpty_iff.1 hempty] at hsplit
    exact (h g List.mem_cons_self).1 (List.cons.inj hsplit).1.symm

theorem groups_of_code {host : QString}
    (h : (ipv6Groups host).any (fun groups => groups.all isIpv6Group) = true) :
    Form Groups (host.splitOn 0x3A) := by
  obtain ⟨groups, hgroups, hall⟩ := (Option.any_eq_true _ _).1 h
  have hall := all_groups.1 hall
  rw [ipv6Groups] at hgroups
  cases hdc : indexOf (utf16 "::") host with
  | some dc =>
    rw [hdc] at hgroups
    dsimp only at hgroups
    split at hgroups
    · cases hgroups
    split at hgroups
    · cases hgroups
    rename_i hle
    cases hgroups
    rw [List.length_append] at hle
    have hsplit : host = host.take dc ++ utf16 "::" ++ host.drop (dc + 2) := by
      rw [List.append_assoc]
      exact (indexOf_split hdc).1
    refine .inr ⟨colonGroups (host.take dc), colonGroups (host.drop (dc + 2)), _,
      fun g hg => hall g (List.mem_append_left _ hg),
      ⟨fun g hg => hall g (List.mem_append_right _ hg), rfl⟩, by omega, ?_⟩
    conv => lhs; rw [hsplit]
    rw [splitOn_double, pad_colonGroups, pad_colonGroups]
  | none =>
    rw [hdc] at hgroups
    dsimp only at hgroups
    split at hgroups
    · cases hgroups
    · rename_i hlength
      cases hgroups
      exact .inl ⟨hall, not_not.1 hlength⟩

theorem code_of_groups {host : QString} (h : Form Groups (host.splitOn 0x3A)) :
    loneColon host = false ∧
      (ipv6Groups host).any (fun groups => groups.all isIpv6Group) = true := by
  rcases h with ⟨hgroups, hlength⟩ | ⟨front, back, n, hfront, ⟨hback, rfl⟩, hle, hsplit⟩
  · have hnil := nil_notMem_groups hgroups
    constructor
    · apply loneColon_false
      · intro parts hparts
        rw [hparts] at hnil
        exact absurd List.mem_cons_self hnil
      · intro parts hparts
        rw [hparts] at hnil
        exact absurd (List.mem_append_right _ List.mem_cons_self) hnil
    · have hnone : indexOf (utf16 "::") host = none := by
        apply indexOf_double_none
        intro before after hparts _ _
        rw [hparts] at hnil
        exact hnil (List.mem_append_right _ List.mem_cons_self)
      rw [ipv6Groups, hnone]
      dsimp only
      rw [if_neg (fun hne => hne hlength)]
      exact all_groups.2 hgroups
  · have hhost : host =
        [0x3A].intercalate front ++ utf16 "::" ++ [0x3A].intercalate back := by
      apply eq_of_splitOn
      rw [splitOn_double, splitOn_pad (fun g hg => (hfront g hg).noColon),
        splitOn_pad (fun g hg => (hback g hg).noColon), hsplit]
    constructor
    · apply loneColon_false
      · intro parts hparts
        cases front with
        | nil =>
          rw [hhost]
          exact List.prefix_append _ _
        | cons g front =>
          rw [hsplit, pad_ne (List.cons_ne_nil g front), List.cons_append, List.cons.injEq]
            at hparts
          exact absurd hparts.1 (hfront g List.mem_cons_self).1
      · intro parts hparts
        rcases List.eq_nil_or_concat' back with rfl | ⟨init, last, rfl⟩
        · rw [hhost]
          exact List.append_nil _ ▸ List.suffix_append _ _
        · rw [hsplit, pad_ne (List.concat_ne_nil _ _), ← List.cons_append,
            ← List.append_assoc] at hparts
          have hlast := List.singleton_inj.1 (List.append_inj' hparts rfl).2
          exact absurd hlast (hback last (by simp)).1
    · have hback' : indexOf (utf16 "::") ([0x3A].intercalate back : QString) = none := by
        apply indexOf_double_none
        intro before after hparts hbefore _
        rw [splitOn_pad (fun g hg => (hback g hg).noColon)] at hparts
        cases back with
        | nil =>
          have hlength : 1 = (before ++ [] :: after).length := congrArg List.length hparts
          have hpos := List.length_pos_iff.2 hbefore
          rw [List.length_append, List.length_cons] at hlength
          omega
        | cons g back =>
          rw [pad_ne (List.cons_ne_nil g back)] at hparts
          apply nil_notMem_groups hback
          rw [hparts]
          exact List.mem_append_right _ List.mem_cons_self
      have hindex := @indexOf_double front back hfront
      rw [← hhost] at hindex
      generalize hF : ([0x3A].intercalate front : QString) = F at hindex hhost
      generalize hB : ([0x3A].intercalate back : QString) = B at hback' hhost
      have htake : host.take F.length = F := by
        rw [hhost, List.append_assoc, List.take_left]
      have hdrop : host.drop (F.length + 2) = B := by
        rw [hhost]
        exact List.drop_left' (by rw [List.length_append]; rfl)
      rw [ipv6Groups, hindex]
      dsimp only
      rw [indexOfFrom, hdrop, hback', Option.map_none, Option.isSome_none,
        if_neg Bool.false_ne_true, htake, ← hF, ← hB, colonGroups_intercalate hfront,
        colonGroups_intercalate hback,
        if_neg (by rw [List.length_append]; omega)]
      exact all_groups.2 (List.forall_mem_append.2 ⟨hfront, hback⟩)

theorem ipv6Groups_iff (host : QString) :
    (loneColon host = false ∧
      (ipv6Groups host).any (fun groups => groups.all isIpv6Group) = true) ↔
        Form Groups (host.splitOn 0x3A) :=
  ⟨fun h => groups_of_code h.2, code_of_groups⟩

end Code

section Tail

theorem Form.imp {P Q : List QString → Nat → Prop} {parts : List QString}
    (hPQ : ∀ ps n, (∀ p ∈ ps, p ∈ parts) → P ps n → Q ps n) (h : Form P parts) :
    Form Q parts := by
  rcases h with h | ⟨front, back, n, hfront, hback, hle, hparts⟩
  · exact .inl (hPQ _ _ (fun p hp => hp) h)
  · refine .inr ⟨front, back, n, hfront, hPQ _ _ (fun p hp => ?_) hback, hle, hparts⟩
    rw [hparts, pad_ne (List.ne_nil_of_mem hp)]
    exact List.mem_append_right _ (List.mem_cons_of_mem _ hp)

theorem form_plain {host : QString} (hdot : 0x2E ∉ host) :
    Form Groups (host.splitOn 0x3A) ↔ Form Pieces (host.splitOn 0x3A) := by
  constructor
  · exact Form.imp (fun ps n _ h => h.pieces)
  · apply Form.imp
    intro ps n hmem h
    rcases h.groups with hgroups | ⟨gs, q, m, rfl, hq, -, -⟩
    · exact hgroups
    · have hin := hmem q (List.mem_append_right _ List.mem_cons_self)
      exact absurd (mem_of_mem_splitOn hin hq.dot) hdot

theorem form_quad (hq : IsQuad q) (P : List QString) :
    Form Groups (P ++ [utf16 "0", utf16 "0"]) ↔ Form Pieces (P ++ [q]) := by
  have hzero : IsGroup (utf16 "0") := isIpv6Group_iff.1 (by decide)
  have hqnil : q ≠ [] := by
    rintro rfl
    exact absurd hq.dot List.not_mem_nil
  have hpair (l : List QString) :
      l ++ [utf16 "0", utf16 "0"] = l ++ [utf16 "0"] ++ [utf16 "0"] := by
    rw [List.append_assoc]
    rfl
  have hempty (l : List QString) : l ++ [] :: pad [] = l ++ [[]] ++ [[]] := by
    rw [List.append_assoc]
    rfl
  constructor
  · rintro (⟨hgroups, hlength⟩ | ⟨front, back, n, hfront, ⟨hback, rfl⟩, hle, hparts⟩)
    · rw [List.length_append] at hlength
      have hP : Groups P 6 :=
        ⟨fun g hg => hgroups g (List.mem_append_left _ hg), Nat.add_right_cancel hlength⟩
      exact .inl (hP.concat_quad hq)
    · rw [hpair] at hparts
      rcases List.eq_nil_or_concat' back with rfl | ⟨init, x, rfl⟩
      · rw [hempty] at hparts
        have hlast := (List.append_inj' hparts rfl).2
        cases hlast
      · rw [pad_ne (List.concat_ne_nil _ _), ← List.cons_append, ← List.append_assoc] at hparts
        obtain ⟨hinit, -⟩ := List.append_inj' hparts rfl
        rcases List.eq_nil_or_concat' init with rfl | ⟨init, y, rfl⟩
        · have hlast := (List.append_inj' hinit rfl).2
          cases hlast
        · rw [← List.cons_append, ← List.append_assoc] at hinit
          obtain ⟨hP, -⟩ := List.append_inj' hinit rfl
          have hgroups : Groups init init.length :=
            ⟨fun g hg => hback g (List.mem_append_left _ (List.mem_append_left _ hg)), rfl⟩
          refine .inr ⟨front, init ++ [q], init.length + 2, hfront, hgroups.concat_quad hq, ?_, ?_⟩
          · simp only [List.length_append, List.length_singleton] at hle
            omega
          · rw [pad_ne (List.concat_ne_nil _ _), hP, List.append_assoc, List.cons_append]
  · rintro (hpieces | ⟨front, back, n, hfront, hback, hle, hparts⟩)
    · rcases hpieces.groups with ⟨hgroups, -⟩ | ⟨gs, q', m, hgs, -, ⟨hgroups, hm⟩, hn⟩
      · exact absurd hq.dot (hgroups q (List.mem_append_right _ List.mem_cons_self)).noDot
      · obtain ⟨rfl, -⟩ := List.append_inj' hgs rfl
        refine .inl ⟨List.forall_mem_append.2 ⟨hgroups, ?_⟩, ?_⟩
        · exact List.forall_mem_cons.2 ⟨hzero, List.forall_mem_singleton.2 hzero⟩
        · rw [List.length_append, hm]
          exact hn.symm
    · have hne : back ≠ [] := by
        rintro rfl
        rw [hempty] at hparts
        exact hqnil (List.singleton_inj.1 (List.append_inj' hparts rfl).2)
      rw [pad_ne hne] at hparts
      rcases hback.groups with ⟨hgroups, -⟩ | ⟨gs, q', m, rfl, -, ⟨hgroups, hm⟩, rfl⟩
      · have hlast : q ∈ back := by
          obtain ⟨init, x, rfl⟩ := (List.eq_nil_or_concat' back).resolve_left hne
          rw [← List.cons_append, ← List.append_assoc] at hparts
          rw [List.singleton_inj.1 (List.append_inj' hparts rfl).2]
          exact List.mem_append_right _ List.mem_cons_self
        exact absurd hq.dot (hgroups q hlast).noDot
      · rw [← List.cons_append, ← List.append_assoc] at hparts
        obtain ⟨hP, -⟩ := List.append_inj' hparts rfl
        refine .inr ⟨front, gs ++ [utf16 "0", utf16 "0"], m + 2, hfront, ⟨?_, ?_⟩, hle, ?_⟩
        · exact List.forall_mem_append.2
            ⟨hgroups, List.forall_mem_cons.2 ⟨hzero, List.forall_mem_singleton.2 hzero⟩⟩
        · rw [List.length_append, hm]
          rfl
        · rw [pad_ne (List.append_ne_nil_of_right_ne_nil _ (List.cons_ne_nil _ _)), hP,
            List.append_assoc, List.cons_append]

theorem form_dot {host : QString} (hdot : 0x2E ∈ host) (h : Form Pieces (host.splitOn 0x3A)) :
    ∃ P q, host.splitOn 0x3A = P ++ [q] ∧ P ≠ [] ∧ IsQuad q := by
  have hpart := exists_mem_splitOn hdot (by decide : (0x2E : UInt16) ≠ 0x3A)
  obtain ⟨p, hp, hmem⟩ := hpart
  rcases h with hpieces | ⟨front, back, n, hfront, hback, hle, hparts⟩
  · rcases hpieces.groups with ⟨hgroups, -⟩ | ⟨gs, q, m, hgs, hq, ⟨hgroups, rfl⟩, hm⟩
    · exact absurd hmem (hgroups p hp).noDot
    · refine ⟨gs, q, hgs, ?_, hq⟩
      rintro rfl
      cases hm
  · rcases hback.groups with ⟨hgroups, -⟩ | ⟨gs, q, m, rfl, hq, -, -⟩
    · rw [hparts] at hp
      have hpad {ps : List QString} (h : ∀ g ∈ ps, IsGroup g) (hin : p ∈ pad ps) : False := by
        rw [pad] at hin
        split at hin
        · rw [List.mem_singleton.1 hin] at hmem
          cases hmem
        · exact (h p hin).noDot hmem
      rcases List.mem_append.1 hp with hp | hp
      · exact (hpad hfront hp).elim
      · rcases List.mem_cons.1 hp with rfl | hp
        · cases hmem
        · exact (hpad hgroups hp).elim
    · rw [pad_ne (List.concat_ne_nil _ _), ← List.cons_append, ← List.append_assoc] at hparts
      exact ⟨_, q, hparts, List.append_ne_nil_of_right_ne_nil _ (List.cons_ne_nil _ _), hq⟩

end Tail

section Bounds

theorem IsQuad.length_le (h : IsQuad q) : q.length ≤ 15 := by
  obtain ⟨bytes, hlength, hbytes, rfl⟩ := h
  match bytes with
  | [a, b, c, d] =>
    have ha := (hbytes a (by simp)).2.1
    have hb := (hbytes b (by simp)).2.1
    have hc := (hbytes c (by simp)).2.1
    have hd := (hbytes d (by simp)).2.1
    simp only [List.intercalate_cons_cons, List.intercalate_singleton, List.length_append,
      List.length_singleton]
    omega

theorem Pieces.length_le (h : Pieces ps n) :
    ([0x3A].intercalate ps : QString).length ≤ 5 * n + 5 := by
  induction h with
  | nil => exact Nat.zero_le _
  | quad hq =>
    rw [List.intercalate_singleton]
    exact hq.length_le
  | @cons g ps n hg h ih =>
    have hfour := hg.2.1
    cases ps with
    | nil =>
      rw [List.intercalate_singleton]
      omega
    | cons p ps =>
      rw [List.intercalate_cons_cons, List.length_append, List.length_append,
        List.length_singleton]
      omega

theorem Groups.length_le (h : Groups ps n) :
    ([0x3A].intercalate ps : QString).length ≤ 5 * n := by
  obtain ⟨hgroups, rfl⟩ := h
  induction ps with
  | nil => exact Nat.zero_le _
  | cons g ps ih =>
    have hfour := (hgroups g List.mem_cons_self).2.1
    have hrest := ih (fun p hp => hgroups p (List.mem_cons_of_mem g hp))
    cases ps with
    | nil =>
      rw [List.intercalate_singleton, List.length_singleton]
      omega
    | cons p ps =>
      rw [List.intercalate_cons_cons, List.length_append, List.length_append,
        List.length_singleton, List.length_cons]
      omega

theorem IsGroup.noPercent (h : IsGroup g) : 0x25 ∉ g := fun hm => by cases h.2.2 _ hm

theorem Pieces.noPercent (h : Pieces ps n) : ∀ p ∈ ps, 0x25 ∉ p := by
  induction h with
  | nil => exact fun p hp => absurd hp List.not_mem_nil
  | quad hq =>
    intro p hp hm
    rw [List.mem_singleton.1 hp] at hm
    rcases hq.chars hm with hdigit | hdot
    · cases hdigit
    · cases hdot
  | cons hg h ih => exact List.forall_mem_cons.2 ⟨hg.noPercent, ih⟩

theorem noPercent_intercalate {ps : List QString} (h : ∀ p ∈ ps, 0x25 ∉ p) :
    0x25 ∉ ([0x3A].intercalate ps : QString) := by
  intro hm
  rcases mem_intercalate hm with hcolon | ⟨p, hp, hmem⟩
  · cases List.mem_singleton.1 hcolon
  · exact h p hp hmem

theorem IsIpv6Text.bounds (h : IsIpv6Text s) : s ≠ [] ∧ s.length ≤ 45 ∧ 0x25 ∉ s := by
  rcases h with ⟨ps, hps, rfl⟩ | ⟨front, back, n, hfront, hback, hle, rfl⟩
  · refine ⟨?_, hps.length_le, noPercent_intercalate hps.noPercent⟩
    intro hempty
    have hparts := splitOn_pad hps.noColon
    cases hps with
    | @cons g ps n hg h =>
      rw [hempty, pad_ne (List.cons_ne_nil g ps)] at hparts
      exact hg.1 (List.cons.inj hparts).1.symm
  · have hbefore := Groups.length_le ⟨hfront, rfl⟩
    have hafter := hback.length_le
    have htwo : (utf16 "::").length = 2 := rfl
    refine ⟨?_, ?_, ?_⟩
    · intro hempty
      have hlength := congrArg List.length hempty
      rw [List.length_append, List.length_append, htwo, List.length_nil] at hlength
      omega
    · rw [List.length_append, List.length_append, htwo]
      omega
    · rw [List.mem_append, List.mem_append]
      rintro ((hm | hm) | hm)
      · exact noPercent_intercalate (fun g hg => (hfront g hg).noPercent) hm
      · exact absurd hm (by decide)
      · exact noPercent_intercalate hback.noPercent hm

end Bounds

theorem isIpv6Literal_eq {host : QString} (hne : host ≠ []) (hle : host.length ≤ 45)
    (hpercent : 0x25 ∉ host) : isIpv6Literal host = true ↔
      ∃ plain, withoutIpv4Tail host = some plain ∧ Form Groups (plain.splitOn 0x3A) := by
  rw [isIpv6Literal, if_neg (by simp [hne, hle]), if_neg hpercent]
  cases withoutIpv4Tail host with
  | none =>
    refine ⟨fun h => Bool.noConfusion h, fun h => ?_⟩
    obtain ⟨plain, h, _⟩ := h
    cases h
  | some plain =>
    constructor
    · intro h
      refine ⟨plain, rfl, (ipv6Groups_iff plain).1 ?_⟩
      dsimp only at h
      cases hlone : loneColon plain with
      | true =>
        rw [hlone] at h
        cases h
      | false =>
        rw [hlone] at h
        exact ⟨rfl, h⟩
    · rintro ⟨_, ⟨⟩, hform⟩
      obtain ⟨hlone, hgroups⟩ := (ipv6Groups_iff plain).2 hform
      dsimp only
      rw [hlone, if_neg Bool.false_ne_true]
      exact hgroups

theorem tail_iff (host : QString) :
    (∃ plain, withoutIpv4Tail host = some plain ∧ Form Groups (plain.splitOn 0x3A)) ↔
      Form Pieces (host.splitOn 0x3A) := by
  rw [withoutIpv4Tail]
  by_cases hdot : 0x2E ∈ host
  · rw [if_pos hdot]
    by_cases hcolon : 0x3A ∈ host
    · obtain ⟨b, a, hb, hhost⟩ : ∃ b a : QString, 0x3A ∉ b ∧ host = a ++ 0x3A :: b := by
        obtain ⟨b, a, hrev, hb⟩ := List.eq_append_cons_of_mem (List.mem_reverse.2 hcolon)
        refine ⟨b.reverse, a.reverse, fun hm => hb (List.mem_reverse.1 hm), ?_⟩
        rw [← List.reverse_reverse host, hrev, List.reverse_append, List.reverse_cons,
          List.append_assoc]
        rfl
      have hparts : host.splitOn 0x3A = a.splitOn 0x3A ++ [b] := by
        rw [hhost, List.splitOn_append_cons_self, List.splitOn_eq_singleton hb]
      have hdrop : host.drop (a.length + 1) = b := by
        rw [hhost, List.append_cons]
        exact List.drop_left' (by rw [List.length_append]; rfl)
      have htake : host.take (a.length + 1) = a ++ [0x3A] := by
        rw [hhost, List.append_cons]
        exact List.take_left' (by rw [List.length_append]; rfl)
      have hlast : lastIndexOf 0x3A host = some a.length := by
        rw [hhost]
        exact lastIndexOf_split hb a
      rw [hlast]
      dsimp only
      rw [hdrop, htake]
      have hzeros : (a ++ [0x3A] ++ utf16 "0:0").splitOn 0x3A =
          a.splitOn 0x3A ++ [utf16 "0", utf16 "0"] := by
        rw [List.append_assoc]
        exact List.splitOn_append_cons_self a (utf16 "0:0")
      by_cases hq : isIpv4Literal b = true
      · rw [if_pos hq, hparts, ← form_quad (isIpv4Literal_iff.1 hq), ← hzeros]
        constructor
        · rintro ⟨_, ⟨⟩, hform⟩
          exact hform
        · exact fun hform => ⟨_, rfl, hform⟩
      · rw [if_neg hq]
        constructor
        · rintro ⟨plain, ⟨⟩, _⟩
        · intro hform
          obtain ⟨P, q, hsplit, -, hquad⟩ := form_dot hdot hform
          rw [hparts] at hsplit
          rw [List.singleton_inj.1 (List.append_inj' hsplit rfl).2] at hq
          exact absurd (isIpv4Literal_iff.2 hquad) hq
    · rw [lastIndexOf_none hcolon]
      constructor
      · rintro ⟨plain, ⟨⟩, _⟩
      · intro hform
        obtain ⟨P, q, hsplit, hne, -⟩ := form_dot hdot hform
        rw [List.splitOn_eq_singleton hcolon] at hsplit
        have hlength := congrArg List.length hsplit
        rw [List.length_append, List.length_singleton, List.length_singleton] at hlength
        exact absurd (List.length_eq_zero_iff.1 (by omega)) hne
  · rw [if_neg hdot, ← form_plain hdot]
    constructor
    · rintro ⟨_, ⟨⟩, hform⟩
      exact hform
    · exact fun hform => ⟨_, rfl, hform⟩

theorem isIpv6Literal_iff (host : QString) : isIpv6Literal host = true ↔ IsIpv6Text host := by
  by_cases hbounds : host ≠ [] ∧ host.length ≤ 45 ∧ 0x25 ∉ host
  · obtain ⟨hne, hle, hpercent⟩ := hbounds
    rw [isIpv6Literal_eq hne hle hpercent, tail_iff, isIpv6Text_iff]
  · constructor
    · intro h
      apply absurd _ hbounds
      rw [isIpv6Literal] at h
      split at h
      · cases h
      rename_i hlength
      rw [not_or, List.isEmpty_iff, Nat.not_lt] at hlength
      split at h
      · cases h
      · rename_i hpercent
        exact ⟨hlength.1, hlength.2, hpercent⟩
    · exact fun h => absurd h.bounds hbounds

/-- The check accepts the text forms of IPv6 addresses and no others. -/
theorem literal_exact (host : QString) :
    (isIpv6Literal host = true ↔ IsIpv6Text host) ∧
      (IsQuad host ∨ IsIpv6Text host → sanEntryForHost host = utf16 "IP:" ++ host) ∧
      (¬ (IsQuad host ∨ IsIpv6Text host) → sanEntryForHost host = utf16 "DNS:" ++ host) := by
  have hentry : (isIpv4Literal host || isIpv6Literal host) = true ↔
      IsQuad host ∨ IsIpv6Text host := by
    rw [Bool.or_eq_true, isIpv4Literal_iff, isIpv6Literal_iff]
  refine ⟨isIpv6Literal_iff host, fun h => ?_, fun h => ?_⟩
  · rw [sanEntryForHost, if_pos (hentry.2 h)]
  · rw [sanEntryForHost, if_neg (fun hor => h (hentry.1 hor))]

end Nullock.CertLogic

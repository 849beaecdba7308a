import Nullock.ChainParts
import Nullock.InjectionContained

namespace Nullock

def BreakFirst (cr lf : α) (s : List α) : Prop := s.head? = some lf ∨ s.head? = some cr

/-- No terminator follows another, and every carriage return has its line feed. -/
structure CleanEnds (cr lf : α) (s : List α) : Prop where
  noBlank : NoBlank cr lf s
  ended : ∀ a b, s = a ++ cr :: b → ∃ b', b = lf :: b'

def Returned (cr lf : α) (s : List α) : Prop := ∀ a b, s = a ++ lf :: b → ∃ a', a = a' ++ [cr]

section Ends

variable {cr lf : α}

theorem noBlank_cons_iff :
    NoBlank cr lf (c :: s) ↔
      (c = lf → ¬ BreakFirst cr lf s) ∧ (c = cr → s.head? ≠ some cr) ∧ NoBlank cr lf s := by
  cases s with
  | nil =>
    refine iff_of_true (noBlank_singleton c) ⟨?_, nofun, noBlank_nil⟩
    rintro - (h | h)
    · cases h
    · cases h
  | cons d s =>
    rw [noBlank_cons_cons, BreakFirst, List.head?_cons, Option.some.injEq, Option.some.injEq,
      not_and, not_and]
    simp

theorem cleanEnds_nil : CleanEnds cr lf [] where
  noBlank := noBlank_nil
  ended a b h := absurd h.symm (List.append_ne_nil_of_right_ne_nil a (List.cons_ne_nil cr b))

theorem CleanEnds.tail (h : CleanEnds cr lf (c :: s)) : CleanEnds cr lf s where
  noBlank := (noBlank_cons_iff.1 h.noBlank).2.2
  ended a b he := h.ended (c :: a) b (congrArg (c :: ·) he)

theorem cleanEnds_cons (hc : c = cr → ∃ t, s = lf :: t) (hne : cr ≠ lf) :
    CleanEnds cr lf (c :: s) ↔ (c = lf → ¬ BreakFirst cr lf s) ∧ CleanEnds cr lf s := by
  constructor
  · exact fun h => ⟨(noBlank_cons_iff.1 h.noBlank).1, h.tail⟩
  · rintro ⟨hlf, h⟩
    refine ⟨noBlank_cons_iff.2 ⟨hlf, ?_, h.noBlank⟩, ?_⟩
    · intro he hcr
      obtain ⟨t, rfl⟩ := hc he
      exact hne (Option.some.inj hcr).symm
    · intro a b he
      cases a with
      | nil =>
        obtain ⟨hcr, rfl⟩ := List.cons.inj he
        exact hc hcr
      | cons d a => exact h.ended a b (List.cons.inj he).2

theorem cleanEnds_plain (hcr : c ≠ cr) (hlf : c ≠ lf) (hne : cr ≠ lf) :
    CleanEnds cr lf (c :: s) ↔ CleanEnds cr lf s := by
  rw [cleanEnds_cons (fun h => absurd h hcr) hne, and_iff_right (fun h => absurd h hlf)]

theorem cleanEnds_lf (hne : cr ≠ lf) :
    CleanEnds cr lf (lf :: s) ↔ ¬ BreakFirst cr lf s ∧ CleanEnds cr lf s := by
  rw [cleanEnds_cons (fun h => absurd h.symm hne) hne, imp_iff_right rfl]

theorem cleanEnds_crlf (hne : cr ≠ lf) :
    CleanEnds cr lf (cr :: lf :: s) ↔ ¬ BreakFirst cr lf s ∧ CleanEnds cr lf s := by
  rw [cleanEnds_cons (fun _ => ⟨s, rfl⟩) hne, and_iff_right (fun h => absurd h hne),
    cleanEnds_lf hne]

theorem Returned.behind {p : List α} (h : Returned cr lf (p ++ s)) (hp : p.getLast? ≠ some cr) :
    Returned cr lf s := by
  intro a b he
  obtain ⟨t, ht⟩ := h (p ++ a) b (by rw [he, List.append_assoc])
  rcases List.eq_nil_or_concat a with rfl | ⟨a', c, rfl⟩
  · rw [List.append_nil] at ht
    rw [ht, List.getLast?_concat] at hp
    exact absurd rfl hp
  · rw [List.concat_eq_append, ← List.append_assoc] at ht
    have hlast := (List.append_inj' ht rfl).2
    exact ⟨a', by rw [List.concat_eq_append, hlast]⟩

theorem not_cleanEnds (h : ∀ t, s ≠ lf :: t) : ¬ CleanEnds cr lf (cr :: s) := by
  intro hclean
  obtain ⟨t, ht⟩ := hclean.ended [] s rfl
  exact h t ht

end Ends

end Nullock

namespace Nullock.NetworkingLogic
open ChainRunner Proxy

def wireEnds (s : QString) : QString :=
  replaceAll (utf16 "\n") (utf16 "\r\n") (replaceAll (utf16 "\r\n") (utf16 "\n") s)

section WireEnds

theorem wireEnds_crlf (s : QString) :
    wireEnds (0x0D :: 0x0A :: s) = 0x0D :: 0x0A :: wireEnds s := rfl

theorem wireEnds_lf (s : QString) : wireEnds (0x0A :: s) = 0x0D :: 0x0A :: wireEnds s := rfl

theorem wireEnds_cons (hlf : c ≠ 0x0A) (h : c = 0x0D → ∀ t, s ≠ 0x0A :: t) :
    wireEnds (c :: s) = c :: wireEnds s := by
  have hcrlf : (utf16 "\r\n").isPrefixOf (c :: s) = false := by
    cases s with
    | nil => exact Bool.and_false _
    | cons d s =>
      rw [Bool.eq_false_iff]
      intro hp
      have hp : [0x0D, 0x0A] <+: c :: d :: s := List.isPrefixOf_iff_prefix.1 hp
      obtain ⟨hc, hd⟩ := List.cons_prefix_cons.1 hp
      exact h hc.symm s (by rw [(List.cons_prefix_cons.1 hd).1])
  have hline : ∀ t, (utf16 "\n").isPrefixOf (c :: t) = false := by
    intro t
    rw [Bool.eq_false_iff]
    intro hp
    exact hlf (List.cons_prefix_cons.1 (List.isPrefixOf_iff_prefix.1 hp)).1.symm
  rw [wireEnds, replaceAll, replaceAll, replaceFrom, if_neg (Bool.eq_false_iff.1 hcrlf), replaceFrom,
    if_neg (Bool.eq_false_iff.1 (hline _))]
  rfl

theorem text_cases (s : QString) :
    s = [] ∨ (∃ t, s = 0x0D :: 0x0A :: t) ∨ (∃ t, s = 0x0A :: t) ∨
      (∃ t, s = 0x0D :: t ∧ ∀ u, t ≠ 0x0A :: u) ∨ ∃ c t, s = c :: t ∧ c ≠ 0x0D ∧ c ≠ 0x0A := by
  cases s with
  | nil => exact .inl rfl
  | cons c t =>
    by_cases hlf : c = 0x0A
    · exact .inr (.inr (.inl ⟨t, by rw [hlf]⟩))
    · by_cases hcr : c = 0x0D
      · by_cases hnext : ∃ u, t = 0x0A :: u
        · obtain ⟨u, rfl⟩ := hnext
          exact .inr (.inl ⟨u, by rw [hcr]⟩)
        · exact .inr (.inr (.inr (.inl ⟨t, by rw [hcr], not_exists.1 hnext⟩)))
      · exact .inr (.inr (.inr (.inr ⟨c, t, rfl, hcr, hlf⟩)))

theorem wireEnds_bare (h : ∀ t, s ≠ 0x0A :: t) : wireEnds (0x0D :: s) = 0x0D :: wireEnds s :=
  wireEnds_cons (by decide) (fun _ => h)

theorem wireEnds_plain (hcr : c ≠ 0x0D) (hlf : c ≠ 0x0A) : wireEnds (c :: s) = c :: wireEnds s :=
  wireEnds_cons hlf (fun h => absurd h hcr)

theorem wireEnds_head (s : QString) : ∀ t, wireEnds s ≠ 0x0A :: t := by
  intro t
  rcases text_cases s with rfl | ⟨u, rfl⟩ | ⟨u, rfl⟩ | ⟨u, rfl, hu⟩ | ⟨c, u, rfl, hcr, hlf⟩
  · exact List.cons_ne_nil _ _ ∘ Eq.symm
  · rw [wireEnds_crlf]
    exact fun h => absurd (List.cons.inj h).1 (by decide)
  · rw [wireEnds_lf]
    exact fun h => absurd (List.cons.inj h).1 (by decide)
  · rw [wireEnds_bare hu]
    exact fun h => absurd (List.cons.inj h).1 (by decide)
  · rw [wireEnds_plain hcr hlf]
    exact fun h => hlf (List.cons.inj h).1

theorem wireEnds_breakFirst (s : QString) :
    BreakFirst 0x0D 0x0A (wireEnds s) ↔ BreakFirst 0x0D 0x0A s := by
  rcases text_cases s with rfl | ⟨u, rfl⟩ | ⟨u, rfl⟩ | ⟨u, rfl, hu⟩ | ⟨c, u, rfl, hcr, hlf⟩
  · exact Iff.rfl
  · exact iff_of_true (.inr rfl) (.inr rfl)
  · exact iff_of_true (.inr rfl) (.inl rfl)
  · rw [wireEnds_bare hu]
    exact iff_of_true (.inr rfl) (.inr rfl)
  · rw [wireEnds_plain hcr hlf, BreakFirst, BreakFirst, List.head?_cons, List.head?_cons]

theorem wireEnds_clean (s : QString) :
    CleanEnds 0x0D 0x0A (wireEnds s) ↔ CleanEnds 0x0D 0x0A s := by
  have hne : (0x0D : UInt16) ≠ 0x0A := by decide
  induction hn : s.length using Nat.strongRecOn generalizing s with
  | ind n ih =>
    rcases text_cases s with rfl | ⟨u, rfl⟩ | ⟨u, rfl⟩ | ⟨u, rfl, hu⟩ | ⟨c, u, rfl, hcr, hlf⟩
    · exact Iff.rfl
    · have hlt : u.length < n := by
        rw [← hn, List.length_cons, List.length_cons]
        omega
      have hu := ih u.length hlt u rfl
      rw [wireEnds_crlf, cleanEnds_crlf hne, cleanEnds_crlf hne, wireEnds_breakFirst]
      exact and_congr_right (fun _ => hu)
    · have hu := ih u.length (hn ▸ Nat.lt_succ_self _) u rfl
      rw [wireEnds_lf, cleanEnds_crlf hne, cleanEnds_lf hne, wireEnds_breakFirst]
      exact and_congr_right (fun _ => hu)
    · rw [wireEnds_bare hu]
      exact iff_of_false (not_cleanEnds (wireEnds_head u)) (not_cleanEnds hu)
    · have hu := ih u.length (hn ▸ Nat.lt_succ_self _) u rfl
      rw [wireEnds_plain hcr hlf, cleanEnds_plain hcr hlf hne, cleanEnds_plain hcr hlf hne]
      exact hu

theorem wireEnds_returned (s : QString) : Returned 0x0D 0x0A (wireEnds s) := by
  induction hn : s.length using Nat.strongRecOn generalizing s with
  | ind n ih =>
    have hline (u : QString) (hu : u.length < n) :
        Returned 0x0D 0x0A ([0x0D, 0x0A] ++ wireEnds u) := by
      intro a b he
      rcases a with _ | ⟨c, _ | ⟨d, a⟩⟩
      · exact absurd (List.cons.inj he).1 (by decide)
      · exact ⟨[], by rw [(List.cons.inj he).1]; rfl⟩
      · obtain ⟨t, ht⟩ := ih u.length hu u rfl a b (List.cons.inj (List.cons.inj he).2).2
        exact ⟨c :: d :: t, by rw [ht]; rfl⟩
    have hother (c : UInt16) (u : QString) (hu : u.length < n) (hlf : c ≠ 0x0A) :
        Returned 0x0D 0x0A (c :: wireEnds u) := by
      intro a b he
      cases a with
      | nil => exact absurd (List.cons.inj he).1 hlf
      | cons d a =>
        obtain ⟨t, ht⟩ := ih u.length hu u rfl a b (List.cons.inj he).2
        exact ⟨d :: t, by rw [ht, List.cons_append]⟩
    rcases text_cases s with rfl | ⟨u, rfl⟩ | ⟨u, rfl⟩ | ⟨u, rfl, hu⟩ | ⟨c, u, rfl, hcr, hlf⟩
    · intro a b he
      exact absurd he.symm (List.append_ne_nil_of_right_ne_nil a (List.cons_ne_nil _ _))
    · apply hline u
      rw [← hn, List.length_cons, List.length_cons]
      omega
    · exact hline u (hn ▸ Nat.lt_succ_self _)
    · rw [wireEnds_bare hu]
      exact hother 0x0D u (hn ▸ Nat.lt_succ_self _) (by decide)
    · rw [wireEnds_plain hcr hlf]
      exact hother c u (hn ▸ Nat.lt_succ_self _) hlf

theorem wireEnds_last (s : QString) : wireEnds (s ++ [0x0D, 0x0A]) = wireEnds s ++ [0x0D, 0x0A] := by
  induction hn : s.length using Nat.strongRecOn generalizing s with
  | ind n ih =>
    rcases text_cases s with rfl | ⟨u, rfl⟩ | ⟨u, rfl⟩ | ⟨u, rfl, hu⟩ | ⟨c, u, rfl, hcr, hlf⟩
    · rfl
    · have hlt : u.length < n := by
        rw [← hn, List.length_cons, List.length_cons]
        omega
      rw [List.cons_append, List.cons_append, wireEnds_crlf, ih u.length hlt u rfl, wireEnds_crlf]
      rfl
    · rw [List.cons_append, wireEnds_lf, ih u.length (hn ▸ Nat.lt_succ_self _) u rfl, wireEnds_lf]
      rfl
    · have hnext : ∀ t, u ++ [0x0D, 0x0A] ≠ 0x0A :: t := by
        intro t ht
        cases u with
        | nil => exact absurd (List.cons.inj ht).1 (by decide)
        | cons c u => exact hu u (by rw [(List.cons.inj ht).1])
      rw [List.cons_append, wireEnds_bare hnext, ih u.length (hn ▸ Nat.lt_succ_self _) u rfl,
        wireEnds_bare hu]
      rfl
    · rw [List.cons_append, wireEnds_plain hcr hlf, ih u.length (hn ▸ Nat.lt_succ_self _) u rfl,
        wireEnds_plain hcr hlf]
      rfl

theorem wireEnds_kept (hended : ∀ a b, s = a ++ 0x0D :: b → ∃ b', b = 0x0A :: b')
    (hreturned : Returned 0x0D 0x0A s) : wireEnds s = s := by
  induction hn : s.length using Nat.strongRecOn generalizing s with
  | ind n ih =>
    rcases text_cases s with rfl | ⟨u, rfl⟩ | ⟨u, rfl⟩ | ⟨u, rfl, hu⟩ | ⟨c, u, rfl, hcr, hlf⟩
    · rfl
    · have hlt : u.length < n := by
        rw [← hn, List.length_cons, List.length_cons]
        omega
      rw [wireEnds_crlf, ih u.length hlt _ _ rfl]
      · intro a b he
        exact hended (0x0D :: 0x0A :: a) b (by rw [he]; rfl)
      · apply hreturned.behind (p := [0x0D, 0x0A])
        decide
    · obtain ⟨t, ht⟩ := hreturned [] u rfl
      exact absurd ht.symm (List.append_ne_nil_of_right_ne_nil t (List.cons_ne_nil _ _))
    · obtain ⟨t, ht⟩ := hended [] u rfl
      exact absurd ht (hu t)
    · rw [wireEnds_plain hcr hlf, ih u.length (hn ▸ Nat.lt_succ_self _) _ _ rfl]
      · intro a b he
        exact hended (c :: a) b (by rw [he]; rfl)
      · apply hreturned.behind (p := [c])
        exact fun h => hcr (Option.some.inj h)

end WireEnds

section Encoding

variable {e : QString → QByteArray} {s : QString}

theorem Separates.ended (he : Separates e) :
    (∀ x y, e s = x ++ 0x0D :: y → ∃ y', y = 0x0A :: y') ↔
      ∀ a b, s = a ++ 0x0D :: b → ∃ b', b = 0x0A :: b' := by
  constructor
  · rintro h a b rfl
    obtain ⟨y, hy⟩ := h (e a) (e b) (he.append 0x0D (.inl rfl) a b)
    obtain ⟨u, b', rfl, hu, -⟩ := he.split 0x0A (.inr rfl) b [] y hy
    exact ⟨b', by rw [he.nil u hu]; rfl⟩
  · intro h x y hs
    obtain ⟨a, b, hab, -, rfl⟩ := he.split 0x0D (.inl rfl) s x y hs
    obtain ⟨b', rfl⟩ := h a b hab
    have hnext := he.append 0x0A (.inr rfl) [] b'
    rw [he.empty] at hnext
    exact ⟨e b', hnext⟩

theorem Separates.returned (he : Separates e) :
    Returned 0x0D 0x0A (e s) ↔ Returned 0x0D 0x0A s := by
  constructor
  · rintro h a b rfl
    obtain ⟨x, hx⟩ := h (e a) (e b) (he.append 0x0A (.inr rfl) a b)
    obtain ⟨a', u, rfl, -, hu⟩ := he.split 0x0D (.inl rfl) a x [] hx
    exact ⟨a', by rw [he.nil u hu]; rfl⟩
  · intro h x y hs
    obtain ⟨a, b, hab, rfl, -⟩ := he.split 0x0A (.inr rfl) s x y hs
    obtain ⟨a', rfl⟩ := h a b hab
    have hlast := he.append 0x0D (.inl rfl) a' []
    rw [he.empty] at hlast
    exact ⟨e a', hlast⟩

theorem Separates.clean (he : Separates e) :
    CleanEnds 0x0D 0x0A (e s) ↔ CleanEnds 0x0D 0x0A s :=
  ⟨fun h => ⟨he.noBlank.1 h.noBlank, he.ended.1 h.ended⟩,
    fun h => ⟨he.noBlank.2 h.noBlank, he.ended.2 h.ended⟩⟩

theorem Separates.blank (he : Separates e) (head body : QString) :
    e (head ++ ([0x0D, 0x0A, 0x0D, 0x0A] ++ body)) =
      e head ++ ([0x0D, 0x0A, 0x0D, 0x0A] ++ e body) := by
  have hstep (c : UInt8) (hc : c = 0x0D ∨ c = 0x0A) (t : QString) :
      e (c.toUInt16 :: t) = c :: e t := by
    have happ := he.append c hc [] t
    rw [he.empty] at happ
    exact happ
  have hfirst := he.append 0x0D (.inl rfl) head (0x0A :: 0x0D :: 0x0A :: body)
  rw [show e (0x0A :: 0x0D :: 0x0A :: body) = 0x0A :: 0x0D :: 0x0A :: e body by
    rw [← hstep 0x0A (.inr rfl) body, ← hstep 0x0D (.inl rfl), ← hstep 0x0A (.inr rfl)]
    rfl] at hfirst
  exact hfirst

theorem Separates.last (he : Separates e) (head : QString) :
    e (head ++ [0x0D, 0x0A]) = e head ++ [0x0D, 0x0A] := by
  have hlast := he.append 0x0A (.inr rfl) [] []
  have hfirst := he.append 0x0D (.inl rfl) head [0x0A]
  rw [he.empty] at hlast
  rw [show e [0x0A] = [0x0A] from hlast] at hfirst
  exact hfirst

end Encoding

section Codec

/-- The lines of a head end in CRLF, and no other terminator stands in them. -/
def WireHead (head : QByteArray) : Prop :=
  ∃ lines : List QByteArray, (∀ l ∈ lines, ChainRunner.OneLine l) ∧
    head ++ crlf = lines.flatMap (fun l => l ++ crlf)

def encoding (latin1 : Bool) : QString → QByteArray := if latin1 then toLatin1 else toUtf8

def Encodable (text : QString) (latin1 : Bool) : Prop :=
  latin1 = true → fromLatin1 (toLatin1 text) = text

/-- The body is encoded and the head has its lines, or no bytes. -/
def Encoded (text : QString) (latin1 : Bool) (bytes : QByteArray) : Prop :=
  (Encodable text latin1 → (splitAtBlank bytes).2 = encoding latin1 (editorSplit text).2 ∧
    WireHead (splitAtBlank bytes).1) ∧ (¬ Encodable text latin1 → bytes = [])

theorem behind_line (hl : ChainRunner.OneLine l) (hc : c = 0x0A ∨ c = 0x0D)
    (he : l ++ s = a ++ c :: b) : ∃ a', a = l ++ a' ∧ s = a' ++ c :: b := by
  rcases List.append_eq_append_iff.1 he with hbehind | ⟨m, hm, hs⟩
  · exact hbehind
  · cases m with
    | nil => exact ⟨[], by rw [hm, List.append_nil, List.append_nil], hs.symm⟩
    | cons d m =>
      obtain ⟨hlf, hcr⟩ := hl d (hm ▸ List.mem_append_right a List.mem_cons_self)
      rw [← (List.cons.inj hs).1] at hlf hcr
      exact absurd hc (not_or.2 ⟨hlf, hcr⟩)

theorem flatMap_ended {lines : List QByteArray} (h : ∀ l ∈ lines, ChainRunner.OneLine l)
    (a b : QByteArray) (he : lines.flatMap (fun l => l ++ crlf) = a ++ 0x0D :: b) :
    ∃ b', b = 0x0A :: b' := by
  induction lines generalizing a with
  | nil => exact absurd he.symm (List.append_ne_nil_of_right_ne_nil a (List.cons_ne_nil _ _))
  | cons l lines ih =>
    rw [List.forall_mem_cons] at h
    rw [List.flatMap_cons, List.append_assoc] at he
    obtain ⟨a', -, hrest⟩ := behind_line h.1 (.inr rfl) he
    rcases a' with _ | ⟨c, _ | ⟨d, a'⟩⟩
    · exact ⟨_, (List.cons.inj hrest).2.symm⟩
    · exact absurd (List.cons.inj (List.cons.inj hrest).2).1 (by decide)
    · exact ih h.2 a' (List.cons.inj (List.cons.inj hrest).2).2

theorem flatMap_returned {lines : List QByteArray} (h : ∀ l ∈ lines, ChainRunner.OneLine l) :
    Returned 0x0D 0x0A (lines.flatMap (fun l => l ++ crlf)) := by
  induction lines with
  | nil =>
    intro a b he
    exact absurd he.symm (List.append_ne_nil_of_right_ne_nil a (List.cons_ne_nil _ _))
  | cons l lines ih =>
    rw [List.forall_mem_cons] at h
    intro a b he
    rw [List.flatMap_cons, List.append_assoc] at he
    obtain ⟨a', rfl, hrest⟩ := behind_line h.1 (.inl rfl) he
    rcases a' with _ | ⟨c, _ | ⟨d, a'⟩⟩
    · exact absurd (List.cons.inj hrest).1 (by decide)
    · exact ⟨l, by rw [← (List.cons.inj hrest).1]⟩
    · obtain ⟨t, rfl⟩ := ih h.2 a' b (List.cons.inj (List.cons.inj hrest).2).2
      exact ⟨l ++ c :: d :: t, by rw [List.append_assoc]; rfl⟩

theorem wire_lines (s : QByteArray)
    (hended : ∀ a b, s ++ crlf = a ++ 0x0D :: b → ∃ b', b = 0x0A :: b')
    (hreturned : Returned 0x0D 0x0A s) : WireHead s := by
  induction hn : s.length using Nat.strongRecOn generalizing s with
  | ind n ih =>
    obtain ⟨l, r, hl, rfl, rfl | hr⟩ := first_line s
    · rw [List.append_nil]
      refine ⟨[l], List.forall_mem_singleton.2 hl, ?_⟩
      rw [List.flatMap_singleton]
    · cases r with
      | nil => exact absurd hr (Nat.lt_irrefl 0)
      | cons c r =>
        rcases termLen_pos_iff.1 hr with rfl | rfl
        · obtain ⟨t, ht⟩ := hreturned l r rfl
          have hcr := hl 0x0D (by rw [ht]; exact List.mem_append_right t List.mem_cons_self)
          exact absurd rfl hcr.2
        · obtain ⟨b, hb⟩ := hended l (r ++ crlf) (List.append_assoc _ _ _)
          cases r with
          | nil => exact absurd (List.cons.inj hb).1 (by decide)
          | cons d r =>
            obtain ⟨rfl, -⟩ := List.cons.inj hb
            have hlt : r.length < n := by
              rw [← hn, List.length_append, List.length_cons, List.length_cons]
              omega
            have hrest : Returned 0x0D 0x0A r := by
              apply Returned.behind (p := l ++ crlf)
              · rw [List.append_assoc]
                exact hreturned
              · rw [crlf, show [(0x0D : UInt8), 0x0A] = [0x0D] ++ [0x0A] from rfl,
                  ← List.append_assoc, List.getLast?_concat]
                decide
            obtain ⟨lines, hlines, htext⟩ := ih r.length hlt r (fun a b he => hended
              (l ++ (0x0D :: 0x0A :: a)) b (by
                rw [List.append_assoc, List.append_assoc, List.cons_append, List.cons_append, he]
                rfl)) hrest rfl
            refine ⟨l :: lines, List.forall_mem_cons.2 ⟨hl, hlines⟩, ?_⟩
            rw [List.flatMap_cons, ← htext, List.append_assoc, List.append_assoc]
            rfl

theorem encoding_separates (latin1 : Bool) : Separates (encoding latin1) := by
  cases latin1 with
  | false => exact separates_utf8
  | true => exact separates_latin1

theorem splitAtBlank_iff (head body : QByteArray) :
    (splitAtBlank (head ++ ([0x0D, 0x0A, 0x0D, 0x0A] ++ body))).2 = body ↔
      NoBlank 0x0D 0x0A (head ++ [0x0D, 0x0A]) := by
  constructor
  · intro h
    generalize hbytes : head ++ ([0x0D, 0x0A, 0x0D, 0x0A] ++ body) = bytes at h
    have hlen := congrArg List.length hbytes
    rw [List.length_append, List.length_append] at hlen
    have hfour : List.length [(0x0D : UInt8), 0x0A, 0x0D, 0x0A] = 4 := rfl
    cases hblank : blankLine 0 0 bytes with
    | none =>
      apply NoBlank.of_infix (blankLine_eq_none_iff.1 hblank)
      apply List.IsPrefix.isInfix
      refine ⟨[0x0D, 0x0A] ++ body, ?_⟩
      rw [← hbytes, List.append_assoc]
      rfl
    | some found =>
      obtain ⟨sep, sepLen⟩ := found
      obtain ⟨j, hj, hfront, hn, hfirst⟩ := blankLine_first hblank
      rw [Nat.zero_add] at hj
      subst hj
      have hrest := congrArg List.length h
      rw [splitAtBlank, hblank] at hrest
      dsimp only at hrest
      rw [List.length_drop] at hrest
      have hone := termLen_le (bytes.drop sep)
      have htwo := termLen_le ((bytes.drop sep).drop (termLen (bytes.drop sep)))
      have hsep : head.length ≤ sep := by
        by_contra hlt
        omega
      have hin : head.length + 2 ≤ sep + termLen (bytes.drop sep) := by
        rcases Nat.eq_or_lt_of_le hsep with he | hlt
        · rw [← he, ← hbytes, List.drop_left]
          exact Nat.le_refl _
        · have hpos := hfront.1
          omega
      apply hfirst.of_infix
      apply List.IsPrefix.isInfix
      have htake : head ++ [0x0D, 0x0A] = bytes.take (head.length + 2) := by
        rw [← hbytes, List.take_length_add_append]
        rfl
      rw [htake]
      exact List.take_prefix_take_left hin
  · intro h
    rw [splitAtBlank_canonical h]

variable (L : TextLibrary) (hutf8 : L.toUtf8 = toUtf8)
include hutf8

theorem encode_eq (text : QString) (latin1 : Bool) (h : Encodable text latin1) :
    encodeRequestText L text latin1 = encoding latin1 (wireEnds (editorSplit text).1 ++
      ([0x0D, 0x0A, 0x0D, 0x0A] ++ (editorSplit text).2)) := by
  have hkept : ¬ (latin1 && fromLatin1 (toLatin1 text) != text) = true := by
    rw [Bool.and_eq_true, bne_iff_ne]
    rintro ⟨hlatin1, hne⟩
    exact hne (h hlatin1)
  rw [encodeRequestText_eq, if_neg hkept, encoding, ← hutf8]
  dsimp only
  rw [List.append_assoc]
  cases latin1 with
  | false => rfl
  | true => rfl

theorem encode_decoded (hhead : WireHead head) (hblank : NoBlank 0x0D 0x0A (head ++ [0x0D, 0x0A]))
    (body : QByteArray) :
    encodeRequestText L (decodeRequestText (head ++ ([0x0D, 0x0A, 0x0D, 0x0A] ++ body))).1
      (decodeRequestText (head ++ ([0x0D, 0x0A, 0x0D, 0x0A] ++ body))).2 =
        head ++ ([0x0D, 0x0A, 0x0D, 0x0A] ++ body) := by
  generalize hbytes : head ++ ([0x0D, 0x0A, 0x0D, 0x0A] ++ body) = bytes
  generalize hdecode : decodeRequestText bytes = decoded
  obtain ⟨text, latin1⟩ := decoded
  have htext : Encodable text latin1 ∧ encoding latin1 text = bytes := by
    rw [decodeRequestText] at hdecode
    split at hdecode
    · cases hdecode
      have hback := toLatin1_fromLatin1 bytes
      exact ⟨fun _ => by rw [hback], hback⟩
    · rename_i hsame
      cases hdecode
      exact ⟨fun h => (by cases h), not_not.1 hsame⟩
  have he := encoding_separates latin1
  obtain ⟨front, rest, rfl, hfront, -⟩ := he.split_blank (htext.2.trans hbytes.symm)
  have hclean : NoBlank 0x0D 0x0A (front ++ [0x0D, 0x0A]) := by
    rw [← he.noBlank, he.last, hfront]
    exact hblank
  obtain ⟨lines, hlines, hwire⟩ := hhead
  have hreturned : Returned 0x0D 0x0A front := by
    rw [← he.returned, hfront]
    intro a b hab
    apply flatMap_returned hlines a (b ++ crlf)
    rw [← hwire, hab, List.append_assoc, List.cons_append]
  have hended : ∀ a b, front = a ++ 0x0D :: b → ∃ b', b = 0x0A :: b' := by
    rw [← he.ended, hfront]
    intro a b hab
    obtain ⟨t, ht⟩ := flatMap_ended hlines a (b ++ crlf) (by
      rw [← hwire, hab, List.append_assoc, List.cons_append])
    cases b with
    | nil => exact absurd (List.cons.inj ht).1 (by decide)
    | cons c b => exact ⟨b, by rw [(List.cons.inj ht).1]⟩
  rw [encode_eq L hutf8 _ _ htext.1, editorSplit_canonical hclean, wireEnds_kept hended hreturned]
  exact htext.2

theorem encoded_iff (text : QString) (latin1 : Bool) :
    Encoded text latin1 (encodeRequestText L text latin1) ↔
      (Encodable text latin1 →
        CleanEnds 0x0D 0x0A ((editorSplit text).1 ++ [0x0D, 0x0A])) := by
  have hrefused : ¬ Encodable text latin1 → encodeRequestText L text latin1 = [] := by
    intro hnot
    obtain ⟨hlatin1, hne⟩ := Classical.not_imp.1 hnot
    rw [encodeRequestText, if_pos]
    rw [Bool.and_eq_true, bne_iff_ne]
    exact ⟨hlatin1, hne⟩
  rw [Encoded, and_iff_left hrefused]
  apply imp_congr_right
  intro hencodable
  have he := encoding_separates latin1
  rw [encode_eq L hutf8 text latin1 hencodable, he.blank, splitAtBlank_iff]
  generalize (editorSplit text).1 = head
  generalize encoding latin1 (editorSplit text).2 = body
  rw [← wireEnds_clean, wireEnds_last, ← he.clean, he.last]
  constructor
  · rintro ⟨hblank, hwire⟩
    rw [splitAtBlank_canonical hblank] at hwire
    obtain ⟨lines, hlines, htext⟩ := hwire
    exact ⟨hblank, fun a b hab => flatMap_ended hlines a b (htext.symm.trans hab)⟩
  · intro hclean
    refine ⟨hclean.noBlank, ?_⟩
    rw [splitAtBlank_canonical hclean.noBlank]
    exact wire_lines _ hclean.ended (he.returned.2 (wireEnds_returned head))

theorem codec_lossless_iff :
    (∀ head body : QByteArray, WireHead head → NoBlank 0x0D 0x0A (head ++ [0x0D, 0x0A]) →
      encodeRequestText L (decodeRequestText (head ++ ([0x0D, 0x0A, 0x0D, 0x0A] ++ body))).1
        (decodeRequestText (head ++ ([0x0D, 0x0A, 0x0D, 0x0A] ++ body))).2 =
          head ++ ([0x0D, 0x0A, 0x0D, 0x0A] ++ body)) ∧
      ∀ text latin1, Encoded text latin1 (encodeRequestText L text latin1) ↔
        (Encodable text latin1 → CleanEnds 0x0D 0x0A ((editorSplit text).1 ++ [0x0D, 0x0A])) :=
  ⟨fun _ body hhead hblank => encode_decoded L hutf8 hhead hblank body, encoded_iff L hutf8⟩

end Codec

theorem cleanEnds_line {α : Type} {cr lf c : α} (hcr : c ≠ cr) (hlf : c ≠ lf) (hne : cr ≠ lf) :
    CleanEnds cr lf [c, cr, lf] := by
  rw [cleanEnds_plain hcr hlf hne, cleanEnds_crlf hne]
  refine ⟨?_, cleanEnds_nil⟩
  rintro (h | h)
  · cases h
  · cases h

theorem codec_lossless_line :
    encodeRequestText SessionRules.qtLibrary
        (decodeRequestText ([0x61] ++ ([0x0D, 0x0A, 0x0D, 0x0A] ++ [0xFF, 0x0A]))).1
        (decodeRequestText ([0x61] ++ ([0x0D, 0x0A, 0x0D, 0x0A] ++ [0xFF, 0x0A]))).2 =
          [0x61] ++ ([0x0D, 0x0A, 0x0D, 0x0A] ++ [0xFF, 0x0A]) ∧
      Encoded (utf16 "a\n\nx") true
        (encodeRequestText SessionRules.qtLibrary (utf16 "a\n\nx") true) := by
  have hcodec := codec_lossless_iff SessionRules.qtLibrary rfl
  constructor
  · apply hcodec.1
    · exact ⟨[[0x61]], List.forall_mem_singleton.2 (forall_mem_of_all (by decide)), rfl⟩
    · exact (cleanEnds_line (by decide) (by decide) (by decide)).noBlank
  · apply (hcodec.2 _ _).2
    intro _
    exact cleanEnds_line (by decide) (by decide) (by decide)

/-- A bare line feed is no boundary for the editor but is on the wire. -/
theorem mixed_blank_line :
    ¬ Encoded (utf16 "GET / HTTP/1.1\n\r\nx") false
      (encodeRequestText SessionRules.qtLibrary (utf16 "GET / HTTP/1.1\n\r\nx") false) := by
  intro h
  have hbody := (h.1 nofun).1
  exact absurd hbody (by decide)

end Nullock.NetworkingLogic

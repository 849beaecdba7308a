import Nullock.NucleiYaml

namespace Nullock.NucleiYaml

def isIdentifierChar (c : UInt16) : Bool :=
  (0x41 ≤ c && c ≤ 0x5A) || (0x61 ≤ c && c ≤ 0x7A) || (0x30 ≤ c && c ≤ 0x39) || c == 0x5F

/-- A name of letters, digits and underscores that is no number. -/
structure Key where
  text : QString
  nonempty : text ≠ []
  chars : ∀ c ∈ text, isIdentifierChar c = true
  start : ∀ c ∈ text.head?, ¬ (0x30 ≤ c ∧ c ≤ 0x39)

mutual

inductive Tree where
  | leaf (s : QString)
  | seq (items : Items)
  | map (entries : Entries)

inductive Items where
  | one (t : Tree)
  | cons (t : Tree) (items : Items)

inductive Entries where
  | one (key : Key) (t : Tree)
  | cons (key : Key) (t : Tree) (entries : Entries)

end

def escapeChar (c : UInt16) : QString :=
  if c = kQuote then [kBackslash, kQuote]
  else if c = kBackslash then [kBackslash, kBackslash]
  else if c = 0x0A then [kBackslash, 0x6E]
  else if c = 0x0D then [kBackslash, 0x72]
  else if c = 0x09 then [kBackslash, 0x74]
  else [c]

def escape (s : QString) : QString := s.flatMap escapeChar

def quoted (s : QString) : QString := kQuote :: (escape s ++ [kQuote])

def dashed (d : Nat) : List (Nat × QString) → List (Nat × QString)
  | [] => []
  | l :: lines => (d, kDash :: kSpace :: l.2) :: lines

mutual

def Tree.renderItem (d : Nat) : Tree → List (Nat × QString)
  | .leaf s => [(d, kDash :: kSpace :: quoted s)]
  | .seq items => (d, [kDash]) :: items.render (d + 2)
  | .map entries => dashed d (entries.render (d + 2))

def Tree.renderEntry (d : Nat) (key : Key) : Tree → List (Nat × QString)
  | .leaf s => [(d, key.text ++ kColon :: kSpace :: quoted s)]
  | .seq items => (d, key.text ++ [kColon]) :: items.render (d + 2)
  | .map entries => (d, key.text ++ [kColon]) :: entries.render (d + 2)

def Items.render (d : Nat) : Items → List (Nat × QString)
  | .one t => t.renderItem d
  | .cons t items => t.renderItem d ++ items.render d

def Entries.render (d : Nat) : Entries → List (Nat × QString)
  | .one key t => t.renderEntry d key
  | .cons key t entries => t.renderEntry d key ++ entries.render d

end

def Tree.lines : Tree → List (Nat × QString)
  | .leaf s => [(0, quoted s)]
  | .seq items => items.render 0
  | .map entries => entries.render 0

def lineText (l : Nat × QString) : QString := List.replicate l.1 kSpace ++ l.2

def Tree.document (t : Tree) : QString := t.lines.flatMap (fun l => lineText l ++ [0x0A])

mutual

def Tree.toJson : Tree → QJsonValue
  | .leaf s => .string s
  | .seq items => .array items.toJson
  | .map entries => .object (entries.toJson [])

def Items.toJson : Items → List QJsonValue
  | .one t => [t.toJson]
  | .cons t items => t.toJson :: items.toJson

def Entries.toJson (obj : QJsonObject) : Entries → QJsonObject
  | .one key t => obj.insert key.text t.toJson
  | .cons key t entries => entries.toJson (obj.insert key.text t.toJson)

end

mutual

def Tree.weight : Tree → Nat
  | .leaf _ => 0
  | .seq items => items.weight
  | .map entries => entries.weight

def Items.weight : Items → Nat
  | .one t => t.weight + 1
  | .cons t items => t.weight + 1 + items.weight

def Entries.weight : Entries → Nat
  | .one _ t => t.weight + 1
  | .cons _ t entries => t.weight + 1 + entries.weight

end

def NoComment (s : QString) : Prop := stripComment (quoted s) = quoted s

instance (s : QString) : Decidable (NoComment s) := inferInstanceAs (Decidable (_ = _))

def NoKey (s : QString) : Prop := NoComment s ∧ keyColon (quoted s) = none

instance (s : QString) : Decidable (NoKey s) := inferInstanceAs (Decidable (_ ∧ _))

mutual

def Tree.SafeItem : Tree → Prop
  | .leaf s => NoKey s
  | .seq items => items.Safe
  | .map entries => entries.Safe

def Tree.SafeEntry : Tree → Prop
  | .leaf s => NoComment s
  | .seq items => items.Safe
  | .map entries => entries.Safe

def Items.Safe : Items → Prop
  | .one t => t.SafeItem
  | .cons t items => t.SafeItem ∧ items.Safe

def Entries.Safe : Entries → Prop
  | .one _ t => t.SafeEntry
  | .cons _ t entries => t.SafeEntry ∧ entries.Safe

end

def Tree.Safe : Tree → Prop
  | .leaf _ => False
  | .seq items => items.Safe
  | .map entries => entries.Safe

section Scanners

def Plain (c : UInt16) : Prop := c ≠ kQuote ∧ c ≠ kApostrophe ∧ c ≠ kHash

theorem plain_identifier (h : isIdentifierChar c = true) : Plain c ∧ c ≠ kColon ∧ c ≠ kDash ∧
    isSpace c = false ∧ c ≠ 0x0A ∧ c ≠ 0x09 ∧ c ≠ 0x0D := by
  refine ⟨⟨?_, ?_, ?_⟩, ?_, ?_, ?_, ?_, ?_, ?_⟩
  · rintro rfl
    revert h
    decide
  · rintro rfl
    revert h
    decide
  · rintro rfl
    revert h
    decide
  · rintro rfl
    revert h
    decide
  · rintro rfl
    revert h
    decide
  · have hrange : 0x30 ≤ c.toNat ∧ c.toNat ≤ 0x7A := by
      simp only [isIdentifierChar, Bool.or_eq_true, Bool.and_eq_true, decide_eq_true_eq,
        beq_iff_eq, UInt16.le_iff_toNat_le] at h
      rcases h with ((h | h) | h) | rfl
      · exact ⟨Nat.le_trans (by decide) h.1, Nat.le_trans h.2 (by decide)⟩
      · exact ⟨Nat.le_trans (by decide) h.1, h.2⟩
      · exact ⟨h.1, Nat.le_trans h.2 (by decide)⟩
      · decide
    simp only [isSpace, Bool.or_eq_false_iff, Bool.and_eq_false_iff, decide_eq_false_iff_not,
      beq_eq_false_iff_ne, ne_eq, ← UInt16.toNat_inj, UInt16.le_iff_toNat_le, UInt16.reduceToNat]
    omega
  · rintro rfl
    revert h
    decide
  · rintro rfl
    revert h
    decide
  · rintro rfl
    revert h
    decide

theorem pass_plain (h : Plain c) (b : Option UInt16) :
    Quotes.pass { before := b } c = { before := some c } := by
  rw [Quotes.pass, if_neg (fun hc => h.2.1 hc.1), if_neg (fun hc => h.1 hc.1)]

theorem stripCommentFrom_plain (h : Plain c) (b : Option UInt16) (s : QString) :
    stripCommentFrom { before := b } (c :: s) = c :: stripCommentFrom { before := some c } s := by
  cases s with
  | nil =>
    simp only [stripCommentFrom]
    exact if_neg (fun hc => h.2.2 hc.1)
  | cons d s =>
    rw [stripCommentFrom, if_neg (fun hc => h.2.1 hc.1), if_neg (fun hc => h.2.2 hc.1),
      pass_plain h]

theorem stripCommentFrom_append (h : ∀ c ∈ p, Plain c) (b : Option UInt16) (s : QString) :
    ∃ b', stripCommentFrom { before := b } (p ++ s) = p ++ stripCommentFrom { before := b' } s := by
  induction p generalizing b with
  | nil => exact ⟨b, rfl⟩
  | cons c p ih =>
    obtain ⟨b', hb'⟩ := ih (fun d hd => h d (List.mem_cons_of_mem c hd)) (some c)
    refine ⟨b', ?_⟩
    rw [List.cons_append, stripCommentFrom_plain (h c List.mem_cons_self), hb']
    rfl

theorem stripCommentFrom_quoted (b : Option UInt16) (s : QString) :
    stripCommentFrom { before := b } (quoted s) = stripComment (quoted s) := by
  have hboth (b : Option UInt16) : stripCommentFrom { before := b } (quoted s) =
      kQuote :: stripCommentFrom { inD := true, before := some kQuote } (escape s ++ [kQuote]) := by
    rw [quoted]
    cases hs : escape s ++ [kQuote] with
    | nil => simp at hs
    | cons d t =>
      rw [stripCommentFrom, if_neg (fun hc => absurd hc.1 (by decide)),
        if_neg (fun hc => absurd hc.1 (by decide))]
      rfl
  rw [stripComment, hboth, hboth none]

theorem stripComment_quoted (hp : ∀ c ∈ p, Plain c) (h : NoComment s) :
    stripComment (p ++ quoted s) = p ++ quoted s := by
  obtain ⟨b, hb⟩ := stripCommentFrom_append hp none (quoted s)
  rw [stripComment, hb, stripCommentFrom_quoted, h]

theorem stripComment_plain (hp : ∀ c ∈ p, Plain c) : stripComment p = p := by
  obtain ⟨b, hb⟩ := stripCommentFrom_append hp none []
  rw [List.append_nil] at hb
  rw [stripComment, hb, stripCommentFrom, List.append_nil]

theorem keyColonFrom_plain (h : Plain c) (hcolon : c ≠ kColon) (b : Option UInt16) (i : Nat)
    (s : QString) :
    keyColonFrom { before := b } i (c :: s) = keyColonFrom { before := some c } (i + 1) s := by
  cases s with
  | nil =>
    simp only [keyColonFrom]
    exact if_neg (fun hc => hcolon hc.1)
  | cons d s =>
    rw [keyColonFrom, if_neg (fun hc => h.2.1 hc.1), if_neg (fun hc => hcolon hc.1), pass_plain h]

theorem keyColonFrom_append (h : ∀ c ∈ p, Plain c ∧ c ≠ kColon) (b : Option UInt16) (i : Nat)
    (s : QString) :
    ∃ b', keyColonFrom { before := b } i (p ++ s) =
      keyColonFrom { before := b' } (i + p.length) s := by
  induction p generalizing b i with
  | nil => exact ⟨b, rfl⟩
  | cons c p ih =>
    obtain ⟨b', hb'⟩ := ih (fun d hd => h d (List.mem_cons_of_mem c hd)) (some c) (i + 1)
    refine ⟨b', ?_⟩
    obtain ⟨hc, hcolon⟩ := h c List.mem_cons_self
    rw [List.cons_append, keyColonFrom_plain hc hcolon, hb', List.length_cons]
    congr 1
    omega

theorem Key.plain (key : Key) : ∀ c ∈ key.text, Plain c ∧ c ≠ kColon := by
  intro c hc
  obtain ⟨hplain, hcolon, _⟩ := plain_identifier (key.chars c hc)
  exact ⟨hplain, hcolon⟩

theorem keyColon_key (key : Key) (hs : s = [] ∨ ∃ s', s = kSpace :: s') :
    keyColon (key.text ++ kColon :: s) = some key.text.length := by
  obtain ⟨b, hb⟩ := keyColonFrom_append key.plain none 0 (kColon :: s)
  rw [keyColon, hb, Nat.zero_add]
  rcases hs with rfl | ⟨s', rfl⟩
  · rw [keyColonFrom]
    exact if_pos ⟨rfl, rfl⟩
  · rw [keyColonFrom, if_neg (fun hc => absurd hc.1 (by decide))]
    exact if_pos ⟨rfl, rfl, rfl⟩

end Scanners

section Texts

theorem unescape_plain (hc : c ≠ kBackslash) (s : QString) :
    unescape (c :: s) = c :: unescape s := by
  cases s with
  | nil => rfl
  | cons d s => rw [unescape, if_neg hc]

theorem unescape_escape (s : QString) : unescape (escape s) = s := by
  induction s with
  | nil => rfl
  | cons c s ih =>
    rw [escape, List.flatMap_cons, ← escape, escapeChar]
    split
    · rename_i hc
      show kQuote :: unescape (escape s) = c :: s
      rw [ih, hc]
    split
    · rename_i hc
      show kBackslash :: unescape (escape s) = c :: s
      rw [ih, hc]
    split
    · rename_i hc
      show 0x0A :: unescape (escape s) = c :: s
      rw [ih, hc]
    split
    · rename_i hc
      show 0x0D :: unescape (escape s) = c :: s
      rw [ih, hc]
    split
    · rename_i hc
      show 0x09 :: unescape (escape s) = c :: s
      rw [ih, hc]
    · rename_i hc _ _ _
      show unescape (c :: escape s) = c :: s
      rw [unescape_plain hc, ih]

theorem trimmed_of_ends {s : QString} (hhead : ∀ c ∈ s.head?, isSpace c = false)
    (hlast : ∀ c ∈ s.getLast?, isSpace c = false) : QString.trimmed s = s :=
  trimWith_eq_self hhead hlast

theorem getLast?_quoted (p s : QString) : (p ++ quoted s).getLast? = some kQuote := by
  rw [quoted, ← List.cons_append, ← List.append_assoc, List.getLast?_append]
  rfl

theorem trimmed_quoted (s : QString) : QString.trimmed (quoted s) = quoted s := by
  apply trimmed_of_ends
  · intro c hc
    cases hc
    decide
  · intro c hc
    rw [← List.nil_append (quoted s), getLast?_quoted] at hc
    cases hc
    decide

theorem unquote_quoted (s : QString) : unquote (quoted s) = s := by
  have hlast : (quoted s).getLast? = some kQuote := getLast?_quoted [] s
  have hlength : (quoted s).length = (escape s).length + 2 := by
    rw [quoted, List.length_cons, List.length_append, List.length_singleton]
  rw [unquote, trimmed_quoted, if_pos ⟨by omega, rfl, hlast⟩, hlength, quoted, List.drop_one,
    List.tail_cons, Nat.add_sub_cancel, List.take_left, unescape_escape]

theorem scalarOrFlow_quoted (s : QString) : scalarOrFlow (quoted s) = .string s := by
  have hhead : (quoted s).head? = some kQuote := rfl
  rw [scalarOrFlow, trimmed_quoted, hhead, if_neg (fun hc => absurd hc.1 (by decide)), scalar,
    trimmed_quoted, hhead, if_neg (by rw [quoted]; exact Bool.false_ne_true), if_pos (.inl rfl),
    unquote_quoted]

end Texts

end Nullock.NucleiYaml

import Nullock.Text

namespace Nullock.Shell

/-- Where the lexer stands: outside, behind a backslash, or in either quotes. -/
inductive Quoting where
  | plain
  | escaped
  | single
  | double
  | doubleEscaped
deriving DecidableEq

def kQuote : UInt16 := 0x27
def kDoubleQuote : UInt16 := 0x22
def kBackslash : UInt16 := 0x5C
def kNewline : UInt16 := 0x0A

def isSpecial (c : UInt16) : Bool := (utf16 "|&;<>()$\x60*?[]#~=%!\x7b\x7d\n").contains c

/-- In double quotes the characters that a backslash takes their meaning from. -/
def isEscapable (c : UInt16) : Bool := (utf16 "$\x60\"\\").contains c

/-- The words of a command line by the quoting rules of the POSIX shell. -/
def wordsFrom : Quoting → Option QString → QString → Option (List QString)
  | .plain, word, [] => some word.toList
  | _, _, [] => none
  | .plain, word, c :: s =>
    if c = 0 ∨ isSpecial c then none
    else if c = 0x20 ∨ c = 0x09 then (wordsFrom .plain none s).map (word.toList ++ ·)
    else if c = kQuote then wordsFrom .single (some (word.getD [])) s
    else if c = kDoubleQuote then wordsFrom .double (some (word.getD [])) s
    else if c = kBackslash then wordsFrom .escaped word s
    else wordsFrom .plain (some (word.getD [] ++ [c])) s
  | .escaped, word, c :: s =>
    if c = 0 then none
    else if c = kNewline then wordsFrom .plain word s
    else wordsFrom .plain (some (word.getD [] ++ [c])) s
  | .single, word, c :: s =>
    if c = 0 then none
    else if c = kQuote then wordsFrom .plain word s
    else wordsFrom .single (some (word.getD [] ++ [c])) s
  | .double, word, c :: s =>
    if c = 0 ∨ c = 0x24 ∨ c = 0x60 then none
    else if c = kDoubleQuote then wordsFrom .plain word s
    else if c = kBackslash then wordsFrom .doubleEscaped word s
    else wordsFrom .double (some (word.getD [] ++ [c])) s
  | .doubleEscaped, word, c :: s =>
    if c = 0 then none
    else if c = kNewline then wordsFrom .double word s
    else if isEscapable c then wordsFrom .double (some (word.getD [] ++ [c])) s
    else wordsFrom .double (some (word.getD [] ++ [kBackslash, c])) s

def words (line : QString) : Option (List QString) := wordsFrom .plain none line

def quoted (s : QString) : QString :=
  kQuote :: (s.flatMap (fun c => if c = kQuote then [kQuote, kBackslash, kQuote, kQuote] else [c]) ++
    [kQuote])

def isWordChar (c : UInt16) : Bool :=
  c != 0 && !isSpecial c && c != 0x20 && c != 0x09 && c != kQuote && c != kDoubleQuote &&
    c != kBackslash

theorem wordsFrom_single (s rest w : QString) (h : 0 ∉ s) :
    wordsFrom .single (some w)
        (s.flatMap (fun c => if c = kQuote then [kQuote, kBackslash, kQuote, kQuote] else [c]) ++
          kQuote :: rest) = wordsFrom .plain (some (w ++ s)) rest := by
  induction s generalizing w with
  | nil =>
    rw [List.flatMap_nil, List.nil_append, wordsFrom, if_neg (by decide), if_pos rfl,
      List.append_nil]
  | cons c s ih =>
    have hc : c ≠ 0 := fun he => h (he ▸ List.mem_cons_self)
    have hs := ih (w ++ [c]) (fun hm => h (List.mem_cons_of_mem c hm))
    rw [List.append_assoc, List.singleton_append] at hs
    rw [List.flatMap_cons]
    by_cases hq : c = kQuote
    · subst hq
      rw [if_pos rfl]
      simp only [List.cons_append, List.nil_append]
      rw [wordsFrom, if_neg (by decide), if_pos rfl, wordsFrom, if_neg (by decide),
        if_neg (by decide), if_neg (by decide), if_neg (by decide), if_pos rfl, wordsFrom,
        if_neg (by decide), if_neg (by decide), wordsFrom, if_neg (by decide), if_neg (by decide),
        if_pos rfl]
      exact hs
    · rw [if_neg hq, List.singleton_append, List.cons_append, wordsFrom, if_neg hc, if_neg hq]
      exact hs

theorem wordsFrom_quoted (h : 0 ∉ s) (word : Option QString) (rest : QString) :
    wordsFrom .plain word (quoted s ++ rest) =
      wordsFrom .plain (some (word.getD [] ++ s)) rest := by
  rw [quoted, List.cons_append, List.append_assoc, List.singleton_append, wordsFrom,
    if_neg (by decide), if_neg (by decide), if_pos rfl]
  exact wordsFrom_single s rest _ h

theorem wordsFrom_chars (h : s.all isWordChar = true) (word : Option QString) (c : UInt16)
    (hc : isWordChar c = true) (rest : QString) :
    wordsFrom .plain word (c :: s ++ rest) =
      wordsFrom .plain (some (word.getD [] ++ c :: s)) rest := by
  have hstep (d : UInt16) (hd : isWordChar d = true) (word : Option QString) (t : QString) :
      wordsFrom .plain word (d :: t) = wordsFrom .plain (some (word.getD [] ++ [d])) t := by
    simp only [isWordChar, Bool.and_eq_true, bne_iff_ne, Bool.not_eq_true'] at hd
    obtain ⟨⟨⟨⟨⟨⟨hnul, hspecial⟩, hblank⟩, htab⟩, hquote⟩, hdouble⟩, hback⟩ := hd
    rw [wordsFrom, if_neg (by simp [hnul, hspecial]), if_neg (by simp [hblank, htab]),
      if_neg hquote, if_neg hdouble, if_neg hback]
  induction s generalizing word c with
  | nil => exact hstep c hc word rest
  | cons d s ih =>
    rw [List.all_cons, Bool.and_eq_true] at h
    rw [List.cons_append, hstep c hc, ih h.2 _ d h.1, Option.getD_some, List.append_assoc,
      List.singleton_append]

theorem wordsFrom_blank (word : Option QString) (rest : QString) :
    wordsFrom .plain word (0x20 :: rest) = (words rest).map (word.toList ++ ·) := by
  rw [wordsFrom, if_neg (by decide), if_pos (.inl rfl)]
  rfl

theorem words_option (hs : s.all isWordChar = true) (hc : isWordChar c = true) (h : 0 ∉ t)
    (word rest : QString) :
    wordsFrom .plain (some word) (0x20 :: (c :: s ++ 0x20 :: (quoted t ++ rest))) =
      (wordsFrom .plain (some t) rest).map ([word, c :: s] ++ ·) := by
  rw [wordsFrom_blank, words, wordsFrom_chars hs none c hc, wordsFrom_blank, words,
    wordsFrom_quoted h none rest, Option.map_map]
  rfl

end Nullock.Shell

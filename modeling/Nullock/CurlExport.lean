import Nullock.HistorySearch
import Nullock.ShellWords

namespace Nullock.RequestExport
open Shell (words wordsFrom quoted)

def shq (s : QString) : QString := utf16 "'" ++ replaceAll (utf16 "'") (utf16 "'\\''") s ++ utf16 "'"

def isLeftOut (name : QString) : Bool :=
  equalsIgnoreCase name (utf16 "Content-Length") || equalsIgnoreCase name (utf16 "Host") ||
    name.head? == some 0x3A

section Curl
variable (toUpper : QString → QString)

def curlMethod (methodIn : QString) : QString :=
  let method := toUpper methodIn
  if method.isEmpty then utf16 "GET" else method

def curlCommand (methodIn url : QString) (headers : List (QString × QString)) (body : QString) :
    QString :=
  let method := curlMethod toUpper methodIn
  let c := utf16 "curl"
  let c := if method ≠ utf16 "GET" ∨ !body.isEmpty then c ++ (utf16 " -X " ++ shq method) else c
  let c := c ++ (utf16 " --url " ++ shq url)
  let c := headers.foldl (fun c hh =>
    if isLeftOut hh.1 then c else c ++ (utf16 " -H " ++ shq (hh.1 ++ utf16 ": " ++ hh.2))) c
  if body.isEmpty then c else c ++ (utf16 " --data-raw " ++ shq body)

end Curl

def options (method url : QString) (headers : List (QString × QString)) (body : QString) :
    List (QString × QString) :=
  (if method ≠ utf16 "GET" ∨ !body.isEmpty then [(utf16 "-X", method)] else []) ++
    (utf16 "--url", url) ::
      ((headers.filter (fun hh => !isLeftOut hh.1)).map
          (fun hh => (utf16 "-H", hh.1 ++ utf16 ": " ++ hh.2)) ++
        if body.isEmpty then [] else [(utf16 "--data-raw", body)])

def commandWords (method url : QString) (headers : List (QString × QString)) (body : QString) :
    List QString :=
  utf16 "curl" :: (options method url headers body).flatMap (fun o => [o.1, o.2])

def optionText (o : QString × QString) : QString := 0x20 :: (o.1 ++ 0x20 :: quoted o.2)

theorem replaceAll_quote (s : QString) :
    replaceAll (utf16 "'") (utf16 "'\\''") s = s.flatMap (fun c =>
      if c = Shell.kQuote then [Shell.kQuote, Shell.kBackslash, Shell.kQuote, Shell.kQuote]
      else [c]) := by
  induction s with
  | nil => rfl
  | cons c s ih =>
    rw [replaceAll] at ih
    rw [replaceAll, replaceFrom, List.flatMap_cons]
    by_cases h : c = Shell.kQuote
    · subst h
      rw [if_pos (by rfl), if_pos rfl, ← ih]
      rfl
    · have hno : ¬ (utf16 "'").isPrefixOf (c :: s) = true := by
        rw [List.isPrefixOf_iff_prefix]
        rintro ⟨t, ht⟩
        exact h (List.cons.inj ht).1.symm
      rw [if_neg hno, if_neg h, ih]
      rfl

theorem shq_eq (s : QString) : shq s = quoted s := by
  rw [shq, replaceAll_quote]
  rfl

theorem foldl_headers (headers : List (QString × QString)) (c : QString) :
    headers.foldl (fun c hh =>
        if isLeftOut hh.1 then c else c ++ (utf16 " -H " ++ shq (hh.1 ++ utf16 ": " ++ hh.2))) c =
      c ++ ((headers.filter (fun hh => !isLeftOut hh.1)).map
        (fun hh => (utf16 "-H", hh.1 ++ utf16 ": " ++ hh.2))).flatMap optionText := by
  induction headers generalizing c with
  | nil => exact (List.append_nil c).symm
  | cons hh headers ih =>
    rw [List.foldl_cons, ih]
    cases h : isLeftOut hh.1 with
    | true => rw [if_pos rfl, List.filter_cons_of_neg (by simp [h])]
    | false =>
      rw [if_neg Bool.false_ne_true, List.filter_cons_of_pos (by simp [h]), List.map_cons,
        List.flatMap_cons, List.append_assoc, shq_eq]
      rfl

theorem curlCommand_eq (toUpper : QString → QString) (methodIn url : QString)
    (headers : List (QString × QString)) (body : QString) :
    curlCommand toUpper methodIn url headers body = utf16 "curl" ++
      (options (curlMethod toUpper methodIn) url headers body).flatMap optionText := by
  rw [curlCommand, options]
  rw [foldl_headers, List.flatMap_append, List.flatMap_cons, List.flatMap_append]
  have hurl : utf16 " --url " ++ shq url = optionText (utf16 "--url", url) := by
    rw [shq_eq]
    rfl
  have hmethod : utf16 " -X " ++ shq (curlMethod toUpper methodIn) =
      optionText (utf16 "-X", curlMethod toUpper methodIn) := by
    rw [shq_eq]
    rfl
  have hbody : utf16 " --data-raw " ++ shq body = optionText (utf16 "--data-raw", body) := by
    rw [shq_eq]
    rfl
  rw [hurl, hmethod, hbody]
  split
  · split
    · simp only [List.flatMap_cons, List.flatMap_nil, List.append_assoc, List.append_nil]
    · simp only [List.flatMap_nil, List.append_assoc, List.append_nil, List.nil_append]
  · split
    · simp only [List.flatMap_cons, List.flatMap_nil, List.append_assoc, List.append_nil]
    · simp only [List.flatMap_cons, List.flatMap_nil, List.append_assoc, List.append_nil,
        List.nil_append]

def PlainName (name : QString) : Prop := ∃ c s, name = c :: s ∧ Shell.isWordChar c = true ∧
  s.all Shell.isWordChar = true

theorem words_options {opts : List (QString × QString)}
    (h : ∀ o ∈ opts, PlainName o.1 ∧ 0 ∉ o.2) (word : QString) :
    wordsFrom .plain (some word) (opts.flatMap optionText) =
      some (word :: opts.flatMap (fun o => [o.1, o.2])) := by
  induction opts generalizing word with
  | nil => rfl
  | cons o opts ih =>
    obtain ⟨⟨c, s, hname, hc, hs⟩, hnul⟩ := h o List.mem_cons_self
    have hrest := ih (fun p hp => h p (List.mem_cons_of_mem o hp)) o.2
    rw [List.flatMap_cons, optionText, hname]
    have htext : (0x20 :: (c :: s ++ 0x20 :: quoted o.2)) ++ opts.flatMap optionText =
        0x20 :: (c :: s ++ 0x20 :: (quoted o.2 ++ opts.flatMap optionText)) := by
      simp only [List.cons_append, List.append_assoc]
    rw [htext, Shell.words_option hs hc hnul, hrest, List.flatMap_cons, hname]
    rfl

theorem options_plain (hmethod : 0 ∉ method) (hurl : 0 ∉ url)
    (hheaders : ∀ hh ∈ headers, 0 ∉ hh.1 ∧ 0 ∉ hh.2) (hbody : 0 ∉ body) :
    ∀ o ∈ options method url headers body, PlainName o.1 ∧ 0 ∉ o.2 := by
  intro o ho
  rw [options, List.mem_append, List.mem_cons, List.mem_append] at ho
  rcases ho with ho | rfl | ho | ho
  · split at ho
    · rw [List.mem_singleton.1 ho]
      exact ⟨⟨_, _, rfl, by decide, by decide⟩, hmethod⟩
    · cases ho
  · exact ⟨⟨_, _, rfl, by decide, by decide⟩, hurl⟩
  · obtain ⟨hh, hmem, rfl⟩ := List.mem_map.1 ho
    obtain ⟨hname, hvalue⟩ := hheaders hh (List.mem_filter.1 hmem).1
    refine ⟨⟨_, _, rfl, by decide, by decide⟩, ?_⟩
    intro hnul
    rcases List.mem_append.1 hnul with hnul | hnul
    · rcases List.mem_append.1 hnul with hnul | hnul
      · exact hname hnul
      · exact absurd hnul (by decide)
    · exact hvalue hnul
  · split at ho
    · cases ho
    · rw [List.mem_singleton.1 ho]
      exact ⟨⟨_, _, rfl, by decide, by decide⟩, hbody⟩

theorem words_curlCommand (toUpper : QString → QString) (hupper : ∀ s, 0 ∉ s → 0 ∉ toUpper s)
    (methodIn url : QString) (headers : List (QString × QString)) (body : QString)
    (hmethod : 0 ∉ methodIn) (hurl : 0 ∉ url) (hheaders : ∀ hh ∈ headers, 0 ∉ hh.1 ∧ 0 ∉ hh.2)
    (hbody : 0 ∉ body) :
    words (curlCommand toUpper methodIn url headers body) =
      some (commandWords (curlMethod toUpper methodIn) url headers body) := by
  have hnul : 0 ∉ curlMethod toUpper methodIn := by
    rw [curlMethod]
    split
    · decide
    · exact hupper methodIn hmethod
  rw [curlCommand_eq, commandWords, words]
  rw [show utf16 "curl" = 0x63 :: utf16 "url" from rfl,
    Shell.wordsFrom_chars (by decide) none 0x63 (by decide)]
  exact words_options (options_plain hnul hurl hheaders hbody) _

/-- The shell reads a command as one with the texts as arguments. -/
theorem exported_command (toUpper : QString → QString) (hupper : ∀ s, 0 ∉ s → 0 ∉ toUpper s)
    (methodIn url : QString) (headers : List (QString × QString)) (body : QString)
    (hmethod : 0 ∉ methodIn) (hurl : 0 ∉ url) (hheaders : ∀ hh ∈ headers, 0 ∉ hh.1 ∧ 0 ∉ hh.2)
    (hbody : 0 ∉ body) :
    words (curlCommand toUpper methodIn url headers body) =
      some (commandWords (curlMethod toUpper methodIn) url headers body) :=
  words_curlCommand toUpper hupper methodIn url headers body hmethod hurl hheaders hbody

theorem asciiUpper_nul (s : QString) (h : 0 ∉ s) : 0 ∉ HistoryLogic.asciiUpper s := by
  intro hm
  obtain ⟨c, hc, hz⟩ := List.mem_map.1 hm
  by_cases hl : 0x61 ≤ c ∧ c ≤ 0x7A
  · rw [if_pos hl] at hz
    have hback : c = 0x20 := by
      have hsum := UInt16.sub_add_cancel c 0x20
      rw [hz] at hsum
      exact hsum.symm
    rw [hback] at hl
    exact absurd hl.1 (by decide)
  · rw [if_neg hl] at hz
    exact h (hz ▸ hc)

theorem exported_quotes :
    words (curlCommand HistoryLogic.asciiUpper (utf16 "post") (utf16 "http://a/'$(x)")
        [(utf16 "A", utf16 "'; rm")] (utf16 "\n")) =
      some (commandWords (utf16 "POST") (utf16 "http://a/'$(x)") [(utf16 "A", utf16 "'; rm")]
        (utf16 "\n")) :=
  exported_command HistoryLogic.asciiUpper asciiUpper_nul (utf16 "post") (utf16 "http://a/'$(x)")
    [(utf16 "A", utf16 "'; rm")] (utf16 "\n") (by decide) (by decide) (by decide) (by decide)

theorem method_raised :
    words (curlCommand HistoryLogic.asciiUpper (utf16 "get") (utf16 "/") [] (utf16 "x")) ≠
      some (commandWords (utf16 "get") (utf16 "/") [] (utf16 "x")) := by
  rw [words_curlCommand HistoryLogic.asciiUpper asciiUpper_nul (utf16 "get") (utf16 "/") []
    (utf16 "x") (by decide) (by decide) (by decide) (by decide)]
  decide

end Nullock.RequestExport

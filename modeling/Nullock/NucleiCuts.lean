import Nullock.NucleiDocuments

namespace Nullock.NucleiYaml
open QJsonObject

section Cuts

theorem stripCommentFrom_cut (q : Quotes) (s : QString) :
    stripCommentFrom q s = s ∨ ∃ t, s = stripCommentFrom q s ++ kHash :: t := by
  induction q, s using stripCommentFrom.induct with
  | case1 q => exact .inl rfl
  | case2 q c h =>
    refine .inr ⟨[], ?_⟩
    rw [stripCommentFrom, if_pos h, h.1]
    rfl
  | case3 q c h =>
    rw [stripCommentFrom, if_neg h]
    exact .inl rfl
  | case4 q c d s h ih =>
    rw [stripCommentFrom, if_pos h]
    rcases ih with ih | ⟨t, ht⟩
    · rw [ih]
      exact .inl rfl
    · refine .inr ⟨t, ?_⟩
      rw [List.cons_append, List.cons_append, ← ht]
  | case5 q c d s hq h =>
    refine .inr ⟨d :: s, ?_⟩
    rw [stripCommentFrom, if_neg hq, if_pos h, h.1]
    rfl
  | case6 q c d s hq h ih =>
    rw [stripCommentFrom, if_neg hq, if_neg h]
    rcases ih with ih | ⟨t, ht⟩
    · rw [ih]
      exact .inl rfl
    · refine .inr ⟨t, ?_⟩
      rw [List.cons_append, ← ht]

theorem escapeChar_cases (c : UInt16) :
    (∃ x, escapeChar c = [kBackslash, x] ∧ (x = kQuote → c = kQuote) ∧
        unescape [kBackslash, x] = [c] ∧ x ≠ kHash) ∨
      (escapeChar c = [c] ∧ c ≠ kQuote ∧ c ≠ kBackslash) := by
  rw [escapeChar]
  split
  · rename_i hc
    exact .inl ⟨kQuote, rfl, fun _ => hc, by rw [hc]; rfl, by decide⟩
  split
  · rename_i hc
    exact .inl ⟨kBackslash, rfl, fun h => absurd h (by decide), by rw [hc]; rfl, by decide⟩
  split
  · rename_i hc
    exact .inl ⟨0x6E, rfl, fun h => absurd h (by decide), by rw [hc]; rfl, by decide⟩
  split
  · rename_i hc
    exact .inl ⟨0x72, rfl, fun h => absurd h (by decide), by rw [hc]; rfl, by decide⟩
  split
  · rename_i hc
    exact .inl ⟨0x74, rfl, fun h => absurd h (by decide), by rw [hc]; rfl, by decide⟩
  · rename_i hq hb _ _ _
    exact .inr ⟨rfl, hq, hb⟩

theorem escape_cons (c : UInt16) (s : QString) : escape (c :: s) = escapeChar c ++ escape s := rfl

theorem unescape_pair (h : unescape [kBackslash, x] = [c]) (s : QString) :
    unescape (kBackslash :: x :: s) = c :: unescape s := by
  rw [unescape, if_pos rfl] at h ⊢
  split at h
  · rename_i hx
    rw [if_pos hx]
    exact congrArg (· :: unescape s) (List.cons.inj h).1
  rename_i hx
  rw [if_neg hx]
  split at h
  · rename_i hx
    rw [if_pos hx]
    exact congrArg (· :: unescape s) (List.cons.inj h).1
  rename_i hx
  rw [if_neg hx]
  split at h
  · rename_i hx
    rw [if_pos hx]
    exact congrArg (· :: unescape s) (List.cons.inj h).1
  rename_i hx
  rw [if_neg hx]
  split at h
  · rename_i hx
    rw [if_pos hx]
    exact congrArg (· :: unescape s) (List.cons.inj h).1
  rename_i hx
  rw [if_neg hx]
  split at h
  · rename_i hx
    rw [if_pos hx]
    exact congrArg (· :: unescape s) (List.cons.inj h).1
  · cases (List.cons.inj h).2

theorem unescape_before_quote (h : escape s = v ++ kQuote :: w) :
    ∃ a b, s = a ++ kQuote :: b ∧ unescape v = a ++ [kBackslash] := by
  induction s generalizing v with
  | nil => exact absurd h (by simp [escape])
  | cons c s ih =>
    rw [escape_cons] at h
    rcases escapeChar_cases c with ⟨x, hc, hx, hread, _⟩ | ⟨hc, hquote, hback⟩
    · rw [hc] at h
      cases v with
      | nil => exact absurd (List.cons.inj h).1 (by decide)
      | cons b v =>
        obtain ⟨hb, hrest⟩ := List.cons.inj h
        cases v with
        | nil =>
          obtain ⟨hxq, _⟩ := List.cons.inj hrest
          refine ⟨[], s, ?_, ?_⟩
          · rw [hx hxq]
            rfl
          · rw [← hb]
            rfl
        | cons b' v =>
          obtain ⟨hb', hrest⟩ := List.cons.inj hrest
          obtain ⟨a, e, hs, hv⟩ := ih hrest
          refine ⟨c :: a, e, ?_, ?_⟩
          · rw [hs]
            rfl
          · rw [← hb, ← hb', unescape_pair hread, hv]
            rfl
    · rw [hc] at h
      cases v with
      | nil => exact absurd (List.cons.inj h).1 hquote
      | cons b v =>
        obtain ⟨hb, hrest⟩ := List.cons.inj h
        obtain ⟨a, e, hs, hv⟩ := ih hrest
        refine ⟨c :: a, e, ?_, ?_⟩
        · rw [hs]
          rfl
        · rw [← hb, unescape_plain hback, hv]
          rfl

theorem hash_mem_of_escape (h : kHash ∈ escape s) : kHash ∈ s := by
  obtain ⟨c, hc, hm⟩ := List.mem_flatMap.1 h
  rcases escapeChar_cases c with ⟨x, he, _, _, hx⟩ | ⟨he, _, _⟩
  · rw [he] at hm
    rcases List.mem_cons.1 hm with hm | hm
    · exact absurd hm (by decide)
    · exact absurd (List.mem_singleton.1 hm).symm hx
  · rw [he] at hm
    rw [List.mem_singleton.1 hm]
    exact hc

theorem length_le_escape (s : QString) : s.length ≤ (escape s).length := by
  induction s with
  | nil => exact Nat.le_refl 0
  | cons c s ih =>
    rw [escape_cons, List.length_append, List.length_cons]
    rcases escapeChar_cases c with ⟨x, hc, _⟩ | ⟨hc, _⟩
    · rw [hc]
      simp only [List.length_cons, List.length_nil]
      omega
    · rw [hc]
      simp only [List.length_cons, List.length_nil]
      omega

theorem before_hash (h : a ++ kHash :: b = a' ++ kHash :: b') (ha : kHash ∉ a) (ha' : kHash ∉ a') :
    a = a' := by
  induction a generalizing a' with
  | nil =>
    cases a' with
    | nil => rfl
    | cons c a' => exact absurd ((List.cons.inj h).1 ▸ List.mem_cons_self) ha'
  | cons c a ih =>
    cases a' with
    | nil => exact absurd ((List.cons.inj h).1.symm ▸ List.mem_cons_self) ha
    | cons c' a' =>
      obtain ⟨hc, hrest⟩ := List.cons.inj h
      rw [hc, ih hrest (fun hm => ha (List.mem_cons_of_mem _ hm))
        (fun hm => ha' (List.mem_cons_of_mem _ hm))]

theorem no_hash_of_self (h : kBackslash :: kQuote :: escape u = u ++ w) : kHash ∉ u := by
  intro hm
  obtain ⟨a, b, rfl, ha⟩ := List.eq_append_cons_of_mem hm
  have hescape : escape (a ++ kHash :: b) = escape a ++ kHash :: escape b := by
    rw [escape, List.flatMap_append]
    rfl
  have hescaped : kHash ∉ kBackslash :: kQuote :: escape a := by
    intro hm
    rcases List.mem_cons.1 hm with hm | hm
    · exact absurd hm (by decide)
    rcases List.mem_cons.1 hm with hm | hm
    · exact absurd hm (by decide)
    · exact ha (hash_mem_of_escape hm)
  rw [hescape, List.append_assoc] at h
  have hsame : kBackslash :: kQuote :: escape a = a :=
    before_hash (show (kBackslash :: kQuote :: escape a) ++ kHash :: escape b =
      a ++ kHash :: (b ++ w) from h) hescaped ha
  have hlength := congrArg List.length hsame
  have hle := length_le_escape a
  simp only [List.length_cons] at hlength
  omega

def readText (s : QString) : QString := QString.trimmed (stripComment (quoted s))

theorem readText_whole (h : NoComment s) : readText s = quoted s := by
  rw [readText, h, trimmed_quoted]

theorem readText_head (s : QString) : ∃ u, readText s = kQuote :: u := by
  have hquoted : ∃ e, stripComment (quoted s) = kQuote :: e := by
    rcases stripCommentFrom_cut {} (quoted s) with h | ⟨t, ht⟩
    · exact ⟨_, h⟩
    · rw [stripComment]
      cases hq : stripCommentFrom {} (quoted s) with
      | nil =>
        rw [hq] at ht
        exact absurd (List.cons.inj ht).1 (by decide)
      | cons c e =>
        rw [hq] at ht
        rw [← (List.cons.inj ht).1]
        exact ⟨e, rfl⟩
  obtain ⟨e, he⟩ := hquoted
  obtain ⟨a, b, hsplit, ha, _⟩ := trimWith_split isSpace (kQuote :: e)
  rw [readText, he, QString.trimmed]
  cases a with
  | nil =>
    cases ht : trimWith isSpace (kQuote :: e) with
    | nil =>
      have hm : kQuote ∈ trimWith isSpace (kQuote :: e) :=
        mem_trimWith List.mem_cons_self (by decide)
      rw [ht] at hm
      cases hm
    | cons c u =>
      rw [ht] at hsplit
      rw [← (List.cons.inj hsplit).1]
      exact ⟨u, rfl⟩
  | cons c a =>
    have hc : c = kQuote := (List.cons.inj hsplit).1.symm
    have hspace := ha c List.mem_cons_self
    rw [hc] at hspace
    exact absurd hspace (by decide)

theorem readText_cut (h : ¬ NoComment s) :
    ∃ u w, readText s = kQuote :: u ∧ escape s = u ++ w ∧ kHash ∈ w := by
  obtain ⟨u, hu⟩ := readText_head s
  rcases stripCommentFrom_cut {} (quoted s) with hsame | ⟨t, ht⟩
  · exact absurd hsame h
  obtain ⟨a, b, hsplit, ha, _⟩ := trimWith_split isSpace (stripComment (quoted s))
  rw [← QString.trimmed, ← readText, hu] at hsplit
  rw [← stripComment, hsplit] at ht
  have hnil : a = [] := by
    cases a with
    | nil => rfl
    | cons c a =>
      have hc : c = kQuote := (List.cons.inj ht).1.symm
      have hspace := ha c List.mem_cons_self
      rw [hc] at hspace
      exact absurd hspace (by decide)
  rw [hnil] at ht
  have hrest : escape s ++ [kQuote] = u ++ (b ++ kHash :: t) := by
    have := (List.cons.inj ht).2
    rw [this]
    simp
  obtain ⟨t', rfl⟩ : ∃ t', t = t' ++ [kQuote] := by
    rcases List.eq_nil_or_concat t with rfl | ⟨t', c, rfl⟩
    · have hlast := congrArg List.getLast? hrest
      rw [List.getLast?_concat, ← List.append_assoc, List.getLast?_concat] at hlast
      exact absurd (Option.some.inj hlast) (by decide)
    · have hlast := congrArg List.getLast? hrest
      rw [List.getLast?_concat] at hlast
      simp only [List.concat_eq_append] at hlast ⊢
      have hc : (u ++ (b ++ kHash :: (t' ++ [c]))).getLast? = some c := by
        rw [← List.cons_append, ← List.append_assoc, ← List.append_assoc, List.getLast?_concat]
      rw [hc] at hlast
      rw [← Option.some.inj hlast]
      exact ⟨t', rfl⟩
  refine ⟨u, b ++ kHash :: t', hu, ?_, List.mem_append_right _ List.mem_cons_self⟩
  have hcancel : escape s ++ [kQuote] = (u ++ (b ++ kHash :: t')) ++ [kQuote] := by
    rw [hrest]
    simp
  exact List.append_cancel_right hcancel

theorem unquote_readText (h : ¬ NoComment s) : unquote (readText s) ≠ s := by
  obtain ⟨u, w, hu, hescape, hhash⟩ := readText_cut h
  have htrim : QString.trimmed (readText s) = readText s := trimWith_idem isSpace _
  have hmem : kHash ∈ s := hash_mem_of_escape (hescape ▸ List.mem_append_right u hhash)
  rw [unquote, htrim, hu]
  split
  · rename_i hends
    rcases List.eq_nil_or_concat u with rfl | ⟨v, c, rfl⟩
    · exact absurd hends.1 (by decide)
    · rw [List.concat_eq_append] at hends hescape ⊢
      have hc : c = kQuote := by
        have hlast := hends.2.2
        rw [← List.cons_append, List.getLast?_concat] at hlast
        exact Option.some.inj hlast
      have hinner :
          ((kQuote :: (v ++ [c])).drop 1).take ((kQuote :: (v ++ [c])).length - 2) = v := by simp
      rw [hinner]
      rw [hc, List.append_assoc] at hescape
      obtain ⟨a, b, hs, hv⟩ := unescape_before_quote hescape
      intro heq
      rw [hv, hs] at heq
      have hbad := List.append_cancel_left heq
      exact absurd (List.cons.inj hbad).1 (by decide)
  · rw [if_neg (fun hc => absurd (Option.some.inj hc.2.1) (by decide))]
    intro heq
    rw [← heq, escape_cons] at hescape
    rw [← heq] at hmem
    rcases List.mem_cons.1 hmem with hq | hm
    · exact absurd hq (by decide)
    · exact no_hash_of_self hescape hm

theorem scalarOrFlow_cut (h : ¬ NoComment s) : scalarOrFlow (readText s) ≠ .string s := by
  obtain ⟨u, hu⟩ := readText_head s
  have htrim : QString.trimmed (readText s) = readText s := trimWith_idem isSpace _
  have hhead : (readText s).head? = some kQuote := by
    rw [hu]
    rfl
  rw [scalarOrFlow, htrim, hhead, if_neg (fun hc => absurd hc.1 (by decide)), scalar, htrim, hhead,
    if_neg (by rw [hu]; exact Bool.false_ne_true), if_pos (.inl rfl)]
  intro heq
  exact unquote_readText h (QJsonValue.string.inj heq)

def cutLine (l : Nat × QString) : Nat × QString := (l.1, QString.trimmed (stripComment l.2))

theorem cutLine_clean (h : CleanText l.2) : cutLine l = l := by
  have huncut := h.uncut [] (fun c hc => absurd hc List.not_mem_nil)
  rw [List.nil_append] at huncut
  rw [cutLine, huncut, h.trimmed]

theorem cut_text {p : QString} (hp : ∀ c ∈ p, Plain c) (hhead : ∀ c ∈ p.head?, isSpace c = false)
    (hne : p ≠ []) (s : QString) :
    stripComment (p ++ quoted s) = p ++ stripComment (quoted s) ∧
      QString.trimmed (stripComment (p ++ quoted s)) = p ++ readText s := by
  obtain ⟨b, hb⟩ := stripCommentFrom_append hp none (quoted s)
  have hstrip : stripComment (p ++ quoted s) = p ++ stripComment (quoted s) := by
    rw [stripComment, hb, stripCommentFrom_quoted]
  refine ⟨hstrip, ?_⟩
  obtain ⟨u, hu⟩ := readText_head s
  obtain ⟨a, e, hsplit, ha, he⟩ := trimWith_split isSpace (stripComment (quoted s))
  rw [← QString.trimmed, ← readText] at hsplit
  have hnil : a = [] := by
    cases a with
    | nil => rfl
    | cons c a =>
      have hc : c = kQuote := by
        rcases stripCommentFrom_cut {} (quoted s) with h | ⟨t, ht⟩
        · rw [← stripComment, hsplit] at h
          exact (List.cons.inj h).1
        · rw [← stripComment, hsplit] at ht
          exact (List.cons.inj ht).1.symm
      have hspace := ha c List.mem_cons_self
      rw [hc] at hspace
      exact absurd hspace (by decide)
  rw [hnil, List.nil_append] at hsplit
  have hkept : QString.trimmed (p ++ readText s) = p ++ readText s := by
    obtain ⟨c, p, rfl⟩ := List.exists_cons_of_ne_nil hne
    apply trimmed_of_ends
    · exact hhead
    · intro c' hc'
      rw [hu, List.getLast?_append_cons, ← hu] at hc'
      exact (trimWith_ends isSpace _).2 c' hc'
  rw [hstrip, hsplit, ← List.append_assoc]
  exact trimWith_append (a := []) (fun c hc => absurd hc List.not_mem_nil) he hkept

/-- A text that is the same line when it is read, or is cut inside its leaf. -/
inductive Written : QString → Prop
  | clean (h : CleanText x) : Written x
  | leaf (p s : QString) (hp : ∀ c ∈ p, Inert c) (hhead : ∀ c ∈ p.head?, isSpace c = false)
      (hne : p ≠ []) : Written (p ++ quoted s)

theorem Written.dashed (h : Written x) (hhead : ∀ c ∈ x.head?, isSpace c = false) :
    Written (kDash :: kSpace :: x) ∧
      QString.trimmed (stripComment (kDash :: kSpace :: x)) =
        kDash :: kSpace :: QString.trimmed (stripComment x) := by
  cases h with
  | clean h =>
    have hself := cutLine_clean (l := (0, x)) h
    have hdash := cutLine_clean (l := (0, kDash :: kSpace :: x)) h.dashed
    refine ⟨.clean h.dashed, (congrArg Prod.snd hdash).trans ?_⟩
    exact congrArg (fun y => kDash :: kSpace :: y) (congrArg Prod.snd hself).symm
  | leaf p s hp hhead' hne =>
    have hinert : ∀ c ∈ kDash :: kSpace :: p, Inert c := inert_append inert_dash hp
    refine ⟨.leaf (kDash :: kSpace :: p) s hinert (fun c hc => by cases hc; decide)
      (List.cons_ne_nil _ _), ?_⟩
    have hcut := (cut_text (fun c hc => (hinert c hc).1) (fun c hc => by cases hc; decide)
      (List.cons_ne_nil _ _) s).2
    rw [(cut_text (fun c hc => (hp c hc).1) hhead' hne s).2]
    exact hcut

theorem one_line_quoted {p : QString} (hp : ∀ c ∈ p, Inert c) (s : QString) :
    0x0A ∉ p ++ quoted s ∧ 0x09 ∉ p ++ quoted s := by
  have hmem (c : UInt16) (hc : c ≠ kQuote) (hesc : c ∉ escape s) (hp : c ∉ p) :
      c ∉ p ++ quoted s := by
    intro hm
    rcases List.mem_append.1 hm with hm | hm
    · exact hp hm
    rcases List.mem_cons.1 hm with hm | hm
    · exact hc hm
    rcases List.mem_append.1 hm with hm | hm
    · exact hesc hm
    · exact hc (List.mem_singleton.1 hm)
  exact ⟨hmem 0x0A (by decide) (not_mem_escape s).1 (fun hm => (hp _ hm).2.1 rfl),
    hmem 0x09 (by decide) (not_mem_escape s).2 (fun hm => (hp _ hm).2.2.1 rfl)⟩

theorem Written.ends (h : Written x) : x ≠ [] ∧ 0x0A ∉ x ∧ 0x09 ∉ x ∧ x.getLast? ≠ some 0x0D ∧
    ∀ c ∈ x.head?, isSpace c = false := by
  cases h with
  | clean h =>
    refine ⟨h.nonempty, h.one_line, h.no_tab, h.no_return, ?_⟩
    intro c hc
    have he := (trimWith_ends isSpace x).1 c
    rw [← QString.trimmed, h.trimmed] at he
    exact he hc
  | leaf p s hp hhead hne =>
    obtain ⟨hline, htab⟩ := one_line_quoted hp s
    refine ⟨List.append_ne_nil_of_left_ne_nil hne _, hline, htab, ?_, ?_⟩
    · rw [getLast?_quoted]
      decide
    · obtain ⟨c, p, rfl⟩ := List.exists_cons_of_ne_nil hne
      exact hhead

theorem Written.read (h : Written x) (d : Nat) :
    stripComment (List.replicate d kSpace ++ x) = List.replicate d kSpace ++ stripComment x ∧
      (∀ c ∈ (stripComment x).head?, c ≠ kSpace) ∧
      QString.trimmed (stripComment x) ≠ [] ∧ QString.trimmed (stripComment x) ≠ utf16 "---" := by
  cases h with
  | clean h =>
    have huncut := h.uncut [] (fun c hc => absurd hc List.not_mem_nil)
    rw [List.nil_append] at huncut
    rw [h.uncut _ (plain_spaces d), huncut, h.trimmed]
    refine ⟨rfl, ?_, h.nonempty, h.no_separator⟩
    intro c hc hspace
    have he := (trimWith_ends isSpace x).1 c
    rw [← QString.trimmed, h.trimmed] at he
    have hsp := he hc
    rw [hspace] at hsp
    exact absurd hsp (by decide)
  | leaf p s hp hhead hne =>
    obtain ⟨hstrip, htrim⟩ := cut_text (fun c hc => (hp c hc).1) hhead hne s
    have hspaces : ∀ c ∈ List.replicate d kSpace ++ p, Plain c := by
      intro c hc
      rcases List.mem_append.1 hc with hc | hc
      · exact plain_spaces d c hc
      · exact (hp c hc).1
    obtain ⟨b, hb⟩ := stripCommentFrom_append hspaces none (quoted s)
    refine ⟨?_, ?_, ?_, ?_⟩
    · rw [← List.append_assoc, stripComment, hb, stripCommentFrom_quoted, hstrip, List.append_assoc]
    · rw [hstrip]
      obtain ⟨c, p, rfl⟩ := List.exists_cons_of_ne_nil hne
      intro c' hc' hspace
      have hsp := hhead c' hc'
      rw [hspace] at hsp
      exact absurd hsp (by decide)
    · rw [htrim]
      exact List.append_ne_nil_of_left_ne_nil hne _
    · rw [htrim]
      intro hsep
      obtain ⟨u, hu⟩ := readText_head s
      have hm : kQuote ∈ p ++ readText s := by
        rw [hu]
        exact List.mem_append_right _ List.mem_cons_self
      rw [hsep] at hm
      revert hm
      decide

theorem leadingSpaces_replicate (d : Nat) (h : ∀ c ∈ x.head?, c ≠ kSpace) :
    leadingSpaces (List.replicate d kSpace ++ x) = d := by
  rw [leadingSpaces, List.takeWhile_append_of_pos (by simp)]
  cases x with
  | nil => simp
  | cons c x =>
    have hc : (c == kSpace) = false := beq_eq_false_iff_ne.2 (h c rfl)
    rw [List.takeWhile_cons, hc]
    simp

theorem Written.significant (h : Written x) (d idx : Nat) :
    significantLine (lineText (d, x)) idx = some ⟨d, (cutLine (d, x)).2, idx⟩ ∧
      isBlank (lineText (d, x)) = false ∧ leadingSpaces (lineText (d, x)) = d := by
  obtain ⟨hstrip, hhead, hne, hsep⟩ := h.read d
  obtain ⟨hne', _, _, _, hspace⟩ := h.ends
  have hspaces : ∀ c ∈ List.replicate d kSpace, isSpace c = true := by
    intro c hc
    rw [(List.mem_replicate.1 hc).2]
    decide
  have htrim (y : QString) : QString.trimmed (List.replicate d kSpace ++ y) = QString.trimmed y :=
    trimWith_prepend hspaces y
  refine ⟨?_, ?_, ?_⟩
  · rw [significantLine, lineText, hstrip, htrim, leadingSpaces_replicate d hhead,
      if_neg (fun hc => hne (List.isEmpty_iff.1 hc)), if_neg hsep]
    rfl
  · rw [isBlank, lineText, htrim, List.isEmpty_eq_false_iff]
    obtain ⟨c, y, rfl⟩ := List.exists_cons_of_ne_nil hne'
    exact List.ne_nil_of_mem (mem_trimWith List.mem_cons_self (hspace c rfl))
  · apply leadingSpaces_replicate
    intro c hc hsp
    have := hspace c hc
    rw [hsp] at this
    exact absurd this (by decide)

mutual

theorem Tree.written_renderItem (t : Tree) (d : Nat) : ∀ l ∈ t.renderItem d, Written l.2 := by
  cases t with
  | leaf s =>
    intro l hl
    rw [List.mem_singleton.1 hl]
    exact .leaf [kDash, kSpace] s inert_dash (fun c hc => by cases hc; decide)
      (List.cons_ne_nil _ _)
  | seq items =>
    intro l hl
    rcases List.mem_cons.1 hl with rfl | hl
    · exact .clean .dash
    · exact items.written_render (d + 2) l hl
  | map entries =>
    have hwritten := entries.written_render (d + 2)
    rw [Tree.renderItem]
    cases hr : entries.render (d + 2) with
    | nil => exact fun l hl => absurd hl List.not_mem_nil
    | cons first lines =>
      rw [hr] at hwritten
      have hfirst := hwritten first List.mem_cons_self
      intro l hl
      rcases List.mem_cons.1 hl with rfl | hl
      · exact (hfirst.dashed hfirst.ends.2.2.2.2).1
      · exact hwritten l (List.mem_cons_of_mem _ hl)

theorem Tree.written_renderEntry (t : Tree) (d : Nat) (key : Key) :
    ∀ l ∈ t.renderEntry d key, Written l.2 := by
  cases t with
  | leaf s =>
    intro l hl
    rw [List.mem_singleton.1 hl]
    have happ : key.text ++ kColon :: kSpace :: quoted s =
        (key.text ++ [kColon, kSpace]) ++ quoted s := by
      rw [List.append_assoc]
      rfl
    show Written (key.text ++ kColon :: kSpace :: quoted s)
    rw [happ]
    refine .leaf _ s (inert_append key.inert (List.forall_mem_cons.2 ⟨by decide,
      List.forall_mem_singleton.2 (by decide)⟩)) ?_
      (List.append_ne_nil_of_left_ne_nil key.nonempty _)
    intro c hc
    obtain ⟨k, ks, hk⟩ := List.exists_cons_of_ne_nil key.nonempty
    rw [hk] at hc
    cases hc
    exact (plain_identifier (key.chars c (hk ▸ List.mem_cons_self))).2.2.2.1
  | seq items =>
    intro l hl
    rcases List.mem_cons.1 hl with rfl | hl
    · exact .clean (.key key)
    · exact items.written_render (d + 2) l hl
  | map entries =>
    intro l hl
    rcases List.mem_cons.1 hl with rfl | hl
    · exact .clean (.key key)
    · exact entries.written_render (d + 2) l hl

theorem Items.written_render (items : Items) (d : Nat) : ∀ l ∈ items.render d, Written l.2 := by
  cases items with
  | one t => exact t.written_renderItem d
  | cons t items =>
    intro l hl
    rcases List.mem_append.1 hl with hl | hl
    · exact t.written_renderItem d l hl
    · exact items.written_render d l hl

theorem Entries.written_render (entries : Entries) (d : Nat) :
    ∀ l ∈ entries.render d, Written l.2 := by
  cases entries with
  | one key t => exact t.written_renderEntry d key
  | cons key t entries =>
    intro l hl
    rcases List.mem_append.1 hl with hl | hl
    · exact t.written_renderEntry d key l hl
    · exact entries.written_render d l hl

end

theorem cutLine_item (d : Nat) (s : QString) :
    cutLine (d, kDash :: kSpace :: quoted s) = (d, kDash :: kSpace :: readText s) :=
  congrArg (fun y => (d, y)) (cut_text (fun c hc => (inert_dash c hc).1)
    (fun c hc => by cases hc; decide) (List.cons_ne_nil _ _) s).2

theorem cutLine_entry (d : Nat) (key : Key) (s : QString) :
    cutLine (d, key.text ++ kColon :: kSpace :: quoted s) =
      (d, key.text ++ kColon :: kSpace :: readText s) := by
  have happ (y : QString) : key.text ++ kColon :: kSpace :: y =
      (key.text ++ [kColon, kSpace]) ++ y := by
    rw [List.append_assoc]
    rfl
  have hp : ∀ c ∈ key.text ++ [kColon, kSpace], Inert c :=
    inert_append key.inert (List.forall_mem_cons.2 ⟨by decide,
      List.forall_mem_singleton.2 (by decide)⟩)
  rw [happ (quoted s), happ (readText s)]
  refine congrArg (fun y => (d, y)) (cut_text (fun c hc => (hp c hc).1) ?_
    (List.append_ne_nil_of_left_ne_nil key.nonempty _) s).2
  intro c hc
  obtain ⟨k, ks, hk⟩ := List.exists_cons_of_ne_nil key.nonempty
  rw [hk] at hc
  cases hc
  exact (plain_identifier (key.chars c (hk ▸ List.mem_cons_self))).2.2.2.1

def AfterRead (x : QString) : Prop := x = [] ∨ ∃ s, x = kSpace :: s

theorem Tree.renderEntry_cut (t : Tree) (d : Nat) (key : Key) :
    ∃ x lines, AfterRead x ∧
      (t.renderEntry d key).map cutLine = (d, key.text ++ kColon :: x) :: lines := by
  cases t with
  | leaf s => exact ⟨_, _, .inr ⟨_, rfl⟩, congrArg (fun l => [l]) (cutLine_entry d key s)⟩
  | seq items =>
    refine ⟨_, (items.render (d + 2)).map cutLine, .inl rfl, ?_⟩
    rw [Tree.renderEntry, List.map_cons, cutLine_clean (l := (d, key.text ++ [kColon])) (.key key)]
  | map entries =>
    refine ⟨_, (entries.render (d + 2)).map cutLine, .inl rfl, ?_⟩
    rw [Tree.renderEntry, List.map_cons, cutLine_clean (l := (d, key.text ++ [kColon])) (.key key)]

theorem Entries.render_cut (entries : Entries) (d : Nat) :
    ∃ (key : Key) (x : QString) (lines : List (Nat × QString)), AfterRead x ∧
      (entries.render d).map cutLine = (d, key.text ++ kColon :: x) :: lines := by
  cases entries with
  | one key t =>
    obtain ⟨x, lines, hx, h⟩ := t.renderEntry_cut d key
    exact ⟨key, x, lines, hx, h⟩
  | cons key t entries =>
    obtain ⟨x, lines, hx, h⟩ := t.renderEntry_cut d key
    refine ⟨key, x, lines ++ (entries.render d).map cutLine, hx, ?_⟩
    rw [Entries.render, List.map_append, h]
    rfl

theorem dashed_cut (d : Nat) {lines : List (Nat × QString)} (h : ∀ l ∈ lines, Written l.2) :
    (dashed d lines).map cutLine = dashed d (lines.map cutLine) := by
  cases lines with
  | nil => rfl
  | cons l lines =>
    have hl := h l List.mem_cons_self
    show cutLine (d, kDash :: kSpace :: l.2) :: _ = (d, kDash :: kSpace :: (cutLine l).2) :: _
    rw [cutLine, (hl.dashed hl.ends.2.2.2.2).2]
    rfl

theorem Tree.renderItem_cut (t : Tree) (d : Nat) :
    ∃ x lines, (t.renderItem d).map cutLine = (d, kDash :: x) :: lines := by
  cases t with
  | leaf s => exact ⟨_, _, congrArg (fun l => [l]) (cutLine_item d s)⟩
  | seq items =>
    refine ⟨[], (items.render (d + 2)).map cutLine, ?_⟩
    rw [Tree.renderItem, List.map_cons, cutLine_clean (l := (d, [kDash])) .dash]
  | map entries =>
    obtain ⟨key, x, lines, _, h⟩ := entries.render_cut (d + 2)
    rw [Tree.renderItem, dashed_cut d (entries.written_render (d + 2)), h]
    exact ⟨_, _, rfl⟩

theorem Items.render_cut (items : Items) (d : Nat) :
    ∃ x lines, (items.render d).map cutLine = (d, kDash :: x) :: lines := by
  cases items with
  | one t => exact t.renderItem_cut d
  | cons t items =>
    obtain ⟨x, lines, h⟩ := t.renderItem_cut d
    rw [Items.render, List.map_append, h]
    exact ⟨_, _, rfl⟩

end Cuts

section Documents

def Follows (raw : List QString) : Nat → List Line → Prop
  | _, [] => True
  | n, line :: lines =>
    (line.rawIdx = n ∧ ∃ x, raw[n]? = some x ∧ isBlank x = false ∧
      leadingSpaces x = line.indent) ∧ Follows raw (n + 1) lines

theorem tokens_written (lines : List (Nat × QString)) (h : ∀ l ∈ lines, Written l.2)
    (front back : List QString) (hn : front.length = n) :
    (((lines.map lineText).zipIdx n).filterMap
        (fun ln => significantLine ln.1 ln.2)).map Line.rendered = lines.map cutLine ∧
      Follows (front ++ (lines.map lineText ++ back)) n
        (((lines.map lineText).zipIdx n).filterMap
          (fun ln => significantLine ln.1 ln.2)) := by
  induction lines generalizing front n with
  | nil => exact ⟨rfl, trivial⟩
  | cons l lines ih =>
    obtain ⟨hline, hblank, hleading⟩ := (h l List.mem_cons_self).significant l.1 n
    obtain ⟨hrendered, hfollows⟩ := ih (fun l hl => h l (List.mem_cons_of_mem _ hl))
      (n := n + 1) (front ++ [lineText l]) (by rw [List.length_append, hn]; rfl)
    rw [List.map_cons, List.zipIdx_cons, List.filterMap_cons, hline]
    dsimp only
    refine ⟨?_, ⟨rfl, lineText l, ?_, hblank, hleading⟩, ?_⟩
    · rw [List.map_cons, hrendered]
      rfl
    · rw [← hn, List.getElem?_append_right (Nat.le_refl _), Nat.sub_self]
      rfl
    · rw [List.append_assoc] at hfollows
      exact hfollows

theorem rawLine_text (hne : l.2 ≠ []) (htab : 0x09 ∉ l.2) (hreturn : l.2.getLast? ≠ some 0x0D) :
    rawLine (lineText l) = lineText l := by
  have htabs {s : QString} (hs : 0x09 ∉ s) :
      s.flatMap (fun c => if c = 0x09 then [kSpace, kSpace] else [c]) = s := by
    induction s with
    | nil => rfl
    | cons c s ih =>
      have hc : c ≠ 0x09 := by
        rintro rfl
        exact hs List.mem_cons_self
      rw [List.flatMap_cons, ih (fun hm => hs (List.mem_cons_of_mem c hm)), if_neg hc]
      rfl
  have hlast : (lineText l).getLast? = l.2.getLast? := by
    obtain ⟨c, s, hs⟩ := List.exists_cons_of_ne_nil hne
    rw [lineText, hs, List.getLast?_append_cons]
  rw [rawLine, htabs (not_mem_lineText (by decide) htab), hlast]
  exact if_neg hreturn

theorem rawLines_written (lines : List (Nat × QString)) (h : ∀ l ∈ lines, Written l.2) :
    rawLines (lines.flatMap (fun l => lineText l ++ [0x0A])) = lines.map lineText ++ [[]] := by
  induction lines with
  | nil => rfl
  | cons l lines ih =>
    obtain ⟨hne, hline, htab, hreturn, _⟩ := (h l List.mem_cons_self).ends
    have hlines := ih (fun l hl => h l (List.mem_cons_of_mem _ hl))
    rw [rawLines] at hlines
    rw [rawLines, List.flatMap_cons, List.append_assoc, List.singleton_append,
      List.splitOn_append_cons_self_of_not_mem (not_mem_lineText (by decide) hline),
      List.map_cons, rawLine_text hne htab hreturn, hlines]
    rfl

theorem tokenize_written (lines : List (Nat × QString)) (h : ∀ l ∈ lines, Written l.2) :
    (tokenize (rawLines (lines.flatMap (fun l => lineText l ++ [0x0A])))).map Line.rendered =
        lines.map cutLine ∧
      Follows (rawLines (lines.flatMap (fun l => lineText l ++ [0x0A]))) 0
        (tokenize (rawLines (lines.flatMap (fun l => lineText l ++ [0x0A])))) := by
  obtain ⟨hrendered, hfollows⟩ := tokens_written lines h [] [[]] rfl
  have htokens : tokenize (lines.map lineText ++ [[]]) =
      ((lines.map lineText).zipIdx 0).filterMap (fun ln => significantLine ln.1 ln.2) := by
    rw [tokenize, List.zipIdx_append, List.filterMap_append]
    exact List.append_nil _
  rw [rawLines_written lines h, htokens]
  exact ⟨hrendered, hfollows⟩

end Documents

end Nullock.NucleiYaml

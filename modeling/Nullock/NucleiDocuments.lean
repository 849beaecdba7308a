import Nullock.NucleiRoundTrip

namespace Nullock.NucleiYaml

section Documents

/-- A text that is the same line again when it is split off, cut and trimmed. -/
structure CleanText (x : QString) : Prop where
  uncut : ∀ p : QString, (∀ c ∈ p, Plain c) → stripComment (p ++ x) = p ++ x
  trimmed : QString.trimmed x = x
  nonempty : x ≠ []
  no_separator : x ≠ utf16 "---"
  one_line : 0x0A ∉ x
  no_tab : 0x09 ∉ x
  no_return : x.getLast? ≠ some 0x0D

def Inert (c : UInt16) : Prop := Plain c ∧ c ≠ 0x0A ∧ c ≠ 0x09 ∧ c ≠ 0x0D

instance (c : UInt16) : Decidable (Inert c) :=
  inferInstanceAs (Decidable ((c ≠ kQuote ∧ c ≠ kApostrophe ∧ c ≠ kHash) ∧ _))

theorem Key.inert (key : Key) : ∀ c ∈ key.text, Inert c := by
  intro c hc
  obtain ⟨hplain, _, _, _, hline, htab, hreturn⟩ := plain_identifier (key.chars c hc)
  exact ⟨hplain, hline, htab, hreturn⟩

theorem not_mem_escape (s : QString) : 0x0A ∉ escape s ∧ 0x09 ∉ escape s := by
  have hchar (c : UInt16) : 0x0A ∉ escapeChar c ∧ 0x09 ∉ escapeChar c := by
    rw [escapeChar]
    split
    · decide
    split
    · decide
    split
    · decide
    split
    · decide
    split
    · decide
    · rename_i hn _ ht
      rw [List.mem_singleton, List.mem_singleton]
      exact ⟨fun h => hn h.symm, fun h => ht h.symm⟩
  constructor
  · intro h
    obtain ⟨c, _, hc⟩ := List.mem_flatMap.1 h
    exact (hchar c).1 hc
  · intro h
    obtain ⟨c, _, hc⟩ := List.mem_flatMap.1 h
    exact (hchar c).2 hc

theorem CleanText.of_quoted (hp : ∀ c ∈ p, Inert c)
    (htrim : QString.trimmed (p ++ quoted s) = p ++ quoted s) (h : NoComment s) :
    CleanText (p ++ quoted s) := by
  have hlast : (p ++ quoted s).getLast? = some kQuote := getLast?_quoted p s
  have hmem (c : UInt16) (hc : c ≠ kQuote) (hesc : c ∉ escape s) (hp : c ∉ p) :
      c ∉ p ++ quoted s := by
    intro hm
    rcases List.mem_append.1 hm with hm | hm
    · exact hp hm
    rcases List.mem_cons.1 hm with hm | hm
    · exact hc hm
    rcases List.mem_append.1 hm with hm | hm
    · exact hesc hm
    · exact hc (List.mem_singleton.1 hm)
  refine ⟨?_, htrim, ?_, ?_, ?_, ?_, ?_⟩
  · intro q hq
    rw [← List.append_assoc]
    apply stripComment_quoted ?_ h
    intro c hc
    rcases List.mem_append.1 hc with hc | hc
    · exact hq c hc
    · exact (hp c hc).1
  · intro hnil
    rw [hnil] at hlast
    cases hlast
  · intro hsep
    rw [hsep] at hlast
    revert hlast
    decide
  · exact hmem 0x0A (by decide) (not_mem_escape s).1 (fun hm => (hp _ hm).2.1 rfl)
  · exact hmem 0x09 (by decide) (not_mem_escape s).2 (fun hm => (hp _ hm).2.2.1 rfl)
  · rw [hlast]
    decide

theorem CleanText.of_plain (hp : ∀ c ∈ x, Inert c)
    (htrim : QString.trimmed x = x) (hne : x ≠ []) (hsep : x ≠ utf16 "---") : CleanText x := by
  refine ⟨?_, htrim, hne, hsep, fun hm => (hp _ hm).2.1 rfl, fun hm => (hp _ hm).2.2.1 rfl,
    fun hm => (hp _ (List.mem_of_getLast? hm)).2.2.2 rfl⟩
  intro q hq
  apply stripComment_plain
  intro c hc
  rcases List.mem_append.1 hc with hc | hc
  · exact hq c hc
  · exact (hp c hc).1

theorem inert_append {p q : QString} (hp : ∀ c ∈ p, Inert c) (hq : ∀ c ∈ q, Inert c) :
    ∀ c ∈ p ++ q, Inert c := by
  intro c hc
  rcases List.mem_append.1 hc with hc | hc
  · exact hp c hc
  · exact hq c hc

theorem inert_dash : ∀ c ∈ [kDash, kSpace], Inert c :=
  List.forall_mem_cons.2 ⟨by decide, List.forall_mem_singleton.2 (by decide)⟩

theorem trimmed_dash {x : QString} (hx : QString.trimmed x = x) (hne : x ≠ []) :
    QString.trimmed (kDash :: kSpace :: x) = kDash :: kSpace :: x := by
  apply trimmed_of_ends
  · intro c hc
    cases hc
    decide
  · intro c hc
    obtain ⟨d, s, rfl⟩ := List.exists_cons_of_ne_nil hne
    rw [List.getLast?_cons_cons, List.getLast?_cons_cons] at hc
    have he := (trimWith_ends isSpace (d :: s)).2 c
    rw [← QString.trimmed, hx] at he
    exact he hc

theorem CleanText.dash : CleanText [kDash] :=
  .of_plain (List.forall_mem_singleton.2 (by decide)) (by decide) (by decide) (by decide)

theorem CleanText.dash_quoted (h : NoComment s) : CleanText (kDash :: kSpace :: quoted s) :=
  .of_quoted inert_dash (trimmed_dash (trimmed_quoted s) (List.cons_ne_nil _ _)) h

theorem CleanText.key (key : Key) : CleanText (key.text ++ [kColon]) := by
  apply CleanText.of_plain (inert_append key.inert (List.forall_mem_singleton.2 (by decide)))
    (trimmed_entry key (.inl rfl)) (List.append_ne_nil_of_left_ne_nil key.nonempty _)
  intro hsep
  have hlast : (key.text ++ [kColon]).getLast? = some kColon := List.getLast?_concat
  rw [hsep] at hlast
  revert hlast
  decide

theorem CleanText.key_quoted (key : Key) (h : NoComment s) :
    CleanText (key.text ++ kColon :: kSpace :: quoted s) := by
  have happ : key.text ++ kColon :: kSpace :: quoted s =
      (key.text ++ [kColon, kSpace]) ++ quoted s := by
    rw [List.append_assoc]
    rfl
  have htrim := trimmed_entry key (.inr ⟨s, rfl⟩)
  rw [happ] at htrim ⊢
  exact .of_quoted (inert_append key.inert
    (List.forall_mem_cons.2 ⟨by decide, List.forall_mem_singleton.2 (by decide)⟩)) htrim h

theorem CleanText.dashed (h : CleanText x) : CleanText (kDash :: kSpace :: x) := by
  obtain ⟨c, s, rfl⟩ := List.exists_cons_of_ne_nil h.nonempty
  have hmem (d : UInt16) (hd : d ∉ [kDash, kSpace]) (hx : d ∉ c :: s) :
      d ∉ kDash :: kSpace :: c :: s := by
    intro hm
    rcases List.mem_append.1 (show d ∈ [kDash, kSpace] ++ c :: s from hm) with hm | hm
    · exact hd hm
    · exact hx hm
  refine ⟨?_, trimmed_dash h.trimmed h.nonempty, List.cons_ne_nil _ _, ?_,
    hmem 0x0A (by decide) h.one_line, hmem 0x09 (by decide) h.no_tab, ?_⟩
  · intro p hp
    have huncut := h.uncut (p ++ [kDash, kSpace]) (by
      intro d hd
      rcases List.mem_append.1 hd with hd | hd
      · exact hp d hd
      · exact (inert_dash d hd).1)
    rw [List.append_assoc] at huncut
    exact huncut
  · intro hsep
    have hsecond : some kSpace = some kDash := congrArg (fun x : QString => x[1]?) hsep
    exact absurd hsecond (by decide)
  · rw [List.getLast?_cons_cons, List.getLast?_cons_cons]
    exact h.no_return

mutual

theorem Tree.clean_renderItem (t : Tree) (h : t.SafeItem) (d : Nat) :
    ∀ l ∈ t.renderItem d, CleanText l.2 := by
  cases t with
  | leaf s =>
    intro l hl
    rw [List.mem_singleton.1 hl]
    exact .dash_quoted h.1
  | seq items =>
    intro l hl
    rcases List.mem_cons.1 hl with rfl | hl
    · exact .dash
    · exact items.clean_render h (d + 2) l hl
  | map entries =>
    have hclean := entries.clean_render h (d + 2)
    rw [Tree.renderItem]
    cases hr : entries.render (d + 2) with
    | nil => exact fun l hl => absurd hl List.not_mem_nil
    | cons first lines =>
      rw [hr] at hclean
      intro l hl
      rcases List.mem_cons.1 hl with rfl | hl
      · exact (hclean first List.mem_cons_self).dashed
      · exact hclean l (List.mem_cons_of_mem _ hl)

theorem Tree.clean_renderEntry (t : Tree) (h : t.SafeEntry) (d : Nat) (key : Key) :
    ∀ l ∈ t.renderEntry d key, CleanText l.2 := by
  cases t with
  | leaf s =>
    intro l hl
    rw [List.mem_singleton.1 hl]
    exact .key_quoted key h
  | seq items =>
    intro l hl
    rcases List.mem_cons.1 hl with rfl | hl
    · exact .key key
    · exact items.clean_render h (d + 2) l hl
  | map entries =>
    intro l hl
    rcases List.mem_cons.1 hl with rfl | hl
    · exact .key key
    · exact entries.clean_render h (d + 2) l hl

theorem Items.clean_render (items : Items) (h : items.Safe) (d : Nat) :
    ∀ l ∈ items.render d, CleanText l.2 := by
  cases items with
  | one t => exact t.clean_renderItem h d
  | cons t items =>
    intro l hl
    rcases List.mem_append.1 hl with hl | hl
    · exact t.clean_renderItem h.1 d l hl
    · exact items.clean_render h.2 d l hl

theorem Entries.clean_render (entries : Entries) (h : entries.Safe) (d : Nat) :
    ∀ l ∈ entries.render d, CleanText l.2 := by
  cases entries with
  | one key t => exact t.clean_renderEntry h d key
  | cons key t entries =>
    intro l hl
    rcases List.mem_append.1 hl with hl | hl
    · exact t.clean_renderEntry h.1 d key l hl
    · exact entries.clean_render h.2 d l hl

end

theorem plain_spaces (d : Nat) : ∀ c ∈ List.replicate d kSpace, Plain c := by
  intro c hc
  rw [(List.mem_replicate.1 hc).2]
  exact (inert_dash kSpace (by decide)).1

theorem not_mem_lineText {c : UInt16} (hc : c ≠ kSpace) (h : c ∉ l.2) : c ∉ lineText l := by
  intro hm
  rcases List.mem_append.1 hm with hm | hm
  · exact hc (List.mem_replicate.1 hm).2
  · exact h hm

end Documents

theorem Tree.clean_lines (t : Tree) (h : t.Safe) : ∀ l ∈ t.lines, CleanText l.2 := by
  cases t with
  | leaf s => exact h.elim
  | seq items => exact items.clean_render h 0
  | map entries => exact entries.clean_render h 0

end Nullock.NucleiYaml

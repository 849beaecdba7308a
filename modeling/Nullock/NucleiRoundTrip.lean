import Nullock.NucleiRendering

namespace Nullock.NucleiYaml

def Line.rendered (line : Line) : Nat × QString := (line.indent, line.text)

section Lines

theorem startsWithDash_dash (h : line.text = kDash :: x) : startsWithDash line = true := by
  rw [startsWithDash, h]
  rfl

theorem startsWithDash_key (key : Key) (h : line.text = key.text ++ x) :
    startsWithDash line = false := by
  obtain ⟨c, s, hs⟩ := List.exists_cons_of_ne_nil key.nonempty
  have hc : c ≠ kDash := (plain_identifier (key.chars c (hs ▸ List.mem_cons_self))).2.2.1
  rw [startsWithDash, h, hs]
  exact beq_eq_false_iff_ne.2 (fun he => hc (Option.some.inj he))

theorem trimmed_space (s : QString) : QString.trimmed (kSpace :: s) = QString.trimmed s :=
  trimWith_prepend (a := [kSpace]) (fun c hc => by rw [List.mem_singleton.1 hc]; rfl) s

theorem itemText_dash (x : QString) : itemText (kDash :: kSpace :: x) = QString.trimmed x := rfl

def AfterColon (x : QString) : Prop := x = [] ∨ ∃ s, x = kSpace :: quoted s

theorem trimmed_entry (key : Key) (h : AfterColon x) :
    QString.trimmed (key.text ++ kColon :: x) = key.text ++ kColon :: x := by
  apply trimmed_of_ends
  · intro c hc
    obtain ⟨d, s, hs⟩ := List.exists_cons_of_ne_nil key.nonempty
    rw [hs] at hc
    cases hc
    exact (plain_identifier (key.chars c (hs ▸ List.mem_cons_self))).2.2.2.1
  · intro c hc
    rcases h with rfl | ⟨s, rfl⟩
    · rw [List.getLast?_concat] at hc
      cases hc
      decide
    · rw [show key.text ++ kColon :: kSpace :: quoted s =
        (key.text ++ [kColon, kSpace]) ++ quoted s by simp, getLast?_quoted] at hc
      cases hc
      decide

theorem keyColon_entry (key : Key) (h : AfterColon x) :
    keyColon (key.text ++ kColon :: x) = some key.text.length := by
  apply keyColon_key
  rcases h with h | ⟨s, h⟩
  · exact .inl h
  · exact .inr ⟨_, h⟩

theorem Key.unquote_text (key : Key) : unquote (QString.trimmed key.text) = key.text := by
  have hchar (c : UInt16) (hc : c ∈ key.text) : isSpace c = false :=
    (plain_identifier (key.chars c hc)).2.2.2.1
  have ht : QString.trimmed key.text = key.text :=
    trimmed_of_ends (fun c hc => hchar c (List.mem_of_head? hc))
      (fun c hc => hchar c (List.mem_of_getLast? hc))
  have hhead (q : UInt16) (hq : isIdentifierChar q = false) : key.text.head? ≠ some q := by
    intro h
    have := key.chars q (List.mem_of_head? h)
    rw [hq] at this
    cases this
  rw [unquote, ht, ht, if_neg (fun h => hhead kQuote (by decide) h.2.1),
    if_neg (fun h => hhead kApostrophe (by decide) h.2.1)]

theorem blockScalarIndicator_quoted (digit : UInt16 → Bool) (s : QString) :
    blockScalarIndicator digit (quoted s) = none := by
  rw [blockScalarIndicator, trimmed_quoted, quoted]
  exact if_neg (by decide)

theorem Tree.renderEntry_head (t : Tree) (d : Nat) (key : Key) :
    ∃ x lines, AfterColon x ∧ t.renderEntry d key = (d, key.text ++ kColon :: x) :: lines := by
  cases t with
  | leaf s => exact ⟨_, _, .inr ⟨s, rfl⟩, rfl⟩
  | seq items => exact ⟨_, _, .inl rfl, rfl⟩
  | map entries => exact ⟨_, _, .inl rfl, rfl⟩

theorem Entries.render_head (entries : Entries) (d : Nat) :
    ∃ (key : Key) (x : QString) (lines : List (Nat × QString)), AfterColon x ∧
      entries.render d = (d, key.text ++ kColon :: x) :: lines := by
  cases entries with
  | one key t =>
    obtain ⟨x, lines, hx, h⟩ := t.renderEntry_head d key
    exact ⟨key, x, lines, hx, h⟩
  | cons key t entries =>
    obtain ⟨x, lines, hx, h⟩ := t.renderEntry_head d key
    refine ⟨key, x, lines ++ entries.render d, hx, ?_⟩
    rw [Entries.render, h]
    rfl

theorem Tree.renderItem_head (t : Tree) (d : Nat) :
    ∃ x lines, t.renderItem d = (d, kDash :: x) :: lines := by
  cases t with
  | leaf s => exact ⟨_, _, rfl⟩
  | seq items => exact ⟨_, _, rfl⟩
  | map entries =>
    obtain ⟨key, x, lines, _, h⟩ := entries.render_head (d + 2)
    rw [Tree.renderItem, h]
    exact ⟨_, _, rfl⟩

theorem Items.render_head (items : Items) (d : Nat) :
    ∃ x lines, items.render d = (d, kDash :: x) :: lines := by
  cases items with
  | one t => exact t.renderItem_head d
  | cons t items =>
    obtain ⟨x, lines, h⟩ := t.renderItem_head d
    rw [Items.render, h]
    exact ⟨_, _, rfl⟩

end Lines

section Parser
variable (digit : UInt16 → Bool) (raw : List QString)

def Outer (d : Nat) (tail : List Line) : Prop := ∀ l ∈ tail.head?, l.indent < d

theorem Outer.mono (h : Outer d tail) (hd : d ≤ d') : Outer d' tail :=
  fun l hl => Nat.lt_of_lt_of_le (h l hl) hd

theorem parseSeq_outer (h : Outer d tail) (g : Nat) :
    parseSeq digit raw tail d g = ⟨[], tail, g⟩ := by
  cases tail with
  | nil => rw [parseSeq]
  | cons line tail =>
    cases g with
    | zero => rw [parseSeq]
    | succ g =>
      rw [parseSeq, if_neg]
      intro hl
      exact absurd hl.1 (Nat.ne_of_lt (h line rfl))

theorem parseMap_outer (obj : QJsonObject) (h : Outer d tail) (g : Nat) :
    parseMap digit raw obj tail d g = ⟨obj, tail, g⟩ := by
  cases tail with
  | nil => rw [parseMap]
  | cons line tail =>
    cases g with
    | zero => rw [parseMap]
    | succ g =>
      rw [parseMap, if_neg]
      intro hl
      exact absurd hl.1 (Nat.ne_of_lt (h line rfl))

theorem parseItem_text (htext : itemText line.text = rest) (hne : rest ≠ [])
    (hcolon : keyColon rest = none) (lines : List Line) (d g : Nat) :
    parseItem digit raw line lines d g = ⟨scalarOrFlow rest, lines, g⟩ := by
  rw [parseItem.eq_def, htext]
  dsimp only
  rw [if_neg (fun h => hne (List.isEmpty_iff.1 h)), hcolon]
  exact if_neg Bool.false_ne_true

theorem parseItem_map (htext : itemText line.text = rest) (hne : rest ≠ [])
    (hcolon : keyColon rest = some c) (lines : List Line) (d g : Nat) :
    parseItem digit raw line lines d g =
      parseBlock digit raw (⟨d + 2, rest, line.rawIdx⟩ :: lines) (d + 2) g := by
  rw [parseItem.eq_def, htext]
  dsimp only
  rw [if_neg (fun h => hne (List.isEmpty_iff.1 h)), hcolon]
  exact if_pos rfl

theorem parseItem_block (htext : itemText line.text = []) (hindent : d < next.indent)
    (lines : List Line) (g : Nat) :
    parseItem digit raw line (next :: lines) d g =
      parseBlock digit raw (next :: lines) next.indent g := by
  rw [parseItem.eq_def, htext]
  exact if_pos hindent

theorem parseEntry_text (hrest : QString.trimmed (line.text.drop (c + 1)) = rest) (hne : rest ≠ [])
    (hblock : blockScalarIndicator digit rest = none) (lines : List Line) (d g : Nat) :
    parseEntry digit raw line c lines d g = ⟨scalarOrFlow rest, lines, g⟩ := by
  rw [parseEntry.eq_def, hrest]
  dsimp only
  rw [hblock]
  dsimp only
  rw [if_pos (by rw [List.isEmpty_eq_false_iff.2 hne]; rfl)]

theorem parseEntry_block (hrest : QString.trimmed (line.text.drop (c + 1)) = [])
    (hindent : d < next.indent) (lines : List Line) (g : Nat) :
    parseEntry digit raw line c (next :: lines) d g =
      parseBlock digit raw (next :: lines) next.indent g := by
  rw [parseEntry.eq_def, hrest]
  exact if_pos hindent

theorem parseSeq_item (hindent : line.indent = d) (hdash : startsWithDash line = true)
    (lines : List Line) (g : Nat)
    (hitem : parseItem digit raw line lines d g = ⟨value, tail, n⟩) (hn : n ≤ g) :
    parseSeq digit raw (line :: lines) d (g + 1) =
      (let items := parseSeq digit raw tail d n
       ⟨value :: items.value, items.lines, items.guard⟩) := by
  rw [parseSeq, if_pos ⟨hindent, hdash⟩, hitem]
  dsimp only
  rw [Nat.min_eq_left hn]

theorem parseMap_entry (hindent : line.indent = d) (key : Key) (hx : AfterColon x)
    (htext : line.text = key.text ++ kColon :: x) (obj : QJsonObject) (lines : List Line) (g : Nat)
    (hentry : parseEntry digit raw line key.text.length lines d g = ⟨value, tail, n⟩)
    (hn : n ≤ g) :
    parseMap digit raw obj (line :: lines) d (g + 1) =
      parseMap digit raw (obj.insert key.text value) tail d n := by
  have hdash : startsWithDash line = false := startsWithDash_key key htext
  have hcolon : keyColon line.text = some key.text.length := by rw [htext, keyColon_entry key hx]
  rw [parseMap, if_pos ⟨hindent, by rw [hdash]; rfl⟩, hcolon]
  dsimp only
  rw [hentry, htext, List.take_left, key.unquote_text, Nat.min_eq_left hn]

theorem parseBlock_items (items : Items) (hlines : A.map Line.rendered = items.render d)
    (hg : g ≠ 0) (hitems : parseSeq digit raw (A ++ tail) d g = ⟨items.toJson, tail, n⟩) :
    ∃ next lines, A = next :: lines ∧ next.indent = d ∧ startsWithDash next = true ∧
      parseBlock digit raw (next :: (lines ++ tail)) d g = ⟨.array items.toJson, tail, n⟩ := by
  obtain ⟨x, rendered, hrender⟩ := items.render_head d
  rw [hrender] at hlines
  obtain ⟨next, lines, rfl, hnext, _⟩ := List.map_eq_cons_iff.1 hlines
  have hindent : next.indent = d := congrArg Prod.fst hnext
  have hdash : startsWithDash next = true := startsWithDash_dash (congrArg Prod.snd hnext)
  refine ⟨next, lines, rfl, hindent, hdash, ?_⟩
  rw [parseBlock, if_neg hg, if_pos ⟨hdash, hindent⟩]
  rw [List.cons_append] at hitems
  rw [hitems]

theorem parseBlock_entries (entries : Entries) (hlines : A.map Line.rendered = entries.render d)
    (hg : g ≠ 0) (hobj : parseMap digit raw [] (A ++ tail) d g = ⟨entries.toJson [], tail, n⟩) :
    ∃ next lines, A = next :: lines ∧ next.indent = d ∧
      parseBlock digit raw (next :: (lines ++ tail)) d g =
        ⟨.object (entries.toJson []), tail, n⟩ := by
  obtain ⟨key, x, rendered, _, hrender⟩ := entries.render_head d
  rw [hrender] at hlines
  obtain ⟨next, lines, rfl, hnext, _⟩ := List.map_eq_cons_iff.1 hlines
  have hdash : startsWithDash next = false := startsWithDash_key key (congrArg Prod.snd hnext)
  refine ⟨next, lines, rfl, congrArg Prod.fst hnext, ?_⟩
  rw [parseBlock, if_neg hg, if_neg (fun h => Bool.false_ne_true (hdash.symm.trans h.1))]
  rw [List.cons_append] at hobj
  rw [hobj]

theorem Items.weight_ne_zero (items : Items) : items.weight ≠ 0 := by
  cases items with
  | one t => exact Nat.succ_ne_zero _
  | cons t items =>
    rw [Items.weight]
    omega

theorem Entries.weight_ne_zero (entries : Entries) : entries.weight ≠ 0 := by
  cases entries with
  | one key t => exact Nat.succ_ne_zero _
  | cons key t entries =>
    rw [Entries.weight]
    omega

mutual

theorem Tree.parseItem_render (t : Tree) (hsafe : t.SafeItem)
    (hlines : (line :: A).map Line.rendered = t.renderItem d) (htail : Outer (d + 1) tail)
    (hg : t.weight ≤ g) :
    parseItem digit raw line (A ++ tail) d g = ⟨t.toJson, tail, g - t.weight⟩ := by
  cases t with
  | leaf s =>
    obtain ⟨hline, hA⟩ := List.cons.inj hlines
    have htext : line.text = kDash :: kSpace :: quoted s := congrArg Prod.snd hline
    have hrest : itemText line.text = quoted s := by
      rw [htext, itemText_dash, trimmed_quoted]
    rw [List.map_eq_nil_iff.1 hA, parseItem_text digit raw hrest (List.cons_ne_nil _ _) hsafe.2,
      scalarOrFlow_quoted]
    rfl
  | seq items =>
    obtain ⟨hline, hA⟩ := List.cons.inj hlines
    have hrest : itemText line.text = [] := by
      rw [show line.text = [kDash] from congrArg Prod.snd hline]
      rfl
    have hne : g ≠ 0 := fun h => items.weight_ne_zero (Nat.le_zero.1 (h ▸ hg))
    obtain ⟨next, lines, rfl, hindent, _, hblock⟩ := parseBlock_items digit raw items hA hne
      (items.parseSeq_render hsafe hA (htail.mono (by omega)) hg)
    rw [List.cons_append, parseItem_block digit raw hrest (by omega), hindent, hblock]
    rfl
  | map entries =>
    obtain ⟨key, x, rendered, hx, hrender⟩ := entries.render_head (d + 2)
    rw [Tree.renderItem, hrender, dashed] at hlines
    obtain ⟨hline, hA⟩ := List.cons.inj hlines
    have htext : line.text = kDash :: kSpace :: (key.text ++ kColon :: x) :=
      congrArg Prod.snd hline
    have hrest : itemText line.text = key.text ++ kColon :: x := by
      rw [htext, itemText_dash, trimmed_entry key hx]
    have hne : g ≠ 0 := fun h => entries.weight_ne_zero (Nat.le_zero.1 (h ▸ hg))
    have hmoved : (⟨d + 2, key.text ++ kColon :: x, line.rawIdx⟩ :: A).map Line.rendered =
        entries.render (d + 2) := by
      rw [hrender, List.map_cons, hA]
      rfl
    obtain ⟨next, lines, hcons, hindent, hblock⟩ := parseBlock_entries digit raw entries hmoved hne
      (entries.parseMap_render [] hsafe hmoved (htail.mono (by omega)) hg)
    obtain ⟨rfl, rfl⟩ := List.cons.inj hcons
    rw [parseItem_map digit raw hrest (List.append_ne_nil_of_left_ne_nil key.nonempty _)
      (keyColon_entry key hx), hblock]
    rfl

theorem Tree.parseEntry_render (t : Tree) (key : Key) (hsafe : t.SafeEntry)
    (hlines : (line :: A).map Line.rendered = t.renderEntry d key) (htail : Outer (d + 1) tail)
    (hg : t.weight ≤ g) :
    parseEntry digit raw line key.text.length (A ++ tail) d g = ⟨t.toJson, tail, g - t.weight⟩ := by
  have hdrop (x : QString) : (key.text ++ kColon :: x).drop (key.text.length + 1) = x := by
    rw [List.drop_append, List.drop_eq_nil_of_le (Nat.le_succ _), Nat.add_sub_cancel_left]
    rfl
  cases t with
  | leaf s =>
    obtain ⟨hline, hA⟩ := List.cons.inj hlines
    have htext : line.text = key.text ++ kColon :: kSpace :: quoted s := congrArg Prod.snd hline
    have hrest : QString.trimmed (line.text.drop (key.text.length + 1)) = quoted s := by
      rw [htext, hdrop, trimmed_space, trimmed_quoted]
    rw [List.map_eq_nil_iff.1 hA, parseEntry_text digit raw hrest (List.cons_ne_nil _ _)
      (blockScalarIndicator_quoted digit s), scalarOrFlow_quoted]
    rfl
  | seq items =>
    obtain ⟨hline, hA⟩ := List.cons.inj hlines
    have hrest : QString.trimmed (line.text.drop (key.text.length + 1)) = [] := by
      rw [show line.text = key.text ++ [kColon] from congrArg Prod.snd hline, hdrop]
      rfl
    have hne : g ≠ 0 := fun h => items.weight_ne_zero (Nat.le_zero.1 (h ▸ hg))
    obtain ⟨next, lines, rfl, hindent, _, hblock⟩ := parseBlock_items digit raw items hA hne
      (items.parseSeq_render hsafe hA (htail.mono (by omega)) hg)
    rw [List.cons_append, parseEntry_block digit raw hrest (by omega), hindent, hblock]
    rfl
  | map entries =>
    obtain ⟨hline, hA⟩ := List.cons.inj hlines
    have hrest : QString.trimmed (line.text.drop (key.text.length + 1)) = [] := by
      rw [show line.text = key.text ++ [kColon] from congrArg Prod.snd hline, hdrop]
      rfl
    have hne : g ≠ 0 := fun h => entries.weight_ne_zero (Nat.le_zero.1 (h ▸ hg))
    obtain ⟨next, lines, rfl, hindent, hblock⟩ := parseBlock_entries digit raw entries hA hne
      (entries.parseMap_render [] hsafe hA (htail.mono (by omega)) hg)
    rw [List.cons_append, parseEntry_block digit raw hrest (by omega), hindent, hblock]
    rfl

theorem Items.parseSeq_render (items : Items) (hsafe : items.Safe)
    (hlines : A.map Line.rendered = items.render d) (htail : Outer d tail)
    (hg : items.weight ≤ g) :
    parseSeq digit raw (A ++ tail) d g = ⟨items.toJson, tail, g - items.weight⟩ := by
  have hline {t : Tree} {line : Line} {lines : List Line}
      (h : (line :: lines).map Line.rendered = t.renderItem d) :
      line.indent = d ∧ startsWithDash line = true := by
    obtain ⟨x, rendered, hrender⟩ := t.renderItem_head d
    obtain ⟨hline, _⟩ := List.cons.inj (h.trans hrender)
    exact ⟨congrArg Prod.fst hline, startsWithDash_dash (congrArg Prod.snd hline)⟩
  cases items with
  | one t =>
    obtain ⟨x, rendered, hrender⟩ := t.renderItem_head d
    obtain ⟨line, lines, rfl, _⟩ := List.map_eq_cons_iff.1 (hlines.trans hrender)
    obtain ⟨hindent, hdash⟩ := hline hlines
    rw [Items.weight] at hg
    obtain ⟨g, rfl⟩ := Nat.exists_eq_add_of_lt (Nat.lt_of_lt_of_le (Nat.succ_pos _) hg)
    rw [Nat.zero_add]
    have hitem := t.parseItem_render hsafe hlines (htail.mono (Nat.le_succ d))
      (by omega : t.weight ≤ g)
    rw [List.cons_append, parseSeq_item digit raw hindent hdash _ _ hitem (Nat.sub_le _ _)]
    rw [parseSeq_outer digit raw htail, Items.toJson, Items.weight, Nat.add_sub_add_right]
  | cons t items =>
    obtain ⟨B, C, rfl, hB, hC⟩ := List.map_eq_append_iff.1 hlines
    obtain ⟨x, rendered, hrender⟩ := t.renderItem_head d
    obtain ⟨line, lines, rfl, _⟩ := List.map_eq_cons_iff.1 (hB.trans hrender)
    obtain ⟨hindent, hdash⟩ := hline hB
    have houter : Outer (d + 1) (C ++ tail) := by
      obtain ⟨x, rendered, hrender⟩ := items.render_head d
      obtain ⟨next, lines, rfl, hnext, _⟩ := List.map_eq_cons_iff.1 (hC.trans hrender)
      intro l hl
      cases hl
      exact Nat.lt_succ_of_le (Nat.le_of_eq (congrArg Prod.fst hnext))
    rw [Items.weight] at hg
    obtain ⟨g, rfl⟩ := Nat.exists_eq_add_of_lt (Nat.lt_of_lt_of_le (Nat.succ_pos _)
      (Nat.le_trans (Nat.le_add_right _ _) hg))
    rw [Nat.zero_add]
    have hitem := t.parseItem_render hsafe.1 hB houter (by omega : t.weight ≤ g)
    rw [List.append_assoc, List.cons_append,
      parseSeq_item digit raw hindent hdash _ _ hitem (Nat.sub_le _ _),
      items.parseSeq_render hsafe.2 hC htail (by omega), Items.toJson, Items.weight]
    dsimp only
    congr 1
    omega

theorem Entries.parseMap_render (entries : Entries) (obj : QJsonObject) (hsafe : entries.Safe)
    (hlines : A.map Line.rendered = entries.render d) (htail : Outer d tail)
    (hg : entries.weight ≤ g) :
    parseMap digit raw obj (A ++ tail) d g = ⟨entries.toJson obj, tail, g - entries.weight⟩ := by
  have hline {t : Tree} {key : Key} {line : Line} {lines : List Line}
      (h : (line :: lines).map Line.rendered = t.renderEntry d key) :
      line.indent = d ∧ ∃ x, AfterColon x ∧ line.text = key.text ++ kColon :: x := by
    obtain ⟨x, rendered, hx, hrender⟩ := t.renderEntry_head d key
    obtain ⟨hline, _⟩ := List.cons.inj (h.trans hrender)
    exact ⟨congrArg Prod.fst hline, x, hx, congrArg Prod.snd hline⟩
  cases entries with
  | one key t =>
    obtain ⟨x, rendered, _, hrender⟩ := t.renderEntry_head d key
    obtain ⟨line, lines, rfl, _⟩ := List.map_eq_cons_iff.1 (hlines.trans hrender)
    obtain ⟨hindent, x, hx, htext⟩ := hline hlines
    rw [Entries.weight] at hg
    obtain ⟨g, rfl⟩ := Nat.exists_eq_add_of_lt (Nat.lt_of_lt_of_le (Nat.succ_pos _) hg)
    rw [Nat.zero_add]
    have hentry := t.parseEntry_render key hsafe hlines (htail.mono (Nat.le_succ d))
      (by omega : t.weight ≤ g)
    rw [List.cons_append,
      parseMap_entry digit raw hindent key hx htext obj _ _ hentry (Nat.sub_le _ _),
      parseMap_outer digit raw _ htail, Entries.toJson, Entries.weight, Nat.add_sub_add_right]
  | cons key t entries =>
    obtain ⟨B, C, rfl, hB, hC⟩ := List.map_eq_append_iff.1 hlines
    obtain ⟨x, rendered, _, hrender⟩ := t.renderEntry_head d key
    obtain ⟨line, lines, rfl, _⟩ := List.map_eq_cons_iff.1 (hB.trans hrender)
    obtain ⟨hindent, x, hx, htext⟩ := hline hB
    have houter : Outer (d + 1) (C ++ tail) := by
      obtain ⟨key, x, rendered, _, hrender⟩ := entries.render_head d
      obtain ⟨next, lines, rfl, hnext, _⟩ := List.map_eq_cons_iff.1 (hC.trans hrender)
      intro l hl
      cases hl
      exact Nat.lt_succ_of_le (Nat.le_of_eq (congrArg Prod.fst hnext))
    rw [Entries.weight] at hg
    obtain ⟨g, rfl⟩ := Nat.exists_eq_add_of_lt (Nat.lt_of_lt_of_le (Nat.succ_pos _)
      (Nat.le_trans (Nat.le_add_right _ _) hg))
    rw [Nat.zero_add]
    have hentry := t.parseEntry_render key hsafe.1 hB houter (by omega : t.weight ≤ g)
    rw [List.append_assoc, List.cons_append,
      parseMap_entry digit raw hindent key hx htext obj _ _ hentry (Nat.sub_le _ _),
      entries.parseMap_render _ hsafe.2 hC htail (by omega), Entries.toJson, Entries.weight]
    congr 1
    omega

end

end Parser

end Nullock.NucleiYaml

import Nullock.NucleiCuts

namespace Nullock.NucleiYaml
open QJsonObject

section Reading
variable {digit : UInt16 → Bool} {raw : List QString}

theorem Follows.behind {A : List Line} (h : Follows raw n (A ++ B)) :
    Follows raw (n + A.length) B := by
  induction A generalizing n with
  | nil => exact h
  | cons line A ih =>
    have hrest := ih h.2
    rw [List.length_cons, ← Nat.add_assoc, Nat.add_right_comm]
    exact hrest

theorem readBlockScalar_outer (hraw : raw[n]? = some x) (hblank : isBlank x = false)
    (hindent : leadingSpaces x ≤ keyIndent) (style : UInt16) (chomp : Option UInt16) :
    readBlockScalar raw n keyIndent style chomp = ([], n) := by
  obtain ⟨hn, hx⟩ := List.getElem?_eq_some_iff.1 hraw
  have hdrop : raw.drop n = x :: raw.drop (n + 1) := by
    rw [List.drop_eq_getElem_cons hn, hx]
  have htake : (raw.drop n).takeWhile
      (fun ln => isBlank ln || decide (keyIndent < leadingSpaces ln)) = [] := by
    rw [hdrop, List.takeWhile_cons, hblank, decide_eq_false (Nat.not_lt.2 hindent)]
    rfl
  rw [readBlockScalar, htake]
  rfl

variable (digit) in
theorem parseEntry_outer (hrow : line.rawIdx = n) (hfollows : Follows raw (n + 1) tail)
    (houter : Outer (d + 1) tail) (hd : d < e) (c g : Nat) :
    (parseEntry digit raw line c tail e g).lines = tail := by
  rw [parseEntry.eq_def]
  dsimp only
  split
  · rename_i style chomp _
    cases tail with
    | nil => rfl
    | cons next tail =>
      obtain ⟨⟨hnext, x, hraw, hblank, hleading⟩, _⟩ := hfollows
      have hindent : next.indent < d + 1 := houter next rfl
      rw [hrow, readBlockScalar_outer hraw hblank (by omega)]
      show (next :: tail).dropWhile (fun l => decide (l.rawIdx < n + 1)) = _
      rw [List.dropWhile_cons, hnext, decide_eq_false (Nat.lt_irrefl _)]
      rfl
  · split
    · rfl
    · cases tail with
      | nil => rfl
      | cons next tail =>
        have hindent : next.indent < d + 1 := houter next rfl
        dsimp only
        rw [if_neg (by omega), if_neg (fun h => by omega)]

/-- A parser that stops behind its block, or has no guard left. -/
def Kept (r : Parsed α) (tail : List Line) : Prop := r.lines = tail ∨ r.guard = 0

theorem parseSeq_spent (lines : List Line) (d : Nat) :
    parseSeq digit raw lines d 0 = ⟨[], lines, 0⟩ := by
  cases lines with
  | nil => rw [parseSeq]
  | cons line lines => rw [parseSeq]

theorem parseMap_spent (obj : QJsonObject) (lines : List Line) (d : Nat) :
    parseMap digit raw obj lines d 0 = ⟨obj, lines, 0⟩ := by
  cases lines with
  | nil => rw [parseMap]
  | cons line lines => rw [parseMap]

theorem parseBlock_spent (lines : List Line) (d : Nat) :
    parseBlock digit raw lines d 0 = ⟨.null, lines, 0⟩ := by
  cases lines with
  | nil => rw [parseBlock]
  | cons line lines => rw [parseBlock, if_pos rfl]

theorem parseSeq_step (hindent : line.indent = d) (hdash : startsWithDash line = true)
    (lines : List Line) (g : Nat) :
    parseSeq digit raw (line :: lines) d (g + 1) =
      (let item := parseItem digit raw line lines d g
       let items := parseSeq digit raw item.lines d (min item.guard g)
       ⟨item.value :: items.value, items.lines, items.guard⟩) := by
  rw [parseSeq, if_pos ⟨hindent, hdash⟩]

theorem parseMap_step (hindent : line.indent = d) (key : Key) (hx : AfterRead x)
    (htext : line.text = key.text ++ kColon :: x) (obj : QJsonObject) (lines : List Line)
    (g : Nat) :
    parseMap digit raw obj (line :: lines) d (g + 1) =
      (let entry := parseEntry digit raw line key.text.length lines d g
       parseMap digit raw (obj.insert key.text entry.value) entry.lines d (min entry.guard g)) := by
  have hdash : startsWithDash line = false := startsWithDash_key key htext
  have hcolon : keyColon line.text = some key.text.length := by
    rw [htext, keyColon_key key hx]
  rw [parseMap, if_pos ⟨hindent, by rw [hdash]; rfl⟩, hcolon]
  dsimp only
  rw [htext, List.take_left, key.unquote_text]

variable (digit) in
theorem parseBlock_keyed (hrow : line.rawIdx = n) (hfollows : Follows raw (n + 1) tail)
    (houter : Outer (d + 1) tail) (hquote : line.text = kQuote :: u)
    (hcolon : keyColon line.text = some c) (hindent : line.indent = d + 2) (g : Nat) :
    Kept (parseBlock digit raw (line :: tail) (d + 2) g) tail ∧
      ∀ s, (parseBlock digit raw (line :: tail) (d + 2) g).value ≠ .string s := by
  cases g with
  | zero =>
    rw [parseBlock_spent]
    exact ⟨.inr rfl, fun s h => by cases h⟩
  | succ g =>
    have hdash : startsWithDash line = false := by
      rw [startsWithDash, hquote]
      rfl
    have hlines := parseEntry_outer digit hrow hfollows houter
      (show d < d + 2 by omega) c g
    have houter' : Outer (d + 2) tail := houter.mono (by omega)
    rw [parseBlock, if_neg (Nat.succ_ne_zero g),
      if_neg (fun h => Bool.false_ne_true (hdash.symm.trans h.1)), parseMap,
      if_pos ⟨hindent, by rw [hdash]; rfl⟩, hcolon]
    dsimp only
    rw [hlines, parseMap_outer digit raw _ houter']
    exact ⟨.inl rfl, fun s h => by cases h⟩

end Reading

def Entries.keys : Entries → List QString
  | .one key _ => [key.text]
  | .cons key _ entries => key.text :: entries.keys

mutual

def Tree.Distinct : Tree → Prop
  | .leaf _ => True
  | .seq items => items.Distinct
  | .map entries => entries.Distinct

def Items.Distinct : Items → Prop
  | .one t => t.Distinct
  | .cons t items => t.Distinct ∧ items.Distinct

def Entries.Distinct : Entries → Prop
  | .one _ t => t.Distinct
  | .cons key t entries => key.text ∉ entries.keys ∧ t.Distinct ∧ entries.Distinct

end

theorem Entries.lookup_toJson (entries : Entries) (obj : QJsonObject) (h : k ∉ entries.keys) :
    (entries.toJson obj).lookup k = obj.lookup k := by
  cases entries with
  | one key t =>
    rw [Entries.toJson, lookup_insert,
      if_neg (fun hk : k = key.text => h (hk ▸ List.mem_cons_self))]
  | cons key t entries =>
    rw [Entries.keys] at h
    rw [Entries.toJson, entries.lookup_toJson _ (fun hm => h (List.mem_cons_of_mem _ hm)),
      lookup_insert, if_neg (fun hk : k = key.text => h (hk ▸ List.mem_cons_self))]

section Only
variable (digit : UInt16 → Bool) {raw : List QString}

theorem map_cutLine {lines : List (Nat × QString)} (h : ∀ l ∈ lines, CleanText l.2) :
    lines.map cutLine = lines := by
  induction lines with
  | nil => rfl
  | cons l lines ih =>
    rw [List.map_cons, cutLine_clean (h l List.mem_cons_self),
      ih (fun l hl => h l (List.mem_cons_of_mem _ hl))]

variable {digit} in
theorem parseBlock_items_only {next : Line} (hindent : next.indent = d)
    (hdash : startsWithDash next = true) {P : Prop}
    (h : Kept (parseSeq digit raw (next :: lines) d g) tail ∧
      ((parseSeq digit raw (next :: lines) d g).value = v → P)) :
    Kept (parseBlock digit raw (next :: lines) d g) tail ∧
      ((parseBlock digit raw (next :: lines) d g).value = .array v → P) := by
  cases g with
  | zero =>
    rw [parseBlock_spent]
    exact ⟨.inr rfl, fun hv => by cases hv⟩
  | succ g =>
    rw [parseBlock, if_neg (Nat.succ_ne_zero g), if_pos ⟨hdash, hindent⟩]
    exact ⟨h.1, fun hv => h.2 (QJsonValue.array.inj hv)⟩

variable {digit} in
theorem parseBlock_entries_only {next : Line} (hdash : startsWithDash next = false) {P : Prop}
    (h : Kept (parseMap digit raw [] (next :: lines) d g) tail ∧
      ((parseMap digit raw [] (next :: lines) d g).value = v → P)) :
    Kept (parseBlock digit raw (next :: lines) d g) tail ∧
      ((parseBlock digit raw (next :: lines) d g).value = .object v → P) := by
  cases g with
  | zero =>
    rw [parseBlock_spent]
    exact ⟨.inr rfl, fun hv => by cases hv⟩
  | succ g =>
    rw [parseBlock, if_neg (Nat.succ_ne_zero g),
      if_neg (fun hc => Bool.false_ne_true (hdash.symm.trans hc.1))]
    exact ⟨h.1, fun hv => h.2 (QJsonValue.object.inj hv)⟩

theorem split_lines {lines lines' : List (Nat × QString)}
    (h : (line :: A).map Line.rendered = (lines ++ lines').map cutLine)
    (hlines : lines.map cutLine = first :: rest) (hlines' : lines'.map cutLine = first' :: rest')
    (hfollows : Follows raw (n + 1) (A ++ tail)) :
    ∃ B next C, A = B ++ next :: C ∧ (line :: B).map Line.rendered = lines.map cutLine ∧
      (next :: C).map Line.rendered = lines'.map cutLine ∧ next.indent = first'.1 ∧
      Follows raw (n + 1) (B ++ next :: (C ++ tail)) ∧
      ∃ n', next.rawIdx = n' ∧ Follows raw (n' + 1) (C ++ tail) := by
  rw [List.map_append] at h
  obtain ⟨B, C, hBC, hB, hC⟩ := List.map_eq_append_iff.1 h
  obtain ⟨line', B, rfl, _⟩ := List.map_eq_cons_iff.1 (hB.trans hlines)
  obtain ⟨next, C, rfl, hnext, _⟩ := List.map_eq_cons_iff.1 (hC.trans hlines')
  obtain ⟨rfl, hA⟩ := List.cons.inj (show line :: A = line' :: (B ++ next :: C) from hBC)
  subst hA
  rw [List.append_assoc, List.cons_append] at hfollows
  have hbehind := hfollows.behind
  exact ⟨B, next, C, rfl, hB, hC, congrArg Prod.fst hnext, hfollows, _, hbehind.1.1, hbehind.2⟩

mutual

theorem Tree.parseItem_only (t : Tree) (hdistinct : t.Distinct)
    (hlines : (line :: A).map Line.rendered = (t.renderItem d).map cutLine)
    (hrow : line.rawIdx = n) (hfollows : Follows raw (n + 1) (A ++ tail))
    (houter : Outer (d + 1) tail) (g : Nat) :
    Kept (parseItem digit raw line (A ++ tail) d g) tail ∧
      ((parseItem digit raw line (A ++ tail) d g).value = t.toJson →
        t.SafeItem ∧ t.weight ≤ g) := by
  cases t with
  | leaf s =>
    rw [Tree.renderItem, List.map_singleton, cutLine_item] at hlines
    obtain ⟨hline, hA⟩ := List.cons.inj hlines
    obtain ⟨u, hu⟩ := readText_head s
    have hrest : itemText line.text = readText s := by
      rw [show line.text = kDash :: kSpace :: readText s from congrArg Prod.snd hline,
        itemText_dash]
      exact trimWith_idem isSpace _
    have hne : readText s ≠ [] := by
      rw [hu]
      exact List.cons_ne_nil _ _
    rw [List.map_eq_nil_iff.1 hA] at hfollows ⊢
    cases hcolon : keyColon (readText s) with
    | none =>
      rw [parseItem_text digit raw hrest hne hcolon]
      refine ⟨.inl rfl, fun hv => ?_⟩
      have hwhole : NoComment s := by
        by_contra hcut
        exact scalarOrFlow_cut hcut hv
      exact ⟨⟨hwhole, readText_whole hwhole ▸ hcolon⟩, Nat.zero_le g⟩
    | some c =>
      rw [parseItem_map digit raw hrest hne hcolon]
      obtain ⟨hkept, hvalue⟩ := parseBlock_keyed digit
        (show Line.rawIdx ⟨d + 2, readText s, line.rawIdx⟩ = n from hrow) hfollows houter hu hcolon
        rfl g
      exact ⟨hkept, fun hv => absurd hv (hvalue s)⟩
  | seq items =>
    obtain ⟨hline, hA⟩ := List.cons.inj hlines
    rw [cutLine_clean (l := (d, [kDash])) .dash] at hline
    have hrest : itemText line.text = [] := by
      rw [show line.text = [kDash] from congrArg Prod.snd hline]
      rfl
    obtain ⟨x, rendered, hrender⟩ := items.render_cut (d + 2)
    obtain ⟨next, lines, rfl, hnext, _⟩ := List.map_eq_cons_iff.1 (hA.trans hrender)
    have hindent : next.indent = d + 2 := congrArg Prod.fst hnext
    have hdash : startsWithDash next = true := startsWithDash_dash (congrArg Prod.snd hnext)
    rw [List.cons_append, parseItem_block digit raw hrest (by omega), hindent]
    exact parseBlock_items_only hindent hdash (items.parseSeq_only hdistinct hA hfollows.1.1
      hfollows.2 (houter.mono (by omega)) g)
  | map entries =>
    obtain ⟨key, x, rendered, hx, hrender⟩ := entries.render_cut (d + 2)
    rw [Tree.renderItem, dashed_cut d (entries.written_render (d + 2)), hrender, dashed] at hlines
    obtain ⟨hline, hA⟩ := List.cons.inj hlines
    have hrest : itemText line.text = key.text ++ kColon :: x := by
      rw [show line.text = kDash :: kSpace :: (key.text ++ kColon :: x) from
        congrArg Prod.snd hline, itemText_dash]
      obtain ⟨first, _, _, hfirst, _⟩ := List.map_eq_cons_iff.1 hrender
      have htext : QString.trimmed (stripComment first.2) = key.text ++ kColon :: x :=
        congrArg Prod.snd hfirst
      rw [← htext]
      exact trimWith_idem isSpace _
    have hmoved : (⟨d + 2, key.text ++ kColon :: x, line.rawIdx⟩ :: A).map Line.rendered =
        (entries.render (d + 2)).map cutLine := by
      rw [hrender, List.map_cons, hA]
      rfl
    rw [parseItem_map digit raw hrest (List.append_ne_nil_of_left_ne_nil key.nonempty _)
      (keyColon_key key hx)]
    obtain ⟨hkept, _, hvalue⟩ := entries.parseMap_only [] hdistinct hmoved hfollows
      (houter.mono (by omega)) g
    exact parseBlock_entries_only (startsWithDash_key key rfl)
      ⟨hkept, hvalue (fun _ _ => rfl)⟩

theorem Tree.parseEntry_only (t : Tree) (key : Key) (hdistinct : t.Distinct)
    (hlines : (line :: A).map Line.rendered = (t.renderEntry d key).map cutLine)
    (hfollows : Follows raw (n + 1) (A ++ tail))
    (houter : Outer (d + 1) tail) (g : Nat) :
    Kept (parseEntry digit raw line key.text.length (A ++ tail) d g) tail ∧
      ((parseEntry digit raw line key.text.length (A ++ tail) d g).value = t.toJson →
        t.SafeEntry ∧ t.weight ≤ g) := by
  have hdrop (x : QString) : (key.text ++ kColon :: x).drop (key.text.length + 1) = x := by
    rw [List.drop_append, List.drop_eq_nil_of_le (Nat.le_succ _), Nat.add_sub_cancel_left]
    rfl
  cases t with
  | leaf s =>
    obtain ⟨hline, hA⟩ := List.cons.inj hlines
    rw [cutLine_entry] at hline
    obtain ⟨u, hu⟩ := readText_head s
    have hrest : QString.trimmed (line.text.drop (key.text.length + 1)) = readText s := by
      rw [show line.text = key.text ++ kColon :: kSpace :: readText s from
        congrArg Prod.snd hline, hdrop, trimmed_space]
      exact trimWith_idem isSpace _
    have hne : readText s ≠ [] := by
      rw [hu]
      exact List.cons_ne_nil _ _
    have hblock : blockScalarIndicator digit (readText s) = none := by
      have htrim : QString.trimmed (readText s) = readText s := trimWith_idem isSpace _
      rw [blockScalarIndicator, htrim, hu]
      exact if_neg (by decide)
    rw [List.map_eq_nil_iff.1 hA, parseEntry_text digit raw hrest hne hblock]
    refine ⟨.inl rfl, fun hv => ⟨?_, Nat.zero_le g⟩⟩
    by_contra hcut
    exact scalarOrFlow_cut hcut hv
  | seq items =>
    obtain ⟨hline, hA⟩ := List.cons.inj hlines
    rw [cutLine_clean (l := (d, key.text ++ [kColon])) (.key key)] at hline
    have hrest : QString.trimmed (line.text.drop (key.text.length + 1)) = [] := by
      rw [show line.text = key.text ++ [kColon] from congrArg Prod.snd hline, hdrop]
      rfl
    obtain ⟨x, rendered, hrender⟩ := items.render_cut (d + 2)
    obtain ⟨next, lines, rfl, hnext, _⟩ := List.map_eq_cons_iff.1 (hA.trans hrender)
    have hindent : next.indent = d + 2 := congrArg Prod.fst hnext
    have hdash : startsWithDash next = true := startsWithDash_dash (congrArg Prod.snd hnext)
    rw [List.cons_append, parseEntry_block digit raw hrest (by omega), hindent]
    exact parseBlock_items_only hindent hdash (items.parseSeq_only hdistinct hA hfollows.1.1
      hfollows.2 (houter.mono (by omega)) g)
  | map entries =>
    obtain ⟨hline, hA⟩ := List.cons.inj hlines
    rw [cutLine_clean (l := (d, key.text ++ [kColon])) (.key key)] at hline
    have hrest : QString.trimmed (line.text.drop (key.text.length + 1)) = [] := by
      rw [show line.text = key.text ++ [kColon] from congrArg Prod.snd hline, hdrop]
      rfl
    obtain ⟨key', x, rendered, _, hrender⟩ := entries.render_cut (d + 2)
    obtain ⟨next, lines, rfl, hnext, _⟩ := List.map_eq_cons_iff.1 (hA.trans hrender)
    have hindent : next.indent = d + 2 := congrArg Prod.fst hnext
    have hdash : startsWithDash next = false :=
      startsWithDash_key key' (congrArg Prod.snd hnext)
    rw [List.cons_append, parseEntry_block digit raw hrest (by omega), hindent]
    obtain ⟨hkept, _, hvalue⟩ := entries.parseMap_only [] hdistinct hA
      hfollows.2 (houter.mono (by omega)) g
    exact parseBlock_entries_only hdash ⟨hkept, hvalue (fun _ _ => rfl)⟩

theorem Items.parseSeq_only (items : Items) (hdistinct : items.Distinct)
    (hlines : (line :: A).map Line.rendered = (items.render d).map cutLine)
    (hrow : line.rawIdx = n) (hfollows : Follows raw (n + 1) (A ++ tail))
    (houter : Outer d tail) (g : Nat) :
    Kept (parseSeq digit raw (line :: (A ++ tail)) d g) tail ∧
      ((parseSeq digit raw (line :: (A ++ tail)) d g).value = items.toJson →
        items.Safe ∧ items.weight ≤ g) := by
  have hfirst {t : Tree} {line : Line} {lines : List Line}
      (h : (line :: lines).map Line.rendered = (t.renderItem d).map cutLine) :
      line.indent = d ∧ startsWithDash line = true := by
    obtain ⟨x, rendered, hrender⟩ := t.renderItem_cut d
    obtain ⟨hline, _⟩ := List.cons.inj (h.trans hrender)
    exact ⟨congrArg Prod.fst hline, startsWithDash_dash (congrArg Prod.snd hline)⟩
  cases g with
  | zero =>
    rw [parseSeq_spent]
    refine ⟨.inr rfl, fun hv => ?_⟩
    cases items with
    | one t => cases hv
    | cons t items => cases hv
  | succ g =>
    cases items with
    | one t =>
      obtain ⟨hindent, hdash⟩ := hfirst hlines
      obtain ⟨hkept, hvalue⟩ := t.parseItem_only hdistinct hlines hrow hfollows
        (houter.mono (Nat.le_succ d)) g
      rw [parseSeq_step hindent hdash]
      generalize parseItem digit raw line (A ++ tail) d g = item at hkept hvalue ⊢
      dsimp only
      refine ⟨?_, fun hv => ?_⟩
      · rcases hkept with hkept | hspent
        · rw [hkept, parseSeq_outer digit raw houter]
          exact .inl rfl
        · rw [hspent, Nat.zero_min, parseSeq_spent]
          exact .inr rfl
      · obtain ⟨hsafe, hweight⟩ := hvalue (List.cons.inj hv).1
        exact ⟨hsafe, Nat.succ_le_succ hweight⟩
    | cons t items =>
      obtain ⟨x, rendered, hrender⟩ := t.renderItem_cut d
      obtain ⟨x', rendered', hrender'⟩ := items.render_cut d
      obtain ⟨B, next, C, rfl, hB, hC, hnext, hfollowsB, n', hrow', hfollowsC⟩ :=
        split_lines hlines hrender hrender' hfollows
      obtain ⟨hindent, hdash⟩ := hfirst hB
      have houterB : Outer (d + 1) (next :: (C ++ tail)) := by
        intro l hl
        cases hl
        exact Nat.lt_succ_of_le (Nat.le_of_eq hnext)
      obtain ⟨hkept, hvalue⟩ := t.parseItem_only hdistinct.1 hB hrow hfollowsB houterB g
      have hexact : t.SafeItem → t.weight ≤ g →
          parseItem digit raw line (B ++ next :: (C ++ tail)) d g =
            ⟨t.toJson, next :: (C ++ tail), g - t.weight⟩ := by
        intro hsafe hweight
        rw [map_cutLine (t.clean_renderItem hsafe d)] at hB
        exact t.parseItem_render digit raw hsafe hB houterB hweight
      rw [List.append_assoc, List.cons_append, parseSeq_step hindent hdash]
      generalize parseItem digit raw line (B ++ next :: (C ++ tail)) d g = item
        at hkept hvalue hexact ⊢
      dsimp only
      refine ⟨?_, fun hv => ?_⟩
      · rcases hkept with hkept | hspent
        · rw [hkept]
          exact (items.parseSeq_only hdistinct.2 hC hrow' hfollowsC houter _).1
        · rw [hspent, Nat.zero_min, parseSeq_spent]
          exact .inr rfl
      · obtain ⟨hfirstValue, hrest⟩ := List.cons.inj hv
        obtain ⟨hsafe, hweight⟩ := hvalue hfirstValue
        rw [hexact hsafe hweight, Nat.min_eq_left (Nat.sub_le _ _)] at hrest
        obtain ⟨hsafe', hweight'⟩ :=
          (items.parseSeq_only hdistinct.2 hC hrow' hfollowsC houter _).2 hrest
        refine ⟨⟨hsafe, hsafe'⟩, ?_⟩
        rw [Items.weight]
        omega

theorem Entries.parseMap_only (entries : Entries) (obj : QJsonObject)
    (hdistinct : entries.Distinct)
    (hlines : (line :: A).map Line.rendered = (entries.render d).map cutLine)
    (hfollows : Follows raw (n + 1) (A ++ tail))
    (houter : Outer d tail) (g : Nat) :
    Kept (parseMap digit raw obj (line :: (A ++ tail)) d g) tail ∧
      (∀ k ∉ entries.keys, (parseMap digit raw obj (line :: (A ++ tail)) d g).value.lookup k =
        obj.lookup k) ∧
      ((∀ k ∈ entries.keys, obj.lookup k = none) →
        (parseMap digit raw obj (line :: (A ++ tail)) d g).value = entries.toJson obj →
          entries.Safe ∧ entries.weight ≤ g) := by
  have hfirst {t : Tree} {key : Key} {line : Line} {lines : List Line}
      (h : (line :: lines).map Line.rendered = (t.renderEntry d key).map cutLine) :
      line.indent = d ∧ ∃ x, AfterRead x ∧ line.text = key.text ++ kColon :: x := by
    obtain ⟨x, rendered, hx, hrender⟩ := t.renderEntry_cut d key
    obtain ⟨hline, _⟩ := List.cons.inj (h.trans hrender)
    exact ⟨congrArg Prod.fst hline, x, hx, congrArg Prod.snd hline⟩
  have hself (key : Key) (v : QJsonValue) :
      (QJsonObject.insert key.text v obj).lookup key.text = some v := by
    rw [lookup_insert, if_pos rfl]
  cases g with
  | zero =>
    rw [parseMap_spent]
    refine ⟨.inr rfl, fun _ _ => rfl, fun hfresh hv => ?_⟩
    have hnone : ∀ (o : QJsonObject), obj = o → ∀ k ∈ entries.keys, o.lookup k = none :=
      fun o ho k hk => ho ▸ hfresh k hk
    cases entries with
    | one key t =>
      have hfound := hnone _ hv key.text List.mem_cons_self
      rw [Entries.toJson, hself] at hfound
      cases hfound
    | cons key t entries =>
      have hfound := hnone _ hv key.text List.mem_cons_self
      rw [Entries.toJson, entries.lookup_toJson _ hdistinct.1, hself] at hfound
      cases hfound
  | succ g =>
    cases entries with
    | one key t =>
      obtain ⟨hindent, x, hx, htext⟩ := hfirst hlines
      obtain ⟨hkept, hvalue⟩ := t.parseEntry_only key hdistinct hlines hfollows
        (houter.mono (Nat.le_succ d)) g
      rw [parseMap_step hindent key hx htext]
      generalize parseEntry digit raw line key.text.length (A ++ tail) d g = entry
        at hkept hvalue ⊢
      dsimp only
      have hresult : Kept (parseMap digit raw (obj.insert key.text entry.value) entry.lines d
            (min entry.guard g)) tail ∧
          (parseMap digit raw (obj.insert key.text entry.value) entry.lines d
            (min entry.guard g)).value = obj.insert key.text entry.value := by
        rcases hkept with hkept | hspent
        · rw [hkept, parseMap_outer digit raw _ houter]
          exact ⟨.inl rfl, rfl⟩
        · rw [hspent, Nat.zero_min, parseMap_spent]
          exact ⟨.inr rfl, rfl⟩
      rw [hresult.2]
      refine ⟨hresult.1, fun k hk => ?_, fun _ hv => ?_⟩
      · rw [lookup_insert, if_neg (fun he : k = key.text => hk (he ▸ List.mem_cons_self))]
      · have hsame := congrArg (List.lookup key.text) hv
        rw [Entries.toJson, hself, hself] at hsame
        obtain ⟨hsafe, hweight⟩ := hvalue (Option.some.inj hsame)
        exact ⟨hsafe, Nat.succ_le_succ hweight⟩
    | cons key t entries =>
      obtain ⟨x, rendered, hx, hrender⟩ := t.renderEntry_cut d key
      obtain ⟨key', x', rendered', _, hrender'⟩ := entries.render_cut d
      obtain ⟨B, next, C, rfl, hB, hC, hnext, hfollowsB, n', hrow', hfollowsC⟩ :=
        split_lines hlines hrender hrender' hfollows
      obtain ⟨hindent, x, hx, htext⟩ := hfirst hB
      have houterB : Outer (d + 1) (next :: (C ++ tail)) := by
        intro l hl
        cases hl
        exact Nat.lt_succ_of_le (Nat.le_of_eq hnext)
      obtain ⟨hkept, hvalue⟩ := t.parseEntry_only key hdistinct.2.1 hB hfollowsB houterB g
      have hexact : t.SafeEntry → t.weight ≤ g →
          parseEntry digit raw line key.text.length (B ++ next :: (C ++ tail)) d g =
            ⟨t.toJson, next :: (C ++ tail), g - t.weight⟩ := by
        intro hsafe hweight
        rw [map_cutLine (t.clean_renderEntry hsafe d key)] at hB
        exact t.parseEntry_render digit raw key hsafe hB houterB hweight
      rw [List.append_assoc, List.cons_append, parseMap_step hindent key hx htext]
      generalize parseEntry digit raw line key.text.length (B ++ next :: (C ++ tail)) d g = entry
        at hkept hvalue hexact ⊢
      dsimp only
      have hrest := entries.parseMap_only (QJsonObject.insert key.text entry.value obj)
        hdistinct.2.2 hC hfollowsC houter
      have hresult : Kept (parseMap digit raw (obj.insert key.text entry.value) entry.lines d
            (min entry.guard g)) tail ∧
          ∀ k ∉ entries.keys, (parseMap digit raw (obj.insert key.text entry.value) entry.lines d
            (min entry.guard g)).value.lookup k =
              (obj.insert key.text entry.value).lookup k := by
        rcases hkept with hkept | hspent
        · rw [hkept]
          exact ⟨(hrest _).1, (hrest _).2.1⟩
        · rw [hspent, Nat.zero_min, parseMap_spent]
          exact ⟨.inr rfl, fun _ _ => rfl⟩
      refine ⟨hresult.1, fun k hk => ?_, fun hfresh hv => ?_⟩
      · rw [hresult.2 k (fun hm => hk (List.mem_cons_of_mem _ hm)), lookup_insert,
          if_neg (fun he : k = key.text => hk (he ▸ List.mem_cons_self))]
      · have hsame := congrArg (List.lookup key.text) hv
        rw [hresult.2 key.text hdistinct.1, hself, Entries.toJson,
          entries.lookup_toJson _ hdistinct.1, hself] at hsame
        have hentry := Option.some.inj hsame
        obtain ⟨hsafe, hweight⟩ := hvalue hentry
        have hexactly := hexact hsafe hweight
        rw [hentry] at hrest
        rw [hexactly, Nat.min_eq_left (Nat.sub_le _ _)] at hv
        obtain ⟨hsafe', hweight'⟩ := (hrest (g - t.weight)).2.2 (fun k hk => by
          have hne : k ≠ key.text := fun he => hdistinct.1 (he ▸ hk)
          rw [lookup_insert, if_neg hne]
          exact hfresh k (List.mem_cons_of_mem _ hk)) hv
        refine ⟨⟨hsafe, hsafe'⟩, ?_⟩
        rw [Entries.weight]
        omega

end

end Only

theorem parseBlock_lines (digit : UInt16 → Bool) (raw : List QString) (t : Tree) (h : t.Safe)
    (hlines : A.map Line.rendered = t.lines) (hg : t.weight ≤ g) :
    ∃ line lines, A = line :: lines ∧
      (parseBlock digit raw A line.indent g).value = t.toJson := by
  have houter : Outer 0 [] := fun l hl => by cases hl
  cases t with
  | leaf s => exact h.elim
  | seq items =>
    have hne : g ≠ 0 := fun h => items.weight_ne_zero (Nat.le_zero.1 (h ▸ hg))
    obtain ⟨line, lines, rfl, hindent, _, hblock⟩ := parseBlock_items digit raw items hlines hne
      (items.parseSeq_render digit raw h hlines houter hg)
    rw [List.append_nil] at hblock
    exact ⟨line, lines, rfl, by rw [hindent, hblock]; rfl⟩
  | map entries =>
    have hne : g ≠ 0 := fun h => entries.weight_ne_zero (Nat.le_zero.1 (h ▸ hg))
    obtain ⟨line, lines, rfl, hindent, hblock⟩ := parseBlock_entries digit raw entries hlines hne
      (entries.parseMap_render digit raw [] h hlines houter hg)
    rw [List.append_nil] at hblock
    exact ⟨line, lines, rfl, by rw [hindent, hblock]; rfl⟩

theorem parseYaml_document (digit : UInt16 → Bool) (t : Tree) (h : t.Safe)
    (hweight : t.weight ≤ kGuard) : parseYaml digit t.document = t.toJson := by
  have hclean := t.clean_lines h
  obtain ⟨htokens, _⟩ := tokenize_written t.lines (fun l hl => .clean (hclean l hl))
  rw [map_cutLine hclean, ← Tree.document] at htokens
  obtain ⟨line, lines, hcons, hvalue⟩ :=
    parseBlock_lines digit (rawLines t.document) t h htokens hweight
  rw [parseYaml, hcons]
  rw [hcons] at hvalue
  exact hvalue

section Whole
variable (digit : UInt16 → Bool)

theorem parseYaml_not_string (yaml s : QString) : parseYaml digit yaml ≠ .string s := by
  rw [parseYaml]
  split
  · exact fun h => by cases h
  · rw [parseBlock]
    split
    · exact fun h => by cases h
    split
    · exact fun h => by cases h
    · exact fun h => by cases h

/-- A tree is read again from its rendering just where its texts are safe. -/
theorem parseYaml_document_iff (t : Tree) (hdistinct : t.Distinct) :
    parseYaml digit t.document = t.toJson ↔ t.Safe ∧ t.weight ≤ kGuard := by
  have houter : Outer 0 [] := fun l hl => by cases hl
  constructor
  · intro hread
    cases t with
    | leaf s => exact absurd hread (parseYaml_not_string digit _ s)
    | seq items =>
      obtain ⟨hrendered, hfollows⟩ := tokenize_written (items.render 0) (items.written_render 0)
      obtain ⟨x, lines, hrender⟩ := items.render_cut 0
      obtain ⟨line, A, hcons, hline, _⟩ := List.map_eq_cons_iff.1 (hrendered.trans hrender)
      have hindent : line.indent = 0 := congrArg Prod.fst hline
      have hdash : startsWithDash line = true := startsWithDash_dash (congrArg Prod.snd hline)
      rw [hcons] at hrendered hfollows
      have hbehind := hfollows.2
      rw [← List.append_nil A] at hbehind
      have honly := parseBlock_items_only hindent hdash
        (items.parseSeq_only digit hdistinct hrendered hfollows.1.1 hbehind houter kGuard)
      rw [List.append_nil] at honly
      rw [parseYaml, Tree.document, Tree.lines, hcons] at hread
      dsimp only at hread
      rw [hindent] at hread
      exact honly.2 hread
    | map entries =>
      obtain ⟨hrendered, hfollows⟩ :=
        tokenize_written (entries.render 0) (entries.written_render 0)
      obtain ⟨key, x, lines, _, hrender⟩ := entries.render_cut 0
      obtain ⟨line, A, hcons, hline, _⟩ := List.map_eq_cons_iff.1 (hrendered.trans hrender)
      have hindent : line.indent = 0 := congrArg Prod.fst hline
      have hdash : startsWithDash line = false := startsWithDash_key key (congrArg Prod.snd hline)
      rw [hcons] at hrendered hfollows
      have hbehind := hfollows.2
      rw [← List.append_nil A] at hbehind
      obtain ⟨hkept, _, hvalue⟩ :=
        entries.parseMap_only digit [] hdistinct hrendered hbehind houter kGuard
      have honly := parseBlock_entries_only hdash ⟨hkept, hvalue (fun _ _ => rfl)⟩
      rw [List.append_nil] at honly
      rw [parseYaml, Tree.document, Tree.lines, hcons] at hread
      dsimp only at hread
      rw [hindent] at hread
      exact honly.2 hread
  · rintro ⟨hsafe, hweight⟩
    exact parseYaml_document digit t hsafe hweight

end Whole

def isAsciiDigit (c : UInt16) : Bool := 0x30 ≤ c && c ≤ 0x39

def kKey : Key where
  text := [0x6B]
  nonempty := List.cons_ne_nil _ _
  chars := List.forall_mem_singleton.2 (by decide)
  start c hc := by
    cases hc
    decide

def kColonsInTexts : Tree :=
  .seq (.cons (.map (.one kKey (.leaf (utf16 "a: b # c")))) (.one (.leaf (utf16 "it's"))))

theorem colons_in_texts : parseYaml isAsciiDigit kColonsInTexts.document =
    kColonsInTexts.toJson := by
  refine (parseYaml_document_iff isAsciiDigit kColonsInTexts ?_).2 ⟨?_, ?_⟩
  · exact ⟨trivial, trivial⟩
  · have hmap : NoComment (utf16 "a: b # c") := by decide
    have hitem : NoKey (utf16 "it's") := by decide
    exact ⟨hmap, hitem⟩
  · decide

def kQuotedThenHash : Tree := .map (.one kKey (.leaf (utf16 "a\" #b")))

theorem tokenize_quotedThenHash : tokenize (rawLines kQuotedThenHash.document) =
    [⟨0, utf16 "k: \"a\\\"", 0⟩] := by decide

theorem parseYaml_quotedThenHash (digit : UInt16 → Bool) :
    parseYaml digit kQuotedThenHash.document = .object [([0x6B], .string (utf16 "a\\"))] := by
  have hblock : blockScalarIndicator digit (utf16 "\"a\\\"") = none := rfl
  have hentry : parseEntry digit (rawLines kQuotedThenHash.document)
      ⟨0, utf16 "k: \"a\\\"", 0⟩ 1 [] 0 (kGuard - 1) =
        ⟨scalarOrFlow (utf16 "\"a\\\""), [], kGuard - 1⟩ :=
    parseEntry_text digit _ (by decide) (by decide) hblock [] 0 _
  have hcolon : keyColon (utf16 "k: \"a\\\"") = some 1 := by decide
  rw [parseYaml, tokenize_quotedThenHash]
  dsimp only
  rw [parseBlock, if_neg (by decide), if_neg (by decide), show kGuard = (kGuard - 1) + 1 from rfl,
    parseMap, if_pos (by decide), hcolon]
  dsimp only
  rw [hentry]
  dsimp only
  rw [parseMap]
  dsimp only
  rfl

theorem quoted_then_hash : parseYaml isAsciiDigit kQuotedThenHash.document ≠
    kQuotedThenHash.toJson := by
  rw [parseYaml_quotedThenHash]
  rintro ⟨⟩

end Nullock.NucleiYaml

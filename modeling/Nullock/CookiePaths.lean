import Nullock.RequestRewriting

namespace Nullock.SessionLogic

def requestPath (reqPath : QString) : QString := firstSection 0x23 (firstSection 0x3F reqPath)

def PathMatch (cookiePath path : QString) : Prop :=
  cookiePath = path ∨
    cookiePath <+: path ∧
      (cookiePath.getLast? = some 0x2F ∨ path[cookiePath.length]? = some 0x2F)

instance : Decidable (PathMatch cookiePath path) := inferInstanceAs (Decidable (_ ∨ _))

def isDotSegment (s : QString) : Bool := s == utf16 "." || s == utf16 ".."

def slashed (segment : QString) : QString := 0x2F :: segment

def mergeSegment (out : List QString) (s : QString) : List QString :=
  if s = utf16 "." then out else if s = utf16 ".." then out.dropLast else out ++ [slashed s]

/-- The output behind the rest; a last dot segment leaves its slash. -/
def mergeSegments (out segments : List QString) : List QString :=
  if segments.getLast?.any isDotSegment then segments.foldl mergeSegment out ++ [slashed []]
  else segments.foldl mergeSegment out

def rfcRemoveDotSegments (p : QString) : QString :=
  match (p.splitOn 0x2F).dropWhile isDotSegment with
  | [] => []
  | s :: segments => (mergeSegments (if s.isEmpty then [] else [s]) segments).flatten

def names (p : QString) : List QString := (p.splitOn 0x2F).filter (fun s => !s.isEmpty)

def collapseSlashes (p : QString) : QString :=
  let segments := if (names p).isEmpty || p.getLast? == some 0x2F then names p ++ [[]] else names p
  List.intercalate [0x2F] ([] :: segments)

def endsInDot (p : QString) : Bool := (p.splitOn 0x2F).getLast?.any isDotSegment

theorem resolveSegments_names (out segments : List QString) :
    resolveSegments out (segments.filter (fun s => !s.isEmpty)) =
      resolveSegments out segments := by
  induction segments generalizing out with
  | nil => rfl
  | cons s segments ih =>
    cases s with
    | nil =>
      rw [List.filter_cons_of_neg (by decide), ih, resolveSegments.eq_def out ([] :: segments)]
      rfl
    | cons c s =>
      rw [List.filter_cons_of_pos rfl, resolveSegments, resolveSegments, ih, ih, ih]

theorem mem_resolveSegments (h : s ∈ resolveSegments out segments) :
    s ∈ out ∨ s ∈ segments ∧ s ≠ [] := by
  induction segments generalizing out with
  | nil => exact .inl h
  | cons t segments ih =>
    rw [resolveSegments] at h
    have hlater {out' : List QString} (h : s ∈ resolveSegments out' segments)
        (hout : s ∈ out' → s ∈ out ∨ s = t ∧ s ≠ []) : s ∈ out ∨ s ∈ t :: segments ∧ s ≠ [] := by
      rcases ih h with h | ⟨h, hne⟩
      · rcases hout h with h | ⟨rfl, hne⟩
        · exact .inl h
        · exact .inr ⟨List.mem_cons_self, hne⟩
      · exact .inr ⟨List.mem_cons_of_mem _ h, hne⟩
    split at h
    · exact hlater h .inl
    · rename_i hempty
      split at h
      · exact hlater h (fun hmem => .inl (List.dropLast_subset _ hmem))
      · apply hlater h
        intro hmem
        rcases List.mem_append.1 hmem with hmem | hmem
        · exact .inl hmem
        · obtain rfl := List.mem_singleton.1 hmem
          refine .inr ⟨rfl, ?_⟩
          rintro rfl
          exact hempty rfl

theorem foldl_mergeSegment (h : ∀ s ∈ segments, s ≠ []) (out : List QString) :
    segments.foldl mergeSegment (out.map slashed) = (resolveSegments out segments).map slashed := by
  induction segments generalizing out with
  | nil => rfl
  | cons s segments ih =>
    obtain ⟨hs, hrest⟩ := List.forall_mem_cons.1 h
    have hempty : s.isEmpty = false := List.isEmpty_eq_false_iff.2 hs
    rw [List.foldl_cons, resolveSegments, mergeSegment, hempty, Bool.false_or]
    by_cases hdot : s = utf16 "."
    · rw [if_pos hdot, if_pos (beq_iff_eq.2 hdot), ih hrest]
    · rw [if_neg hdot, if_neg (fun he => hdot (beq_iff_eq.1 he))]
      by_cases hdots : s = utf16 ".."
      · rw [if_pos hdots, if_pos (beq_iff_eq.2 hdots), ← List.map_dropLast, ih hrest]
      · rw [if_neg hdots, if_neg (fun he => hdots (beq_iff_eq.1 he)), ← ih hrest,
          List.map_append, List.map_singleton]

theorem slash_intercalate (h : segments ≠ []) :
    utf16 "/" ++ List.intercalate (utf16 "/") segments = (segments.map slashed).flatten := by
  induction segments with
  | nil => exact absurd rfl h
  | cons s segments ih =>
    cases segments with
    | nil => rw [List.intercalate_singleton, List.map_singleton, List.flatten_singleton]; rfl
    | cons t segments =>
      rw [List.intercalate_cons_cons, List.map_cons, List.flatten_cons,
        ← ih (List.cons_ne_nil t segments), slashed, List.append_assoc]
      rfl

theorem names_spec (h : s ∈ names p) : s ≠ [] ∧ 0x2F ∉ s := by
  obtain ⟨hmem, hne⟩ := List.mem_filter.1 h
  refine ⟨?_, not_mem_of_mem_splitOn hmem⟩
  rintro rfl
  cases hne

theorem splitOn_collapse (p : QString) : (collapseSlashes p).splitOn 0x2F =
    [] :: if (names p).isEmpty || p.getLast? == some 0x2F then names p ++ [[]] else names p := by
  apply List.splitOn_intercalate
  · intro s hs
    rcases List.mem_cons.1 hs with rfl | hs
    · exact List.not_mem_nil
    · split at hs
      · rcases List.mem_append.1 hs with hs | hs
        · exact (names_spec hs).2
        · rw [List.mem_singleton.1 hs]
          exact List.not_mem_nil
      · exact (names_spec hs).2
  · exact List.cons_ne_nil _ _

theorem rfcRemove_collapse (p : QString) : rfcRemoveDotSegments (collapseSlashes p) =
    (mergeSegments [] (if (names p).isEmpty || p.getLast? == some 0x2F then names p ++ [[]]
      else names p)).flatten := by
  rw [rfcRemoveDotSegments, splitOn_collapse, List.dropWhile_cons_of_neg (by decide)]
  rfl

theorem getLast_splitOn (p : QString) :
    ∃ last, (p.splitOn 0x2F).getLast? = some last ∧
      (p ≠ [] → (last = [] ↔ p.getLast? = some 0x2F)) := by
  induction p using List.reverseRecOn with
  | nil => exact ⟨[], rfl, fun h => absurd rfl h⟩
  | append_singleton p c ih =>
    rw [List.getLast?_concat]
    by_cases hc : c = 0x2F
    · subst hc
      refine ⟨[], ?_, fun _ => ⟨fun _ => rfl, fun _ => rfl⟩⟩
      rw [List.splitOn_append_cons_self, List.splitOn_nil, List.getLast?_concat]
    · obtain ⟨front, last, -, hconcat⟩ := splitOn_concat (x := 0x2F) (b := [c])
        (by rw [List.mem_singleton]; exact fun he => hc he.symm) p
      refine ⟨last ++ [c], by rw [hconcat, List.getLast?_concat], ?_⟩
      intro _
      constructor
      · intro he
        exact absurd he (List.append_ne_nil_of_right_ne_nil _ (List.cons_ne_nil c []))
      · intro he
        exact absurd (Option.some.inj he) hc

theorem names_getLast (h : (p.splitOn 0x2F).getLast? = some last) (hne : last ≠ []) :
    (names p).getLast? = some last := by
  obtain ⟨front, hfront⟩ := List.getLast?_eq_some_iff.1 h
  rw [names, hfront, List.filter_append, List.filter_cons_of_pos, List.filter_nil,
    List.getLast?_concat]
  rw [List.isEmpty_eq_false_iff.2 hne]
  rfl

theorem getLast_slashed (hne : segments ≠ []) (h : ∀ s ∈ segments, s ≠ [] ∧ 0x2F ∉ s) :
    (segments.map slashed).flatten.getLast? ≠ some 0x2F := by
  obtain ⟨front, last, rfl⟩ := List.eq_nil_or_concat' segments |>.resolve_left hne
  obtain ⟨hlast, hslash⟩ := h last (List.mem_append_right _ List.mem_cons_self)
  obtain ⟨init, c, rfl⟩ := List.eq_nil_or_concat' last |>.resolve_left hlast
  rw [List.map_append, List.map_singleton, List.flatten_append, List.flatten_singleton, slashed,
    ← List.cons_append, ← List.append_assoc, List.getLast?_concat]
  intro he
  rw [Option.some.inj he] at hslash
  exact hslash (List.mem_append_right _ List.mem_cons_self)

theorem removeDotSegments_eq (p : QString) : removeDotSegments p =
    if resolveSegments [] (names p) = [] then utf16 "/"
    else ((resolveSegments [] (names p)).map slashed).flatten ++
      if p.getLast? = some 0x2F then utf16 "/" else [] := by
  have hspec : ∀ s ∈ resolveSegments [] (names p), s ≠ [] ∧ 0x2F ∉ s := by
    intro s hs
    rcases mem_resolveSegments hs with hs | hs
    · cases hs
    · exact names_spec hs.1
  have hnames := resolveSegments_names [] (p.splitOn 0x2F)
  rw [← names] at hnames
  simp only [removeDotSegments, ← hnames]
  by_cases hnil : resolveSegments [] (names p) = []
  · rw [if_pos hnil, hnil, if_neg (fun h => h.2 rfl)]
    rfl
  · rw [if_neg hnil, slash_intercalate hnil]
    by_cases hslash : p.getLast? = some 0x2F
    · rw [if_pos ⟨hslash, getLast_slashed hnil hspec⟩, if_pos hslash]
    · rw [if_neg (fun h => hslash h.1), if_neg hslash, List.append_nil]

theorem rfcRemove_collapse_cases (p : QString) :
    (endsInDot p = false ∨ rfcRemoveDotSegments (collapseSlashes p) = utf16 "/") ∧
      rfcRemoveDotSegments (collapseSlashes p) = removeDotSegments p ∨
    endsInDot p = true ∧ rfcRemoveDotSegments (collapseSlashes p) ≠ utf16 "/" ∧
      rfcRemoveDotSegments (collapseSlashes p) = removeDotSegments p ++ utf16 "/" ∧
      (removeDotSegments p).getLast? ≠ some 0x2F := by
  obtain ⟨last, hlast, hslash⟩ := getLast_splitOn p
  have hends : endsInDot p = isDotSegment last := by rw [endsInDot, hlast, Option.any_some]
  have hfold : (names p).foldl mergeSegment [] =
      (resolveSegments [] (names p)).map slashed :=
    foldl_mergeSegment (fun s hs => (names_spec hs).1) []
  rw [rfcRemove_collapse, removeDotSegments_eq]
  by_cases htrail : ((names p).isEmpty || p.getLast? == some 0x2F) = true
  · have hempty : last = [] := by
      rw [Bool.or_eq_true, List.isEmpty_iff, beq_iff_eq] at htrail
      by_contra hne
      rcases htrail with htrail | htrail
      · have hmem := names_getLast hlast hne
        rw [htrail] at hmem
        cases hmem
      · have hp : p ≠ [] := by
          rintro rfl
          cases htrail
        exact hne ((hslash hp).2 htrail)
    refine .inl ⟨.inl (by rw [hends, hempty]; rfl), ?_⟩
    rw [if_pos htrail, mergeSegments, List.getLast?_concat, Option.any_some,
      if_neg (by decide), List.foldl_append, hfold, List.foldl_cons, List.foldl_nil,
      mergeSegment, if_neg (by decide), if_neg (by decide), List.flatten_append]
    by_cases hnil : resolveSegments [] (names p) = []
    · rw [if_pos hnil, hnil]
      rfl
    · rw [if_neg hnil, if_pos]
      · rfl
      · rw [Bool.or_eq_true, List.isEmpty_iff, beq_iff_eq] at htrail
        rcases htrail with htrail | htrail
        · rw [htrail] at hnil
          exact absurd rfl hnil
        · exact htrail
  · rw [if_neg htrail]
    rw [Bool.or_eq_true, List.isEmpty_iff, beq_iff_eq, not_or] at htrail
    obtain ⟨hnames, htail⟩ := htrail
    have hp : p ≠ [] := by
      rintro rfl
      exact hnames rfl
    have hne : last ≠ [] := fun he => htail ((hslash hp).1 he)
    rw [mergeSegments, names_getLast hlast hne, Option.any_some, hends, hfold, if_neg htail,
      List.append_nil]
    cases hdot : isDotSegment last with
    | true =>
      rw [if_pos rfl, List.flatten_append]
      by_cases hnil : resolveSegments [] (names p) = []
      · rw [if_pos hnil, hnil]
        exact .inl ⟨.inr rfl, rfl⟩
      · rw [if_neg hnil]
        have hspec : ∀ s ∈ resolveSegments [] (names p), s ≠ [] ∧ 0x2F ∉ s := by
          intro s hs
          rcases mem_resolveSegments hs with hs | hs
          · cases hs
          · exact names_spec hs.1
        refine .inr ⟨rfl, ?_, rfl, getLast_slashed hnil hspec⟩
        intro he
        obtain ⟨s, segments, hs⟩ := List.exists_cons_of_ne_nil hnil
        have hlength := congrArg List.length he
        rw [hs] at hlength
        simp [slashed, utf16] at hlength
    | false =>
      obtain ⟨front, hfront⟩ := List.getLast?_eq_some_iff.1 (names_getLast hlast hne)
      have hnil : resolveSegments [] (names p) ≠ [] := by
        rw [isDotSegment, Bool.or_eq_false_iff, beq_eq_false_iff_ne, beq_eq_false_iff_ne] at hdot
        intro he
        rw [he, hfront, List.foldl_append, List.foldl_cons, List.foldl_nil, mergeSegment,
          if_neg hdot.1, if_neg hdot.2] at hfold
        exact absurd hfold (List.append_ne_nil_of_right_ne_nil _ (List.cons_ne_nil _ _))
      rw [if_neg Bool.false_ne_true, if_neg hnil]
      exact .inl ⟨.inl rfl, rfl⟩

theorem pathMatch_concat (h : path.getLast? ≠ some 0x2F) :
    PathMatch cookiePath (path ++ utf16 "/") ↔
      PathMatch cookiePath path ∨ cookiePath = path ++ utf16 "/" := by
  have hlast : utf16 "/" = [0x2F] := rfl
  rw [hlast]
  constructor
  · rintro (rfl | ⟨hpre, hbound⟩)
    · exact .inr rfl
    · rw [List.prefix_concat_iff] at hpre
      rcases hpre with rfl | hpre
      · exact .inr rfl
      · refine .inl ?_
        rcases Nat.lt_or_ge cookiePath.length path.length with hlt | hge
        · rw [List.getElem?_append_left hlt] at hbound
          exact .inr ⟨hpre, hbound⟩
        · exact .inl (hpre.eq_of_length_le hge)
  · rintro (hmatch | rfl)
    · rcases hmatch with rfl | ⟨hpre, hbound⟩
      · refine .inr ⟨List.prefix_append _ _, .inr ?_⟩
        rw [List.getElem?_append_right (Nat.le_refl _), Nat.sub_self]
        rfl
      · refine .inr ⟨hpre.trans (List.prefix_append _ _), ?_⟩
        rcases hbound with hbound | hbound
        · exact .inl hbound
        · obtain ⟨hlt, -⟩ := List.getElem?_eq_some_iff.1 hbound
          rw [List.getElem?_append_left hlt]
          exact .inr hbound
    · exact .inl rfl

theorem pathMatches_eq (hslash : cookiePath.head? = some 0x2F) :
    pathMatches cookiePath reqPath = true ↔ PathMatch cookiePath
      (removeDotSegments (if (requestPath reqPath).isEmpty then utf16 "/"
        else requestPath reqPath)) := by
  have hempty : firstSection 0x23 (firstSection 0x3F (utf16 "/")) = utf16 "/" := by decide
  have hpath : (if (firstSection 0x23 (firstSection 0x3F (if reqPath.isEmpty then utf16 "/"
        else reqPath))).isEmpty then utf16 "/"
      else firstSection 0x23 (firstSection 0x3F (if reqPath.isEmpty then utf16 "/"
        else reqPath))) =
      if (requestPath reqPath).isEmpty then utf16 "/" else requestPath reqPath := by
    cases reqPath with
    | nil => rfl
    | cons c reqPath => rfl
  simp only [pathMatches, if_pos hslash, hpath, PathMatch, Bool.or_eq_true, Bool.and_eq_true,
    beq_iff_eq, List.isPrefixOf_iff_prefix]

theorem pathMatches_iff (hslash : cookiePath.head? = some 0x2F) :
    pathMatches cookiePath reqPath = true ↔
      PathMatch cookiePath (rfcRemoveDotSegments (collapseSlashes (requestPath reqPath))) ∧
        ¬ (endsInDot (requestPath reqPath) = true ∧ cookiePath ≠ utf16 "/" ∧
          cookiePath = rfcRemoveDotSegments (collapseSlashes (requestPath reqPath))) := by
  have hroot : rfcRemoveDotSegments (collapseSlashes (requestPath reqPath)) =
      rfcRemoveDotSegments (collapseSlashes (if (requestPath reqPath).isEmpty then utf16 "/"
        else requestPath reqPath)) ∧
      endsInDot (requestPath reqPath) = endsInDot (if (requestPath reqPath).isEmpty then utf16 "/"
        else requestPath reqPath) := by
    cases requestPath reqPath with
    | nil => exact ⟨rfl, rfl⟩
    | cons c path => exact ⟨rfl, rfl⟩
  rw [pathMatches_eq hslash, hroot.1, hroot.2]
  generalize (if (requestPath reqPath).isEmpty then utf16 "/" else requestPath reqPath) = path
  rcases rfcRemove_collapse_cases path with ⟨hend, heq⟩ | ⟨hend, hne, heq, hlast⟩
  · rw [heq] at hend ⊢
    refine ⟨fun h => ⟨h, ?_⟩, fun h => h.1⟩
    rintro ⟨hdot, hother, hself⟩
    rcases hend with hend | hend
    · rw [hend] at hdot
      cases hdot
    · exact hother (hself.trans hend)
  · rw [heq, pathMatch_concat hlast]
    rw [heq] at hne
    constructor
    · intro h
      refine ⟨.inl h, ?_⟩
      rintro ⟨-, -, rfl⟩
      have hlength : ∀ pat : QString, PathMatch (pat ++ utf16 "/") pat → False := by
        intro pat hpat
        rcases hpat with hpat | ⟨hpat, -⟩
        · have hlen := congrArg List.length hpat
          simp [utf16] at hlen
        · have hlen := hpat.length_le
          simp [utf16] at hlen
      exact hlength _ h
    · rintro ⟨h | h, hnot⟩
      · exact h
      · exact absurd ⟨hend, h ▸ hne, h⟩ hnot

def NeverOverMatches (cookiePath reqPath : QString) : Prop :=
  pathMatches cookiePath reqPath = true →
    PathMatch cookiePath (rfcRemoveDotSegments (requestPath reqPath))

/-- Collapsing slashes brings no new path under the cookie path. -/
def CollapseHarmless (cookiePath path : QString) : Prop :=
  PathMatch cookiePath (rfcRemoveDotSegments (collapseSlashes path)) →
    PathMatch cookiePath (rfcRemoveDotSegments path) ∨
      (endsInDot path = true ∧ cookiePath ≠ utf16 "/" ∧
        cookiePath = rfcRemoveDotSegments (collapseSlashes path))

instance : Decidable (CollapseHarmless cookiePath path) := inferInstanceAs (Decidable (_ → _))

/-- A cookie path over-matches just what collapsing slashes brings under it. -/
theorem neverOverMatches_iff (hslash : cookiePath.head? = some 0x2F) :
    NeverOverMatches cookiePath reqPath ↔ CollapseHarmless cookiePath (requestPath reqPath) := by
  rw [NeverOverMatches, pathMatches_iff hslash, CollapseHarmless]
  constructor
  · intro h hmatch
    by_cases hown : endsInDot (requestPath reqPath) = true ∧ cookiePath ≠ utf16 "/" ∧
        cookiePath = rfcRemoveDotSegments (collapseSlashes (requestPath reqPath))
    · exact .inr hown
    · exact .inl (h ⟨hmatch, hown⟩)
  · rintro h ⟨hmatch, hnot⟩
    exact (h hmatch).resolve_right hnot

theorem admin_scoped : NeverOverMatches (utf16 "/admin") (utf16 "/public/../admin/x?q") :=
  (neverOverMatches_iff (by decide)).2 (by decide)

/-- A cookie for `/admin` goes to `//admin`, and one for `/x` to `/admin//../x`. -/
theorem empty_segments_matched :
    ¬ (∀ cookiePath reqPath : QString, cookiePath.head? = some 0x2F →
        NeverOverMatches cookiePath reqPath) ∧
      ¬ NeverOverMatches (utf16 "/admin") (utf16 "//admin") ∧
      ¬ NeverOverMatches (utf16 "/x") (utf16 "/admin//../x") := by
  have hfront : ¬ NeverOverMatches (utf16 "/admin") (utf16 "//admin") := by
    intro h
    have hmatch := h (by decide)
    revert hmatch
    decide
  refine ⟨fun h => hfront (h _ _ (by decide)), hfront, ?_⟩
  intro h
  have hmatch := h (by decide)
  revert hmatch
  decide

end Nullock.SessionLogic

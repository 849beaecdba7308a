import Nullock.EncodedTexts

namespace Nullock.Xml

def isLegalUnit (u : UInt16) : Bool :=
  u == 0x09 || u == 0x0A || u == 0x0D || (0x20 ≤ u && u != 0xFFFE && u != 0xFFFF)

/-- Characters that documents may contain, and no half of a pair alone. -/
def isLegal (s : QString) : Bool := wellFormed s && s.all isLegalUnit

def isSpace (u : UInt16) : Bool := u == 0x20 || u == 0x09 || u == 0x0A || u == 0x0D

def isNameStart (u : UInt16) : Bool :=
  (0x41 ≤ u && u ≤ 0x5A) || (0x61 ≤ u && u ≤ 0x7A) || u == 0x5F

def isNameUnit (u : UInt16) : Bool :=
  isNameStart u || (0x30 ≤ u && u ≤ 0x39) || u == 0x2D || u == 0x2E

abbrev Attributes := List (QString × QString)

inductive Element where
  | element (name : QString) (attributes : Attributes) (text : QString) (children : List Element)

def references : List (QString × UInt16) :=
  [(utf16 "amp", 0x26), (utf16 "lt", 0x3C), (utf16 "gt", 0x3E), (utf16 "quot", 0x22),
    (utf16 "apos", 0x27)]

def referenceAt (s : QString) : Option (UInt16 × Nat) :=
  references.findSome? (fun r =>
    if (r.1 ++ [0x3B]).isPrefixOf s then some (r.2, r.1.length + 1) else none)

/-- Text, references resolved; `skip` units of one are passed over. -/
def resolveFrom : Nat → QString → Option QString
  | _, [] => some []
  | skip + 1, _ :: s => resolveFrom skip s
  | 0, c :: s =>
    if c = 0x26 then (referenceAt s).bind (fun r => (resolveFrom r.2 s).map (r.1 :: ·))
    else (resolveFrom 0 s).map (c :: ·)

def resolve (raw : QString) : Option QString := resolveFrom 0 raw

inductive Mode where
  | text (raw : QString)
  | markup
  | startTag (name : QString)
  | endTag (name : QString)
  | gap (name : QString) (attributes : Attributes)
  | attribute (name : QString) (attributes : Attributes) (key : QString)
  | equals (name : QString) (attributes : Attributes) (key : QString)
  | value (name : QString) (attributes : Attributes) (key raw : QString)
  | valueEnd (name : QString) (attributes : Attributes)

structure Frame where
  name : QString
  attributes : Attributes
  text : QString := []
  children : List Element := []

structure State where
  mode : Mode := .text []
  stack : List Frame := []
  root : Option Element := none

/-- Character data goes to its element, and outside of all it is blank. -/
def State.flush (st : State) (raw : QString) : Option State :=
  match st.stack with
  | [] => if raw.all isSpace then some st else none
  | frame :: stack =>
    if (indexOf (utf16 "]]>") raw).isSome then none
    else (resolve raw).map (fun s =>
      { st with stack := { frame with text := frame.text ++ s } :: stack })

def State.push (st : State) (name : QString) (attributes : Attributes) : Option State :=
  if st.stack.isEmpty && st.root.isSome then none
  else
    some { st with
      mode := .text []
      stack := { name := name, attributes := attributes } :: st.stack }

def Frame.close (frame : Frame) : Element :=
  .element frame.name frame.attributes frame.text frame.children

def State.pop (st : State) (name : QString) : Option State :=
  match st.stack with
  | [] => none
  | frame :: stack =>
    if frame.name ≠ name then none
    else
      match stack with
      | [] => some { mode := .text [], stack := [], root := some frame.close }
      | parent :: stack =>
        some { st with
          mode := .text []
          stack := { parent with children := parent.children ++ [frame.close] } :: stack }

def normalize (raw : QString) : QString := raw.map (fun c => if isSpace c then 0x20 else c)

def step (st : State) (c : UInt16) : Option State :=
  match st.mode with
  | .text raw =>
    if c = 0x3C then (st.flush raw).map (fun st => { st with mode := .markup })
    else some { st with mode := .text (raw ++ [c]) }
  | .markup =>
    if c = 0x2F then some { st with mode := .endTag [] }
    else if isNameStart c then some { st with mode := .startTag [c] }
    else none
  | .startTag name =>
    if isNameUnit c then some { st with mode := .startTag (name ++ [c]) }
    else if isSpace c then some { st with mode := .gap name [] }
    else if c = 0x3E then st.push name []
    else none
  | .endTag name =>
    if isNameUnit c then some { st with mode := .endTag (name ++ [c]) }
    else if c = 0x3E then st.pop name
    else none
  | .gap name attributes =>
    if isSpace c then some st
    else if isNameStart c then some { st with mode := .attribute name attributes [c] }
    else if c = 0x3E then st.push name attributes
    else none
  | .attribute name attributes key =>
    if isNameUnit c then some { st with mode := .attribute name attributes (key ++ [c]) }
    else if c = 0x3D ∧ (attributes.lookup key).isNone then
      some { st with mode := .equals name attributes key }
    else none
  | .equals name attributes key =>
    if c = 0x22 then some { st with mode := .value name attributes key [] } else none
  | .value name attributes key raw =>
    if c = 0x22 then
      (resolve (normalize raw)).map (fun v =>
        { st with mode := .valueEnd name (attributes ++ [(key, v)]) })
    else if c = 0x3C then none
    else some { st with mode := .value name attributes key (raw ++ [c]) }
  | .valueEnd name attributes =>
    if isSpace c then some { st with mode := .gap name attributes }
    else if c = 0x3E then st.push name attributes
    else none

def run (st : State) (s : QString) : Option State := s.foldlM step st

def lineEnds : QString → QString
  | [] => []
  | c :: s =>
    if c = 0x0D then
      match s with
      | d :: s' => 0x0A :: (if d = 0x0A then lineEnds s' else lineEnds (d :: s'))
      | [] => [0x0A]
    else c :: lineEnds s

def declaration : QString := utf16 "<?xml version=\"1.0\" encoding=\"UTF-8\"?>"

/-- The element of a document with this declaration and plain contents. -/
def read (s : QString) : Option Element :=
  if isLegal s ∧ declaration.isPrefixOf s then
    (run {} (lineEnds (s.drop declaration.length))).bind (fun st =>
      match st.mode with
      | .text raw => if st.stack.isEmpty && raw.all isSpace then st.root else none
      | _ => none)
  else none

section Runs
variable {stack : List Frame} {root : Option Element}

theorem run_append (h : run st s = some st') (t : QString) : run st (s ++ t) = run st' t := by
  rw [run, List.foldlM_append, ← run, h]
  rfl

theorem run_cons (h : step st c = some st') (t : QString) : run st (c :: t) = run st' t := by
  rw [run, List.foldlM_cons, h]
  rfl

theorem step_text (raw : QString) (c : UInt16) : step ⟨.text raw, stack, root⟩ c =
    if c = 0x3C then
      (State.flush ⟨.text raw, stack, root⟩ raw).map (fun st => { st with mode := .markup })
    else some ⟨.text (raw ++ [c]), stack, root⟩ := rfl

theorem step_attribute (name : QString) (attributes : Attributes) (key : QString) (c : UInt16) :
    step ⟨.attribute name attributes key, stack, root⟩ c =
      if isNameUnit c then some ⟨.attribute name attributes (key ++ [c]), stack, root⟩
      else if c = 0x3D ∧ (attributes.lookup key).isNone then
        some ⟨.equals name attributes key, stack, root⟩
      else none := rfl

theorem step_value (name : QString) (attributes : Attributes) (key raw : QString) (c : UInt16) :
    step ⟨.value name attributes key raw, stack, root⟩ c =
      if c = 0x22 then
        (resolve (normalize raw)).map (fun v =>
          ⟨.valueEnd name (attributes ++ [(key, v)]), stack, root⟩)
      else if c = 0x3C then none
      else some ⟨.value name attributes key (raw ++ [c]), stack, root⟩ := rfl

theorem run_text (h : 0x3C ∉ s) (raw : QString) :
    run ⟨.text raw, stack, root⟩ s = some ⟨.text (raw ++ s), stack, root⟩ := by
  induction s generalizing raw with
  | nil => rw [List.append_nil]; rfl
  | cons c s ih =>
    rw [List.mem_cons, not_or] at h
    have hstep : step ⟨.text raw, stack, root⟩ c = some ⟨.text (raw ++ [c]), stack, root⟩ :=
      if_neg (fun he => h.1 he.symm)
    rw [run_cons hstep, ih h.2, List.append_assoc]
    rfl

theorem run_value (hlt : 0x3C ∉ s) (hquote : 0x22 ∉ s) (raw : QString) :
    run ⟨.value name attributes key raw, stack, root⟩ s =
      some ⟨.value name attributes key (raw ++ s), stack, root⟩ := by
  induction s generalizing raw with
  | nil => rw [List.append_nil]; rfl
  | cons c s ih =>
    rw [List.mem_cons, not_or] at hlt hquote
    have hstep : step ⟨.value name attributes key raw, stack, root⟩ c =
        some ⟨.value name attributes key (raw ++ [c]), stack, root⟩ :=
      (if_neg (fun he => hquote.1 he.symm)).trans (if_neg (fun he => hlt.1 he.symm))
    rw [run_cons hstep, ih hlt.2 hquote.2, List.append_assoc]
    rfl

theorem run_startTag (h : ∀ c ∈ s, isNameUnit c = true) (name : QString) :
    run ⟨.startTag name, stack, root⟩ s = some ⟨.startTag (name ++ s), stack, root⟩ := by
  induction s generalizing name with
  | nil => rw [List.append_nil]; rfl
  | cons c s ih =>
    have hstep : step ⟨.startTag name, stack, root⟩ c =
        some ⟨.startTag (name ++ [c]), stack, root⟩ := if_pos (h c List.mem_cons_self)
    rw [run_cons hstep, ih (fun d hd => h d (List.mem_cons_of_mem c hd)), List.append_assoc]
    rfl

theorem run_endTag (h : ∀ c ∈ s, isNameUnit c = true) (name : QString) :
    run ⟨.endTag name, stack, root⟩ s = some ⟨.endTag (name ++ s), stack, root⟩ := by
  induction s generalizing name with
  | nil => rw [List.append_nil]; rfl
  | cons c s ih =>
    have hstep : step ⟨.endTag name, stack, root⟩ c =
        some ⟨.endTag (name ++ [c]), stack, root⟩ := if_pos (h c List.mem_cons_self)
    rw [run_cons hstep, ih (fun d hd => h d (List.mem_cons_of_mem c hd)), List.append_assoc]
    rfl

theorem run_key (h : ∀ c ∈ s, isNameUnit c = true) (key : QString) :
    run ⟨.attribute name attributes key, stack, root⟩ s =
      some ⟨.attribute name attributes (key ++ s), stack, root⟩ := by
  induction s generalizing key with
  | nil => rw [List.append_nil]; rfl
  | cons c s ih =>
    have hstep : step ⟨.attribute name attributes key, stack, root⟩ c =
        some ⟨.attribute name attributes (key ++ [c]), stack, root⟩ :=
      if_pos (h c List.mem_cons_self)
    rw [run_cons hstep, ih (fun d hd => h d (List.mem_cons_of_mem c hd)), List.append_assoc]
    rfl

def IsName (name : QString) : Prop :=
  name.head?.any isNameStart = true ∧ ∀ c ∈ name, isNameUnit c = true

instance (name : QString) : Decidable (IsName name) :=
  decidable_of_iff (name.head?.any isNameStart = true ∧ name.all isNameUnit = true)
    (and_congr Iff.rfl List.all_eq_true)

theorem IsName.cons (h : IsName name) :
    ∃ c s, name = c :: s ∧ isNameStart c = true ∧ ∀ d ∈ s, isNameUnit d = true := by
  cases name with
  | nil => cases h.1
  | cons c s => exact ⟨c, s, rfl, h.1, fun d hd => h.2 d (List.mem_cons_of_mem c hd)⟩

theorem isNameStart_ne {c d : UInt16} (h : isNameStart c = true) (hd : isNameStart d = false) :
    c ≠ d := by
  rintro rfl
  rw [h] at hd
  cases hd

theorem run_name (h : IsName name) :
    run ⟨.markup, stack, root⟩ name = some ⟨.startTag name, stack, root⟩ := by
  obtain ⟨c, s, rfl, hc, hs⟩ := h.cons
  have hstep : step ⟨.markup, stack, root⟩ c = some ⟨.startTag [c], stack, root⟩ :=
    (if_neg (isNameStart_ne hc (by decide))).trans (if_pos hc)
  rw [run_cons hstep, run_startTag hs]
  rfl

def Quotable (raw v : QString) : Prop :=
  0x3C ∉ raw ∧ 0x22 ∉ raw ∧ resolve (normalize raw) = some v

def printed (key raw : QString) : QString := 0x20 :: (key ++ (0x3D :: 0x22 :: (raw ++ [0x22])))

def InTag (mode : Mode) (name : QString) (attributes : Attributes) : Prop :=
  (mode = .startTag name ∧ attributes = []) ∨ mode = .valueEnd name attributes

theorem run_printed (hm : InTag mode name attributes) (hkey : IsName key)
    (hnew : attributes.lookup key = none) (hraw : Quotable raw v) :
    run ⟨mode, stack, root⟩ (printed key raw) =
      some ⟨.valueEnd name (attributes ++ [(key, v)]), stack, root⟩ := by
  obtain ⟨c, s, rfl, hc, hs⟩ := hkey.cons
  have hspace : step ⟨mode, stack, root⟩ 0x20 = some ⟨.gap name attributes, stack, root⟩ := by
    rcases hm with ⟨rfl, rfl⟩ | rfl
    · rfl
    · rfl
  have hplain : isSpace c = false := by
    cases hblank : isSpace c with
    | false => rfl
    | true =>
      simp only [isSpace, Bool.or_eq_true, beq_iff_eq] at hblank
      rcases hblank with ((rfl | rfl) | rfl) | rfl
      · exact absurd hc (by decide)
      · exact absurd hc (by decide)
      · exact absurd hc (by decide)
      · exact absurd hc (by decide)
  have hstart : step ⟨.gap name attributes, stack, root⟩ c =
      some ⟨.attribute name attributes [c], stack, root⟩ := by
    rw [step, hplain, hc]
    rfl
  have hequals : step ⟨.attribute name attributes (c :: s), stack, root⟩ 0x3D =
      some ⟨.equals name attributes (c :: s), stack, root⟩ := by
    rw [step_attribute, if_neg (by decide), if_pos]
    exact ⟨rfl, by rw [hnew]; rfl⟩
  have hopen : step ⟨.equals name attributes (c :: s), stack, root⟩ 0x22 =
      some ⟨.value name attributes (c :: s) [], stack, root⟩ := rfl
  have hclose : step ⟨.value name attributes (c :: s) raw, stack, root⟩ 0x22 =
      some ⟨.valueEnd name (attributes ++ [(c :: s, v)]), stack, root⟩ := by
    rw [step_value, if_pos rfl, hraw.2.2]
    rfl
  rw [printed, run_cons hspace, List.cons_append, run_cons hstart, run_append (run_key hs [c]),
    List.singleton_append, run_cons hequals, run_cons hopen,
    run_append (run_value hraw.1 hraw.2.1 []), List.nil_append, run_cons hclose]
  rfl

theorem run_attributes {written : List (QString × QString)} {values : Attributes}
    (hm : InTag mode name attributes)
    (hall : List.Forall₂ (fun w a => w.1 = a.1 ∧ IsName w.1 ∧ Quotable w.2 a.2) written values)
    (hkeys : ((attributes ++ values).map Prod.fst).Nodup) :
    ∃ mode', InTag mode' name (attributes ++ values) ∧
      run ⟨mode, stack, root⟩ (written.flatMap (fun w => printed w.1 w.2)) =
        some ⟨mode', stack, root⟩ := by
  induction hall generalizing mode attributes with
  | nil => exact ⟨mode, by rwa [List.append_nil], rfl⟩
  | @cons w a ws as hw hrest ih =>
    obtain ⟨key, raw⟩ := w
    obtain ⟨key', v⟩ := a
    obtain ⟨rfl, hkey, hraw⟩ := hw
    have hnew : attributes.lookup key = none := by
      rw [List.map_append, List.nodup_append] at hkeys
      refine List.lookup_eq_none_iff.2 (fun p hp => ?_)
      have hne := hkeys.2.2 p.1 (List.mem_map_of_mem hp) key List.mem_cons_self
      exact bne_iff_ne.2 (Ne.symm hne)
    have hsplit : attributes ++ (key, v) :: as = (attributes ++ [(key, v)]) ++ as := by simp
    rw [hsplit] at hkeys ⊢
    obtain ⟨mode', hmode, hrun⟩ := ih (.inr rfl) hkeys
    refine ⟨mode', hmode, ?_⟩
    rw [List.flatMap_cons, run_append (run_printed hm hkey hnew hraw), hrun]

theorem run_open {written : List (QString × QString)} {values : Attributes}
    (hflush : State.flush ⟨.text raw, stack, root⟩ raw = some ⟨.text raw, stack', root⟩)
    (hname : IsName name)
    (hall : List.Forall₂ (fun w a => w.1 = a.1 ∧ IsName w.1 ∧ Quotable w.2 a.2) written values)
    (hkeys : (values.map Prod.fst).Nodup) (hroot : stack' ≠ [] ∨ root = none) :
    run ⟨.text raw, stack, root⟩
        (0x3C :: (name ++ (written.flatMap (fun w => printed w.1 w.2) ++ [0x3E]))) =
      some ⟨.text [], { name := name, attributes := values } :: stack', root⟩ := by
  have hmarkup : step ⟨.text raw, stack, root⟩ 0x3C = some ⟨.markup, stack', root⟩ := by
    rw [step_text, if_pos rfl, hflush]
    rfl
  obtain ⟨mode, hmode, hrun⟩ : ∃ mode, InTag mode name ([] ++ values) ∧
      run ⟨.startTag name, stack', root⟩ (written.flatMap (fun w => printed w.1 w.2)) =
        some ⟨mode, stack', root⟩ := run_attributes (.inl ⟨rfl, rfl⟩) hall hkeys
  have hpush : State.push ⟨mode, stack', root⟩ name values =
      some ⟨.text [], { name := name, attributes := values } :: stack', root⟩ := by
    apply if_neg
    rw [Bool.and_eq_true, List.isEmpty_iff]
    rintro ⟨hnil, hsome⟩
    rcases hroot with hne | rfl
    · exact hne hnil
    · cases hsome
  have hend : step ⟨mode, stack', root⟩ 0x3E = State.push ⟨mode, stack', root⟩ name values := by
    rcases hmode with ⟨rfl, hnil⟩ | rfl
    · rw [List.nil_append] at hnil
      rw [hnil]
      rfl
    · rfl
  rw [run_cons hmarkup, run_append (run_name hname), run_append hrun, run_cons (hend.trans hpush)]
  rfl

theorem run_close
    (hflush : State.flush ⟨.text raw, stack, root⟩ raw = some ⟨.text raw, stack', root⟩)
    (hname : IsName name)
    (hpop : State.pop ⟨.endTag name, stack', root⟩ name = some st) :
    run ⟨.text raw, stack, root⟩ (0x3C :: 0x2F :: (name ++ [0x3E])) = some st := by
  have hmarkup : step ⟨.text raw, stack, root⟩ 0x3C = some ⟨.markup, stack', root⟩ := by
    rw [step_text, if_pos rfl, hflush]
    rfl
  have hslash : step ⟨.markup, stack', root⟩ 0x2F = some ⟨.endTag [], stack', root⟩ := rfl
  have hend : step ⟨.endTag name, stack', root⟩ 0x3E = some st := hpop
  rw [run_cons hmarkup, run_cons hslash, run_append (run_endTag hname.2 []), List.nil_append,
    run_cons hend]
  rfl

theorem flush_data (h : 0x3E ∉ raw) (hraw : resolve raw = some v) (mode : Mode) (frame : Frame) :
    State.flush ⟨mode, frame :: stack, root⟩ raw =
      some ⟨mode, { frame with text := frame.text ++ v } :: stack, root⟩ := by
  have hnone : indexOf (utf16 "]]>") raw = none := by
    apply indexOf_eq_none_iff.2
    rintro i - ⟨t, ht⟩
    apply h
    apply List.mem_of_mem_drop (i := i)
    rw [← ht]
    exact List.mem_append_left t (by decide)
  rw [State.flush]
  dsimp only
  rw [hnone, hraw]
  rfl

theorem pop_child (mode : Mode) (frame parent : Frame) :
    State.pop ⟨mode, frame :: parent :: stack, root⟩ frame.name =
      some ⟨.text [],
        { parent with children := parent.children ++ [frame.close] } :: stack, root⟩ :=
  if_neg (fun h => h rfl)

theorem pop_root (mode : Mode) (frame : Frame) :
    State.pop ⟨mode, [frame], root⟩ frame.name = some ⟨.text [], [], some frame.close⟩ :=
  if_neg (fun h => h rfl)

def Readable (raw v : QString) : Prop := 0x3C ∉ raw ∧ 0x3E ∉ raw ∧ resolve raw = some v

theorem run_leaf {frame : Frame} (hblank : Readable blank b) (hname : IsName name)
    (hraw : Readable raw v) :
    run ⟨.text blank, frame :: stack, root⟩
        (0x3C :: (name ++ (0x3E :: (raw ++ (0x3C :: 0x2F :: (name ++ [0x3E])))))) =
      some ⟨.text [], { frame with
        text := frame.text ++ b
        children := frame.children ++ [.element name [] v []] } :: stack, root⟩ := by
  have hopen : run ⟨.text blank, frame :: stack, root⟩ (0x3C :: (name ++ ([] ++ [0x3E]))) =
      some ⟨.text [], { name := name, attributes := [] } ::
        { frame with text := frame.text ++ b } :: stack, root⟩ :=
    run_open (flush_data hblank.2.1 hblank.2.2 _ frame) hname .nil List.nodup_nil
      (.inl (List.cons_ne_nil _ _))
  have hclose : run ⟨.text raw, { name := name, attributes := [] } ::
        { frame with text := frame.text ++ b } :: stack, root⟩
      (0x3C :: 0x2F :: (name ++ [0x3E])) =
      some ⟨.text [], { frame with
        text := frame.text ++ b
        children := frame.children ++ [.element name [] v []] } :: stack, root⟩ :=
    run_close (flush_data hraw.2.1 hraw.2.2 _ _) hname (pop_child _ _ _)
  rw [List.nil_append] at hopen
  have hsplit : 0x3C :: (name ++ (0x3E :: (raw ++ (0x3C :: 0x2F :: (name ++ [0x3E]))))) =
      (0x3C :: (name ++ [0x3E])) ++ (raw ++ (0x3C :: 0x2F :: (name ++ [0x3E]))) := by simp
  rw [hsplit, run_append hopen, run_append (run_text hraw.1 []), List.nil_append, hclose]

end Runs

section Legal

/-- Legal text without a carriage return, whose line ends are kept. -/
def IsPlain (s : QString) : Prop := isLegal s = true ∧ 0x0D ∉ s

theorem wellFormed_append (ha : wellFormed a = true) (hb : wellFormed b = true) :
    wellFormed (a ++ b) = true := by
  rw [wellFormed] at ha hb ⊢
  rw [List.map_append]
  generalize a.map UInt16.toNat = units at ha ⊢
  induction units using wellFormedUnits.induct with
  | case1 => exact hb
  | case2 n hhigh d s ih =>
    rw [wellFormedUnits, if_pos hhigh, Bool.and_eq_true] at ha
    rw [List.cons_append, List.cons_append, wellFormedUnits, if_pos hhigh, ha.1, ih ha.2]
    rfl
  | case3 n hhigh =>
    rw [wellFormedUnits, if_pos hhigh] at ha
    cases ha
  | case4 n s hhigh ih =>
    rw [wellFormedUnits.eq_def] at ha
    dsimp only at ha
    rw [if_neg hhigh, Bool.and_eq_true] at ha
    rw [List.cons_append, wellFormedUnits.eq_def]
    dsimp only
    rw [if_neg hhigh, ha.1, ih ha.2]
    rfl

theorem IsPlain.append (ha : IsPlain a) (hb : IsPlain b) : IsPlain (a ++ b) := by
  obtain ⟨hla, hca⟩ := ha
  obtain ⟨hlb, hcb⟩ := hb
  rw [isLegal, Bool.and_eq_true] at hla hlb
  refine ⟨?_, fun h => (List.mem_append.1 h).elim hca hcb⟩
  rw [isLegal, wellFormed_append hla.1 hlb.1, List.all_append, hla.2, hlb.2]
  rfl

theorem IsPlain.flatMap {l : List α} {f : α → QString} (h : ∀ x ∈ l, IsPlain (f x)) :
    IsPlain (l.flatMap f) := by
  induction l with
  | nil => exact ⟨rfl, List.not_mem_nil⟩
  | cons x l ih =>
    rw [List.flatMap_cons]
    exact (h x List.mem_cons_self).append (ih (fun y hy => h y (List.mem_cons_of_mem x hy)))

theorem IsPlain.of_ascii (h : ∀ u ∈ s, (u = 0x0A ∨ 0x20 ≤ u) ∧ u < 0x80) : IsPlain s := by
  refine ⟨?_, fun hcr => absurd (h _ hcr) (by decide)⟩
  rw [isLegal, wellFormed_ascii (fun u hu => (h u hu).2), Bool.true_and, List.all_eq_true]
  intro u hu
  obtain ⟨hlow, hhigh⟩ := h u hu
  have hlast (d : UInt16) (hd : ¬d < 0x80) : (u != d) = true := by
    rw [bne_iff_ne]
    rintro rfl
    exact hd hhigh
  rcases hlow with rfl | hlow
  · rfl
  · rw [isLegalUnit, decide_eq_true hlow, hlast _ (by decide), hlast _ (by decide)]
    simp

theorem isNameUnit_ascii (h : isNameUnit u = true) : 0x20 ≤ u ∧ u < 0x80 := by
  simp only [isNameUnit, isNameStart, Bool.or_eq_true, Bool.and_eq_true, decide_eq_true_eq,
    beq_iff_eq] at h
  rcases h with (((((⟨hlow, hhigh⟩ | ⟨hlow, hhigh⟩) | rfl) | ⟨hlow, hhigh⟩) | rfl) | rfl)
  · exact ⟨UInt16.le_trans (by decide) hlow, UInt16.lt_of_le_of_lt hhigh (by decide)⟩
  · exact ⟨UInt16.le_trans (by decide) hlow, UInt16.lt_of_le_of_lt hhigh (by decide)⟩
  · decide
  · exact ⟨UInt16.le_trans (by decide) hlow, UInt16.lt_of_le_of_lt hhigh (by decide)⟩
  · decide
  · decide

theorem IsName.plain (h : IsName name) : IsPlain name :=
  IsPlain.of_ascii (fun _ hu =>
    ⟨.inr (isNameUnit_ascii (h.2 _ hu)).1, (isNameUnit_ascii (h.2 _ hu)).2⟩)

theorem IsPlain.printed (hkey : IsName key) (hraw : IsPlain raw) : IsPlain (printed key raw) := by
  have hsplit : Xml.printed key raw = [0x20] ++ (key ++ ([0x3D, 0x22] ++ (raw ++ [0x22]))) := rfl
  rw [hsplit]
  have hspace : IsPlain [0x20] :=
    IsPlain.of_ascii (forall_mem_of_all (by decide))
  have hopen : IsPlain [0x3D, 0x22] :=
    IsPlain.of_ascii (forall_mem_of_all (by decide))
  have hclose : IsPlain [0x22] :=
    IsPlain.of_ascii (forall_mem_of_all (by decide))
  exact hspace.append (hkey.plain.append (hopen.append (hraw.append hclose)))

def Shows (s e : QString) : Prop :=
  ∃ x c d y, c < 0x80 ∧ d < 0x80 ∧ s = x ++ c :: (e ++ d :: y)

theorem Shows.append_left (h : Shows s e) (t : QString) : Shows (t ++ s) e := by
  obtain ⟨x, c, d, y, hc, hd, rfl⟩ := h
  exact ⟨t ++ x, c, d, y, hc, hd, (List.append_assoc _ _ _).symm⟩

theorem Shows.append_right (h : Shows s e) (t : QString) : Shows (s ++ t) e := by
  obtain ⟨x, c, d, y, hc, hd, rfl⟩ := h
  exact ⟨x, c, d, y ++ t, hc, hd, by simp⟩

theorem Shows.flatMap {l : List α} {f : α → QString} (hx : x ∈ l) (h : Shows (f x) e) :
    Shows (l.flatMap f) e := by
  obtain ⟨a, b, rfl⟩ := List.append_of_mem hx
  rw [List.flatMap_append, List.flatMap_cons]
  exact (h.append_right _).append_left _

theorem Shows.legal (h : Shows s e) (hs : isLegal s = true) : isLegal e = true := by
  obtain ⟨x, c, d, y, hc, hd, rfl⟩ := h
  rw [isLegal, Bool.and_eq_true] at hs ⊢
  refine ⟨wellFormed_before hd (wellFormed_after hc hs.1), ?_⟩
  have hall := hs.2
  rw [List.all_append, List.all_cons, List.all_append, Bool.and_eq_true, Bool.and_eq_true,
    Bool.and_eq_true] at hall
  exact hall.2.2.1

theorem lineEnds_plain (h : 0x0D ∉ s) : lineEnds s = s := by
  induction s with
  | nil => rfl
  | cons c s ih =>
    rw [List.mem_cons, not_or] at h
    rw [lineEnds.eq_def]
    dsimp only
    rw [if_neg (fun he => h.1 he.symm), ih h.2]

end Legal

end Nullock.Xml

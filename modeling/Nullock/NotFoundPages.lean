import Nullock.SessionRules
import Mathlib.Data.List.OfFn

namespace Nullock.ContentDiscovery
open SessionRulesLogic (isWordChar)

def sentinel : QString := [1, 0x50, 1]

/-- Matches from the left masked; `skip` characters of one are still passed over. -/
def masked (here : Option UInt16 → QString → Bool) (len : Nat) :
    Option UInt16 → Nat → QString → QString
  | _, _, [] => []
  | _, skip + 1, c :: s => masked here len (some c) skip s
  | before, 0, c :: s =>
    if here before (c :: s) then sentinel ++ masked here len (some c) (len - 1) s
    else c :: masked here len (some c) 0 s

def occurs (here : Option UInt16 → QString → Bool) : Option UInt16 → QString → Bool
  | _, [] => false
  | before, c :: s => here before (c :: s) || occurs here (some c) s

def pathAt (path : QString) (_ : Option UInt16) (s : QString) : Bool := path.isPrefixOf s

/-- The expression `\b`, between two characters or at an end of the text. -/
def isBoundary (before after : Option UInt16) : Bool :=
  before.any isWordChar != after.any isWordChar

def wordAt (seg : QString) (before : Option UInt16) (s : QString) : Bool :=
  seg.isPrefixOf s && isBoundary before s.head? &&
    isBoundary seg.getLast? (s.drop seg.length).head?

def lastSegment (path : QString) : QString := path.rtakeWhile (fun c => c != 0x2F)

def collapse : Bool → QString → QString
  | _, [] => []
  | inDigits, c :: s =>
    if isDigit c then if inDigits then collapse true s else 0x30 :: collapse true s
    else c :: collapse false s

def maskPath (probePath s : QString) : QString :=
  if probePath.isEmpty then s
  else
    let s := masked (pathAt probePath) probePath.length none 0 s
    let seg := lastSegment probePath
    if !seg.isEmpty && seg != probePath then masked (wordAt seg) seg.length none 0 s else s

def canonicalizeBody (body probePath : QString) : QString :=
  collapse false (maskPath probePath body)

def bodyFingerprint (canonicalBody : QString) : UInt64 :=
  (toUtf8 canonicalBody).foldl (fun h c => (h ^^^ c.toUInt64) * 1099511628211) 1469598103934665603

structure CalibProfile where
  softStatuses : List Int
  softLocation : QString
  softLen : Nat
  jitter : Nat
  reliable : Bool
  softBodyHash : UInt64
  haveBodyHash : Bool

def locNorm (s : QString) : QString := (QString.trimmed s).rdropWhile (fun c => c == 0x2F)

def classify (status : Int) (bodyLen : Nat) (location : QString) (cal : CalibProfile)
    (candBodyHash : UInt64) (candHasHash : Bool) : Option String :=
  if status = 301 ∨ status = 302 ∨ status = 303 ∨ status = 307 ∨ status = 308 then
    if status ∈ cal.softStatuses ∧ locNorm location = locNorm cal.softLocation then none
    else some "redirect"
  else if status = 401 ∨ status = 403 then
    if status ∈ cal.softStatuses ∧ ((bodyLen : Int) - cal.softLen).natAbs ≤ cal.jitter then none
    else some "auth-gated"
  else if status = 200 then
    if 200 ∉ cal.softStatuses then some "ok"
    else if cal.haveBodyHash && candHasHash then
      if candBodyHash = cal.softBodyHash then none else some "ok-distinct"
    else if ((bodyLen : Int) - cal.softLen).natAbs > cal.jitter then some "ok-distinct" else none
  else if 200 ≤ status ∧ status < 300 then
    if status ∈ cal.softStatuses then none else some "ok"
  else none

structure Answer where
  statusCode : Int
  location : QString
  body : QString

def bodyLen (r : Answer) : Nat := min r.body.length (256 * 1024)

def randToken (drawn : Fin 10 → Fin 16) : QString :=
  utf16 "nl404" ++ List.ofFn (fun i => (utf16 "0123456789abcdef").getD (drawn i) 0)

def full (base rel : QString) : QString := base ++ 0x2F :: rel

/-- The baseline of two answers that both arrived, each with the path it is for. -/
def calibrate (t1 t2 : QString) (c1 c2 : Answer) : CalibProfile :=
  let l1 := bodyLen c1
  let l2 := bodyLen c2
  let h1 := bodyFingerprint (canonicalizeBody c1.body t1)
  let h2 := bodyFingerprint (canonicalizeBody c2.body t2)
  { softStatuses := [c1.statusCode, c2.statusCode]
    softLocation := if c1.location.isEmpty then c2.location else c1.location
    softLen := (l1 + l2) / 2
    jitter := max 64 (((l1 : Int) - l2).natAbs * 2)
    reliable := c1.statusCode = c2.statusCode
    softBodyHash := if h1 = h2 then h1 else 0
    haveBodyHash := h1 = h2 }

def probeOne (cal : CalibProfile) (path : QString) (r : Answer) : Option String :=
  let candHash := if cal.haveBodyHash then bodyFingerprint (canonicalizeBody r.body path) else 0
  classify r.statusCode (bodyLen r) r.location cal candHash cal.haveBodyHash

theorem space_plain (h : isSpace c = true) : isWordChar c = false ∧ isDigit c = false := by
  simp only [isSpace, Bool.or_eq_true, Bool.and_eq_true, beq_iff_eq, decide_eq_true_eq,
    ← UInt16.toNat_inj, UInt16.le_iff_toNat_le, UInt16.reduceToNat] at h
  simp only [isWordChar, isDigit, Bool.or_eq_false_iff, Bool.and_eq_false_iff,
    beq_eq_false_iff_ne, decide_eq_false_iff_not, ne_eq, ← UInt16.toNat_inj,
    UInt16.le_iff_toNat_le, UInt16.reduceToNat]
  omega

/-! ### Masking word by word -/

section Matches

/-- The matcher of a text without white space that does not look past white space. -/
structure Matcher (here : Option UInt16 → QString → Bool) (pat : QString) : Prop where
  pos : pat ≠ []
  plain : ∀ c ∈ pat, isSpace c = false
  front : ∀ before s, here before s = true → pat <+: s
  ends : ∀ before a c b, isSpace c = true → a ≠ [] → here before (a ++ c :: b) = here before a
  starts : ∀ c s, isSpace c = true → here (some c) s = here none s

variable {here : Option UInt16 → QString → Bool} {pat : QString}

theorem begins_joined {pat a : QString} (h : c ∉ pat) : pat <+: a ++ c :: b ↔ pat <+: a := by
  induction pat generalizing a with
  | nil => exact ⟨fun _ => List.nil_prefix, fun _ => List.nil_prefix⟩
  | cons d pat ih =>
    rw [List.mem_cons, not_or] at h
    cases a with
    | nil =>
      constructor
      · intro hp
        exact absurd (List.cons_prefix_cons.1 hp).1.symm h.1
      · intro hp
        exact absurd (List.prefix_nil.1 hp) (List.cons_ne_nil _ _)
    | cons e a => rw [List.cons_append, List.cons_prefix_cons, List.cons_prefix_cons, ih h.2]

theorem masked_starts (M : Matcher here pat) (hc : isSpace c = true) (n : Nat) (s : QString) :
    masked here n (some c) 0 s = masked here n none 0 s := by
  cases s with
  | nil => rfl
  | cons d s => rw [masked, masked, M.starts c _ hc]

theorem masked_joined (M : Matcher here pat) (hc : isSpace c = true) (b : QString)
    (before : Option UInt16) (a : QString) (hs : skip ≤ a.length) :
    masked here pat.length before skip (a ++ c :: b) =
      masked here pat.length before skip a ++ c :: masked here pat.length none 0 b := by
  induction a generalizing before skip with
  | nil =>
    obtain rfl : skip = 0 := Nat.le_zero.1 hs
    have hn : ¬ here before (c :: b) = true := by
      intro hh
      obtain ⟨d, t, ht⟩ := List.exists_cons_of_ne_nil M.pos
      have hf := M.front _ _ hh
      rw [ht, List.cons_prefix_cons] at hf
      have hd := M.plain d (by rw [ht]; exact List.mem_cons_self)
      rw [hf.1, hc] at hd
      cases hd
    rw [List.nil_append, masked, masked, if_neg hn, masked_starts M hc]
    rfl
  | cons d a ih =>
    cases skip with
    | succ n => exact ih _ (Nat.le_of_succ_le_succ hs)
    | zero =>
      have he := M.ends before (d :: a) c b hc (List.cons_ne_nil _ _)
      rw [List.cons_append] at he
      rw [List.cons_append, masked, masked, he]
      by_cases hh : here before (d :: a) = true
      · have hl := (M.front _ _ hh).length_le
        rw [List.length_cons] at hl
        rw [if_pos hh, if_pos hh, ih _ (by omega), List.append_assoc]
      · rw [if_neg hh, if_neg hh, ih _ (Nat.zero_le _)]
        rfl

/-- A mask takes the characters of the match away and adds those of the sentinel. -/
theorem masked_count (M : Matcher here pat) (p : UInt16 → Bool) (before : Option UInt16)
    (skip : Nat) (s : QString) :
    ∃ k, (masked here pat.length before skip s).countP p + k * pat.countP p =
        (s.drop skip).countP p + k * sentinel.countP p ∧
      (skip = 0 → k = 0 → occurs here before s = false) := by
  induction s generalizing before skip with
  | nil => exact ⟨0, by rw [masked, List.drop_nil, Nat.zero_mul, Nat.zero_mul], fun _ _ => rfl⟩
  | cons c s ih =>
    cases skip with
    | succ n =>
      obtain ⟨k, hk, _⟩ := ih (some c) n
      exact ⟨k, hk, fun h => absurd h (Nat.succ_ne_zero n)⟩
    | zero =>
      by_cases hh : here before (c :: s) = true
      · obtain ⟨k, hk, _⟩ := ih (some c) (pat.length - 1)
        obtain ⟨t, ht⟩ := M.front _ _ hh
        have hpos := List.length_pos_iff.2 M.pos
        have hd : s.drop (pat.length - 1) = t := by
          have hdrop := congrArg (List.drop pat.length) ht
          rw [List.drop_left] at hdrop
          rw [hdrop]
          obtain ⟨n, hn⟩ := Nat.exists_eq_succ_of_ne_zero hpos.ne'
          rw [hn]
          rfl
        refine ⟨k + 1, ?_, fun _ h => absurd h (Nat.succ_ne_zero k)⟩
        rw [masked, if_pos hh, List.countP_append, List.drop_zero, ← ht, List.countP_append]
        rw [hd] at hk
        rw [Nat.succ_mul, Nat.succ_mul]
        omega
      · obtain ⟨k, hk, hz⟩ := ih (some c) 0
        refine ⟨k, ?_, ?_⟩
        · rw [masked, if_neg hh, List.drop_zero, List.countP_cons, List.countP_cons]
          rw [List.drop_zero] at hk
          omega
        · intro _ h0
          rw [occurs, hz rfl h0, Bool.or_false]
          exact Bool.eq_false_iff.2 hh

theorem masked_self (h : occurs here before s = false) (n : Nat) :
    masked here n before 0 s = s := by
  induction s generalizing before with
  | nil => rfl
  | cons c s ih =>
    rw [occurs, Bool.or_eq_false_iff] at h
    rw [masked, if_neg (Bool.eq_false_iff.1 h.1), ih h.2]

theorem masked_whole (hp : pat ≠ []) (h : here none pat = true) :
    masked here pat.length none 0 pat = sentinel := by
  obtain ⟨c, s, hs⟩ := List.exists_cons_of_ne_nil hp
  have hrest (before : Option UInt16) (n : Nat) (t : QString) (ht : t.length ≤ n) :
      masked here pat.length before n t = [] := by
    induction t generalizing before n with
    | nil => rfl
    | cons d t ih =>
      cases n with
      | zero => exact absurd ht (Nat.not_succ_le_zero _)
      | succ n => exact ih _ n (Nat.le_of_succ_le_succ ht)
  rw [hs] at h hrest ⊢
  rw [masked, if_pos h, hrest _ _ s (by rw [List.length_cons]; omega), List.append_nil]

theorem occurs_short (M : Matcher here pat) (h : s.length < pat.length)
    (before : Option UInt16) : occurs here before s = false := by
  induction s generalizing before with
  | nil => rfl
  | cons c s ih =>
    rw [occurs, ih (Nat.lt_of_succ_lt h), Bool.or_false]
    refine Bool.eq_false_iff.2 (fun hh => ?_)
    exact absurd (M.front _ _ hh).length_le (Nat.not_le.2 h)

end Matches

theorem pathAt_matcher {path : QString} (h0 : path ≠ [])
    (hp : ∀ c ∈ path, isSpace c = false) : Matcher (pathAt path) path where
  pos := h0
  plain := hp
  front _ _ h := List.isPrefixOf_iff_prefix.1 h
  ends _ a c b hc _ := by
    have hn : c ∉ path := fun hm => absurd (hp c hm) (by rw [hc]; exact Bool.noConfusion)
    rw [pathAt, pathAt, Bool.eq_iff_iff, List.isPrefixOf_iff_prefix, List.isPrefixOf_iff_prefix,
      begins_joined hn]
  starts _ _ _ := rfl

theorem isBoundary_space (hc : isSpace c = true) (x : Option UInt16) :
    isBoundary x (some c) = isBoundary x none ∧ isBoundary (some c) x = isBoundary none x := by
  have hw := (space_plain hc).1
  constructor
  · rw [isBoundary, isBoundary, Option.any_some, hw]
    rfl
  · rw [isBoundary, isBoundary, Option.any_some, hw]
    rfl

theorem wordAt_matcher {seg : QString} (h0 : seg ≠ [])
    (hp : ∀ c ∈ seg, isSpace c = false) : Matcher (wordAt seg) seg where
  pos := h0
  plain := hp
  front _ _ h := by
    rw [wordAt, Bool.and_eq_true, Bool.and_eq_true] at h
    exact List.isPrefixOf_iff_prefix.1 h.1.1
  ends before a c b hc ha := by
    have hn : c ∉ seg := fun hm => absurd (hp c hm) (by rw [hc]; exact Bool.noConfusion)
    have hb : seg.isPrefixOf (a ++ c :: b) = seg.isPrefixOf a := by
      rw [Bool.eq_iff_iff, List.isPrefixOf_iff_prefix, List.isPrefixOf_iff_prefix,
        begins_joined hn]
    obtain ⟨d, t, rfl⟩ := List.exists_cons_of_ne_nil ha
    rw [wordAt, wordAt, hb]
    by_cases hf : seg.isPrefixOf (d :: t) = true
    · obtain ⟨u, hu⟩ := List.isPrefixOf_iff_prefix.1 hf
      rw [hf, ← hu, List.append_assoc, List.drop_left, List.drop_left]
      obtain ⟨x, y, rfl⟩ := List.exists_cons_of_ne_nil h0
      cases u with
      | nil => exact congrArg _ (isBoundary_space hc _).1
      | cons v u => rfl
    · rw [Bool.eq_false_iff.2 hf]
      rfl
  starts c s hc := by rw [wordAt, wordAt, (isBoundary_space hc _).2]

/-! ### Canonical bodies -/

def Plain (s : QString) : Prop := ∀ c ∈ s, isSpace c = false

instance (s : QString) : Decidable (Plain s) :=
  decidable_of_iff (s.all (fun c => decide (isSpace c = false)) = true)
    ⟨forall_mem_of_all, fun h => List.all_eq_true.2 (fun c hc => decide_eq_true (h c hc))⟩

theorem collapse_joined (hc : isDigit c = false) (inDigits : Bool) (a b : QString) :
    collapse inDigits (a ++ c :: b) = collapse inDigits a ++ c :: collapse false b := by
  induction a generalizing inDigits with
  | nil =>
    rw [List.nil_append, collapse, collapse, if_neg (Bool.eq_false_iff.1 hc)]
    rfl
  | cons d a ih =>
    rw [List.cons_append, collapse, collapse]
    split
    · split
      · exact ih true
      · exact congrArg (List.cons 0x30) (ih true)
    · exact congrArg (List.cons d) (ih false)

theorem collapse_count {p : UInt16 → Bool} (hp : ∀ c, isDigit c = true → p c = false)
    (inDigits : Bool) (s : QString) : (collapse inDigits s).countP p = s.countP p := by
  induction s generalizing inDigits with
  | nil => rfl
  | cons c s ih =>
    rw [collapse, List.countP_cons]
    split
    · next hd =>
      rw [hp c hd]
      split
      · exact ih true
      · rw [List.countP_cons, hp 0x30 rfl]
        exact ih true
    · rw [List.countP_cons, ih]

theorem collapse_self (h : ∀ c ∈ collapse false s, isDigit c = false) : collapse false s = s := by
  induction s with
  | nil => rfl
  | cons c s ih =>
    rw [collapse] at h ⊢
    split at h
    · exact absurd (h 0x30 List.mem_cons_self) (by decide)
    · next hd =>
      rw [if_neg hd, ih (fun d hm => h d (List.mem_cons_of_mem c hm))]

theorem collapse_sentinel : collapse false s = sentinel ↔ s = sentinel := by
  constructor
  · intro h
    rw [← h]
    refine (collapse_self ?_).symm
    rw [h]
    exact forall_mem_of_all (by decide)
  · rintro rfl
    rfl

section Paths
variable {base rel path : QString}

theorem slash_free : ∀ c ∈ lastSegment path, c ≠ 0x2F := by
  intro c hc
  exact bne_iff_ne.1 (List.mem_rtakeWhile_imp (p := fun c => c != 0x2F) hc)

theorem segment_mem (h : c ∈ lastSegment path) : c ∈ path :=
  (List.rtakeWhile_suffix _ path).subset h

theorem full_ne (base rel : QString) : full base rel ≠ [] :=
  List.append_ne_nil_of_right_ne_nil _ (List.cons_ne_nil _ _)

theorem slash_mem (base rel : QString) : 0x2F ∈ full base rel :=
  List.mem_append_right _ List.mem_cons_self

theorem segment_ne (base rel : QString) : lastSegment (full base rel) ≠ full base rel := by
  intro h
  have hm := slash_mem base rel
  rw [← h] at hm
  exact slash_free _ hm rfl

theorem segment_shorter (base rel : QString) :
    (lastSegment (full base rel)).length < (full base rel).length := by
  have hs := List.rtakeWhile_suffix (fun c => c != 0x2F) (full base rel)
  refine lt_of_le_of_ne hs.length_le (fun he => ?_)
  exact segment_ne base rel (hs.eq_of_length he)

theorem lastSegment_full (h : 0x2F ∉ rel) : lastSegment (full base rel) = rel := by
  have hall : ∀ c ∈ rel.reverse, (c != 0x2F) = true := by
    intro c hc
    rw [bne_iff_ne]
    rintro rfl
    exact h (List.mem_reverse.1 hc)
  rw [lastSegment, List.rtakeWhile, full, List.reverse_append, List.reverse_cons,
    List.append_assoc, List.takeWhile_append_of_pos hall, List.singleton_append,
    List.takeWhile_cons, if_neg (by decide), List.append_nil, List.reverse_reverse]

theorem Plain.full (hb : Plain base) (hr : Plain rel) : Plain (full base rel) := by
  intro c hc
  rcases List.mem_append.1 hc with hc | hc
  · exact hb c hc
  · rcases List.mem_cons.1 hc with rfl | hc
    · rfl
    · exact hr c hc

theorem Plain.segment (h : Plain path) : Plain (lastSegment path) := fun c hc =>
  h c (segment_mem hc)

theorem maskPath_full (base rel s : QString) : maskPath (full base rel) s =
    if lastSegment (full base rel) = [] then
      masked (pathAt (full base rel)) (full base rel).length none 0 s
    else masked (wordAt (lastSegment (full base rel))) (lastSegment (full base rel)).length none 0
      (masked (pathAt (full base rel)) (full base rel).length none 0 s) := by
  have h0 : (full base rel).isEmpty = false := by
    rw [Bool.eq_false_iff, ne_eq, List.isEmpty_iff]
    exact full_ne base rel
  have hne := bne_iff_ne.2 (segment_ne base rel)
  rw [maskPath, h0, if_neg Bool.false_ne_true]
  simp only [hne, Bool.and_true, Bool.not_eq_true', ← Bool.not_eq_true, List.isEmpty_iff,
    ite_not]

theorem canonical_joined (hp : Plain (full base rel)) (hc : isSpace c = true) (a b : QString) :
    canonicalizeBody (a ++ c :: b) (full base rel) =
      canonicalizeBody a (full base rel) ++ c :: canonicalizeBody b (full base rel) := by
  have M := pathAt_matcher (full_ne base rel) hp
  rw [canonicalizeBody, canonicalizeBody, canonicalizeBody, maskPath_full, maskPath_full,
    maskPath_full, masked_joined M hc _ _ _ (Nat.zero_le _)]
  split
  · rw [collapse_joined (space_plain hc).2]
  · next hn =>
    rw [masked_joined (wordAt_matcher hn hp.segment) hc _ _ _ (Nat.zero_le _),
      collapse_joined (space_plain hc).2]

theorem canonical_spaces (hp : Plain (full base rel)) (s : QString) :
    (canonicalizeBody s (full base rel)).countP isSpace = s.countP isSpace := by
  have hzero {t : QString} (ht : Plain t) : t.countP isSpace = 0 :=
    List.countP_eq_zero.2 (fun c hc => Bool.eq_false_iff.1 (ht c hc))
  have hs : sentinel.countP isSpace = 0 := by decide
  have hdigit (c : UInt16) (hd : isDigit c = true) : isSpace c = false := by
    refine Bool.eq_false_iff.2 (fun hc => ?_)
    rw [(space_plain hc).2] at hd
    cases hd
  obtain ⟨k, hk, _⟩ := masked_count (pathAt_matcher (full_ne base rel) hp) isSpace none 0 s
  rw [hzero hp, hs, List.drop_zero, Nat.mul_zero] at hk
  rw [canonicalizeBody, collapse_count hdigit, maskPath_full]
  split
  · exact hk
  · next hn =>
    obtain ⟨k', hk', _⟩ := masked_count (wordAt_matcher hn hp.segment) isSpace none 0
      (masked (pathAt (full base rel)) (full base rel).length none 0 s)
    rw [hzero hp.segment, hs, List.drop_zero, Nat.mul_zero] at hk'
    exact hk'.trans hk

/-- The text holds neither the path nor its last segment as a word. -/
def Clean (path s : QString) : Prop :=
  occurs (pathAt path) none s = false ∧
    (lastSegment path ≠ [] → occurs (wordAt (lastSegment path)) none s = false)

instance (path s : QString) : Decidable (Clean path s) :=
  inferInstanceAs (Decidable (_ ∧ _))

theorem canonical_clean (h : Clean (full base rel) s) :
    canonicalizeBody s (full base rel) = collapse false s := by
  rw [canonicalizeBody, maskPath_full, masked_self h.1]
  split
  · rfl
  · next hn => rw [masked_self (h.2 hn)]

def WordEnds (s : QString) : Prop :=
  s.head?.any isWordChar = true ∧ s.getLast?.any isWordChar = true

instance (s : QString) : Decidable (WordEnds s) := inferInstanceAs (Decidable (_ ∧ _))

theorem occurs_sentinel {seg : QString} (h0 : seg ≠ []) :
    occurs (wordAt seg) none sentinel = false ↔ seg ≠ [0x50] := by
  constructor
  · rintro h rfl
    exact absurd h (by decide)
  · intro hne
    have hfirst : wordAt seg none sentinel = false := by
      rw [wordAt, show isBoundary none sentinel.head? = false from rfl, Bool.and_false,
        Bool.false_and]
    have hsecond : wordAt seg (some 1) [0x50, 1] = false := by
      refine Bool.eq_false_iff.2 (fun hw => ?_)
      have hp := hw
      rw [wordAt, Bool.and_eq_true, Bool.and_eq_true, List.isPrefixOf_iff_prefix] at hp
      have hm : seg = [] ∨ ∃ t, seg = 0x50 :: t ∧ (t = [] ∨ t = [1]) := by
        simpa [List.prefix_cons_iff] using hp.1.1
      rcases hm with hm | ⟨t, hm, rfl | rfl⟩
      · exact h0 hm
      · exact hne hm
      · rw [hm] at hw
        exact absurd hw (by decide)
    have hthird : wordAt seg (some 0x50) [1] = false := by
      refine Bool.eq_false_iff.2 (fun hw => ?_)
      have hp := hw
      rw [wordAt, Bool.and_eq_true, Bool.and_eq_true, List.isPrefixOf_iff_prefix] at hp
      have hm : seg = [] ∨ seg = [1] := by simpa [List.prefix_cons_iff] using hp.1.1
      rcases hm with hm | hm
      · exact h0 hm
      · rw [hm] at hw
        exact absurd hw (by decide)
    rw [sentinel] at hfirst ⊢
    rw [occurs, occurs, occurs, hfirst, hsecond, hthird]
    rfl

theorem canonical_path (base rel : QString) :
    canonicalizeBody (full base rel) (full base rel) = sentinel ↔
      lastSegment (full base rel) ≠ [0x50] := by
  have hwhole : pathAt (full base rel) none (full base rel) = true :=
    List.isPrefixOf_iff_prefix.2 (List.prefix_refl _)
  rw [canonicalizeBody, maskPath_full, masked_whole (full_ne base rel) hwhole, collapse_sentinel]
  split
  · next h0 => exact iff_of_true rfl (by rw [h0]; exact List.cons_ne_nil _ _ |>.symm)
  · next h0 =>
    constructor
    · intro h he
      rw [he] at h
      exact absurd h (by decide)
    · intro h
      exact masked_self ((occurs_sentinel h0).2 h) _

theorem canonical_segment (hp : Plain (full base rel)) :
    canonicalizeBody (lastSegment (full base rel)) (full base rel) = sentinel ↔
      WordEnds (lastSegment (full base rel)) ∨ lastSegment (full base rel) = sentinel := by
  have M := pathAt_matcher (full_ne base rel) hp
  rw [canonicalizeBody, maskPath_full, masked_self (occurs_short M (segment_shorter base rel) _),
    collapse_sentinel]
  generalize hseg : lastSegment (full base rel) = seg
  split
  · next h0 =>
    rw [h0]
    decide
  · next h0 =>
    have hpl := hp.segment
    rw [hseg] at hpl
    have hhere : wordAt seg none seg = true ↔ WordEnds seg := by
      rw [wordAt, List.isPrefixOf_iff_prefix.2 (List.prefix_refl _), Bool.true_and,
        Bool.and_eq_true, List.drop_length, isBoundary, isBoundary, WordEnds]
      simp
    by_cases hw : WordEnds seg
    · exact iff_of_true (masked_whole h0 (hhere.2 hw)) (.inl hw)
    · have hn : occurs (wordAt seg) none seg = false := by
        obtain ⟨c, s, rfl⟩ := List.exists_cons_of_ne_nil h0
        rw [occurs, Bool.eq_false_iff.2 (mt hhere.1 hw), Bool.false_or]
        exact occurs_short (wordAt_matcher h0 hpl) (Nat.lt_succ_self _) _
      rw [masked_self hn]
      exact ⟨.inr, fun h => h.resolve_left hw⟩

theorem count_pos_of_mem (h : c ∈ path) : 0 < path.countP (fun d => d == c) :=
  List.countP_pos_iff.2 ⟨c, h, beq_self_eq_true c⟩

/-- A mask over a path with a letter the sentinel lacks is seen in the body. -/
theorem clean_of_canonical (hp : Plain (full base rel)) (hl : isDigit l = false)
    (hseg : l ∈ lastSegment (full base rel)) (hs : l ∉ sentinel)
    (h : canonicalizeBody s (full base rel) = collapse false s) : Clean (full base rel) s := by
  have h0 : lastSegment (full base rel) ≠ [] := List.ne_nil_of_mem hseg
  have hdigit (c : UInt16) (hd : isDigit c = true) : (c == l) = false := by
    rw [beq_eq_false_iff_ne]
    rintro rfl
    rw [hl] at hd
    cases hd
  have hzero : sentinel.countP (fun d => d == l) = 0 :=
    List.countP_eq_zero.2 (fun c hc he => hs (by rwa [← beq_iff_eq.1 he]))
  obtain ⟨k, hk, hclean⟩ := masked_count (pathAt_matcher (full_ne base rel) hp)
    (fun d => d == l) none 0 s
  obtain ⟨k', hk', hclean'⟩ := masked_count (wordAt_matcher h0 hp.segment) (fun d => d == l) none 0
    (masked (pathAt (full base rel)) (full base rel).length none 0 s)
  rw [List.drop_zero, hzero, Nat.mul_zero, Nat.add_zero] at hk hk'
  have hc := congrArg (List.countP (fun d => d == l)) h
  rw [canonicalizeBody, collapse_count hdigit, collapse_count hdigit, maskPath_full,
    if_neg h0] at hc
  have hfirst : k = 0 := by
    by_contra hne
    have := Nat.mul_pos (Nat.pos_of_ne_zero hne) (count_pos_of_mem (segment_mem hseg))
    omega
  have hsecond : k' = 0 := by
    by_contra hne
    have := Nat.mul_pos (Nat.pos_of_ne_zero hne) (count_pos_of_mem hseg)
    omega
  refine ⟨hclean rfl hfirst, fun _ => ?_⟩
  have hword := hclean' rfl hsecond
  rwa [masked_self (hclean rfl hfirst)] at hword

end Paths

/-! ### Pages that echo the request -/

inductive Piece where
  | text (s : QString)
  | path
  | segment
deriving DecidableEq

/-- A page of fixed texts and holes that are set apart by white space. -/
structure Template where
  first : Piece
  rest : List ({c : UInt16 // isSpace c = true} × Piece)

def Piece.fill (path : QString) : Piece → QString
  | .text s => s
  | .path => path
  | .segment => lastSegment path

def pageFrom (fill : Piece → QString) :
    Piece → List ({c : UInt16 // isSpace c = true} × Piece) → QString
  | p, [] => fill p
  | p, (c, q) :: rest => fill p ++ c.1 :: pageFrom fill q rest

def Template.page (t : Template) (path : QString) : QString :=
  pageFrom (Piece.fill path) t.first t.rest

def Template.pieces (t : Template) : List Piece := t.first :: t.rest.map Prod.snd

theorem split_joined {p : UInt16 → Bool} {a a' b b' : QString} (hc : p c = true)
    (hn : a.countP p = a'.countP p) (h : a ++ c :: b = a' ++ c :: b') : a = a' ∧ b = b' := by
  induction a generalizing a' with
  | nil =>
    cases a' with
    | nil => exact ⟨rfl, (List.cons.inj h).2⟩
    | cons d a' =>
      rw [(List.cons.inj h).1.symm, List.countP_cons, if_pos hc] at hn
      exact absurd hn.symm (Nat.succ_ne_zero _)
  | cons d a ih =>
    cases a' with
    | nil =>
      rw [(List.cons.inj h).1, List.countP_cons, if_pos hc] at hn
      exact absurd hn (Nat.succ_ne_zero _)
    | cons e a' =>
      obtain ⟨rfl, ht⟩ := List.cons.inj h
      rw [List.countP_cons, List.countP_cons, Nat.add_right_cancel_iff] at hn
      obtain ⟨rfl, hb⟩ := ih hn ht
      exact ⟨rfl, hb⟩

theorem canonical_page (hp : Plain (full base rel)) (p : Piece)
    (rest : List ({c : UInt16 // isSpace c = true} × Piece)) :
    canonicalizeBody (pageFrom (Piece.fill (full base rel)) p rest) (full base rel) =
      pageFrom (fun q => canonicalizeBody (q.fill (full base rel)) (full base rel)) p rest := by
  induction rest generalizing p with
  | nil => rfl
  | cons r rest ih => rw [pageFrom, canonical_joined hp r.1.2, ih, pageFrom]

theorem pageFrom_inj {f g : Piece → QString}
    (h : ∀ q, (f q).countP isSpace = (g q).countP isSpace) (p : Piece)
    (rest : List ({c : UInt16 // isSpace c = true} × Piece)) :
    pageFrom f p rest = pageFrom g p rest ↔ ∀ q ∈ p :: rest.map Prod.snd, f q = g q := by
  induction rest generalizing p with
  | nil => rw [pageFrom, pageFrom, List.map_nil, List.forall_mem_singleton]
  | cons r rest ih =>
    rw [pageFrom, pageFrom, List.map_cons, List.forall_mem_cons, ← ih]
    constructor
    · exact split_joined r.1.2 (h p)
    · rintro ⟨hf, hr⟩
      rw [hf, hr]

theorem fill_spaces (hp : Plain path) (q : Piece) :
    (q.fill path).countP isSpace = (q.fill []).countP isSpace := by
  have hzero {t : QString} (ht : Plain t) : t.countP isSpace = 0 :=
    List.countP_eq_zero.2 (fun c hc => Bool.eq_false_iff.1 (ht c hc))
  cases q with
  | text s => rfl
  | path => exact hzero hp
  | segment => exact hzero hp.segment

theorem page_same_iff (hp : Plain (full base rel)) (hp' : Plain (full base rel'))
    (t : Template) :
    canonicalizeBody (t.page (full base rel)) (full base rel) =
        canonicalizeBody (t.page (full base rel')) (full base rel') ↔
      ∀ q ∈ t.pieces, canonicalizeBody (q.fill (full base rel)) (full base rel) =
        canonicalizeBody (q.fill (full base rel')) (full base rel') := by
  rw [Template.page, Template.page, canonical_page hp, canonical_page hp', pageFrom_inj]
  · rfl
  · intro q
    rw [canonical_spaces hp, canonical_spaces hp', fill_spaces hp, fill_spaces hp']

theorem token_chars (drawn : Fin 10 → Fin 16) : ∀ c ∈ randToken drawn, isWordChar c = true := by
  have hhex : ∀ x : Fin 16, isWordChar ((utf16 "0123456789abcdef").getD x 0) = true := by decide
  have hletters : ∀ c ∈ utf16 "nl404", isWordChar c = true := forall_mem_of_all (by decide)
  intro c hc
  rcases List.mem_append.1 hc with hc | hc
  · exact hletters c hc
  · obtain ⟨i, rfl⟩ := (List.mem_ofFn' _ _).1 hc
    exact hhex (drawn i)

structure Token (base token : QString) : Prop where
  plain : Plain (full base token)
  segment : lastSegment (full base token) = token
  letter : 0x6E ∈ token
  ends : WordEnds token

theorem token_made (hb : Plain base) (drawn : Fin 10 → Fin 16) : Token base (randToken drawn) := by
  have hchars := token_chars drawn
  have hne : randToken drawn ≠ [] := List.cons_ne_nil _ _
  refine ⟨Plain.full hb (fun c hc => ?_), lastSegment_full (fun hm => ?_), List.mem_cons_self, ?_⟩
  · refine Bool.eq_false_iff.2 (fun hs => ?_)
    have hw := hchars c hc
    rw [(space_plain hs).1] at hw
    cases hw
  · exact absurd (hchars _ hm) (by decide)
  · rw [WordEnds, List.head?_eq_some_head hne, List.getLast?_eq_some_getLast hne]
    exact ⟨hchars _ (List.head_mem hne), hchars _ (List.getLast_mem hne)⟩

theorem Token.shown (h : Token base token) (q : Piece) :
    (q = .path ∨ q = .segment) →
      canonicalizeBody (q.fill (full base token)) (full base token) = sentinel := by
  rintro (rfl | rfl)
  · refine (canonical_path base token).2 ?_
    rw [h.segment]
    rintro rfl
    exact absurd h.letter (by decide)
  · refine (canonical_segment h.plain).2 (.inl ?_)
    rw [h.segment]
    exact h.ends

theorem Token.text_iff (h : Token base token) (s : QString) :
    canonicalizeBody s (full base token) = collapse false s ↔ Clean (full base token) s :=
  ⟨clean_of_canonical h.plain (l := 0x6E) rfl (by rw [h.segment]; exact h.letter) (by decide),
    canonical_clean⟩

/-- The last segment is masked wherever a page of the template echoes it. -/
def Masked (t : Template) (path : QString) : Prop :=
  (Piece.path ∈ t.pieces → lastSegment path ≠ [0x50]) ∧
    (Piece.segment ∈ t.pieces →
      WordEnds (lastSegment path) ∨ lastSegment path = sentinel)

instance (t : Template) (path : QString) : Decidable (Masked t path) :=
  inferInstanceAs (Decidable (_ ∧ _))

theorem token_page_iff (h : Token base token) (hp : Plain (full base rel)) {t : Template}
    (hclean : ∀ s, Piece.text s ∈ t.pieces → Clean (full base rel) s) :
    canonicalizeBody (t.page (full base token)) (full base token) =
        canonicalizeBody (t.page (full base rel)) (full base rel) ↔
      (∀ s, Piece.text s ∈ t.pieces → Clean (full base token) s) ∧ Masked t (full base rel) := by
  rw [page_same_iff h.plain hp]
  constructor
  · intro hall
    refine ⟨fun s hs => ?_, fun hs => ?_, fun hs => ?_⟩
    · exact (h.text_iff s).1 ((hall _ hs).trans (canonical_clean (hclean s hs)))
    · exact (canonical_path base rel).1 ((hall _ hs).symm.trans (h.shown _ (.inl rfl)))
    · exact (canonical_segment hp).1 ((hall _ hs).symm.trans (h.shown _ (.inr rfl)))
  · rintro ⟨htexts, hpath, hsegment⟩ q hq
    cases q with
    | text s => exact ((h.text_iff s).2 (htexts s hq)).trans (canonical_clean (hclean s hq)).symm
    | path => exact (h.shown _ (.inl rfl)).trans ((canonical_path base rel).2 (hpath hq)).symm
    | segment =>
      exact (h.shown _ (.inr rfl)).trans ((canonical_segment hp).2 (hsegment hq)).symm

def notFound (t : Template) (path : QString) (statusCode : Int) (location : QString) : Answer :=
  ⟨statusCode, location, t.page path⟩

theorem probe_none_iff (t1 t2 path : QString) (c1 c2 r : Answer) (hr : r.statusCode = 200)
    (h1 : canonicalizeBody c1.body t1 = canonicalizeBody r.body path)
    (h2 : canonicalizeBody c2.body t2 = canonicalizeBody r.body path) :
    probeOne (calibrate t1 t2 c1 c2) path r = none ↔
      c1.statusCode = 200 ∨ c2.statusCode = 200 := by
  rw [probeOne, calibrate, h1, h2, classify, hr]
  simp only [List.mem_cons, List.not_mem_nil, or_false, decide_true, if_true, Bool.and_self,
    Int.reduceEq, or_self, if_false]
  rw [ite_eq_right_iff]
  simp only [reduceCtorEq, imp_false, not_not, eq_comm]

theorem echoed_page_recognised_iff {base rel : QString} (hb : Plain base) (hr : Plain rel)
    {t : Template} (hclean : ∀ s, Piece.text s ∈ t.pieces → Clean (full base rel) s)
    (d1 d2 : Fin 10 → Fin 16) (s1 s2 : Int) (l1 l2 l : QString) :
    (canonicalizeBody (t.page (full base (randToken d1))) (full base (randToken d1)) =
        canonicalizeBody (t.page (full base rel)) (full base rel) ∧
      canonicalizeBody (t.page (full base (randToken d2))) (full base (randToken d2)) =
        canonicalizeBody (t.page (full base rel)) (full base rel) ∧
      probeOne (calibrate (full base (randToken d1)) (full base (randToken d2))
        (notFound t (full base (randToken d1)) s1 l1) (notFound t (full base (randToken d2)) s2 l2))
        (full base rel) (notFound t (full base rel) 200 l) = none) ↔
    (s1 = 200 ∨ s2 = 200) ∧
      (∀ s, Piece.text s ∈ t.pieces →
        Clean (full base (randToken d1)) s ∧ Clean (full base (randToken d2)) s) ∧
      Masked t (full base rel) := by
  have hp := hb.full hr
  have e1 := token_page_iff (token_made hb d1) hp hclean
  have e2 := token_page_iff (token_made hb d2) hp hclean
  constructor
  · rintro ⟨h1, h2, hn⟩
    have hs := (probe_none_iff _ _ (full base rel) _ _ (notFound t (full base rel) 200 l) rfl
      h1 h2).1 hn
    exact ⟨hs, fun s hm => ⟨(e1.1 h1).1 s hm, (e2.1 h2).1 s hm⟩, (e1.1 h1).2⟩
  · rintro ⟨hs, htexts, hmasked⟩
    have h1 := e1.2 ⟨fun s hm => (htexts s hm).1, hmasked⟩
    have h2 := e2.2 ⟨fun s hm => (htexts s hm).2, hmasked⟩
    exact ⟨h1, h2, (probe_none_iff _ _ _ _ _ _ rfl h1 h2).2 hs⟩

theorem dot_file_reported :
    ¬ ∀ (base rel : QString) (t : Template) (d1 d2 : Fin 10 → Fin 16), Plain base → Plain rel →
      (∀ s, Piece.text s ∈ t.pieces → Clean (full base rel) s) →
        canonicalizeBody (t.page (full base (randToken d1))) (full base (randToken d1)) =
            canonicalizeBody (t.page (full base rel)) (full base rel) ∧
          canonicalizeBody (t.page (full base (randToken d2))) (full base (randToken d2)) =
            canonicalizeBody (t.page (full base rel)) (full base rel) := by
  intro h
  have hgit := h [] (utf16 ".git") ⟨.text (utf16 "Missing"), [(⟨0x20, rfl⟩, .segment)]⟩
    (fun _ => 0) (fun _ => 1) (by decide) (by decide) (by
      intro s hs
      obtain rfl : s = utf16 "Missing" := by simpa [Template.pieces] using hs
      decide)
  exact absurd hgit.1 (by decide)

theorem echoed_admin_recognised :
    probeOne (calibrate (full [] (randToken fun _ => 0)) (full [] (randToken fun _ => 1))
      (notFound ⟨.path, [(⟨0x20, rfl⟩, .text (utf16 "is not here"))]⟩
        (full [] (randToken fun _ => 0)) 200 [])
      (notFound ⟨.path, [(⟨0x20, rfl⟩, .text (utf16 "is not here"))]⟩
        (full [] (randToken fun _ => 1)) 200 []))
      (full [] (utf16 "admin"))
      (notFound ⟨.path, [(⟨0x20, rfl⟩, .text (utf16 "is not here"))]⟩
        (full [] (utf16 "admin")) 200 []) = none := by
  have htext {P : QString → Prop} (h : P (utf16 "is not here")) : ∀ s, Piece.text s ∈
      (⟨.path, [(⟨0x20, rfl⟩, .text (utf16 "is not here"))]⟩ : Template).pieces → P s := by
    intro s hs
    obtain rfl : s = utf16 "is not here" := by simpa [Template.pieces] using hs
    exact h
  exact ((echoed_page_recognised_iff (by decide) (by decide) (htext (by decide))
    (fun _ => 0) (fun _ => 1) 200 200 [] [] []).2
      ⟨.inl rfl, htext (by decide), by decide⟩).2.2

end Nullock.ContentDiscovery

import Nullock.Transcode

namespace Nullock.SecretScanner

structure Pattern where
  type : String
  severity : String
  entropyGated : Bool
deriving DecidableEq

def patterns : List Pattern :=
  [⟨"private-key-block", "critical", false⟩, ⟨"aws-access-key-id", "high", false⟩,
    ⟨"google-api-key", "high", false⟩, ⟨"stripe-secret-key", "high", false⟩,
    ⟨"github-token", "high", false⟩, ⟨"github-pat", "high", false⟩,
    ⟨"slack-token", "high", false⟩, ⟨"sendgrid-key", "high", false⟩,
    ⟨"npm-token", "high", false⟩, ⟨"twilio-account-sid", "low", false⟩,
    ⟨"json-web-token", "low", false⟩, ⟨"assigned-secret", "medium", true⟩]

structure Span where
  start : Nat
  length : Nat
deriving DecidableEq

/-- The secrets that a pattern captures, and the two tests of a secret. -/
structure SecretLibrary where
  captured : Pattern → QString → List Span
  looksPlaceholder : QString → Bool
  lowEntropy : QString → Bool

structure Hit where
  type : String
  severity : String
  location : QString
  masked : QString
  context : QString
deriving DecidableEq

def acceptSecret (L : SecretLibrary) (value : QString) (entropyGated : Bool) : Bool :=
  !value.isEmpty && !L.looksPlaceholder value && !(entropyGated && L.lowEntropy value)

def lengthNote (n : Nat) : QString :=
  utf16 "(len " ++ fromLatin1 (QByteArray.number n) ++ utf16 ")"

def mask (secret : QString) : QString :=
  if secret.length ≤ 8 then utf16 "…" ++ lengthNote secret.length
  else
    secret.take 4 ++ (utf16 "…" ++ (secret.drop (secret.length - 2) ++
      (utf16 " " ++ lengthNote secret.length)))

def slice (s : QString) (pos n : Nat) : QString := (s.drop pos).take n

def Span.text (sp : Span) (body : QString) : QString := slice body sp.start sp.length

def Span.hit (sp : Span) (p : Pattern) (body location : QString) : Hit :=
  let secret := sp.text body
  let secEnd := sp.start + secret.length
  let pre := slice body (sp.start - 12) (sp.start - (sp.start - 12))
  let post := slice body secEnd 12
  { type := p.type
    severity := p.severity
    location := location
    masked := mask secret
    context := QString.simplified (pre ++ (mask secret ++ post)) }

def accepted (L : SecretLibrary) (p : Pattern) (body : QString) : List Span :=
  (L.captured p body).filter (fun sp => acceptSecret L (sp.text body) p.entropyGated)

def scanText (L : SecretLibrary) (body location : QString) : List Hit :=
  patterns.flatMap (fun p => (accepted L p body).map (fun sp => sp.hit p body location))

/-- A character of a secret beyond the first four and in front of the last two. -/
def Span.Hides (sp : Span) (q : Nat) : Prop := sp.start + 4 ≤ q ∧ q + 2 < sp.start + sp.length

def Span.Shows (sp : Span) (q : Nat) : Prop :=
  (sp.start ≤ q + 12 ∧ q < sp.start) ∨
    (sp.start + sp.length ≤ q ∧ q < sp.start + sp.length + 12) ∨
      8 < sp.length ∧ ((sp.start ≤ q ∧ q < sp.start + 4) ∨
        (sp.start + sp.length ≤ q + 2 ∧ q < sp.start + sp.length))

section
variable (spans : Pattern → List Span)

def HiddenAt (q : Nat) : Prop := ∃ p ∈ patterns, ∃ sp ∈ spans p, sp.Hides q

def SameOutside (b b' : QString) : Prop := ∀ q, ¬HiddenAt spans q → b[q]? = b'[q]?

/-- Bodies that differ within their secrets only are reported alike. -/
def Undisclosed (n : Nat) : Prop :=
  ∀ (L : SecretLibrary) (b b' location : QString), b.length = n → b'.length = n →
    (∀ p ∈ patterns, accepted L p b = spans p) → (∀ p ∈ patterns, accepted L p b' = spans p) →
      SameOutside spans b b' → scanText L b location = scanText L b' location

end

theorem slice_congr {b b' : QString} {pos n : Nat}
    (h : ∀ q, pos ≤ q → q < pos + n → b[q]? = b'[q]?) : slice b pos n = slice b' pos n := by
  apply List.ext_getElem?
  intro i
  rw [slice, slice, List.getElem?_take, List.getElem?_take]
  split
  · rw [List.getElem?_drop, List.getElem?_drop]
    exact h _ (Nat.le_add_right _ _) (by omega)
  · rfl

theorem slice_take (b : QString) {k n : Nat} (h : k ≤ n) (pos : Nat) :
    (slice b pos n).take k = slice b pos k := by
  rw [slice, List.take_take, Nat.min_eq_left h, slice]

theorem slice_drop (b : QString) {k n : Nat} (pos : Nat) :
    (slice b pos n).drop k = slice b (pos + k) (n - k) := by
  rw [slice, List.drop_take, List.drop_drop, slice]

theorem length_slice {b : QString} {pos n : Nat} (h : pos + n ≤ b.length) :
    (slice b pos n).length = n := by
  rw [slice, List.length_take, List.length_drop]
  omega

theorem mask_text {sp : Span} {b : QString} (h : sp.start + sp.length ≤ b.length) :
    mask (sp.text b) =
      if sp.length ≤ 8 then utf16 "…" ++ lengthNote sp.length
      else
        slice b sp.start 4 ++ (utf16 "…" ++ (slice b (sp.start + sp.length - 2) 2 ++
          (utf16 " " ++ lengthNote sp.length))) := by
  have hlen : (sp.text b).length = sp.length := length_slice h
  rw [mask, hlen]
  split
  · rfl
  · rename_i hlong
    have hpos : sp.start + (sp.length - 2) = sp.start + sp.length - 2 := by omega
    have htwo : sp.length - (sp.length - 2) = 2 := by omega
    rw [Span.text, slice_take b (by omega), slice_drop, hpos, htwo]

theorem hit_congr {sp : Span} {b b' : QString} (hb : sp.start + sp.length ≤ b.length)
    (hb' : sp.start + sp.length ≤ b'.length) (h : ∀ q, sp.Shows q → b[q]? = b'[q]?)
    (p : Pattern) (location : QString) : sp.hit p b location = sp.hit p b' location := by
  have hpre : slice b (sp.start - 12) (sp.start - (sp.start - 12)) =
      slice b' (sp.start - 12) (sp.start - (sp.start - 12)) :=
    slice_congr fun q hlow hhigh => h q (.inl ⟨by omega, by omega⟩)
  have hpost : slice b (sp.start + sp.length) 12 = slice b' (sp.start + sp.length) 12 :=
    slice_congr fun q hlow hhigh => h q (.inr (.inl ⟨hlow, hhigh⟩))
  have hmask : mask (sp.text b) = mask (sp.text b') := by
    rw [mask_text hb, mask_text hb']
    split
    · rfl
    · rename_i hlong
      have hfront : slice b sp.start 4 = slice b' sp.start 4 :=
        slice_congr fun q hlow hhigh => h q (.inr (.inr ⟨by omega, .inl ⟨hlow, hhigh⟩⟩))
      have hback : slice b (sp.start + sp.length - 2) 2 = slice b' (sp.start + sp.length - 2) 2 :=
        slice_congr fun q hlow hhigh =>
          h q (.inr (.inr ⟨by omega, .inr ⟨by omega, by omega⟩⟩))
      rw [hfront, hback]
  have hlen : (sp.text b).length = sp.length := length_slice hb
  have hlen' : (sp.text b').length = sp.length := length_slice hb'
  rw [Span.hit, Span.hit, hlen, hlen', hpre, hpost, hmask]

def Apart (spans : Pattern → List Span) (n : Nat) : Prop :=
  ∀ p ∈ patterns, ∀ sp ∈ spans p, ∀ q < n, HiddenAt spans q → ¬sp.Shows q

def Inside (spans : Pattern → List Span) (n : Nat) : Prop :=
  ∀ p ∈ patterns, ∀ sp ∈ spans p, sp.start + sp.length ≤ n ∧ 0 < sp.length

theorem scanText_eq {L : SecretLibrary} {spans : Pattern → List Span} {b : QString}
    (h : ∀ p ∈ patterns, accepted L p b = spans p) (location : QString) :
    scanText L b location =
      patterns.flatMap (fun p => (spans p).map (fun sp => sp.hit p b location)) := by
  rw [scanText]
  apply List.flatMap_congr
  intro p hp
  rw [h p hp]

theorem undisclosed_of_apart {spans : Pattern → List Span} (hin : Inside spans n)
    (h : Apart spans n) : Undisclosed spans n := by
  intro L b b' location hb hb' hspans hspans' hsame
  rw [scanText_eq hspans, scanText_eq hspans']
  apply List.flatMap_congr
  intro p hp
  apply List.map_congr_left
  intro sp hsp
  have hfit := (hin p hp sp hsp).1
  apply hit_congr (hb ▸ hfit) (hb' ▸ hfit)
  intro q hshows
  by_cases hq : q < n
  · exact hsame q (fun hhidden => h p hp sp hsp q hq hhidden hshows)
  · rw [List.getElem?_eq_none (by omega), List.getElem?_eq_none (by omega)]

def visible (s : QString) : QString := s.filter (fun c => !isSpace c)

theorem visible_append (a b : QString) : visible (a ++ b) = visible a ++ visible b :=
  List.filter_append a b

theorem visible_intercalate (parts : List QString) :
    visible ([0x20].intercalate parts) = (parts.map visible).flatten := by
  induction parts with
  | nil => rfl
  | cons a parts ih =>
    cases parts with
    | nil => simp
    | cons b parts =>
      have hblank : visible [0x20] = [] := by decide
      rw [List.intercalate_cons_cons, visible_append, visible_append, ih, hblank, List.append_nil]
      rfl

theorem visible_simplified (s : QString) : visible (QString.simplified s) = visible s := by
  have hkeep (parts : List QString) :
      ((parts.filter (fun part => !part.isEmpty)).map visible).flatten =
        (parts.map visible).flatten := by
    induction parts with
    | nil => rfl
    | cons a parts ih =>
      cases a with
      | nil => exact ih
      | cons c a =>
        rw [List.filter_cons_of_pos rfl, List.map_cons, List.map_cons, List.flatten_cons,
          List.flatten_cons, ih]
  have hblank (t : QString) : visible (t.map (fun c => if isSpace c then 0x20 else c)) =
      visible t := by
    induction t with
    | nil => rfl
    | cons c t ih =>
      rw [List.map_cons, visible, visible]
      cases hc : isSpace c with
      | true =>
        rw [if_pos rfl, List.filter_cons_of_neg (by decide), List.filter_cons_of_neg (by simp [hc])]
        exact ih
      | false =>
        rw [if_neg Bool.false_ne_true, List.filter_cons_of_pos (by simp [hc]),
          List.filter_cons_of_pos (by simp [hc])]
        exact congrArg (c :: ·) ih
  rw [QString.simplified, visible_intercalate, hkeep, ← visible_intercalate,
    List.intercalate_splitOn, hblank]

theorem hits_inj {f g : Pattern → Span → Hit} {spans : Pattern → List Span} {ps : List Pattern}
    (h : ps.flatMap (fun p => (spans p).map (f p)) = ps.flatMap (fun p => (spans p).map (g p))) :
    ∀ p ∈ ps, ∀ sp ∈ spans p, f p sp = g p sp := by
  induction ps with
  | nil => exact fun p hp => absurd hp List.not_mem_nil
  | cons p ps ih =>
    rw [List.flatMap_cons, List.flatMap_cons] at h
    obtain ⟨hfirst, hrest⟩ := List.append_inj h (by rw [List.length_map, List.length_map])
    exact List.forall_mem_cons.2 ⟨List.map_inj_left.1 hfirst, ih hrest⟩

def letters (n : Nat) : QString := List.replicate n 0x78

def lettersBut (n q : Nat) : QString := (letters n).set q 0x79

theorem slice_letters {n q pos k : Nat} (hq : q < n) (hlow : pos ≤ q) (hhigh : q < pos + k) :
    slice (letters n) pos k ≠ slice (lettersBut n q) pos k := by
  intro h
  have hat := congrArg (·[q - pos]?) h
  simp only [slice, List.getElem?_take, List.getElem?_drop] at hat
  rw [if_pos (by omega), if_pos (by omega), Nat.add_sub_cancel' hlow, lettersBut,
    List.getElem?_set_self (by rw [letters, List.length_replicate]; exact hq), letters,
    List.getElem?_replicate, if_pos hq] at hat
  cases hat

theorem visible_slice {b : QString} (h : ∀ c ∈ b, c = 0x78 ∨ c = 0x79) (pos k : Nat) :
    visible (slice b pos k) = slice b pos k := by
  apply List.filter_eq_self.2
  intro c hc
  rcases h c (List.mem_of_mem_drop (List.mem_of_mem_take hc)) with rfl | rfl
  · decide
  · decide

/-- Bodies of the two letters that have the same context of a secret are the same there. -/
theorem shown_slices {sp : Span} {b b' : QString} {n : Nat} (hb : b.length = n)
    (hb' : b'.length = n) (hx : ∀ c ∈ b, c = 0x78 ∨ c = 0x79) (hx' : ∀ c ∈ b', c = 0x78 ∨ c = 0x79)
    (hfit : sp.start + sp.length ≤ n) (p : Pattern) (location : QString)
    (h : (sp.hit p b location).context = (sp.hit p b' location).context) :
    slice b (sp.start - 12) (sp.start - (sp.start - 12)) =
        slice b' (sp.start - 12) (sp.start - (sp.start - 12)) ∧
      slice b (sp.start + sp.length) 12 = slice b' (sp.start + sp.length) 12 ∧
        (8 < sp.length → slice b sp.start 4 = slice b' sp.start 4 ∧
          slice b (sp.start + sp.length - 2) 2 = slice b' (sp.start + sp.length - 2) 2) := by
  have hlen : (sp.text b).length = sp.length := length_slice (hb ▸ hfit)
  have hlen' : (sp.text b').length = sp.length := length_slice (hb' ▸ hfit)
  have hsame (pos k : Nat) : (slice b pos k).length = (slice b' pos k).length := by
    rw [slice, slice, List.length_take, List.length_take, List.length_drop, List.length_drop, hb,
      hb']
  have hseen := congrArg visible h
  rw [Span.hit, Span.hit, hlen, hlen', visible_simplified, visible_simplified, visible_append,
    visible_append, visible_append, visible_append, visible_slice hx, visible_slice hx,
    visible_slice hx', visible_slice hx', mask_text (hb ▸ hfit), mask_text (hb' ▸ hfit)] at hseen
  obtain ⟨hpre, hrest⟩ := List.append_inj hseen (hsame _ _)
  by_cases hshort : sp.length ≤ 8
  · rw [if_pos hshort, if_pos hshort] at hrest
    exact ⟨hpre, List.append_cancel_left hrest, fun hlong => absurd hshort (Nat.not_le.2 hlong)⟩
  · rw [if_neg hshort, if_neg hshort] at hrest
    simp only [visible_append, visible_slice hx, visible_slice hx', List.append_assoc] at hrest
    obtain ⟨hfront, hrest⟩ := List.append_inj hrest (hsame _ _)
    obtain ⟨hback, hrest⟩ := List.append_inj (List.append_cancel_left hrest) (hsame _ _)
    have hpost := List.append_cancel_left (List.append_cancel_left hrest)
    exact ⟨hpre, hpost, fun _ => ⟨hfront, hback⟩⟩

theorem apart_of_undisclosed {spans : Pattern → List Span} (hin : Inside spans n)
    (h : Undisclosed spans n) : Apart spans n := by
  intro p hp sp hsp q hq hhidden hshows
  have hlength : (lettersBut n q).length = n := by
    rw [lettersBut, List.length_set, letters, List.length_replicate]
  have hacc (b : QString) (hb : b.length = n) : ∀ p ∈ patterns,
      accepted ⟨fun p _ => spans p, fun _ => false, fun _ => false⟩ p b = spans p := by
    intro p hp
    apply List.filter_eq_self.2
    intro sp hsp
    obtain ⟨hfit, hpos⟩ := hin p hp sp hsp
    have hne : (sp.text b).isEmpty = false := by
      rw [List.isEmpty_eq_false_iff, ← List.length_pos_iff, Span.text, length_slice (hb ▸ hfit)]
      exact hpos
    simp [acceptSecret, hne]
  have hother : ∀ r, ¬HiddenAt spans r → (letters n)[r]? = (lettersBut n q)[r]? := by
    intro r hr
    have hne : q ≠ r := fun he => hr (he ▸ hhidden)
    rw [lettersBut, List.getElem?_set_ne hne]
  have hx : ∀ c ∈ letters n, c = 0x78 ∨ c = 0x79 := fun c hc => .inl (List.eq_of_mem_replicate hc)
  have hx' : ∀ c ∈ lettersBut n q, c = 0x78 ∨ c = 0x79 := by
    intro c hc
    rcases List.mem_or_eq_of_mem_set hc with hc | rfl
    · exact hx c hc
    · exact .inr rfl
  have hscan := h ⟨fun p _ => spans p, fun _ => false, fun _ => false⟩ (letters n)
    (lettersBut n q) [] List.length_replicate hlength (hacc _ List.length_replicate)
    (hacc _ hlength) hother
  rw [scanText_eq (hacc (letters n) List.length_replicate), scanText_eq (hacc _ hlength)] at hscan
  have hfit := (hin p hp sp hsp).1
  have hcontext := congrArg Hit.context (hits_inj hscan p hp sp hsp)
  obtain ⟨hpre, hpost, hmask⟩ :=
    shown_slices List.length_replicate hlength hx hx' hfit p [] hcontext
  rcases hshows with hshown | hshown | ⟨hlong, hshown | hshown⟩
  · exact slice_letters hq (by omega) (by omega) hpre
  · exact slice_letters hq hshown.1 hshown.2 hpost
  · exact slice_letters hq hshown.1 hshown.2 (hmask hlong).1
  · exact slice_letters hq (by omega) (by omega) (hmask hlong).2

/-- A report discloses nothing exactly when no hit shows a character within a secret. -/
theorem undisclosed_iff (spans : Pattern → List Span) (n : Nat) (hin : Inside spans n) :
    Undisclosed spans n ↔ Apart spans n :=
  ⟨apart_of_undisclosed hin, undisclosed_of_apart hin⟩

def neighbours (p : Pattern) : List Span :=
  if p.type = "aws-access-key-id" then [⟨0, 20⟩]
  else if p.type = "github-token" then [⟨21, 40⟩]
  else []

def oneKey (p : Pattern) : List Span := if p.type = "aws-access-key-id" then [⟨0, 20⟩] else []

theorem undisclosed_one_key : Undisclosed oneKey 20 := by
  have hspan (p : Pattern) (sp : Span) (h : sp ∈ oneKey p) : sp = ⟨0, 20⟩ := by
    rw [oneKey] at h
    split at h
    · exact List.mem_singleton.1 h
    · cases h
  have hin : Inside oneKey 20 := by
    intro p _ sp hsp
    rw [hspan p sp hsp]
    decide
  refine (undisclosed_iff oneKey 20 hin).2 ?_
  rintro p _ sp hsp q _ ⟨p', _, sp', hsp', hhides⟩ hshows
  rw [hspan p' sp' hsp', Span.Hides] at hhides
  rw [hspan p sp hsp, Span.Shows] at hshows
  dsimp only at hhides hshows
  omega

theorem neighbours_disclosed : ¬∀ spans n, Inside spans n → Undisclosed spans n := by
  intro h
  have hin : Inside neighbours 61 := by
    intro p _ sp hsp
    rw [neighbours] at hsp
    split at hsp
    · rw [List.mem_singleton.1 hsp]
      decide
    · split at hsp
      · rw [List.mem_singleton.1 hsp]
        decide
      · cases hsp
  have hapart := apart_of_undisclosed hin (h neighbours 61 hin)
  have hhidden : HiddenAt neighbours 25 :=
    ⟨⟨"github-token", "high", false⟩, by decide, ⟨21, 40⟩, by decide, by decide, by decide⟩
  refine hapart ⟨"aws-access-key-id", "high", false⟩ (by decide) ⟨0, 20⟩ (by decide) 25 (by decide)
    hhidden ?_
  exact .inr (.inl ⟨by decide, by decide⟩)

end Nullock.SecretScanner

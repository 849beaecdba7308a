import Nullock.Scanning

namespace Nullock.Fillings

section
variable {α : Type} [DecidableEq α]

inductive Piece (α : Type) where
  | text (c : α)
  | put (v : List α)
deriving DecidableEq

def Piece.chars : Piece α → List α
  | .text c => [c]
  | .put v => v

def flatten (P : List (Piece α)) : List α := P.flatMap Piece.chars

def fillFrom (values : List (List α × List α)) : Nat → List (Piece α) → List (Piece α)
  | _, [] => []
  | skip + 1, _ :: P => fillFrom values skip P
  | 0, x :: P =>
    match values.find? (fun kv => (kv.1.map Piece.text).isPrefixOf (x :: P)) with
    | some kv => .put kv.2 :: fillFrom values (kv.1.length - 1) P
    | none => x :: fillFrom values 0 P

def fill (values : List (List α × List α)) (s : List α) : List α :=
  flatten (fillFrom values 0 (s.map Piece.text))

def Apart (t u : List α) : Prop :=
  ∀ k, 0 < k → k < u.length → ∃ i c d, t[i]? = some c ∧ u[k + i]? = some d ∧ c ≠ d

def Clear (t : List α) : List (Piece α) → Prop
  | [] => True
  | .text c :: P =>
    (t <+: c :: flatten P → t.map Piece.text <+: (.text c :: P : List (Piece α))) ∧ Clear t P
  | .put w :: P => (∀ i < w.length, ¬ t <+: w.drop i ++ flatten P) ∧ Clear t P

def NothingRead : List (List α × List α) → List (Piece α) → Prop
  | [], _ => True
  | kv :: values, P => Clear kv.1 P ∧ NothingRead values (fillFrom [kv] 0 P)

instance decidableClear (t : List α) : (P : List (Piece α)) → Decidable (Clear t P)
  | [] => .isTrue trivial
  | .text c :: P =>
    have := decidableClear t P
    inferInstanceAs (Decidable
      ((t <+: c :: flatten P → t.map Piece.text <+: (.text c :: P : List (Piece α))) ∧ Clear t P))
  | .put w :: P =>
    have := decidableClear t P
    inferInstanceAs (Decidable ((∀ i < w.length, ¬ t <+: w.drop i ++ flatten P) ∧ Clear t P))

instance decidableNothingRead : (values : List (List α × List α)) → (P : List (Piece α)) →
    Decidable (NothingRead values P)
  | [], _ => .isTrue trivial
  | kv :: values, P =>
    have := decidableNothingRead values (fillFrom [kv] 0 P)
    inferInstanceAs (Decidable (Clear kv.1 P ∧ NothingRead values (fillFrom [kv] 0 P)))

omit [DecidableEq α] in
theorem flatten_cons_text (c : α) (P : List (Piece α)) : flatten (.text c :: P) = c :: flatten P :=
  rfl

omit [DecidableEq α] in
theorem flatten_cons_put (w : List α) (P : List (Piece α)) :
    flatten (.put w :: P) = w ++ flatten P := rfl

omit [DecidableEq α] in
theorem flatten_text (s : List α) (P : List (Piece α)) :
    flatten (s.map Piece.text ++ P) = s ++ flatten P := by
  induction s with
  | nil => rfl
  | cons c s ih => exact congrArg (c :: ·) ih

theorem fillFrom_drop (values : List (List α × List α)) (n : Nat) (P : List (Piece α)) :
    fillFrom values n P = fillFrom values 0 (P.drop n) := by
  induction P generalizing n with
  | nil => rw [List.drop_nil, fillFrom, fillFrom]
  | cons x P ih =>
    cases n with
    | zero => rfl
    | succ n => exact ih n

theorem fillFrom_nil (P : List (Piece α)) : fillFrom [] 0 P = P := by
  induction P with
  | nil => rfl
  | cons x P ih => exact congrArg (x :: ·) ih

theorem fillFrom_token {values : List (List α × List α)} {x : Piece α}
    (h : values.find? (fun kv => (kv.1.map Piece.text).isPrefixOf (x :: P)) = some kv) :
    fillFrom values 0 (x :: P) = .put kv.2 :: fillFrom values 0 (P.drop (kv.1.length - 1)) := by
  rw [fillFrom, h]
  exact congrArg _ (fillFrom_drop values _ P)

theorem fillFrom_skip {values : List (List α × List α)} {x : Piece α}
    (h : values.find? (fun kv => (kv.1.map Piece.text).isPrefixOf (x :: P)) = none) :
    fillFrom values 0 (x :: P) = x :: fillFrom values 0 P := by
  rw [fillFrom, h]

theorem one_token {x : Piece α} (h : kv.1.map Piece.text <+: x :: P) :
    fillFrom [kv] 0 (x :: P) = .put kv.2 :: fillFrom [kv] 0 (P.drop (kv.1.length - 1)) := by
  apply fillFrom_token
  rw [List.find?_cons, List.isPrefixOf_iff_prefix.2 h]

theorem one_skip {x : Piece α} (h : ¬ kv.1.map Piece.text <+: x :: P) :
    fillFrom [kv] 0 (x :: P) = x :: fillFrom [kv] 0 P := by
  apply fillFrom_skip
  rw [List.find?_cons, Bool.eq_false_iff.2 (mt List.isPrefixOf_iff_prefix.1 h), List.find?_nil]

/-! ### One token after the other -/

theorem prefix_of_one (s : List α) (h : s.map Piece.text <+: fillFrom [kv] 0 P) :
    s.map Piece.text <+: P := by
  induction s generalizing P with
  | nil => exact List.nil_prefix
  | cons c s ih =>
    cases P with
    | nil => exact h
    | cons x P =>
      by_cases hk : kv.1.map Piece.text <+: x :: P
      · rw [one_token hk] at h
        exact absurd (List.cons_prefix_cons.1 h).1 nofun
      · rw [one_skip hk] at h
        obtain ⟨hx, hs⟩ := List.cons_prefix_cons.1 h
        exact List.cons_prefix_cons.2 ⟨hx, ih hs⟩

theorem one_copies {s : List α} (h : ∀ i < s.length,
      ¬ kv.1.map Piece.text <+: (s.drop i).map Piece.text ++ P) :
    fillFrom [kv] 0 (s.map Piece.text ++ P) = s.map Piece.text ++ fillFrom [kv] 0 P := by
  induction s with
  | nil => rfl
  | cons c s ih =>
    have hhere : ¬ kv.1.map Piece.text <+: .text c :: (s.map Piece.text ++ P) :=
      h 0 (Nat.succ_pos _)
    rw [List.map_cons, List.cons_append, one_skip hhere,
      ih (fun i hi => h (i + 1) (Nat.succ_lt_succ hi))]
    rfl

omit [DecidableEq α] in
theorem Apart.not_begins {t u : List α} (h : Apart t u) (hk : 0 < k) (hlt : k < u.length)
    (P : List (Piece α)) : ¬ t.map Piece.text <+: (u.drop k).map Piece.text ++ P := by
  intro hp
  obtain ⟨i, c, d, hc, hd, hne⟩ := h k hk hlt
  have hleft : (t.map Piece.text : List (Piece α))[i]? = some (.text c) := by
    rw [List.getElem?_map, hc]
    rfl
  have hright : ((u.drop k).map Piece.text ++ P : List (Piece α))[i]? = some (.text d) := by
    have hsome : ((u.drop k).map Piece.text : List (Piece α))[i]? = some (.text d) := by
      rw [List.getElem?_map, List.getElem?_drop, hd]
      rfl
    obtain ⟨hlen, -⟩ := List.getElem?_eq_some_iff.1 hsome
    rw [List.getElem?_append_left hlen, hsome]
  obtain ⟨rest, hrest⟩ := hp
  obtain ⟨hlen, -⟩ := List.getElem?_eq_some_iff.1 hleft
  rw [← hrest, List.getElem?_append_left hlen, hleft] at hright
  cases hright
  exact hne rfl

theorem prefix_one_iff {x : Piece α} (hk : ¬ kv.1.map Piece.text <+: x :: P) {u : List α}
    (h : Apart kv.1 u) :
    u.map Piece.text <+: x :: fillFrom [kv] 0 P ↔ u.map Piece.text <+: x :: P := by
  constructor
  · intro hu
    rw [← one_skip hk] at hu
    exact prefix_of_one u hu
  · rintro ⟨R, hR⟩
    cases u with
    | nil => exact List.nil_prefix
    | cons c u =>
      rw [List.map_cons, List.cons_append] at hR
      cases hR
      rw [one_copies (fun i hi => h.not_begins (k := i + 1) (Nat.succ_pos i)
        (Nat.succ_lt_succ hi) R)]
      exact ⟨_, rfl⟩

theorem drop_one {x : Piece α} {u : List α} (hu : u.map Piece.text <+: x :: P) (hne : u ≠ [])
    (h : Apart kv.1 u) : (fillFrom [kv] 0 P).drop (u.length - 1) =
      fillFrom [kv] 0 (P.drop (u.length - 1)) := by
  obtain ⟨R, hR⟩ := hu
  cases u with
  | nil => exact absurd rfl hne
  | cons c u =>
    rw [List.map_cons, List.cons_append] at hR
    cases hR
    have hlen : (c :: u).length - 1 = (u.map Piece.text : List (Piece α)).length := by simp
    rw [one_copies (fun i hi => h.not_begins (k := i + 1) (Nat.succ_pos i)
      (Nat.succ_lt_succ hi) R), hlen, List.drop_left, List.drop_left]

theorem find_put {values : List (List α × List α)} (hne : ∀ kv ∈ values, kv.1 ≠ [])
    (w : List α) (P : List (Piece α)) :
    values.find? (fun kv => (kv.1.map Piece.text).isPrefixOf (.put w :: P)) = none := by
  rw [List.find?_eq_none]
  intro kv hkv hp
  cases hk : kv.1 with
  | nil => exact hne kv hkv hk
  | cons c t =>
    rw [List.isPrefixOf_iff_prefix, hk] at hp
    exact absurd (List.cons_prefix_cons.1 hp).1 nofun

theorem fillFrom_cons {values : List (List α × List α)} (hne : ∀ u ∈ values, u.1 ≠ [])
    (h : ∀ u ∈ values, Apart kv.1 u.1) (P : List (Piece α)) :
    fillFrom (kv :: values) 0 P = fillFrom values 0 (fillFrom [kv] 0 P) := by
  induction hn : P.length using Nat.strong_induction_on generalizing P with
  | _ n ih =>
    cases P with
    | nil => rfl
    | cons x P =>
      have hrest : ∀ k, fillFrom (kv :: values) 0 (P.drop k) =
          fillFrom values 0 (fillFrom [kv] 0 (P.drop k)) := by
        intro k
        refine ih (P.drop k).length ?_ _ rfl
        rw [← hn, List.length_cons, List.length_drop]
        omega
      by_cases hk : kv.1.map Piece.text <+: x :: P
      · rw [one_token hk, fillFrom_skip (find_put hne _ _), ← hrest]
        apply fillFrom_token
        rw [List.find?_cons, List.isPrefixOf_iff_prefix.2 hk]
      · have hfind : (kv :: values).find? (fun u => (u.1.map Piece.text).isPrefixOf (x :: P)) =
            values.find? (fun u => (u.1.map Piece.text).isPrefixOf (x :: P)) := by
          rw [List.find?_cons, Bool.eq_false_iff.2 (mt List.isPrefixOf_iff_prefix.1 hk)]
        have hsame : values.find? (fun u => (u.1.map Piece.text).isPrefixOf
              (x :: fillFrom [kv] 0 P)) =
            values.find? (fun u => (u.1.map Piece.text).isPrefixOf (x :: P)) := by
          apply List.find?_congr
          intro u hu
          rw [Bool.eq_iff_iff, List.isPrefixOf_iff_prefix, List.isPrefixOf_iff_prefix,
            prefix_one_iff hk (h u hu)]
        rw [one_skip hk]
        cases hv : values.find? (fun u => (u.1.map Piece.text).isPrefixOf (x :: P)) with
        | none =>
          rw [fillFrom_skip (hfind.trans hv), fillFrom_skip (hsame.trans hv)]
          exact congrArg (x :: ·) (hrest 0)
        | some u =>
          have hu := List.mem_of_find?_eq_some hv
          have hp : u.1.map Piece.text <+: x :: P := List.isPrefixOf_iff_prefix.1
            (List.find?_some (p := fun u : List α × List α =>
              (u.1.map Piece.text).isPrefixOf (x :: P)) hv)
          rw [fillFrom_token (hfind.trans hv), fillFrom_token (hsame.trans hv), hrest,
            drop_one hp (hne u hu) (h u hu)]

/-! ### Replacement in the text itself -/

theorem replaceFrom_drop (before after : List α) (n : Nat) (s : List α) :
    replaceFrom before after n s = replaceAll before after (s.drop n) := by
  induction s generalizing n with
  | nil => rw [List.drop_nil, replaceAll, replaceFrom, replaceFrom]
  | cons c s ih =>
    cases n with
    | zero => rfl
    | succ n => exact ih n

theorem replaceAll_found {before : List α} (h : before <+: c :: s) (after : List α) :
    replaceAll before after (c :: s) =
      after ++ replaceAll before after (s.drop (before.length - 1)) := by
  rw [replaceAll, replaceFrom, if_pos (List.isPrefixOf_iff_prefix.2 h), replaceFrom_drop]

theorem replaceAll_copied {before w : List α} (after : List α) {s : List α}
    (h : ∀ i < w.length, ¬ before <+: w.drop i ++ s) :
    replaceAll before after (w ++ s) = w ++ replaceAll before after s := by
  induction w with
  | nil => rfl
  | cons c w ih =>
    have hhere : ¬ before <+: c :: (w ++ s) := h 0 (Nat.succ_pos _)
    rw [List.cons_append, replaceAll, replaceFrom,
      if_neg (mt List.isPrefixOf_iff_prefix.1 hhere), ← replaceAll,
      ih (fun i hi => h (i + 1) (Nat.succ_lt_succ hi))]
    rfl

omit [DecidableEq α] in
theorem Clear.drop_text {t : List α} (s : List α) {P : List (Piece α)}
    (h : Clear t (s.map Piece.text ++ P)) : Clear t P := by
  induction s with
  | nil => exact h
  | cons c s ih => exact ih h.2

theorem flatten_one {t : List α} (v : List α) {P : List (Piece α)} (ht : t ≠ [])
    (h : Clear t P) : flatten (fillFrom [(t, v)] 0 P) = replaceAll t v (flatten P) := by
  induction hn : P.length using Nat.strong_induction_on generalizing P with
  | _ n ih =>
    cases P with
    | nil => rfl
    | cons x P =>
      have hlt : P.length < n := by rw [← hn]; exact Nat.lt_succ_self _
      cases x with
      | put w =>
        have hk : ¬ t.map Piece.text <+: (.put w :: P : List (Piece α)) := by
          cases t with
          | nil => exact absurd rfl ht
          | cons c t => exact fun hp => absurd (List.cons_prefix_cons.1 hp).1 nofun
        rw [one_skip hk, flatten_cons_put, flatten_cons_put, replaceAll_copied v h.1,
          ih P.length hlt h.2 rfl]
      | text c =>
        by_cases hk : t.map Piece.text <+: (.text c :: P : List (Piece α))
        · obtain ⟨R, hR⟩ := hk
          have hdrop : P.drop (t.length - 1) = R ∧
              (flatten P).drop (t.length - 1) = flatten R := by
            cases t with
            | nil => exact absurd rfl ht
            | cons d t =>
              rw [List.map_cons, List.cons_append] at hR
              cases hR
              have hlen : (c :: t).length - 1 = (t.map Piece.text : List (Piece α)).length := by
                simp
              refine ⟨by rw [hlen, List.drop_left], ?_⟩
              rw [flatten_text, List.length_cons, Nat.add_sub_cancel, List.drop_left]
          have htext : t <+: c :: flatten P := by
            rw [← flatten_cons_text, ← hR, flatten_text]
            exact ⟨_, rfl⟩
          have hclear : Clear t R := Clear.drop_text t (hR ▸ h)
          have hshort : R.length < n := by
            rw [← hn, ← hR, List.length_append, List.length_map]
            have := List.length_pos_iff.2 ht
            omega
          rw [one_token ⟨R, hR⟩, flatten_cons_put, flatten_cons_text, replaceAll_found htext,
            hdrop.1, hdrop.2, ih R.length hshort hclear rfl]
        · have htext : ¬ t <+: c :: flatten P := fun hp => hk (h.1 hp)
          have hcopy : replaceAll t v ([c] ++ flatten P) = [c] ++ replaceAll t v (flatten P) := by
            apply replaceAll_copied
            intro i hi
            rw [Nat.lt_one_iff.1 hi]
            exact htext
          rw [one_skip hk, flatten_cons_text, flatten_cons_text, ih P.length hlt h.2 rfl]
          exact hcopy.symm

theorem passes_fill {values : List (List α × List α)} (hne : ∀ u ∈ values, u.1 ≠ [])
    (h : values.Pairwise (fun t u => Apart t.1 u.1)) {P : List (Piece α)}
    (hread : NothingRead values P) :
    values.foldl (fun out kv => replaceAll kv.1 kv.2 out) (flatten P) =
      flatten (fillFrom values 0 P) := by
  induction values generalizing P with
  | nil => rw [fillFrom_nil]; rfl
  | cons kv values ih =>
    obtain ⟨hclear, hread⟩ := hread
    obtain ⟨hkv, hvalues⟩ := List.pairwise_cons.1 h
    have hrest : ∀ u ∈ values, u.1 ≠ [] := fun u hu => hne u (List.mem_cons_of_mem kv hu)
    rw [List.foldl_cons, ← flatten_one kv.2 (hne kv List.mem_cons_self) hclear,
      fillFrom_cons hrest hkv]
    exact ih hrest hvalues hread

end

end Nullock.Fillings

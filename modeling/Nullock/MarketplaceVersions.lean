import Nullock.Marketplace

namespace Nullock.MarketplaceLogic
open UpdateLogic

/-- Two versions are told apart as their precedence says, wherever they are compared. -/
structure Exact (m n : Bool) (v w : Semver) : Prop where
  ordered : compareSemver (v.text m) (w.text n) = orderSign (v.precedence w)
  reversed : compareSemver (w.text n) (v.text m) = -compareSemver (v.text m) (w.text n)
  transitive : ∀ (k : Bool) (u : Semver), compareSemver (v.text m) (w.text n) ≤ 0 →
    compareSemver (w.text n) (u.text k) ≤ 0 → compareSemver (v.text m) (u.text k) ≤ 0
  equal : compareSemver (v.text m) (w.text n) = 0 ↔ v.core = w.core ∧ v.pre = w.pre
  update : ∀ (catalog : Catalog) files versions current (i : Nat) (e : CatalogEntry),
    catalog.entries[i]? = some e → e.id ∈ installedIds files → versionOf versions e.id = v.text m →
    e.version = w.text n → ((merge files versions current catalog)[i]?.map MergedEntry.state = some .UpdateAvailable ↔
      v.precedence w = .lt)
  compatible : isVersionCompatible (w.text n) (v.text m) = true ↔ v.precedence w ≠ .lt

instance : Std.LawfulEqCmp Identifier.precedence where
  eq_of_compare {a b} h := by
    cases a with
    | numeric m =>
      cases b with
      | numeric n => rw [Nat.compare_eq_eq.1 h]
      | alphanumeric t => cases h
    | alphanumeric s =>
      cases b with
      | numeric n => cases h
      | alphanumeric t => rw [Std.LawfulEqOrd.eq_of_compare (α := QString) h]

theorem prePrecedence_eq_eq : Semver.prePrecedence a b = .eq ↔ a = b := by
  constructor
  · intro h
    rw [Semver.prePrecedence, compareLex_eq_eq] at h
    exact Std.LawfulEqCmp.eq_of_compare h.2
  · rintro rfl
    exact Std.ReflCmp.compare_self

theorem precedence_eq_eq (v w : Semver) :
    v.precedence w = .eq ↔ v.core = w.core ∧ v.pre = w.pre := by
  rw [Semver.precedence, Ordering.then_eq_eq, prePrecedence_eq_eq,
    Std.LawfulEqCmp.compare_eq_iff_eq]

theorem text_ne_nil (m : Bool) (v : Semver) : (v.text m).isEmpty = false := by
  obtain ⟨c, s, hcs, _⟩ := v.coreText_head
  rw [Semver.text_eq, hcs]
  cases m <;> rfl

theorem text_trimmed (m : Bool) (v : Semver) : (QString.trimmed (v.text m)).isEmpty = false := by
  have htrim : QString.trimmed (v.text m) = v.text m :=
    trimWith_eq_self (fun c hc => v.text_unspaced m c (List.mem_of_mem_head? hc))
      (fun c hc => v.text_unspaced m c (List.mem_of_getLast? hc))
  rw [htrim, text_ne_nil]

theorem mergeEntry_update (hid : e.id ∈ installedIds files)
    (hv : versionOf versions e.id = Semver.text m v) (hw : e.version = Semver.text n w) :
    (mergeEntry files versions current e).state = .UpdateAvailable ↔
      compareSemver (v.text m) (w.text n) < 0 := by
  rw [mergeEntry, if_pos hid, hv, hw]
  dsimp only
  rw [text_ne_nil, text_ne_nil]
  by_cases h : compareSemver (v.text m) (w.text n) < 0
  · rw [decide_eq_true h]
    exact ⟨fun _ => h, fun _ => rfl⟩
  · rw [decide_eq_false h]
    exact ⟨fun hs => (by cases hs), fun hlt => absurd hlt h⟩

theorem exact_iff_held (m n : Bool) (v w : Semver) :
    Exact m n v w ↔ v.heldVersion.precedence w.heldVersion = v.precedence w := by
  constructor
  · intro h
    have hordered := h.ordered
    rw [compareSemver_text] at hordered
    exact orderSign_injective hordered
  · intro h
    have hcmp : compareSemver (v.text m) (w.text n) = orderSign (v.precedence w) := by
      rw [compareSemver_text, h]
    refine ⟨hcmp, ?_, ?_, ?_, ?_, ?_⟩
    · rw [compareSemver_text, compareSemver_text, ← orderSign_swap, ← Std.OrientedCmp.eq_swap]
    · intro k u hvw hwu
      rw [compareSemver_text, orderSign_le_zero] at *
      exact Std.TransCmp.isLE_trans hvw hwu
    · rw [hcmp, orderSign_eq_zero, precedence_eq_eq]
    · intro catalog files versions current i e he hid hv hw
      rw [merge_entry he, Option.map_some, Option.some.injEq, mergeEntry_update hid hv hw, hcmp,
        orderSign_lt_zero]
    · rw [isVersionCompatible, text_trimmed, text_trimmed, Bool.or_self, if_neg Bool.false_ne_true,
        hcmp, decide_eq_true_eq, ← not_lt, orderSign_lt_zero]

def plainVersion (major minor patch : Nat) : Semver where
  major := major
  minor := minor
  patch := patch
  pre_valid := fun _ h => (List.not_mem_nil h).elim
  build_valid := fun _ h => (List.not_mem_nil h).elim

theorem great_version_below :
    ¬ Exact false false (plainVersion 2147483648 0 0) (plainVersion 1 0 0) := by
  intro h
  have hordered := h.ordered
  rw [compareSemver_text] at hordered
  exact absurd hordered (by decide)

end Nullock.MarketplaceLogic

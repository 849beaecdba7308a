import Mathlib.Data.List.Nodup
import Mathlib.Logic.Function.Iterate
import Mathlib.Order.Bounds.Basic

namespace Nullock.BreadthFirst

/-- A search: the places still to visit, those visited, and all it came across. -/
structure Search (α : Type) where
  queue : List (α × Nat)
  seen : List α
  visited : List (α × Nat) := []

section Search
variable {α : Type} [DecidableEq α]

def Search.init (seed : α) : Search α where
  queue := [(seed, 0)]
  seen := [seed]

/-- A new place goes to the end of the queue, unless there are too many. -/
def Search.add (cap depth : Nat) (s : Search α) (v : α) : Search α :=
  if cap ≤ s.seen.length ∨ v ∈ s.seen then s
  else { s with queue := s.queue ++ [(v, depth)], seen := s.seen ++ [v] }

variable (next : α → List α) (cap maxDepth : Nat)

def Search.visit (s : Search α) : Search α :=
  match s.queue with
  | [] => s
  | u :: rest =>
    let s := { s with queue := rest, visited := s.visited ++ [u] }
    if maxDepth ≤ u.2 then s else (next u.1).foldl (Search.add cap (u.2 + 1)) s

def Search.entries (s : Search α) : List (α × Nat) := s.visited ++ s.queue

/-- A way of so many steps from the seed, each from a place in the set. -/
inductive Path (seed : α) (through : α → Prop) : α → Nat → Prop
  | seed : Path seed through seed 0
  | step : Path seed through u n → through u → v ∈ next u → Path seed through v (n + 1)

structure Search.Sound (seed : α) (s : Search α) : Prop where
  seen_eq : s.seen = s.entries.map Prod.fst
  nodup : s.seen.Nodup
  sorted : s.entries.Pairwise (fun x y => x.2 ≤ y.2)
  near : ∀ x ∈ s.queue, ∀ y ∈ s.queue, x.2 ≤ y.2 + 1
  start : (seed, 0) ∈ s.entries
  origin : ∀ x ∈ s.entries, x = (seed, 0) ∨
    ∃ u ∈ s.visited, u.2 < maxDepth ∧ x.2 = u.2 + 1 ∧ x.1 ∈ next u.1
  closed : ∀ u ∈ s.visited, u.2 < maxDepth → ∀ v ∈ next u.1, v ∈ s.seen ∨ cap ≤ s.seen.length
  short : ∀ u ∈ s.visited, ∀ x ∈ s.entries, x.1 ∈ next u.1 → x.2 ≤ u.2 + 1

end Search

section Steps
variable {α : Type} [DecidableEq α] {next : α → List α} {cap maxDepth : Nat} {s : Search α}

theorem add_spec (h : s.seen.Nodup) (depth : Nat) (vs : List α) : ∃ new : List (α × Nat),
    vs.foldl (Search.add cap depth) s =
      { s with queue := s.queue ++ new, seen := s.seen ++ new.map Prod.fst } ∧
    (∀ x ∈ new, x.2 = depth ∧ x.1 ∈ vs) ∧
    (s.seen ++ new.map Prod.fst).Nodup ∧
    (∀ v ∈ vs, v ∈ s.seen ++ new.map Prod.fst ∨ cap ≤ (s.seen ++ new.map Prod.fst).length) ∧
    (new ≠ [] → s.seen.length < cap) := by
  induction vs generalizing s with
  | nil =>
    refine ⟨[], ?_, fun x hx => absurd hx List.not_mem_nil, ?_,
      fun v hv => absurd hv List.not_mem_nil, fun hne => absurd rfl hne⟩
    · rw [List.foldl_nil, List.map_nil, List.append_nil, List.append_nil]
    · rwa [List.map_nil, List.append_nil]
  | cons v vs ih =>
    rw [List.foldl_cons, Search.add]
    split
    · rename_i hskip
      obtain ⟨new, heq, hnew, hnodup, hall, hroom⟩ := ih h
      refine ⟨new, heq, fun x hx => ⟨(hnew x hx).1, List.mem_cons_of_mem v (hnew x hx).2⟩, hnodup,
        List.forall_mem_cons.2 ⟨?_, hall⟩, hroom⟩
      rcases hskip with hfull | hseen
      · rw [List.length_append]
        exact .inr (Nat.le_add_right_of_le hfull)
      · exact .inl (List.mem_append_left _ hseen)
    · rename_i hskip
      rw [not_or, Nat.not_le] at hskip
      have hnodup : (s.seen ++ [v]).Nodup := by
        rw [List.nodup_append']
        exact ⟨h, List.nodup_singleton v, List.disjoint_singleton.2 hskip.2⟩
      obtain ⟨new, heq, hnew, hnodup, hall, -⟩ :=
        @ih { s with queue := s.queue ++ [(v, depth)], seen := s.seen ++ [v] } hnodup
      have hseen : s.seen ++ [v] ++ new.map Prod.fst =
          s.seen ++ ((v, depth) :: new).map Prod.fst := by
        rw [List.append_assoc]
        rfl
      refine ⟨(v, depth) :: new, ?_, ?_, ?_, ?_, fun _ => hskip.1⟩
      · rw [heq, hseen, List.append_assoc]
        rfl
      · exact List.forall_mem_cons.2 ⟨⟨rfl, List.mem_cons_self⟩,
          fun x hx => ⟨(hnew x hx).1, List.mem_cons_of_mem v (hnew x hx).2⟩⟩
      · rw [← hseen]
        exact hnodup
      · rw [← hseen]
        exact List.forall_mem_cons.2
          ⟨.inl (List.mem_append_left _ (List.mem_append_right _ List.mem_cons_self)), hall⟩

theorem visit_spec (h : s.seen.Nodup) (hqueue : s.queue = u :: rest) : ∃ new : List (α × Nat),
    s.visit next cap maxDepth = ⟨rest ++ new, s.seen ++ new.map Prod.fst, s.visited ++ [u]⟩ ∧
    (∀ x ∈ new, u.2 < maxDepth ∧ x.2 = u.2 + 1 ∧ x.1 ∈ next u.1) ∧
    (s.seen ++ new.map Prod.fst).Nodup ∧
    (u.2 < maxDepth → ∀ v ∈ next u.1,
      v ∈ s.seen ++ new.map Prod.fst ∨ cap ≤ (s.seen ++ new.map Prod.fst).length) ∧
    (new ≠ [] → s.seen.length < cap) := by
  rw [Search.visit, hqueue]
  dsimp only
  split
  · rename_i hdeep
    refine ⟨[], ?_, fun x hx => absurd hx List.not_mem_nil, ?_, fun hlt => absurd hlt (by omega),
      fun hne => absurd rfl hne⟩
    · rw [List.map_nil, List.append_nil, List.append_nil]
    · rwa [List.map_nil, List.append_nil]
  · rename_i hdeep
    have hspec := @add_spec α _ cap { s with queue := rest, visited := s.visited ++ [u] } h
      (u.2 + 1) (next u.1)
    obtain ⟨new, heq, hnew, hnodup, hall, hroom⟩ := hspec
    exact ⟨new, heq, fun x hx => ⟨by omega, hnew x hx⟩, hnodup, fun _ => hall, hroom⟩

omit [DecidableEq α] in
theorem init_sound (seed : α) : (Search.init seed).Sound next cap maxDepth seed where
  seen_eq := rfl
  nodup := List.nodup_singleton seed
  sorted := List.pairwise_singleton _ _
  near := by simp [Search.init]
  start := List.mem_singleton_self _
  origin := fun x hx => .inl (List.mem_singleton.1 hx)
  closed := fun u hu => absurd hu List.not_mem_nil
  short := fun u hu => absurd hu List.not_mem_nil

theorem visit_sound (h : s.Sound next cap maxDepth seed) :
    (s.visit next cap maxDepth).Sound next cap maxDepth seed := by
  cases hqueue : s.queue with
  | nil =>
    rw [Search.visit, hqueue]
    exact h
  | cons u rest =>
    obtain ⟨new, heq, hnew, hnodup, hall, hroom⟩ :=
      @visit_spec α _ next cap maxDepth s u rest h.nodup hqueue
    have hentries : s.entries = s.visited ++ u :: rest := by rw [Search.entries, hqueue]
    have hnext : (⟨rest ++ new, s.seen ++ new.map Prod.fst, s.visited ++ [u]⟩ :
        Search α).entries = s.entries ++ new := by
      rw [Search.entries, hentries, List.append_assoc, List.append_assoc]
      rfl
    have hsorted := h.sorted
    rw [hentries] at hsorted
    obtain ⟨-, hlater, hearlier⟩ := List.pairwise_append.1 hsorted
    have hrest := (List.pairwise_cons.1 hlater).1
    have hvisited : ∀ w ∈ s.visited, w.2 ≤ u.2 :=
      fun w hw => hearlier w hw u List.mem_cons_self
    have hnear : ∀ x ∈ s.entries, x.2 ≤ u.2 + 1 := by
      intro x hx
      rcases List.mem_append.1 hx with hx | hx
      · exact Nat.le_succ_of_le (hvisited x hx)
      · exact h.near x hx u (hqueue ▸ List.mem_cons_self)
    have hfresh : ∀ x ∈ new, x.1 ∉ s.seen := by
      intro x hx hseen
      exact (List.nodup_append'.1 hnodup).2.2 hseen (List.mem_map_of_mem hx)
    rw [heq]
    refine ⟨?_, hnodup, ?_, ?_, ?_, ?_, ?_, ?_⟩
    · rw [hnext, List.map_append, ← h.seen_eq]
    · rw [hnext]
      refine List.pairwise_append.2 ⟨h.sorted, ?_, fun x hx y hy => ?_⟩
      · exact List.pairwise_of_forall_mem_list (fun x hx y hy => by
          rw [(hnew x hx).2.1, (hnew y hy).2.1])
      · rw [(hnew y hy).2.1]
        exact hnear x hx
    · intro x hx y hy
      rcases List.mem_append.1 hx with hx | hx <;> rcases List.mem_append.1 hy with hy | hy
      · exact h.near x (hqueue ▸ List.mem_cons_of_mem u hx) y (hqueue ▸ List.mem_cons_of_mem u hy)
      · have hle := hnear x (hentries ▸ List.mem_append_right _ (List.mem_cons_of_mem u hx))
        rw [(hnew y hy).2.1]
        omega
      · rw [(hnew x hx).2.1]
        exact Nat.succ_le_succ (hrest y hy)
      · rw [(hnew x hx).2.1, (hnew y hy).2.1]
        exact Nat.le_succ _
    · rw [hnext]
      exact List.mem_append_left _ h.start
    · rw [hnext]
      intro x hx
      rcases List.mem_append.1 hx with hx | hx
      · refine (h.origin x hx).imp_right ?_
        rintro ⟨w, hw, hfollowed⟩
        exact ⟨w, List.mem_append_left _ hw, hfollowed⟩
      · exact .inr ⟨u, List.mem_append_right _ List.mem_cons_self, hnew x hx⟩
    · intro w hw hdepth v hv
      rcases List.mem_append.1 hw with hw | hw
      · rcases h.closed w hw hdepth v hv with hseen | hfull
        · exact .inl (List.mem_append_left _ hseen)
        · rw [List.length_append]
          exact .inr (Nat.le_add_right_of_le hfull)
      · rw [List.mem_singleton.1 hw] at hdepth hv
        exact hall hdepth v hv
    · rw [hnext]
      intro w hw x hx hlink
      rcases List.mem_append.1 hw with hw | hw
      · rcases List.mem_append.1 hx with hx | hx
        · exact h.short w hw x hx hlink
        · -- what an earlier page leads to is no longer new, unless there was no room
          obtain ⟨hdeep, -, -⟩ := hnew x hx
          have hdepth := Nat.lt_of_le_of_lt (hvisited w hw) hdeep
          rcases h.closed w hw hdepth x.1 hlink with hseen | hfull
          · exact absurd hseen (hfresh x hx)
          · exact absurd (hroom (List.ne_nil_of_mem hx)) (Nat.not_lt.2 hfull)
      · rw [List.mem_singleton.1 hw]
        rcases List.mem_append.1 hx with hx | hx
        · exact hnear x hx
        · exact Nat.le_of_eq (hnew x hx).2.1

theorem run_sound (seed : α) (n : Nat) :
    ((Search.visit next cap maxDepth)^[n] (Search.init seed)).Sound next cap maxDepth seed := by
  induction n with
  | zero => exact init_sound seed
  | succ n ih =>
    rw [Function.iterate_succ_apply']
    exact visit_sound ih

theorem foldl_add_visited (depth : Nat) (vs : List α) (s : Search α) :
    (vs.foldl (Search.add cap depth) s).visited = s.visited := by
  induction vs generalizing s with
  | nil => rfl
  | cons v vs ih =>
    rw [List.foldl_cons, ih, Search.add]
    split
    · rfl
    · rfl

theorem visit_visited (hqueue : s.queue = u :: rest) :
    (s.visit next cap maxDepth).visited = s.visited ++ [u] := by
  rw [Search.visit, hqueue]
  dsimp only
  split
  · rfl
  · exact foldl_add_visited _ _ _

theorem visit_done (hqueue : s.queue = []) : s.visit next cap maxDepth = s := by
  rw [Search.visit, hqueue]

theorem run_length (s : Search α) (n : Nat) :
    ((Search.visit next cap maxDepth)^[n] s).visited.length ≤ s.visited.length + n ∧
      (((Search.visit next cap maxDepth)^[n] s).queue ≠ [] →
        ((Search.visit next cap maxDepth)^[n] s).visited.length = s.visited.length + n) := by
  induction n generalizing s with
  | zero => exact ⟨Nat.le_refl _, fun _ => rfl⟩
  | succ n ih =>
    rw [Function.iterate_succ_apply]
    obtain ⟨hle, hfull⟩ := ih (s.visit next cap maxDepth)
    cases hqueue : s.queue with
    | nil =>
      rw [visit_done hqueue] at hle hfull ⊢
      refine ⟨by omega, fun hne => absurd ?_ hne⟩
      rw [Function.iterate_fixed (visit_done hqueue), hqueue]
    | cons u rest =>
      rw [visit_visited hqueue, List.length_append, List.length_singleton] at hle hfull
      exact ⟨by omega, fun hne => by rw [hfull hne]; omega⟩

end Steps

section Results
variable {α : Type} {next : α → List α} {cap maxDepth : Nat} {s : Search α}

theorem Search.Sound.unique (h : s.Sound next cap maxDepth seed) (hx : (v, m) ∈ s.entries)
    (hy : (v, n) ∈ s.entries) : m = n := by
  have hnodup := h.nodup
  rw [h.seen_eq] at hnodup
  have heq := List.inj_on_of_nodup_map hnodup hx hy rfl
  exact (Prod.mk.inj heq).2

theorem Search.Sound.depth_le (h : s.Sound next cap maxDepth seed) (hx : x ∈ s.entries) :
    x.2 ≤ maxDepth := by
  rcases h.origin x hx with rfl | ⟨u, -, hdeep, hstep, -⟩
  · exact Nat.zero_le _
  · omega

theorem Search.Sound.le_path (h : s.Sound next cap maxDepth seed)
    (hpath : Path next seed (fun u => u ∈ s.visited.map Prod.fst) v n)
    (hv : (v, d) ∈ s.entries) : d ≤ n := by
  induction hpath generalizing d with
  | seed => exact Nat.le_of_eq (h.unique hv h.start)
  | step hpath hthrough hlink ih =>
    obtain ⟨⟨u, du⟩, hu, rfl⟩ := List.mem_map.1 hthrough
    have hle := ih (List.mem_append_left _ hu)
    have hshort := h.short _ hu _ hv hlink
    dsimp only at hshort
    omega

theorem Search.Sound.path (h : s.Sound next cap maxDepth seed) (hv : (v, d) ∈ s.entries) :
    Path next seed (fun u => u ∈ s.visited.map Prod.fst) v d := by
  induction d generalizing v with
  | zero =>
    rcases h.origin _ hv with heq | ⟨u, -, -, hstep, -⟩
    · rw [(Prod.mk.inj heq).1]
      exact .seed
    · exact absurd hstep (Nat.succ_ne_zero _).symm
  | succ d ih =>
    rcases h.origin _ hv with heq | ⟨⟨u, du⟩, hu, -, hstep, hlink⟩
    · exact absurd (Prod.mk.inj heq).2 (Nat.succ_ne_zero d)
    · obtain rfl := Nat.succ.inj hstep
      exact .step (ih (List.mem_append_left _ hu)) (List.mem_map_of_mem hu) hlink

theorem Search.Sound.isLeast (h : s.Sound next cap maxDepth seed) (hv : (v, d) ∈ s.entries) :
    IsLeast {n | Path next seed (fun u => u ∈ s.visited.map Prod.fst) v n} d :=
  ⟨h.path hv, fun _ hpath => h.le_path hpath hv⟩

theorem Search.Sound.complete (h : s.Sound next cap maxDepth seed) (hend : s.queue = [])
    (hroom : s.seen.length < cap) (hpath : Path next seed (fun _ => True) v n)
    (hn : n ≤ maxDepth) : v ∈ s.visited.map Prod.fst := by
  have hentries : s.entries = s.visited := by rw [Search.entries, hend, List.append_nil]
  have hall : v ∈ s.visited.map Prod.fst ∧
      Path next seed (fun u => u ∈ s.visited.map Prod.fst) v n := by
    induction hpath with
    | seed =>
      refine ⟨?_, .seed⟩
      rw [← hentries]
      exact List.mem_map_of_mem h.start
    | step hpath _ hlink ih =>
      obtain ⟨hu, hway⟩ := ih (by omega)
      refine ⟨?_, .step hway hu hlink⟩
      obtain ⟨⟨u, du⟩, hmem, rfl⟩ := List.mem_map.1 hu
      have hle := h.le_path hway (List.mem_append_left _ hmem)
      rcases h.closed _ hmem (by dsimp only; omega) _ hlink with hseen | hfull
      · rw [h.seen_eq, hentries] at hseen
        exact hseen
      · exact absurd hroom (Nat.not_lt.2 hfull)
  exact hall.1

end Results

end Nullock.BreadthFirst

import Nullock.Blocklist

namespace Nullock.Proxy
open CertLogic

def TextLE (a b : QString) : Prop := a.map UInt16.toNat ≤ b.map UInt16.toNat

instance : DecidableRel TextLE := fun _ _ => inferInstanceAs (Decidable (_ ≤ _))

instance : IsTrans QString TextLE := ⟨fun _ _ _ h h' => le_trans h h'⟩

instance : Std.Total TextLE := ⟨fun _ _ => le_total _ _⟩

instance : Std.Antisymm TextLE := ⟨fun _ _ h h' =>
  List.map_injective_iff.2 (fun _ _ he => UInt16.toNat_inj.1 he) (le_antisymm h h')⟩

def blocklistText (hosts : Finset QString) : QByteArray :=
  toUtf8 (List.intercalate [0x0A] (hosts.sort TextLE)) ++ [0x0A]

/-- The hosts that are read from the file, none if it cannot be opened. -/
def readBlocklist : Option QByteArray → Finset QString
  | none => ∅
  | some text =>
    (((text.splitOn 0x0A).map (fun line => QString.trimmed (QString.fromUtf8 line))).filter
      (fun line => !line.isEmpty)).toFinset

theorem wellFormed_plain (h : ∀ c ∈ s, Plain c) : wellFormed s = true := by
  rw [wellFormed]
  induction s with
  | nil => rfl
  | cons c s ih =>
    obtain ⟨hc, hrest⟩ := List.forall_mem_cons.1 h
    rw [List.map_cons, wellFormedUnits.eq_def]
    simp only [hc.high, hc.low, Bool.false_eq_true, ↓reduceIte, Bool.not_false, Bool.true_and]
    exact ih hrest

theorem fromUtf8_plain (h : ∀ c ∈ s, Plain c) : QString.fromUtf8 (toUtf8 s) = s := by
  have hback := fromUtf8_toUtf8 (wellFormed_plain h)
  rw [QString.fromUtf8, if_neg]
  · exact hback
  · intro hmark
    obtain ⟨t, ht⟩ := List.isPrefixOf_iff_prefix.1 hmark
    rw [← ht, fromUtf8_mark] at hback
    exact (h 0xFEFF (by rw [← hback]; exact List.mem_cons_self)).mark rfl

theorem trimmed_plain (h : ∀ c ∈ s, Plain c) : QString.trimmed s = s :=
  trimWith_eq_self (fun c hc => (h c (List.mem_of_mem_head? hc)).space)
    (fun c hc => (h c (List.mem_of_getLast? hc)).space)

theorem lf_toUtf8 (h : ∀ c ∈ s, Plain c) : 0x0A ∉ toUtf8 s := by
  intro hmem
  have hlf := (h 0x0A (mem_toUtf8_ascii (by decide) (by decide) hmem)).space
  cases hlf

theorem toUtf8_lines (h : lines ≠ []) :
    toUtf8 (List.intercalate [0x0A] lines) = List.intercalate [0x0A] (lines.map toUtf8) := by
  induction lines with
  | nil => exact absurd rfl h
  | cons s lines ih =>
    cases lines with
    | nil => rw [List.intercalate_singleton, List.map_singleton, List.intercalate_singleton]
    | cons t lines =>
      rw [List.intercalate_cons_cons, List.append_assoc, List.singleton_append,
        toUtf8_append (by decide), ih (List.cons_ne_nil t lines), List.map_cons, List.map_cons,
        List.map_cons, List.intercalate_cons_cons, List.append_assoc]
      rfl

theorem readBlocklist_text (h : ∀ host ∈ hosts, host ≠ [] ∧ ∀ c ∈ host, Plain c) :
    readBlocklist (some (blocklistText hosts)) = hosts := by
  have hsorted : ∀ host ∈ hosts.sort TextLE, host ≠ [] ∧ ∀ c ∈ host, Plain c :=
    fun host hhost => h host ((Finset.mem_sort TextLE).1 hhost)
  have hlines : (((blocklistText hosts).splitOn 0x0A).map
      (fun line => QString.trimmed (QString.fromUtf8 line))).filter (fun line => !line.isEmpty) =
      hosts.sort TextLE := by
    rw [blocklistText]
    generalize hosts.sort TextLE = lines at hsorted
    cases lines with
    | nil => rfl
    | cons s lines =>
      have hlf : ∀ l ∈ (s :: lines).map toUtf8, 0x0A ∉ l := by
        intro l hl
        obtain ⟨host, hhost, rfl⟩ := List.mem_map.1 hl
        exact lf_toUtf8 (hsorted host hhost).2
      rw [List.splitOn_append_cons_self, toUtf8_lines (List.cons_ne_nil s lines),
        List.splitOn_intercalate 0x0A hlf (List.cons_ne_nil _ _), List.map_append, List.map_map,
        List.filter_append]
      have hback : (s :: lines).map
          ((fun line => QString.trimmed (QString.fromUtf8 line)) ∘ toUtf8) = s :: lines := by
        conv => rhs; rw [← List.map_id (s :: lines)]
        apply List.map_congr_left
        intro host hhost
        have hplain := (hsorted host hhost).2
        rw [Function.comp_apply, fromUtf8_plain hplain, trimmed_plain hplain]
        rfl
      rw [hback, List.filter_eq_self.2]
      · exact List.append_nil _
      · intro host hhost
        rw [Bool.not_eq_true', List.isEmpty_eq_false_iff]
        exact (hsorted host hhost).1
  rw [readBlocklist, hlines]
  exact Finset.sort_toFinset hosts TextLE

inductive BlockCall where
  | markMitmBlocked (host : QString)
  | clearMitmBlocked
  | clearMitmBlockedHost (host : QString)

/-- Where a call stands between its critical sections. -/
inductive BlockStage where
  | idle
  /-- The host is inserted, the file lock not yet taken. -/
  | persistBlocklist
  /-- The file lock is held, the set not yet copied. -/
  | persisting
  /-- The file lock is held, the set not yet changed. -/
  | clearing
  /-- The file lock is held; what the file becomes, nothing if it is removed. -/
  | writing (content : Option QByteArray)
  | returned

def BlockStage.holdsLock : BlockStage → Bool
  | .persisting | .clearing | .writing _ => true
  | .idle | .persistBlocklist | .returned => false

def BlockStage.effective : BlockStage → Bool
  | .idle | .clearing => false
  | .persistBlocklist | .persisting | .writing _ | .returned => true

/-- The list in memory and on disk, and the calls under way in order. -/
structure BlockServer where
  blocked : Finset QString
  file : Option QByteArray
  fileLock : Option Nat := none
  stages : Nat → BlockStage := fun _ => .idle
  order : List Nat := []

def BlockServer.setStage (s : BlockServer) (i : Nat) (stage : BlockStage) : BlockServer :=
  { s with stages := Function.update s.stages i stage }

def BlockCall.applied (blocked : Finset QString) : BlockCall → Finset QString
  | .markMitmBlocked host => insert host blocked
  | .clearMitmBlocked => ∅
  | .clearMitmBlockedHost host => blocked.erase host

section Calls
variable (calls : Nat → BlockCall)

def takeFileLock (s : BlockServer) (i : Nat) (stage : BlockStage) : BlockServer :=
  if s.fileLock = none then { s.setStage i stage with fileLock := some i } else s

/-- The next critical section, or the next write, of the call with that number. -/
def blockStep (s : BlockServer) (i : Nat) : BlockServer :=
  match s.stages i with
  | .idle =>
    match calls i with
    | .markMitmBlocked host =>
      if host ∈ s.blocked then { s.setStage i .returned with order := s.order ++ [i] }
      else
        { s.setStage i .persistBlocklist with
          blocked := insert host s.blocked
          order := s.order ++ [i] }
    | .clearMitmBlocked | .clearMitmBlockedHost _ => takeFileLock s i .clearing
  | .persistBlocklist => takeFileLock s i .persisting
  | .persisting => s.setStage i (.writing (some (blocklistText s.blocked)))
  | .clearing =>
    match calls i with
    | .markMitmBlocked _ => s
    | .clearMitmBlocked =>
      { s.setStage i (.writing none) with blocked := ∅, order := s.order ++ [i] }
    | .clearMitmBlockedHost host =>
      if host ∈ s.blocked then
        { s.setStage i (.writing (some (blocklistText (s.blocked.erase host)))) with
          blocked := s.blocked.erase host
          order := s.order ++ [i] }
      else { s.setStage i .returned with fileLock := none, order := s.order ++ [i] }
  | .writing content => { s.setStage i .returned with file := content, fileLock := none }
  | .returned => s

end Calls

def setBlocklistPath (file : Option QByteArray) : BlockServer where
  blocked := readBlocklist file
  file := file

inductive BlockServer.InStep (s : BlockServer) : Prop where
  | owed (i : Nat) (h : s.stages i = .persistBlocklist)
  | persisting (i : Nat) (h : s.stages i = .persisting)
  | writing (i : Nat) (content : Option QByteArray) (h : s.stages i = .writing content)
      (hcontent : readBlocklist content = s.blocked)
  | written (h : ∀ i content, s.stages i ≠ .writing content)
      (hfile : readBlocklist s.file = s.blocked)

structure BlockInv (T : CharTable) (calls : Nat → BlockCall) (start : Finset QString)
    (s : BlockServer) : Prop where
  lock : ∀ i, (s.stages i).holdsLock = true ↔ s.fileLock = some i
  valid : ∀ host ∈ s.blocked, isValidHostForCert T host = true
  inStep : s.InStep
  ordered : s.blocked = (s.order.map calls).foldl BlockCall.applied start
  nodup : s.order.Nodup
  effects : ∀ i, i ∈ s.order ↔ (s.stages i).effective = true

section Step
variable {T : CharTable} {calls : Nat → BlockCall} {start : Finset QString} {s : BlockServer}

@[simp] theorem setStage_self (s : BlockServer) (i : Nat) (stage : BlockStage) :
    (s.setStage i stage).stages i = stage := by
  change Function.update s.stages i stage i = stage
  exact Function.update_self ..

theorem setStage_other (s : BlockServer) (stage : BlockStage) (h : j ≠ i) :
    (s.setStage i stage).stages j = s.stages j := by
  change Function.update s.stages i stage j = s.stages j
  exact Function.update_of_ne h ..

theorem BlockInv.lock_set (h : BlockInv T calls start s) (hstage : stage.holdsLock = true ↔
    held = some i) (hother : ∀ j, j ≠ i → (held = some j ↔ s.fileLock = some j)) :
    ∀ j, ((s.setStage i stage).stages j).holdsLock = true ↔ held = some j := by
  intro j
  by_cases hj : j = i
  · subst hj
    rw [setStage_self]
    exact hstage
  · rw [setStage_other s stage hj, h.lock j]
    exact (hother j hj).symm

theorem BlockInv.effects_set (h : BlockInv T calls start s)
    (hstage : stage.effective = (s.stages i).effective) :
    ∀ j, j ∈ s.order ↔ ((s.setStage i stage).stages j).effective = true := by
  intro j
  by_cases hj : j = i
  · subst hj
    rw [setStage_self, hstage]
    exact h.effects j
  · rw [setStage_other s stage hj]
    exact h.effects j

theorem BlockInv.effects_new (h : BlockInv T calls start s)
    (hstage : stage.effective = true) :
    ∀ j, j ∈ s.order ++ [i] ↔ ((s.setStage i stage).stages j).effective = true := by
  intro j
  rw [List.mem_append, List.mem_singleton]
  by_cases hj : j = i
  · subst hj
    rw [setStage_self]
    exact ⟨fun _ => hstage, fun _ => .inr rfl⟩
  · rw [setStage_other s stage hj, ← h.effects j]
    exact ⟨fun hmem => hmem.resolve_right hj, .inl⟩

theorem BlockInv.nodup_new (h : BlockInv T calls start s)
    (hstage : (s.stages i).effective = false) : (s.order ++ [i]).Nodup := by
  rw [List.nodup_append]
  refine ⟨h.nodup, List.nodup_singleton i, ?_⟩
  intro j hj k hk he
  obtain rfl := List.mem_singleton.1 hk
  rw [he, h.effects, hstage] at hj
  cases hj

theorem BlockInv.ordered_new (h : BlockInv T calls start s) (i : Nat) :
    (calls i).applied s.blocked =
      ((s.order ++ [i]).map calls).foldl BlockCall.applied start := by
  rw [List.map_append, List.foldl_append, ← h.ordered]
  rfl

theorem holder_unique (h : BlockInv T calls start s) (hi : (s.stages i).holdsLock = true)
    (hj : (s.stages j).holdsLock = true) : j = i :=
  Option.some.inj (((h.lock j).1 hj).symm.trans ((h.lock i).1 hi))

theorem BlockServer.InStep.keep (h : s.InStep) (stage : BlockStage)
    (hidle : s.stages i = .idle ∨ s.stages i = .clearing)
    (hstage : ∀ content, stage ≠ .writing content) : (s.setStage i stage).InStep := by
  have hother {j : Nat} {own : BlockStage} (hj : s.stages j = own) (hne : own ≠ .idle)
      (hne' : own ≠ .clearing) : j ≠ i := by
    rintro rfl
    rcases hidle with hidle | hidle
    · exact hne (hj.symm.trans hidle)
    · exact hne' (hj.symm.trans hidle)
  cases h with
  | owed j hj =>
    exact .owed j ((setStage_other s stage (hother hj nofun nofun)).trans hj)
  | persisting j hj =>
    exact .persisting j ((setStage_other s stage (hother hj nofun nofun)).trans hj)
  | writing j content hj hcontent =>
    exact .writing j content ((setStage_other s stage (hother hj nofun nofun)).trans hj) hcontent
  | written hnone hfile =>
    refine .written ?_ hfile
    intro j content
    by_cases hj : j = i
    · subst hj
      rw [setStage_self]
      exact hstage content
    · rw [setStage_other s stage hj]
      exact hnone j content

theorem take_inv (h : BlockInv T calls start s) (hfree : s.fileLock = none)
    (hholds : stage.holdsLock = true) (heffect : stage.effective = (s.stages i).effective)
    (hstep : ({ s.setStage i stage with fileLock := some i } : BlockServer).InStep) :
    BlockInv T calls start { s.setStage i stage with fileLock := some i } where
  lock := h.lock_set (iff_of_true hholds rfl) (fun j hj =>
    iff_of_false (fun he => hj (Option.some.inj he).symm) (by rw [hfree]; exact nofun))
  valid := h.valid
  inStep := hstep
  ordered := h.ordered
  nodup := h.nodup
  effects := h.effects_set heffect

theorem inStep_order (h : s.InStep) (held : Option Nat) (order : List Nat) :
    ({ s with fileLock := held, order := order } : BlockServer).InStep := by
  cases h with
  | owed j hj => exact .owed j hj
  | persisting j hj => exact .persisting j hj
  | writing j content hj hcontent => exact .writing j content hj hcontent
  | written hnone hfile => exact .written hnone hfile

theorem readBlocklist_valid (h : ∀ host ∈ hosts, isValidHostForCert T host = true) :
    readBlocklist (some (blocklistText hosts)) = hosts :=
  readBlocklist_text (fun host hhost => isValidHostForCert_plain (h host hhost))

theorem written_inStep (h : BlockInv T calls start s) (hi : s.stages i = .writing content) :
    ({ s.setStage i .returned with file := content, fileLock := none } : BlockServer).InStep := by
  have hholds : (s.stages i).holdsLock = true := by
    rw [hi]
    rfl
  have hother {j : Nat} (hj : j ≠ i) : (s.setStage i .returned).stages j = s.stages j :=
    setStage_other s .returned hj
  cases h.inStep with
  | owed j hj =>
    have hne : j ≠ i := by
      rintro rfl
      cases hj.symm.trans hi
    exact .owed j ((hother hne).trans hj)
  | persisting j hj =>
    have hsame := holder_unique h hholds (j := j) (by rw [hj]; rfl)
    subst hsame
    cases hj.symm.trans hi
  | writing j fresh hj hfresh =>
    have hsame := holder_unique h hholds (j := j) (by rw [hj]; rfl)
    subst hsame
    have hcontent : fresh = content := BlockStage.writing.inj (hj.symm.trans hi)
    rw [hcontent] at hfresh
    refine .written ?_ hfresh
    intro k other hk
    by_cases hkj : k = j
    · subst hkj
      cases (setStage_self s k .returned).symm.trans hk
    · have hwriting := (hother hkj).symm.trans hk
      exact hkj (holder_unique h hholds (by rw [hwriting]; rfl))
  | written hnone hfile => exact absurd hi (hnone i content)

theorem change_inv (h : BlockInv T calls start s) (hi : s.stages i = .clearing)
    (hchange : (calls i).applied s.blocked = hosts) (hsub : hosts ⊆ s.blocked)
    (hcontent : readBlocklist content = hosts) :
    BlockInv T calls start
      { s.setStage i (.writing content) with blocked := hosts, order := s.order ++ [i] } where
  lock := h.lock_set (iff_of_true rfl ((h.lock i).1 (by rw [hi]; rfl))) (fun j _ => Iff.rfl)
  valid := fun host hhost => h.valid host (hsub hhost)
  inStep := .writing i content (setStage_self s i _) hcontent
  ordered := hchange.symm.trans (h.ordered_new i)
  nodup := h.nodup_new (by rw [hi]; rfl)
  effects := h.effects_new rfl

theorem blockStep_inv (h : BlockInv T calls start s)
    (hvalid : ∀ host, calls i = .markMitmBlocked host → isValidHostForCert T host = true) :
    BlockInv T calls start (blockStep calls s i) := by
  rw [blockStep]
  cases hi : s.stages i with
  | idle =>
    have hnolock : s.fileLock ≠ some i := by
      intro he
      have hholds := (h.lock i).2 he
      rw [hi] at hholds
      cases hholds
    cases hcall : calls i with
    | markMitmBlocked host =>
      dsimp only
      have hchange := h.ordered_new i
      rw [hcall] at hchange
      split
      · rename_i hmem
        refine ⟨?_, h.valid, inStep_order (h.inStep.keep .returned (.inl hi) nofun) _ _, ?_,
          h.nodup_new (by rw [hi]; rfl), h.effects_new rfl⟩
        · exact h.lock_set (iff_of_false nofun hnolock) (fun j _ => Iff.rfl)
        · rw [BlockCall.applied, Finset.insert_eq_of_mem hmem] at hchange
          exact hchange
      · refine ⟨?_, ?_, .owed i (setStage_self s i _), hchange, h.nodup_new (by rw [hi]; rfl),
          h.effects_new rfl⟩
        · exact h.lock_set (iff_of_false nofun hnolock) (fun j _ => Iff.rfl)
        · intro other hother
          rcases Finset.mem_insert.1 hother with rfl | hother
          · exact hvalid other hcall
          · exact h.valid other hother
    | clearMitmBlocked =>
      dsimp only
      rw [takeFileLock]
      split
      · rename_i hfree
        exact take_inv h hfree rfl (by rw [hi]; rfl)
          (inStep_order (h.inStep.keep .clearing (.inl hi) nofun) _ _)
      · exact h
    | clearMitmBlockedHost host =>
      dsimp only
      rw [takeFileLock]
      split
      · rename_i hfree
        exact take_inv h hfree rfl (by rw [hi]; rfl)
          (inStep_order (h.inStep.keep .clearing (.inl hi) nofun) _ _)
      · exact h
  | persistBlocklist =>
    dsimp only
    rw [takeFileLock]
    split
    · rename_i hfree
      exact take_inv h hfree rfl (by rw [hi]; rfl) (.persisting i (setStage_self s i _))
    · exact h
  | persisting =>
    refine ⟨?_, h.valid, ?_, h.ordered, h.nodup, h.effects_set (by rw [hi]; rfl)⟩
    · exact h.lock_set (iff_of_true rfl ((h.lock i).1 (by rw [hi]; rfl))) (fun j _ => Iff.rfl)
    · exact .writing i _ (setStage_self s i _) (readBlocklist_valid h.valid)
  | clearing =>
    cases hcall : calls i with
    | markMitmBlocked host => exact h
    | clearMitmBlocked =>
      exact change_inv h hi (by rw [hcall]; rfl) (Finset.empty_subset _) rfl
    | clearMitmBlockedHost host =>
      dsimp only
      have hsub := Finset.erase_subset host s.blocked
      split
      · exact change_inv h hi (by rw [hcall]; rfl) hsub
          (readBlocklist_valid (fun other hother => h.valid other (hsub hother)))
      · rename_i hout
        have hchange := h.ordered_new i
        rw [hcall, BlockCall.applied, Finset.erase_eq_of_notMem hout] at hchange
        have hlock := (h.lock i).1 (by rw [hi]; rfl)
        refine ⟨?_, h.valid, inStep_order (h.inStep.keep .returned (.inr hi) nofun) _ _, hchange,
          h.nodup_new (by rw [hi]; rfl), h.effects_new rfl⟩
        refine h.lock_set (iff_of_false nofun nofun) (fun j hj => iff_of_false nofun ?_)
        rw [hlock]
        exact fun he => hj (Option.some.inj he).symm
  | writing content =>
    have hlock := (h.lock i).1 (by rw [hi]; rfl)
    refine ⟨?_, h.valid, written_inStep h hi, h.ordered, h.nodup,
      h.effects_set (by rw [hi]; rfl)⟩
    refine h.lock_set (iff_of_false nofun nofun) (fun j hj => iff_of_false nofun ?_)
    rw [hlock]
    exact fun he => hj (Option.some.inj he).symm
  | returned => exact h

theorem setBlocklistPath_inv (T : CharTable) (calls : Nat → BlockCall) (file : Option QByteArray)
    (hfile : ∀ host ∈ readBlocklist file, isValidHostForCert T host = true) :
    BlockInv T calls (readBlocklist file) (setBlocklistPath file) where
  lock := fun _ => iff_of_false nofun nofun
  valid := hfile
  inStep := .written (fun _ _ => nofun) rfl
  ordered := rfl
  nodup := List.nodup_nil
  effects := fun _ => iff_of_false nofun nofun

theorem blockRun_inv (h : BlockInv T calls start s)
    (hvalid : ∀ i host, calls i = .markMitmBlocked host → isValidHostForCert T host = true)
    (schedule : List Nat) : BlockInv T calls start (schedule.foldl (blockStep calls) s) := by
  induction schedule generalizing s with
  | nil => exact h
  | cons i schedule ih => exact ih (blockStep_inv h (hvalid i))

end Step

def BlockServer.Quiet (s : BlockServer) : Prop :=
  ∀ i, s.stages i = .idle ∨ s.stages i = .returned

theorem BlockServer.InStep.quiet {s : BlockServer} (h : s.InStep) (hquiet : s.Quiet) :
    readBlocklist s.file = s.blocked := by
  have hnot {i : Nat} {stage : BlockStage} (hi : s.stages i = stage) (hne : stage ≠ .idle)
      (hne' : stage ≠ .returned) : False := by
    rcases hquiet i with hidle | hreturned
    · exact hne (hi.symm.trans hidle)
    · exact hne' (hi.symm.trans hreturned)
  cases h with
  | owed i hi => exact (hnot hi nofun nofun).elim
  | persisting i hi => exact (hnot hi nofun nofun).elim
  | writing i content hi hcontent => exact (hnot hi nofun nofun).elim
  | written hnone hfile => exact hfile

def blockedAfter (host : QString) (before : Bool) (calls : List BlockCall) : Bool :=
  calls.foldl (fun blocked call =>
    match call with
    | .markMitmBlocked other => blocked || host == other
    | .clearMitmBlocked => false
    | .clearMitmBlockedHost other => blocked && host != other) before

theorem mem_applied (host : QString) (calls : List BlockCall) (start : Finset QString) :
    host ∈ calls.foldl BlockCall.applied start ↔
      blockedAfter host (decide (host ∈ start)) calls = true := by
  induction calls generalizing start with
  | nil => exact (decide_eq_true_iff).symm
  | cons call calls ih =>
    rw [List.foldl_cons, ih, blockedAfter, blockedAfter, List.foldl_cons]
    have hcall : decide (host ∈ BlockCall.applied start call) = (match call with
        | .markMitmBlocked other => decide (host ∈ start) || host == other
        | .clearMitmBlocked => false
        | .clearMitmBlockedHost other => decide (host ∈ start) && host != other) := by
      cases call with
      | markMitmBlocked other =>
        rw [BlockCall.applied, Bool.eq_iff_iff]
        simp [or_comm]
      | clearMitmBlocked => rfl
      | clearMitmBlockedHost other =>
        rw [BlockCall.applied, Bool.eq_iff_iff]
        simp [and_comm]
    rw [hcall]

/-- In every order of sections the file has the list in memory once all calls are done. -/
theorem blocklist_in_step (T : CharTable) (calls : Nat → BlockCall)
    (hmarks : ∀ i host, calls i = .markMitmBlocked host → isValidHostForCert T host = true)
    (file : Option QByteArray)
    (hfile : ∀ host ∈ readBlocklist file, isValidHostForCert T host = true)
    (schedule : List Nat)
    (hquiet : (schedule.foldl (blockStep calls) (setBlocklistPath file)).Quiet) :
    let s := schedule.foldl (blockStep calls) (setBlocklistPath file)
    readBlocklist s.file = s.blocked ∧ s.order.Nodup ∧
      (∀ i, i ∈ s.order ↔ s.stages i = .returned) ∧
      ∀ host, host ∈ readBlocklist s.file ↔
        blockedAfter host (decide (host ∈ readBlocklist file)) (s.order.map calls) = true := by
  have h := blockRun_inv (setBlocklistPath_inv T calls file hfile) hmarks schedule
  have hread := h.inStep.quiet hquiet
  refine ⟨hread, h.nodup, ?_, ?_⟩
  · intro i
    rw [h.effects]
    rcases hquiet i with hi | hi
    · rw [hi]
      exact ⟨nofun, nofun⟩
    · rw [hi]
      exact ⟨fun _ => rfl, fun _ => rfl⟩
  · intro host
    rw [hread, h.ordered]
    exact mem_applied host _ _

theorem blockStep_other (calls : Nat → BlockCall) (s : BlockServer) (h : j ≠ i) :
    (blockStep calls s i).stages j = s.stages j := by
  have hset (stage : BlockStage) : (s.setStage i stage).stages j = s.stages j :=
    setStage_other s stage h
  have htake (stage : BlockStage) : (takeFileLock s i stage).stages j = s.stages j := by
    rw [takeFileLock]
    split
    · exact hset stage
    · rfl
  rw [blockStep]
  cases s.stages i with
  | idle =>
    cases calls i with
    | markMitmBlocked host =>
      dsimp only
      split
      · exact hset _
      · exact hset _
    | clearMitmBlocked => exact htake _
    | clearMitmBlockedHost host => exact htake _
  | persistBlocklist => exact htake _
  | persisting => exact hset _
  | clearing =>
    cases calls i with
    | markMitmBlocked host => rfl
    | clearMitmBlocked => exact hset _
    | clearMitmBlockedHost host =>
      dsimp only
      split
      · exact hset _
      · exact hset _
  | writing content => exact hset _
  | returned => rfl

theorem blockRun_other (calls : Nat → BlockCall) (s : BlockServer) {schedule : List Nat}
    (h : j ∉ schedule) :
    (schedule.foldl (blockStep calls) s).stages j = s.stages j := by
  induction schedule generalizing s with
  | nil => rfl
  | cons i schedule ih =>
    rw [List.mem_cons, not_or] at h
    exact (ih _ h.2).trans (blockStep_other calls s h.1)

def isAsciiLetterOrNumber (c : UInt16) : Bool :=
  isDigit c || (0x41 ≤ c && c ≤ 0x5A) || (0x61 ≤ c && c ≤ 0x7A)

theorem plain_letter (h : isAsciiLetterOrNumber c = true) : Plain c := by
  refine plain_ascii ?_ (by decide) h
  intro c hc
  rw [isAsciiLetterOrNumber, isDigit] at hc
  simp only [Bool.or_eq_true, Bool.and_eq_true, decide_eq_true_eq] at hc
  rcases hc with (hc | hc) | hc
  · exact UInt16.lt_of_le_of_lt hc.2 (by decide)
  · exact UInt16.lt_of_le_of_lt hc.2 (by decide)
  · exact UInt16.lt_of_le_of_lt hc.2 (by decide)

def asciiTable : CharTable where
  isLetterOrNumber := isAsciiLetterOrNumber
  notSpace _ h := (plain_letter h).space
  notSurrogate _ h := ⟨(plain_letter h).high, (plain_letter h).low⟩
  notMark _ h := (plain_letter h).mark

def markAndClear : Nat → BlockCall
  | 0 => .markMitmBlocked (utf16 "a.b")
  | _ => .clearMitmBlocked

/-- The call that clears takes its turn in the middle of the one that marks. -/
theorem mark_and_clear_in_step :
    let s := [0, 1, 0, 1, 1, 0, 0, 0].foldl (blockStep markAndClear) (setBlocklistPath none)
    readBlocklist s.file = s.blocked ∧ s.order.Nodup ∧
      (∀ i, i ∈ s.order ↔ s.stages i = .returned) ∧
      ∀ host, host ∈ readBlocklist s.file ↔
        blockedAfter host (decide (host ∈ readBlocklist none)) (s.order.map markAndClear) =
          true := by
  refine blocklist_in_step asciiTable markAndClear ?_ none ?_ _ ?_
  · intro i host hcall
    cases i with
    | zero =>
      cases hcall
      decide
    | succ i => cases hcall
  · intro host hhost
    cases hhost
  · intro i
    match i with
    | 0 => exact .inr rfl
    | 1 => exact .inr rfl
    | i + 2 => exact .inl (blockRun_other _ _ (by simp))

end Nullock.Proxy

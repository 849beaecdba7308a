import Nullock.Engagements
import Nullock.OastReports

namespace Nullock.Application
open Oast Function

def OwnedList (p : QString) (l : List (Item α)) : Prop := ∀ i ∈ l, i.owner = p

structure Holdings.OwnedBy (h : Holdings α) (p : QString) : Prop where
  rows : OwnedList p h.rows
  findings : OwnedList p h.findings
  tabs : OwnedList p h.tabs
  attacks : OwnedList p h.attacks
  tokens : OwnedList p h.tokens
  cookies : OwnedList p h.cookies

structure Isolated (s : App α) : Prop where
  shown : s.shown.OwnedBy s.dir
  files : ∀ p, (s.files p).OwnedBy p

def Call.Owned (p : QString) : Call α → Prop
  | .told _ response => response.owner = p
  | .sent _ result => result.owner = p
  | .attackRow _ result => result.owner = p
  | .attackEnded => True
  | .resent _ result => result.owner = p

/-- Threads, connections and calls belong to the open project. -/
structure Tied (s : App α) : Prop where
  jobs : ∀ job ∈ s.jobs, job.owner = s.dir
  connections : ∀ p ∈ s.connections, p = s.dir
  posted : ∀ call ∈ s.posted, call.Owned s.dir

/-- Callbacks are of the open project; half-done opens find none. -/
def Apart (J : JsonLibrary) (W : WalkOrder) (K : Contents α) (s : App α) : Event α → Prop
  | .hit hit _ => ∀ report, (onHit J W s.correlator hit).2 = some report →
      s.minted hit.token = s.dir
  | .openProject dir .halfway => (switchGuard K s).2 = true → s.shown.tokens = [] ∨ dir = s.dir
  | _ => True

section Lists
variable {l : List (Item α)} {p : QString}

theorem OwnedList.nil : OwnedList p ([] : List (Item α)) := by
  intro i hi
  cases hi

theorem OwnedList.single {i : Item α} (hi : i.owner = p) : OwnedList p [i] := by
  intro j hj
  rw [List.mem_singleton.1 hj, hi]

theorem OwnedList.append (h : OwnedList p l) (h' : OwnedList p l') : OwnedList p (l ++ l') := by
  intro i hi
  rcases List.mem_append.1 hi with hi | hi
  · exact h i hi
  · exact h' i hi

theorem OwnedList.set (h : OwnedList p l) (n : Nat) {i : Item α} (hi : i.owner = p) :
    OwnedList p (l.set n i) := by
  intro j hj
  rcases List.mem_or_eq_of_mem_set hj with hj | rfl
  · exact h j hj
  · exact hi

theorem OwnedList.tagged (contents : List α) :
    OwnedList p (contents.map (fun c => (⟨p, c⟩ : Item α))) := by
  intro i hi
  obtain ⟨c, _, rfl⟩ := List.mem_map.1 hi
  rfl

theorem OwnedList.addCapped (h : OwnedList p l) (cap : Nat) {i : Item α} (hi : i.owner = p) :
    OwnedList p (addCapped cap l i) := by
  have hall := h.append (.single hi)
  rw [Application.addCapped]
  split
  · exact fun j hj => hall j (List.mem_of_mem_drop hj)
  · exact hall

theorem OwnedList.foldl_addCookie (K : Contents α) (h : OwnedList p l) (hjar : OwnedList p jar) :
    OwnedList p (l.foldl (addCookie K) jar) := by
  induction l generalizing jar with
  | nil => exact hjar
  | cons i l ih =>
    apply ih (fun j hj => h j (List.mem_cons_of_mem i hj))
    have hkept : OwnedList p (jar.filter (fun c => !K.sameCookie c.content i.content)) :=
      fun j hj => hjar j (List.mem_of_mem_filter hj)
    exact hkept.append (.single (h i List.mem_cons_self))

end Lists

section Calls
variable {K : Contents α} {s : App α}

theorem Isolated.write (h : Isolated s) {f : Holdings α → Holdings α}
    (hf : (f (s.files s.dir)).OwnedBy s.dir) : Isolated (s.write f) := by
  refine ⟨h.shown, ?_⟩
  intro p
  by_cases hp : p = s.dir
  · subst hp
    rw [App.write]
    dsimp only
    rw [update_self]
    exact hf
  · rw [App.write]
    dsimp only
    rw [update_of_ne hp]
    exact h.files p

structure Framed (s s' : App α) : Prop where
  dir : s'.dir = s.dir
  jobs : s'.jobs = s.jobs
  connections : s'.connections = s.connections
  posted : s'.posted = s.posted
  tokens : s'.shown.tokens = s.shown.tokens

theorem Framed.refl (s : App α) : Framed s s := ⟨rfl, rfl, rfl, rfl, rfl⟩

theorem Framed.trans {s s' s'' : App α} (h : Framed s s') (h' : Framed s' s'') : Framed s s'' :=
  ⟨h'.dir.trans h.dir, h'.jobs.trans h.jobs, h'.connections.trans h.connections,
    h'.posted.trans h.posted, h'.tokens.trans h.tokens⟩

theorem framed_addFinding (s : App α) (finding : Item α) (written : Bool) :
    Framed s (s.addFinding finding written) := by
  rw [App.addFinding]
  dsimp only
  split
  · exact ⟨rfl, rfl, rfl, rfl, rfl⟩
  · exact ⟨rfl, rfl, rfl, rfl, rfl⟩

theorem Isolated.addFinding (h : Isolated s) {finding : Item α} (hf : finding.owner = s.dir)
    (written : Bool) : Isolated (s.addFinding finding written) := by
  have hshown : Isolated { s with
      shown := { s.shown with findings := addCapped kCap s.shown.findings finding } } :=
    ⟨{ h.shown with findings := h.shown.findings.addCapped kCap hf }, h.files⟩
  rw [App.addFinding]
  dsimp only
  split
  · apply hshown.write
    exact { h.files s.dir with findings := (h.files s.dir).findings.append (.single hf) }
  · exact hshown

theorem framed_scanned (owner : QString) (findings : List α) (written : α → Bool) (s : App α) :
    Framed s (findings.foldl (fun s finding => s.addFinding ⟨owner, finding⟩ (written finding))
      s) := by
  induction findings generalizing s with
  | nil => exact .refl s
  | cons finding findings ih => exact (framed_addFinding s _ _).trans (ih _)

theorem Isolated.scanned (h : Isolated s) {owner : QString} (howner : owner = s.dir)
    (findings : List α) (written : α → Bool) :
    Isolated (findings.foldl (fun s finding => s.addFinding ⟨owner, finding⟩ (written finding))
      s) := by
  induction findings generalizing s with
  | nil => exact h
  | cons finding findings ih =>
    have hadded : Isolated (s.addFinding ⟨owner, finding⟩ (written finding)) :=
      h.addFinding howner _
    exact ih hadded (howner.trans (framed_addFinding s _ _).dir.symm)

theorem framed_run (s : App α) (call : Call α) : Framed s (call.run K s) := by
  cases call with
  | told receiver response =>
    cases receiver with
    | model => exact ⟨rfl, rfl, rfl, rfl, rfl⟩
    | store written =>
      rw [Call.run, Receiver.take]
      split
      · exact ⟨rfl, rfl, rfl, rfl, rfl⟩
      · exact .refl s
    | scanner written => exact framed_scanned _ _ _ s
    | jar => exact ⟨rfl, rfl, rfl, rfl, rfl⟩
  | sent tab result => exact ⟨rfl, rfl, rfl, rfl, rfl⟩
  | attackRow row result => exact ⟨rfl, rfl, rfl, rfl, rfl⟩
  | attackEnded => exact ⟨rfl, rfl, rfl, rfl, rfl⟩
  | resent row result => exact ⟨rfl, rfl, rfl, rfl, rfl⟩

theorem Isolated.run (h : Isolated s) {call : Call α} (hcall : call.Owned s.dir) :
    Isolated (call.run K s) := by
  cases call with
  | told receiver response =>
    cases receiver with
    | model =>
      exact ⟨{ h.shown with rows := h.shown.rows.addCapped K.maxRows hcall }, h.files⟩
    | store written =>
      rw [Call.run, Receiver.take]
      split
      · apply h.write
        exact { h.files s.dir with rows := (h.files s.dir).rows.append (.single hcall) }
      · exact h
    | scanner written => exact h.scanned hcall _ _
    | jar =>
      have hset : OwnedList s.dir ((K.cookies response.content).map
          (fun c => (⟨response.owner, c⟩ : Item α))) := by
        rw [show response.owner = s.dir from hcall]
        exact OwnedList.tagged _
      exact ⟨{ h.shown with cookies := hset.foldl_addCookie K h.shown.cookies }, h.files⟩
  | sent tab result =>
    exact ⟨{ h.shown with tabs := h.shown.tabs.set tab hcall }, h.files⟩
  | attackRow row result =>
    exact ⟨{ h.shown with attacks := h.shown.attacks.set row hcall }, h.files⟩
  | attackEnded => exact ⟨h.shown, h.files⟩
  | resent row result =>
    exact ⟨{ h.shown with attacks := h.shown.attacks.set row hcall }, h.files⟩

theorem framed_flush (calls : List (Call α)) (s : App α) :
    Framed s (calls.foldl (Call.run K) s) := by
  induction calls generalizing s with
  | nil => exact .refl s
  | cons call calls ih => exact (framed_run s call).trans (ih _)

theorem Isolated.flush (h : Isolated s) {calls : List (Call α)}
    (hcalls : ∀ call ∈ calls, call.Owned s.dir) : Isolated (calls.foldl (Call.run K) s) := by
  induction calls generalizing s with
  | nil => exact h
  | cons call calls ih =>
    have hrun := h.run (K := K) (hcalls call List.mem_cons_self)
    apply ih hrun
    intro call' hcall'
    rw [(framed_run s call).dir]
    exact hcalls call' (List.mem_cons_of_mem call hcall')

end Calls

section Switch
variable {K : Contents α} {s : App α}

theorem busy_false (h : busy s = false) : s.jobs = [] ∧ s.connections = [] := by
  rw [busy, Bool.or_eq_false_iff, Bool.or_eq_false_iff, Bool.or_eq_false_iff,
    Bool.not_eq_false', Bool.not_eq_false', List.isEmpty_iff, List.isEmpty_iff] at h
  exact h.1.1

/-- The guard keeps the project with its results, or leaves nothing under way. -/
theorem switchGuard_cases (s : App α) :
    (switchGuard K s = (s, false)) ∨
      ∃ s', switchGuard K s = (s', !busy s') ∧ s'.dir = s.dir ∧ s'.jobs = [] ∧
        s'.connections = [] ∧ s'.posted = [] ∧ s'.shown.tokens = s.shown.tokens ∧
        (Tied s → Isolated s → Isolated s') := by
  rw [switchGuard]
  split
  · exact .inl rfl
  · rename_i hfree
    obtain ⟨hjobs, hconnections⟩ := busy_false (Bool.eq_false_iff.2 hfree)
    have hframe := framed_flush (K := K) s.posted { s with posted := [] }
    refine .inr ⟨_, rfl, hframe.dir, hframe.jobs.trans hjobs, hframe.connections.trans hconnections,
      hframe.posted, hframe.tokens, ?_⟩
    intro htied h
    have hempty : Isolated { s with posted := [] } := ⟨h.shown, h.files⟩
    exact hempty.flush htied.posted

theorem tied_idle (hjobs : s.jobs = []) (hconnections : s.connections = [])
    (hposted : s.posted = []) : Tied s := by
  refine ⟨?_, ?_, ?_⟩
  · intro job hjob
    rw [hjobs] at hjob
    cases hjob
  · intro p hp
    rw [hconnections] at hp
    cases hp
  · intro call hcall
    rw [hposted] at hcall
    cases hcall

theorem Isolated.saved (h : Isolated s) (written : Parts) :
    Isolated (saveWorkspaces s written) := by
  have hold := h.files s.dir
  apply h.write
  refine ⟨hold.rows, hold.findings, ?_, ?_, ?_, ?_⟩
  · dsimp only
    split
    · exact h.shown.tabs
    · exact hold.tabs
  · dsimp only
    split
    · exact h.shown.attacks
    · exact hold.attacks
  · dsimp only
    split
    · exact h.shown.tokens
    · exact hold.tokens
  · dsimp only
    split
    · exact h.shown.cookies
    · exact hold.cookies

theorem Tied.openProject (h : Tied s) (dir : QString) (opening : Opening) :
    Tied (openProject K s dir opening) := by
  rw [Application.openProject]
  rcases switchGuard_cases (K := K) s with heq | ⟨s', heq, _, hjobs, hconnections, hposted, _⟩
  · rw [heq]
    exact h
  · rw [heq]
    dsimp only
    split
    · exact tied_idle hjobs hconnections hposted
    · cases opening with
      | refused => exact tied_idle hjobs hconnections hposted
      | unsaved written => exact tied_idle hjobs hconnections hposted
      | halfway => exact tied_idle hjobs hconnections hposted
      | opened => exact tied_idle hjobs hconnections hposted

end Switch

section Steps
variable {J : JsonLibrary} {W : WalkOrder} {K : Contents α} {s : App α}

theorem Tied.framed (h : Tied s) (hf : Framed s s') : Tied s' := by
  refine ⟨?_, ?_, ?_⟩
  · rw [hf.jobs, hf.dir]
    exact h.jobs
  · rw [hf.connections, hf.dir]
    exact h.connections
  · rw [hf.posted, hf.dir]
    exact h.posted

theorem Tied.startJob (h : Tied s) (tool : Tool) : Tied (s.startJob tool) := by
  refine ⟨?_, h.connections, h.posted⟩
  intro job hjob
  rcases List.mem_append.1 hjob with hjob | hjob
  · exact h.jobs job hjob
  · rw [List.mem_singleton.1 hjob]
    rfl

theorem Tied.post (h : Tied s) {calls : List (Call α)} (hcalls : ∀ call ∈ calls, call.Owned s.dir) :
    Tied { s with posted := s.posted ++ calls } := by
  refine ⟨h.jobs, h.connections, ?_⟩
  intro call hcall
  rcases List.mem_append.1 hcall with hcall | hcall
  · exact h.posted call hcall
  · exact hcalls call hcall

theorem Tied.postOne (h : Tied s) {call : Call α} (hcall : call.Owned s.dir) :
    Tied { s with posted := s.posted ++ [call] } := by
  apply h.post
  intro call' hcall'
  rw [List.mem_singleton.1 hcall']
  exact hcall

theorem Tied.produced (h : Tied s) {job : Job} (hjob : job.owner = s.dir) (row : Nat)
    (receiver : Receiver α) (content : α) : Tied (produced s job row receiver content) := by
  have hposts (receiver : Receiver α) :
      Tied { s with posted := s.posted ++ [.told receiver ⟨job.owner, content⟩] } :=
    h.postOne hjob
  unfold Application.produced
  cases job.tool with
  | repeater tab => exact h
  | resend row => exact h
  | intruder =>
    have hpost : Tied { s with posted := s.posted ++ [.attackRow row ⟨job.owner, content⟩] } :=
      h.postOne hjob
    exact hpost
  | sequencer => exact ⟨h.jobs, h.connections, h.posted⟩
  | crawler =>
    cases receiver with
    | jar => exact h
    | model => exact hposts .model
    | store written => exact hposts (.store written)
    | scanner written => exact hposts (.scanner written)

theorem Isolated.produced (h : Isolated s) {job : Job} (hjob : job.owner = s.dir) (row : Nat)
    (receiver : Receiver α) (content : α) : Isolated (produced s job row receiver content) := by
  unfold Application.produced
  cases job.tool with
  | repeater tab => exact h
  | resend row => exact h
  | intruder => exact ⟨h.shown, h.files⟩
  | sequencer =>
    exact ⟨{ h.shown with tokens := h.shown.tokens.append (.single hjob) }, h.files⟩
  | crawler =>
    cases receiver with
    | jar => exact h
    | model => exact ⟨h.shown, h.files⟩
    | store written => exact ⟨h.shown, h.files⟩
    | scanner written => exact ⟨h.shown, h.files⟩

theorem Tied.deliver (h : Tied s) : Tied (deliver K s) := by
  rw [Application.deliver]
  split
  · exact h
  · rename_i call posted hposted
    have hpop : Tied { s with posted := posted } :=
      ⟨h.jobs, h.connections, fun c hc => h.posted c (hposted ▸ List.mem_cons_of_mem call hc)⟩
    exact hpop.framed (framed_run _ call)

theorem Isolated.deliver (h : Isolated s) (htied : Tied s) : Isolated (deliver K s) := by
  rw [Application.deliver]
  split
  · exact h
  · rename_i call posted hposted
    have hpop : Isolated { s with posted := posted } := ⟨h.shown, h.files⟩
    exact hpop.run (htied.posted call (hposted ▸ List.mem_cons_self))

end Steps

section Samples

end Samples

end Nullock.Application

import Nullock.SessionVariables
import Nullock.RewriteBytes

namespace Nullock.SessionVariables
open ScopeLogic HttpLogic SessionRulesLogic SessionRules Proxy

structure HostView where
  rules : List CapturingRule
  macros : List SessionMacro
  reauthInFlight : Bool
  lastReauthMs : Int
  vars : QString → Option QString
  tasks : Thread → Option Task

def Thread.concerns (B : QString) (t : Thread) : Bool := t.host.all (fun host => host == B)

/-- What is not a response of another host, nor a step of a thread that works for one. -/
def Event.concerns (B : QString) : Event → Bool
  | .applyToResponse _ req _ => req.host == B
  | .resume t _ _ => t.concerns B
  | _ => true

/-- Every macro that a response looked up logs in to its own host. -/
def OwnRefresh (s : State) : Event → Prop
  | .resume t _ _ => ∀ host name m, t.host = some host → s.tasks t = some (.lookup name) →
      namedMacro s.macros name = some m → m.sessionHost = host
  | _ => True

/-- A macro that a response started will put its variables under its host. -/
def OwnIngest (s : State) : Prop :=
  ∀ t host sessionHost, t.host = some host → s.tasks t = some (.ingest sessionHost) →
    sessionHost = host

namespace State

def viewOf (B : QString) (s : State) : HostView :=
  { rules := s.rules
    macros := s.macros
    reauthInFlight := s.reauthInFlight B
    lastReauthMs := s.lastReauthMs B
    vars := s.varsByHost B
    tasks := fun t => if t.concerns B then s.tasks t else none }

theorem viewOf_eq_iff : viewOf B s = viewOf B s' ↔
    s.rules = s'.rules ∧ s.macros = s'.macros ∧ s.reauthInFlight B = s'.reauthInFlight B ∧
      s.lastReauthMs B = s'.lastReauthMs B ∧ s.varsByHost B = s'.varsByHost B ∧
      ∀ t, t.concerns B = true → s.tasks t = s'.tasks t := by
  rw [viewOf, viewOf, HostView.mk.injEq]
  constructor
  · intro h
    refine ⟨h.1, h.2.1, h.2.2.1, h.2.2.2.1, h.2.2.2.2.1, ?_⟩
    intro t ht
    have htask := congrFun h.2.2.2.2.2 t
    rwa [if_pos ht, if_pos ht] at htask
  · intro h
    refine ⟨h.1, h.2.1, h.2.2.1, h.2.2.2.1, h.2.2.2.2.1, ?_⟩
    funext t
    by_cases ht : t.concerns B = true
    · rw [if_pos ht, if_pos ht]
      exact h.2.2.2.2.2 t ht
    · rw [if_neg ht, if_neg ht]

theorem setTask_congr (h : viewOf B s = viewOf B s') (t : Thread) (task : Option Task) :
    viewOf B (s.setTask t task) = viewOf B (s'.setTask t task) := by
  obtain ⟨hrules, hmacros, hflight, hlast, hvars, htasks⟩ := viewOf_eq_iff.1 h
  apply viewOf_eq_iff.2
  refine ⟨hrules, hmacros, hflight, hlast, hvars, ?_⟩
  intro t' ht'
  by_cases heq : t' = t
  · rw [heq]
    simp only [setTask, Function.update_self]
  · simp only [setTask, Function.update_of_ne heq]
    exact htasks t' ht'

theorem setTask_other (h : t.concerns B = false) (s : State) (task : Option Task) :
    viewOf B (s.setTask t task) = viewOf B s := by
  apply viewOf_eq_iff.2
  refine ⟨rfl, rfl, rfl, rfl, rfl, ?_⟩
  intro t' ht'
  apply Function.update_of_ne
  intro heq
  rw [heq, h] at ht'
  cases ht'

theorem mergeVars_congr (h : viewOf B s = viewOf B s') (host : QString) (vars : Variables) :
    viewOf B (s.mergeVars host vars) = viewOf B (s'.mergeVars host vars) := by
  obtain ⟨hrules, hmacros, hflight, hlast, hvars, htasks⟩ := viewOf_eq_iff.1 h
  apply viewOf_eq_iff.2
  refine ⟨hrules, hmacros, hflight, hlast, ?_, htasks⟩
  by_cases heq : B = host
  · rw [← heq]
    simp only [mergeVars, Function.update_self, hvars]
  · simp only [mergeVars, Function.update_of_ne heq, hvars]

theorem mergeVars_other (h : host ≠ B) (s : State) (vars : Variables) :
    viewOf B (s.mergeVars host vars) = viewOf B s := by
  apply viewOf_eq_iff.2
  exact ⟨rfl, rfl, rfl, rfl, Function.update_of_ne h.symm .., fun _ _ => rfl⟩

theorem ingestVariables_congr (h : viewOf B s = viewOf B s') (host : QString)
    (vars : Variables) :
    viewOf B (s.ingestVariables host vars) = viewOf B (s'.ingestVariables host vars) := by
  rw [State.ingestVariables, State.ingestVariables]
  split
  · exact h
  · exact mergeVars_congr h host vars

theorem ingestVariables_other (h : host ≠ B) (s : State) (vars : Variables) :
    viewOf B (s.ingestVariables host vars) = viewOf B s := by
  rw [State.ingestVariables]
  split
  · rfl
  · exact mergeVars_other h s vars

theorem setInFlight_congr (h : viewOf B s = viewOf B s') (host : QString) (inFlight : Bool) :
    viewOf B (s.setInFlight host inFlight) = viewOf B (s'.setInFlight host inFlight) := by
  obtain ⟨hrules, hmacros, hflight, hlast, hvars, htasks⟩ := viewOf_eq_iff.1 h
  apply viewOf_eq_iff.2
  refine ⟨hrules, hmacros, ?_, hlast, hvars, htasks⟩
  by_cases heq : B = host
  · rw [← heq]
    simp only [setInFlight, Function.update_self]
  · simp only [setInFlight, Function.update_of_ne heq, hflight]

theorem setInFlight_other (h : host ≠ B) (s : State) (inFlight : Bool) :
    viewOf B (s.setInFlight host inFlight) = viewOf B s := by
  apply viewOf_eq_iff.2
  exact ⟨rfl, rfl, Function.update_of_ne h.symm .., rfl, rfl, fun _ _ => rfl⟩

theorem stampReauth_congr (h : viewOf B s = viewOf B s') (host : QString) (now : Int) :
    viewOf B (s.stampReauth host now) = viewOf B (s'.stampReauth host now) := by
  obtain ⟨hrules, hmacros, hflight, hlast, hvars, htasks⟩ := viewOf_eq_iff.1 h
  apply viewOf_eq_iff.2
  refine ⟨hrules, hmacros, hflight, ?_, hvars, htasks⟩
  by_cases heq : B = host
  · rw [← heq]
    simp only [stampReauth, Function.update_self]
  · simp only [stampReauth, Function.update_of_ne heq, hlast]

theorem stampReauth_other (h : host ≠ B) (s : State) (now : Int) :
    viewOf B (s.stampReauth host now) = viewOf B s := by
  apply viewOf_eq_iff.2
  exact ⟨rfl, rfl, rfl, Function.update_of_ne h.symm .., rfl, fun _ _ => rfl⟩

end State

section Steps
open State
variable {E : RegexEngine} {L : TextLibrary} {X : ExtractLibrary}

theorem begin_congr (h : viewOf B s = viewOf B s') (ht : t.concerns B = true) (task : Task) :
    viewOf B (begin s t task) = viewOf B (begin s' t task) := by
  have htask := (viewOf_eq_iff.1 h).2.2.2.2.2 t ht
  rw [begin, begin, htask]
  split
  · exact setTask_congr h t _
  · exact h

theorem begin_other (h : t.concerns B = false) (s : State) (task : Task) :
    viewOf B (begin s t task) = viewOf B s := by
  rw [begin]
  split
  · exact setTask_other h s _
  · rfl

theorem maybeReauth_congr (h : viewOf B s = viewOf B s') (t : Thread)
    (resp : InspectedResponse) (now : Int) :
    viewOf B (maybeReauth E L s t B resp now) = viewOf B (maybeReauth E L s' t B resp now) := by
  obtain ⟨-, hmacros, hflight, hlast, -, -⟩ := viewOf_eq_iff.1 h
  rw [maybeReauth, maybeReauth, hmacros, hflight, hlast]
  split
  · exact setTask_congr h t _
  · split
    · exact setTask_congr h t _
    · split
      · exact setTask_congr h t _
      · exact setTask_congr (stampReauth_congr (setInFlight_congr h B true) B now) t _

theorem maybeReauth_other (ht : t.concerns B = false) (hhost : host ≠ B) (s : State)
    (resp : InspectedResponse) (now : Int) :
    viewOf B (maybeReauth E L s t host resp now) = viewOf B s := by
  rw [maybeReauth]
  split
  · exact setTask_other ht s _
  · split
    · exact setTask_other ht s _
    · split
      · exact setTask_other ht s _
      · rw [setTask_other ht, stampReauth_other hhost, setInFlight_other hhost]

theorem lookupMacro_congr (h : viewOf B s = viewOf B s') (t : Thread) (name : QString) :
    viewOf B (lookupMacro s t name) = viewOf B (lookupMacro s' t name) := by
  obtain ⟨-, hmacros, -⟩ := viewOf_eq_iff.1 h
  rw [lookupMacro, lookupMacro, hmacros]
  split
  · exact setTask_congr h t _
  · exact setTask_congr h t _

theorem lookupMacro_other (ht : t.concerns B = false) (s : State) (name : QString) :
    viewOf B (lookupMacro s t name) = viewOf B s := by
  rw [lookupMacro]
  split
  · exact setTask_other ht s _
  · exact setTask_other ht s _

theorem resume_congr (h : viewOf B s = viewOf B s') (ht : t.concerns B = true) (now : Int)
    (answer : Variables) :
    viewOf B (resume E L s t now answer) = viewOf B (resume E L s' t now answer) := by
  have htask := (viewOf_eq_iff.1 h).2.2.2.2.2 t ht
  have hhost : ∀ host, t.host = some host → host = B := by
    intro host hh
    rw [Thread.concerns, hh] at ht
    exact eq_of_beq ht
  rw [resume, resume, htask]
  split
  · rename_i newVars resp host _ _
    exact setTask_congr (mergeVars_congr h host newVars) t _
  · rename_i resp host _ hh
    rw [hhost host hh]
    exact maybeReauth_congr h t resp now
  · exact lookupMacro_congr h t _
  · exact setTask_congr (ingestVariables_congr h _ answer) t _
  · exact setTask_congr (setInFlight_congr h _ false) t _
  · exact h

theorem resume_other (hown : OwnIngest s) (ht : t.concerns B = false) (now : Int)
    (answer : Variables) : viewOf B (resume E L s t now answer) = viewOf B s := by
  have hhost : ∀ host, t.host = some host → host ≠ B := by
    intro host hh heq
    rw [Thread.concerns, hh, heq] at ht
    exact absurd ht (by simp)
  rw [resume]
  split
  · rename_i newVars resp host _ hh
    rw [setTask_other ht, mergeVars_other (hhost host hh)]
  · rename_i resp host _ hh
    exact maybeReauth_other ht (hhost host hh) s resp now
  · exact lookupMacro_other ht s _
  · rename_i sessionHost htask
    cases hh : t.host with
    | none =>
      rw [Thread.concerns, hh] at ht
      cases ht
    | some host =>
      have hsession : sessionHost = host := hown t host sessionHost hh htask
      rw [setTask_other ht, ingestVariables_other (hsession ▸ hhost host hh)]
  · rename_i host _ hh
    rw [setTask_other ht, setInFlight_other (hhost host hh)]
  · rfl

theorem step_congr (s s' : State) (e : Event) (h : viewOf B s = viewOf B s')
    (he : e.concerns B = true) : viewOf B (step E L X s e) = viewOf B (step E L X s' e) := by
  obtain ⟨hrules, hmacros, hflight, hlast, hvars, htasks⟩ := viewOf_eq_iff.1 h
  cases e with
  | setRules rules => exact viewOf_eq_iff.2 ⟨rfl, hmacros, hflight, hlast, hvars, htasks⟩
  | setMacros macros => exact viewOf_eq_iff.2 ⟨hrules, rfl, hflight, hlast, hvars, htasks⟩
  | clearAll => exact viewOf_eq_iff.2 ⟨hrules, hmacros, hflight, hlast, rfl, htasks⟩
  | ingestVariables host vars => exact ingestVariables_congr h host vars
  | runMacro number name => exact begin_congr h rfl _
  | applyToResponse number req resp =>
    rw [step, step, hrules, hmacros]
    exact begin_congr (t := ⟨some req.host, number⟩) h he _
  | resume t now answer => exact resume_congr h he now answer

theorem step_other (s : State) (e : Event) (hown : OwnIngest s) (he : e.concerns B = false) :
    viewOf B (step E L X s e) = viewOf B s := by
  cases e with
  | applyToResponse number req resp =>
    exact begin_other (t := ⟨some req.host, number⟩) he s _
  | resume t now answer => exact resume_other hown he now answer
  | _ => cases he

theorem OwnIngest.of_tasks (h : OwnIngest s) (ht : s'.tasks = s.tasks) : OwnIngest s' := by
  intro t host sessionHost hh htask
  exact h t host sessionHost hh (ht ▸ htask)

theorem OwnIngest.setTask (h : OwnIngest s)
    (hnew : ∀ host sessionHost, t.host = some host → task = some (.ingest sessionHost) →
      sessionHost = host) : OwnIngest (s.setTask t task) := by
  intro t' host sessionHost hh htask
  by_cases heq : t' = t
  · rw [heq] at hh htask
    simp only [State.setTask, Function.update_self] at htask
    exact hnew host sessionHost hh htask
  · simp only [State.setTask, Function.update_of_ne heq] at htask
    exact h t' host sessionHost hh htask

theorem OwnIngest.setTask_ne (h : OwnIngest s)
    (hnew : ∀ sessionHost, task ≠ some (.ingest sessionHost)) : OwnIngest (s.setTask t task) :=
  h.setTask (fun _ sessionHost _ htask => absurd htask (hnew sessionHost))

theorem afterMacro_ne (t : Thread) (sessionHost : QString) :
    t.afterMacro ≠ some (.ingest sessionHost) := by
  rw [Thread.afterMacro]
  cases t.host with
  | none => nofun
  | some host => nofun

theorem OwnIngest.ingestVariables (h : OwnIngest s) (host : QString) (vars : Variables) :
    OwnIngest (s.ingestVariables host vars) := by
  rw [State.ingestVariables]
  split
  · exact h
  · exact h.of_tasks rfl

theorem OwnIngest.begin (h : OwnIngest s) (hnew : ∀ sessionHost, task ≠ .ingest sessionHost) :
    OwnIngest (begin s t task) := by
  rw [SessionVariables.begin]
  split
  · exact h.setTask_ne (fun sessionHost heq => hnew sessionHost (Option.some.inj heq))
  · exact h

theorem OwnIngest.maybeReauth (h : OwnIngest s) (t : Thread) (host : QString)
    (resp : InspectedResponse) (now : Int) : OwnIngest (maybeReauth E L s t host resp now) := by
  rw [SessionVariables.maybeReauth]
  split
  · exact h.setTask_ne nofun
  · split
    · exact h.setTask_ne nofun
    · split
      · exact h.setTask_ne nofun
      · refine OwnIngest.setTask_ne (h.of_tasks rfl) ?_
        intro sessionHost
        split <;> nofun

theorem OwnIngest.lookupMacro (h : OwnIngest s)
    (hm : ∀ host m, t.host = some host → namedMacro s.macros name = some m →
      m.sessionHost = host) : OwnIngest (lookupMacro s t name) := by
  rw [SessionVariables.lookupMacro]
  split
  · rename_i m hfound
    apply h.setTask
    intro host sessionHost hh htask
    split at htask
    · cases htask
      exact hm host m hh hfound
    · exact absurd htask (afterMacro_ne t sessionHost)
  · exact h.setTask_ne (afterMacro_ne t)

theorem OwnIngest.resume (h : OwnIngest s) (hown : OwnRefresh s (.resume t now answer)) :
    OwnIngest (resume E L s t now answer) := by
  rw [SessionVariables.resume]
  split
  · exact OwnIngest.setTask_ne (h.of_tasks rfl) nofun
  · exact h.maybeReauth t _ _ now
  · rename_i name htask
    exact h.lookupMacro (fun host m hh hm => hown host name m hh htask hm)
  · exact (h.ingestVariables _ answer).setTask_ne (afterMacro_ne t)
  · exact OwnIngest.setTask_ne (h.of_tasks rfl) nofun
  · exact h

theorem ownIngest_step (s : State) (e : Event) (h : OwnIngest s) (hown : OwnRefresh s e) :
    OwnIngest (step E L X s e) := by
  cases e with
  | setRules rules => exact h.of_tasks rfl
  | setMacros macros => exact h.of_tasks rfl
  | clearAll => exact h.of_tasks rfl
  | ingestVariables host vars => exact h.ingestVariables host vars
  | runMacro number name => exact h.begin nofun
  | applyToResponse number req resp =>
    apply h.begin
    intro sessionHost
    split <;> nofun
  | resume t now answer => exact h.resume hown

theorem applyToRequest_congr (h : viewOf B s = viewOf B s') (tool : UInt32)
    (hreq : req.host = B) :
    s.applyToRequest E L tool req = s'.applyToRequest E L tool req := by
  obtain ⟨hrules, -, -, -, hvars, -⟩ := viewOf_eq_iff.1 h
  rw [State.applyToRequest, State.applyToRequest, SessionRules.applyToRequest,
    SessionRules.applyToRequest, hrules, hreq, hvars]

/-- Runs that differ for other hosts only rewrite a host's requests alike. -/
theorem requests_isolated (E : RegexEngine) (L : TextLibrary) (X : ExtractLibrary) (B : QString)
    (events events' : List Event) (h : Along (step E L X) OwnRefresh {} events)
    (h' : Along (step E L X) OwnRefresh {} events')
    (hsame : events.filter (Event.concerns B) = events'.filter (Event.concerns B))
    (tool : UInt32) (req : ProxiedRequest) (hreq : req.host = B) :
    (events.foldl (step E L X) {}).applyToRequest E L tool req =
      (events'.foldl (step E L X) {}).applyToRequest E L tool req := by
  have hstart : OwnIngest {} := by
    intro t host sessionHost _ htask
    cases htask
  have hview : viewOf B (events.foldl (step E L X) {}) =
      viewOf B (events'.foldl (step E L X) {}) :=
    view_eq_of_filter_eq ownIngest_step (fun s e hown _ he => step_other s e hown he)
      step_congr hstart h h' hsame
  exact applyToRequest_congr hview tool hreq

end Steps

section Samples

def noExtracts : ExtractLibrary := ⟨fun _ => false, fun _ _ => none, fun _ => none, fun _ => []⟩

def tokenRule : CapturingRule :=
  { variableName := utf16 "t"
    injectKey := utf16 "X-Token"
    extractKey := utf16 "X-Token" }

def loginMacro : SessionMacro :=
  { name := utf16 "login"
    sessionHost := utf16 "a.example"
    loggedOutStatus := utf16 "401" }

def tokenResponse (status : Int) (token : QString) : InspectedResponse :=
  { httpVersion := utf16 "HTTP/1.1"
    statusCode := status
    reasonPhrase := []
    headers := [(utf16 "X-Token", token)]
    body := [] }

def requestTo (host : QString) : ProxiedRequest :=
  { method := utf16 "GET"
    target := utf16 "/"
    httpVersion := utf16 "HTTP/1.1"
    headers := []
    path := utf16 "/"
    body := []
    host := host
    port := 80
    tls := false }

/-- A host hands out a token, logs the user out, and is logged into again. -/
def loginRun (token : QString) : List Event :=
  [.setRules [tokenRule], .setMacros [loginMacro],
    .applyToResponse 0 (requestTo (utf16 "a.example")) (tokenResponse 200 token),
    .resume ⟨some (utf16 "a.example"), 0⟩ 0 [], .resume ⟨some (utf16 "a.example"), 0⟩ 0 [],
    .applyToResponse 1 (requestTo (utf16 "a.example")) (tokenResponse 401 token),
    .resume ⟨some (utf16 "a.example"), 1⟩ 5000 [], .resume ⟨some (utf16 "a.example"), 1⟩ 0 [],
    .resume ⟨some (utf16 "a.example"), 1⟩ 0 [(utf16 "t", token ++ token)],
    .resume ⟨some (utf16 "a.example"), 1⟩ 0 []]

theorem begin_macros (s : State) (t : Thread) (task : Task) :
    (begin s t task).macros = s.macros := by
  rw [begin]
  split <;> rfl

theorem resume_macros (E : RegexEngine) (L : TextLibrary) (s : State) (t : Thread) (now : Int)
    (answer : Variables) : (resume E L s t now answer).macros = s.macros := by
  rw [resume]
  split
  · rfl
  · rw [maybeReauth]
    split
    · rfl
    · split
      · rfl
      · split <;> rfl
  · rw [lookupMacro]
    split <;> rfl
  · rw [State.setTask, State.ingestVariables]
    split <;> rfl
  · rfl
  · rfl

theorem ownRefresh_of_macros (h : ∀ m ∈ s.macros, t.host = some m.sessionHost) :
    OwnRefresh s (.resume t now answer) := by
  intro host name m hh _ hm
  have hmem : m ∈ s.macros := List.mem_of_find?_eq_some hm
  exact Option.some.inj ((h m hmem).symm.trans hh)

theorem loginRun_ownRefresh (token : QString) :
    Along (step anyMatch asciiLibrary noExtracts) OwnRefresh {} (loginRun token) := by
  have hown (s : State) (number : Nat) (now : Int) (answer : Variables)
      (hs : s.macros = [loginMacro]) :
      OwnRefresh s (.resume ⟨some (utf16 "a.example"), number⟩ now answer) := by
    apply ownRefresh_of_macros
    intro m hm
    rw [hs, List.mem_singleton] at hm
    rw [hm]
    rfl
  refine ⟨trivial, trivial, trivial, hown _ _ _ _ ?_, hown _ _ _ _ ?_, trivial,
    hown _ _ _ _ ?_, hown _ _ _ _ ?_, hown _ _ _ _ ?_, hown _ _ _ _ ?_, trivial⟩
  all_goals simp only [step, resume_macros, begin_macros]

theorem loginRun_filter (token : QString) :
    (loginRun token).filter (Event.concerns (utf16 "b.example")) =
      [.setRules [tokenRule], .setMacros [loginMacro]] := by
  have hhost : (utf16 "a.example" == utf16 "b.example") = false := by decide
  simp only [loginRun, requestTo, List.filter_cons, List.filter_nil, Event.concerns,
    Thread.concerns, Option.all_some, hhost, if_true, Bool.false_eq_true, if_false]

/-- The token of one host, and the login after it expired, do not reach another. -/
theorem requests_isolated_login :
    ((loginRun (utf16 "x")).foldl (step anyMatch asciiLibrary noExtracts) {}).applyToRequest
        anyMatch asciiLibrary ToolProxy (requestTo (utf16 "b.example")) =
      ((loginRun (utf16 "y")).foldl (step anyMatch asciiLibrary noExtracts) {}).applyToRequest
        anyMatch asciiLibrary ToolProxy (requestTo (utf16 "b.example")) ∧
    ((loginRun (utf16 "x")).foldl (step anyMatch asciiLibrary noExtracts) {}).applyToRequest
        anyMatch asciiLibrary ToolProxy (requestTo (utf16 "a.example")) ≠
      ((loginRun (utf16 "y")).foldl (step anyMatch asciiLibrary noExtracts) {}).applyToRequest
        anyMatch asciiLibrary ToolProxy (requestTo (utf16 "a.example")) :=
  ⟨requests_isolated anyMatch asciiLibrary noExtracts (utf16 "b.example") _ _
    (loginRun_ownRefresh _) (loginRun_ownRefresh _)
    ((loginRun_filter _).trans (loginRun_filter _).symm) ToolProxy _ rfl, by decide⟩

end Samples

end Nullock.SessionVariables

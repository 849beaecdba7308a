import Nullock.IntruderPersist
import Nullock.IntruderResend
import Nullock.IntruderRuns

namespace Nullock.Intruder
open ScopeLogic HttpLogic Proxy SessionRules IntruderEngine IntruderRules IntruderGrep RedirectLogic
open IntruderPersist

inductive RunEvent where
  | dispatch
  /-- A row has its answer; after a stop at most `cut` retries are made. -/
  | answered (k cut : Nat) (elapsedMs : Int)
  | joined
  | deliver
  | stop
deriving DecidableEq

structure Sending where
  state : State
  sent : List (Nat × SentRequest) := []

def sentFor (i : Nat) (sent : List (Nat × SentRequest)) : List SentRequest :=
  (sent.filter (fun e => e.1 == i)).map Prod.snd

def retriesMade (send : Server) (request : SentRequest) : Nat → SendResult → Nat
  | 0, _ => 0
  | attempts + 1, result =>
    if result.ok then 0 else retriesMade send request attempts (send request) + 1

def outcomeOf (grade : Grade) (elapsedMs : Int) : Outcome where
  statusCode := grade.statusCode
  responseSize := grade.responseSize
  elapsedMs := Int.bmod elapsedMs (2 ^ 32)
  errorMessage := grade.errorMessage
  matched := grade.matched
  reflected := grade.reflected
  extracted := grade.extracted

section Sending
variable (env : Environment) (send : Server) (c : RunConfig)

def fireAgain (attempts : Nat) (combo : Combo) : Fired :=
  fire env c send (scopeOfUrl env) attempts (processed env c combo) combo

def firing (attempts : Nat) (combo : Combo) : List SentRequest :=
  match (fireAgain env send c attempts combo).first with
  | none => []
  | some request =>
    List.replicate (retriesMade send request attempts (send request) + 1) request ++
      (fireAgain env send c attempts combo).followed

def attemptsLeft (stopRequested : Bool) (cut : Nat) : Nat :=
  if stopRequested then min cut c.retries.toNat else c.retries.toNat

def Sending.answered (s : Sending) (k cut : Nat) (elapsedMs : Int) : Sending :=
  match s.state.worker with
  | none => s
  | some w =>
    match w.inFlight[k]? with
    | none => s
    | some (row, combo) =>
      let attempts := attemptsLeft w.config s.state.stopRequested cut
      { state := complete s.state k
          (outcomeOf (fireAgain env send w.config attempts combo).grade elapsedMs)
        sent := s.sent ++ (firing env send w.config attempts combo).map (fun r => (row, r)) }

def Sending.step (s : Sending) : RunEvent → Sending
  | .dispatch =>
    { s with
      state := { s.state with
        worker := s.state.worker.map (Worker.dispatch s.state.stopRequested) } }
  | .answered k cut elapsedMs => s.answered env send k cut elapsedMs
  | .joined => { s with state := joined s.state }
  | .deliver => { s with state := deliver s.state }
  | .stop => { s with state := stop s.state }

def Sending.run (s : Sending) (events : List RunEvent) : Sending :=
  events.foldl (Sending.step env send) s

/-- The row that a combination has in the end, but for the time it took. -/
def answeredRow (i : Nat) (combo : Combo) : ResultRow :=
  let grade := (fireOne env c send combo).grade
  { id := i + 1
    payloadValues := displayValues combo
    combo := combo
    statusCode := grade.statusCode
    responseSize := grade.responseSize
    errorMessage := grade.errorMessage
    complete := true
    matched := grade.matched
    reflected := grade.reflected
    extracted := grade.extracted }

end Sending

def IntruderAttack.seen (a : IntruderAttack) : ResultRow := { a.toResultRow with elapsedMs := 0 }

def State.seen (s : State) : List ResultRow := s.attacks.map IntruderAttack.seen

def Callback.Brings (env : Environment) (send : Server) (c : RunConfig) (combos : List Combo) :
    Callback → Prop
  | .result row display outcome _ => ∃ combo elapsedMs, combos[row]? = some combo ∧
      display = displayValues combo ∧
      outcome = outcomeOf (fireOne env c send combo).grade elapsedMs
  | .resent _ _ _ => False
  | .finished => True

structure Graded (env : Environment) (send : Server) (c : RunConfig) (combos : List Combo)
    (s : State) : Prop where
  inv : s.Inv
  length : s.attacks.length = combos.length
  rows : ∀ i a combo, s.attacks[i]? = some a → combos[i]? = some combo →
    a.seen = if a.complete then answeredRow env send c i combo else (newAttack i combo).toResultRow
  elapsed : ∀ a ∈ s.attacks, IsInt32 a.elapsedMs
  config : ∀ w, s.worker = some w → w.config = c ∧ w.chain = none
  pending : ∀ w, s.worker = some w → ∀ e ∈ w.pending, combos[e.1]? = some e.2
  queue : ∀ cb ∈ s.queue, cb.Brings env send c combos

structure Covered (s : State) : Prop where
  going : s.stopRequested = false
  rows : ∀ i a, s.attacks[i]? = some a → a.complete = false → ∃ e ∈ s.owed, e.1 = i

def SentOnce (env : Environment) (send : Server) (c : RunConfig) (combos : List Combo)
    (s : Sending) : Prop :=
  ∀ i,
    (sentFor i s.sent = [] ∧ (∀ a, s.state.attacks[i]? = some a → a.complete = false) ∧
      i ∉ (s.state.queue.filterMap Callback.owed).map Prod.fst) ∨
    ((∃ attempts ≤ c.retries.toNat, ∃ combo, combos[i]? = some combo ∧
      sentFor i s.sent = firing env send c attempts combo) ∧
      ∀ w, s.state.worker = some w → i ∉ w.pending.map Prod.fst)

section Workers
variable {w : Worker}

theorem dispatch_config (w : Worker) (stopRequested : Bool) :
    (w.dispatch stopRequested).config = w.config := by
  rw [Worker.dispatch]
  split
  · rfl
  · split
    · rfl
    · split
      · split
        · rfl
        · rfl
      · split
        · rfl
        · split
          · rfl
          · rfl

theorem dispatch_going (h : w.chain = none) : (w.dispatch false).pending = w.pending := by
  rw [Worker.dispatch]
  split
  · rfl
  · rename_i i combo todo htodo
    rw [if_neg Bool.false_ne_true, h]
    dsimp only
    split
    · rename_i hskip
      rw [Worker.pending, Worker.pending, htodo]
      simp [hskip]
    · rename_i hskip
      split
      · rfl
      · rw [Worker.pending, Worker.pending, htodo]
        simp [hskip]

theorem dispatch_kept (h : w.chain = none) (stopRequested : Bool) :
    (w.dispatch stopRequested).pending.Sublist w.pending := by
  cases stopRequested with
  | false =>
    rw [dispatch_going h]
  | true =>
    rw [Worker.dispatch]
    split
    · exact .refl _
    · rw [if_pos rfl]
      exact List.Sublist.append_left (List.nil_sublist _) _

theorem completed_plain (h : w.chain = none) (k : Nat) (outcome : Outcome) :
    w.completed k outcome = { w with inFlight := w.inFlight.eraseIdx k } := by
  rw [Worker.completed]
  dsimp only
  rw [h]

theorem mem_completed (h : w.chain = none) (hk : w.inFlight[k]? = some e) (outcome : Outcome)
    (hmem : e' ∈ w.pending) : e' = e ∨ e' ∈ (w.completed k outcome).pending := by
  obtain ⟨hlt, he⟩ := List.getElem?_eq_some_iff.1 hk
  have hperm := List.getElem_cons_eraseIdx_perm hlt
  rw [completed_plain h, Worker.pending, List.mem_append]
  rcases List.mem_append.1 hmem with hflight | htodo
  · rcases List.mem_cons.1 (hperm.symm.subset hflight) with heq | hrest
    · exact .inl (heq.trans he)
    · exact .inr (.inl hrest)
  · exact .inr (.inr htodo)

end Workers

section Requests
variable {env : Environment} {send : Server} {c : RunConfig}

theorem fireAgain_grade (attempts : Nat) (combo : Combo) :
    fireAgain env send c attempts combo = fireOne env c send combo := by
  rw [fireAgain, fireOne]
  apply fire_congr send c.retries.toNat attempts rfl
  · intro _ _ _ _ _ _
    rfl
  · intro _ _ _ _
    rfl

theorem attemptsLeft_le (stopRequested : Bool) (cut : Nat) :
    attemptsLeft c stopRequested cut ≤ c.retries.toNat := by
  rw [attemptsLeft]
  split
  · exact Nat.min_le_right _ _
  · exact Nat.le_refl _

theorem sentFor_append (i : Nat) (sent sent' : List (Nat × SentRequest)) :
    sentFor i (sent ++ sent') = sentFor i sent ++ sentFor i sent' := by
  rw [sentFor, List.filter_append, List.map_append]
  rfl

theorem sentFor_own (i : Nat) (requests : List SentRequest) :
    sentFor i (requests.map (fun r => (i, r))) = requests := by
  rw [sentFor, List.filter_eq_self.2, List.map_map]
  · exact List.map_id _
  · intro e he
    obtain ⟨r, _, rfl⟩ := List.mem_map.1 he
    exact beq_self_eq_true i

theorem sentFor_other (h : row ≠ i) (requests : List SentRequest) :
    sentFor i (requests.map (fun r => (row, r))) = [] := by
  rw [sentFor, List.filter_eq_nil_iff.2]
  · rfl
  · intro e he
    obtain ⟨r, _, rfl⟩ := List.mem_map.1 he
    exact fun heq => h (beq_iff_eq.1 heq)

end Requests

end Nullock.Intruder

import Nullock.IntruderResumed
import Nullock.JsonText

namespace Nullock.Intruder
open ScopeLogic HttpLogic Proxy SessionRules IntruderEngine IntruderRules IntruderGrep RedirectLogic
open IntruderPersist

structure IntAnswers (send : Server) : Prop where
  status : ∀ request, IsInt32 (send request).parsed.statusCode
  size : ∀ request, IsInt32 ((send request).parsed.body.length)

structure State.Idle (s : State) : Prop where
  stopped : s.running = false
  worker : s.worker = none
  queue : s.queue = []
  resends : s.resends = []

def saveRun (J : JsonLibrary) (s : State) (throttleMs : Int) : QByteArray :=
  toBytes J
    { config := s.config
      rows := s.attacks.map IntruderAttack.toResultRow
      throttleMs := throttleMs }

/-- An attack that is saved in one place and taken up again in a new one. -/
def reloaded (J : JsonLibrary) (bytes : QByteArray) : Sending :=
  { state := resume (loadRun {} (fromBytes J bytes).toSavedRun) }

def begun (env : Environment) (s : State) : Sending := { state := start env.E env.P s }

section Numbers

theorem isInt32_zero : IsInt32 0 := by decide

theorem clusterBombFrom_length (sets : List (List QString)) (limit : Nat) (idx : List Nat) :
    (clusterBombFrom sets limit idx).length ≤ limit := by
  induction limit generalizing idx with
  | zero => exact Nat.le_refl 0
  | succ limit ih =>
    rw [clusterBombFrom, List.length_cons]
    apply Nat.succ_le_succ
    split
    · exact ih _
    · exact Nat.zero_le _

theorem generateCombinations_length (type : AttackType) (positions : Nat)
    (sets : List (List QString)) (maxResults : Nat) :
    (generateCombinations type positions sets maxResults).length ≤ maxResults := by
  cases type with
  | sniper => exact List.length_take_le _ _
  | batteringRam =>
    rw [generateCombinations]
    split
    · exact Nat.zero_le _
    · exact List.length_take_le _ _
  | pitchfork => exact List.length_take_le _ _
  | clusterBomb =>
    rw [generateCombinations, clusterBomb]
    split
    · exact Nat.zero_le _
    · exact clusterBombFrom_length _ _ _

theorem plannedCombos_length (E : RegexEngine) (P : RuleLibrary) {c : RunConfig}
    (h : c.recursiveGrep = false) : (plannedCombos E P c).length ≤ kMaxResults := by
  rw [plannedCombos, h]
  have hall : (if countMarkers c.requestTemplate = 0 then []
      else if false = true then
        if c.grepExtract.isEmpty then []
        else List.replicate c.recursiveGrepCount.toNat
          (List.replicate (countMarkers c.requestTemplate) none)
      else generateCombinations (attackTypeOf c.attackType) (countMarkers c.requestTemplate)
        (c.payloadSets.map parseSet) kMaxResults).length ≤ kMaxResults := by
    split
    · exact Nat.zero_le _
    · exact generateCombinations_length _ _ _ _
  split
  · exact hall
  · exact Nat.le_trans (List.length_filter_le _ _) hall

variable {env : Environment} {send : Server} {c : RunConfig}

variable (env c) in
theorem followRedirects_int (hserver : IntAnswers send) (asked : env.N.Url → Bool) (hops : Nat)
    (chain : Chain env.N) {result : SendResult} (hstatus : IsInt32 result.parsed.statusCode)
    (hsize : IsInt32 result.parsed.body.length) :
    IsInt32 (followRedirects env c send asked hops chain result).2.parsed.statusCode ∧
      IsInt32 (followRedirects env c send asked hops chain result).2.parsed.body.length := by
  induction hops generalizing chain result with
  | zero => exact ⟨hstatus, hsize⟩
  | succ hops ih =>
    rw [followRedirects]
    split
    · exact ⟨hstatus, hsize⟩
    · dsimp only
      split
      · exact ⟨hstatus, hsize⟩
      · split
        · exact ⟨hstatus, hsize⟩
        · exact ih _ (hserver.status _) (hserver.size _)

theorem gradeOf_int {result : SendResult} (hstatus : IsInt32 result.parsed.statusCode)
    (hsize : IsInt32 result.parsed.body.length) (combo : Combo) :
    IsInt32 (gradeOf env c result combo).statusCode ∧
      IsInt32 (gradeOf env c result combo).responseSize := by
  refine ⟨?_, hsize⟩
  rw [gradeOf]
  dsimp only
  split
  · exact hstatus
  · decide

variable (env c) in
theorem fireOne_int (hserver : IntAnswers send) (combo : Combo) :
    IsInt32 (fireOne env c send combo).grade.statusCode ∧
      IsInt32 (fireOne env c send combo).grade.responseSize := by
  rw [fireOne, fire]
  split
  · exact gradeOf_int (by decide) (by decide) combo
  · rename_i bytes hbytes
    dsimp only
    rw [retried_same]
    split
    · obtain ⟨hstatus, hsize⟩ := followRedirects_int env c hserver (scopeOfUrl env)
        kMaxRedirectHops (startChain env c bytes) (hserver.status (sentRequest c bytes))
        (hserver.size (sentRequest c bytes))
      exact gradeOf_int hstatus hsize combo
    · exact gradeOf_int (hserver.status _) (hserver.size _) combo

theorem Graded.int {combos : List Combo} {s : State} (h : Graded env send c combos s)
    (hserver : IntAnswers send) (hlength : combos.length ≤ kMaxResults) (ha : a ∈ s.attacks) :
    IntRow a.toResultRow := by
  obtain ⟨i, hi⟩ := List.mem_iff_getElem?.1 ha
  have hlt : i < combos.length := by
    rw [← h.length]
    exact (List.getElem?_eq_some_iff.1 hi).1
  have hseen := h.rows i a _ hi (List.getElem?_eq_getElem hlt)
  have hid := (h.row hi (List.getElem?_eq_getElem hlt)).1
  have hstatus : a.statusCode = a.seen.statusCode := rfl
  have hsize : a.responseSize = a.seen.responseSize := rfl
  obtain ⟨hs, hr⟩ := fireOne_int env c hserver combos[i]
  refine ⟨?_, ?_, ?_, h.elapsed a ha⟩
  · rw [kMaxResults] at hlength
    rw [hid]
    constructor
    · omega
    · omega
  · rw [hstatus, hseen]
    split
    · exact hs
    · exact isInt32_zero
  · rw [hsize, hseen]
    split
    · exact hr
    · exact isInt32_zero

end Numbers

section Config
variable {env : Environment} {send : Server} {c c' : RunConfig}

theorem followRedirects_alike (hpolicy : c'.followPolicy = c.followPolicy)
    (hcookies : c'.followCookies = c.followCookies) (asked : env.N.Url → Bool) (hops : Nat)
    (chain : Chain env.N) (result : SendResult) :
    followRedirects env c' send asked hops chain result =
      followRedirects env c send asked hops chain result := by
  have hnext : nextHop env c' = nextHop env c := by
    funext chain resp next
    rw [nextHop, nextHop, hcookies]
  induction hops generalizing chain result with
  | zero => rfl
  | succ hops ih =>
    rw [followRedirects, followRedirects, hpolicy, hnext]
    simp only [ih]

theorem fireOne_alike (c : RunConfig) (concurrency retries : Int) (seed : Option QString)
    (combo : Combo) :
    fireOne env
        { c with concurrency := concurrency, retries := retries, recursiveGrepSeed := seed }
        send combo =
      fireOne env c send combo := by
  rw [fireOne, fireOne, fire, fire]
  have hbytes (payloads : Combo) : requestBytes env
      { c with concurrency := concurrency, retries := retries, recursiveGrepSeed := seed }
      payloads = requestBytes env c payloads := rfl
  have hprocessed : processed env
      { c with concurrency := concurrency, retries := retries, recursiveGrepSeed := seed } combo =
      processed env c combo := rfl
  rw [hprocessed, hbytes]
  cases requestBytes env c (processed env c combo) with
  | none => rfl
  | some bytes =>
    dsimp only
    rw [retried_same, retried_same, followRedirects_alike (c := c) rfl rfl]
    rfl

variable (env send) in
theorem answeredRow_alike (c : RunConfig) (concurrency retries : Int) (seed : Option QString)
    (i : Nat) (combo : Combo) :
    answeredRow env send
        { c with concurrency := concurrency, retries := retries, recursiveGrepSeed := seed }
        i combo =
      answeredRow env send c i combo := by
  rw [answeredRow, answeredRow, fireOne_alike]

end Config

section Starts
variable {env : Environment} {send : Server} {c : RunConfig} {combos : List Combo} {s : State}

theorem State.Idle.inv (h : s.Idle) : s.Inv := by
  have howed : s.owed = [] := by
    rw [State.owed, h.queue, h.worker]
    rfl
  refine ⟨?_, ?_, ?_, ?_, fun _ => howed, ?_, ?_, ?_⟩
  · intro row display outcome origin hmem
    rw [h.queue] at hmem
    cases hmem
  · intro e he
    rw [howed] at he
    cases he
  · rw [howed]
    exact List.nodup_nil
  · rw [h.queue, h.worker, h.stopped]
    rfl
  · rw [h.queue]
    exact List.Pairwise.nil
  · intro w cur hw
    rw [h.worker] at hw
    cases hw
  · intro e he
    rw [State.second, h.queue, h.resends] at he
    cases he

theorem start_begun {E : RegexEngine} {P : RuleLibrary} (hidle : s.running = false)
    (hstart : (start E P s).running = true) :
    s.config.host.isEmpty = false ∧ s.config.requestTemplate.isEmpty = false ∧
      start E P s =
        { s with
          attacks := (numbered (plannedCombos E P s.config)).map (fun row => newAttack row.1 row.2)
          completedCount := 0
          table := s.table + 1
          running := true
          stopRequested := false
          worker := some
            { config := s.config
              table := s.table + 1
              todo := numbered (plannedCombos E P s.config)
              skipRows := []
              chain := if s.config.recursiveGrep then some s.config.recursiveGrepSeed
                else none } } := by
  simp only [start] at hstart ⊢
  rw [if_neg (by rw [hidle]; exact Bool.false_ne_true)] at hstart ⊢
  split at hstart
  · rw [hidle] at hstart
    cases hstart
  · rename_i hset
    rw [Bool.not_eq_true, Bool.or_eq_false_iff] at hset
    split at hstart
    · rw [hidle] at hstart
      cases hstart
    · rename_i hsome
      refine ⟨hset.1, hset.2, ?_⟩
      rw [hset.1, hset.2, Bool.or_false, if_neg Bool.false_ne_true, if_neg hsome]

theorem begun_config (hidle : s.Idle) (hstart : (start env.E env.P s).running = true) :
    (begun env s).state.config = s.config := by
  obtain ⟨_, _, hbegun⟩ := start_begun hidle.stopped hstart
  rw [begun, hbegun]

theorem owed_numbered {w : Worker} (hw : s.worker = some w) (hskip : i ∉ w.skipRows)
    (htodo : (i, combo) ∈ w.todo) : ∃ e ∈ s.owed, e.1 = i := by
  refine ⟨_, (mem_owed hw).2 (.inr ⟨(i, combo), ?_, rfl⟩), rfl⟩
  exact List.mem_append_right _ (List.mem_filter.2 ⟨htodo, decide_eq_true hskip⟩)

variable (send) in
theorem begun_graded (hidle : s.Idle) (hstart : (start env.E env.P s).running = true)
    (hplain : s.config.recursiveGrep = false) :
    Graded env send s.config (plannedCombos env.E env.P s.config) (begun env s).state ∧
      Covered (begun env s).state ∧
      SentOnce env send s.config (plannedCombos env.E env.P s.config) (begun env s) := by
  have hinv : (start env.E env.P s).Inv := hidle.inv.start
  obtain ⟨_, _, heq⟩ := start_begun hidle.stopped hstart
  rw [begun]
  rw [heq, hplain, if_neg Bool.false_ne_true] at hinv ⊢
  have hrow : ∀ (i : Nat) (a : IntruderAttack),
      ((numbered (plannedCombos env.E env.P s.config)).map
        (fun row => newAttack row.1 row.2))[i]? = some a →
      ∃ combo, (plannedCombos env.E env.P s.config)[i]? = some combo ∧ a = newAttack i combo := by
    intro i a ha
    rw [getElem?_newAttacks] at ha
    obtain ⟨combo, hcombo, rfl⟩ := Option.map_eq_some_iff.1 ha
    exact ⟨combo, hcombo, rfl⟩
  refine ⟨⟨hinv, ?_, ?_, ?_, ?_, ?_, ?_⟩, ⟨rfl, ?_⟩, ?_⟩
  · dsimp only
    rw [List.length_map, numbered, List.length_map, List.length_zipIdx]
  · intro i a combo ha hcombo
    obtain ⟨combo', hcombo', rfl⟩ := hrow i a ha
    rw [hcombo] at hcombo'
    cases hcombo'
    rfl
  · intro a ha
    obtain ⟨row, _, rfl⟩ := List.mem_map.1 ha
    exact isInt32_zero
  · intro w hw
    cases hw
    exact ⟨rfl, rfl⟩
  · intro w hw e he
    cases hw
    exact mem_numbered.1 ((pending_sublist _ rfl).subset he)
  · intro cb hcb
    have hnone : cb ∈ s.queue := hcb
    rw [hidle.queue] at hnone
    cases hnone
  · intro i a ha _
    obtain ⟨combo, hcombo, _⟩ := hrow i a ha
    exact owed_numbered rfl List.not_mem_nil (mem_numbered.2 hcombo)
  · intro i
    left
    refine ⟨rfl, ?_, ?_⟩
    · intro a ha
      obtain ⟨combo, _, rfl⟩ := hrow i a ha
      rfl
    · dsimp only
      rw [hidle.queue]
      exact List.not_mem_nil

theorem planResume_none (h : planResume false rowComplete = none) :
    ∀ b ∈ rowComplete, b = true := by
  rw [planResume] at h
  split at h
  · rename_i hnone
    rw [List.isEmpty_iff.1 hnone]
    intro b hb
    cases hb
  · rw [if_neg Bool.false_ne_true] at h
    split at h
    · rename_i hall
      exact fun b hb => List.all_eq_true.1 hall b hb
    · cases h

theorem resume_graded (hg : Graded env send c combos s) (hidle : s.Idle) (hconfig : s.config = c)
    (hplain : c.recursiveGrep = false) (hhost : c.host.isEmpty = false)
    (htemplate : c.requestTemplate.isEmpty = false) (hstop : s.stopRequested = false) :
    Graded env send c combos (resume s) ∧ Covered (resume s) := by
  have hinv := hg.inv.resume
  have hcombos : ∀ (e : Nat × Combo), (s.attacks.map (fun a => a.combo))[e.1]? = some e.2 →
      combos[e.1]? = some e.2 := by
    intro e he
    rw [List.getElem?_map] at he
    obtain ⟨a, ha, hown⟩ := Option.map_eq_some_iff.1 he
    have hlt : e.1 < combos.length := by
      rw [← hg.length]
      exact (List.getElem?_eq_some_iff.1 ha).1
    have hcombo := List.getElem?_eq_getElem hlt
    rw [hcombo, ← hown, (hg.row ha hcombo).2]
  rw [resume, hidle.stopped, if_neg Bool.false_ne_true, hconfig, hhost, htemplate, hplain,
    if_neg (by decide)] at hinv ⊢
  cases hplan : planResume false (s.attacks.map (fun a => a.complete)) with
  | none =>
    refine ⟨hg, hstop, ?_⟩
    intro i a ha hcomplete
    have hdone := planResume_none hplan a.complete
      (List.mem_map.2 ⟨a, List.mem_of_getElem? ha, rfl⟩)
    rw [hcomplete] at hdone
    cases hdone
  | some skip =>
    rw [hplan] at hinv
    refine ⟨⟨hinv, hg.length, hg.rows, hg.elapsed, ?_, ?_, hg.queue⟩, rfl, ?_⟩
    · intro w hw
      cases hw
      exact ⟨rfl, rfl⟩
    · intro w hw e he
      cases hw
      exact hcombos e (mem_numbered.1 ((pending_sublist _ rfl).subset he))
    · intro i a ha hcomplete
      apply owed_numbered rfl
      · intro hskip
        rw [mem_planResume hplan, List.getElem?_map] at hskip
        have ha' : s.attacks[i]? = some a := ha
        rw [ha', Option.map_some, hcomplete] at hskip
        cases hskip
      · apply mem_numbered.2
        have ha' : s.attacks[i]? = some a := ha
        rw [List.getElem?_map, ha']
        rfl

end Starts

section Reload
variable {J : JsonLibrary} {env : Environment} {send : Server} {s : State} {combos : List Combo}

theorem run_config {s : Sending} (events : List RunEvent) :
    (s.run env send events).state.config = s.state.config := by
  induction events generalizing s with
  | nil => rfl
  | cons e events ih =>
    apply (ih (s := s.step env send e)).trans
    cases e with
    | dispatch => rfl
    | answered k cut elapsedMs =>
      rcases answered_cases env send s k cut elapsedMs with
        heq | ⟨w, row, combo, outcome, requests, hw, hk, _, _, heq⟩
      · rw [Sending.step, heq]
      · rw [Sending.step, heq, complete_eq hw hk]
    | joined =>
      rcases joined_cases s.state with heq | ⟨w, _, _, heq⟩
      · rw [Sending.step, heq]
      · rw [Sending.step, heq]
    | deliver =>
      rw [Sending.step, Intruder.deliver]
      split
      · rfl
      · rename_i cb later hq
        cases cb with
        | finished => rfl
        | result row display outcome origin =>
          rw [Callback.run]
          split
          · rfl
          · rfl
        | resent row outcome origin =>
          rw [Callback.run]
          split
          · rfl
          · rfl
    | stop =>
      rw [Sending.step, Intruder.stop]
      split
      · rfl
      · rfl

theorem loadRun_saveRun (hconfig : IntConfig s.config) (hthrottle : IsInt32 throttleMs)
    (hrows : ∀ a ∈ s.attacks, IntRow a.toResultRow) :
    loadRun {} (fromBytes J (saveRun J s throttleMs)).toSavedRun =
      { config := configured (readBack s.config)
        attacks := s.attacks.map (fun a => { toResultRow := a.toResultRow })
        completedCount := (s.attacks.map IntruderAttack.toResultRow).countP (fun r => r.complete)
        table := 1 } := by
  have hall : ∀ r ∈ s.attacks.map IntruderAttack.toResultRow, IntRow r := by
    intro r hr
    obtain ⟨a, ha, rfl⟩ := List.mem_map.1 hr
    exact hrows a ha
  have hversion : IsInt32 kFormatVersion := by decide
  rw [saveRun, fromBytes_toBytes hversion hthrottle hconfig hall, loadRun,
    if_neg Bool.false_ne_true, List.map_map]
  rfl

theorem loaded_graded (hg : Graded env send s.config combos s) (n : Nat) :
    Graded env send (configured (readBack s.config)) combos
      { config := configured (readBack s.config)
        attacks := s.attacks.map (fun a => { toResultRow := a.toResultRow })
        completedCount := n
        table := 1 } where
  inv := by
    have hinit := inv_initial (configured (readBack s.config))
    exact hinit.newTable (s.attacks.map (fun a => { toResultRow := a.toResultRow })) (.inl rfl) _ n
  length := (List.length_map _).trans hg.length
  rows := by
    intro i a combo ha hcombo
    have ha' : (s.attacks.map (fun a => ({ toResultRow := a.toResultRow } : IntruderAttack)))[i]? =
        some a := ha
    rw [List.getElem?_map] at ha'
    obtain ⟨b, hb, rfl⟩ := Option.map_eq_some_iff.1 ha'
    have hseen := hg.rows i b combo hb hcombo
    have hsame := answeredRow_alike env send s.config
      (clampConcurrency s.config.concurrency) (clampRetries s.config.retries)
      (some (s.config.recursiveGrepSeed.getD [])) i combo
    rw [← hsame] at hseen
    exact hseen
  elapsed := by
    intro a ha
    obtain ⟨b, hb, rfl⟩ := List.mem_map.1 ha
    exact hg.elapsed b hb
  config := by
    intro w hw
    cases hw
  pending := by
    intro w hw
    cases hw
  queue := by
    intro cb hcb
    cases hcb

end Reload

section Results
variable (J : JsonLibrary) (env : Environment) (send : Server)

theorem firing_answered {env : Environment} {send : Server} {c : RunConfig}
    (hfirst : (fireOne env c send combo).first = some request) (hok : (send request).ok = true)
    (attempts : Nat) :
    firing env send c attempts combo = request :: (fireOne env c send combo).followed := by
  have hmade : retriesMade send request attempts (send request) = 0 := by
    cases attempts with
    | zero => rfl
    | succ attempts => rw [retriesMade, if_pos hok]
  rw [firing, fireAgain_grade, hfirst]
  dsimp only
  rw [hmade]
  rfl

theorem reloaded_run {J : JsonLibrary} {env : Environment} {send : Server}
    (hserver : IntAnswers send) {s : State} {combos : List Combo}
    (hg : Graded env send s.config combos s) (hlength : combos.length ≤ kMaxResults)
    (hplain : s.config.recursiveGrep = false) (hhost : s.config.host.isEmpty = false)
    (htemplate : s.config.requestTemplate.isEmpty = false) (hconfig : IntConfig s.config)
    (hthrottle : IsInt32 throttleMs) {resumed : List RunEvent} (hresumed : .stop ∉ resumed)
    (hend : ((reloaded J (saveRun J s throttleMs)).run env send resumed).state.running = false) :
    ((reloaded J (saveRun J s throttleMs)).run env send resumed).state.seen =
        (numbered combos).map (fun row => answeredRow env send s.config row.1 row.2) ∧
      ∀ (i : Nat) a, s.attacks[i]? = some a → a.complete = true →
        sentFor i ((reloaded J (saveRun J s throttleMs)).run env send resumed).sent = [] := by
  have hload := loadRun_saveRun (J := J) hconfig hthrottle
    (fun a ha => hg.int hserver hlength ha)
  have hloaded := loaded_graded hg
    ((s.attacks.map IntruderAttack.toResultRow).countP (fun r => r.complete))
  obtain ⟨hresume, hcovered⟩ := resume_graded hloaded ⟨rfl, rfl, rfl, rfl⟩ rfl hplain hhost htemplate
    rfl
  rw [← hload] at hresume hcovered
  constructor
  · rw [seen_of_finished (hresume.run (s := reloaded J (saveRun J s throttleMs)) resumed)
      (hcovered.run (s := reloaded J (saveRun J s throttleMs)) hresume hresumed) hend]
    apply List.map_congr_left
    intro row _
    exact answeredRow_alike _ _ s.config _ _ _ _ _
  · intro i a ha hcomplete
    have hrow : ∃ b, (reloaded J (saveRun J s throttleMs)).state.attacks[i]? = some b ∧
        b.complete = true := by
      have hkeeps (t : State) : (resume t).attacks = t.attacks := by
        rw [resume]
        split
        · rfl
        · split
          · rfl
          · split
            · rfl
            · rfl
      refine ⟨{ toResultRow := a.toResultRow }, ?_, hcomplete⟩
      rw [reloaded, hkeeps, hload]
      dsimp only
      rw [List.getElem?_map, ha]
      rfl
    obtain ⟨b, hb, hdone⟩ := hrow
    exact complete_run (s := reloaded J (saveRun J s throttleMs)) hresume hb hdone resumed

theorem reloaded_goes_on (hserver : IntAnswers send) {s : State} (hidle : s.Idle)
    (hstart : (start env.E env.P s).running = true) (hplain : s.config.recursiveGrep = false)
    (hconfig : IntConfig s.config) (throttleMs : Int) (hthrottle : IsInt32 throttleMs)
    (whole early late resumed : List RunEvent) (hwhole : .stop ∉ whole)
    (hresumed : .stop ∉ resumed)
    (hwholeEnd : ((begun env s).run env send whole).state.running = false)
    (hresumedEnd : ((reloaded J (saveRun J ((begun env s).run env send early).state throttleMs)).run
      env send resumed).state.running = false) :
    ((reloaded J (saveRun J ((begun env s).run env send early).state throttleMs)).run
        env send resumed).state.seen = ((begun env s).run env send whole).state.seen ∧
      ∀ (i : Nat) a, ((begun env s).run env send early).state.attacks[i]? = some a →
        a.complete = true →
        ∃ attempts ≤ s.config.retries.toNat,
          sentFor i (((begun env s).run env send (early ++ late)).sent ++
            ((reloaded J (saveRun J ((begun env s).run env send early).state throttleMs)).run
              env send resumed).sent) = firing env send s.config attempts a.combo ∧
          ∀ request, (fireOne env s.config send a.combo).first = some request →
            (send request).ok = true → firing env send s.config attempts a.combo =
              request :: (fireOne env s.config send a.combo).followed := by
  obtain ⟨hg, hcovered, honce⟩ := begun_graded send hidle hstart hplain
  obtain ⟨hhost, htemplate, _⟩ := start_begun hidle.stopped hstart
  have hearly := hg.run early
  have hsame : ((begun env s).run env send early).state.config = s.config :=
    (run_config early).trans (begun_config hidle hstart)
  obtain ⟨hrows, hnone⟩ := reloaded_run (J := J) hserver (hsame ▸ hearly)
    (plannedCombos_length env.E env.P hplain) (hsame ▸ hplain) (hsame ▸ hhost) (hsame ▸ htemplate)
    (hsame ▸ hconfig) hthrottle hresumed hresumedEnd
  constructor
  · rw [hrows, seen_of_finished (hg.run whole) (hcovered.run hg hwhole) hwholeEnd, hsame]
  · intro i a ha hcomplete
    have hlt : i < (plannedCombos env.E env.P s.config).length := by
      rw [← hearly.length]
      exact (List.getElem?_eq_some_iff.1 ha).1
    have hown := (hearly.row ha (List.getElem?_eq_getElem hlt)).2
    rcases honce.run hg early i with ⟨_, hwaits, _⟩ | ⟨⟨attempts, hle, combo, hcombo, hsent⟩, _⟩
    · rw [hwaits a ha] at hcomplete
      cases hcomplete
    · rw [List.getElem?_eq_getElem hlt, Option.some.injEq, ← hown] at hcombo
      refine ⟨attempts, hle, ?_, fun request hfirst hok => firing_answered hfirst hok attempts⟩
      have hlate := complete_run hearly ha hcomplete late
      rw [sentFor_append, hnone i a ha hcomplete, List.append_nil, Sending.run, List.foldl_append]
      exact hlate.trans (hcombo ▸ hsent)

end Results

section Samples

def lineAttack (payloads : String) : State where
  config := { plainConfig with payloadSets := [utf16 payloads], retries := 1 }

def firstRowOnly : List RunEvent :=
  [.dispatch, .answered 0 0 5, .deliver, .stop, .dispatch, .joined, .deliver]

def secondRow : List RunEvent :=
  [.dispatch, .dispatch, .answered 0 0 7, .joined, .deliver, .deliver]

def bothRows : List RunEvent :=
  [.dispatch, .dispatch, .answered 1 0 3, .answered 0 0 4, .joined, .deliver, .deliver, .deliver]

theorem plainConfig_int (payloads : String) : IntConfig (lineAttack payloads).config :=
  ⟨show IsInt32 80 by decide, isInt32_zero, show IsInt32 10 by decide, show IsInt32 1 by decide,
    show IsInt32 10 by decide, isInt32_zero⟩

theorem answering_int : IntAnswers (answering noResponse) :=
  ⟨fun _ => show IsInt32 200 by decide, fun _ => isInt32_zero⟩

theorem lineAttack_idle (payloads : String) : (lineAttack payloads).Idle := ⟨rfl, rfl, rfl, rfl⟩

/-- An attack that is stopped after its first row goes on with the second. -/
theorem stopped_after_first :
    ((reloaded JsonText.textLibrary (saveRun JsonText.textLibrary
        ((begun oneHost (lineAttack "b\nc")).run oneHost (answering noResponse)
          firstRowOnly).state 0)).run oneHost (answering noResponse) secondRow).state.seen =
      ((begun oneHost (lineAttack "b\nc")).run oneHost (answering noResponse) bothRows).state.seen ∧
    (((begun oneHost (lineAttack "b\nc")).run oneHost (answering noResponse)
      firstRowOnly).state.attacks.map (fun a => a.complete)) = [true, false] := by
  have hstart : (start oneHost.E oneHost.P (lineAttack "b\nc")).running = true := by decide
  have hrows : ∀ a ∈ ((begun oneHost (lineAttack "b\nc")).run oneHost (answering noResponse)
      firstRowOnly).state.attacks, IntRow a.toResultRow := by
    obtain ⟨hg, _, _⟩ := begun_graded (answering noResponse) (lineAttack_idle "b\nc") hstart
      rfl
    intro a ha
    exact (hg.run firstRowOnly).int answering_int (plannedCombos_length _ _ rfl) ha
  have hend : ((reloaded JsonText.textLibrary (saveRun JsonText.textLibrary
      ((begun oneHost (lineAttack "b\nc")).run oneHost (answering noResponse)
        firstRowOnly).state 0)).run oneHost (answering noResponse) secondRow).state.running =
      false := by
    have hconfig : ((begun oneHost (lineAttack "b\nc")).run oneHost (answering noResponse)
        firstRowOnly).state.config = (lineAttack "b\nc").config :=
      (run_config firstRowOnly).trans (begun_config (lineAttack_idle "b\nc") hstart)
    rw [reloaded, loadRun_saveRun (hconfig ▸ plainConfig_int "b\nc") isInt32_zero hrows]
    decide
  refine ⟨(reloaded_goes_on JsonText.textLibrary oneHost (answering noResponse) answering_int
    (lineAttack_idle "b\nc") hstart rfl (plainConfig_int "b\nc") 0 (by decide) bothRows firstRowOnly
    [] secondRow (by decide) (by decide) ?_ hend).1, ?_⟩
  · decide
  · decide

/-- A row without an answer is complete, and was asked for twice. -/
theorem failed_row_sent_twice :
    (start oneHost.E oneHost.P (lineAttack "b")).running = true ∧
    (lineAttack "b").config.recursiveGrep = false ∧
    (((begun oneHost (lineAttack "b")).run oneHost (fun _ => {})
      [.dispatch, .answered 0 0 5, .joined, .deliver, .deliver]).state.attacks.map
        (fun a => a.complete)) = [true] ∧
    (fireOne oneHost (lineAttack "b").config (fun _ => {}) [some (utf16 "b")]).first.map
      (fun request => (sentFor 0 (((begun oneHost (lineAttack "b")).run oneHost (fun _ => {})
          [.dispatch, .answered 0 0 5, .joined, .deliver, .deliver]).sent ++
        (reloaded JsonText.textLibrary (saveRun JsonText.textLibrary
          ((begun oneHost (lineAttack "b")).run oneHost (fun _ => {})
            [.dispatch, .answered 0 0 5, .joined, .deliver, .deliver]).state 0)).sent)).count
        request) = some 2 := by
  refine ⟨?_, rfl, ?_, ?_⟩
  · decide
  · decide
  · decide

end Samples

end Nullock.Intruder

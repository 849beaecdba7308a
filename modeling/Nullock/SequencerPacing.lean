import Nullock.SequencerRuns

namespace Nullock.SequencerCapture
open HttpLogic SessionRules QJsonObject
open Proxy (asciiLibrary)
open SessionVariables (ExtractLibrary InspectedResponse findHeader noExtracts)

def kRetryAfterCapMs : Int := 60000

/-- The milliseconds of a `Retry-After` field, counted in 64 bits and handed on in 32. -/
def retryAfterMs (retryAfterHeader : QString) (capMs : Int) : Int :=
  let capMs := if capMs < 0 then 0 else capMs
  match QString.toLongLong (QString.trimmed retryAfterHeader) with
  | none => 0
  | some secs =>
    if secs < 0 then 0
    else
      let ms := (secs * 1000).bmod (2 ^ 64)
      if ms > capMs then capMs else ms.bmod (2 ^ 32)

/-- The time slept, chunk by chunk, until the wait is over or a stop is seen. -/
def interruptibleSleep (stopped : Int → Bool) (ms slept : Int) : Int :=
  if slept < ms ∧ stopped slept = false then
    interruptibleSleep stopped ms (slept + min 50 (ms - slept))
  else slept
termination_by (ms - slept).toNat

section Model
variable (L : TextLibrary) (X : ExtractLibrary)

def retryAfterOf (resp : InspectedResponse) : QString :=
  findHeader L resp.headers (utf16 "Retry-After")

def waitMs (req : Request) (res : Option InspectedResponse) : Int :=
  match res with
  | some resp =>
    if resp.statusCode = 429 then
      max req.throttleMs (retryAfterMs (retryAfterOf L resp) kRetryAfterCapMs)
    else req.throttleMs
  | none => req.throttleMs

/-- The wait at the end of the loop's body, unless the loop was left or comes to its end. -/
def Engine.pause (c : Engine) (res : Option InspectedResponse) : List Int :=
  match c.worker with
  | none => []
  | some w =>
    let after := c.shot L X res
    if w.sent = true ∧ after.running = true ∧ w.i + 1 < w.total ∧ after.stop = false then
      let ms := waitMs L w.req res
      [if ms > 0 then interruptibleSleep (fun _ => false) ms 0 else 0]
    else []

structure Capture where
  engine : Engine
  waits : List Int := []

def Capture.step (s : Capture) (a : Action) : Capture where
  engine := s.engine.next L X [] a
  waits :=
    match a with
    | .shot res => s.waits ++ s.engine.pause L X res
    | _ => s.waits

def DuringCapture (s : Capture) (a : Action) : Prop := s.engine.running = true ∧ a ≠ .restart

def Engine.outcomes (c : Engine) : Int :=
  c.harvested + c.emptyExtract + c.httpErrors + c.transportErrors

def Engine.Balanced (c : Engine) : Prop := c.done = c.outcomes

def Engine.Stored (c : Engine) : Prop :=
  c.harvested = c.tokens.length ∧ c.tokenCharacters = (c.tokens.map List.length).sum

def Capture.Paced (throttle : Int) (s : Capture) : Prop :=
  ∀ ms ∈ s.waits, throttle ≤ ms ∧ ms ≤ max throttle kRetryAfterCapMs

def Engine.HasRoom (c : Engine) (token : QString) : Prop :=
  c.tokenCharacters + token.length ≤ kMaxCorpus ∧
    (c.draft.value "text").toQString.length + token.length + 1 ≤ kMaxCorpus

def Fits (s : Capture) : Action → Prop
  | .shot (some resp) => ∀ w, s.engine.worker = some w → w.sent = true →
      Engine.tokenOf L X w.req (some resp) ≠ [] →
        s.engine.HasRoom (Engine.tokenOf L X w.req (some resp))
  | _ => True

def Timely : Action → Prop
  | .shot (some resp) => resp.statusCode = 429 → ∀ secs,
      QString.toLongLong (QString.trimmed (retryAfterOf L resp)) = some secs →
      secs * 1000 < 2 ^ 63
  | _ => True

end Model

section Pacing

theorem interruptibleSleep_full (h : slept ≤ ms) :
    interruptibleSleep (fun _ => false) ms slept = ms := by
  by_cases hlt : slept < ms
  · rw [interruptibleSleep, if_pos ⟨hlt, rfl⟩]
    exact interruptibleSleep_full (by omega)
  · rw [interruptibleSleep, if_neg (fun h => hlt h.1)]
    omega
termination_by (ms - slept).toNat

theorem retryAfterMs_le (h : ∀ secs, QString.toLongLong (QString.trimmed header) = some secs →
    secs * 1000 < 2 ^ 63) : retryAfterMs header kRetryAfterCapMs ≤ kRetryAfterCapMs := by
  have hcap : ¬ kRetryAfterCapMs < 0 := by decide
  rw [retryAfterMs, if_neg hcap]
  cases hsecs : QString.toLongLong (QString.trimmed header) with
  | none => decide
  | some secs =>
    dsimp only
    have hfits := h secs hsecs
    split
    · decide
    · have hms : (secs * 1000).bmod (2 ^ 64) = secs * 1000 :=
        Int.bmod_eq_of_le (by omega) (by omega)
      rw [hms]
      split
      · exact Int.le_refl _
      · have hsmall : (secs * 1000).bmod (2 ^ 32) = secs * 1000 := by
          rw [kRetryAfterCapMs] at *
          exact Int.bmod_eq_of_le (by omega) (by omega)
        omega

variable {L : TextLibrary} {X : ExtractLibrary}

theorem throttle_le_waitMs (req : Request) (res : Option InspectedResponse) :
    req.throttleMs ≤ waitMs L req res := by
  cases res with
  | none => exact Int.le_refl _
  | some resp =>
    unfold waitMs
    dsimp only
    split
    · exact Int.le_max_left _ _
    · exact Int.le_refl _

theorem waitMs_le {req : Request} {res : Option InspectedResponse} (h : Timely L (.shot res)) :
    waitMs L req res ≤ max req.throttleMs kRetryAfterCapMs := by
  cases res with
  | none => exact Int.le_max_left _ _
  | some resp =>
    unfold waitMs
    dsimp only
    split
    · rename_i hstatus
      exact Int.max_le.2 ⟨Int.le_max_left _ _,
        Int.le_trans (retryAfterMs_le (h hstatus)) (Int.le_max_right _ _)⟩
    · exact Int.le_max_left _ _

theorem mem_pause {c : Engine} (h : ms ∈ c.pause L X res)
    (hworker : ∀ w, c.worker = some w → 0 ≤ w.req.throttleMs) :
    ∃ w, c.worker = some w ∧ ms = waitMs L w.req res := by
  rw [Engine.pause] at h
  cases hw : c.worker with
  | none =>
    rw [hw] at h
    cases h
  | some w =>
    rw [hw] at h
    dsimp only at h
    split at h
    · have hle := Int.le_trans (hworker w hw) (throttle_le_waitMs (L := L) w.req res)
      refine ⟨w, rfl, ?_⟩
      rw [List.mem_singleton.1 h]
      split
      · exact interruptibleSleep_full hle
      · omega
    · cases h

end Pacing

section Accounting
variable {L : TextLibrary} {X : ExtractLibrary} {c : Engine}

theorem tally_counts (consecFail : Int) (token : QString) (cls : ShotClass) :
    (c.tally consecFail token cls).1.done = c.done ∧
      ((c.tally consecFail token cls).1.outcomes = c.outcomes + 1 ↔
        (cls = .token → c.HasRoom token)) := by
  cases cls with
  | token =>
    rw [Engine.tally, Engine.appendToken]
    split
    · rename_i hover
      refine ⟨rfl, fun h => ?_, fun h => ?_⟩
      · exact absurd h (by simp [Engine.outcomes])
      · obtain ⟨hstored, hcorpus⟩ := h rfl
        omega
    · rename_i hroom
      refine ⟨rfl, fun _ _ => ?_, fun _ => ?_⟩
      · exact ⟨by omega, by omega⟩
      · simp only [Engine.outcomes]
        omega
  | emptyExtract =>
    refine ⟨rfl, fun _ h => (by cases h), fun _ => ?_⟩
    simp only [Engine.outcomes, Engine.tally]
    omega
  | httpError =>
    refine ⟨rfl, fun _ h => (by cases h), fun _ => ?_⟩
    simp only [Engine.outcomes, Engine.tally]
    omega
  | transportError =>
    refine ⟨rfl, fun _ h => (by cases h), fun _ => ?_⟩
    simp only [Engine.outcomes, Engine.tally]
    omega

theorem tally_stored (h : c.Stored) (consecFail : Int) (token : QString) (cls : ShotClass) :
    (c.tally consecFail token cls).1.Stored := by
  obtain ⟨hharvested, hcharacters⟩ := h
  cases cls with
  | token =>
    rw [Engine.tally, Engine.appendToken]
    split
    · exact ⟨hharvested, hcharacters⟩
    · constructor
      · show c.harvested + 1 = ((c.tokens ++ [token]).length : Int)
        rw [List.length_append, List.length_singleton, hharvested]
        rfl
      · show c.tokenCharacters + token.length = ((c.tokens ++ [token]).map List.length).sum
        rw [List.map_append, List.sum_append, hcharacters]
        rfl
  | emptyExtract => exact ⟨hharvested, hcharacters⟩
  | httpError => exact ⟨hharvested, hcharacters⟩
  | transportError => exact ⟨hharvested, hcharacters⟩

theorem classifyShot_token {ok : Bool} {status : Int} {token : QString} :
    classifyShot ok status token.isEmpty = .token ↔ ok = true ∧ token ≠ [] := by
  cases ok with
  | false => exact ⟨fun h => (by cases h), fun h => (by cases h.1)⟩
  | true =>
    cases token with
    | nil =>
      refine ⟨fun h => ?_, fun h => absurd rfl h.2⟩
      rw [classifyShot, if_neg (by decide), if_neg (by decide)] at h
      split at h
      · cases h
      · cases h
    | cons c token => exact ⟨fun _ => ⟨rfl, List.cons_ne_nil c token⟩, fun _ => rfl⟩

theorem shot_shape (hw : c.worker = some w) (hsent : w.sent = true)
    (res : Option InspectedResponse) : ∃ noted cls,
      (noted = c ∨ ∃ resp, noted = c.noteResponse resp) ∧
      (cls = .token ↔ res.isSome = true ∧ Engine.tokenOf L X w.req res ≠ []) ∧
      (c.shot L X res).done =
        (noted.tally w.consecFail (Engine.tokenOf L X w.req res) cls).1.done + 1 ∧
      (c.shot L X res).outcomes =
        (noted.tally w.consecFail (Engine.tokenOf L X w.req res) cls).1.outcomes ∧
      ((noted.tally w.consecFail (Engine.tokenOf L X w.req res) cls).1.Stored →
        (c.shot L X res).Stored) ∧
      ∀ w', (c.shot L X res).worker = some w' → w'.req = w.req := by
  unfold Engine.shot
  rw [hw]
  dsimp only
  rw [hsent, if_neg (by decide)]
  cases res with
  | none =>
    refine ⟨c, _, .inl rfl, @classifyShot_token false 0 [], ?_⟩
    dsimp only
    split
    · exact ⟨rfl, rfl, fun h => h, fun w' h => by cases h⟩
    · exact ⟨rfl, rfl, fun h => h, fun w' h => by cases h; rfl⟩
  | some resp =>
    refine ⟨c.noteResponse resp, classifyShot true resp.statusCode
      (Engine.tokenOf L X w.req (some resp)).isEmpty, .inr ⟨resp, rfl⟩, classifyShot_token, ?_⟩
    dsimp only
    split
    · exact ⟨rfl, rfl, fun h => h, fun w' h => by cases h⟩
    · exact ⟨rfl, rfl, fun h => h, fun w' h => by cases h; rfl⟩

theorem shot_counts (hw : c.worker = some w) (hsent : w.sent = true)
    (res : Option InspectedResponse) :
    (c.shot L X res).done = c.done + 1 ∧
      ((c.shot L X res).outcomes = c.outcomes + 1 ↔
        (res.isSome = true ∧ Engine.tokenOf L X w.req res ≠ [] →
          c.HasRoom (Engine.tokenOf L X w.req res))) ∧
      (c.Stored → (c.shot L X res).Stored) ∧
      ∀ w', (c.shot L X res).worker = some w' → w'.req = w.req := by
  obtain ⟨noted, cls, hnoted, hcls, hdone, hout, hstored, hreq⟩ :=
    shot_shape (L := L) (X := X) hw hsent res
  obtain ⟨htallied, hone⟩ :=
    tally_counts (c := noted) w.consecFail (Engine.tokenOf L X w.req res) cls
  have hkept (h : noted.Stored) :=
    tally_stored h w.consecFail (Engine.tokenOf L X w.req res) cls
  rw [hout, hdone, htallied]
  -- what is noted of a response is no part of the account
  rcases hnoted with rfl | ⟨resp, rfl⟩
  · exact ⟨rfl, hone.trans (imp_congr_left hcls), fun h => hstored (hkept h), hreq⟩
  · exact ⟨rfl, hone.trans (imp_congr_left hcls), fun h => hstored (hkept h), hreq⟩

end Accounting

section Run
variable {L : TextLibrary} {X : ExtractLibrary}

theorem send_cases (c : Engine) : c.send = c ∨ ∃ w, c.worker = some w ∧
    (c.send = { c with worker := some { w with sent := true } } ∨
      c.send = { c with worker := none }) := by
  unfold Engine.send
  cases hw : c.worker with
  | none => exact .inl rfl
  | some w =>
    dsimp only
    split
    · exact .inl rfl
    split
    · exact .inr ⟨w, rfl, .inl rfl⟩
    · exact .inr ⟨w, rfl, .inr rfl⟩

theorem next_kept {c : Engine} (hrun : c.running = true) (hrestart : a ≠ .restart)
    (hshot : ∀ res, a ≠ .shot res) :
    (c.next L X [] a).done = c.done ∧ (c.next L X [] a).outcomes = c.outcomes ∧
      (c.Stored → (c.next L X [] a).Stored) ∧
      ∀ w', (c.next L X [] a).worker = some w' → ∃ w, c.worker = some w ∧ w'.req = w.req := by
  have hsame : c.done = c.done ∧ c.outcomes = c.outcomes ∧ (c.Stored → c.Stored) ∧
      ∀ w', c.worker = some w' → ∃ w, c.worker = some w ∧ w'.req = w.req :=
    ⟨rfl, rfl, id, fun w' hw => ⟨w', hw, rfl⟩⟩
  cases a with
  | start req =>
    have hnext : (c.start req).1 = c := by rw [Engine.start, if_pos hrun]
    rw [Engine.next, hnext]
    exact hsame
  | stop => exact hsame
  | clear =>
    rw [Engine.next, Engine.clear, if_pos hrun]
    exact hsame
  | send =>
    rcases send_cases c with hsend | ⟨w, hw, hsend | hsend⟩
    · rw [Engine.next, hsend]
      exact hsame
    · rw [Engine.next, hsend]
      refine ⟨rfl, rfl, id, fun w' h => ⟨w, hw, ?_⟩⟩
      cases h
      rfl
    · rw [Engine.next, hsend]
      exact ⟨rfl, rfl, id, fun w' h => by cases h⟩
  | shot res => exact absurd rfl (hshot res)
  | appendText text =>
    rw [Engine.next, Engine.appendText]
    split
    · exact hsame
    · exact hsame
  | patchDraft _ patch textRevision =>
    rw [Engine.next, Engine.patchDraft]
    split
    · exact hsame
    split
    · exact hsame
    · exact hsame
  | importState state =>
    rw [Engine.next, Engine.importState, if_pos hrun]
    exact hsame
  | exportState => exact hsame
  | restart => exact absurd rfl hrestart

theorem next_shot {c : Engine} (hw : c.worker = some w) (res : Option InspectedResponse) :
    w.sent = false ∧ c.next L X [] (.shot res) = c ∨ w.sent = true := by
  cases hsent : w.sent with
  | true => exact .inr rfl
  | false =>
    refine .inl ⟨rfl, ?_⟩
    unfold Engine.next Engine.shot
    rw [hw]
    dsimp only
    rw [if_pos hsent]

def Capture.Throttled (throttle : Int) (s : Capture) : Prop :=
  ∀ w, s.engine.worker = some w → w.req.throttleMs = throttle

theorem step_cases (s : Capture) (a : Action) (hd : DuringCapture s a) :
    (∃ res w, a = .shot res ∧ s.engine.worker = some w ∧ w.sent = true) ∨
      (Fits L X s a ∧
        (s.step L X a).engine.done = s.engine.done ∧
        (s.step L X a).engine.outcomes = s.engine.outcomes ∧
        (s.engine.Stored → (s.step L X a).engine.Stored) ∧
        ∀ w', (s.step L X a).engine.worker = some w' →
          ∃ w, s.engine.worker = some w ∧ w'.req = w.req) := by
  by_cases hshot : ∃ res, a = .shot res
  · obtain ⟨res, rfl⟩ := hshot
    obtain ⟨w, hw⟩ := Option.isSome_iff_exists.1 hd.1
    rcases next_shot (L := L) (X := X) hw res with ⟨hsent, hnext⟩ | hsent
    · refine .inr ⟨?_, ?_⟩
      · cases res with
        | none => trivial
        | some resp =>
          intro w' hw' hsent'
          cases hw.symm.trans hw'
          exact absurd hsent' (hsent ▸ Bool.false_ne_true)
      · rw [Capture.step, hnext]
        exact ⟨rfl, rfl, id, fun w' h => ⟨w', h, rfl⟩⟩
    · exact .inl ⟨res, w, rfl, hw, hsent⟩
  · refine .inr ⟨?_, next_kept hd.1 hd.2 (fun res h => hshot ⟨res, h⟩)⟩
    cases a with
    | shot res => exact absurd ⟨res, rfl⟩ hshot
    | _ => trivial

theorem fits_iff {s : Capture} (hw : s.engine.worker = some w) (hsent : w.sent = true)
    (res : Option InspectedResponse) : Fits L X s (.shot res) ↔
      (res.isSome = true ∧ Engine.tokenOf L X w.req res ≠ [] →
        s.engine.HasRoom (Engine.tokenOf L X w.req res)) := by
  cases res with
  | none => exact ⟨fun _ h => (by cases h.1), fun _ => trivial⟩
  | some resp =>
    constructor
    · exact fun h htoken => h w hw hsent htoken.2
    · intro h w' hw' _ htoken
      cases hw.symm.trans hw'
      exact h ⟨rfl, htoken⟩

theorem step_balanced (s : Capture) (a : Action) (hd : DuringCapture s a)
    (hb : s.engine.Balanced) : (s.step L X a).engine.Balanced ↔ Fits L X s a := by
  rw [Engine.Balanced] at *
  rcases step_cases (L := L) (X := X) s a hd with
    ⟨res, w, rfl, hw, hsent⟩ | ⟨hfits, hdone, hout, -, -⟩
  · obtain ⟨hdone, hout, -, -⟩ := shot_counts (L := L) (X := X) hw hsent res
    rw [fits_iff hw hsent, ← hout, ← hb, Capture.step, Engine.next, hdone]
    exact eq_comm
  · rw [hdone, hout]
    exact ⟨fun _ => hfits, fun _ => hb⟩

theorem step_stored (s : Capture) (a : Action) (hd : DuringCapture s a)
    (h : s.engine.Stored) : (s.step L X a).engine.Stored := by
  rcases step_cases (L := L) (X := X) s a hd with ⟨res, w, rfl, hw, hsent⟩ | ⟨-, -, -, hstored, -⟩
  · exact (shot_counts hw hsent res).2.2.1 h
  · exact hstored h

theorem step_throttled (s : Capture) (a : Action) (hd : DuringCapture s a)
    (h : s.Throttled throttle) : (s.step L X a).Throttled throttle := by
  intro w' hw'
  rcases step_cases (L := L) (X := X) s a hd with ⟨res, w, rfl, hw, hsent⟩ | ⟨-, -, -, -, hreq⟩
  · rw [(shot_counts hw hsent res).2.2.2 w' hw']
    exact h w hw
  · obtain ⟨w, hw, hsame⟩ := hreq w' hw'
    rw [hsame]
    exact h w hw

/-- A wait is no shorter than the throttle and no longer than allowed. -/
theorem step_waits (s : Capture) (a : Action) (hthrottle : 0 ≤ throttle)
    (h : s.Throttled throttle) : ∀ ms ∈ (s.step L X a).waits, ms ∈ s.waits ∨
      (throttle ≤ ms ∧ (Timely L a → ms ≤ max throttle kRetryAfterCapMs)) := by
  intro ms hms
  cases a with
  | shot res =>
    rcases List.mem_append.1 hms with hold | hnew
    · exact .inl hold
    · have hworker : ∀ w, s.engine.worker = some w → 0 ≤ w.req.throttleMs :=
        fun w hw => h w hw ▸ hthrottle
      obtain ⟨w, hw, rfl⟩ := mem_pause hnew hworker
      rw [← h w hw]
      exact .inr ⟨throttle_le_waitMs w.req res, waitMs_le⟩
  | _ => exact .inl hms

theorem start_runs {c c' : Engine} {req : Request} (h : c.start req = (c', none)) :
    c'.done = 0 ∧ c'.outcomes = 0 ∧ c'.Stored ∧
      ∀ w, c'.worker = some w → w.req.throttleMs = clampThrottleMs req.throttleMs := by
  rw [Engine.start] at h
  split at h
  · cases h
  split at h
  · cases h
  split at h
  · cases h
  dsimp only at h
  split at h
  · cases h
  · cases h
    exact ⟨rfl, rfl, ⟨rfl, rfl⟩, fun w hw => by cases hw; rfl⟩

theorem clampThrottleMs_nonneg (requestedMs : Int) : 0 ≤ clampThrottleMs requestedMs := by
  rw [clampThrottleMs]
  split
  · exact Int.le_refl 0
  split
  · decide
  · omega

/-- The harvest is what is stored; outcomes add up as long as every token has room. -/
theorem accounts_sound (L : TextLibrary) (X : ExtractLibrary) {c c' : Engine} {req : Request}
    (h : c.start req = (c', none))
    (hd : Along (Capture.step L X) DuringCapture ⟨c', []⟩ actions) :
    Throughout (Capture.step L X) (fun s => s.engine.Stored ∧
        ∀ ms ∈ s.waits, clampThrottleMs req.throttleMs ≤ ms) ⟨c', []⟩ actions ∧
      (Throughout (Capture.step L X) (fun s => s.engine.Balanced) ⟨c', []⟩ actions ↔
        Along (Capture.step L X) (Fits L X) ⟨c', []⟩ actions) ∧
      (Along (Capture.step L X) (fun _ a => Timely L a) ⟨c', []⟩ actions →
        Throughout (Capture.step L X) (Capture.Paced (clampThrottleMs req.throttleMs)) ⟨c', []⟩
          actions) := by
  have hthrottle := clampThrottleMs_nonneg req.throttleMs
  obtain ⟨hdone, hout, hstored, hreq⟩ := start_runs h
  refine ⟨?_, ?_, fun htimely => ?_⟩
  · refine throughout_of_along (I := fun s => s.engine.Stored ∧
      s.Throttled (clampThrottleMs req.throttleMs) ∧
      ∀ ms ∈ s.waits, clampThrottleMs req.throttleMs ≤ ms) ?_ (fun s hs => ⟨hs.1, hs.2.2⟩)
      ⟨hstored, hreq, fun ms hms => absurd hms List.not_mem_nil⟩ hd
    rintro s a ⟨hs, ht, hw⟩ ha
    refine ⟨step_stored s a ha hs, step_throttled s a ha ht, fun ms hms => ?_⟩
    rcases step_waits s a hthrottle ht ms hms with hold | hnew
    · exact hw ms hold
    · exact hnew.1
  · exact throughout_iff_along_during (I := fun _ => True) (fun _ _ _ _ => trivial)
      (fun s a _ ha hb => step_balanced s a ha hb) trivial (hdone.trans hout.symm) hd
  · refine throughout_of_along (I := fun s => s.Throttled (clampThrottleMs req.throttleMs) ∧
      s.Paced (clampThrottleMs req.throttleMs)) ?_ (fun s hs => hs.2)
      ⟨hreq, fun ms hms => absurd hms List.not_mem_nil⟩ (along_and hd htimely)
    rintro s a ⟨ht, hp⟩ ⟨ha, htime⟩
    refine ⟨step_throttled s a ha ht, fun ms hms => ?_⟩
    rcases step_waits s a hthrottle ht ms hms with hold | hnew
    · exact hp ms hold
    · exact ⟨hnew.1, hnew.2 htime⟩

def statusRequest : Request where
  request := latin1 "GET / HTTP/1.1\r\n\r\n"
  host := utf16 "h"
  extractFrom := .status
  count := 2

def answered (statusCode : Int) (headers : List Header) : InspectedResponse where
  httpVersion := utf16 "HTTP/1.1"
  statusCode := statusCode
  reasonPhrase := []
  headers := headers
  body := []

theorem started {c : Engine} (h : c.running = false) : ∃ c', c.start statusRequest = (c', none) ∧
    c'.worker = some { req := statusRequest, total := 2 } ∧ c'.stop = false ∧ c'.text = c.text := by
  have hstart : ∃ c', c.start statusRequest = (c', none) ∧
      c'.worker = some { req := statusRequest, total := 2 } ∧ c'.stop = false := by
    rw [Engine.start, if_neg (h ▸ Bool.false_ne_true), if_neg (by decide), if_neg (by decide)]
    exact ⟨_, rfl, rfl, rfl⟩
  obtain ⟨c', hstart, hworker, hstop⟩ := hstart
  have hstands := start_stands (c := c) statusRequest
  rw [hstart] at hstands
  exact ⟨c', hstart, hworker, hstop, hstands.1⟩

def pasted (text : QString) : Engine := (Engine.appendText {} text).1

theorem pasted_text {text : QString} (h : text.length + 1 ≤ kMaxCorpus) :
    (pasted text).running = false ∧ (pasted text).text.toQString = text := by
  have hroom : ¬ ((Engine.text {}).toQString.length + text.length + 1 > kMaxCorpus) := by
    show ¬ (0 + text.length + 1 > kMaxCorpus)
    omega
  rw [pasted, Engine.appendText]
  exact (if_neg hroom).symm ▸ ⟨rfl, rfl⟩

def fullCorpus : Engine := pasted (List.replicate (kMaxCorpus - 1) 0x61)

theorem fullCorpus_text : fullCorpus.running = false ∧
    fullCorpus.text.toQString.length = kMaxCorpus - 1 := by
  have hlength : (List.replicate (kMaxCorpus - 1) (0x61 : UInt16)).length = kMaxCorpus - 1 :=
    List.length_replicate
  have hroom : (List.replicate (kMaxCorpus - 1) (0x61 : UInt16)).length + 1 ≤ kMaxCorpus := by
    rw [hlength]
    unfold kMaxCorpus
    omega
  obtain ⟨hidle, hheld⟩ := pasted_text hroom
  exact ⟨hidle, (congrArg List.length hheld).trans hlength⟩

theorem during_two {c : Engine} (hw : c.worker = some { req := statusRequest, total := 2 })
    (hstop : c.stop = false) (res : Option InspectedResponse) :
    (c.send).worker = some { req := statusRequest, total := 2, sent := true } ∧
      Along (Capture.step asciiLibrary noExtracts) DuringCapture ⟨c, []⟩ [.send, .shot res] := by
  have hsend : c.send.worker = some { req := statusRequest, total := 2, sent := true } := by
    unfold Engine.send
    rw [hw]
    dsimp only
    rw [if_neg (by decide), if_pos ⟨by decide, hstop⟩]
  refine ⟨hsend, ⟨?_, nofun⟩, ⟨?_, nofun⟩, trivial⟩
  · rw [Engine.running, hw]
    rfl
  · rw [Capture.step, Engine.next, Engine.running, hsend]
    · rfl
    · exact nofun

theorem capture_of_two : ∃ c, Engine.start {} statusRequest = (c, none) ∧
    (Throughout (Capture.step asciiLibrary noExtracts) (fun s => s.engine.Balanced) ⟨c, []⟩
        [.send, .shot (some (answered 200 []))] ↔
      Along (Capture.step asciiLibrary noExtracts) (Fits asciiLibrary noExtracts) ⟨c, []⟩
        [.send, .shot (some (answered 200 []))]) := by
  obtain ⟨c, hstart, hw, hstop, -⟩ := started (c := {}) rfl
  obtain ⟨-, hduring⟩ := during_two hw hstop (some (answered 200 []))
  exact ⟨c, hstart, (accounts_sound asciiLibrary noExtracts hstart hduring).2.1⟩

/-- A token without room has no outcome, and too many seconds make too long a wait. -/
theorem capture_unsound :
    (∃ c, fullCorpus.start statusRequest = (c, none) ∧
      Along (Capture.step asciiLibrary noExtracts) DuringCapture ⟨c, []⟩
        [.send, .shot (some (answered 200 []))] ∧
      ¬ Throughout (Capture.step asciiLibrary noExtracts) (fun s => s.engine.Balanced) ⟨c, []⟩
        [.send, .shot (some (answered 200 []))]) ∧
    ∃ c, Engine.start {} statusRequest = (c, none) ∧
      Along (Capture.step asciiLibrary noExtracts) DuringCapture ⟨c, []⟩
        [.send, .shot (some (answered 429
          [(utf16 "Retry-After", utf16 "9223372036854876")]))] ∧
      ¬ Throughout (Capture.step asciiLibrary noExtracts) (Capture.Paced 0) ⟨c, []⟩
        [.send, .shot (some (answered 429
          [(utf16 "Retry-After", utf16 "9223372036854876")]))] := by
  constructor
  · obtain ⟨hidle, hfull⟩ := fullCorpus_text
    obtain ⟨c, hstart, hw, hstop, htext⟩ := started hidle
    obtain ⟨hsend, hduring⟩ := during_two hw hstop (some (answered 200 []))
    refine ⟨c, hstart, hduring, fun hall => ?_⟩
    have hsent := hall [.send] ⟨[_], rfl⟩
    have hend := hall [.send, .shot (some (answered 200 []))] List.prefix_rfl
    have hfits := (step_balanced _ _ hduring.2.1 hsent).1 hend
    have hroom := (fits_iff hsend rfl _).1 hfits ⟨rfl, by decide⟩
    have hcorpus : c.send.text.toQString.length + 3 + 1 ≤ kMaxCorpus := hroom.2
    rw [send_stands.1, htext, hfull] at hcorpus
    exact absurd hcorpus (by decide)
  · obtain ⟨c, hstart, hw, hstop, -⟩ := started (c := {}) rfl
    obtain ⟨hsend, hduring⟩ := during_two hw hstop (some (answered 429
      [(utf16 "Retry-After", utf16 "9223372036854876")]))
    refine ⟨c, hstart, hduring, fun hall => ?_⟩
    have hend := hall [.send, .shot (some (answered 429
      [(utf16 "Retry-After", utf16 "9223372036854876")]))] List.prefix_rfl
    have hwait : (100192 : Int) ∈ Engine.pause asciiLibrary noExtracts c.send (some (answered 429
        [(utf16 "Retry-After", utf16 "9223372036854876")])) := by
      have hms : waitMs asciiLibrary statusRequest (some (answered 429
          [(utf16 "Retry-After", utf16 "9223372036854876")])) = 100192 := by
        decide +kernel
      have hgoes : ∀ after, after = c.send.shot asciiLibrary noExtracts (some (answered 429
          [(utf16 "Retry-After", utf16 "9223372036854876")])) →
          after.running = true ∧ after.stop = false := by
        have hc : c = (Engine.start {} statusRequest).1 := by rw [hstart]
        rintro _ rfl
        rw [hc]
        decide +kernel
      obtain ⟨hruns, hgoing⟩ := hgoes _ rfl
      rw [Engine.pause, hsend]
      dsimp only
      rw [if_pos ⟨rfl, hruns, by decide, hgoing⟩, hms, if_pos (by decide),
        interruptibleSleep_full (by decide)]
      exact List.mem_singleton_self _
    have hle := (hend 100192 (List.mem_append_right _ hwait)).2
    exact absurd hle (by decide)

end Run

end Nullock.SequencerCapture

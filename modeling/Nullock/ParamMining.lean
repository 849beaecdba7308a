import Nullock.Bisections
import Nullock.CookieJar
import Nullock.IntruderGrading
import Nullock.ProbeRequests

namespace Nullock.ParamMiner
open HttpLogic Bisections
open Intruder (SentRequest SendResult ClientResponse)

structure Found where
  name : QString
  signal : QString
  reflected : Bool
  baselineStatus : Int
  observedStatus : Int
deriving DecidableEq

def statusFound (baseStatus : Int) (name : QString) (r : SendResult) : Found :=
  ⟨name, utf16 "status-change", false, baseStatus, r.parsed.statusCode⟩

def reflectedFound (baseStatus : Int) (name : QString) (r : SendResult) : Found :=
  ⟨name, utf16 "reflected", true, baseStatus, r.parsed.statusCode⟩

structure Request where
  host : QString
  port : Int := 443
  tls : Bool := true
  method : QString := utf16 "GET"
  basePath : QString
  headers : List ProbeHeader

structure Result where
  found : List Found := []
  requestsSent : Nat := 0
  candidatesTried : Nat := 0
  statusSignalUsable : Bool := true
  reflectionSignalUsable : Bool := true
  error : QString := []

/-- A run of the miner, with what was sent and what it was answered. -/
structure Mining extends Result where
  exchanges : List (SentRequest × SendResult) := []

/-- An answer may depend on all that was sent before. -/
abbrev Network := List (SentRequest × SendResult) → SentRequest → SendResult

abbrev Params := List (QString × QString)

/-- The lower hexadecimal digits of a number, at least six of them. -/
def paddedHex (r : UInt32) : QString :=
  let digits := (Nat.toDigits 16 r.toNat).flatMap (fun c => utf16 (String.singleton c))
  List.replicate (6 - digits.length) 0x30 ++ digits

def canaryFor (r : UInt32) (idx : Int) : QString :=
  utf16 "qm" ++ QString.number idx ++ utf16 "z" ++ paddedHex r

section Building
variable (L : TextLibrary)

def enc (s : QString) : QString := L.fromUtf8 (L.toPercentEncoding s)

def extraText (params : Params) : QString :=
  params.foldl
    (fun extra p => (if extra.isEmpty then extra else extra ++ utf16 "&") ++ enc L p.1 ++
      utf16 "=" ++ enc L p.2) []

def dropped : List String := ["Host", "Content-Type", "Content-Length", "Accept-Encoding"]

def written (req : Request) (framing : List ProbeHeader) : List ProbeHeader :=
  [(utf16 "Host", req.host), fixedHeader "User-Agent" "Nullock/param-miner",
    fixedHeader "Accept" "*/*", fixedHeader "Accept-Encoding" "identity"] ++
  carried dropped req.headers ++ framing ++ [fixedHeader "Connection" "close"]

def buildRequest (req : Request) (params : Params) : QByteArray :=
  let path := if req.basePath.isEmpty then utf16 "/" else req.basePath
  if hasBreak req.method || hasBreak req.host || hasBreak path then []
  else
    let extra := extraText L params
    if equalsIgnoreCase req.method (utf16 "POST") then
      let body := toUtf8 extra
      probeBytes req.method path (written req
        [fixedHeader "Content-Type" "application/x-www-form-urlencoded",
          (utf16 "Content-Length", QString.number body.length)]) ++ body
    else
      let target :=
        if extra.isEmpty then path
        else path ++ (if path.contains 0x3F then utf16 "&" else utf16 "?") ++ extra
      probeBytes req.method target (written req [])

end Building

def canaryReflected (resp : ClientResponse) (canary : QString) : Bool :=
  (indexOf canary (QString.fromUtf8 resp.body)).isSome ||
    resp.headers.any (fun h => (indexOf canary h.2).isSome)

def statusFlipConfirmed (firstStatus reBaselineStatus reSendStatus baseStatus : Int) : Bool :=
  firstStatus != baseStatus && reSendStatus == firstStatus && reBaselineStatus == baseStatus

def flipped (baseStatus : Int) (r : SendResult) : Bool :=
  r.ok && r.parsed.statusCode != baseStatus

section Mine
variable (L : TextLibrary) (net : Network) (req : Request) (baseStatus : Int)

def request (params : Params) : SentRequest :=
  ⟨req.host, (req.port % 65536).toNat, req.tls, buildRequest L req params⟩

def Mining.answer (m : Mining) (params : Params) : SendResult :=
  net m.exchanges (request L req params)

def Mining.send (m : Mining) (params : Params) : Mining :=
  { m with
    requestsSent := m.requestsSent + 1
    exchanges := m.exchanges ++ [(request L req params, m.answer L net req params)] }

/-- A batch of one: sent, and when it flips the status, confirmed by two more requests. -/
def Mining.confirm (p : QString × QString) (m : Mining) : Mining :=
  let r := m.answer L net req [p]
  let first := m.send L net req [p]
  if !flipped baseStatus r then first
  else
    let reBase := first.answer L net req []
    let again := first.send L net req []
    let r2 := again.answer L net req [p]
    let last := again.send L net req [p]
    if !reBase.ok || !r2.ok then last
    else if statusFlipConfirmed r.parsed.statusCode reBase.parsed.statusCode
        r2.parsed.statusCode baseStatus then
      { last with found := last.found ++ [statusFound baseStatus p.1 r2] }
    else last

def Mining.isolate (batch : Params) (m : Mining) : Mining :=
  bisect
    (fun part (m : Mining) =>
      (flipped baseStatus (m.answer L net req part), m.send L net req part))
    (Mining.confirm L net req baseStatus) batch m

def Mining.sendBatch (m : Mining) (params : Params) : Mining :=
  { m.send L net req params with candidatesTried := m.candidatesTried + params.length }

def Mining.addReflected (m : Mining) (params : Params) (r : SendResult) : Mining :=
  if m.reflectionSignalUsable then
    { m with
      found := m.found ++
        (params.filter (fun p => canaryReflected r.parsed p.2)).map (fun p =>
          reflectedFound baseStatus p.1 r) }
  else m

def Mining.mineBatch (m : Mining) (params : Params) : Mining :=
  let r := m.answer L net req params
  let sent := m.sendBatch L net req params
  if !r.ok then sent
  else
    let m := sent.addReflected baseStatus params r
    if m.statusSignalUsable && r.parsed.statusCode != baseStatus then
      m.isolate L net req baseStatus params
    else m

/-- The candidates with their canaries; `random` is what the generator draws, two for the junk. -/
def canaried (random : Nat → UInt32) (candidates : List QString) : Params :=
  candidates.zipIdx.map (fun x => (x.1, canaryFor (random (x.2 + 2)) x.2))

def junk (random : Nat → UInt32) : QString × QString :=
  (utf16 "nlkx" ++ canaryFor (random 0) (-1), canaryFor (random 1) (-2))

def clamped (batchSize : Int) : Nat :=
  if batchSize < 1 then 1 else if batchSize > 50 then 50 else batchSize.toNat

def mine (random : Nat → UInt32) (candidates : List QString) (batchSize : Int) : Mining :=
  let start : Mining := {}
  if req.host.isEmpty then { start with error := utf16 "host required" }
  else
    let base1 := start.answer L net req []
    let m := start.send L net req []
    if !base1.ok then
      { m with error := utf16 "baseline request failed: " ++ base1.errorMessage }
    else
      let baseStatus := base1.parsed.statusCode
      let base2 := m.answer L net req []
      let m := m.send L net req []
      let statusStable := base2.ok && base2.parsed.statusCode == baseStatus
      let ctrl := m.answer L net req [junk random]
      let m := m.send L net req [junk random]
      let m := { m with
        statusSignalUsable := statusStable && !flipped baseStatus ctrl
        reflectionSignalUsable := !(ctrl.ok && canaryReflected ctrl.parsed (junk random).2) }
      (batchesOf (clamped batchSize) (canaried random candidates)).foldl
        (Mining.mineBatch L net req baseStatus) m

end Mine

section Evidence
variable (L : TextLibrary) (req : Request)

/-- What a finding rests on: the name was asked alone, with the baseline in between, and both times
the status was the same other one; or its canary came back in the answer to its batch. -/
inductive Shown (all : Params) (start : Mining) (log : List (SentRequest × SendResult))
    (f : Found) : Prop
  | confirmed (canary : QString) (r reBase r2 : SendResult) (mem : (f.name, canary) ∈ all)
      (usable : start.statusSignalUsable = true) (unreflected : f.reflected = false)
      (asked : [(request L req [(f.name, canary)], r), (request L req [], reBase),
        (request L req [(f.name, canary)], r2)] <:+: log)
      (ok : r.ok = true ∧ reBase.ok = true ∧ r2.ok = true)
      (rebased : reBase.parsed.statusCode = f.baselineStatus)
      (seen : r.parsed.statusCode = f.observedStatus ∧ r2.parsed.statusCode = f.observedStatus)
      (differs : f.observedStatus ≠ f.baselineStatus)
  | reflected (canary : QString) (params : Params) (r : SendResult)
      (mem : (f.name, canary) ∈ all) (among : (f.name, canary) ∈ params)
      (usable : start.reflectionSignalUsable = true) (reflected : f.reflected = true)
      (asked : (request L req params, r) ∈ log) (ok : r.ok = true)
      (seen : canaryReflected r.parsed canary = true)

/-- The invariant of the miner behind its three first requests. -/
structure Mining.Sound (all : Params) (baseStatus : Int) (m start : Mining) : Prop where
  log : start.exchanges <+: m.exchanges
  status : m.statusSignalUsable = start.statusSignalUsable
  reflection : m.reflectionSignalUsable = start.reflectionSignalUsable
  counted : m.requestsSent = m.exchanges.length
  asked : ∀ e ∈ m.exchanges, e ∈ start.exchanges ∨ ∃ params ⊆ all, e.1 = request L req params
  found : ∀ f ∈ m.found, f.baselineStatus = baseStatus ∧ Shown L req all start m.exchanges f

variable {L req} (net : Network) {all : Params} {baseStatus : Int} {start m : Mining}

theorem Shown.mono (h : Shown L req all start log f) (hlog : log <+: log') :
    Shown L req all start log' f := by
  cases h with
  | confirmed canary r reBase r2 mem usable unreflected asked ok rebased seen differs =>
    exact .confirmed canary r reBase r2 mem usable unreflected (asked.trans hlog.isInfix) ok
      rebased seen differs
  | reflected canary params r mem among usable reflected asked ok seen =>
    exact .reflected canary params r mem among usable reflected (hlog.subset asked) ok seen

theorem Mining.Sound.send (h : m.Sound L req all baseStatus start) (hparams : params ⊆ all) :
    (m.send L net req params).Sound L req all baseStatus start where
  log := h.log.trans (List.prefix_append _ _)
  status := h.status
  reflection := h.reflection
  counted := by simp [Mining.send, h.counted]
  asked e he := by
    rcases List.mem_append.1 he with he | he
    · exact h.asked e he
    · rw [List.mem_singleton.1 he]
      exact .inr ⟨params, hparams, rfl⟩
  found f hf := ⟨(h.found f hf).1, (h.found f hf).2.mono (List.prefix_append _ _)⟩

theorem Mining.Sound.add (h : m.Sound L req all baseStatus start) {new : List Found}
    (hnew : ∀ f ∈ new, f.baselineStatus = baseStatus ∧ Shown L req all start m.exchanges f) :
    Mining.Sound L req all baseStatus { m with found := m.found ++ new } start :=
  { h with found := fun f hf => (List.mem_append.1 hf).elim (h.found f) (hnew f) }

theorem Mining.Sound.confirm (h : m.Sound L req all baseStatus start) (hp : p ∈ all)
    (husable : start.statusSignalUsable = true) :
    (m.confirm L net req baseStatus p).Sound L req all baseStatus start := by
  have hone : [p] ⊆ all := List.cons_subset.2 ⟨hp, List.nil_subset _⟩
  have hfirst := h.send net hone
  have hlast := (hfirst.send net (List.nil_subset all)).send net hone
  rw [Mining.confirm]
  dsimp only
  split
  · exact hfirst
  · rename_i hflipped
    simp only [flipped, Bool.not_eq_true', Bool.not_eq_false, Bool.and_eq_true] at hflipped
    split
    · exact hlast
    · rename_i hok
      simp only [Bool.or_eq_true, not_or, Bool.not_eq_true', Bool.not_eq_false] at hok
      split
      · rename_i hstatus
        simp only [statusFlipConfirmed, Bool.and_eq_true, bne_iff_ne, beq_iff_eq] at hstatus
        apply hlast.add
        intro f hf
        rw [List.mem_singleton.1 hf]
        refine ⟨rfl, .confirmed p.2 _ _ _ hp husable rfl ⟨m.exchanges, [], ?_⟩
          ⟨hflipped.1, hok.1, hok.2⟩ hstatus.2 ⟨hstatus.1.2.symm, rfl⟩ ?_⟩
        · simp [Mining.send]
          rfl
        · intro hsame
          exact hstatus.1.1 (hstatus.1.2.symm.trans hsame)
      · exact hlast

theorem Mining.Sound.isolate (h : m.Sound L req all baseStatus start) {batch : Params}
    (hbatch : batch ⊆ all) (husable : start.statusSignalUsable = true) :
    (m.isolate L net req baseStatus batch).Sound L req all baseStatus start :=
  bisect_keeps (I := (Mining.Sound L req all baseStatus · start)) batch
    (fun _ _ hpart hs => hs.send net (List.Subset.trans hpart.subset hbatch))
    (fun _ _ hx hs => hs.confirm net (hbatch hx) husable) h

theorem Mining.Sound.sendBatch (h : m.Sound L req all baseStatus start) (hbatch : batch ⊆ all) :
    (m.sendBatch L net req batch).Sound L req all baseStatus start :=
  { h.send net hbatch with }

theorem Mining.Sound.addReflected (h : m.Sound L req all baseStatus start) {batch : Params}
    (hbatch : batch ⊆ all) {r : SendResult} (hok : r.ok = true)
    (hr : (request L req batch, r) ∈ m.exchanges) :
    (m.addReflected baseStatus batch r).Sound L req all baseStatus start := by
  rw [Mining.addReflected]
  split
  · rename_i husable
    apply h.add
    intro f hf
    obtain ⟨p, hp, rfl⟩ := List.mem_map.1 hf
    obtain ⟨hp, hseen⟩ := List.mem_filter.1 hp
    exact ⟨rfl, .reflected p.2 batch r (hbatch hp) hp (h.reflection.symm.trans husable) rfl hr hok
      hseen⟩
  · exact h

theorem Mining.Sound.mineBatch (h : m.Sound L req all baseStatus start) (hbatch : batch ⊆ all) :
    (m.mineBatch L net req baseStatus batch).Sound L req all baseStatus start := by
  have hsent := h.sendBatch net hbatch
  rw [Mining.mineBatch]
  dsimp only
  split
  · exact hsent
  · rename_i hok
    rw [Bool.not_eq_true', Bool.not_eq_false] at hok
    have hadded := hsent.addReflected hbatch hok
      (List.mem_append_right m.exchanges List.mem_cons_self)
    split
    · rename_i hflip
      rw [Bool.and_eq_true] at hflip
      exact hadded.isolate net hbatch (hadded.status.symm.trans hflip.1)
    · exact hadded

theorem Mining.Sound.mineBatches (h : m.Sound L req all baseStatus start)
    {batches : List Params} (hbatches : ∀ batch ∈ batches, batch ⊆ all) :
    (batches.foldl (Mining.mineBatch L net req baseStatus) m).Sound L req all baseStatus start := by
  induction batches generalizing m with
  | nil => exact h
  | cons batch batches ih =>
    rw [List.forall_mem_cons] at hbatches
    exact ih (h.mineBatch net hbatches.1) hbatches.2

end Evidence

section Cost
variable (L : TextLibrary) (net : Network) (req : Request) (baseStatus : Int)

theorem confirm_cost (p : QString × QString) (m : Mining) :
    (m.confirm L net req baseStatus p).requestsSent ≤ m.requestsSent + 3 := by
  rw [Mining.confirm]
  dsimp only
  repeat' split
  all_goals simp only [Mining.send]; omega

theorem isolate_cost {batch : Params} (hbatch : batch ≠ []) (m : Mining) :
    (m.isolate L net req baseStatus batch).requestsSent + 2 ≤
      m.requestsSent + 5 * batch.length :=
  bisect_cost (μ := fun m : Mining => m.requestsSent) (c := 3) (fun _ _ => Nat.le_refl _)
    (confirm_cost L net req baseStatus) batch m hbatch

theorem mineBatch_cost (m : Mining) (hbatch : batch ≠ []) :
    (m.mineBatch L net req baseStatus batch).requestsSent ≤ m.requestsSent + 5 * batch.length := by
  have hpos : 0 < batch.length := List.length_pos_of_ne_nil hbatch
  have hadded : ((m.sendBatch L net req batch).addReflected baseStatus batch
      (m.answer L net req batch)).requestsSent = m.requestsSent + 1 := by
    rw [Mining.addReflected]
    split <;> rfl
  rw [Mining.mineBatch]
  dsimp only
  split
  · change m.requestsSent + 1 ≤ _
    omega
  · split
    · have hisolate := isolate_cost L net req baseStatus hbatch
        ((m.sendBatch L net req batch).addReflected baseStatus batch (m.answer L net req batch))
      omega
    · omega

theorem mineBatches_cost (batches : List Params) (hbatches : ∀ batch ∈ batches, batch ≠ [])
    (m : Mining) : (batches.foldl (Mining.mineBatch L net req baseStatus) m).requestsSent ≤
      m.requestsSent + 5 * batches.flatten.length := by
  induction batches generalizing m with
  | nil => exact Nat.le_refl _
  | cons batch batches ih =>
    rw [List.forall_mem_cons] at hbatches
    have hfirst := mineBatch_cost L net req baseStatus m hbatches.1
    have hrest := ih hbatches.2 (m.mineBatch L net req baseStatus batch)
    rw [List.flatten_cons, List.length_append, List.foldl_cons]
    omega

end Cost

section Mined
variable (L : TextLibrary) (net : Network) (req : Request) (random : Nat → UInt32)
  (candidates : List QString) (batchSize : Int)

theorem clamped_ne_zero : clamped batchSize ≠ 0 := by
  rw [clamped]
  split
  · decide
  · split <;> omega

theorem flatten_batches : (batchesOf (clamped batchSize) (canaried random candidates)).flatten =
    canaried random candidates := flatten_batchesOf (clamped_ne_zero batchSize) _

theorem map_canaried : (canaried random candidates).map Prod.fst = candidates := by
  rw [canaried, List.map_map]
  exact List.zipIdx_map_fst 0 candidates

/-- What the miner knows after its first three requests. -/
structure Opened (base base2 ctrl : SendResult) (m : Mining) : Prop where
  exchanges : m.exchanges = [(request L req [], base), (request L req [], base2),
    (request L req [junk random], ctrl)]
  first : base = net [] (request L req [])
  second : base2 = net [(request L req [], base)] (request L req [])
  third : ctrl = net [(request L req [], base), (request L req [], base2)]
    (request L req [junk random])
  ok : base.ok = true
  status : m.statusSignalUsable = (base2.ok && base2.parsed.statusCode == base.parsed.statusCode &&
    !flipped base.parsed.statusCode ctrl)
  reflection : m.reflectionSignalUsable =
    !(ctrl.ok && canaryReflected ctrl.parsed (junk random).2)
  found : m.found = []
  sent : m.requestsSent = 3

/-- A run that ends before the candidates. -/
structure Ended (m : Mining) : Prop where
  cause : req.host = [] ∨ (net [] (request L req [])).ok = false
  few : m.exchanges.length ≤ 1
  sent : m.requestsSent = m.exchanges.length
  found : m.found = []
  asked : ∀ e ∈ m.exchanges, e.1 = request L req []

theorem mine_cases : Ended L net req (mine L net req random candidates batchSize) ∨
    ∃ base base2 ctrl m, Opened L net req random base base2 ctrl m ∧
      mine L net req random candidates batchSize =
        (batchesOf (clamped batchSize) (canaried random candidates)).foldl
          (Mining.mineBatch L net req base.parsed.statusCode) m := by
  rw [mine]
  dsimp only
  split
  · rename_i hhost
    exact .inl ⟨.inl (List.isEmpty_iff.1 hhost), Nat.zero_le 1, rfl, rfl, fun e he => by cases he⟩
  · split
    · rename_i hfailed
      rw [Bool.not_eq_true'] at hfailed
      refine .inl ⟨.inr hfailed, Nat.le_refl 1, rfl, rfl, fun e he => ?_⟩
      rw [List.mem_singleton.1 he]
    · rename_i hok
      rw [Bool.not_eq_true', Bool.not_eq_false] at hok
      exact .inr ⟨_, _, _, _, ⟨rfl, rfl, rfl, rfl, hok, rfl, rfl, rfl, rfl⟩, rfl⟩

theorem Opened.sound {base base2 ctrl : SendResult} {m : Mining}
    (h : Opened L net req random base base2 ctrl m) (all : Params) :
    m.Sound L req all base.parsed.statusCode m where
  log := List.prefix_refl _
  status := rfl
  reflection := rfl
  counted := by
    rw [h.sent, h.exchanges]
    rfl
  asked e he := .inl he
  found f hf := by
    rw [h.found] at hf
    cases hf

theorem mine_sound {base base2 ctrl : SendResult} {m : Mining}
    (h : Opened L net req random base base2 ctrl m) :
    Mining.Sound L req (canaried random candidates) base.parsed.statusCode
      ((batchesOf (clamped batchSize) (canaried random candidates)).foldl
        (Mining.mineBatch L net req base.parsed.statusCode) m) m := by
  apply (h.sound L net req random _).mineBatches net
  intro batch hbatch p hp
  rw [← flatten_batches random candidates batchSize]
  exact List.mem_flatten_of_mem hbatch hp

/-- Every finding rests on what was sent and answered, after an opening that allows its signal. -/
def Grounded (m : Mining) : Prop :=
  ∀ f ∈ m.found, f.name ∈ candidates ∧ ∃ base base2 ctrl start,
    Opened L net req random base base2 ctrl start ∧ start.exchanges <+: m.exchanges ∧
    f.baselineStatus = base.parsed.statusCode ∧
    Shown L req (canaried random candidates) start m.exchanges f

/-- Each request carries candidates or the junk, and there are at most five for a candidate. -/
structure Bounded (m : Mining) : Prop where
  counted : m.requestsSent = m.exchanges.length
  asked : ∀ e ∈ m.exchanges, ∃ params, params ⊆ junk random :: canaried random candidates ∧
    e.1 = request L req params
  bounded : m.requestsSent ≤ 3 + 5 * candidates.length

theorem Shown.candidate {start : Mining}
    (h : Shown L req (canaried random candidates) start log f) :
    f.name ∈ candidates := by
  rw [← map_canaried random candidates]
  cases h with
  | confirmed canary _ _ _ mem => exact List.mem_map_of_mem mem
  | reflected canary _ _ mem => exact List.mem_map_of_mem mem

theorem mine_grounded :
    Grounded L net req random candidates (mine L net req random candidates batchSize) := by
  intro f hf
  obtain hended | ⟨base, base2, ctrl, m, hopened, hmine⟩ :=
    mine_cases L net req random candidates batchSize
  · rw [hended.found] at hf
    cases hf
  · have hsound := mine_sound L net req random candidates batchSize hopened
    rw [hmine] at hf ⊢
    obtain ⟨hbase, hshown⟩ := hsound.found f hf
    exact ⟨hshown.candidate, base, base2, ctrl, m, hopened, hsound.log, hbase, hshown⟩

theorem mine_bounded :
    Bounded L req random candidates (mine L net req random candidates batchSize) := by
  obtain hended | ⟨base, base2, ctrl, m, hopened, hmine⟩ :=
    mine_cases L net req random candidates batchSize
  · refine ⟨hended.sent, fun e he => ⟨[], List.nil_subset _, hended.asked e he⟩, ?_⟩
    rw [hended.sent]
    exact Nat.le_trans hended.few (Nat.le_add_right_of_le (by decide))
  · have hsound := mine_sound L net req random candidates batchSize hopened
    have hcost := mineBatches_cost L net req base.parsed.statusCode
      (batchesOf (clamped batchSize) (canaried random candidates))
      (fun _ => ne_nil_of_mem_batchesOf) m
    rw [flatten_batches, hopened.sent] at hcost
    rw [hmine]
    refine ⟨hsound.counted, fun e he => ?_, ?_⟩
    · rcases hsound.asked e he with he | ⟨params, hparams, he⟩
      · simp only [hopened.exchanges, List.mem_cons, List.not_mem_nil, or_false] at he
        rcases he with rfl | rfl | rfl
        · exact ⟨[], List.nil_subset _, rfl⟩
        · exact ⟨[], List.nil_subset _, rfl⟩
        · exact ⟨_, List.cons_subset_cons _ (List.nil_subset _), rfl⟩
      · exact ⟨params, List.subset_cons_of_subset _ hparams, he⟩
    · have hlength := congrArg List.length (map_canaried random candidates)
      rw [List.length_map] at hlength
      omega

end Mined

section Exact
variable (L : TextLibrary) (req : Request) (server : SentRequest → SendResult)

def stable : Int := (server (request L req [])).parsed.statusCode

/-- A server that does not change: an answer has another status just when a parameter of the
request is an active one, and gives back the canaries of those that it echoes. -/
structure Reacts (random : Nat → UInt32) (batches : List Params) (active echoes : QString → Bool) :
    Prop where
  ok : (server (request L req [])).ok = true
  control : flipped (stable L req server) (server (request L req [junk random])) = false ∧
    canaryReflected (server (request L req [junk random])).parsed (junk random).2 = false
  answers : ∀ batch ∈ batches, ∀ part, part <:+: batch → part ≠ [] →
    (server (request L req part)).ok = true ∧
    ((server (request L req part)).parsed.statusCode != stable L req server) =
      part.any (fun p => active p.1)
  echoed : ∀ batch ∈ batches, ∀ p ∈ batch,
    canaryReflected (server (request L req batch)).parsed p.2 = echoes p.1

/-- What should be found in a batch: those it echoes, and then those that are active. -/
def reported (active echoes : QString → Bool) (batch : Params) : List Found :=
  (batch.filter (fun p => echoes p.1)).map (fun p =>
      reflectedFound (stable L req server) p.1 (server (request L req batch))) ++
    (batch.filter (fun p => active p.1)).map (fun p =>
      statusFound (stable L req server) p.1 (server (request L req [p])))

variable {L req server} {random : Nat → UInt32} {batches : List Params}
  {active echoes : QString → Bool}

theorem confirm_found (hreacts : Reacts L req server random batches active echoes)
    (hbatch : batch ∈ batches) (hp : p ∈ batch) (m : Mining) :
    (m.confirm L (fun _ => server) req (stable L req server) p).found = m.found ++
      if active p.1 then [statusFound (stable L req server) p.1 (server (request L req [p]))]
      else [] := by
  obtain ⟨hok, hflip⟩ := hreacts.answers batch hbatch [p] ((List.singleton_infix_iff p batch).2 hp)
    (List.cons_ne_nil p [])
  have hrebased : (server (request L req [])).parsed.statusCode = stable L req server := rfl
  rw [List.any_cons, List.any_nil, Bool.or_false] at hflip
  simp only [Mining.confirm, Mining.answer, Mining.send, flipped, statusFlipConfirmed, hok,
    hreacts.ok, hrebased, hflip, Bool.true_and, Bool.not_true, Bool.or_self, beq_self_eq_true,
    Bool.and_true]
  cases active p.1
  · exact (List.append_nil _).symm
  · rfl

theorem isolate_found (hreacts : Reacts L req server random batches active echoes)
    (hbatch : batch ∈ batches) (m : Mining) :
    (m.isolate L (fun _ => server) req (stable L req server) batch).found = m.found ++
      (batch.filter (fun p => active p.1)).map (fun p =>
        statusFound (stable L req server) p.1 (server (request L req [p]))) := by
  refine bisect_exact (g := fun m : Mining => m.found) batch ?_
    (fun p m hp => confirm_found hreacts hbatch hp m) m
  intro part s hpart
  refine ⟨?_, rfl⟩
  change flipped (stable L req server) (server (request L req part)) = _
  by_cases hpart0 : part = []
  · rw [hpart0, flipped, List.any_nil]
    exact (congrArg _ (bne_self_eq_false _)).trans (Bool.and_false _)
  · obtain ⟨hok, hflip⟩ := hreacts.answers batch hbatch part hpart hpart0
    rw [flipped, hok, Bool.true_and, hflip]

theorem mineBatch_found (hreacts : Reacts L req server random batches active echoes)
    (hbatch : batch ∈ batches) (hne : batch ≠ []) {m : Mining}
    (hstatus : m.statusSignalUsable = true) (hreflection : m.reflectionSignalUsable = true) :
    (m.mineBatch L (fun _ => server) req (stable L req server) batch).found =
      m.found ++ reported L req server active echoes batch := by
  obtain ⟨hok, hflip⟩ := hreacts.answers batch hbatch batch (List.infix_refl batch) hne
  have hadded : (m.sendBatch L (fun _ => server) req batch).addReflected
      (stable L req server) batch (server (request L req batch)) =
        { m.sendBatch L (fun _ => server) req batch with
          found := m.found ++ (batch.filter (fun p => echoes p.1)).map (fun p =>
            reflectedFound (stable L req server) p.1 (server (request L req batch))) } := by
    rw [← List.filter_congr (hreacts.echoed batch hbatch), Mining.addReflected]
    exact if_pos hreflection
  rw [Mining.mineBatch, reported, ← List.append_assoc]
  dsimp only
  split
  · rename_i hfailed
    rw [Bool.not_eq_true'] at hfailed
    exact absurd (hfailed.symm.trans hok) Bool.false_ne_true
  · split
    · rw [isolate_found hreacts hbatch]
      exact congrArg (fun n : Mining => n.found ++ _) hadded
    · rename_i hquiet
      have hnone : batch.any (fun p => active p.1) = false := by
        rw [← hflip]
        refine Bool.eq_false_iff.2 fun h => hquiet ?_
        rw [Bool.and_eq_true]
        exact ⟨(congrArg (fun n : Mining => n.statusSignalUsable) hadded).trans hstatus, h⟩
      rw [List.any_eq_false] at hnone
      rw [List.filter_eq_nil_iff.2 hnone, List.map_nil, List.append_nil]
      exact congrArg (fun n : Mining => n.found) hadded

theorem mineBatches_found (hreacts : Reacts L req server random batches active echoes)
    (taken : List Params) (htaken : ∀ batch ∈ taken, batch ∈ batches ∧ batch ≠ [])
    {start m : Mining} (hsound : m.Sound L req batches.flatten (stable L req server) start)
    (hstatus : start.statusSignalUsable = true)
    (hreflection : start.reflectionSignalUsable = true) :
    (taken.foldl (Mining.mineBatch L (fun _ => server) req (stable L req server)) m).found =
      m.found ++ taken.flatMap (reported L req server active echoes) := by
  induction taken generalizing m with
  | nil => exact (List.append_nil _).symm
  | cons batch taken ih =>
    rw [List.forall_mem_cons] at htaken
    obtain ⟨⟨hbatch, hne⟩, htaken⟩ := htaken
    have hnext := hsound.mineBatch (fun _ => server)
      (fun p hp => List.mem_flatten_of_mem hbatch hp)
    rw [List.foldl_cons, ih htaken hnext, List.flatMap_cons,
      mineBatch_found hreacts hbatch hne (hsound.status.trans hstatus)
        (hsound.reflection.trans hreflection), List.append_assoc]

/-- The miner finds just the parameters the server reacts to. -/
theorem mine_exact (L : TextLibrary) (req : Request) (server : SentRequest → SendResult)
    (random : Nat → UInt32) (candidates : List QString) (batchSize : Int)
    (active echoes : QString → Bool) (hhost : req.host ≠ [])
    (hreacts : Reacts L req server random
      (batchesOf (clamped batchSize) (canaried random candidates)) active echoes) :
    (mine L (fun _ => server) req random candidates batchSize).found =
      (batchesOf (clamped batchSize) (canaried random candidates)).flatMap
        (reported L req server active echoes) := by
  obtain hended | ⟨base, base2, ctrl, m, hopened, hmine⟩ :=
    mine_cases L (fun _ => server) req random candidates batchSize
  · rcases hended.cause with hcause | hcause
    · exact absurd hcause hhost
    · exact absurd (hcause.symm.trans hreacts.ok) Bool.false_ne_true
  · obtain rfl : base = server (request L req []) := hopened.first
    have hstatus : m.statusSignalUsable = true := by
      rw [hopened.status, hopened.second, hreacts.ok, Bool.true_and, beq_self_eq_true,
        Bool.true_and, hopened.third, Bool.not_eq_true']
      exact hreacts.control.1
    have hreflection : m.reflectionSignalUsable = true := by
      rw [hopened.reflection, hopened.third, hreacts.control.2, Bool.and_false, Bool.not_false]
    have hfound := mineBatches_found hreacts _
      (fun batch hbatch => ⟨hbatch, ne_nil_of_mem_batchesOf hbatch⟩)
      (hopened.sound _ _ _ _ _) hstatus hreflection
    rw [hopened.found, List.nil_append] at hfound
    exact (congrArg (fun n : Mining => n.found) hmine).trans hfound

def debugRequest : Request := { host := utf16 "shop.test", basePath := utf16 "/", headers := [] }

def debugServer (r : SentRequest) : SendResult :=
  { ok := true
    parsed := { toHttpResponse :=
      ⟨[], if (indexOf (latin1 "debug") r.bytes).isSome then 500 else 200, [], [], []⟩ } }

theorem mine_debug :
    (mine SessionRules.qtLibrary (fun _ => debugServer) debugRequest (fun _ => 7)
      [utf16 "page", utf16 "debug"] 25).found =
        [⟨utf16 "debug", utf16 "status-change", false, 200, 500⟩] := by
  have hbatches : batchesOf (clamped 25) (canaried (fun _ => 7) [utf16 "page", utf16 "debug"]) =
      [canaried (fun _ => 7) [utf16 "page", utf16 "debug"]] := by
    rw [batchesOf, dif_neg (by decide), batchesOf, dif_pos (by decide)]
    rfl
  have hreacts : Reacts SessionRules.qtLibrary debugRequest debugServer (fun _ => 7)
      (batchesOf (clamped 25) (canaried (fun _ => 7) [utf16 "page", utf16 "debug"]))
      (· == utf16 "debug") (fun _ => false) := by
    rw [hbatches]
    refine ⟨rfl, by decide +kernel, ?_, by decide +kernel⟩
    intro batch hbatch part hpart
    rw [List.mem_singleton.1 hbatch] at hpart
    replace hpart := List.mem_sublists.2 hpart.sublist
    revert part
    exact forall_mem_of_all (by decide +kernel)
  rw [mine_exact _ _ _ _ _ 25 _ _ (by decide) hreacts, hbatches]
  decide +kernel

end Exact

end Nullock.ParamMiner

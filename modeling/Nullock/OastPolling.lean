import Nullock.OastCorrelator

namespace Nullock.Oast

deriving instance DecidableEq for OastHit

def kMaxHits : Nat := 1000

/-- The ring of the hits: what goes beyond its bound falls out at the front. -/
def appendHit (hits : List OastHit) (hit : OastHit) : List OastHit :=
  (hits ++ [hit]).drop ((hits ++ [hit]).length - kMaxHits)

structure HostedServer where
  nextHitId : Nat := 1
  hits : List OastHit := []
  recorded : List OastHit := []

namespace HostedServer

/-- The end of `handleClient`: a callback gets its number. -/
def handleClient (s : HostedServer) (hit : OastHit) : HostedServer :=
  let hit := { hit with id := s.nextHitId }
  { nextHitId := s.nextHitId + 1
    hits := appendHit s.hits hit
    recorded := s.recorded ++ [hit] }

def hitsSince (s : HostedServer) (sinceId : Nat) : List OastHit :=
  s.hits.filter (fun h => decide (sinceId < h.id))

end HostedServer

/-- A hit given out, and the callback it repeats under the client's own number. -/
structure Emission where
  base : QString
  remote : OastHit
  hit : OastHit
  repeats : hit = { remote with id := hit.id }

structure RemoteClient where
  remoteMode : Bool := false
  remoteBase : QString := []
  remoteSince : Nat := 0
  pollTimer : Bool := false
  nextHitId : Nat := 1
  hits : List OastHit := []
  emitted : List Emission := []

def chopSlashes (base : QString) : QString :=
  base.rdropWhile (· == 0x2F)

namespace RemoteClient

/-- `startRemote` up to the question whether the sink is there. -/
def startRemote (c : RemoteClient) (base : QString) : RemoteClient :=
  { c with
    remoteMode := true, remoteBase := chopSlashes base, remoteSince := 0, pollTimer := false }

def healthz (c : RemoteClient) (ok : Bool) : RemoteClient :=
  if ok then { c with pollTimer := true } else { c with remoteMode := false }

def reEmit (base : QString) (c : RemoteClient) (remote : OastHit) : RemoteClient :=
  let hit := { remote with id := c.nextHitId }
  { c with
    remoteSince := if c.remoteSince < remote.id then remote.id else c.remoteSince
    nextHitId := c.nextHitId + 1
    hits := appendHit c.hits hit
    emitted := c.emitted ++ [⟨base, remote, hit, rfl⟩] }

def finished (c : RemoteClient) (base : QString) (hits : List OastHit) : RemoteClient :=
  hits.foldl (reEmit base) c

end RemoteClient

/-- A question to a sink, and how many callbacks the sink had recorded by then. -/
structure Poll where
  base : QString
  since : Nat
  sent : Nat

inductive Message where
  | poll (p : Poll)
  | reply (p : Poll) (hits : List OastHit)

structure Remote where
  servers : QString → HostedServer := fun _ => {}
  client : RemoteClient := {}
  inFlight : List Message := []
  /-- The polls of the configured sink whose replies have come in. -/
  answered : List Poll := []

inductive RemoteEvent where
  | callback (base : QString) (hit : OastHit)
  | startRemote (base : QString)
  | healthz (ok : Bool)
  | tick
  | answer (i : Nat)
  | deliver (i : Nat)
  | lose (i : Nat)

namespace Remote

def pollRemote (s : Remote) : Remote :=
  if s.client.pollTimer && s.client.remoteMode then
    let base := s.client.remoteBase
    { s with
      inFlight := s.inFlight ++
        [.poll ⟨base, s.client.remoteSince, (s.servers base).recorded.length⟩] }
  else s

def answer (s : Remote) (i : Nat) : Remote :=
  match s.inFlight[i]? with
  | some (.poll p) =>
    { s with inFlight := s.inFlight.set i (.reply p ((s.servers p.base).hitsSince p.since)) }
  | _ => s

def deliver (s : Remote) (i : Nat) : Remote :=
  match s.inFlight[i]? with
  | some (.reply p hits) =>
    { s with
      client := s.client.finished p.base hits
      inFlight := s.inFlight.eraseIdx i
      answered :=
        if s.client.remoteMode && s.client.remoteBase == p.base then s.answered ++ [p]
        else s.answered }
  | _ => s

def step (s : Remote) : RemoteEvent → Remote
  | .callback base hit =>
    { s with servers := Function.update s.servers base ((s.servers base).handleClient hit) }
  | .startRemote base => { s with client := s.client.startRemote base }
  | .healthz ok => { s with client := s.client.healthz ok }
  | .tick => s.pollRemote
  | .answer i => s.answer i
  | .deliver i => s.deliver i
  | .lose i => { s with inFlight := s.inFlight.eraseIdx i }

end Remote

structure Numbered (s : HostedServer) : Prop where
  next : s.nextHitId = s.recorded.length + 1
  id : ∀ (i : Nat) (c : OastHit), s.recorded[i]? = some c → c.id = i + 1
  ring : s.hits = s.recorded.drop (s.recorded.length - kMaxHits)

theorem appendHit_drop (l : List OastHit) (hit : OastHit) :
    appendHit (l.drop (l.length - kMaxHits)) hit =
      (l ++ [hit]).drop ((l ++ [hit]).length - kMaxHits) := by
  rw [appendHit]
  generalize kMaxHits = bound
  have hlength : l.length - bound + ((l.drop (l.length - bound) ++ [hit]).length - bound) =
      (l ++ [hit]).length - bound := by
    simp only [List.length_drop, List.length_append, List.length_singleton]
    omega
  rw [← hlength, ← List.drop_drop, List.drop_append_of_le_length (Nat.sub_le ..)]

section Server
variable {s : HostedServer}

theorem recorded_handleClient (s : HostedServer) (hit : OastHit) :
    (s.handleClient hit).recorded = s.recorded ++ [{ hit with id := s.nextHitId }] := rfl

theorem hits_handleClient (s : HostedServer) (hit : OastHit) :
    (s.handleClient hit).hits = appendHit s.hits { hit with id := s.nextHitId } := by
  simp only [HostedServer.handleClient]

theorem Numbered.handleClient (h : Numbered s) (hit : OastHit) : Numbered (s.handleClient hit) where
  next := by
    rw [recorded_handleClient, List.length_append, List.length_singleton, ← h.next]
    rfl
  id := by
    intro i c hc
    rw [recorded_handleClient] at hc
    rcases Nat.lt_or_ge i s.recorded.length with hi | hi
    · rw [List.getElem?_append_left hi] at hc
      exact h.id i c hc
    · rw [List.getElem?_append_right hi, List.getElem?_singleton] at hc
      obtain ⟨hlast, hc⟩ := Option.ite_none_right_eq_some.1 hc
      rw [← Option.some.inj hc]
      show s.nextHitId = i + 1
      rw [h.next]
      omega
  ring := by
    rw [recorded_handleClient, hits_handleClient, h.ring, appendHit_drop]

theorem Numbered.id_of_mem (h : Numbered s) (hc : c ∈ s.recorded) :
    ∃ i, ∃ hi : i < s.recorded.length, s.recorded[i] = c ∧ c.id = i + 1 := by
  obtain ⟨i, hi, rfl⟩ := List.getElem_of_mem hc
  exact ⟨i, hi, rfl, h.id i _ (List.getElem?_eq_getElem hi)⟩

theorem Numbered.id_le (h : Numbered s) (hc : c ∈ s.recorded) : c.id ≤ s.recorded.length := by
  obtain ⟨i, hi, -, hid⟩ := h.id_of_mem hc
  omega

theorem Numbered.mem_take (h : Numbered s) (hc : c ∈ s.recorded.take n) :
    c ∈ s.recorded ∧ c.id ≤ n := by
  obtain ⟨i, hi, rfl⟩ := List.mem_take_iff_getElem.1 hc
  have hid := h.id i _ (List.getElem?_eq_getElem (by omega))
  exact ⟨List.getElem_mem _, by omega⟩

theorem Numbered.mem_drop (h : Numbered s) (hc : c ∈ s.recorded) (hn : n < c.id) :
    c ∈ s.recorded.drop n := by
  obtain ⟨i, hi, rfl, hid⟩ := h.id_of_mem hc
  have hi' : n + (i - n) = i := by omega
  refine List.mem_drop_iff_getElem.2 ⟨i - n, by omega, ?_⟩
  simp only [hi']

theorem Numbered.sorted (h : Numbered s) : s.recorded.Pairwise (fun c d => c.id < d.id) := by
  refine List.pairwise_iff_getElem.2 (fun i j hi hj hij => ?_)
  rw [h.id i _ (List.getElem?_eq_getElem hi), h.id j _ (List.getElem?_eq_getElem hj)]
  omega

theorem Numbered.mem_hitsSince (h : Numbered s) (hring : s.recorded.length ≤ n + kMaxHits) :
    c ∈ s.hitsSince n ↔ c ∈ s.recorded ∧ n < c.id := by
  rw [HostedServer.hitsSince, List.mem_filter, decide_eq_true_eq, h.ring]
  constructor
  · rintro ⟨hc, hn⟩
    exact ⟨List.mem_of_mem_drop hc, hn⟩
  · rintro ⟨hc, hn⟩
    exact ⟨h.mem_drop hc (by omega), hn⟩

theorem Numbered.sorted_hitsSince (h : Numbered s) (n : Nat) :
    (s.hitsSince n).Pairwise (fun c d => c.id < d.id) := by
  rw [HostedServer.hitsSince, h.ring]
  exact (h.sorted.sublist (List.drop_sublist ..)).sublist List.filter_sublist

theorem mem_handleClient (h : Numbered s) (hc : c ∈ (s.handleClient hit).recorded) :
    c ∈ s.recorded ∨ c.id = s.recorded.length + 1 := by
  rcases List.mem_append.1 hc with hc | hc
  · exact .inl hc
  · rw [List.mem_singleton.1 hc]
    exact .inr h.next

end Server

/-- The callbacks of a sink up to a number have all been given out. -/
structure CaughtUp (s : HostedServer) (emitted : List Emission) (base : QString) (n : Nat) :
    Prop where
  recorded : n ≤ s.recorded.length
  emitted : ∀ c ∈ s.recorded, c.id ≤ n → ∃ e ∈ emitted, e.base = base ∧ e.remote = c

structure Answers (s : HostedServer) (p : Poll) (hits : List OastHit) (n : Nat) : Prop where
  sent : p.sent ≤ n
  since : p.since ≤ n
  recorded : n ≤ s.recorded.length
  mem : ∀ c, c ∈ hits ↔ c ∈ s.recorded ∧ p.since < c.id ∧ c.id ≤ n
  sorted : hits.Pairwise (fun c d => c.id < d.id)

section Kept
variable {s : HostedServer} {emitted : List Emission} {base : QString} {p : Poll}

theorem CaughtUp.zero (h : Numbered s) : CaughtUp s emitted base 0 := by
  refine ⟨Nat.zero_le _, fun c hc hn => ?_⟩
  obtain ⟨i, -, -, hid⟩ := h.id_of_mem hc
  omega

theorem CaughtUp.append (h : CaughtUp s emitted base n) (more : List Emission) :
    CaughtUp s (emitted ++ more) base n := by
  refine ⟨h.recorded, fun c hc hn => ?_⟩
  obtain ⟨e, he, hbase⟩ := h.emitted c hc hn
  exact ⟨e, List.mem_append_left more he, hbase⟩

theorem CaughtUp.handleClient (hs : Numbered s) (h : CaughtUp s emitted base n) (hit : OastHit) :
    CaughtUp (s.handleClient hit) emitted base n := by
  have hlength : (s.handleClient hit).recorded.length = s.recorded.length + 1 :=
    List.length_append
  have hn := h.recorded
  refine ⟨by omega, fun c hc hle => ?_⟩
  rcases mem_handleClient hs hc with hc | hid
  · exact h.emitted c hc hle
  · omega

theorem Answers.handleClient (hs : Numbered s) (h : Answers s p hits n) (hit : OastHit) :
    Answers (s.handleClient hit) p hits n := by
  have hlength : (s.handleClient hit).recorded.length = s.recorded.length + 1 :=
    List.length_append
  have hn := h.recorded
  refine ⟨h.sent, h.since, by omega, fun c => ?_, h.sorted⟩
  rw [h.mem c]
  constructor
  · rintro ⟨hc, hbounds⟩
    exact ⟨List.mem_append_left _ hc, hbounds⟩
  · rintro ⟨hc, hsince, hle⟩
    rcases mem_handleClient hs hc with hc | hid
    · exact ⟨hc, hsince, hle⟩
    · omega

theorem CaughtUp.of_empty (h : CaughtUp s emitted base p.since) (hr : Answers s p [] n) :
    CaughtUp s emitted base p.sent := by
  refine ⟨Nat.le_trans hr.sent hr.recorded, fun c hc hn => ?_⟩
  by_cases hsince : c.id ≤ p.since
  · exact h.emitted c hc hsince
  · have hmem := (hr.mem c).2 ⟨hc, by omega, Nat.le_trans hn hr.sent⟩
    exact absurd hmem List.not_mem_nil

theorem CaughtUp.of_hits (h : CaughtUp s emitted base p.since) (hr : Answers s p hits n)
    (hnew : more.map Emission.remote = hits) (hbase : ∀ e ∈ more, e.base = base) (hm : m ≤ n) :
    CaughtUp s (emitted ++ more) base m := by
  refine ⟨Nat.le_trans hm hr.recorded, fun c hc hle => ?_⟩
  by_cases hsince : c.id ≤ p.since
  · exact (h.append more).emitted c hc hsince
  · have hmem : c ∈ more.map Emission.remote :=
      hnew ▸ (hr.mem c).2 ⟨hc, by omega, Nat.le_trans hle hm⟩
    obtain ⟨e, he, rfl⟩ := List.mem_map.1 hmem
    exact ⟨e, List.mem_append_right emitted he, hbase e he, rfl⟩

end Kept

section Client
variable {c : RemoteClient}

theorem finished_emitted (c : RemoteClient) (base : QString) (hits : List OastHit) :
    ∃ more, (c.finished base hits).emitted = c.emitted ++ more ∧
      more.map Emission.remote = hits ∧ ∀ e ∈ more, e.base = base := by
  induction hits generalizing c with
  | nil => exact ⟨[], (List.append_nil _).symm, rfl, fun e he => absurd he List.not_mem_nil⟩
  | cons hit hits ih =>
    obtain ⟨more, hmore, hremote, hbase⟩ := ih (c.reEmit base hit)
    refine ⟨⟨base, hit, { hit with id := c.nextHitId }, rfl⟩ :: more, ?_, ?_, ?_⟩
    · exact hmore.trans (List.append_assoc ..)
    · rw [List.map_cons, hremote]
    · exact List.forall_mem_cons.2 ⟨rfl, hbase⟩

theorem finished_remoteBase (c : RemoteClient) (base : QString) (hits : List OastHit) :
    (c.finished base hits).remoteBase = c.remoteBase := by
  induction hits generalizing c with
  | nil => rfl
  | cons hit hits ih => exact ih (c.reEmit base hit)

theorem finished_remoteSince (c : RemoteClient) (base : QString) (hits : List OastHit) :
    c.remoteSince ≤ (c.finished base hits).remoteSince ∧
      (∀ h ∈ hits, h.id ≤ (c.finished base hits).remoteSince) ∧
      ∀ n, c.remoteSince ≤ n → (∀ h ∈ hits, h.id ≤ n) →
        (c.finished base hits).remoteSince ≤ n := by
  induction hits generalizing c with
  | nil => exact ⟨Nat.le_refl _, fun h hh => absurd hh List.not_mem_nil, fun n hn _ => hn⟩
  | cons hit hits ih =>
    obtain ⟨hle, hhits, hleast⟩ := ih (c.reEmit base hit)
    have hstep : c.remoteSince ≤ (c.reEmit base hit).remoteSince ∧
        hit.id ≤ (c.reEmit base hit).remoteSince ∧
        ∀ n, c.remoteSince ≤ n → hit.id ≤ n → (c.reEmit base hit).remoteSince ≤ n := by
      simp only [RemoteClient.reEmit]
      split
      · exact ⟨by omega, Nat.le_refl _, fun n _ hn => hn⟩
      · exact ⟨Nat.le_refl _, by omega, fun n hn _ => hn⟩
    refine ⟨Nat.le_trans hstep.1 hle, ?_, ?_⟩
    · exact List.forall_mem_cons.2 ⟨Nat.le_trans hstep.2.1 hle, hhits⟩
    · intro n hn hall
      obtain ⟨hhit, hrest⟩ := List.forall_mem_cons.1 hall
      exact hleast n (hstep.2.2 n hn hhit) hrest

end Client

/-- No callback is given out twice, and none that was recorded is missing. -/
structure ExactlyOnce (s : Remote) : Prop where
  once : (s.client.emitted.map (fun e => (e.base, e.remote.id))).Nodup
  answered : ∀ p ∈ s.answered, ∀ c ∈ (s.servers p.base).recorded.take p.sent,
    ∃ e ∈ s.client.emitted, e.base = p.base ∧ e.remote = c

/-- Sinks are configured first, no ring overflows, and replies fit the question. -/
def InTurn (s : Remote) : RemoteEvent → Prop
  | .startRemote base => ∀ e ∈ s.client.emitted, e.base ≠ chopSlashes base
  | .answer i => ∀ p, s.inFlight[i]? = some (.poll p) →
      (s.servers p.base).recorded.length ≤ p.since + kMaxHits
  | .deliver i => ∀ p hits, s.inFlight[i]? = some (.reply p hits) →
      hits = [] ∨ p.base = s.client.remoteBase ∧ p.since = s.client.remoteSince
  | _ => True

def Message.Sound (servers : QString → HostedServer) (emitted : List Emission) : Message → Prop
  | .poll p => CaughtUp (servers p.base) emitted p.base p.since ∧
      p.sent ≤ (servers p.base).recorded.length
  | .reply p hits => CaughtUp (servers p.base) emitted p.base p.since ∧
      ∃ n, Answers (servers p.base) p hits n

structure Watermarked (s : Remote) : Prop where
  servers : ∀ base, Numbered (s.servers base)
  client : CaughtUp (s.servers s.client.remoteBase) s.client.emitted s.client.remoteBase
    s.client.remoteSince
  ahead : ∀ e ∈ s.client.emitted, e.base = s.client.remoteBase →
    e.remote.id ≤ s.client.remoteSince
  once : (s.client.emitted.map (fun e => (e.base, e.remote.id))).Nodup
  inFlight : ∀ m ∈ s.inFlight, m.Sound s.servers s.client.emitted
  answered : ∀ p ∈ s.answered, CaughtUp (s.servers p.base) s.client.emitted p.base p.sent

section Steps
variable {s : Remote}

theorem Watermarked.exactlyOnce (h : Watermarked s) : ExactlyOnce s where
  once := h.once
  answered := by
    intro p hp c hc
    obtain ⟨hmem, hn⟩ := (h.servers p.base).mem_take hc
    exact (h.answered p hp).emitted c hmem hn

theorem Message.Sound.append {emitted : List Emission} (h : Message.Sound servers emitted m)
    (more : List Emission) : m.Sound servers (emitted ++ more) := by
  cases m with
  | poll p => exact ⟨h.1.append more, h.2⟩
  | reply p hits => exact ⟨h.1.append more, h.2⟩

theorem update_handleClient {P : QString → HostedServer → Prop} {servers : QString → HostedServer}
    (h : P b (servers b)) (hkept : P b (servers b) → P b ((servers b).handleClient hit)) :
    P b (Function.update servers base ((servers base).handleClient hit) b) := by
  by_cases hb : b = base
  · subst hb
    rw [Function.update_self]
    exact hkept h
  · rw [Function.update_of_ne hb]
    exact h

theorem Watermarked.callback (h : Watermarked s) (base : QString) (hit : OastHit) :
    Watermarked (s.step (.callback base hit)) where
  servers b := update_handleClient (P := fun _ => Numbered) (h.servers b) (·.handleClient hit)
  client := update_handleClient (P := fun b t => CaughtUp t s.client.emitted b _) h.client
    (fun hc => hc.handleClient (h.servers _) hit)
  ahead := h.ahead
  once := h.once
  inFlight := by
    intro m hm
    have hsound := h.inFlight m hm
    cases m with
    | poll p =>
      refine update_handleClient
        (P := fun b t => CaughtUp t s.client.emitted b p.since ∧ p.sent ≤ t.recorded.length)
        hsound (fun hp => ⟨hp.1.handleClient (h.servers _) hit, ?_⟩)
      rw [recorded_handleClient, List.length_append]
      exact Nat.le_add_right_of_le hp.2
    | reply p hits =>
      refine update_handleClient
        (P := fun b t => CaughtUp t s.client.emitted b p.since ∧ ∃ n, Answers t p hits n)
        hsound (fun hp => ⟨hp.1.handleClient (h.servers _) hit, ?_⟩)
      obtain ⟨n, hn⟩ := hp.2
      exact ⟨n, hn.handleClient (h.servers _) hit⟩
  answered p hp := update_handleClient (P := fun b t => CaughtUp t s.client.emitted b p.sent)
    (h.answered p hp) (fun hc => hc.handleClient (h.servers _) hit)

theorem Watermarked.startRemote (h : Watermarked s)
    (hfresh : ∀ e ∈ s.client.emitted, e.base ≠ chopSlashes base) :
    Watermarked (s.step (.startRemote base)) where
  servers := h.servers
  client := .zero (h.servers _)
  ahead e he hbase := absurd hbase (hfresh e he)
  once := h.once
  inFlight := h.inFlight
  answered := h.answered

theorem Watermarked.healthz (h : Watermarked s) (ok : Bool) :
    Watermarked (s.step (.healthz ok)) := by
  cases ok with
  | true => exact ⟨h.servers, h.client, h.ahead, h.once, h.inFlight, h.answered⟩
  | false => exact ⟨h.servers, h.client, h.ahead, h.once, h.inFlight, h.answered⟩

theorem Watermarked.withInFlight (h : Watermarked s)
    (hnew : ∀ m ∈ messages, m ∈ s.inFlight ∨ m.Sound s.servers s.client.emitted) :
    Watermarked { s with inFlight := messages } where
  servers := h.servers
  client := h.client
  ahead := h.ahead
  once := h.once
  inFlight m hm := (hnew m hm).elim (h.inFlight m) id
  answered := h.answered

theorem Watermarked.pollRemote (h : Watermarked s) : Watermarked s.pollRemote := by
  rw [Remote.pollRemote]
  split
  · refine h.withInFlight (fun m hm => ?_)
    rcases List.mem_append.1 hm with hm | hm
    · exact .inl hm
    · rw [List.mem_singleton.1 hm]
      exact .inr ⟨h.client, Nat.le_refl _⟩
  · exact h

theorem Watermarked.answer (h : Watermarked s)
    (hring : ∀ p, s.inFlight[i]? = some (.poll p) →
      (s.servers p.base).recorded.length ≤ p.since + kMaxHits) :
    Watermarked (s.answer i) := by
  rw [Remote.answer]
  split
  · rename_i p hp
    obtain ⟨hcaught, hsent⟩ := h.inFlight _ (List.mem_of_getElem? hp)
    refine h.withInFlight (fun m hm => ?_)
    rcases List.mem_or_eq_of_mem_set hm with hm | rfl
    · exact .inl hm
    · have hserver := h.servers p.base
      refine .inr ⟨hcaught, _, hsent, hcaught.recorded, Nat.le_refl _, fun c => ?_,
        hserver.sorted_hitsSince _⟩
      rw [hserver.mem_hitsSince (hring p hp)]
      exact and_congr_right (fun hc => (and_iff_left (hserver.id_le hc)).symm)
  · exact h

theorem nodup_emitted {emitted more : List Emission}
    (hold : (emitted.map (fun e => (e.base, e.remote.id))).Nodup)
    (hsorted : (more.map Emission.remote).Pairwise (fun c d => c.id < d.id))
    (hnew : ∀ e ∈ emitted, ∀ e' ∈ more, e.base = e'.base → e.remote.id < e'.remote.id) :
    ((emitted ++ more).map (fun e => (e.base, e.remote.id))).Nodup := by
  rw [List.map_append]
  refine List.Nodup.append hold ?_ ?_
  · refine List.pairwise_map.2 ((List.pairwise_map.1 hsorted).imp (fun {e e'} hlt he => ?_))
    exact Nat.ne_of_lt hlt (congrArg Prod.snd he)
  · intro key hkey hkey'
    obtain ⟨e, he, rfl⟩ := List.mem_map.1 hkey
    obtain ⟨e', he', hsame⟩ := List.mem_map.1 hkey'
    obtain ⟨hbase, hid⟩ := Prod.ext_iff.1 hsame
    exact Nat.ne_of_lt (hnew e he e' he' hbase.symm) hid.symm

theorem Watermarked.finished (h : Watermarked s) (hr : Answers (s.servers p.base) p hits n)
    (hbase : p.base = s.client.remoteBase) (hsince : p.since = s.client.remoteSince)
    (hsub : ∀ m ∈ messages, m ∈ s.inFlight) :
    Watermarked { s with client := s.client.finished p.base hits, inFlight := messages } ∧
      CaughtUp (s.servers p.base) (s.client.finished p.base hits).emitted p.base p.sent := by
  obtain ⟨more, hmore, hremote, hnew⟩ := finished_emitted s.client p.base hits
  obtain ⟨hle, hhits, hleast⟩ := finished_remoteSince s.client p.base hits
  have hcaught : CaughtUp (s.servers p.base) s.client.emitted p.base p.since := by
    rw [hbase, hsince]
    exact h.client
  have hids : ∀ e ∈ more, e.remote ∈ hits := by
    intro e he
    rw [← hremote]
    exact List.mem_map_of_mem he
  have hupto : (s.client.finished p.base hits).remoteSince ≤ n :=
    hleast n (hsince ▸ hr.since) (fun c hc => ((hr.mem c).1 hc).2.2)
  constructor
  · refine ⟨h.servers, ?_, ?_, ?_, ?_, ?_⟩
    · simp only [finished_remoteBase, ← hbase, hmore]
      exact hcaught.of_hits hr hremote hnew hupto
    · simp only [finished_remoteBase, hmore]
      intro e he heb
      rcases List.mem_append.1 he with he | he
      · exact Nat.le_trans (h.ahead e he heb) hle
      · exact hhits _ (hids e he)
    · simp only [hmore]
      refine nodup_emitted h.once (hremote ▸ hr.sorted) (fun e he e' he' heb => ?_)
      have hold := h.ahead e he (by rw [heb, hnew e' he', hbase])
      have hfresh := ((hr.mem _).1 (hids e' he')).2.1
      omega
    · intro m hm
      simp only [hmore]
      exact (h.inFlight m (hsub m hm)).append more
    · intro q hq
      simp only [hmore]
      exact (h.answered q hq).append more
  · rw [hmore]
    exact hcaught.of_hits hr hremote hnew hr.sent

theorem Watermarked.withAnswered (h : Watermarked s)
    (hp : CaughtUp (s.servers p.base) s.client.emitted p.base p.sent) (b : Bool) :
    Watermarked { s with answered := if b then s.answered ++ [p] else s.answered } where
  servers := h.servers
  client := h.client
  ahead := h.ahead
  once := h.once
  inFlight := h.inFlight
  answered := by
    intro q hq
    cases b with
    | false => exact h.answered q hq
    | true =>
      rcases List.mem_append.1 hq with hq | hq
      · exact h.answered q hq
      · rw [List.mem_singleton.1 hq]
        exact hp

theorem Watermarked.deliver (h : Watermarked s)
    (hturn : ∀ p hits, s.inFlight[i]? = some (.reply p hits) →
      hits = [] ∨ p.base = s.client.remoteBase ∧ p.since = s.client.remoteSince) :
    Watermarked (s.deliver i) := by
  have hsub : ∀ m ∈ s.inFlight.eraseIdx i, m ∈ s.inFlight :=
    fun m hm => (List.eraseIdx_sublist ..).subset hm
  rw [Remote.deliver]
  split
  · rename_i p hits hp
    obtain ⟨hcaught, n, hr⟩ := h.inFlight _ (List.mem_of_getElem? hp)
    rcases hturn p hits hp with rfl | ⟨hbase, hsince⟩
    · exact (h.withInFlight (fun m hm => .inl (hsub m hm))).withAnswered (hcaught.of_empty hr) _
    · obtain ⟨hdone, hsent⟩ := h.finished hr hbase hsince hsub
      exact hdone.withAnswered hsent _
  · exact h

theorem Watermarked.step (h : Watermarked s) (ha : InTurn s a) : Watermarked (s.step a) := by
  cases a with
  | callback base hit => exact h.callback base hit
  | startRemote base => exact h.startRemote ha
  | healthz ok => exact h.healthz ok
  | tick => exact h.pollRemote
  | answer i => exact h.answer ha
  | deliver i => exact h.deliver ha
  | lose i => exact h.withInFlight (fun m hm => .inl ((List.eraseIdx_sublist ..).subset hm))

theorem watermarked_init : Watermarked {} where
  servers base := ⟨rfl, fun i c hc => absurd hc (by simp), List.drop_nil.symm⟩
  client := ⟨Nat.le_refl _, fun c hc => absurd hc List.not_mem_nil⟩
  ahead e he := absurd he List.not_mem_nil
  once := List.nodup_nil
  inFlight m hm := absurd hm List.not_mem_nil
  answered p hp := absurd hp List.not_mem_nil

end Steps

/-- Polling gives every callback out once as long as all happens in turn. -/
theorem polled_once (events : List RemoteEvent) (h : Along Remote.step InTurn {} events) :
    Throughout Remote.step ExactlyOnce {} events :=
  throughout_of_along (I := Watermarked) (fun _ _ hs ha => hs.step ha)
    (fun _ hs => hs.exactlyOnce) watermarked_init h

/-- Two polls, the second answered before the first reply is in. -/
def overlappingPolls : List RemoteEvent :=
  [.startRemote [], .healthz true, .callback [] {}, .tick, .tick, .answer 0, .answer 1,
    .deliver 0, .deliver 0]

/-- The callback is given out twice: no watermark is compared. -/
theorem callback_twice : ¬Throughout Remote.step ExactlyOnce {} overlappingPolls := by
  intro h
  have hend := (h _ (List.prefix_refl _)).once
  have htwice : ((overlappingPolls.foldl Remote.step {}).client.emitted.map
      (fun e => (e.base, e.remote.id))) = [([], 1), ([], 1)] := by
    decide
  rw [htwice] at hend
  exact absurd hend (by decide)

def quietPolls : List RemoteEvent :=
  [.startRemote [], .healthz true, .callback [] {}, .tick, .answer 0, .callback [] {}, .deliver 0,
    .tick, .lose 0, .tick, .answer 0, .deliver 0]

theorem quietPolls_once : Throughout Remote.step ExactlyOnce {} quietPolls := by
  apply polled_once
  refine ⟨fun e he => absurd he List.not_mem_nil, trivial, trivial, trivial, fun p hp => ?_, trivial,
    fun p hits hp => ?_, trivial, trivial, trivial, fun p hp => ?_, fun p hits hp => ?_, trivial⟩
  · have hp' := Message.poll.inj (Option.some.inj hp)
    subst hp'
    decide
  · obtain ⟨rfl, -⟩ := Message.reply.inj (Option.some.inj hp)
    exact .inr ⟨rfl, rfl⟩
  · have hp' := Message.poll.inj (Option.some.inj hp)
    subst hp'
    decide
  · obtain ⟨rfl, -⟩ := Message.reply.inj (Option.some.inj hp)
    exact .inr ⟨rfl, rfl⟩

end Nullock.Oast

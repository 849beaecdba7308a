import Nullock.H2Terminator
import Nullock.Runs

namespace Nullock.Proxy.H2Terminator
open HttpLogic H2ClientLogic H2ServerLogic

def Begun (log : List Happened) (sid : StreamId) : Prop :=
  .callback (.beginHeaders sid .request) ∈ log

def Closed (log : List Happened) (sid : StreamId) : Prop := .callback (.streamClose sid) ∈ log

def Ended (log : List Happened) (sid : StreamId) : Prop :=
  ∃ type endStream, endsStream type endStream = true ∧
    .callback (.frameRecv sid type endStream) ∈ log

def WasReset (log : List Happened) (sid : StreamId) : Prop :=
  ∃ code, .effect (.rstStream sid code) ∈ log

def Happened.data (sid : StreamId) : Happened → QByteArray
  | .callback (.dataChunk s data) => if s = sid then data else []
  | _ => []

def received (log : List Happened) (sid : StreamId) : QByteArray :=
  log.flatMap (Happened.data sid)

def Happened.entry : Happened → Option StreamId
  | .effect (.enqueue sid) => some sid
  | _ => none

def entered (log : List Happened) : List StreamId := log.filterMap Happened.entry

def Deliverable (log : List Happened) : Callback → Prop
  | .beginHeaders sid .request => ¬ Begun log sid
  | .beginHeaders sid .headers => Begun log sid ∧ ¬ Closed log sid
  | .header sid _ _ => Begun log sid ∧ ¬ Closed log sid
  | .dataChunk sid _ => Begun log sid ∧ ¬ Closed log sid ∧ ¬ Ended log sid
  | .frameRecv sid type endStream =>
    endsStream type endStream = true →
      Begun log sid ∧ ¬ Closed log sid ∧ ¬ WasReset log sid
  | .streamClose sid => Begun log sid ∧ ¬ Closed log sid
  | .respRead sid _ => Begun log sid ∧ ¬ Closed log sid

def Action.Allowed (t : Tunnel) : Action → Prop
  | .callback c => Deliverable t.log c
  | .fail => True
  | .fulfilReady _ => True

def reqSize (st : ServerStream) : Nat := st.reqBody.length
def respSize (st : ServerStream) : Nat := st.respBody.length

/-- Counters are right, no stream is ready twice, and upstream gets all received. -/
structure Tunnel.Sound (t : Tunnel) : Prop where
  buffered : t.session.bufferedBytes = total reqSize t.session.streams
  respBuffered : t.session.respBufferedBytes = total respSize t.session.streams
  bounded : 0 ≤ t.session.bufferedBytes ∧ t.session.bufferedBytes ≤ kMaxServerBufferedBytes
  respBounded :
    0 ≤ t.session.respBufferedBytes ∧ t.session.respBufferedBytes ≤ kMaxServerBufferedBytes
  bodies : ∀ sid st, t.session.streams.lookup sid = some st →
    (st.reqBody.length : Int) ≤ kMaxServerReqBody
  few : t.session.streams.keys.length ≤ kMaxServerStreams
  once : (entered t.log).Nodup
  whole : ∀ sid h2headers body, .effect (.upstream sid h2headers body) ∈ t.log →
    body = received t.log sid

structure Counted (s : ServerSession) : Prop where
  buffered : s.bufferedBytes = total reqSize s.streams
  respBuffered : s.respBufferedBytes = total respSize s.streams
  room : s.bufferedBytes ≤ kMaxServerBufferedBytes
  respRoom : s.respBufferedBytes ≤ kMaxServerBufferedBytes
  bodies : ∀ sid st, s.streams.lookup sid = some st →
    (st.reqBody.length : Int) ≤ kMaxServerReqBody
  few : s.streams.keys.length ≤ kMaxServerStreams

/-- The streams are what the events made, with some left to fulfil. -/
structure Traced (log : List Happened) (streams : AList (fun _ : StreamId => ServerStream))
    (waiting : List StreamId) : Prop where
  silent : ∀ sid, ¬ Begun log sid →
    streams.lookup sid = none ∧ received log sid = [] ∧ sid ∉ entered log
  body : ∀ sid st, streams.lookup sid = some st →
    (st.requestDone = true ∨ ¬ WasReset log sid) → st.reqBody = received log sid
  done : ∀ sid st, streams.lookup sid = some st → (st.requestDone = true ↔ sid ∈ entered log)
  idle : ∀ sid st, streams.lookup sid = some st → st.requestDone = false → st.respBody = []
  ended : ∀ sid ∈ entered log, Ended log sid
  once : (entered log).Nodup
  ready : waiting.Nodup
  pending : ∀ sid ∈ waiting, sid ∈ entered log ∧
    ∀ st, streams.lookup sid = some st → st.respBody = []
  handed : ∀ sid h2headers body, .effect (.upstream sid h2headers body) ∈ log →
    body = received log sid ∧ Ended log sid

structure Tracked (log : List Happened) (s : ServerSession) (waiting : List StreamId) : Prop where
  counted : Counted s
  traced : Traced log s.streams waiting

theorem Tracked.sound {t : Tunnel} (h : Tracked t.log t.session waiting) : t.Sound where
  buffered := h.counted.buffered
  respBuffered := h.counted.respBuffered
  bounded := ⟨h.counted.buffered ▸ Int.natCast_nonneg _, h.counted.room⟩
  respBounded := ⟨h.counted.respBuffered ▸ Int.natCast_nonneg _, h.counted.respRoom⟩
  bodies := h.counted.bodies
  few := h.counted.few
  once := h.traced.once
  whole sid h2headers body hm := (h.traced.handed sid h2headers body hm).1

theorem Counted.empty : Counted {} where
  buffered := rfl
  respBuffered := rfl
  room := by decide
  respRoom := by decide
  bodies sid st hl := by cases hl
  few := Nat.zero_le _

theorem Traced.empty : Traced [] ∅ [] where
  silent _ _ := ⟨rfl, rfl, List.not_mem_nil⟩
  body sid st hl := by cases hl
  done sid st hl := by cases hl
  idle sid st hl := by cases hl
  ended sid hm := absurd hm List.not_mem_nil
  once := .nil
  ready := .nil
  pending sid hm := absurd hm List.not_mem_nil
  handed _ _ _ hm := absurd hm List.not_mem_nil

theorem Counted.update (h : Counted s) (hl : s.streams.lookup sid = some st)
    (st' : ServerStream) {b r : Int} (hb : b + reqSize st = s.bufferedBytes + reqSize st')
    (hr : r + respSize st = s.respBufferedBytes + respSize st')
    (hroom : b ≤ kMaxServerBufferedBytes) (hrespRoom : r ≤ kMaxServerBufferedBytes)
    (hbody : (st'.reqBody.length : Int) ≤ kMaxServerReqBody) :
    Counted { s with
      streams := s.streams.insert sid st', bufferedBytes := b, respBufferedBytes := r } := by
  have hreq := total_insert reqSize hl st'
  have hresp := total_insert respSize hl st'
  have hbuffered := h.buffered
  have hrespBuffered := h.respBuffered
  refine ⟨?_, ?_, hroom, hrespRoom, ?_, ?_⟩
  · dsimp only
    omega
  · dsimp only
    omega
  · intro k w hk
    rcases lookup_insert_cases hk with ⟨_, hw⟩ | ⟨_, hk⟩
    · rw [hw]
      exact hbody
    · exact h.bodies k w hk
  · have hmem : sid ∈ s.streams := AList.lookup_isSome.1 (by rw [hl]; rfl)
    rw [length_insert_of_mem hmem]
    exact h.few

theorem Counted.idle (h : Counted s) (readyQueue : List StreamId) (fatal : Bool) :
    Counted { s with readyQueue, fatal } := { h with }

theorem Counted.begin (h : Counted s) (hnew : sid ∉ s.streams)
    (hroom : s.streams.keys.length < kMaxServerStreams) :
    Counted { s with streams := s.streams.insert sid {} } := by
  have hl := AList.lookup_eq_none.2 hnew
  refine ⟨?_, ?_, h.room, h.respRoom, ?_, ?_⟩
  · dsimp only
    rw [total_insert_new hl, h.buffered]
    exact congrArg Nat.cast (Nat.zero_add _).symm
  · dsimp only
    rw [total_insert_new hl, h.respBuffered]
    exact congrArg Nat.cast (Nat.zero_add _).symm
  · intro k w hk
    rcases lookup_insert_cases hk with ⟨_, hw⟩ | ⟨_, hk⟩
    · rw [hw]
      decide
    · exact h.bodies k w hk
  · rw [length_insert_of_notMem hnew]
    exact hroom

theorem Counted.close (h : Counted s) (hl : s.streams.lookup sid = some st) :
    Counted { s with
      streams := s.streams.erase sid
      bufferedBytes := s.bufferedBytes - st.reqBody.length
      respBufferedBytes := s.respBufferedBytes - st.respBody.length } := by
  have hreq := total_erase reqSize hl
  have hresp := total_erase respSize hl
  have hbuffered := h.buffered
  have hrespBuffered := h.respBuffered
  have hroom := h.room
  have hrespRoom := h.respRoom
  rw [reqSize] at hreq
  rw [respSize] at hresp
  refine ⟨?_, ?_, ?_, ?_, ?_, ?_⟩
  · dsimp only
    omega
  · dsimp only
    omega
  · dsimp only
    omega
  · dsimp only
    omega
  · intro k w hk
    exact h.bodies k w (lookup_erase_cases hk).2
  · exact Nat.le_trans (length_erase_le _ _) h.few

theorem received_append (log more : List Happened) (sid : StreamId) :
    received (log ++ more) sid = received log sid ++ received more sid := List.flatMap_append

theorem entered_append (log more : List Happened) :
    entered (log ++ more) = entered log ++ entered more := List.filterMap_append

theorem Begun.append (h : Begun log sid) (more : List Happened) : Begun (log ++ more) sid :=
  List.mem_append_left more h

theorem Ended.append (h : Ended log sid) (more : List Happened) : Ended (log ++ more) sid := by
  obtain ⟨type, endStream, hends, hm⟩ := h
  exact ⟨type, endStream, hends, List.mem_append_left more hm⟩

theorem WasReset.append (h : WasReset log sid) (more : List Happened) :
    WasReset (log ++ more) sid := by
  obtain ⟨code, hm⟩ := h
  exact ⟨code, List.mem_append_left more hm⟩

/-- No data, no stream made ready, and nothing handed upstream. -/
def Happened.Quiet : Happened → Prop
  | .callback (.dataChunk _ _) => False
  | .effect (.enqueue _) => False
  | .effect (.upstream _ _ _) => False
  | _ => True

theorem received_quiet (h : ∀ x ∈ more, Happened.Quiet x) (sid : StreamId) :
    received more sid = [] := by
  apply List.flatMap_eq_nil_iff.2
  intro x hx
  have hq := h x hx
  cases x with
  | effect e => rfl
  | callback c =>
    cases c with
    | dataChunk s d => exact hq.elim
    | _ => rfl

theorem entered_quiet (h : ∀ x ∈ more, Happened.Quiet x) : entered more = [] := by
  apply List.filterMap_eq_nil_iff.2
  intro x hx
  have hq := h x hx
  cases x with
  | callback c => rfl
  | effect e =>
    cases e with
    | enqueue s => exact hq.elim
    | _ => rfl

theorem Traced.extend (h : Traced log streams waiting) (hdata : ∀ sid, received more sid = [])
    (hentry : entered more = [])
    (hhanded : ∀ sid h2headers body, .effect (.upstream sid h2headers body) ∈ more →
      body = received log sid ∧ Ended log sid) :
    Traced (log ++ more) streams waiting := by
  have hreceived (sid : StreamId) : received (log ++ more) sid = received log sid := by
    rw [received_append, hdata, List.append_nil]
  have hentered : entered (log ++ more) = entered log := by
    rw [entered_append, hentry, List.append_nil]
  refine ⟨?_, ?_, ?_, h.idle, ?_, ?_, h.ready, ?_, ?_⟩
  · intro sid hn
    rw [hreceived, hentered]
    exact h.silent sid (fun hb => hn (hb.append more))
  · intro sid st hl hd
    rw [hreceived]
    apply h.body sid st hl
    rcases hd with hd | hd
    · exact .inl hd
    · exact .inr (fun hr => hd (hr.append more))
  · rw [hentered]
    exact h.done
  · intro sid hm
    rw [hentered] at hm
    exact (h.ended sid hm).append more
  · rw [hentered]
    exact h.once
  · rw [hentered]
    exact h.pending
  · intro sid h2headers body hm
    rw [hreceived]
    have hold : body = received log sid ∧ Ended log sid := by
      rcases List.mem_append.1 hm with hm | hm
      · exact h.handed sid h2headers body hm
      · exact hhanded sid h2headers body hm
    exact ⟨hold.1, hold.2.append more⟩

theorem Traced.quiet (h : Traced log streams waiting) (hq : ∀ x ∈ more, Happened.Quiet x) :
    Traced (log ++ more) streams waiting :=
  h.extend (received_quiet hq) (entered_quiet hq) (fun _ _ _ hm => (hq _ hm).elim)

theorem Traced.update (h : Traced log streams waiting) (hl : streams.lookup sid = some st)
    (st' : ServerStream) (hbody : st'.reqBody = st.reqBody)
    (hdone : st'.requestDone = st.requestDone)
    (hresp : sid ∈ waiting ∨ st.requestDone = false → st'.respBody = st.respBody) :
    Traced log (streams.insert sid st') waiting := by
  refine { h with silent := ?_, body := ?_, done := ?_, idle := ?_, pending := ?_ }
  · intro k hn
    obtain ⟨hk, hrest⟩ := h.silent k hn
    refine ⟨?_, hrest⟩
    have hne : k ≠ sid := by
      intro he
      rw [he, hl] at hk
      cases hk
    rw [AList.lookup_insert_ne hne]
    exact hk
  · intro k w hk hd
    rcases lookup_insert_cases hk with ⟨he, hw⟩ | ⟨_, hk⟩
    · rw [hw, hdone] at hd
      rw [he] at hd ⊢
      rw [hw, hbody]
      exact h.body sid st hl hd
    · exact h.body k w hk hd
  · intro k w hk
    rcases lookup_insert_cases hk with ⟨he, hw⟩ | ⟨_, hk⟩
    · rw [he, hw, hdone]
      exact h.done sid st hl
    · exact h.done k w hk
  · intro k w hk hd
    rcases lookup_insert_cases hk with ⟨_, hw⟩ | ⟨_, hk⟩
    · rw [hw, hdone] at hd
      rw [hw, hresp (.inr hd)]
      exact h.idle sid st hl hd
    · exact h.idle k w hk hd
  · intro k hm
    refine ⟨(h.pending k hm).1, ?_⟩
    intro w hk
    rcases lookup_insert_cases hk with ⟨he, hw⟩ | ⟨_, hk⟩
    · rw [he] at hm
      rw [hw, hresp (.inl hm)]
      exact (h.pending sid hm).2 st hl
    · exact (h.pending k hm).2 w hk

theorem Traced.begin (h : Traced log streams waiting) (hnew : ¬ Begun log sid) :
    Traced (log ++ [Happened.callback (.beginHeaders sid .request)]) (streams.insert sid {})
      waiting := by
  obtain ⟨_, hreceived, hentered⟩ := h.silent sid hnew
  have hquiet : ∀ x ∈ [Happened.callback (.beginHeaders sid .request)], Happened.Quiet x := by
    intro x hx
    rw [List.mem_singleton.1 hx]
    trivial
  have hmore := h.quiet hquiet
  have hsame : received (log ++ [Happened.callback (.beginHeaders sid .request)]) sid = [] := by
    rw [received_append, hreceived]
    rfl
  have hnone : sid ∉ entered (log ++ [Happened.callback (.beginHeaders sid .request)]) := by
    rw [entered_append]
    exact fun hm => hentered ((List.mem_append.1 hm).resolve_right List.not_mem_nil)
  refine { hmore with silent := ?_, body := ?_, done := ?_, idle := ?_, pending := ?_ }
  · intro k hn
    have hne : k ≠ sid := by
      intro he
      rw [he] at hn
      exact hn (List.mem_append_right log List.mem_cons_self)
    rw [AList.lookup_insert_ne hne]
    exact hmore.silent k hn
  · intro k w hk hd
    rcases lookup_insert_cases hk with ⟨he, hw⟩ | ⟨_, hk⟩
    · rw [he, hw, hsame]
    · exact hmore.body k w hk hd
  · intro k w hk
    rcases lookup_insert_cases hk with ⟨he, hw⟩ | ⟨_, hk⟩
    · rw [he, hw]
      exact ⟨fun hd => (by cases hd), fun hm => absurd hm hnone⟩
    · exact hmore.done k w hk
  · intro k w hk hd
    rcases lookup_insert_cases hk with ⟨_, hw⟩ | ⟨_, hk⟩
    · rw [hw]
    · exact hmore.idle k w hk hd
  · intro k hm
    refine ⟨(hmore.pending k hm).1, ?_⟩
    intro w hk
    rcases lookup_insert_cases hk with ⟨_, hw⟩ | ⟨_, hk⟩
    · rw [hw]
    · exact (hmore.pending k hm).2 w hk

theorem Traced.close (h : Traced log streams waiting) (sid : StreamId) :
    Traced log (streams.erase sid) waiting := by
  refine { h with silent := ?_, body := ?_, done := ?_, idle := ?_, pending := ?_ }
  · intro k hn
    obtain ⟨hk, hrest⟩ := h.silent k hn
    refine ⟨?_, hrest⟩
    cases hl : (streams.erase sid).lookup k with
    | none => rfl
    | some w =>
      rw [(lookup_erase_cases hl).2] at hk
      cases hk
  · intro k w hk
    exact h.body k w (lookup_erase_cases hk).2
  · intro k w hk
    exact h.done k w (lookup_erase_cases hk).2
  · intro k w hk
    exact h.idle k w (lookup_erase_cases hk).2
  · intro k hm
    exact ⟨(h.pending k hm).1, fun w hk => (h.pending k hm).2 w (lookup_erase_cases hk).2⟩

theorem Traced.data (h : Traced log streams waiting) (hbegun : Begun log sid)
    (hend : ¬ Ended log sid) (hq : ∀ x ∈ more, Happened.Quiet x)
    (hother : ∀ k, k ≠ sid → streams'.lookup k = streams.lookup k)
    (hstream : ∀ st', streams'.lookup sid = some st' → ∃ st, streams.lookup sid = some st ∧
      st'.requestDone = st.requestDone ∧ st'.respBody = st.respBody ∧
      (WasReset more sid ∨ st'.reqBody = st.reqBody ++ chunk)) :
    Traced (log ++ .callback (.dataChunk sid chunk) :: more) streams' waiting := by
  have hentered : entered (log ++ .callback (.dataChunk sid chunk) :: more) = entered log := by
    have hmore : entered (.callback (.dataChunk sid chunk) :: more) = entered more := rfl
    rw [entered_append, hmore, entered_quiet hq, List.append_nil]
  have hsid : received (log ++ .callback (.dataChunk sid chunk) :: more) sid =
      received log sid ++ chunk := by
    have hmore : received (.callback (.dataChunk sid chunk) :: more) sid =
        (if sid = sid then chunk else []) ++ received more sid := rfl
    rw [received_append, hmore, if_pos rfl, received_quiet hq, List.append_nil]
  have hrest (k : StreamId) (hk : k ≠ sid) :
      received (log ++ .callback (.dataChunk sid chunk) :: more) k = received log k := by
    have hmore : received (.callback (.dataChunk sid chunk) :: more) k =
        (if sid = k then chunk else []) ++ received more k := rfl
    rw [received_append, hmore, if_neg (Ne.symm hk), received_quiet hq, List.append_nil,
      List.append_nil]
  have hnot : sid ∉ entered log := fun hm => hend (h.ended sid hm)
  refine ⟨?_, ?_, ?_, ?_, ?_, ?_, h.ready, ?_, ?_⟩
  · intro k hn
    have hlog : ¬ Begun log k := fun hb => hn (hb.append _)
    have hk : k ≠ sid := fun he => hlog (he ▸ hbegun)
    rw [hentered, hrest k hk, hother k hk]
    exact h.silent k hlog
  · intro k w hl hd
    by_cases hk : k = sid
    · rw [hk] at hl hd ⊢
      obtain ⟨st, hst, hdone, _, hlost | hbody⟩ := hstream w hl
      · rcases hd with hd | hd
        · rw [hdone] at hd
          exact absurd ((h.done sid st hst).1 hd) hnot
        · obtain ⟨code, hm⟩ := hlost
          exact absurd ⟨code, List.mem_append_right _ (List.mem_cons_of_mem _ hm)⟩ hd
      · rw [hbody, hsid]
        congr 1
        apply h.body sid st hst
        rcases hd with hd | hd
        · exact .inl (hdone ▸ hd)
        · exact .inr (fun hr => hd (hr.append _))
    · rw [hother k hk] at hl
      rw [hrest k hk]
      apply h.body k w hl
      rcases hd with hd | hd
      · exact .inl hd
      · exact .inr (fun hr => hd (hr.append _))
  · intro k w hl
    rw [hentered]
    by_cases hk : k = sid
    · rw [hk] at hl ⊢
      obtain ⟨st, hst, hdone, _⟩ := hstream w hl
      rw [hdone]
      exact h.done sid st hst
    · rw [hother k hk] at hl
      exact h.done k w hl
  · intro k w hl hd
    by_cases hk : k = sid
    · rw [hk] at hl
      obtain ⟨st, hst, hdone, hresp, _⟩ := hstream w hl
      rw [hresp]
      exact h.idle sid st hst (hdone ▸ hd)
    · rw [hother k hk] at hl
      exact h.idle k w hl hd
  · intro k hm
    rw [hentered] at hm
    exact (h.ended k hm).append _
  · rw [hentered]
    exact h.once
  · intro k hm
    rw [hentered]
    refine ⟨(h.pending k hm).1, ?_⟩
    intro w hl
    have hk : k ≠ sid := fun he => hnot (he ▸ (h.pending k hm).1)
    rw [hother k hk] at hl
    exact (h.pending k hm).2 w hl
  · intro k h2headers body hm
    rcases List.mem_append.1 hm with hm | hm
    · obtain ⟨hbody, hended⟩ := h.handed k h2headers body hm
      have hk : k ≠ sid := fun he => hend (he ▸ hended)
      rw [hrest k hk]
      exact ⟨hbody, hended.append _⟩
    · rcases List.mem_cons.1 hm with hm | hm
      · cases hm
      · exact (hq _ hm).elim

theorem Traced.enqueue (h : Traced log streams waiting) (hl : streams.lookup sid = some st)
    (hreset : ¬ WasReset log sid) (hdone : st.requestDone = false)
    (hends : endsStream type endStream = true) :
    Traced (log ++ [Happened.callback (.frameRecv sid type endStream), .effect (.enqueue sid)])
      (streams.insert sid { st with requestDone := true }) (waiting ++ [sid]) := by
  have hreceived (k : StreamId) :
      received (log ++ [Happened.callback (.frameRecv sid type endStream), .effect (.enqueue sid)]) k =
        received log k := by
    rw [received_append]
    exact List.append_nil _
  have hentered :
      entered (log ++ [Happened.callback (.frameRecv sid type endStream), .effect (.enqueue sid)]) =
        entered log ++ [sid] := entered_append _ _
  have hnew : sid ∉ entered log := by
    intro hm
    rw [(h.done sid st hl).2 hm] at hdone
    cases hdone
  have hresp : st.respBody = [] := h.idle sid st hl hdone
  refine ⟨?_, ?_, ?_, ?_, ?_, ?_, ?_, ?_, ?_⟩
  · intro k hn
    have hlog : ¬ Begun log k := fun hb => hn (hb.append _)
    obtain ⟨hk, hr, he⟩ := h.silent k hlog
    have hne : k ≠ sid := by
      intro hk'
      rw [hk', hl] at hk
      cases hk
    rw [AList.lookup_insert_ne hne, hreceived, hentered]
    refine ⟨hk, hr, ?_⟩
    intro hm
    rcases List.mem_append.1 hm with hm | hm
    · exact he hm
    · exact hne (List.mem_singleton.1 hm)
  · intro k w hk hd
    rw [hreceived]
    rcases lookup_insert_cases hk with ⟨he, hw⟩ | ⟨_, hk⟩
    · rw [he, hw]
      exact h.body sid st hl (.inr hreset)
    · apply h.body k w hk
      rcases hd with hd | hd
      · exact .inl hd
      · exact .inr (fun hr => hd (hr.append _))
  · intro k w hk
    rw [hentered, List.mem_append, List.mem_singleton]
    rcases lookup_insert_cases hk with ⟨he, hw⟩ | ⟨hne, hk⟩
    · rw [hw]
      exact iff_of_true rfl (.inr he)
    · rw [h.done k w hk]
      exact ⟨.inl, fun hm => hm.resolve_right hne⟩
  · intro k w hk hd
    rcases lookup_insert_cases hk with ⟨_, hw⟩ | ⟨_, hk⟩
    · rw [hw] at hd
      cases hd
    · exact h.idle k w hk hd
  · intro k hm
    rw [hentered] at hm
    rcases List.mem_append.1 hm with hm | hm
    · exact (h.ended k hm).append _
    · rw [List.mem_singleton.1 hm]
      exact ⟨type, endStream, hends, List.mem_append_right _ List.mem_cons_self⟩
  · rw [hentered]
    exact List.nodup_append_comm.1 (List.nodup_cons.2 ⟨hnew, h.once⟩)
  · have hnot : sid ∉ waiting := fun hm => hnew (h.pending sid hm).1
    exact List.nodup_append_comm.1 (List.nodup_cons.2 ⟨hnot, h.ready⟩)
  · intro k hm
    rw [hentered]
    have hstored (w : ServerStream)
        (hk : (streams.insert sid { st with requestDone := true }).lookup k = some w)
        (hold : k ∈ waiting ∨ k = sid) : w.respBody = [] := by
      rcases lookup_insert_cases hk with ⟨_, hw⟩ | ⟨hne, hk⟩
      · rw [hw]
        exact hresp
      · exact (h.pending k (hold.resolve_right hne)).2 w hk
    rcases List.mem_append.1 hm with hm | hm
    · exact ⟨List.mem_append_left _ (h.pending k hm).1, fun w hk => hstored w hk (.inl hm)⟩
    · exact ⟨List.mem_append_right _ hm,
        fun w hk => hstored w hk (.inr (List.mem_singleton.1 hm))⟩
  · intro k h2headers body hm
    rw [hreceived]
    rcases List.mem_append.1 hm with hm | hm
    · obtain ⟨hbody, hended⟩ := h.handed k h2headers body hm
      exact ⟨hbody, hended.append _⟩
    · rcases List.mem_cons.1 hm with hm | hm
      · cases hm
      · cases List.mem_singleton.1 hm

theorem Traced.hand (h : Traced log streams (sid :: waiting))
    (hl : streams.lookup sid = some st) (h2headers : List Header) :
    Traced (log ++ [Happened.effect (.upstream sid h2headers st.reqBody)]) streams
      (sid :: waiting) := by
  have hm := (h.pending sid List.mem_cons_self).1
  have hbody := h.body sid st hl (.inl ((h.done sid st hl).2 hm))
  apply h.extend (fun _ => rfl) rfl
  intro k headers body hk
  cases List.mem_singleton.1 hk
  exact ⟨hbody, h.ended sid hm⟩

theorem Traced.sublist (h : Traced log streams waiting) (hs : waiting'.Sublist waiting) :
    Traced log streams waiting' :=
  { h with
    ready := h.ready.sublist hs
    pending := fun sid hm => h.pending sid (hs.subset hm) }

end Nullock.Proxy.H2Terminator

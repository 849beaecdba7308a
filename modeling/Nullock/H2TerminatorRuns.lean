import Nullock.H2TerminatorTrace
import Nullock.RewriteBytes

namespace Nullock.Proxy.H2Terminator
open HttpLogic H2ClientLogic H2ServerLogic

def Tracked.After (log happened : List Happened) (r : ServerSession × List Effect)
    (waiting : List StreamId) : Prop :=
  Tracked (log ++ happened ++ r.2.map .effect) r.1 waiting

theorem Tracked.quiet (h : Tracked log s waiting) (hq : ∀ x ∈ more, Happened.Quiet x) :
    Tracked (log ++ more) s waiting := ⟨h.counted, h.traced.quiet hq⟩

theorem Tracked.update (h : Tracked log s waiting) (hl : s.streams.lookup sid = some st)
    {st' : ServerStream} (hbody : st'.reqBody = st.reqBody)
    (hdone : st'.requestDone = st.requestDone) (hresp : st'.respBody = st.respBody) :
    Tracked log { s with streams := s.streams.insert sid st' } waiting := by
  have hreq : reqSize st' = reqSize st := congrArg List.length hbody
  have hsize : respSize st' = respSize st := congrArg List.length hresp
  refine ⟨?_, h.traced.update hl _ hbody hdone (fun _ => hresp)⟩
  apply h.counted.update hl _ (b := s.bufferedBytes) (r := s.respBufferedBytes)
  · rw [hreq]
  · rw [hsize]
  · exact h.counted.room
  · exact h.counted.respRoom
  · rw [hbody]
    exact h.counted.bodies sid st hl

theorem quiet_nil : ∀ x ∈ ([] : List Happened), Happened.Quiet x :=
  fun _ hx => absurd hx List.not_mem_nil

theorem quiet_singleton (h : Happened.Quiet y) : ∀ x ∈ [y], Happened.Quiet x := by
  intro x hx
  rw [List.mem_singleton.1 hx]
  exact h

theorem quiet_pair (hy : Happened.Quiet y) (hz : Happened.Quiet z) :
    ∀ x ∈ [y, z], Happened.Quiet x := by
  intro x hx
  rcases List.mem_cons.1 hx with hx | hx
  · rw [hx]
    exact hy
  · exact quiet_singleton hz x hx

theorem onBeginHeaders_tracked (h : Tracked log s s.readyQueue)
    (hd : Deliverable log (.beginHeaders sid cat)) :
    Tracked.After log [.callback (.beginHeaders sid cat)] (onBeginHeaders s sid cat)
      (onBeginHeaders s sid cat).1.readyQueue := by
  rw [onBeginHeaders]
  split
  · rw [Tracked.After, List.map_nil, List.append_nil]
    exact h.quiet (quiet_singleton trivial)
  · rename_i hcat
    split
    · rw [Tracked.After, List.append_assoc]
      exact h.quiet (quiet_pair trivial trivial)
    · rename_i hroom
      have hrequest : cat = .request := Decidable.not_not.1 hcat
      rw [hrequest] at hd ⊢
      have hnew := (h.traced.silent sid hd).1
      rw [if_neg (AList.lookup_eq_none.1 hnew), Tracked.After, List.append_assoc]
      exact ⟨h.counted.begin (AList.lookup_eq_none.1 hnew) (Nat.not_le.1 hroom),
        h.traced.begin hd⟩

theorem onHeader_tracked (L : TextLibrary) (h : Tracked log s s.readyQueue) (sid : StreamId)
    (name value : QByteArray) :
    Tracked.After log [.callback (.header sid name value)] (onHeader L s sid name value)
      (onHeader L s sid name value).1.readyQueue := by
  have hlog : Tracked (log ++ [Happened.callback (.header sid name value)]) s s.readyQueue :=
    h.quiet (quiet_singleton trivial)
  rw [onHeader, streamOf, Tracked.After]
  cases hl : s.streams.lookup sid with
  | none => exact hlog.quiet quiet_nil
  | some st =>
    rw [List.map_nil, List.append_nil]
    exact hlog.update hl rfl rfl rfl

theorem respRead_tracked (h : Tracked log s s.readyQueue) (sid : StreamId) (length : Nat) :
    Tracked.After log [.callback (.respRead sid length)] (respRead s sid length)
      (respRead s sid length).1.readyQueue := by
  have hlog : Tracked (log ++ [Happened.callback (.respRead sid length)]) s s.readyQueue :=
    h.quiet (quiet_singleton trivial)
  rw [respRead, streamOf, Tracked.After]
  cases hl : s.streams.lookup sid with
  | none => exact hlog.quiet (quiet_singleton trivial)
  | some st =>
    refine (hlog.quiet ?_).update hl rfl rfl rfl
    exact quiet_singleton trivial

theorem onStreamClose_tracked (h : Tracked log s s.readyQueue) (sid : StreamId) :
    Tracked.After log [.callback (.streamClose sid)] (onStreamClose s sid)
      (onStreamClose s sid).1.readyQueue := by
  have hlog : Tracked (log ++ [Happened.callback (.streamClose sid)]) s s.readyQueue :=
    h.quiet (quiet_singleton trivial)
  rw [onStreamClose, Tracked.After]
  cases hl : s.streams.lookup sid with
  | none =>
    rw [List.map_nil, List.append_nil]
    exact hlog
  | some st =>
    rw [List.map_nil, List.append_nil]
    exact ⟨hlog.counted.close hl, hlog.traced.close sid⟩

theorem onDataChunk_tracked (h : Tracked log s s.readyQueue)
    (hd : Deliverable log (.dataChunk sid chunk)) :
    Tracked.After log [.callback (.dataChunk sid chunk)] (onDataChunk s sid chunk)
      (onDataChunk s sid chunk).1.readyQueue := by
  obtain ⟨hbegun, _, hend⟩ := hd
  rw [onDataChunk, streamOf, Tracked.After, List.append_assoc]
  cases hl : s.streams.lookup sid with
  | none =>
    refine ⟨h.counted, h.traced.data hbegun hend quiet_nil (fun _ _ => rfl) ?_⟩
    · intro st' hst
      rw [hl] at hst
      cases hst
  | some st =>
    dsimp only
    split
    · refine ⟨h.counted, h.traced.data hbegun hend (quiet_singleton trivial) (fun _ _ => rfl) ?_⟩
      intro st' hst
      exact ⟨st', hst, rfl, rfl, .inl ⟨.enhanceYourCalm, List.mem_cons_self⟩⟩
    · rename_i hfits
      rw [not_or, Int.not_lt, Int.not_lt] at hfits
      have hlen : ((st.reqBody ++ chunk).length : Int) = st.reqBody.length + chunk.length := by
        rw [List.length_append, Int.natCast_add]
      refine ⟨?_, h.traced.data hbegun hend quiet_nil ?_ ?_⟩
      · apply h.counted.update hl _ (r := s.respBufferedBytes)
        · dsimp only [reqSize]
          omega
        · rfl
        · exact hfits.2
        · exact h.counted.respRoom
        · rw [hlen]
          exact hfits.1
      · intro k hk
        exact AList.lookup_insert_ne hk
      · intro st' hst
        rw [AList.lookup_insert, Option.some.injEq] at hst
        rw [← hst]
        exact ⟨st, hl, rfl, rfl, .inr rfl⟩

theorem onFrameRecv_tracked (h : Tracked log s s.readyQueue)
    (hd : Deliverable log (.frameRecv sid type endStream)) :
    Tracked.After log [.callback (.frameRecv sid type endStream)]
      (onFrameRecv s sid type endStream) (onFrameRecv s sid type endStream).1.readyQueue := by
  have hlog : Tracked (log ++ [Happened.callback (.frameRecv sid type endStream)]) s s.readyQueue :=
    h.quiet (quiet_singleton trivial)
  have hnothing : Tracked.After log [.callback (.frameRecv sid type endStream)] (s, [])
      s.readyQueue := by
    rw [Tracked.After, List.map_nil, List.append_nil]
    exact hlog
  rw [onFrameRecv]
  split
  · rename_i hends
    rw [streamOf]
    cases hl : s.streams.lookup sid with
    | none => exact hnothing
    | some st =>
      dsimp only
      split
      · exact hnothing
      · rename_i hdone
        rw [Bool.not_eq_true] at hdone
        rw [Tracked.After, List.append_assoc]
        refine ⟨?_, h.traced.enqueue hl (hd hends).2.2 hdone hends⟩
        exact (h.counted.update hl { st with requestDone := true } rfl rfl
          h.counted.room h.counted.respRoom (h.counted.bodies sid st hl)).idle _ _
  · exact hnothing

theorem Callback.apply_tracked (L : TextLibrary) (h : Tracked log s s.readyQueue)
    (c : Callback) (hd : Deliverable log c) :
    Tracked.After log [.callback c] (c.apply L s) (c.apply L s).1.readyQueue := by
  cases c with
  | beginHeaders sid cat => exact onBeginHeaders_tracked h hd
  | header sid name value => exact onHeader_tracked L h sid name value
  | dataChunk sid chunk => exact onDataChunk_tracked h hd
  | frameRecv sid type endStream => exact onFrameRecv_tracked h hd
  | streamClose sid => exact onStreamClose_tracked h sid
  | respRead sid length => exact respRead_tracked h sid length

theorem Tracked.sublist (h : Tracked log s waiting) (hs : waiting'.Sublist waiting) :
    Tracked log s waiting' := ⟨h.counted, h.traced.sublist hs⟩

theorem Tracked.idle (h : Tracked log s waiting) (readyQueue : List StreamId) (fatal : Bool) :
    Tracked log { s with readyQueue, fatal } waiting :=
  ⟨h.counted.idle readyQueue fatal, h.traced⟩

theorem submit_tracked (L : TextLibrary) (h : Tracked log s (sid :: ready))
    (hl : s.streams.lookup sid = some st) (resp : HttpResponse) :
    Tracked.After log [] (submit L s sid st resp) ready := by
  have hrest := h.sublist (List.sublist_cons_self sid ready)
  obtain ⟨hentered, hempty⟩ := h.traced.pending sid List.mem_cons_self
  rw [submit, Tracked.After, List.append_nil]
  split
  · exact hrest.quiet (quiet_singleton trivial)
  · rename_i hfits
    rw [Int.not_lt] at hfits
    have hzero : respSize st = 0 := congrArg List.length (hempty st hl)
    refine (Tracked.mk ?_ ?_).quiet (quiet_singleton trivial)
    · apply h.counted.update hl _ (b := s.bufferedBytes)
      · rfl
      · rw [hzero]
        exact Int.add_zero _
      · exact h.counted.room
      · exact hfits
      · exact h.counted.bodies sid st hl
    · apply hrest.traced.update hl { st with respBody := resp.body, respOffset := 0 } rfl
        rfl
      intro hnot
      rcases hnot with hm | hd
      · exact absurd hm (List.nodup_cons.1 h.traced.ready).1
      · rw [(h.traced.done sid st hl).2 hentered] at hd
        cases hd

theorem fulfil_tracked (L : TextLibrary) (turn : Turn) (h : Tracked log s (sid :: ready)) :
    Tracked.After log [] (fulfil L turn s sid) ready := by
  have hrest := h.sublist (List.sublist_cons_self sid ready)
  rw [fulfil, Tracked.After, List.append_nil]
  split
  · rw [List.map_nil, List.append_nil]
    exact hrest.idle s.readyQueue true
  · cases hl : s.streams.lookup sid with
    | none =>
      rw [List.map_nil, List.append_nil]
      exact hrest
    | some st =>
      have hhanded : Tracked (log ++ [Happened.effect (.upstream sid st.headers st.reqBody)]) s
          (sid :: ready) := ⟨h.counted, h.traced.hand hl st.headers⟩
      have hleft := hhanded.sublist (List.sublist_cons_self sid ready)
      cases turn.outcome with
      | tunnelDead => exact hleft.idle s.readyQueue true
      | rejectStream =>
        have hreset := hleft.quiet (quiet_singleton (y := .effect (.rstStream sid .internalError))
          trivial)
        rw [List.append_assoc] at hreset
        exact hreset
      | ok resp =>
        have hsubmitted := submit_tracked L hhanded hl resp
        rw [Tracked.After, List.append_nil, List.append_assoc] at hsubmitted
        exact hsubmitted

theorem fulfil_readyQueue (L : TextLibrary) (turn : Turn) (s : ServerSession) (sid : StreamId) :
    (fulfil L turn s sid).1.readyQueue = s.readyQueue := by
  rw [fulfil]
  split
  · rfl
  · split
    · rfl
    · split
      · rfl
      · rfl
      · rw [submit]
        dsimp only
        split
        · rfl
        · rfl

theorem dispatch_readyQueue (L : TextLibrary) (turns : Nat → Turn) (s : ServerSession)
    (ready : List StreamId) : (dispatch L turns s ready).1.readyQueue = s.readyQueue := by
  induction ready generalizing turns s with
  | nil => rfl
  | cons sid ready ih =>
    rw [dispatch]
    dsimp only
    split
    · exact fulfil_readyQueue L (turns 0) s sid
    · rw [ih, fulfil_readyQueue]

theorem dispatch_tracked (L : TextLibrary) (turns : Nat → Turn) (h : Tracked log s ready) :
    Tracked.After log [] (dispatch L turns s ready) [] := by
  induction ready generalizing turns log s with
  | nil =>
    rw [dispatch, Tracked.After, List.map_nil, List.append_nil, List.append_nil]
    exact h
  | cons sid ready ih =>
    have hfirst := fulfil_tracked L (turns 0) h
    rw [dispatch]
    dsimp only
    split
    · exact hfirst.sublist (List.nil_sublist ready)
    · have hrest := ih (fun i => turns (i + 1)) hfirst
      rw [Tracked.After, List.append_nil, List.append_nil, List.append_assoc] at hrest
      rw [Tracked.After, List.append_nil, List.map_append]
      exact hrest

theorem step_tracked (L : TextLibrary) {t : Tunnel}
    (h : Tracked t.log t.session t.session.readyQueue) (a : Action) (ha : a.Allowed t) :
    Tracked (t.step L a).log (t.step L a).session (t.step L a).session.readyQueue := by
  cases a with
  | callback c => exact c.apply_tracked L h ha
  | fail =>
    rw [Tunnel.step, Tunnel.after, List.map_nil, List.append_nil, List.append_nil]
    exact h.idle t.session.readyQueue true
  | fulfilReady turns =>
    rw [Tunnel.step]
    split
    · exact h
    · have hloop := dispatch_tracked L turns (h.idle [] t.session.fatal)
      have hqueue := dispatch_readyQueue L turns { t.session with readyQueue := [] }
        t.session.readyQueue
      rw [Tunnel.after]
      dsimp only
      rw [hqueue]
      exact hloop

/-- In every run counters are right, and requests go upstream once. -/
theorem terminator_sound (L : TextLibrary) (actions : List Action)
    (h : Along (Tunnel.step L) (fun t a => a.Allowed t) {} actions) :
    Throughout (Tunnel.step L) Tunnel.Sound {} actions := by
  have hempty : Tracked [] {} [] := ⟨.empty, .empty⟩
  exact throughout_of_along (I := fun t => Tracked t.log t.session t.session.readyQueue)
    (fun _ a ht ha => step_tracked L ht a ha) (fun _ ht => ht.sound) hempty h

def oneRequest : List Action :=
  [.callback (.beginHeaders 1 .request), .callback (.dataChunk 1 (latin1 "x")),
    .callback (.frameRecv 1 .data true),
    .fulfilReady (fun _ => ⟨false, .ok ⟨utf16 "HTTP/1.1", 200, utf16 "OK", [], latin1 "y"⟩⟩)]

theorem terminator_sound_oneRequest :
    Throughout (Tunnel.step asciiLibrary) Tunnel.Sound {} oneRequest := by
  apply terminator_sound
  have hopened : Begun [.callback (.beginHeaders 1 .request)] 1 := List.mem_cons_self
  refine ⟨List.not_mem_nil, ⟨hopened, ?_, ?_⟩, ?_, trivial, trivial⟩
  · intro hm
    cases List.mem_singleton.1 hm
  · intro he
    obtain ⟨type, endStream, _, hm⟩ := he
    cases List.mem_singleton.1 hm
  · intro _
    have hlog : ((Tunnel.step asciiLibrary {} (.callback (.beginHeaders 1 .request))).step
        asciiLibrary (.callback (.dataChunk 1 (latin1 "x")))).log =
        [.callback (.beginHeaders 1 .request), .callback (.dataChunk 1 (latin1 "x"))] := rfl
    rw [hlog]
    refine ⟨hopened.append [_], ?_, ?_⟩
    · intro hm
      rcases List.mem_cons.1 hm with hm | hm
      · cases hm
      · cases List.mem_singleton.1 hm
    · intro hr
      obtain ⟨code, hm⟩ := hr
      rcases List.mem_cons.1 hm with hm | hm
      · cases hm
      · cases List.mem_singleton.1 hm

end Nullock.Proxy.H2Terminator

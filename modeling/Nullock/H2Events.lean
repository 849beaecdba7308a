import Nullock.CookieJarRestore
import Mathlib.Algebra.BigOperators.Group.List.Basic

namespace Nullock

structure H2Event where
  ts : Int
  conn : QString
  frameType : UInt8
  flags : UInt8
  streamId : Int
  bytes : Int
  errorCode : Nat

structure H2StreamSummary where
  streamId : Int := 0
  conn : QString := []
  method : QString := []
  path : QString := []
  status : Int := 0
  bytesIn : Int := 0
  bytesOut : Int := 0
  framesIn : Int := 0
  framesOut : Int := 0
  lastError : Nat := 0
  openedAtMs : Int := 0
  closed : Bool := false

abbrev H2Streams := AList (fun _ : QString => H2StreamSummary)

structure H2EventLog where
  events : List H2Event := []
  streams : H2Streams := ∅

namespace H2EventLog

abbrev Entry := Sigma (fun _ : QString => H2StreamSummary)

def kMaxEvents : Nat := 5000

def kMaxStreams : Nat := 4096

def kMaxTelemetryFieldLen : Int := 4096

def wrap64 (n : Int) : Int := Int.bmod n (2 ^ 64)

def add64 (a b : Int) : Int := wrap64 (a + b)

def streamKey (conn : QString) (streamId : Int) : QString :=
  conn ++ utf16 "|" ++ QString.number streamId

def clampTelemetryField (s : QString) (maxLen : Int) : QString :=
  if maxLen < 0 ∨ (s.length : Int) ≤ maxLen then s else s.take maxLen.toNat

def inOrder (streams : H2Streams) : List Entry :=
  streams.entries.mergeSort (fun a b => decide (a.1 ≤ b.1))

def chooseVictim (victim : Option Entry) (it : Entry) : Option Entry :=
  match victim with
  | none => some it
  | some v =>
    if it.2.closed && !v.2.closed then some it
    else if it.2.closed == v.2.closed && decide (it.2.openedAtMs < v.2.openedAtMs) then some it
    else some v

/-- The loop of `capStreamSummaries`; every turn erases an entry. -/
def evict (maxStreams : Nat) : Nat → H2Streams × Nat → H2Streams × Nat
  | 0, state => state
  | turns + 1, (streams, evicted) =>
    if streams.keys.length ≤ maxStreams then (streams, evicted)
    else
      match (inOrder streams).foldl chooseVictim none with
      | none => (streams, evicted)
      | some victim => evict maxStreams turns (streams.erase victim.1, evicted + 1)

def capStreamSummaries (streams : H2Streams) (maxStreams : Int) : H2Streams × Nat :=
  if maxStreams ≤ 0 then (streams, 0)
  else evict maxStreams.toNat streams.keys.length (streams, 0)

def capped (streams : H2Streams) : H2Streams := (capStreamSummaries streams kMaxStreams).1

def entry (streams : H2Streams) (k : QString) : H2StreamSummary := (streams.lookup k).getD {}

def countFrame (ts : Int) (conn : QString) (streamId bytes : Int) (sent : Bool)
    (streams : H2Streams) : H2Streams :=
  let k := streamKey conn streamId
  let s := (streams.lookup k).getD { streamId := streamId, conn := conn, openedAtMs := ts }
  streams.insert k
    (if sent then
      { s with bytesOut := add64 s.bytesOut bytes, framesOut := add64 s.framesOut 1 }
    else { s with bytesIn := add64 s.bytesIn bytes, framesIn := add64 s.framesIn 1 })

def noteFrame (now : Int) (conn : QString) (frameType flags streamId bytes : Int) (sent : Bool)
    (log : H2EventLog) : H2EventLog :=
  let e : H2Event :=
    { ts := now, conn := conn, frameType := (frameType % 256).toNat.toUInt8,
      flags := (flags % 256).toNat.toUInt8, streamId := streamId, bytes := bytes, errorCode := 0 }
  let events := log.events ++ [e]
  { events := events.drop (events.length - kMaxEvents)
    streams := capped
      (if 0 < streamId then countFrame e.ts conn streamId bytes sent log.streams
      else log.streams) }

def requested (now : Int) (conn : QString) (streamId : Int) (method path : QString)
    (s : H2StreamSummary) : H2StreamSummary :=
  { s with
    streamId := streamId
    conn := conn
    method := clampTelemetryField method kMaxTelemetryFieldLen
    path := clampTelemetryField path kMaxTelemetryFieldLen
    openedAtMs := if s.openedAtMs = 0 then now else s.openedAtMs }

def noteRequestHeader (now : Int) (conn : QString) (streamId : Int) (method path : QString)
    (log : H2EventLog) : H2EventLog :=
  let k := streamKey conn streamId
  { log with
    streams := capped
      (log.streams.insert k (requested now conn streamId method path (entry log.streams k))) }

def noteResponseStatus (conn : QString) (streamId status : Int) (log : H2EventLog) :
    H2EventLog :=
  let k := streamKey conn streamId
  { log with
    streams := capped (log.streams.insert k { entry log.streams k with status := status }) }

def stamp (conn : QString) (streamId : Int) (errCode : Nat) : List H2Event → List H2Event
  | [] => []
  | e :: older =>
    if e.frameType = 3 ∧ e.streamId = streamId ∧ e.conn = conn then
      { e with errorCode := errCode } :: older
    else e :: stamp conn streamId errCode older

def noteRstStream (conn : QString) (streamId : Int) (errCode : Nat) (log : H2EventLog) :
    H2EventLog :=
  let k := streamKey conn streamId
  { events := (stamp conn streamId errCode log.events.reverse).reverse
    streams := capped
      (log.streams.insert k { entry log.streams k with lastError := errCode, closed := true }) }

def noteStreamClosed (conn : QString) (streamId : Int) (log : H2EventLog) : H2EventLog :=
  let k := streamKey conn streamId
  { log with streams := capped (log.streams.insert k { entry log.streams k with closed := true }) }

inductive Note where
  | frame (frameType flags bytes : Int) (sent : Bool)
  | requestHeader (method path : QString)
  | responseStatus (status : Int)
  | rstStream (errCode : Nat)
  | streamClosed

structure Call where
  now : Int
  conn : QString
  streamId : Int
  note : Note

def step (log : H2EventLog) (call : Call) : H2EventLog :=
  match call.note with
  | .frame frameType flags bytes sent =>
    noteFrame call.now call.conn frameType flags call.streamId bytes sent log
  | .requestHeader method path =>
    noteRequestHeader call.now call.conn call.streamId method path log
  | .responseStatus status => noteResponseStatus call.conn call.streamId status log
  | .rstStream errCode => noteRstStream call.conn call.streamId errCode log
  | .streamClosed => noteStreamClosed call.conn call.streamId log

def run (calls : List Call) : H2EventLog := calls.foldl step {}

def Sooner (v s : H2StreamSummary) : Prop :=
  (s.closed = true → v.closed = true) ∧ (v.closed = s.closed → v.openedAtMs ≤ s.openedAtMs)

theorem Sooner.refl (s : H2StreamSummary) : Sooner s s := ⟨id, fun _ => le_refl _⟩

theorem Sooner.trans (huv : Sooner u v) (hvs : Sooner v s) : Sooner u s := by
  refine ⟨fun h => huv.1 (hvs.1 h), ?_⟩
  intro h
  have hv : v.closed = s.closed := by
    cases hs : s.closed with
    | true => exact hvs.1 hs
    | false =>
      cases hv : v.closed with
      | false => rfl
      | true =>
        rw [hs] at h
        exact absurd (huv.1 hv) (Bool.eq_false_iff.1 h)
  exact le_trans (huv.2 (h.trans hv.symm)) (hvs.2 hv)

theorem chooseVictim_spec (v it : Entry) : ∃ w, chooseVictim (some v) it = some w ∧
    (w = v ∨ w = it) ∧ Sooner w.2 v.2 ∧ Sooner w.2 it.2 := by
  rw [chooseVictim]
  split
  · rename_i h
    rw [Bool.and_eq_true, Bool.not_eq_true'] at h
    refine ⟨it, rfl, .inr rfl, ⟨fun _ => h.1, ?_⟩, .refl _⟩
    intro he
    rw [h.1, h.2] at he
    cases he
  · rename_i hopen
    split
    · rename_i h
      rw [Bool.and_eq_true, beq_iff_eq, decide_eq_true_iff] at h
      exact ⟨it, rfl, .inr rfl, ⟨fun hv => h.1.trans hv, fun _ => le_of_lt h.2⟩, .refl _⟩
    · rename_i h
      refine ⟨v, rfl, .inl rfl, .refl _, ?_, ?_⟩
      · intro hit
        cases hv : v.2.closed with
        | true => rfl
        | false => exact absurd (by rw [hit, hv]; rfl) hopen
      · intro he
        by_contra hlt
        exact h (by rw [he, beq_self_eq_true, decide_eq_true (not_le.1 hlt)]; rfl)

theorem foldl_chooseVictim (entries : List Entry) (v : Entry) :
    ∃ w ∈ v :: entries, entries.foldl chooseVictim (some v) = some w ∧
      ∀ e ∈ v :: entries, Sooner w.2 e.2 := by
  induction entries generalizing v with
  | nil =>
    refine ⟨v, List.mem_singleton_self v, rfl, ?_⟩
    intro e he
    rw [List.mem_singleton.1 he]
    exact .refl _
  | cons it entries ih =>
    obtain ⟨u, hu, hmem, hv, hit⟩ := chooseVictim_spec v it
    obtain ⟨w, hw, hfold, hleast⟩ := ih u
    refine ⟨w, ?_, by rw [List.foldl_cons, hu, hfold], ?_⟩
    · rcases List.mem_cons.1 hw with rfl | hw
      · rcases hmem with rfl | rfl
        · exact List.mem_cons_self
        · exact List.mem_cons_of_mem _ List.mem_cons_self
      · exact List.mem_cons_of_mem _ (List.mem_cons_of_mem _ hw)
    · intro e he
      have hwu := hleast u List.mem_cons_self
      rcases List.mem_cons.1 he with rfl | he
      · exact hwu.trans hv
      · rcases List.mem_cons.1 he with rfl | he
        · exact hwu.trans hit
        · exact hleast e (List.mem_cons_of_mem _ he)

theorem mem_inOrder {streams : H2Streams} {e : Entry} :
    e ∈ inOrder streams ↔ streams.lookup e.1 = some e.2 := by
  rw [inOrder, List.mem_mergeSort]
  exact (AList.mem_lookup_iff (β := fun _ => H2StreamSummary) (a := e.1) (b := e.2)).symm

theorem victim_spec {streams : H2Streams} (h : streams.keys ≠ []) :
    ∃ victim : Entry, (inOrder streams).foldl chooseVictim none = some victim ∧
      streams.lookup victim.1 = some victim.2 ∧
      ∀ k s, streams.lookup k = some s → Sooner victim.2 s := by
  cases hin : inOrder streams with
  | nil =>
    obtain ⟨k, hk⟩ := List.exists_mem_of_ne_nil _ h
    obtain ⟨s, hs⟩ := Option.isSome_iff_exists.1 (AList.lookup_isSome.2 (AList.mem_keys.2 hk))
    have hmem : (⟨k, s⟩ : Entry) ∈ inOrder streams := mem_inOrder.2 hs
    rw [hin] at hmem
    cases hmem
  | cons v entries =>
    obtain ⟨w, hw, hfold, hleast⟩ := foldl_chooseVictim entries v
    rw [← hin] at hw hleast
    exact ⟨w, hfold, mem_inOrder.1 hw, fun k s hs => hleast ⟨k, s⟩ (mem_inOrder.2 hs)⟩

theorem evict_of_le {streams : H2Streams} (h : streams.keys.length ≤ maxStreams) (turns n : Nat) :
    evict maxStreams turns (streams, n) = (streams, n) := by
  cases turns with
  | zero => rfl
  | succ turns => rw [evict, if_pos h]

theorem capped_cases {streams : H2Streams} (h : streams.keys.length ≤ kMaxStreams + 1) :
    (capped streams = streams ∧ streams.keys.length ≤ kMaxStreams) ∨
      ∃ victim : Entry, streams.lookup victim.1 = some victim.2 ∧
        (∀ k s, streams.lookup k = some s → Sooner victim.2 s) ∧
        capped streams = streams.erase victim.1 ∧
        (capped streams).keys.length ≤ kMaxStreams := by
  have hcap : capped streams = (evict kMaxStreams streams.keys.length (streams, 0)).1 := rfl
  by_cases hle : streams.keys.length ≤ kMaxStreams
  · exact .inl ⟨by rw [hcap, evict_of_le hle], hle⟩
  · obtain ⟨turns, hturns⟩ := Nat.exists_eq_succ_of_ne_zero
      (n := streams.keys.length) (by omega)
    have hne : streams.keys ≠ [] := by
      intro hnil
      rw [hnil] at hturns
      cases hturns
    obtain ⟨victim, hfold, hstored, hsooner⟩ := victim_spec hne
    have hmem : victim.1 ∈ streams := AList.lookup_isSome.1 (by rw [hstored]; rfl)
    have hlen := length_erase_of_mem hmem
    have hsmall : (streams.erase victim.1).keys.length ≤ kMaxStreams := by omega
    have herase : capped streams = streams.erase victim.1 := by
      rw [hcap, hturns, evict, if_neg hle, hfold]
      dsimp only
      rw [evict_of_le hsmall]
    exact .inr ⟨victim, hstored, hsooner, herase, herase ▸ hsmall⟩

theorem lookup_of_capped {streams : H2Streams} (h : streams.keys.length ≤ kMaxStreams + 1)
    (hs : (capped streams).lookup k = some s) : streams.lookup k = some s := by
  rcases capped_cases h with ⟨hcap, _⟩ | ⟨victim, _, _, hcap, _⟩
  · rw [← hcap]
    exact hs
  · rw [hcap] at hs
    exact (lookup_erase_cases hs).2

theorem run_concat (calls : List Call) (call : Call) :
    run (calls ++ [call]) = step (run calls) call := by
  rw [run, List.foldl_append]
  rfl

def Call.key (call : Call) : QString := streamKey call.conn call.streamId

def Call.counts (call : Call) : Bool :=
  match call.note with
  | .frame _ _ _ _ => decide (0 < call.streamId)
  | _ => true

def Call.after (call : Call) (old : Option H2StreamSummary) : H2StreamSummary :=
  match call.note with
  | .frame _ _ bytes sent =>
    let s := old.getD
      { streamId := call.streamId, conn := call.conn, openedAtMs := call.now }
    if sent then
      { s with bytesOut := add64 s.bytesOut bytes, framesOut := add64 s.framesOut 1 }
    else { s with bytesIn := add64 s.bytesIn bytes, framesIn := add64 s.framesIn 1 }
  | .requestHeader method path =>
    requested call.now call.conn call.streamId method path (old.getD {})
  | .responseStatus status => { old.getD {} with status := status }
  | .rstStream errCode => { old.getD {} with lastError := errCode, closed := true }
  | .streamClosed => { old.getD {} with closed := true }

def Call.noted (call : Call) (streams : H2Streams) : H2Streams :=
  if call.counts then streams.insert call.key (call.after (streams.lookup call.key)) else streams

theorem step_streams (log : H2EventLog) (call : Call) :
    (step log call).streams = capped (call.noted log.streams) := by
  obtain ⟨now, conn, streamId, note⟩ := call
  cases note with
  | frame frameType flags bytes sent =>
    by_cases h : 0 < streamId
    · simp only [step, noteFrame, Call.noted, Call.counts, h, if_true, decide_true]
      rfl
    · simp only [step, noteFrame, Call.noted, Call.counts, h, if_false, decide_false,
        Bool.false_eq_true]
  | requestHeader method path => rfl
  | responseStatus status => rfl
  | rstStream errCode => rfl
  | streamClosed => rfl

theorem noted_length_le (call : Call) (streams : H2Streams) :
    (call.noted streams).keys.length ≤ streams.keys.length + 1 := by
  rw [Call.noted]
  split
  · exact length_insert_le _ _ _
  · exact Nat.le_succ _

theorem lookup_noted {call : Call} {streams : H2Streams}
    (h : (call.noted streams).lookup k = some s) :
    (call.counts = true ∧ k = call.key ∧ s = call.after (streams.lookup k)) ∨
      ((call.counts = true → k ≠ call.key) ∧ streams.lookup k = some s) := by
  rw [Call.noted] at h
  split at h
  · rename_i hcounts
    rcases lookup_insert_cases h with ⟨rfl, hs⟩ | ⟨hk, hs⟩
    · exact .inl ⟨hcounts, rfl, hs⟩
    · exact .inr ⟨fun _ => hk, hs⟩
  · rename_i hcounts
    exact .inr ⟨fun hc => absurd hc hcounts, h⟩

theorem run_length_le (calls : List Call) : (run calls).streams.keys.length ≤ kMaxStreams := by
  induction calls using List.reverseRecOn with
  | nil => exact Nat.zero_le _
  | append_singleton calls call ih =>
    rw [run_concat, step_streams]
    have h := (noted_length_le call (run calls).streams).trans (Nat.succ_le_succ ih)
    rcases capped_cases h with ⟨hcap, hle⟩ | ⟨_, _, _, _, hle⟩
    · rw [hcap]
      exact hle
    · exact hle

theorem noted_run_length_le (calls : List Call) (call : Call) :
    (call.noted (run calls).streams).keys.length ≤ kMaxStreams + 1 :=
  (noted_length_le call _).trans (Nat.succ_le_succ (run_length_le calls))

theorem evicted_run {calls : List Call} {call : Call}
    (hs : (call.noted (run calls).streams).lookup k = some s)
    (hgone : (run (calls ++ [call])).streams.lookup k = none) (hopen : s.closed = false)
    (ht : (call.noted (run calls).streams).lookup j = some t) :
    t.closed = false ∧ s.openedAtMs ≤ t.openedAtMs := by
  rw [run_concat, step_streams] at hgone
  rcases capped_cases (noted_run_length_le calls call) with
    ⟨hcap, _⟩ | ⟨victim, hstored, hsooner, hcap, _⟩
  · rw [hcap, hs] at hgone
    cases hgone
  · have hk : k = victim.1 := by
      by_contra hk
      rw [hcap, AList.lookup_erase_ne hk, hs] at hgone
      cases hgone
    subst hk
    rw [hs, Option.some.injEq] at hstored
    subst hstored
    have h := hsooner j t ht
    have hclosed : t.closed = false := by
      by_contra hc
      rw [h.1 (Bool.eq_true_of_not_eq_false hc)] at hopen
      cases hopen
    exact ⟨hclosed, h.2 (hopen.trans hclosed.symm)⟩

theorem number_injective (h : QString.number i = QString.number j) : i = j := by
  have hminus : ∀ m n : Nat, QString.number m ≠ QString.number (.negSucc n) := by
    intro m n he
    have hmem : 0x2D ∈ QString.number (.negSucc n) := List.mem_cons_self
    rw [← he] at hmem
    cases (isNumeral_iff.1 (number_numeral m).1).2 _ hmem
  cases i with
  | ofNat m =>
    cases j with
    | ofNat n =>
      have hm := (number_numeral m).2
      have he : fromLatin1 (QByteArray.number m) = fromLatin1 (QByteArray.number n) := h
      rw [he, (number_numeral n).2, Option.some.injEq] at hm
      rw [hm]
    | negSucc n => exact absurd h (hminus m n)
  | negSucc m =>
    cases j with
    | ofNat n => exact absurd h.symm (hminus n m)
    | negSucc n =>
      have he : fromLatin1 (decimalDigits (m + 1)) = fromLatin1 (decimalDigits (n + 1)) :=
        (List.cons.inj h).2
      have hm := digitsFrom_decimalDigits (m + 1)
      rw [he, digitsFrom_decimalDigits, Option.some.injEq] at hm
      rw [Nat.succ.inj hm]

theorem number_no_bar (i : Int) : 0x7C ∉ QString.number i := by
  intro h
  rcases number_chars i h with h | h
  · cases h
  · cases h

theorem streamKey_injective (h : streamKey conn i = streamKey conn' j) :
    conn = conn' ∧ i = j := by
  have hkey : ∀ (conn : QString) i, streamKey conn i = conn ++ 0x7C :: QString.number i :=
    fun conn i => List.append_assoc _ _ _
  rw [hkey, hkey] at h
  have hlast := lastIndexOf_split (number_no_bar i) conn
  rw [h, lastIndexOf_split (number_no_bar j), Option.some.injEq] at hlast
  obtain ⟨hconn, hnumber⟩ := List.append_inj h hlast.symm
  exact ⟨hconn, number_injective (List.cons.inj hnumber).2⟩

def framesOf (conn : QString) (streamId : Int) (calls : List Call) : List (Int × Bool) :=
  calls.filterMap (fun call =>
    match call.note with
    | .frame _ _ bytes sent =>
      if 0 < call.streamId ∧ call.conn = conn ∧ call.streamId = streamId then some (bytes, sent)
      else none
    | _ => none)

def bytesSum (frames : List (Int × Bool)) : Int := wrap64 (frames.map Prod.fst).sum

def framesCount (frames : List (Int × Bool)) : Int := wrap64 frames.length

structure Counts (s : H2StreamSummary) (frames : List (Int × Bool)) : Prop where
  bytesOut : s.bytesOut = bytesSum (frames.filter (fun f => f.2))
  framesOut : s.framesOut = framesCount (frames.filter (fun f => f.2))
  bytesIn : s.bytesIn = bytesSum (frames.filter (fun f => !f.2))
  framesIn : s.framesIn = framesCount (frames.filter (fun f => !f.2))

theorem wrap64_add (a b : Int) : add64 (wrap64 a) b = wrap64 (a + b) := Int.bmod_add_bmod

theorem bytesSum_concat (frames : List (Int × Bool)) (f : Int × Bool) :
    bytesSum (frames ++ [f]) = add64 (bytesSum frames) f.1 := by
  rw [bytesSum, bytesSum, wrap64_add, List.map_append, List.sum_append, List.map_singleton,
    List.sum_singleton]

theorem framesCount_concat (frames : List (Int × Bool)) (f : Int × Bool) :
    framesCount (frames ++ [f]) = add64 (framesCount frames) 1 := by
  rw [framesCount, framesCount, wrap64_add, List.length_append, List.length_singleton,
    Nat.cast_add, Nat.cast_one]

def Opened (conn : QString) (streamId : Int) (calls : List Call) : Prop :=
  (∃ call ∈ calls.head?, ∃ frameType flags bytes sent,
      call.note = .frame frameType flags bytes sent) ∨
    ∃ call ∈ calls, call.conn = conn ∧ call.streamId = streamId ∧
      ∃ method path, call.note = .requestHeader method path

structure Records (conn : QString) (streamId : Int) (calls : List Call) (s : H2StreamSummary) :
    Prop where
  counts : Counts s (framesOf conn streamId calls)
  opened : Opened conn streamId calls → s.conn = conn ∧ s.streamId = streamId ∧ s.openedAtMs ≠ 0
  orphan : ¬ Opened conn streamId calls → s.openedAtMs = 0

theorem framesOf_concat (conn : QString) (streamId : Int) (calls : List Call) (call : Call) :
    framesOf conn streamId (calls ++ [call]) =
      framesOf conn streamId calls ++ framesOf conn streamId [call] :=
  List.filterMap_append

theorem framesOf_other {call : Call}
    (h : call.counts = true → streamKey conn streamId ≠ call.key) :
    framesOf conn streamId [call] = [] := by
  obtain ⟨now, conn', streamId', note⟩ := call
  cases note with
  | frame frameType flags bytes sent =>
    rw [framesOf, List.filterMap_cons_none]
    · rfl
    · dsimp only
      rw [if_neg]
      rintro ⟨hpos, rfl, rfl⟩
      exact h (decide_eq_true hpos) rfl
  | requestHeader method path => rfl
  | responseStatus status => rfl
  | rstStream errCode => rfl
  | streamClosed => rfl

theorem Counts.concat {bytes : Int} (h : Counts s frames) (sent : Bool) :
    Counts
      (if sent then
        { s with bytesOut := add64 s.bytesOut bytes, framesOut := add64 s.framesOut 1 }
      else { s with bytesIn := add64 s.bytesIn bytes, framesIn := add64 s.framesIn 1 })
      (frames ++ [(bytes, sent)]) := by
  cases sent with
  | true =>
    constructor
    · rw [List.filter_append, List.filter_cons_of_pos rfl, List.filter_nil, bytesSum_concat,
        ← h.bytesOut]
      rfl
    · rw [List.filter_append, List.filter_cons_of_pos rfl, List.filter_nil, framesCount_concat,
        ← h.framesOut]
      rfl
    · rw [List.filter_append, List.filter_cons_of_neg Bool.false_ne_true, List.filter_nil,
        List.append_nil, ← h.bytesIn]
      rfl
    · rw [List.filter_append, List.filter_cons_of_neg Bool.false_ne_true, List.filter_nil,
        List.append_nil, ← h.framesIn]
      rfl
  | false =>
    constructor
    · rw [List.filter_append, List.filter_cons_of_neg Bool.false_ne_true, List.filter_nil,
        List.append_nil, ← h.bytesOut]
      rfl
    · rw [List.filter_append, List.filter_cons_of_neg Bool.false_ne_true, List.filter_nil,
        List.append_nil, ← h.framesOut]
      rfl
    · rw [List.filter_append, List.filter_cons_of_pos rfl, List.filter_nil, bytesSum_concat,
        ← h.bytesIn]
      rfl
    · rw [List.filter_append, List.filter_cons_of_pos rfl, List.filter_nil, framesCount_concat,
        ← h.framesIn]
      rfl

theorem counts_new (s : H2StreamSummary) (hin : s.bytesIn = 0) (hout : s.bytesOut = 0)
    (hfin : s.framesIn = 0) (hfout : s.framesOut = 0) : Counts s [] :=
  ⟨hout.trans rfl, hfout.trans rfl, hin.trans rfl, hfin.trans rfl⟩

theorem Counts.of_eq (h : Counts s frames) (hin : t.bytesIn = s.bytesIn)
    (hout : t.bytesOut = s.bytesOut) (hfin : t.framesIn = s.framesIn)
    (hfout : t.framesOut = s.framesOut) : Counts t frames :=
  ⟨hout.trans h.bytesOut, hfout.trans h.framesOut, hin.trans h.bytesIn, hfin.trans h.framesIn⟩

theorem Counts.after {call : Call} {old : Option H2StreamSummary}
    (hcounts : call.counts = true)
    (h : ∀ s, old = some s → Counts s frames) (hnew : old = none → frames = []) :
    Counts (call.after old) (frames ++ framesOf call.conn call.streamId [call]) := by
  have hold : ∀ s₀ : H2StreamSummary, Counts s₀ [] → Counts (old.getD s₀) frames := by
    intro s₀ h₀
    cases hs : old with
    | none =>
      rw [hnew hs]
      exact h₀
    | some s => exact h s hs
  have hblank : Counts (old.getD {}) frames := hold {} (counts_new {} rfl rfl rfl rfl)
  obtain ⟨now, conn, streamId, note⟩ := call
  cases note with
  | frame frameType flags bytes sent =>
    have hpos : 0 < streamId := of_decide_eq_true hcounts
    have hframes : framesOf conn streamId
        [⟨now, conn, streamId, .frame frameType flags bytes sent⟩] = [(bytes, sent)] := by
      rw [framesOf, List.filterMap_cons_some (b := (bytes, sent)), List.filterMap_nil]
      exact if_pos ⟨hpos, rfl, rfl⟩
    rw [hframes]
    exact (hold _ (counts_new _ rfl rfl rfl rfl)).concat sent
  | requestHeader method path =>
    exact (List.append_nil frames).symm ▸ hblank.of_eq rfl rfl rfl rfl
  | responseStatus status =>
    exact (List.append_nil frames).symm ▸ hblank.of_eq rfl rfl rfl rfl
  | rstStream errCode =>
    exact (List.append_nil frames).symm ▸ hblank.of_eq rfl rfl rfl rfl
  | streamClosed =>
    exact (List.append_nil frames).symm ▸ hblank.of_eq rfl rfl rfl rfl

def Call.isFrame (call : Call) : Prop :=
  ∃ frameType flags bytes sent, call.note = .frame frameType flags bytes sent

def Call.isHeader (call : Call) : Prop := ∃ method path, call.note = .requestHeader method path

theorem opened_concat {calls : List Call} (h : calls ≠ []) (call : Call) :
    Opened conn streamId (calls ++ [call]) ↔ Opened conn streamId calls ∨
      (call.conn = conn ∧ call.streamId = streamId ∧ call.isHeader) := by
  obtain ⟨first, rest, rfl⟩ := List.exists_cons_of_ne_nil h
  constructor
  · rintro (hframe | ⟨c, hc, hheader⟩)
    · exact .inl (.inl hframe)
    · rcases List.mem_append.1 hc with hc | hc
      · exact .inl (.inr ⟨c, hc, hheader⟩)
      · rw [List.mem_singleton.1 hc] at hheader
        exact .inr hheader
  · rintro ((hframe | ⟨c, hc, hheader⟩) | hheader)
    · exact .inl hframe
    · exact .inr ⟨c, List.mem_append_left _ hc, hheader⟩
    · exact .inr ⟨call, List.mem_append_right _ (List.mem_singleton_self call), hheader⟩

theorem opened_singleton (call : Call) :
    Opened call.conn call.streamId [call] ↔ call.isFrame ∨ call.isHeader := by
  constructor
  · rintro (⟨c, hc, hframe⟩ | ⟨c, hc, _, _, hheader⟩)
    · cases hc
      exact .inl hframe
    · rw [List.mem_singleton.1 hc] at hheader
      exact .inr hheader
  · rintro (hframe | hheader)
    · exact .inl ⟨call, rfl, hframe⟩
    · exact .inr ⟨call, List.mem_singleton_self call, rfl, rfl, hheader⟩

theorem after_names {call : Call} (h : ¬ call.isHeader) (s : H2StreamSummary) :
    (call.after (some s)).conn = s.conn ∧ (call.after (some s)).streamId = s.streamId ∧
      (call.after (some s)).openedAtMs = s.openedAtMs := by
  obtain ⟨now, conn, streamId, note⟩ := call
  cases note with
  | frame frameType flags bytes sent =>
    cases sent with
    | true => exact ⟨rfl, rfl, rfl⟩
    | false => exact ⟨rfl, rfl, rfl⟩
  | requestHeader method path => exact absurd ⟨method, path, rfl⟩ h
  | responseStatus status => exact ⟨rfl, rfl, rfl⟩
  | rstStream errCode => exact ⟨rfl, rfl, rfl⟩
  | streamClosed => exact ⟨rfl, rfl, rfl⟩

theorem after_header {call : Call} (h : call.isHeader) (hclock : call.now ≠ 0)
    (old : Option H2StreamSummary) :
    (call.after old).conn = call.conn ∧ (call.after old).streamId = call.streamId ∧
      (call.after old).openedAtMs ≠ 0 := by
  obtain ⟨now, conn, streamId, note⟩ := call
  obtain ⟨method, path, rfl⟩ := h
  refine ⟨rfl, rfl, ?_⟩
  change (if (old.getD {}).openedAtMs = 0 then now else (old.getD {}).openedAtMs) ≠ 0
  split
  · exact hclock
  · assumption

theorem after_new {call : Call} (hclock : call.now ≠ 0) :
    (Opened call.conn call.streamId [call] →
      (call.after none).conn = call.conn ∧ (call.after none).streamId = call.streamId ∧
        (call.after none).openedAtMs ≠ 0) ∧
      (¬ Opened call.conn call.streamId [call] → (call.after none).openedAtMs = 0) := by
  rw [opened_singleton]
  by_cases hheader : call.isHeader
  · exact ⟨fun _ => after_header hheader hclock none, fun h => absurd (.inr hheader) h⟩
  · obtain ⟨now, conn, streamId, note⟩ := call
    have hnone : ¬ Call.isFrame ⟨now, conn, streamId, note⟩ →
        (Call.after ⟨now, conn, streamId, note⟩ none).openedAtMs = 0 := by
      intro hframe
      cases note with
      | frame frameType flags bytes sent =>
        exact absurd ⟨frameType, flags, bytes, sent, rfl⟩ hframe
      | requestHeader method path => exact absurd ⟨method, path, rfl⟩ hheader
      | responseStatus status => rfl
      | rstStream errCode => rfl
      | streamClosed => rfl
    refine ⟨?_, fun h => hnone (fun hframe => h (.inl hframe))⟩
    rintro (⟨frameType, flags, bytes, sent, rfl⟩ | h)
    · cases sent with
      | true => exact ⟨rfl, rfl, hclock⟩
      | false => exact ⟨rfl, rfl, hclock⟩
    · exact absurd h hheader

theorem records_new {call : Call} (hcounts : call.counts = true) (hclock : call.now ≠ 0) :
    Records call.conn call.streamId [call] (call.after none) where
  counts := by
    rw [← List.nil_append (framesOf call.conn call.streamId [call])]
    apply Counts.after hcounts
    · intro s hs
      cases hs
    · exact fun _ => rfl
  opened := (after_new hclock).1
  orphan := (after_new hclock).2

theorem Records.after {call : Call} {calls : List Call}
    (h : Records call.conn call.streamId calls s) (hne : calls ≠ [])
    (hcounts : call.counts = true) (hclock : call.now ≠ 0) :
    Records call.conn call.streamId (calls ++ [call]) (call.after (some s)) := by
  constructor
  · rw [framesOf_concat]
    apply Counts.after hcounts
    · intro t ht
      rw [← Option.some.inj ht]
      exact h.counts
    · intro hnone
      cases hnone
  · intro hopened
    by_cases hheader : call.isHeader
    · exact after_header hheader hclock _
    · obtain ⟨hconn, hid, hms⟩ := after_names hheader s
      rw [hconn, hid, hms]
      rcases (opened_concat hne call).1 hopened with hopened | ⟨_, _, hh⟩
      · exact h.opened hopened
      · exact absurd hh hheader
  · intro hopened
    rw [opened_concat hne, not_or] at hopened
    have hheader : ¬ call.isHeader := fun hh => hopened.2 ⟨rfl, rfl, hh⟩
    rw [(after_names hheader s).2.2]
    exact h.orphan hopened.1

theorem Records.other {call : Call} {calls : List Call} (h : Records conn streamId calls s)
    (hne : calls ≠ []) (hother : call.counts = true → streamKey conn streamId ≠ call.key) :
    Records conn streamId (calls ++ [call]) s := by
  have hopened : Opened conn streamId (calls ++ [call]) ↔ Opened conn streamId calls := by
    rw [opened_concat hne, or_iff_left]
    rintro ⟨rfl, rfl, method, path, hnote⟩
    apply hother
    · rw [Call.counts, hnote]
    · rfl
  constructor
  · rw [framesOf_concat, framesOf_other hother, List.append_nil]
    exact h.counts
  · exact fun ho => h.opened (hopened.1 ho)
  · exact fun ho => h.orphan (fun hc => ho (hopened.2 hc))

structure Since (k : QString) (earlier : List Call) (created : Call) (later : List Call) :
    Prop where
  absent : (run earlier).streams.lookup k = none
  kept : ∀ early, early <+: later → k ∈ (run (earlier ++ created :: early)).streams

theorem Since.concat {call : Call} (h : Since k earlier created later)
    (hstored : k ∈ (run (earlier ++ created :: (later ++ [call]))).streams) :
    Since k earlier created (later ++ [call]) := by
  refine ⟨h.absent, ?_⟩
  intro early hearly
  rcases List.prefix_concat_iff.1 hearly with rfl | hearly
  · exact hstored
  · exact h.kept early hearly

theorem recorded {calls : List Call} (hclock : ∀ call ∈ calls, call.now ≠ 0)
    (hs : (run calls).streams.lookup k = some s) :
    ∃ conn streamId earlier created later, k = streamKey conn streamId ∧
      calls = earlier ++ created :: later ∧ created.conn = conn ∧ created.streamId = streamId ∧
      Since k earlier created later ∧ Records conn streamId (created :: later) s := by
  induction calls using List.reverseRecOn generalizing s with
  | nil => cases hs
  | append_singleton calls call ih =>
    have hstored : k ∈ (run (calls ++ [call])).streams := AList.lookup_isSome.1 (by rw [hs]; rfl)
    rw [run_concat, step_streams] at hs
    have hnow : call.now ≠ 0 := hclock call (List.mem_append_right _ (List.mem_singleton_self _))
    have hbefore : ∀ c ∈ calls, c.now ≠ 0 := fun c hc => hclock c (List.mem_append_left _ hc)
    rcases lookup_noted (lookup_of_capped (noted_run_length_le calls call) hs) with
      ⟨hcounts, hk, hafter⟩ | ⟨hother, hold⟩
    · cases hl : (run calls).streams.lookup k with
      | none =>
        rw [hl] at hafter
        refine ⟨call.conn, call.streamId, calls, call, [], hk, rfl, rfl, rfl, ⟨hl, ?_⟩, ?_⟩
        · intro early hearly
          rw [List.prefix_nil.1 hearly]
          exact hstored
        · rw [hafter]
          exact records_new hcounts hnow
      | some t =>
        obtain ⟨conn, streamId, earlier, created, later, hkey, hcalls, hconn, hid, hsince, hrec⟩ :=
          ih hbefore hl
        obtain ⟨rfl, rfl⟩ := streamKey_injective (hkey.symm.trans hk)
        have hsplit : calls ++ [call] = earlier ++ created :: (later ++ [call]) := by
          rw [hcalls, List.append_assoc]
          rfl
        rw [hl] at hafter
        refine ⟨_, _, earlier, created, later ++ [call], hk, hsplit, hconn, hid,
          hsince.concat (hsplit ▸ hstored), ?_⟩
        rw [hafter]
        exact hrec.after (List.cons_ne_nil _ _) hcounts hnow
    · obtain ⟨conn, streamId, earlier, created, later, hkey, hcalls, hconn, hid, hsince, hrec⟩ :=
        ih hbefore hold
      have hsplit : calls ++ [call] = earlier ++ created :: (later ++ [call]) := by
        rw [hcalls, List.append_assoc]
        rfl
      subst hkey
      exact ⟨conn, streamId, earlier, created, later ++ [call], rfl, hsplit, hconn, hid,
        hsince.concat (hsplit ▸ hstored), hrec.other (List.cons_ne_nil _ _) hother⟩

/-- At most `kMaxStreams` summaries with right counts, open ones last. -/
theorem summaries_kept {calls : List Call} (hclock : ∀ call ∈ calls, call.now ≠ 0) :
    (run calls).streams.keys.length ≤ kMaxStreams ∧
    (∀ k s, (run calls).streams.lookup k = some s →
      ∃ conn streamId earlier created later, k = streamKey conn streamId ∧
        calls = earlier ++ created :: later ∧ created.conn = conn ∧ created.streamId = streamId ∧
        Since k earlier created later ∧ Counts s (framesOf conn streamId (created :: later)) ∧
        (Opened conn streamId (created :: later) →
          k = streamKey s.conn s.streamId ∧ s.openedAtMs ≠ 0) ∧
        (¬ Opened conn streamId (created :: later) → s.openedAtMs = 0)) ∧
    ∀ call k s, (call.noted (run calls).streams).lookup k = some s →
      (run (calls ++ [call])).streams.lookup k = none → s.closed = false →
      ∀ j t, (call.noted (run calls).streams).lookup j = some t →
        t.closed = false ∧ s.openedAtMs ≤ t.openedAtMs := by
  refine ⟨run_length_le calls, ?_, ?_⟩
  · intro k s hs
    obtain ⟨conn, streamId, earlier, created, later, hk, hcalls, hconn, hid, hsince, hrec⟩ :=
      recorded hclock hs
    refine ⟨conn, streamId, earlier, created, later, hk, hcalls, hconn, hid, hsince, hrec.counts,
      ?_, hrec.orphan⟩
    intro hopened
    obtain ⟨hsconn, hsid, hms⟩ := hrec.opened hopened
    rw [hsconn, hsid]
    exact ⟨hk, hms⟩
  · intro call k s hs hgone hopen j t ht
    exact evicted_run hs hgone hopen ht

def statusFirst : List Call := [⟨5, utf16 "a:443", 1, .responseStatus 200⟩]

theorem status_kept : (run statusFirst).streams.keys.length ≤ kMaxStreams :=
  (summaries_kept (by decide : ∀ call ∈ statusFirst, call.now ≠ 0)).1

/-- Its summary lies under the key of another stream, and was never opened. -/
theorem status_unopened : ¬ ∀ calls k s, (∀ call ∈ calls, call.now ≠ 0) →
    (run calls).streams.lookup k = some s →
    k = streamKey s.conn s.streamId ∧ s.openedAtMs ≠ 0 := by
  intro h
  have hs : (run statusFirst).streams.lookup (streamKey (utf16 "a:443") 1) =
      some { status := 200 } := rfl
  exact (h statusFirst _ _ (by decide) hs).2 rfl

end H2EventLog
end Nullock

import Nullock.HttpRelay
import Nullock.Runs
import Nullock.WsReassembly
import Nullock.WsSegmentation

namespace Nullock.Proxy

/-- What came from the peer, what was sent on, and what was made of it. -/
structure WsLeg (σ : Type) where
  received : QByteArray := []
  buffered : QByteArray := []
  forwarded : QByteArray := []
  parser : WsFrameParser := {}
  noted : List WsFrame := []
  surfaced : List WsMessage × WsMsgState × σ

def WsLeg.arrives (leg : WsLeg σ) (bytes : QByteArray) : WsLeg σ :=
  { leg with received := leg.received ++ bytes, buffered := leg.buffered ++ bytes }

/-- The `readyRead` handler: it takes all that is buffered. -/
def WsLeg.readyRead (inflate : Inflate σ) (leg : WsLeg σ) : WsLeg σ :=
  let bytes := leg.buffered
  let (frames, parser) := leg.parser.feed bytes
  { leg with
    buffered := []
    forwarded := leg.forwarded ++ bytes
    parser := parser
    noted := leg.noted ++ frames
    surfaced := frames.foldl (fun acc f =>
      let r := processFrame inflate acc.2.1 acc.2.2 f
      (acc.1 ++ r.1, r.2)) leg.surfaced }

inductive WsPhase where
  | handshake
  | relaying
  | ended
deriving DecidableEq

structure WsTunnel (σ : Type) where
  phase : WsPhase := .handshake
  leg : Bool → WsLeg σ

/-- The part of `serializeUpgradeResponse` before the body. -/
def upgradeHead (resp : HttpResponse) : QByteArray :=
  statusLine resp ++ resp.headers.flatMap (fun h => fieldLine (toLatin1 h.1, toLatin1 h.2)) ++ crlf

/-- The response read goes on as `relayed`, with what was read behind its head. -/
def WsTunnel.start (z : σ) (resp relayed : HttpResponse) : WsTunnel σ where
  leg fromClient :=
    if fromClient then { surfaced := ([], {}, z) }
    else
      { received := resp.body
        forwarded := (serializeUpgradeResponse relayed).drop (upgradeHead relayed).length
        surfaced := ([], {}, z) }

/-- What can happen; `pumped` says that the event loop is entered. -/
inductive WsEvent where
  | arrives (fromClient : Bool) (bytes : QByteArray)
  | connectHandlers (pumped : Bool)
  | quit

section Runs
variable (inflate : Inflate σ)

def WsTunnel.arrives (w : WsTunnel σ) (fromClient : Bool) (bytes : QByteArray) : WsTunnel σ :=
  let leg := (w.leg fromClient).arrives bytes
  match w.phase with
  | .handshake => { w with leg := Function.update w.leg fromClient leg }
  | .relaying => { w with leg := Function.update w.leg fromClient (leg.readyRead inflate) }
  | .ended => w

def WsTunnel.step (w : WsTunnel σ) : WsEvent → WsTunnel σ
  | .arrives fromClient bytes => w.arrives inflate fromClient bytes
  | .connectHandlers pumped =>
    if w.phase = .handshake then { w with phase := if pumped then .relaying else .ended } else w
  | .quit => if w.phase = .relaying then { w with phase := .ended } else w

def WsEvent.InTime (w : WsTunnel σ) : WsEvent → Prop
  | .connectHandlers _ => w.phase = .handshake → ∀ fromClient, (w.leg fromClient).buffered = []
  | _ => True

def HandlersInTime (w : WsTunnel σ) (events : List WsEvent) : Prop :=
  Along (WsTunnel.step inflate) WsEvent.InTime w events

end Runs

/-- The frames up to where the parser gave up, at an error or a full buffer. -/
def Parses (stream : QByteArray) (p : WsFrameParser) (frames : List WsFrame) : Prop :=
  ∃ early late, stream = early ++ late ∧ frames = (wsDecoder.drain early).1 ∧
    if p.giveUp then
      (wsDecoder.drain early).2 = none ∨
        ∃ rest, (wsDecoder.drain early).2 = some rest ∧ kMaxBufferBytes < rest.length + late.length
    else late = [] ∧ (wsDecoder.drain early).2 = some p.buf

structure WsLeg.Visible (inflate : Inflate σ) (z : σ) (leg : WsLeg σ) : Prop where
  relayed : leg.forwarded = leg.received
  parsed : Parses leg.forwarded leg.parser leg.noted
  shown : leg.surfaced = processFrames inflate z leg.noted

def WsTunnel.Visible (inflate : Inflate σ) (z : σ) (w : WsTunnel σ) : Prop :=
  w.phase ≠ .handshake → ∀ fromClient, (w.leg fromClient).Visible inflate z

def VisibleThroughout (inflate : Inflate σ) (z : σ) (w : WsTunnel σ) (events : List WsEvent) :
    Prop :=
  Throughout (WsTunnel.step inflate) (WsTunnel.Visible inflate z) w events

theorem parses_nil : Parses [] {} [] := by
  refine ⟨[], [], rfl, ?_, ?_⟩
  · rw [Decoder.drain_more (D := wsDecoder) rfl]
  · rw [Decoder.drain_more (D := wsDecoder) rfl]
    exact ⟨rfl, rfl⟩

theorem Parses.feed (h : Parses stream p frames) (chunk : QByteArray) :
    Parses (stream ++ chunk) (p.feed chunk).2 (frames ++ (p.feed chunk).1) := by
  obtain ⟨early, late, hstream, hframes, hstate⟩ := h
  obtain ⟨buf, giveUp⟩ := p
  cases giveUp with
  | true =>
    simp only [↓reduceIte] at hstate
    rw [WsFrameParser.feed, if_pos rfl, List.append_nil]
    refine ⟨early, late ++ chunk, ?_, hframes, ?_⟩
    · rw [hstream, List.append_assoc]
    · simp only [↓reduceIte]
      obtain hnone | ⟨rest, hrest, hover⟩ := hstate
      · exact .inl hnone
      · refine .inr ⟨rest, hrest, ?_⟩
        rw [List.length_append]
        omega
  | false =>
    simp only [Bool.false_eq_true, ↓reduceIte] at hstate
    obtain ⟨hlate, hbuf⟩ := hstate
    rw [hlate, List.append_nil] at hstream
    by_cases hcap : buf.length + chunk.length ≤ kMaxBufferBytes
    · have hdrain := wsDecoder.drain_append early chunk
      rw [hbuf] at hdrain
      rw [feed_eq_drain hcap, hstream]
      refine ⟨early ++ chunk, [], ?_, ?_, ?_⟩
      · rw [List.append_nil]
      · rw [hdrain, hframes]
        rfl
      · rw [hdrain]
        cases hrest : (wsDecoder.drain (buf ++ chunk)).2 with
        | none => exact .inl hrest
        | some rest => exact ⟨rfl, hrest⟩
    · have hover : (chunk.length : Int) > (kMaxBufferBytes : Int) - buf.length := by omega
      rw [WsFrameParser.feed, if_neg Bool.false_ne_true, if_pos hover, List.append_nil]
      refine ⟨early, chunk, ?_, hframes, ?_⟩
      · rw [hstream]
      · exact .inr ⟨buf, hbuf, by omega⟩

/-- Of a leg from which nothing was read with the response's head. -/
structure WsLeg.Kept (inflate : Inflate σ) (z : σ) (leg : WsLeg σ) : Prop where
  received : leg.received = leg.forwarded ++ leg.buffered
  parsed : Parses leg.forwarded leg.parser leg.noted
  shown : leg.surfaced = processFrames inflate z leg.noted

theorem WsLeg.Kept.visible_iff {leg : WsLeg σ} (h : leg.Kept inflate z) :
    leg.Visible inflate z ↔ leg.buffered = [] := by
  constructor
  · intro hv
    have hrelayed := hv.relayed
    rw [h.received] at hrelayed
    exact List.self_eq_append_right.1 hrelayed
  · intro hb
    refine ⟨?_, h.parsed, h.shown⟩
    rw [h.received, hb, List.append_nil]

theorem WsLeg.Kept.arrives {leg : WsLeg σ} (h : leg.Kept inflate z) (bytes : QByteArray) :
    (leg.arrives bytes).Kept inflate z := by
  refine ⟨?_, h.parsed, h.shown⟩
  rw [WsLeg.arrives, h.received, List.append_assoc]

theorem WsLeg.Kept.readyRead {leg : WsLeg σ} (h : leg.Kept inflate z) :
    (leg.readyRead inflate).Kept inflate z := by
  refine ⟨?_, ?_, ?_⟩
  · rw [WsLeg.readyRead, List.append_nil]
    exact h.received
  · exact h.parsed.feed leg.buffered
  · rw [WsLeg.readyRead, h.shown, processFrames, processFrames, List.foldl_append]

def WsTunnel.Kept (inflate : Inflate σ) (z : σ) (w : WsTunnel σ) : Prop :=
  ∀ fromClient, (w.leg fromClient).Kept inflate z

theorem WsTunnel.forall_update {P : WsLeg σ → Prop} {w : WsTunnel σ} {leg : WsLeg σ}
    (h : ∀ d, P (w.leg d)) (hleg : P leg) (fromClient : Bool) :
    ∀ d, P (Function.update w.leg fromClient leg d) := by
  rw [Function.forall_update_iff w.leg (fun _ leg => P leg)]
  exact ⟨hleg, fun d _ => h d⟩

theorem WsTunnel.Kept.step {w : WsTunnel σ} (h : w.Kept inflate z) (e : WsEvent) :
    WsTunnel.Kept inflate z (w.step inflate e) := by
  cases e with
  | arrives fromClient bytes =>
    have harrives := (h fromClient).arrives bytes
    rw [WsTunnel.step, WsTunnel.arrives]
    cases w.phase with
    | handshake => exact WsTunnel.forall_update h harrives fromClient
    | relaying => exact WsTunnel.forall_update h harrives.readyRead fromClient
    | ended => exact h
  | connectHandlers pumped =>
    rw [WsTunnel.step]
    split
    · exact h
    · exact h
  | quit =>
    rw [WsTunnel.step]
    split
    · exact h
    · exact h

def WsTunnel.Clear (w : WsTunnel σ) : Prop :=
  w.phase ≠ .handshake → ∀ fromClient, (w.leg fromClient).buffered = []

theorem WsTunnel.Kept.visible_iff (h : WsTunnel.Kept inflate z w) :
    w.Visible inflate z ↔ w.Clear := by
  constructor
  · intro hv hphase d
    exact (h d).visible_iff.1 (hv hphase d)
  · intro hc hphase d
    exact (h d).visible_iff.2 (hc hphase d)

theorem WsTunnel.Clear.step_iff {w : WsTunnel σ} (h : w.Clear) (inflate : Inflate σ)
    (e : WsEvent) :
    (w.step inflate e).Clear ↔ e.InTime w := by
  cases e with
  | arrives fromClient bytes =>
    simp only [WsEvent.InTime, iff_true]
    rw [WsTunnel.step, WsTunnel.arrives, WsTunnel.Clear]
    rw [WsTunnel.Clear] at h
    cases hphase : w.phase with
    | handshake => exact fun hne => absurd rfl hne
    | relaying =>
      intro _
      have hempty : ∀ d, (w.leg d).buffered = [] := by
        apply h
        rw [hphase]
        exact WsPhase.noConfusion
      exact WsTunnel.forall_update (P := fun leg => leg.buffered = []) hempty rfl fromClient
    | ended => exact h
  | connectHandlers pumped =>
    rw [WsTunnel.step, WsEvent.InTime, WsTunnel.Clear]
    split
    · rename_i hphase
      constructor
      · intro hc _ d
        refine hc ?_ d
        cases pumped with
        | true => exact WsPhase.noConfusion
        | false => exact WsPhase.noConfusion
      · intro ht _ d
        exact ht hphase d
    · rename_i hphase
      exact ⟨fun _ hp => absurd hp hphase, fun _ => h⟩
  | quit =>
    simp only [WsEvent.InTime, iff_true]
    rw [WsTunnel.step]
    split
    · rename_i hphase
      intro _ d
      refine h ?_ d
      rw [hphase]
      exact WsPhase.noConfusion
    · exact h

theorem WsTunnel.Kept.throughout_iff (h : WsTunnel.Kept inflate z w) (hc : w.Clear)
    (events : List WsEvent) :
    VisibleThroughout inflate z w events ↔ HandlersInTime inflate w events := by
  refine throughout_iff_along (I := WsTunnel.Kept inflate z) ?_ ?_ h (h.visible_iff.2 hc) events
  · intro w e hw
    exact hw.step e
  · intro w e hw hv
    rw [(hw.step e).visible_iff]
    exact (hw.visible_iff.1 hv).step_iff inflate e

theorem drain_opcode (h : (wsDecoder.drain stream).1 = f :: frames) :
    f.opcode = byteAt stream 0 &&& 0x0F := by
  cases ha : wsDecoder.attempt stream with
  | more =>
    rw [Decoder.drain_more ha] at h
    cases h
  | fail =>
    rw [Decoder.drain_fail ha] at h
    cases h
  | unit b n =>
    rw [Decoder.drain_unit ha] at h
    obtain ⟨rfl, _⟩ := List.cons.inj h
    have hparse : tryParseOne stream 0 = .unit b n := ha
    rw [tryParseOne_eq] at hparse
    cases hl : lengthField kMaxFramePayload stream with
    | more => rw [hl] at hparse; cases hparse
    | fail => rw [hl] at hparse; cases hparse
    | unit len offset =>
      rw [hl] at hparse
      dsimp only at hparse
      rw [parseBody_eq] at hparse
      split at hparse
      · cases hparse
      · cases hparse
        rfl

def otherFrame (b : UInt8) : QByteArray := if b &&& 0x0F = 1 then [0x82, 0x00] else [0x81, 0x00]

theorem feed_otherFrame (b : UInt8) :
    ∃ f, WsFrameParser.feed {} (otherFrame b) = ([f], {}) ∧ f.opcode ≠ b &&& 0x0F := by
  rw [otherFrame]
  split
  · rename_i hone
    refine ⟨{ opcode := 2 }, by decide, ?_⟩
    rw [hone]
    decide
  · rename_i hother
    refine ⟨{ opcode := 1 }, by decide, ?_⟩
    exact fun he => hother he.symm

theorem not_parses_otherFrame (b : UInt8) (more : QByteArray) :
    ¬ Parses (b :: more ++ otherFrame b) (WsFrameParser.feed {} (otherFrame b)).2
      (WsFrameParser.feed {} (otherFrame b)).1 := by
  obtain ⟨f, hfeed, hopcode⟩ := feed_otherFrame b
  rw [hfeed]
  intro ⟨early, late, hstream, hframes, hstate⟩
  have hlate : late = [] := hstate.1
  rw [hlate, List.append_nil] at hstream
  rw [← hstream] at hframes
  exact hopcode (drain_opcode hframes.symm)

theorem start_forwarded (z : σ) (resp relayed : HttpResponse) :
    ((WsTunnel.start z resp relayed).leg false).forwarded = relayed.body := List.drop_left

theorem leftover_not_visible (inflate : Inflate σ) (z : σ) (resp relayed : HttpResponse)
    (h : ¬ (resp.body = [] ∧ relayed.body = [])) :
    ∃ events, HandlersInTime inflate (WsTunnel.start z resp relayed) events ∧
      ¬ VisibleThroughout inflate z (WsTunnel.start z resp relayed) events := by
  have hbuffered : ∀ d, ((WsTunnel.start z resp relayed).leg d).buffered = [] := by
    intro d
    cases d with
    | true => rfl
    | false => rfl
  cases hbody : relayed.body with
  | nil =>
    refine ⟨[.connectHandlers true], ⟨fun _ => hbuffered, trivial⟩, ?_⟩
    intro hv
    have hlast := hv [.connectHandlers true] List.prefix_rfl WsPhase.noConfusion false
    have hrelayed : ((WsTunnel.start z resp relayed).leg false).forwarded = resp.body :=
      hlast.relayed
    rw [start_forwarded, hbody] at hrelayed
    exact h ⟨hrelayed.symm, hbody⟩
  | cons b more =>
    let events := [WsEvent.connectHandlers true, .arrives false (otherFrame b)]
    refine ⟨events, ⟨fun _ => hbuffered, trivial, trivial⟩, ?_⟩
    intro hv
    have hlast := hv events List.prefix_rfl WsPhase.noConfusion false
    have hparsed : Parses
        (((WsTunnel.start z resp relayed).leg false).forwarded ++ otherFrame b)
        (WsFrameParser.feed {} (otherFrame b)).2 (WsFrameParser.feed {} (otherFrame b)).1 :=
      hlast.parsed
    rw [start_forwarded, hbody] at hparsed
    exact not_parses_otherFrame b more hparsed

theorem start_kept (inflate : Inflate σ) (z : σ) (hresp : resp.body = [])
    (hrelayed : relayed.body = []) : (WsTunnel.start z resp relayed).Kept inflate z := by
  intro d
  cases d with
  | true => exact ⟨rfl, parses_nil, rfl⟩
  | false =>
    have hforwarded := start_forwarded z resp relayed
    rw [hrelayed] at hforwarded
    refine ⟨?_, ?_, rfl⟩
    · rw [hforwarded]
      exact hresp
    · rw [hforwarded]
      exact parses_nil

/-- A WebSocket is shown in full when no socket waits at the handover. -/
theorem websocket_visible_iff (hread : readResponse socket = some (resp, later))
    (h101 : resp.statusCode = 101) (relayed : HttpResponse) (inflate : Inflate σ) (z : σ) :
    (resp.body = [] ↔ IsCut socket ((headerBlockOf socket).length + 4)) ∧
      (resp.body = [] ∧ relayed.body = [] →
        ∀ events, VisibleThroughout inflate z (WsTunnel.start z resp relayed) events ↔
          HandlersInTime inflate (WsTunnel.start z resp relayed) events) ∧
      (¬ (resp.body = [] ∧ relayed.body = []) →
        ∃ events, HandlersInTime inflate (WsTunnel.start z resp relayed) events ∧
          ¬ VisibleThroughout inflate z (WsTunnel.start z resp relayed) events) := by
  refine ⟨?_, ?_, leftover_not_visible inflate z resp relayed⟩
  · obtain ⟨head, r⟩ := readResponse_some hread
    apply r.bodiless
    have hsame : head.statusCode = resp.statusCode := by rw [r.same]
    rw [hsame, h101]
    rfl
  · intro ⟨hresp, hrelayed⟩ events
    exact (start_kept inflate z hresp hrelayed).throughout_iff (fun hne => absurd rfl hne) events

def switchHead : QByteArray :=
  latin1 "HTTP/1.1 101 Switching Protocols\r\nUpgrade: websocket\r\n\r\n"

def switchResponse (leftover : QByteArray) : HttpResponse :=
  ⟨utf16 "HTTP/1.1", 101, utf16 "Switching Protocols", [(utf16 "Upgrade", utf16 "websocket")],
    leftover⟩

theorem late_frame_visible :
    readResponse [switchHead, [0x81, 0x01, 0x61]] =
        some (switchResponse [], [[0x81, 0x01, 0x61]]) ∧
      VisibleThroughout noInflate () (WsTunnel.start () (switchResponse []) (switchResponse []))
        [.connectHandlers true, .arrives false [0x81, 0x01, 0x61]] := by
  have hread : readResponse [switchHead, [0x81, 0x01, 0x61]] =
      some (switchResponse [], [[0x81, 0x01, 0x61]]) := by decide
  refine ⟨hread, ?_⟩
  have hboth := (websocket_visible_iff hread rfl (switchResponse []) noInflate ()).2.1 ⟨rfl, rfl⟩
  refine (hboth _).2 ⟨?_, trivial, trivial⟩
  intro _ d
  cases d with
  | true => rfl
  | false => rfl

/-- The frame in one segment with the head is sent on and never shown. -/
theorem leftover_frame_unseen :
    readResponse [switchHead ++ [0x81, 0x01, 0x61]] =
        some (switchResponse [0x81, 0x01, 0x61], []) ∧
      ¬ VisibleThroughout noInflate () (WsTunnel.start () (switchResponse [0x81, 0x01, 0x61])
        (switchResponse [0x81, 0x01, 0x61])) [.connectHandlers true] := by
  refine ⟨by decide, ?_⟩
  intro hv
  have hlast := hv [.connectHandlers true] List.prefix_rfl WsPhase.noConfusion false
  have hparsed : Parses
      ((WsTunnel.start () (switchResponse [0x81, 0x01, 0x61])
        (switchResponse [0x81, 0x01, 0x61])).leg false).forwarded {} [] := hlast.parsed
  rw [start_forwarded] at hparsed
  obtain ⟨early, late, hstream, hframes, hlate, _⟩ := hparsed
  rw [hlate, List.append_nil] at hstream
  rw [← hstream, Decoder.drain_unit (D := wsDecoder) rfl] at hframes
  cases hframes

end Nullock.Proxy

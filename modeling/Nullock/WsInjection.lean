import Nullock.WsRelay
import Mathlib.Data.List.Nodup

namespace Nullock.Proxy

def isControlFrame (frame : QByteArray) : Bool := byteAt frame 0 &&& 0x08 != 0

def messageOpen (frames : List QByteArray) : Bool :=
  frames.foldl (fun isOpen f => if isControlFrame f then isOpen else byteAt f 0 &&& 0x80 == 0) false

/-- The first list with the frames of the second inserted between its frames. -/
inductive Inserted : List QByteArray → List QByteArray → List QByteArray → Prop where
  | nil : Inserted [] [] []
  | sent : Inserted s i m → Inserted (s ++ [f]) i (m ++ [f])
  | injected : Inserted s i m → (isControlFrame f = true ∨ messageOpen s = false) →
      Inserted s (i ++ [f]) (m ++ [f])

/-- What was written are the peer's frames with the injected ones inserted. -/
def Intact (c : Channel) : Prop :=
  ∀ sent rest, rawDecoder.drain c.forwarded = (sent, some rest) →
    ∃ merged, rawDecoder.drain c.written = (merged, some rest) ∧
      Inserted sent (c.injected.map QueuedFrame.frame) merged

/-- The bytes so far end with a frame, and for a data frame with a message. -/
def AtBoundary (c : Channel) (frame : QByteArray) : Prop :=
  ∀ sent rest, rawDecoder.drain c.forwarded = (sent, some rest) →
    rest = [] ∧ (isControlFrame frame = true ∨ messageOpen sent = false)

/-- When the relay writes the frame it delivers, it is at a boundary. -/
def Relay.SafeDelivery (r : Relay) : Prop :=
  ∀ q inbox, r.inbox = q :: inbox → q.id = r.wsId → (r.channel q.toUpstream).connected = true →
    AtBoundary (r.channel q.toUpstream) q.frame

def RelayWorld.SafeStep (w : RelayWorld) : RelayAction → Prop
  | .deliver k => ∀ r, w.relays[k]? = some r → r.SafeDelivery
  | _ => True

def RelayWorld.SafeRun : RelayWorld → List RelayAction → Prop
  | _, [] => True
  | w, a :: actions => w.SafeStep a ∧ (w.step a).SafeRun actions

theorem Inserted.sent_all (h : Inserted s i m) (t : List QByteArray) :
    Inserted (s ++ t) i (m ++ t) := by
  induction t generalizing s m with
  | nil => rw [List.append_nil, List.append_nil]; exact h
  | cons f t ih =>
    have h' := ih (h.sent (f := f))
    rw [List.append_assoc, List.append_assoc] at h'
    exact h'

theorem Intact.start (bytes : QByteArray) :
    Intact { forwarded := bytes, written := bytes } := by
  intro sent rest h
  exact ⟨sent, h, Inserted.nil.sent_all sent⟩

theorem Intact.forward (h : Intact c) (bytes : QByteArray) :
    Intact { c with forwarded := c.forwarded ++ bytes, written := c.written ++ bytes } := by
  intro sent rest hd
  obtain ⟨sent', rest', more, hf, hm, hs⟩ := Decoder.drain_append_some hd
  obtain ⟨merged, hw, hi⟩ := h sent' rest' hf
  refine ⟨merged ++ more, ?_, ?_⟩
  · rw [Decoder.drain_append, hw]
    simp only [Decoder.feed, hm]
  · rw [hs]
    exact hi.sent_all more

theorem drain_whole (h : rawAttempt frame = .unit frame frame.length) :
    rawDecoder.drain frame = ([frame], some []) := by
  have hn : rawDecoder.attempt [] = .more := rfl
  rw [Decoder.drain_unit (D := rawDecoder) h, List.drop_length, Decoder.drain_more hn]

theorem Intact.inject (h : Intact c) (q : QueuedFrame) (hb : AtBoundary c q.frame) :
    Intact { c with written := c.written ++ q.frame, injected := c.injected ++ [q] } := by
  intro sent rest hd
  obtain ⟨hr, hopen⟩ := hb sent rest hd
  obtain ⟨merged, hw, hi⟩ := h sent rest hd
  subst hr
  refine ⟨merged ++ [q.frame], ?_, ?_⟩
  · rw [Decoder.drain_append, hw]
    simp only [Decoder.feed, List.nil_append, drain_whole q.whole]
  · rw [List.map_append]
    exact hi.injected hopen

/-- The frames of the list that the handler of session `id` writes to one peer. -/
def ownFrames (id : Nat) (toUpstream : Bool) (frames : List QueuedFrame) : List QueuedFrame :=
  frames.filter (fun q => q.id == id && q.toUpstream == toUpstream)

/-- The written bytes are intact, and frames were injected in order, once each. -/
structure ChannelInv (r : Relay) (toUpstream : Bool) (c : Channel) : Prop where
  intact : Intact c
  ordered : c.injected <+: ownFrames r.wsId toUpstream r.posted
  complete : r.phase ≠ .closed → c.connected = true →
    c.injected ++ ownFrames r.wsId toUpstream r.inbox = ownFrames r.wsId toUpstream r.posted

structure RelayInv (r : Relay) : Prop where
  drained : r.phase = .closed → r.inbox = []
  channels : ∀ toUpstream, ChannelInv r toUpstream (r.channel toUpstream)

theorem channels_update (h : ∀ e, e ≠ d → ChannelInv r e (r.channel e))
    (hf : ChannelInv r d (f (r.channel d))) (e : Bool) :
    ChannelInv (r.updateChannel d f) e ((r.updateChannel d f).channel e) := by
  by_cases he : e = d
  · subst he
    have hc : (r.updateChannel e f).channel e = f (r.channel e) := Function.update_self ..
    rw [hc]
    exact ⟨hf.intact, hf.ordered, hf.complete⟩
  · have hc : (r.updateChannel d f).channel e = r.channel e := Function.update_of_ne he ..
    have hr := h e he
    rw [hc]
    exact ⟨hr.intact, hr.ordered, hr.complete⟩

theorem RelayInv.start (id : Nat) (leftover : QByteArray) :
    RelayInv { wsId := id, channel := fun toUpstream => if toUpstream then {} else
      { forwarded := leftover, written := leftover } } := by
  refine ⟨fun _ => rfl, ?_⟩
  intro d
  cases d with
  | true => exact ⟨Intact.start [], List.prefix_refl _, fun _ _ => rfl⟩
  | false => exact ⟨Intact.start leftover, List.prefix_refl _, fun _ _ => rfl⟩

theorem RelayInv.readyRead (h : RelayInv r) (d : Bool) (bytes : QByteArray) :
    RelayInv (r.readyRead d bytes) := by
  rw [Relay.readyRead]
  split
  · have hd := h.channels d
    exact ⟨h.drained, channels_update (fun e _ => h.channels e)
      ⟨hd.intact.forward bytes, hd.ordered, hd.complete⟩⟩
  · exact h

theorem RelayInv.disconnected (h : RelayInv r) (d : Bool) : RelayInv (r.disconnected d) := by
  have hd := h.channels d
  exact ⟨h.drained, channels_update (fun e _ => h.channels e)
    ⟨hd.intact, hd.ordered, fun _ hc => nomatch hc⟩⟩

theorem RelayInv.attach (h : RelayInv r) : RelayInv r.attach := by
  rw [Relay.attach]
  split
  · rename_i hp
    have hopen : r.phase ≠ .closed := by
      rw [hp]
      intro he
      cases he
    refine ⟨fun hp => (nomatch hp), ?_⟩
    intro d
    have hd := h.channels d
    exact ⟨hd.intact, hd.ordered, fun _ hc => hd.complete hopen hc⟩
  · exact h

theorem RelayInv.close (h : RelayInv r) : RelayInv r.close := by
  refine ⟨fun _ => rfl, ?_⟩
  intro d
  have hd := h.channels d
  exact ⟨hd.intact, hd.ordered, fun hp _ => absurd rfl hp⟩

theorem ownFrames_append (id : Nat) (d : Bool) (xs ys : List QueuedFrame) :
    ownFrames id d (xs ++ ys) = ownFrames id d xs ++ ownFrames id d ys := List.filter_append ..

theorem ownFrames_other (h : (q.id == n && q.toUpstream == d) = false) :
    ownFrames n d [q] = [] := by
  simp only [ownFrames, List.filter_cons, h, Bool.false_eq_true, ↓reduceIte, List.filter_nil]

theorem ownFrames_own (h : q.id = n) : ownFrames n q.toUpstream [q] = [q] := by
  simp only [ownFrames, List.filter_cons, h, beq_self_eq_true, Bool.and_self, ↓reduceIte,
    List.filter_nil]

theorem RelayInv.post (h : RelayInv r) (q : QueuedFrame) : RelayInv (r.post q) := by
  rw [Relay.post]
  split
  · rename_i hphase
    refine ⟨fun hp => (nomatch hphase.symm.trans hp), ?_⟩
    intro d
    have hd := h.channels d
    have hown : ownFrames r.wsId d (if q.id == r.wsId then r.posted ++ [q] else r.posted) =
        ownFrames r.wsId d r.posted ++ ownFrames r.wsId d [q] := by
      cases hq : q.id == r.wsId with
      | true => exact ownFrames_append ..
      | false =>
        rw [ownFrames_other (by rw [hq, Bool.false_and]), List.append_nil]
        rfl
    refine ⟨hd.intact, ?_, ?_⟩
    · simp only [hown]
      exact hd.ordered.trans (List.prefix_append ..)
    · intro hp hc
      simp only [hown, ownFrames_append]
      rw [← List.append_assoc, hd.complete hp hc]
  · exact h

section
variable {r : Relay} {q : QueuedFrame} {inbox : List QueuedFrame}

theorem RelayInv.open_of_inbox (h : RelayInv r) (hi : r.inbox = q :: inbox) :
    r.phase ≠ .closed := by
  intro hp
  rw [h.drained hp] at hi
  cases hi

theorem ownFrames_inbox (hi : r.inbox = q :: inbox) (d : Bool) :
    ownFrames r.wsId d r.inbox = ownFrames r.wsId d [q] ++ ownFrames r.wsId d inbox := by
  rw [hi, ← ownFrames_append]
  rfl

theorem RelayInv.skip (h : RelayInv r) (hi : r.inbox = q :: inbox)
    (hq : (q.id == r.wsId && q.toUpstream == d) = false) :
    ChannelInv { r with inbox } d (r.channel d) := by
  have hd := h.channels d
  refine ⟨hd.intact, hd.ordered, ?_⟩
  intro hp hc
  rw [← hd.complete hp hc, ownFrames_inbox hi, ownFrames_other hq]
  rfl

theorem RelayInv.skip_other (h : RelayInv r) (hi : r.inbox = q :: inbox) (hd : d ≠ q.toUpstream) :
    ChannelInv { r with inbox } d (r.channel d) := by
  apply h.skip hi
  rw [beq_eq_false_iff_ne.2 (Ne.symm hd), Bool.and_false]

theorem RelayInv.inject (h : RelayInv r) (hi : r.inbox = q :: inbox) (hid : q.id = r.wsId)
    (hc : (r.channel q.toUpstream).connected = true)
    (hb : AtBoundary (r.channel q.toUpstream) q.frame) :
    RelayInv ({ r with inbox }.updateChannel q.toUpstream fun c =>
      { c with written := c.written ++ q.frame, injected := c.injected ++ [q] }) := by
  have hopen := h.open_of_inbox hi
  have hq := h.channels q.toUpstream
  have hall := hq.complete hopen hc
  rw [ownFrames_inbox hi, ownFrames_own hid, ← List.append_assoc] at hall
  refine ⟨fun hp => absurd hp hopen, channels_update (fun e he => h.skip_other hi he) ?_⟩
  refine ⟨hq.intact.inject q hb, ?_, fun _ _ => hall⟩
  exact hall ▸ List.prefix_append ..

theorem RelayInv.discard (h : RelayInv r) (hi : r.inbox = q :: inbox)
    (hc : (r.channel q.toUpstream).connected ≠ true) : RelayInv { r with inbox } := by
  refine ⟨fun hp => absurd hp (h.open_of_inbox hi), ?_⟩
  intro d
  by_cases hd : d = q.toUpstream
  · subst hd
    have hq := h.channels q.toUpstream
    exact ⟨hq.intact, hq.ordered, fun _ hc' => absurd hc' hc⟩
  · exact h.skip_other hi hd

theorem RelayInv.deliver (h : RelayInv r) (hs : r.SafeDelivery) : RelayInv r.deliver := by
  rw [Relay.deliver]
  cases hi : r.inbox with
  | nil => exact h
  | cons q inbox =>
    by_cases hid : q.id = r.wsId
    · have hne : (q.id != r.wsId) = false := by rw [hid, bne_self_eq_false]
      simp only [Relay.frameQueued, hne, Bool.false_eq_true, ↓reduceIte]
      split
      · rename_i hc
        exact h.inject hi hid hc (hs q inbox hi hid hc)
      · rename_i hc
        exact h.discard hi hc
    · have hne : (q.id != r.wsId) = true := bne_iff_ne.2 hid
      simp only [Relay.frameQueued, hne, ↓reduceIte]
      refine ⟨fun hp => absurd hp (h.open_of_inbox hi), ?_⟩
      intro d
      apply h.skip hi
      rw [beq_eq_false_iff_ne.2 hid, Bool.false_and]

end

/-- Every relay keeps its invariant, and no two relays answer to one session. -/
structure WorldInv (w : RelayWorld) : Prop where
  relays : ∀ r ∈ w.relays, RelayInv r
  issued : ∀ r ∈ w.relays, r.wsId < w.nextId
  distinct : (w.relays.map Relay.wsId).Nodup

theorem mem_modify {l : List α} (h : b ∈ l.modify k f) : b ∈ l ∨ ∃ a, l[k]? = some a ∧ b = f a := by
  obtain ⟨i, hi⟩ := List.getElem?_of_mem h
  rw [List.getElem?_modify] at hi
  cases ha : l[i]? with
  | none => rw [ha] at hi; cases hi
  | some a =>
    rw [ha, Option.map_eq_map, Option.map_some] at hi
    by_cases hk : k = i
    · rw [if_pos hk] at hi
      subst hk
      exact .inr ⟨a, ha, (Option.some.inj hi).symm⟩
    · rw [if_neg hk] at hi
      exact .inl (Option.some.inj hi ▸ List.mem_of_getElem? ha)

theorem map_modify {l : List α} {f : α → α} {g : α → β} (h : ∀ a, g (f a) = g a) (k : Nat) :
    (l.modify k f).map g = l.map g := by
  apply List.ext_getElem?
  intro i
  rw [List.getElem?_map, List.getElem?_map, List.getElem?_modify]
  cases l[i]? with
  | none => rfl
  | some a =>
    simp only [Option.map_eq_map, Option.map_some]
    split
    · rw [h]
    · rfl

theorem WorldInv.modify (h : WorldInv w) (hid : ∀ r, (f r).wsId = r.wsId)
    (hf : ∀ r, w.relays[k]? = some r → RelayInv r → RelayInv (f r)) :
    WorldInv { w with relays := w.relays.modify k f } := by
  refine ⟨?_, ?_, ?_⟩
  · intro r hr
    rcases mem_modify hr with hr | ⟨r', hr', he⟩
    · exact h.relays r hr
    · rw [he]
      exact hf r' hr' (h.relays r' (List.mem_of_getElem? hr'))
  · intro r hr
    rcases mem_modify hr with hr | ⟨r', hr', he⟩
    · exact h.issued r hr
    · rw [he, hid]
      exact h.issued r' (List.mem_of_getElem? hr')
  · rw [map_modify hid]
    exact h.distinct

theorem WorldInv.post (h : WorldInv w) (q : QueuedFrame) (sending : List QueuedFrame) :
    WorldInv { w with sending, relays := w.relays.map (Relay.post q) } := by
  have hid (r : Relay) : (r.post q).wsId = r.wsId := by
    rw [Relay.post]
    split <;> rfl
  refine ⟨?_, ?_, ?_⟩
  · intro r hr
    obtain ⟨r', hr', he⟩ := List.mem_map.1 hr
    rw [← he]
    exact (h.relays r' hr').post q
  · intro r hr
    obtain ⟨r', hr', he⟩ := List.mem_map.1 hr
    rw [← he, hid]
    exact h.issued r' hr'
  · rw [List.map_map]
    have hcomp : Relay.wsId ∘ Relay.post q = Relay.wsId := funext hid
    rw [hcomp]
    exact h.distinct

theorem WorldInv.register (h : WorldInv w) (leftover : QByteArray) :
    WorldInv (w.step (.registerSession leftover)) := by
  refine ⟨?_, ?_, ?_⟩
  · intro r hr
    rcases List.mem_append.1 hr with hr | hr
    · exact h.relays r hr
    · rw [List.mem_singleton.1 hr]
      exact RelayInv.start w.nextId leftover
  · intro r hr
    rcases List.mem_append.1 hr with hr | hr
    · exact Nat.lt_succ_of_lt (h.issued r hr)
    · rw [List.mem_singleton.1 hr]
      exact Nat.lt_succ_self _
  · simp only [RelayWorld.step, List.map_append, List.map_cons, List.map_nil]
    apply List.nodup_append.2 ⟨h.distinct, List.nodup_singleton _, ?_⟩
    intro a ha b hb he
    obtain ⟨r, hr, hra⟩ := List.mem_map.1 ha
    have hlt := h.issued r hr
    rw [List.mem_singleton.1 hb] at he
    omega

theorem deliver_wsId (r : Relay) : r.deliver.wsId = r.wsId := by
  rw [Relay.deliver]
  split
  · rfl
  · rw [Relay.frameQueued]
    split_ifs <;> rfl

theorem WorldInv.step (h : WorldInv w) (hs : w.SafeStep a) : WorldInv (w.step a) := by
  cases a with
  | registerSession leftover => exact h.register leftover
  | attach k =>
    refine h.modify ?_ (fun r _ hr => hr.attach)
    intro r
    rw [Relay.attach]
    split <;> rfl
  | sendFrame id direction opcode payload key size =>
    rw [RelayWorld.step]
    split
    · exact ⟨h.relays, h.issued, h.distinct⟩
    · exact h
  | emit i =>
    rw [RelayWorld.step]
    split
    · exact h
    · exact h.post _ _
  | deliver k => exact h.modify deliver_wsId (fun r hk hr => hr.deliver (hs r hk))
  | readyRead k d bytes =>
    refine h.modify ?_ (fun r _ hr => hr.readyRead d bytes)
    intro r
    rw [Relay.readyRead]
    split <;> rfl
  | disconnected k d => exact h.modify (fun _ => rfl) (fun r _ hr => hr.disconnected d)
  | deregisterSession id => exact ⟨h.relays, h.issued, h.distinct⟩
  | close k => exact h.modify (fun _ => rfl) (fun r _ hr => hr.close)

theorem WorldInv.run (h : WorldInv w) (hs : w.SafeRun actions) : WorldInv (w.run actions) := by
  induction actions generalizing w with
  | nil => exact h
  | cons a actions ih => exact ih (h.step hs.1) hs.2

theorem SafeRun.left (hs : RelayWorld.SafeRun w (done ++ rest)) : w.SafeRun done := by
  induction done generalizing w with
  | nil => trivial
  | cons a done ih => exact ⟨hs.1, ih hs.2⟩

theorem WorldInv.init : WorldInv {} :=
  ⟨fun _ hr => (nomatch hr), fun _ hr => (nomatch hr), List.nodup_nil⟩

/-- In a run that injects only at boundaries every tunnel is intact. -/
theorem injection_keeps_tunnels_intact (actions done : List RelayAction)
    (hsafe : RelayWorld.SafeRun {} actions) (hdone : done <+: actions) :
    ((RelayWorld.run {} done).relays.map Relay.wsId).Nodup ∧
      ∀ r ∈ (RelayWorld.run {} done).relays, ∀ toUpstream,
        ChannelInv r toUpstream (r.channel toUpstream) := by
  obtain ⟨rest, hr⟩ := hdone
  rw [← hr] at hsafe
  have h := WorldInv.init.run (SafeRun.left hsafe)
  exact ⟨h.distinct, fun r hr => (h.relays r hr).channels⟩

def pingAfter (first second : QByteArray) : List RelayAction :=
  [.registerSession [], .attach 0, .readyRead 0 false first,
    .sendFrame 1 (utf16 "down") 0x9 [] (fun _ => 0) (by decide), .emit 0, .deliver 0,
    .readyRead 0 false second]

theorem ping_between_frames :
    (RelayWorld.run {} (pingAfter [0x81, 0x01, 0x61] [0x81, 0x01, 0x62])).relays.map
      (fun r => (r.channel false).written) = [[0x81, 0x01, 0x61, 0x89, 0x00, 0x81, 0x01, 0x62]] ∧
    ∀ r ∈ (RelayWorld.run {} (pingAfter [0x81, 0x01, 0x61] [0x81, 0x01, 0x62])).relays,
      ChannelInv r false (r.channel false) := by
  have hsafe : RelayWorld.SafeRun {} (pingAfter [0x81, 0x01, 0x61] [0x81, 0x01, 0x62]) := by
    refine ⟨trivial, trivial, trivial, trivial, trivial, ?_, trivial, trivial⟩
    intro r hr
    cases hr
    intro q inbox hi _ _ sent rest hd
    cases hi
    have hw : rawDecoder.drain [0x81, 0x01, 0x61] = ([[0x81, 0x01, 0x61]], some []) :=
      drain_whole rfl
    cases hw.symm.trans hd
    exact ⟨rfl, .inl rfl⟩
  refine ⟨rfl, ?_⟩
  intro r hr
  exact (injection_keeps_tunnels_intact _ _ hsafe (List.prefix_refl _)).2 r hr false

/-- A segment boundary cuts the server's frame; the ping lands inside it. -/
theorem ping_inside_frame :
    rawDecoder.drain [0x82, 0x04, 0x61, 0x62, 0x63, 0x64] =
      ([[0x82, 0x04, 0x61, 0x62, 0x63, 0x64]], some []) ∧
    ∃ r ∈ (RelayWorld.run {} (pingAfter [0x82, 0x04, 0x61, 0x62] [0x63, 0x64])).relays,
      (r.channel false).forwarded = [0x82, 0x04, 0x61, 0x62, 0x63, 0x64] ∧
      rawDecoder.drain (r.channel false).written =
        ([[0x82, 0x04, 0x61, 0x62, 0x89, 0x00]], some [0x63, 0x64]) ∧
      ¬ Intact (r.channel false) := by
  have hf : rawDecoder.drain [0x82, 0x04, 0x61, 0x62, 0x63, 0x64] =
      ([[0x82, 0x04, 0x61, 0x62, 0x63, 0x64]], some []) := drain_whole rfl
  have hw : rawDecoder.drain [0x82, 0x04, 0x61, 0x62, 0x89, 0x00, 0x63, 0x64] =
      ([[0x82, 0x04, 0x61, 0x62, 0x89, 0x00]], some [0x63, 0x64]) := by
    have hu : rawDecoder.attempt [0x82, 0x04, 0x61, 0x62, 0x89, 0x00, 0x63, 0x64] =
        .unit [0x82, 0x04, 0x61, 0x62, 0x89, 0x00] 6 := rfl
    have hm : rawDecoder.attempt [0x63, 0x64] = .more := rfl
    rw [Decoder.drain_unit hu]
    simp only [List.drop_succ_cons, List.drop_zero, Decoder.drain_more hm]
  refine ⟨hf, _, .head _, rfl, hw, ?_⟩
  intro h
  obtain ⟨merged, hd, _⟩ := h _ _ hf
  cases hw.symm.trans hd

end Nullock.Proxy

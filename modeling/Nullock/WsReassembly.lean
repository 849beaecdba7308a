import Nullock.WsFrames

namespace Nullock.Proxy

def kMaxWsMessageBytes : Nat := 64 * 1024 * 1024

structure WsMsgState where
  inMsg : Bool := false
  compressed : Bool := false
  opcode : UInt8 := 0
  buf : QByteArray := []
deriving DecidableEq

/-- A message for the history; `raw` is not `payload` only if deflated. -/
structure WsMessage where
  opcode : UInt8
  fin : Bool
  raw : QByteArray
  payload : QByteArray
  wasDeflated : Bool
deriving DecidableEq

/-- The stateful inflater: output, success, and the window after. -/
abbrev Inflate (σ : Type) := σ → QByteArray → QByteArray × Bool × σ

def isControl (f : WsFrame) : Bool := f.opcode &&& 0x08 != 0

/-- What follows once a data frame was added to the message being reassembled. -/
def finishFrame (inflate : Inflate σ) (z : σ) (fin : Bool) (st : WsMsgState) :
    List WsMessage × WsMsgState × σ :=
  if kMaxWsMessageBytes < st.buf.length then
    ([⟨st.opcode, false, st.buf, st.buf, false⟩], {}, z)
  else if !fin then ([], st, z)
  else if st.compressed then
    let (dec, ok, z) := inflate z st.buf
    ([⟨st.opcode, true, st.buf, if ok then dec else st.buf, ok⟩], {}, z)
  else ([⟨st.opcode, true, st.buf, st.buf, false⟩], {}, z)

def processFrame (inflate : Inflate σ) (st : WsMsgState) (z : σ) (f : WsFrame) :
    List WsMessage × WsMsgState × σ :=
  if isControl f then ([⟨f.opcode, f.fin, f.payload, f.payload, false⟩], st, z)
  else if f.opcode != 0 then
    finishFrame inflate z f.fin
      { inMsg := true, compressed := f.rsv1, opcode := f.opcode, buf := f.payload }
  else if st.inMsg then
    finishFrame inflate z f.fin { st with buf := st.buf ++ f.payload }
  else ([⟨0, f.fin, f.payload, f.payload, false⟩], st, z)

/-- The messages surfaced for a direction's frames, and the state then. -/
def processFrames (inflate : Inflate σ) (z : σ) (frames : List WsFrame) :
    List WsMessage × WsMsgState × σ :=
  frames.foldl (fun acc f =>
    let r := processFrame inflate acc.2.1 acc.2.2 f
    (acc.1 ++ r.1, r.2)) ([], {}, z)

def dataPayload (f : WsFrame) : QByteArray := if isControl f then [] else f.payload

def dataBytes (frames : List WsFrame) : QByteArray := frames.flatMap dataPayload

def surfacedBytes (messages : List WsMessage) : QByteArray :=
  messages.flatMap (fun m => if m.opcode &&& 0x08 != 0 then [] else m.raw)

def opensMessage (f : WsFrame) : Bool := !isControl f && f.opcode != 0

def keepsOpen (f : WsFrame) : Bool := isControl f || (f.opcode == 0 && !f.fin)

/-- The last frames of the list opened a message and have not finished it. -/
structure OpenTail (frames : List WsFrame) (o : WsFrame) (mid : List WsFrame) : Prop where
  suffix : ∃ pre, frames = pre ++ o :: mid
  opens : opensMessage o = true
  unfinished : o.fin = false
  kept : ∀ f ∈ mid, keepsOpen f = true

/-- The frames end inside an unfinished message that already holds payload. -/
def EndsUnfinished (frames : List WsFrame) : Prop :=
  ∃ o mid, OpenTail frames o mid ∧ dataBytes (o :: mid) ≠ []

/-- A text or binary frame arrives while an unfinished message holds payload. -/
def Interrupted (frames : List WsFrame) : Prop :=
  ∃ pre f post, frames = pre ++ f :: post ∧ opensMessage f = true ∧ EndsUnfinished pre

theorem dataBytes_concat (frames : List WsFrame) (f : WsFrame) :
    dataBytes (frames ++ [f]) = dataBytes frames ++ dataPayload f := by
  simp only [dataBytes, List.flatMap_append, List.flatMap_cons, List.flatMap_nil, List.append_nil]

theorem surfacedBytes_append (ms ms' : List WsMessage) :
    surfacedBytes (ms ++ ms') = surfacedBytes ms ++ surfacedBytes ms' := List.flatMap_append

theorem processFrames_concat (inflate : Inflate σ) (z : σ) (frames : List WsFrame) (f : WsFrame) :
    processFrames inflate z (frames ++ [f]) =
      let acc := processFrames inflate z frames
      let r := processFrame inflate acc.2.1 acc.2.2 f
      (acc.1 ++ r.1, r.2) := by
  simp only [processFrames, List.foldl_append, List.foldl_cons, List.foldl_nil]

theorem surfacedBytes_single (m : WsMessage) :
    surfacedBytes [m] = if m.opcode &&& 0x08 != 0 then [] else m.raw := by
  simp only [surfacedBytes, List.flatMap_cons, List.flatMap_nil, List.append_nil]

theorem finishFrame_spec (inflate : Inflate σ) (z : σ) (fin : Bool)
    (hcap : st.buf.length ≤ kMaxWsMessageBytes) (hop : (st.opcode &&& 0x08 != 0) = false) :
    surfacedBytes (finishFrame inflate z fin st).1 ++ (finishFrame inflate z fin st).2.1.buf =
      st.buf ∧ (finishFrame inflate z fin st).2.1 = if fin then {} else st := by
  simp only [finishFrame, if_neg (Nat.not_lt.2 hcap)]
  cases fin with
  | false => exact ⟨rfl, rfl⟩
  | true =>
    cases st.compressed with
    | false =>
      simp only [Bool.not_true, Bool.false_eq_true, ↓reduceIte, surfacedBytes_single, hop,
        List.append_nil, and_self]
    | true =>
      simp only [Bool.not_true, Bool.false_eq_true, ↓reduceIte, surfacedBytes_single, hop,
        List.append_nil, and_self]

theorem processFrame_control (inflate : Inflate σ) (st : WsMsgState) (z : σ)
    (hf : isControl f = true) :
    surfacedBytes (processFrame inflate st z f).1 = [] ∧
      (processFrame inflate st z f).2.1 = st := by
  simp only [processFrame, hf, ↓reduceIte, surfacedBytes_single, and_true]
  exact if_pos hf

theorem processFrame_opens (inflate : Inflate σ) (st : WsMsgState) (z : σ)
    (hf : opensMessage f = true) (hcap : f.payload.length ≤ kMaxWsMessageBytes) :
    surfacedBytes (processFrame inflate st z f).1 ++ (processFrame inflate st z f).2.1.buf =
      f.payload ∧
    (processFrame inflate st z f).2.1 = if f.fin then {} else
      { inMsg := true, compressed := f.rsv1, opcode := f.opcode, buf := f.payload } := by
  simp only [opensMessage, Bool.and_eq_true, Bool.not_eq_true'] at hf
  simp only [processFrame, hf.1, hf.2, Bool.false_eq_true, ↓reduceIte]
  exact finishFrame_spec inflate z f.fin hcap hf.1

theorem processFrame_continues (inflate : Inflate σ) (z : σ) (hc : isControl f = false)
    (h0 : (f.opcode != 0) = false) (hm : st.inMsg = true)
    (hop : (st.opcode &&& 0x08 != 0) = false)
    (hcap : (st.buf ++ f.payload).length ≤ kMaxWsMessageBytes) :
    surfacedBytes (processFrame inflate st z f).1 ++ (processFrame inflate st z f).2.1.buf =
      st.buf ++ f.payload ∧
    (processFrame inflate st z f).2.1 = if f.fin then {} else
      { st with buf := st.buf ++ f.payload } := by
  simp only [processFrame, hc, h0, hm, Bool.false_eq_true, ↓reduceIte]
  exact finishFrame_spec inflate z f.fin hcap hop

theorem processFrame_stray (inflate : Inflate σ) (z : σ) (hc : isControl f = false)
    (h0 : (f.opcode != 0) = false) (hm : st.inMsg = false) :
    surfacedBytes (processFrame inflate st z f).1 = f.payload ∧
      (processFrame inflate st z f).2.1 = st := by
  simp only [processFrame, hc, h0, hm, Bool.false_eq_true, ↓reduceIte, surfacedBytes_single,
    and_true]
  rfl

theorem openTail_concat (frames : List WsFrame) (f o : WsFrame) (mid : List WsFrame) :
    OpenTail (frames ++ [f]) o mid ↔
      (mid = [] ∧ o = f ∧ opensMessage f = true ∧ f.fin = false) ∨
      ∃ mid', mid = mid' ++ [f] ∧ OpenTail frames o mid' ∧ keepsOpen f = true := by
  constructor
  · intro h
    obtain ⟨pre, hs⟩ := h.suffix
    rcases List.eq_nil_or_concat' mid with hm | ⟨mid', g, hm⟩
    · subst mid
      obtain ⟨_, he⟩ := List.append_inj' hs rfl
      cases he
      exact .inl ⟨rfl, rfl, h.opens, h.unfinished⟩
    · subst mid
      rw [← List.cons_append, ← List.append_assoc] at hs
      obtain ⟨hp, he⟩ := List.append_inj' hs rfl
      cases he
      refine .inr ⟨mid', rfl, ⟨⟨pre, hp⟩, h.opens, h.unfinished, ?_⟩, ?_⟩
      · intro g hg
        exact h.kept g (List.mem_append_left _ hg)
      · exact h.kept f (List.mem_append_right _ (List.mem_singleton.2 rfl))
  · rintro (⟨hm, ho, hopen, hfin⟩ | ⟨mid', hm, h, hk⟩)
    · subst hm ho
      exact ⟨⟨frames, rfl⟩, hopen, hfin, fun _ hg => absurd hg List.not_mem_nil⟩
    · subst hm
      obtain ⟨pre, hs⟩ := h.suffix
      refine ⟨⟨pre, by rw [hs]; simp⟩, h.opens, h.unfinished, ?_⟩
      intro g hg
      rcases List.mem_append.1 hg with hg | hg
      · exact h.kept g hg
      · rw [List.mem_singleton.1 hg]
        exact hk

theorem interrupted_concat (frames : List WsFrame) (f : WsFrame) :
    Interrupted (frames ++ [f]) ↔
      Interrupted frames ∨ (opensMessage f = true ∧ EndsUnfinished frames) := by
  constructor
  · intro h
    obtain ⟨pre, g, post, hs, hg, hu⟩ := h
    rcases List.eq_nil_or_concat' post with hp | ⟨post', k, hp⟩
    · subst post
      obtain ⟨hp, he⟩ := List.append_inj' hs rfl
      cases he
      subst hp
      exact .inr ⟨hg, hu⟩
    · subst post
      rw [← List.cons_append, ← List.append_assoc] at hs
      obtain ⟨hp, _⟩ := List.append_inj' hs rfl
      exact .inl ⟨pre, g, post', hp, hg, hu⟩
  · intro h
    cases h with
    | inl h =>
      obtain ⟨pre, g, post, hs, hg, hu⟩ := h
      exact ⟨pre, g, post ++ [f], by rw [hs]; simp, hg, hu⟩
    | inr h => exact ⟨frames, f, [], rfl, h.1, h.2⟩

theorem dataPayload_data (hf : isControl f = false) : dataPayload f = f.payload := by
  simp only [dataPayload, hf, Bool.false_eq_true, ↓reduceIte]

theorem dataPayload_control (hf : isControl f = true) : dataPayload f = [] := by
  simp only [dataPayload, hf, ↓reduceIte]

structure ReassemblyInv (frames : List WsFrame) (surfaced : QByteArray) (st : WsMsgState) :
    Prop where
  idle : st.inMsg = false → st.buf = []
  data : (st.opcode &&& 0x08 != 0) = false
  buffered : st.inMsg = true → ∃ o mid, OpenTail frames o mid ∧ st.buf = dataBytes (o :: mid)
  tail : ∀ o mid, OpenTail frames o mid → st.inMsg = true ∧ st.buf = dataBytes (o :: mid)
  bound : surfaced.length + st.buf.length ≤ (dataBytes frames).length
  exact : surfaced ++ st.buf = dataBytes frames ↔ ¬ Interrupted frames

theorem ReassemblyInv.nil : ReassemblyInv [] [] {} := by
  refine ⟨fun _ => rfl, rfl, ?_, ?_, Nat.le_refl _, ?_⟩
  · intro h
    cases h
  · intro o mid h
    obtain ⟨pre, hs⟩ := h.suffix
    simp at hs
  · refine ⟨?_, fun _ => rfl⟩
    rintro _ ⟨pre, f, post, hs, _⟩
    simp at hs

theorem ReassemblyInv.buf_eq_nil_iff (h : ReassemblyInv frames surfaced st) :
    st.buf = [] ↔ ¬ EndsUnfinished frames := by
  constructor
  · intro hb hu
    obtain ⟨o, mid, ht, hd⟩ := hu
    exact hd ((h.tail o mid ht).2.symm.trans hb)
  · intro hu
    cases hm : st.inMsg with
    | false => exact h.idle hm
    | true =>
      obtain ⟨o, mid, ht, hb⟩ := h.buffered hm
      by_contra hn
      exact hu ⟨o, mid, ht, fun hd => hn (hb.trans hd)⟩

theorem ReassemblyInv.surfaced_iff (h : ReassemblyInv frames surfaced st) :
    surfaced = dataBytes frames ↔ ¬ Interrupted frames ∧ ¬ EndsUnfinished frames := by
  rw [← h.buf_eq_nil_iff, ← h.exact]
  constructor
  · intro hs
    have hb := h.bound
    rw [hs] at hb
    have hn : st.buf = [] := List.eq_nil_of_length_eq_zero (by omega)
    exact ⟨by rw [hn, List.append_nil, hs], hn⟩
  · intro hs
    obtain ⟨he, hn⟩ := hs
    rw [hn, List.append_nil] at he
    exact he

theorem ReassemblyInv.control (h : ReassemblyInv frames surfaced st) (hf : isControl f = true) :
    ReassemblyInv (frames ++ [f]) surfaced st := by
  have hopen : opensMessage f = false := by simp only [opensMessage, hf, Bool.not_true,
    Bool.false_and]
  have hkeep : keepsOpen f = true := by simp only [keepsOpen, hf, Bool.true_or]
  have hbytes (mid : List WsFrame) (o : WsFrame) :
      dataBytes (o :: (mid ++ [f])) = dataBytes (o :: mid) := by
    rw [← List.cons_append, dataBytes_concat, dataPayload_control hf, List.append_nil]
  refine ⟨h.idle, h.data, ?_, ?_, ?_, ?_⟩
  · intro hm
    obtain ⟨o, mid, ht, hb⟩ := h.buffered hm
    exact ⟨o, mid ++ [f], (openTail_concat frames f o _).2 (.inr ⟨mid, rfl, ht, hkeep⟩),
      hb.trans (hbytes mid o).symm⟩
  · intro o mid ht
    rcases (openTail_concat frames f o mid).1 ht with ⟨_, _, ho, _⟩ | ⟨mid', hm, ht', _⟩
    · rw [hopen] at ho
      cases ho
    · subst hm
      rw [hbytes]
      exact h.tail o mid' ht'
  · rw [dataBytes_concat, dataPayload_control hf, List.append_nil]
    exact h.bound
  · rw [dataBytes_concat, dataPayload_control hf, List.append_nil, h.exact, interrupted_concat,
      hopen]
    simp only [Bool.false_eq_true, false_and, or_false]

theorem ReassemblyInv.bound_concat {surfaced' buf' : QByteArray}
    (h : ReassemblyInv frames surfaced st) (hc : isControl f = false)
    (hle : surfaced'.length + buf'.length ≤ st.buf.length + f.payload.length) :
    (surfaced ++ surfaced').length + buf'.length ≤ (dataBytes (frames ++ [f])).length := by
  have hb := h.bound
  rw [dataBytes_concat, dataPayload_data hc, List.length_append, List.length_append]
  omega

theorem ReassemblyInv.opens (h : ReassemblyInv frames surfaced st) (hf : opensMessage f = true)
    (he : surfaced' ++ st'.buf = f.payload)
    (hst : st' = if f.fin then {} else
      { inMsg := true, compressed := f.rsv1, opcode := f.opcode, buf := f.payload }) :
    ReassemblyInv (frames ++ [f]) (surfaced ++ surfaced') st' := by
  have hf' := hf
  simp only [opensMessage, Bool.and_eq_true, Bool.not_eq_true'] at hf'
  obtain ⟨hc, h0⟩ := hf'
  have hkeep : keepsOpen f = false := by
    simp only [bne, Bool.not_eq_true'] at h0
    simp only [keepsOpen, hc, h0, Bool.false_or, Bool.false_and]
  have hone : dataBytes [f] = f.payload := by
    rw [← List.nil_append [f], dataBytes_concat, dataPayload_data hc]
    rfl
  have htail (o : WsFrame) (mid : List WsFrame) :
      OpenTail (frames ++ [f]) o mid ↔ mid = [] ∧ o = f ∧ f.fin = false := by
    simp only [openTail_concat, hf, hkeep, true_and, Bool.false_eq_true, and_false, exists_const,
      or_false]
  have hlen := congrArg List.length he
  rw [List.length_append] at hlen
  refine ⟨?_, ?_, ?_, ?_, ?_, ?_⟩
  · subst hst
    cases f.fin with
    | true => exact fun _ => rfl
    | false => exact fun hm => nomatch hm
  · subst hst
    cases f.fin with
    | true => exact ReassemblyInv.nil.data
    | false => exact hc
  · subst hst
    cases hfin : f.fin with
    | true => exact fun hm => nomatch hm
    | false => exact fun _ => ⟨f, [], (htail f []).2 ⟨rfl, rfl, hfin⟩, hone.symm⟩
  · intro o mid ht
    obtain ⟨hm, ho, hfin⟩ := (htail o mid).1 ht
    subst hm ho hst
    rw [hfin, hone]
    exact ⟨rfl, rfl⟩
  · exact h.bound_concat hc (hlen.le.trans (Nat.le_add_left _ _))
  · rw [dataBytes_concat, dataPayload_data hc, List.append_assoc, he, List.append_cancel_right_eq,
      h.surfaced_iff, interrupted_concat, hf, not_or]
    simp only [true_and]

theorem ReassemblyInv.continues (h : ReassemblyInv frames surfaced st) (hc : isControl f = false)
    (h0 : (f.opcode != 0) = false) (hm : st.inMsg = true)
    (he : surfaced' ++ st'.buf = st.buf ++ f.payload)
    (hst : st' = if f.fin then {} else { st with buf := st.buf ++ f.payload }) :
    ReassemblyInv (frames ++ [f]) (surfaced ++ surfaced') st' := by
  have hopen : opensMessage f = false := by simp only [opensMessage, h0, Bool.and_false]
  have hkeep : keepsOpen f = !f.fin := by
    simp only [bne, Bool.not_eq_false'] at h0
    simp only [keepsOpen, hc, h0, Bool.false_or, Bool.true_and]
  have hbytes (mid : List WsFrame) (o : WsFrame) :
      dataBytes (o :: (mid ++ [f])) = dataBytes (o :: mid) ++ f.payload := by
    rw [← List.cons_append, dataBytes_concat, dataPayload_data hc]
  have htail (o : WsFrame) (mid : List WsFrame) : OpenTail (frames ++ [f]) o mid ↔
      ∃ mid', mid = mid' ++ [f] ∧ OpenTail frames o mid' ∧ f.fin = false := by
    simp only [openTail_concat, hopen, hkeep, Bool.false_eq_true, false_and, and_false, false_or,
      Bool.not_eq_true']
  have hlen := congrArg List.length he
  rw [List.length_append, List.length_append] at hlen
  refine ⟨?_, ?_, ?_, ?_, ?_, ?_⟩
  · subst hst
    cases f.fin with
    | true => exact fun _ => rfl
    | false => exact fun hn => nomatch hm.symm.trans hn
  · subst hst
    cases f.fin with
    | true => exact ReassemblyInv.nil.data
    | false => exact h.data
  · subst hst
    cases hfin : f.fin with
    | true => exact fun hn => nomatch hn
    | false =>
      intro _
      obtain ⟨o, mid, ht, hb⟩ := h.buffered hm
      refine ⟨o, mid ++ [f], (htail o _).2 ⟨mid, rfl, ht, hfin⟩, ?_⟩
      rw [hbytes, ← hb]
      rfl
  · intro o mid ht
    obtain ⟨mid', hmid, ht', hfin⟩ := (htail o mid).1 ht
    obtain ⟨hin, hb⟩ := h.tail o mid' ht'
    subst hmid hst
    rw [hfin, hbytes, ← hb]
    exact ⟨hin, rfl⟩
  · exact h.bound_concat hc hlen.le
  · rw [dataBytes_concat, dataPayload_data hc, List.append_assoc, he, ← List.append_assoc,
      List.append_cancel_right_eq, h.exact, interrupted_concat, hopen]
    simp only [Bool.false_eq_true, false_and, or_false]

theorem ReassemblyInv.stray (h : ReassemblyInv frames surfaced st) (hc : isControl f = false)
    (h0 : (f.opcode != 0) = false) (hm : st.inMsg = false) :
    ReassemblyInv (frames ++ [f]) (surfaced ++ f.payload) st := by
  have hopen : opensMessage f = false := by simp only [opensMessage, h0, Bool.and_false]
  have htail (o : WsFrame) (mid : List WsFrame) : ¬ OpenTail (frames ++ [f]) o mid := by
    intro ht
    rcases (openTail_concat frames f o mid).1 ht with ⟨_, _, ho, _⟩ | ⟨mid', _, ht', _⟩
    · rw [hopen] at ho
      cases ho
    · exact nomatch hm.symm.trans (h.tail o mid' ht').1
  have hbuf := h.idle hm
  refine ⟨h.idle, h.data, fun hn => absurd hn (by rw [hm]; exact Bool.false_ne_true),
    fun o mid ht => absurd ht (htail o mid), ?_, ?_⟩
  · exact h.bound_concat hc (Nat.add_comm _ _).le
  · have he := h.exact
    rw [hbuf, List.append_nil] at he
    rw [dataBytes_concat, dataPayload_data hc, hbuf, List.append_nil, List.append_cancel_right_eq,
      interrupted_concat, hopen, he]
    simp only [Bool.false_eq_true, false_and, or_false]

theorem ReassemblyInv.step (inflate : Inflate σ) (z : σ) (h : ReassemblyInv frames surfaced st)
    (hcap : (dataBytes (frames ++ [f])).length ≤ kMaxWsMessageBytes) :
    ReassemblyInv (frames ++ [f]) (surfaced ++ surfacedBytes (processFrame inflate st z f).1)
      (processFrame inflate st z f).2.1 := by
  cases hc : isControl f with
  | true =>
    obtain ⟨hs, hst⟩ := processFrame_control inflate st z hc
    rw [hs, hst, List.append_nil]
    exact h.control hc
  | false =>
    rw [dataBytes_concat, dataPayload_data hc, List.length_append] at hcap
    cases h0 : f.opcode != 0 with
    | true =>
      have hopen : opensMessage f = true := by simp only [opensMessage, hc, h0, Bool.not_false,
        Bool.and_self]
      obtain ⟨he, hst⟩ := processFrame_opens inflate st z hopen (by omega)
      exact h.opens hopen he hst
    | false =>
      cases hm : st.inMsg with
      | true =>
        have hb := h.bound
        have hlen : (st.buf ++ f.payload).length ≤ kMaxWsMessageBytes := by
          rw [List.length_append]
          omega
        obtain ⟨he, hst⟩ := processFrame_continues inflate z hc h0 hm h.data hlen
        exact h.continues hc h0 hm he hst
      | false =>
        obtain ⟨hs, hst⟩ := processFrame_stray inflate z hc h0 hm
        rw [hs, hst]
        exact h.stray hc h0 hm

theorem processFrames_inv (inflate : Inflate σ) (z : σ) (frames : List WsFrame)
    (hcap : (dataBytes frames).length ≤ kMaxWsMessageBytes) :
    ReassemblyInv frames (surfacedBytes (processFrames inflate z frames).1)
      (processFrames inflate z frames).2.1 := by
  induction frames using List.reverseRecOn with
  | nil => exact ReassemblyInv.nil
  | append_singleton frames f ih =>
    have hlen : (dataBytes frames).length ≤ kMaxWsMessageBytes := by
      rw [dataBytes_concat, List.length_append] at hcap
      exact Nat.le_of_add_right_le hcap
    rw [processFrames_concat, surfacedBytes_append]
    exact (ih hlen).step inflate _ hcap

/-- Every byte is surfaced once when no message is overwritten or unfinished. -/
theorem reassembly_complete_iff (inflate : Inflate σ) (z : σ) (frames : List WsFrame)
    (hcap : (dataBytes frames).length ≤ kMaxWsMessageBytes) :
    (surfacedBytes (processFrames inflate z frames).1 = dataBytes frames ↔
      ¬ Interrupted frames ∧ ¬ EndsUnfinished frames) ∧
    (surfacedBytes (processFrames inflate z frames).1 ++
      (processFrames inflate z frames).2.1.buf = dataBytes frames ↔ ¬ Interrupted frames) :=
  ⟨(processFrames_inv inflate z frames hcap).surfaced_iff,
    (processFrames_inv inflate z frames hcap).exact⟩

def noInflate : Inflate Unit := fun z _ => ([], false, z)

def frameOf (opcode : UInt8) (fin : Bool) (payload : QByteArray) : WsFrame :=
  { opcode, fin, payload }

theorem reassembly_complete_with_ping :
    ¬ Interrupted [frameOf 1 false [97], frameOf 9 true [], frameOf 0 true [98]] ∧
      ¬ EndsUnfinished [frameOf 1 false [97], frameOf 9 true [], frameOf 0 true [98]] :=
  (reassembly_complete_iff noInflate ()
    [frameOf 1 false [97], frameOf 9 true [], frameOf 0 true [98]] (by decide)).1.1 (by decide)

/-- The first message's byte is surfaced in none, and nothing is left. -/
theorem interrupted_message_lost :
    let frames := [frameOf 1 false [97], frameOf 1 true [98]]
    (dataBytes frames).length ≤ kMaxWsMessageBytes ∧ dataBytes frames = [97, 98] ∧
      surfacedBytes (processFrames noInflate () frames).1 = [98] ∧
      (processFrames noInflate () frames).2.1 = {} := by
  decide

end Nullock.Proxy

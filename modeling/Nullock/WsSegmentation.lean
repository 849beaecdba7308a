import Nullock.WsFrames

namespace Nullock.Proxy

theorem byteAt_drop (buf : QByteArray) (start i : Nat) :
    byteAt (buf.drop start) i = byteAt buf (start + i) := by
  simp only [byteAt, List.getD_eq_getElem?_getD, List.getElem?_drop]

theorem byteAt_append (h : i < xs.length) (ys : QByteArray) :
    byteAt (xs ++ ys) i = byteAt xs i := by
  simp only [byteAt, List.getD_eq_getElem?_getD, List.getElem?_append_left h]

theorem parseBody_drop (buf : QByteArray) (start : Nat) (b0 b1 : UInt8)
    (payloadLen offset : Nat) :
    parseBody buf start b0 b1 payloadLen offset =
      parseBody (buf.drop start) 0 b0 b1 payloadLen offset := by
  simp only [parseBody, List.length_drop, Nat.sub_zero, byteAt_drop, Nat.zero_add,
    List.drop_drop, Nat.add_assoc]

theorem tryParseOne_drop (buf : QByteArray) (start : Nat) :
    tryParseOne buf start = tryParseOne (buf.drop start) 0 := by
  simp only [tryParseOne, List.length_drop, Nat.sub_zero, byteAt_drop, Nat.zero_add,
    parseBody_drop buf start, Nat.add_zero, Nat.add_assoc]

def payloadStart (b1 : UInt8) (offset : Nat) : Nat :=
  if b1 &&& 0x80 != 0 then offset + 4 else offset

theorem le_payloadStart (b1 : UInt8) (offset : Nat) : offset ≤ payloadStart b1 offset := by
  rw [payloadStart]
  split
  · exact Nat.le_add_right _ _
  · exact Nat.le_refl _

def bodyFrame (buf : QByteArray) (b0 b1 : UInt8) (payloadLen offset : Nat) : WsFrame :=
  let payload := (buf.drop (payloadStart b1 offset)).take payloadLen
  { opcode := b0 &&& 0x0F
    fin := b0 &&& 0x80 != 0
    rsv1 := b0 &&& 0x40 != 0
    payload := if b1 &&& 0x80 != 0 then
      xorMask ((List.range 4).map (fun i => byteAt buf (offset + i))) payload else payload }

theorem parseBody_eq (buf : QByteArray) (b0 b1 : UInt8) (payloadLen offset : Nat) :
    parseBody buf 0 b0 b1 payloadLen offset =
      if buf.length < payloadStart b1 offset + payloadLen then .more
      else .unit (bodyFrame buf b0 b1 payloadLen offset)
        (payloadStart b1 offset + payloadLen) := by
  simp only [parseBody, bodyFrame, payloadStart, Nat.sub_zero, Nat.zero_add]
  by_cases hm : (b1 &&& 0x80 != 0) = true
  · simp only [hm, Bool.true_and, ↓reduceIte, decide_eq_true_eq]
    by_cases h : buf.length < offset + 4
    · rw [if_pos h, if_pos (by omega)]
    · rw [if_neg h]
  · rw [Bool.not_eq_true] at hm
    simp only [hm, Bool.false_and, Bool.false_eq_true, ↓reduceIte]

theorem bodyFrame_append (h : payloadStart b1 offset + payloadLen ≤ xs.length)
    (b0 : UInt8) (ys : QByteArray) :
    bodyFrame (xs ++ ys) b0 b1 payloadLen offset = bodyFrame xs b0 b1 payloadLen offset := by
  have hp : ((xs ++ ys).drop (payloadStart b1 offset)).take payloadLen =
      (xs.drop (payloadStart b1 offset)).take payloadLen := by
    rw [List.drop_append_of_le_length (by omega), List.take_append_of_le_length]
    rw [List.length_drop]
    omega
  simp only [bodyFrame, hp]
  cases hm : b1 &&& 0x80 != 0 with
  | false => rfl
  | true =>
    have hs : payloadStart b1 offset = offset + 4 := by simp only [payloadStart, hm, ↓reduceIte]
    have hk : (List.range 4).map (fun i => byteAt (xs ++ ys) (offset + i)) =
        (List.range 4).map (fun i => byteAt xs (offset + i)) := by
      apply List.map_congr_left
      intro i hi
      have hi' := List.mem_range.1 hi
      exact byteAt_append (by omega) ys
    rw [hk]

theorem parseBody_append (h : parseBody xs 0 b0 b1 payloadLen offset = .unit f n)
    (ys : QByteArray) :
    parseBody (xs ++ ys) 0 b0 b1 payloadLen offset = .unit f n := by
  rw [parseBody_eq] at h ⊢
  split at h
  · cases h
  · rename_i hlen
    cases h
    rw [List.length_append, if_neg (by omega), bodyFrame_append (by omega)]

theorem parseBody_size (h : parseBody xs 0 b0 b1 payloadLen offset = .unit f n) :
    offset ≤ n ∧ n ≤ xs.length := by
  have hs := le_payloadStart b1 offset
  rw [parseBody_eq] at h
  split at h
  · cases h
  · cases h
    omega

theorem parseBody_ne_fail (buf : QByteArray) (b0 b1 : UInt8) (payloadLen offset : Nat) :
    parseBody buf 0 b0 b1 payloadLen offset ≠ .fail := by
  rw [parseBody_eq]
  split
  · intro h
    cases h
  · intro h
    cases h

/-- A length field: incomplete, over the limit, or a length and the bytes read. -/
def lengthField (limit : Nat) (buf : QByteArray) : Attempt Nat :=
  if buf.length < 2 then .more
  else
    let payloadLen := (byteAt buf 1 &&& 0x7F).toNat
    if payloadLen = 126 then
      if buf.length < 4 then .more
      else .unit ((byteAt buf 2).toNat <<< 8 ||| (byteAt buf 3).toNat) 4
    else if payloadLen = 127 then
      if buf.length < 10 then .more
      else
        let payloadLen := signed64
          (lengthRegister ((List.range 8).map (fun i => byteAt buf (2 + i))))
        if payloadLen < 0 ∨ (limit : Int) < payloadLen then .fail
        else .unit payloadLen.toNat 10
    else .unit payloadLen 2

theorem tryParseOne_eq (buf : QByteArray) :
    tryParseOne buf 0 = match lengthField kMaxFramePayload buf with
      | .more => .more
      | .fail => .fail
      | .unit payloadLen offset =>
        parseBody buf 0 (byteAt buf 0) (byteAt buf 1) payloadLen offset := by
  simp only [tryParseOne, lengthField, Nat.sub_zero, Nat.zero_add, Nat.reduceAdd]
  split_ifs <;> rfl

theorem lengthField_size (h : lengthField limit xs = .unit len offset) :
    2 ≤ offset ∧ offset ≤ xs.length := by
  simp only [lengthField] at h
  split_ifs at h <;> cases h <;> omega

theorem lengthField_append (hx : 2 ≤ xs.length) (h : lengthField limit xs ≠ .more)
    (ys : QByteArray) : lengthField limit (xs ++ ys) = lengthField limit xs := by
  have hlen : (xs ++ ys).length = xs.length + ys.length := List.length_append
  have h₁ : byteAt (xs ++ ys) 1 = byteAt xs 1 := byteAt_append (by omega) ys
  simp only [lengthField] at h ⊢
  rw [if_neg (by omega : ¬ (xs ++ ys).length < 2), if_neg (by omega : ¬ xs.length < 2), h₁]
  rw [if_neg (by omega : ¬ xs.length < 2)] at h
  by_cases h6 : (byteAt xs 1 &&& 0x7F).toNat = 126
  · rw [if_pos h6] at h ⊢
    rw [if_pos h6]
    by_cases h4 : xs.length < 4
    · rw [if_pos h4] at h
      exact absurd rfl h
    · rw [if_neg (by omega : ¬ (xs ++ ys).length < 4), if_neg h4,
        byteAt_append (by omega), byteAt_append (by omega)]
  · rw [if_neg h6] at h ⊢
    rw [if_neg h6]
    by_cases h7 : (byteAt xs 1 &&& 0x7F).toNat = 127
    · rw [if_pos h7] at h ⊢
      rw [if_pos h7]
      by_cases h10 : xs.length < 10
      · rw [if_pos h10] at h
        exact absurd rfl h
      · have hk : (List.range 8).map (fun i => byteAt (xs ++ ys) (2 + i)) =
            (List.range 8).map (fun i => byteAt xs (2 + i)) := by
          apply List.map_congr_left
          intro i hi
          have hi' := List.mem_range.1 hi
          exact byteAt_append (by omega) ys
        rw [if_neg (by omega : ¬ (xs ++ ys).length < 10), if_neg h10, hk]
    · rw [if_neg h7, if_neg h7]

theorem two_le_of_lengthField (h : lengthField limit xs ≠ .more) : 2 ≤ xs.length := by
  by_cases hx : xs.length < 2
  · simp only [lengthField, if_pos hx, ne_eq, not_true_eq_false] at h
  · omega

theorem tryParseOne_size (h : tryParseOne xs 0 = .unit f n) : 2 ≤ n ∧ n ≤ xs.length := by
  rw [tryParseOne_eq] at h
  cases hl : lengthField kMaxFramePayload xs with
  | more => rw [hl] at h; cases h
  | fail => rw [hl] at h; cases h
  | unit len offset =>
    rw [hl] at h
    have h₁ := lengthField_size hl
    have h₂ := parseBody_size h
    omega

theorem tryParseOne_append (h : tryParseOne xs 0 = .unit f n) (ys : QByteArray) :
    tryParseOne (xs ++ ys) 0 = .unit f n := by
  rw [tryParseOne_eq] at h ⊢
  cases hl : lengthField kMaxFramePayload xs with
  | more => rw [hl] at h; cases h
  | fail => rw [hl] at h; cases h
  | unit len offset =>
    have hne : lengthField kMaxFramePayload xs ≠ .more := by rw [hl]; intro he; cases he
    have h2 := two_le_of_lengthField hne
    rw [hl] at h
    rw [lengthField_append h2 hne, hl, byteAt_append (by omega), byteAt_append (by omega)]
    exact parseBody_append h ys

theorem tryParseOne_fail_append (h : tryParseOne xs 0 = .fail) (ys : QByteArray) :
    tryParseOne (xs ++ ys) 0 = .fail := by
  rw [tryParseOne_eq] at h ⊢
  cases hl : lengthField kMaxFramePayload xs with
  | more => rw [hl] at h; cases h
  | fail =>
    have hne : lengthField kMaxFramePayload xs ≠ .more := by rw [hl]; intro he; cases he
    rw [lengthField_append (two_le_of_lengthField hne) hne, hl]
  | unit len offset =>
    rw [hl] at h
    exact (parseBody_ne_fail _ _ _ _ _ h).elim

def wsDecoder : Decoder UInt8 WsFrame where
  attempt buf := tryParseOne buf 0
  size_pos h := Nat.lt_of_lt_of_le Nat.two_pos (tryParseOne_size h).1
  size_le h := (tryParseOne_size h).2
  unit_append h ys := tryParseOne_append h ys
  fail_append h ys := tryParseOne_fail_append h ys

def parserOf : Option QByteArray → WsFrameParser
  | none => ⟨[], true⟩
  | some rest => ⟨rest, false⟩

theorem feedLoop_eq_drain (hfuel : (buf.drop pos).length < fuel) (out : List WsFrame) :
    ((feedLoop buf fuel pos out).1, (feedLoop buf fuel pos out).2.map (fun p => buf.drop p)) =
      (out ++ (wsDecoder.drain (buf.drop pos)).1, (wsDecoder.drain (buf.drop pos)).2) := by
  induction fuel generalizing pos out with
  | zero => omega
  | succ fuel ih =>
    rw [feedLoop, tryParseOne_drop]
    cases h : tryParseOne (buf.drop pos) 0 with
    | more =>
      rw [Decoder.drain_more (D := wsDecoder) h]
      simp only [Option.map_some, List.append_nil]
    | fail =>
      rw [Decoder.drain_fail (D := wsDecoder) h]
      simp only [Option.map_none, List.append_nil]
    | unit f n =>
      have hlt : ((buf.drop pos).drop n).length < (buf.drop pos).length := wsDecoder.drop_lt h
      rw [List.drop_drop] at hlt
      rw [Decoder.drain_unit (D := wsDecoder) h, List.drop_drop]
      simp only [ih (by omega : (buf.drop (pos + n)).length < fuel), List.append_assoc,
        List.cons_append, List.nil_append]

theorem feed_eq_drain (hcap : buf.length + chunk.length ≤ kMaxBufferBytes) :
    WsFrameParser.feed ⟨buf, false⟩ chunk =
      ((wsDecoder.drain (buf ++ chunk)).1, parserOf (wsDecoder.drain (buf ++ chunk)).2) := by
  have hfuel : ((buf ++ chunk).drop 0).length < (buf ++ chunk).length + 1 := by
    rw [List.drop_zero]
    exact Nat.lt_succ_self _
  have h := feedLoop_eq_drain hfuel []
  rw [List.drop_zero, List.nil_append, Prod.mk.injEq] at h
  simp only [WsFrameParser.feed, Bool.false_eq_true, ↓reduceIte]
  rw [if_neg (by omega), ← h.1, ← h.2]
  cases feedLoop (buf ++ chunk) ((buf ++ chunk).length + 1) 0 [] with
  | mk out pos => cases pos <;> rfl

theorem feedAll_eq_decoder (hcap : buf.length + chunks.flatten.length ≤ kMaxBufferBytes) :
    WsFrameParser.feedAll ⟨buf, false⟩ chunks =
      ((wsDecoder.feedAll (some buf) chunks).1,
        parserOf (wsDecoder.feedAll (some buf) chunks).2) := by
  induction chunks generalizing buf with
  | nil => rfl
  | cons chunk chunks ih =>
    rw [List.flatten_cons, List.length_append] at hcap
    simp only [WsFrameParser.feedAll, Decoder.feedAll, Decoder.feed]
    rw [feed_eq_drain (by omega)]
    cases hd : (wsDecoder.drain (buf ++ chunk)).2 with
    | none =>
      rw [Decoder.feedAll_none]
      have hg (cs : List QByteArray) :
          WsFrameParser.feedAll ⟨[], true⟩ cs = ([], ⟨[], true⟩) := by
        induction cs with
        | nil => rfl
        | cons c cs ih => simp only [WsFrameParser.feedAll, WsFrameParser.feed, ↓reduceIte, ih,
            List.append_nil]
      simp only [parserOf, hg]
    | some rest =>
      have hlen := Decoder.drain_rest_length hd
      rw [List.length_append] at hlen
      simp only [parserOf, ih (by omega : rest.length + chunks.flatten.length ≤ kMaxBufferBytes)]

/-- A stream within the cap is read alike however it is cut. -/
theorem feed_segmentation_independent (chunks : List QByteArray)
    (hcap : chunks.flatten.length ≤ kMaxBufferBytes) :
    WsFrameParser.feedAll {} chunks = WsFrameParser.feed {} chunks.flatten := by
  have hmore : wsDecoder.attempt [] = .more := rfl
  rw [feedAll_eq_decoder (by simpa using hcap), feed_eq_drain (by simpa using hcap),
    Decoder.feedAll_eq_drain hmore]

theorem feed_cut_in_header :
    WsFrameParser.feedAll {} [[0x81], [0x01, 0x61]] =
      ([{ opcode := 1, payload := [0x61] }], {}) :=
  (feed_segmentation_independent [[0x81], [0x01, 0x61]] (by decide)).trans (by decide)

end Nullock.Proxy

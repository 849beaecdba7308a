import Nullock.WsSegmentation

namespace Nullock.Proxy

theorem shiftLeft_or_eq (a : Nat) (h : b < 256) : a <<< 8 ||| b = a * 256 + b := by
  rw [← Nat.shiftLeft_add_eq_or_of_lt (i := 8) h, Nat.shiftLeft_eq]

theorem toNat_low_byte (n : Nat) : ((n &&& 0xFF).toUInt8).toNat = n % 256 := by
  have h : n &&& 0xFF = n % 256 := Nat.and_two_pow_sub_one_eq_mod n 8
  rw [h, Nat.toUInt8, UInt8.toNat_ofNat', Nat.mod_mod]

theorem xorMask_xorMask (mask : List UInt8) (payload : QByteArray) :
    xorMask mask (xorMask mask payload) = payload := by
  apply List.ext_getElem?
  intro i
  simp only [xorMask, List.getElem?_mapIdx, Option.map_map]
  cases payload[i]? with
  | none => rfl
  | some b => simp only [Option.map_some, Function.comp_apply, UInt8.xor_assoc, UInt8.xor_self,
      UInt8.xor_zero]

theorem xorMask_length (mask : List UInt8) (payload : QByteArray) :
    (xorMask mask payload).length = payload.length := List.length_mapIdx

theorem maskBit_or (masked : Bool) (h : n < 128) :
    (((if masked then 0x80 else 0x00) ||| n.toUInt8 : UInt8) &&& 0x7F).toNat = n ∧
      (((if masked then 0x80 else 0x00) ||| n.toUInt8 : UInt8) &&& 0x80 != 0) = masked := by
  have hall : ∀ n : Fin 128, ∀ masked : Bool,
      (((if masked then 0x80 else 0x00) ||| n.val.toUInt8 : UInt8) &&& 0x7F).toNat = n.val ∧
        (((if masked then 0x80 else 0x00) ||| n.val.toUInt8 : UInt8) &&& 0x80 != 0) = masked := by
    decide
  exact hall ⟨n, h⟩ masked

theorem firstByte_fields (opcode : UInt8) (fin rsv1 : Bool) :
    let b0 : UInt8 := (if fin then 0x80 else 0x00) ||| (if rsv1 then 0x40 else 0x00) |||
      (opcode &&& 0x0F)
    b0 &&& 0x0F = opcode &&& 0x0F ∧ (b0 &&& 0x80 != 0) = fin ∧ (b0 &&& 0x40 != 0) = rsv1 := by
  have hall : ∀ opcode : Fin 256, ∀ fin rsv1 : Bool,
      let b0 : UInt8 := (if fin then 0x80 else 0x00) ||| (if rsv1 then 0x40 else 0x00) |||
        (UInt8.ofNat opcode.val &&& 0x0F)
      b0 &&& 0x0F = UInt8.ofNat opcode.val &&& 0x0F ∧ (b0 &&& 0x80 != 0) = fin ∧
        (b0 &&& 0x40 != 0) = rsv1 := by
    decide +kernel
  have h := hall ⟨opcode.toNat, opcode.toNat_lt⟩ fin rsv1
  rwa [UInt8.ofNat_toNat] at h

theorem register_step (hn : n < 2 ^ 64) (shift : Nat) :
    ((n >>> (shift + 8)) <<< 8 ||| (((n >>> shift) &&& 0xFF).toUInt8).toNat) % 2 ^ 64 =
      n >>> shift := by
  have hlt : n >>> shift < 2 ^ 64 := Nat.lt_of_le_of_lt (Nat.shiftRight_le n shift) hn
  rw [toNat_low_byte, shiftLeft_or_eq _ (Nat.mod_lt _ (by decide)), Nat.shiftRight_add,
    Nat.shiftRight_eq_div_pow (n >>> shift) 8, Nat.div_add_mod', Nat.mod_eq_of_lt hlt]

theorem lengthRegister_bytes (hn : n < 2 ^ 64) :
    lengthRegister ([56, 48, 40, 32, 24, 16, 8, 0].map
      (fun shift => ((n >>> shift) &&& 0xFF).toUInt8)) = n := by
  have h64 : n >>> (56 + 8) = 0 := Nat.shiftRight_eq_zero n 64 hn
  have h56 := register_step hn 56
  rw [h64] at h56
  simp only [lengthRegister, List.map_cons, List.map_nil, List.foldl_cons, List.foldl_nil]
  rw [h56, register_step hn 48, register_step hn 40, register_step hn 32, register_step hn 24,
    register_step hn 16, register_step hn 8]
  exact register_step hn 0

theorem range_map_byteAt (head key rest : QByteArray) :
    (List.range key.length).map (fun i => byteAt (head ++ (key ++ rest)) (head.length + i)) =
      key := by
  apply List.ext_getElem
  · rw [List.length_map, List.length_range]
  · intro i hi hi'
    rw [List.getElem_map, List.getElem_range]
    simp only [byteAt, List.getD_eq_getElem?_getD, List.getElem?_append_right (Nat.le_add_right ..),
      Nat.add_sub_cancel_left, List.getElem?_append_left hi', List.getElem?_eq_getElem hi',
      Option.getD_some]

theorem lengthField_seven (h : (b1 &&& 0x7F).toNat = len) (hlen : len < 126) (limit : Nat)
    (b0 : UInt8) (rest : QByteArray) :
    lengthField limit (b0 :: b1 :: rest) = .unit len 2 := by
  have h1 : (byteAt (b0 :: b1 :: rest) 1 &&& 0x7F).toNat = len := h
  simp only [lengthField, List.length_cons, h1]
  rw [if_neg (by omega), if_neg (by omega), if_neg (by omega)]

theorem lengthField_sixteen (h : (b1 &&& 0x7F).toNat = 126) (limit : Nat) (b0 c d : UInt8)
    (rest : QByteArray) :
    lengthField limit (b0 :: b1 :: c :: d :: rest) = .unit (c.toNat * 256 + d.toNat) 4 := by
  have h1 : (byteAt (b0 :: b1 :: c :: d :: rest) 1 &&& 0x7F).toNat = 126 := h
  simp only [lengthField, List.length_cons, h1, ↓reduceIte]
  rw [if_neg (by omega), if_neg (by omega), ← shiftLeft_or_eq _ d.toNat_lt]
  rfl

theorem lengthField_sixtyfour {len limit : Nat} (h : (b1 &&& 0x7F).toNat = 127)
    (hb : bytes.length = 8) (hv : signed64 (lengthRegister bytes) = len) (hlen : len ≤ limit)
    (b0 : UInt8) (rest : QByteArray) :
    lengthField limit (b0 :: b1 :: (bytes ++ rest)) = .unit len 10 := by
  have h1 : (byteAt (b0 :: b1 :: (bytes ++ rest)) 1 &&& 0x7F).toNat = 127 := h
  have hr := range_map_byteAt [b0, b1] bytes rest
  rw [hb] at hr
  simp only [List.cons_append, List.nil_append, List.length_cons, List.length_nil,
    Nat.zero_add, Nat.reduceAdd] at hr
  simp only [lengthField, List.length_cons, List.length_append, hb, h1, hr, hv,
    Nat.reduceEqDiff, ↓reduceIte, Int.toNat_natCast]
  rw [if_neg (by omega), if_neg (by omega), if_neg (by omega)]

theorem lengthField_frameHead (b0 : UInt8) (masked : Bool) (hlen : len ≤ limit)
    (hlimit : limit < 2 ^ 63) (rest : QByteArray) :
    lengthField limit (frameHead b0 (if masked then 0x80 else 0x00) len ++ rest) =
      .unit len (frameHead b0 (if masked then 0x80 else 0x00) len).length := by
  simp only [frameHead]
  by_cases h6 : len < 126
  · rw [if_pos h6]
    exact lengthField_seven (maskBit_or masked (by omega)).1 h6 limit b0 rest
  · rw [if_neg h6]
    by_cases h16 : len ≤ 0xFFFF
    · have hv : len >>> 8 % 256 * 256 + len % 256 = len := by
        rw [Nat.shiftRight_eq_div_pow]
        omega
      have h := lengthField_sixteen (maskBit_or masked (n := 126) (by omega)).1 limit b0
        ((len >>> 8) &&& 0xFF).toUInt8 (len &&& 0xFF).toUInt8 rest
      rw [toNat_low_byte, toNat_low_byte, hv] at h
      rw [if_pos h16]
      exact h
    · rw [if_neg h16]
      apply lengthField_sixtyfour (maskBit_or masked (n := 127) (by omega)).1 rfl ?_ hlen
      rw [lengthRegister_bytes (by omega), signed64, if_pos (by omega)]

theorem frameHead_bytes (b0 : UInt8) (masked : Bool) (len : Nat) (rest : QByteArray) :
    byteAt (frameHead b0 (if masked then 0x80 else 0x00) len ++ rest) 0 = b0 ∧
      (byteAt (frameHead b0 (if masked then 0x80 else 0x00) len ++ rest) 1 &&& 0x80 != 0) =
        masked := by
  simp only [frameHead]
  by_cases h6 : len < 126
  · rw [if_pos h6]
    exact ⟨rfl, (maskBit_or masked (by omega)).2⟩
  · rw [if_neg h6]
    by_cases h16 : len ≤ 0xFFFF
    · rw [if_pos h16]
      exact ⟨rfl, (maskBit_or masked (n := 126) (by omega)).2⟩
    · rw [if_neg h16]
      exact ⟨rfl, (maskBit_or masked (n := 127) (by omega)).2⟩

/-- What follows the head: the key, if there is one, and the payload. -/
def maskedPart (mask : Option (Fin 4 → UInt8)) (payload : QByteArray) : QByteArray :=
  match mask with
  | some m => List.ofFn m ++ xorMask (List.ofFn m) payload
  | none => payload

theorem wsEncodeFrame_eq (opcode : UInt8) (fin rsv1 : Bool) (payload : QByteArray)
    (mask : Option (Fin 4 → UInt8)) :
    wsEncodeFrame opcode fin rsv1 payload mask =
      frameHead ((if fin then 0x80 else 0x00) ||| (if rsv1 then 0x40 else 0x00) |||
        (opcode &&& 0x0F)) (if mask.isSome then 0x80 else 0x00) payload.length ++
        maskedPart mask payload := by
  cases mask with
  | none => rfl
  | some m => exact List.append_assoc ..

def encodedFrame (opcode : UInt8) (fin rsv1 : Bool) (payload : QByteArray) : WsFrame :=
  { opcode := opcode &&& 0x0F, fin, rsv1, payload }

theorem payloadStart_encoded (hb : (b1 &&& 0x80 != 0) = Option.isSome mask) (offset : Nat)
    (payload : QByteArray) :
    payloadStart b1 offset + payload.length = offset + (maskedPart mask payload).length := by
  rw [payloadStart, hb]
  cases mask with
  | none => rfl
  | some m =>
    simp only [maskedPart, Option.isSome_some, ↓reduceIte, List.length_append, List.length_ofFn,
      xorMask_length]
    omega

theorem bodyFrame_encoded (b0 : UInt8) (head : QByteArray) (mask : Option (Fin 4 → UInt8))
    (payload tail : QByteArray) (hb : (b1 &&& 0x80 != 0) = mask.isSome) :
    (bodyFrame (head ++ (maskedPart mask payload ++ tail)) b0 b1 payload.length
      head.length).payload = payload := by
  simp only [bodyFrame, payloadStart, hb]
  cases mask with
  | none =>
    simp only [Option.isSome_none, Bool.false_eq_true, ↓reduceIte, maskedPart]
    rw [List.drop_left, List.take_left]
  | some m =>
    have hk := range_map_byteAt head (List.ofFn m) (xorMask (List.ofFn m) payload ++ tail)
    have hd : (head ++ (List.ofFn m ++ (xorMask (List.ofFn m) payload ++ tail))).drop
        (head.length + 4) = xorMask (List.ofFn m) payload ++ tail := by
      rw [← List.append_assoc]
      exact List.drop_left' (by simp)
    rw [List.length_ofFn] at hk
    simp only [Option.isSome_some, ↓reduceIte, maskedPart, List.append_assoc, hk, hd]
    rw [List.take_left' (xorMask_length ..), xorMask_xorMask]

theorem tryParseOne_encode (opcode : UInt8) (fin rsv1 : Bool)
    (mask : Option (Fin 4 → UInt8)) (hp : payload.length ≤ kMaxFramePayload)
    (tail : QByteArray) :
    tryParseOne (wsEncodeFrame opcode fin rsv1 payload mask ++ tail) 0 =
      .unit (encodedFrame opcode fin rsv1 payload)
        (wsEncodeFrame opcode fin rsv1 payload mask).length := by
  obtain ⟨ho, hf, hr⟩ := firstByte_fields opcode fin rsv1
  rw [wsEncodeFrame_eq, List.append_assoc]
  generalize he : ((if fin then 0x80 else 0x00) ||| (if rsv1 then 0x40 else 0x00) |||
    (opcode &&& 0x0F) : UInt8) = b0 at ho hf hr ⊢
  obtain ⟨h0, h1⟩ := frameHead_bytes b0 mask.isSome payload.length
    (maskedPart mask payload ++ tail)
  have hl := lengthField_frameHead b0 mask.isSome hp (by decide) (maskedPart mask payload ++ tail)
  generalize frameHead b0 (if mask.isSome then 0x80 else 0x00) payload.length = head at h0 h1 hl ⊢
  have hs := payloadStart_encoded h1 head.length payload
  have hb := bodyFrame_encoded b0 head mask payload tail h1
  rw [tryParseOne_eq, hl]
  simp only [h0, parseBody_eq, hs, List.length_append]
  rw [if_neg (by omega)]
  have hframe : bodyFrame (head ++ (maskedPart mask payload ++ tail)) b0
      (byteAt (head ++ (maskedPart mask payload ++ tail)) 1) payload.length head.length =
      { opcode := b0 &&& 0x0F, fin := b0 &&& 0x80 != 0, rsv1 := b0 &&& 0x40 != 0,
        payload := (bodyFrame (head ++ (maskedPart mask payload ++ tail)) b0
          (byteAt (head ++ (maskedPart mask payload ++ tail)) 1) payload.length
            head.length).payload } := rfl
  rw [hframe, hb, ho, hf, hr]
  rfl

theorem feed_encoded_frame (opcode : UInt8) (fin rsv1 : Bool) (payload : QByteArray)
    (mask : Option (Fin 4 → UInt8)) (tail : QByteArray)
    (hp : payload.length ≤ kMaxFramePayload)
    (hcap : (wsEncodeFrame opcode fin rsv1 payload mask ++ tail).length ≤ kMaxBufferBytes) :
    WsFrameParser.feed {} (wsEncodeFrame opcode fin rsv1 payload mask ++ tail) =
      (encodedFrame opcode fin rsv1 payload :: (WsFrameParser.feed {} tail).1,
        (WsFrameParser.feed {} tail).2) := by
  have ht : tail.length ≤ kMaxBufferBytes := by
    rw [List.length_append] at hcap
    omega
  have hu := Decoder.drain_unit (D := wsDecoder)
    (tryParseOne_encode opcode fin rsv1 mask hp tail)
  rw [List.drop_left] at hu
  rw [feed_eq_drain (by simpa using hcap), feed_eq_drain (by simpa using ht), List.nil_append,
    List.nil_append, hu]

theorem feed_masked_frame :
    WsFrameParser.feed {} (wsEncodeFrame 1 true false [0x68, 0x69] (some (fun i => i.val.toUInt8))
      ++ [0x8A]) = ([{ opcode := 1, payload := [0x68, 0x69] }], ⟨[0x8A], false⟩) :=
  (feed_encoded_frame 1 true false [0x68, 0x69] (some (fun i => i.val.toUInt8)) [0x8A]
    (by decide) (by decide)).trans (by decide)

/-- A chunk past the buffer cap makes the parser give up at once. -/
theorem feed_oversized_chunk :
    ¬ ∀ (opcode : UInt8) (fin rsv1 : Bool) (payload : QByteArray)
      (mask : Option (Fin 4 → UInt8)) (tail : QByteArray), payload.length ≤ kMaxFramePayload →
      (WsFrameParser.feed {} (wsEncodeFrame opcode fin rsv1 payload mask ++ tail)).1.head? =
        some (encodedFrame opcode fin rsv1 payload) := by
  intro h
  have h' := h 1 true false [] none (List.replicate kMaxBufferBytes 0) (Nat.zero_le _)
  have hl : ((wsEncodeFrame 1 true false [] none ++
      List.replicate kMaxBufferBytes (0 : UInt8)).length : Int) >
      (kMaxBufferBytes : Int) - (([] : QByteArray).length : Int) := by
    rw [List.length_append, List.length_replicate]
    have he : (wsEncodeFrame 1 true false [] none).length = 2 := rfl
    simp only [he, List.length_nil]
    omega
  simp only [WsFrameParser.feed, Bool.false_eq_true, ↓reduceIte, if_pos hl] at h'
  cases h'

structure SentFrame where
  opcode : UInt8
  fin : Bool
  rsv1 : Bool
  payload : QByteArray
  mask : Option (Fin 4 → UInt8)

def SentFrame.bytes (f : SentFrame) : QByteArray :=
  wsEncodeFrame f.opcode f.fin f.rsv1 f.payload f.mask

def SentFrame.frame (f : SentFrame) : WsFrame := encodedFrame f.opcode f.fin f.rsv1 f.payload

theorem length_frameHead (b0 maskBit : UInt8) (len : Nat) :
    (frameHead b0 maskBit len).length ≤ 10 := by
  rw [frameHead]
  split
  · exact Nat.le_of_ble_eq_true rfl
  · split <;> exact Nat.le_of_ble_eq_true rfl

theorem SentFrame.length_bytes (f : SentFrame) : f.bytes.length ≤ f.payload.length + 14 := by
  have hmasked : (maskedPart f.mask f.payload).length ≤ f.payload.length + 4 := by
    cases f.mask with
    | none => exact Nat.le_add_right _ 4
    | some m =>
      rw [maskedPart, List.length_append, List.length_ofFn, xorMask_length, Nat.add_comm]
  rw [SentFrame.bytes, wsEncodeFrame_eq, List.length_append, Nat.add_comm]
  exact (Nat.add_le_add hmasked (length_frameHead _ _ _)).trans (Nat.le_refl _)

theorem feedAll_stream {frames : List SentFrame}
    (hframes : ∀ f ∈ frames, f.payload.length ≤ kMaxFramePayload) {buf : QByteArray}
    {pieces : List QByteArray} (hstream : buf ++ pieces.flatten = frames.flatMap SentFrame.bytes)
    (hbuf : Unfinished SentFrame.bytes buf frames)
    (hpieces : ∀ piece ∈ pieces, piece.length + 13 ≤ kMaxFramePayload) :
    WsFrameParser.feedAll ⟨buf, false⟩ pieces = (frames.map SentFrame.frame, {}) := by
  induction pieces generalizing frames buf with
  | nil =>
    rw [List.flatten_nil, List.append_nil] at hstream
    cases frames with
    | nil =>
      rw [hstream]
      rfl
    | cons f frames =>
      rw [Unfinished, hstream, List.flatMap_cons, List.length_append] at hbuf
      omega
  | cons piece pieces ih =>
    rw [List.forall_mem_cons] at hpieces
    rw [List.flatten_cons, ← List.append_assoc] at hstream
    have hcap : buf.length + piece.length ≤ kMaxBufferBytes := by
      rw [kMaxBufferBytes]
      cases frames with
      | nil =>
        rw [Unfinished] at hbuf
        rw [hbuf, List.length_nil]
        omega
      | cons f frames =>
        rw [Unfinished] at hbuf
        have hsize := f.length_bytes
        have hpayload := hframes f List.mem_cons_self
        omega
    obtain ⟨done, left, rest, rfl, hread, hdrain, hrest⟩ := Decoder.drain_encoded (D := wsDecoder)
      rfl SentFrame.bytes SentFrame.frame (fun f hf tail =>
        tryParseOne_encode f.opcode f.fin f.rsv1 f.mask (hframes f hf) tail) ⟨_, hstream⟩
    have hleft : rest ++ pieces.flatten = left.flatMap SentFrame.bytes := by
      rw [hread, List.flatMap_append, List.append_assoc] at hstream
      exact List.append_cancel_left hstream
    have hnext := ih (fun f hf => hframes f (List.mem_append_right done hf)) hleft hrest hpieces.2
    rw [WsFrameParser.feedAll, feed_eq_drain hcap, hdrain]
    dsimp only [parserOf]
    rw [hnext, List.map_append]

/-- A stream in pieces of less than 16 MiB gives the frames that were sent. -/
theorem stream_round_trip (frames : List SentFrame) (pieces : List QByteArray)
    (hframes : ∀ f ∈ frames, f.payload.length ≤ kMaxFramePayload)
    (hstream : pieces.flatten = frames.flatMap SentFrame.bytes)
    (hpieces : ∀ piece ∈ pieces, piece.length + 13 ≤ kMaxFramePayload) :
    WsFrameParser.feedAll {} pieces = (frames.map SentFrame.frame, {}) := by
  refine feedAll_stream hframes hstream ?_ hpieces
  cases frames with
  | nil => rfl
  | cons f frames =>
    have hunit := tryParseOne_size (tryParseOne_encode f.opcode f.fin f.rsv1 f.mask
      (hframes f List.mem_cons_self) [])
    exact Nat.lt_of_lt_of_le Nat.two_pos hunit.1

theorem stream_in_bytes :
    WsFrameParser.feedAll {} ([0x81, 0x82, 0, 1, 2, 3, 0x48, 0x68, 0x89, 0x00].map ([·])) =
      ([{ opcode := 1, payload := [0x48, 0x69] }, { opcode := 9, payload := [] }], {}) :=
  stream_round_trip [⟨1, true, false, [0x48, 0x69], some (fun i => i.val.toUInt8)⟩,
    ⟨9, true, false, [], none⟩] _ (by decide) (by decide) (by decide)

end Nullock.Proxy

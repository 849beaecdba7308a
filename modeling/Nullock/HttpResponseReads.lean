import Nullock.HttpMessages

namespace Nullock.Proxy
open HttpLogic

section
variable {socket : List QByteArray} {out buffer decoded : QByteArray}

theorem readExactOn_short (h : out.length + socket.flatten.length < n) :
    readExactOn n out socket = none := by
  induction socket generalizing out with
  | nil =>
    rw [List.flatten_nil, List.length_nil] at h
    rw [readExactOn, if_pos (by omega)]
  | cons segment socket ih =>
    rw [List.flatten_cons, List.length_append] at h
    rw [readExactOn, if_pos (by omega), if_pos (by omega)]
    apply ih
    rw [List.length_append]
    omega

theorem readUntilClose_eq (out : QByteArray) (socket : List QByteArray) :
    readUntilClose out socket =
      if (out ++ socket.flatten).length ≤ kMaxCloseDelimitedBytes then some (out ++ socket.flatten)
      else none := by
  induction socket generalizing out with
  | nil => rw [readUntilClose, List.flatten_nil, List.append_nil]
  | cons segment socket ih =>
    rw [readUntilClose, ih, List.flatten_cons, ← List.append_assoc]
    have hlen : (out ++ segment ++ socket.flatten).length =
        (out ++ segment).length + socket.flatten.length := List.length_append
    split_ifs with h1 h2
    · omega
    · rfl
    · rfl
    · rfl

def decodedBody : Verdict × QByteArray × QByteArray → Option QByteArray
  | (.done, _, decoded) => some decoded
  | _ => none

theorem readChunkedBody_eq (buffer decoded : QByteArray) (socket : List QByteArray) :
    (readChunkedBody buffer decoded socket).map Prod.fst =
      decodedBody (availableReader (buffer ++ socket.flatten) decoded) := by
  induction socket generalizing buffer decoded with
  | nil =>
    rw [readChunkedBody, List.flatten_nil, List.append_nil, availableReader]
    cases decodeChunkedAvailable buffer decoded with
    | mk v r =>
      cases v with
      | complete => rfl
      | needMore => rfl
      | error => rfl
  | cons segment socket ih =>
    rw [readChunkedBody, List.flatten_cons, availableReader_append, availableReader]
    cases decodeChunkedAvailable buffer decoded with
    | mk v r =>
      cases v with
      | complete => rfl
      | needMore =>
        dsimp only
        rw [ih, List.append_assoc]
        rfl
      | error => rfl

end

/-- The body taken behind the head; `late` bytes came after it. -/
def bodyOf (headers : List Header) (follow : QByteArray) (late : Nat) : Option QByteArray :=
  if isChunkedTransfer (findHeader headers (utf16 "Transfer-Encoding")) then
    decodedBody (availableReader follow [])
  else if (findHeader headers contentLengthName).isEmpty then
    if late ≤ kMaxCloseDelimitedBytes then some follow else none
  else
    let n := (QString.toLongLong (findHeader headers contentLengthName)).getD 0
    if n < 0 ∨ (kMaxResponseBody : Int) < n then none
    else if n.toNat ≤ follow.length then some (follow.take n.toNat)
    else none

theorem readResponseBody_eq (headers : List Header) (rest : QByteArray) (socket : List QByteArray) :
    (readResponseBody headers rest socket).map Prod.fst =
      bodyOf headers (rest ++ socket.flatten) socket.flatten.length := by
  rw [readResponseBody, bodyOf, contentLengthName]
  dsimp only
  split
  · exact readChunkedBody_eq rest [] socket
  · cases hcl : (findHeader headers (utf16 "Content-Length")).isEmpty with
    | true =>
      simp only [Bool.not_true, Bool.false_eq_true, ↓reduceIte]
      rw [readUntilClose_eq, List.nil_append]
      split_ifs
      · rfl
      · rfl
    | false =>
      simp only [Bool.not_false, ↓reduceIte, Bool.false_eq_true]
      generalize (QString.toLongLong (findHeader headers (utf16 "Content-Length"))).getD 0 = n
      split
      · rfl
      · rename_i hn
        split
        · rename_i hshort
          by_cases hle : n.toNat ≤ (rest ++ socket.flatten).length
          · have hout : ([] : QByteArray).length ≤ n.toNat - rest.length := Nat.zero_le _
            have hin : n.toNat - rest.length ≤
                ([] : QByteArray).length + socket.flatten.length := by
              rw [List.length_append] at hle
              rw [List.length_nil]
              omega
            obtain ⟨left, hread, _⟩ := readExactOn_advances hout hin
            have hrest : rest.take n.toNat = rest := List.take_of_length_le (by omega)
            rw [hread, if_pos hle]
            dsimp only
            rw [List.nil_append, List.length_nil, Nat.sub_zero, List.take_append, hrest]
            rfl
          · rw [if_neg hle, readExactOn_short]
            · rfl
            · rw [List.length_append] at hle
              rw [List.length_nil]
              omega
        · rename_i hlong
          rw [if_pos, List.take_append_of_le_length (by omega)]
          · rfl
          · rw [List.length_append]
            omega

theorem readResponse_head (h : ResponseHead) (hstream : socket.flatten = h.bytes ++ follow)
    (hfit : HeadFits socket 0 h.bytes.length) :
    ∃ k, ReadsHead socket h.bytes.length k ∧ k ≤ (h.bytes ++ follow).length ∧
      (readResponse socket).map Prod.fst =
        if h.fields = [] then none
        else if isBodiless h.status then some (h.response (follow.take (k - h.bytes.length)))
        else if isFramingSafe h.headers false = false then none
        else (bodyOf h.headers follow ((h.bytes ++ follow).length - k)).map h.response := by
  have hblank : indexOf (crlf ++ crlf) ([] ++ socket.flatten) = some h.block.length := by
    rw [List.nil_append, hstream, h.blank]
  have hlen := h.bytes_length
  obtain ⟨k, left, hread, hadv, hcut, hle, hfirst⟩ := readHeaderBlock_fits hblank (by
    intro c hc hover
    have := hfit c hc (by rw [List.length_nil] at hover; omega)
    omega)
  rw [List.length_nil] at hle hfirst
  have hwithin := hadv.within
  rw [hstream] at hwithin
  refine ⟨k, ⟨hcut, by omega, fun c hc hcle => hfirst c hc (by omega)⟩, hwithin, ?_⟩
  have hbuf : [] ++ socket.flatten.take k = h.bytes ++ follow.take (k - h.bytes.length) := by
    rw [List.nil_append, hstream, List.take_append, List.take_of_length_le (by omega)]
  have hsep : indexOf (crlf ++ crlf) (h.bytes ++ follow.take (k - h.bytes.length)) =
      some h.block.length := h.blank _
  have htake : (h.bytes ++ follow.take (k - h.bytes.length)).take h.block.length = h.block := by
    rw [ResponseHead.bytes, List.append_assoc, List.take_left]
  have hdrop : (h.bytes ++ follow.take (k - h.bytes.length)).drop (h.block.length + 4) =
      follow.take (k - h.bytes.length) := by
    rw [← hlen, List.drop_left]
  have hleft : left.flatten = follow.drop (k - h.bytes.length) := by
    rw [hadv.items, hstream, List.drop_append, List.drop_of_length_le (by omega), List.nil_append]
  rw [readResponse, hread, hbuf]
  dsimp only
  rw [hsep, Option.getD_some, htake, hdrop, h.parse_block]
  by_cases hfields : h.fields = []
  · rw [if_pos hfields, if_pos hfields]
    rfl
  · rw [if_neg hfields, if_neg hfields]
    dsimp only [ResponseHead.response]
    split
    · rfl
    · simp only [Bool.not_eq_true']
      split
      · rfl
      · have hbody := readResponseBody_eq h.headers (follow.take (k - h.bytes.length)) left
        rw [hleft, List.take_append_drop, List.length_drop] at hbody
        have hlate : (h.bytes ++ follow).length - k = follow.length - (k - h.bytes.length) := by
          rw [List.length_append] at hwithin ⊢
          omega
        rw [hlate, ← hbody]
        cases readResponseBody h.headers (follow.take (k - h.bytes.length)) left with
        | none => rfl
        | some p => rfl

theorem readResponse_overflow (h : ResponseHead) (hstream : socket.flatten = h.bytes ++ follow)
    (hfit : ¬ HeadFits socket 0 h.bytes.length) : readResponse socket = none := by
  have hblank : indexOf (crlf ++ crlf) ([] ++ socket.flatten) = some h.block.length := by
    rw [List.nil_append, hstream, h.blank]
  have hlen := h.bytes_length
  obtain ⟨c, hc⟩ := not_forall.1 hfit
  obtain ⟨hcut, hc⟩ := Classical.not_imp.1 hc
  obtain ⟨hover, hc⟩ := Classical.not_imp.1 hc
  have hread : readHeaderBlock [] socket = none :=
    readHeaderBlock_overflow hblank hcut (by rw [List.length_nil]; omega)
      (by rw [List.length_nil]; omega)
  rw [readResponse, hread]

end Nullock.Proxy

import Nullock.Transcode

namespace Nullock.QByteArray
open JsonText (hexChar digitValue_hexChar)

section Base64Url

theorem mem_toBase64 (h : c ∈ toBase64 s) : c = 0x3D ∨ ∃ d < 64, c = base64Char d := by
  induction s using toBase64.induct with
  | case1 => cases h
  | case2 a =>
    have ha := a.toNat_lt
    simp only [toBase64, List.mem_cons, List.not_mem_nil, or_false] at h
    rcases h with rfl | rfl | rfl | rfl
    · exact .inr ⟨_, by omega, rfl⟩
    · exact .inr ⟨_, by omega, rfl⟩
    · exact .inl rfl
    · exact .inl rfl
  | case3 a b =>
    have ha := a.toNat_lt
    have hb := b.toNat_lt
    simp only [toBase64, List.mem_cons, List.not_mem_nil, or_false] at h
    rcases h with rfl | rfl | rfl | rfl
    · exact .inr ⟨_, by omega, rfl⟩
    · exact .inr ⟨_, by omega, rfl⟩
    · exact .inr ⟨_, by omega, rfl⟩
    · exact .inl rfl
  | case4 a b c' s ih =>
    have ha := a.toNat_lt
    have hb := b.toNat_lt
    have hc := c'.toNat_lt
    simp only [toBase64, List.mem_cons] at h
    rcases h with rfl | rfl | rfl | rfl | h
    · exact .inr ⟨_, by omega, rfl⟩
    · exact .inr ⟨_, by omega, rfl⟩
    · exact .inr ⟨_, by omega, rfl⟩
    · exact .inr ⟨_, by omega, rfl⟩
    · exact ih h

theorem standardChar_urlChar (h : d < 64) :
    standardChar (urlChar (base64Char d)) = base64Char d := by
  have hall : ∀ d < 64, standardChar (urlChar (base64Char d)) = base64Char d := by decide
  exact hall d h

theorem base64Char_print (h : d < 64) :
    base64Char d ≠ 0x3D ∧ (0x21 ≤ base64Char d ∧ base64Char d < 0x7F) ∧
      0x21 ≤ urlChar (base64Char d) ∧ urlChar (base64Char d) < 0x7F := by
  have hall : ∀ d < 64, base64Char d ≠ 0x3D ∧ (0x21 ≤ base64Char d ∧ base64Char d < 0x7F) ∧
      0x21 ≤ urlChar (base64Char d) ∧ urlChar (base64Char d) < 0x7F := by decide
  exact hall d h

theorem mem_digits (h : c ∈ (toBase64 s).filter (fun c => c != 0x3D)) :
    ∃ d < 64, c = base64Char d := by
  obtain ⟨hc, hne⟩ := List.mem_filter.1 h
  rcases mem_toBase64 hc with rfl | hd
  · cases hne
  · exact hd

theorem isBase64_digits (h : ∀ c ∈ s, ∃ d < 64, c = base64Char d) (size : Nat) :
    isBase64 size s = true := by
  induction s with
  | nil => rfl
  | cons c s ih =>
    obtain ⟨d, hd, rfl⟩ := h c List.mem_cons_self
    rw [isBase64_digit hd]
    exact ih (fun e he => h e (List.mem_cons_of_mem _ he))

theorem fromBase64From_filter (buf nbits : Nat) (s : QByteArray) :
    fromBase64From buf nbits (s.filter (fun c => c != 0x3D)) = fromBase64From buf nbits s := by
  induction s generalizing buf nbits with
  | nil => rfl
  | cons c s ih =>
    by_cases hc : c = 0x3D
    · rw [hc, List.filter_cons_of_neg (by decide), ih, fromBase64From]
      rfl
    · have hkept : (c :: s).filter (fun c => c != 0x3D) = c :: s.filter (fun c => c != 0x3D) :=
        List.filter_cons_of_pos (bne_iff_ne.2 hc)
      rw [hkept, fromBase64From, fromBase64From]
      cases base64Digit c with
      | none => exact ih buf nbits
      | some d =>
        dsimp only
        rw [ih, ih]

theorem fromBase64UrlEncoding_toBase64Url (s : QByteArray) :
    fromBase64UrlEncoding (toBase64Url s) = some s := by
  have hback : (toBase64Url s).map standardChar = (toBase64 s).filter (fun c => c != 0x3D) := by
    rw [toBase64Url, List.map_map]
    refine (List.map_congr_left fun c hc => ?_).trans (List.map_id _)
    obtain ⟨d, hd, rfl⟩ := mem_digits hc
    exact standardChar_urlChar hd
  rw [fromBase64UrlEncoding, hback, fromBase64Encoding, isBase64_digits (fun c hc => mem_digits hc),
    if_pos rfl, fromBase64, fromBase64From_filter, ← fromBase64, fromBase64_toBase64]

def IsVisible (s : QByteArray) : Prop := ∀ c ∈ s, 0x21 ≤ c ∧ c < 0x7F

theorem toBase64_visible (s : QByteArray) : IsVisible (toBase64 s) := by
  intro c hc
  rcases mem_toBase64 hc with rfl | ⟨d, hd, rfl⟩
  · decide
  · exact (base64Char_print hd).2.1

theorem toBase64Url_visible (s : QByteArray) : IsVisible (toBase64Url s) := by
  intro c hc
  obtain ⟨b, hb, rfl⟩ := List.mem_map.1 hc
  obtain ⟨d, hd, rfl⟩ := mem_digits hb
  exact (base64Char_print hd).2.2

end Base64Url

section Percent

theorem hexDigits_digit (h : d < 16) :
    ∃ a, (Proxy.hexDigits.drop d).take 1 = [a] ∧ a < 0x80 ∧ hexValue a = d := by
  have hall : ∀ d < 16, (Proxy.hexDigits.drop d).take 1 = [Proxy.hexDigits.getD d 0] ∧
      Proxy.hexDigits.getD d 0 < 0x80 ∧ hexValue (Proxy.hexDigits.getD d 0) = d := by decide
  exact ⟨_, hall d h⟩

theorem isUnreserved_ascii (h : Proxy.isUnreserved c = true) : c ≠ 0x25 ∧ c < 0x80 := by
  have hword (u : UInt16) (hu : c.toUInt16 ≤ u) (hlt : u < 0x80) : c < 0x80 := by
    have hc := UInt16.lt_iff_toNat_lt.1 (UInt16.lt_of_le_of_lt hu hlt)
    rw [UInt8.toNat_toUInt16] at hc
    exact UInt8.lt_iff_toNat_lt.2 hc
  refine ⟨?_, ?_⟩
  · rintro rfl
    exact absurd h (by decide)
  · simp only [Proxy.isUnreserved, SessionRulesLogic.isWordChar, isDigit, Bool.or_eq_true,
      Bool.and_eq_true, decide_eq_true_eq, beq_iff_eq] at h
    rcases h with (((((⟨-, hu⟩ | ⟨-, hu⟩) | ⟨-, hu⟩) | hu) | rfl) | rfl) | rfl
    · exact hword _ hu (by decide)
    · exact hword _ hu (by decide)
    · exact hword _ hu (by decide)
    · exact hword 0x5F (UInt16.le_of_eq hu) (by decide)
    · decide
    · decide
    · decide

theorem percentByte_cases (c : UInt8) :
    (Proxy.percentByte c = [c] ∧ c ≠ 0x25 ∧ c < 0x80) ∨
      ∃ a b, Proxy.percentByte c = [0x25, a, b] ∧ a < 0x80 ∧ b < 0x80 ∧
        (hexValue a * 16 ||| hexValue b).toUInt8 = c := by
  rw [Proxy.percentByte]
  split
  · rename_i hc
    exact .inl ⟨rfl, isUnreserved_ascii hc⟩
  · have hlt := c.toNat_lt
    obtain ⟨a, ha, haascii, hvalue⟩ := hexDigits_digit (d := c.toNat / 16) (by omega)
    obtain ⟨b, hb, hbascii, hvalue'⟩ := hexDigits_digit (d := c.toNat % 16) (by omega)
    refine .inr ⟨a, b, by rw [ha, hb]; rfl, haascii, hbascii, ?_⟩
    have hor : c.toNat / 16 * 16 ||| c.toNat % 16 = c.toNat := by
      rw [show c.toNat / 16 * 16 = 2 ^ 4 * (c.toNat / 16) by omega,
        ← Nat.two_pow_add_eq_or_of_lt (by omega)]
      omega
    rw [hvalue, hvalue', hor]
    exact UInt8.ofNat_toNat

theorem fromPercentEncoding_byte (c : UInt8) (s : QByteArray) :
    fromPercentEncodingFrom 0 (Proxy.percentByte c ++ s) = c :: fromPercentEncodingFrom 0 s := by
  rcases percentByte_cases c with ⟨hone, hne, -⟩ | ⟨a, b, hthree, -, -, hvalue⟩
  · rw [hone, List.singleton_append, fromPercentEncodingFrom.eq_def]
    dsimp only
    rw [beq_eq_false_iff_ne.2 hne]
  · rw [hthree]
    simp only [List.cons_append, List.nil_append, fromPercentEncodingFrom, beq_self_eq_true,
      hvalue]

theorem fromPercentEncoding_toPercentEncoding (s : QByteArray) :
    fromPercentEncoding (toPercentEncoding s) = s := by
  rw [fromPercentEncoding, toPercentEncoding]
  induction s with
  | nil => rfl
  | cons c s ih => rw [List.flatMap_cons, fromPercentEncoding_byte, ih]

theorem toPercentEncoding_ascii (s : QByteArray) : ∀ c ∈ toPercentEncoding s, c < 0x80 := by
  intro c hc
  obtain ⟨b, -, hb⟩ := List.mem_flatMap.1 hc
  rcases percentByte_cases b with ⟨hone, -, hascii⟩ | ⟨x, y, hthree, hx, hy, -⟩
  · rw [hone] at hb
    rw [List.mem_singleton.1 hb]
    exact hascii
  · rw [hthree] at hb
    simp only [List.mem_cons, List.not_mem_nil, or_false] at hb
    rcases hb with rfl | rfl | rfl
    · decide
    · exact hx
    · exact hy

end Percent

section Hex

theorem hexChar_visible (h : d < 16) :
    (hexChar d).toUInt8.toUInt16 = hexChar d ∧ 0x21 ≤ (hexChar d).toUInt8 ∧
      (hexChar d).toUInt8 < 0x7F := by
  have hall : ∀ d < 16, (hexChar d).toUInt8.toUInt16 = hexChar d ∧ 0x21 ≤ (hexChar d).toUInt8 ∧
      (hexChar d).toUInt8 < 0x7F := by decide
  exact hall d h

theorem filterMap_hexPair (c : UInt8) :
    (hexPair c).filterMap (fun c => digitValue c.toUInt16) = [c.toNat / 16, c.toNat % 16] := by
  have hc := c.toNat_lt
  have hhigh : c.toNat / 16 < 16 := by omega
  have hlow : c.toNat % 16 < 16 := by omega
  simp only [hexPair, List.filterMap_cons, List.filterMap_nil, (hexChar_visible hhigh).1,
    (hexChar_visible hlow).1, digitValue_hexChar hhigh, digitValue_hexChar hlow]

theorem length_flatMap_pair {f : α → List β} (h : ∀ x, (f x).length = 2) (s : List α) :
    (s.flatMap f).length = 2 * s.length := by
  induction s with
  | nil => rfl
  | cons x s ih =>
    rw [List.flatMap_cons, List.length_append, h, ih, List.length_cons]
    omega

theorem fromHex_toHex (s : QByteArray) : fromHex (toHex s) = s := by
  have hdigits : (toHex s).filterMap (fun c => digitValue c.toUInt16) =
      s.flatMap (fun c => [c.toNat / 16, c.toNat % 16]) := by
    rw [toHex]
    induction s with
    | nil => rfl
    | cons c s ih =>
      rw [List.flatMap_cons, List.filterMap_append, filterMap_hexPair, ih, List.flatMap_cons]
  have heven : (s.flatMap (fun c => [c.toNat / 16, c.toNat % 16])).length % 2 = 0 := by
    rw [length_flatMap_pair (fun _ => rfl), Nat.mul_mod_right]
  rw [fromHex, hdigits, if_pos heven]
  clear hdigits heven
  induction s with
  | nil => rfl
  | cons c s ih =>
    have hvalue : c.toNat / 16 * 16 + c.toNat % 16 = c.toNat := Nat.div_add_mod' _ _
    rw [List.flatMap_cons, List.cons_append, List.cons_append, List.nil_append, hexPairs, ih,
      hvalue]
    exact congrArg (· :: s) UInt8.ofNat_toNat

theorem toHex_length (s : QByteArray) : (toHex s).length = 2 * s.length :=
  length_flatMap_pair (fun _ => rfl) s

theorem toHex_digit (h : c ∈ toHex s) : (digitValue c.toUInt16).isNone = false := by
  obtain ⟨b, -, hb⟩ := List.mem_flatMap.1 h
  have hlt := b.toNat_lt
  have hdigit (d : Nat) (hd : d < 16) :
      (digitValue (hexChar d).toUInt8.toUInt16).isNone = false := by
    rw [(hexChar_visible hd).1, digitValue_hexChar hd]
    rfl
  simp only [hexPair, List.mem_cons, List.not_mem_nil, or_false] at hb
  rcases hb with rfl | rfl
  · exact hdigit _ (by omega)
  · exact hdigit _ (by omega)

theorem toHex_visible (s : QByteArray) : IsVisible (toHex s) := by
  intro c hc
  obtain ⟨b, -, hb⟩ := List.mem_flatMap.1 hc
  have hlt := b.toNat_lt
  simp only [hexPair, List.mem_cons, List.not_mem_nil, or_false] at hb
  rcases hb with rfl | rfl
  · exact (hexChar_visible (by omega)).2
  · exact (hexChar_visible (by omega)).2

end Hex

end Nullock.QByteArray

namespace Nullock.Transcode
open JsonText (hexChar digitValue_hexChar digitsFrom_hexChar)
open QByteArray (IsVisible)

section Bytes

theorem toUtf8_marked (t : QString) : toUtf8 (0xFEFF :: t) = [0xEF, 0xBB, 0xBF] ++ toUtf8 t := by
  have hunit : encodeUnit 0xFEFF (t.map UInt16.toNat) = ([0xEF, 0xBB, 0xBF], 0) := by
    rw [encodeUnit_alone rfl rfl _ []]
    rfl
  exact congrArg (List.map Nat.toUInt8) (encodeUnits_cons hunit)

theorem fromUtf8_kept (h : wellFormed s = true) :
    QString.fromUtf8 (toUtf8 s) = s ↔ s.head? ≠ some 0xFEFF := by
  constructor
  · intro hkept hhead
    obtain ⟨t, rfl⟩ : ∃ t, s = 0xFEFF :: t := by
      cases s with
      | nil => cases hhead
      | cons c t => exact ⟨t, by rw [Option.some.inj hhead]⟩
    have ht : wellFormed t = true := by
      rw [wellFormed, List.map_cons, wellFormedUnits_cons rfl rfl] at h
      exact h
    rw [toUtf8_marked, QString.fromUtf8,
      if_pos (List.isPrefixOf_iff_prefix.2 (List.prefix_append _ _))] at hkept
    have hback : fromUtf8 (([0xEF, 0xBB, 0xBF] ++ toUtf8 t).drop 3) = t := fromUtf8_toUtf8 ht
    rw [hback] at hkept
    exact absurd (congrArg List.length hkept) (by rw [List.length_cons]; omega)
  · intro hhead
    have hback := fromUtf8_toUtf8 h
    rw [QString.fromUtf8, if_neg]
    · exact hback
    · intro hmark
      obtain ⟨t, ht⟩ := List.isPrefixOf_iff_prefix.1 hmark
      rw [← ht, fromUtf8_mark] at hback
      rw [← hback] at hhead
      exact hhead rfl

theorem isSpace_visible (h : 0x21 ≤ c ∧ c < 0x7F) : isSpace (UInt8.toUInt16 c) = false := by
  have hlow : 0x21 ≤ c.toUInt16 := by
    have hc := UInt8.le_iff_toNat_le.1 h.1
    rw [UInt16.le_iff_toNat_le, UInt8.toNat_toUInt16]
    exact hc
  have hhigh : c.toUInt16 < 0x7F := by
    have hc := UInt8.lt_iff_toNat_lt.1 h.2
    rw [UInt16.lt_iff_toNat_lt, UInt8.toNat_toUInt16]
    exact hc
  generalize c.toUInt16 = u at hlow hhigh
  have hbelow (d : UInt16) (hd : d < 0x21) : u ≠ d := fun he => UInt16.not_lt.2 hlow (he ▸ hd)
  have habove (d : UInt16) (hd : 0x7F ≤ d) : u ≠ d := fun he => UInt16.not_lt.2 hd (he ▸ hhigh)
  have hcontrol : (0x09 ≤ u && u ≤ 0x0D) = false := by
    rw [Bool.and_eq_false_iff, decide_eq_false_iff_not, decide_eq_false_iff_not]
    exact .inr (fun hle => UInt16.not_lt.2 hlow (UInt16.lt_of_le_of_lt hle (by decide)))
  have hspaces : (0x2000 ≤ u && u ≤ 0x200A) = false := by
    rw [Bool.and_eq_false_iff, decide_eq_false_iff_not, decide_eq_false_iff_not]
    exact .inl (fun hle => UInt16.not_lt.2 (UInt16.le_trans (by decide) hle) hhigh)
  rw [isSpace, hcontrol, hspaces, beq_eq_false_iff_ne.2 (hbelow 0x20 (by decide)),
    beq_eq_false_iff_ne.2 (habove 0x85 (by decide)),
    beq_eq_false_iff_ne.2 (habove 0xA0 (by decide)),
    beq_eq_false_iff_ne.2 (habove 0x1680 (by decide)),
    beq_eq_false_iff_ne.2 (habove 0x2028 (by decide)),
    beq_eq_false_iff_ne.2 (habove 0x2029 (by decide)),
    beq_eq_false_iff_ne.2 (habove 0x202F (by decide)),
    beq_eq_false_iff_ne.2 (habove 0x205F (by decide)),
    beq_eq_false_iff_ne.2 (habove 0x3000 (by decide))]
  rfl

theorem trimmed_visible (h : IsVisible b) : QString.trimmed (fromLatin1 b) = fromLatin1 b := by
  have hspace : ∀ c ∈ fromLatin1 b, isSpace c = false := by
    intro c hc
    obtain ⟨d, hd, rfl⟩ := List.mem_map.1 hc
    exact isSpace_visible (h d hd)
  exact trimWith_eq_self (fun c hc => hspace c (List.mem_of_mem_head? hc))
    (fun c hc => hspace c (List.mem_of_mem_getLast? hc))

theorem base64Decode_encode (s : QString) (url : Bool) :
    base64Decode (base64Encode s url).output url = okBytes (toUtf8 s) := by
  cases url with
  | false =>
    have hvisible := QByteArray.toBase64_visible (toUtf8 s)
    have hdecoded := QByteArray.fromBase64Encoding_toBase64 (toUtf8 s)
    simp only [base64Decode, base64Encode, ok, Bool.false_eq_true, if_false,
      trimmed_visible hvisible, toLatin1_fromLatin1, hdecoded]
  | true =>
    have hvisible := QByteArray.toBase64Url_visible (toUtf8 s)
    have hdecoded := QByteArray.fromBase64UrlEncoding_toBase64Url (toUtf8 s)
    simp only [base64Decode, base64Encode, ok, if_true, trimmed_visible hvisible,
      toLatin1_fromLatin1, hdecoded]

theorem urlDecode_encode (s : QString) :
    urlDecode (urlEncode s).output = ok (QString.fromUtf8 (toUtf8 s)) := by
  have hascii := toUtf8_fromLatin1 (QByteArray.toPercentEncoding_ascii (toUtf8 s))
  simp only [urlDecode, urlEncode, ok, hascii, QByteArray.fromPercentEncoding_toPercentEncoding]

theorem removeBlanks_visible (h : IsVisible b) : removeBlanks (fromLatin1 b) = fromLatin1 b := by
  apply List.filter_eq_self.2
  intro c hc
  obtain ⟨d, hd, rfl⟩ := List.mem_map.1 hc
  have hspace := isSpace_visible (h d hd)
  have hne (x : UInt16) (hx : isSpace x = true) : (d.toUInt16 != x) = true := by
    rw [bne_iff_ne]
    intro he
    rw [he, hx] at hspace
    cases hspace
  rw [hne 0x20 (by decide), hne 0x0A (by decide), hne 0x09 (by decide), hne 0x0D (by decide)]
  rfl

theorem toUtf8_ne_nil (h : s ≠ []) : toUtf8 s ≠ [] := fun he => h (toUtf8_eq_nil he)

theorem hexDecode_encode (hs : s ≠ []) : hexDecode (hexEncode s).output = okBytes (toUtf8 s) := by
  have hvisible := QByteArray.toHex_visible (toUtf8 s)
  have hnonempty : (fromLatin1 (QByteArray.toHex (toUtf8 s))).isEmpty = false := by
    obtain ⟨c, b, hb⟩ := List.exists_cons_of_ne_nil (toUtf8_ne_nil hs)
    rw [hb]
    rfl
  have heven : (fromLatin1 (QByteArray.toHex (toUtf8 s))).length % 2 = 0 := by
    rw [fromLatin1, List.length_map, QByteArray.toHex_length]
    exact Nat.mul_mod_right _ _
  have hdigits : (fromLatin1 (QByteArray.toHex (toUtf8 s))).any
      (fun c => (digitValue c).isNone) = false := by
    rw [List.any_eq_false]
    intro c hc
    obtain ⟨d, hd, rfl⟩ := List.mem_map.1 hc
    rw [QByteArray.toHex_digit hd]
    exact Bool.false_ne_true
  rw [hexDecode, hexEncode, ok]
  dsimp only
  rw [trimmed_visible hvisible, removeBlanks_visible hvisible, hnonempty,
    if_neg Bool.false_ne_true, if_neg (fun h => h heven), hdigits, Bool.and_false,
    if_neg Bool.false_ne_true, toLatin1_fromLatin1, QByteArray.fromHex_toHex]

end Bytes

section Groups

theorem mem_groups {groups : List QString} (h : c ∈ List.intercalate [0x20] groups) :
    c = 0x20 ∨ ∃ g ∈ groups, c ∈ g := by
  by_contra hnot
  rw [not_or] at hnot
  have hsep : c ∉ ([0x20] : QString) := fun hc => hnot.1 (List.mem_singleton.1 hc)
  exact Proxy.not_mem_intercalate hsep (fun g hg hc => hnot.2 ⟨g, hg, hc⟩) h

theorem splitOn_groups {groups : List QString}
    (h : ∀ g ∈ groups, g ≠ [] ∧ ∀ c ∈ g, isSpace c = false) (hne : groups ≠ []) :
    (((QString.simplified (List.intercalate [0x20] groups)).splitOn 0x20).filter
      (fun part => !part.isEmpty)) = groups := by
  have hfree : ∀ g ∈ groups, 0x20 ∉ g := fun g hg hc => by
    have hspace := (h g hg).2 _ hc
    cases hspace
  have hfilled : groups.filter (fun part => !part.isEmpty) = groups := by
    apply List.filter_eq_self.2
    intro g hg
    rw [List.isEmpty_eq_false_iff.2 (h g hg).1]
    rfl
  have hsame : (List.intercalate [0x20] groups).map (fun c => if isSpace c then 0x20 else c) =
      List.intercalate [0x20] groups := by
    refine (List.map_congr_left fun c hc => ?_).trans (List.map_id _)
    rcases mem_groups hc with rfl | ⟨g, hg, hin⟩
    · rfl
    · rw [(h g hg).2 c hin]
      rfl
  rw [QString.simplified, hsame, List.splitOn_intercalate _ hfree hne, hfilled,
    List.splitOn_intercalate _ hfree hne, hfilled]

theorem isSpace_digit {c : UInt16} (h : 0x30 ≤ c ∧ c ≤ 0x39) : isSpace c = false := by
  have hall : ∀ n : Fin 10, isSpace (UInt16.ofNat (0x30 + n.val)) = false := by decide
  have hlow := UInt16.le_iff_toNat_le.1 h.1
  have hhigh := UInt16.le_iff_toNat_le.1 h.2
  have h0 : (0x30 : UInt16).toNat = 0x30 := rfl
  have h9 : (0x39 : UInt16).toNat = 0x39 := rfl
  have hc := hall ⟨c.toNat - 0x30, by omega⟩
  have hsum : 0x30 + (c.toNat - 0x30) = c.toNat := by omega
  rw [hsum, UInt16.ofNat_toNat] at hc
  exact hc

theorem readULongLong_digits {s : QString} (h : ∀ c ∈ s, 0x30 ≤ c ∧ c ≤ 0x39) (hs : s ≠ [])
    {base : Nat} (hbase : base ≠ 16) : readULongLong base s =
      (digitsFrom base 0 s).bind (fun n => if n < 2 ^ 64 then some n else none) := by
  have htrim : QString.trimmed s = s :=
    trimWith_eq_self (fun c hc => isSpace_digit (h c (List.mem_of_mem_head? hc)))
      (fun c hc => isSpace_digit (h c (List.mem_of_mem_getLast? hc)))
  have hsign (x : UInt16) (hx : x < 0x30) : s.head? ≠ some x := fun he =>
    UInt16.not_lt.2 (h x (List.mem_of_mem_head? he)).1 hx
  rw [readULongLong, htrim]
  dsimp only
  rw [if_neg (hsign 0x2D (by decide)), if_neg (hsign 0x2B (by decide)), if_neg hbase,
    List.isEmpty_eq_false_iff.2 hs]
  rfl

theorem hexChar_octal (h : d < 8) : 0x30 ≤ hexChar d ∧ hexChar d ≤ 0x39 := by
  have hall : ∀ d < 8, 0x30 ≤ hexChar d ∧ hexChar d ≤ 0x39 := by decide
  exact hall d h

theorem octalDigits_chars (c : UInt8) : ∀ d ∈ octalDigits c, 0x30 ≤ d ∧ d ≤ 0x39 := by
  have hc := c.toNat_lt
  intro d hd
  simp only [octalDigits, List.mem_cons, List.not_mem_nil, or_false] at hd
  rcases hd with rfl | rfl | rfl
  · exact hexChar_octal (by omega)
  · exact hexChar_octal (by omega)
  · exact hexChar_octal (by omega)

theorem digitsFrom_octal (h : d < 8) (acc : Nat) (s : QString) :
    digitsFrom 8 acc (hexChar d :: s) = digitsFrom 8 (acc * 8 + d) s := by
  rw [digitsFrom, digitValue_hexChar (Nat.lt_trans h (by decide))]
  exact if_pos h

theorem octalDigits_read (c : UInt8) : QString.toUIntOk 8 (octalDigits c) = some c.toNat := by
  have hc := c.toNat_lt
  have hvalue : ((0 * 8 + c.toNat / 64) * 8 + c.toNat / 8 % 8) * 8 + c.toNat % 8 = c.toNat := by
    omega
  have hdigits : digitsFrom 8 0 (octalDigits c) = some c.toNat := by
    rw [octalDigits, digitsFrom_octal (by omega), digitsFrom_octal (by omega),
      digitsFrom_octal (by omega), hvalue]
    rfl
  rw [QString.toUIntOk, readULongLong_digits (octalDigits_chars c) (List.cons_ne_nil _ _)
    (by decide), hdigits, Option.bind_some, if_pos (by omega), Option.bind_some, if_pos (by omega)]

theorem octalBytes_digits (b : QByteArray) : octalBytes (b.map octalDigits) = .ok b := by
  induction b with
  | nil => rfl
  | cons c b ih =>
    have hc := c.toNat_lt
    rw [List.map_cons, octalBytes, octalDigits_read]
    dsimp only
    rw [if_neg (by omega), ih]
    exact congrArg (fun x => Except.ok (x :: b)) UInt8.ofNat_toNat

theorem octalDecode_encode (hs : s ≠ []) :
    octalDecode (octalEncode s).output = okBytes (toUtf8 s) := by
  have hne : (toUtf8 s).map octalDigits ≠ [] := fun he =>
    toUtf8_ne_nil hs (List.map_eq_nil_iff.1 he)
  have hgroups : ∀ g ∈ (toUtf8 s).map octalDigits, g ≠ [] ∧ ∀ c ∈ g, isSpace c = false := by
    intro g hg
    obtain ⟨c, -, rfl⟩ := List.mem_map.1 hg
    exact ⟨List.cons_ne_nil _ _, fun d hd => isSpace_digit (octalDigits_chars c d hd)⟩
  have hempty : ((toUtf8 s).map octalDigits).isEmpty = false := List.isEmpty_eq_false_iff.2 hne
  simp only [octalDecode, octalEncode, ok, splitOn_groups hgroups hne, hempty,
    Bool.false_eq_true, if_false, octalBytes_digits]

theorem binaryBytes_digits {t : QString} (ht : t ≠ []) (hcount : count + t.length = 8) (v : Nat)
    (s : QString) : binaryBytes count v (t ++ s) =
      (t.foldl (fun v c => v * 2 + (if c = 0x31 then 1 else 0)) v).toUInt8 ::
        binaryBytes 0 0 s := by
  induction t generalizing count v with
  | nil => exact absurd rfl ht
  | cons c t ih =>
    rw [List.length_cons] at hcount
    rw [List.cons_append, binaryBytes, List.foldl_cons]
    cases t with
    | nil =>
      rw [List.length_nil] at hcount
      rw [if_pos (by omega)]
      rfl
    | cons d t =>
      rw [List.length_cons] at hcount
      rw [if_neg (by omega), ih (List.cons_ne_nil d t) (by rw [List.length_cons]; omega)]

theorem binaryDigit_bit (c : UInt8) {i : UInt8} (hi : i < 8) :
    (if (if (c >>> i) &&& 1 = 1 then 0x31 else 0x30 : UInt16) = 0x31 then 1 else 0) =
      c.toNat / 2 ^ i.toNat % 2 := by
  have hbit : ((c >>> i) &&& 1).toNat = c.toNat / 2 ^ i.toNat % 2 := by
    have hmod : i.toNat % 8 = i.toNat := Nat.mod_eq_of_lt (UInt8.lt_iff_toNat_lt.1 hi)
    rw [UInt8.toNat_and, UInt8.toNat_shiftRight, hmod, Nat.shiftRight_eq_div_pow]
    exact Nat.and_one_is_mod _
  rw [← hbit]
  by_cases h : (c >>> i) &&& 1 = 1
  · rw [if_pos h, if_pos rfl, h]
    rfl
  · have hone : ((c >>> i) &&& 1).toNat ≠ 1 := fun he => h (UInt8.toNat_inj.1 he)
    rw [if_neg h, if_neg (by decide)]
    omega

theorem binaryDigits_value (c : UInt8) : ((binaryDigits c).foldl
    (fun v c => v * 2 + (if c = 0x31 then 1 else 0)) 0).toUInt8 = c := by
  have hfirst : 0 * 2 + c.toNat / 2 ^ 7 % 2 = c.toNat / 2 ^ 7 := by
    have hlt := c.toNat_lt
    omega
  -- The bits down to one of them are the number without the bits below it.
  have hnext (k m : Nat) (hm : m = k + 1) :
      c.toNat / 2 ^ m * 2 + c.toNat / 2 ^ k % 2 = c.toNat / 2 ^ k := by
    rw [hm, Nat.pow_succ, ← Nat.div_div_eq_div_mul]
    exact Nat.div_add_mod' _ 2
  have hvalue : (binaryDigits c).foldl (fun v c => v * 2 + (if c = 0x31 then 1 else 0)) 0 =
      c.toNat := by
    rw [binaryDigits, List.foldl_map]
    simp only [List.foldl_cons, List.foldl_nil, binaryDigit_bit c (i := 7) (by decide),
      binaryDigit_bit c (i := 6) (by decide), binaryDigit_bit c (i := 5) (by decide),
      binaryDigit_bit c (i := 4) (by decide), binaryDigit_bit c (i := 3) (by decide),
      binaryDigit_bit c (i := 2) (by decide), binaryDigit_bit c (i := 1) (by decide),
      binaryDigit_bit c (i := 0) (by decide), UInt8.reduceToNat]
    rw [hfirst, hnext 6 7 rfl, hnext 5 6 rfl, hnext 4 5 rfl, hnext 3 4 rfl, hnext 2 3 rfl,
      hnext 1 2 rfl, hnext 0 1 rfl, Nat.pow_zero, Nat.div_one]
  rw [hvalue]
  exact UInt8.ofNat_toNat

theorem binaryBytes_flatMap (b : QByteArray) : binaryBytes 0 0 (b.flatMap binaryDigits) = b := by
  induction b with
  | nil => rfl
  | cons c b ih =>
    have hne : binaryDigits c ≠ [] := List.cons_ne_nil _ _
    have hlength : 0 + (binaryDigits c).length = 8 := rfl
    rw [List.flatMap_cons, binaryBytes_digits hne hlength, binaryDigits_value, ih]

theorem binaryDigits_chars (c : UInt8) : ∀ d ∈ binaryDigits c, d = 0x30 ∨ d = 0x31 := by
  intro d hd
  obtain ⟨i, -, rfl⟩ := List.mem_map.1 hd
  split
  · exact .inr rfl
  · exact .inl rfl

theorem removeBlanks_append (s t : QString) :
    removeBlanks (s ++ t) = removeBlanks s ++ removeBlanks t := List.filter_append ..

theorem removeBlanks_binary (c : UInt8) : removeBlanks (binaryDigits c) = binaryDigits c := by
  apply List.filter_eq_self.2
  intro d hd
  rcases binaryDigits_chars c d hd with rfl | rfl
  · rfl
  · rfl

theorem removeBlanks_groups (b : QByteArray) :
    removeBlanks (List.intercalate [0x20] (b.map binaryDigits)) = b.flatMap binaryDigits := by
  induction b with
  | nil => rfl
  | cons c b ih =>
    cases b with
    | nil =>
      rw [List.map_singleton, List.flatMap_singleton, List.intercalate_singleton,
        removeBlanks_binary]
    | cons d b =>
      rw [List.map_cons] at ih
      rw [List.map_cons, List.map_cons, List.intercalate_cons_cons, removeBlanks_append,
        removeBlanks_append, ih, removeBlanks_binary, List.flatMap_cons]
      exact congrArg (· ++ (d :: b).flatMap binaryDigits) (List.append_nil _)

theorem length_flatMap_binary (b : QByteArray) :
    (b.flatMap binaryDigits).length = 8 * b.length := by
  induction b with
  | nil => rfl
  | cons c b ih =>
    have hlength : (binaryDigits c).length = 8 := rfl
    rw [List.flatMap_cons, List.length_append, hlength, ih, List.length_cons]
    omega

theorem binaryDecode_encode (hs : s ≠ []) :
    binaryDecode (binaryEncode s).output = okBytes (toUtf8 s) := by
  have hempty : ((toUtf8 s).flatMap binaryDigits).isEmpty = false := by
    obtain ⟨c, b, hb⟩ := List.exists_cons_of_ne_nil (toUtf8_ne_nil hs)
    rw [hb]
    rfl
  have hwhole : ((toUtf8 s).flatMap binaryDigits).length % 8 = 0 := by
    rw [length_flatMap_binary]
    exact Nat.mul_mod_right _ _
  have hdigits : ((toUtf8 s).flatMap binaryDigits).any (fun c => c != 0x30 && c != 0x31) =
      false := by
    rw [List.any_eq_false]
    intro d hd
    obtain ⟨c, -, hc⟩ := List.mem_flatMap.1 hd
    rcases binaryDigits_chars c d hc with rfl | rfl
    · decide
    · decide
  rw [binaryDecode, binaryEncode, ok]
  dsimp only
  rw [removeBlanks_groups, hempty, if_neg Bool.false_ne_true, if_neg (fun h => h hwhole), hdigits,
    if_neg Bool.false_ne_true, binaryBytes_flatMap]

end Groups

section Units

theorem rot13_rot13 (s : QString) : rot13 (rot13 s).output = ok s := by
  have hchar (c : UInt16) : rot13Char (rot13Char c) = c := by
    have hlower : ∀ n : Fin 26, rot13Char (rot13Char (UInt16.ofNat (0x61 + n.val))) =
        UInt16.ofNat (0x61 + n.val) := by decide
    have hupper : ∀ n : Fin 26, rot13Char (rot13Char (UInt16.ofNat (0x41 + n.val))) =
        UInt16.ofNat (0x41 + n.val) := by decide
    by_cases ha : 0x61 ≤ c ∧ c ≤ 0x7A
    · have hlow : 0x61 ≤ c.toNat := UInt16.le_iff_toNat_le.1 ha.1
      have hhigh : c.toNat ≤ 0x7A := UInt16.le_iff_toNat_le.1 ha.2
      have hc := hlower ⟨c.toNat - 0x61, by omega⟩
      have hsum : 0x61 + (c.toNat - 0x61) = c.toNat := by omega
      rwa [hsum, UInt16.ofNat_toNat] at hc
    by_cases hA : 0x41 ≤ c ∧ c ≤ 0x5A
    · have hlow : 0x41 ≤ c.toNat := UInt16.le_iff_toNat_le.1 hA.1
      have hhigh : c.toNat ≤ 0x5A := UInt16.le_iff_toNat_le.1 hA.2
      have hc := hupper ⟨c.toNat - 0x41, by omega⟩
      have hsum : 0x41 + (c.toNat - 0x41) = c.toNat := by omega
      rwa [hsum, UInt16.ofNat_toNat] at hc
    · have hself : rot13Char c = c := by rw [rot13Char, if_neg ha, if_neg hA]
      rw [hself, hself]
  rw [rot13, rot13, ok, ok]
  dsimp only
  rw [List.map_map]
  exact congrArg ok ((List.map_congr_left fun c _ => hchar c).trans (List.map_id _))

theorem entityAt_body (h : 0x3B ∉ body) (hlength : 0 < body.length ∧ body.length + 1 ≤ 32)
    (s : QString) :
    entityAt (body ++ 0x3B :: s) = (entity body).map (fun rep => (rep, body.length + 1)) := by
  have hindex : indexOf (utf16 ";") (body ++ 0x3B :: s) = some body.length := indexOf_singleton h s
  rw [entityAt, hindex]
  dsimp only
  rw [if_pos hlength, List.take_left]

theorem htmlDecodeFrom_skip (taken s : QString) :
    htmlDecodeFrom taken.length (taken ++ s) = htmlDecodeFrom 0 s := by
  induction taken with
  | nil => rfl
  | cons c taken ih => exact ih

theorem htmlDecodeFrom_entity (body rep : QString) (h : 0x3B ∉ body)
    (hlength : 0 < body.length ∧ body.length + 1 ≤ 32)
    (hrep : entity body = some rep) (s : QString) :
    htmlDecodeFrom 0 (0x26 :: (body ++ 0x3B :: s)) = rep ++ htmlDecodeFrom 0 s := by
  have hskip := htmlDecodeFrom_skip (body ++ [0x3B]) s
  rw [List.length_append, List.length_singleton, List.append_assoc, List.singleton_append] at hskip
  rw [htmlDecodeFrom, if_pos rfl, entityAt_body h hlength, hrep]
  exact congrArg (rep ++ ·) hskip

theorem htmlDecodeFrom_htmlChar (c : UInt16) (s : QString) :
    htmlDecodeFrom 0 (htmlChar c ++ s) = c :: htmlDecodeFrom 0 s := by
  rw [htmlChar]
  by_cases hamp : c = 0x26
  · rw [if_pos hamp, hamp]
    exact htmlDecodeFrom_entity (utf16 "amp") (utf16 "&") (by decide) (by decide) (by decide) s
  rw [if_neg hamp]
  split
  · rename_i h
    rw [h]
    exact htmlDecodeFrom_entity (utf16 "lt") (utf16 "<") (by decide) (by decide) (by decide) s
  split
  · rename_i h
    rw [h]
    exact htmlDecodeFrom_entity (utf16 "gt") (utf16 ">") (by decide) (by decide) (by decide) s
  split
  · rename_i h
    rw [h]
    exact htmlDecodeFrom_entity (utf16 "quot") (utf16 "\"") (by decide) (by decide) (by decide) s
  split
  · rename_i h
    rw [h]
    exact htmlDecodeFrom_entity (utf16 "#39") (utf16 "'") (by decide) (by decide) (by decide) s
  · rw [List.singleton_append, htmlDecodeFrom, if_neg hamp]

theorem htmlDecode_encode (s : QString) : htmlDecode (htmlEncode s) = ok s := by
  rw [htmlDecode, htmlEncode]
  apply congrArg ok
  induction s with
  | nil => rfl
  | cons c s ih => rw [List.flatMap_cons, htmlDecodeFrom_htmlChar, ih]

inductive HtmlPart : QString → QString → Prop
  | unit (c : UInt16) : HtmlPart [c] [c]
  | entity (body rep : QString) (h : entity body = some rep) :
    HtmlPart (0x26 :: (body ++ [0x3B])) rep

theorem entityAt_some (h : entityAt s = some (rep, len)) : ∃ body rest,
    s = body ++ 0x3B :: rest ∧ len = body.length + 1 ∧ entity body = some rep := by
  rw [entityAt] at h
  split at h
  · cases h
  · rename_i k hindex
    split at h
    · obtain ⟨r, hr, he⟩ := Option.map_eq_some_iff.1 h
      cases he
      obtain ⟨hs, hk⟩ := indexOf_split hindex
      refine ⟨s.take k, s.drop (k + (utf16 ";").length), hs, ?_, hr⟩
      rw [List.length_take_of_le (Nat.le_of_add_right_le hk)]
    · cases h

theorem htmlDecode_parts (s : QString) : ∃ parts : List (QString × QString),
    (∀ p ∈ parts, HtmlPart p.1 p.2) ∧ s = parts.flatMap Prod.fst ∧
      htmlDecodeFrom 0 s = parts.flatMap Prod.snd := by
  induction hn : s.length using Nat.strongRecOn generalizing s with
  | ind n ih =>
    cases s with
    | nil => exact ⟨[], fun p hp => absurd hp List.not_mem_nil, rfl, rfl⟩
    | cons c s =>
      rw [List.length_cons] at hn
      have hunit (hdecoded : htmlDecodeFrom 0 (c :: s) = c :: htmlDecodeFrom 0 s) :
          ∃ parts : List (QString × QString), (∀ p ∈ parts, HtmlPart p.1 p.2) ∧
            c :: s = parts.flatMap Prod.fst ∧
            htmlDecodeFrom 0 (c :: s) = parts.flatMap Prod.snd := by
        obtain ⟨parts, hparts, hs, hout⟩ := ih s.length (by omega) s rfl
        refine ⟨([c], [c]) :: parts, List.forall_mem_cons.2 ⟨.unit c, hparts⟩, ?_, ?_⟩
        · exact congrArg (List.cons c) hs
        · rw [hdecoded, hout]
          rfl
      by_cases hamp : c = 0x26
      · cases hentity : entityAt s with
        | none =>
          apply hunit
          rw [htmlDecodeFrom, if_pos hamp, hentity]
        | some q =>
          obtain ⟨rep, len⟩ := q
          obtain ⟨body, rest, rfl, rfl, hrep⟩ := entityAt_some hentity
          have hskip := htmlDecodeFrom_skip (body ++ [0x3B]) rest
          rw [List.length_append, List.length_singleton, List.append_assoc,
            List.singleton_append] at hskip
          have hshort : rest.length < n := by
            rw [← hn, List.length_append, List.length_cons]
            omega
          obtain ⟨parts, hparts, hs, hout⟩ := ih rest.length hshort rest rfl
          refine ⟨(0x26 :: (body ++ [0x3B]), rep) :: parts,
            List.forall_mem_cons.2 ⟨.entity body rep hrep, hparts⟩, ?_, ?_⟩
          · rw [List.flatMap_cons, ← hs, hamp]
            simp
          · rw [htmlDecodeFrom, if_pos hamp, hentity]
            dsimp only
            rw [hskip, hout]
            rfl
      · apply hunit
        rw [htmlDecodeFrom, if_neg hamp]

end Units

section Escapes

def IsPrintable (c : UInt16) : Prop := 0x20 ≤ c ∧ c < 0x7F

/-- A backslash, the letter and four characters read as a number. -/
def IsEscape (s : QString) : Prop :=
  ∃ h t, s = 0x5C :: 0x75 :: (h ++ t) ∧ h.length = 4 ∧ (∀ c ∈ h, IsPrintable c) ∧
    (QString.toUShortOk 16 h).isSome = true

def NoEscape (s : QString) : Prop := ∀ a b, s = a ++ b → ¬IsEscape b

theorem NoEscape.tail (h : NoEscape (c :: s)) : NoEscape s := fun a b hs =>
  h (c :: a) b (congrArg (List.cons c) hs)

theorem NoEscape.cons (hfront : ¬IsEscape (c :: s)) (h : NoEscape s) : NoEscape (c :: s) := by
  intro a b hs
  cases a with
  | nil =>
    rw [List.nil_append] at hs
    exact hs ▸ hfront
  | cons d a => exact h a b (List.cons.inj hs).2

theorem dropHexPrefix_self (h : s.take 2 ≠ utf16 "0x") (h' : s.take 2 ≠ utf16 "0X") :
    dropHexPrefix s = s := by
  rw [dropHexPrefix, if_neg]
  rintro (he | he)
  · exact h he
  · exact h' he

theorem hexChar_plain (h : d < 16) : isSpace (hexChar d) = false ∧ hexChar d ≠ 0x2D ∧
    hexChar d ≠ 0x2B ∧ hexChar d ≠ 0x78 ∧ hexChar d ≠ 0x58 := by
  have hall : ∀ d < 16, isSpace (hexChar d) = false ∧ hexChar d ≠ 0x2D ∧ hexChar d ≠ 0x2B ∧
      hexChar d ≠ 0x78 ∧ hexChar d ≠ 0x58 := by decide
  exact hall d h

theorem toUShortOk_hex4 (c : UInt16) : QString.toUShortOk 16 (hex4 c) = some c.toNat := by
  have hc := c.toNat_lt
  have hvalue : (((0 * 16 + c.toNat / 4096) * 16 + c.toNat / 256 % 16) * 16 +
      c.toNat / 16 % 16) * 16 + c.toNat % 16 = c.toNat := by omega
  have hfirst := hexChar_plain (d := c.toNat / 4096) (by omega)
  have hsecond := hexChar_plain (d := c.toNat / 256 % 16) (by omega)
  have hlast := hexChar_plain (d := c.toNat % 16) (by omega)
  have hdigits : digitsFrom 16 0 (hex4 c) = some c.toNat := by
    rw [hex4, digitsFrom_hexChar (by omega), digitsFrom_hexChar (by omega),
      digitsFrom_hexChar (by omega), digitsFrom_hexChar (by omega), hvalue]
    rfl
  have htrim : QString.trimmed (hex4 c) = hex4 c := by
    apply trimWith_eq_self
    · intro d hd
      rw [← Option.some.inj hd]
      exact hfirst.1
    · intro d hd
      rw [← Option.some.inj hd]
      exact hlast.1
  have hhead (x : UInt16) (hx : hexChar (c.toNat / 4096) ≠ x) : (hex4 c).head? ≠ some x :=
    fun he => hx (Option.some.inj he)
  have hmarker (x : UInt16) (hx : hexChar (c.toNat / 256 % 16) ≠ x) :
      (hex4 c).take 2 ≠ [0x30, x] := fun he => hx (List.cons.inj (List.cons.inj he).2).1
  have hself : dropHexPrefix (hex4 c) = hex4 c :=
    dropHexPrefix_self (hmarker 0x78 hsecond.2.2.2.1) (hmarker 0x58 hsecond.2.2.2.2)
  have hempty : (hex4 c).isEmpty = false := rfl
  rw [QString.toUShortOk, readULongLong, htrim]
  dsimp only
  rw [if_neg (hhead 0x2D hfirst.2.1), if_neg (hhead 0x2B hfirst.2.2.1), if_pos rfl, hself, hdigits,
    hempty, if_neg Bool.false_ne_true, Option.bind_some, if_pos (by omega), Option.bind_some,
    if_pos (by omega)]

theorem toUShortOk_backslash (h : 0x5C ∈ s) : QString.toUShortOk 16 s = none := by
  have hdrop (t : QString) (x : UInt16) (hx : x ≠ 0x5C) (ht : t.head? = some x)
      (hmem : 0x5C ∈ t) : 0x5C ∈ t.drop 1 := by
    cases t with
    | nil => cases ht
    | cons c t =>
      rcases List.mem_cons.1 hmem with he | hin
      · exact absurd ((Option.some.inj ht).symm.trans he.symm) hx
      · exact hin
  have htrim : 0x5C ∈ QString.trimmed s := mem_trimWith h (by decide)
  have hread (t : QString) (ht : 0x5C ∈ t) : (if (dropHexPrefix t).isEmpty then none
      else (digitsFrom 16 0 (dropHexPrefix t)).bind
        (fun n => if n < 2 ^ 64 then some n else none)) = none := by
    have hmem : 0x5C ∈ dropHexPrefix t := by
      rw [dropHexPrefix]
      split
      · rename_i hmarker
        have hplain : 0x5C ∉ t.take 2 := by
          rcases hmarker with he | he
          · rw [he]
            decide
          · rw [he]
            decide
        rw [← List.take_append_drop 2 t] at ht
        exact (List.mem_append.1 ht).resolve_left hplain
      · exact ht
    rw [digitsFrom_eq_none hmem (by decide), Option.bind_none]
    exact ite_self none
  rw [QString.toUShortOk, readULongLong]
  dsimp only
  split
  · rfl
  · rw [if_pos rfl]
    split
    · rename_i hplus
      rw [hread _ (hdrop _ 0x2B (by decide) hplus htrim)]
      rfl
    · rw [hread _ htrim]
      rfl

theorem unicodeChar_cases (c : UInt16) : (IsPrintable c ∧ unicodeChar c = [c]) ∨
    (¬IsPrintable c ∧ ∃ h, unicodeChar c = 0x5C :: 0x75 :: h ∧ h.length = 4 ∧
      QString.toUShortOk 16 h = some c.toNat) := by
  by_cases hc : 0x20 ≤ c ∧ c < 0x7F
  · exact .inl ⟨hc, if_pos hc⟩
  · exact .inr ⟨hc, _, if_neg hc, rfl, toUShortOk_hex4 c⟩

def escaped (s : QString) : QString := s.flatMap unicodeChar

theorem escaped_printable (hc : IsPrintable c) (s : QString) :
    escaped (c :: s) = c :: escaped s := by
  have hone : unicodeChar c = [c] := if_pos hc
  rw [escaped, List.flatMap_cons, hone]
  rfl

theorem escaped_append (h : ∀ c ∈ a, IsPrintable c) (s : QString) :
    escaped (a ++ s) = a ++ escaped s := by
  induction a with
  | nil => rfl
  | cons c a ih =>
    rw [List.cons_append, escaped_printable (h c List.mem_cons_self),
      ih (fun d hd => h d (List.mem_cons_of_mem c hd)), List.cons_append]

theorem unescapeFrom_skip (taken s : QString) :
    unicodeUnescapeFrom taken.length (taken ++ s) = unicodeUnescapeFrom 0 s := by
  induction taken with
  | nil => rfl
  | cons c taken ih => exact ih

theorem escapeAt_digits (hlength : h.length = 4) (s : QString) :
    escapeAt (0x5C :: 0x75 :: (h ++ s)) = (QString.toUShortOk 16 h).map Nat.toUInt16 := by
  have htake : ((0x5C :: 0x75 :: (h ++ s)).drop 2).take 4 = h := by
    have hleft : (h ++ s).take h.length = h := List.take_left
    rw [hlength] at hleft
    exact hleft
  have hlong : 6 ≤ (0x5C :: 0x75 :: (h ++ s)).length := by
    rw [List.length_cons, List.length_cons, List.length_append]
    omega
  rw [escapeAt, if_pos ⟨rfl, rfl, hlong⟩, htake]

theorem unescapeFrom_digits (hlength : h.length = 4) (hcp : QString.toUShortOk 16 h = some cp)
    (s : QString) : unicodeUnescapeFrom 0 (0x5C :: 0x75 :: (h ++ s)) =
      cp.toUInt16 :: unicodeUnescapeFrom 0 s := by
  have hskip := unescapeFrom_skip (0x75 :: h) s
  rw [List.length_cons, hlength, List.cons_append] at hskip
  rw [unicodeUnescapeFrom, escapeAt_digits hlength, hcp]
  exact congrArg (List.cons cp.toUInt16) hskip

theorem escaped_take {k : Nat} (hk : k ≤ (escaped s).length)
    (h : 0x5C ∉ (escaped s).take k) : ∃ a t, s = a ++ t ∧ a.length = k ∧
      (∀ c ∈ a, IsPrintable c) ∧ (escaped s).take k = a := by
  induction k generalizing s with
  | zero => exact ⟨[], s, rfl, rfl, fun c hc => absurd hc List.not_mem_nil, rfl⟩
  | succ k ih =>
    cases s with
    | nil => exact absurd hk (Nat.not_succ_le_zero k)
    | cons c s =>
      rcases unicodeChar_cases c with ⟨hc, -⟩ | ⟨-, x, hx, -⟩
      · rw [escaped_printable hc, List.length_cons] at hk
        rw [escaped_printable hc, List.take_succ_cons, List.mem_cons, not_or] at h
        obtain ⟨a, t, hs, ha, hall, htake⟩ := ih (Nat.le_of_succ_le_succ hk) h.2
        refine ⟨c :: a, t, congrArg (List.cons c) hs, congrArg Nat.succ ha,
          List.forall_mem_cons.2 ⟨hc, hall⟩, ?_⟩
        rw [escaped_printable hc, List.take_succ_cons, htake]
      · rw [escaped, List.flatMap_cons, hx] at h
        exact absurd List.mem_cons_self h

theorem escapeAt_escaped (hc : IsPrintable c) (h : escapeAt (c :: escaped s) = some cp) :
    ∃ a t, c :: s = 0x5C :: 0x75 :: (a ++ t) ∧ a.length = 4 ∧ (∀ d ∈ a, IsPrintable d) ∧
      (QString.toUShortOk 16 a).map Nat.toUInt16 = some cp := by
  rw [escapeAt] at h
  split at h
  · rename_i hshape
    obtain ⟨hback, hletter, hlong⟩ := hshape
    obtain rfl : c = 0x5C := Option.some.inj hback
    cases s with
    | nil => cases hletter
    | cons d s =>
      rcases unicodeChar_cases d with ⟨hd, -⟩ | ⟨-, x, hx, -⟩
      · rw [escaped_printable hd] at h hletter hlong
        obtain rfl : d = 0x75 := hletter
        rw [List.drop_succ_cons, List.drop_succ_cons, List.drop_zero] at h
        have hnone : 0x5C ∉ (escaped s).take 4 := by
          intro hmem
          rw [toUShortOk_backslash hmem] at h
          cases h
        rw [List.length_cons, List.length_cons] at hlong
        obtain ⟨a, t, rfl, ha, hall, htake⟩ := escaped_take (by omega) hnone
        rw [htake] at h
        exact ⟨a, t, rfl, ha, hall, h⟩
      · rw [escaped, List.flatMap_cons, hx] at hletter
        have hback : (0x5C : UInt16) = 0x75 := hletter
        exact absurd hback (by decide)
  · cases h

theorem unescape_cases (c : UInt16) (s : QString) :
    (¬IsEscape (c :: s) ∧ unicodeUnescapeFrom 0 (escaped (c :: s)) =
      c :: unicodeUnescapeFrom 0 (escaped s)) ∨
    (IsEscape (c :: s) ∧ ∃ a t cp, c :: s = 0x5C :: 0x75 :: (a ++ t) ∧ a.length = 4 ∧
      unicodeUnescapeFrom 0 (escaped (c :: s)) = cp :: unicodeUnescapeFrom 0 (escaped t)) := by
  rcases unicodeChar_cases c with ⟨hc, -⟩ | ⟨hc, x, hx, hlength, hcp⟩
  · cases hescape : escapeAt (c :: escaped s) with
    | none =>
      refine .inl ⟨?_, ?_⟩
      · rintro ⟨a, t, he, ha, hall, hsome⟩
        obtain ⟨rfl, rfl⟩ := List.cons.inj he
        have hletter : IsPrintable 0x75 := ⟨by decide, by decide⟩
        rw [escaped_printable hletter, escaped_append hall, escapeAt_digits ha,
          Option.map_eq_none_iff] at hescape
        rw [hescape] at hsome
        cases hsome
      · rw [escaped_printable hc, unicodeUnescapeFrom, hescape]
    | some cp =>
      obtain ⟨a, t, he, ha, hall, hread⟩ := escapeAt_escaped hc hescape
      obtain ⟨n, hn, rfl⟩ := Option.map_eq_some_iff.1 hread
      refine .inr ⟨⟨a, t, he, ha, hall, by rw [hn]; rfl⟩, a, t, n.toUInt16, he, ha, ?_⟩
      have hback : IsPrintable 0x5C := ⟨by decide, by decide⟩
      have hletter : IsPrintable 0x75 := ⟨by decide, by decide⟩
      rw [he, escaped_printable hback, escaped_printable hletter, escaped_append hall,
        unescapeFrom_digits ha hn]
  · refine .inl ⟨?_, ?_⟩
    · rintro ⟨a, t, he, -⟩
      obtain ⟨rfl, -⟩ := List.cons.inj he
      exact hc ⟨by decide, by decide⟩
    · rw [escaped, List.flatMap_cons, hx, List.cons_append, List.cons_append,
        unescapeFrom_digits hlength hcp]
      exact congrArg (· :: unicodeUnescapeFrom 0 (escaped s)) UInt16.ofNat_toNat

theorem unescape_length (s : QString) :
    (unicodeUnescapeFrom 0 (escaped s)).length ≤ s.length := by
  induction hn : s.length using Nat.strongRecOn generalizing s with
  | ind n ih =>
    cases s with
    | nil => exact Nat.zero_le _
    | cons c s =>
      rcases unescape_cases c s with ⟨-, hout⟩ | ⟨-, a, t, cp, he, ha, hout⟩
      · rw [List.length_cons] at hn
        have hle := ih s.length (by omega) s rfl
        rw [hout, List.length_cons]
        omega
      · have hlength := congrArg List.length he
        rw [hn, List.length_cons, List.length_cons, List.length_append] at hlength
        have hle := ih t.length (by omega) t rfl
        rw [hout, List.length_cons]
        omega

theorem unescape_escaped_iff (s : QString) :
    unicodeUnescapeFrom 0 (escaped s) = s ↔ NoEscape s := by
  constructor
  · intro h
    induction s with
    | nil =>
      rintro a b hab ⟨x, t, rfl, -⟩
      cases a with
      | nil => cases hab
      | cons d a => cases hab
    | cons c s ih =>
      rcases unescape_cases c s with ⟨hfront, hout⟩ | ⟨-, a, t, cp, he, ha, hout⟩
      · rw [hout] at h
        exact NoEscape.cons hfront (ih (List.cons.inj h).2)
      · have hlength := congrArg List.length h
        have hle := unescape_length t
        rw [hout, he] at hlength
        simp only [List.length_cons, List.length_append] at hlength
        omega
  · intro h
    induction s with
    | nil => rfl
    | cons c s ih =>
      rcases unescape_cases c s with ⟨-, hout⟩ | ⟨hescape, -⟩
      · rw [hout, ih h.tail]
      · exact absurd hescape (h [] (c :: s) rfl)

end Escapes

section Pairs
variable (other : QString → QString → Result)

def pairs : List (String × String) :=
  [("base64-encode", "base64-decode"), ("base64url-encode", "base64url-decode"),
    ("url-encode", "url-decode"), ("html-encode", "html-decode"), ("hex-encode", "hex-decode"),
    ("unicode-escape", "unicode-unescape"), ("octal-encode", "octal-decode"),
    ("binary-encode", "binary-decode"), ("rot13", "rot13")]

/-- Both operations succeed, one after the other, and the text is what it was. -/
def Inverts (p : String × String) (s : QString) : Prop :=
  (apply other (utf16 p.1) s).ok = true ∧
    (apply other (utf16 p.2) (apply other (utf16 p.1) s).output).ok = true ∧
    (apply other (utf16 p.2) (apply other (utf16 p.1) s).output).output = s

theorem inverts_iff (p : String × String) (encode decode : QString → Result)
    (hfirst : ∀ s, apply other (utf16 p.1) s = encode s)
    (hsecond : ∀ s, apply other (utf16 p.2) s = decode s)
    (hencode : (encode s).ok = true) (hdecode : decode (encode s).output = r)
    (hok : r.ok = true) : Inverts other p s ↔ r.output = s := by
  rw [Inverts, hfirst, hsecond, hdecode]
  exact ⟨fun h => h.2.2, fun h => ⟨hencode, hok, h⟩⟩

theorem inverts_bytes (hs : s ≠ []) (p : String × String) (hp : p ∈ [
    ("base64-encode", "base64-decode"), ("base64url-encode", "base64url-decode"),
    ("url-encode", "url-decode"), ("hex-encode", "hex-decode"), ("octal-encode", "octal-decode"),
    ("binary-encode", "binary-decode")]) :
    Inverts other p s ↔ QString.fromUtf8 (toUtf8 s) = s := by
  simp only [List.mem_cons, List.not_mem_nil, or_false] at hp
  rcases hp with rfl | rfl | rfl | rfl | rfl | rfl
  · exact inverts_iff other ("base64-encode", "base64-decode") (fun s => base64Encode s false)
      (fun s => base64Decode s false)
      (fun _ => rfl) (fun _ => rfl) rfl (base64Decode_encode s false) rfl
  · exact inverts_iff other ("base64url-encode", "base64url-decode") (fun s => base64Encode s true)
      (fun s => base64Decode s true)
      (fun _ => rfl) (fun _ => rfl) rfl (base64Decode_encode s true) rfl
  · exact inverts_iff other ("url-encode", "url-decode") urlEncode urlDecode
      (fun _ => rfl) (fun _ => rfl) rfl (urlDecode_encode s) rfl
  · exact inverts_iff other ("hex-encode", "hex-decode") hexEncode hexDecode
      (fun _ => rfl) (fun _ => rfl) rfl (hexDecode_encode hs) rfl
  · exact inverts_iff other ("octal-encode", "octal-decode") octalEncode octalDecode
      (fun _ => rfl) (fun _ => rfl) rfl (octalDecode_encode hs) rfl
  · exact inverts_iff other ("binary-encode", "binary-decode") binaryEncode binaryDecode
      (fun _ => rfl) (fun _ => rfl) rfl (binaryDecode_encode hs) rfl

theorem inverts_unicode (s : QString) :
    Inverts other ("unicode-escape", "unicode-unescape") s ↔ NoEscape s :=
  (inverts_iff other ("unicode-escape", "unicode-unescape") unicodeEscape unicodeUnescape
    (fun _ => rfl) (fun _ => rfl) rfl (r := ok (unicodeUnescapeFrom 0 (escaped s))) rfl rfl).trans
    (unescape_escaped_iff s)

theorem inverts_html (s : QString) : Inverts other ("html-encode", "html-decode") s :=
  (inverts_iff other ("html-encode", "html-decode") (fun s => ok (htmlEncode s)) htmlDecode
    (fun _ => rfl) (fun _ => rfl) rfl (htmlDecode_encode s) rfl).2 rfl

theorem inverts_rot13 (s : QString) : Inverts other ("rot13", "rot13") s :=
  (inverts_iff other ("rot13", "rot13") rot13 rot13 (fun _ => rfl) (fun _ => rfl) rfl
    (rot13_rot13 s) rfl).2 rfl

/-- Decoding undoes encoding exactly for texts without a mark or an escape. -/
theorem decoded_exactly :
    (∀ s, s ≠ [] → wellFormed s = true →
      ((∀ p ∈ pairs, Inverts other p s) ↔ s.head? ≠ some 0xFEFF ∧ NoEscape s)) ∧
    ∀ s, ∃ parts : List (QString × QString), (∀ p ∈ parts, HtmlPart p.1 p.2) ∧
      s = parts.flatMap Prod.fst ∧
      (apply other (utf16 "html-decode") s).output = parts.flatMap Prod.snd := by
  refine ⟨fun s hs hw => ⟨?_, ?_⟩, htmlDecode_parts⟩
  · intro hall
    have hbytes := (inverts_bytes other hs ("hex-encode", "hex-decode") (by decide)).1
      (hall _ (by decide))
    exact ⟨(fromUtf8_kept hw).1 hbytes, (inverts_unicode other s).1 (hall _ (by decide))⟩
  · rintro ⟨hmark, hescape⟩
    have hbytes := (fromUtf8_kept hw).2 hmark
    intro p hp
    simp only [pairs, List.mem_cons, List.not_mem_nil, or_false] at hp
    rcases hp with rfl | rfl | rfl | rfl | rfl | rfl | rfl | rfl | rfl
    · exact (inverts_bytes other hs _ (by decide)).2 hbytes
    · exact (inverts_bytes other hs _ (by decide)).2 hbytes
    · exact (inverts_bytes other hs _ (by decide)).2 hbytes
    · exact inverts_html other s
    · exact (inverts_bytes other hs _ (by decide)).2 hbytes
    · exact (inverts_unicode other s).2 hescape
    · exact (inverts_bytes other hs _ (by decide)).2 hbytes
    · exact (inverts_bytes other hs _ (by decide)).2 hbytes
    · exact inverts_rot13 other s

def unknownOperation (op _ : QString) : Result :=
  { ok := false, error := utf16 "unknown operation: " ++ op }

/-- A backslash is not escaped, so an escape that a text spells out is read. -/
theorem spelled_escape_read :
    ¬Inverts unknownOperation ("unicode-escape", "unicode-unescape") (utf16 "\\u0041") ∧
      (apply unknownOperation (utf16 "unicode-unescape")
        (apply unknownOperation (utf16 "unicode-escape") (utf16 "\\u0041")).output).output =
          utf16 "A" ∧
      ¬Inverts unknownOperation ("hex-encode", "hex-decode") [0xFEFF, 0x41] := by
  have hread : (apply unknownOperation (utf16 "unicode-unescape")
      (apply unknownOperation (utf16 "unicode-escape") (utf16 "\\u0041")).output).output =
        utf16 "A" := by decide
  refine ⟨?_, hread, ?_⟩
  · rintro ⟨-, -, hkept⟩
    rw [hread] at hkept
    exact absurd hkept (by decide)
  · intro hkept
    have hbytes := (inverts_bytes _ (List.cons_ne_nil _ _) _ (by decide)).1 hkept
    exact (fromUtf8_kept (by decide)).1 hbytes rfl

end Pairs

end Nullock.Transcode

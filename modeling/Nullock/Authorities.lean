import Nullock.Blocklist
import Nullock.DecimalOrder
import Nullock.ProxyLegs
import Nullock.RewriteBytes

namespace Nullock.Proxy
open HttpLogic (findHeader)
open CertLogic (isHexDigit isIpv6Literal isIpv6Literal_chars isAddressChar)

def isNameChar (c : UInt16) : Bool :=
  c < 0x80 && (isUnreserved c.toUInt8 || (latin1 "!$&'()*+,;=").contains c.toUInt8)

def nameChars : QString → Bool
  | [] => true
  | 0x25 :: s =>
    match s with
    | a :: b :: s => isHexDigit a && isHexDigit b && nameChars s
    | _ => false
  | c :: s => isNameChar c && nameChars s

def IsRegisteredName (s : QString) : Prop := s ≠ [] ∧ nameChars s = true

inductive WrittenHost : QString → QString → Prop where
  | name (h : IsRegisteredName host) : WrittenHost host host
  | literal (h : isIpv6Literal host = true) : WrittenHost (0x5B :: (host ++ [0x5D])) host

def WrittenPort (digits : QString) (port : Nat) : Prop :=
  isNumeral digits = true ∧ digitsValue 0 digits = port ∧ 1 ≤ port ∧ port ≤ 65535

def Destination (target host : QString) (port : Nat) : Prop :=
  ∃ written digits, WrittenHost written host ∧ WrittenPort digits port ∧
    target = written ++ 0x3A :: digits

/-- The destination of a plain request, where the port may be left out. -/
def HostDestination (hostHeader host : QString) (port : Nat) : Prop :=
  Destination hostHeader host port ∨ WrittenHost hostHeader host ∧ port = 80

theorem nameChars_mem (h : nameChars s = true) (hc : c ∈ s) :
    c = 0x25 ∨ isHexDigit c = true ∨ isNameChar c = true := by
  fun_induction nameChars s with
  | case1 => cases hc
  | case2 a b s ih =>
    rw [Bool.and_eq_true, Bool.and_eq_true] at h
    rcases List.mem_cons.1 hc with rfl | hc
    · exact .inl rfl
    · rcases List.mem_cons.1 hc with rfl | hc
      · exact .inr (.inl h.1.1)
      · rcases List.mem_cons.1 hc with rfl | hc
        · exact .inr (.inl h.1.2)
        · exact ih h.2 hc
  | case3 => cases h
  | case4 d s _ ih =>
    rw [Bool.and_eq_true] at h
    rcases List.mem_cons.1 hc with rfl | hc
    · exact .inr (.inr h.1)
    · exact ih h.2 hc

theorem registeredName_plain (h : IsRegisteredName s) : 0x3A ∉ s ∧ 0x5B ∉ s := by
  constructor
  · intro hc
    exact absurd (nameChars_mem h.2 hc) (by decide)
  · intro hc
    exact absurd (nameChars_mem h.2 hc) (by decide)

theorem ipv6Literal_plain (h : isIpv6Literal host = true) : 0x5B ∉ host := by
  intro hc
  exact absurd (isIpv6Literal_chars h _ hc) (by decide)

theorem toUShort_written (h : WrittenPort digits port) : QString.toUShort digits = port := by
  obtain ⟨hn, rfl, hlow, hhigh⟩ := h
  have hlong : digitsValue 0 digits < 2 ^ 63 := by omega
  rw [QString.toUShort, Nullock.toLongLong_numeral hn, if_pos hlong]
  dsimp only
  rw [if_pos (by omega), Int.toNat_natCast]

theorem connectTarget_name (h : IsRegisteredName host) (hp : WrittenPort digits port) :
    connectTarget (host ++ 0x3A :: digits) = some (host, port) := by
  have hi : indexOf (utf16 ":") (host ++ 0x3A :: digits) = some host.length :=
    indexOf_singleton (registeredName_plain h).1 digits
  have hdrop : (host ++ 0x3A :: digits).drop (host.length + 1) = digits := by
    rw [← List.drop_drop, List.drop_left]
    rfl
  rw [connectTarget, hi]
  dsimp only
  rw [if_neg (fun he => h.1 (List.length_eq_zero_iff.1 he)), List.take_left, hdrop,
    toUShort_written hp]

theorem connectTarget_head (h : connectTarget target = some (host, port)) :
    host.head? = target.head? ∧ host ≠ [] := by
  rw [connectTarget] at h
  split at h
  · cases h
  · rename_i colon hi
    split at h
    · cases h
    · rename_i hne
      cases h
      cases colon with
      | zero => exact absurd rfl hne
      | succ colon =>
        cases target with
        | nil =>
          have hle := (indexOf_eq_some_iff.1 hi).2.1
          cases hle
        | cons c target => exact ⟨rfl, List.cons_ne_nil _ _⟩

theorem indexOf_colon_eq_none (h : 0x3A ∉ target) : indexOf (utf16 ":") target = none := by
  apply indexOf_eq_none_iff.2
  intro i _ hp
  exact h (List.mem_of_mem_drop (hp.subset List.mem_cons_self))

theorem connectTarget_eq_none (target : QString) :
    connectTarget target = none ↔ 0x3A ∉ target ∨ target.head? = some 0x3A := by
  rw [connectTarget]
  by_cases hm : 0x3A ∈ target
  · obtain ⟨a, b, rfl, ha⟩ := List.eq_append_cons_of_mem hm
    have hi : indexOf (utf16 ":") (a ++ 0x3A :: b) = some a.length := indexOf_singleton ha b
    rw [hi]
    dsimp only
    cases a with
    | nil => simp
    | cons c a =>
      rw [if_neg (by simp)]
      constructor
      · intro h
        cases h
      · rintro (h | h)
        · exact absurd hm h
        · have hc : (c :: a).head? = some 0x3A := h
          exact absurd (List.mem_of_mem_head? hc) ha
  · rw [indexOf_colon_eq_none hm]
    exact iff_of_true rfl (.inl hm)

theorem Destination.colon (h : Destination target host port) :
    0x3A ∈ target ∧ target.head? ≠ some 0x3A := by
  obtain ⟨written, digits, hw, -, rfl⟩ := h
  refine ⟨List.mem_append_right _ List.mem_cons_self, ?_⟩
  cases hw with
  | name hname =>
    cases host with
    | nil => exact absurd rfl hname.1
    | cons c host =>
      intro hc
      exact (registeredName_plain hname).1 (List.mem_of_mem_head? hc)
  | literal =>
    intro hc
    cases hc

/-- A CONNECT goes where the client asks, or nowhere without a destination. -/
def ConnectsRight (target : QString) : Prop :=
  ∀ host port, connectTarget target = some (host, port) ↔ Destination target host port

theorem connectsRight_iff (target : QString) :
    ConnectsRight target ↔
      (∃ host digits port, IsRegisteredName host ∧ WrittenPort digits port ∧
        target = host ++ 0x3A :: digits) ∨ 0x3A ∉ target ∨ target.head? = some 0x3A := by
  constructor
  · intro h
    cases ht : connectTarget target with
    | none => exact .inr ((connectTarget_eq_none target).1 ht)
    | some p =>
      obtain ⟨host, port⟩ := p
      obtain ⟨written, digits, hw, hport, htarget⟩ := (h host port).1 ht
      cases hw with
      | name hname => exact .inl ⟨host, digits, port, hname, hport, htarget⟩
      | literal hlit =>
        -- what is read begins with the bracket, and the literal holds none
        have hhead := (connectTarget_head ht).1
        rw [htarget] at hhead
        exact absurd (List.mem_of_mem_head? hhead) (ipv6Literal_plain hlit)
  · rintro (⟨name, digits, port, hname, hport, rfl⟩ | hrefused) host' port'
    · rw [connectTarget_name hname hport]
      constructor
      · rintro ⟨⟩
        exact ⟨name, digits, .name hname, hport, rfl⟩
      · rintro ⟨written, digits', hw, hport', he⟩
        cases hw with
        | name hname' =>
          have hread := connectTarget_name hname' hport'
          rw [← he, connectTarget_name hname hport] at hread
          exact hread
        | literal =>
          have hhead : (name ++ 0x3A :: digits).head? = some 0x5B := by
            rw [he]
            rfl
          rw [List.head?_append_of_ne_nil _ hname.1] at hhead
          exact absurd (List.mem_of_mem_head? hhead) (registeredName_plain hname).2
    · rw [(connectTarget_eq_none target).2 hrefused]
      constructor
      · intro h
        cases h
      · intro h
        rcases hrefused with hr | hr
        · exact absurd h.colon.1 hr
        · exact absurd hr h.colon.2

def PathHasNoHost (U : UserUrls) : Prop :=
  ∀ target : QString, target.head? = some 0x2F → U.host (U.fromUserInput target) = []

theorem rewriteHostPort_colon {U : UserUrls} (hurls : PathHasNoHost U) {req : HttpRequest}
    (horigin : req.target.head? = some 0x2F) {colon : Nat}
    (h : indexOf (utf16 ":") (findHeader req.headers (utf16 "Host")) = some colon) :
    (rewriteHostPort U req).host = (findHeader req.headers (utf16 "Host")).take colon ∧
      (rewriteHostPort U req).port =
        QString.toUShort ((findHeader req.headers (utf16 "Host")).drop (colon + 1)) := by
  rw [rewriteHostPort, hurls req.target horigin, List.isEmpty_nil, Bool.not_true, Bool.and_false,
    if_neg Bool.false_ne_true]
  dsimp only
  rw [h]
  exact ⟨rfl, rfl⟩

theorem rewriteHostPort_plain {U : UserUrls} (hurls : PathHasNoHost U) {req : HttpRequest}
    (horigin : req.target.head? = some 0x2F)
    (h : indexOf (utf16 ":") (findHeader req.headers (utf16 "Host")) = none) :
    (rewriteHostPort U req).host = findHeader req.headers (utf16 "Host") ∧
      (rewriteHostPort U req).port = 80 := by
  rw [rewriteHostPort, hurls req.target horigin, List.isEmpty_nil, Bool.not_true, Bool.and_false,
    if_neg Bool.false_ne_true]
  dsimp only
  rw [h]
  exact ⟨rfl, rfl⟩

theorem rewriteHostPort_head {U : UserUrls} (hurls : PathHasNoHost U) {req : HttpRequest}
    (horigin : req.target.head? = some 0x2F)
    (h : (findHeader req.headers (utf16 "Host")).head? = some 0x5B) :
    (rewriteHostPort U req).host.head? = some 0x5B := by
  cases hi : indexOf (utf16 ":") (findHeader req.headers (utf16 "Host")) with
  | none => rw [(rewriteHostPort_plain hurls horigin hi).1, h]
  | some colon =>
    rw [(rewriteHostPort_colon hurls horigin hi).1]
    cases colon with
    | zero =>
      obtain ⟨rest, hrest⟩ := (indexOf_eq_some_iff.1 hi).1
      rw [List.drop_zero] at hrest
      rw [← hrest] at h
      cases h
    | succ colon => rw [List.head?_take, if_neg (Nat.succ_ne_zero colon), h]

theorem hostHeader_iff {U : UserUrls} (hurls : PathHasNoHost U) {req : HttpRequest}
    (horigin : req.target.head? = some 0x2F) {host : QString} {port : Nat}
    (h : HostDestination (findHeader req.headers (utf16 "Host")) host port) :
    (rewriteHostPort U req).host = host ∧ (rewriteHostPort U req).port = port ↔
      (findHeader req.headers (utf16 "Host")).head? ≠ some 0x5B := by
  have hbracket (hlit : isIpv6Literal host = true)
      (hhead : (findHeader req.headers (utf16 "Host")).head? = some 0x5B) :
      ¬((rewriteHostPort U req).host = host ∧ (rewriteHostPort U req).port = port) := by
    rintro ⟨hsame, -⟩
    have hread := rewriteHostPort_head hurls horigin hhead
    rw [hsame] at hread
    exact ipv6Literal_plain hlit (List.mem_of_mem_head? hread)
  have hname (rest : QString) (hreg : IsRegisteredName host) :
      (host ++ rest).head? ≠ some 0x5B := by
    intro hhead
    rw [List.head?_append_of_ne_nil _ hreg.1] at hhead
    exact (registeredName_plain hreg).2 (List.mem_of_mem_head? hhead)
  rcases h with ⟨written, digits, hw, hport, he⟩ | ⟨hw, hdefault⟩
  · cases hw with
    | name hreg =>
      have hi : indexOf (utf16 ":") (findHeader req.headers (utf16 "Host")) = some host.length := by
        rw [he]
        exact indexOf_singleton (registeredName_plain hreg).1 digits
      obtain ⟨hhost, hnumber⟩ := rewriteHostPort_colon hurls horigin hi
      have hdrop : (host ++ 0x3A :: digits).drop (host.length + 1) = digits := by
        rw [← List.drop_drop, List.drop_left]
        rfl
      rw [he, List.take_left] at hhost
      rw [he, hdrop, toUShort_written hport] at hnumber
      rw [he]
      exact iff_of_true ⟨hhost, hnumber⟩ (hname _ hreg)
    | literal hlit =>
      have hhead : (findHeader req.headers (utf16 "Host")).head? = some 0x5B := by
        rw [he]
        rfl
      exact iff_of_false (hbracket hlit hhead) (fun hne => hne hhead)
  · generalize he : findHeader req.headers (utf16 "Host") = hostHeader at hw
    cases hw with
    | name hreg =>
      have hi : indexOf (utf16 ":") (findHeader req.headers (utf16 "Host")) = none := by
        rw [he]
        exact indexOf_colon_eq_none (registeredName_plain hreg).1
      obtain ⟨hhost, hnumber⟩ := rewriteHostPort_plain hurls horigin hi
      have hhead := hname [] hreg
      rw [List.append_nil] at hhead
      exact iff_of_true ⟨hhost.trans he, hnumber.trans hdefault.symm⟩ hhead
    | literal hlit =>
      have hhead : (findHeader req.headers (utf16 "Host")).head? = some 0x5B := by
        rw [he]
        rfl
      rw [← he]
      exact iff_of_false (hbracket hlit hhead) (fun hne => hne hhead)

/-- A CONNECT needs a host and a port or no colon; a plain request no bracket. -/
theorem destinations_kept (target : QString) (U : UserUrls) (req : HttpRequest) (host : QString)
    (port : Nat) :
    (ConnectsRight target ↔
      (∃ host digits port, IsRegisteredName host ∧ WrittenPort digits port ∧
        target = host ++ 0x3A :: digits) ∨ 0x3A ∉ target ∨ target.head? = some 0x3A) ∧
      (PathHasNoHost U → req.target.head? = some 0x2F →
        HostDestination (findHeader req.headers (utf16 "Host")) host port →
          ((rewriteHostPort U req).host = host ∧ (rewriteHostPort U req).port = port ↔
            (findHeader req.headers (utf16 "Host")).head? ≠ some 0x5B)) :=
  ⟨connectsRight_iff target, fun hurls horigin h => hostHeader_iff hurls horigin h⟩

def noUrls : UserUrls where
  Url := Unit
  fromUserInput _ := ()
  isValid _ := false
  host _ := []
  port _ := 80
  encodedPath _ := []
  encodedQuery _ := none

def localRequest : HttpRequest where
  method := utf16 "GET"
  target := utf16 "/"
  httpVersion := utf16 "HTTP/1.1"
  headers := [(utf16 "Host", utf16 "a:8080")]
  path := []
  body := []

theorem destinations_kept_local :
    (rewriteHostPort noUrls localRequest).host = utf16 "a" ∧
      (rewriteHostPort noUrls localRequest).port = 8080 := by
  have hname : WrittenHost (utf16 "a") (utf16 "a") := .name ⟨by decide, by decide⟩
  have hport : WrittenPort (utf16 "8080") 8080 := ⟨by decide, by decide, by decide, by decide⟩
  exact ((destinations_kept [] noUrls localRequest (utf16 "a") 8080).2 (fun _ _ => rfl) rfl
    (.inl ⟨_, _, hname, hport, rfl⟩)).2 (by decide)

/-- A literal is cut off at its first colon, and what is left is no port. -/
theorem literal_truncated : ¬∀ target, ConnectsRight target := by
  intro h
  have hread : Destination (utf16 "[::1]:443") (utf16 "[") 0 := (h _ _ _).1 (by decide)
  obtain ⟨_, _, _, ⟨_, _, hlow, _⟩, _⟩ := hread
  exact absurd hlow (by decide)

end Nullock.Proxy

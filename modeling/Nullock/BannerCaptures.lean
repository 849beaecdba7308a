import Nullock.VersionTexts

namespace Nullock.ServiceVulns

inductive Product
  | openssh
  | vsftpd
  | proftpd
  | exim
  | apache
  | nginx
  | lighttpd
  | iis
  | samba
  | mariadb
  | postfixMta
  | dovecot
  | redis
deriving DecidableEq

namespace Product

def name : Product → QString
  | openssh => utf16 "openssh"
  | vsftpd => utf16 "vsftpd"
  | proftpd => utf16 "proftpd"
  | exim => utf16 "exim"
  | apache => utf16 "apache"
  | nginx => utf16 "nginx"
  | lighttpd => utf16 "lighttpd"
  | iis => utf16 "iis"
  | samba => utf16 "samba"
  | mariadb => utf16 "mariadb"
  | postfixMta => utf16 "postfix"
  | dovecot => utf16 "dovecot"
  | redis => utf16 "redis"

def before : Product → QString
  | openssh => utf16 "OpenSSH_"
  | vsftpd => utf16 "vsftpd "
  | proftpd => utf16 "ProFTPD "
  | exim => utf16 "Exim "
  | apache => utf16 "Apache/"
  | nginx => utf16 "nginx/"
  | lighttpd => utf16 "lighttpd/"
  | iis => utf16 "Microsoft-IIS/"
  | samba => utf16 "Samba "
  | mariadb => utf16 "5.5.5-"
  | postfixMta => utf16 "Postfix "
  | dovecot => utf16 "Dovecot "
  | redis => utf16 "redis_version:"

def behind : Product → QString
  | mariadb => utf16 "-MariaDB"
  | _ => []

def banner (p : Product) (version : QString) : QString := p.before ++ (version ++ p.behind)

def index : Product → Nat
  | openssh => 0
  | vsftpd => 1
  | proftpd => 2
  | exim => 3
  | apache => 4
  | nginx => 5
  | lighttpd => 6
  | iis => 7
  | samba => 8
  | mariadb => 9
  | postfixMta => 10
  | dovecot => 11
  | redis => 12

def pattern (p : Product) : VerPat := (verPats[p.index]?).getD { product := [], lead := [] }

def earlier (p : Product) : List VerPat := verPats.take p.index

def later (p : Product) : List VerPat := verPats.drop (p.index + 1)

theorem verPats_eq (p : Product) : verPats = p.earlier ++ p.pattern :: p.later := by
  cases p <;> rfl

theorem pattern_product (p : Product) : p.pattern.product = p.name := by
  cases p <;> rfl

theorem name_ne (p : Product) : p.name ≠ [] := by
  cases p <;> decide

end Product

def isPlain (c : UInt16) : Bool := isDigit c || isLetter c || c == 0x2E || c == 0x2D

def closes : Piece → UInt16 → Bool
  | .oneOf cs, c => cs.contains c
  | .spaces, c => isPatternSpace c
  | _, _ => false

/-- A piece that begins with characters that no version has. -/
def isCloser : Piece → Bool
  | .oneOf cs => cs.all (fun c => !isPlain c)
  | .spaces => true
  | _ => false

def opens (t : QString) (closer : Piece) (s : QString) : Bool :=
  startsWith t s && (s.drop t.length).head?.any (closes closer)

def opensIn (t : QString) (closer : Piece) : QString → Bool
  | [] => opens t closer []
  | c :: s => opens t closer (c :: s) || opensIn t closer s

/-- A pattern that matches nowhere in a text with plain characters behind it. -/
def skips (front : QString) (dashed : Bool) (q : VerPat) : Bool :=
  match q.lead with
  | .text t :: closer :: _ => isCloser closer && !opensIn t closer front
  | [] => q.behind.head? == some 0x2D && !front.contains 0x2D && !dashed
  | _ => false

section Skipped

theorem space_not_plain (h : isPatternSpace c = true) : isPlain c = false := by
  unfold isPatternSpace at h
  unfold isPlain isDigit isLetter
  grind

theorem plain_closes (hcloser : isCloser closer = true) (hc : isPlain c = true) :
    closes closer c = false := by
  apply Bool.eq_false_iff.2
  intro hcloses
  cases closer with
  | text t => cases hcloses
  | maybe t => cases hcloses
  | oneOf cs =>
    have hnot := List.all_eq_true.1 hcloser c (List.contains_iff_mem.1 hcloses)
    rw [hc] at hnot
    cases hnot
  | spaces =>
    have hnot := space_not_plain hcloses
    rw [hc] at hnot
    cases hnot

theorem captureAt_opens (hlead : q.lead = .text t :: closer :: ps) (hcloser : isCloser closer = true)
    (h : captureAt q s = some w) : opens t closer s = true := by
  rw [captureAt, hlead, matchLead] at h
  unfold opens
  split at h
  · cases h
  · cases h
  · rename_i c rest hmatch
    split at hmatch
    · rename_i hstarts
      rw [hstarts, Bool.true_and]
      cases closer with
      | text t => cases hcloser
      | maybe t => cases hcloser
      | oneOf cs =>
        cases heq : s.drop t.length with
        | nil =>
          rw [heq] at hmatch
          cases hmatch
        | cons d behind =>
          rw [heq, matchLead] at hmatch
          split at hmatch
          · rename_i hmem
            exact hmem
          · cases hmatch
      | spaces =>
        cases heq : s.drop t.length with
        | nil =>
          rw [heq] at hmatch
          cases hmatch
        | cons d behind =>
          rw [heq, matchLead] at hmatch
          split at hmatch
          · rename_i hmem
            exact hmem
          · cases hmatch
    · cases hmatch

theorem opens_front (hy : ∀ c ∈ y, closes closer c = false) (h : opens t closer (x ++ y) = true) :
    opens t closer x = true := by
  obtain ⟨hstarts, hclose⟩ := Bool.and_eq_true_iff.1 h
  by_cases hlen : t.length < x.length
  · have htake : (x ++ y).take t.length = x.take t.length :=
      List.take_append_of_le_length (Nat.le_of_lt hlen)
    have hdrop : (x ++ y).drop t.length = x.drop t.length ++ y :=
      List.drop_append_of_le_length (Nat.le_of_lt hlen)
    have hne : x.drop t.length ≠ [] := by
      intro hnil
      have hle := List.drop_eq_nil_iff.1 hnil
      exact absurd hlen (Nat.not_lt.2 hle)
    unfold opens
    rw [startsWith, ← htake, ← startsWith, hstarts, Bool.true_and]
    rw [hdrop] at hclose
    obtain ⟨c, rest, heq⟩ := List.exists_cons_of_ne_nil hne
    rw [heq] at hclose ⊢
    exact hclose
  · have hdrop : (x ++ y).drop t.length = y.drop (t.length - x.length) := by
      rw [List.drop_append, List.drop_eq_nil_of_le (Nat.not_lt.1 hlen), List.nil_append]
    rw [hdrop] at hclose
    obtain ⟨c, hc, hcloses⟩ := (Option.any_eq_true _ _).1 hclose
    rw [hy c (List.mem_of_mem_drop (List.mem_of_mem_head? hc))] at hcloses
    cases hcloses

theorem capture_none (hlead : q.lead = .text t :: closer :: ps) (hcloser : isCloser closer = true)
    (hx : opensIn t closer x = false) (hy : ∀ c ∈ y, closes closer c = false) :
    capture q (x ++ y) = none := by
  have hat {x y : QString} (hx : opens t closer x = false) (hy : ∀ c ∈ y, closes closer c = false) :
      captureAt q (x ++ y) = none := by
    cases hw : captureAt q (x ++ y) with
    | none => rfl
    | some w =>
      rw [opens_front hy (captureAt_opens hlead hcloser hw)] at hx
      cases hx
  induction x with
  | nil =>
    induction y with
    | nil => exact hat (x := []) hx hy
    | cons c y ih =>
      have hnone := hat (x := []) hx hy
      rw [List.nil_append] at hnone ⊢
      rw [capture, hnone]
      exact ih (fun d hd => hy d (List.mem_cons_of_mem c hd))
  | cons c x ih =>
    obtain ⟨hhere, hrest⟩ := Bool.or_eq_false_iff.1 hx
    have hnone := hat (x := c :: x) hhere hy
    rw [List.cons_append] at hnone ⊢
    rw [capture, hnone]
    exact ih hrest

theorem foldCase_dash (h : foldCase c = 0x2D) : c = 0x2D := by
  unfold foldCase at h
  split at h
  · rename_i hc
    obtain ⟨h1, h2⟩ := hc
    rw [UInt16.le_iff_toNat_le] at h1 h2
    have heq := congrArg UInt16.toNat h
    rw [UInt16.toNat_add] at heq
    have e1 : (0x41 : UInt16).toNat = 0x41 := rfl
    have e2 : (0x5A : UInt16).toNat = 0x5A := rfl
    have e3 : (0x20 : UInt16).toNat = 0x20 := rfl
    have e4 : (0x2D : UInt16).toNat = 0x2D := rfl
    omega
  · split at h
    · exact absurd h (by decide)
    · split at h
      · exact absurd h (by decide)
      · exact h

theorem startsWith_head (h : startsWith (d :: t) s = true) :
    ∃ c s', s = c :: s' ∧ foldCase c = foldCase d := by
  have heq := beq_iff_eq.1 h
  cases s with
  | nil => cases heq
  | cons c s' => exact ⟨c, s', rfl, (List.cons.inj heq).1⟩

theorem capture_undashed (hlead : q.lead = []) (hbehind : q.behind.head? = some 0x2D)
    (h : 0x2D ∉ s) : capture q s = none := by
  have hat {s : QString} (h : 0x2D ∉ s) : captureAt q s = none := by
    rw [captureAt, hlead, matchLead]
    cases s with
    | nil => rfl
    | cons c rest =>
      dsimp only
      rw [if_neg]
      intro hmatch
      have hstarts := (Bool.and_eq_true_iff.1 hmatch).2
      obtain ⟨d, behind, hd⟩ : ∃ d behind, q.behind = d :: behind := by
        cases hb : q.behind with
        | nil =>
          rw [hb] at hbehind
          cases hbehind
        | cons d behind => exact ⟨d, behind, rfl⟩
      rw [hd] at hbehind hstarts
      cases hbehind
      obtain ⟨e, s', heq, hfold⟩ := startsWith_head hstarts
      have hdash : e = 0x2D := foldCase_dash (hfold.trans (by decide))
      have hmem : e ∈ rest := (List.dropWhile_suffix _).mem (by rw [heq]; exact List.mem_cons_self)
      rw [hdash] at hmem
      exact h (List.mem_cons_of_mem c hmem)
  induction s with
  | nil => exact hat h
  | cons c s ih =>
    rw [capture, hat h]
    exact ih (fun hmem => h (List.mem_cons_of_mem c hmem))

theorem skips_none (h : skips front dashed q = true) (hy : ∀ c ∈ y, isPlain c = true)
    (hdash : dashed = false → 0x2D ∉ y) : capture q (front ++ y) = none := by
  unfold skips at h
  split at h
  · rename_i t closer ps hlead
    obtain ⟨hcloser, hopens⟩ := Bool.and_eq_true_iff.1 h
    exact capture_none hlead hcloser ((Bool.not_eq_true' _).mp hopens)
      (fun c hc => plain_closes hcloser (hy c hc))
  · rename_i hlead
    obtain ⟨hfirst, hdashed⟩ := Bool.and_eq_true_iff.1 h
    obtain ⟨hbehind, hfront⟩ := Bool.and_eq_true_iff.1 hfirst
    apply capture_undashed hlead (beq_iff_eq.1 hbehind)
    intro hmem
    rcases List.mem_append.1 hmem with hmem | hmem
    · rw [List.contains_iff_mem.2 hmem] at hfront
      cases hfront
    · exact hdash ((Bool.not_eq_true' _).mp hdashed) hmem
  · cases h

theorem parseWith_skip (h : ∀ q ∈ qs, capture q banner = none) (ps : List VerPat) :
    parseWith banner (qs ++ ps) = parseWith banner ps := by
  induction qs with
  | nil => rfl
  | cons q qs ih =>
    rw [List.cons_append, parseWith, h q List.mem_cons_self]
    exact ih (fun r hr => h r (List.mem_cons_of_mem q hr))

theorem text_plain (v : VersionText) : ∀ c ∈ v.text, isPlain c = true ∧ c ≠ 0x2D := by
  intro c hc
  unfold isPlain
  rcases VersionText.chars hc with (hc | rfl) | hc
  · rw [hc]
    refine ⟨rfl, ?_⟩
    rintro rfl
    cases hc
  · exact ⟨by decide, by decide⟩
  · rw [hc, Bool.or_true]
    refine ⟨rfl, ?_⟩
    rintro rfl
    cases hc

theorem earlier_none (p : Product) (v : VersionText) :
    ∀ q ∈ p.earlier, capture q (p.banner v.text) = none := by
  have hall : p.earlier.all (skips p.before (!p.behind.isEmpty)) = true := by
    cases p <;> decide
  have hbehind : ∀ c ∈ p.behind, isPlain c = true := by
    cases p <;> exact forall_mem_of_all (by decide)
  intro q hq
  apply skips_none (List.all_eq_true.1 hall q hq)
  · intro c hc
    rcases List.mem_append.1 hc with hc | hc
    · exact (text_plain v c hc).1
    · exact hbehind c hc
  · intro hdashed hmem
    have hnil : p.behind = [] := List.isEmpty_iff.1 ((Bool.not_eq_false' _).mp hdashed)
    rcases List.mem_append.1 hmem with hmem | hmem
    · exact (text_plain v _ hmem).2 rfl
    · rw [hnil] at hmem
      exact absurd hmem List.not_mem_nil

theorem parseBanner_own (p : Product) (v : VersionText) :
    parseBanner (p.banner v.text) = match capture p.pattern (p.banner v.text) with
      | some version => (p.name, version)
      | none => parseWith (p.banner v.text) p.later := by
  have hfull : (p.banner v.text).isEmpty = false := by
    cases p <;> rfl
  rw [parseBanner, hfull, if_neg Bool.false_ne_true, p.verPats_eq,
    parseWith_skip (earlier_none p v), ← p.pattern_product]
  rfl

end Skipped

section Own

theorem capture_here (h : captureAt q s = some w) : capture q s = some w := by
  cases s with
  | nil => exact h
  | cons c s =>
    rw [capture, h]

theorem startsWith_nil (s : QString) : startsWith [] s = true := rfl

theorem matchLead_text (t s : QString) (ps : List Piece) :
    matchLead (.text t :: ps) (t ++ s) = matchLead ps s := by
  have hstarts : startsWith t (t ++ s) = true := by
    rw [startsWith, List.take_left]
    exact beq_self_eq_true _
  rw [matchLead, hstarts, if_pos rfl, List.drop_left]

theorem digit_not_space (h : isDigit c = true) : isPatternSpace c = false := by
  unfold isDigit at h
  unfold isPatternSpace
  grind

theorem foldCase_digit (h : isDigit c = true) : foldCase c = c := by
  unfold isDigit at h
  unfold foldCase
  grind

theorem matchLead_spaces (h : isDigit d = true) (t : QString) :
    matchLead [.spaces] (0x20 :: d :: t) = some (d :: t) := by
  have hspace : isPatternSpace 0x20 = true := by decide
  rw [matchLead, hspace, if_pos rfl,
    List.dropWhile_cons_of_neg (by rw [digit_not_space h]; exact nofun), matchLead]

theorem matchLead_oneOf (hc : cs.contains c = true) (s : QString) (ps : List Piece) :
    matchLead (.oneOf cs :: ps) (c :: s) = matchLead ps s := by
  rw [matchLead, hc, if_pos rfl]

theorem lead_matched (hp : p ≠ Product.mariadb) (h : isDigit d = true) (t : QString) :
    matchLead p.pattern.lead (p.before ++ d :: t) = some (d :: t) := by
  have hspaced {p : Product} (name : QString) (hlead : p.pattern.lead = [.text name, .spaces])
      (hbefore : p.before = name ++ [0x20]) :
      matchLead p.pattern.lead (p.before ++ d :: t) = some (d :: t) := by
    rw [hlead, hbefore, List.append_assoc, matchLead_text]
    exact matchLead_spaces h t
  have hslash {p : Product} (name : QString) (c : UInt16)
      (hlead : p.pattern.lead = [.text name, .oneOf [c]]) (hbefore : p.before = name ++ [c]) :
      matchLead p.pattern.lead (p.before ++ d :: t) = some (d :: t) := by
    have hc : [c].contains c = true := List.contains_iff_mem.2 List.mem_cons_self
    rw [hlead, hbefore, List.append_assoc, matchLead_text, List.singleton_append,
      matchLead_oneOf hc]
    rfl
  cases p with
  | mariadb => exact absurd rfl hp
  | openssh =>
    have hwindows : startsWith (utf16 "for_Windows_") (d :: t) = false := by
      apply Bool.eq_false_iff.2
      intro hstarts
      obtain ⟨c, s', heq, hfold⟩ := startsWith_head hstarts
      cases heq
      rw [foldCase_digit h] at hfold
      rw [hfold] at h
      exact absurd h (by decide)
    have hlead : Product.openssh.pattern.lead =
        [.text (utf16 "OpenSSH"), .oneOf (utf16 "_/"), .maybe (utf16 "for_Windows_")] := rfl
    have hbefore : Product.openssh.before = utf16 "OpenSSH" ++ [0x5F] := by decide
    rw [hlead, hbefore, List.append_assoc, matchLead_text, List.singleton_append,
      matchLead_oneOf (by decide), matchLead, hwindows]
    rfl
  | vsftpd => exact hspaced (utf16 "vsftpd") rfl (by decide)
  | proftpd => exact hspaced (utf16 "ProFTPD") rfl (by decide)
  | exim => exact hspaced (utf16 "Exim") rfl (by decide)
  | apache => exact hslash (utf16 "Apache") 0x2F rfl (by decide)
  | nginx => exact hslash (utf16 "nginx") 0x2F rfl (by decide)
  | lighttpd => exact hslash (utf16 "lighttpd") 0x2F rfl (by decide)
  | iis => exact hslash (utf16 "Microsoft-IIS") 0x2F rfl (by decide)
  | samba => exact hspaced (utf16 "Samba") rfl (by decide)
  | postfixMta => exact hspaced (utf16 "Postfix") rfl (by decide)
  | dovecot => exact hspaced (utf16 "Dovecot") rfl (by decide)
  | redis => exact hslash (utf16 "redis_version") 0x3A rfl (by decide)

theorem VersionText.text_head (v : VersionText) : ∃ d t, v.text = d :: t ∧ isDigit d = true := by
  obtain ⟨n, numbers, heq⟩ := List.exists_cons_of_ne_nil v.numbers_ne
  have hn := v.numerals n (by rw [heq]; exact List.mem_cons_self)
  obtain ⟨hne, hdigits⟩ := isNumeral_iff.1 hn
  obtain ⟨d, rest, rfl⟩ := List.exists_cons_of_ne_nil hne
  have hd := hdigits d List.mem_cons_self
  unfold VersionText.text VersionText.release
  rw [heq]
  cases numbers with
  | nil =>
    rw [List.intercalate_singleton]
    exact ⟨d, _, rfl, hd⟩
  | cons m numbers =>
    rw [List.intercalate_cons_cons]
    exact ⟨d, _, rfl, hd⟩

theorem isMore_digit (h : isDigit c = true) (q : VerPat) : isMore q c = true := by
  rw [isMore, h, Bool.true_or]

theorem banner_captured (hp : p ≠ Product.mariadb) (v : VersionText) :
    parseBanner (p.banner v.text) = (p.name, v.text.takeWhile (isMore p.pattern)) := by
  obtain ⟨d, t, htext, hd⟩ := v.text_head
  have hbehind : p.behind = [] := by
    cases p with
    | mariadb => exact absurd rfl hp
    | _ => rfl
  have hpattern : p.pattern.behind = [] ∧ p.pattern.several = false := by
    cases p with
    | mariadb => exact absurd rfl hp
    | _ => exact ⟨rfl, rfl⟩
  have hcapture : capture p.pattern (p.banner v.text) =
      some (v.text.takeWhile (isMore p.pattern)) := by
    apply capture_here
    rw [Product.banner, hbehind, List.append_nil, htext, captureAt, lead_matched hp hd,
      List.takeWhile_cons_of_pos (isMore_digit hd _)]
    dsimp only
    rw [hpattern.1, hpattern.2, startsWith_nil, hd]
    rfl
  rw [parseBanner_own, hcapture]

end Own

end Nullock.ServiceVulns

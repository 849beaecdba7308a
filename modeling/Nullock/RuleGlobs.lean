import Nullock.HistoryClear

namespace Nullock.Proxy
open ScopeLogic SessionRulesLogic

def escape : QString → QString
  | [] => []
  | [c] => escapeChar c
  | c :: d :: s =>
    if isHighSurrogate c.toNat then 0x5C :: c :: d :: escape s else escapeChar c ++ escape (d :: s)

def hostPattern (hostGlob : QString) : QRegularExpression :=
  ⟨utf16 "^" ++ replaceAll (utf16 "\\*") (utf16 ".*") (escape hostGlob) ++ utf16 "$", true⟩

/-- Nothing where the rule is refused, no pattern where it is for all hosts. -/
def compiledHost (E : RegexEngine) (hostGlob : QString) : Option (Option QRegularExpression) :=
  if 256 < hostGlob.length then none
  else if hostGlob.isEmpty then some none
  else if !E.isValid (hostPattern hostGlob) then none
  else some (some (hostPattern hostGlob))

def takesHost (E : RegexEngine) (hostGlob host : QString) : Bool :=
  match compiledHost E hostGlob with
  | none => false
  | some none => true
  | some (some rx) => E.hasMatch rx host

def HostText (host : QString) : Prop := ∀ c ∈ host, 0x20 < c ∧ c < 0x7F

def MatchesEveryHost (E : RegexEngine) (hostGlob : QString) : Prop :=
  ∀ host, HostText host → takesHost E hostGlob host = true

inductive GlobPiece where
  | any
  | literal (s : QString)

def GlobPiece.text : GlobPiece → QString
  | .any => utf16 ".*"
  | .literal s => escape s

def piecesPattern (pieces : List GlobPiece) : QRegularExpression :=
  ⟨utf16 "^" ++ pieces.flatMap GlobPiece.text ++ utf16 "$", true⟩

/-- What is documented of escaped texts and dots with stars between two anchors. -/
structure GlobEngine (E : RegexEngine) : Prop where
  valid : ∀ n, E.isValid (piecesPattern (List.replicate n .any)) = true
  any : ∀ n host, HostText host → E.hasMatch (piecesPattern (List.replicate n .any)) host = true
  literal : ∀ pieces s host, .literal s ∈ pieces → E.hasMatch (piecesPattern pieces) host = true →
    ∀ c ∈ s, ∃ d ∈ host, foldCase d = foldCase c

def piecesOf : QString → List GlobPiece
  | [] => []
  | [c] => if c = 0x2A then [.any] else [.literal [c]]
  | c :: d :: s =>
    if isHighSurrogate c.toNat then .literal [c, d] :: piecesOf s
    else (if c = 0x2A then .any else .literal [c]) :: piecesOf (d :: s)

section Globs

theorem replaceAll_cons_of_not {pat s : QString} (h : ¬ pat <+: c :: s) (new : QString) :
    replaceAll pat new (c :: s) = c :: replaceAll pat new s := by
  rw [replaceAll, replaceFrom, if_neg]
  · rfl
  · rw [List.isPrefixOf_iff_prefix]
    exact h

theorem escape_cons (hc : isHighSurrogate c.toNat = false) (s : QString) :
    escape (c :: s) = escapeChar c ++ escape s := by
  cases s with
  | nil => exact (List.append_nil _).symm
  | cons d s =>
    rw [escape, if_neg]
    rw [hc]
    exact Bool.false_ne_true

theorem escapeChar_head (c : UInt16) (s t : QString) : escapeChar c ++ s ≠ 0x2A :: t := by
  rw [escapeChar]
  split
  · exact fun h => absurd (List.cons.inj h).1 (by decide)
  · split
    · rename_i hword
      intro h
      rw [(List.cons.inj h).1] at hword
      exact absurd hword (by decide)
    · exact fun h => absurd (List.cons.inj h).1 (by decide)

theorem escape_head (s t : QString) : escape s ≠ 0x2A :: t := by
  cases s with
  | nil => exact fun h => by cases h
  | cons c s =>
    cases hc : isHighSurrogate c.toNat with
    | false =>
      rw [escape_cons hc]
      exact escapeChar_head c _ t
    | true =>
      cases s with
      | nil =>
        have hhead := escapeChar_head c [] t
        rw [List.append_nil] at hhead
        exact hhead
      | cons d s =>
        rw [escape, if_pos hc]
        exact fun h => absurd (List.cons.inj h).1 (by decide)

theorem not_escaped_star {c : UInt16} (h : c = 0x5C → ∀ t, s ≠ 0x2A :: t) :
    ¬ utf16 "\\*" <+: c :: s := by
  intro hp
  have hp : [0x5C, 0x2A] <+: c :: s := hp
  obtain ⟨hc, hs⟩ := List.cons_prefix_cons.1 hp
  obtain ⟨t, ht⟩ := hs
  exact h hc.symm t ht.symm

theorem replaced_char (c : UInt16) (hs : ∀ t, s ≠ 0x2A :: t) :
    replaceAll (utf16 "\\*") (utf16 ".*") (escapeChar c ++ s) =
      (if c = 0x2A then GlobPiece.any else .literal [c]).text ++
        replaceAll (utf16 "\\*") (utf16 ".*") s := by
  by_cases hstar : c = 0x2A
  · rw [hstar]
    rfl
  · rw [if_neg hstar]
    have hpair (d : UInt16) (hd : d ≠ 0x2A) :
        replaceAll (utf16 "\\*") (utf16 ".*") (0x5C :: d :: s) =
          0x5C :: d :: replaceAll (utf16 "\\*") (utf16 ".*") s := by
      rw [replaceAll_cons_of_not, replaceAll_cons_of_not]
      · exact not_escaped_star (fun _ => hs)
      · apply not_escaped_star
        exact fun _ t ht => hd (List.cons.inj ht).1
    show _ = escapeChar c ++ _
    rw [escapeChar]
    split
    · exact hpair 0x30 (by decide)
    · split
      · exact replaceAll_cons_of_not (not_escaped_star (fun _ => hs)) _
      · exact hpair c hstar

theorem replaced_escape (s : QString) :
    replaceAll (utf16 "\\*") (utf16 ".*") (escape s) = (piecesOf s).flatMap GlobPiece.text := by
  induction s using escape.induct with
  | case1 => rfl
  | case2 c =>
    have hchar := replaced_char c (s := []) nofun
    rw [List.append_nil] at hchar
    rw [escape, hchar, piecesOf]
    split
    · rfl
    · rw [List.flatMap_singleton]
      exact List.append_nil _
  | case3 c d s hc ih =>
    have hstar : c ≠ 0x2A := by
      rintro rfl
      cases hc
    have hslash : c ≠ 0x5C := by
      rintro rfl
      cases hc
    rw [escape, if_pos hc, piecesOf, if_pos hc, replaceAll_cons_of_not, replaceAll_cons_of_not,
      replaceAll_cons_of_not, ih, List.flatMap_cons, GlobPiece.text, escape, if_pos hc]
    · rfl
    · exact not_escaped_star (fun _ => escape_head s)
    · exact not_escaped_star (fun h => absurd h hslash)
    · exact not_escaped_star (fun _ t ht => hstar (List.cons.inj ht).1)
  | case4 c d s hc ih =>
    rw [escape, if_neg hc, piecesOf, if_neg hc, replaced_char c (escape_head _), ih,
      List.flatMap_cons]

theorem hostPattern_pieces (hostGlob : QString) :
    hostPattern hostGlob = piecesPattern (piecesOf hostGlob) := by
  rw [hostPattern, replaced_escape]
  rfl

theorem piecesOf_stars (h : ∀ c ∈ s, c = 0x2A) : piecesOf s = List.replicate s.length .any := by
  induction s with
  | nil => rfl
  | cons c s ih =>
    rw [List.forall_mem_cons] at h
    cases s with
    | nil =>
      rw [piecesOf, if_pos h.1]
      rfl
    | cons d s =>
      have hc : ¬ isHighSurrogate c.toNat = true := by
        rw [h.1]
        decide
      rw [piecesOf, if_neg hc, if_pos h.1, ih h.2]
      rfl

theorem piecesOf_literal (s : QString) (h : ¬ ∀ c ∈ s, c = 0x2A) :
    ∃ c t, .literal (c :: t) ∈ piecesOf s := by
  induction s using escape.induct with
  | case1 => exact absurd nofun h
  | case2 c =>
    have hc : c ≠ 0x2A := fun hc => h (List.forall_mem_singleton.2 hc)
    rw [piecesOf, if_neg hc]
    exact ⟨c, [], List.mem_singleton_self _⟩
  | case3 c d s hc _ =>
    rw [piecesOf, if_pos hc]
    exact ⟨c, [d], List.mem_cons_self⟩
  | case4 c d s hc ih =>
    rw [piecesOf, if_neg hc]
    by_cases hstar : c = 0x2A
    · have hrest : ¬ ∀ e ∈ d :: s, e = 0x2A :=
        fun hall => h (List.forall_mem_cons.2 ⟨hstar, hall⟩)
      obtain ⟨e, t, hmem⟩ := ih hrest
      exact ⟨e, t, List.mem_cons_of_mem _ hmem⟩
    · rw [if_neg hstar]
      exact ⟨c, [], List.mem_cons_self⟩

theorem takesHost_iff (E : RegexEngine) (hostGlob host : QString) :
    takesHost E hostGlob host = true ↔ hostGlob.length ≤ 256 ∧ (hostGlob = [] ∨
      E.isValid (hostPattern hostGlob) = true ∧ E.hasMatch (hostPattern hostGlob) host = true) := by
  rw [takesHost, compiledHost]
  by_cases hlen : 256 < hostGlob.length
  · rw [if_pos hlen]
    exact iff_of_false Bool.false_ne_true (fun h => absurd hlen (Nat.not_lt.2 h.1))
  · rw [if_neg hlen, and_iff_right (Nat.le_of_not_lt hlen)]
    by_cases hempty : hostGlob = []
    · rw [if_pos (List.isEmpty_iff.2 hempty)]
      exact iff_of_true rfl (.inl hempty)
    · rw [if_neg (fun h => hempty (List.isEmpty_iff.1 h)), or_iff_right hempty]
      cases hvalid : E.isValid (hostPattern hostGlob) with
      | false => exact iff_of_false Bool.false_ne_true (fun h => Bool.false_ne_true h.1)
      | true => exact ⟨fun h => ⟨rfl, h⟩, fun h => h.2⟩

theorem matchesEveryHost_iff {E : RegexEngine} (hE : GlobEngine E) (hostGlob : QString) :
    MatchesEveryHost E hostGlob ↔ hostGlob.length ≤ 256 ∧ ∀ c ∈ hostGlob, c = 0x2A := by
  constructor
  · intro h
    obtain ⟨hlen, hzero⟩ := (takesHost_iff E hostGlob [0x30]).1
      (h _ (List.forall_mem_singleton.2 (by decide)))
    obtain ⟨-, hone⟩ := (takesHost_iff E hostGlob [0x31]).1
      (h _ (List.forall_mem_singleton.2 (by decide)))
    refine ⟨hlen, ?_⟩
    by_contra hstars
    have hsome : hostGlob ≠ [] := fun he => hstars (he ▸ nofun)
    obtain ⟨c, t, hmem⟩ := piecesOf_literal hostGlob hstars
    have hzero := (hzero.resolve_left hsome).2
    have hone := (hone.resolve_left hsome).2
    rw [hostPattern_pieces] at hzero hone
    -- one character cannot be two digits
    obtain ⟨d, hd, hfold⟩ := hE.literal _ _ _ hmem hzero c List.mem_cons_self
    obtain ⟨e, he, hfold'⟩ := hE.literal _ _ _ hmem hone c List.mem_cons_self
    rw [List.mem_singleton.1 hd] at hfold
    rw [List.mem_singleton.1 he] at hfold'
    exact absurd (hfold.trans hfold'.symm) (by decide)
  · rintro ⟨hlen, hstars⟩ host hhost
    rw [takesHost_iff, hostPattern_pieces, piecesOf_stars hstars]
    exact ⟨hlen, .inr ⟨hE.valid _, hE.any _ host hhost⟩⟩

end Globs

end Nullock.Proxy

namespace Nullock.ProjectStore
open QJsonObject Proxy ScopeLogic SessionRulesLogic
open SessionManager (toArray)

def touchesCredentials (r : MatchReplaceRule) : Bool :=
  looksCredential r.find || looksCredential r.replace

def NamesEveryHost (E : RegexEngine) (hostGlob : QString) : Prop :=
  QString.trimmed hostGlob = utf16 ".*" ∨
    (QString.trimmed hostGlob).length ≤ 2 ∧ MatchesEveryHost E (QString.trimmed hostGlob)

def CarriesAway (E : RegexEngine) (r : MatchReplaceRule) : Prop :=
  r.enabled = true ∧
    (QString.trimmed r.hostGlob = utf16 ".*" ∨ MatchesEveryHost E (QString.trimmed r.hostGlob)) ∧
    touchesCredentials r = true

section Quarantine

variable {E : RegexEngine} (hE : GlobEngine E)
include hE

theorem isWildcardHost_iff (hostGlob : QString) :
    isWildcardHost hostGlob = true ↔ NamesEveryHost E hostGlob := by
  rw [isWildcardHost, NamesEveryHost, matchesEveryHost_iff hE]
  generalize QString.trimmed hostGlob = t
  rw [Bool.or_eq_true, Bool.or_eq_true, Bool.or_eq_true, List.isEmpty_iff, beq_iff_eq, beq_iff_eq,
    beq_iff_eq]
  constructor
  · rintro (((rfl | rfl) | rfl) | rfl)
    · exact .inr ⟨by decide, by decide, nofun⟩
    · exact .inr ⟨by decide, by decide, forall_mem_of_all (by decide)⟩
    · exact .inl rfl
    · exact .inr ⟨by decide, by decide, forall_mem_of_all (by decide)⟩
  · rintro (rfl | ⟨hlen, -, hstars⟩)
    · exact .inl (.inr rfl)
    · have hrep := List.eq_replicate_of_mem hstars
      rw [hrep]
      generalize t.length = n at hlen
      rcases n with _ | _ | _ | n
      · exact .inl (.inl (.inl rfl))
      · exact .inl (.inl (.inr rfl))
      · exact .inr rfl
      · exact absurd hlen (by omega)

theorem quarantined_kept (r : MatchReplaceRule) (h : ¬ CarriesAway E r) : quarantined r = r := by
  rw [quarantined, if_neg]
  rw [Bool.and_eq_true, Bool.and_eq_true]
  rintro ⟨⟨henabled, hhost⟩, htouches⟩
  apply h
  refine ⟨henabled, ?_, htouches⟩
  rcases (isWildcardHost_iff hE _).1 hhost with hpattern | ⟨-, hstars⟩
  · exact .inl hpattern
  · exact .inr hstars

end Quarantine

section Reload

variable {E : RegexEngine}

theorem strings_back (strings : List QString) : stringsFromJson (stringsToJson strings) = strings := by
  have hback : QJsonValue.toQString ∘ QJsonValue.string = id := rfl
  rw [stringsFromJson, stringsToJson, SessionManager.toArray, List.map_map, hback, List.map_id]

theorem rule_literal : ["enabled", "name", "hostGlob", "section", "find", "replace",
    "caseInsensitive", "literal", "comment"].all isLiteral = true := by
  decide

theorem rule_back {r : MatchReplaceRule} (h : IsInt32 r.ruleSection) :
    ruleFromJson (ruleToJson r).toObject = r := by
  have hsection := QJsonValue.toInt_double h 1
  rw [ruleToJson, QJsonValue.toObject, ruleFromJson]
  simp (disch := first | decide | simpa only [List.map_cons, List.map_nil] using rule_literal)
    only [value_lookup]
  simp only [List.lookup_cons, String.reduceBEq, Option.getD_some, QJsonValue.toQString,
    QJsonValue.toBool, hsection]

theorem rules_back (hE : GlobEngine E) {rules : List MatchReplaceRule}
    (h : ∀ r ∈ rules, IsInt32 r.ruleSection) (hkept : ∀ r ∈ rules, ¬ CarriesAway E r) :
    (toArray (.array (rules.map ruleToJson))).map (fun v => quarantined (ruleFromJson v.toObject)) =
      rules := by
  rw [SessionManager.toArray, List.map_map]
  conv => rhs; rw [← List.map_id rules]
  apply List.map_congr_left
  intro r hr
  rw [Function.comp_apply, rule_back (h r hr), quarantined_kept hE r (hkept r hr)]
  rfl

end Reload

section Samples

end Samples

end Nullock.ProjectStore

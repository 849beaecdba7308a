import Nullock.HttpMessages
import Nullock.RequestRewriting
import Nullock.Runs

namespace Nullock.Proxy
open ScopeLogic HttpLogic SessionRules SessionRulesLogic

def valueElements (v : QString) : List QString := (v.splitOn 0x2C).map (trimWith isOwsChar)

def SaysLength (n : Nat) (v : QString) : Prop := ∀ e ∈ valueElements v, numeralValue e = some n

/-- Every `Content-Length` field of the request is the size of its body. -/
def LengthsAgree (headers : List Header) (body : QByteArray) : Prop :=
  ∀ v ∈ contentLengths headers, SaysLength body.length v

/-- A body with a length keeps its size, which is the only value of a length. -/
def KeepsLengths (L : TextLibrary) (req : ProxiedRequest) (r : SessionRule) (value : QString) :
    Prop :=
  match r.injectInto with
  | .header => equalsIgnoreCase r.injectKey contentLengthName = true →
      SaysLength req.body.length (sanitizeHeaderValue value)
  | .body => contentLengths req.headers = [] ∨ (injectBody L req r value).length = req.body.length
  | _ => True

def RulesKeep (E : RegexEngine) (L : TextLibrary) (vars : QString → Option QString)
    (tool : UInt32) : ProxiedRequest → List SessionRule → Prop
  | _, [] => True
  | req, r :: rules =>
    (∀ value, injectedValue E vars tool req r = some value → KeepsLengths L req r value) ∧
      RulesKeep E L vars tool (applyRule E L vars tool (req, false) r).1 rules

theorem valueElements_ne_nil (v : QString) : valueElements v ≠ [] := by
  rw [valueElements, ne_eq, List.map_eq_nil_iff]
  exact List.splitOn_ne_nil 0x2C v

theorem SaysLength.unique (h : SaysLength n v) (h' : SaysLength m v) : n = m := by
  obtain ⟨e, he⟩ := List.exists_mem_of_ne_nil _ (valueElements_ne_nil v)
  have hn := h e he
  rw [h' e he, Option.some.injEq] at hn
  exact hn.symm

section Fields
variable {L : TextLibrary} {headers : List Header}

theorem sameName_length (h : L.caseFold a = L.caseFold b) :
    equalsIgnoreCase a contentLengthName = equalsIgnoreCase b contentLengthName := by
  have hascii : ∀ c ∈ contentLengthName, c < 0x80 := forall_mem_of_all (by decide)
  rw [Bool.eq_iff_iff, ← L.caseFold_ascii a _ hascii, ← L.caseFold_ascii b _ hascii, h]

theorem contentLengths_injectHeader (hkey : equalsIgnoreCase key contentLengthName = false) :
    contentLengths (injectHeader L key value headers) = contentLengths headers := by
  induction headers with
  | nil => rw [injectHeader, contentLengths_cons, hkey, if_neg Bool.false_ne_true]
  | cons f headers ih =>
    rw [injectHeader]
    split
    · rename_i hf
      rw [contentLengths_cons, contentLengths_cons, sameName_length hf, hkey,
        if_neg Bool.false_ne_true, if_neg Bool.false_ne_true]
    · rw [contentLengths_cons, contentLengths_cons, ih]

theorem contentLengths_injectLength (hkey : equalsIgnoreCase key contentLengthName = true) :
    contentLengths (injectHeader L key value headers) =
      value :: (contentLengths headers).tail := by
  induction headers with
  | nil =>
    rw [injectHeader, contentLengths_cons, if_pos hkey]
    rfl
  | cons f headers ih =>
    rw [injectHeader]
    split
    · rename_i hf
      have hname := (sameName_length hf).trans hkey
      rw [contentLengths_cons, contentLengths_cons, if_pos hname, if_pos hname]
      rfl
    · rename_i hf
      have hname : equalsIgnoreCase f.1 contentLengthName = false := by
        rw [← Bool.not_eq_true]
        intro hname
        have hascii : ∀ c ∈ contentLengthName, c < 0x80 := forall_mem_of_all (by decide)
        apply hf
        rw [(L.caseFold_ascii f.1 _ hascii).2 hname, (L.caseFold_ascii key _ hascii).2 hkey]
      rw [contentLengths_cons, contentLengths_cons, hname, if_neg Bool.false_ne_true,
        if_neg Bool.false_ne_true, ih]

theorem contentLengths_updateCookie (update : QString → QString) (headers : List Header) :
    contentLengths (updateCookie update headers) = contentLengths headers := by
  induction headers with
  | nil => rfl
  | cons f headers ih =>
    rw [updateCookie]
    split
    · rename_i hf
      have hname : equalsIgnoreCase f.1 contentLengthName = false :=
        equalsIgnoreCase_exclusive (by decide) hf
      rw [contentLengths_cons, contentLengths_cons, hname, if_neg Bool.false_ne_true,
        if_neg Bool.false_ne_true]
    · rw [contentLengths_cons, contentLengths_cons, ih]

theorem contentLengths_fixContentLength (n : Int) (headers : List Header) :
    contentLengths (fixContentLength n headers) =
      match contentLengths headers with
      | [] => []
      | _ :: lengths => fromLatin1 (QByteArray.number n) :: lengths := by
  induction headers with
  | nil => rfl
  | cons f headers ih =>
    rw [fixContentLength, ← contentLengthName]
    split
    · rename_i hf
      rw [contentLengths_cons, contentLengths_cons, if_pos hf, if_pos hf]
    · rename_i hf
      rw [contentLengths_cons, contentLengths_cons, if_neg hf, if_neg hf, ih]

end Fields

theorem lengthsAgree_body_iff (h : LengthsAgree headers body) (body' : QByteArray) :
    LengthsAgree headers body' ↔ contentLengths headers = [] ∨ body'.length = body.length := by
  constructor
  · intro h'
    cases hl : contentLengths headers with
    | nil => exact .inl rfl
    | cons v lengths =>
      have hv : v ∈ contentLengths headers := by
        rw [hl]
        exact List.mem_cons_self
      exact .inr ((h' v hv).unique (h v hv))
  · intro h' v hv
    rcases h' with hnil | hlen
    · rw [hnil] at hv
      cases hv
    · rw [hlen]
      exact h v hv

theorem inject_agrees_iff (h : LengthsAgree req.headers req.body) :
    LengthsAgree (inject L req r value).1.headers (inject L req r value).1.body ↔
      KeepsLengths L req r value := by
  rw [inject, KeepsLengths]
  cases r.injectInto with
  | header =>
    dsimp only
    cases hkey : equalsIgnoreCase r.injectKey contentLengthName with
    | false =>
      rw [LengthsAgree, contentLengths_injectHeader hkey]
      exact ⟨fun _ hf => (nomatch hf), fun _ => h⟩
    | true =>
      rw [LengthsAgree, contentLengths_injectLength hkey, List.forall_mem_cons]
      constructor
      · intro h' _
        exact h'.1
      · intro h'
        exact ⟨h' rfl, fun v hv => h v (List.mem_of_mem_tail hv)⟩
  | cookie =>
    dsimp only
    rw [LengthsAgree, contentLengths_updateCookie]
    exact ⟨fun _ => trivial, fun _ => h⟩
  | body =>
    dsimp only
    split
    · exact lengthsAgree_body_iff h _
    · rename_i hsame
      rw [not_not] at hsame
      exact ⟨fun _ => .inr (by rw [hsame]), fun _ => h⟩
  | url => exact ⟨fun _ => trivial, fun _ => h⟩
  | other => exact ⟨fun _ => trivial, fun _ => h⟩

section Runs
variable {E : RegexEngine} {L : TextLibrary} {vars : QString → Option QString} {tool : UInt32}

theorem applyRule_fst (req : ProxiedRequest) (flag : Bool) (r : SessionRule) :
    (applyRule E L vars tool (req, flag) r).1 = (applyRule E L vars tool (req, false) r).1 := by
  rw [applyRule, applyRule]
  dsimp only
  cases injectedValue E vars tool req r <;> rfl

theorem applyRule_agrees_iff (h : LengthsAgree req.headers req.body) :
    LengthsAgree (applyRule E L vars tool (req, false) r).1.headers
        (applyRule E L vars tool (req, false) r).1.body ↔
      ∀ value, injectedValue E vars tool req r = some value → KeepsLengths L req r value := by
  rw [applyRule]
  cases hv : injectedValue E vars tool req r with
  | none => exact ⟨fun _ _ hf => (nomatch hf), fun _ => h⟩
  | some value =>
    constructor
    · intro h' value' hv'
      cases hv'
      exact (inject_agrees_iff h).1 h'
    · intro h'
      exact (inject_agrees_iff h).2 (h' value rfl)

theorem rulesKeep_iff_along (rules : List SessionRule) (req : ProxiedRequest) (flag : Bool) :
    Along (applyRule E L vars tool) (fun state r => ∀ value,
      injectedValue E vars tool state.1 r = some value → KeepsLengths L state.1 r value)
      (req, flag) rules ↔ RulesKeep E L vars tool req rules := by
  induction rules generalizing req flag with
  | nil => exact Iff.rfl
  | cons r rules ih =>
    rw [Along, RulesKeep, ← applyRule_fst req flag, ← ih]

/-- Lengths stay right throughout exactly when every rule that fires keeps them. -/
theorem rules_agree_iff (h : LengthsAgree req.headers req.body) (rules : List SessionRule) :
    (∀ initial, initial <+: rules →
      LengthsAgree (initial.foldl (applyRule E L vars tool) (req, false)).1.headers
        (initial.foldl (applyRule E L vars tool) (req, false)).1.body) ↔
      RulesKeep E L vars tool req rules := by
  rw [← rulesKeep_iff_along rules req false]
  refine throughout_iff_along (I := fun _ => True)
    (P := fun state : ProxiedRequest × Bool => LengthsAgree state.1.headers state.1.body)
    (fun _ _ _ => trivial) ?_ trivial h rules
  intro state r _ hstate
  rw [applyRule_fst state.1 state.2]
  exact applyRule_agrees_iff hstate

end Runs

section Bodies
variable (E : RegexEngine) (L : TextLibrary) (R : ReplaceEngine)

def rewriteStep (host : QString) (state : QByteArray × Bool) (r : MatchReplaceRule) :
    QByteArray × Bool :=
  if !r.enabled || (!r.hostAll && !E.hasMatch r.host host) then state
  else
    match rewriteBody L R r state.1 with
    | none => state
    | some body => (body, true)

/-- The body that the body rules leave, and whether one of them changed it. -/
def rewriteBodies (host : QString) (rules : List MatchReplaceRule) (body : QByteArray) :
    QByteArray × Bool :=
  rules.foldl (rewriteStep E L R host) (body, false)

/-- A body that changes is below two gibibytes, with one length or of the same size. -/
def BodyRulesSuit (rules : List MatchReplaceRule) (req : ProxiedRequest) : Prop :=
  (rewriteBodies E L R req.host rules req.body).2 = true →
    contentLengths req.headers = [] ∨
      ((rewriteBodies E L R req.host rules req.body).1.length < 2 ^ 31 ∧
        ((contentLengths req.headers).length = 1 ∨
          (rewriteBodies E L R req.host rules req.body).1.length = req.body.length))

end Bodies

theorem applyMatchReplace_body (hr : r.ruleSection = .reqBody) (req : ProxiedRequest)
    (state : QByteArray × Bool) :
    applyMatchReplace E L R ({ req with body := state.1 }, state.2) r =
      ({ req with body := (rewriteStep E L R req.host state r).1 },
        (rewriteStep E L R req.host state r).2) := by
  rw [applyMatchReplace, rewriteStep, hr]
  dsimp only
  cases r.enabled with
  | false => rfl
  | true =>
    cases (!r.hostAll && !E.hasMatch r.host req.host) with
    | true => rfl
    | false =>
      simp only [Bool.not_true, Bool.or_self, Bool.false_eq_true, ↓reduceIte]
      cases rewriteBody L R r state.1 <;> rfl

theorem foldl_applyMatchReplace {rules : List MatchReplaceRule}
    (hall : ∀ r ∈ rules, r.ruleSection = .reqBody) (req : ProxiedRequest)
    (state : QByteArray × Bool) :
    rules.foldl (applyMatchReplace E L R) ({ req with body := state.1 }, state.2) =
      ({ req with body := (rules.foldl (rewriteStep E L R req.host) state).1 },
        (rules.foldl (rewriteStep E L R req.host) state).2) := by
  induction rules generalizing state with
  | nil => rfl
  | cons r rules ih =>
    rw [List.forall_mem_cons] at hall
    rw [List.foldl_cons, List.foldl_cons, applyMatchReplace_body hall.1, ih hall.2]

theorem rewriteBodies_unchanged {rules : List MatchReplaceRule}
    (h : (rules.foldl (rewriteStep E L R host) state).2 = false) :
    rules.foldl (rewriteStep E L R host) state = state := by
  induction rules generalizing state with
  | nil => rfl
  | cons r rules ih =>
    rw [List.foldl_cons] at h ⊢
    have hrest := ih h
    rw [hrest] at h ⊢
    rw [rewriteStep] at h ⊢
    split at h
    · rename_i hskip
      rw [if_pos hskip]
    · rename_i hskip
      rw [if_neg hskip]
      split at h
      · rfl
      · cases h

theorem SaysLength.digits (h : SaysLength n v) (hc : c ∈ v) :
    isDigit c = true ∨ c = 0x2C ∨ isOwsChar c = true := by
  by_cases hcomma : c = 0x2C
  · exact .inr (.inl hcomma)
  · cases hows : isOwsChar c with
    | true => exact .inr (.inr rfl)
    | false =>
      obtain ⟨e, he, hce⟩ := exists_mem_splitOn hc hcomma
      have hv := h _ (List.mem_map.2 ⟨e, he, rfl⟩)
      rw [numeralValue, Option.ite_none_right_eq_some] at hv
      exact .inl ((isNumeral_iff.1 hv.1).2 c (mem_trimWith hce hows))

theorem saysLength_number (n : Nat) : SaysLength n (fromLatin1 (QByteArray.number n)) := by
  intro e he
  obtain ⟨e', he', htrim⟩ := List.mem_map.1 he
  rw [← htrim]
  exact number_element n he'

theorem saysLength_asInt_iff (n : Nat) :
    SaysLength n (fromLatin1 (QByteArray.number (asInt n))) ↔ n < 2 ^ 31 := by
  constructor
  · intro h
    rw [asInt] at h
    split at h
    · rename_i hlt
      have he := h.unique (saysLength_number (n % 2 ^ 32))
      omega
    · rename_i hge
      obtain ⟨k, hk⟩ := Int.exists_eq_neg_ofNat
        (by omega : ((n % 2 ^ 32 : Nat) : Int) - 2 ^ 32 ≤ 0)
      have hminus : 0x2D ∈
          fromLatin1 (QByteArray.number (((n % 2 ^ 32 : Nat) : Int) - 2 ^ 32)) := by
        rw [hk]
        cases k with
        | zero => omega
        | succ k => exact List.mem_cons_self
      rcases h.digits hminus with hd | hd | hd
      · cases hd
      · cases hd
      · cases hd
  · intro h
    have he : asInt n = n := by
      rw [asInt, Nat.mod_eq_of_lt (by omega), if_pos h]
    rw [he]
    exact saysLength_number n

theorem fixContentLength_agrees_iff (h : LengthsAgree headers body) (body' : QByteArray) :
    LengthsAgree (fixContentLength (asInt body'.length) headers) body' ↔
      contentLengths headers = [] ∨ (body'.length < 2 ^ 31 ∧
        ((contentLengths headers).length = 1 ∨ body'.length = body.length)) := by
  rw [LengthsAgree, contentLengths_fixContentLength]
  cases hl : contentLengths headers with
  | nil => exact ⟨fun _ => .inl rfl, fun _ _ hv => (nomatch hv)⟩
  | cons v lengths =>
    rw [LengthsAgree, hl] at h
    dsimp only
    rw [List.forall_mem_cons, saysLength_asInt_iff]
    constructor
    · intro h'
      refine .inr ⟨h'.1, ?_⟩
      cases lengths with
      | nil => exact .inl rfl
      | cons w lengths =>
        have hw : w ∈ v :: w :: lengths := List.mem_cons_of_mem _ List.mem_cons_self
        exact .inr ((h'.2 w List.mem_cons_self).unique (h w hw))
    · intro h'
      rcases h' with hnil | ⟨hlt, hone | hsame⟩
      · cases hnil
      · rw [List.length_cons, Nat.add_eq_right, List.length_eq_zero_iff] at hone
        rw [hone]
        exact ⟨hlt, fun _ hw => (nomatch hw)⟩
      · rw [hsame]
        rw [hsame] at hlt
        exact ⟨hlt, fun w hw => h w (List.mem_cons_of_mem _ hw)⟩

theorem applyRules_agrees_iff {rules : List MatchReplaceRule} {req : ProxiedRequest}
    (h : LengthsAgree req.headers req.body) (hall : ∀ r ∈ rules, r.ruleSection = .reqBody) :
    LengthsAgree (applyRules E L R rules req).headers (applyRules E L R rules req).body ↔
      BodyRulesSuit E L R rules req := by
  have hfold := foldl_applyMatchReplace (E := E) (L := L) (R := R) hall req (req.body, false)
  rw [applyRules, BodyRulesSuit, rewriteBodies]
  dsimp only at hfold
  rw [hfold]
  cases hflag : (rules.foldl (rewriteStep E L R req.host) (req.body, false)).2 with
  | false =>
    rw [rewriteBodies_unchanged hflag]
    exact ⟨fun _ hf => (nomatch hf), fun _ => h⟩
  | true =>
    dsimp only
    rw [fixContentLength_agrees_iff h]
    exact ⟨fun h' _ => h', fun h' => h' rfl⟩

theorem injectInto_lengths (L : TextLibrary) (byHost : QString → Option SessionManager.HostSession)
    (nowSec : Int) (req : ProxiedRequest) :
    contentLengths (SessionManager.injectInto L byHost nowSec req).headers =
        contentLengths req.headers ∧
      (SessionManager.injectInto L byHost nowSec req).body = req.body := by
  rw [SessionManager.injectInto]
  split
  · exact ⟨rfl, rfl⟩
  · split
    · exact ⟨rfl, rfl⟩
    · split
      · exact ⟨rfl, rfl⟩
      · dsimp only
        split
        · exact ⟨rfl, rfl⟩
        · exact ⟨contentLengths_updateCookie _ _, rfl⟩

def preparedRequest (E : RegexEngine) (L : TextLibrary) (R : ReplaceEngine) (server : RewriteState)
    (nowSec : Int) (req : ProxiedRequest) : ProxiedRequest :=
  let req := applyRules E L R server.rules req
  match server.sessionManager with
  | none => req
  | some byHost => SessionManager.injectInto L byHost nowSec req

theorem preparedRequest_agrees_iff (E : RegexEngine) (L : TextLibrary) (R : ReplaceEngine)
    (server : RewriteState) (nowSec : Int) (req : ProxiedRequest) :
    LengthsAgree (preparedRequest E L R server nowSec req).headers
        (preparedRequest E L R server nowSec req).body ↔
      LengthsAgree (applyRules E L R server.rules req).headers
        (applyRules E L R server.rules req).body := by
  rw [preparedRequest]
  cases server.sessionManager with
  | none => exact Iff.rfl
  | some byHost =>
    obtain ⟨hl, hb⟩ := injectInto_lengths L byHost nowSec (applyRules E L R server.rules req)
    rw [LengthsAgree, LengthsAgree, hl, hb]

def withSessionRules (server : RewriteState) (rules : List SessionRule)
    (varsByHost : QString → QString → Option QString) : RewriteState :=
  { server with sessionRules := some (rules, varsByHost) }

theorem applyRequestRules_eq (server : RewriteState) (rules : List SessionRule)
    (varsByHost : QString → QString → Option QString) (req : ProxiedRequest)
    (hscope : isUrlInScope E server.scope req.tls req.host req.port req.path = true) :
    applyRequestRules E L R (withSessionRules server rules varsByHost) nowSec req =
      (applyToRequest E L rules varsByHost ToolProxy
        (preparedRequest E L R server nowSec req)).1 := by
  rw [applyRequestRules, withSessionRules]
  dsimp only
  rw [hscope]
  rfl

theorem applyRequestRules_outOfScope (server : RewriteState) (req : ProxiedRequest)
    (hscope : isUrlInScope E server.scope req.tls req.host req.port req.path = false) :
    applyRequestRules E L R server nowSec req = req := by
  rw [applyRequestRules, hscope]
  rfl

theorem proxied_lengths_iff {server : RewriteState} {req : ProxiedRequest}
    (h : LengthsAgree req.headers req.body)
    (hall : ∀ r ∈ server.rules, r.ruleSection = .reqBody) (rules : List SessionRule)
    (varsByHost : QString → QString → Option QString) :
    (∀ initial, initial <+: rules →
      LengthsAgree
        (applyRequestRules E L R (withSessionRules server initial varsByHost) nowSec req).headers
        (applyRequestRules E L R (withSessionRules server initial varsByHost) nowSec req).body) ↔
      (isUrlInScope E server.scope req.tls req.host req.port req.path = true →
        BodyRulesSuit E L R server.rules req ∧
          RulesKeep E L (varsByHost (preparedRequest E L R server nowSec req).host) ToolProxy
            (preparedRequest E L R server nowSec req) rules) := by
  cases hscope : isUrlInScope E server.scope req.tls req.host req.port req.path with
  | false =>
    constructor
    · intro _ hf
      cases hf
    · intro _ initial _
      rw [applyRequestRules_outOfScope (withSessionRules server initial varsByHost) req hscope]
      exact h
  | true =>
    have hprepared := preparedRequest_agrees_iff E L R server nowSec req
    constructor
    · intro h' _
      have hstart := h' [] List.nil_prefix
      rw [applyRequestRules_eq _ _ _ _ hscope] at hstart
      have hsuit := (applyRules_agrees_iff h hall).1 (hprepared.1 hstart)
      refine ⟨hsuit, (rules_agree_iff hstart rules).1 ?_⟩
      intro initial hi
      have hrun := h' initial hi
      rw [applyRequestRules_eq _ _ _ _ hscope] at hrun
      exact hrun
    · intro h' initial hi
      obtain ⟨hsuit, hkeep⟩ := h' rfl
      have hstart := hprepared.2 ((applyRules_agrees_iff h hall).2 hsuit)
      rw [applyRequestRules_eq _ _ _ _ hscope]
      exact (rules_agree_iff hstart rules).2 hkeep initial hi

end Nullock.Proxy

import Nullock.EncodedTexts
import Nullock.ExtensionIdle
import Nullock.InjectionContained

namespace Nullock.Proxy
open ScopeLogic HttpLogic
open ExtensionsApi (IsUtf8 toUtf8_fromUtf8_iff)

structure Match where
  gap : Nat
  length : Nat
  replacement : QString
deriving DecidableEq

/-- The matches of an expression, with what a rule puts in their place. -/
structure MatchEngine where
  isValid : QRegularExpression → Bool
  found : QRegularExpression → QString → QString → List Match

def splice : List Match → QString → QString
  | [], s => s
  | m :: ms, s => s.take m.gap ++ (m.replacement ++ splice ms (s.drop (m.gap + m.length)))

def MatchEngine.replacing (M : MatchEngine) : ReplaceEngine where
  isValid := M.isValid
  replace find after s := splice (M.found find after s) s

inductive ResponseSection where
  | respStatus
  | respHeader
  | respBody
deriving DecidableEq

structure ResponseRule extends MatchReplaceRule where
  part : ResponseSection

def responseLine (resp : HttpResponse) : QString :=
  resp.httpVersion ++ utf16 " " ++ fromLatin1 (QByteArray.number resp.statusCode) ++ utf16 " " ++
    resp.reasonPhrase

def rewriteStatus (R : ReplaceEngine) (r : MatchReplaceRule) (resp : HttpResponse) :
    HttpResponse :=
  match applyOne R r (responseLine resp) with
  | none => resp
  | some line =>
    match line.splitOn 0x20 with
    | version :: code :: reason =>
      { resp with
        httpVersion := version
        statusCode := QString.toInt code
        reasonPhrase := [0x20].intercalate reason }
    | _ => resp

def applyResponseRule (E : RegexEngine) (L : TextLibrary) (R : ReplaceEngine) (host : QString)
    (state : HttpResponse × Bool) (r : ResponseRule) : HttpResponse × Bool :=
  let resp := state.1
  if !r.enabled then state
  else if !r.hostAll && !E.hasMatch r.host host then state
  else if r.ruleSection ≠ .response then state
  else
    match r.part with
    | .respStatus => (rewriteStatus R r.toMatchReplaceRule resp, state.2)
    | .respHeader =>
      ({ resp with headers := resp.headers.map (rewriteHeader R r.toMatchReplaceRule) }, state.2)
    | .respBody =>
      match rewriteBody L R r.toMatchReplaceRule resp.body with
      | none => state
      | some body => ({ resp with body := body }, true)

def applyResponseRules (E : RegexEngine) (L : TextLibrary) (R : ReplaceEngine) (scope : Scope)
    (rules : List ResponseRule) (req : ProxiedRequest) (resp : HttpResponse) : HttpResponse :=
  if rules.isEmpty then resp
  else if !isUrlInScope E scope req.tls req.host req.port req.path then resp
  else
    match rules.foldl (applyResponseRule E L R req.host) (resp, false) with
    | (resp, true) =>
      { resp with headers := fixContentLength (asInt resp.body.length) resp.headers }
    | (resp, false) => resp

/-- The bytes between the matches are the same in both, in their order. -/
inductive Spliced : List Match → QString → QByteArray → QByteArray → Prop where
  | nil (h : fromUtf8 rest = s) : Spliced [] s rest rest
  | cons (hkept : fromUtf8 kept = s.take m.gap)
      (hcut : fromUtf8 cut = (s.drop m.gap).take m.length)
      (h : Spliced ms (s.drop (m.gap + m.length)) before after) :
      Spliced (m :: ms) s (kept ++ (cut ++ before)) (kept ++ (new ++ after))

theorem Spliced.front (h : Spliced (m :: ms) s before after) :
    ∃ kept, fromUtf8 kept = s.take m.gap ∧ kept <+: before ∧ kept <+: after := by
  cases h with
  | cons hkept => exact ⟨_, hkept, ⟨_, rfl⟩, ⟨_, rfl⟩⟩

def Touched (M : MatchEngine) (r : MatchReplaceRule) (before after : QByteArray) : Prop :=
  after = before ∨
    Spliced (M.found r.find r.replace (QString.fromUtf8 before)) (QString.fromUtf8 before) before
      after

/-- Rules applied one after another, each to what the last one left. -/
inductive TouchedBy (M : MatchEngine) : List MatchReplaceRule → QByteArray → QByteArray → Prop where
  | nil : TouchedBy M [] body body
  | cons (h : Touched M r before body) (hrest : TouchedBy M rules body after) :
      TouchedBy M (r :: rules) before after

def Whole : List Match → QString → Prop
  | [], _ => True
  | m :: ms, s =>
    wellFormed (s.take m.gap) = true ∧ wellFormed ((s.drop m.gap).take m.length) = true ∧
      wellFormed (s.drop (m.gap + m.length)) = true ∧ Whole ms (s.drop (m.gap + m.length))

def rewritten (M : MatchEngine) (r : MatchReplaceRule) (body : QByteArray) : QByteArray :=
  match applyOne M.replacing r (QString.fromUtf8 body) with
  | none => body
  | some text => toUtf8 text

def Lossless (M : MatchEngine) (r : MatchReplaceRule) (body : QByteArray) : Prop :=
  applyOne M.replacing r (QString.fromUtf8 body) = none ∨
    IsUtf8 body ∧ Whole (M.found r.find r.replace (QString.fromUtf8 body)) (QString.fromUtf8 body)

def AllLossless (M : MatchEngine) : List MatchReplaceRule → QByteArray → Prop
  | [], _ => True
  | r :: rules, body => Lossless M r body ∧ AllLossless M rules (rewritten M r body)

theorem encodeUnit_head (h : a ≠ [] ∨ ∀ d ∈ b.head?, isLowSurrogate d = false) (n : Nat) :
    encodeUnit n (a ++ b) = encodeUnit n a := by
  cases a with
  | cons d a => rfl
  | nil =>
    have hlow := h.resolve_left (fun hne => hne rfl)
    cases b with
    | nil => rfl
    | cons d b =>
      have hd := hlow d rfl
      rw [List.nil_append, encodeUnit, encodeUnit, List.head?_cons, List.head?_nil]
      dsimp only
      rw [hd, if_neg Bool.false_ne_true]

theorem unfoldFrom_encodeUnit_head (h : ∀ d ∈ b.head?, isLowSurrogate d = false)
    (hskip : skip ≤ a.length) :
    unfoldFrom encodeUnit skip (a ++ b) = unfoldFrom encodeUnit skip a ++ encodeUnits b := by
  induction a generalizing skip with
  | nil =>
    rw [Nat.le_zero.1 hskip]
    rfl
  | cons n a ih =>
    cases skip with
    | zero =>
      rw [List.cons_append, unfoldFrom, unfoldFrom, encodeUnit_head (.inr h),
        ih (encodeUnit_taken_le n a), List.append_assoc]
    | succ skip => exact ih (Nat.le_of_succ_le_succ hskip)

theorem head_of_wellFormed (h : wellFormed b = true) :
    ∀ d ∈ (b.map UInt16.toNat).head?, isLowSurrogate d = false := by
  cases b with
  | nil => exact fun d hd => absurd hd (by simp)
  | cons c b =>
    intro d hd
    obtain rfl : c.toNat = d := Option.some.inj hd
    rw [wellFormed, List.map_cons, wellFormedUnits.eq_def] at h
    dsimp only at h
    split at h
    · rename_i hhigh
      rw [isHighSurrogate, Bool.and_eq_true, decide_eq_true_eq, decide_eq_true_eq] at hhigh
      rw [isLowSurrogate, Bool.and_eq_false_iff, decide_eq_false_iff_not]
      exact .inl (by omega)
    · exact Bool.not_eq_true' _ ▸ (Bool.and_eq_true_iff.1 h).1

/-- A text that begins with no second half takes nothing in front of it. -/
theorem toUtf8_append_head {b : QString}
    (h : ∀ d ∈ (b.map UInt16.toNat).head?, isLowSurrogate d = false) (a : QString) :
    toUtf8 (a ++ b) = toUtf8 a ++ toUtf8 b := by
  rw [toUtf8, toUtf8, toUtf8, List.map_append, encodeUnits,
    unfoldFrom_encodeUnit_head h (Nat.zero_le _), List.map_append]
  rfl

theorem spliced_text (hwhole : Whole ms s) (hs : wellFormed s = true) (pending : QString) :
    ∃ new after, toUtf8 (pending ++ splice ms s) = new ++ after ∧ (pending = [] → new = []) ∧
      Spliced ms s (toUtf8 s) after := by
  induction ms generalizing s pending with
  | nil =>
    refine ⟨toUtf8 pending, toUtf8 s, toUtf8_append_head (head_of_wellFormed hs) pending, ?_, ?_⟩
    · rintro rfl
      rfl
    · exact .nil (fromUtf8_toUtf8 hs)
  | cons m ms ih =>
    obtain ⟨hkept, hcut, hrest, hwhole⟩ := hwhole
    have hparts : s = s.take m.gap ++
        ((s.drop m.gap).take m.length ++ s.drop (m.gap + m.length)) := by
      rw [← List.drop_drop, List.take_append_drop, List.take_append_drop]
    have hbytes : toUtf8 s = toUtf8 (s.take m.gap) ++
        (toUtf8 ((s.drop m.gap).take m.length) ++ toUtf8 (s.drop (m.gap + m.length))) := by
      rw [← toUtf8_wellFormed_append hcut, ← toUtf8_wellFormed_append hkept, ← hparts]
    have hk := fromUtf8_toUtf8 hkept
    have hc := fromUtf8_toUtf8 hcut
    rw [splice, hbytes]
    cases hempty : s.take m.gap with
    | nil =>
      -- nothing is kept in front, so what is pending runs into the replacement
      obtain ⟨new, after, hnew, -, hspliced⟩ := ih hwhole hrest (pending ++ m.replacement)
      refine ⟨[], new ++ after, ?_, fun _ => rfl, ?_⟩
      · rw [List.nil_append, List.nil_append, ← List.append_assoc, hnew]
      · rw [hempty] at hk
        exact .cons (hk.trans hempty.symm) hc hspliced
    | cons c kept =>
      obtain ⟨new, after, hnew, -, hspliced⟩ := ih hwhole hrest m.replacement
      rw [← hempty]
      refine ⟨toUtf8 pending, toUtf8 (s.take m.gap) ++ (new ++ after), ?_, ?_,
        .cons hk hc hspliced⟩
      swap
      · rintro rfl
        rfl
      have hhead : ∀ d ∈ ((s.take m.gap ++
          (m.replacement ++ splice ms (s.drop (m.gap + m.length)))).map UInt16.toNat).head?,
          isLowSurrogate d = false := by
        have hfirst := head_of_wellFormed hkept
        rw [hempty] at hfirst ⊢
        exact hfirst
      rw [toUtf8_append_head hhead, toUtf8_wellFormed_append hkept, hnew]

/-- A rule that is lossless on a body touches only what it matched. -/
theorem rewritten_touched (h : Lossless M r body) : Touched M r body (rewritten M r body) := by
  rw [rewritten]
  cases hone : applyOne M.replacing r (QString.fromUtf8 body) with
  | none => exact .inl rfl
  | some text =>
    right
    rcases h with hnone | ⟨hutf8, hwhole⟩
    · rw [hnone] at hone
      cases hone
    · have hback := (toUtf8_fromUtf8_iff body).2 hutf8
      have htext : text = splice (M.found r.find r.replace (QString.fromUtf8 body))
          (QString.fromUtf8 body) := by
        rw [applyOne] at hone
        split at hone
        · cases hone
        · dsimp only at hone
          split at hone
          · exact (Option.some.inj hone).symm
          · cases hone
      obtain ⟨new, after, hnew, hfront, hspliced⟩ :=
        spliced_text hwhole (wellFormed_fromUtf8 _) []
      rw [List.nil_append, hfront rfl, List.nil_append, ← htext] at hnew
      rw [hback] at hspliced
      dsimp only
      rw [hnew]
      exact hspliced

theorem rules_touched (h : AllLossless M rules body) :
    TouchedBy M rules body (rules.foldl (fun body r => rewritten M r body) body) := by
  induction rules generalizing body with
  | nil => exact .nil
  | cons r rules ih => exact .cons (rewritten_touched h.1) (ih h.2)

theorem rules_unmatched {M : MatchEngine} {rules : List MatchReplaceRule} {body : QByteArray}
    (h : ∀ r ∈ rules, M.found r.find r.replace (QString.fromUtf8 body) = []) :
    rules.foldl (fun body r => rewritten M r body) body = body := by
  induction rules with
  | nil => rfl
  | cons r rules ih =>
    have hone : applyOne M.replacing r (QString.fromUtf8 body) = none := by
      rw [applyOne]
      split
      · rfl
      · dsimp only [MatchEngine.replacing]
        rw [h r List.mem_cons_self, splice, if_neg (fun hne => hne rfl)]
    rw [List.foldl_cons, rewritten, hone]
    exact ih (fun r hr => h r (List.mem_cons_of_mem _ hr))

section Loops
variable {E : RegexEngine} {L : TextLibrary} {M : MatchEngine}

def requestRules (E : RegexEngine) (rules : List MatchReplaceRule) (host : QString) :
    List MatchReplaceRule :=
  rules.filter (fun r =>
    r.enabled && (r.hostAll || E.hasMatch r.host host) && r.ruleSection == .reqBody)

def responseRules (E : RegexEngine) (rules : List ResponseRule) (host : QString) :
    List MatchReplaceRule :=
  (rules.filter (fun r => r.enabled && (r.hostAll || E.hasMatch r.host host) &&
    r.ruleSection == .response && r.part == .respBody)).map ResponseRule.toMatchReplaceRule

theorem rewriteBody_eq (hto : L.toUtf8 = toUtf8) (hfrom : L.fromUtf8 = QString.fromUtf8)
    (r : MatchReplaceRule) (body : QByteArray) :
    (rewriteBody L M.replacing r body).getD body = rewritten M r body := by
  rw [rewriteBody, rewritten, hto, hfrom]
  cases applyOne M.replacing r (QString.fromUtf8 body) with
  | none => rfl
  | some text => rfl

theorem requestRule_step (hto : L.toUtf8 = toUtf8) (hfrom : L.fromUtf8 = QString.fromUtf8)
    (state : ProxiedRequest × Bool) (r : MatchReplaceRule) :
    (applyMatchReplace E L M.replacing state r).1.host = state.1.host ∧
      (applyMatchReplace E L M.replacing state r).1.body =
        if r.enabled && (r.hostAll || E.hasMatch r.host state.1.host) && r.ruleSection == .reqBody
          then rewritten M r state.1.body else state.1.body := by
  have hbody := rewriteBody_eq (M := M) hto hfrom r state.1.body
  rw [applyMatchReplace]
  cases r.enabled with
  | false => exact ⟨rfl, rfl⟩
  | true =>
    cases hhost : !r.hostAll && !E.hasMatch r.host state.1.host with
    | true =>
      have hskip : (r.hostAll || E.hasMatch r.host state.1.host) = false := by
        simpa using hhost
      rw [hskip]
      exact ⟨rfl, rfl⟩
    | false =>
      have hfire : (r.hostAll || E.hasMatch r.host state.1.host) = true := by
        simpa [Bool.or_eq_true, imp_iff_not_or] using hhost
      rw [hfire]
      cases r.ruleSection with
      | reqBody =>
        rw [← hbody]
        cases rewriteBody L M.replacing r state.1.body with
        | none => exact ⟨rfl, rfl⟩
        | some body => exact ⟨rfl, rfl⟩
      | _ => exact ⟨rfl, rfl⟩

theorem requestRules_body (hto : L.toUtf8 = toUtf8) (hfrom : L.fromUtf8 = QString.fromUtf8)
    (rules : List MatchReplaceRule) (state : ProxiedRequest × Bool) :
    (rules.foldl (applyMatchReplace E L M.replacing) state).1.body =
      (requestRules E rules state.1.host).foldl (fun body r => rewritten M r body)
        state.1.body := by
  induction rules generalizing state with
  | nil => rfl
  | cons r rules ih =>
    obtain ⟨hhost, hbody⟩ := requestRule_step (E := E) hto hfrom state r
    rw [List.foldl_cons, ih, hhost, hbody, requestRules, requestRules, List.filter_cons]
    split
    · rfl
    · rfl

theorem rewriteStatus_body (R : ReplaceEngine) (r : MatchReplaceRule) (resp : HttpResponse) :
    (rewriteStatus R r resp).body = resp.body := by
  rw [rewriteStatus]
  split
  · rfl
  · split
    · rfl
    · rfl

theorem responseRule_step (hto : L.toUtf8 = toUtf8) (hfrom : L.fromUtf8 = QString.fromUtf8)
    (host : QString) (state : HttpResponse × Bool) (r : ResponseRule) :
    (applyResponseRule E L M.replacing host state r).1.body =
      if r.enabled && (r.hostAll || E.hasMatch r.host host) && r.ruleSection == .response &&
          r.part == .respBody
        then rewritten M r.toMatchReplaceRule state.1.body else state.1.body := by
  have hbody := rewriteBody_eq (M := M) hto hfrom r.toMatchReplaceRule state.1.body
  rw [applyResponseRule]
  cases r.enabled with
  | false => rfl
  | true =>
    cases hhost : !r.hostAll && !E.hasMatch r.host host with
    | true =>
      have hskip : (r.hostAll || E.hasMatch r.host host) = false := by simpa using hhost
      rw [hskip]
      rfl
    | false =>
      have hfire : (r.hostAll || E.hasMatch r.host host) = true := by
        simpa [Bool.or_eq_true, imp_iff_not_or] using hhost
      rw [hfire]
      cases r.ruleSection with
      | response =>
        cases r.part with
        | respBody =>
          rw [← hbody]
          cases rewriteBody L M.replacing r.toMatchReplaceRule state.1.body with
          | none => rfl
          | some body => rfl
        | respHeader => rfl
        | respStatus => exact rewriteStatus_body _ _ _
      | _ => rfl

theorem responseRules_body (hto : L.toUtf8 = toUtf8) (hfrom : L.fromUtf8 = QString.fromUtf8)
    (host : QString) (rules : List ResponseRule) (state : HttpResponse × Bool) :
    (rules.foldl (applyResponseRule E L M.replacing host) state).1.body =
      (responseRules E rules host).foldl (fun body r => rewritten M r body) state.1.body := by
  induction rules generalizing state with
  | nil => rfl
  | cons r rules ih =>
    rw [List.foldl_cons, ih, responseRule_step hto hfrom, responseRules, responseRules,
      List.filter_cons]
    split
    · rfl
    · rfl

theorem applyRequestRules_body (hto : L.toUtf8 = toUtf8) (hfrom : L.fromUtf8 = QString.fromUtf8)
    (scope : Scope) (rules : List MatchReplaceRule)
    (sessionManager : Option (QString → Option SessionManager.HostSession)) (nowSec : Int)
    (req : ProxiedRequest) :
    (applyRequestRules E L M.replacing ⟨scope, rules, sessionManager, none⟩ nowSec req).body =
      if isUrlInScope E scope req.tls req.host req.port req.path then
        (requestRules E rules req.host).foldl (fun body r => rewritten M r body) req.body
      else req.body := by
  have hrules : (applyRules E L M.replacing rules req).body =
      (requestRules E rules req.host).foldl (fun body r => rewritten M r body) req.body := by
    have hfold := requestRules_body (E := E) (M := M) hto hfrom rules (req, false)
    rw [applyRules]
    split
    · rename_i heq
      rw [heq] at hfold
      exact hfold
    · rename_i heq
      rw [heq] at hfold
      exact hfold
  rw [applyRequestRules]
  dsimp only
  cases isUrlInScope E scope req.tls req.host req.port req.path with
  | false => rfl
  | true =>
    cases sessionManager with
    | none => exact hrules
    | some byHost => exact (injectInto_lengths L byHost nowSec _).2.trans hrules

theorem applyResponseRules_body (hto : L.toUtf8 = toUtf8) (hfrom : L.fromUtf8 = QString.fromUtf8)
    (scope : Scope) (rules : List ResponseRule) (req : ProxiedRequest) (resp : HttpResponse) :
    (applyResponseRules E L M.replacing scope rules req resp).body =
      if isUrlInScope E scope req.tls req.host req.port req.path then
        (responseRules E rules req.host).foldl (fun body r => rewritten M r body) resp.body
      else resp.body := by
  have hfold := responseRules_body (E := E) (M := M) hto hfrom req.host rules (resp, false)
  rw [applyResponseRules]
  cases rules with
  | nil =>
    rw [List.isEmpty_nil, if_pos rfl]
    split
    · rfl
    · rfl
  | cons r rules =>
    rw [List.isEmpty_cons, if_neg Bool.false_ne_true]
    cases isUrlInScope E scope req.tls req.host req.port req.path with
    | false => rfl
    | true =>
      rw [Bool.not_true, if_neg Bool.false_ne_true, if_pos rfl]
      split
      · rename_i heq
        rw [heq] at hfold
        exact hfold
      · rename_i heq
        rw [heq] at hfold
        exact hfold

theorem touchedBy_same (rules : List MatchReplaceRule) (body : QByteArray) :
    TouchedBy M rules body body := by
  induction rules with
  | nil => exact .nil
  | cons r rules ih => exact .cons (.inl rfl) ih

end Loops

/-- Lossless rules touch only what they matched in a body, one after another. -/
theorem bodies_touched {L : TextLibrary} (hto : L.toUtf8 = toUtf8)
    (hfrom : L.fromUtf8 = QString.fromUtf8) (E : RegexEngine) (M : MatchEngine) (scope : Scope) :
    (∀ (rules : List MatchReplaceRule)
        (sessionManager : Option (QString → Option SessionManager.HostSession)) (nowSec : Int)
        (req : ProxiedRequest),
      let after := (applyRequestRules E L M.replacing ⟨scope, rules, sessionManager, none⟩ nowSec
        req).body
      (AllLossless M (requestRules E rules req.host) req.body →
        TouchedBy M (requestRules E rules req.host) req.body after) ∧
      ((∀ r ∈ requestRules E rules req.host,
          M.found r.find r.replace (QString.fromUtf8 req.body) = []) → after = req.body)) ∧
    ∀ (rules : List ResponseRule) (req : ProxiedRequest) (resp : HttpResponse),
      let after := (applyResponseRules E L M.replacing scope rules req resp).body
      (AllLossless M (responseRules E rules req.host) resp.body →
        TouchedBy M (responseRules E rules req.host) resp.body after) ∧
      ((∀ r ∈ responseRules E rules req.host,
          M.found r.find r.replace (QString.fromUtf8 resp.body) = []) → after = resp.body) := by
  constructor
  · intro rules sessionManager nowSec req
    dsimp only
    rw [applyRequestRules_body hto hfrom]
    split
    · exact ⟨rules_touched, rules_unmatched⟩
    · exact ⟨fun _ => touchedBy_same _ _, fun _ => rfl⟩
  · intro rules req resp
    dsimp only
    rw [applyResponseRules_body hto hfrom]
    split
    · exact ⟨rules_touched, rules_unmatched⟩
    · exact ⟨fun _ => touchedBy_same _ _, fun _ => rfl⟩

def markLibrary : TextLibrary where
  toUtf8 := toUtf8
  fromUtf8 := QString.fromUtf8
  toPercentEncoding := SessionRules.qtLibrary.toPercentEncoding
  fromPercentEncoding := SessionRules.qtLibrary.fromPercentEncoding
  lowerCase := SessionRules.qtLibrary.lowerCase
  caseFold := SessionRules.qtLibrary.caseFold
  arg := SessionRules.qtLibrary.arg
  jsonArray := SessionRules.qtLibrary.jsonArray
  caseFold_ascii := SessionRules.qtLibrary.caseFold_ascii
  percentEncoded_oneLine s := by
    have hascii : ∀ c ∈ SessionRules.qtLibrary.toPercentEncoding s, c < 0x80 :=
      SessionRules.encoded_ascii SessionRules.qtLibrary_documented
    have hmark : [0xEF, 0xBB, 0xBF].isPrefixOf (SessionRules.qtLibrary.toPercentEncoding s) =
        false := by
      apply Bool.eq_false_of_not_eq_true
      intro hp
      have hm := (List.isPrefixOf_iff_prefix.1 hp).subset List.mem_cons_self
      exact absurd (hascii _ hm) (by decide)
    rw [QString.fromUtf8, hmark, if_neg Bool.false_ne_true]
    exact SessionRules.qtLibrary.percentEncoded_oneLine s
  arg_mem := SessionRules.qtLibrary.arg_mem

def letterEngine : MatchEngine where
  isValid _ := true
  found _ after s :=
    match indexOf (utf16 "a") s with
    | none => []
    | some i => [⟨i, 1, after⟩]

def letterRule : ResponseRule where
  ruleSection := .response
  find := { pattern := utf16 "a" }
  replace := utf16 "b"
  part := .respBody

def letterRequest : ProxiedRequest :=
  { plainRequest with host := utf16 "a", port := 80, tls := false }

def letterResponse (body : QByteArray) : HttpResponse where
  httpVersion := utf16 "HTTP/1.1"
  statusCode := 200
  reasonPhrase := utf16 "OK"
  headers := []
  body := body

theorem bodies_touched_letter :
    TouchedBy letterEngine [letterRule.toMatchReplaceRule] (latin1 "xay")
      (applyResponseRules anyMatch markLibrary letterEngine.replacing ⟨[], [], []⟩ [letterRule]
        letterRequest (letterResponse (latin1 "xay"))).body := by
  have hlossless : AllLossless letterEngine [letterRule.toMatchReplaceRule] (latin1 "xay") := by
    refine ⟨.inr ⟨⟨⟨utf16 "xay", rfl, rfl⟩, rfl⟩, ?_⟩, trivial⟩
    exact ⟨rfl, rfl, rfl, trivial⟩
  exact ((bodies_touched (L := markLibrary) rfl rfl anyMatch letterEngine ⟨[], [], []⟩).2
    [letterRule] letterRequest (letterResponse (latin1 "xay"))).1 hlossless

/-- A byte that is no text is replaced, although no rule matched it. -/
theorem unmatched_byte_changed :
    ¬TouchedBy letterEngine [letterRule.toMatchReplaceRule] [0xFF, 0x61]
      (applyResponseRules anyMatch markLibrary letterEngine.replacing ⟨[], [], []⟩ [letterRule]
        letterRequest (letterResponse [0xFF, 0x61])).body := by
  have hafter : (applyResponseRules anyMatch markLibrary letterEngine.replacing ⟨[], [], []⟩
      [letterRule] letterRequest (letterResponse [0xFF, 0x61])).body =
        [0xEF, 0xBF, 0xBD, 0x62] := by
    decide
  rw [hafter]
  intro h
  cases h with
  | cons htouched hrest =>
    cases hrest
    rcases htouched with hsame | hspliced
    · cases hsame
    · have hfound : letterEngine.found letterRule.find letterRule.replace
          (QString.fromUtf8 [0xFF, 0x61]) = [⟨1, 1, utf16 "b"⟩] := by decide
      have htext : QString.fromUtf8 [0xFF, 0x61] = [0xFFFD, 0x61] := by decide
      rw [hfound, htext] at hspliced
      -- the byte in front of the match would have to begin both bodies
      obtain ⟨kept, hkept, hbefore, hafter⟩ := hspliced.front
      cases kept with
      | nil => exact absurd hkept (by decide)
      | cons c kept =>
        have hfirst := (List.cons_prefix_cons.1 hbefore).1
        rw [(List.cons_prefix_cons.1 hafter).1] at hfirst
        cases hfirst

end Nullock.Proxy

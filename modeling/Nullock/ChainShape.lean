import Nullock.ChainRunner
import Nullock.SessionIsolation

namespace Nullock.ChainRunner
open Proxy SessionRules
open SessionVariables (ExtractLibrary)

section Substitution
variable {α : Type} {unit : α → UInt16} {value : QString → Option (List α)}

def Stops (unit : α → UInt16) (x : α) : Prop :=
  isNameChar (unit x) = false ∧ unit x ≠ 0x7B ∧ unit x ≠ 0x7D

theorem takeWhile_stop {p : α → Bool} (h : p x = false) (s t : List α) :
    (s ++ x :: t).takeWhile p = s.takeWhile p := by
  induction s with
  | nil => rw [List.nil_append, List.takeWhile_cons_of_neg (Bool.eq_false_iff.1 h)]; rfl
  | cons c s ih =>
    rw [List.cons_append, List.takeWhile_cons, List.takeWhile_cons, ih]

theorem dropWhile_stop {p : α → Bool} (h : p x = false) (s t : List α) :
    (s ++ x :: t).dropWhile p = s.dropWhile p ++ x :: t := by
  induction s with
  | nil => rw [List.nil_append, List.dropWhile_cons_of_neg (Bool.eq_false_iff.1 h)]; rfl
  | cons c s ih =>
    rw [List.cons_append, List.dropWhile_cons, List.dropWhile_cons, ih]
    split
    · rfl
    · rfl

theorem tokenAt_some {s : List α} (h : tokenAt unit s = some (name, after)) :
    ∃ a b c d, s = a :: b :: (name ++ c :: d :: after) := by
  rw [tokenAt.eq_def] at h
  split at h
  · rename_i a b rest
    split at h
    · split at h
      · rename_i c d rest' hdrop
        dsimp only at h
        split at h
        · cases h
          exact ⟨a, b, c, d, by rw [← hdrop, List.takeWhile_append_dropWhile]⟩
        · cases h
      · cases h
    · cases h
  · cases h

theorem tokenAt_stop (hx : Stops unit x) (s t : List α) :
    tokenAt unit (s ++ x :: t) = (tokenAt unit s).map (fun p => (p.1, p.2 ++ x :: t)) := by
  obtain ⟨hname, hopen, hclose⟩ := hx
  cases s with
  | nil =>
    rw [List.nil_append]
    cases t with
    | nil => rfl
    | cons b t => exact if_neg (fun h => hopen h.1)
  | cons a s =>
    cases s with
    | nil => exact if_neg (fun h => hopen h.2)
    | cons b s =>
      rw [List.cons_append, List.cons_append, tokenAt, tokenAt]
      split
      · dsimp only
        rw [takeWhile_stop (p := fun c => isNameChar (unit c)) hname,
          dropWhile_stop (p := fun c => isNameChar (unit c)) hname]
        cases hrest : s.dropWhile (fun c => isNameChar (unit c)) with
        | nil =>
          cases t with
          | nil => rfl
          | cons d t => exact if_neg (fun h => hclose h.1)
        | cons c rest =>
          cases rest with
          | nil => exact if_neg (fun h => hclose h.2.1)
          | cons d rest =>
            dsimp only [List.cons_append]
            split
            · rfl
            · rfl
      · rfl

theorem substituteFrom_stop (hx : Stops unit x) (s t : List α) (k : Nat) (hk : k ≤ s.length) :
    substituteFrom unit value k (s ++ x :: t) =
      substituteFrom unit value k s ++ x :: substituteFrom unit value 0 t := by
  have hnone (u : List α) : tokenAt unit (x :: u) = none := by
    have hstop := tokenAt_stop hx [] u
    rwa [List.nil_append] at hstop
  induction s generalizing k with
  | nil =>
    obtain rfl := Nat.le_zero.1 hk
    simp only [List.nil_append, substituteFrom, hnone]
  | cons c s ih =>
    cases k with
    | succ k => exact ih k (Nat.le_of_succ_le_succ hk)
    | zero =>
      have htoken := tokenAt_stop hx (c :: s) t
      rw [List.cons_append] at htoken ⊢
      rw [substituteFrom, substituteFrom, htoken]
      cases hfound : tokenAt unit (c :: s) with
      | none =>
        dsimp only [Option.map_none]
        rw [ih 0 (Nat.zero_le _), List.cons_append]
      | some p =>
        obtain ⟨name, after⟩ := p
        obtain ⟨a, b, e, d, hs⟩ := tokenAt_some hfound
        have hlen : (c :: s).length = name.length + 4 + after.length := by
          rw [hs]
          simp only [List.length_cons, List.length_append]
          omega
        have hk' : name.length + 3 ≤ s.length := by
          rw [List.length_cons] at hlen
          omega
        have htake : (c :: (s ++ x :: t)).take (name.length + 4) =
            (c :: s).take (name.length + 4) := by
          rw [← List.cons_append, List.take_append_of_le_length (by omega)]
        dsimp only [Option.map_some]
        rw [ih _ hk', htake, List.append_assoc]

def Filled (value : QString → Option (List α)) : Prop := ∀ name v, value name = some v → v ≠ []

theorem substituted_ne_nil (h : Filled value) (name : QString) (hs : s ≠ []) :
    (value name).getD s ≠ [] := by
  cases hv : value name with
  | none => exact hs
  | some v => exact h name v hv

theorem substituteFrom_ne_nil (h : Filled value) {s : List α} (hs : s ≠ []) :
    substituteFrom unit value 0 s ≠ [] := by
  cases s with
  | nil => exact absurd rfl hs
  | cons c s =>
    rw [substituteFrom]
    split
    · exact List.cons_ne_nil _ _
    · apply List.append_ne_nil_of_left_ne_nil
      apply substituted_ne_nil h
      rw [List.take_succ_cons]
      exact List.cons_ne_nil _ _

theorem substituteFrom_forall {P : α → Prop}
    (h : ∀ name v, value name = some v → ∀ c ∈ v, P c) {s : List α} (hs : ∀ c ∈ s, P c) (k : Nat) :
    ∀ c ∈ substituteFrom unit value k s, P c := by
  induction s generalizing k with
  | nil =>
    intro c hc
    cases k with
    | zero => exact absurd hc List.not_mem_nil
    | succ k => exact absurd hc List.not_mem_nil
  | cons d s ih =>
    have hrest : ∀ c ∈ s, P c := fun c hc => hs c (List.mem_cons_of_mem d hc)
    cases k with
    | succ k => exact ih hrest k
    | zero =>
      rw [substituteFrom]
      split
      · intro c hc
        rcases List.mem_cons.1 hc with rfl | hc
        · exact hs _ List.mem_cons_self
        · exact ih hrest 0 c hc
      · rename_i name after hfound
        intro c hc
        rcases List.mem_append.1 hc with hc | hc
        · cases hv : value (name.map unit) with
          | none =>
            rw [hv] at hc
            exact hs c (List.mem_of_mem_take hc)
          | some v =>
            rw [hv] at hc
            exact h _ v hv c hc
        · exact ih hrest _ c hc

end Substitution

section Parts

def CleanVars (vars : Vars) : Prop := ∀ p ∈ vars, p.2 ≠ [] ∧ 0x0A ∉ p.2 ∧ 0x0D ∉ p.2

variable {vars : Vars}

theorem toUtf8_oneLine {v : QString} (hlf : 0x0A ∉ v) (hcr : 0x0D ∉ v) : OneLine (toUtf8 v) := by
  intro c hc
  refine ⟨?_, ?_⟩
  · rintro rfl
    exact hlf (mem_toUtf8_ascii (by decide) (by decide) hc)
  · rintro rfl
    exact hcr (mem_toUtf8_ascii (by decide) (by decide) hc)

theorem CleanVars.lookup (h : CleanVars vars) (hv : vars.lookup name = some v) :
    v ≠ [] ∧ 0x0A ∉ v ∧ 0x0D ∉ v := by
  obtain ⟨l₁, l₂, hl, -⟩ := List.lookup_eq_some_iff.1 hv
  have hmem : (name, v) ∈ vars := by
    rw [hl]
    exact List.mem_append_right l₁ List.mem_cons_self
  exact h (name, v) hmem

theorem CleanVars.filled (h : CleanVars vars) :
    Filled (fun name => (vars.lookup name).map toUtf8) := by
  intro name v hv
  obtain ⟨w, hw, rfl⟩ := Option.map_eq_some_iff.1 hv
  exact fun he => (h.lookup hw).1 (toUtf8_eq_nil he)

theorem CleanVars.oneLine (h : CleanVars vars) (name : QString)
    (hv : (vars.lookup name).map toUtf8 = some v) : OneLine v := by
  obtain ⟨w, hw, rfl⟩ := Option.map_eq_some_iff.1 hv
  exact toUtf8_oneLine (h.lookup hw).2.1 (h.lookup hw).2.2

theorem substituteBytes_ne_nil (h : CleanVars vars) (hs : s ≠ []) :
    substituteBytes s vars ≠ [] := substituteFrom_ne_nil h.filled hs

theorem substituteBytes_oneLine (h : CleanVars vars) (hs : OneLine s) :
    OneLine (substituteBytes s vars) :=
  substituteFrom_forall (fun name _ hv => h.oneLine name hv) hs 0

theorem terminator_stops (hx : x = 0x0A ∨ x = 0x0D) : Stops UInt8.toUInt16 x := by
  rcases hx with rfl | rfl
  · exact ⟨by decide, by decide, by decide⟩
  · exact ⟨by decide, by decide, by decide⟩

theorem substituteBytes_terminator (hx : x = 0x0A ∨ x = 0x0D) (s t : QByteArray) (vars : Vars) :
    substituteBytes (s ++ x :: t) vars = substituteBytes s vars ++ x :: substituteBytes t vars :=
  substituteFrom_stop (terminator_stops hx) s t 0 (Nat.zero_le _)

theorem substituteBytes_front (hx : x = 0x0A ∨ x = 0x0D) (t : QByteArray) (vars : Vars) :
    substituteBytes (x :: t) vars = x :: substituteBytes t vars :=
  substituteBytes_terminator hx [] t vars

theorem substituteBytes_line (hr : r = [] ∨ 0 < termLen r) (l : QByteArray) (vars : Vars) :
    substituteBytes (l ++ r) vars = substituteBytes l vars ++ substituteBytes r vars := by
  cases r with
  | nil =>
    rw [List.append_nil]
    exact (List.append_nil _).symm
  | cons x t =>
    have hx := termLen_pos_iff.1 (hr.resolve_left (List.cons_ne_nil x t))
    rw [substituteBytes_terminator hx, substituteBytes_front hx]

theorem front_substituteBytes (h : CleanVars vars) (hx : x = 0x0A ∨ x = 0x0D)
    (hs : substituteBytes s vars = x :: t) : ∃ u, s = x :: u ∧ substituteBytes u vars = t := by
  obtain ⟨l, r, hl, rfl, hr⟩ := first_line s
  cases l with
  | cons c l =>
    have hne := substituteBytes_ne_nil h (List.cons_ne_nil c l)
    have hone := substituteBytes_oneLine h hl
    rw [substituteBytes_line hr] at hs
    cases hfirst : substituteBytes (c :: l) vars with
    | nil => exact absurd hfirst hne
    | cons d m =>
      rw [hfirst, List.cons_append] at hs
      have hd := hone d (hfirst ▸ List.mem_cons_self)
      rw [(List.cons.inj hs).1] at hd
      rcases hx with rfl | rfl
      · exact absurd rfl hd.1
      · exact absurd rfl hd.2
  | nil =>
    cases r with
    | nil => exact absurd hs (List.cons_ne_nil x t).symm
    | cons y u =>
      have hy := termLen_pos_iff.1 (hr.resolve_left (List.cons_ne_nil y u))
      rw [List.nil_append, substituteBytes_front hy] at hs
      obtain ⟨rfl, ht⟩ := List.cons.inj hs
      exact ⟨u, rfl, ht⟩

theorem termLen_substituteBytes (h : CleanVars vars) (s : QByteArray) :
    termLen (substituteBytes s vars) = termLen s ∧
      (substituteBytes s vars).drop (termLen s) = substituteBytes (s.drop (termLen s)) vars := by
  by_cases hpos : 0 < termLen s
  · cases s with
    | nil => exact absurd hpos (Nat.lt_irrefl 0)
    | cons x t =>
      have hx := termLen_pos_iff.1 hpos
      rw [substituteBytes_front hx]
      rcases hx with rfl | rfl
      · exact ⟨rfl, rfl⟩
      · by_cases hlf : ∃ u, t = 0x0A :: u
        · obtain ⟨u, rfl⟩ := hlf
          rw [substituteBytes_front (.inl rfl)]
          exact ⟨rfl, rfl⟩
        · have hone : termLen (0x0D :: t) = 1 := by
            cases t with
            | nil => rfl
            | cons d t => exact termLen_cr (fun he => hlf ⟨t, he ▸ rfl⟩) t
          have hone' : termLen (0x0D :: substituteBytes t vars) = 1 := by
            cases ht : substituteBytes t vars with
            | nil => rfl
            | cons d u =>
              apply termLen_cr
              rintro rfl
              obtain ⟨v, hv, -⟩ := front_substituteBytes h (.inl rfl) ht
              exact hlf ⟨v, hv⟩
          rw [hone, hone']
          exact ⟨rfl, rfl⟩
  · have hzero := Nat.eq_zero_of_not_pos hpos
    rw [hzero]
    refine ⟨?_, rfl⟩
    by_contra hne
    have hpos' := Nat.pos_of_ne_zero hne
    cases hs : substituteBytes s vars with
    | nil =>
      rw [hs] at hpos'
      exact Nat.lt_irrefl 0 hpos'
    | cons x t =>
      rw [hs] at hpos'
      have hx := termLen_pos_iff.1 hpos'
      obtain ⟨u, rfl, -⟩ := front_substituteBytes h hx hs
      exact hpos (termLen_pos_iff.2 hx)

theorem parts_substituteBytes (h : CleanVars vars) (s : QByteArray) :
    parts (substituteBytes s vars) = (parts s).map (fun p =>
      (p.1.map (fun line => substituteBytes line vars), substituteBytes p.2 vars)) := by
  induction hn : s.length using Nat.strongRecOn generalizing s with
  | ind n ih =>
    obtain ⟨l, r, hl, rfl, rfl | hblank | ⟨hpos, hnext⟩⟩ := parts_cases s
    · rw [List.append_nil, parts_line hl, parts_line (substituteBytes_oneLine h hl)]
      rfl
    · have hone := substituteBytes_oneLine h hl
      obtain ⟨hlen, hdrop⟩ := termLen_substituteBytes h r
      obtain ⟨hlen', hdrop'⟩ := termLen_substituteBytes h (r.drop (termLen r))
      have hfront : BlankFront (substituteBytes r vars) := by
        rw [BlankFront, hlen, hdrop, hlen']
        exact hblank
      rw [substituteBytes_line (.inr hblank.1), parts_blank hone hfront, parts_blank hl hblank,
        hlen, hdrop, hlen', ← List.drop_drop, hdrop, hdrop', List.drop_drop, Option.map_some]
      cases l with
      | nil => rfl
      | cons c l =>
        have hne : ¬ (substituteBytes (c :: l) vars).isEmpty = true := fun he =>
          substituteBytes_ne_nil h (List.cons_ne_nil c l) (List.isEmpty_iff.1 he)
        rw [if_neg hne]
        rfl
    · have hone := substituteBytes_oneLine h hl
      obtain ⟨hlen, hdrop⟩ := termLen_substituteBytes h r
      obtain ⟨hlen', -⟩ := termLen_substituteBytes h (r.drop (termLen r))
      have hpos' : 0 < termLen (substituteBytes r vars) := hlen.symm ▸ hpos
      have hnext' : ¬ 0 < termLen ((substituteBytes r vars).drop
          (termLen (substituteBytes r vars))) := by
        rw [hlen, hdrop, hlen']
        exact hnext
      rw [substituteBytes_line (.inr hpos), parts_cons hone hpos' hnext', parts_cons hl hpos hnext,
        hlen, hdrop, ih _ (hn ▸ rest_lt l hpos) _ rfl, Option.map_map, Option.map_map]
      rfl

end Parts

section Runs

def headAndBody (req : QByteArray) : List QByteArray × QByteArray :=
  (parts req).getD (headerLines [] 0 req, [])

def isOtherLine (line : QByteArray) : Bool := !isLengthLine line

/-- What is sent has its template's shape and the size of its body. -/
structure Shaped (vars : Vars) (template request : QByteArray) : Prop where
  blank : (parts request).isSome = (parts template).isSome
  lines : (headAndBody request).1.filter isOtherLine =
    ((headAndBody template).1.map (fun line => substituteBytes line vars)).filter isOtherLine
  filled : ∀ line ∈ (headAndBody template).1, line ≠ [] → substituteBytes line vars ≠ []
  body : (headAndBody request).2 = substituteBytes (headAndBody template).2 vars
  single : ((headAndBody request).1.filter isLengthLine).length ≤ 1
  length : ∀ line ∈ (headAndBody request).1, isLengthLine line = true →
    line = latin1 "Content-Length: " ++ QByteArray.number (headAndBody request).2.length
  chunked : (headAndBody request).1.any isChunkedLine = true →
    (headAndBody request).1.any isLengthLine = false

/-- A head that ends, something beside its blank line, and an `int` size. -/
structure Complete (vars : Vars) (template : QByteArray) : Prop where
  ends : (parts template).isSome = true
  more : headAndBody template ≠ ([], [])
  size : (substituteBytes (headAndBody template).2 vars).length < 2 ^ 31

def Faithful (s : Sent) : Prop :=
  (Complete s.vars s.step.request → Shaped s.vars s.step.request s.request) ∧
    (parts s.step.request = none → s.request = substituteBytes s.step.request s.vars)

theorem asInt_of_lt (h : n < 2 ^ 31) : asInt n = n := by
  rw [asInt, Nat.mod_eq_of_lt (by omega), if_pos h]

theorem headAndBody_some (h : parts req = some p) : headAndBody req = p := by
  rw [headAndBody, h, Option.getD_some]

theorem normalized_shaped (hv : CleanVars vars) (h : Complete vars template) :
    Shaped vars template (normalizeContentLength (substituteBytes template vars)) := by
  obtain ⟨⟨lines, body⟩, hparts⟩ := Option.isSome_iff_exists.1 h.ends
  have htemplate := headAndBody_some hparts
  have hsub : parts (substituteBytes template vars) =
      some (lines.map (fun line => substituteBytes line vars), substituteBytes body vars) := by
    rw [parts_substituteBytes hv, hparts]
    rfl
  have hsize : asInt (substituteBytes body vars).length = (substituteBytes body vars).length := by
    have hlt := h.size
    rw [htemplate] at hlt
    exact asInt_of_lt hlt
  have hmore : lines.map (fun line => substituteBytes line vars) ≠ [] ∨
      0 < asInt (substituteBytes body vars).length := by
    rw [hsize]
    by_cases hlines : lines = []
    · have hbody : body ≠ [] := by
        rintro rfl
        exact h.more (htemplate.trans (hlines ▸ rfl))
      exact .inr (Int.natCast_pos.2 (List.length_pos_iff.2 (substituteBytes_ne_nil hv hbody)))
    · exact .inl (fun he => hlines (List.map_eq_nil_iff.1 he))
  have hsent := parts_normalize hsub hmore
  have hrequest := headAndBody_some hsent
  constructor
  · rw [hsent, hparts]
    rfl
  · rw [hrequest, htemplate]
    exact rebuilt_filter _ _
  · intro line _ hne
    exact substituteBytes_ne_nil hv hne
  · rw [hrequest, htemplate]
  · rw [hrequest]
    exact rebuilt_one _ _
  · intro line hline hlength
    rw [hrequest] at hline ⊢
    rw [(rebuilt_length hline hlength).1, lengthLine, hsize]
  · intro hchunked
    rw [hrequest] at hchunked ⊢
    rw [rebuilt_any] at hchunked
    apply Bool.eq_false_iff.2
    intro hany
    obtain ⟨line, hline, hlength⟩ := List.any_eq_true.1 hany
    exact absurd hchunked (Bool.eq_false_iff.1 (rebuilt_length hline hlength).2)

theorem normalized_unended (hv : CleanVars vars) (h : parts template = none) :
    normalizeContentLength (substituteBytes template vars) = substituteBytes template vars := by
  apply normalize_none
  rw [parts_substituteBytes hv, h]
  rfl

theorem sanitized_clean (v : QString) :
    0x0A ∉ sanitizeExtractedValue v ∧ 0x0D ∉ sanitizeExtractedValue v :=
  ⟨fun h => absurd (List.mem_filter.1 h).2 (by decide),
    fun h => absurd (List.mem_filter.1 h).2 (by decide)⟩

theorem CleanVars.insert (h : CleanVars vars) (name : QString) {value : QString}
    (hv : value ≠ [] ∧ 0x0A ∉ value ∧ 0x0D ∉ value) : CleanVars (vars.insert name value) := by
  intro p hp
  rcases List.mem_cons.1 hp with rfl | hp
  · exact hv
  · exact h p (List.mem_filter.1 hp).1

variable {L : TextLibrary} {X : ExtractLibrary}

theorem extractAll_clean {resp : Intruder.ClientResponse} (extracts : List Extract)
    (state : Vars × Vars) (h : CleanVars state.2) :
    CleanVars (extracts.foldl (extractAll L X resp) state).2 := by
  induction extracts generalizing state with
  | nil => exact h
  | cons e extracts ih =>
    apply ih
    rw [extractAll]
    split
    · exact h
    · dsimp only
      split
      · exact h
      · rename_i hval
        exact h.insert e.var ⟨fun he => hval (List.isEmpty_iff.2 he), sanitized_clean _⟩

/-- The values are clean, and all that was sent is what its templates say. -/
structure RunInv (r : Result) : Prop where
  vars : CleanVars r.vars
  sent : ∀ s ∈ r.sent, Faithful s

theorem runStep_inv (net : List Sent → Answer) {r : Result} (h : RunInv r) (step : Step) :
    RunInv (runStep L X net r step).1 := by
  have hsent : ∀ s ∈ r.sent ++ [(⟨step, r.vars, substituteStr step.host r.vars,
      normalizeContentLength (substituteBytes step.request r.vars)⟩ : Sent)], Faithful s := by
    intro s hs
    rcases List.mem_append.1 hs with hs | hs
    · exact h.sent s hs
    · rw [List.mem_singleton.1 hs]
      exact ⟨normalized_shaped h.vars, normalized_unended h.vars⟩
  rw [runStep]
  split
  · exact ⟨h.vars, hsent⟩
  · exact ⟨extractAll_clean step.extracts ([], r.vars) h.vars, hsent⟩

theorem runFrom_inv (net : List Sent → Answer) (continueOnError : Bool) (steps : List Step)
    {r : Result} (h : RunInv r) : RunInv (runFrom L X net continueOnError r steps) := by
  induction steps generalizing r with
  | nil => exact h
  | cons step steps ih =>
    have hstep : RunInv (runStep L X net r step).1 := runStep_inv net h step
    rw [runFrom]
    dsimp only
    split
    · exact ih hstep
    · exact hstep

/-- Whatever the network answers, no value reshapes a request of the chain. -/
theorem chain_keeps_shape (L : TextLibrary) (X : ExtractLibrary) (net : List Sent → Answer)
    (steps : List Step) (continueOnError : Bool) :
    ∀ s ∈ (run L X net steps continueOnError).sent, Faithful s :=
  (runFrom_inv net continueOnError steps ⟨fun _ h => absurd h List.not_mem_nil,
    fun _ h => absurd h List.not_mem_nil⟩).sent

deriving instance DecidableEq for Extract, Step, Sent

def tokenSteps : List Step :=
  [{ name := [], host := utf16 "a.example", request := latin1 "GET / HTTP/1.1\r\n\r\n"
     extracts := [{ var := utf16 "t", key := utf16 "T" }] },
   { name := [], host := utf16 "a.example"
     request := latin1 "POST / HTTP/1.1\r\nX: {{t}}\r\nContent-Length: 9\r\n\r\nab" }]

def tokenNet : List Sent → Answer := fun _ =>
  { ok := true
    parsed := { Intruder.noResponse with headers := [(utf16 "T", utf16 "7\n8")] } }

/-- The line break in the token is not sent, and the length is that of the body. -/
theorem token_keeps_shape :
    Shaped [(utf16 "t", utf16 "78")]
      (latin1 "POST / HTTP/1.1\r\nX: {{t}}\r\nContent-Length: 9\r\n\r\nab")
      (latin1 "POST / HTTP/1.1\r\nX: 78\r\nContent-Length: 2\r\n\r\nab") := by
  have hmem : (run asciiLibrary SessionVariables.noExtracts tokenNet tokenSteps false).sent[1]? =
      some ⟨⟨[], utf16 "a.example", 443, true,
          latin1 "POST / HTTP/1.1\r\nX: {{t}}\r\nContent-Length: 9\r\n\r\nab", []⟩,
        [(utf16 "t", utf16 "78")], utf16 "a.example",
        latin1 "POST / HTTP/1.1\r\nX: 78\r\nContent-Length: 2\r\n\r\nab"⟩ := by decide +kernel
  exact (chain_keeps_shape asciiLibrary SessionVariables.noExtracts tokenNet tokenSteps false _
    (List.mem_of_getElem? hmem)).1 ⟨by decide, by decide, by decide⟩

/-- A head without an end goes out as it stands, whatever lengths it names. -/
def unendedStep : Step where
  name := []
  host := utf16 "a.example"
  request := latin1 "POST / HTTP/1.1
Content-Length: 5
"

theorem unended_length_kept :
    ¬ ∀ s ∈ (run asciiLibrary SessionVariables.noExtracts (fun _ => {}) [unendedStep] false).sent,
      Shaped s.vars s.step.request s.request := by
  intro h
  have hrun : (run asciiLibrary SessionVariables.noExtracts (fun _ => {}) [unendedStep]
      false).sent = [⟨unendedStep, [], utf16 "a.example", unendedStep.request⟩] := by
    decide +kernel
  rw [hrun] at h
  have hsent := h _ (List.mem_singleton_self _)
  have hlength := hsent.length (latin1 "Content-Length: 5") (by decide) (by decide)
  exact absurd hlength (by decide)

end Runs

end Nullock.ChainRunner

import Nullock.RobotsRecon

namespace Nullock.RobotsRecon
open HttpLogic

/-- The scanned port, or the other default port if it is a default one. -/
def OnOrigin (req : Request) (port : UInt16) : Prop :=
  port = toQuint16 req.port ∨
    (req.port = defaultPort req.tls ∧ port = toQuint16 (defaultPort (!req.tls)))

def Confined (req : Request) (sent : List Sent) : Prop :=
  ∀ s ∈ sent, s.host = req.host ∧ OnOrigin req s.port

section Confinement
variable {Q : ReconLibrary} {server : List Sent → Reply} {req : Request}

theorem targetInScope_port (h : targetInScope Q req url = some t) :
    OnOrigin req (toQuint16 t.port) := by
  obtain ⟨-, hscope⟩ := Option.filter_eq_some_iff.1 h
  rw [Bool.and_eq_true, portInScope, Bool.or_eq_true, Bool.and_eq_true, beq_iff_eq, beq_iff_eq,
    beq_iff_eq] at hscope
  rcases hscope.2 with hport | ⟨htarget, hreq⟩
  · exact .inl (congrArg toQuint16 hport)
  · by_cases hscheme : t.tls = req.tls
    · exact .inl (congrArg toQuint16 (htarget.trans ((congrArg defaultPort hscheme).trans
        hreq.symm)))
    · have hother : t.tls = !req.tls := Bool.eq_not_of_ne hscheme
      exact .inr ⟨hreq, congrArg toQuint16 (htarget.trans (congrArg defaultPort hother))⟩

theorem Confined.append (h : Confined req sent) (h' : Confined req more) :
    Confined req (sent ++ more) := by
  intro s hs
  rcases List.mem_append.1 hs with hs | hs
  · exact h s hs
  · exact h' s hs

theorem fetchFollowing_spec (hops : Nat) (tls : Bool) (port : Int) (path : QString)
    (sent : List Sent) (hport : OnOrigin req (toQuint16 port)) (hsent : Confined req sent) :
    (fetchFollowing Q server req hops tls port path sent).2.length ≤ sent.length + (hops + 1) ∧
      Confined req (fetchFollowing Q server req hops tls port path sent).2 := by
  induction hops generalizing tls port path sent with
  | zero =>
    have hone : Confined req (sent ++ [⟨req.host, toQuint16 port, tls, buildGet req path⟩]) :=
      hsent.append (List.forall_mem_singleton.2 ⟨rfl, hport⟩)
    have hlength : (sent ++ [(⟨req.host, toQuint16 port, tls, buildGet req path⟩ : Sent)]).length ≤
        sent.length + (0 + 1) := by rw [List.length_append]; exact Nat.le_refl _
    rw [fetchFollowing]
    split
    · exact ⟨hlength, hone⟩
    · split
      · exact ⟨hlength, hone⟩
      · exact ⟨hlength, hone⟩
  | succ hops ih =>
    have hone : Confined req (sent ++ [⟨req.host, toQuint16 port, tls, buildGet req path⟩]) :=
      hsent.append (List.forall_mem_singleton.2 ⟨rfl, hport⟩)
    have hlength : (sent ++ [(⟨req.host, toQuint16 port, tls, buildGet req path⟩ : Sent)]).length =
        sent.length + 1 := by rw [List.length_append]; rfl
    have hstop : (sent ++ [(⟨req.host, toQuint16 port, tls, buildGet req path⟩ : Sent)]).length ≤
        sent.length + (hops + 1 + 1) := by omega
    rw [fetchFollowing]
    dsimp only
    split
    · exact ⟨hstop, hone⟩
    · split
      · exact ⟨hstop, hone⟩
      · split
        · exact ⟨hstop, hone⟩
        · split
          · exact ⟨hstop, hone⟩
          · rename_i t htarget
            obtain ⟨hnext, hconfined⟩ :=
              ih t.tls t.port t.path _ (targetInScope_port htarget) hone
            exact ⟨by omega, hconfined⟩

structure SameFetches (st st' : ScanState) : Prop where
  visited : st'.visited = st.visited
  fetches : st'.fetches = st.fetches
  stopped : st'.stopped = st.stopped
  sent : st'.sent = st.sent
  taken : st'.taken = st.taken

theorem SameFetches.refl (st : ScanState) : SameFetches st st := ⟨rfl, rfl, rfl, rfl, rfl⟩

theorem SameFetches.trans (h : SameFetches st mid) (h' : SameFetches mid st') :
    SameFetches st st' where
  visited := h'.visited.trans h.visited
  fetches := h'.fetches.trans h.fetches
  stopped := h'.stopped.trans h.stopped
  sent := h'.sent.trans h.sent
  taken := h'.taken.trans h.taken

theorem sameFetches_foldl {f : ScanState → QString → ScanState}
    (h : ∀ st loc, SameFetches st (f st loc)) (locs : List QString) (st : ScanState) :
    SameFetches st (locs.foldl f st) := by
  induction locs generalizing st with
  | nil => exact .refl st
  | cons loc locs ih => exact (h st loc).trans (ih _)

theorem addChild_same (url : QString) (st : ScanState) (loc : QString) :
    SameFetches st (addChild Q url st loc) := by
  rw [addChild]
  dsimp only
  split
  · exact .refl st
  · exact ⟨rfl, rfl, rfl, rfl, rfl⟩

theorem addPage_same (st : ScanState) (loc : QString) : SameFetches st (addPage st loc) := by
  rw [addPage]
  split
  · exact .refl st
  · exact ⟨rfl, rfl, rfl, rfl, rfl⟩

theorem readSitemap_same (st : ScanState) (url body : QString) :
    SameFetches st (readSitemap Q st url body) := by
  rw [readSitemap]
  split
  · exact .refl st
  · dsimp only
    split
    · refine SameFetches.trans ?_ (sameFetches_foldl (addChild_same url) _ _)
      exact ⟨rfl, rfl, rfl, rfl, rfl⟩
    · refine SameFetches.trans ?_ (sameFetches_foldl addPage_same _ _)
      exact ⟨rfl, rfl, rfl, rfl, rfl⟩

theorem sitemapStep_cases (h : sitemapStep Q server req st = some st') :
    st.stopped = false ∧ ∃ url worklist, st.worklist = url :: worklist ∧
      (st' = { st with worklist := worklist } ∨
      (∃ t, targetInScope Q req url = some t ∧ targetKey t ∉ st.visited ∧
        (kMaxSitemapFetches ≤ st.fetches ∧ st' = { st with
            worklist := worklist
            visited := targetKey t :: st.visited
            result := { st.result with sitemapFetchTruncated := true }
            stopped := true } ∨
        st.fetches < kMaxSitemapFetches ∧ SameFetches { st with
            visited := targetKey t :: st.visited
            fetches := st.fetches + 1
            sent := (fetchFollowing Q server req kMaxRedirectHops t.tls t.port t.path st.sent).2
            taken := st.taken ++ [(t.tls, t.port, t.path)] } st'))) := by
  rw [sitemapStep] at h
  split at h
  · cases h
  · rename_i hgoing
    refine ⟨Bool.eq_false_iff.2 hgoing, ?_⟩
    split at h
    · cases h
    · rename_i url worklist hlist
      refine ⟨url, worklist, hlist, ?_⟩
      cases htarget : targetInScope Q req url with
      | none =>
        rw [htarget] at h
        exact .inl (Option.some.inj h).symm
      | some t =>
        rw [htarget] at h
        dsimp only at h
        split at h
        · exact .inl (Option.some.inj h).symm
        · rename_i hvisited
          refine .inr ⟨t, rfl, hvisited, ?_⟩
          split at h
          · rename_i hmax
            exact .inl ⟨hmax, (Option.some.inj h).symm⟩
          · rename_i hmax
            refine .inr ⟨Nat.lt_of_not_le hmax, ?_⟩
            rw [← Option.some.inj h]
            refine SameFetches.trans ?_ (readSitemap_same _ _ _)
            exact ⟨rfl, rfl, rfl, rfl, rfl⟩

def ScanState.budget (st : ScanState) : Nat :=
  if st.stopped then 0 else kMaxSitemapFetches + 1 - st.fetches

theorem sitemapStep_decreases (h : sitemapStep Q server req st = some st') :
    Prod.Lex (· < ·) (· < ·) (st'.budget, st'.worklist.length) (st.budget, st.worklist.length) := by
  obtain ⟨hgoing, url, worklist, hlist, hcases⟩ := sitemapStep_cases h
  have hlength : worklist.length < st.worklist.length := by
    rw [hlist]
    exact Nat.lt_succ_self _
  have hbudget : st.budget = kMaxSitemapFetches + 1 - st.fetches := by
    rw [ScanState.budget, hgoing]
    rfl
  rw [Prod.lex_def]
  rcases hcases with rfl | ⟨t, -, -, ⟨hmax, rfl⟩ | ⟨hmax, hsame⟩⟩
  · exact .inr ⟨rfl, hlength⟩
  · have hzero : ScanState.budget { st with
        worklist := worklist
        visited := targetKey t :: st.visited
        result := { st.result with sitemapFetchTruncated := true }
        stopped := true } = 0 := rfl
    rw [hzero]
    rcases Nat.eq_zero_or_pos st.budget with hnone | hpos
    · exact .inr ⟨hnone.symm, hlength⟩
    · exact .inl hpos
  · refine .inl ?_
    have hnext : st'.budget = kMaxSitemapFetches + 1 - (st.fetches + 1) := by
      rw [ScanState.budget, hsame.stopped, hsame.fetches]
      dsimp only
      rw [hgoing]
      rfl
    rw [hnext, hbudget]
    omega

end Confinement

section Scan
variable (Q : ReconLibrary) (server : List Sent → Reply) (req : Request)

def sitemapLoop (st : ScanState) : ScanState :=
  match _h : sitemapStep Q server req st with
  | none => st
  | some st' => sitemapLoop st'
termination_by (st.budget, st.worklist.length)
decreasing_by exact sitemapStep_decreases _h

def scan : ScanState :=
  if req.host.isEmpty then
    { worklist := [], seenPages := [], sent := []
      result := { host := req.host, error := utf16 "host required" } }
  else
    let (body, sent) := fetchFollowing Q server req kMaxRedirectHops req.tls req.port
      (utf16 "/robots.txt") []
    let result : Result := if !body.isEmpty && looksLikeRobots Q body then
        parseRobots Q body { host := req.host, robotsFound := true }
      else { host := req.host }
    sitemapLoop Q server req
      { worklist := originUrl req.host req.port req.tls (utf16 "/sitemap.xml") :: result.sitemapRefs
        seenPages := result.sitemapUrls
        sent := sent
        result := result }

end Scan

structure ScanInv (req : Request) (st : ScanState) : Prop where
  fetches : st.fetches ≤ kMaxSitemapFetches
  budget : st.sent.length ≤ 4 * (st.fetches + 1)
  confined : Confined req st.sent
  once : st.taken.Nodup
  seen : ∀ tls port path, (tls, port, path) ∈ st.taken →
    targetKey ⟨tls, [], port, path⟩ ∈ st.visited

section Runs
variable {Q : ReconLibrary} {server : List Sent → Reply} {req : Request}

theorem sitemapStep_inv (h : ScanInv req st) (hstep : sitemapStep Q server req st = some st') :
    ScanInv req st' := by
  obtain ⟨-, url, worklist, -, hcases⟩ := sitemapStep_cases hstep
  rcases hcases with rfl | ⟨t, htarget, hnew, ⟨-, rfl⟩ | ⟨hmax, hsame⟩⟩
  · exact ⟨h.fetches, h.budget, h.confined, h.once, h.seen⟩
  · exact ⟨h.fetches, h.budget, h.confined, h.once,
      fun tls port path hmem => List.mem_cons_of_mem _ (h.seen tls port path hmem)⟩
  · obtain ⟨hlength, hconfined⟩ := @fetchFollowing_spec Q server req
      kMaxRedirectHops t.tls t.port t.path st.sent (targetInScope_port htarget) h.confined
    have hbudget := h.budget
    have hhops : kMaxRedirectHops = 3 := rfl
    constructor
    · rw [hsame.fetches]
      exact hmax
    · rw [hsame.sent, hsame.fetches]
      dsimp only
      omega
    · rw [hsame.sent]
      exact hconfined
    · rw [hsame.taken]
      refine List.nodup_append.2 ⟨h.once, List.pairwise_singleton _ _, ?_⟩
      intro old hold new hmem he
      obtain rfl := List.mem_singleton.1 hmem
      subst he
      exact hnew (h.seen t.tls t.port t.path hold)
    · rw [hsame.taken, hsame.visited]
      intro tls port path hmem
      rcases List.mem_append.1 hmem with hmem | hmem
      · exact List.mem_cons_of_mem _ (h.seen tls port path hmem)
      · cases List.mem_singleton.1 hmem
        exact List.mem_cons_self

theorem sitemapLoop_inv (h : ScanInv req st) : ScanInv req (sitemapLoop Q server req st) := by
  induction st using sitemapLoop.induct Q server req with
  | case1 st hend =>
    rw [sitemapLoop]
    split
    · exact h
    · rename_i st' hstep
      rw [hend] at hstep
      cases hstep
  | case2 st st' hstep ih =>
    rw [sitemapLoop]
    split
    · exact h
    · rename_i next hnext
      rw [hstep] at hnext
      cases hnext
      exact ih (sitemapStep_inv h hstep)

theorem sitemapLoop_ended (Q : ReconLibrary) (server : List Sent → Reply) (req : Request)
    (st : ScanState) : sitemapStep Q server req (sitemapLoop Q server req st) = none := by
  induction st using sitemapLoop.induct Q server req with
  | case1 st hend =>
    rw [sitemapLoop]
    split
    · exact hend
    · rename_i st' hstep
      rw [hend] at hstep
      cases hstep
  | case2 st st' hstep ih =>
    rw [sitemapLoop]
    split
    · assumption
    · rename_i next hnext
      rw [hstep] at hnext
      cases hnext
      exact ih

theorem sitemapLoop_confined (h : ScanInv req st) :
    (sitemapLoop Q server req st).sent.length ≤ 52 ∧
      (∀ s ∈ (sitemapLoop Q server req st).sent, s.host = req.host ∧ OnOrigin req s.port) ∧
      (sitemapLoop Q server req st).taken.Nodup ∧
      sitemapStep Q server req (sitemapLoop Q server req st) = none := by
  have hend := @sitemapLoop_inv Q server req st h
  have hfetches := hend.fetches
  have hmax : kMaxSitemapFetches = 12 := rfl
  have hlength : (sitemapLoop Q server req st).sent.length ≤ 52 :=
    Nat.le_trans hend.budget (by omega)
  exact ⟨hlength, hend.confined, hend.once, sitemapLoop_ended Q server req st⟩

/-- A scan sends at most 52 requests, all to the scanned host, and no target twice. -/
theorem scan_confined (Q : ReconLibrary) (server : List Sent → Reply) (req : Request) :
    (scan Q server req).sent.length ≤ 52 ∧
      (∀ s ∈ (scan Q server req).sent, s.host = req.host ∧ OnOrigin req s.port) ∧
      (scan Q server req).taken.Nodup ∧
      sitemapStep Q server req (scan Q server req) = none := by
  rw [scan]
  split
  · exact ⟨Nat.zero_le _, List.forall_mem_nil _, List.nodup_nil, rfl⟩
  · obtain ⟨hlength, hconfined⟩ := @fetchFollowing_spec Q server req
      kMaxRedirectHops req.tls req.port (utf16 "/robots.txt") [] (.inl rfl) (List.forall_mem_nil _)
    have hstart (worklist seenPages : List QString) (result : Result) : ScanInv req
        { worklist := worklist, seenPages := seenPages, result := result
          sent := (fetchFollowing Q server req kMaxRedirectHops req.tls req.port
            (utf16 "/robots.txt") []).2 } :=
      ⟨Nat.zero_le _, hlength, hconfined, List.nodup_nil, nofun⟩
    exact sitemapLoop_confined (hstart _ _ _)

end Runs

end Nullock.RobotsRecon

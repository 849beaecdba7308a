import Nullock.BreadthFirst
import Nullock.RewriteBytes

namespace Nullock.Crawler
open BreadthFirst
open Proxy (asciiLibrary)

/-- URLs, and how a link on a page is resolved. -/
structure UrlLibrary where
  Url : Type
  parse : QString → Url
  resolved : Url → Url → Url
  isValid : Url → Bool
  scheme : Url → QString
  host : Url → QString
  /-- Less than one if there is none. -/
  port : Url → Int
  path : Url → QString
  encodedPath : Url → QString
  withoutFragment : Url → Url
  setPath : QString → Url → Url
  toQString : Url → QString

structure PageLibrary (Q : UrlLibrary) where
  truncateBodyAtTag : QByteArray → Nat → QByteArray
  resolveBase : QString → Q.Url → Q.Url
  extractRawLinks : QString → List QString
  extractSrcset : QString → List QString
  extractMetaRefresh : QString → List QString
  extractFormGets : QString → List QString

section Scope
variable (L : TextLibrary)

def apexOf (host : QString) : QString :=
  let h := L.lowerCase host
  if (utf16 "www.").isPrefixOf h then h.drop 4 else h

def twoLevel : List QString :=
  ["co.uk", "org.uk", "gov.uk", "ac.uk", "me.uk", "net.uk", "com.au", "net.au", "org.au", "gov.au",
    "edu.au", "co.nz", "net.nz", "org.nz", "co.jp", "or.jp", "ne.jp", "go.jp", "co.za", "org.za",
    "com.br", "net.br", "com.cn", "net.cn", "org.cn", "gov.cn", "co.in", "com.mx", "com.tr",
    "com.sg"].map utf16

def isPublicSuffix (apex : QString) : Bool := decide (0x2E ∉ apex) || twoLevel.contains apex

def inDefaultScope (host seedHost : QString) : Bool :=
  if host.isEmpty || seedHost.isEmpty then false
  else
    let h := L.lowerCase host
    let seed := L.lowerCase seedHost
    if h = seed then true
    else
      let apex := apexOf L seed
      if isPublicSuffix apex then false else h == apex || (0x2E :: apex).isSuffixOf h

def effectivePort (scheme : QString) (port : Int) : Int :=
  if port > 0 then port else if L.caseFold scheme = L.caseFold (utf16 "https") then 443 else 80

def isStdWeb (p : Int) : Bool := p == 80 || p == 443

def inDefaultScopeOrigin (scheme host : QString) (port : Int) (seedScheme seedHost : QString)
    (seedPort : Int) : Bool :=
  if !inDefaultScope L host seedHost then false
  else
    let ep := effectivePort L scheme port
    let sep := effectivePort L seedScheme seedPort
    if isStdWeb sep then isStdWeb ep else ep == sep

end Scope

def kMaxSeen : Nat := 50000

structure Crawl where
  scope : Option (QString → QString → Int → QString → Bool)
  seedScheme : QString
  seedHost : QString
  seedPort : Int
  canonSeed : QString
  maxPages : Nat
  maxDepth : Nat

section Model
variable (L : TextLibrary) (Q : UrlLibrary)

/-- The URL a link leads to, none but of `http` and `https`, with its host. -/
def canonicalLink (href : QString) (base : Q.Url) : Option (QString × QString) :=
  let abs := Q.resolved base (Q.parse href)
  if !Q.isValid abs || (Q.host abs).isEmpty then none
  else
    let scheme := L.lowerCase (Q.scheme abs)
    if scheme ≠ utf16 "http" ∧ scheme ≠ utf16 "https" then none
    else
      let abs := Q.withoutFragment abs
      let abs := if (Q.path abs).isEmpty then Q.setPath (utf16 "/") abs else abs
      let canon := Q.toQString abs
      if canon.isEmpty then none else some (canon, Q.host abs)

def Crawl.inScope (c : Crawl) (scheme host : QString) (port : Int) (path : QString) : Bool :=
  match c.scope with
  | some inScope => inScope scheme host port path
  | none => inDefaultScopeOrigin L scheme host port c.seedScheme c.seedHost c.seedPort

def Crawl.accepts (c : Crawl) (canon host : QString) : Bool :=
  let cu := Q.parse canon
  c.inScope L (Q.scheme cu) host (Q.port cu) (Q.encodedPath cu)

def start (scope : Option (QString → QString → Int → QString → Bool)) (seed : QString)
    (maxPages maxDepth : Int) : Option Crawl :=
  let u := Q.parse seed
  if !Q.isValid u || (Q.scheme u).isEmpty || (Q.host u).isEmpty then none
  else
    match canonicalLink L Q seed u with
    | none => none
    | some (canonSeed, seedHost) =>
      let c : Crawl :=
        { scope := scope
          seedScheme := L.lowerCase (Q.scheme u)
          seedHost := seedHost
          seedPort := Q.port u
          canonSeed := canonSeed
          maxPages := (max 1 (min maxPages 5000)).toNat
          maxDepth := (max 0 (min maxDepth 10)).toNat }
      if c.inScope L c.seedScheme seedHost c.seedPort (Q.encodedPath (Q.parse canonSeed)) then
        some c
      else none

variable (P : PageLibrary Q) (fetch : QString → Option QByteArray)

def refsOf (text : QString) : List QString :=
  P.extractRawLinks text ++ P.extractSrcset text ++ P.extractMetaRefresh text ++
    P.extractFormGets text

def pageText (body : QByteArray) : QString :=
  L.fromUtf8 (P.truncateBodyAtTag body (4 * 1024 * 1024))

namespace Crawl
variable (c : Crawl)

def enqueueRefs (base : Q.Url) (depth : Nat) : List QString → Search QString → Search QString
  | [], s => s
  | href :: refs, s =>
    if s.seen.length ≥ kMaxSeen then s
    else
      match canonicalLink L Q href base with
      | none => enqueueRefs base depth refs s
      | some (canon, host) =>
        if !c.accepts L Q canon host then enqueueRefs base depth refs s
        else if canon ∈ s.seen then enqueueRefs base depth refs s
        else
          enqueueRefs base depth refs
            { s with queue := s.queue ++ [(canon, depth)], seen := s.seen ++ [canon] }

def extractAndEnqueue (fromUrl : QString) (body : QByteArray) (depth : Nat)
    (s : Search QString) : Search QString :=
  let text := pageText L Q P body
  c.enqueueRefs L Q (P.resolveBase text (Q.parse fromUrl)) depth (refsOf Q P text) s

/-- A page is fetched, and its links are queued unless it is as deep as allowed. -/
def crawlOne (u : QString × Nat) (s : Search QString) : Search QString :=
  match fetch u.1 with
  | none => s
  | some body =>
    if u.2 ≥ c.maxDepth then s else c.extractAndEnqueue L Q P u.1 body (u.2 + 1) s

theorem enqueueRefs_visited (base : Q.Url) (depth : Nat) (refs : List QString)
    (s : Search QString) : (c.enqueueRefs L Q base depth refs s).visited = s.visited := by
  induction refs generalizing s with
  | nil => rfl
  | cons href refs ih =>
    rw [enqueueRefs]
    split
    · rfl
    cases canonicalLink L Q href base with
    | none => exact ih s
    | some found =>
      dsimp only
      split
      · exact ih s
      split
      · exact ih s
      · exact ih _

theorem crawlOne_visited (u : QString × Nat) (s : Search QString) :
    (c.crawlOne L Q P fetch u s).visited = s.visited := by
  rw [crawlOne]
  cases fetch u.1 with
  | none => rfl
  | some body =>
    dsimp only
    split
    · rfl
    · exact enqueueRefs_visited L Q c _ _ _ s

def loop (s : Search QString) : Search QString :=
  if hroom : s.visited.length < c.maxPages then
    match s.queue with
    | [] => s
    | u :: rest =>
      loop (c.crawlOne L Q P fetch u { s with queue := rest, visited := s.visited ++ [u] })
  else s
termination_by c.maxPages - s.visited.length
decreasing_by
  rw [crawlOne_visited, List.length_append, List.length_singleton]
  omega

def run : Search QString := c.loop L Q P fetch (Search.init c.canonSeed)

def linksOf (fromUrl : QString) : List QString :=
  match fetch fromUrl with
  | none => []
  | some body =>
    let text := pageText L Q P body
    (refsOf Q P text).filterMap (fun href =>
      match canonicalLink L Q href (P.resolveBase text (Q.parse fromUrl)) with
      | none => none
      | some (canon, host) => if c.accepts L Q canon host then some canon else none)

end Crawl

end Model

section Refinement
variable {L : TextLibrary} {Q : UrlLibrary} {P : PageLibrary Q}
  {fetch : QString → Option QByteArray} {c : Crawl}

theorem enqueueRefs_eq (base : Q.Url) (depth : Nat) (refs : List QString) (s : Search QString) :
    c.enqueueRefs L Q base depth refs s =
      (refs.filterMap (fun href =>
        match canonicalLink L Q href base with
        | none => none
        | some (canon, host) => if c.accepts L Q canon host then some canon else none)).foldl
        (Search.add kMaxSeen depth) s := by
  have hfull (vs : List QString) (s : Search QString) (h : s.seen.length ≥ kMaxSeen) :
      vs.foldl (Search.add kMaxSeen depth) s = s := by
    induction vs with
    | nil => rfl
    | cons v vs ih =>
      rw [List.foldl_cons, Search.add, if_pos (.inl h)]
      exact ih
  induction refs generalizing s with
  | nil => rfl
  | cons href refs ih =>
    rw [Crawl.enqueueRefs, List.filterMap_cons]
    split
    · rename_i h
      exact (hfull _ s h).symm
    rename_i hroom
    cases canonicalLink L Q href base with
    | none => exact ih s
    | some found =>
      dsimp only
      cases hin : c.accepts L Q found.1 found.2 with
      | false => exact ih s
      | true =>
        rw [if_neg (by decide), if_pos rfl, List.foldl_cons, Search.add]
        split
        · rename_i hseen
          rw [if_pos (.inr hseen)]
          exact ih s
        · rename_i hseen
          rw [if_neg (by rw [not_or]; exact ⟨hroom, hseen⟩)]
          exact ih _

theorem crawlOne_eq (u : QString × Nat) (rest : List (QString × Nat)) (s : Search QString)
    (hqueue : s.queue = u :: rest) :
    c.crawlOne L Q P fetch u { s with queue := rest, visited := s.visited ++ [u] } =
      s.visit (c.linksOf L Q P fetch) kMaxSeen c.maxDepth := by
  rw [Search.visit, hqueue]
  unfold Crawl.crawlOne Crawl.linksOf
  dsimp only
  cases fetch u.1 with
  | none =>
    dsimp only
    rw [List.foldl_nil, ite_self]
  | some body =>
    dsimp only
    split
    · rfl
    · exact enqueueRefs_eq _ _ _ _

theorem loop_eq (s : Search QString) : c.loop L Q P fetch s =
    (Search.visit (c.linksOf L Q P fetch) kMaxSeen c.maxDepth)^[c.maxPages - s.visited.length]
      s := by
  generalize hn : c.maxPages - s.visited.length = n
  induction n generalizing s with
  | zero =>
    rw [Crawl.loop, dif_neg (by omega)]
    rfl
  | succ n ih =>
    rw [Crawl.loop, dif_pos (by omega)]
    split
    · rename_i hqueue
      rw [Function.iterate_fixed (visit_done hqueue)]
    · rename_i u rest hqueue
      rw [crawlOne_eq u rest s hqueue, Function.iterate_succ_apply]
      apply ih
      rw [visit_visited hqueue, List.length_append, List.length_singleton]
      omega

theorem run_eq : c.run L Q P fetch =
    (Search.visit (c.linksOf L Q P fetch) kMaxSeen c.maxDepth)^[c.maxPages]
      (Search.init c.canonSeed) :=
  loop_eq _

theorem linksOf_accepted (h : v ∈ c.linksOf L Q P fetch u) :
    ∃ host, c.accepts L Q v host = true := by
  unfold Crawl.linksOf at h
  cases hfetch : fetch u with
  | none =>
    rw [hfetch] at h
    cases h
  | some body =>
    rw [hfetch] at h
    obtain ⟨href, -, hhref⟩ := List.mem_filterMap.1 h
    split at hhref
    · cases hhref
    · split at hhref
      · rename_i host _ hin
        cases hhref
        exact ⟨host, hin⟩
      · cases hhref

theorem start_limits (h : start L Q scope seed maxPages maxDepth = some c) :
    c.maxPages = (max 1 (min maxPages 5000)).toNat ∧
      c.maxDepth = (max 0 (min maxDepth 10)).toNat ∧
      c.scope = scope ∧
      c.inScope L c.seedScheme c.seedHost c.seedPort
        (Q.encodedPath (Q.parse c.canonSeed)) = true := by
  unfold start at h
  dsimp only at h
  split at h
  · cases h
  cases hcanon : canonicalLink L Q seed (Q.parse seed) with
  | none =>
    rw [hcanon] at h
    cases h
  | some found =>
    rw [hcanon] at h
    dsimp only at h
    split at h
    · rename_i hscope
      cases h
      exact ⟨rfl, rfl, rfl, hscope⟩
    · cases h

end Refinement

/-- A crawl is a breadth search, complete where there is room. -/
theorem crawl_exact (L : TextLibrary) (Q : UrlLibrary) (P : PageLibrary Q)
    (fetch : QString → Option QByteArray)
    (scope : Option (QString → QString → Int → QString → Bool)) (seed : QString)
    (maxPages maxDepth : Int) {c : Crawl} (h : start L Q scope seed maxPages maxDepth = some c) :
    let s := c.run L Q P fetch
    let pages := s.visited.map Prod.fst
    (pages.length : Int) ≤ max 1 (min maxPages 5000) ∧
      pages.Nodup ∧
      (∀ p ∈ pages, p = c.canonSeed ∧
          c.inScope L c.seedScheme c.seedHost c.seedPort
            (Q.encodedPath (Q.parse c.canonSeed)) = true ∨
        ∃ host, c.accepts L Q p host = true) ∧
      s.visited.Pairwise (fun x y => x.2 ≤ y.2) ∧
      (∀ x ∈ s.visited, (x.2 : Int) ≤ max 0 (min maxDepth 10) ∧
        IsLeast {n | Path (c.linksOf L Q P fetch) c.canonSeed (fun u => u ∈ pages) x.1 n} x.2) ∧
      ((pages.length : Int) < max 1 (min maxPages 5000) → s.seen.length < kMaxSeen →
        ∀ v n, Path (c.linksOf L Q P fetch) c.canonSeed (fun _ => True) v n →
          (n : Int) ≤ max 0 (min maxDepth 10) → v ∈ pages) := by
  obtain ⟨hpages, hdepth, -, hseed⟩ := start_limits h
  intro s pages
  have hs : s = (Search.visit (c.linksOf L Q P fetch) kMaxSeen c.maxDepth)^[c.maxPages]
      (Search.init c.canonSeed) := run_eq
  have hsound : s.Sound (c.linksOf L Q P fetch) kMaxSeen c.maxDepth c.canonSeed :=
    hs ▸ run_sound c.canonSeed c.maxPages
  obtain ⟨hle, hfull⟩ := @run_length QString _ (c.linksOf L Q P fetch) kMaxSeen c.maxDepth
    (Search.init c.canonSeed) c.maxPages
  have hnone : (Search.init c.canonSeed).visited.length = 0 := rfl
  rw [← hs, hnone, Nat.zero_add] at hle hfull
  have hlength : pages.length = s.visited.length := List.length_map _
  have hmem {x : QString × Nat} (hx : x ∈ s.visited) : x ∈ s.entries := List.mem_append_left _ hx
  refine ⟨by omega, ?_, ?_, ?_, fun x hx => ⟨?_, hsound.isLeast (hmem hx)⟩, ?_⟩
  · have hnodup := hsound.nodup
    rw [hsound.seen_eq, Search.entries, List.map_append] at hnodup
    exact (List.nodup_append'.1 hnodup).1
  · intro p hp
    obtain ⟨x, hx, rfl⟩ := List.mem_map.1 hp
    rcases hsound.origin x (hmem hx) with rfl | ⟨u, -, -, -, hlink⟩
    · exact .inl ⟨rfl, hseed⟩
    · exact .inr (linksOf_accepted hlink)
  · exact (List.pairwise_append.1 hsound.sorted).1
  · have hdeep := hsound.depth_le (hmem hx)
    omega
  · intro hmore hroom v n hpath hn
    apply hsound.complete _ hroom hpath (by omega)
    by_contra hne
    have hall := hfull hne
    omega

def oneHost : UrlLibrary where
  Url := QString
  parse s := s
  resolved _ u := u
  isValid _ := true
  scheme _ := utf16 "http"
  host _ := utf16 "h"
  port _ := -1
  path u := u.drop 8
  encodedPath u := u.drop 8
  withoutFragment u := u
  setPath p u := u.take 8 ++ p
  toQString u := u

def noPages : PageLibrary oneHost where
  truncateBodyAtTag body n := body.take n
  resolveBase _ u := u
  extractRawLinks _ := []
  extractSrcset _ := []
  extractMetaRefresh _ := []
  extractFormGets _ := []

theorem crawl_one_host : ∃ c,
    start asciiLibrary oneHost none (utf16 "http://h/") 200 4 = some c ∧
      (((c.run asciiLibrary oneHost noPages (fun _ => some [])).visited.map Prod.fst).length :
        Int) ≤ 200 :=
  ⟨_, rfl, (crawl_exact asciiLibrary oneHost noPages (fun _ => some []) none
    (utf16 "http://h/") 200 4 rfl).1⟩

theorem crawl_without_pages : ∃ c,
    start asciiLibrary oneHost none (utf16 "http://h/") 0 4 = some c ∧
      (0 : Int) < (c.run asciiLibrary oneHost noPages (fun _ => some [])).visited.length := by
  refine ⟨_, rfl, ?_⟩
  rw [run_eq]
  decide

end Nullock.Crawler

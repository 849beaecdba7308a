import Nullock.ControlLogic

namespace Nullock.ControlServer
open ControlLogic

def headerField (line : QByteArray) : QByteArray × QByteArray :=
  let line := chopCr line
  let colon := (indexOf [0x3A] line).getD 0
  (headerKey line colon, headerValue line colon)

def headerFields (header : QByteArray) : Headers :=
  ((header.splitOn 0x0A).drop 1).map headerField

def isLoopbackHost (port : Nat) (host : QByteArray) : Bool :=
  !host.isEmpty && isHostAllowed (fromLatin1 host) port

def TokenMatches (cfg : Config) (fields : Headers) : Prop :=
  cfg.apiToken ≠ [] ∧ ∃ f ∈ fields, f.1 = latin1 "authorization" ∧
    bearerToken (fromLatin1 f.2) ≠ [] ∧
    toUtf8 (bearerToken (fromLatin1 f.2)) = toUtf8 cfg.apiToken

def FromInterface (cfg : Config) (fields : Headers) : Prop :=
  (∃ f ∈ fields, f.1 = latin1 "origin" ∧
      isSameOrigin (fromLatin1 f.2) cfg.listeningPort = true) ∨
    ∃ f ∈ fields, f.1 = latin1 "x-nullock-ui" ∧ isUiHeader (fromLatin1 f.2) = true

/-- What lets a header block in; `hostOk` are the hosts taken for this machine. -/
structure Gate (cfg : Config) (hostOk : QByteArray → Bool) (fields : Headers) (method : QString) :
    Prop where
  noTransferEncoding : ∀ f ∈ fields, f.1 ≠ latin1 "transfer-encoding"
  once : ∀ key ∈ kUnique, (fields.map Prod.fst).count key ≤ 1
  authorized : TokenMatches cfg fields ∨ cfg.tokenMandatory = false ∧
    (∀ f ∈ fields, f.1 = latin1 "host" → hostOk f.2 = true) ∧
    (isReadMethod method = true ∨ FromInterface cfg fields)

section Reading
variable {headers : Headers}

theorem contains_eq_true : headers.contains key = true ↔ key ∈ headers.map Prod.fst := by
  rw [Headers.contains, List.any_eq_true, List.mem_map]
  simp only [beq_iff_eq]

theorem readHeader_ok (h : readHeader headers line = .ok headers') :
    headers' = headerField line :: headers ∧
      (headerField line).1 ≠ latin1 "transfer-encoding" ∧
      ((headerField line).1 ∈ kUnique → (headerField line).1 ∉ headers.map Prod.fst) := by
  rw [readHeader] at h
  simp only [headerField]
  split at h
  · cases h
  dsimp only at h
  split at h
  · cases h
  split at h
  · cases h
  split at h
  · cases h
  split at h
  · cases h
  · rename_i hcoding hdouble
    refine ⟨(Except.ok.inj h).symm, hcoding, fun hunique hmem => hdouble ?_⟩
    rw [Bool.and_eq_true, List.contains_iff_mem]
    exact ⟨hunique, contains_eq_true.2 hmem⟩

theorem readHeaders_ok {lines : List QByteArray} (h : readHeaders headers lines = .ok headers') :
    headers' = (lines.map headerField).reverse ++ headers ∧
      (∀ f ∈ lines.map headerField, f.1 ≠ latin1 "transfer-encoding") ∧
      ∀ key ∈ kUnique, (headers.map Prod.fst).count key ≤ 1 →
        (headers'.map Prod.fst).count key ≤ 1 := by
  induction lines generalizing headers with
  | nil =>
    rw [readHeaders, Except.ok.injEq] at h
    subst h
    exact ⟨rfl, fun f hf => absurd hf List.not_mem_nil, fun _ _ h => h⟩
  | cons line lines ih =>
    rw [readHeaders] at h
    split at h
    · cases h
    · rename_i next hnext
      obtain ⟨rfl, hcoding, hfresh⟩ := readHeader_ok hnext
      obtain ⟨rfl, hrest, honce⟩ := ih h
      refine ⟨?_, ?_, fun key hkey hcount => honce key hkey ?_⟩
      · rw [List.map_cons, List.reverse_cons, List.append_assoc, List.singleton_append]
      · exact List.forall_mem_cons.2 ⟨hcoding, hrest⟩
      · rw [List.map_cons, List.count_cons]
        split
        · rename_i heq
          rw [beq_iff_eq] at heq
          subst heq
          rw [List.count_eq_zero_of_not_mem (hfresh hkey)]
        · exact hcount

theorem mem_of_value (h : headers.value key ≠ []) : (key, headers.value key) ∈ headers := by
  rw [Headers.value] at h ⊢
  cases hfind : headers.find? (·.1 == key) with
  | none =>
    rw [hfind] at h
    exact absurd rfl h
  | some f =>
    obtain ⟨k, v⟩ := f
    have hk : k = key := by
      simpa only [beq_iff_eq] using List.find?_some hfind
    rw [← hk]
    exact List.mem_of_find?_eq_some hfind

theorem value_of_mem (hmem : f ∈ headers) (hkey : f.1 = key)
    (honce : (headers.map Prod.fst).count key ≤ 1) : headers.value key = f.2 := by
  rw [Headers.value]
  induction headers with
  | nil => exact absurd hmem List.not_mem_nil
  | cons g headers ih =>
    rw [List.map_cons, List.count_cons] at honce
    rcases List.mem_cons.1 hmem with rfl | hmem
    · rw [List.find?_cons_of_pos (by rw [hkey]; exact beq_self_eq_true key)]
      rfl
    · cases hg : g.1 == key with
      | true =>
        rw [hg, if_pos rfl] at honce
        have hnone : key ∉ headers.map Prod.fst := by
          rw [← List.count_eq_zero]
          omega
        exact absurd (hkey ▸ List.mem_map_of_mem hmem) hnone
      | false =>
        simp only [List.find?_cons, hg]
        rw [hg, if_neg Bool.false_ne_true] at honce
        exact ih hmem honce

end Reading

def isOwnHost (port : Nat) (host : QByteArray) : Bool :=
  host.isEmpty || isLoopbackHost port host

section Validation
variable {cfg : Config} {headers : Headers}

theorem isTokenAuthorized_iff (header token : QString) : isTokenAuthorized header token = true ↔
    token ≠ [] ∧ bearerToken header ≠ [] ∧ toUtf8 (bearerToken header) = toUtf8 token := by
  rw [isTokenAuthorized]
  split
  · rename_i hempty
    rw [List.isEmpty_iff] at hempty
    exact ⟨fun h => absurd h Bool.false_ne_true, fun h => absurd hempty h.1⟩
  · rename_i htoken
    rw [List.isEmpty_iff] at htoken
    dsimp only
    split
    · rename_i hempty
      rw [List.isEmpty_iff] at hempty
      exact ⟨fun h => absurd h Bool.false_ne_true, fun h => absurd hempty h.2.1⟩
    · rename_i hpresented
      rw [List.isEmpty_iff] at hpresented
      rw [constantTimeEquals_iff]
      exact ⟨fun h => ⟨htoken, hpresented, h⟩, fun h => h.2.2⟩

theorem authorizeRequest_none (h : authorizeRequest cfg method headers = none)
    (honce : ∀ key ∈ kUnique, (headers.map Prod.fst).count key ≤ 1) :
    TokenMatches cfg headers ∨ cfg.tokenMandatory = false ∧
      (∀ f ∈ headers, f.1 = latin1 "host" → isOwnHost cfg.listeningPort f.2 = true) ∧
      (isReadMethod method = true ∨ FromInterface cfg headers) := by
  rw [authorizeRequest] at h
  cases htoken : isTokenAuthorized
      (fromLatin1 (headers.value (latin1 "authorization"))) cfg.apiToken with
  | true =>
    obtain ⟨hset, hpresented, hsame⟩ := (isTokenAuthorized_iff _ _).1 htoken
    refine .inl ⟨hset, (latin1 "authorization", headers.value (latin1 "authorization")),
      mem_of_value (fun hnone => ?_), rfl, hpresented, hsame⟩
    rw [hnone] at hpresented
    exact hpresented rfl
  | false =>
    rw [htoken] at h
    simp only [Bool.not_false, Bool.and_true, Bool.true_and, Bool.not_eq_eq_eq_not, Bool.not_true]
      at h
    split at h
    · cases h
    rename_i hmandatory
    split at h
    · cases h
    rename_i hhost
    split at h
    · cases h
    split at h
    · cases h
    rename_i hwrite
    refine .inr ⟨Bool.eq_false_iff.2 hmandatory, fun f hf hkey => ?_, ?_⟩
    · rw [value_of_mem hf hkey (honce _ (by decide)), Bool.not_eq_false] at hhost
      rw [isOwnHost, isLoopbackHost, hhost]
      cases f.2.isEmpty with
      | true => rfl
      | false => rfl
    · rw [Bool.not_eq_false, isRequestAuthorized] at hwrite
      split at hwrite
      · rename_i hread
        exact .inl hread
      · refine .inr ((Bool.or_eq_true _ _ ▸ hwrite).imp (fun horigin => ?_) (fun hui => ?_))
        · refine ⟨(latin1 "origin", headers.value (latin1 "origin")), mem_of_value (fun hnone => ?_),
            rfl, horigin⟩
          rw [hnone, isSameOrigin, Bool.or_eq_true, beq_iff_eq, beq_iff_eq] at horigin
          rcases horigin with horigin | horigin
          · exact absurd (List.append_eq_nil_iff.1 horigin.symm).1 (by decide)
          · exact absurd (List.append_eq_nil_iff.1 horigin.symm).1 (by decide)
        · refine ⟨(latin1 "x-nullock-ui", headers.value (latin1 "x-nullock-ui")),
            mem_of_value (fun hnone => ?_), rfl, hui⟩
          rw [hnone] at hui
          exact absurd hui (by decide)

theorem validateHeaders_gate
    (h : validateHeaders cfg header = .ok (method, target, contentLength)) :
    Gate cfg (isOwnHost cfg.listeningPort) (headerFields header) method := by
  rw [validateHeaders] at h
  split at h
  · split at h
    · cases h
    split at h
    · cases h
    rename_i read hread
    split at h
    · cases h
    split at h
    · cases h
    rename_i hauthorized
    obtain ⟨hmethod, -⟩ := Prod.mk.inj (Except.ok.inj h)
    obtain ⟨rfl, hcoding, honce⟩ := readHeaders_ok hread
    rw [List.append_nil] at honce hauthorized
    have hcount : ∀ key ∈ kUnique, ((headerFields header).reverse.map Prod.fst).count key ≤ 1 :=
      fun key hkey => honce key hkey (Nat.zero_le _)
    have hmem : ∀ f, f ∈ (headerFields header).reverse ↔ f ∈ headerFields header :=
      fun f => List.mem_reverse
    refine ⟨hcoding, fun key hkey => ?_, ?_⟩
    · have hkey' := hcount key hkey
      rwa [List.map_reverse, List.count_reverse] at hkey'
    · have hcases := authorizeRequest_none hauthorized hcount
      rw [hmethod] at hcases
      simpa only [TokenMatches, FromInterface, hmem, headerFields, List.mem_reverse] using hcases
  · cases h

end Validation

end Nullock.ControlServer

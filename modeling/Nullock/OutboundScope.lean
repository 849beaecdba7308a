import Nullock.ProxyScope

namespace Nullock.OutboundScope
open ScopeLogic Proxy

structure UrlLibrary where
  Url : Type
  /-- A text parsed in strict mode. -/
  strict : QString → Url
  isValid : Url → Bool
  scheme : Url → QString
  host : Url → QString
  /-- The path of a URL, fully encoded. -/
  encodedPath : Url → QString
  toUtf8 : QString → QByteArray
  fromPercentEncoding : QByteArray → QString
  /-- The empty URL with its path set in decoded mode. -/
  ofDecodedPath : QString → Url
  normalizePathSegments : Url → Url
  /-- The path of a URL, fully decoded. -/
  decodedPath : Url → QString

/-- A destination; the path is `none` where the source has a null string. -/
structure Target where
  host : QString
  port : Int
  protocol : Int
  path : Option QString

def allows (checker : Option (Target → Bool)) (target : Target) : Bool :=
  match checker with
  | none => true
  | some current =>
    0 < target.port && target.port ≤ 65535 && !(QString.trimmed target.host).isEmpty &&
      current target

def applicationChecker (E : RegexEngine) (scope : Scope) (t : Target) : Bool :=
  match t.path with
  | none => isTransportInScope E scope t.host t.port t.protocol
  | some path => isUrlInScope E scope (t.protocol == 2) t.host t.port path

def isAbsoluteForm (U : UrlLibrary) (target : QString) : Bool :=
  let u := U.strict target
  U.isValid u && (U.scheme u == utf16 "http" || U.scheme u == utf16 "https") &&
    !(U.host u).isEmpty

def wirePath (U : UrlLibrary) (target : QString) : Option QString :=
  if target.head? = some 0x2F then some (firstSection 0x23 (firstSection 0x3F target))
  else if isAbsoluteForm U target then
    let path := U.encodedPath (U.strict target)
    some (if path.isEmpty then utf16 "/" else path)
  else none

def normalizedPath (U : UrlLibrary) (path : QString) : QString :=
  let normalized := U.ofDecodedPath (U.fromPercentEncoding (U.toUtf8 path))
  let path := U.decodedPath (U.normalizePathSegments normalized)
  if path.isEmpty then utf16 "/" else path

def allowsUrl (U : UrlLibrary) (checker : Option (Target → Bool)) (host : QString) (port : Int)
    (tls : Bool) (target : QString) : Bool :=
  let t : Target := ⟨host, port, if tls then 2 else 1, wirePath U target⟩
  if !allows checker t then false
  else
    match t.path with
    | none => true
    | some path => allows checker { t with path := some (normalizedPath U path) }

def requestTarget (request : QByteArray) : QString :=
  let line := QByteArray.trimmed (request.takeWhile (· != 0x0A))
  match indexOf (latin1 " ") line, lastIndexOf 0x20 line with
  | some first, some last =>
    if first < last then fromLatin1 ((line.drop (first + 1)).take (last - first - 1)) else []
  | _, _ => []

def allowsRequest (U : UrlLibrary) (checker : Option (Target → Bool)) (host : QString) (port : Int)
    (tls : Bool) (request : QByteArray) : Bool :=
  allowsUrl U checker host port tls (requestTarget request)

def verdict (U : UrlLibrary) (E : RegexEngine) (scope : Scope) (host : QString) (port : Int)
    (tls : Bool) : Option QString → Bool
  | none => isTransportInScope E scope host port (requestProtocol tls)
  | some path =>
    isUrlInScope E scope tls host port path &&
      isUrlInScope E scope tls host port (normalizedPath U path)

theorem applicationChecker_path (E : RegexEngine) (scope : Scope) (host : QString) (port : Int)
    (tls : Bool) (path : QString) :
    applicationChecker E scope ⟨host, port, if tls then 2 else 1, some path⟩ =
      isUrlInScope E scope tls host port path := by
  cases tls <;> rfl

theorem applicationChecker_transport (E : RegexEngine) (scope : Scope) (host : QString)
    (port : Int) (tls : Bool) :
    applicationChecker E scope ⟨host, port, if tls then 2 else 1, none⟩ =
      isTransportInScope E scope host port (requestProtocol tls) := by
  cases tls <;> rfl

theorem allowsUrl_eq (U : UrlLibrary) (E : RegexEngine) (scope : Scope) (host : QString)
    (port : Int) (tls : Bool) (target : QString) :
    allowsUrl U (some (applicationChecker E scope)) host port tls target =
      (0 < port && port ≤ 65535 && !(QString.trimmed host).isEmpty &&
        verdict U E scope host port tls (wirePath U target)) := by
  rw [allowsUrl]
  cases wirePath U target with
  | none =>
    simp only [allows, applicationChecker_transport, verdict]
    cases (decide (0 < port) && decide (port ≤ 65535) && !(QString.trimmed host).isEmpty &&
      isTransportInScope E scope host port (requestProtocol tls)) <;> rfl
  | some path =>
    simp only [allows, applicationChecker_path, verdict]
    cases (decide (0 < port) && decide (port ≤ 65535) && !(QString.trimmed host).isEmpty) with
    | false => rfl
    | true => cases isUrlInScope E scope tls host port path <;> rfl

theorem wirePath_absolute {target : QString} (h : target.head? ≠ some 0x2F)
    (ha : isAbsoluteForm U target = true) :
    wirePath U target = some (if (U.encodedPath (U.strict target)).isEmpty then utf16 "/"
      else U.encodedPath (U.strict target)) := by
  rw [wirePath, if_neg h, if_pos ha]

/-- An allowed request has its wire path and its normalised path in scope. -/
theorem outbound_gate_sound (U : UrlLibrary) (E : RegexEngine) (scope : Scope) (host : QString)
    (port : Int) (tls : Bool) (request : QByteArray) :
    (allowsRequest U (some (applicationChecker E scope)) host port tls request = true →
      (∃ path, wirePath U (requestTarget request) = some path ∧
        isUrlInScope E scope tls host port path = true ∧
        isUrlInScope E scope tls host port (normalizedPath U path) = true) ∨
      (wirePath U (requestTarget request) = none ∧
        isTransportInScope E scope host port (requestProtocol tls) = true ∧
        ∀ path, isUrlInScope E scope tls host port path = true)) ∧
    (∀ request' : QByteArray,
      (requestTarget request).head? ≠ some 0x2F → (requestTarget request').head? ≠ some 0x2F →
      isAbsoluteForm U (requestTarget request) = true →
      isAbsoluteForm U (requestTarget request') = true →
      U.encodedPath (U.strict (requestTarget request)) =
        U.encodedPath (U.strict (requestTarget request')) →
      allowsRequest U (some (applicationChecker E scope)) host port tls request =
        allowsRequest U (some (applicationChecker E scope)) host port tls request') := by
  constructor
  · intro h
    rw [allowsRequest, allowsUrl_eq, Bool.and_eq_true] at h
    obtain ⟨_, h⟩ := h
    cases hp : wirePath U (requestTarget request) with
    | none =>
      rw [hp] at h
      exact .inr ⟨rfl, h, transport_allows_path tls h⟩
    | some path =>
      rw [hp, verdict, Bool.and_eq_true] at h
      exact .inl ⟨path, rfl, h⟩
  · intro request' hhead hhead' habs habs' hpath
    rw [allowsRequest, allowsRequest, allowsUrl_eq, allowsUrl_eq, wirePath_absolute hhead habs,
      wirePath_absolute hhead' habs', hpath]

def plainUrls : UrlLibrary where
  Url := QString × QString × QString
  strict s :=
    if s.take 7 = utf16 "http://" then
      (utf16 "http", (s.drop 7).takeWhile (· != 0x2F), (s.drop 7).dropWhile (· != 0x2F))
    else ([], [], s)
  isValid _ := true
  scheme u := u.1
  host u := u.2.1
  encodedPath u := u.2.2
  toUtf8 := toLatin1
  fromPercentEncoding := fromLatin1
  ofDecodedPath path := ([], [], path)
  normalizePathSegments := id
  decodedPath u := u.2.2

def noPatterns : RegexEngine := ⟨fun _ => true, fun _ _ => false⟩

def portScope : Scope :=
  ⟨[], [], compile noPatterns [{ protocol := ProtoHttps, portFrom := 443 }]⟩

theorem outbound_gate_port :
    allowsRequest plainUrls (some (applicationChecker noPatterns portScope)) (utf16 "a.example") 443
        true (latin1 "GET /index HTTP/1.1\r\n\r\n") = true ∧
      isUrlInScope noPatterns portScope true (utf16 "a.example") 443 (utf16 "/index") = true ∧
      allowsRequest plainUrls (some (applicationChecker noPatterns portScope)) (utf16 "a.example")
          80 true (latin1 "GET http://b.example/x HTTP/1.1") =
        allowsRequest plainUrls (some (applicationChecker noPatterns portScope)) (utf16 "a.example")
          80 true (latin1 "GET http://a.example/x HTTP/1.1") := by
  have hallowed : allowsRequest plainUrls (some (applicationChecker noPatterns portScope))
      (utf16 "a.example") 443 true (latin1 "GET /index HTTP/1.1\r\n\r\n") = true := by decide
  refine ⟨hallowed, ?_, ?_⟩
  · obtain ⟨path, hpath, hwire, _⟩ | ⟨hnone, _⟩ :=
      (outbound_gate_sound plainUrls noPatterns portScope (utf16 "a.example") 443 true _).1 hallowed
    · have hindex : wirePath plainUrls (requestTarget (latin1 "GET /index HTTP/1.1\r\n\r\n")) =
          some (utf16 "/index") := by decide
      rw [hindex, Option.some.injEq] at hpath
      rw [hpath]
      exact hwire
    · exact absurd hnone (by decide)
  · apply (outbound_gate_sound plainUrls noPatterns portScope (utf16 "a.example") 80 true _).2
    · decide
    · decide
    · decide
    · decide
    · decide

end Nullock.OutboundScope

import Nullock.H2Headers
import Nullock.ProxyLegs
import Nullock.RewriteBytes

namespace Nullock.Proxy
open ScopeLogic HttpLogic H2ServerLogic SessionRules SessionRulesLogic

def browserRequest (host : QString) (port : Nat) (f : H2ReqFields) (body : QByteArray) :
    ProxiedRequest where
  method := f.method
  target := []
  httpVersion := []
  headers := f.headers
  path := if f.path.head? = some 0x2F then f.path else utf16 "/" ++ f.path
  body := body
  host := host
  port := port
  tls := true

/-- What the leg sends: the stream's request after scripts and rules. -/
def Surroundings.sent (w : Surroundings) (host : QString) (port : Nat) (h2headers : List Header)
    (body : QByteArray) : ProxiedRequest :=
  w.rewritten (browserRequest host port (parseRequestHeaders h2headers) body)

def Surroundings.browserHttp2Bytes (w : Surroundings) (host : QString) (port : Nat)
    (h2headers : List Header) (body : QByteArray) : Option QByteArray :=
  let bytes := serializeRequestForOrigin (w.sent host port h2headers body).toHttpRequest
  if !(parseRequestHeaders h2headers).valid then none
  else if (w.pendRequest true bytes host port true).2.dropped then none
  else some bytes

def isHostField (f : WireField) : Bool := equalsIgnoreCase f.header.1 (utf16 "Host")

/-- The bytes are one HTTP/1.1 request with one host and the length of its body. -/
def OneRequest (req : ProxiedRequest) (authority : QString) (bytes : QByteArray) : Prop :=
  ∃ fields : List WireField,
    bytes = headLines (toLatin1 req.method ++ latin1 " " ++ toLatin1 req.path ++
        latin1 " HTTP/1.1") (fields.map WireField.text) ++ (crlf ++ crlf ++ req.body) ∧
      (∃ f, fields.filter isHostField = [f] ∧
        (authority ≠ [] → f.value = toLatin1 authority)) ∧
      (req.body ≠ [] → contentLengths (fields.map WireField.header) =
        [fromLatin1 (QByteArray.number req.body.length)])

theorem not_oneRequest {req : ProxiedRequest} (h : req.httpVersion = []) (authority : QString) :
    ¬ OneRequest req authority (serializeRequestForOrigin req.toHttpRequest) := by
  intro hone
  obtain ⟨fields, he, _⟩ := hone
  rw [headLines, serializeRequestForOrigin, h] at he
  simp only [List.append_assoc] at he
  have hversion := List.append_cancel_left (List.append_cancel_left (List.append_cancel_left he))
  have hbyte : some (0x0D : UInt8) = some 0x48 := congrArg (fun s => s[1]?) hversion
  cases hbyte

section
variable (E : RegexEngine) (L : TextLibrary)

theorem applyRules_version (R : ReplaceEngine) (rules : List MatchReplaceRule)
    (req : ProxiedRequest) : (applyRules E L R rules req).httpVersion = req.httpVersion := by
  have hstep (state : ProxiedRequest × Bool) (r : MatchReplaceRule) :
      (applyMatchReplace E L R state r).1.httpVersion = state.1.httpVersion := by
    rw [applyMatchReplace]
    split
    · rfl
    · split
      · rfl
      · split
        · rfl
        · rfl
        · split
          · rfl
          · rfl
        · rfl
  have hfold (state : ProxiedRequest × Bool) :
      (rules.foldl (applyMatchReplace E L R) state).1.httpVersion = state.1.httpVersion := by
    induction rules generalizing state with
    | nil => rfl
    | cons r rules ih => exact (ih _).trans (hstep state r)
  have hall := hfold (req, false)
  rw [applyRules]
  split
  · rename_i he
    rw [he] at hall
    exact hall
  · rename_i he
    rw [he] at hall
    exact hall

theorem injectInto_version (byHost : QString → Option SessionManager.HostSession)
    (nowSec : Int) (req : ProxiedRequest) :
    (SessionManager.injectInto L byHost nowSec req).httpVersion = req.httpVersion := by
  rw [SessionManager.injectInto]
  split
  · rfl
  · split
    · rfl
    · split
      · rfl
      · dsimp only
        split
        · rfl
        · rfl

theorem inject_version (req : ProxiedRequest) (r : SessionRule) (value : QString) :
    (inject L req r value).1.httpVersion = req.httpVersion := by
  rw [inject]
  split
  · rfl
  · rfl
  · dsimp only
    split
    · rfl
    · rfl
  · rfl
  · rfl

theorem applyToRequest_version (rules : List SessionRule)
    (varsByHost : QString → QString → Option QString) (tool : UInt32) (req : ProxiedRequest) :
    (applyToRequest E L rules varsByHost tool req).1.httpVersion = req.httpVersion := by
  have hfold (state : ProxiedRequest × Bool) :
      (rules.foldl (applyRule E L (varsByHost req.host) tool) state).1.httpVersion =
        state.1.httpVersion := by
    induction rules generalizing state with
    | nil => rfl
    | cons r rules ih =>
      rw [List.foldl_cons, ih, applyRule]
      split
      · rfl
      · exact inject_version L _ _ _
  exact hfold (req, false)

theorem applyRequestRules_version (R : ReplaceEngine) (server : RewriteState) (nowSec : Int)
    (req : ProxiedRequest) :
    (applyRequestRules E L R server nowSec req).httpVersion = req.httpVersion := by
  have hrules := applyRules_version E L R server.rules req
  rw [applyRequestRules]
  split
  · rfl
  · cases server.sessionManager with
    | none =>
      cases server.sessionRules with
      | none => exact hrules
      | some session =>
        exact (applyToRequest_version E L session.1 session.2 ToolProxy _).trans hrules
    | some byHost =>
      have hcookies := (injectInto_version L byHost nowSec _).trans hrules
      cases server.sessionRules with
      | none => exact hcookies
      | some session =>
        exact (applyToRequest_version E L session.1 session.2 ToolProxy _).trans hcookies

end

/-- The bytes for an HTTP/1 origin are never one HTTP/1.1 request: there is no version. -/
theorem browserHttp2_never_oneRequest (w : Surroundings)
    (hversion : ∀ req, (w.rewritten req).httpVersion = req.httpVersion) (host : QString)
    (port : Nat) (h2headers : List Header) (body bytes : QByteArray)
    (h : w.browserHttp2Bytes host port h2headers body = some bytes) :
    ¬ OneRequest (w.sent host port h2headers body) (parseRequestHeaders h2headers).authority
      bytes := by
  rw [Surroundings.browserHttp2Bytes] at h
  split at h
  · cases h
  · split at h
    · cases h
    · rw [← Option.some.inj h]
      exact not_oneRequest (hversion _) _

def plainLeg : Surroundings where
  applyRequestMutation := id
  applyRequestRules := applyRequestRules anyMatch asciiLibrary noReplace openServer 0
  applyResponseMutation _ resp := resp
  applyResponseRules _ resp := resp
  interceptController := none
  connected := true
  answer _ _ := .gone
  clientWritten := true

def postStream : List Header :=
  [(utf16 ":method", utf16 "POST"), (utf16 ":authority", utf16 "a.example"),
    (utf16 ":path", utf16 "/")]

theorem browserHttp2_never_oneRequest_post :
    ¬ OneRequest (plainLeg.sent (utf16 "a.example") 443 postStream (latin1 "x=1"))
      (parseRequestHeaders postStream).authority (latin1 "POST / \r\n\r\nx=1") :=
  browserHttp2_never_oneRequest plainLeg
    (applyRequestRules_version anyMatch asciiLibrary noReplace openServer 0) _ _ _ _ _
    (by decide)

theorem browserHttp2_bare_request :
    plainLeg.browserHttp2Bytes (utf16 "a.example") 443 postStream (latin1 "x=1") =
        some (latin1 "POST / \r\n\r\nx=1") ∧
      ¬ OneRequest (plainLeg.sent (utf16 "a.example") 443 postStream (latin1 "x=1"))
        (parseRequestHeaders postStream).authority (latin1 "POST / \r\n\r\nx=1") := by
  have hbytes : serializeRequestForOrigin
      (plainLeg.sent (utf16 "a.example") 443 postStream (latin1 "x=1")).toHttpRequest =
      latin1 "POST / \r\n\r\nx=1" := by decide
  refine ⟨by decide, ?_⟩
  have hversion := applyRequestRules_version anyMatch asciiLibrary noReplace openServer 0
    (browserRequest (utf16 "a.example") 443 (parseRequestHeaders postStream) (latin1 "x=1"))
  rw [← hbytes]
  exact not_oneRequest hversion _

end Nullock.Proxy

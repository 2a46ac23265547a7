import ChatLab.Auth.Token
import ChatLab.Foundation.OrderedMap
import Mathlib.Data.String.Basic

/-!
# Calls through the master's server

A call is a method, a context and a decoded request. What a call does is
recorded as the contexts with which the method's own handler was invoked,
together with the answer. The server chains its unary interceptors in front
of the handler of a unary method; it has no stream interceptors, so a stream
handler is invoked as it is.

The logging interceptor comes from another repository and is a parameter.
-/

namespace ChatLab.Grpc

open Foundation Auth

/-! ## Contexts and metadata -/

abbrev MD := OrderedMap String (List String)

/-- `md.Get`; the keys of incoming metadata are in lower case. -/
def mdGet (md : MD) (k : String) : List String := (md.get? k).getD []

structure Context where
  incoming : Option MD
  userID : Option String
  roles : Option (List String)

/-- The numbers of the gRPC status codes. -/
abbrev Code := Nat

def unauthenticated : Code := 16

structure Status where
  code : Code
  message : String
deriving DecidableEq, Repr

structure Outcome (Resp : Type) where
  -- the contexts with which the method's handler was invoked
  invoked : List Context
  result : Except Status Resp

def trimPrefix (s stem : String) : String :=
  if stem.toList.isPrefixOf s.toList then String.ofList (s.toList.drop stem.toList.length) else s

/-! ## Methods -/

structure Method where
  fullMethod : String
  streams : Bool
deriving DecidableEq, Repr

def getMessage : Method := ⟨"/chat.ChatService/GetMessage", false⟩

def postMessage : Method := ⟨"/chat.ChatService/PostMessage", false⟩

def connect : Method := ⟨"/chat.ChatService/Connect", true⟩

def register : Method := ⟨"/auth.AuthService/Register", false⟩

def login : Method := ⟨"/auth.AuthService/Login", false⟩

def analyze : Method := ⟨"/analyzer.FileAnalyzerService/Analyze", true⟩

def reportStatus : Method := ⟨"/analysis.MonitoringService/ReportStatus", false⟩

/-- The services that the master registers, as their descriptors list them. -/
def registered : List Method :=
  [getMessage, postMessage, connect, register, login, analyze, reportStatus]

def publicMethods : List String := [login.fullMethod, register.fullMethod]

def isPublicMethod (method : String) : Bool := publicMethods.contains method

/-! ## Interceptors -/

section Server

variable {Req Resp : Type}

abbrev UnaryHandler (Req Resp : Type) := Context → Req → Outcome Resp

abbrev UnaryInterceptor (Req Resp : Type) :=
  Context → Req → String → UnaryHandler Req Resp → Outcome Resp

def deny (message : String) : Outcome Resp where
  invoked := []
  result := .error { code := unauthenticated, message := message }

variable (parseWithClaims : String → Except String ParsedToken)

def authInterceptor (authEnabled : Bool) : UnaryInterceptor Req Resp :=
  fun ctx req fullMethod handler =>
    if authEnabled = false then handler ctx req
    else if isPublicMethod fullMethod then handler ctx req
    else
      match ctx.incoming with
      | none => deny "metadata is missing"
      | some md =>
        match mdGet md "authorization" with
        | [] => deny "authorization token is missing"
        | value :: _ =>
          match validateToken parseWithClaims (trimPrefix value "Bearer ") with
          | .error _ => deny "invalid or expired token"
          | .ok claims =>
            handler { ctx with userID := some claims.userID, roles := some claims.roles } req

/-- `grpc.ChainUnaryInterceptor`: the first interceptor is the outermost. -/
def chain : List (UnaryInterceptor Req Resp) → UnaryInterceptor Req Resp
  | [] => fun ctx req _ handler => handler ctx req
  | interceptor :: rest => fun ctx req method handler =>
    interceptor ctx req method fun ctx req => chain rest ctx req method handler

/-- The handler of a method, with its invocation recorded. -/
def recording (handler : Context → Req → Except Status Resp) : UnaryHandler Req Resp :=
  fun ctx req => { invoked := [ctx], result := handler ctx req }

variable (logging : UnaryInterceptor Req Resp)

/-- One call of a method on the server as `run` builds it. -/
def serve (authEnabled : Bool) (method : Method) (handler : Context → Req → Except Status Resp)
    (ctx : Context) (req : Req) : Outcome Resp :=
  if method.streams then recording handler ctx req
  else
    chain [logging, authInterceptor parseWithClaims authEnabled] ctx req method.fullMethod
      (recording handler)

end Server

/-! ## Who is let through -/

section Guarded

variable {Req Resp : Type} (parseWithClaims : String → Except String ParsedToken)

/-- The first authorization value, without the scheme, is a valid token. -/
def Authorized (ctx : Context) : Prop :=
  ∃ md value rest claims, ctx.incoming = some md ∧ mdGet md "authorization" = value :: rest ∧
    validateToken parseWithClaims (trimPrefix value "Bearer ") = .ok claims

/-- What is asked of the logging interceptor: it invokes nothing but the
handler it is given, with the context it was given. -/
def PassesOn (logging : UnaryInterceptor Req Resp) : Prop :=
  ∀ ctx req method handler, ∀ c ∈ (logging ctx req method handler).invoked,
    ∃ req', c ∈ (handler ctx req').invoked

/-- With authentication enabled, the handler of a method runs only for calls
with a valid token. -/
def Guarded (logging : UnaryInterceptor Req Resp) (method : Method) : Prop :=
  ∀ (handler : Context → Req → Except Status Resp) (ctx : Context) (req : Req),
    (serve parseWithClaims logging true method handler ctx req).invoked ≠ [] →
      Authorized parseWithClaims ctx

variable {parseWithClaims} {logging : UnaryInterceptor Req Resp}

theorem authorized_of_authInterceptor {ctx : Context} {req : Req} {method : String}
    {handler : UnaryHandler Req Resp} (hPublic : isPublicMethod method = false)
    (h : (authInterceptor parseWithClaims true ctx req method handler).invoked ≠ []) :
    Authorized parseWithClaims ctx := by
  simp only [authInterceptor, hPublic, Bool.true_eq_false, Bool.false_eq_true, if_false] at h
  split at h
  · exact absurd rfl h
  · rename_i md hIncoming
    split at h
    · exact absurd rfl h
    · rename_i value rest hValues
      split at h
      · exact absurd rfl h
      · rename_i claims hValid
        exact ⟨md, value, rest, claims, hIncoming, hValues, hValid⟩

theorem guarded_of_unary (hLogging : PassesOn logging) {method : Method}
    (hPublic : isPublicMethod method.fullMethod = false) (hUnary : method.streams = false) :
    Guarded parseWithClaims logging method := by
  intro handler ctx req hInvoked
  simp only [serve, hUnary, Bool.false_eq_true, if_false, chain] at hInvoked
  obtain ⟨c, hc⟩ := List.exists_mem_of_ne_nil _ hInvoked
  obtain ⟨req', hNext⟩ := hLogging _ _ _ _ c hc
  exact authorized_of_authInterceptor hPublic (List.ne_nil_of_mem hNext)

/-- The context of a client that sends no token. -/
def withoutToken : Context where
  incoming := some (OrderedMap.empty.insert "user-agent" ["grpc-go/1.78.0"])
  userID := none
  roles := none

theorem not_authorized_withoutToken : ¬ Authorized parseWithClaims withoutToken := by
  rintro ⟨md, value, rest, _, hIncoming, hValues, _⟩
  cases hIncoming
  have hNone : mdGet (OrderedMap.empty.insert "user-agent" ["grpc-go/1.78.0"]) "authorization" =
      [] := by decide
  rw [hNone] at hValues
  cases hValues

theorem not_guarded_of_stream [Inhabited Req] {method : Method}
    (hStream : method.streams = true) : ¬ Guarded parseWithClaims logging method := by
  intro hGuarded
  have hAuthorized := hGuarded (fun _ _ => .error { code := unauthenticated, message := "" })
    withoutToken default (by simp [serve, hStream, recording])
  exact not_authorized_withoutToken hAuthorized

/-- A registered method other than Login and Register is guarded exactly when
it is unary: the interceptor stands in front of unary methods only. -/
theorem registered_guarded_iff [Inhabited Req] (hLogging : PassesOn logging) :
    ∀ method ∈ registered, method ≠ login → method ≠ register →
      (Guarded parseWithClaims logging method ↔ method.streams = false) := by
  have hPublic : ∀ method ∈ registered, method ≠ login → method ≠ register →
      isPublicMethod method.fullMethod = false := by decide
  intro method hMethod hLogin hRegister
  constructor
  · intro hGuarded
    by_contra hStream
    exact not_guarded_of_stream (Bool.not_eq_false _ ▸ hStream) hGuarded
  · exact guarded_of_unary hLogging (hPublic method hMethod hLogin hRegister)

end Guarded

/-! ## A call of Connect without a token -/

def passThrough : UnaryInterceptor Unit Unit := fun ctx req _ handler => handler ctx req

def sampleParse (token : String) : Except String ParsedToken :=
  if token = "t" then
    .ok { claims := tokenClaims "ann" ["user"] 0 0 0, valid := true }
  else .error "token is malformed"

/-- The stream handler runs for a call whose metadata holds no token. -/
theorem connect_unguarded :
    (serve sampleParse passThrough true connect (fun _ _ => .ok ()) withoutToken ()).invoked =
        [withoutToken] ∧
      ¬ Guarded sampleParse passThrough connect :=
  ⟨rfl, not_guarded_of_stream rfl⟩

theorem postMessage_guarded :
    PassesOn passThrough ∧ Guarded sampleParse passThrough postMessage := by
  have hPasses : PassesOn passThrough := fun _ req _ _ _ hc => ⟨req, hc⟩
  refine ⟨hPasses, ?_⟩
  exact (registered_guarded_iff hPasses postMessage (by decide) (by decide) (by decide)).mpr rfl

end ChatLab.Grpc

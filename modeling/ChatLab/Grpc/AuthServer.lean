import ChatLab.Grpc.Interceptor
import ChatLab.Services.AuthService

/-!
# Registration and login over gRPC

The two handlers hand the fields of the request to the service and wrap its
token in a response whose user identifier stays empty. An error of the service
becomes a status by the first sentinel of a fixed list that `errors.Is` finds
in it; the text of the error reaches the client only for the sentinels that
say so.
-/

namespace ChatLab.Grpc

open Foundation Foundation.Transactions Auth Storage Services

/-! ## Errors and statuses -/

/-- The errors that `MapToGRPCError` asks for. -/
inductive Sentinel
  | contentTooLarge
  | invalidPassword
  | invalidCredentials
  | userAlreadyExists
  | serverOverloaded
  | deadlineExceeded
  | canceled
  | tokenGeneration
  | specialistUnavailable
  | specialistCrash
  | specialistTimeout
  | specialistStartFailed
  | specialistNotFound
deriving DecidableEq, Repr

def Sentinel.text : Sentinel → String
  | .contentTooLarge => "content  too large"
  | .invalidPassword => "password must contain at least one uppercase, one lowercase"
  | .invalidCredentials => "invalid credentials"
  | .userAlreadyExists => "user already exists"
  | .serverOverloaded => "too many messages, please backoff"
  | .deadlineExceeded => "context deadline exceeded"
  | .canceled => "context canceled"
  | .tokenGeneration => "token generation failed"
  | .specialistUnavailable => "specialist is not responding"
  | .specialistCrash => "specialist process has exited unexpectedly"
  | .specialistTimeout => "specialist took too long to analyze"
  | .specialistStartFailed => "could not start specialist process"
  | .specialistNotFound => "specialist binary not found"

/-- An error: the sentinel that it is or wraps, if any, and its text. -/
structure GoError where
  wraps : Option Sentinel
  text : String
deriving DecidableEq, Repr

def GoError.is (err : GoError) (target : Sentinel) : Bool := err.wraps = some target

def Sentinel.error (e : Sentinel) : GoError := { wraps := some e, text := e.text }

/-- `fmt.Errorf("%w: %v", e, cause)`. -/
def Sentinel.wrap (e : Sentinel) (cause : String) : GoError where
  wraps := some e
  text := e.text ++ ": " ++ cause

namespace Code

def canceled : Code := 1

def unknown : Code := 2

def invalidArgument : Code := 3

def deadlineExceeded : Code := 4

def alreadyExists : Code := 6

def resourceExhausted : Code := 8

def unimplemented : Code := 12

def internal : Code := 13

def unavailable : Code := 14

end Code

def mapToGRPCError (err : GoError) : Status :=
  if err.is .contentTooLarge || err.is .invalidPassword then ⟨Code.invalidArgument, err.text⟩
  else if err.is .invalidCredentials then ⟨unauthenticated, err.text⟩
  else if err.is .userAlreadyExists then ⟨Code.alreadyExists, err.text⟩
  else if err.is .serverOverloaded then ⟨Code.resourceExhausted, err.text⟩
  else if err.is .deadlineExceeded then ⟨Code.deadlineExceeded, "request took too long"⟩
  else if err.is .canceled then ⟨Code.canceled, "client canceled the request"⟩
  else if err.is .tokenGeneration then ⟨Code.internal, "security token could not be issued"⟩
  else if err.is .specialistUnavailable || err.is .specialistCrash then ⟨Code.unavailable, err.text⟩
  else if err.is .specialistTimeout then ⟨Code.deadlineExceeded, "specialist analysis timed out"⟩
  else if err.is .specialistStartFailed || err.is .specialistNotFound then
    ⟨Code.internal, "sidecar initialization failed"⟩
  else ⟨Code.internal, "an unexpected error occurred"⟩

/-- The text of the validation library for a failed tag of a request. -/
def fieldErrorText (failed : String × String) : String :=
  "Key: 'RegisterRequest." ++ failed.1 ++ "' Error:Field validation for '" ++ failed.1 ++
    "' failed on the '" ++ failed.2 ++ "' tag"

def validationText : ValidationError → String
  | .fields failed => "\n".intercalate (failed.map fieldErrorText)
  | .invalidPassword => Sentinel.invalidPassword.text

section Handlers

-- the texts of the database and of the encoding
variable (repositoryText : TxnError UserError → String)

def serviceError : AuthError → GoError
  | .invalidPassword cause => Sentinel.invalidPassword.wrap (validationText cause)
  | .repository (.body .alreadyExists) => Sentinel.userAlreadyExists.error
  | .repository cause => { wraps := none, text := repositoryText cause }
  | .invalidCredentials => Sentinel.invalidCredentials.error
  | .tokenGeneration => Sentinel.tokenGeneration.error

structure AuthResponse where
  token : String
  userId : String
deriving DecidableEq, Repr

/-- What `Register` and `Login` make of the service's reply; none is a panic. -/
def authAnswer (reply : Reply) : Option (Except Status AuthResponse) :=
  match reply with
  | none => none
  | some (.ok token) => some (.ok { token := token, userId := "" })
  | some (.error e) => some (.error (mapToGRPCError (serviceError repositoryText e)))

end Handlers

/-! ## What a client is told -/

section Answers

variable {repositoryText : TxnError UserError → String}

theorem authAnswer_eq_ok {reply : Reply} {resp : AuthResponse}
    (h : authAnswer repositoryText reply = some (.ok resp)) :
    reply = some (.ok resp.token) ∧ resp.userId = "" := by
  cases reply with
  | none => cases h
  | some r =>
    cases r with
    | error e => cases h
    | ok token =>
      obtain rfl := Except.ok.inj (Option.some.inj h)
      exact ⟨rfl, rfl⟩

/-- A client never sees a text of the database or of the encoding. -/
theorem authAnswer_hides_repository (text : TxnError UserError → String) (reply : Reply) :
    authAnswer repositoryText reply = authAnswer text reply := by
  cases reply with
  | none => rfl
  | some r =>
    cases r with
    | ok token => rfl
    | error e =>
      cases e with
      | invalidPassword cause => rfl
      | invalidCredentials => rfl
      | tokenGeneration => rfl
      | repository cause =>
        cases cause with
        | conflict => rfl
        | commitFailed => rfl
        | body e =>
          cases e with
          | marshal => rfl
          | alreadyExists => rfl
          | notFound => rfl

end Answers

end ChatLab.Grpc

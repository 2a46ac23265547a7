import ChatLab.Foundation.Machine
import ChatLab.Grpc.AuthServer

/-!
# Sessions

Clients register, log in and call the other methods in any order while the
clock runs. The interceptor keeps no record of sessions: a token is all there
is, and it names the account it was issued for until it expires.

A call of `Register` or `Login` reads the clock when it issues its token; the
clock does not run backwards. Assumed of the token library: a signed token is
parsed to its claims before its expiry and refused from then on. Assumed of the
world: nobody but the service signs with its key, so that a token which is
accepted was issued. The code does nothing for that, the key is a constant of
its source. The interceptor that logs the calls comes from another repository
and adds nothing to a call.
-/

namespace ChatLab.Services

def AuthCall.email : AuthCall → String
  | .register c => c.email
  | .login c => c.email

def AuthCall.now : AuthCall → Int
  | .register c => c.now
  | .login c => c.now

def AuthCall.later : AuthCall → Int
  | .register c => c.later
  | .login c => c.later

end ChatLab.Services

namespace ChatLab.Grpc.Sessions

open Foundation Foundation.Transactions Auth Storage Services

structure Signs (signedString : CustomClaims → Except String String) (parse : Parser) : Prop where
  signs : ∀ c, ∃ token, signedString c = .ok token
  accepts : ∀ c token now, signedString c = .ok token → now < expiry c →
    parse now token = .ok { claims := c, valid := true }
  refuses : ∀ c token now, signedString c = .ok token → expiry c ≤ now →
    ∃ e, parse now token = .error e

/-! ## The server and its clients -/

/-- A run of a method's handler: its context and the time. -/
structure Invocation where
  method : Method
  ctx : Context
  time : Int

structure State where
  clock : Int
  -- the calls of `Register` and `Login`
  calls : List AuthCall
  invoked : List Invocation

inductive Action (Req : Type)
  | auth (a : AuthCall)
  | call (method : Method) (ctx : Context) (req : Req)
  | wait (time : Int)

def State.record (st : State) (method : Method) (ran : List Context) : State :=
  { st with
    invoked := st.invoked ++ ran.map fun c => { method := method, ctx := c, time := st.clock } }

/-- The token that the interceptor takes from the metadata of a call. -/
def presented (ctx : Context) : Option String :=
  match ctx.incoming with
  | none => none
  | some md =>
    match mdGet md "authorization" with
    | [] => none
    | value :: _ => some (trimPrefix value "Bearer ")

section Machine

variable {Req Resp : Type} (s : AuthService) (parse : Parser)
  (logging : UnaryInterceptor Req Resp) (handler : Method → Context → Req → Except Status Resp)

/-- The master's server with authentication enabled. -/
def serveAt (now : Int) (method : Method) (ctx : Context) (req : Req) : Outcome Resp :=
  serve (parse now) logging true method (handler method) ctx req

def step (st : State) : Action Req → Option State
  | .auth a =>
    if st.clock ≤ a.now ∧ a.now ≤ a.later then
      some { st with clock := a.later, calls := st.calls ++ [a] }
    else none
  | .call method ctx req =>
    some (st.record method (serveAt parse logging handler st.clock method ctx req).invoked)
  | .wait time => if st.clock ≤ time then some { st with clock := time } else none

def sessionMachine (began : Int) : Machine State (Action Req) where
  start := { clock := began, calls := [], invoked := [] }
  step := step parse logging handler

/-- The answers of the authentication server so far. -/
def answers (repositoryText : TxnError UserError → String) (calls : List AuthCall) :
    List (AuthCall × Option (Except Status AuthResponse)) :=
  (s.historyAfter calls).log.map fun e => (e.1, authAnswer repositoryText e.2)

/-- The call was answered with the token. -/
def Issued (repositoryText : TxnError UserError → String) (calls : List AuthCall) (a : AuthCall)
    (token : String) : Prop :=
  (a, some (.ok { token := token, userId := "" })) ∈ answers s repositoryText calls

/-- What a client can do: its passwords are of the list, and it does not sign
with the key of the service, so that a token that it presents and that is
accepted was issued to somebody. -/
def Unforged (repositoryText : TxnError UserError → String) (passwords : List String)
    (st : State) : Action Req → Prop
  | .auth a => a.password ∈ passwords
  | .call _ ctx _ => ∀ token claims, presented ctx = some token →
      validateToken (parse st.clock) token = .ok claims →
        ∃ a, Issued s repositoryText st.calls a token
  | .wait _ => True

end Machine

/-! ## Tokens and their accounts -/

section Tokens

variable {s : AuthService} {parse : Parser} {repositoryText : TxnError UserError → String}

theorem Signs.recovers (h : Signs s.signedString parse) : Recovers s.signedString parse := by
  intro c
  obtain ⟨token, hToken⟩ := h.signs c
  exact ⟨token, hToken, fun now hNow => h.accepts c token now hToken hNow⟩

theorem issued_iff {calls : List AuthCall} {a : AuthCall} {token : String} :
    Issued s repositoryText calls a token ↔
      (a, some (.ok token)) ∈ (s.historyAfter calls).log := by
  constructor
  · intro h
    obtain ⟨⟨a', reply⟩, hMem, hEq⟩ := List.mem_map.mp h
    obtain ⟨rfl, hAnswer⟩ := Prod.mk.inj hEq
    obtain ⟨rfl, _⟩ := authAnswer_eq_ok hAnswer
    exact hMem
  · intro h
    exact List.mem_map.mpr ⟨_, h, rfl⟩

theorem log_append (calls : List AuthCall) (a : AuthCall) :
    (s.historyAfter (calls ++ [a])).log =
      (s.historyAfter calls).log ++ [(a, (s.call (s.historyAfter calls).users a).1)] := by
  rw [AuthService.historyAfter, List.foldl_append]
  rfl

theorem Issued.append {calls : List AuthCall} {a : AuthCall} {token : String}
    (h : Issued s repositoryText calls a token) (b : AuthCall) :
    Issued s repositoryText (calls ++ [b]) a token := by
  rw [issued_iff] at h ⊢
  rw [log_append]
  exact List.mem_append_left _ h

theorem mem_calls {calls : List AuthCall} {a : AuthCall} {reply : Reply}
    (h : (a, reply) ∈ (s.historyAfter calls).log) : a ∈ calls := by
  have hCall := List.mem_map_of_mem (f := Prod.fst) h
  rwa [log_calls] at hCall

/-- The call gave the email and the password of a registration that was
answered, and its token is for the account of that registration. -/
structure Holds (s : AuthService) (repositoryText : TxnError UserError → String)
    (calls : List AuthCall) (a : AuthCall) (token : String) (r : RegisterCall) : Prop where
  registered : ∃ first, Issued s repositoryText calls (.register r) first
  email : r.email = a.email
  password : r.password = a.password
  token : s.newToken r.newID.text ["user"] a.now a.later = .ok token

theorem Holds.append {calls : List AuthCall} {a : AuthCall} {token : String} {r : RegisterCall}
    (h : Holds s repositoryText calls a token r) (b : AuthCall) :
    Holds s repositoryText (calls ++ [b]) a token r := by
  obtain ⟨first, hFirst⟩ := h.registered
  exact { h with registered := ⟨first, hFirst.append b⟩ }

variable {passwords : List String}

theorem exists_holds (hKeys : DerivesKeys s.idKey) (hAnswers : s.database.Answers)
    (hSigns : Signs s.signedString parse) (hCollisions : CollisionFree s.idKey passwords)
    {calls : List AuthCall} (hPasswords : ∀ a ∈ calls, a.password ∈ passwords) {a : AuthCall}
    {token : String} (h : Issued s repositoryText calls a token) :
    ∃ r, Holds s repositoryText calls a token r := by
  have hRecovers := hSigns.recovers
  induction calls using List.reverseRecOn with
  | nil => cases h
  | append_singleton calls b ih =>
    have hEarlier : ∀ a ∈ calls, a.password ∈ passwords :=
      fun a ha => hPasswords a (List.mem_append_left _ ha)
    have hMem := issued_iff.mp h
    rw [log_append] at hMem
    obtain hOld | hNew := List.mem_append.mp hMem
    · obtain ⟨r, hr⟩ := ih hEarlier (issued_iff.mpr hOld)
      exact ⟨r, hr.append b⟩
    · obtain ⟨rfl, hReply⟩ := Prod.mk.inj (List.mem_singleton.mp hNew)
      cases a with
      | register c =>
        obtain ⟨hToken, _⟩ := (historyAfter_sound hKeys hAnswers hRecovers _).stored c token
          (issued_iff.mp h)
        exact ⟨c, ⟨token, h⟩, rfl, rfl, hToken⟩
      | login c =>
        have hSound := historyAfter_sound hKeys hAnswers hRecovers calls
        have hGiven : c.password ∈ passwords :=
          hPasswords (.login c) (List.mem_append_right _ List.mem_cons_self)
        have hMember : ∀ r first, (AuthCall.register r, some (.ok first)) ∈
            (s.historyAfter calls).log → r.password ∈ passwords :=
          fun r first hr => hEarlier (.register r) (mem_calls hr)
        obtain ⟨r, first, hr, hEmail, hPassword⟩ := (login_succeeds_iff hKeys hAnswers hRecovers
          hSound hCollisions hMember hGiven).mp ⟨token, hReply.symm⟩
        refine ⟨r, ⟨first, (issued_iff.mpr hr).append _⟩, hEmail, hPassword, ?_⟩
        have hLogin := login_registered hKeys hAnswers hSound hCollisions hr hEmail
          (hMember r first hr) hGiven
        rw [if_pos hPassword.symm] at hLogin
        exact Option.some.inj (hLogin.symm.trans hReply.symm)

/-- The claims of the token that a call was answered with. -/
def claimsOf (s : AuthService) (r : RegisterCall) (a : AuthCall) : CustomClaims :=
  tokenClaims r.newID.text ["user"] s.authTokenDuration a.now a.later

theorem expiry_claimsOf_le (s : AuthService) (r : RegisterCall) (a : AuthCall) :
    expiry (claimsOf s r a) ≤ a.now + s.authTokenDuration := by
  simp only [expiry, claimsOf, tokenClaims, numericDate]
  omega

theorem Holds.signed {calls : List AuthCall} {a : AuthCall} {token : String} {r : RegisterCall}
    (h : Holds s repositoryText calls a token r) :
    s.signedString (claimsOf s r a) = .ok token := by
  have hToken := h.token
  rw [AuthService.newToken, generateToken] at hToken
  split at hToken
  · cases hToken
  · rename_i hSigned
    rw [claimsOf, hSigned, Except.ok.inj hToken]

theorem Holds.validate {calls : List AuthCall} {a : AuthCall} {token : String} {r : RegisterCall}
    (h : Holds s repositoryText calls a token r) (hSigns : Signs s.signedString parse) (now : Int) :
    (now < expiry (claimsOf s r a) ∧ validateToken (parse now) token = .ok (claimsOf s r a)) ∨
      expiry (claimsOf s r a) ≤ now ∧ ∃ e, validateToken (parse now) token = .error e := by
  by_cases hTime : now < expiry (claimsOf s r a)
  · left
    refine ⟨hTime, ?_⟩
    rw [validateToken, hSigns.accepts _ _ _ h.signed hTime]
    rfl
  · right
    refine ⟨by omega, ?_⟩
    obtain ⟨e, he⟩ := hSigns.refuses _ _ now h.signed (by omega)
    exact ⟨e, by rw [validateToken, he]⟩

end Tokens

/-! ## What the interceptor lets through -/

section Served

variable {Req Resp : Type} {parse : Parser} {logging : UnaryInterceptor Req Resp}
  {handler : Method → Context → Req → Except Status Resp}

def Transparent (logging : UnaryInterceptor Req Resp) : Prop :=
  ∀ ctx req method handler, logging ctx req method handler = handler ctx req

/-- The methods in front of which the interceptor asks for a token. -/
def Protected (method : Method) : Prop :=
  method.streams = false ∧ isPublicMethod method.fullMethod = false

instance (method : Method) : Decidable (Protected method) :=
  inferInstanceAs (Decidable (_ ∧ _))

def withIdentity (ctx : Context) (claims : CustomClaims) : Context :=
  { ctx with userID := some claims.userID, roles := some claims.roles }

theorem serveAt_eq (hLogging : Transparent logging) {method : Method} (hMethod : Protected method)
    (now : Int) (ctx : Context) (req : Req) :
    serveAt parse logging handler now method ctx req =
      authInterceptor (parse now) true ctx req method.fullMethod (recording (handler method)) := by
  simp only [serveAt, serve, hMethod.1, Bool.false_eq_true, if_false, chain]
  exact hLogging _ _ _ _

theorem serveAt_absent (hLogging : Transparent logging) {method : Method}
    (hMethod : Protected method) {now : Int} {ctx : Context} (req : Req)
    (hToken : presented ctx = none) :
    (serveAt parse logging handler now method ctx req).invoked = [] := by
  rw [serveAt_eq hLogging hMethod]
  simp only [authInterceptor, hMethod.2, Bool.true_eq_false, Bool.false_eq_true, if_false]
  unfold presented at hToken
  cases hIncoming : ctx.incoming with
  | none => rfl
  | some md =>
    simp only [hIncoming] at hToken
    cases hValues : mdGet md "authorization" with
    | nil =>
      simp only [hValues]
      rfl
    | cons value rest =>
      simp only [hValues] at hToken
      cases hToken

theorem serveAt_presented (hLogging : Transparent logging) {method : Method}
    (hMethod : Protected method) {now : Int} {ctx : Context} (req : Req) {token : String}
    (hToken : presented ctx = some token) :
    serveAt parse logging handler now method ctx req =
      match validateToken (parse now) token with
      | .error _ => deny "invalid or expired token"
      | .ok claims => recording (handler method) (withIdentity ctx claims) req := by
  rw [serveAt_eq hLogging hMethod]
  simp only [authInterceptor, hMethod.2, Bool.true_eq_false, Bool.false_eq_true, if_false]
  unfold presented at hToken
  cases hIncoming : ctx.incoming with
  | none =>
    simp only [hIncoming] at hToken
    cases hToken
  | some md =>
    simp only [hIncoming] at hToken
    cases hValues : mdGet md "authorization" with
    | nil =>
      simp only [hValues] at hToken
      cases hToken
    | cons value rest =>
      simp only [hValues] at hToken
      obtain rfl := Option.some.inj hToken
      simp only [hValues]
      cases validateToken (parse now) (trimPrefix value "Bearer ") with
      | error e => rfl
      | ok claims => simp only [withIdentity, hIncoming]

/-- A handler behind the interceptor runs for a token that is accepted, under
the identity that the token names. -/
theorem mem_serveAt (hLogging : Transparent logging) {method : Method}
    (hMethod : Protected method) {now : Int} {ctx c : Context} {req : Req}
    (h : c ∈ (serveAt parse logging handler now method ctx req).invoked) :
    ∃ token claims, presented ctx = some token ∧ validateToken (parse now) token = .ok claims ∧
      c = withIdentity ctx claims := by
  cases hToken : presented ctx with
  | none =>
    rw [serveAt_absent hLogging hMethod req hToken] at h
    cases h
  | some token =>
    rw [serveAt_presented hLogging hMethod req hToken] at h
    cases hValid : validateToken (parse now) token with
    | error e =>
      rw [hValid] at h
      cases h
    | ok claims =>
      rw [hValid] at h
      exact ⟨token, claims, rfl, hValid, List.mem_singleton.mp h⟩

theorem trimPrefix_append (stem token : String) : trimPrefix (stem ++ token) stem = token := by
  have hStem : stem.toList.isPrefixOf (stem ++ token).toList = true := by
    rw [String.toList_append]
    exact List.isPrefixOf_iff_prefix.mpr (List.prefix_append _ _)
  rw [trimPrefix, if_pos hStem, String.toList_append, List.drop_left, String.ofList_toList]

theorem presented_bearer {ctx : Context} {md : MD} {token : String} {rest : List String}
    (hIncoming : ctx.incoming = some md)
    (hValues : mdGet md "authorization" = ("Bearer " ++ token) :: rest) :
    presented ctx = some token := by
  simp only [presented, hIncoming, hValues, trimPrefix_append]

end Served

/-! ## Runs -/

section Runs

variable {Req Resp : Type} {s : AuthService} {parse : Parser}
  {logging : UnaryInterceptor Req Resp} {handler : Method → Context → Req → Except Status Resp}
  {repositoryText : TxnError UserError → String} {passwords : List String}

/-- An invocation under the identity of an account: the token that its call
presented was issued, less than the lifetime of a token ago, to a call that
knew the password of the account. -/
def Invocation.Traced (s : AuthService) (repositoryText : TxnError UserError → String)
    (calls : List AuthCall) (i : Invocation) : Prop :=
  ∃ (a : AuthCall) (token : String) (r : RegisterCall),
    Issued s repositoryText calls a token ∧ Holds s repositoryText calls a token r ∧
    a.now ≤ i.time ∧ i.time < a.now + s.authTokenDuration ∧
    presented i.ctx = some token ∧
    i.ctx.userID = some r.newID.text ∧ i.ctx.roles = some ["user"]

structure State.Sound (s : AuthService) (repositoryText : TxnError UserError → String)
    (passwords : List String) (st : State) : Prop where
  passwords : ∀ a ∈ st.calls, a.password ∈ passwords
  clock : ∀ a ∈ st.calls, a.now ≤ st.clock
  traced : ∀ i ∈ st.invoked, Protected i.method → i.Traced s repositoryText st.calls

theorem Invocation.Traced.append {calls : List AuthCall} {i : Invocation}
    (h : i.Traced s repositoryText calls) (b : AuthCall) :
    i.Traced s repositoryText (calls ++ [b]) := by
  obtain ⟨a, token, r, hIssued, hHolds, hRest⟩ := h
  exact ⟨a, token, r, hIssued.append b, hHolds.append b, hRest⟩

/-- What one step can do. -/
theorem step_cases {st t : State} {action : Action Req}
    (h : step parse logging handler st action = some t) :
    (∃ a, action = .auth a ∧ st.clock ≤ a.now ∧ a.now ≤ a.later ∧
      t = { st with clock := a.later, calls := st.calls ++ [a] }) ∨
    (∃ method ctx req, action = .call method ctx req ∧
      t = st.record method (serveAt parse logging handler st.clock method ctx req).invoked) ∨
    ∃ time, action = .wait time ∧ st.clock ≤ time ∧ t = { st with clock := time } := by
  cases action with
  | auth a =>
    simp only [step] at h
    split at h
    · rename_i hTime
      exact .inl ⟨a, rfl, hTime.1, hTime.2, (Option.some.inj h).symm⟩
    · cases h
  | call method ctx req => exact .inr (.inl ⟨method, ctx, req, rfl, (Option.some.inj h).symm⟩)
  | wait time =>
    simp only [step] at h
    split at h
    · rename_i hTime
      exact .inr (.inr ⟨time, rfl, hTime, (Option.some.inj h).symm⟩)
    · cases h

theorem traced_of_accepted (hKeys : DerivesKeys s.idKey) (hAnswers : s.database.Answers)
    (hSigns : Signs s.signedString parse) (hCollisions : CollisionFree s.idKey passwords)
    {st : State} (hSound : st.Sound s repositoryText passwords) {a : AuthCall} {token : String}
    (hIssued : Issued s repositoryText st.calls a token) {ctx : Context} {claims : CustomClaims}
    (hPresented : presented ctx = some token)
    (hValid : validateToken (parse st.clock) token = .ok claims) (method : Method) :
    Invocation.Traced s repositoryText st.calls
      { method := method, ctx := withIdentity ctx claims, time := st.clock } := by
  obtain ⟨r, hHolds⟩ := exists_holds hKeys hAnswers hSigns hCollisions hSound.passwords hIssued
  obtain ⟨hTime, hClaims⟩ | ⟨_, e, hError⟩ := hHolds.validate hSigns st.clock
  · obtain rfl := Except.ok.inj (hValid.symm.trans hClaims)
    have hLimit := expiry_claimsOf_le s r a
    have hPast := hSound.clock a (mem_calls (issued_iff.mp hIssued))
    refine ⟨a, token, r, hIssued, hHolds, hPast, ?_, hPresented, rfl, rfl⟩
    show st.clock < a.now + s.authTokenDuration
    omega
  · rw [hValid] at hError
    cases hError

theorem State.Sound.step (hKeys : DerivesKeys s.idKey) (hAnswers : s.database.Answers)
    (hSigns : Signs s.signedString parse) (hCollisions : CollisionFree s.idKey passwords)
    (hLogging : Transparent logging) {st t : State} {action : Action Req}
    (hSound : st.Sound s repositoryText passwords)
    (hClient : Unforged s parse repositoryText passwords st action)
    (h : step parse logging handler st action = some t) : t.Sound s repositoryText passwords := by
  obtain ⟨a, rfl, hNow, hLater, rfl⟩ | ⟨method, ctx, req, rfl, rfl⟩ | ⟨time, rfl, hTime, rfl⟩ :=
    step_cases h
  · constructor
    · intro b hb
      obtain hOld | hNew := List.mem_append.mp hb
      · exact hSound.passwords b hOld
      · obtain rfl := List.mem_singleton.mp hNew
        exact hClient
    · intro b hb
      obtain hOld | hNew := List.mem_append.mp hb
      · have := hSound.clock b hOld
        show b.now ≤ a.later
        omega
      · obtain rfl := List.mem_singleton.mp hNew
        exact hLater
    · intro i hi hMethod
      exact (hSound.traced i hi hMethod).append a
  · refine ⟨hSound.passwords, hSound.clock, ?_⟩
    intro i hi hMethod
    obtain hOld | hNew := List.mem_append.mp hi
    · exact hSound.traced i hOld hMethod
    · obtain ⟨c, hc, rfl⟩ := List.mem_map.mp hNew
      obtain ⟨token, claims, hPresented, hValid, rfl⟩ := mem_serveAt hLogging hMethod hc
      obtain ⟨a, hIssued⟩ := hClient token claims hPresented hValid
      exact traced_of_accepted hKeys hAnswers hSigns hCollisions hSound hIssued hPresented hValid _
  · refine ⟨hSound.passwords, ?_, hSound.traced⟩
    intro a ha
    have := hSound.clock a ha
    show a.now ≤ time
    omega

/-- The outcome of a call that presents the token of an account. -/
theorem serveAt_holds (hSigns : Signs s.signedString parse) (hLogging : Transparent logging)
    {calls : List AuthCall} {a : AuthCall} {token : String} {r : RegisterCall}
    (hHolds : Holds s repositoryText calls a token r) {method : Method}
    (hMethod : Protected method) {ctx : Context} (hPresented : presented ctx = some token)
    (now : Int) (req : Req) :
    serveAt parse logging handler now method ctx req =
      if now < expiry (claimsOf s r a) then
        recording (handler method) (withIdentity ctx (claimsOf s r a)) req
      else deny "invalid or expired token" := by
  rw [serveAt_presented hLogging hMethod req hPresented]
  obtain ⟨hTime, hValid⟩ | ⟨hTime, e, hError⟩ := hHolds.validate hSigns now
  · rw [if_pos hTime, hValid]
  · rw [if_neg (by omega), hError]

end Runs

/-- Whatever clients do, as long as nobody else signs with the key: a protected
handler runs only under the identity of a registered account, for a token issued
within its lifetime to a call with the password of that account. Every issued
token is good for that until it expires, and refused with one status
afterwards. -/
theorem session_identities {Req Resp : Type} {s : AuthService} {parse : Parser}
    {logging : UnaryInterceptor Req Resp} {handler : Method → Context → Req → Except Status Resp}
    {repositoryText : TxnError UserError → String} {passwords : List String}
    (hKeys : DerivesKeys s.idKey) (hAnswers : s.database.Answers)
    (hSigns : Signs s.signedString parse) (hCollisions : CollisionFree s.idKey passwords)
    (hLogging : Transparent logging) {began : Int} {st : State}
    (h : (sessionMachine parse logging handler began).Reaches
      (Unforged s parse repositoryText passwords) st) :
    (∀ i ∈ st.invoked, Protected i.method → i.Traced s repositoryText st.calls) ∧
    ∀ a token, Issued s repositoryText st.calls a token →
      ∃ r, Holds s repositoryText st.calls a token r ∧
        ∀ method, Protected method → ∀ ctx req, presented ctx = some token →
          serveAt parse logging handler st.clock method ctx req =
            if st.clock < expiry (claimsOf s r a) then
              recording (handler method) (withIdentity ctx (claimsOf s r a)) req
            else deny "invalid or expired token" := by
  have hSound : st.Sound s repositoryText passwords := by
    apply Machine.Reaches.invariant _ _ h
    · constructor
      · exact fun a ha => absurd ha List.not_mem_nil
      · exact fun a ha => absurd ha List.not_mem_nil
      · exact fun i hi => absurd hi List.not_mem_nil
    · intro st action t hSound hClient hStep
      exact hSound.step hKeys hAnswers hSigns hCollisions hLogging hClient hStep
  refine ⟨hSound.traced, ?_⟩
  intro a token hIssued
  obtain ⟨r, hHolds⟩ := exists_holds hKeys hAnswers hSigns hCollisions hSound.passwords hIssued
  refine ⟨r, hHolds, ?_⟩
  intro method hMethod ctx req hPresented
  exact serveAt_holds hSigns hLogging hHolds hMethod hPresented st.clock req

/-! ## A session -/

theorem sample_signs : Signs sampleAuth.signedString clockedParse := by
  have hParse : ∀ c token, sampleAuth.signedString c = .ok token →
      readToken token = .ok { claims := c, valid := true } := by
    intro c token hSigned
    obtain ⟨token', hSigned', hRead⟩ := readToken_sampleSign c
    obtain rfl := Except.ok.inj (hSigned.symm.trans hSigned')
    exact hRead
  constructor
  · intro c
    exact ⟨_, rfl⟩
  · intro c token now hSigned hTime
    simp only [clockedParse, hParse c token hSigned, if_pos hTime]
  · intro c token now hSigned hTime
    refine ⟨"token is expired", ?_⟩
    simp only [clockedParse, hParse c token hSigned]
    rw [if_neg (by omega)]

def bearer (token : String) : Context where
  incoming := some (OrderedMap.empty.insert "authorization" ["Bearer " ++ token])
  userID := none
  roles := none

theorem presented_bearer_sample (token : String) : presented (bearer token) = some token := by
  apply presented_bearer rfl
  rw [mdGet, OrderedMap.get?_insert_self]
  rfl

def sampleHandler : Method → Context → Unit → Except Status Unit := fun _ _ _ => .ok ()

def sampleText : TxnError UserError → String := fun _ => "Transaction Conflict. Please retry"

abbrev sampleSessions : Machine State (Action Unit) :=
  sessionMachine clockedParse passThrough sampleHandler 0

/-- Ann registers and asks for messages with the token she got. -/
theorem session_identities_ann :
    ∃ (st : State) (i : Invocation), sampleSessions.Reaches
        (Unforged sampleAuth clockedParse sampleText [annRegisters.password]) st ∧
      i ∈ st.invoked ∧ Protected i.method ∧ i.Traced sampleAuth sampleText st.calls := by
  have hAlone : CollisionFree sampleKey [annRegisters.password] := by
    intro p hp q hq _ _
    rw [List.mem_singleton.mp hp, List.mem_singleton.mp hq]
  obtain ⟨token, hToken⟩ := (register_succeeds_iff (s := sampleAuth) sampleKey_derives
    sampleAuth_answers sample_recovers annRegisters OrderedMap.empty).mpr
    ⟨by decide +kernel, rfl⟩
  have hIssued : Issued sampleAuth sampleText [.register annRegisters] (.register annRegisters)
      token := by
    rw [issued_iff]
    exact List.mem_singleton.mpr (by rw [← hToken]; rfl)
  obtain ⟨r, hHolds⟩ := exists_holds sampleKey_derives sampleAuth_answers sample_signs hAlone
    (by simp [AuthCall.password]) hIssued
  have hMethod : Protected getMessage := by decide
  have hLogging : Transparent passThrough := fun _ _ _ _ => rfl
  have hEarly : 1 < expiry (claimsOf sampleAuth r (.register annRegisters)) := by
    change (1 : Int) < numericDate (0 + 3600000000000) * 1000000000
    decide
  have hServed :
      (serveAt clockedParse passThrough sampleHandler 1 getMessage (bearer token) ()).invoked =
        [withIdentity (bearer token) (claimsOf sampleAuth r (.register annRegisters))] := by
    rw [serveAt_holds sample_signs hLogging hHolds hMethod (presented_bearer_sample token),
      if_pos hEarly]
    rfl
  have hRegistered : sampleSessions.Reaches
      (Unforged sampleAuth clockedParse sampleText [annRegisters.password])
      { clock := 1, calls := [.register annRegisters], invoked := [] } :=
    .step (a := .auth (.register annRegisters)) .start List.mem_cons_self rfl
  have hCalled : sampleSessions.Reaches
      (Unforged sampleAuth clockedParse sampleText [annRegisters.password])
      (State.record { clock := 1, calls := [.register annRegisters], invoked := [] } getMessage
        [withIdentity (bearer token) (claimsOf sampleAuth r (.register annRegisters))]) := by
    apply Machine.Reaches.step (a := .call getMessage (bearer token) ()) hRegistered
    · intro token' claims hPresented _
      rw [presented_bearer_sample] at hPresented
      exact ⟨.register annRegisters, Option.some.inj hPresented ▸ hIssued⟩
    · rw [← hServed]
      rfl
  refine ⟨_, _, hCalled, List.mem_cons_self, hMethod, ?_⟩
  exact (session_identities sampleKey_derives sampleAuth_answers sample_signs hAlone
    hLogging hCalled).1 _ List.mem_cons_self hMethod

end ChatLab.Grpc.Sessions

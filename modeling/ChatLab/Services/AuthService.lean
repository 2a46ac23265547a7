import Mathlib.Data.List.Induction
import Mathlib.Logic.Equiv.List
import ChatLab.Auth.Password
import ChatLab.Auth.Token
import ChatLab.Storage.UserRepository

/-!
# Registration and login

`Register` checks the request, hashes the password, stores the account and
issues a first token; `Login` reads the account back, compares the password
with its hash and issues a token for what is stored. Calls come one after the
other here; registrations that overlap are the subject of the user repository.

A call carries what it draws from its environment: the salt, the identifier
and the readings of the clock. The libraries below the service are parameters.
-/

namespace ChatLab.Services

open Foundation Foundation.Transactions Auth Storage

/-- Which records the database and its encoding refuse. -/
structure Database where
  marshals : UserPb → Bool
  readFails : UserDB → Key → Bool
  commitFails : UserDB → UserPb → Bool

structure Database.Answers (d : Database) : Prop where
  marshals : ∀ u, d.marshals u = true
  reads : ∀ db key, d.readFails db key = false
  commits : ∀ db u, d.commitFails db u = false

structure AuthService where
  rules : CharacterRules
  idKey : IDKey
  signedString : CustomClaims → Except String String
  database : Database
  authTokenDuration : Int

inductive AuthError
  | invalidPassword (cause : ValidationError)
  | repository (cause : TxnError UserError)
  | invalidCredentials
  | tokenGeneration
deriving DecidableEq

/-- What a call returns; none is a panic of the key derivation. -/
abbrev Reply := Option (Except AuthError String)

structure RegisterCall where
  email : String
  password : String
  salt : Salt
  newID : UUID
  createdAt : Int
  now : Int
  later : Int

structure LoginCall where
  email : String
  password : String
  now : Int
  later : Int

def RegisterCall.request (c : RegisterCall) : RegisterRequest :=
  { email := c.email, password := c.password }

namespace AuthService

variable (s : AuthService)

def newToken (userID : String) (roles : List String) (now later : Int) : Except AuthError String :=
  match generateToken s.signedString userID roles s.authTokenDuration now later with
  | .error _ => .error .tokenGeneration
  | .ok token => .ok token

def createCall (c : RegisterCall) (hashedPassword : String) (db : UserDB) : CreateUser where
  email := c.email
  hashedPassword := hashedPassword
  newID := c.newID
  now := c.createdAt
  readFault := s.database.readFails db (userKey c.email)

def register (c : RegisterCall) (db : UserDB) : Reply × UserDB :=
  match validateRegister s.rules c.request with
  | .error e => (some (.error (.invalidPassword e)), db)
  | .ok () =>
    match hashPassword s.idKey c.password c.salt with
    | none => (none, db)
    | some hashedPassword =>
      let create := s.createCall c hashedPassword db
      match update (createUser s.database.marshals) create
          (s.database.commitFails db create.record) db with
      | (.error e, db') => (some (.error (.repository e)), db')
      | (.ok (), db') => (some (s.newToken c.newID.text ["user"] c.now c.later), db')

def login (c : LoginCall) (db : UserDB) : Reply :=
  if s.database.readFails db (userKey c.email) then some (.error .invalidCredentials)
  else
    match getUserByEmail db c.email with
    | .error _ => some (.error .invalidCredentials)
    | .ok user =>
      match comparePassword s.idKey c.password user.passwordHash with
      | none => none
      | some (.ok true) => some (s.newToken user.id user.roles c.now c.later)
      | some _ => some (.error .invalidCredentials)

end AuthService

/-! ## Histories of calls -/

inductive AuthCall
  | register (c : RegisterCall)
  | login (c : LoginCall)

def AuthCall.password : AuthCall → String
  | .register c => c.password
  | .login c => c.password

structure AuthHistory where
  users : UserDB
  log : List (AuthCall × Reply)

namespace AuthService

variable (s : AuthService)

def call (db : UserDB) : AuthCall → Reply × UserDB
  | .register c => s.register c db
  | .login c => (s.login c db, db)

def historyStep (h : AuthHistory) (a : AuthCall) : AuthHistory where
  users := (s.call h.users a).2
  log := h.log ++ [(a, (s.call h.users a).1)]

/-- The store and the replies after some calls on an empty store. -/
def historyAfter (calls : List AuthCall) : AuthHistory :=
  calls.foldl s.historyStep { users := OrderedMap.empty, log := [] }

/-- The registration was one of the calls and returned the token. -/
def Registered (calls : List AuthCall) (c : RegisterCall) (token : String) : Prop :=
  (AuthCall.register c, some (.ok token)) ∈ (s.historyAfter calls).log

end AuthService

def Reply.Succeeds (r : Reply) : Prop := ∃ token, r = some (.ok token)

/-- The parser of the token library at a time. -/
abbrev Parser := Int → String → Except String ParsedToken

/-- The first instant at which a token with these claims is refused. -/
def expiry (c : CustomClaims) : Int := c.expiresAt * 1000000000

/-- The assumptions on the token library: what is signed is read back until it expires. -/
def Recovers (signedString : CustomClaims → Except String String) (parse : Parser) : Prop :=
  ∀ c, ∃ token, signedString c = .ok token ∧
    ∀ now < expiry c, parse now token = .ok { claims := c, valid := true }

/-- The token is valid for these claims until they expire. -/
def ValidFor (parse : Parser) (token : String) (c : CustomClaims) : Prop :=
  ∀ now < expiry c, validateToken (parse now) token = .ok c

/-- The two tokens are valid and name one user with one list of roles. -/
def SameIdentity (parse : Parser) (a b : String) : Prop :=
  ∃ c d, ValidFor parse a c ∧ ValidFor parse b d ∧ c.userID = d.userID ∧ c.roles = d.roles

/-- The store after `Register` is one that the transactions of the repository
reach from the store before it, with none left open. -/
theorem register_store_reachable (s : AuthService) (options : BadgerOptions) (c : RegisterCall)
    (db : UserDB) :
    ∃ t, (userMachine options s.database.marshals db).Reachable t ∧ t.running = [] ∧
      t.data = (s.register c db).2 := by
  have hStart : ∃ t, (userMachine options s.database.marshals db).Reachable t ∧ t.running = [] ∧
      t.data = db :=
    ⟨_, Machine.Reaches.start, rfl, rfl⟩
  rw [AuthService.register]
  split
  · exact hStart
  · split
    · exact hStart
    · rename_i hash _
      obtain ⟨t, hReach, hRunning, _, hData⟩ := update_reachable options.detectConflicts
        (createUser s.database.marshals) (s.createCall c hash db)
        (s.database.commitFails db (s.createCall c hash db).record) db
      refine ⟨t, hReach, hRunning, hData.trans ?_⟩
      simp only
      split
      · rename_i h
        rw [h]
      · rename_i h
        rw [h]

/-! ## What one call does -/

section Calls

variable {s : AuthService} {parse : Parser}

/-- The account that a registration stores. -/
def RegisterCall.account (c : RegisterCall) (hashedPassword : String) : UserPb where
  id := c.newID.text
  email := c.email
  passwordHash := hashedPassword
  createdAt := c.createdAt
  roles := ["user"]

theorem newToken_valid (hRecovers : Recovers s.signedString parse) (userID : String)
    (roles : List String) (now later : Int) :
    ∃ token, s.newToken userID roles now later = .ok token ∧
      ValidFor parse token (tokenClaims userID roles s.authTokenDuration now later) := by
  obtain ⟨token, hSigned, hParsed⟩ :=
    hRecovers (tokenClaims userID roles s.authTokenDuration now later)
  refine ⟨token, ?_, ?_⟩
  · rw [AuthService.newToken, generateToken, hSigned]
  · intro time hTime
    rw [validateToken, hParsed time hTime]
    rfl

theorem register_invalid {c : RegisterCall} {e : ValidationError}
    (h : validateRegister s.rules c.request = .error e) (db : UserDB) :
    s.register c db = (some (.error (.invalidPassword e)), db) := by
  rw [AuthService.register, h]

theorem register_taken (hKeys : DerivesKeys s.idKey) (hAnswers : s.database.Answers)
    {c : RegisterCall} (hValid : validateRegister s.rules c.request = .ok ()) {db : UserDB}
    (hTaken : (db.get? (userKey c.email)).isSome = true) :
    s.register c db = (some (.error (.repository (.body .alreadyExists))), db) := by
  obtain ⟨hash, hHash⟩ := hashPassword_isSome hKeys c.password c.salt
  have hCreate : createUser s.database.marshals (s.createCall c hash db) db =
      .error .alreadyExists := by
    rw [createUser, if_pos (hAnswers.marshals _)]
    exact if_pos ⟨hAnswers.reads _ _, hTaken⟩
  simp only [AuthService.register, hValid, hHash, update, hCreate]

theorem register_free (hKeys : DerivesKeys s.idKey) (hAnswers : s.database.Answers)
    {c : RegisterCall} (hValid : validateRegister s.rules c.request = .ok ()) {db : UserDB}
    (hFree : db.get? (userKey c.email) = none) :
    ∃ hash, hashPassword s.idKey c.password c.salt = some hash ∧
      s.register c db = (some (s.newToken c.newID.text ["user"] c.now c.later),
        db.insert (userKey c.email) (c.account hash)) := by
  obtain ⟨hash, hHash⟩ := hashPassword_isSome hKeys c.password c.salt
  have hCreate : createUser s.database.marshals (s.createCall c hash db) db =
      .ok { reads := [userKey c.email],
            writes := [(userKey c.email, some (c.account hash))] } := by
    rw [createUser, if_pos (hAnswers.marshals _)]
    apply if_neg
    rintro ⟨_, hSome⟩
    rw [show (s.createCall c hash db).email = c.email from rfl, hFree] at hSome
    cases hSome
  refine ⟨hash, hHash, ?_⟩
  simp only [AuthService.register, hValid, hHash, update, hCreate, hAnswers.commits]
  rfl

theorem login_missing (c : LoginCall) {db : UserDB} (hFree : db.get? (userKey c.email) = none) :
    s.login c db = some (.error .invalidCredentials) := by
  simp only [AuthService.login, getUserByEmail, hFree, ite_self]

theorem login_found (hAnswers : s.database.Answers) {c : LoginCall} {db : UserDB} {u : UserPb}
    (hFound : db.get? (userKey c.email) = some u) {b : Bool}
    (hCompare : comparePassword s.idKey c.password u.passwordHash = some (.ok b)) :
    s.login c db =
      if b then some (s.newToken u.id u.roles c.now c.later)
      else some (.error .invalidCredentials) := by
  simp only [AuthService.login, hAnswers.reads, getUserByEmail, hFound, toUserStruct, hCompare]
  cases b
  · rfl
  · rfl

/-- A registration that succeeds, with everything it needs and leaves. -/
structure Admitted (s : AuthService) (c : RegisterCall) (db : UserDB) (token : String) : Prop where
  valid : validateRegister s.rules c.request = .ok ()
  free : db.get? (userKey c.email) = none
  issued : s.newToken c.newID.text ["user"] c.now c.later = .ok token
  stored : ∃ hash, hashPassword s.idKey c.password c.salt = some hash ∧
    s.register c db = (some (.ok token), db.insert (userKey c.email) (c.account hash))

theorem register_cases (hKeys : DerivesKeys s.idKey) (hAnswers : s.database.Answers)
    (hRecovers : Recovers s.signedString parse) (c : RegisterCall) (db : UserDB) :
    (∃ token, Admitted s c db token) ∨
      ¬ (validateRegister s.rules c.request = .ok () ∧ db.get? (userKey c.email) = none) ∧
        ∃ e, s.register c db = (some (.error e), db) := by
  cases hValid : validateRegister s.rules c.request with
  | error e => exact Or.inr ⟨nofun, _, register_invalid hValid db⟩
  | ok _ =>
    cases hGet : db.get? (userKey c.email) with
    | some u =>
      refine Or.inr ⟨nofun, _, register_taken hKeys hAnswers hValid ?_⟩
      rw [hGet]
      rfl
    | none =>
      obtain ⟨token, hToken, _⟩ := newToken_valid hRecovers c.newID.text ["user"] c.now c.later
      obtain ⟨hash, hHash, hRegister⟩ := register_free hKeys hAnswers hValid hGet
      rw [hToken] at hRegister
      exact Or.inl ⟨token, hValid, hGet, hToken, hash, hHash, hRegister⟩

end Calls

/-! ## What a history leaves -/

section Runs

variable {s : AuthService} {parse : Parser}

/-- The accounts are those of the successful registrations. -/
structure AuthHistory.Sound (s : AuthService) (h : AuthHistory) : Prop where
  stored : ∀ c token, (AuthCall.register c, some (.ok token)) ∈ h.log →
    s.newToken c.newID.text ["user"] c.now c.later = .ok token ∧
      ∃ hash, hashPassword s.idKey c.password c.salt = some hash ∧
        h.users.get? (userKey c.email) = some (c.account hash)
  registered : ∀ email u, h.users.get? (userKey email) = some u →
    ∃ c token, (AuthCall.register c, some (.ok token)) ∈ h.log ∧ c.email = email

theorem userKey_injective : Function.Injective userKey := by
  intro a b h
  exact String.toList_inj.mp (List.append_cancel_left h)

theorem AuthHistory.Sound.admit {h : AuthHistory} (hSound : h.Sound s) {c : RegisterCall}
    {token : String} (hAdmitted : Admitted s c h.users token) :
    (s.historyStep h (.register c)).Sound s := by
  obtain ⟨_, hFree, hIssued, hash, hHash, hRegister⟩ := hAdmitted
  have hUsers : (s.historyStep h (.register c)).users =
      h.users.insert (userKey c.email) (c.account hash) := congrArg Prod.snd hRegister
  have hLog : (s.historyStep h (.register c)).log =
      h.log ++ [(AuthCall.register c, some (.ok token))] :=
    congrArg (fun r => h.log ++ [(AuthCall.register c, r)]) (congrArg Prod.fst hRegister)
  constructor
  · intro c' token' hMem
    rw [hLog] at hMem
    obtain hOld | hNew := List.mem_append.mp hMem
    · obtain ⟨hIssued', hash', hHash', hGet⟩ := hSound.stored c' token' hOld
      refine ⟨hIssued', hash', hHash', ?_⟩
      -- an earlier account has another email, since this one was free
      rw [hUsers, OrderedMap.get?_insert_of_ne, hGet]
      intro hKey
      rw [hKey, hFree] at hGet
      cases hGet
    · obtain ⟨hCall, hReply⟩ := Prod.mk.inj (List.mem_singleton.mp hNew)
      obtain rfl := AuthCall.register.inj hCall
      obtain rfl := Except.ok.inj (Option.some.inj hReply)
      exact ⟨hIssued, hash, hHash, by rw [hUsers, OrderedMap.get?_insert_self]⟩
  · intro email u hGet
    rw [hLog]
    by_cases hEmail : email = c.email
    · exact ⟨c, token, List.mem_append_right _ (List.mem_singleton_self _), hEmail.symm⟩
    · have hOther : userKey email ≠ userKey c.email := fun hKey => hEmail (userKey_injective hKey)
      rw [hUsers, OrderedMap.get?_insert_of_ne _ _ hOther] at hGet
      obtain ⟨c', token', hMem, hEmail'⟩ := hSound.registered email u hGet
      exact ⟨c', token', List.mem_append_left _ hMem, hEmail'⟩

theorem AuthHistory.Sound.refuse {h : AuthHistory} (hSound : h.Sound s) {a : AuthCall}
    (hUsers : (s.call h.users a).2 = h.users)
    (hReply : ∀ c token, a = .register c → (s.call h.users a).1 ≠ some (.ok token)) :
    (s.historyStep h a).Sound s := by
  constructor
  · intro c token hMem
    obtain hOld | hNew := List.mem_append.mp hMem
    · obtain ⟨hIssued, hash, hHash, hGet⟩ := hSound.stored c token hOld
      exact ⟨hIssued, hash, hHash, (congrArg (OrderedMap.get? · _) hUsers).trans hGet⟩
    · obtain ⟨rfl, hSame⟩ := Prod.mk.inj (List.mem_singleton.mp hNew)
      exact absurd hSame.symm (hReply c token rfl)
  · intro email u hGet
    obtain ⟨c, token, hMem, hEmail⟩ := hSound.registered email u
      ((congrArg (OrderedMap.get? · _) hUsers).symm.trans hGet)
    exact ⟨c, token, List.mem_append_left _ hMem, hEmail⟩

theorem historyStep_sound (hKeys : DerivesKeys s.idKey) (hAnswers : s.database.Answers)
    (hRecovers : Recovers s.signedString parse) {h : AuthHistory} (hSound : h.Sound s)
    (a : AuthCall) : (s.historyStep h a).Sound s := by
  cases a with
  | login c => exact hSound.refuse rfl nofun
  | register c =>
    obtain ⟨token, hAdmitted⟩ | ⟨_, e, hError⟩ := register_cases hKeys hAnswers hRecovers c h.users
    · exact hSound.admit hAdmitted
    · refine hSound.refuse (congrArg Prod.snd hError) ?_
      intro c' token _ hOk
      have hReply := (congrArg Prod.fst hError).symm.trans hOk
      cases hReply

theorem historyAfter_sound (hKeys : DerivesKeys s.idKey) (hAnswers : s.database.Answers)
    (hRecovers : Recovers s.signedString parse) (calls : List AuthCall) :
    (s.historyAfter calls).Sound s := by
  induction calls using List.reverseRecOn with
  | nil => exact { stored := nofun, registered := nofun }
  | append_singleton calls a ih =>
    rw [AuthService.historyAfter, List.foldl_append]
    exact historyStep_sound hKeys hAnswers hRecovers ih a

theorem log_calls (calls : List AuthCall) : (s.historyAfter calls).log.map Prod.fst = calls := by
  induction calls using List.reverseRecOn with
  | nil => rfl
  | append_singleton calls a ih =>
    rw [AuthService.historyAfter, List.foldl_append, List.foldl_cons, List.foldl_nil,
      ← AuthService.historyAfter, AuthService.historyStep, List.map_append, ih]
    rfl

theorem register_succeeds_iff (hKeys : DerivesKeys s.idKey) (hAnswers : s.database.Answers)
    (hRecovers : Recovers s.signedString parse) (c : RegisterCall) (db : UserDB) :
    Reply.Succeeds (s.register c db).1 ↔
      validateRegister s.rules c.request = .ok () ∧ db.get? (userKey c.email) = none := by
  obtain ⟨token, hAdmitted⟩ | ⟨hNot, e, hError⟩ := register_cases hKeys hAnswers hRecovers c db
  · obtain ⟨hash, _, hRegister⟩ := hAdmitted.stored
    constructor
    · exact fun _ => ⟨hAdmitted.valid, hAdmitted.free⟩
    · exact fun _ => ⟨token, congrArg Prod.fst hRegister⟩
  · constructor
    · rintro ⟨token, hOk⟩
      rw [hError] at hOk
      cases hOk
    · exact fun h => absurd h hNot

/-- The store has no account of an email exactly if no registration of it succeeded. -/
theorem AuthHistory.Sound.free_iff {h : AuthHistory} (hSound : h.Sound s) (email : String) :
    h.users.get? (userKey email) = none ↔
      ¬ ∃ c token, (AuthCall.register c, some (.ok token)) ∈ h.log ∧ c.email = email := by
  constructor
  · rintro hFree ⟨c, token, hMem, rfl⟩
    obtain ⟨_, hash, _, hGet⟩ := hSound.stored c token hMem
    rw [hFree] at hGet
    cases hGet
  · intro hNone
    cases hGet : h.users.get? (userKey email) with
    | none => rfl
    | some u => exact absurd (hSound.registered email u hGet) hNone

theorem call_unchanged (hKeys : DerivesKeys s.idKey) (hAnswers : s.database.Answers)
    (hRecovers : Recovers s.signedString parse) {a : AuthCall} {db : UserDB}
    (h : ¬ Reply.Succeeds (s.call db a).1) : (s.call db a).2 = db := by
  cases a with
  | login c => rfl
  | register c =>
    obtain ⟨token, hAdmitted⟩ | ⟨_, e, hError⟩ := register_cases hKeys hAnswers hRecovers c db
    · obtain ⟨hash, _, hRegister⟩ := hAdmitted.stored
      exact absurd ⟨token, congrArg Prod.fst hRegister⟩ h
    · exact congrArg Prod.snd hError

/-- A login against the account of a registration: it asks for its password
and issues a token for its identifier and roles. -/
theorem login_registered (hKeys : DerivesKeys s.idKey) (hAnswers : s.database.Answers)
    {h : AuthHistory} (hSound : h.Sound s) {passwords : List String}
    (hCollisions : CollisionFree s.idKey passwords) {r : RegisterCall} {token : String}
    (hMem : (AuthCall.register r, some (.ok token)) ∈ h.log) {c : LoginCall}
    (hEmail : r.email = c.email) (hr : r.password ∈ passwords) (hc : c.password ∈ passwords) :
    s.login c h.users =
      if c.password = r.password then some (s.newToken r.newID.text ["user"] c.now c.later)
      else some (.error .invalidCredentials) := by
  obtain ⟨_, hash, hHash, hGet⟩ := hSound.stored r token hMem
  rw [hEmail] at hGet
  have hCompare : comparePassword s.idKey c.password (r.account hash).passwordHash =
      some (.ok (c.password = r.password)) :=
    comparePassword_hashPassword hKeys hCollisions hr hc hHash
  rw [login_found hAnswers hGet hCompare]
  simp only [decide_eq_true_eq]
  rfl

theorem login_succeeds_iff (hKeys : DerivesKeys s.idKey) (hAnswers : s.database.Answers)
    (hRecovers : Recovers s.signedString parse) {h : AuthHistory} (hSound : h.Sound s)
    {passwords : List String} (hCollisions : CollisionFree s.idKey passwords)
    (hMember : ∀ r token, (AuthCall.register r, some (.ok token)) ∈ h.log → r.password ∈ passwords)
    {c : LoginCall} (hc : c.password ∈ passwords) :
    Reply.Succeeds (s.login c h.users) ↔
      ∃ r token, (AuthCall.register r, some (.ok token)) ∈ h.log ∧ r.email = c.email ∧
        r.password = c.password := by
  constructor
  · rintro ⟨token, hOk⟩
    cases hGet : h.users.get? (userKey c.email) with
    | none =>
      rw [login_missing c hGet] at hOk
      cases hOk
    | some u =>
      obtain ⟨r, first, hMem, hEmail⟩ := hSound.registered c.email u hGet
      refine ⟨r, first, hMem, hEmail, ?_⟩
      by_contra hPassword
      rw [login_registered hKeys hAnswers hSound hCollisions hMem hEmail (hMember r first hMem) hc,
        if_neg fun h => hPassword h.symm] at hOk
      cases hOk
  · rintro ⟨r, first, hMem, hEmail, hPassword⟩
    obtain ⟨token, hToken, _⟩ := newToken_valid hRecovers r.newID.text ["user"] c.now c.later
    refine ⟨token, ?_⟩
    rw [login_registered hKeys hAnswers hSound hCollisions hMem hEmail (hMember r first hMem) hc,
      if_pos hPassword.symm, hToken]

/-- Tokens for one identifier and its roles carry the same identity, whenever they are issued. -/
theorem newToken_sameIdentity (hRecovers : Recovers s.signedString parse)
    {userID : String} {roles : List String} {now later now' later' : Int} {token token' : String}
    (hFirst : s.newToken userID roles now later = .ok token)
    (hSecond : s.newToken userID roles now' later' = .ok token') :
    SameIdentity parse token token' := by
  obtain ⟨first, hIssued, hValid⟩ := newToken_valid hRecovers userID roles now later
  obtain ⟨second, hIssued', hValid'⟩ := newToken_valid hRecovers userID roles now' later'
  obtain rfl := Except.ok.inj (hFirst.symm.trans hIssued)
  obtain rfl := Except.ok.inj (hSecond.symm.trans hIssued')
  exact ⟨_, _, hValid, hValid', rfl, rfl⟩

end Runs

/-- The replies to registrations and logins agree over every history of calls.
Assumed of the libraries: keys are derived for the parameters in use and differ
for the passwords of the history, a signed token is read back until it expires,
and the database takes what it is given. -/
theorem register_login_agree {s : AuthService} {parse : Parser} (hKeys : DerivesKeys s.idKey)
    (hAnswers : s.database.Answers) (hRecovers : Recovers s.signedString parse)
    (earlier : List AuthCall) (a : AuthCall)
    (hCollisions : CollisionFree s.idKey ((earlier ++ [a]).map AuthCall.password)) :
    (∀ c, a = .register c →
      (Reply.Succeeds (s.call (s.historyAfter earlier).users a).1 ↔
        validateRegister s.rules c.request = .ok () ∧
          ¬ ∃ r token, s.Registered earlier r token ∧ r.email = c.email)) ∧
    (¬ Reply.Succeeds (s.call (s.historyAfter earlier).users a).1 →
      (s.historyAfter (earlier ++ [a])).users = (s.historyAfter earlier).users) ∧
    (∀ c, a = .login c →
      (Reply.Succeeds (s.call (s.historyAfter earlier).users a).1 ↔
        ∃ r token, s.Registered earlier r token ∧ r.email = c.email ∧ r.password = c.password)) ∧
    (∀ c token, a = .login c → (s.call (s.historyAfter earlier).users a).1 = some (.ok token) →
      ∀ r first, s.Registered earlier r first → r.email = c.email → r.password = c.password →
        SameIdentity parse first token) := by
  have hSound := historyAfter_sound hKeys hAnswers hRecovers earlier
  have hMember : ∀ r token, s.Registered earlier r token →
      r.password ∈ (earlier ++ [a]).map AuthCall.password := by
    intro r token hMem
    have hCall := List.mem_map_of_mem (f := Prod.fst) hMem
    rw [log_calls] at hCall
    exact List.mem_map.mpr ⟨.register r, List.mem_append_left _ hCall, rfl⟩
  have hLast : a.password ∈ (earlier ++ [a]).map AuthCall.password :=
    List.mem_map.mpr ⟨a, List.mem_append_right _ (List.mem_singleton_self _), rfl⟩
  refine ⟨?_, ?_, ?_, ?_⟩
  · rintro c rfl
    have hIff := register_succeeds_iff hKeys hAnswers hRecovers c (s.historyAfter earlier).users
    rwa [hSound.free_iff] at hIff
  · intro hFailed
    rw [AuthService.historyAfter, List.foldl_append]
    exact call_unchanged hKeys hAnswers hRecovers hFailed
  · rintro c rfl
    exact login_succeeds_iff hKeys hAnswers hRecovers hSound hCollisions hMember hLast
  · rintro c token rfl hOk r first hMem hEmail hPassword
    rw [AuthService.call, login_registered hKeys hAnswers hSound hCollisions hMem hEmail
      (hMember r first hMem) hLast, if_pos hPassword.symm] at hOk
    obtain ⟨hIssued, _⟩ := hSound.stored r first hMem
    exact newToken_sameIdentity hRecovers hIssued (Option.some.inj hOk)

/-! ## A service that meets the assumptions -/

def codes (s : String) : List Nat := s.toList.map Char.toNat

def ofCodes (l : List Nat) : String := String.ofList (l.map Char.ofNat)

theorem ofCodes_codes (s : String) : ofCodes (codes s) = s := by
  have hId : Char.ofNat ∘ Char.toNat = id := funext Char.ofNat_toNat
  rw [ofCodes, codes, List.map_map, hId, List.map_id, String.ofList_toList]

abbrev Payload := List Nat × List (List Nat) × Int × Int × List Nat

def payload (c : CustomClaims) : Payload :=
  (codes c.userID, c.roles.map codes, c.expiresAt, c.issuedAt, codes c.issuer)

/-- A token is the number of its claims in an enumeration of all claims. -/
def sampleSign (c : CustomClaims) : Except String String :=
  .ok (String.ofList (Nat.toDigits 10 (Encodable.encode (payload c))))

def readToken (token : String) : Except String ParsedToken :=
  match (Encodable.decode (Decimal.value token.toList) : Option Payload) with
  | some (userID, roles, expiresAt, issuedAt, issuer) =>
    .ok { claims := ⟨ofCodes userID, roles.map ofCodes, expiresAt, issuedAt, ofCodes issuer⟩
          valid := true }
  | none => .error "token is malformed"

def clockedParse : Parser := fun now token =>
  match readToken token with
  | .error e => .error e
  | .ok parsed => if now < expiry parsed.claims then .ok parsed else .error "token is expired"

theorem readToken_sampleSign (c : CustomClaims) :
    ∃ token, sampleSign c = .ok token ∧ readToken token = .ok { claims := c, valid := true } := by
  have hId : ofCodes ∘ codes = id := funext ofCodes_codes
  refine ⟨_, rfl, ?_⟩
  rw [readToken, String.toList_ofList, Decimal.value, Nat.ofDigitChars_ten_toDigits,
    Encodable.encodek]
  simp only [payload, ofCodes_codes, List.map_map, hId, List.map_id]

theorem sample_recovers : Recovers sampleSign clockedParse := by
  intro c
  obtain ⟨token, hSigned, hRead⟩ := readToken_sampleSign c
  refine ⟨token, hSigned, fun now hNow => ?_⟩
  simp only [clockedParse, hRead, if_pos hNow]

def sampleKey : IDKey := fun password _ t _ p n =>
  if t = 0 ∨ p = 0 ∨ n = 0 then none
  else some ((password ++ List.replicate n.toNat 0).take n.toNat)

theorem sampleKey_derives : DerivesKeys sampleKey := by
  intro password salt t m p n ht hp hn
  refine ⟨_, if_neg ?_, ?_⟩
  · rintro (rfl | rfl | rfl)
    · exact absurd ht (by decide)
    · exact absurd hp (by decide)
    · exact absurd hn (by decide)
  · rw [List.length_take, List.length_append, List.length_replicate]
    omega

def sampleAuth : AuthService where
  rules :=
    { isUpper := Char.isUpper
      isLower := Char.isLower
      isNumber := Char.isDigit
      isPunct := fun c => c = '!'
      isSymbol := fun _ => false
      isEmail := fun s => s.toList.contains '@' }
  idKey := sampleKey
  signedString := sampleSign
  database :=
    { marshals := fun _ => true
      readFails := fun _ _ => false
      commitFails := fun _ _ => false }
  authTokenDuration := 3600000000000

def annRegisters : RegisterCall where
  email := "ann@example.com"
  password := "ComplexPass123!"
  salt := ⟨List.replicate 16 7, rfl⟩
  newID := ⟨List.replicate 32 (UUID.digit 1), by simp⟩
  createdAt := 0
  now := 0
  later := 1

def annLogsIn (password : String) : LoginCall where
  email := "ann@example.com"
  password := password
  now := 1000000000
  later := 1000000001

theorem sampleAuth_answers : sampleAuth.database.Answers where
  marshals _ := rfl
  reads _ _ := rfl
  commits _ _ := rfl

theorem sampleKey_collisionFree : ∀ password ∈ ["ComplexPass123!", "ComplexPass124!"],
    CollisionFree sampleKey ["ComplexPass123!", password] := by
  have hApart : ∀ password ∈ ["ComplexPass123!", "ComplexPass124!"],
      ∀ p ∈ ["ComplexPass123!", password], ∀ q ∈ ["ComplexPass123!", password],
        sampleKey (utf8 p) [] iterations memory parallelism keyLength =
          sampleKey (utf8 q) [] iterations memory parallelism keyLength → p = q := by
    decide +kernel
  exact fun password h p hp q hq _ hKeys => hApart password h p hp q hq hKeys

/-- After Ann's registration her password logs in and another one does not. -/
theorem ann_logs_in :
    Reply.Succeeds (sampleAuth.call (sampleAuth.historyAfter [.register annRegisters]).users
        (.login (annLogsIn "ComplexPass123!"))).1 ∧
      ¬ Reply.Succeeds (sampleAuth.call (sampleAuth.historyAfter [.register annRegisters]).users
        (.login (annLogsIn "ComplexPass124!"))).1 := by
  obtain ⟨token, hToken⟩ := (register_succeeds_iff (s := sampleAuth) sampleKey_derives
    sampleAuth_answers sample_recovers annRegisters OrderedMap.empty).mpr
    ⟨by decide +kernel, rfl⟩
  have hLogin : ∀ password ∈ ["ComplexPass123!", "ComplexPass124!"], _ := fun password h =>
    (register_login_agree (s := sampleAuth) sampleKey_derives sampleAuth_answers sample_recovers
      [.register annRegisters] (.login (annLogsIn password))
      (sampleKey_collisionFree password h)).2.2.1 _ rfl
  constructor
  · refine (hLogin _ List.mem_cons_self).mpr ⟨annRegisters, token, ?_, rfl, rfl⟩
    exact List.mem_singleton.mpr (by rw [← hToken]; rfl)
  · intro hSucceeds
    obtain ⟨r, first, hMem, _, hPassword⟩ :=
      (hLogin _ (List.mem_cons_of_mem _ List.mem_cons_self)).mp hSucceeds
    have hCall := List.mem_map_of_mem (f := Prod.fst) hMem
    rw [log_calls] at hCall
    obtain rfl := AuthCall.register.inj (List.mem_singleton.mp hCall)
    exact absurd hPassword (by decide)

end ChatLab.Services

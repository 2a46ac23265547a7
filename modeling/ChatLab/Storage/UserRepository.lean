import ChatLab.Foundation.Transactions
import ChatLab.Storage.Database

/-!
# User accounts

A user is stored under `user:` and the email as given. The accounts are
modelled as a store of their own: no other repository writes a key with that
stem. The repository sets and reads only the fields kept here; the other
fields of the protobuf message stay at their zero values.
-/

namespace ChatLab.Storage

open Foundation Foundation.Transactions

structure UserPb where
  id : String
  email : String
  passwordHash : String
  -- seconds since the epoch
  createdAt : Int
  roles : List String
deriving DecidableEq

abbrev UserDB := OrderedMap Key UserPb

structure User where
  id : String
  email : String
  passwordHash : String
  roles : List String
  createdAt : Int
deriving DecidableEq

def toUserStruct (u : UserPb) : User where
  id := u.id
  email := u.email
  passwordHash := u.passwordHash
  roles := u.roles
  createdAt := u.createdAt * 1000000000

inductive UserError
  | marshal
  | alreadyExists
  | notFound
deriving DecidableEq, Repr

def userKey (email : String) : Key := "user:".toList ++ email.toList

/-- A call of `CreateUser` with what the environment adds: the new identifier,
the clock, and whether `Get` answers with an error other than the missing key. -/
structure CreateUser where
  email : String
  hashedPassword : String
  newID : UUID
  now : Int
  readFault : Bool
deriving DecidableEq

def CreateUser.record (c : CreateUser) : UserPb where
  id := c.newID.text
  email := c.email
  passwordHash := c.hashedPassword
  createdAt := c.now
  roles := ["user"]

section Create

variable (marshals : UserPb → Bool)

/-- The transaction of `CreateUser`. Any error of the read counts as absence. -/
def createUser (c : CreateUser) (db : UserDB) : Except UserError (Body Key UserPb) :=
  if marshals c.record then
    if c.readFault = false ∧ (db.get? (userKey c.email)).isSome = true then .error .alreadyExists
    else .ok { reads := [userKey c.email], writes := [(userKey c.email, some c.record)] }
  else .error .marshal

end Create

def getUserByEmail (db : UserDB) (email : String) : Except UserError User :=
  match db.get? (userKey email) with
  | none => .error .notFound
  | some u => .ok (toUserStruct u)

theorem createUser_ok {marshals : UserPb → Bool} {c : CreateUser} {db : UserDB}
    {b : Body Key UserPb} (h : createUser marshals c db = .ok b) :
    b = { reads := [userKey c.email], writes := [(userKey c.email, some c.record)] } ∧
      (c.readFault = true ∨ db.get? (userKey c.email) = none) := by
  rw [createUser] at h
  split at h
  · split at h
    · cases h
    · rename_i hFound
      refine ⟨(Except.ok.inj h).symm, ?_⟩
      cases hFault : c.readFault with
      | true => exact Or.inl rfl
      | false =>
        cases hGet : db.get? (userKey c.email) with
        | none => exact Or.inr rfl
        | some u => exact absurd ⟨hFault, by rw [hGet]; rfl⟩ hFound
  · cases h

/-- Registering claims the email's key: it needs the key absent and leaves its record. -/
theorem createUser_isClaim (marshals : UserPb → Bool) :
    IsClaim (createUser marshals) (fun c => userKey c.email) (fun v => v = none)
      (fun c => some c.record) where
  reads c db b h := by
    obtain ⟨rfl, _⟩ := createUser_ok h
    exact List.mem_singleton_self _
  leaves c db b h n := by
    obtain ⟨rfl, _⟩ := createUser_ok h
    simp only [applyWrites, List.foldl_cons, List.foldl_nil, OrderedMap.get?_insert_self]
  taken _ := by simp
  frame c db b h c' hKey := by
    obtain ⟨rfl, _⟩ := createUser_ok h
    simp [hKey]

/-! ## Concurrent registrations -/

abbrev UserState := TxnState Key UserPb CreateUser UserError

abbrev UserAction := TxnAction CreateUser

/-- The calls for one email that returned a nil error. -/
def registrations (s : UserState) (email : String) : List CreateUser :=
  (winners s).filter fun c => c.email = email

/-- A read that fails for another reason than a missing key fails only while
the account is missing. -/
def ReadsAbsence (c : CreateUser) (db : UserDB) : Prop :=
  c.readFault = true → db.get? (userKey c.email) = none

instance (c : CreateUser) (db : UserDB) : Decidable (ReadsAbsence c db) :=
  inferInstanceAs (Decidable (_ → _))

section Registrations

variable (options : BadgerOptions) (marshals : UserPb → Bool)

def userMachine (db : UserDB) : Machine UserState UserAction :=
  txnMachine options.detectConflicts (createUser marshals) db

/-- Without conflict detection, a registration of an email begins only when no
other one of it is between its snapshot and its commit. -/
def RegistrationsApart (s : UserState) (a : UserAction) : Prop :=
  Apart options.detectConflicts (fun c : CreateUser => userKey c.email) ReadsAbsence s a

instance (s : UserState) (a : UserAction) : Decidable (RegistrationsApart options s a) :=
  inferInstanceAs (Decidable (Apart _ _ _ _ _))

end Registrations

/-- With conflict detection every interleaving is safe; without it, those in
which the registrations of an email do not overlap. -/
theorem registered_once {options : BadgerOptions} {marshals : UserPb → Bool} {db : UserDB}
    {s : UserState}
    (h : (userMachine options marshals db).Reaches (RegistrationsApart options) s) :
    (∀ email, (registrations s email).length ≤ 1) ∧
      ∀ c ∈ winners s, s.data.get? (userKey c.email) = some c.record := by
  have hTrusted : ∀ c (m : UserDB) b, ReadsAbsence c m → createUser marshals c m = .ok b →
      m.get? (userKey c.email) = none := by
    intro c m b hRead hOk
    obtain ⟨_, hFault | hAbsent⟩ := createUser_ok hOk
    · exact hRead hFault
    · exact hAbsent
  obtain ⟨hOnce, hKept⟩ := claimed_once (createUser_isClaim marshals) hTrusted h
  refine ⟨fun email => ?_, hKept⟩
  apply winners_filter_le_one hOnce (k := userKey email)
  intro c hEmail
  rw [of_decide_eq_true hEmail]

/-- On the database as the master opens it, in every run in which the
registrations of one email do not overlap, at most one of them returns a nil
error, and the stored account is the one that this call wrote. -/
theorem account_not_overwritten {marshals : UserPb → Bool} {db : UserDB} {s : UserState}
    (h : (userMachine buildBadgerOpts marshals db).Reaches (RegistrationsApart buildBadgerOpts) s) :
    (∀ email, (registrations s email).length ≤ 1) ∧
      ∀ email, ∀ c ∈ registrations s email,
        ∃ u, getUserByEmail s.data email = .ok u ∧ u.id = c.newID.text ∧
          u.passwordHash = c.hashedPassword := by
  obtain ⟨hOnce, hKept⟩ := registered_once h
  refine ⟨hOnce, ?_⟩
  intro email c hc
  obtain ⟨hWon, hEmail⟩ := List.mem_filter.mp hc
  obtain rfl := of_decide_eq_true hEmail
  refine ⟨toUserStruct c.record, ?_, rfl, rfl⟩
  rw [getUserByEmail, hKept c hWon]

/-! ## Two registrations of one email -/

def sampleUser (digit : Fin 16) (hash : String) : CreateUser where
  email := "ann@example.com"
  hashedPassword := hash
  newID := ⟨List.replicate 32 digit, by simp⟩
  now := 0
  readFault := false

abbrev sampleUsers : Machine UserState UserAction :=
  userMachine buildBadgerOpts (fun _ => true) OrderedMap.empty

/-- Both calls read the store before either commits: both return nil, and the
account that the first one created is replaced by that of the second. -/
theorem account_overwritten :
    ∃ s, sampleUsers.Reachable s ∧
      registrations s "ann@example.com" =
        [sampleUser ⟨1, by decide⟩ "h1", sampleUser ⟨2, by decide⟩ "h2"] ∧
      s.data.get? (userKey "ann@example.com") = some (sampleUser ⟨2, by decide⟩ "h2").record :=
  ⟨sampleUsers.after [.begin (sampleUser ⟨1, by decide⟩ "h1"),
      .begin (sampleUser ⟨2, by decide⟩ "h2"), .commit 0 false, .commit 0 false],
    Machine.reachable_after _, by decide +kernel, by decide +kernel⟩

def sequentialUsers : UserState :=
  (sampleUsers.restrict (RegistrationsApart buildBadgerOpts)).after
    [.begin (sampleUser (UUID.digit 1) "h1"), .commit 0 false,
      .begin (sampleUser (UUID.digit 2) "h2")]

theorem account_kept_sequential :
    registrations sequentialUsers "ann@example.com" = [sampleUser ⟨1, by decide⟩ "h1"] ∧
      (registrations sequentialUsers "ann@example.com").length ≤ 1 :=
  ⟨by decide +kernel, (account_not_overwritten
    (Machine.reaches_after_restrict sampleUsers (RegistrationsApart buildBadgerOpts) _)).1 _⟩

end ChatLab.Storage

import ChatLab.Foundation.Base64
import ChatLab.Foundation.Decimal

/-!
# Passwords

A registration request is checked by the field rules of its tags and then for
the classes of characters in the password. The email pattern and the Unicode
tables are parameters.

A hash is stored as one text: the algorithm, its version, its parameters, the
salt and the derived key, between dollar signs. `ComparePassword` reads all of
it back and derives the key of a candidate with what it read.

The key derivation function comes from another library and is a parameter; it
panics on parameters out of its range, which is `none` here. The random source
does not fail in the Go version the module asks for, so a salt is an argument.
-/

namespace ChatLab.Auth

open Foundation Foundation.Decimal

/-! ## Registration rules -/

structure RegisterRequest where
  email : String
  password : String
deriving DecidableEq

/-- The predicates of the package `unicode` and the pattern of the tag `email`. -/
structure CharacterRules where
  isUpper : Char → Bool
  isLower : Char → Bool
  isNumber : Char → Bool
  isPunct : Char → Bool
  isSymbol : Char → Bool
  isEmail : String → Bool

inductive ValidationError
  -- the failed fields, each with its first failed tag
  | fields (failed : List (String × String))
  | invalidPassword
deriving DecidableEq, Repr

section Validate

variable (rules : CharacterRules)

/-- Lengths are counted in runes. -/
def fieldErrors (req : RegisterRequest) : List (String × String) :=
  (if req.email = "" then [("Email", "required")]
    else if rules.isEmail req.email = false then [("Email", "email")]
    else []) ++
  (if req.password = "" then [("Password", "required")]
    else if req.password.length < 12 then [("Password", "min")]
    else if 72 < req.password.length then [("Password", "max")]
    else [])

inductive CharacterClass
  | upper
  | lower
  | number
  | special
deriving DecidableEq

/-- A character counts for the first class it is in. -/
def classOf (char : Char) : Option CharacterClass :=
  if rules.isUpper char then some .upper
  else if rules.isLower char then some .lower
  else if rules.isNumber char then some .number
  else if rules.isPunct char || rules.isSymbol char then some .special
  else none

def isPasswordComplex (s : String) : Bool :=
  [CharacterClass.upper, .lower, .number, .special].all fun c =>
    s.toList.any fun char => classOf rules char = some c

def validateRegister (req : RegisterRequest) : Except ValidationError Unit :=
  match fieldErrors rules req with
  | [] => if isPasswordComplex rules req.password then .ok () else .error .invalidPassword
  | failed => .error (.fields failed)

end Validate

/-! ## Formatted scanning -/

inductive Directive
  | literal (c : Char)
  | decimal
deriving DecidableEq, Repr

def directives : List Char → List Directive
  | '%' :: 'd' :: rest => .decimal :: directives rest
  | c :: rest => .literal c :: directives rest
  | [] => []

/-- The table of white space of the package `fmt`. -/
def isScanSpace (c : Char) : Bool :=
  let n := c.toNat
  (0x9 ≤ n && n ≤ 0xd) || n = 0x20 || n = 0x85 || n = 0xa0 || n = 0x1680 ||
    (0x2000 ≤ n && n ≤ 0x200a) || n = 0x2028 || n = 0x2029 || n = 0x202f || n = 0x205f || n = 0x3000

/-- `SkipSpace` of a format without line breaks: one in the input is an error. -/
def skipSpace : List Char → Option (List Char)
  | [] => some []
  | c :: rest =>
    if c = '\n' then none
    else if isScanSpace c then skipSpace rest
    else some (c :: rest)

/-- `%d` into an int: white space, an optional sign and at least one digit, in
the range of sixty-four bits. -/
def scanInt (input : List Char) : Option (Int × List Char) :=
  (skipSpace input).bind fun text =>
    let (negative, unsigned) := signed text
    let digits := unsigned.takeWhile Char.isDigit
    let magnitude : Int := value digits
    let n := if negative then -magnitude else magnitude
    if digits = [] then none
    else if n < -2 ^ 63 ∨ 2 ^ 63 ≤ n then none
    else some (n, unsigned.dropWhile Char.isDigit)

/-- `fmt.Sscanf` for formats of literals and `%d`. What is left of the input
is not looked at. -/
def sscanf : List Directive → List Char → Option (List Int)
  | [], _ => some []
  | .literal _ :: _, [] => none
  | .literal c :: format, d :: input => if d = c then sscanf format input else none
  | .decimal :: format, input =>
    (scanInt input).bind fun (n, rest) => (sscanf format rest).map fun ns => n :: ns

/-! ## Hashing -/

def memory : UInt32 := 64 * 1024

def iterations : UInt32 := 3

def parallelism : UInt8 := 2

def saltLength : Nat := 16

def keyLength : UInt32 := 32

def argon2Version : Int := 0x13

abbrev Salt := { bytes : List UInt8 // bytes.length = saltLength }

def utf8 (s : String) : List UInt8 := s.toUTF8.data.toList

inductive HashError
  | format
  | version
  | parameters
  | salt
  | key
deriving DecidableEq, Repr

abbrev IDKey := List UInt8 → List UInt8 → UInt32 → UInt32 → UInt8 → UInt32 → Option (List UInt8)

/-- `$argon2id$v=%d$m=%d,t=%d,p=%d$%s$%s`. -/
def hashText (salt key : List UInt8) : List Char :=
  "$argon2id$v=".toList ++ decimal argon2Version ++ "$m=".toList ++ decimal memory.toNat ++
    ",t=".toList ++ decimal iterations.toNat ++ ",p=".toList ++ decimal parallelism.toNat ++
    '$' :: Base64.encode salt ++ '$' :: Base64.encode key

section Hash

variable (idKey : IDKey)

def hashPassword (password : String) (salt : Salt) : Option String :=
  (idKey (utf8 password) salt.val iterations memory parallelism keyLength).map fun key =>
    String.ofList (hashText salt.val key)

/-- `ComparePassword`; none is a panic of the key derivation. -/
def comparePassword (password encodedHash : String) : Option (Except HashError Bool) :=
  match encodedHash.toList.splitOn '$' with
  | [_, _, version, parameters, salt, key] =>
    match sscanf (directives "v=%d".toList) version,
      sscanf (directives "m=%d,t=%d,p=%d".toList) parameters with
    | none, _ => some (.error .version)
    | some _, some [m, t, p] =>
      match Base64.decode salt, Base64.decode key with
      | none, _ => some (.error .salt)
      | some _, none => some (.error .key)
      | some salt, some decodedHash =>
        (idKey (utf8 password) salt (UInt32.ofInt t) (UInt32.ofInt m) (UInt8.ofInt p)
          (UInt32.ofNat decodedHash.length)).map fun comparison => .ok (decodedHash = comparison)
    | some _, _ => some (.error .parameters)
  | _ => some (.error .format)

end Hash

/-- The documented range of the key derivation: with at least one round, one
thread and one byte to derive it returns a key of that many bytes. -/
def DerivesKeys (idKey : IDKey) : Prop :=
  ∀ password salt t m p n, 1 ≤ t → 1 ≤ p → 1 ≤ n →
    ∃ key, idKey password salt t m p n = some key ∧ key.length = n.toNat

/-- No two of these passwords have one key under a salt. -/
def CollisionFree (idKey : IDKey) (passwords : List String) : Prop :=
  ∀ p ∈ passwords, ∀ q ∈ passwords, ∀ salt,
    idKey (utf8 p) salt iterations memory parallelism keyLength =
      idKey (utf8 q) salt iterations memory parallelism keyLength → p = q

/-! ## Reading a hash back -/

theorem dollar_notMem_encode (bytes : List UInt8) : '$' ∉ Base64.encode bytes := by
  intro h
  exact absurd (Base64.mem_encode h) (by decide)

theorem splitOn_hashText (salt key : List UInt8) :
    (hashText salt key).splitOn '$' =
      [[], "argon2id".toList, "v=19".toList, "m=65536,t=3,p=2".toList, Base64.encode salt,
        Base64.encode key] := by
  have hFields : "$argon2id$v=".toList ++ decimal argon2Version ++ "$m=".toList ++
      decimal memory.toNat ++ ",t=".toList ++ decimal iterations.toNat ++ ",p=".toList ++
      decimal parallelism.toNat = ([] : List Char) ++ '$' :: ("argon2id".toList ++ '$' ::
        ("v=19".toList ++ '$' :: "m=65536,t=3,p=2".toList)) := by
    decide +kernel
  have hNested : ∀ a b c d e : List Char,
      [] ++ '$' :: (a ++ '$' :: (b ++ '$' :: c)) ++ '$' :: d ++ '$' :: e =
        [] ++ '$' :: (a ++ '$' :: (b ++ '$' :: (c ++ '$' :: (d ++ '$' :: e)))) := by
    intro a b c d e
    simp only [List.append_assoc, List.cons_append]
  unfold hashText
  rw [hFields, hNested, List.splitOn_append_cons_self_of_not_mem (by simp),
    List.splitOn_append_cons_self_of_not_mem (by decide),
    List.splitOn_append_cons_self_of_not_mem (by decide),
    List.splitOn_append_cons_self_of_not_mem (by decide),
    List.splitOn_append_cons_self_of_not_mem (dollar_notMem_encode salt),
    List.splitOn_eq_singleton (dollar_notMem_encode key)]

section Compare

variable {idKey : IDKey}

theorem comparePassword_hashText (password : String) (salt key : List UInt8)
    (hLength : key.length = keyLength.toNat) :
    comparePassword idKey password (String.ofList (hashText salt key)) =
      (idKey (utf8 password) salt iterations memory parallelism keyLength).map
        fun comparison => .ok (key = comparison) := by
  have hVersion : sscanf (directives "v=%d".toList) "v=19".toList = some [19] := by
    decide +kernel
  have hParameters : sscanf (directives "m=%d,t=%d,p=%d".toList) "m=65536,t=3,p=2".toList =
      some [65536, 3, 2] := by
    decide +kernel
  rw [comparePassword, String.toList_ofList, splitOn_hashText]
  simp only [hVersion, hParameters, Base64.decode_encode, hLength]
  rfl

theorem hashPassword_isSome (hKeys : DerivesKeys idKey) (password : String) (salt : Salt) :
    ∃ hash, hashPassword idKey password salt = some hash := by
  obtain ⟨key, hKey, _⟩ := hKeys (utf8 password) salt.val iterations memory parallelism keyLength
    (by decide) (by decide) (by decide)
  exact ⟨_, by rw [hashPassword, hKey]; rfl⟩

/-- A candidate matches a stored hash exactly if it is the password. -/
theorem comparePassword_hashPassword (hKeys : DerivesKeys idKey) {passwords : List String}
    (hFree : CollisionFree idKey passwords) {p q : String} (hp : p ∈ passwords)
    (hq : q ∈ passwords) {salt : Salt} {hash : String}
    (hHash : hashPassword idKey p salt = some hash) :
    comparePassword idKey q hash = some (.ok (q = p)) := by
  obtain ⟨key, hKey, rfl⟩ := Option.map_eq_some_iff.mp hHash
  obtain ⟨stored, hStored, hLength⟩ := hKeys (utf8 p) salt.val iterations memory parallelism
    keyLength (by decide) (by decide) (by decide)
  obtain ⟨derived, hDerived, _⟩ := hKeys (utf8 q) salt.val iterations memory parallelism
    keyLength (by decide) (by decide) (by decide)
  obtain rfl : stored = key := Option.some.inj (hStored.symm.trans hKey)
  have hSame : stored = derived ↔ q = p := by
    constructor
    · rintro rfl
      exact hFree q hq p hp salt.val (hDerived.trans hStored.symm)
    · rintro rfl
      exact Option.some.inj (hStored.symm.trans hDerived)
  rw [comparePassword_hashText q salt.val stored hLength, hDerived, Option.map_some,
    decide_eq_decide.mpr hSame]

end Compare

end ChatLab.Auth

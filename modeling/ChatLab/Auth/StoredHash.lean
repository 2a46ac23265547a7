import ChatLab.Auth.Password

/-!
# Comparing with any stored text

A stored text need not come from `HashPassword`. `ComparePassword` does not look
at the first two fields or at what follows a number, and it narrows the numbers
it reads to the types of the key derivation without looking at their range: a
number can lose its high bits, and it can become zero, on which the derivation
panics. The shape of a stored hash is therefore stated on its own, as the text
that `HashPassword` prints, and the reader is proved to read such a text back.
Which texts are compared cleanly, whatever the key derivation makes of a
password, is the main result.
-/

namespace ChatLab.Auth

open Foundation Foundation.Decimal

/-! ## What a text reads as -/

structure StoredHash where
  version : Int
  memory : Int
  iterations : Int
  parallelism : Int
  salt : List UInt8
  key : List UInt8
deriving DecidableEq

def readHash (encodedHash : String) : Except HashError StoredHash :=
  match encodedHash.toList.splitOn '$' with
  | [_, _, version, parameters, salt, key] =>
    match sscanf (directives "v=%d".toList) version,
      sscanf (directives "m=%d,t=%d,p=%d".toList) parameters with
    | some [v], some [m, t, p] =>
      match Base64.decode salt, Base64.decode key with
      | none, _ => .error .salt
      | some _, none => .error .key
      | some salt, some key =>
        .ok { version := v, memory := m, iterations := t, parallelism := p, salt := salt,
              key := key }
    | some [_], _ => .error .parameters
    | _, _ => .error .version
  | _ => .error .format

/-- The key derivation as `ComparePassword` calls it. -/
def StoredHash.derive (idKey : IDKey) (s : StoredHash) (password : String) : Option (List UInt8) :=
  idKey (utf8 password) s.salt (UInt32.ofInt s.iterations) (UInt32.ofInt s.memory)
    (UInt8.ofInt s.parallelism) (UInt32.ofNat s.key.length)

theorem length_sscanf {format : List Directive} {input : List Char} {ns : List Int}
    (h : sscanf format input = some ns) : ns.length = format.count .decimal := by
  induction format generalizing input ns with
  | nil =>
    cases h
    rfl
  | cons directive format ih =>
    cases directive with
    | literal c =>
      rw [List.count_cons_of_ne (Directive.noConfusion ·)]
      cases input with
      | nil => cases h
      | cons d input =>
        rw [sscanf] at h
        split at h
        · exact ih h
        · cases h
    | decimal =>
      rw [List.count_cons_self]
      obtain ⟨⟨n, rest⟩, _, hRest⟩ := Option.bind_eq_some_iff.mp h
      obtain ⟨ns, hns, rfl⟩ := Option.map_eq_some_iff.mp hRest
      rw [List.length_cons, ih hns]

theorem comparePassword_eq (idKey : IDKey) (password encodedHash : String) :
    comparePassword idKey password encodedHash =
      match readHash encodedHash with
      | .error e => some (.error e)
      | .ok s => (s.derive idKey password).map fun comparison => .ok (s.key = comparison) := by
  unfold comparePassword readHash
  match encodedHash.toList.splitOn '$' with
  | [] | [_] | [_, _] | [_, _, _] | [_, _, _, _] | [_, _, _, _, _] => rfl
  | _ :: _ :: _ :: _ :: _ :: _ :: _ :: _ => rfl
  | [_, _, version, parameters, salt, key] =>
    dsimp only
    cases hVersion : sscanf (directives "v=%d".toList) version with
    | none => rfl
    | some vs =>
      have hOne : vs.length = 1 := length_sscanf hVersion
      obtain ⟨v, rfl⟩ := List.length_eq_one_iff.mp hOne
      cases hParameters : sscanf (directives "m=%d,t=%d,p=%d".toList) parameters with
      | none => rfl
      | some ns =>
        have hThree : ns.length = 3 := length_sscanf hParameters
        obtain ⟨m, t, p, rfl⟩ := List.length_eq_three.mp hThree
        cases hSalt : Base64.decode salt with
        | none => rfl
        | some salt =>
          cases hKey : Base64.decode key with
          | none => rfl
          | some key => rfl

/-! ## Numbers in and out of range -/

/-- The ranges of the derivation's types; which versions of the type int count
is left open, since the code reads the version and does not use it. -/
structure StoredHash.InRange (versions : Int → Prop) (s : StoredHash) : Prop where
  version : versions s.version
  int : -2 ^ 63 ≤ s.version ∧ s.version < 2 ^ 63
  memory : 0 ≤ s.memory ∧ s.memory < 2 ^ 32
  iterations : 1 ≤ s.iterations ∧ s.iterations < 2 ^ 32
  parallelism : 1 ≤ s.parallelism ∧ s.parallelism < 2 ^ 8
  key : 1 ≤ s.key.length ∧ s.key.length < 2 ^ 32

/-- Nothing the derivation panics on becomes zero. -/
structure StoredHash.Derivable (s : StoredHash) : Prop where
  iterations : ¬ (2 ^ 32 : Int) ∣ s.iterations
  parallelism : ¬ (2 ^ 8 : Int) ∣ s.parallelism
  key : ¬ 2 ^ 32 ∣ s.key.length

theorem one_le_uint32_iff (x : Int) : 1 ≤ UInt32.ofInt x ↔ ¬ (2 ^ 32 : Int) ∣ x := by
  have hNat : (UInt32.ofInt x).toNat = (x % 2 ^ 32).toNat := by
    rw [UInt32.ofInt, UInt32.toNat_ofNat']
    omega
  have hOne : (1 : UInt32).toNat = 1 := rfl
  rw [UInt32.le_iff_toNat_le, hNat, hOne]
  omega

theorem one_le_uint8_iff (x : Int) : 1 ≤ UInt8.ofInt x ↔ ¬ (2 ^ 8 : Int) ∣ x := by
  have hNat : (UInt8.ofInt x).toNat = (x % 2 ^ 8).toNat := by
    rw [UInt8.ofInt, UInt8.toNat_ofNat']
    omega
  have hOne : (1 : UInt8).toNat = 1 := rfl
  rw [UInt8.le_iff_toNat_le, hNat, hOne]
  omega

theorem one_le_length_iff (n : Nat) : 1 ≤ UInt32.ofNat n ↔ ¬ 2 ^ 32 ∣ n := by
  have hOne : (1 : UInt32).toNat = 1 := rfl
  rw [UInt32.le_iff_toNat_le, UInt32.toNat_ofNat', hOne]
  omega

theorem StoredHash.InRange.derivable {versions : Int → Prop} {s : StoredHash}
    (h : s.InRange versions) : s.Derivable where
  iterations := by
    have hRange := h.iterations
    omega
  parallelism := by
    have hRange := h.parallelism
    omega
  key := by
    have hRange := h.key
    omega

/-- The documented panics of the key derivation. -/
def PanicsOutOfRange (idKey : IDKey) : Prop :=
  ∀ password salt t m p n, t < 1 ∨ p < 1 ∨ n < 1 → idKey password salt t m p n = none

section Derivation

variable {idKey : IDKey} {s : StoredHash}

theorem StoredHash.Derivable.exists_derive (h : s.Derivable) (hKeys : DerivesKeys idKey)
    (password : String) :
    ∃ key, s.derive idKey password = some key ∧ key.length = s.key.length % 2 ^ 32 := by
  obtain ⟨key, hKey, hLength⟩ := hKeys (utf8 password) s.salt (UInt32.ofInt s.iterations)
    (UInt32.ofInt s.memory) (UInt8.ofInt s.parallelism) (UInt32.ofNat s.key.length)
    ((one_le_uint32_iff _).mpr h.iterations) ((one_le_uint8_iff _).mpr h.parallelism)
    ((one_le_length_iff _).mpr h.key)
  rw [UInt32.toNat_ofNat'] at hLength
  exact ⟨key, hKey, hLength⟩

theorem StoredHash.derivable_of_derive (hPanics : PanicsOutOfRange idKey) {password : String}
    {key : List UInt8} (h : s.derive idKey password = some key) : s.Derivable := by
  have hNone : ∀ {P : Prop}, (P → s.derive idKey password = none) → ¬ P := by
    intro P hP hTrue
    rw [hP hTrue] at h
    cases h
  have hBelow : ¬ (UInt32.ofInt s.iterations < 1 ∨ UInt8.ofInt s.parallelism < 1 ∨
      UInt32.ofNat s.key.length < 1) :=
    hNone (hPanics _ _ _ _ _ _)
  rw [not_or, not_or, UInt32.not_lt, UInt8.not_lt, UInt32.not_lt] at hBelow
  obtain ⟨hIterations, hParallelism, hLength⟩ := hBelow
  exact ⟨(one_le_uint32_iff _).mp hIterations, (one_le_uint8_iff _).mp hParallelism,
    (one_le_length_iff _).mp hLength⟩

end Derivation

/-- Whatever the password, the comparison panics exactly on a text that parses
and holds a number that becomes zero. -/
theorem comparePassword_eq_none_iff {idKey : IDKey} (hKeys : DerivesKeys idKey)
    (hPanics : PanicsOutOfRange idKey) (password encodedHash : String) :
    comparePassword idKey password encodedHash = none ↔
      ∃ s, readHash encodedHash = .ok s ∧ ¬ s.Derivable := by
  rw [comparePassword_eq]
  cases readHash encodedHash with
  | error e =>
    constructor
    · nofun
    · rintro ⟨s, hRead, _⟩
      cases hRead
  | ok s =>
    constructor
    · intro hNone
      refine ⟨s, rfl, ?_⟩
      intro hDerivable
      obtain ⟨key, hKey, _⟩ := hDerivable.exists_derive hKeys password
      rw [Option.map_eq_none_iff.mp hNone] at hKey
      cases hKey
    · rintro ⟨t, hRead, hNot⟩
      cases hRead
      cases hKey : s.derive idKey password with
      | none => simp only [hKey, Option.map_none]
      | some key => exact (hNot (StoredHash.derivable_of_derive hPanics hKey)).elim

/-! ## The shape of a stored hash -/

/-- The text of a hash with these values, `$argon2id$v=%d$m=%d,t=%d,p=%d$%s$%s`. -/
def StoredHash.text (s : StoredHash) : List Char :=
  "$argon2id$v=".toList ++ decimal s.version ++ "$m=".toList ++ decimal s.memory ++
    ",t=".toList ++ decimal s.iterations ++ ",p=".toList ++ decimal s.parallelism ++
    '$' :: Base64.encode s.salt ++ '$' :: Base64.encode s.key

/-- The text is a printed hash, digit for digit, with all values in range. -/
def HashShaped (versions : Int → Prop) (encodedHash : String) : Prop :=
  ∃ s : StoredHash, s.InRange versions ∧ encodedHash.toList = s.text

theorem hashText_eq_text (salt key : List UInt8) :
    hashText salt key = StoredHash.text {
      version := argon2Version, memory := memory.toNat, iterations := iterations.toNat,
      parallelism := parallelism.toNat, salt := salt, key := key } := rfl

/-- What `HashPassword` returns has the shape. -/
theorem hashShaped_of_hashPassword {idKey : IDKey} (hKeys : DerivesKeys idKey)
    {password hash : String} {salt : Salt} (h : hashPassword idKey password salt = some hash) :
    HashShaped (· = argon2Version) hash := by
  obtain ⟨key, hKey, rfl⟩ := Option.map_eq_some_iff.mp h
  obtain ⟨derived, hDerived, hLength⟩ := hKeys (utf8 password) salt.val iterations memory
    parallelism keyLength (by decide) (by decide) (by decide)
  obtain rfl : derived = key := Option.some.inj (hDerived.symm.trans hKey)
  refine ⟨_, ?_, String.toList_ofList.trans (hashText_eq_text salt.val derived)⟩
  have hVersion : -2 ^ 63 ≤ argon2Version ∧ argon2Version < 2 ^ 63 := by decide
  have hMemory : 0 ≤ (memory.toNat : Int) ∧ (memory.toNat : Int) < 2 ^ 32 := by decide
  have hIterations : 1 ≤ (iterations.toNat : Int) ∧ (iterations.toNat : Int) < 2 ^ 32 := by decide
  have hParallelism : 1 ≤ (parallelism.toNat : Int) ∧ (parallelism.toNat : Int) < 2 ^ 8 := by
    decide
  have hKeyLength : 1 ≤ keyLength.toNat ∧ keyLength.toNat < 2 ^ 32 := by decide
  rw [← hLength] at hKeyLength
  exact ⟨rfl, hVersion, hMemory, hIterations, hParallelism, hKeyLength⟩

section Shape

variable {n : Int} {rest : List Char}

theorem digits_before (n : Nat) (hRest : ∀ c ∈ rest.head?, c.isDigit = false) :
    (Nat.toDigits 10 n ++ rest).takeWhile Char.isDigit = Nat.toDigits 10 n ∧
      (Nat.toDigits 10 n ++ rest).dropWhile Char.isDigit = rest := by
  have hDigits : ∀ c ∈ Nat.toDigits 10 n, c.isDigit = true := fun c => isDigit_of_mem_toDigits
  rw [List.takeWhile_append_of_pos hDigits, List.dropWhile_append_of_pos hDigits]
  cases rest with
  | nil => exact ⟨List.append_nil _, rfl⟩
  | cons c rest =>
    have hc : ¬ c.isDigit = true := by
      rw [hRest c rfl]
      exact Bool.false_ne_true
    rw [List.takeWhile_cons_of_neg hc, List.dropWhile_cons_of_neg hc, List.append_nil]
    exact ⟨rfl, rfl⟩

theorem skipSpace_of_not_space {c : Char} (hc : isScanSpace c = false) (text : List Char) :
    skipSpace (c :: text) = some (c :: text) := by
  have hBreak : c ≠ '\n' := by
    rintro rfl
    exact absurd hc (by decide)
  rw [skipSpace, if_neg hBreak, hc]
  rfl

theorem isScanSpace_of_isDigit {c : Char} (h : c.isDigit = true) : isScanSpace c = false := by
  have hRange := toNat_of_isDigit h
  simp only [isScanSpace, Bool.or_eq_false_iff, Bool.and_eq_false_iff, decide_eq_false_iff_not]
  omega

theorem scanInt_eq (input : List Char) :
    scanInt input = (skipSpace input).bind fun text =>
      let digits := (signed text).2.takeWhile Char.isDigit
      let n : Int := if (signed text).1 then -(value digits : Int) else value digits
      if digits = [] then none
      else if n < -2 ^ 63 ∨ 2 ^ 63 ≤ n then none
      else some (n, (signed text).2.dropWhile Char.isDigit) := rfl

/-- A printed number is read back, up to the first character that is no digit. -/
theorem scanInt_decimal (hRange : -2 ^ 63 ≤ n ∧ n < 2 ^ 63)
    (hRest : ∀ c ∈ rest.head?, c.isDigit = false) :
    scanInt (decimal n ++ rest) = some (n, rest) := by
  have hInside : ¬ (n < -2 ^ 63 ∨ 2 ^ 63 ≤ n) := by omega
  have hValue : ∀ k : Nat, value (Nat.toDigits 10 k) = k := fun k => Nat.ofDigitChars_ten_toDigits
  have hNonempty : ∀ k : Nat, Nat.toDigits 10 k ≠ [] := fun k =>
    List.ne_nil_of_length_pos Nat.length_toDigits_pos
  rw [scanInt_eq]
  cases n with
  | ofNat k =>
    obtain ⟨hTake, hDrop⟩ := digits_before k hRest
    obtain ⟨c, ds, hDigits⟩ := List.exists_cons_of_ne_nil (hNonempty k)
    have hc : c.isDigit = true := isDigit_of_mem_toDigits (n := k) (by simp [hDigits])
    have hSkip : skipSpace (Nat.toDigits 10 k ++ rest) = some (Nat.toDigits 10 k ++ rest) := by
      rw [hDigits]
      exact skipSpace_of_not_space (isScanSpace_of_isDigit hc) _
    have hSigned : signed (Nat.toDigits 10 k ++ rest) = (false, Nat.toDigits 10 k ++ rest) := by
      rw [hDigits]
      exact signed_of_isDigit hc _
    simp only [decimal, hSkip, Option.bind_some, hSigned, hTake, hDrop, hValue]
    rw [if_neg (hNonempty k)]
    exact if_neg hInside
  | negSucc k =>
    obtain ⟨hTake, hDrop⟩ := digits_before (k + 1) hRest
    have hSkip : skipSpace ('-' :: Nat.toDigits 10 (k + 1) ++ rest) =
        some ('-' :: Nat.toDigits 10 (k + 1) ++ rest) :=
      skipSpace_of_not_space (by decide) _
    have hSigned : signed ('-' :: Nat.toDigits 10 (k + 1) ++ rest) =
        (true, Nat.toDigits 10 (k + 1) ++ rest) := rfl
    simp only [decimal, hSkip, Option.bind_some, hSigned, hTake, hDrop, hValue]
    rw [if_neg (hNonempty _)]
    exact if_neg hInside

theorem no_digit_nil : ∀ c ∈ ([] : List Char).head?, c.isDigit = false :=
  nofun

theorem sscanf_decimal (hRange : -2 ^ 63 ≤ n ∧ n < 2 ^ 63)
    (hRest : ∀ c ∈ rest.head?, c.isDigit = false) (format : List Directive) :
    sscanf (.decimal :: format) (decimal n ++ rest) = (sscanf format rest).map (n :: ·) := by
  rw [sscanf, scanInt_decimal hRange hRest]
  rfl

end Shape

section Read

variable {versions : Int → Prop} {s : StoredHash}

theorem StoredHash.InRange.version_read (h : s.InRange versions) :
    sscanf (directives "v=%d".toList) ("v=".toList ++ decimal s.version) = some [s.version] := by
  have hScan := sscanf_decimal h.int no_digit_nil []
  rw [List.append_nil] at hScan
  exact hScan

theorem StoredHash.InRange.parameters_read (h : s.InRange versions) :
    sscanf (directives "m=%d,t=%d,p=%d".toList)
        ("m=".toList ++ (decimal s.memory ++ (",t=".toList ++ (decimal s.iterations ++
          (",p=".toList ++ decimal s.parallelism))))) =
      some [s.memory, s.iterations, s.parallelism] := by
  have hMemory := h.memory
  have hIterations := h.iterations
  have hParallelism := h.parallelism
  have hComma : ∀ (k : Char) (text : List Char),
      ∀ c ∈ (',' :: k :: '=' :: text).head?, c.isDigit = false := by
    rintro k text c ⟨⟩
    rfl
  have hLast := sscanf_decimal (n := s.parallelism) (by omega) no_digit_nil []
  rw [List.append_nil] at hLast
  have hThird := sscanf_decimal (n := s.iterations) (by omega)
    (hComma 'p' (decimal s.parallelism)) (directives ",p=%d".toList)
  have hSecond := sscanf_decimal (n := s.memory) (by omega)
    (hComma 't' (decimal s.iterations ++ (",p=".toList ++ decimal s.parallelism)))
    (directives ",t=%d,p=%d".toList)
  have hFormat : ∀ (k : Char) (format : List Directive) (text : List Char),
      sscanf (.literal ',' :: .literal k :: .literal '=' :: format) (',' :: k :: '=' :: text) =
        sscanf format text := by
    intro k format text
    simp only [sscanf, if_true]
  calc sscanf (directives "m=%d,t=%d,p=%d".toList) _
      = sscanf (.decimal :: directives ",t=%d,p=%d".toList)
          (decimal s.memory ++ (',' :: 't' :: '=' :: (decimal s.iterations ++
            (",p=".toList ++ decimal s.parallelism)))) := rfl
    _ = (sscanf (.decimal :: directives ",p=%d".toList)
          (decimal s.iterations ++ (',' :: 'p' :: '=' :: decimal s.parallelism))).map
            (s.memory :: ·) := by
        rw [hSecond]
        exact congrArg _ (hFormat 't' _ _)
    _ = ((sscanf [.decimal] (decimal s.parallelism)).map (s.iterations :: ·)).map
          (s.memory :: ·) := by
        rw [hThird]
        exact congrArg (fun o => (o.map (s.iterations :: ·)).map (s.memory :: ·)) (hFormat 'p' _ _)
    _ = some [s.memory, s.iterations, s.parallelism] := by
        rw [hLast]
        rfl

theorem dollar_notMem_decimal (n : Int) : '$' ∉ decimal n := by
  intro h
  exact absurd (mem_decimal h) (by decide)

theorem StoredHash.splitOn_text (s : StoredHash) :
    s.text.splitOn '$' =
      [[], "argon2id".toList, "v=".toList ++ decimal s.version,
        "m=".toList ++ (decimal s.memory ++ (",t=".toList ++ (decimal s.iterations ++
          (",p=".toList ++ decimal s.parallelism)))),
        Base64.encode s.salt, Base64.encode s.key] := by
  have hNested : ∀ a b c d e v m t p x y : List Char,
      ('$' :: a ++ '$' :: b) ++ v ++ '$' :: c ++ m ++ d ++ t ++ e ++ p ++ '$' :: x ++ '$' :: y =
        [] ++ '$' :: (a ++ '$' :: ((b ++ v) ++ '$' ::
          ((c ++ (m ++ (d ++ (t ++ (e ++ p))))) ++ '$' :: (x ++ '$' :: y)))) := by
    intro a b c d e v m t p x y
    simp only [List.append_assoc, List.cons_append, List.nil_append]
  have hLead : "$argon2id$v=".toList = '$' :: "argon2id".toList ++ '$' :: "v=".toList := by
    decide +kernel
  have hText := hNested "argon2id".toList "v=".toList "m=".toList ",t=".toList ",p=".toList
    (decimal s.version) (decimal s.memory) (decimal s.iterations) (decimal s.parallelism)
    (Base64.encode s.salt) (Base64.encode s.key)
  rw [← hLead] at hText
  have hNames : '$' ∉ "v=".toList ∧ '$' ∉ "m=".toList ∧ '$' ∉ ",t=".toList ∧
      '$' ∉ ",p=".toList := by
    decide
  have hVersion : '$' ∉ "v=".toList ++ decimal s.version := by
    simp only [List.mem_append, hNames, dollar_notMem_decimal, or_self, not_false_eq_true]
  have hParameters : '$' ∉ "m=".toList ++ (decimal s.memory ++ (",t=".toList ++
      (decimal s.iterations ++ (",p=".toList ++ decimal s.parallelism)))) := by
    simp only [List.mem_append, hNames, dollar_notMem_decimal, or_self, not_false_eq_true]
  calc s.text.splitOn '$' = _ := congrArg (List.splitOn '$') hText
    _ = _ := by
      rw [List.splitOn_append_cons_self_of_not_mem (by simp),
        List.splitOn_append_cons_self_of_not_mem (by decide),
        List.splitOn_append_cons_self_of_not_mem hVersion,
        List.splitOn_append_cons_self_of_not_mem hParameters,
        List.splitOn_append_cons_self_of_not_mem (dollar_notMem_encode _),
        List.splitOn_eq_singleton (dollar_notMem_encode _)]

/-- A hash that is printed in range reads as what was printed. -/
theorem StoredHash.InRange.readHash (h : s.InRange versions) {encodedHash : String}
    (hText : encodedHash.toList = s.text) : readHash encodedHash = .ok s := by
  have hVersion := h.version_read
  have hParameters := h.parameters_read
  rw [Auth.readHash, hText, s.splitOn_text]
  generalize "v=".toList ++ decimal s.version = version at hVersion ⊢
  generalize "m=".toList ++ _ = parameters at hParameters ⊢
  simp only [hVersion, hParameters, Base64.decode_encode]

end Read

/-! ## Clean comparisons -/

/-- The call returns. A text of another shape is never matched, and a match
means that the stored key is the password's under the stored parameters. -/
def ComparesCleanly (versions : Int → Prop) (idKey : IDKey) (password encodedHash : String) :
    Prop :=
  ∃ result, comparePassword idKey password encodedHash = some result ∧
    (¬ HashShaped versions encodedHash → result = .ok false ∨ ∃ e, result = .error e) ∧
    (result = .ok true → ∃ s : StoredHash, s.InRange versions ∧ encodedHash.toList = s.text ∧
      s.key ≠ [] ∧ s.derive idKey password = some s.key)

section Clean

variable {versions : Int → Prop} {idKey : IDKey} {password encodedHash : String} {s : StoredHash}

theorem comparesCleanly_of_error {e : HashError} (h : readHash encodedHash = .error e) :
    ComparesCleanly versions idKey password encodedHash := by
  refine ⟨.error e, ?_, fun _ => .inr ⟨e, rfl⟩, nofun⟩
  rw [comparePassword_eq, h]

theorem comparePassword_of_derive (h : readHash encodedHash = .ok s) {key : List UInt8}
    (hKey : s.derive idKey password = some key) :
    comparePassword idKey password encodedHash = some (.ok (s.key = key)) := by
  rw [comparePassword_eq, h]
  simp only [hKey, Option.map_some]

theorem comparesCleanly_of_inRange (hKeys : DerivesKeys idKey) (hRange : s.InRange versions)
    (hText : encodedHash.toList = s.text) :
    ComparesCleanly versions idKey password encodedHash := by
  obtain ⟨key, hKey, _⟩ := hRange.derivable.exists_derive hKeys password
  refine ⟨_, comparePassword_of_derive (hRange.readHash hText) hKey,
    fun hShape => (hShape ⟨s, hRange, hText⟩).elim, ?_⟩
  intro hMatch
  have hSame : s.key = key := of_decide_eq_true (Except.ok.inj hMatch)
  have hNonempty : s.key ≠ [] := List.ne_nil_of_length_pos hRange.key.1
  exact ⟨s, hRange, hText, hNonempty, by rw [hKey, hSame]⟩

/-- A key longer than any derived one is compared with a shorter one. -/
theorem comparesCleanly_of_long (hKeys : DerivesKeys idKey) (h : readHash encodedHash = .ok s)
    (hDerivable : s.Derivable) (hLong : 2 ^ 32 ≤ s.key.length) :
    ComparesCleanly versions idKey password encodedHash := by
  obtain ⟨key, hKey, hLength⟩ := hDerivable.exists_derive hKeys password
  have hApart : ¬ s.key = key := by
    intro hSame
    rw [hSame] at hLong hLength
    omega
  refine ⟨.ok false, ?_, fun _ => .inl rfl, nofun⟩
  rw [comparePassword_of_derive h hKey, decide_eq_false hApart]

end Clean

/-- A derivation with one key for all passwords, where its length fits. -/
def echoKey (key : List UInt8) : IDKey := fun _ _ t _ p n =>
  if t < 1 ∨ p < 1 ∨ n < 1 then none
  else if key.length = n.toNat then some key
  else some (List.replicate n.toNat 0)

theorem echoKey_panics (key : List UInt8) : PanicsOutOfRange (echoKey key) :=
  fun _ _ _ _ _ _ h => if_pos h

theorem echoKey_derives (key : List UInt8) : DerivesKeys (echoKey key) := by
  intro password salt t m p n ht hp hn
  have hInside : ¬ (t < 1 ∨ p < 1 ∨ n < 1) := by
    rw [not_or, not_or, UInt32.not_lt, UInt8.not_lt, UInt32.not_lt]
    exact ⟨ht, hp, hn⟩
  unfold echoKey
  rw [if_neg hInside]
  split
  · rename_i hLength
    exact ⟨key, rfl, hLength⟩
  · exact ⟨_, rfl, List.length_replicate⟩

/-- A stored text is compared cleanly with every password, whatever the key
derivation, exactly if it is refused as malformed or no number it holds becomes
zero and, unless the key is longer than any derived one, the text is the printed
hash of what is read from it and all of that is in range. -/
theorem comparePassword_clean_iff (versions : Int → Prop) (encodedHash : String) :
    (∀ idKey, DerivesKeys idKey → PanicsOutOfRange idKey → ∀ password,
        ComparesCleanly versions idKey password encodedHash) ↔
      ∀ s, readHash encodedHash = .ok s →
        s.Derivable ∧
          (s.key.length < 2 ^ 32 → s.InRange versions ∧ encodedHash.toList = s.text) := by
  constructor
  · intro hClean s hRead
    obtain ⟨result, hResult, _, hMatch⟩ :=
      hClean (echoKey s.key) (echoKey_derives s.key) (echoKey_panics s.key) ""
    rw [comparePassword_eq, hRead] at hResult
    obtain ⟨key, hKey, rfl⟩ := Option.map_eq_some_iff.mp hResult
    have hDerivable := StoredHash.derivable_of_derive (echoKey_panics s.key) hKey
    refine ⟨hDerivable, ?_⟩
    intro hShort
    -- the derivation answers with the stored key, so the text is matched
    have hEcho : s.key = key := by
      obtain ⟨_, hInside⟩ := Option.ite_none_left_eq_some.mp hKey
      rw [if_pos (by rw [UInt32.toNat_ofNat', Nat.mod_eq_of_lt hShort])] at hInside
      exact Option.some.inj hInside
    obtain ⟨t, hRange, hText, _⟩ := hMatch (congrArg Except.ok (decide_eq_true hEcho))
    have hSame : s = t := Except.ok.inj (hRead.symm.trans (hRange.readHash hText))
    rw [hSame]
    exact ⟨hRange, hText⟩
  · intro hTexts idKey hKeys _ password
    cases hRead : readHash encodedHash with
    | error e => exact comparesCleanly_of_error hRead
    | ok s =>
      obtain ⟨hDerivable, hShaped⟩ := hTexts s hRead
      by_cases hShort : s.key.length < 2 ^ 32
      · obtain ⟨hRange, hText⟩ := hShaped hShort
        exact comparesCleanly_of_inRange hKeys hRange hText
      · exact comparesCleanly_of_long hKeys hRead hDerivable (Nat.le_of_not_lt hShort)

def zeroRounds : String := "$argon2id$v=19$m=65536,t=0,p=2$c2FsdHNhbHRzYWx0c2E$AAAA"

/-- A stored text with zero iterations makes the comparison panic. -/
theorem comparePassword_panics :
    ¬ ∀ (idKey : IDKey) (password encodedHash : String), DerivesKeys idKey →
      PanicsOutOfRange idKey → ComparesCleanly (· = argon2Version) idKey password encodedHash := by
  intro hAlways
  obtain ⟨result, hResult, _⟩ :=
    hAlways (echoKey []) "secret" zeroRounds (echoKey_derives []) (echoKey_panics [])
  have hPanic : comparePassword (echoKey []) "secret" zeroRounds = none := by decide +kernel
  rw [hPanic] at hResult
  cases hResult

end ChatLab.Auth

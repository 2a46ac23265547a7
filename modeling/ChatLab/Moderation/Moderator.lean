import ChatLab.Foundation.PatternSearch

/-!
# The moderator

A text is the list of its runes. `Censor` searches a normalized copy, in which
noise is dropped and leet spellings are undone, and paints the original runes
between the first and the last rune of every match. Reads and writes outside a
slice are `none` here, as they panic in the source.

The Unicode tables and the automaton are parameters: the former are any
predicates, the latter is used through what its search returns.
-/

namespace ChatLab.Moderation

/-- The predicates and the case mapping of the package `unicode`. -/
structure Unicode where
  isPunct : Char → Bool
  isSpace : Char → Bool
  isSymbol : Char → Bool
  toLower : Char → Char

structure TextMapping where
  normalized : List Char
  origIdx : List Nat
deriving DecidableEq

def simplifyRune (r : Char) : Char :=
  match r with
  | '4' | '@' => 'a'
  | '3' | '€' => 'e'
  | '1' | '!' | '|' => 'i'
  | '0' => 'o'
  | '5' | '$' => 's'
  | _ => r

section Normalize

variable (u : Unicode)

def isNoise (r : Char) : Bool :=
  match r with
  | '4' | '@' | '3' | '€' | '1' | '!' | '|' | '0' | '5' | '$' => false
  | _ => u.isPunct r || u.isSpace r || u.isSymbol r

def normalizeFrom (i : Nat) : List Char → TextMapping
  | [] => { normalized := [], origIdx := [] }
  | r :: input =>
    let rest := normalizeFrom (i + 1) input
    if isNoise u r then rest
    else
      { normalized := u.toLower (simplifyRune r) :: rest.normalized
        origIdx := i :: rest.origIdx }

def normalize (input : List Char) : TextMapping := normalizeFrom u 0 input

/-- `normalizeRunes` tests the simplified rune, where `normalize` tests the
original one. -/
def normalizeRunes : List Char → List Char
  | [] => []
  | r :: input =>
    let clean := simplifyRune r
    if isNoise u clean then normalizeRunes input
    else u.toLower clean :: normalizeRunes input

def patternsOf (censoredWords : List (List Char)) : List (List Char) :=
  (censoredWords.map (normalizeRunes u)).filter fun w => w.length > 0

end Normalize

structure Term where
  pos : Int
  word : List Char
deriving DecidableEq

/-- A built automaton, by what `MultiPatternSearch` returns when it is asked
for all matches. -/
structure Matcher where
  multiPatternSearch : List Char → List Term

structure Moderator where
  matcher : Matcher
  censoredChar : Char

inductive ModeratorError
  | noValidPatterns
  | build (msg : String)
deriving DecidableEq, Repr

def newModerator (u : Unicode) (build : List (List Char) → Except String Matcher)
    (censoredWords : List (List Char)) (censoredChar : Char) : Except ModeratorError Moderator :=
  let patterns := patternsOf u censoredWords
  if patterns.length = 0 then .error .noValidPatterns
  else
    match build patterns with
    | .error msg => .error (.build msg)
    | .ok m => .ok { matcher := m, censoredChar := censoredChar }

def index {α : Type} (xs : List α) (i : Int) : Option α :=
  if i < 0 then none else xs[i.toNat]?

def applyStars (c : Char) (origRunes : List Char) (i : Nat) : Nat → Option (List Char)
  | 0 => some origRunes
  | n + 1 => if i < origRunes.length then applyStars c (origRunes.set i c) (i + 1) n else none

def censorMatch (c : Char) (origIdx : List Nat) (state : List Char × List (List Char))
    (t : Term) : Option (List Char × List (List Char)) :=
  let normStart := t.pos
  let normEnd := normStart + t.word.length
  if normStart < 0 ∨ normEnd > origIdx.length then some state
  else do
    let origStart ← index origIdx normStart
    let lastCharOrigIdx ← index origIdx (normEnd - 1)
    let origEnd := lastCharOrigIdx + 1
    let origRunes ← applyStars c state.1 origStart (origEnd - origStart)
    return (origRunes, state.2 ++ [t.word])

/-- `Censor`; the second result is `none` where the source returns `nil`. -/
def Moderator.censor (u : Unicode) (m : Moderator) (original : List Char) :
    Option (List Char × Option (List (List Char))) :=
  let mapping := normalize u original
  if mapping.normalized.length = 0 then some (original, none)
  else
    let hits := m.matcher.multiPatternSearch mapping.normalized
    if hits.length = 0 then some (original, none)
    else
      (hits.foldlM (censorMatch m.censoredChar mapping.origIdx) (original, [])).map
        fun state => (state.1, some state.2)

inductive ConfigError
  | singleCharacter (got : List Char)
deriving DecidableEq, Repr

def characterRune (str : List Char) : Except ConfigError Char :=
  match str with
  | [r] => .ok r
  | _ => .error (.singleCharacter str)

end ChatLab.Moderation

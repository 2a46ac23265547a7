import ChatLab.Domain
import ChatLab.Foundation.Fields

/-!
# Search commands

`NewSearchQuery` reads a chat input word by word. A flag takes the next word as
its value, a word with a slash is dropped and every other word is a term. The
parameter is `strconv.ParseFloat`, none on error.
-/

namespace ChatLab.Search

open Foundation Foundation.Fields Foundation.Log

structure Query where
  rawInput : String
  terms : String
  filters : OrderedMap String Float64
  roomId : String
  limit : Int
deriving DecidableEq

/-- `unicode.IsSpace`. -/
def isSpace (c : Char) : Bool :=
  let n := c.toNat
  (0x9 ≤ n && n ≤ 0xd) || n = 0x20 || n = 0x85 || n = 0xa0 || n = 0x1680 ||
    (0x2000 ≤ n && n ≤ 0x200a) || n = 0x2028 || n = 0x2029 || n = 0x202f || n = 0x205f || n = 0x3000

def dashes : List Char := ['-', '-']

def roomKey : List Char := "room".toList

section Parse

variable (parseFloat : String → Option Float64)

/-- A score that does not parse is dropped with its flag. -/
def setFlag (query : Query) (key val : List Char) : Query :=
  if key = roomKey then { query with roomId := String.ofList val }
  else
    match parseFloat (String.ofList val) with
    | some score => { query with filters := query.filters.insert (String.ofList key) score }
    | none => query

def addTerm (textTerms : List (List Char)) (part : List Char) : List (List Char) :=
  if ['/'].isPrefixOf part then textTerms else textTerms ++ [part]

/-- The loop over the words. A flag at the end of the input has no value and is
read as a term. -/
def parseParts : List (List Char) → Query → List (List Char) → Query × List (List Char)
  | [], query, textTerms => (query, textTerms)
  | [part], query, textTerms => (query, addTerm textTerms part)
  | part :: val :: rest, query, textTerms =>
    if dashes.isPrefixOf part then
      parseParts rest (setFlag parseFloat query (part.drop dashes.length) val) textTerms
    else parseParts (val :: rest) query (addTerm textTerms part)

def newSearchQuery (input : String) : Query :=
  let query : Query :=
    { rawInput := input, terms := "", filters := .empty, roomId := "", limit := 10 }
  let (query, textTerms) := parseParts parseFloat (fields isSpace input.toList) query []
  { query with terms := String.ofList ([' '].intercalate textTerms) }

end Parse

/-! ## Commands as they are meant -/

abbrev Word := { w : List Char // IsWord isSpace w }

/-- One item of a command; a key may be empty. -/
inductive Item (parseFloat : String → Option Float64)
  | term (w : Word) (noSlash : ['/'].isPrefixOf w.val = false)
      (noFlag : dashes.isPrefixOf w.val = false)
  | slash (w : Word) (starts : ['/'].isPrefixOf w.val = true)
  | room (v : Word)
  | score (key : List Char) (solid : ∀ c ∈ key, isSpace c = false) (other : key ≠ roomKey)
      (x : Word) (value : Float64) (accepted : parseFloat (String.ofList x.val) = some value)

variable {parseFloat : String → Option Float64}

def Item.words : Item parseFloat → List (List Char)
  | .term w _ _ => [w.val]
  | .slash w _ => [w.val]
  | .room v => [dashes ++ roomKey, v.val]
  | .score key _ _ x _ _ => [dashes ++ key, x.val]

def Item.term? : Item parseFloat → Option (List Char)
  | .term w _ _ => some w.val
  | _ => none

def Item.room? : Item parseFloat → Option String
  | .room v => some (String.ofList v.val)
  | _ => none

def Item.score? : Item parseFloat → Option (String × Float64)
  | .score key _ _ _ value _ => some (String.ofList key, value)
  | _ => none

theorem solid_of_all {w : List Char} (h : (w.all fun c => !isSpace c) = true) :
    ∀ c ∈ w, isSpace c = false := by
  intro c hc
  exact Bool.eq_false_of_not_eq_true' (List.all_eq_true.mp h c hc)

theorem isWord_of_all {w : List Char} (h : (!w.isEmpty && w.all fun c => !isSpace c) = true) :
    IsWord isSpace w := by
  obtain ⟨hNonempty, hSolid⟩ := Bool.and_eq_true_iff.mp h
  refine ⟨?_, solid_of_all hSolid⟩
  rintro rfl
  cases hNonempty

theorem isWord_flag {key : List Char} (h : ∀ c ∈ key, isSpace c = false) :
    IsWord isSpace (dashes ++ key) where
  nonempty := List.cons_ne_nil _ _
  solid := by
    intro c hc
    obtain hc | hc := List.mem_append.mp hc
    · exact solid_of_all rfl c hc
    · exact h c hc

theorem Item.isWord_of_mem (item : Item parseFloat) {w : List Char} (h : w ∈ item.words) :
    IsWord isSpace w := by
  cases item with
  | term v _ _ =>
    rw [List.mem_singleton.mp h]
    exact v.property
  | slash v _ =>
    rw [List.mem_singleton.mp h]
    exact v.property
  | room v =>
    obtain rfl | h := List.mem_cons.mp h
    · exact isWord_flag (solid_of_all rfl)
    · rw [List.mem_singleton.mp h]
      exact v.property
  | score key solid _ x _ _ =>
    obtain rfl | h := List.mem_cons.mp h
    · exact isWord_flag solid
    · rw [List.mem_singleton.mp h]
      exact x.property

/-! ## The loop over a command -/

/-- What one item does to the query. -/
def Item.apply (item : Item parseFloat) (query : Query) : Query :=
  { query with
    roomId := item.room?.getD query.roomId
    filters := query.filters.insertAll item.score?.toList }

theorem parseParts_plain {part : List Char} (h : dashes.isPrefixOf part = false)
    (rest : List (List Char)) (query : Query) (textTerms : List (List Char)) :
    parseParts parseFloat (part :: rest) query textTerms =
      parseParts parseFloat rest query (addTerm textTerms part) := by
  cases rest with
  | nil => rfl
  | cons val rest => rw [parseParts, if_neg (by rw [h]; decide)]

theorem parseParts_flag (key val : List Char) (rest : List (List Char)) (query : Query)
    (textTerms : List (List Char)) :
    parseParts parseFloat ((dashes ++ key) :: val :: rest) query textTerms =
      parseParts parseFloat rest (setFlag parseFloat query key val) textTerms := by
  have hFlag : dashes.isPrefixOf (dashes ++ key) = true :=
    List.isPrefixOf_iff_prefix.mpr (List.prefix_append _ _)
  rw [parseParts, if_pos hFlag, List.drop_left]

theorem parseParts_item (item : Item parseFloat) (rest : List (List Char)) (query : Query)
    (textTerms : List (List Char)) :
    parseParts parseFloat (item.words ++ rest) query textTerms =
      parseParts parseFloat rest (item.apply query) (textTerms ++ item.term?.toList) := by
  cases item with
  | term w noSlash noFlag =>
    have hTerm : addTerm textTerms w.val = textTerms ++ [w.val] := by
      rw [addTerm, if_neg (by rw [noSlash]; decide)]
    refine (parseParts_plain noFlag rest query textTerms).trans ?_
    rw [hTerm]
    rfl
  | slash w starts =>
    have hFlag : dashes.isPrefixOf w.val = false := by
      obtain ⟨text, hText⟩ := List.isPrefixOf_iff_prefix.mp starts
      rw [← hText]
      rfl
    have hTerm : addTerm textTerms w.val = textTerms ++ [] := by
      rw [addTerm, if_pos starts, List.append_nil]
    refine (parseParts_plain hFlag rest query textTerms).trans ?_
    rw [hTerm]
    rfl
  | room v =>
    have hSet : setFlag parseFloat query roomKey v.val =
        { query with roomId := String.ofList v.val } := if_pos rfl
    refine (parseParts_flag roomKey v.val rest query textTerms).trans ?_
    rw [hSet]
    exact congrArg (parseParts parseFloat rest _) (List.append_nil textTerms).symm
  | score key _ other x value accepted =>
    have hSet : setFlag parseFloat query key x.val =
        { query with filters := query.filters.insert (String.ofList key) value } := by
      rw [setFlag, if_neg other, accepted]
    refine (parseParts_flag key x.val rest query textTerms).trans ?_
    rw [hSet]
    exact congrArg (parseParts parseFloat rest _) (List.append_nil textTerms).symm

theorem parseParts_items (items : List (Item parseFloat)) (query : Query)
    (textTerms : List (List Char)) :
    parseParts parseFloat (items.flatMap Item.words) query textTerms =
      ({ query with
          roomId := latest Item.room? items query.roomId
          filters := query.filters.insertAll (items.filterMap Item.score?) },
        textTerms ++ items.filterMap Item.term?) := by
  induction items generalizing query textTerms with
  | nil =>
    rw [List.filterMap_nil, List.filterMap_nil, List.append_nil]
    rfl
  | cons item items ih =>
    rw [List.flatMap_cons, parseParts_item, ih, latest_cons, filterMap_cons_toList,
      filterMap_cons_toList, OrderedMap.insertAll_append, List.append_assoc]
    rfl

theorem newSearchQuery_eq {items : List (Item parseFloat)} {input : String}
    (h : Spaced isSpace (items.flatMap Item.words) input.toList) :
    newSearchQuery parseFloat input =
      { rawInput := input
        terms := String.ofList ([' '].intercalate (items.filterMap Item.term?))
        filters := OrderedMap.empty.insertAll (items.filterMap Item.score?)
        roomId := latest Item.room? items ""
        limit := 10 } := by
  have hWords : ∀ w ∈ items.flatMap Item.words, IsWord isSpace w := by
    intro w hw
    obtain ⟨item, _, hItem⟩ := List.mem_flatMap.mp hw
    exact item.isWord_of_mem hItem
  rw [newSearchQuery, fields_of_spaced h hWords, parseParts_items, List.nil_append]

/-- Reading a command gives back what was rendered, whatever the order of its
items and the white space between its words: the terms in order, the last room
and the last score of every key. -/
theorem newSearchQuery_reads_back {items : List (Item parseFloat)} {input : String}
    (h : Spaced isSpace (items.flatMap Item.words) input.toList) :
    (newSearchQuery parseFloat input).terms =
        String.ofList ([' '].intercalate (items.filterMap Item.term?)) ∧
      (newSearchQuery parseFloat input).roomId = latest Item.room? items "" ∧
      ∀ key, (newSearchQuery parseFloat input).filters.get? key =
        (last? Prod.fst (items.filterMap Item.score?) key).map Prod.snd := by
  rw [newSearchQuery_eq h]
  refine ⟨rfl, rfl, ?_⟩
  intro key
  rw [OrderedMap.get?_insertAll, OrderedMap.get?_empty, Option.or_none]

/-- The doubles of two scores. -/
def sampleFloat (s : String) : Option Float64 :=
  if s = "0.8" then some 0x3fe999999999999a
  else if s = "0.5" then some 0x3fe0000000000000
  else none

def findInvoice : List (Item sampleFloat) :=
  [.slash ⟨"/find".toList, isWord_of_all rfl⟩ rfl,
    .term ⟨"invoice".toList, isWord_of_all rfl⟩ rfl rfl,
    .score "business".toList (solid_of_all rfl) (by decide)
      ⟨"0.8".toList, isWord_of_all rfl⟩ _ rfl,
    .room ⟨"12".toList, isWord_of_all rfl⟩,
    .term ⟨"due".toList, isWord_of_all rfl⟩ rfl rfl,
    .score "business".toList (solid_of_all rfl) (by decide)
      ⟨"0.5".toList, isWord_of_all rfl⟩ _ rfl]

def findInput : String := "/find  invoice --business 0.8\t--room 12 due --business 0.5"

theorem newSearchQuery_invoice :
    (newSearchQuery sampleFloat findInput).terms = "invoice due" ∧
      (newSearchQuery sampleFloat findInput).roomId = "12" ∧
      (newSearchQuery sampleFloat findInput).filters.get? "business" =
        some 0x3fe0000000000000 := by
  have hText : findInput.toList =
      "/find".toList ++ ' ' :: ' ' :: ("invoice".toList ++ ' ' :: ("--business".toList ++ ' ' ::
        ("0.8".toList ++ '\t' :: ("--room".toList ++ ' ' :: ("12".toList ++ ' ' ::
          ("due".toList ++ ' ' :: ("--business".toList ++ ' ' :: "0.5".toList))))))) := by
    decide +kernel
  have hSpaced : Spaced isSpace (findInvoice.flatMap Item.words) findInput.toList := by
    rw [hText]
    exact .word rfl (.space rfl (.word rfl (.word rfl (.word rfl (.word rfl (.word rfl
      (.word rfl (.word rfl .last))))))))
  obtain ⟨hTerms, hRoom, hScores⟩ := newSearchQuery_reads_back hSpaced
  exact ⟨hTerms.trans (by decide +kernel), hRoom.trans (by decide +kernel),
    (hScores "business").trans (by decide +kernel)⟩

end ChatLab.Search

import ChatLab.Moderation.Disguise
import Mathlib.Data.List.Dedup

/-!
# The dictionaries

`LoadAll` reads every file of a folder line by line and gathers the trimmed
lines in a map; `prepareModeration` builds the moderator from its keys. A file
is the list of its runes, as the embedded ones are valid UTF-8. The scanner
gives up on a line that does not fit its buffer.

The order in which `range` visits the map is an argument. So is the automaton,
through what its search returns.
-/

namespace ChatLab.Runtime

open Foundation.PatternSearch Moderation

/-! ## Lines -/

abbrev Word := List Char

/-- The lines of a text after the runes of a begun one. The last line counts
only if it has a rune. -/
def rawLines (line : Word) : List Char → List Word
  | [] => if line = [] then [] else [line]
  | c :: rest => if c = '\n' then line :: rawLines [] rest else rawLines (line ++ [c]) rest

def dropCR (line : Word) : Word :=
  if line.getLast? = some '\r' then line.dropLast else line

/-- `bufio.MaxScanTokenSize`. -/
def maxTokenSize : Nat := 64 * 1024

def byteLength (line : Word) : Nat := (String.ofList line).utf8ByteSize

section Words

variable (u : Unicode)

/-- `strings.TrimSpace`. -/
def trimSpace (line : Word) : Word :=
  ((line.dropWhile u.isSpace).reverse.dropWhile u.isSpace).reverse

inductive LoadError
  | readDir (msg : String)
  | readFile (msg : String)
  | tooLong
  | emptyWords
deriving DecidableEq, Repr

def wordsIn (data : List Char) : List Word :=
  ((rawLines [] data).map fun line => trimSpace u (dropCR line)).filter fun w => w ≠ []

/-- The loop over the scanner. A line with its line feed has to fit the buffer. -/
def scanWords (data : List Char) : Except LoadError (List Word) :=
  if (rawLines [] data).any fun line => maxTokenSize ≤ byteLength line then .error .tooLong
  else .ok (wordsIn u data)

end Words

/-! ## `LoadAll` -/

structure DirEntry where
  name : String
  isDir : Bool
  content : Except String (List Char)

/-- `strings.TrimSuffix`. -/
def trimSuffix (s suffix : String) : String :=
  if suffix.toList.isSuffixOf s.toList then
    String.ofList (s.toList.take (s.toList.length - suffix.toList.length))
  else s

structure CensoredData where
  words : List Word
  languages : List String
deriving DecidableEq

section Load

variable (u : Unicode)

/-- The loop over the entries, with the languages and the words found. Every
file is read, whatever its name ends in. -/
def loadEntries : List DirEntry → Except LoadError (List String × List Word)
  | [] => .ok ([], [])
  | entry :: rest =>
    if entry.isDir then loadEntries rest
    else
      match entry.content with
      | .error msg => .error (.readFile msg)
      | .ok data =>
        match scanWords u data with
        | .error e => .error e
        | .ok words =>
          match loadEntries rest with
          | .error e => .error e
          | .ok (languages, more) =>
            .ok (trimSuffix entry.name ".txt" :: languages, words ++ more)

def loadAll (entries : Except String (List DirEntry)) (order : List Word → List Word) :
    Except LoadError CensoredData :=
  match entries with
  | .error msg => .error (.readDir msg)
  | .ok entries =>
    match loadEntries u entries with
    | .error e => .error e
    | .ok (languages, words) =>
      if words.dedup.length = 0 then .error .emptyWords
      else .ok { words := order words.dedup, languages := languages }

inductive PrepareError
  | load (e : LoadError)
  | moderator (e : ModeratorError)
deriving DecidableEq, Repr

def prepareModeration (build : List (List Char) → Except String Matcher) (charReplacement : Char)
    (entries : Except String (List DirEntry)) (order : List Word → List Word) :
    Except PrepareError Moderator :=
  match loadAll u entries order with
  | .error e => .error (.load e)
  | .ok data =>
    match newModerator u build data.words charReplacement with
    | .error e => .error (.moderator e)
    | .ok moderator => .ok moderator

end Load

/-! ## What the files say -/

def DirEntry.words (u : Unicode) (entry : DirEntry) : List Word :=
  if entry.isDir then []
  else
    match entry.content with
    | .error _ => []
    | .ok data => wordsIn u data

/-- The trimmed lines of all files that are not blank. -/
def dictionary (u : Unicode) (entries : List DirEntry) : List Word :=
  entries.flatMap (DirEntry.words u)

/-- The entry is a folder, or a file without an overlong line. -/
def DirEntry.Readable (entry : DirEntry) : Prop :=
  entry.isDir = true ∨ ∃ data, entry.content = .ok data ∧
    ∀ line ∈ rawLines [] data, byteLength line < maxTokenSize

section Loading

variable {u : Unicode}

theorem scanWords_eq_ok {data : List Char} {words : List Word} :
    scanWords u data = .ok words ↔
      words = wordsIn u data ∧ ∀ line ∈ rawLines [] data, byteLength line < maxTokenSize := by
  rw [scanWords]
  split
  · rename_i hLong
    obtain ⟨line, hLine, hSize⟩ := List.any_eq_true.mp hLong
    constructor
    · rintro ⟨⟩
    · rintro ⟨_, hFits⟩
      have hShort := hFits line hLine
      have hSize := of_decide_eq_true hSize
      omega
  · rename_i hFits
    constructor
    · intro h
      refine ⟨(Except.ok.inj h).symm, ?_⟩
      intro line hLine
      by_contra hLong
      exact hFits (List.any_eq_true.mpr ⟨line, hLine, decide_eq_true (Nat.le_of_not_lt hLong)⟩)
    · rintro ⟨rfl, _⟩
      rfl

/-- The loop ends without an error exactly if every entry is readable, and it
has then gathered the dictionary. -/
theorem loadEntries_eq_ok {entries : List DirEntry} {words : List Word} :
    (∃ languages, loadEntries u entries = .ok (languages, words)) ↔
      (∀ entry ∈ entries, entry.Readable) ∧ words = dictionary u entries := by
  induction entries generalizing words with
  | nil =>
    constructor
    · rintro ⟨languages, h⟩
      obtain ⟨_, rfl⟩ := Prod.mk.inj (Except.ok.inj h)
      exact ⟨fun _ h => absurd h List.not_mem_nil, rfl⟩
    · rintro ⟨_, rfl⟩
      exact ⟨[], rfl⟩
  | cons entry rest ih =>
    rw [List.forall_mem_cons, dictionary, List.flatMap_cons, ← dictionary]
    cases hDir : entry.isDir with
    | true =>
      have hNone : entry.words u = [] := by rw [DirEntry.words, if_pos hDir]
      have hReadable : entry.Readable := .inl hDir
      simp only [loadEntries, hDir, if_true, hNone, List.nil_append, hReadable, true_and, ih]
    | false =>
      cases hContent : entry.content with
      | error msg =>
        have hNot : ¬ entry.Readable := by
          rintro (hYes | ⟨data, hData, _⟩)
          · rw [hDir] at hYes
            cases hYes
          · rw [hContent] at hData
            cases hData
        simp [loadEntries, hDir, hContent, hNot]
      | ok data =>
        have hWords : entry.words u = wordsIn u data := by simp [DirEntry.words, hDir, hContent]
        have hReadable : entry.Readable ↔
            ∀ line ∈ rawLines [] data, byteLength line < maxTokenSize := by
          simp [DirEntry.Readable, hDir, hContent]
        rw [hWords, hReadable]
        simp only [loadEntries, hDir, hContent, Bool.false_eq_true, if_false]
        constructor
        · rintro ⟨languages, h⟩
          cases hScan : scanWords u data with
          | error e =>
            rw [hScan] at h
            cases h
          | ok found =>
            cases hRest : loadEntries u rest with
            | error e =>
              rw [hScan, hRest] at h
              cases h
            | ok loaded =>
              rw [hScan, hRest] at h
              obtain ⟨_, rfl⟩ := Prod.mk.inj (Except.ok.inj h)
              obtain ⟨rfl, hFits⟩ := scanWords_eq_ok.mp hScan
              obtain ⟨hRestReadable, hMore⟩ := ih.mp ⟨loaded.1, hRest⟩
              exact ⟨⟨hFits, hRestReadable⟩, by rw [hMore]⟩
        · rintro ⟨⟨hFits, hRest⟩, rfl⟩
          have hScan : scanWords u data = .ok (wordsIn u data) :=
            scanWords_eq_ok.mpr ⟨rfl, hFits⟩
          obtain ⟨languages, hLoad⟩ : ∃ languages,
              loadEntries u rest = .ok (languages, dictionary u rest) := ih.mpr ⟨hRest, rfl⟩
          rw [hScan, hLoad]
          exact ⟨_, rfl⟩

theorem loadAll_eq_ok {entries : List DirEntry} {order : List Word → List Word}
    {words : List Word} :
    (∃ languages, loadAll u (.ok entries) order =
        .ok { words := words, languages := languages }) ↔
      (∀ entry ∈ entries, entry.Readable) ∧ dictionary u entries ≠ [] ∧
        words = order (dictionary u entries).dedup := by
  constructor
  · rintro ⟨languages, h⟩
    simp only [loadAll] at h
    split at h
    · cases h
    · rename_i found gathered hLoad
      obtain ⟨hReadable, rfl⟩ := loadEntries_eq_ok.mp ⟨found, hLoad⟩
      split at h
      · cases h
      · rename_i hSome
        refine ⟨hReadable, ?_, ?_⟩
        · intro hNone
          rw [hNone] at hSome
          exact hSome rfl
        · exact (congrArg CensoredData.words (Except.ok.inj h)).symm
  · rintro ⟨hReadable, hSome, rfl⟩
    obtain ⟨languages, hLoad⟩ : ∃ languages,
        loadEntries u entries = .ok (languages, dictionary u entries) :=
      loadEntries_eq_ok.mpr ⟨hReadable, rfl⟩
    have hLength : ¬ (dictionary u entries).dedup.length = 0 := by
      rw [List.length_eq_zero_iff, List.dedup_eq_nil]
      exact hSome
    refine ⟨languages, ?_⟩
    simp only [loadAll, hLoad, if_neg hLength]

end Loading

/-! ## Line endings -/

/-- A text with the line ends of another system. -/
def toCRLF (data : List Char) : List Char :=
  data.flatMap fun c => if c = '\n' then ['\r', '\n'] else [c]

section Endings

variable {u : Unicode}

theorem trimSpace_append_space {c : Char} (hc : u.isSpace c = true) (line : Word) :
    trimSpace u (line ++ [c]) = trimSpace u line := by
  rw [trimSpace, List.dropWhile_append]
  split
  · rename_i hBlank
    rw [trimSpace, List.isEmpty_iff.mp hBlank]
    simp [hc]
  · rw [List.reverse_append, List.reverse_singleton, List.singleton_append,
      List.dropWhile_cons_of_pos hc, trimSpace]

theorem trimSpace_dropCR (hCR : u.isSpace '\r' = true) (line : Word) :
    trimSpace u (dropCR line) = trimSpace u line := by
  rw [dropCR]
  split
  · rename_i hLast
    obtain ⟨rest, rfl⟩ := List.getLast?_eq_some_iff.mp hLast
    rw [List.dropLast_concat, trimSpace_append_space hCR]
  · rfl

theorem rawLines_toCRLF (hCR : u.isSpace '\r' = true) (data : List Char) (line : Word) :
    (rawLines line (toCRLF data)).map (trimSpace u) = (rawLines line data).map (trimSpace u) := by
  induction data generalizing line with
  | nil => rfl
  | cons c rest ih =>
    rw [toCRLF, List.flatMap_cons, ← toCRLF]
    by_cases hc : c = '\n'
    · subst hc
      have hOther : ¬ '\r' = '\n' := by decide
      simp only [if_true, List.cons_append, List.nil_append, rawLines, if_neg hOther, List.map_cons]
      rw [trimSpace_append_space hCR, ih]
    · simp only [if_neg hc, List.singleton_append, rawLines, ih]

theorem wordsIn_toCRLF (hCR : u.isSpace '\r' = true) (data : List Char) :
    wordsIn u (toCRLF data) = wordsIn u data := by
  simp only [wordsIn, trimSpace_dropCR hCR]
  exact congrArg (List.filter fun w => w ≠ []) (rawLines_toCRLF hCR data [])

end Endings

/-! ## From the files to the moderator -/

section Moderator

variable {u : Unicode} {build : List (List Char) → Except String Matcher} {c : Char}
  {order : List Word → List Word}

/-- Which patterns there are depends on which words there are. -/
theorem mem_patternsOf_congr {words others : List Word} (h : ∀ w, w ∈ words ↔ w ∈ others)
    (pattern : List Char) : pattern ∈ patternsOf u words ↔ pattern ∈ patternsOf u others := by
  simp only [patternsOf, List.mem_filter, List.mem_map, h]

theorem covered_congr {patterns others : List (List Char)}
    (h : ∀ w, w ∈ patterns ↔ w ∈ others) (mapping : TextMapping) (i : Nat) :
    Covered patterns mapping i ↔ Covered others mapping i := by
  simp only [Covered, h]

theorem patternsOf_eq_nil {words : List Word} :
    patternsOf u words = [] ↔ ∀ w ∈ words, normalizeRunes u w = [] := by
  simp [patternsOf, List.filter_eq_nil_iff]

theorem prepareModeration_eq_ok {entries : List DirEntry} {m : Moderator} :
    prepareModeration u build c (.ok entries) order = .ok m ↔
      (∀ entry ∈ entries, entry.Readable) ∧ dictionary u entries ≠ [] ∧
        newModerator u build (order (dictionary u entries).dedup) c = .ok m := by
  constructor
  · intro h
    unfold prepareModeration at h
    split at h
    · cases h
    · rename_i data hLoad
      obtain ⟨hReadable, hSome, hWords⟩ := loadAll_eq_ok.mp ⟨data.languages, hLoad⟩
      split at h
      · cases h
      · rename_i hNew
        rw [hWords, Except.ok.inj h] at hNew
        exact ⟨hReadable, hSome, hNew⟩
  · rintro ⟨hReadable, hSome, hNew⟩
    obtain ⟨languages, hLoad⟩ : ∃ languages, loadAll u (.ok entries) order =
        .ok { words := order (dictionary u entries).dedup, languages := languages } :=
      loadAll_eq_ok.mpr ⟨hReadable, hSome, rfl⟩
    simp only [prepareModeration, hLoad, hNew]

theorem exists_newModerator_iff
    (hBuilds : ∀ patterns, patterns ≠ [] → [] ∉ patterns → ∃ matcher, build patterns = .ok matcher)
    (words : List Word) :
    (∃ m, newModerator u build words c = .ok m) ↔ ∃ w ∈ words, normalizeRunes u w ≠ [] := by
  have hPatterns : patternsOf u words ≠ [] ↔ ∃ w ∈ words, normalizeRunes u w ≠ [] := by
    simp [patternsOf_eq_nil]
  rw [← hPatterns]
  simp only [newModerator, List.length_eq_zero_iff]
  constructor
  · rintro ⟨m, h⟩ hNone
    rw [if_pos hNone] at h
    cases h
  · intro hSome
    obtain ⟨matcher, hMatcher⟩ := hBuilds _ hSome (nil_notMem_patternsOf u words)
    rw [if_neg hSome, hMatcher]
    exact ⟨_, rfl⟩

/-- What a prepared moderator paints, in terms of the files. -/
theorem censor_prepared
    (hBuild : ∀ patterns matcher, build patterns = .ok matcher → matcher.Exact patterns)
    (hOrder : ∀ words, (order words).Perm words) {entries : List DirEntry} {m : Moderator}
    (h : prepareModeration u build c (.ok entries) order = .ok m) (text : List Char) :
    (m.censor u text).map Prod.fst =
      some (repaint (fun i =>
        decide (Covered (patternsOf u (dictionary u entries)) (normalize u text) i)) c text) := by
  obtain ⟨_, _, hNew⟩ := prepareModeration_eq_ok.mp h
  obtain ⟨hMatcher, rfl⟩ := newModerator_ok hNew
  have hWords : ∀ w, w ∈ order (dictionary u entries).dedup ↔ w ∈ dictionary u entries := by
    intro w
    rw [(hOrder _).mem_iff, List.mem_dedup]
  rw [censor_eq (hBuild _ _ hMatcher) (nil_notMem_patternsOf u _) text, Option.map_some]
  dsimp only
  refine congrArg some (repaint_congr _ _ ?_)
  intro i
  exact decide_eq_decide.mpr (covered_congr (mem_patternsOf_congr hWords) _ i)

end Moderator

/-- The moderator that the master starts with, from the files of its folder. It
can be built exactly if every file can be read and some line has a rune that is
not noise. It paints the runes of a message that an occurrence of a line covers
and no others, so that two folders with the same lines moderate alike, whatever
their files, their order, their line ends and the order of the map. -/
theorem dictionary_masks {u : Unicode} {build : List (List Char) → Except String Matcher}
    (hBuilds : ∀ patterns, patterns ≠ [] → [] ∉ patterns → ∃ matcher, build patterns = .ok matcher)
    (hBuild : ∀ patterns matcher, build patterns = .ok matcher → matcher.Exact patterns)
    (hCR : u.isSpace '\r' = true) {order order' : List Word → List Word}
    (hOrder : ∀ words, (order words).Perm words) (hOrder' : ∀ words, (order' words).Perm words)
    (c : Char) (entries : List DirEntry) :
    ((∃ m, prepareModeration u build c (.ok entries) order = .ok m) ↔
      (∀ entry ∈ entries, entry.Readable) ∧
        ∃ w ∈ dictionary u entries, normalizeRunes u w ≠ []) ∧
    (∀ m, prepareModeration u build c (.ok entries) order = .ok m → ∀ text,
      (m.censor u text).map Prod.fst =
        some (repaint (fun i =>
          decide (Covered (patternsOf u (dictionary u entries)) (normalize u text) i)) c text)) ∧
    (∀ entries' m m', (∀ w, w ∈ dictionary u entries' ↔ w ∈ dictionary u entries) →
      prepareModeration u build c (.ok entries) order = .ok m →
      prepareModeration u build c (.ok entries') order' = .ok m' → ∀ text,
        (m'.censor u text).map Prod.fst = (m.censor u text).map Prod.fst) ∧
    dictionary u (entries.map fun entry =>
      { entry with content := entry.content.map toCRLF }) = dictionary u entries := by
  refine ⟨?_, fun m h text => censor_prepared hBuild hOrder h text, ?_, ?_⟩
  · constructor
    · rintro ⟨m, h⟩
      obtain ⟨hReadable, _, hNew⟩ := prepareModeration_eq_ok.mp h
      obtain ⟨w, hw, hRune⟩ := (exists_newModerator_iff hBuilds _).mp ⟨m, hNew⟩
      rw [(hOrder _).mem_iff, List.mem_dedup] at hw
      exact ⟨hReadable, w, hw, hRune⟩
    · rintro ⟨hReadable, w, hw, hRune⟩
      have hw' : w ∈ order (dictionary u entries).dedup := by
        rw [(hOrder _).mem_iff, List.mem_dedup]
        exact hw
      obtain ⟨m, hNew⟩ := (exists_newModerator_iff hBuilds _).mpr ⟨w, hw', hRune⟩
      exact ⟨m, prepareModeration_eq_ok.mpr ⟨hReadable, List.ne_nil_of_mem hw, hNew⟩⟩
  · intro entries' m m' hSame h h' text
    rw [censor_prepared hBuild hOrder h, censor_prepared hBuild hOrder' h']
    refine congrArg some (repaint_congr _ _ ?_)
    intro i
    exact decide_eq_decide.mpr (covered_congr (mem_patternsOf_congr hSame) _ i)
  · rw [dictionary, List.flatMap_map]
    apply List.flatMap_congr
    intro entry _
    simp only [DirEntry.words]
    cases entry.content with
    | error msg => rfl
    | ok data => simp only [Except.map, wordsIn_toCRLF hCR]

/-! Two folders with the same two words, one of them with other line ends. -/

theorem naiveBuild_builds : ∀ patterns, patterns ≠ [] → [] ∉ patterns →
    ∃ matcher, naiveBuild patterns = .ok matcher := by
  intro patterns hSome hProper
  rw [naiveBuild, if_neg hSome, if_neg hProper]
  exact ⟨_, rfl⟩

def unixFolder : List DirEntry :=
  [{ name := "en.txt", isDir := false, content := .ok "snake\n\n  badger \nsnake".toList },
    { name := "old", isDir := true, content := .error "is a directory" }]

def mixedFolder : List DirEntry :=
  [{ name := "a.txt", isDir := false, content := .ok "badger\r\n".toList },
    { name := "README", isDir := false, content := .ok " snake\r\n\r\n".toList }]

theorem dictionary_masks_mixed :
    ∃ m m', prepareModeration ascii naiveBuild '*' (.ok unixFolder) id = .ok m ∧
      prepareModeration ascii naiveBuild '*' (.ok mixedFolder) List.reverse = .ok m' ∧
      ∀ text, (m'.censor ascii text).map Prod.fst = (m.censor ascii text).map Prod.fst := by
  have hUnix : dictionary ascii unixFolder =
      ["snake".toList, "badger".toList, "snake".toList] := by decide +kernel
  have hMixed : dictionary ascii mixedFolder = ["badger".toList, "snake".toList] := by
    decide +kernel
  have hSame : ∀ w, w ∈ dictionary ascii mixedFolder ↔ w ∈ dictionary ascii unixFolder := by
    intro w
    rw [hUnix, hMixed]
    simp only [List.mem_cons, List.not_mem_nil, or_false]
    tauto
  have hCR : ascii.isSpace '\r' = true := by decide
  obtain ⟨_, _, hAlike, _⟩ := dictionary_masks naiveBuild_builds
    (fun _ _ => naiveBuild_exact) hCR (fun words => .refl words)
    (fun words => List.reverse_perm words) '*' unixFolder
  exact ⟨_, _, rfl, rfl, hAlike mixedFolder _ _ hSame rfl rfl⟩

end ChatLab.Runtime

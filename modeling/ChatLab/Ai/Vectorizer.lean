import Mathlib.Data.List.Count
import Mathlib.Data.List.Nodup
import Mathlib.Data.Nat.Bitwise

/-!
# Text vectors for training and for inference

The model is trained by a script on the vectors of `manual_vectorizer` and
asked by the server with the vectors of `Features`. Both hash the words of a
text to positions. They differ in the size, in the characters that are dropped
and in the weight of a word that occurs again.

Texts are ASCII. The components are whole numbers, written as `Nat`: adding
one to a double stops at `2 ^ 53`. An `int` of the server has 64 bits.
-/

namespace ChatLab.Ai

structure AsciiText where
  chars : List Char
  ascii : ∀ c ∈ chars, c.toNat < 128

theorem ascii_of_all {chars : List Char} (h : (chars.all fun c => decide (c.toNat < 128)) = true) :
    ∀ c ∈ chars, c.toNat < 128 :=
  fun c hMem => of_decide_eq_true (List.all_eq_true.mp h c hMem)

/-- Words between runs of characters that count as space. -/
def splitFields (isSpace : Char → Bool) (text : List Char) : List (List Char) :=
  (text.splitOnP isSpace).filter (· ≠ [])

def bytesOf (word : List Char) : List UInt8 := word.flatMap String.utf8EncodeChar

/-! ## The server -/

def vectorSize : Nat := 4096

structure Vectorizer where
  size : Nat

/-- The ASCII characters of `unicode.IsSpace`. -/
def goSpaces : List Char := ['\t', '\n', '\x0b', '\x0c', '\r', ' ']

/-- The state of `fnv.New32a` after the bytes. -/
def sum32 (bytes : List UInt8) : UInt32 :=
  bytes.foldl (fun hash c => (hash ^^^ c.toUInt32) * 16777619) 2166136261

def Vectorizer.words (text : AsciiText) : List (List Char) :=
  splitFields (· ∈ goSpaces) (text.chars.map Char.toLower)

def Vectorizer.index (v : Vectorizer) (w : List Char) : Nat := (sum32 (bytesOf w)).toNat % v.size

def Vectorizer.features (v : Vectorizer) (text : AsciiText) : List Nat :=
  (words text).foldl (fun vec w => vec.set (v.index w) 1) (List.replicate v.size 0)

/-! ## The training script -/

def trainingSize : Nat := 1024

/-- The ASCII characters of `str.isspace`. -/
def pySpaces : List Char :=
  ['\t', '\n', '\x0b', '\x0c', '\r', '\x1c', '\x1d', '\x1e', '\x1f', ' ']

def punctuation : List Char := "!\"#$%&'()*+,-./:;<=>?@[\\]^_`\x7b|\x7d~".toList

def fnv1a32 (data : List Char) : Nat :=
  (bytesOf data).foldl
    (fun hashVal byte => ((hashVal ^^^ byte.toNat) * 0x01000193) &&& 0xFFFFFFFF) 0x811c9dc5

def manualWords (text : AsciiText) : List (List Char) :=
  let t := punctuation.foldl (fun t char => t.filter (· ≠ char)) (text.chars.map Char.toLower)
  splitFields (· ∈ pySpaces) t

/-- A double after `+= 1.0`. -/
def addOne (n : Nat) : Nat := min (n + 1) (2 ^ 53)

/-- The row of one text. -/
def manualRow (size : Nat) (text : AsciiText) : List Nat :=
  (manualWords text).foldl (fun vec w => vec.modify (fnv1a32 w % size) addOne)
    (List.replicate size 0)

def manualVectorizer (texts : List AsciiText) (size : Nat) : List (List Nat) :=
  texts.map (manualRow size)

/-! ## One hash -/

theorem fnv1a_step (hash : UInt32) (c : UInt8) :
    ((hash ^^^ c.toUInt32) * 16777619).toNat =
      ((hash.toNat ^^^ c.toNat) * 0x01000193) &&& 0xFFFFFFFF := by
  have hMask : ((hash.toNat ^^^ c.toNat) * 0x01000193) &&& 0xFFFFFFFF =
      (hash.toNat ^^^ c.toNat) * 0x01000193 % 2 ^ 32 :=
    Nat.and_two_pow_sub_one_eq_mod _ 32
  rw [hMask, UInt32.toNat_mul, UInt32.toNat_xor, UInt8.toNat_toUInt32]
  rfl

theorem fnv1a32_eq (w : List Char) : fnv1a32 w = (sum32 (bytesOf w)).toNat := by
  have hFold : ∀ (bytes : List UInt8) (hash : UInt32),
      bytes.foldl (fun h b => ((h ^^^ b.toNat) * 0x01000193) &&& 0xFFFFFFFF) hash.toNat =
        (bytes.foldl (fun h c => (h ^^^ c.toUInt32) * 16777619) hash).toNat := by
    intro bytes
    induction bytes with
    | nil => exact fun _ => rfl
    | cons b bytes ih =>
      intro hash
      rw [List.foldl_cons, List.foldl_cons, ← fnv1a_step]
      exact ih _
  exact hFold (bytesOf w) 2166136261

/-! ## Weights -/

theorem length_foldl_set (size : Nat) (indices vec : List Nat) (h : vec.length = size) :
    (indices.foldl (fun vec i => vec.set i 1) vec).length = size := by
  induction indices generalizing vec with
  | nil => exact h
  | cons i indices ih => exact ih _ (List.length_set.trans h)

theorem length_foldl_modify (size : Nat) (indices vec : List Nat) (h : vec.length = size) :
    (indices.foldl (fun vec i => vec.modify i addOne) vec).length = size := by
  induction indices generalizing vec with
  | nil => exact h
  | cons i indices ih => exact ih _ ((List.length_modify _ _ _).trans h)

/-- Marking: the weight is one where a word was hashed to. -/
theorem getElem?_foldl_set (indices vec : List Nat) (j : Nat) :
    (indices.foldl (fun vec i => vec.set i 1) vec)[j]? =
      vec[j]?.map fun n => if j ∈ indices then 1 else n := by
  induction indices generalizing vec with
  | nil => simp
  | cons i indices ih =>
    rw [List.foldl_cons, ih, List.getElem?_set]
    by_cases hij : i = j
    · subst hij
      by_cases hLength : i < vec.length
      · simp [hLength]
      · simp [hLength]
    · have hji : j ≠ i := Ne.symm hij
      simp [hij, hji]

/-- Counting: the weight is the number of words hashed to the place. -/
theorem getElem?_foldl_modify (indices vec : List Nat) (j : Nat)
    (hSmall : ∀ n ∈ vec, n ≤ 2 ^ 53) :
    (indices.foldl (fun vec i => vec.modify i addOne) vec)[j]? =
      vec[j]?.map fun n => min (n + indices.count j) (2 ^ 53) := by
  induction indices generalizing vec with
  | nil =>
    rw [List.foldl_nil]
    cases h : vec[j]? with
    | none => rfl
    | some n =>
      have hn := hSmall n (List.mem_of_getElem? h)
      rw [Option.map_some, List.count_nil, Nat.add_zero, Nat.min_eq_left hn]
  | cons i indices ih =>
    have hNext : ∀ n ∈ vec.modify i addOne, n ≤ 2 ^ 53 := by
      intro n hn
      obtain ⟨k, hk⟩ := List.mem_iff_getElem?.mp hn
      rw [List.getElem?_modify] at hk
      obtain ⟨m, hm, hEq⟩ := Option.map_eq_some_iff.mp hk
      have hBound := hSmall m (List.mem_of_getElem? hm)
      split at hEq
      · rw [← hEq, addOne]
        exact Nat.min_le_right _ _
      · exact hEq ▸ hBound
    rw [List.foldl_cons, ih _ hNext, List.getElem?_modify, Option.map_eq_map, Option.map_map]
    congr 1
    funext n
    by_cases hij : i = j
    · subst hij
      simp only [Function.comp_apply, if_true, addOne, List.count_cons_self]
      omega
    · simp [hij]

section Row

variable {size j : Nat} {text : AsciiText}

def goIndices (size : Nat) (text : AsciiText) : List Nat :=
  (Vectorizer.words text).map (Vectorizer.index { size := size })

def pyIndices (size : Nat) (text : AsciiText) : List Nat :=
  (manualWords text).map fun w => fnv1a32 w % size

theorem features_eq (v : Vectorizer) (text : AsciiText) :
    v.features text =
      (goIndices v.size text).foldl (fun vec i => vec.set i 1) (List.replicate v.size 0) := by
  rw [Vectorizer.features, goIndices, List.foldl_map]

theorem manualRow_eq (size : Nat) (text : AsciiText) :
    manualRow size text =
      (pyIndices size text).foldl (fun vec i => vec.modify i addOne) (List.replicate size 0) := by
  rw [manualRow, pyIndices, List.foldl_map]

theorem length_features (v : Vectorizer) (text : AsciiText) :
    (v.features text).length = v.size := by
  rw [features_eq]
  exact length_foldl_set _ _ _ List.length_replicate

theorem length_manualRow (size : Nat) (text : AsciiText) :
    (manualRow size text).length = size := by
  rw [manualRow_eq]
  exact length_foldl_modify _ _ _ List.length_replicate

theorem getElem?_features (hj : j < size) :
    (Vectorizer.features { size := size } text)[j]? =
      some (if j ∈ goIndices size text then 1 else 0) := by
  rw [features_eq, getElem?_foldl_set, List.getElem?_replicate, if_pos hj]
  rfl

theorem getElem?_manualRow (hj : j < size) :
    (manualRow size text)[j]? = some (min ((pyIndices size text).count j) (2 ^ 53)) := by
  have hSmall : ∀ n ∈ List.replicate size 0, n ≤ 2 ^ 53 := by
    intro n hn
    rw [(List.mem_replicate.mp hn).2]
    exact Nat.zero_le _
  rw [manualRow_eq, getElem?_foldl_modify _ _ _ hSmall, List.getElem?_replicate, if_pos hj,
    Option.map_some, Nat.zero_add]

theorem features_eq_manualRow_iff_weights :
    Vectorizer.features { size := size } text = manualRow size text ↔
      ∀ j < size, (if j ∈ goIndices size text then 1 else 0) =
        min ((pyIndices size text).count j) (2 ^ 53) := by
  constructor
  · intro hEq j hj
    have hSome : (Vectorizer.features { size := size } text)[j]? = _ := getElem?_features hj
    rw [hEq, getElem?_manualRow hj] at hSome
    exact (Option.some.inj hSome).symm
  · intro hWeights
    refine List.ext_getElem? ?_
    intro j
    by_cases hj : j < size
    · rw [getElem?_features hj, getElem?_manualRow hj, hWeights j hj]
    · have hOut : size ≤ j := Nat.le_of_not_lt hj
      rw [List.getElem?_eq_none (by rw [length_features]; exact hOut),
        List.getElem?_eq_none (by rw [length_manualRow]; exact hOut)]

/-- A capped count is the indicator of another list exactly when nothing occurs
twice and the two have the same elements. -/
theorem weights_iff {go py : List Nat} (hGo : ∀ j ∈ go, j < size) (hPy : ∀ j ∈ py, j < size) :
    (∀ j < size, (if j ∈ go then 1 else 0) = min (py.count j) (2 ^ 53)) ↔
      py.Nodup ∧ ∀ j, j ∈ go ↔ j ∈ py := by
  constructor
  · intro hWeights
    constructor
    · rw [List.nodup_iff_count_le_one]
      intro j
      by_cases hj : j < size
      · have hWeight := hWeights j hj
        split at hWeight
        · omega
        · omega
      · rw [List.count_eq_zero_of_not_mem fun hMem => hj (hPy j hMem)]
        exact Nat.zero_le 1
    · intro j
      constructor
      · intro hMem
        have hWeight := hWeights j (hGo j hMem)
        rw [if_pos hMem] at hWeight
        exact List.count_pos_iff.mp (by omega)
      · intro hMem
        have hWeight := hWeights j (hPy j hMem)
        have hPos := List.count_pos_iff.mpr hMem
        by_contra hNot
        rw [if_neg hNot] at hWeight
        omega
  · rintro ⟨hNodup, hSame⟩ j _
    have hOnce := List.nodup_iff_count_le_one.mp hNodup j
    by_cases hMem : j ∈ go
    · have hPos := List.count_pos_iff.mpr ((hSame j).mp hMem)
      have hCount : py.count j = 1 := Nat.le_antisymm hOnce hPos
      rw [if_pos hMem, hCount, Nat.min_eq_left (by decide)]
    · have hZero := List.count_eq_zero_of_not_mem fun h => hMem ((hSame j).mpr h)
      rw [if_neg hMem, hZero, Nat.zero_min]

/-- At one size the rows are equal exactly when the words of the script fall on
different places, and on those of the server's words. -/
theorem features_eq_manualRow_iff (hSize : 0 < size) :
    Vectorizer.features { size := size } text = manualRow size text ↔
      (pyIndices size text).Nodup ∧
        ∀ j, j ∈ goIndices size text ↔ j ∈ pyIndices size text := by
  rw [features_eq_manualRow_iff_weights]
  apply weights_iff
  · intro j hj
    obtain ⟨w, _, rfl⟩ := List.mem_map.mp hj
    exact Nat.mod_lt _ hSize
  · intro j hj
    obtain ⟨w, _, rfl⟩ := List.mem_map.mp hj
    exact Nat.mod_lt _ hSize

end Row

/-! ## Plain texts -/

/-- A character that both sides treat alike. -/
def PlainChar (c : Char) : Prop := c ∉ punctuation ∧ (c ∈ pySpaces ↔ c ∈ goSpaces)

instance (c : Char) : Decidable (PlainChar c) :=
  inferInstanceAs (Decidable (c ∉ punctuation ∧ (c ∈ pySpaces ↔ c ∈ goSpaces)))

def AsciiText.Plain (text : AsciiText) : Prop := ∀ c ∈ text.chars, PlainChar c

theorem plainChar_toLower {c : Char} (h : PlainChar c) : PlainChar c.toLower := by
  by_cases hUpper : 65 ≤ c.val ∧ c.val ≤ 90
  · have hAll : ∀ n < 26, PlainChar (Char.ofNat (65 + n)).toLower := by decide +kernel
    have hLow : 65 ≤ c.toNat := UInt32.le_iff_toNat_le.mp hUpper.1
    have hHigh : c.toNat ≤ 90 := UInt32.le_iff_toNat_le.mp hUpper.2
    have hChar := hAll (c.toNat - 65) (by omega)
    rwa [Nat.add_sub_cancel' hLow, Char.ofNat_toNat] at hChar
  · have hSame : c.toLower = c := dif_neg hUpper
    rwa [hSame]

theorem foldl_filter_ne (chars t : List Char) :
    chars.foldl (fun t char => t.filter (· ≠ char)) t = t.filter (· ∉ chars) := by
  induction chars generalizing t with
  | nil => simp
  | cons char chars ih =>
    rw [List.foldl_cons, ih, List.filter_filter]
    refine List.filter_congr ?_
    intro c _
    simp [Bool.and_comm]

theorem splitOnP_congr {p q : Char → Bool} {text : List Char} (h : ∀ c ∈ text, p c = q c) :
    text.splitOnP p = text.splitOnP q := by
  induction text with
  | nil => rfl
  | cons c text ih =>
    have hRest := ih fun c' hMem => h c' (List.mem_cons_of_mem _ hMem)
    rw [List.splitOnP_cons_eq_if_modifyHead, List.splitOnP_cons_eq_if_modifyHead,
      h c List.mem_cons_self, hRest]

theorem manualWords_eq_of_plain {text : AsciiText} (h : text.Plain) :
    manualWords text = Vectorizer.words text := by
  have hLower : ∀ c ∈ text.chars.map Char.toLower, PlainChar c := by
    intro c hMem
    obtain ⟨d, hd, rfl⟩ := List.mem_map.mp hMem
    exact plainChar_toLower (h d hd)
  have hKept : (text.chars.map Char.toLower).filter (· ∉ punctuation) =
      text.chars.map Char.toLower :=
    List.filter_eq_self.mpr fun c hMem => decide_eq_true (hLower c hMem).1
  have hSplit : (text.chars.map Char.toLower).splitOnP (· ∈ pySpaces) =
      (text.chars.map Char.toLower).splitOnP (· ∈ goSpaces) :=
    splitOnP_congr fun c hMem => decide_eq_decide.mpr (hLower c hMem).2
  simp only [manualWords, Vectorizer.words, splitFields, foldl_filter_ne, hKept, hSplit]

/-- On a plain text both sides hash the same words to the same places. -/
theorem pyIndices_eq_of_plain {text : AsciiText} (h : text.Plain) (size : Nat) :
    pyIndices size text = goIndices size text := by
  rw [pyIndices, goIndices, manualWords_eq_of_plain h]
  refine List.map_congr_left ?_
  intro w _
  rw [fnv1a32_eq]
  rfl

theorem features_eq_manualRow_iff_of_plain {size : Nat} {text : AsciiText} (h : text.Plain)
    (hSize : 0 < size) :
    Vectorizer.features { size := size } text = manualRow size text ↔
      (goIndices size text).Nodup := by
  rw [features_eq_manualRow_iff hSize, pyIndices_eq_of_plain h]
  exact and_iff_left fun _ => Iff.rfl

/-! ## The two sizes -/

/-- The vector of the server is never a row of the training matrix: the sizes
differ. With one size the two would agree on a plain text exactly when no two of
its words share a place, and on any text exactly when moreover the characters
that only one side drops or splits at do not change the places. -/
theorem features_never_trained (text : AsciiText) :
    (Vectorizer.features { size := vectorSize } text).length = 4096 ∧
    (∀ row ∈ manualVectorizer [text] trainingSize, row.length = 1024 ∧
      Vectorizer.features { size := vectorSize } text ≠ row) ∧
    ∀ size, 0 < size →
      (Vectorizer.features { size := size } text = manualRow size text ↔
        (pyIndices size text).Nodup ∧
          ∀ j, j ∈ goIndices size text ↔ j ∈ pyIndices size text) ∧
      (text.Plain →
        (Vectorizer.features { size := size } text = manualRow size text ↔
          (goIndices size text).Nodup)) := by
  have hGo := length_features { size := vectorSize } text
  refine ⟨hGo, ?_, ?_⟩
  · intro row hRow
    have hEq : row = manualRow trainingSize text := List.mem_singleton.mp hRow
    have hPy : row.length = 1024 := hEq ▸ length_manualRow trainingSize text
    refine ⟨hPy, ?_⟩
    intro hSame
    rw [hSame, hPy] at hGo
    exact absurd hGo (by decide)
  · intro size hSize
    exact ⟨features_eq_manualRow_iff hSize, fun h => features_eq_manualRow_iff_of_plain h hSize⟩

def nazeText : AsciiText where
  chars := "naze".toList
  ascii := ascii_of_all (by decide)

theorem features_never_trained_naze :
    Vectorizer.features { size := vectorSize } nazeText ≠ manualRow trainingSize nazeText ∧
      Vectorizer.features { size := 16 } nazeText = manualRow 16 nazeText := by
  obtain ⟨_, hRows, hSizes⟩ := features_never_trained nazeText
  have hPlain : nazeText.Plain := by
    intro c hMem
    have hAll : nazeText.chars.all fun c => decide (PlainChar c) := by decide +kernel
    exact of_decide_eq_true (List.all_eq_true.mp hAll c hMem)
  have hApart : (goIndices 16 nazeText).Nodup := by decide +kernel
  exact ⟨(hRows _ List.mem_cons_self).2, ((hSizes 16 (by decide)).2 hPlain).mpr hApart⟩

/-- The vectors of one word have 4096 and 1024 components. -/
theorem features_length_of_naze :
    (Vectorizer.features { size := vectorSize } nazeText).length ≠
      (manualRow trainingSize nazeText).length := by
  rw [length_features, length_manualRow]
  decide

def repeatedText : AsciiText where
  chars := "No no".toList
  ascii := ascii_of_all (by decide)

def dashedText : AsciiText where
  chars := "a-b".toList
  ascii := ascii_of_all (by decide)

-- at one size a repeated word weighs one against two, and a dash splits the hashes
example : Vectorizer.features { size := 8 } repeatedText = [0, 0, 1, 0, 0, 0, 0, 0] ∧
    manualRow 8 repeatedText = [0, 0, 2, 0, 0, 0, 0, 0] := by decide +kernel

example : Vectorizer.features { size := 8 } dashedText ≠ manualRow 8 dashedText := by
  decide +kernel

end ChatLab.Ai

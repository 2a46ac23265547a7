import ChatLab.Moderation.Moderator

/-!
# What `Censor` paints

The runes painted are those between the first and the last original rune of
an occurrence of a pattern in the normalized text, whatever overlaps there
are and in whatever order the automaton reports them.
-/

namespace ChatLab.Moderation

open Foundation.PatternSearch

/-! ## The normalized text -/

section Normalize

variable (u : Unicode)

def clean (r : Char) : Option Char :=
  if isNoise u r then none else some (u.toLower (simplifyRune r))

theorem normalizeFrom_eq (i : Nat) (input : List Char) :
    normalizeFrom u i input =
      { normalized := input.filterMap (clean u), origIdx := positions (clean u) i input } := by
  induction input generalizing i with
  | nil => rfl
  | cons r input ih =>
    rw [normalizeFrom, ih, positions]
    by_cases hNoise : isNoise u r = true
    · have hClean : clean u r = none := if_pos hNoise
      simp only [hNoise, hClean, List.filterMap_cons, if_true]
    · have hClean : clean u r = some (u.toLower (simplifyRune r)) := if_neg hNoise
      simp only [hNoise, hClean, List.filterMap_cons]
      rfl

@[simp] theorem normalize_normalized (input : List Char) :
    (normalize u input).normalized = input.filterMap (clean u) := by
  rw [normalize, normalizeFrom_eq]

@[simp] theorem normalize_origIdx (input : List Char) :
    (normalize u input).origIdx = positions (clean u) 0 input := by
  rw [normalize, normalizeFrom_eq]

theorem nil_notMem_patternsOf (censoredWords : List (List Char)) :
    [] ∉ patternsOf u censoredWords := by
  intro h
  have hLength := (List.mem_filter.mp h).2
  cases hLength

end Normalize

/-- Position `i` of the original text lies between the first and the last
original rune of an occurrence. -/
def Covered (patterns : List (List Char)) (mapping : TextMapping) (i : Nat) : Prop :=
  ∃ p < mapping.normalized.length, ∃ w ∈ patterns, OccursAt mapping.normalized w p ∧
    ∃ a ∈ mapping.origIdx[p]?, ∃ b ∈ mapping.origIdx[p + w.length - 1]?, a ≤ i ∧ i ≤ b

instance (patterns : List (List Char)) (mapping : TextMapping) (i : Nat) :
    Decidable (Covered patterns mapping i) := by
  unfold Covered
  infer_instance

/-- The search of the automaton returns each occurrence of each pattern once,
with its start. -/
structure Matcher.Exact (m : Matcher) (patterns : List (List Char)) : Prop where
  nodup : ∀ text, (m.multiPatternSearch text).Nodup
  mem_iff : ∀ text t, t ∈ m.multiPatternSearch text ↔
    ∃ p : Nat, t.pos = p ∧ t.word ∈ patterns ∧ OccursAt text t.word p

def termOf (o : Nat × List Char) : Term := { pos := o.1, word := o.2 }

theorem termOf_injective : Function.Injective termOf := by
  rintro ⟨p, v⟩ ⟨q, w⟩ hSame
  obtain ⟨hPos, hWord⟩ := Term.mk.inj hSame
  exact Prod.ext (Int.ofNat.inj hPos) hWord

theorem mem_map_termOf {patterns : List (List Char)} (hPatterns : [] ∉ patterns)
    {text : List Char} {t : Term} :
    t ∈ (occurrences patterns text).map termOf ↔
      ∃ p : Nat, t.pos = p ∧ t.word ∈ patterns ∧ OccursAt text t.word p := by
  rw [List.mem_map]
  constructor
  · rintro ⟨⟨p, w⟩, ho, rfl⟩
    exact ⟨p, rfl, (mem_occurrences hPatterns).mp ho⟩
  · rintro ⟨p, hPos, hw⟩
    refine ⟨(p, t.word), (mem_occurrences hPatterns).mpr hw, ?_⟩
    rw [termOf, ← hPos]

theorem Matcher.Exact.perm {m : Matcher} {patterns : List (List Char)} (h : m.Exact patterns)
    (hPatterns : [] ∉ patterns) (text : List Char) :
    (m.multiPatternSearch text).Perm ((occurrences patterns text).map termOf) := by
  rw [List.perm_ext_iff_of_nodup (h.nodup text)
    ((occurrences_nodup patterns text).map termOf_injective)]
  intro t
  rw [h.mem_iff, mem_map_termOf hPatterns]

def naiveMatcher (patterns : List (List Char)) : Matcher where
  multiPatternSearch text := (occurrences patterns text).map termOf

def naiveBuild (patterns : List (List Char)) : Except String Matcher :=
  if patterns = [] then .error "empty keywords"
  else if [] ∈ patterns then .error "empty keyword"
  else .ok (naiveMatcher patterns)

theorem naiveBuild_exact {patterns : List (List Char)} {m : Matcher}
    (h : naiveBuild patterns = .ok m) : m.Exact patterns := by
  rw [naiveBuild] at h
  split at h
  · cases h
  · split at h
    · cases h
    · rename_i hPatterns
      cases h
      constructor
      · intro text
        exact (occurrences_nodup patterns text).map termOf_injective
      · intro text t
        exact mem_map_termOf hPatterns

/-! ## The loop over the matches -/

theorem applyStars_eq (c : Char) (n : Nat) : ∀ (origRunes : List Char) (i : Nat),
    i + n ≤ origRunes.length →
    applyStars c origRunes i n =
      some (repaint (fun k => decide (i ≤ k ∧ k < i + n)) c origRunes) := by
  induction n with
  | zero =>
    intro origRunes i _
    rw [applyStars, repaint_congr (Q := fun _ => false), repaint_none]
    intro k
    exact decide_eq_false (by omega)
  | succ n ih =>
    intro origRunes i h
    rw [applyStars, if_pos (by omega), ih _ _ (by rw [List.length_set]; omega), repaint_set]
    refine congrArg some (repaint_congr c origRunes ?_)
    intro k
    rw [Bool.eq_iff_iff]
    simp only [Bool.or_eq_true, beq_iff_eq, decide_eq_true_eq]
    omega

def Term.spans (origIdx : List Nat) (t : Term) (i : Nat) : Bool :=
  (index origIdx t.pos).any (fun a => decide (a ≤ i)) &&
    (index origIdx (t.pos + t.word.length - 1)).any fun b => decide (i ≤ b)

def Term.Proper (normalized : List Char) (t : Term) : Prop :=
  ∃ p : Nat, t.pos = p ∧ t.word ≠ [] ∧ OccursAt normalized t.word p

theorem index_natCast {α : Type} (xs : List α) (p : Nat) : index xs (p : Int) = xs[p]? := by
  rw [index, if_neg (by omega), Int.toNat_natCast]

section Loop

variable {u : Unicode} {text : List Char} (c : Char)

theorem Term.Proper.bounds {t : Term} (h : t.Proper (text.filterMap (clean u))) :
    0 ≤ t.pos ∧ t.pos + t.word.length ≤ (positions (clean u) 0 text).length := by
  obtain ⟨p, hPos, hWord, hOccurs⟩ := h
  have hLe := hOccurs.add_length_le hWord
  rw [length_positions]
  omega

theorem censorMatch_proper (P : Nat → Bool) (found : List (List Char)) {t : Term}
    (h : t.Proper (text.filterMap (clean u))) :
    censorMatch c (positions (clean u) 0 text) (repaint P c text, found) t =
      some (repaint (fun i => P i || t.spans (positions (clean u) 0 text) i) c text,
        found ++ [t.word]) := by
  have hBounds := h.bounds
  obtain ⟨p, hPos, hWord, hOccurs⟩ := h
  obtain ⟨a, b, ha, hb, hab, hbLength, _⟩ := hOccurs.span hWord
  have hLast : t.pos + t.word.length - 1 = ((p + t.word.length - 1 : Nat) : Int) := by
    have := List.length_pos_iff.mpr hWord
    omega
  have hStart : index (positions (clean u) 0 text) t.pos = some a := by
    rw [hPos, index_natCast, ha]
  have hStop : index (positions (clean u) 0 text) (t.pos + t.word.length - 1) = some b := by
    rw [hLast, index_natCast, hb]
  have hStars := applyStars_eq c (b + 1 - a) (repaint P c text) a (by rw [length_repaint]; omega)
  simp only [censorMatch]
  rw [if_neg (by omega), hStart, hStop]
  simp only [Option.bind_eq_bind, Option.bind_some, hStars, repaint_repaint, Option.pure_def,
    Option.some.injEq, Prod.mk.injEq, and_true]
  refine repaint_congr c text ?_
  intro i
  rw [Term.spans, hStart, hStop, Option.any_some, Option.any_some, ← Bool.decide_and]
  congr 1
  exact decide_eq_decide.mpr (by omega)

theorem foldlM_censorMatch (hits : List Term)
    (h : ∀ t ∈ hits, t.Proper (text.filterMap (clean u))) (P : Nat → Bool)
    (found : List (List Char)) :
    hits.foldlM (censorMatch c (positions (clean u) 0 text)) (repaint P c text, found) =
      some (repaint (fun i => P i || hits.any fun t => t.spans (positions (clean u) 0 text) i)
        c text, found ++ hits.map Term.word) := by
  induction hits generalizing P found with
  | nil => simp
  | cons t hits ih =>
    rw [List.foldlM_cons, censorMatch_proper c P found (h t List.mem_cons_self),
      Option.bind_eq_bind, Option.bind_some, ih fun s hs => h s (List.mem_cons_of_mem t hs)]
    simp [Bool.or_assoc]

end Loop

/-! ## The result of `Censor` -/

section Censor

variable {u : Unicode} {m : Moderator} {patterns : List (List Char)}

theorem Matcher.Exact.proper (h : m.matcher.Exact patterns) (hPatterns : [] ∉ patterns)
    {text : List Char} {t : Term} (ht : t ∈ m.matcher.multiPatternSearch text) :
    t.Proper text := by
  obtain ⟨p, hPos, hWord, hOccurs⟩ := (h.mem_iff text t).mp ht
  exact ⟨p, hPos, fun hNil => hPatterns (hNil ▸ hWord), hOccurs⟩

theorem any_spans_eq (h : m.matcher.Exact patterns) (hPatterns : [] ∉ patterns)
    (text : List Char) (i : Nat) :
    ((m.matcher.multiPatternSearch (text.filterMap (clean u))).any fun t =>
        t.spans (positions (clean u) 0 text) i) =
      decide (Covered patterns (normalize u text) i) := by
  rw [Bool.eq_iff_iff, List.any_eq_true, decide_eq_true_eq]
  simp only [Covered, normalize_normalized, normalize_origIdx]
  constructor
  · rintro ⟨t, ht, hSpans⟩
    obtain ⟨p, hPos, hWord, hOccurs⟩ := (h.mem_iff _ t).mp ht
    have hne : t.word ≠ [] := fun hNil => hPatterns (hNil ▸ hWord)
    have hLe := hOccurs.add_length_le hne
    have hLength := List.length_pos_iff.mpr hne
    have hLast : t.pos + t.word.length - 1 = ((p + t.word.length - 1 : Nat) : Int) := by omega
    rw [Term.spans, hLast, hPos, index_natCast, index_natCast, Bool.and_eq_true,
      Option.any_eq_true, Option.any_eq_true] at hSpans
    obtain ⟨⟨a, ha, haLe⟩, b, hb, hbLe⟩ := hSpans
    exact ⟨p, by omega, t.word, hWord, hOccurs, a, ha, b, hb, of_decide_eq_true haLe,
      of_decide_eq_true hbLe⟩
  · rintro ⟨p, _, w, hWord, hOccurs, a, ha, b, hb, haLe, hbLe⟩
    have hLength := List.length_pos_iff.mpr fun hNil : w = [] => hPatterns (hNil ▸ hWord)
    have hLast : (p : Int) + w.length - 1 = ((p + w.length - 1 : Nat) : Int) := by omega
    refine ⟨termOf (p, w), (h.mem_iff _ _).mpr ⟨p, rfl, hWord, hOccurs⟩, ?_⟩
    rw [Term.spans, termOf, hLast, index_natCast, index_natCast, Option.mem_def.mp ha,
      Option.mem_def.mp hb, Option.any_some, Option.any_some, Bool.and_eq_true]
    exact ⟨decide_eq_true haLe, decide_eq_true hbLe⟩

theorem censor_eq (h : m.matcher.Exact patterns) (hPatterns : [] ∉ patterns)
    (text : List Char) :
    m.censor u text =
      some (repaint (fun i => decide (Covered patterns (normalize u text) i)) m.censoredChar text,
        if m.matcher.multiPatternSearch (normalize u text).normalized = [] then none
        else some ((m.matcher.multiPatternSearch (normalize u text).normalized).map Term.word)) := by
  have hPaint := repaint_congr m.censoredChar text (any_spans_eq (u := u) h hPatterns text)
  have hProper : ∀ t ∈ m.matcher.multiPatternSearch (text.filterMap (clean u)),
      t.Proper (text.filterMap (clean u)) := fun t ht => h.proper hPatterns ht
  have hLoop := foldlM_censorMatch m.censoredChar _ hProper (fun _ => false) []
  rw [repaint_none] at hLoop
  rw [← hPaint, Moderator.censor]
  simp only [normalize_normalized, normalize_origIdx, List.length_eq_zero_iff]
  by_cases hHits : m.matcher.multiPatternSearch (text.filterMap (clean u)) = []
  · rw [if_pos hHits, if_pos hHits, hHits]
    simp [repaint_none]
  · have hText : text.filterMap (clean u) ≠ [] := by
      intro hNil
      obtain ⟨t, ht⟩ := List.exists_mem_of_ne_nil _ hHits
      obtain ⟨p, _, hne, hOccurs⟩ := hProper t ht
      have hLe := hOccurs.add_length_le hne
      have hLength := List.length_pos_iff.mpr hne
      rw [hNil, List.length_nil] at hLe
      omega
    rw [if_neg hText, if_neg hHits, if_neg hHits, hLoop]
    simp

theorem newModerator_ok {build : List (List Char) → Except String Matcher}
    {censoredWords : List (List Char)} {c : Char}
    (h : newModerator u build censoredWords c = .ok m) :
    build (patternsOf u censoredWords) = .ok m.matcher ∧ m.censoredChar = c := by
  simp only [newModerator] at h
  split at h
  · cases h
  · split at h
    · cases h
    · rename_i hBuild
      cases h
      exact ⟨hBuild, rfl⟩

theorem censor_masks_exactly {build : List (List Char) → Except String Matcher}
    (hBuild : ∀ words matcher, build words = .ok matcher → matcher.Exact words)
    {censoredWords : List (List Char)} {c : Char}
    (hNew : newModerator u build censoredWords c = .ok m) (text : List Char) :
    ∃ out found, m.censor u text = some (out, found) ∧ out.length = text.length ∧
      (∀ i < text.length,
        (Covered (patternsOf u censoredWords) (normalize u text) i → out[i]? = some c) ∧
        (¬ Covered (patternsOf u censoredWords) (normalize u text) i → out[i]? = text[i]?)) ∧
      (found.getD []).Perm
        ((occurrences (patternsOf u censoredWords) (normalize u text).normalized).map Prod.snd) ∧
      ∀ t ∈ m.matcher.multiPatternSearch (normalize u text).normalized,
        0 ≤ t.pos ∧ t.pos + t.word.length ≤ (normalize u text).origIdx.length := by
  obtain ⟨hMatcher, rfl⟩ := newModerator_ok hNew
  have hExact := hBuild _ _ hMatcher
  have hPatterns := nil_notMem_patternsOf u censoredWords
  refine ⟨_, _, censor_eq hExact hPatterns text, length_repaint _ _ _, ?_, ?_, ?_⟩
  · intro i hi
    rw [getElem?_repaint, List.getElem?_eq_getElem hi]
    constructor
    · intro hCovered
      simp [hCovered]
    · intro hFree
      simp [hFree]
  · have hPerm := (hExact.perm hPatterns (normalize u text).normalized).map Term.word
    rw [List.map_map] at hPerm
    split
    · rename_i hNone
      rw [hNone] at hPerm
      exact hPerm
    · exact hPerm
  · intro t ht
    rw [normalize_normalized] at ht
    rw [normalize_origIdx]
    exact (hExact.proper hPatterns ht).bounds

end Censor

def ascii : Unicode where
  isPunct r := r.val ∈ [33, 34, 35, 37, 38, 39, 40, 41, 42, 44, 45, 46, 47, 58, 59, 63, 64, 91, 92,
    93, 95, 123, 125]
  isSpace r := r.val ∈ [9, 10, 11, 12, 13, 32]
  isSymbol r := r.val ∈ [36, 43, 60, 61, 62, 94, 96, 124, 126]
  toLower := Char.toLower

def badgerWords : List (List Char) := ["badger".toList, "snake".toList, "mushroom".toList]

def badgerModerator : Moderator :=
  { matcher := naiveMatcher badgerWords, censoredChar := '*' }

theorem censor_masks_badger :
    ∃ out found, badgerModerator.censor ascii "I love B.4dger!".toList = some (out, found) ∧
      out.length = 15 ∧ out[5]? = some 'e' ∧ out[7]? = some '*' ∧
      (found.getD []).Perm ["badger".toList] := by
  have hNew : newModerator ascii naiveBuild badgerWords '*' = .ok badgerModerator := by rfl
  obtain ⟨out, found, hCensor, hLength, hRunes, hFound, _⟩ :=
    censor_masks_exactly (fun _ _ hBuild => naiveBuild_exact hBuild) hNew "I love B.4dger!".toList
  have hOccurrences : (occurrences (patternsOf ascii badgerWords)
      (normalize ascii "I love B.4dger!".toList).normalized).map Prod.snd =
      ["badger".toList] := by decide +kernel
  rw [hOccurrences] at hFound
  refine ⟨out, found, hCensor, hLength, ?_, ?_, hFound⟩
  · rw [(hRunes 5 (by decide)).2 (by decide +kernel)]
    decide
  · exact (hRunes 7 (by decide)).1 (by decide +kernel)

end ChatLab.Moderation

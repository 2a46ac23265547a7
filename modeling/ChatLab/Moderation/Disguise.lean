import ChatLab.Moderation.Censor

/-!
# Disguised words

A word is found however it is spelt, as long as its runes simplify to those of
the pattern and only noise stands between them. `normalize` and
`normalizeRunes` test for noise before and after the substitution of leet
characters. They agree on every rune because a leet character is never noise
and neither is the letter it stands for.
-/

namespace ChatLab.Moderation

open Foundation.PatternSearch

/-- The runes with the runs of `gaps` between them. Missing runs are empty, and
runs after the last rune are left out. -/
def disguise : List Char → List (List Char) → List Char
  | [], _ => []
  | [r], _ => [r]
  | r :: s :: runes, [] => r :: disguise (s :: runes) []
  | r :: s :: runes, gap :: gaps => r :: (gap ++ disguise (s :: runes) gaps)

/-- The letters that leet characters stand for. -/
def leetLetters : List Char := ['a', 'e', 'i', 'o', 's']

section Disguise

variable {u : Unicode}

theorem clean_of_kept {r : Char} (h : isNoise u r = false) :
    clean u r = some (u.toLower (simplifyRune r)) := by
  rw [clean, h]
  rfl

theorem filterMap_clean_of_noise {gap : List Char} (h : ∀ r ∈ gap, isNoise u r = true) :
    gap.filterMap (clean u) = [] := by
  apply List.filterMap_eq_nil_iff.mpr
  intro r hr
  exact if_pos (h r hr)

theorem filterMap_clean_disguise {runes : List Char} {gaps : List (List Char)}
    (hKept : ∀ r ∈ runes, isNoise u r = false)
    (hNoise : ∀ gap ∈ gaps, ∀ r ∈ gap, isNoise u r = true) :
    (disguise runes gaps).filterMap (clean u) =
      runes.map fun r => u.toLower (simplifyRune r) := by
  induction runes, gaps using disguise.induct with
  | case1 gaps => rfl
  | case2 r gaps =>
    rw [disguise, List.filterMap_cons_some (clean_of_kept (hKept r List.mem_cons_self))]
    rfl
  | case3 r s runes ih =>
    have hRest : ∀ x ∈ s :: runes, isNoise u x = false :=
      fun x hx => hKept x (List.mem_cons_of_mem r hx)
    rw [disguise, List.filterMap_cons_some (clean_of_kept (hKept r List.mem_cons_self)),
      ih hRest hNoise]
    rfl
  | case4 r s runes gap gaps ih =>
    have hRest : ∀ x ∈ s :: runes, isNoise u x = false :=
      fun x hx => hKept x (List.mem_cons_of_mem r hx)
    have hGaps : ∀ g ∈ gaps, ∀ x ∈ g, isNoise u x = true :=
      fun g hg => hNoise g (List.mem_cons_of_mem gap hg)
    rw [disguise, List.filterMap_cons_some (clean_of_kept (hKept r List.mem_cons_self)),
      List.filterMap_append, filterMap_clean_of_noise (hNoise gap List.mem_cons_self),
      List.nil_append, ih hRest hGaps]
    rfl

theorem head?_disguise (runes : List Char) (gaps : List (List Char)) :
    (disguise runes gaps).head? = runes.head? := by
  induction runes, gaps using disguise.induct with
  | case1 gaps => rfl
  | case2 r gaps => rfl
  | case3 r s runes ih => rfl
  | case4 r s runes gap gaps ih => rfl

theorem getLast?_disguise (runes : List Char) (gaps : List (List Char)) :
    (disguise runes gaps).getLast? = runes.getLast? := by
  induction runes, gaps using disguise.induct with
  | case1 gaps => rfl
  | case2 r gaps => rfl
  | case3 r s runes ih =>
    rw [disguise, List.getLast?_cons, ih, List.getLast?_cons_cons, List.getLast?_cons]
    rfl
  | case4 r s runes gap gaps ih =>
    rw [disguise, List.getLast?_cons, List.getLast?_append, ih, List.getLast?_cons_cons,
      List.getLast?_cons]
    rfl

theorem isNoise_simplifyRune (hLetters : ∀ r ∈ leetLetters, isNoise u r = false) (r : Char) :
    isNoise u (simplifyRune r) = isNoise u r := by
  unfold simplifyRune
  split
  case h_11 => rfl
  all_goals exact hLetters _ (by decide)

theorem normalizeRunes_eq (hLetters : ∀ r ∈ leetLetters, isNoise u r = false) (w : List Char) :
    normalizeRunes u w = w.filterMap (clean u) := by
  induction w with
  | nil => rfl
  | cons r w ih =>
    simp only [normalizeRunes, isNoise_simplifyRune hLetters, ih]
    cases hNoise : isNoise u r with
    | true =>
      have hClean : clean u r = none := if_pos hNoise
      rw [if_pos rfl, List.filterMap_cons_none hClean]
    | false => rw [if_neg Bool.false_ne_true, List.filterMap_cons_some (clean_of_kept hNoise)]

/-- Everything between two kept runes of a window that cleans to a pattern is covered. -/
theorem covered_of_window {patterns : List (List Char)} (before after : List Char)
    {window : List Char}
    (hWord : window.filterMap (clean u) ∈ patterns) (hne : window.filterMap (clean u) ≠ [])
    {i j k : Nat} {r s : Char} (hi : window[i]? = some r) (hr : isNoise u r = false)
    (hk : window[k]? = some s) (hs : isNoise u s = false) (hij : i ≤ j) (hjk : j ≤ k) :
    Covered patterns (normalize u (before ++ window ++ after)) (before.length + j) := by
  obtain ⟨hOccurs, a, b, ha, hb, _, _, hSpan⟩ := occursAt_window before window after hne
  have hLe := hOccurs.add_length_le hne
  have hPos := List.length_pos_iff.mpr hne
  have hLow := (hSpan i r hi (by rw [clean_of_kept hr]; rfl)).1
  have hHigh := (hSpan k s hk (by rw [clean_of_kept hs]; rfl)).2
  simp only [Covered, normalize_normalized, normalize_origIdx]
  exact ⟨_, by omega, _, hWord, hOccurs, a, ha, b, hb, by omega, by omega⟩

theorem mem_patternsOf {censoredWords : List (List Char)} {w : List Char}
    (hWord : w ∈ censoredWords) (hne : normalizeRunes u w ≠ []) :
    normalizeRunes u w ∈ patternsOf u censoredWords := by
  refine List.mem_filter.mpr ⟨List.mem_map_of_mem hWord, ?_⟩
  exact decide_eq_true (List.length_pos_iff.mpr hne)

variable {m : Moderator} {build : List (List Char) → Except String Matcher}
  {censoredWords : List (List Char)} {c : Char} {w : List Char}

theorem censor_window (hBuild : ∀ words matcher, build words = .ok matcher → matcher.Exact words)
    (hNew : newModerator u build censoredWords c = .ok m) (before after : List Char)
    {window : List Char} (hWord : window.filterMap (clean u) ∈ patternsOf u censoredWords) :
    ∃ out found, m.censor u (before ++ window ++ after) = some (out, some found) ∧
      out.length = (before ++ window ++ after).length ∧ window.filterMap (clean u) ∈ found ∧
      ∀ i j k r s, window[i]? = some r → isNoise u r = false → window[k]? = some s →
        isNoise u s = false → i ≤ j → j ≤ k → out[before.length + j]? = some c := by
  obtain ⟨hMatcher, rfl⟩ := newModerator_ok hNew
  have hExact := hBuild _ _ hMatcher
  have hPatterns := nil_notMem_patternsOf u censoredWords
  have hne : window.filterMap (clean u) ≠ [] := fun hNil => hPatterns (hNil ▸ hWord)
  have hOccurs := (occursAt_window before window after hne).1
  have hHit : termOf ((before.filterMap (clean u)).length, window.filterMap (clean u)) ∈
      m.matcher.multiPatternSearch (normalize u (before ++ window ++ after)).normalized := by
    rw [normalize_normalized]
    exact (hExact.mem_iff _ _).mpr ⟨_, rfl, hWord, hOccurs⟩
  have hCensor := censor_eq (u := u) hExact hPatterns (before ++ window ++ after)
  rw [if_neg (List.ne_nil_of_mem hHit)] at hCensor
  refine ⟨_, _, hCensor, length_repaint _ _ _, List.mem_map_of_mem hHit, ?_⟩
  intro i j k r s hi hr hk hs hij hjk
  have hCovered := covered_of_window before after hWord hne hi hr hk hs hij hjk
  obtain ⟨hkLength, _⟩ := List.getElem?_eq_some_iff.mp hk
  have hLength : before.length + j < (before ++ window ++ after).length := by
    rw [List.length_append, List.length_append]
    omega
  rw [getElem?_repaint, List.getElem?_eq_getElem hLength, Option.map_some,
    if_pos (decide_eq_true hCovered)]

/-- A spelling of a censored word, with noise anywhere inside, is masked from
its first to its last rune and reported. So is the word itself, from its first
to its last rune that is not noise. -/
theorem censor_masks_disguised
    (hBuild : ∀ words matcher, build words = .ok matcher → matcher.Exact words)
    (hNew : newModerator u build censoredWords c = .ok m) (hWord : w ∈ censoredWords)
    (hne : normalizeRunes u w ≠ []) (before after : List Char) :
    (∀ (runes : List Char) (gaps : List (List Char)), (∀ r ∈ runes, isNoise u r = false) →
      (runes.map fun r => u.toLower (simplifyRune r)) = normalizeRunes u w →
      (∀ gap ∈ gaps, ∀ r ∈ gap, isNoise u r = true) →
      ∃ out found, m.censor u (before ++ disguise runes gaps ++ after) = some (out, some found) ∧
        out.length = (before ++ disguise runes gaps ++ after).length ∧
        normalizeRunes u w ∈ found ∧
        ∀ j < (disguise runes gaps).length, out[before.length + j]? = some c) ∧
    ((∀ r ∈ leetLetters, isNoise u r = false) →
      ∃ out found, m.censor u (before ++ w ++ after) = some (out, some found) ∧
        out.length = (before ++ w ++ after).length ∧ normalizeRunes u w ∈ found ∧
        ∀ i j k r s, w[i]? = some r → isNoise u r = false → w[k]? = some s →
          isNoise u s = false → i ≤ j → j ≤ k → out[before.length + j]? = some c) := by
  have hPattern := mem_patternsOf hWord hne
  constructor
  · intro runes gaps hKept hRunes hNoise
    have hClean := (filterMap_clean_disguise hKept hNoise).trans hRunes
    rw [← hClean] at hPattern
    obtain ⟨out, found, hCensor, hLength, hFound, hMasked⟩ :=
      censor_window hBuild hNew before after hPattern
    refine ⟨out, found, hCensor, hLength, hClean ▸ hFound, ?_⟩
    have hRunesNe : runes ≠ [] := by
      rintro rfl
      exact hne hRunes.symm
    have hFirst := head?_disguise runes gaps
    have hLast := getLast?_disguise runes gaps
    rw [List.head?_eq_getElem?, List.head?_eq_some_head hRunesNe] at hFirst
    rw [List.getLast?_eq_getElem?, List.getLast?_eq_some_getLast hRunesNe] at hLast
    intro j hj
    exact hMasked 0 j _ _ _ hFirst (hKept _ (List.head_mem hRunesNe)) hLast
      (hKept _ (List.getLast_mem hRunesNe)) (Nat.zero_le j) (by omega)
  · intro hLetters
    have hClean := normalizeRunes_eq hLetters w
    rw [hClean] at hPattern ⊢
    exact censor_window hBuild hNew before after hPattern

end Disguise

theorem censor_masks_disguised_badger :
    ∃ out found, badgerModerator.censor ascii "a b.4-d g€R!".toList = some (out, some found) ∧
      "badger".toList ∈ found ∧ ∀ j < 9, out[2 + j]? = some '*' := by
  have hNew : newModerator ascii naiveBuild badgerWords '*' = .ok badgerModerator := by rfl
  have hRunes : ("b4dg€R".toList.all fun r => !isNoise ascii r) = true := by decide +kernel
  have hGaps : ([".".toList, "-".toList, " ".toList].all fun gap => gap.all (isNoise ascii)) =
      true := by decide +kernel
  obtain ⟨out, found, hCensor, _, hFound, hMasked⟩ :=
    (censor_masks_disguised (w := "badger".toList) (fun _ _ hBuild => naiveBuild_exact hBuild) hNew
      (by decide) (by decide +kernel) "a ".toList "!".toList).1 "b4dg€R".toList
      [".".toList, "-".toList, " ".toList]
      (fun r hr => by simpa using List.all_eq_true.mp hRunes r hr) (by decide +kernel)
      (fun gap hGap => List.all_eq_true.mp (List.all_eq_true.mp hGaps gap hGap))
  exact ⟨out, found, hCensor, hFound, hMasked⟩

end ChatLab.Moderation

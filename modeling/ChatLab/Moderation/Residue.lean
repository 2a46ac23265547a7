import ChatLab.Moderation.Censor

/-!
# What is left after moderation

A moderated text can still hold a forbidden pattern: where the replacement is
noise, the text on both sides of a painted span is read as adjacent, and where
it is a letter, it can complete a word. Every such occurrence spans a painted
rune, and the cases in which none is left are characterized here.
-/

namespace ChatLab.Moderation

open Foundation.PatternSearch

def residue (patterns : List (List Char)) (mapping : TextMapping) : List Char :=
  ((mapping.normalized.zip mapping.origIdx).filter fun x =>
    !decide (Covered patterns mapping x.2)).map Prod.fst

section Residue

variable {u : Unicode} {m : Moderator} {patterns : List (List Char)}

theorem not_covered_of_free {text : List Char}
    (h : ∀ w ∈ patterns, ¬ w <:+: (normalize u text).normalized) (i : Nat) :
    ¬ Covered patterns (normalize u text) i := by
  rintro ⟨p, _, w, hw, hOccurs, _⟩
  exact h w hw (isInfix_iff_occursAt.mpr ⟨p, hOccurs⟩)

theorem censor_eq_self_iff (h : m.matcher.Exact patterns) (hPatterns : [] ∉ patterns)
    (text : List Char) :
    m.censor u text = some (text, none) ↔
      ∀ w ∈ patterns, ¬ w <:+: (normalize u text).normalized := by
  rw [censor_eq h hPatterns]
  constructor
  · intro hSame w hw hInfix
    obtain ⟨p, hOccurs⟩ := isInfix_iff_occursAt.mp hInfix
    have hHit : termOf (p, w) ∈ m.matcher.multiPatternSearch (normalize u text).normalized :=
      (h.mem_iff _ _).mpr ⟨p, rfl, hw, hOccurs⟩
    rw [if_neg (List.ne_nil_of_mem hHit)] at hSame
    cases (Prod.mk.inj (Option.some.inj hSame)).2
  · intro hFree
    have hNone : m.matcher.multiPatternSearch (normalize u text).normalized = [] := by
      apply List.eq_nil_iff_forall_not_mem.mpr
      intro t ht
      obtain ⟨p, _, hWord, hOccurs⟩ := (h.mem_iff _ _).mp ht
      exact hFree t.word hWord (isInfix_iff_occursAt.mpr ⟨p, hOccurs⟩)
    rw [if_pos hNone, repaint_congr _ _ fun i => decide_eq_false (not_covered_of_free hFree i),
      repaint_none]

theorem window_repaint_eq {P : Nat → Bool} {c : Char} {text : List Char} {a b : Nat}
    (h : ∀ i, a ≤ i → i ≤ b → P i = false) :
    ((repaint P c text).take (b + 1)).drop a = (text.take (b + 1)).drop a := by
  apply List.ext_getElem?
  intro i
  rw [List.getElem?_drop, List.getElem?_drop]
  by_cases hi : a + i < b + 1
  · rw [List.getElem?_take_of_lt hi, List.getElem?_take_of_lt hi, getElem?_repaint,
      h (a + i) (by omega) (by omega)]
    simp
  · rw [List.getElem?_take_eq_none (by omega), List.getElem?_take_eq_none (by omega)]

theorem occursAt_repaint_spans (hPatterns : [] ∉ patterns) {c : Char} {text w : List Char}
    {p : Nat} (hw : w ∈ patterns)
    (h : OccursAt ((repaint (fun i => decide (Covered patterns (normalize u text) i)) c
      text).filterMap (clean u)) w p) :
    ∃ a b i,
      (positions (clean u) 0 (repaint (fun i => decide (Covered patterns (normalize u text) i)) c
        text))[p]? = some a ∧
      (positions (clean u) 0 (repaint (fun i => decide (Covered patterns (normalize u text) i)) c
        text))[p + w.length - 1]? = some b ∧
      a ≤ i ∧ i ≤ b ∧ b < text.length ∧ Covered patterns (normalize u text) i := by
  have hne : w ≠ [] := fun hNil => hPatterns (hNil ▸ hw)
  obtain ⟨a, b, ha, hb, hab, hLength, hWindow⟩ := h.span hne
  rw [length_repaint] at hLength
  by_contra hFree
  have hUnpainted : ∀ i, a ≤ i → i ≤ b →
      decide (Covered patterns (normalize u text) i) = false := by
    intro i hai hib
    exact decide_eq_false fun hCovered => hFree ⟨a, b, i, ha, hb, hai, hib, hLength, hCovered⟩
  rw [window_repaint_eq hUnpainted] at hWindow
  obtain ⟨q, i, hOccurs, hi, hai, hib⟩ :=
    occursAt_of_window (show a ≤ b + 1 by omega) (by omega) hne hWindow
  -- the same window is an occurrence in the text before painting, so it was painted
  obtain ⟨i', j, hi', hj, hij, _, _⟩ := hOccurs.span hne
  have hLe := hOccurs.add_length_le hne
  have hPos := List.length_pos_iff.mpr hne
  have hCovered : Covered patterns (normalize u text) i := by
    obtain rfl := Option.some.inj (hi'.symm.trans hi)
    simp only [Covered, normalize_normalized, normalize_origIdx]
    exact ⟨q, by omega, w, hw, hOccurs, i', hi', j, hj, Nat.le_refl _, hij⟩
  exact hFree ⟨a, b, i, ha, hb, hai, by omega, hLength, hCovered⟩

theorem normalized_repaint_of_noise {c : Char} (hc : isNoise u c = true) (text : List Char) :
    (normalize u (repaint (fun i => decide (Covered patterns (normalize u text) i)) c
      text)).normalized = residue patterns (normalize u text) := by
  have hClean : clean u c = none := if_pos hc
  rw [residue, normalize_normalized, normalize_normalized, normalize_origIdx,
    filterMap_repaint hClean]

theorem mem_of_spans {text w : List Char} {p a b i : Nat} {r : Char} (hw : w ≠ [])
    (h : OccursAt (text.filterMap (clean u)) w p) (ha : (positions (clean u) 0 text)[p]? = some a)
    (hb : (positions (clean u) 0 text)[p + w.length - 1]? = some b) (hai : a ≤ i) (hib : i ≤ b)
    (hi : text[i]? = some r) (hr : isNoise u r = false) : u.toLower (simplifyRune r) ∈ w := by
  obtain ⟨a', b', ha', hb', _, _, hWindow⟩ := h.span hw
  obtain rfl := Option.some.inj (ha'.symm.trans ha)
  obtain rfl := Option.some.inj (hb'.symm.trans hb)
  rw [← hWindow, List.mem_filterMap]
  refine ⟨r, ?_, by simp [clean, hr]⟩
  apply List.mem_of_getElem? (i := i - a')
  rw [List.getElem?_drop, List.getElem?_take_of_lt (by omega), Nat.add_sub_cancel' hai, hi]

/-- What a second pass finds: every pattern left in a moderated text spans a
rune that was painted. A replacement that is kept and in no pattern leaves
nothing; a replacement that is noise leaves what the residue holds. -/
theorem censor_residue {build : List (List Char) → Except String Matcher}
    (hBuild : ∀ words matcher, build words = .ok matcher → matcher.Exact words)
    {censoredWords : List (List Char)} {c : Char}
    (hNew : newModerator u build censoredWords c = .ok m) {text out : List Char}
    {found : Option (List (List Char))} (hCensor : m.censor u text = some (out, found)) :
    (∀ w ∈ patternsOf u censoredWords, ∀ p, OccursAt (normalize u out).normalized w p →
      ∃ a b i, (normalize u out).origIdx[p]? = some a ∧
        (normalize u out).origIdx[p + w.length - 1]? = some b ∧ a ≤ i ∧ i ≤ b ∧
        Covered (patternsOf u censoredWords) (normalize u text) i) ∧
    (isNoise u c = false →
      (∀ w ∈ patternsOf u censoredWords, u.toLower (simplifyRune c) ∉ w) →
      m.censor u out = some (out, none)) ∧
    (isNoise u c = true →
      (m.censor u out = some (out, none) ↔
        ∀ w ∈ patternsOf u censoredWords,
          ¬ w <:+: residue (patternsOf u censoredWords) (normalize u text))) := by
  obtain ⟨hMatcher, rfl⟩ := newModerator_ok hNew
  have hExact := hBuild _ _ hMatcher
  have hPatterns := nil_notMem_patternsOf u censoredWords
  rw [censor_eq hExact hPatterns] at hCensor
  obtain ⟨rfl, _⟩ := Prod.mk.inj (Option.some.inj hCensor)
  rw [censor_eq_self_iff hExact hPatterns]
  simp only [normalize_origIdx]
  refine ⟨?_, ?_, ?_⟩
  · intro w hw p hOccurs
    rw [normalize_normalized] at hOccurs
    obtain ⟨a, b, i, ha, hb, hai, hib, _, hCovered⟩ :=
      occursAt_repaint_spans hPatterns hw hOccurs
    exact ⟨a, b, i, ha, hb, hai, hib, hCovered⟩
  · intro hKept hFree w hw hInfix
    obtain ⟨p, hOccurs⟩ := isInfix_iff_occursAt.mp hInfix
    rw [normalize_normalized] at hOccurs
    obtain ⟨a, b, i, ha, hb, hai, hib, hLength, hCovered⟩ :=
      occursAt_repaint_spans hPatterns hw hOccurs
    refine hFree w hw (mem_of_spans (fun hNil => hPatterns (hNil ▸ hw)) hOccurs ha hb hai hib
      ?_ hKept)
    rw [getElem?_repaint, List.getElem?_eq_getElem (by omega)]
    simp [hCovered]
  · intro hNoise
    rw [normalized_repaint_of_noise hNoise]

end Residue

theorem censor_not_idempotent :
    ¬ ∀ (censoredWords : List (List Char)) (str : List Char) (c : Char) (m : Moderator)
      (text out : List Char) (found : Option (List (List Char))),
      characterRune str = .ok c → newModerator ascii naiveBuild censoredWords c = .ok m →
      m.censor ascii text = some (out, found) → m.censor ascii out = some (out, none) := by
  intro hAlways
  have hClean := hAlways ["ab".toList, "xy".toList] "*".toList '*'
    { matcher := naiveMatcher ["ab".toList, "xy".toList], censoredChar := '*' }
    "axyb".toList "a**b".toList (some ["xy".toList]) (by rfl) (by rfl) (by decide +kernel)
  have hDirty : Moderator.censor ascii
      { matcher := naiveMatcher ["ab".toList, "xy".toList], censoredChar := '*' } "a**b".toList =
      some ("****".toList, some ["ab".toList]) := by decide +kernel
  rw [hDirty] at hClean
  exact absurd hClean (by decide)

theorem censor_residue_badger :
    badgerModerator.censor ascii "I love badger!".toList =
        some ("I love ******!".toList, some ["badger".toList]) ∧
      badgerModerator.censor ascii "I love ******!".toList =
        some ("I love ******!".toList, none) := by
  have hNew : newModerator ascii naiveBuild badgerWords '*' = .ok badgerModerator := by rfl
  have hFirst : badgerModerator.censor ascii "I love badger!".toList =
      some ("I love ******!".toList, some ["badger".toList]) := by decide +kernel
  refine ⟨hFirst, ?_⟩
  exact ((censor_residue (fun _ _ hBuild => naiveBuild_exact hBuild) hNew hFirst).2.2
    (by decide +kernel)).mpr (by decide +kernel)

end ChatLab.Moderation

import Mathlib.Data.List.Basic
import Mathlib.Data.List.Dedup
import Mathlib.Data.List.Infix
import Mathlib.Data.List.Nodup

/-!
# Occurrences of patterns, kept positions and repainting

Three tools for programs that search a cleaned copy of a text and change the
text itself: the occurrences of a set of patterns, the positions that a
partial map keeps, and the replacement of the items at chosen positions.
-/

namespace Foundation.PatternSearch

universe u v

/-! ## Occurrences -/

section Occurrences

variable {α : Type u}

def OccursAt (text w : List α) (p : Nat) : Prop := w <+: text.drop p

instance [DecidableEq α] (text w : List α) (p : Nat) : Decidable (OccursAt text w p) :=
  inferInstanceAs (Decidable (w <+: text.drop p))

theorem OccursAt.add_length_le {text w : List α} {p : Nat} (h : OccursAt text w p)
    (hw : w ≠ []) : p + w.length ≤ text.length := by
  have hLe := h.length_le
  have hPos := List.length_pos_iff.mpr hw
  rw [List.length_drop] at hLe
  omega

theorem OccursAt.take_eq {text w : List α} {p : Nat} (h : OccursAt text w p) :
    text.take (p + w.length) = text.take p ++ w := by
  rw [List.take_add, ← List.prefix_iff_eq_take.mp h]

theorem occursAt_append (a w b : List α) : OccursAt (a ++ w ++ b) w a.length := by
  rw [OccursAt, List.append_assoc, List.drop_left]
  exact List.prefix_append w b

theorem isInfix_iff_occursAt {text w : List α} : w <:+: text ↔ ∃ p, OccursAt text w p := by
  constructor
  · rintro ⟨a, b, rfl⟩
    exact ⟨a.length, occursAt_append a w b⟩
  · rintro ⟨p, h⟩
    exact h.isInfix.trans (List.drop_suffix p text).isInfix

variable [DecidableEq α]

def occurrences (patterns : List (List α)) (text : List α) : List (Nat × List α) :=
  (List.range text.length).flatMap fun p =>
    (patterns.dedup.filter fun w => OccursAt text w p).map fun w => (p, w)

theorem mem_occurrences {patterns : List (List α)} (hPatterns : [] ∉ patterns) {text w : List α}
    {p : Nat} : (p, w) ∈ occurrences patterns text ↔ w ∈ patterns ∧ OccursAt text w p := by
  simp only [occurrences, List.mem_flatMap, List.mem_range, List.mem_map, List.mem_filter,
    List.mem_dedup, decide_eq_true_eq, Prod.mk.injEq]
  constructor
  · rintro ⟨_, _, _, hw, rfl, rfl⟩
    exact hw
  · rintro ⟨hMem, hOccurs⟩
    have hw : w ≠ [] := fun hNil => hPatterns (hNil ▸ hMem)
    have hLe := hOccurs.add_length_le hw
    have hPos := List.length_pos_iff.mpr hw
    exact ⟨p, by omega, w, ⟨hMem, hOccurs⟩, rfl, rfl⟩

theorem occurrences_nodup (patterns : List (List α)) (text : List α) :
    (occurrences patterns text).Nodup := by
  rw [occurrences, List.nodup_flatMap]
  constructor
  · intro p _
    refine (patterns.nodup_dedup.filter _).map ?_
    intro v w hSame
    exact (Prod.mk.inj hSame).2
  · refine List.nodup_range.imp ?_
    intro p q hne o hp hq
    obtain ⟨_, _, rfl⟩ := List.mem_map.mp hp
    obtain ⟨_, _, hEq⟩ := List.mem_map.mp hq
    exact hne (Prod.mk.inj hEq).1.symm

end Occurrences

/-! ## Kept positions -/

section Positions

variable {α : Type u} {β : Type v} (f : α → Option β)

/-- The positions, counted from `i`, of the items that `f` keeps. -/
def positions : Nat → List α → List Nat
  | _, [] => []
  | i, a :: l =>
    match f a with
    | none => positions (i + 1) l
    | some _ => i :: positions (i + 1) l

variable {f}

theorem length_positions (i : Nat) (l : List α) :
    (positions f i l).length = (l.filterMap f).length := by
  induction l generalizing i with
  | nil => rfl
  | cons a l ih =>
    cases hf : f a with
    | none => simp [positions, hf, ih]
    | some b => simp [positions, hf, ih]

theorem mem_positions {i k : Nat} {l : List α} (h : k ∈ positions f i l) :
    i ≤ k ∧ k < i + l.length := by
  induction l generalizing i with
  | nil => cases h
  | cons a l ih =>
    rw [List.length_cons]
    rw [positions] at h
    split at h
    · have := ih h
      omega
    · obtain rfl | h := List.mem_cons.mp h
      · omega
      · have := ih h
        omega

theorem positions_sorted (i : Nat) (l : List α) : (positions f i l).Pairwise (· < ·) := by
  induction l generalizing i with
  | nil => exact List.Pairwise.nil
  | cons a l ih =>
    rw [positions]
    split
    · exact ih (i + 1)
    · refine List.Pairwise.cons ?_ (ih (i + 1))
      intro k hk
      have := mem_positions hk
      omega

theorem positions_mono {i p q a b : Nat} {l : List α} (ha : (positions f i l)[p]? = some a)
    (hb : (positions f i l)[q]? = some b) (hpq : p ≤ q) : a ≤ b := by
  obtain ⟨hp, rfl⟩ := List.getElem?_eq_some_iff.mp ha
  obtain ⟨hq, rfl⟩ := List.getElem?_eq_some_iff.mp hb
  obtain rfl | hLt := Nat.eq_or_lt_of_le hpq
  · exact Nat.le_refl _
  · exact Nat.le_of_lt (List.pairwise_iff_getElem.mp (positions_sorted i l) p q hp hq hLt)

theorem positions_append (i : Nat) (l m : List α) :
    positions f i (l ++ m) = positions f i l ++ positions f (i + l.length) m := by
  induction l generalizing i with
  | nil => rfl
  | cons a l ih =>
    have hShift : i + 1 + l.length = i + (a :: l).length := by
      rw [List.length_cons]
      omega
    rw [List.cons_append, positions, positions]
    split
    · rw [ih, hShift]
    · rw [ih, hShift, List.cons_append]

theorem filterMap_take_of_positions {i k j : Nat} {l : List α}
    (h : (positions f i l)[k]? = some j) :
    (l.take (j - i)).filterMap f = (l.filterMap f).take k ∧
      (l.take (j - i + 1)).filterMap f = (l.filterMap f).take (k + 1) := by
  induction l generalizing i k with
  | nil => cases h
  | cons a l ih =>
    rw [positions] at h
    split at h
    · rename_i hf
      have hBound := mem_positions (List.mem_of_getElem? h)
      obtain ⟨hBefore, hBehind⟩ := ih h
      have hSub : j - i = j - (i + 1) + 1 := by omega
      rw [hSub, List.take_succ_cons, List.take_succ_cons, List.filterMap_cons_none hf,
        List.filterMap_cons_none hf, List.filterMap_cons_none hf]
      exact ⟨hBefore, hBehind⟩
    · rename_i b hf
      cases k with
      | zero =>
        obtain rfl := Option.some.inj h
        simp [hf]
      | succ k =>
        rw [List.getElem?_cons_succ] at h
        have hBound := mem_positions (List.mem_of_getElem? h)
        obtain ⟨hBefore, hBehind⟩ := ih h
        have hSub : j - i = j - (i + 1) + 1 := by omega
        rw [hSub, List.take_succ_cons, List.take_succ_cons, List.filterMap_cons_some hf,
          List.filterMap_cons_some hf, List.filterMap_cons_some hf, List.take_succ_cons,
          List.take_succ_cons, hBefore, hBehind]
        exact ⟨rfl, rfl⟩

theorem OccursAt.span {l : List α} {w : List β} {p : Nat} (h : OccursAt (l.filterMap f) w p)
    (hw : w ≠ []) :
    ∃ a b, (positions f 0 l)[p]? = some a ∧ (positions f 0 l)[p + w.length - 1]? = some b ∧
      a ≤ b ∧ b < l.length ∧ ((l.take (b + 1)).drop a).filterMap f = w := by
  have hLe := h.add_length_le hw
  have hPos := List.length_pos_iff.mpr hw
  have hLength := length_positions (f := f) 0 l
  have hp : p < (positions f 0 l).length := by omega
  have hq : p + w.length - 1 < (positions f 0 l).length := by omega
  obtain ⟨a, ha⟩ : ∃ a, (positions f 0 l)[p]? = some a := ⟨_, List.getElem?_eq_getElem hp⟩
  obtain ⟨b, hb⟩ : ∃ b, (positions f 0 l)[p + w.length - 1]? = some b :=
    ⟨_, List.getElem?_eq_getElem hq⟩
  have hab : a ≤ b := positions_mono ha hb (by omega)
  have hBound := mem_positions (List.mem_of_getElem? hb)
  refine ⟨a, b, ha, hb, hab, by omega, ?_⟩
  have hStart := (filterMap_take_of_positions ha).1
  have hStop := (filterMap_take_of_positions hb).2
  have hSplit : l.take (b + 1) = l.take a ++ (l.take (b + 1)).drop a := by
    conv_lhs => rw [← List.take_append_drop a (l.take (b + 1)), List.take_take]
    rw [Nat.min_eq_left (by omega)]
  rw [Nat.sub_zero] at hStart hStop
  rw [hSplit, List.filterMap_append, hStart, show p + w.length - 1 + 1 = p + w.length by omega,
    h.take_eq] at hStop
  exact List.append_cancel_left hStop

theorem mem_positions_of_kept {i k : Nat} {l : List α} {x : α} (hk : l[k]? = some x)
    (hx : (f x).isSome = true) : i + k ∈ positions f i l := by
  induction l generalizing i k with
  | nil => cases hk
  | cons a l ih =>
    rw [positions]
    cases k with
    | zero =>
      obtain rfl := Option.some.inj hk
      obtain ⟨b, hb⟩ := Option.isSome_iff_exists.mp hx
      rw [hb]
      exact List.mem_cons_self
    | succ k =>
      have hMem : i + (k + 1) ∈ positions f (i + 1) l := by
        rw [← Nat.add_assoc, Nat.add_right_comm]
        exact ih hk
      split
      · exact hMem
      · exact List.mem_cons_of_mem i hMem

/-- What `f` makes of a window occurs in what it makes of the list, and the
occurrence spans every item of the window that `f` keeps. -/
theorem occursAt_window (before window after : List α) (hw : window.filterMap f ≠ []) :
    OccursAt ((before ++ window ++ after).filterMap f) (window.filterMap f)
        (before.filterMap f).length ∧
      ∃ a b, (positions f 0 (before ++ window ++ after))[(before.filterMap f).length]? = some a ∧
        (positions f 0 (before ++ window ++ after))[(before.filterMap f).length +
          (window.filterMap f).length - 1]? = some b ∧
        before.length ≤ a ∧ a < before.length + window.length ∧
        ∀ k x, window[k]? = some x → (f x).isSome = true →
          a ≤ before.length + k ∧ before.length + k ≤ b := by
  have hLength := length_positions (f := f) before.length window
  have hPos := List.length_pos_iff.mpr hw
  have hStart := length_positions (f := f) 0 before
  have hPositions : ∀ k < (window.filterMap f).length,
      (positions f 0 (before ++ window ++ after))[(before.filterMap f).length + k]? =
        (positions f before.length window)[k]? := by
    intro k hk
    rw [List.append_assoc, positions_append, positions_append, Nat.zero_add, ← hStart,
      List.getElem?_append_right (Nat.le_add_right _ _), Nat.add_sub_cancel_left,
      List.getElem?_append_left (by omega)]
  obtain ⟨a, ha⟩ : ∃ a, (positions f before.length window)[0]? = some a :=
    ⟨_, List.getElem?_eq_getElem (by omega)⟩
  obtain ⟨b, hb⟩ : ∃ b,
      (positions f before.length window)[(window.filterMap f).length - 1]? = some b :=
    ⟨_, List.getElem?_eq_getElem (by omega)⟩
  have hBound := mem_positions (List.mem_of_getElem? ha)
  refine ⟨?_, a, b, ?_, ?_, hBound.1, hBound.2, ?_⟩
  · rw [List.filterMap_append, List.filterMap_append]
    exact occursAt_append _ _ _
  · exact (hPositions 0 hPos).trans ha
  · rw [Nat.add_sub_assoc hPos, hPositions _ (by omega), hb]
  · intro k x hk hx
    obtain ⟨q, hq⟩ := List.mem_iff_getElem?.mp (mem_positions_of_kept (i := before.length) hk hx)
    obtain ⟨hqLength, _⟩ := List.getElem?_eq_some_iff.mp hq
    exact ⟨positions_mono ha hq (Nat.zero_le q), positions_mono hq hb (by omega)⟩

theorem occursAt_of_window {l : List α} {w : List β} {a e : Nat} (ha : a ≤ e)
    (he : e ≤ l.length) (hw : w ≠ []) (h : ((l.take e).drop a).filterMap f = w) :
    ∃ p i, OccursAt (l.filterMap f) w p ∧ (positions f 0 l)[p]? = some i ∧ a ≤ i ∧ i < e := by
  have hSplit : l.take a ++ (l.take e).drop a ++ l.drop e = l := by
    conv_rhs => rw [← List.take_append_drop e l, ← List.take_append_drop a (l.take e),
      List.take_take]
    rw [Nat.min_eq_left ha]
  obtain ⟨hOccurs, i, _, hi, _, hLow, hHigh, _⟩ :=
    occursAt_window (f := f) (l.take a) ((l.take e).drop a) (l.drop e) (h ▸ hw)
  rw [hSplit] at hOccurs hi
  rw [h] at hOccurs
  simp only [List.length_take, List.length_drop] at hLow hHigh
  exact ⟨_, i, hOccurs, hi, by omega, by omega⟩

end Positions

/-! ## Repainting -/

section Repaint

variable {α : Type u} {β : Type v}

/-- The list with `c` at the positions that `P` marks. -/
def repaint (P : Nat → Bool) (c : α) (l : List α) : List α :=
  l.zipIdx.map fun x => if P x.2 then c else x.1

theorem getElem?_repaint (P : Nat → Bool) (c : α) (l : List α) (i : Nat) :
    (repaint P c l)[i]? = l[i]?.map fun a => if P i then c else a := by
  rw [repaint, List.getElem?_map, List.getElem?_zipIdx, Option.map_map, Nat.zero_add]
  rfl

@[simp] theorem length_repaint (P : Nat → Bool) (c : α) (l : List α) :
    (repaint P c l).length = l.length := by
  simp [repaint]

theorem repaint_congr {P Q : Nat → Bool} (c : α) (l : List α) (h : ∀ i, P i = Q i) :
    repaint P c l = repaint Q c l := by
  rw [show P = Q from funext h]

theorem repaint_none (c : α) (l : List α) : repaint (fun _ => false) c l = l := by
  apply List.ext_getElem?
  intro i
  rw [getElem?_repaint]
  simp

theorem repaint_repaint (P Q : Nat → Bool) (c : α) (l : List α) :
    repaint Q c (repaint P c l) = repaint (fun i => P i || Q i) c l := by
  apply List.ext_getElem?
  intro i
  simp only [getElem?_repaint, Option.map_map, Function.comp_def]
  cases P i with
  | true => simp
  | false => simp

theorem repaint_set (P : Nat → Bool) (c : α) (l : List α) (k : Nat) :
    repaint P c (l.set k c) = repaint (fun i => i == k || P i) c l := by
  apply List.ext_getElem?
  intro i
  rw [getElem?_repaint, getElem?_repaint]
  by_cases hik : k = i
  · subst hik
    by_cases hk : k < l.length
    · simp [hk]
    · simp [hk]
  · rw [List.getElem?_set_ne hik, beq_false_of_ne (Ne.symm hik), Bool.false_or]

theorem filterMap_repaint {f : α → Option β} {c : α} (hc : f c = none) (P : Nat → Bool)
    (l : List α) :
    (repaint P c l).filterMap f =
      (((l.filterMap f).zip (positions f 0 l)).filter fun x => !P x.2).map Prod.fst := by
  rw [repaint]
  -- the induction is on the list, with the position of its head as the parameter
  generalize 0 = i
  induction l generalizing i with
  | nil => rfl
  | cons a l ih =>
    rw [List.zipIdx_cons, List.map_cons, positions]
    cases hPaint : P i with
    | true =>
      rw [if_pos rfl, List.filterMap_cons_none hc, ih (i + 1)]
      cases hf : f a with
      | none => rw [List.filterMap_cons_none hf]
      | some b => simp [List.filterMap_cons_some hf, hPaint]
    | false =>
      rw [if_neg Bool.false_ne_true]
      cases hf : f a with
      | none => rw [List.filterMap_cons_none hf, List.filterMap_cons_none hf, ih (i + 1)]
      | some b =>
        rw [List.filterMap_cons_some hf, List.filterMap_cons_some hf, ih (i + 1)]
        simp [hPaint]

end Repaint

end Foundation.PatternSearch

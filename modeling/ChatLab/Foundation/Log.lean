import Mathlib.Data.List.Induction

/-!
# The last entry of a log for a key

A log grows at its end. What a key stands for is the last entry with that key,
whatever was written to other keys before or after it.
-/

namespace Foundation.Log

universe u v

variable {α : Type u}

section Keyed

variable {κ : Type v} [DecidableEq κ] (key : α → κ)

def last? (l : List α) (k : κ) : Option α := l.reverse.find? fun a => key a = k

@[simp] theorem last?_nil (k : κ) : last? key [] k = none := rfl

theorem last?_concat (l : List α) (a : α) (k : κ) :
    last? key (l ++ [a]) k = if key a = k then some a else last? key l k := by
  rw [last?, List.reverse_concat, List.find?_cons]
  split
  · rename_i h
    rw [if_pos (of_decide_eq_true h)]
  · rename_i h
    rw [if_neg (of_decide_eq_false h)]
    rfl

theorem exists_last? {l : List α} {a : α} (h : a ∈ l) : ∃ b, last? key l (key a) = some b := by
  have hFound : (l.reverse.find? fun b => key b = key a).isSome = true :=
    List.find?_isSome.mpr ⟨a, List.mem_reverse.mpr h, decide_eq_true rfl⟩
  exact Option.isSome_iff_exists.mp hFound

variable {key}

theorem mem_of_last? {l : List α} {k : κ} {a : α} (h : last? key l k = some a) :
    a ∈ l ∧ key a = k := by
  unfold last? at h
  have hKey := List.find?_some h
  exact ⟨List.mem_reverse.mp (List.mem_of_find?_eq_some h), of_decide_eq_true hKey⟩

/-- The last entry of a key is also the last one of any key that is finer. -/
theorem last?_of_finer {ι : Type v} [DecidableEq ι] {finer : α → ι}
    (hFiner : ∀ a b, finer a = finer b → key a = key b) {l : List α} {k : κ} {a : α}
    (h : last? key l k = some a) : last? finer l (finer a) = some a := by
  induction l using List.reverseRecOn with
  | nil => cases h
  | append_singleton l b ih =>
    rw [last?_concat] at h ⊢
    split at h
    · obtain rfl := Option.some.inj h
      rw [if_pos rfl]
    · rename_i hOther
      have hKey := (mem_of_last? h).2
      rw [if_neg fun hSame => hOther ((hFiner _ _ hSame).trans hKey)]
      exact ih h

/-- Two keys that single out the same entries of a log have the same last one. -/
theorem last?_congr {ι : Type v} [DecidableEq ι] {other : α → ι} {l : List α} {k : κ} {i : ι}
    (h : ∀ a ∈ l, key a = k ↔ other a = i) : last? key l k = last? other l i := by
  induction l using List.reverseRecOn with
  | nil => rfl
  | append_singleton l a ih =>
    have hSame := h a (List.mem_append_right _ (List.mem_singleton_self a))
    rw [last?_concat, last?_concat, ih fun b hb => h b (List.mem_append_left _ hb)]
    by_cases hKey : key a = k
    · rw [if_pos hKey, if_pos (hSame.mp hKey)]
    · rw [if_neg hKey, if_neg fun hOther => hKey (hSame.mpr hOther)]

end Keyed

/-! ## Values of which the last one counts -/

section Latest

variable {β : Type v}

def latest (f : α → Option β) (l : List α) (b : β) : β := (l.filterMap f).getLast?.getD b

theorem latest_cons (f : α → Option β) (a : α) (l : List α) (b : β) :
    latest f (a :: l) b = latest f l ((f a).getD b) := by
  rw [latest, latest]
  cases h : f a with
  | none => rw [List.filterMap_cons_none h, Option.getD_none]
  | some c =>
    rw [List.filterMap_cons_some h, List.getLast?_cons, Option.getD_some, Option.getD_some]

theorem latest_concat (f : α → Option β) (l : List α) (a : α) (b : β) :
    latest f (l ++ [a]) b = (f a).getD (latest f l b) := by
  rw [latest, latest, List.filterMap_append]
  cases h : f a with
  | none => rw [List.filterMap_cons_none h, List.filterMap_nil, List.append_nil, Option.getD_none]
  | some c =>
    rw [List.filterMap_cons_some h, List.filterMap_nil, List.getLast?_concat, Option.getD_some,
      Option.getD_some]

/-- Values of a second kind change the last one only where one of them comes
after all values of the first kind and differs from the last of those. -/
theorem latest_or_eq_iff {f e : α → Option β} (hApart : ∀ a, f a = none ∨ e a = none)
    (l : List α) (b : β) :
    latest (fun a => (f a).or (e a)) l b = latest f l b ↔
      ∀ before a after c, l = before ++ a :: after → e a = some c →
        (∀ x ∈ after, f x = none ∧ e x = none) → latest f before b = c := by
  -- from the end: the last entry settles the matter unless it has no value
  induction l using List.reverseRecOn with
  | nil =>
    refine iff_of_true rfl ?_
    intro before a after c hSplit
    exact absurd hSplit.symm (List.append_ne_nil_of_right_ne_nil _ (List.cons_ne_nil _ _))
  | append_singleton l z ih =>
    rw [latest_concat, latest_concat]
    constructor
    · intro hSame before a after c hSplit ha hAfter
      obtain rfl | ⟨after, y, rfl⟩ := List.eq_nil_or_concat after
      · obtain ⟨rfl, hEq⟩ := List.append_inj' hSplit rfl
        obtain rfl := List.singleton_inj.mp hEq
        rw [(hApart z).resolve_right (by rw [ha]; exact Option.some_ne_none c), ha] at hSame
        exact hSame.symm
      · rw [List.concat_eq_append] at hSplit hAfter
        rw [← List.cons_append, ← List.append_assoc] at hSplit
        obtain ⟨rfl, hEq⟩ := List.append_inj' hSplit rfl
        obtain rfl := List.singleton_inj.mp hEq
        obtain ⟨hf, he⟩ := hAfter z (List.mem_append_right _ (List.mem_singleton_self z))
        rw [hf, he] at hSame
        exact ih.mp hSame before a after c rfl ha fun x hx => hAfter x (List.mem_append_left _ hx)
    · intro hLast
      cases hf : f z with
      | some c => rfl
      | none =>
        cases he : e z with
        | some c => exact (hLast l z [] c rfl he nofun).symm
        | none =>
          refine ih.mpr fun before a after c hSplit ha hAfter => ?_
          refine hLast before a (after ++ [z]) c (by rw [hSplit]; simp) ha fun x hx => ?_
          obtain hx | hx := List.mem_append.mp hx
          · exact hAfter x hx
          · rw [List.mem_singleton.mp hx]
            exact ⟨hf, he⟩

theorem filterMap_cons_toList (f : α → Option β) (a : α) (l : List α) :
    (a :: l).filterMap f = (f a).toList ++ l.filterMap f := by
  cases h : f a with
  | none => rw [List.filterMap_cons_none h, Option.toList_none, List.nil_append]
  | some c => rw [List.filterMap_cons_some h, Option.toList_some, List.singleton_append]

end Latest

end Foundation.Log

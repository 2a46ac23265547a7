import Mathlib.Data.List.Basic

/-!
# Words between white space

The words of a text are the maximal runs without white space. Many texts have
the same words; which ones is a relation between words and texts.
-/

namespace Foundation.Fields

universe u

variable {α : Type u} (isSpace : α → Bool)

def fields (text : List α) : List (List α) :=
  (text.splitOnP isSpace).filter fun w => !w.isEmpty

structure IsWord (w : List α) : Prop where
  nonempty : w ≠ []
  solid : ∀ a ∈ w, isSpace a = false

/-- The text holds the words in order, with white space between any two of them
and possibly before the first and after the last. -/
inductive Spaced : List (List α) → List α → Prop
  | nil : Spaced [] []
  | space {a : α} {ws : List (List α)} {text : List α} :
      isSpace a = true → Spaced ws text → Spaced ws (a :: text)
  | last {w : List α} : Spaced [w] w
  | word {w : List α} {a : α} {ws : List (List α)} {text : List α} :
      isSpace a = true → Spaced ws text → Spaced (w :: ws) (w ++ a :: text)

variable {isSpace}

theorem fields_space {a : α} (h : isSpace a = true) (text : List α) :
    fields isSpace (a :: text) = fields isSpace text := by
  rw [fields, fields, List.splitOnP_cons_eq_if_modifyHead, if_pos h]
  rfl

theorem IsWord.isEmpty {w : List α} (h : IsWord isSpace w) : w.isEmpty = false :=
  List.isEmpty_eq_false_iff.mpr h.nonempty

theorem IsWord.fields {w : List α} (h : IsWord isSpace w) : fields isSpace w = [w] := by
  rw [Fields.fields, List.splitOnP_eq_singleton h.solid]
  simp [h.isEmpty]

theorem IsWord.fields_append {w : List α} (h : IsWord isSpace w) {a : α} (ha : isSpace a = true)
    (text : List α) : Fields.fields isSpace (w ++ a :: text) = w :: Fields.fields isSpace text := by
  rw [Fields.fields, Fields.fields, List.splitOnP_append_cons_of_forall_mem h.solid a ha,
    List.filter_cons]
  simp [h.isEmpty]

theorem fields_of_spaced {ws : List (List α)} {text : List α} (h : Spaced isSpace ws text)
    (hWords : ∀ w ∈ ws, IsWord isSpace w) : fields isSpace text = ws := by
  induction h with
  | nil => rfl
  | space ha _ ih => rw [fields_space ha, ih hWords]
  | last => exact (hWords _ List.mem_cons_self).fields
  | word ha _ ih =>
    rw [(hWords _ List.mem_cons_self).fields_append ha,
      ih fun w hw => hWords w (List.mem_cons_of_mem _ hw)]

/-! ## Parts between separators -/

theorem notMem_of_mem_splitOn [BEq α] [LawfulBEq α] {a : α} {l part : List α}
    (h : part ∈ l.splitOn a) : a ∉ part := by
  induction l generalizing part with
  | nil =>
    rw [List.mem_singleton.mp h]
    exact List.not_mem_nil
  | cons x l ih =>
    rw [List.splitOn_cons_eq_if_modifyHead] at h
    split at h
    · obtain rfl | h := List.mem_cons.mp h
      · exact List.not_mem_nil
      · exact ih h
    · rename_i hx
      obtain ⟨first, rest, hSplit⟩ := List.exists_cons_of_ne_nil (List.splitOn_ne_nil a l)
      rw [hSplit, List.modifyHead_cons] at h
      rw [hSplit] at ih
      obtain rfl | h := List.mem_cons.mp h
      · rw [List.mem_cons, not_or]
        exact ⟨fun hSame => hx (beq_iff_eq.mpr hSame.symm), ih List.mem_cons_self⟩
      · exact ih (List.mem_cons_of_mem _ h)

end Foundation.Fields

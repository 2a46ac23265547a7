import Mathlib.Data.List.Basic

/-!
# Batches that commit on the way

A batch collects writes in a transaction. One more write than the transaction
takes commits it and opens the next one; a write that no transaction takes is an
error. Abandoning the batch discards the open transaction only: what was
committed on the way stays. So a batch that is abandoned leaves nothing behind
exactly as long as its writes fit into one transaction.
-/

namespace Foundation

universe u

variable {α : Type u}

/-- What one transaction takes; with some writes it also takes the first of them. -/
structure TxnLimit (α : Type u) where
  fits : List α → Bool
  initial : ∀ l m, fits (l ++ m) = true → fits l = true

structure WriteBatch (α : Type u) where
  committed : List α
  pending : List α

namespace WriteBatch

variable (limit : TxnLimit α) (wb : WriteBatch α)

def empty : WriteBatch α := ⟨[], []⟩

/-- All writes of the batch. -/
def sets : List α := wb.committed ++ wb.pending

/-- One write; false if it is refused. -/
def set (a : α) : WriteBatch α × Bool :=
  if limit.fits (wb.pending ++ [a]) then ({ wb with pending := wb.pending ++ [a] }, true)
  else if limit.fits [a] then ({ committed := wb.committed ++ wb.pending, pending := [a] }, true)
  else ({ committed := wb.committed ++ wb.pending, pending := [] }, false)

/-- Writes one after the other, up to the first one that is refused. -/
def setAll : WriteBatch α → List α → WriteBatch α × Bool
  | wb, [] => (wb, true)
  | wb, a :: l =>
    match wb.set limit a with
    | (wb, true) => setAll wb l
    | (wb, false) => (wb, false)

variable {limit}

theorem set_of_fits {a : α} (h : limit.fits (wb.pending ++ [a]) = true) :
    wb.set limit a = ({ wb with pending := wb.pending ++ [a] }, true) := if_pos h

/-- A write that fits into a transaction of its own is taken. -/
theorem exists_set {a : α} (h : limit.fits [a] = true) :
    ∃ next, wb.set limit a = (next, true) ∧ next.sets = wb.sets ++ [a] := by
  by_cases hFits : limit.fits (wb.pending ++ [a]) = true
  · exact ⟨_, wb.set_of_fits hFits, (List.append_assoc ..).symm⟩
  · refine ⟨{ committed := wb.committed ++ wb.pending, pending := [a] }, ?_, rfl⟩
    rw [set, if_neg hFits, if_pos h]

theorem exists_setAll {l : List α} (h : ∀ a ∈ l, limit.fits [a] = true) :
    ∃ next, wb.setAll limit l = (next, true) ∧ next.sets = wb.sets ++ l := by
  induction l generalizing wb with
  | nil => exact ⟨wb, rfl, (List.append_nil _).symm⟩
  | cons a l ih =>
    obtain ⟨hHead, hRest⟩ := List.forall_mem_cons.mp h
    obtain ⟨next, hSet, hSets⟩ := wb.exists_set hHead
    obtain ⟨last, hAll, hLast⟩ := ih next hRest
    refine ⟨last, ?_, ?_⟩
    · rw [setAll, hSet]
      exact hAll
    · rw [hLast, hSets, List.append_assoc, List.singleton_append]

/-- Writes that fit into the open transaction are not committed on the way. -/
theorem setAll_of_fits {l : List α} (h : limit.fits (wb.pending ++ l) = true) :
    wb.setAll limit l = ({ wb with pending := wb.pending ++ l }, true) := by
  induction l generalizing wb with
  | nil => rw [setAll, List.append_nil]
  | cons a l ih =>
    have hSplit : wb.pending ++ a :: l = (wb.pending ++ [a]) ++ l := by
      rw [List.append_assoc, List.singleton_append]
    rw [hSplit] at h ⊢
    rw [setAll, wb.set_of_fits (limit.initial _ _ h)]
    exact ih _ h

end WriteBatch

end Foundation

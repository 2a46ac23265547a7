import Mathlib.Data.List.Basic

/-!
# Chunks of a list, sent one after the other

A list is cut into chunks of one size, of which only the last may be shorter.
A sender offers items in order and stops at the first one that is refused.
-/

namespace Foundation

universe u v

/-! ## Chunks -/

structure IsChunking {α : Type u} (size : Nat) (l : List α) (chunks : List (List α)) : Prop where
  flatten : chunks.flatten = l
  nonempty : ∀ c ∈ chunks, c ≠ []
  bounded : ∀ c ∈ chunks, c.length ≤ size
  full : ∀ c ∈ chunks.dropLast, c.length = size

section Chunking

variable {α : Type u} {size : Nat} {l : List α} {chunks : List (List α)}

theorem IsChunking.nil : IsChunking size ([] : List α) [] where
  flatten := rfl
  nonempty _ h := absurd h List.not_mem_nil
  bounded _ h := absurd h List.not_mem_nil
  full _ h := absurd h List.not_mem_nil

theorem IsChunking.eq_nil_iff (h : IsChunking size l chunks) : chunks = [] ↔ l = [] := by
  constructor
  · rintro rfl
    exact h.flatten.symm
  · intro hl
    have hEmpty := List.flatten_eq_nil_iff.mp (h.flatten.trans hl)
    exact List.eq_nil_iff_forall_not_mem.mpr fun c hc => h.nonempty c hc (hEmpty c hc)

/-- A chunk off the front is full unless nothing is left behind it. -/
theorem IsChunking.cons (hSize : 0 < size) (hl : l ≠ [])
    (h : IsChunking size (l.drop size) chunks) :
    IsChunking size l (l.take size :: chunks) where
  flatten := by rw [List.flatten_cons, h.flatten, List.take_append_drop]
  nonempty := by
    intro c hc
    obtain rfl | hc := List.mem_cons.mp hc
    · rw [Ne, List.take_eq_nil_iff, not_or]
      exact ⟨Nat.ne_of_gt hSize, hl⟩
    · exact h.nonempty c hc
  bounded := by
    intro c hc
    obtain rfl | hc := List.mem_cons.mp hc
    · exact List.length_take_le _ _
    · exact h.bounded c hc
  full := by
    intro c hc
    by_cases hLast : chunks = []
    · rw [hLast] at hc
      cases hc
    · rw [List.dropLast_cons_of_ne_nil hLast] at hc
      obtain rfl | hc := List.mem_cons.mp hc
      · have hMore : l.drop size ≠ [] := fun hNil => hLast (h.eq_nil_iff.mpr hNil)
        rw [Ne, List.drop_eq_nil_iff] at hMore
        rw [List.length_take]
        omega
      · exact h.full c hc

end Chunking

/-! ## Sending in order -/

section Sending

variable {α : Type u} {ε : Type v} (send : List α → Option ε)

/-- Offers the items after those already sent; `send` answers the last offer of
a history, and an error ends the sending. -/
def sendInTurn (sent : List α) : List α → Option ε × List α
  | [] => (none, sent)
  | a :: rest =>
    match send (sent ++ [a]) with
    | some err => (some err, sent ++ [a])
    | none => sendInTurn (sent ++ [a]) rest

/-- The offers of a history after the first `i` are taken, up to the `k`-th. -/
def Takes (history : List α) (i k : Nat) : Prop :=
  ∀ j, i < j → j ≤ k → send (history.take j) = none

variable {send}

theorem sendInTurn_append (sent items rest : List α) :
    sendInTurn send sent (items ++ rest) =
      match sendInTurn send sent items with
      | (some err, all) => (some err, all)
      | (none, all) => sendInTurn send all rest := by
  induction items generalizing sent with
  | nil => rfl
  | cons a items ih =>
    rw [List.cons_append, sendInTurn, sendInTurn]
    cases send (sent ++ [a]) with
    | some err => rfl
    | none => exact ih _

theorem sendInTurn_taken (sent items : List α)
    (h : Takes send (sent ++ items) sent.length (sent ++ items).length) :
    sendInTurn send sent items = (none, sent ++ items) := by
  induction items generalizing sent with
  | nil => rw [sendInTurn, List.append_nil]
  | cons a items ih =>
    have hSplit : sent ++ a :: items = (sent ++ [a]) ++ items := by
      rw [List.append_assoc, List.singleton_append]
    have hOffer := h (sent ++ [a]).length (by simp) (by simp)
    rw [hSplit, List.take_left] at hOffer
    rw [sendInTurn, hOffer]
    refine (ih _ ?_).trans (by rw [← hSplit])
    rw [← hSplit]
    intro j hLow hHigh
    rw [List.length_append, List.length_singleton] at hLow
    exact h j (by omega) hHigh

/-- When no offer is refused, all items were sent. -/
theorem sendInTurn_eq_none {sent items all : List α}
    (h : sendInTurn send sent items = (none, all)) : all = sent ++ items := by
  induction items generalizing sent with
  | nil =>
    rw [List.append_nil]
    exact (congrArg Prod.snd h).symm
  | cons a items ih =>
    rw [sendInTurn] at h
    cases hOffer : send (sent ++ [a]) with
    | some err =>
      rw [hOffer] at h
      cases h
    | none =>
      rw [hOffer] at h
      rw [ih h, List.append_assoc, List.singleton_append]

theorem sendInTurn_refused (sent items : List α) {k : Nat} {err : ε} (hLow : sent.length < k)
    (hHigh : k ≤ (sent ++ items).length)
    (h : Takes send (sent ++ items) sent.length (k - 1))
    (hErr : send ((sent ++ items).take k) = some err) :
    sendInTurn send sent items = (some err, (sent ++ items).take k) := by
  induction items generalizing sent with
  | nil =>
    rw [List.append_nil] at hHigh
    omega
  | cons a items ih =>
    have hSplit : sent ++ a :: items = (sent ++ [a]) ++ items := by
      rw [List.append_assoc, List.singleton_append]
    have hTake : (sent ++ a :: items).take (sent ++ [a]).length = sent ++ [a] := by
      rw [hSplit, List.take_left]
    have hLength : (sent ++ [a]).length = sent.length + 1 := by simp
    rw [sendInTurn]
    obtain rfl | hLater := Nat.eq_or_lt_of_le (Nat.succ_le_of_lt hLow)
    · rw [Nat.succ_eq_add_one, ← hLength, hTake] at hErr ⊢
      rw [hErr]
    · have hOffer := h (sent ++ [a]).length (by omega) (by omega)
      rw [hTake] at hOffer
      rw [hOffer]
      rw [hSplit] at hHigh h hErr ⊢
      exact ih _ (by omega) hHigh (fun j hj hk => h j (by omega) hk) hErr

end Sending

end Foundation

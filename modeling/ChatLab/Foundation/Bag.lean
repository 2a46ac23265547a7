import Mathlib.Algebra.BigOperators.Group.List.Basic
import Mathlib.Data.List.Perm.Basic

/-!
# Lists as bags

Channels and pools are lists from which an element at any position is taken or
replaced. What such a list adds up to changes by that element alone.
-/

namespace Foundation.Bag

universe u v

variable {α : Type u} {l : List α} {i : Nat} {a : α}

theorem perm_cons_eraseIdx (h : l[i]? = some a) : l.Perm (a :: l.eraseIdx i) := by
  obtain ⟨hi, hGet⟩ := List.getElem?_eq_some_iff.mp h
  have hPerm := List.getElem_cons_eraseIdx_perm hi
  rw [hGet] at hPerm
  exact hPerm.symm

theorem set_perm_cons_eraseIdx (h : l[i]? = some a) (b : α) :
    (l.set i b).Perm (b :: l.eraseIdx i) := by
  obtain ⟨hi, _⟩ := List.getElem?_eq_some_iff.mp h
  have hSet : (l.set i b)[i]? = some b := by rw [List.getElem?_set_self hi]
  have hPerm := perm_cons_eraseIdx hSet
  rwa [List.eraseIdx_set_eq] at hPerm

theorem mem_eraseIdx_of_ne {x : α} (h : l[i]? = some a) (hx : x ∈ l) (hne : x ≠ a) :
    x ∈ l.eraseIdx i :=
  (List.mem_cons.mp ((perm_cons_eraseIdx h).mem_iff.mp hx)).resolve_left hne

theorem mem_set_of_ne {x : α} (h : l[i]? = some a) (hx : x ∈ l) (hne : x ≠ a) (b : α) :
    x ∈ l.set i b :=
  (set_perm_cons_eraseIdx h b).mem_iff.mpr (List.mem_cons_of_mem b (mem_eraseIdx_of_ne h hx hne))

/-- A position of a list with one more element is an old one or the new one. -/
theorem getElem?_concat_cases {x : α} (h : (l ++ [a])[i]? = some x) :
    (i < l.length ∧ l[i]? = some x) ∨ (i = l.length ∧ x = a) := by
  obtain hLt | hGe := Nat.lt_or_ge i l.length
  · rw [List.getElem?_append_left hLt] at h
    exact Or.inl ⟨hLt, h⟩
  · rw [List.getElem?_append_right hGe, List.getElem?_singleton] at h
    split at h
    · cases h
      exact Or.inr ⟨by omega, rfl⟩
    · cases h

theorem forall_getElem?_concat {P : Nat → α → Prop} (h : ∀ k x, l[k]? = some x → P k x) {y : α}
    (hy : P l.length y) : ∀ k x, (l ++ [y])[k]? = some x → P k x := by
  intro k x hk
  obtain ⟨_, hk⟩ | ⟨rfl, rfl⟩ := getElem?_concat_cases hk
  · exact h k x hk
  · exact hy

/-- What holds of every position of a list is shown again at the position that changed. -/
theorem forall_getElem?_set {P : Nat → α → Prop} {y : α}
    (h : ∀ k x, k ≠ i → l[k]? = some x → P k x) (hy : P i y) :
    ∀ k x, (l.set i y)[k]? = some x → P k x := by
  intro k x hk
  by_cases hSame : i = k
  · subst hSame
    rw [List.getElem?_set_self'] at hk
    obtain ⟨_, _, rfl⟩ := Option.map_eq_some_iff.mp hk
    exact hy
  · rw [List.getElem?_set_ne hSame] at hk
    exact h k x (Ne.symm hSame) hk

theorem forall_mem_concat {P : α → Prop} (h : ∀ y ∈ l, P y) {x : α} (hx : P x) :
    ∀ y ∈ l ++ [x], P y := by
  intro y hy
  obtain hy | hy := List.mem_append.mp hy
  · exact h y hy
  · exact List.mem_singleton.mp hy ▸ hx

theorem forall_mem_set {P : α → Prop} (h : ∀ y ∈ l, P y) {x : α} (hx : P x) (i : Nat) :
    ∀ y ∈ l.set i x, P y := by
  intro y hy
  obtain hy | rfl := List.mem_or_eq_of_mem_set hy
  · exact h y hy
  · exact hx

theorem countP_set (p : α → Bool) (h : l[i]? = some a) (b : α) :
    (p a).toNat + (l.set i b).countP p = (p b).toNat + l.countP p := by
  have hSet := (set_perm_cons_eraseIdx h b).countP_eq p
  have hErase := (perm_cons_eraseIdx h).countP_eq p
  have hCons : ∀ (x : α) (rest : List α),
      (x :: rest).countP p = (p x).toNat + rest.countP p := by
    intro x rest
    cases hx : p x with
    | false => simp [hx]
    | true => simp [hx, Nat.add_comm]
  rw [hCons] at hSet hErase
  omega

section Count

variable {τ : Type v} [BEq τ] (f : α → List τ)

theorem count_flatMap_eraseIdx (h : l[i]? = some a) (n : τ) :
    (l.flatMap f).count n = (f a).count n + ((l.eraseIdx i).flatMap f).count n := by
  rw [((perm_cons_eraseIdx h).flatMap_right f).count_eq, List.flatMap_cons, List.count_append]

theorem count_flatMap_set (h : l[i]? = some a) (b : α) (n : τ) :
    (f a).count n + ((l.set i b).flatMap f).count n = (f b).count n + (l.flatMap f).count n := by
  have hSet := ((set_perm_cons_eraseIdx h b).flatMap_right f).count_eq n
  have hErase := count_flatMap_eraseIdx f h n
  rw [List.flatMap_cons, List.count_append] at hSet
  omega

end Count

section Sum

variable {M : Type v} [AddCommMonoid M] (f : α → M)

theorem sum_map_eraseIdx (h : l[i]? = some a) :
    f a + ((l.eraseIdx i).map f).sum = (l.map f).sum := by
  rw [((perm_cons_eraseIdx h).map f).sum_eq, List.map_cons, List.sum_cons]

theorem sum_map_set (h : l[i]? = some a) (b : α) :
    f a + ((l.set i b).map f).sum = f b + (l.map f).sum := by
  rw [((set_perm_cons_eraseIdx h b).map f).sum_eq, List.map_cons, List.sum_cons,
    add_left_comm, sum_map_eraseIdx f h]

end Sum

end Foundation.Bag

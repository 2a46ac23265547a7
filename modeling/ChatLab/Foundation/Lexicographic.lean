import Mathlib.Data.List.Lex
import Mathlib.Order.Lattice

/-!
# Prefix ranges in the lexicographic order

The keys that extend a prefix form an interval of the lexicographic order.
These are the facts by which a scan bounded by a seek target and a prefix
test visits exactly the keys it is meant to visit.
-/

namespace Foundation.Lexicographic

universe u

variable {α : Type u} [LinearOrder α]

theorem append_lt_append_iff (p a b : List α) : p ++ a < p ++ b ↔ a < b := by
  constructor
  · intro h
    by_contra hNot
    obtain hLt | rfl := (not_lt.mp hNot).lt_or_eq
    · exact lt_asymm h (List.append_left_lt hLt)
    · exact lt_irrefl _ h
  · exact fun h => List.append_left_lt h

theorem append_le_append_iff (p a b : List α) : p ++ a ≤ p ++ b ↔ a ≤ b := by
  rw [← not_lt, ← not_lt, append_lt_append_iff]

theorem le_append (p q : List α) : p ≤ p ++ q := by
  have h := (append_le_append_iff p [] q).mpr (not_lt.mp (List.not_lt_nil q))
  rwa [List.append_nil] at h

theorem isPrefix_of_between {p q k : List α} (hLow : p ≤ k) (hHigh : k ≤ p ++ q) : p <+: k := by
  induction p generalizing k with
  | nil => exact List.nil_prefix
  | cons a p ih =>
    cases k with
    | nil => exact absurd (List.nil_lt_cons a p) (not_lt.mpr hLow)
    | cons b k =>
      have hab : a = b := by
        obtain h | h | h := lt_trichotomy a b
        · exact absurd (List.Lex.rel h : a :: (p ++ q) < b :: k) (not_lt.mpr hHigh)
        · exact h
        · exact absurd (List.Lex.rel h : b :: k < a :: p) (not_lt.mpr hLow)
      subst hab
      have hLow' : p ≤ k := (append_le_append_iff [a] p k).mp hLow
      have hHigh' : k ≤ p ++ q := (append_le_append_iff [a] k (p ++ q)).mp hHigh
      exact List.cons_prefix_cons.mpr ⟨rfl, ih hLow' hHigh'⟩

theorem append_lt_append_of_lt {a b : List α} (x y : List α) (hLength : a.length = b.length)
    (h : a < b) : a ++ x < b ++ y := by
  induction a generalizing b with
  | nil =>
    have hb : b = [] := List.length_eq_zero_iff.mp hLength.symm
    subst hb
    exact absurd h (lt_irrefl _)
  | cons c a ih =>
    cases b with
    | nil => cases hLength
    | cons d b =>
      obtain hcd | ⟨rfl, hab⟩ := List.cons_lt_cons_iff.mp h
      · exact List.Lex.rel hcd
      · exact List.Lex.cons (ih (Nat.succ.inj hLength) hab)

end Foundation.Lexicographic

import Mathlib.Data.List.Infix

/-!
# Slices over a heap of backing arrays

A slice header names a backing array and a length; its capacity is the size of
the array. Appending writes in place while there is room and otherwise copies
into a fresh array, so two headers may or may not see each other's elements.
Headers start at the first cell: slicing expressions are not covered.
-/

namespace Foundation

universe u

structure SliceHeap (α : Type u) where
  arrays : List (List α)
deriving DecidableEq

structure Slice where
  array : Nat
  len : Nat
deriving DecidableEq, Repr

namespace SliceHeap

variable {α : Type u}

def empty : SliceHeap α := ⟨[]⟩

def backing (h : SliceHeap α) (s : Slice) : List α := (h.arrays[s.array]?).getD []

def read (h : SliceHeap α) (s : Slice) : List α := (h.backing s).take s.len

def make (h : SliceHeap α) (n : Nat) (zero : α) : SliceHeap α × Slice :=
  (⟨h.arrays ++ [List.replicate n zero]⟩, ⟨h.arrays.length, n⟩)

/-- The runtime chooses how many spare cells a grown array has. -/
def append (h : SliceHeap α) (s : Slice) (v zero : α) (spare : Nat) : SliceHeap α × Slice :=
  if s.len < (h.backing s).length then
    (⟨h.arrays.set s.array ((h.backing s).set s.len v)⟩, ⟨s.array, s.len + 1⟩)
  else
    (⟨h.arrays ++ [h.read s ++ v :: List.replicate spare zero]⟩, ⟨h.arrays.length, s.len + 1⟩)

/-- A fresh array that holds just these values. -/
def alloc (h : SliceHeap α) (values : List α) : SliceHeap α × Slice :=
  (⟨h.arrays ++ [values]⟩, ⟨h.arrays.length, values.length⟩)

/-- Values are copied to the start of an array that has room for them, and to a
fresh one otherwise. -/
def overwrite (h : SliceHeap α) (s : Slice) (values : List α) : SliceHeap α × Slice :=
  if (h.backing s).length < values.length then h.alloc values
  else
    (⟨h.arrays.set s.array (values ++ (h.backing s).drop values.length)⟩, ⟨s.array, values.length⟩)

theorem read_alloc (h : SliceHeap α) (values : List α) :
    (h.alloc values).1.read (h.alloc values).2 = values := by
  simp [alloc, read, backing]

theorem read_alloc_of_live (h : SliceHeap α) (values : List α) {s : Slice}
    (hLive : s.array < h.arrays.length) : (h.alloc values).1.read s = h.read s := by
  rw [read, read, backing, backing, alloc, List.getElem?_append_left hLive]

/-- The header is within its array, and the array begins with the stem. -/
structure Starts (h : SliceHeap α) (stem : List α) (s : Slice) : Prop where
  live : s.array < h.arrays.length
  bound : s.len ≤ (h.backing s).length
  covers : stem.length ≤ s.len
  starts : stem <+: h.backing s

theorem Starts.read {h : SliceHeap α} {stem : List α} {s : Slice} (hs : h.Starts stem s) :
    stem <+: h.read s := by
  rw [SliceHeap.read, List.prefix_take_iff]
  exact ⟨hs.starts, hs.covers⟩

theorem starts_make (h : SliceHeap α) (n : Nat) (zero : α) :
    (h.make n zero).1.Starts (List.replicate n zero) (h.make n zero).2 := by
  have hBacking : (h.make n zero).1.backing (h.make n zero).2 = List.replicate n zero := by
    simp [make, backing]
  refine ⟨?_, ?_, ?_, ?_⟩
  · simp [make]
  · rw [hBacking, List.length_replicate]
    exact le_rfl
  · rw [List.length_replicate]
    exact le_rfl
  · rw [hBacking]

theorem stem_set {stem l : List α} (h : stem <+: l) {i : Nat} (hi : stem.length ≤ i) (v : α) :
    stem <+: l.set i v := by
  obtain ⟨rest, rfl⟩ := h
  rw [List.set_append_right _ _ hi]
  exact List.prefix_append _ _

theorem Starts.append {h : SliceHeap α} {stem : List α} {s t : Slice} (hs : h.Starts stem s)
    (ht : h.Starts stem t) (v zero : α) (spare : Nat) :
    (h.append s v zero spare).1.Starts stem t := by
  rw [SliceHeap.append]
  split
  · by_cases hSame : s.array = t.array
    · have hBacking : (⟨h.arrays.set s.array ((h.backing s).set s.len v)⟩ : SliceHeap α).backing t =
          (h.backing t).set s.len v := by
        have hEq : h.backing s = h.backing t := by rw [backing, backing, hSame]
        rw [backing, ← hSame, List.getElem?_set_self hs.live, Option.getD_some, hEq]
      refine ⟨?_, ?_, ht.covers, ?_⟩
      · rw [List.length_set]
        exact ht.live
      · rw [hBacking, List.length_set]
        exact ht.bound
      · rw [hBacking]
        exact stem_set ht.starts hs.covers v
    · have hBacking : (⟨h.arrays.set s.array ((h.backing s).set s.len v)⟩ : SliceHeap α).backing t =
          h.backing t := by
        rw [backing, List.getElem?_set_ne hSame]
        rfl
      refine ⟨?_, ?_, ht.covers, ?_⟩
      · rw [List.length_set]
        exact ht.live
      · rw [hBacking]
        exact ht.bound
      · rw [hBacking]
        exact ht.starts
  · have hBacking : (⟨h.arrays ++ [h.read s ++ v :: List.replicate spare zero]⟩ :
        SliceHeap α).backing t = h.backing t := by
      rw [backing, backing, List.getElem?_append_left ht.live]
    refine ⟨?_, ?_, ht.covers, ?_⟩
    · rw [List.length_append]
      have hLive := ht.live
      omega
    · rw [hBacking]
      exact ht.bound
    · rw [hBacking]
      exact ht.starts

theorem Starts.append_self {h : SliceHeap α} {stem : List α} {s : Slice} (hs : h.Starts stem s)
    (v zero : α) (spare : Nat) :
    (h.append s v zero spare).1.Starts stem (h.append s v zero spare).2 := by
  have hCovers := hs.covers
  rw [SliceHeap.append]
  split
  · rename_i hRoom
    have hBacking : (⟨h.arrays.set s.array ((h.backing s).set s.len v)⟩ : SliceHeap α).backing
        ⟨s.array, s.len + 1⟩ = (h.backing s).set s.len v := by
      rw [backing, List.getElem?_set_self hs.live, Option.getD_some]
    refine ⟨?_, ?_, ?_, ?_⟩
    · rw [List.length_set]
      exact hs.live
    · rw [hBacking, List.length_set]
      exact hRoom
    · exact Nat.le_succ_of_le hCovers
    · rw [hBacking]
      exact stem_set hs.starts hs.covers v
  · have hBacking : (⟨h.arrays ++ [h.read s ++ v :: List.replicate spare zero]⟩ :
        SliceHeap α).backing ⟨h.arrays.length, s.len + 1⟩ =
          h.read s ++ v :: List.replicate spare zero := by
      simp [backing]
    have hLength : (h.read s).length = s.len := by
      rw [SliceHeap.read, List.length_take, Nat.min_eq_left hs.bound]
    refine ⟨?_, ?_, ?_, ?_⟩
    · simp
    · rw [hBacking, List.length_append, List.length_cons, hLength]
      simp
    · exact Nat.le_succ_of_le hCovers
    · rw [hBacking]
      exact hs.read.trans (List.prefix_append _ _)

end SliceHeap

end Foundation

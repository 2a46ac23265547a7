import ChatLab.Foundation.SliceHeap

/-!
# An iterator that reads ahead into items it reuses

The iterator holds the entry it stands at and the entries it has read ahead,
each value in the buffer of an item. An item that the reader leaves waits to be
filled again, with the next entry of the source. A slice that the reader has
kept then shows the new value, or the start of it, unless the new value was too
long for the buffer and went to a fresh one.

The keys that the reader meets are those of the source whatever is kept. The
values are too if the source was read ahead to its end by the seek.
-/

namespace Foundation

universe u v

structure PrefetchIterator (κ : Type u) (α : Type v) where
  heap : SliceHeap α
  item : Option (κ × Slice)
  data : List (κ × Slice)
  waste : List Slice
  source : List (κ × List α)

namespace PrefetchIterator

variable {κ : Type u} {α : Type v}

/-- A new item has no buffer. -/
def fill (heap : SliceHeap α) : Option Slice → List α → SliceHeap α × Slice
  | none, value => heap.alloc value
  | some buffer, value => heap.overwrite buffer value

def setItem (it : PrefetchIterator κ α) (e : κ × Slice) : PrefetchIterator κ α :=
  match it.item with
  | none => { it with item := some e }
  | some _ => { it with data := it.data ++ [e] }

def parseItem (it : PrefetchIterator κ α) : PrefetchIterator κ α :=
  match it.source with
  | [] => it
  | (key, value) :: source =>
    let filled := fill it.heap it.waste.head? value
    setItem { it with heap := filled.1, waste := it.waste.tail, source := source } (key, filled.2)

def prefetch : Nat → PrefetchIterator κ α → PrefetchIterator κ α
  | 0, it => it
  | n + 1, it => prefetch n it.parseItem

def seek (size : Nat) (source : List (κ × List α)) : PrefetchIterator κ α :=
  prefetch size { heap := .empty, item := none, data := [], waste := [], source := source }

def next (it : PrefetchIterator κ α) : PrefetchIterator κ α :=
  parseItem { it with
    item := it.data.head?
    data := it.data.tail
    waste := it.waste ++ (it.item.map Prod.snd).toList }

def slots (it : PrefetchIterator κ α) : List (κ × Slice) := it.item.toList ++ it.data

def keys (it : PrefetchIterator κ α) : List κ := it.slots.map Prod.fst ++ it.source.map Prod.fst

/-! ## Keys -/

/-- Entries are read ahead only behind an entry to stand at. -/
def Fronted (it : PrefetchIterator κ α) : Prop := it.item = none → it.data = []

/-- An iterator that stands nowhere is at the end of its source. -/
def Ready (it : PrefetchIterator κ α) : Prop := it.item = none → it.keys = []

variable {it : PrefetchIterator κ α}

theorem Fronted.slots_setItem (h : it.Fronted) (e : κ × Slice) :
    (it.setItem e).slots = it.slots ++ [e] := by
  cases hItem : it.item with
  | none => simp [setItem, slots, hItem, h hItem]
  | some d => simp [setItem, slots, hItem]

theorem item_setItem_ne_none (it : PrefetchIterator κ α) (e : κ × Slice) :
    (it.setItem e).item ≠ none := by
  cases hItem : it.item with
  | none => simp [setItem, hItem]
  | some d => simp [setItem, hItem]

theorem source_setItem (it : PrefetchIterator κ α) (e : κ × Slice) :
    (it.setItem e).source = it.source := by
  rw [setItem]
  split <;> rfl

theorem Fronted.keys_parseItem (h : it.Fronted) : it.parseItem.keys = it.keys := by
  rw [parseItem]
  split
  · rfl
  · rename_i key value source hSource
    have hFronted : Fronted { it with
        heap := (fill it.heap it.waste.head? value).1
        waste := it.waste.tail
        source := source } := h
    rw [keys, hFronted.slots_setItem, source_setItem, keys, hSource]
    simp [slots]

/-- After one entry has been parsed the iterator is ready. -/
theorem Fronted.ready_parseItem (h : it.Fronted) : it.parseItem.Ready := by
  intro hNone
  rw [h.keys_parseItem]
  rw [parseItem] at hNone
  split at hNone
  · rename_i hSource
    simp [keys, slots, hNone, h hNone, hSource]
  · exact absurd hNone (item_setItem_ne_none _ _)

theorem Ready.fronted (h : it.Ready) : it.Fronted := by
  intro hNone
  have hKeys := h hNone
  rw [keys, slots, hNone] at hKeys
  exact List.map_eq_nil_iff.mp (List.append_eq_nil_iff.mp hKeys).1

theorem Ready.prefetch (h : it.Ready) (n : Nat) :
    (prefetch n it).Ready ∧ (prefetch n it).keys = it.keys := by
  induction n generalizing it with
  | zero => exact ⟨h, rfl⟩
  | succ n ih =>
    obtain ⟨hReady, hKeys⟩ := ih h.fronted.ready_parseItem
    exact ⟨hReady, hKeys.trans h.fronted.keys_parseItem⟩

theorem seek_spec {size : Nat} (hSize : 0 < size) (source : List (κ × List α)) :
    (seek size source).Ready ∧ (seek size source).keys = source.map Prod.fst := by
  obtain ⟨n, rfl⟩ := Nat.exists_eq_succ_of_ne_zero hSize.ne'
  have hStart : Fronted ({ heap := .empty, item := none, data := [], waste := []
                           source := source } : PrefetchIterator κ α) := fun _ => rfl
  obtain ⟨hReady, hKeys⟩ := hStart.ready_parseItem.prefetch n
  exact ⟨hReady, hKeys.trans hStart.keys_parseItem⟩

theorem Ready.next (h : it.Ready) : it.next.Ready ∧ it.next.keys = it.keys.tail := by
  have hFronted : Fronted { it with
      item := it.data.head?
      data := it.data.tail
      waste := it.waste ++ (it.item.map Prod.snd).toList } := by
    intro hNone
    rw [List.head?_eq_none_iff.mp hNone, List.tail_nil]
  refine ⟨hFronted.ready_parseItem, hFronted.keys_parseItem.trans ?_⟩
  cases hItem : it.item with
  | none =>
    have hEnd := h hItem
    have hData := h.fronted hItem
    rw [hEnd, List.tail_nil, keys, slots, hData]
    rw [keys] at hEnd
    exact (List.append_eq_nil_iff.mp hEnd).2
  | some e => cases hData : it.data <;> simp [keys, slots, hItem, hData]

theorem Ready.key_item (h : it.Ready) : it.item.map Prod.fst = it.keys.head? := by
  cases hItem : it.item with
  | none => rw [h hItem, Option.map_none, List.head?_nil]
  | some e => simp [keys, slots, hItem]

/-! ## What a reader meets -/

/-- The entries that the iterator stands at in its next `n` positions, with the
slices as they are handed out there. -/
def visits : Nat → PrefetchIterator κ α → List (κ × Slice)
  | 0, _ => []
  | n + 1, it =>
    match it.item with
    | none => []
    | some e => e :: visits n it.next

theorem Ready.keys_visits (h : it.Ready) {n : Nat} (hn : it.keys.length = n) :
    (visits n it).map Prod.fst = it.keys := by
  induction n generalizing it with
  | zero => rw [List.eq_nil_of_length_eq_zero hn, visits, List.map_nil]
  | succ n ih =>
    cases hItem : it.item with
    | none => rw [visits, hItem, h hItem, List.map_nil]
    | some e =>
      have hKeys : it.keys = e.1 :: it.keys.tail := by simp [keys, slots, hItem]
      obtain ⟨hReady, hNext⟩ := h.next
      have hTail := ih hReady (by rw [hNext, List.length_tail, hn, Nat.add_sub_cancel])
      rw [visits, hItem, hKeys, List.map_cons, hTail, hNext]

/-! ## A source that was read to its end -/

theorem next_of_source_nil (hSource : it.source = []) :
    it.next.source = [] ∧ it.next.heap = it.heap := by
  simp [next, parseItem, hSource]

theorem Ready.slots_next (h : it.Ready) (hSource : it.source = []) :
    it.next.slots = it.slots.tail := by
  cases hItem : it.item with
  | none => simp [PrefetchIterator.next, parseItem, hSource, slots, hItem, h.fronted hItem]
  | some e =>
    cases hData : it.data <;>
      simp [PrefetchIterator.next, parseItem, hSource, slots, hItem, hData]

theorem Ready.visits_eq_slots (h : it.Ready) (hSource : it.source = []) {n : Nat}
    (hn : it.keys.length = n) : visits n it = it.slots := by
  induction n generalizing it with
  | zero =>
    have hKeys := List.eq_nil_of_length_eq_zero hn
    rw [keys, hSource, List.map_nil, List.append_nil] at hKeys
    rw [List.map_eq_nil_iff.mp hKeys, visits]
  | succ n ih =>
    cases hItem : it.item with
    | none => simp [visits, hItem, slots, h.fronted hItem]
    | some e =>
      obtain ⟨hReady, hNext⟩ := h.next
      have hTail := ih hReady (next_of_source_nil hSource).1
        (by rw [hNext, List.length_tail, hn, Nat.add_sub_cancel])
      rw [visits, hItem, hTail, h.slots_next hSource]
      simp [slots, hItem]

/-- The entries as their slices show them. -/
def shown (it : PrefetchIterator κ α) : List (κ × List α) :=
  it.slots.map fun e => (e.1, it.heap.read e.2)

/-- Nothing has been left yet, so that each item has a buffer of its own. -/
structure Loaded (it : PrefetchIterator κ α) : Prop where
  fronted : it.Fronted
  waste : it.waste = []
  live : ∀ e ∈ it.slots, e.2.array < it.heap.arrays.length

theorem Loaded.parseItem (h : it.Loaded) {key : κ} {value : List α} {source : List (κ × List α)}
    (hSource : it.source = (key, value) :: source) :
    it.parseItem.Loaded ∧ it.parseItem.source = source ∧
      it.parseItem.shown = it.shown ++ [(key, value)] := by
  have hFronted : Fronted { it with
      heap := (it.heap.alloc value).1
      waste := []
      source := source } := h.fronted
  have hParse : it.parseItem = setItem { it with
      heap := (it.heap.alloc value).1
      waste := []
      source := source } (key, (it.heap.alloc value).2) := by
    simp only [PrefetchIterator.parseItem, hSource, h.waste, List.head?_nil, List.tail_nil, fill]
  have hSlots := hFronted.slots_setItem (key, (it.heap.alloc value).2)
  have hKept : it.parseItem.heap = (it.heap.alloc value).1 ∧ it.parseItem.waste = [] := by
    rw [hParse, setItem]
    split <;> exact ⟨rfl, rfl⟩
  rw [← hParse] at hSlots
  refine ⟨⟨?_, hKept.2, ?_⟩, ?_, ?_⟩
  · intro hNone
    rw [hParse] at hNone
    exact absurd hNone (item_setItem_ne_none _ _)
  · intro e he
    rw [hSlots] at he
    rw [hKept.1, SliceHeap.alloc, List.length_append, List.length_singleton]
    obtain he | he := List.mem_append.mp he
    · exact Nat.lt_succ_of_lt (h.live e he)
    · rw [List.mem_singleton.mp he]
      exact Nat.lt_succ_self _
  · rw [hParse, source_setItem]
  · rw [shown, hSlots, hKept.1, List.map_append, List.map_singleton, SliceHeap.read_alloc, shown]
    congr 1
    refine List.map_congr_left fun e he => ?_
    rw [SliceHeap.read_alloc_of_live _ _ (h.live e he)]

theorem Loaded.prefetch (h : it.Loaded) {n : Nat} (hn : it.source.length ≤ n) :
    (prefetch n it).source = [] ∧ (prefetch n it).shown = it.shown ++ it.source := by
  induction n generalizing it with
  | zero =>
    have hSource := List.eq_nil_of_length_eq_zero (Nat.le_zero.mp hn)
    rw [PrefetchIterator.prefetch, hSource, List.append_nil]
    exact ⟨rfl, rfl⟩
  | succ n ih =>
    cases hSource : it.source with
    | nil =>
      have hSame : it.parseItem = it := by rw [PrefetchIterator.parseItem, hSource]
      have hNext := ih h (by rw [hSource]; exact Nat.zero_le n)
      rw [PrefetchIterator.prefetch, hSame]
      rwa [hSource] at hNext
    | cons e source =>
      obtain ⟨hLoaded, hRest, hShown⟩ := h.parseItem hSource
      rw [hSource, List.length_cons] at hn
      have hNext := ih hLoaded (by rw [hRest]; exact Nat.le_of_succ_le_succ hn)
      rw [hRest, hShown, List.append_assoc, List.singleton_append] at hNext
      exact hNext

theorem seek_of_length_le {size : Nat} {source : List (κ × List α)} (h : source.length ≤ size) :
    (seek size source).source = [] ∧ (seek size source).shown = source := by
  have hStart : Loaded ({ heap := .empty, item := none, data := [], waste := []
                          source := source } : PrefetchIterator κ α) :=
    ⟨fun _ => rfl, rfl, fun e he => absurd he List.not_mem_nil⟩
  exact hStart.prefetch h

theorem Ready.shown_next (h : it.Ready) (hSource : it.source = []) :
    it.next.shown = it.shown.tail := by
  rw [shown, h.slots_next hSource, (next_of_source_nil hSource).2, shown, List.map_tail]

end PrefetchIterator

end Foundation

import ChatLab.Foundation.Log
import Mathlib.Data.List.Lex
import Mathlib.Data.List.Sort

/-!
# Finite maps kept in key order

The entries of a map are a list whose keys strictly increase, so a map has
one representation: two maps that answer every lookup alike are equal. The
order also gives the iterators of a sorted store. Nothing here fixes the key
type; maps whose iteration order is unspecified use the same structure and
take the order of a visit as a separate argument.
-/

namespace Foundation

universe u v

structure OrderedMap (K : Type u) (V : Type v) [LinearOrder K] where
  entries : List (K × V)
  sorted : entries.Pairwise fun a b => a.1 < b.1

namespace OrderedMap

variable {K : Type u} {V : Type v} [LinearOrder K]

instance [DecidableEq V] : DecidableEq (OrderedMap K V) := fun m n =>
  decidable_of_iff (m.entries = n.entries) (by
    cases m
    cases n
    simp)

def empty : OrderedMap K V := ⟨[], List.Pairwise.nil⟩

def insertEntry (k : K) (v : V) : List (K × V) → List (K × V)
  | [] => [(k, v)]
  | e :: rest =>
    if k < e.1 then (k, v) :: e :: rest
    else if k = e.1 then (k, v) :: rest
    else e :: insertEntry k v rest

theorem mem_insertEntry {k : K} {v : V} {l : List (K × V)}
    (hl : l.Pairwise fun a b => a.1 < b.1) (e : K × V) :
    e ∈ insertEntry k v l ↔ e = (k, v) ∨ (e ∈ l ∧ e.1 ≠ k) := by
  induction l with
  | nil => simp [insertEntry]
  | cons d rest ih =>
    obtain ⟨hd, hRest⟩ := List.pairwise_cons.mp hl
    have hAbove : ∀ x ∈ rest, k ≤ d.1 → x.1 ≠ k := by
      intro x hx hk hEq
      exact absurd (hd x hx) (by rw [hEq]; exact not_lt.mpr hk)
    simp only [insertEntry]
    split
    · rename_i hLt
      simp only [List.mem_cons]
      constructor
      · rintro (rfl | rfl | he)
        · exact .inl rfl
        · exact .inr ⟨.inl rfl, hLt.ne'⟩
        · exact .inr ⟨.inr he, hAbove e he hLt.le⟩
      · rintro (rfl | ⟨he, _⟩)
        · exact .inl rfl
        · exact .inr he
    · split
      · rename_i hEq
        simp only [List.mem_cons]
        constructor
        · rintro (rfl | he)
          · exact .inl rfl
          · exact .inr ⟨.inr he, hAbove e he hEq.le⟩
        · rintro (rfl | ⟨rfl | he, hne⟩)
          · exact .inl rfl
          · exact absurd hEq.symm hne
          · exact .inr he
      · rename_i hNe
        simp only [List.mem_cons, ih hRest]
        constructor
        · rintro (rfl | rfl | ⟨he, hne⟩)
          · exact .inr ⟨.inl rfl, fun h => hNe h.symm⟩
          · exact .inl rfl
          · exact .inr ⟨.inr he, hne⟩
        · rintro (rfl | ⟨rfl | he, hne⟩)
          · exact .inr (.inl rfl)
          · exact .inl rfl
          · exact .inr (.inr ⟨he, hne⟩)

theorem insertEntry_sorted {k : K} {v : V} {l : List (K × V)}
    (hl : l.Pairwise fun a b => a.1 < b.1) :
    (insertEntry k v l).Pairwise fun a b => a.1 < b.1 := by
  induction l with
  | nil => simp [insertEntry]
  | cons d rest ih =>
    obtain ⟨hd, hRest⟩ := List.pairwise_cons.mp hl
    simp only [insertEntry]
    split
    · rename_i hLt
      refine List.pairwise_cons.mpr ⟨?_, hl⟩
      intro x hx
      obtain rfl | hx := List.mem_cons.mp hx
      · exact hLt
      · exact hLt.trans (hd x hx)
    · split
      · rename_i hEq
        exact List.pairwise_cons.mpr ⟨fun x hx => hEq ▸ hd x hx, hRest⟩
      · rename_i hLt hNe
        refine List.pairwise_cons.mpr ⟨?_, ih hRest⟩
        intro x hx
        obtain rfl | ⟨hx, _⟩ := (mem_insertEntry hRest x).mp hx
        · exact lt_of_le_of_ne (not_lt.mp hLt) (fun h => hNe h.symm)
        · exact hd x hx

def insert (m : OrderedMap K V) (k : K) (v : V) : OrderedMap K V :=
  ⟨insertEntry k v m.entries, insertEntry_sorted m.sorted⟩

def erase (m : OrderedMap K V) (k : K) : OrderedMap K V :=
  ⟨m.entries.filter fun e => e.1 ≠ k, m.sorted.filter _⟩

def get? (m : OrderedMap K V) (k : K) : Option V := m.entries.lookup k

def keys (m : OrderedMap K V) : List K := m.entries.map Prod.fst

def countValues (m : OrderedMap K V) (p : V → Bool) : Nat := m.entries.countP fun e => p e.2

theorem keys_nodup (m : OrderedMap K V) : m.keys.Nodup := by
  refine List.pairwise_map.mpr (m.sorted.imp ?_)
  intro a b h
  exact h.ne

theorem entries_nodup (m : OrderedMap K V) : m.entries.Nodup :=
  m.sorted.imp fun h hEq => (congrArg Prod.fst hEq).not_lt h

theorem value_unique (m : OrderedMap K V) {k : K} {v w : V}
    (hv : (k, v) ∈ m.entries) (hw : (k, w) ∈ m.entries) : v = w :=
  congrArg Prod.snd (List.inj_on_of_nodup_map m.keys_nodup hv hw rfl)

theorem get?_eq_some_iff (m : OrderedMap K V) {k : K} {v : V} :
    m.get? k = some v ↔ (k, v) ∈ m.entries := by
  have hMem : ∀ w, m.get? k = some w → (k, w) ∈ m.entries := by
    intro w hw
    obtain ⟨l₁, l₂, hl, _⟩ := List.lookup_eq_some_iff.mp hw
    rw [hl]
    exact List.mem_append_right _ List.mem_cons_self
  constructor
  · exact hMem v
  · intro h
    cases hGet : m.get? k with
    | some w => rw [m.value_unique (hMem w hGet) h]
    | none =>
      have hNone := List.lookup_eq_none_iff.mp hGet (k, v) h
      simp at hNone

theorem get?_eq_none_iff (m : OrderedMap K V) {k : K} : m.get? k = none ↔ k ∉ m.keys := by
  constructor
  · intro h hk
    obtain ⟨⟨k', v⟩, hMem, rfl⟩ := List.mem_map.mp hk
    rw [(m.get?_eq_some_iff).mpr hMem] at h
    cases h
  · intro h
    cases hGet : m.get? k with
    | none => rfl
    | some v => exact absurd (List.mem_map.mpr ⟨(k, v), m.get?_eq_some_iff.mp hGet, rfl⟩) h

theorem mem_keys_iff (m : OrderedMap K V) {k : K} : k ∈ m.keys ↔ ∃ v, m.get? k = some v := by
  constructor
  · intro hk
    obtain ⟨⟨k', v⟩, hMem, rfl⟩ := List.mem_map.mp hk
    exact ⟨v, m.get?_eq_some_iff.mpr hMem⟩
  · rintro ⟨v, hv⟩
    exact List.mem_map.mpr ⟨(k, v), m.get?_eq_some_iff.mp hv, rfl⟩

theorem ext_get? {m n : OrderedMap K V} (h : ∀ k, m.get? k = n.get? k) : m = n := by
  have hMem : ∀ e, e ∈ m.entries ↔ e ∈ n.entries := by
    rintro ⟨k, v⟩
    rw [← get?_eq_some_iff, ← get?_eq_some_iff, h k]
  have hPerm : m.entries.Perm n.entries :=
    (List.perm_ext_iff_of_nodup m.entries_nodup n.entries_nodup).mpr hMem
  have hEq : m.entries = n.entries :=
    hPerm.eq_of_pairwise (fun _ _ _ _ h₁ h₂ => absurd h₁ h₂.asymm) m.sorted n.sorted
  cases m
  cases n
  cases hEq
  rfl

/-- Maps that agree on some keys have the same entries there. -/
theorem filter_entries_congr {m n : OrderedMap K V} {p : K → Bool}
    (h : ∀ k, p k = true → m.get? k = n.get? k) :
    (m.entries.filter fun e => p e.1) = n.entries.filter fun e => p e.1 := by
  have hMem : ∀ e, e ∈ (m.entries.filter fun e => p e.1) ↔
      e ∈ n.entries.filter fun e => p e.1 := by
    rintro ⟨k, v⟩
    rw [List.mem_filter, List.mem_filter, ← get?_eq_some_iff, ← get?_eq_some_iff]
    exact and_congr_left fun hk => by rw [h k hk]
  have hPerm : (m.entries.filter fun e => p e.1).Perm (n.entries.filter fun e => p e.1) :=
    (List.perm_ext_iff_of_nodup (m.entries_nodup.filter _) (n.entries_nodup.filter _)).mpr hMem
  exact hPerm.eq_of_pairwise (fun _ _ _ _ h₁ h₂ => absurd h₁ h₂.asymm) (m.sorted.filter _)
    (n.sorted.filter _)

@[simp] theorem get?_empty (k : K) : (empty : OrderedMap K V).get? k = none := rfl

theorem mem_insert (m : OrderedMap K V) (k : K) (v : V) (e : K × V) :
    e ∈ (m.insert k v).entries ↔ e = (k, v) ∨ (e ∈ m.entries ∧ e.1 ≠ k) :=
  mem_insertEntry m.sorted e

theorem mem_erase (m : OrderedMap K V) (k : K) (e : K × V) :
    e ∈ (m.erase k).entries ↔ e ∈ m.entries ∧ e.1 ≠ k := by
  simp [erase]

@[simp] theorem get?_insert_self (m : OrderedMap K V) (k : K) (v : V) :
    (m.insert k v).get? k = some v :=
  get?_eq_some_iff _ |>.mpr ((m.mem_insert k v _).mpr (.inl rfl))

theorem get?_insert_of_ne (m : OrderedMap K V) {k k' : K} (v : V) (h : k' ≠ k) :
    (m.insert k v).get? k' = m.get? k' := by
  apply Option.ext
  intro w
  rw [get?_eq_some_iff, get?_eq_some_iff, mem_insert]
  constructor
  · rintro (hEq | ⟨hMem, _⟩)
    · exact absurd (congrArg Prod.fst hEq) h
    · exact hMem
  · exact fun hMem => .inr ⟨hMem, h⟩

theorem get?_insert (m : OrderedMap K V) (k k' : K) (v : V) :
    (m.insert k v).get? k' = if k' = k then some v else m.get? k' := by
  split
  · rename_i h
    rw [h, get?_insert_self]
  · exact m.get?_insert_of_ne v ‹_›

@[simp] theorem get?_erase_self (m : OrderedMap K V) (k : K) : (m.erase k).get? k = none := by
  rw [get?_eq_none_iff]
  intro hk
  obtain ⟨e, he, hEq⟩ := List.mem_map.mp hk
  exact ((m.mem_erase k e).mp he).2 hEq

theorem get?_erase_of_ne (m : OrderedMap K V) {k k' : K} (h : k' ≠ k) :
    (m.erase k).get? k' = m.get? k' := by
  apply Option.ext
  intro w
  rw [get?_eq_some_iff, get?_eq_some_iff, mem_erase]
  exact and_iff_left h

theorem get?_erase (m : OrderedMap K V) (k k' : K) :
    (m.erase k).get? k' = if k' = k then none else m.get? k' := by
  split
  · rename_i h
    rw [h, get?_erase_self]
  · exact m.get?_erase_of_ne ‹_›

theorem mem_keys_insert (m : OrderedMap K V) (k k' : K) (v : V) :
    k' ∈ (m.insert k v).keys ↔ k' = k ∨ k' ∈ m.keys := by
  rw [mem_keys_iff, mem_keys_iff, get?_insert]
  split
  · simp [*]
  · simp [*]

theorem keys_insert_of_mem (m : OrderedMap K V) {k : K} (h : k ∈ m.keys) (v : V) :
    (m.insert k v).keys = m.keys := by
  have hMem : ∀ k', k' ∈ (m.insert k v).keys ↔ k' ∈ m.keys := by
    intro k'
    rw [mem_keys_insert]
    constructor
    · rintro (rfl | hk)
      · exact h
      · exact hk
    · exact .inr
  have hPerm := (List.perm_ext_iff_of_nodup (keys_nodup _) m.keys_nodup).mpr hMem
  exact hPerm.eq_of_pairwise (fun _ _ _ _ h₁ h₂ => absurd h₁ h₂.asymm)
    (List.pairwise_map.mpr (m.insert k v).sorted) (List.pairwise_map.mpr m.sorted)

/-! ## Batches of writes -/

/-- The writes of a batch in order; a later write of a key wins. -/
def insertAll (m : OrderedMap K V) (ws : List (K × V)) : OrderedMap K V :=
  ws.foldl (fun m w => m.insert w.1 w.2) m

@[simp] theorem insertAll_nil (m : OrderedMap K V) : m.insertAll [] = m := rfl

@[simp] theorem insertAll_cons (m : OrderedMap K V) (w : K × V) (ws : List (K × V)) :
    m.insertAll (w :: ws) = (m.insert w.1 w.2).insertAll ws := rfl

theorem insertAll_append (m : OrderedMap K V) (ws us : List (K × V)) :
    m.insertAll (ws ++ us) = (m.insertAll ws).insertAll us := List.foldl_append

theorem mem_of_mem_insertAll (m : OrderedMap K V) {ws : List (K × V)} {e : K × V}
    (h : e ∈ (m.insertAll ws).entries) : e ∈ m.entries ∨ e ∈ ws := by
  induction ws generalizing m with
  | nil => exact .inl h
  | cons w ws ih =>
    obtain h | h := ih _ h
    · obtain h | h := (m.mem_insert w.1 w.2 e).mp h
      · exact .inr (List.mem_cons.mpr (.inl h))
      · exact .inl h.1
    · exact .inr (List.mem_cons_of_mem _ h)

theorem mem_keys_insertAll (m : OrderedMap K V) (ws : List (K × V)) (k : K) :
    k ∈ (m.insertAll ws).keys ↔ k ∈ m.keys ∨ k ∈ ws.map Prod.fst := by
  induction ws generalizing m with
  | nil => simp
  | cons w ws ih =>
    rw [insertAll_cons, ih, mem_keys_insert, List.map_cons, List.mem_cons, or_assoc, or_left_comm]

/-- A key holds its last write in the batch, or what it held before. -/
theorem get?_insertAll (m : OrderedMap K V) (ws : List (K × V)) (k : K) :
    (m.insertAll ws).get? k = ((Log.last? Prod.fst ws k).map Prod.snd).or (m.get? k) := by
  induction ws using List.reverseRecOn with
  | nil => rfl
  | append_singleton ws w ih =>
    rw [insertAll_append, insertAll_cons, insertAll_nil, get?_insert, Log.last?_concat]
    by_cases hk : k = w.1
    · rw [if_pos hk, if_pos hk.symm]
      rfl
    · rw [if_neg hk, if_neg (Ne.symm hk), ih]

theorem get?_insertAll_of_notMem (m : OrderedMap K V) {ws : List (K × V)} {k : K}
    (h : k ∉ ws.map Prod.fst) : (m.insertAll ws).get? k = m.get? k := by
  rw [get?_insertAll]
  cases hLast : Log.last? Prod.fst ws k with
  | none => rfl
  | some w =>
    obtain ⟨hw, rfl⟩ := Log.mem_of_last? hLast
    exact absurd (List.mem_map_of_mem hw) h

/-- What a written key holds does not depend on the map before the batch. -/
theorem get?_insertAll_of_mem (m n : OrderedMap K V) {ws : List (K × V)} {k : K}
    (h : k ∈ ws.map Prod.fst) : (m.insertAll ws).get? k = (n.insertAll ws).get? k := by
  obtain ⟨w, hw, rfl⟩ := List.mem_map.mp h
  obtain ⟨last, hLast⟩ := Log.exists_last? Prod.fst hw
  rw [get?_insertAll, get?_insertAll, hLast]
  rfl

/-- A map copied entry by entry, with a function on the values. -/
theorem get?_insertAll_map {W : Type v} (m : OrderedMap K V) (f : V → W) (k : K) :
    (empty.insertAll (m.entries.map fun e => (e.1, f e.2))).get? k = (m.get? k).map f := by
  cases hk : m.get? k with
  | none =>
    rw [get?_insertAll_of_notMem, get?_empty]
    · rfl
    · rw [List.map_map]
      exact m.get?_eq_none_iff.mp hk
  | some v =>
    have hEntry := m.get?_eq_some_iff.mp hk
    have hWritten : (k, f v) ∈ m.entries.map fun e => (e.1, f e.2) :=
      List.mem_map.mpr ⟨(k, v), hEntry, rfl⟩
    obtain ⟨last, hLast⟩ := Log.exists_last? Prod.fst hWritten
    obtain ⟨hMem, hKey⟩ := Log.mem_of_last? hLast
    obtain ⟨e, he, rfl⟩ := List.mem_map.mp hMem
    obtain rfl : e.1 = k := hKey
    rw [get?_insertAll, hLast, m.value_unique he hEntry]
    rfl

/-- A batch hides earlier writes of its keys. -/
theorem insertAll_insertAll_of_subset (m : OrderedMap K V) {us ws : List (K × V)}
    (h : us.map Prod.fst ⊆ ws.map Prod.fst) : (m.insertAll us).insertAll ws = m.insertAll ws := by
  apply ext_get?
  intro k
  by_cases hk : k ∈ ws.map Prod.fst
  · exact get?_insertAll_of_mem _ _ hk
  · rw [get?_insertAll_of_notMem _ hk, get?_insertAll_of_notMem _ hk,
      get?_insertAll_of_notMem _ fun hUs => hk (h hUs)]

/-- Batches without a common key commute. -/
theorem insertAll_comm (m : OrderedMap K V) {us ws : List (K × V)}
    (h : (us.map Prod.fst).Disjoint (ws.map Prod.fst)) :
    (m.insertAll us).insertAll ws = (m.insertAll ws).insertAll us := by
  apply ext_get?
  intro k
  by_cases hk : k ∈ ws.map Prod.fst
  · rw [get?_insertAll_of_notMem _ fun hUs => h hUs hk]
    exact get?_insertAll_of_mem _ _ hk
  · rw [get?_insertAll_of_notMem _ hk]
    by_cases hUs : k ∈ us.map Prod.fst
    · exact get?_insertAll_of_mem _ _ hUs
    · rw [get?_insertAll_of_notMem _ hUs, get?_insertAll_of_notMem _ hUs,
        get?_insertAll_of_notMem _ hk]

/-- The items at the positions a mask marks, for writes of which a part is lost. -/
def kept {α : Type u} : List Bool → List α → List α
  | true :: mask, a :: l => a :: kept mask l
  | false :: mask, _ :: l => kept mask l
  | _, _ => []

@[simp] theorem kept_nil {α : Type u} (mask : List Bool) : kept mask ([] : List α) = [] := by
  rcases mask with _ | ⟨_ | _, _⟩ <;> rfl

theorem kept_append {α : Type u} (l m : List α) :
    kept (List.replicate l.length true) (l ++ m) = l := by
  induction l with
  | nil => cases m <;> rfl
  | cons a l ih => rw [List.length_cons, List.replicate_succ, List.cons_append, kept, ih]

theorem kept_all {α : Type u} (l : List α) : kept (List.replicate l.length true) l = l := by
  have hAll := kept_append l []
  rwa [List.append_nil] at hAll

theorem mem_of_mem_kept {α : Type u} {mask : List Bool} {l : List α} {a : α}
    (h : a ∈ kept mask l) : a ∈ l := by
  induction l generalizing mask with
  | nil =>
    rw [kept_nil] at h
    cases h
  | cons c l ih => cases mask with
    | nil => cases h
    | cons b mask =>
      cases b with
      | false => exact List.mem_cons_of_mem _ (ih h)
      | true =>
        obtain rfl | h := List.mem_cons.mp h
        · exact List.mem_cons_self
        · exact List.mem_cons_of_mem _ (ih h)

/-- A repeated batch makes up for the writes that were lost. -/
theorem insertAll_kept_insertAll (m : OrderedMap K V) (mask : List Bool) (ws : List (K × V)) :
    (m.insertAll (kept mask ws)).insertAll ws = m.insertAll ws := by
  apply insertAll_insertAll_of_subset
  exact List.map_subset _ fun w hw => mem_of_mem_kept hw

/-! ## Counting values -/

theorem insert_entries_perm (m : OrderedMap K V) (k : K) (v : V) :
    (m.insert k v).entries.Perm ((k, v) :: (m.erase k).entries) := by
  refine (List.perm_ext_iff_of_nodup (entries_nodup _) ?_).mpr ?_
  · refine List.nodup_cons.mpr ⟨?_, entries_nodup _⟩
    intro h
    exact ((m.mem_erase k _).mp h).2 rfl
  · intro e
    rw [mem_insert, List.mem_cons, mem_erase]

theorem entries_perm_of_get? (m : OrderedMap K V) {k : K} {v : V} (h : m.get? k = some v) :
    m.entries.Perm ((k, v) :: (m.erase k).entries) := by
  have hSelf : m.insert k v = m := ext_get? fun k' => by
    rw [get?_insert]
    split
    · rename_i hk
      rw [hk, h]
    · rfl
  have hPerm := m.insert_entries_perm k v
  rwa [hSelf] at hPerm

theorem erase_eq_self (m : OrderedMap K V) {k : K} (h : m.get? k = none) : m.erase k = m :=
  ext_get? fun k' => by
    rw [get?_erase]
    split
    · rename_i hk
      rw [hk, h]
    · rfl

/-! ## Iteration -/

/-- What holds for all pairs in the order of the entries holds for all pairs of
entries in the order of their keys. -/
theorem pairwise_entries_iff (m : OrderedMap K V) {R : K × V → K × V → Prop} :
    m.entries.Pairwise R ↔ ∀ a ∈ m.entries, ∀ b ∈ m.entries, a.1 < b.1 → R a b := by
  constructor
  · intro hPairs
    refine List.Pairwise.forall_of_forall_of_flip ?_ ?_ ?_
    · intro a _ hLt
      exact absurd hLt (lt_irrefl _)
    · refine hPairs.imp ?_
      exact fun hR _ => hR
    · exact m.sorted.imp fun hLt hBack => absurd hBack hLt.asymm
  · intro hAll
    exact m.sorted.imp_of_mem fun ha hb hLt => hAll _ ha _ hb hLt

/-- The entries a forward iterator visits after a seek, from the least key not
below the target on. -/
def ascendingFrom (m : OrderedMap K V) (target : K) : List (K × V) :=
  m.entries.filter fun e => target ≤ e.1

/-- The entries a reverse iterator visits after a seek: the largest key not
above the target comes first, then the keys below it in descending order. -/
def descendingFrom (m : OrderedMap K V) (target : K) : List (K × V) :=
  (m.entries.filter fun e => e.1 ≤ target).reverse

theorem mem_descendingFrom (m : OrderedMap K V) (target : K) (e : K × V) :
    e ∈ m.descendingFrom target ↔ e ∈ m.entries ∧ e.1 ≤ target := by
  simp [descendingFrom]

theorem length_descendingFrom_le (m : OrderedMap K V) {a b : K} (h : a ≤ b) :
    (m.descendingFrom a).length ≤ (m.descendingFrom b).length := by
  rw [descendingFrom, descendingFrom, List.length_reverse, List.length_reverse,
    ← List.countP_eq_length_filter, ← List.countP_eq_length_filter]
  refine List.countP_mono_left fun e _ he => ?_
  exact decide_eq_true ((of_decide_eq_true he).trans h)

theorem descendingFrom_sorted (m : OrderedMap K V) (target : K) :
    (m.descendingFrom target).Pairwise fun a b => b.1 < a.1 :=
  List.pairwise_reverse.mpr (m.sorted.filter _)

end OrderedMap

end Foundation

import ChatLab.Foundation.Lexicographic
import ChatLab.Foundation.OrderedMap

/-!
# Prefix scans of a sorted store, and reading them page by page

A reverse scan seeks a target and runs while the keys keep a prefix. A reader
who resumes strictly below the last key of each page meets every key that was
there at the start once, whatever keys are added between two pages. Nothing is
said about keys added during the reading, which a page may or may not show.
-/

namespace Foundation.Pagination

open Foundation.Lexicographic

universe u v

section Sessions

variable {K : Type u} {V : Type v} [LinearOrder K]

def unread (m : OrderedMap K V) (scope : K → Bool) (bound : Option K) : List (K × V) :=
  (m.entries.filter fun e => scope e.1 && bound.all fun b => e.1 < b).reverse

theorem mem_unread {m : OrderedMap K V} {scope : K → Bool} {bound : Option K} {e : K × V} :
    e ∈ unread m scope bound ↔ e ∈ m.entries ∧ scope e.1 = true ∧ ∀ b ∈ bound, e.1 < b := by
  simp [unread, Option.all_eq_true]

theorem unread_sorted (m : OrderedMap K V) (scope : K → Bool) (bound : Option K) :
    (unread m scope bound).Pairwise fun a b => b.1 < a.1 :=
  List.pairwise_reverse.mpr (m.sorted.filter _)

def takeLimit {α : Type u} : Option Nat → List α → List α
  | none, l => l
  | some n, l => l.take n

theorem takeLimit_append (limit : Option Nat) {α : Type u} (l : List α) :
    ∃ rest, l = takeLimit limit l ++ rest := by
  cases limit with
  | none => exact ⟨[], (List.append_nil l).symm⟩
  | some n => exact ⟨l.drop n, (List.take_append_drop n l).symm⟩

theorem mem_of_mem_takeLimit {limit : Option Nat} {α : Type u} {l : List α} {x : α}
    (h : x ∈ takeLimit limit l) : x ∈ l := by
  obtain ⟨rest, hSplit⟩ := takeLimit_append limit l
  rw [hSplit]
  exact List.mem_append_left rest h

@[simp] theorem takeLimit_nil (limit : Option Nat) {α : Type u} :
    takeLimit limit ([] : List α) = [] := by
  cases limit with
  | none => rfl
  | some n => exact List.take_nil

/-- One entry more of a page that has `k` entries and is not full. -/
theorem takeLimit_cons {limit : Option Nat} {k : Nat} (h : ∀ n ∈ limit, k < n) {α : Type u}
    (x : α) (l : List α) :
    takeLimit (limit.map (· - k)) (x :: l) = x :: takeLimit (limit.map (· - (k + 1))) l := by
  cases limit with
  | none => rfl
  | some n =>
    have hNext : n - k = n - (k + 1) + 1 := by
      have hLess := h n rfl
      omega
    rw [Option.map_some, Option.map_some, takeLimit, hNext, List.take_succ_cons, takeLimit]

theorem takeLimit_map (limit : Option Nat) {α : Type u} {β : Type v} (f : α → β) (l : List α) :
    takeLimit limit (l.map f) = (takeLimit limit l).map f := by
  cases limit with
  | none => rfl
  | some n => exact (List.map_take).symm

theorem takeLimit_takeWhile_map (limit : Option Nat) {α : Type u} {β : Type v} (f : α → β)
    (p : β → Bool) (l : List α) :
    takeLimit limit ((l.map f).takeWhile p) =
      (takeLimit limit (l.takeWhile fun a => p (f a))).map f := by
  rw [List.takeWhile_map, takeLimit_map]
  rfl

/-- The pages of one reader. The store may grow between two pages; the reader
resumes below the last key it was given and stops at an empty page. -/
inductive Session (scope : K → Bool) (limit : Option Nat) :
    OrderedMap K V → Option K → List (List (K × V)) → Prop
  | stop {m : OrderedMap K V} {bound : Option K} : takeLimit limit (unread m scope bound) = [] →
      Session scope limit m bound []
  | page {m m' : OrderedMap K V} {bound : Option K} {p : List (K × V)} {last : K × V}
      {rest : List (List (K × V))} : takeLimit limit (unread m scope bound) = p →
      p.getLast? = some last → (∀ k ∈ m.keys, k ∈ m'.keys) →
      Session scope limit m' (some last.1) rest → Session scope limit m bound (p :: rest)

theorem Session.bounded {scope : K → Bool} {limit : Option Nat} {m : OrderedMap K V}
    {bound : Option K} {pages : List (List (K × V))} (h : Session scope limit m bound pages) :
    ∀ e ∈ pages.flatten, scope e.1 = true ∧ ∀ b ∈ bound, e.1 < b := by
  induction h with
  | stop => simp
  | @page m m' bound p last rest hp hLast _ _ ih =>
    obtain ⟨tail, hSplit⟩ := takeLimit_append limit (unread m scope bound)
    have hPage : ∀ e ∈ p, e ∈ unread m scope bound := by
      intro e he
      rw [hSplit, hp]
      exact List.mem_append_left _ he
    intro e he
    obtain he | he := List.mem_append.mp he
    · exact (mem_unread.mp (hPage e he)).2
    · obtain ⟨hScope, hBelow⟩ := ih e he
      refine ⟨hScope, ?_⟩
      intro b hb
      have hLastMem := hPage last (List.mem_of_getLast? hLast)
      exact (hBelow last.1 rfl).trans ((mem_unread.mp hLastMem).2.2 b hb)

/-- What a reader has met who was given the keys `read` so far and resumes
below `bound`: of the keys in scope that were there at the start, those at or
above the bound. -/
structure Trail (scope : K → Bool) (initial read : List K) (bound : Option K) : Prop where
  descending : read.Pairwise fun a b => b < a
  inScope : ∀ k ∈ read, scope k = true
  above : ∀ b ∈ bound, ∀ k ∈ read, b ≤ k
  fresh : bound = none → read = []
  met : ∀ k ∈ initial, scope k = true → k ∈ read ∨ ∀ b ∈ bound, k < b

theorem Trail.start (scope : K → Bool) {initial : List K} {bound : Option K}
    (h : ∀ k ∈ initial, ∀ b ∈ bound, k < b) : Trail scope initial [] bound where
  descending := List.Pairwise.nil
  inScope := fun _ hk => absurd hk List.not_mem_nil
  above := fun _ _ _ hk => absurd hk List.not_mem_nil
  fresh := fun _ => rfl
  met := fun k hk _ => .inr (h k hk)

theorem Trail.below {scope : K → Bool} {initial read : List K} {bound : Option K}
    (h : Trail scope initial read bound) {k x : K} (hk : ∀ b ∈ bound, k < b) (hx : x ∈ read) :
    k < x := by
  cases bound with
  | none =>
    rw [h.fresh rfl] at hx
    cases hx
  | some b => exact (hk b rfl).trans_le (h.above b rfl x hx)

theorem takeLimit_sorted (limit : Option Nat) (m : OrderedMap K V) (scope : K → Bool)
    (bound : Option K) :
    (takeLimit limit (unread m scope bound)).Pairwise fun a b => b.1 < a.1 := by
  have hSorted := unread_sorted m scope bound
  obtain ⟨tail, hSplit⟩ := takeLimit_append limit (unread m scope bound)
  rw [hSplit] at hSorted
  exact (List.pairwise_append.mp hSorted).1

/-- A page extends the trail to its last key, provided that no key of the start
has been lost. -/
theorem Trail.page {scope : K → Bool} {limit : Option Nat} {m : OrderedMap K V}
    {initial read : List K} {bound : Option K} (h : Trail scope initial read bound)
    (hGrow : ∀ k ∈ initial, scope k = true → k ∈ m.keys) {p : List (K × V)} {last : K × V}
    (hp : takeLimit limit (unread m scope bound) = p) (hLast : p.getLast? = some last) :
    Trail scope initial (read ++ p.map Prod.fst) (some last.1) := by
  obtain ⟨tail, hSplit⟩ := takeLimit_append limit (unread m scope bound)
  have hSorted := unread_sorted m scope bound
  have hPage := takeLimit_sorted limit m scope bound
  rw [hp] at hSplit hPage
  rw [hSplit] at hSorted
  have hUnread : ∀ e ∈ p, scope e.1 = true ∧ ∀ b ∈ bound, e.1 < b := by
    intro e he
    exact (mem_unread.mp (hSplit ▸ List.mem_append_left tail he)).2
  obtain ⟨init, hInit⟩ : ∃ init, p = init ++ [last] := List.getLast?_eq_some_iff.mp hLast
  have hLowest : ∀ e ∈ p, last.1 ≤ e.1 := by
    intro e he
    rw [hInit] at he hPage
    obtain he | he := List.mem_append.mp he
    · exact ((List.pairwise_append.mp hPage).2.2 e he last (List.mem_singleton_self last)).le
    · rw [List.mem_singleton.mp he]
  have hMem := List.mem_of_getLast? hLast
  refine ⟨?_, ?_, ?_, nofun, ?_⟩
  · refine List.pairwise_append.mpr ⟨h.descending, List.pairwise_map.mpr hPage, ?_⟩
    intro x hx k hk
    obtain ⟨e, he, rfl⟩ := List.mem_map.mp hk
    exact h.below (hUnread e he).2 hx
  · intro k hk
    obtain hk | hk := List.mem_append.mp hk
    · exact h.inScope k hk
    · obtain ⟨e, he, rfl⟩ := List.mem_map.mp hk
      exact (hUnread e he).1
  · rintro b ⟨⟩ k hk
    obtain hk | hk := List.mem_append.mp hk
    · exact (h.below (hUnread last hMem).2 hk).le
    · obtain ⟨e, he, rfl⟩ := List.mem_map.mp hk
      exact hLowest e he
  · intro k hk hScope
    obtain hRead | hLow := h.met k hk hScope
    · exact .inl (List.mem_append_left _ hRead)
    · obtain ⟨e, he, rfl⟩ := List.mem_map.mp (hGrow k hk hScope)
      have hRest : e ∈ unread m scope bound := mem_unread.mpr ⟨he, hScope, hLow⟩
      rw [hSplit] at hRest
      obtain hRest | hRest := List.mem_append.mp hRest
      · exact .inl (List.mem_append_right _ (List.mem_map_of_mem hRest))
      · refine .inr ?_
        rintro b ⟨⟩
        exact (List.pairwise_append.mp hSorted).2.2 last hMem e hRest

theorem Trail.complete {scope : K → Bool} {m : OrderedMap K V} {initial read : List K}
    {bound : Option K} (h : Trail scope initial read bound)
    (hGrow : ∀ k ∈ initial, scope k = true → k ∈ m.keys) (hEnd : unread m scope bound = [])
    {k : K} (hk : k ∈ initial) (hScope : scope k = true) : k ∈ read := by
  obtain hRead | hLow := h.met k hk hScope
  · exact hRead
  · obtain ⟨e, he, rfl⟩ := List.mem_map.mp (hGrow k hk hScope)
    have hRest : e ∈ unread m scope bound := mem_unread.mpr ⟨he, hScope, hLow⟩
    rw [hEnd] at hRest
    cases hRest

theorem unread_eq_nil {scope : K → Bool} {limit : Option Nat} (hLimit : ∀ n ∈ limit, 1 ≤ n)
    {m : OrderedMap K V} {bound : Option K} (h : takeLimit limit (unread m scope bound) = []) :
    unread m scope bound = [] := by
  cases limit with
  | none => exact h
  | some n =>
    obtain hn | hn := List.take_eq_nil_iff.mp h
    · have hPos := hLimit n rfl
      omega
    · exact hn

theorem Session.trail {scope : K → Bool} {limit : Option Nat} {m : OrderedMap K V}
    {bound : Option K} {pages : List (List (K × V))} (h : Session scope limit m bound pages)
    {initial read : List K} (hGrow : ∀ k ∈ initial, k ∈ m.keys)
    (hTrail : Trail scope initial read bound) :
    ∃ (m' : OrderedMap K V) (bound' : Option K), (∀ k ∈ initial, k ∈ m'.keys) ∧
      takeLimit limit (unread m' scope bound') = [] ∧
      Trail scope initial (read ++ pages.flatten.map Prod.fst) bound' := by
  induction h generalizing read with
  | @stop m bound hEmpty =>
    rw [List.flatten_nil, List.map_nil, List.append_nil]
    exact ⟨m, bound, hGrow, hEmpty, hTrail⟩
  | @page m m' bound p last rest hp hLast hKeep _ ih =>
    rw [List.flatten_cons, List.map_append, ← List.append_assoc]
    exact ih (fun k hk => hKeep k (hGrow k hk))
      (hTrail.page (fun k hk _ => hGrow k hk) hp hLast)

theorem Session.descending {scope : K → Bool} {limit : Option Nat} {m : OrderedMap K V}
    {bound : Option K} {pages : List (List (K × V))} (h : Session scope limit m bound pages) :
    pages.flatten.Pairwise fun a b => b.1 < a.1 := by
  have hNone : ∀ k ∈ ([] : List K), ∀ b ∈ bound, k < b := fun _ hk => absurd hk List.not_mem_nil
  obtain ⟨_, _, _, _, hTrail⟩ := h.trail (fun _ hk => absurd hk List.not_mem_nil)
    (Trail.start scope hNone)
  exact List.pairwise_map.mp hTrail.descending

theorem Session.complete {scope : K → Bool} {limit : Option Nat} (hLimit : ∀ n ∈ limit, 1 ≤ n)
    {m : OrderedMap K V} {bound : Option K} {pages : List (List (K × V))}
    (h : Session scope limit m bound pages) {k : K} (hk : k ∈ m.keys) (hScope : scope k = true)
    (hBound : ∀ b ∈ bound, k < b) : ∃ e ∈ pages.flatten, e.1 = k := by
  have hKey : ∀ x ∈ [k], x ∈ m.keys := fun x hx => List.mem_singleton.mp hx ▸ hk
  obtain ⟨m', bound', hGrow, hEmpty, hTrail⟩ := h.trail hKey
    (Trail.start scope fun x hx => List.mem_singleton.mp hx ▸ hBound)
  have hRead := hTrail.complete (fun x hx _ => hGrow x hx) (unread_eq_nil hLimit hEmpty)
    (List.mem_singleton_self k) hScope
  exact List.mem_map.mp hRead

/-- A page is the last one exactly when no key lies below the bound and below
everything on the page. -/
theorem takeLimit_eq_unread_iff {scope : K → Bool} {limit : Option Nat} {m : OrderedMap K V}
    {bound : Option K} :
    takeLimit limit (unread m scope bound) = unread m scope bound ↔
      ¬ ∃ k ∈ m.keys, scope k = true ∧ (∀ b ∈ bound, k < b) ∧
        ∀ e ∈ takeLimit limit (unread m scope bound), k < e.1 := by
  constructor
  · rintro hAll ⟨k, hk, hScope, hBound, hBelow⟩
    obtain ⟨e, he, rfl⟩ := List.mem_map.mp hk
    have hMem : e ∈ unread m scope bound := mem_unread.mpr ⟨he, hScope, hBound⟩
    exact lt_irrefl _ (hBelow e (hAll.symm ▸ hMem))
  · intro hNone
    obtain ⟨rest, hSplit⟩ := takeLimit_append limit (unread m scope bound)
    have hSorted := unread_sorted m scope bound
    rw [hSplit] at hSorted
    cases rest with
    | nil => rw [List.append_nil] at hSplit; exact hSplit.symm
    | cons e rest =>
      have hMem : e ∈ unread m scope bound := by
        rw [hSplit]
        exact List.mem_append_right _ List.mem_cons_self
      obtain ⟨hEntry, hScope, hBound⟩ := mem_unread.mp hMem
      refine absurd ⟨e.1, List.mem_map_of_mem hEntry, hScope, hBound, ?_⟩ hNone
      intro d hd
      exact (List.pairwise_append.mp hSorted).2.2 d hd e List.mem_cons_self

theorem length_unread_lt {scope : K → Bool} {m : OrderedMap K V} {bound : Option K} {last : K × V}
    (h : last ∈ unread m scope bound) :
    (unread m scope (some last.1)).length < (unread m scope bound).length := by
  have hNodup : (last :: unread m scope (some last.1)).Nodup := by
    refine List.nodup_cons.mpr ⟨?_, List.nodup_reverse.mpr (m.entries_nodup.filter _)⟩
    exact fun h => lt_irrefl _ ((mem_unread.mp h).2.2 last.1 rfl)
  have hSub : last :: unread m scope (some last.1) ⊆ unread m scope bound := by
    refine List.cons_subset.mpr ⟨h, ?_⟩
    intro e he
    obtain ⟨hMem, hScope, hLow⟩ := mem_unread.mp he
    refine mem_unread.mpr ⟨hMem, hScope, ?_⟩
    exact fun b hb => (hLow last.1 rfl).trans ((mem_unread.mp h).2.2 b hb)
  exact (List.subperm_of_subset hNodup hSub).length_le

end Sessions

section Scans

variable {α : Type u} {V : Type v} [LinearOrder α]

/-- What an iterator visits from a seek below `stem ++ target` while the keys
keep the stem. -/
def scanFrom (m : OrderedMap (List α) V) (stem target : List α) : List (List α × V) :=
  (m.descendingFrom (stem ++ target)).takeWhile fun e => stem.isPrefixOf e.1

theorem takeWhile_eq_filter {β : Type v} {p : β → Bool} {l : List β}
    (h : l.Pairwise fun a b => p b = true → p a = true) : l.takeWhile p = l.filter p := by
  induction l with
  | nil => rfl
  | cons a l ih =>
    obtain ⟨ha, hl⟩ := List.pairwise_cons.mp h
    cases hp : p a with
    | true => rw [List.takeWhile_cons_of_pos hp, List.filter_cons_of_pos hp, ih hl]
    | false =>
      have hNone : l.filter p = [] := by
        refine List.filter_eq_nil_iff.mpr ?_
        intro b hb hpb
        rw [ha b hb hpb] at hp
        cases hp
      rw [List.takeWhile_cons_of_neg (by simp [hp]), List.filter_cons_of_neg (by simp [hp]), hNone]

/-- The keys with the stem that lie at or below the target. -/
def reaches (stem target k : List α) : Bool :=
  stem.isPrefixOf k && decide (k ≤ stem ++ target)

theorem reaches_iff {stem target k : List α} :
    reaches stem target k = true ↔ stem.isPrefixOf k = true ∧ k ≤ stem ++ target := by
  rw [reaches, Bool.and_eq_true, decide_eq_true_eq]

theorem scanFrom_eq (m : OrderedMap (List α) V) (stem target : List α) :
    scanFrom m stem target =
      (m.entries.filter fun e => stem.isPrefixOf e.1 && decide (e.1 ≤ stem ++ target)).reverse := by
  have hMono : (m.descendingFrom (stem ++ target)).Pairwise fun a b =>
      stem.isPrefixOf b.1 = true → stem.isPrefixOf a.1 = true := by
    refine (m.descendingFrom_sorted _).imp_of_mem ?_
    intro a b ha _ hLt hb
    have hHigh := ((m.mem_descendingFrom _ a).mp ha).2
    obtain ⟨r, hr⟩ := List.isPrefixOf_iff_prefix.mp hb
    have hLow : stem ≤ a.1 := (hr ▸ le_append stem r).trans hLt.le
    exact List.isPrefixOf_iff_prefix.mpr (isPrefix_of_between hLow hHigh)
  rw [scanFrom, takeWhile_eq_filter hMono, OrderedMap.descendingFrom, List.filter_reverse,
    List.filter_filter]

/-- A forward iterator that starts at a stem and runs while the keys keep it
visits all keys with the stem. -/
theorem takeWhile_ascendingFrom (m : OrderedMap (List α) V) (stem : List α) :
    ((m.ascendingFrom stem).takeWhile fun e => stem.isPrefixOf e.1) =
      m.entries.filter fun e => stem.isPrefixOf e.1 := by
  have hMono : (m.ascendingFrom stem).Pairwise fun a b =>
      stem.isPrefixOf b.1 = true → stem.isPrefixOf a.1 = true := by
    refine (m.sorted.filter _).imp_of_mem ?_
    intro a b ha _ hLt hb
    have hLow : stem ≤ a.1 := of_decide_eq_true (List.mem_filter.mp ha).2
    obtain ⟨r, hr⟩ := List.isPrefixOf_iff_prefix.mp hb
    have hHigh : a.1 ≤ stem ++ r := hr ▸ hLt.le
    exact List.isPrefixOf_iff_prefix.mpr (isPrefix_of_between hLow hHigh)
  rw [takeWhile_eq_filter hMono, OrderedMap.ascendingFrom, List.filter_filter]
  refine List.filter_congr ?_
  intro e _
  cases hStem : stem.isPrefixOf e.1 with
  | false => rfl
  | true =>
    obtain ⟨r, hr⟩ := List.isPrefixOf_iff_prefix.mp hStem
    rw [Bool.true_and, decide_eq_true_eq, ← hr]
    exact le_append stem r

theorem scanFrom_of_mem {m : OrderedMap (List α) V} {stem c : List α} {v : V}
    (h : (stem ++ c, v) ∈ m.entries) :
    scanFrom m stem c =
      (stem ++ c, v) :: unread m (fun k => stem.isPrefixOf k) (some (stem ++ c)) := by
  have hStem : stem.isPrefixOf (stem ++ c) = true :=
    List.isPrefixOf_iff_prefix.mpr (List.prefix_append stem c)
  have hSorted : ((stem ++ c, v) :: unread m (fun k => stem.isPrefixOf k)
      (some (stem ++ c))).Pairwise fun a b => b.1 < a.1 := by
    refine List.pairwise_cons.mpr ⟨?_, unread_sorted _ _ _⟩
    intro e he
    exact (mem_unread.mp he).2.2 _ rfl
  have hScan : (scanFrom m stem c).Pairwise fun a b => b.1 < a.1 :=
    (m.descendingFrom_sorted _).sublist (List.takeWhile_sublist _)
  have hNodup : ∀ {l : List (List α × V)}, l.Pairwise (fun a b => b.1 < a.1) → l.Nodup :=
    fun hl => hl.imp fun hLt hEq => hLt.ne (congrArg Prod.fst hEq).symm
  have hMem : ∀ e, e ∈ scanFrom m stem c ↔
      e ∈ (stem ++ c, v) :: unread m (fun k => stem.isPrefixOf k) (some (stem ++ c)) := by
    intro e
    rw [scanFrom_eq, List.mem_reverse, List.mem_filter, List.mem_cons, mem_unread]
    simp only [Bool.and_eq_true, decide_eq_true_eq, Option.mem_some_iff, forall_eq']
    constructor
    · rintro ⟨he, hp, hle⟩
      obtain hLt | hEq := hle.lt_or_eq
      · exact .inr ⟨he, hp, hLt⟩
      · refine .inl (Prod.ext hEq ?_)
        exact m.value_unique (k := stem ++ c) (hEq ▸ he) h
    · rintro (rfl | ⟨he, hp, hLt⟩)
      · exact ⟨h, hStem, le_rfl⟩
      · exact ⟨he, hp, hLt.le⟩
  refine List.Perm.eq_of_pairwise (fun _ _ _ _ h₁ h₂ => absurd h₁ h₂.asymm) hScan hSorted ?_
  exact (List.perm_ext_iff_of_nodup (hNodup hScan) (hNodup hSorted)).mpr hMem

theorem scanFrom_eq_unread (m : OrderedMap (List α) V) (stem target : List α) :
    scanFrom m stem target = unread m (reaches stem target) none := by
  rw [scanFrom_eq, unread]
  refine congrArg List.reverse (List.filter_congr ?_)
  intro e _
  rw [Option.all_none, Bool.and_true]
  rfl

/-- Below a key that the scan reaches, the target makes no difference. -/
theorem unread_reaches {stem target c : List α} (m : OrderedMap (List α) V)
    (hc : reaches stem target (stem ++ c) = true) :
    unread m (fun k => stem.isPrefixOf k) (some (stem ++ c)) =
      unread m (reaches stem target) (some (stem ++ c)) := by
  rw [unread, unread]
  refine congrArg List.reverse (List.filter_congr ?_)
  intro e _
  rw [Bool.eq_iff_iff]
  simp only [Option.all_some, Bool.and_eq_true, reaches_iff, decide_eq_true_eq]
  constructor
  · rintro ⟨hStem, hBelow⟩
    exact ⟨⟨hStem, hBelow.le.trans (reaches_iff.mp hc).2⟩, hBelow⟩
  · rintro ⟨⟨hStem, _⟩, hBelow⟩
    exact ⟨hStem, hBelow⟩

/-- What the last key of a page adds to the stem, which a reader is given to
resume from. -/
def lastSuffix (stem fallback : List α) (page : List (List α × V)) : List α :=
  (page.getLast?.map fun e => e.1.drop stem.length).getD fallback

omit [LinearOrder α] in
@[simp] theorem lastSuffix_nil (stem fallback : List α) :
    lastSuffix stem fallback ([] : List (List α × V)) = fallback := rfl

omit [LinearOrder α] in
theorem lastSuffix_cons (stem fallback : List α) (e : List α × V) (page : List (List α × V)) :
    lastSuffix stem fallback (e :: page) = lastSuffix stem (e.1.drop stem.length) page := by
  cases page with
  | nil => rfl
  | cons d page => simp [lastSuffix, List.getLast?_cons]

omit [LinearOrder α] in
theorem lastSuffix_congr {W : Type*} {page : List (List α × V)} {page' : List (List α × W)}
    (h : page.map Prod.fst = page'.map Prod.fst) (stem fallback : List α) :
    lastSuffix stem fallback page = lastSuffix stem fallback page' := by
  have hLast := congrArg (fun ks => ks.getLast?.map (List.drop stem.length)) h
  simp only [List.getLast?_map, Option.map_map] at hLast
  exact congrArg (Option.getD · fallback) hLast

theorem append_lastSuffix {stem : List α} {page : List (List α × V)} {last : List α × V}
    (hLast : page.getLast? = some last) (hStem : stem.isPrefixOf last.1 = true)
    (fallback : List α) : stem ++ lastSuffix stem fallback page = last.1 := by
  obtain ⟨rest, hRest⟩ := List.isPrefixOf_iff_prefix.mp hStem
  rw [lastSuffix, hLast, Option.map_some, Option.getD_some, ← hRest, List.drop_left]

end Scans

end Foundation.Pagination

import ChatLab.Foundation.Bag
import ChatLab.Foundation.Machine
import ChatLab.Foundation.OrderedMap

/-!
# Snapshot transactions

A transaction reads the store as it was when it began, collects its writes
and applies them at once when it commits. An engine that detects conflicts
refuses a commit when a key the transaction read was written by a commit
after it began; an engine that does not applies the writes all the same.

A claim is a transaction that tests its key and leaves a value there that
fails the test. Claims of one key exclude each other when conflicts are
detected, or when no two of them run at the same time.
-/

namespace Foundation.Transactions

universe u v w

section Store

variable {K : Type u} {V : Type v} [LinearOrder K]

/-- The writes of a transaction in order; none deletes the key. -/
def applyWrites (m : OrderedMap K V) (ws : List (K × Option V)) : OrderedMap K V :=
  ws.foldl (fun m w =>
    match w.2 with
    | some v => m.insert w.1 v
    | none => m.erase w.1) m

theorem get?_applyWrites_of_notMem {m : OrderedMap K V} {ws : List (K × Option V)} {k : K}
    (hk : k ∉ ws.map Prod.fst) : (applyWrites m ws).get? k = m.get? k := by
  induction ws generalizing m with
  | nil => rfl
  | cons e ws ih =>
    obtain ⟨hNe, hRest⟩ := not_or.mp (fun h => hk (List.mem_cons.mpr h))
    rw [applyWrites, List.foldl_cons, ← applyWrites, ih hRest]
    split
    · exact m.get?_insert_of_ne _ hNe
    · exact m.get?_erase_of_ne hNe

/-- What a key holds after some writes depends on what it held before. -/
theorem get?_applyWrites_congr {m n : OrderedMap K V} {k : K} (h : m.get? k = n.get? k)
    (ws : List (K × Option V)) : (applyWrites m ws).get? k = (applyWrites n ws).get? k := by
  induction ws generalizing m n with
  | nil => exact h
  | cons e ws ih =>
    obtain ⟨key, value⟩ := e
    refine ih ?_
    cases value with
    | none =>
      change (m.erase key).get? k = (n.erase key).get? k
      rw [m.get?_erase, n.get?_erase, h]
    | some v =>
      change (m.insert key v).get? k = (n.insert key v).get? k
      rw [m.get?_insert, n.get?_insert, h]

theorem get?_applyWrites_eq_some {m : OrderedMap K V} {ws : List (K × Option V)} {k : K} {v : V}
    (h : (applyWrites m ws).get? k = some v) : m.get? k = some v ∨ (k, some v) ∈ ws := by
  induction ws generalizing m with
  | nil => exact .inl h
  | cons e ws ih =>
    obtain hOld | hNew := ih h
    · obtain ⟨key, value⟩ := e
      cases value with
      | none =>
        change (m.erase key).get? k = some v at hOld
        rw [m.get?_erase] at hOld
        split at hOld
        · cases hOld
        · exact .inl hOld
      | some v' =>
        change (m.insert key v').get? k = some v at hOld
        rw [m.get?_insert] at hOld
        split at hOld
        · rename_i hKey
          obtain rfl := Option.some.inj hOld
          exact .inr (hKey ▸ List.mem_cons_self)
        · exact .inl hOld
    · exact .inr (List.mem_cons_of_mem _ hNew)

/-- Sets are writes. -/
theorem insertAll_eq_applyWrites (m : OrderedMap K V) (sets : List (K × V)) :
    m.insertAll sets = applyWrites m (sets.map fun e => (e.1, some e.2)) := by
  induction sets generalizing m with
  | nil => rfl
  | cons e sets ih => exact ih _

end Store

/-- What a transaction decides on its snapshot. -/
structure Body (K : Type u) (V : Type v) where
  reads : List K
  writes : List (K × Option V)

structure Txn (K : Type u) (V : Type v) (R : Type w) where
  request : R
  -- how many commits were made before it began
  start : Nat
  body : Body K V

inductive TxnError (E : Type)
  | body (e : E)
  | conflict
  | commitFailed
deriving DecidableEq

structure TxnState (K : Type u) (V : Type v) [LinearOrder K] (R : Type w) (E : Type) where
  data : OrderedMap K V
  -- the keys written by each commit
  log : List (List K)
  running : List (Txn K V R)
  returned : List (R × Except (TxnError E) Unit)

inductive TxnAction (R : Type w)
  | begin (r : R)
  | commit (i : Nat) (fault : Bool)

section Engine

variable {K : Type u} {V : Type v} [LinearOrder K] {R : Type w} {E : Type}

/-- A key that the transaction read was written after it began. -/
def Conflicts (log : List (List K)) (t : Txn K V R) : Prop :=
  ∃ ks ∈ log.drop t.start, ∃ k ∈ t.body.reads, k ∈ ks

instance (log : List (List K)) (t : Txn K V R) : Decidable (Conflicts log t) :=
  inferInstanceAs (Decidable (∃ ks ∈ log.drop t.start, ∃ k ∈ t.body.reads, k ∈ ks))

variable (detectConflicts : Bool) (body : R → OrderedMap K V → Except E (Body K V))

def commitTxn (s : TxnState K V R E) (t : Txn K V R) (fault : Bool) : TxnState K V R E :=
  if detectConflicts = true ∧ Conflicts s.log t then
    { s with returned := s.returned ++ [(t.request, .error .conflict)] }
  else if fault then { s with returned := s.returned ++ [(t.request, .error .commitFailed)] }
  else { s with
    data := applyWrites s.data t.body.writes
    log := s.log ++ [t.body.writes.map Prod.fst]
    returned := s.returned ++ [(t.request, .ok ())] }

def txnStep (s : TxnState K V R E) : TxnAction R → Option (TxnState K V R E)
  | .begin r =>
    match body r s.data with
    | .error e => some { s with returned := s.returned ++ [(r, .error (.body e))] }
    | .ok b => some { s with running := s.running ++ [⟨r, s.log.length, b⟩] }
  | .commit i fault =>
    match s.running[i]? with
    | none => none
    | some t => some (commitTxn detectConflicts { s with running := s.running.eraseIdx i } t fault)

def txnMachine (data : OrderedMap K V) : Machine (TxnState K V R E) (TxnAction R) where
  start := { data := data, log := [], running := [], returned := [] }
  step := txnStep detectConflicts body

/-- A transaction that no other one overlaps. -/
def update (r : R) (fault : Bool) (data : OrderedMap K V) :
    Except (TxnError E) Unit × OrderedMap K V :=
  match body r data with
  | .error e => (.error (.body e), data)
  | .ok b => if fault then (.error .commitFailed, data) else (.ok (), applyWrites data b.writes)

theorem update_reachable (r : R) (fault : Bool) (data : OrderedMap K V) :
    ∃ s, (txnMachine detectConflicts body data).Reachable s ∧ s.running = [] ∧
      s.returned = [(r, (update body r fault data).1)] ∧ s.data = (update body r fault data).2 := by
  have hBegin : (txnMachine detectConflicts body data).exec
      (txnMachine detectConflicts body data).start [.begin r] =
        txnStep detectConflicts body { data := data, log := [], running := [], returned := [] }
          (.begin r) :=
    Option.bind_fun_some _
  cases hBody : body r data with
  | error e =>
    simp only [txnStep, hBody] at hBegin
    refine ⟨_, Machine.reachable_of_exec hBegin, rfl, ?_⟩
    simp only [update, hBody, List.nil_append, and_self]
  | ok b =>
    simp only [txnStep, hBody] at hBegin
    have hCommit : (txnMachine detectConflicts body data).step
        { data := data, log := [], running := [⟨r, 0, b⟩], returned := [] } (.commit 0 fault) =
        some (commitTxn detectConflicts { data := data, log := [], running := [], returned := [] }
          ⟨r, 0, b⟩ fault) :=
      rfl
    refine ⟨_, (Machine.reachable_of_exec hBegin).next hCommit, ?_⟩
    -- nothing was committed since the transaction began
    have hNone : ¬ (detectConflicts = true ∧ Conflicts [] (⟨r, 0, b⟩ : Txn K V R)) := by
      rintro ⟨_, ks, hks, _⟩
      simp at hks
    rw [commitTxn, if_neg hNone]
    simp only [update, hBody]
    cases fault
    · exact ⟨rfl, rfl, rfl⟩
    · exact ⟨rfl, rfl, rfl⟩

end Engine

/-! ## Claims -/

section Claims

variable {K : Type u} {V : Type v} [LinearOrder K] {R : Type w} {E : Type}

/-- The requests whose transaction was committed, in the order of their commits. -/
def winners (s : TxnState K V R E) : List R :=
  s.returned.filterMap fun p =>
    match p.2 with
    | .ok _ => some p.1
    | .error _ => none

/-- Every transaction reads the key of its request, leaves a value there that
is not free, and writes no key of another request. -/
structure IsClaim (body : R → OrderedMap K V → Except E (Body K V)) (key : R → K)
    (Free : Option V → Prop) (left : R → Option V) : Prop where
  reads : ∀ r m b, body r m = .ok b → key r ∈ b.reads
  leaves : ∀ r m b, body r m = .ok b → ∀ n, (applyWrites n b.writes).get? (key r) = left r
  taken : ∀ r, ¬ Free (left r)
  frame : ∀ r m b, body r m = .ok b → ∀ r', key r' ≠ key r → key r' ∉ b.writes.map Prod.fst

/-- The steps under which claims exclude each other: the tests of a body can
be trusted, and without conflict detection no claim of a key begins while
another one of that key is running. -/
def Apart (detectConflicts : Bool) (key : R → K) (trusted : R → OrderedMap K V → Prop)
    (s : TxnState K V R E) : TxnAction R → Prop
  | .begin r => trusted r s.data ∧
      (detectConflicts = false → ∀ t ∈ s.running, key t.request ≠ key r)
  | .commit _ _ => True

instance (detectConflicts : Bool) (key : R → K) (trusted : R → OrderedMap K V → Prop)
    [∀ r m, Decidable (trusted r m)] (s : TxnState K V R E) (a : TxnAction R) :
    Decidable (Apart detectConflicts key trusted s a) :=
  match a with
  | .begin r => inferInstanceAs (Decidable (trusted r s.data ∧
      (detectConflicts = false → ∀ t ∈ s.running, key t.request ≠ key r)))
  | .commit _ _ => inferInstanceAs (Decidable True)

/-- A claim that is still running: its key was written since it began, or is
free as it was then. -/
def Stale (key : R → K) (log : List (List K)) (t : Txn K V R) : Prop :=
  ∃ ks ∈ log.drop t.start, key t.request ∈ ks

structure TxnState.Sound (detectConflicts : Bool)
    (body : R → OrderedMap K V → Except E (Body K V)) (key : R → K) (Free : Option V → Prop)
    (left : R → Option V) (s : TxnState K V R E) : Prop where
  made : ∀ t ∈ s.running, ∃ m, body t.request m = .ok t.body
  begun : ∀ t ∈ s.running, t.start ≤ s.log.length
  fresh : ∀ t ∈ s.running, Stale key s.log t ∨ Free (s.data.get? (key t.request))
  apart : detectConflicts = false → (s.running.map fun t => key t.request).Nodup ∧
    ∀ t ∈ s.running, ¬ Stale key s.log t
  settled : ∀ r ∈ winners s, s.data.get? (key r) = left r
  once : ((winners s).map key).Nodup

variable {detectConflicts : Bool} {body : R → OrderedMap K V → Except E (Body K V)} {key : R → K}
  {Free : Option V → Prop} {left : R → Option V} {trusted : R → OrderedMap K V → Prop}

theorem winners_push_error (s : TxnState K V R E) (r : R) (e : TxnError E) :
    winners { s with returned := s.returned ++ [(r, .error e)] } = winners s := by
  simp [winners]

theorem winners_push_ok (s : TxnState K V R E) (r : R) :
    winners { s with returned := s.returned ++ [(r, .ok ())] } = winners s ++ [r] := by
  simp [winners]

theorem TxnState.Sound.refuse {s : TxnState K V R E}
    (h : s.Sound detectConflicts body key Free left) (r : R) (e : TxnError E) :
    TxnState.Sound detectConflicts body key Free left
      { s with returned := s.returned ++ [(r, .error e)] } where
  made := h.made
  begun := h.begun
  fresh := h.fresh
  apart := h.apart
  settled := by
    rw [winners_push_error]
    exact h.settled
  once := by
    rw [winners_push_error]
    exact h.once

theorem TxnState.Sound.begin (hTrusted : ∀ r m b, trusted r m → body r m = .ok b →
      Free (m.get? (key r))) {s t : TxnState K V R E} {r : R}
    (h : s.Sound detectConflicts body key Free left)
    (hGuard : Apart detectConflicts key trusted s (.begin r))
    (hStep : txnStep detectConflicts body s (.begin r) = some t) :
    t.Sound detectConflicts body key Free left := by
  obtain ⟨hTest, hApart⟩ := hGuard
  simp only [txnStep] at hStep
  split at hStep
  · exact Option.some.inj hStep ▸ h.refuse r _
  · rename_i b hBody
    cases hStep
    have hNew : ¬ Stale key s.log ⟨r, s.log.length, b⟩ := by
      rintro ⟨ks, hks, _⟩
      simp at hks
    refine { h with made := ?_, begun := ?_, fresh := ?_, apart := ?_ }
    · exact Bag.forall_mem_concat h.made ⟨s.data, hBody⟩
    · exact Bag.forall_mem_concat h.begun (Nat.le_refl _)
    · exact Bag.forall_mem_concat h.fresh (Or.inr (hTrusted r s.data b hTest hBody))
    · intro hDetect
      obtain ⟨hNodup, hFresh⟩ := h.apart hDetect
      refine ⟨?_, ?_⟩
      · rw [List.map_append, List.nodup_append]
        refine ⟨hNodup, List.nodup_singleton _, ?_⟩
        rintro k hk k' hk' rfl
        obtain ⟨u, hu, hKey⟩ := List.mem_map.mp hk
        exact hApart hDetect u hu (hKey.trans (List.mem_singleton.mp hk'))
      · exact Bag.forall_mem_concat hFresh hNew

/-- A commit that goes through finds its key free. -/
theorem TxnState.Sound.free_of_passes (hClaim : IsClaim body key Free left)
    {s : TxnState K V R E} (h : s.Sound detectConflicts body key Free left) {t : Txn K V R}
    (ht : t ∈ s.running) (hPasses : ¬ (detectConflicts = true ∧ Conflicts s.log t)) :
    Free (s.data.get? (key t.request)) := by
  obtain hStale | hFree := h.fresh t ht
  · cases hDetect : detectConflicts with
    | false => exact absurd hStale ((h.apart hDetect).2 t ht)
    | true =>
      obtain ⟨m, hBody⟩ := h.made t ht
      obtain ⟨ks, hks, hKey⟩ := hStale
      exact absurd ⟨hDetect, ks, hks, key t.request, hClaim.reads _ _ _ hBody, hKey⟩ hPasses
  · exact hFree

theorem TxnState.Sound.erase {s : TxnState K V R E}
    (h : s.Sound detectConflicts body key Free left) (i : Nat) :
    TxnState.Sound detectConflicts body key Free left
      { s with running := s.running.eraseIdx i } where
  made t ht := h.made t (List.mem_of_mem_eraseIdx ht)
  begun t ht := h.begun t (List.mem_of_mem_eraseIdx ht)
  fresh t ht := h.fresh t (List.mem_of_mem_eraseIdx ht)
  apart hDetect := by
    obtain ⟨hNodup, hFresh⟩ := h.apart hDetect
    refine ⟨?_, fun t ht => hFresh t (List.mem_of_mem_eraseIdx ht)⟩
    exact hNodup.sublist ((List.eraseIdx_sublist _ _).map _)
  settled := h.settled
  once := h.once

omit [LinearOrder K] in
theorem stale_snoc {log : List (List K)} {t : Txn K V R} (hStart : t.start ≤ log.length)
    (ks : List K) :
    Stale key (log ++ [ks]) t ↔ Stale key log t ∨ key t.request ∈ ks := by
  simp only [Stale, List.drop_append_of_le_length hStart, List.mem_append, List.mem_singleton]
  constructor
  · rintro ⟨ks', hks | rfl, hKey⟩
    · exact Or.inl ⟨ks', hks, hKey⟩
    · exact Or.inr hKey
  · rintro (⟨ks', hks, hKey⟩ | hKey)
    · exact ⟨ks', Or.inl hks, hKey⟩
    · exact ⟨ks, Or.inr rfl, hKey⟩

theorem IsClaim.key_mem_writes (hClaim : IsClaim body key Free left) {r : R} {m n : OrderedMap K V}
    {b : Body K V} (hBody : body r m = .ok b) (hFree : Free (n.get? (key r))) :
    key r ∈ b.writes.map Prod.fst := by
  by_contra hNot
  have hLeft := hClaim.leaves r m b hBody n
  rw [get?_applyWrites_of_notMem hNot] at hLeft
  exact hClaim.taken r (hLeft ▸ hFree)

theorem TxnState.Sound.win (hClaim : IsClaim body key Free left) {s : TxnState K V R E}
    (h : s.Sound detectConflicts body key Free left) {t : Txn K V R} {m : OrderedMap K V}
    (hBody : body t.request m = .ok t.body) (hFree : Free (s.data.get? (key t.request)))
    (hAlone : detectConflicts = false → ∀ u ∈ s.running, key u.request ≠ key t.request) :
    TxnState.Sound detectConflicts body key Free left { s with
      data := applyWrites s.data t.body.writes
      log := s.log ++ [t.body.writes.map Prod.fst]
      returned := s.returned ++ [(t.request, .ok ())] } := by
  have hFrame : ∀ r, key r ≠ key t.request →
      (applyWrites s.data t.body.writes).get? (key r) = s.data.get? (key r) := fun r hr =>
    get?_applyWrites_of_notMem (hClaim.frame _ _ _ hBody r hr)
  have hWinners := winners_push_ok { s with
    data := applyWrites s.data t.body.writes, log := s.log ++ [t.body.writes.map Prod.fst] } t.request
  -- a key that was won before is not free
  have hOld : ∀ r ∈ winners s, key r ≠ key t.request := by
    intro r hr hKey
    exact hClaim.taken r (h.settled r hr ▸ hKey ▸ hFree)
  refine ⟨h.made, ?_, ?_, ?_, ?_, ?_⟩
  · intro u hu
    have hBegun := h.begun u hu
    simp only [List.length_append]
    omega
  · intro u hu
    refine (h.fresh u hu).elim (fun hStale => ?_) fun hu' => ?_
    · exact Or.inl ((stale_snoc (h.begun u hu) _).mpr (Or.inl hStale))
    · by_cases hKey : key u.request = key t.request
      · refine Or.inl ((stale_snoc (h.begun u hu) _).mpr (Or.inr ?_))
        rw [hKey]
        exact hClaim.key_mem_writes hBody hFree
      · exact Or.inr ((hFrame _ hKey).symm ▸ hu')
  · intro hDetect
    obtain ⟨hNodup, hFresh⟩ := h.apart hDetect
    refine ⟨hNodup, fun u hu hStale => ?_⟩
    obtain hStale | hKey := (stale_snoc (h.begun u hu) _).mp hStale
    · exact hFresh u hu hStale
    · exact hClaim.frame _ _ _ hBody u.request (hAlone hDetect u hu) hKey
  · rw [hWinners]
    refine Bag.forall_mem_concat (fun r hr => ?_) (hClaim.leaves _ _ _ hBody s.data)
    exact (hFrame r (hOld r hr)).trans (h.settled r hr)
  · rw [hWinners, List.map_append, List.nodup_append]
    refine ⟨h.once, List.nodup_singleton _, ?_⟩
    rintro k hk k' hk' rfl
    obtain ⟨r, hr, hKey⟩ := List.mem_map.mp hk
    exact hOld r hr (hKey.trans (List.mem_singleton.mp hk'))

theorem TxnState.Sound.commit (hClaim : IsClaim body key Free left) {s t : TxnState K V R E}
    {i : Nat} {fault : Bool} (h : s.Sound detectConflicts body key Free left)
    (hStep : txnStep detectConflicts body s (.commit i fault) = some t) :
    t.Sound detectConflicts body key Free left := by
  simp only [txnStep] at hStep
  split at hStep
  · cases hStep
  · rename_i u hu
    have hMem := List.mem_of_getElem? hu
    obtain rfl := Option.some.inj hStep
    rw [commitTxn]
    split
    · exact (h.erase i).refuse _ _
    · rename_i hPasses
      split
      · exact (h.erase i).refuse _ _
      · obtain ⟨m, hBody⟩ := h.made u hMem
        refine (h.erase i).win hClaim hBody (h.free_of_passes hClaim hMem hPasses) ?_
        intro hDetect v hv hKey
        -- what is left is at other positions, and the keys there are distinct
        obtain ⟨j, hji, hj⟩ := List.mem_eraseIdx_iff_getElem?.mp hv
        have hSame : (s.running.map fun t => key t.request)[j]? =
            (s.running.map fun t => key t.request)[i]? := by
          rw [List.getElem?_map, List.getElem?_map, hj, hu]
          exact congrArg some hKey
        have hLt : j < (s.running.map fun t => key t.request).length := by
          rw [List.length_map]
          exact (List.getElem?_eq_some_iff.mp hj).1
        exact hji ((List.getElem?_inj hLt (h.apart hDetect).1).mp hSame)

/-- Every key is won at most once, and keeps what the winner left there. -/
theorem claimed_once (hClaim : IsClaim body key Free left)
    (hTrusted : ∀ r m b, trusted r m → body r m = .ok b → Free (m.get? (key r)))
    {data : OrderedMap K V} {s : TxnState K V R E}
    (h : (txnMachine detectConflicts body data).Reaches (Apart detectConflicts key trusted) s) :
    ((winners s).map key).Nodup ∧ ∀ r ∈ winners s, s.data.get? (key r) = left r := by
  have hSound : s.Sound detectConflicts body key Free left := by
    refine Machine.Reaches.invariant ?_ ?_ h
    · exact ⟨nofun, nofun, nofun, fun _ => ⟨List.nodup_nil, nofun⟩, nofun, List.nodup_nil⟩
    · intro s a t hs hGuard hStep
      cases a with
      | begin r => exact hs.begin hTrusted hGuard hStep
      | commit i fault => exact hs.commit hClaim hStep
  exact ⟨hSound.once, hSound.settled⟩

theorem winners_filter_le_one {s : TxnState K V R E} (hOnce : ((winners s).map key).Nodup)
    {p : R → Bool} {k : K} (hp : ∀ r, p r = true → key r = k) :
    ((winners s).filter p).length ≤ 1 := by
  calc
    ((winners s).filter p).length = (winners s).countP p := List.countP_eq_length_filter.symm
    _ ≤ (winners s).countP (fun r => key r == k) :=
      List.countP_mono_left fun r _ hr => by simp [hp r hr]
    _ = ((winners s).map key).count k := by rw [List.count, List.countP_map]; rfl
    _ ≤ 1 := List.nodup_iff_count_le_one.mp hOnce k

end Claims

end Foundation.Transactions

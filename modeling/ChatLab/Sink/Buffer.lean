import Mathlib.Algebra.GroupWithZero.Nat
import Mathlib.Data.List.Flatten
import Mathlib.Data.List.Nodup
import Mathlib.Data.List.Range
import ChatLab.Foundation.Bag
import ChatLab.Foundation.Machine

/-!
# The buffer of the analysis sink

Calls of `handleNewFile` append to the buffer and start a timer for the first
event of a batch; a full buffer is flushed by the call that filled it, any
other one by the callback of the timer. `flush` stops the timer, swaps the
buffer out and hands the batch to `processAndStore` outside the lock.

Every statement under the lock is a step of its own, and so is the moment at
which a goroutine gets the lock: the steps of a goroutine outside the lock
fall anywhere between those of the holder. A callback whose timer has fired is
a goroutine of its own, which `Stop` does not reach. Events carry the number
of their call, so that equal events of two calls stay apart.
-/

namespace ChatLab.Sink

open Foundation Foundation.Bag

/-- Who runs `flush`. -/
inductive Origin
  | call (n : Nat)
  | callback (timer : Nat)
deriving DecidableEq, Repr

/-- A goroutine outside the lock: before `Lock` of `handleNewFile`, before
`Lock` of `flush`, or in `processAndStore`. -/
inductive Task (E : Type)
  | newFile (n : Nat) (e : E)
  | flush (origin : Origin)
  | store (origin : Origin) (batch : List (Nat × E))
deriving DecidableEq

/-- The next statement of the goroutine that holds the lock. A panic leaves it held. -/
inductive Critical (E : Type)
  | append (n : Nat) (e : E)
  | arm (n : Nat)
  | measure (n : Nat)
  | leave (n : Nat) (isFull : Bool)
  | clear (origin : Origin)
  | swap (origin : Origin)
  | leaveEmpty (origin : Origin)
  | pass (origin : Origin) (batch : List (Nat × E))
  | panicked (origin : Origin)
deriving DecidableEq

structure BufferState (E : Type) where
  events : List (Nat × E)
  timer : Option Nat
  -- timers that were started and have neither fired nor been stopped
  armed : List Nat
  started : Nat
  calls : Nat
  tasks : List (Task E)
  holder : Option (Critical E)
  -- the events appended so far
  consumed : List (Nat × E)
  -- the calls of `StoreBatch` with their success
  stores : List (List (Nat × E) × Bool)
deriving DecidableEq

inductive BufferAction (E : Type)
  | handleNewFile (e : E)
  | fire (timer : Nat)
  | lock (k : Nat)
  | proceed
  | storeBatch (k : Nat) (ok : Bool)
deriving DecidableEq

section Steps

variable {E : Type} (maxAnalyzedEvent : Int)

def takeLock (s : BufferState E) (k : Nat) : Option (BufferState E) :=
  match s.holder, s.tasks[k]? with
  | none, some (.newFile n e) =>
    some { s with tasks := s.tasks.eraseIdx k, holder := some (.append n e) }
  | none, some (.flush origin) =>
    some { s with tasks := s.tasks.eraseIdx k, holder := some (.clear origin) }
  | _, _ => none

def runHolder (s : BufferState E) : Critical E → Option (BufferState E)
  | .append n e => some { s with
      events := s.events ++ [(n, e)]
      consumed := s.consumed ++ [(n, e)]
      holder := some (.arm n) }
  | .arm n =>
    if s.events.length = 1 ∧ s.timer = none then
      some { s with
        timer := some s.started
        armed := s.armed ++ [s.started]
        started := s.started + 1
        holder := some (.measure n) }
    else some { s with holder := some (.measure n) }
  | .measure n => some { s with holder := some (.leave n (maxAnalyzedEvent ≤ s.events.length)) }
  | .leave n isFull => some { s with
      holder := none
      tasks := if isFull then s.tasks ++ [.flush (.call n)] else s.tasks }
  | .clear origin =>
    match s.timer with
    | none => some { s with holder := some (.swap origin) }
    | some t => some { s with
        armed := s.armed.erase t, timer := none, holder := some (.swap origin) }
  | .swap origin =>
    if s.events = [] then some { s with holder := some (.leaveEmpty origin) }
    -- `make` panics on a negative capacity, before the buffer is replaced
    else if maxAnalyzedEvent < 0 then some { s with holder := some (.panicked origin) }
    else some { s with events := [], holder := some (.pass origin s.events) }
  | .leaveEmpty _ => some { s with holder := none }
  | .pass origin batch => some { s with
      holder := none
      tasks := s.tasks ++ [.store origin batch] }
  | .panicked _ => none

def bufferStep (s : BufferState E) : BufferAction E → Option (BufferState E)
  | .handleNewFile e => some { s with
      tasks := s.tasks ++ [.newFile s.calls e]
      calls := s.calls + 1 }
  | .fire t =>
    if t ∈ s.armed then
      some { s with armed := s.armed.erase t, tasks := s.tasks ++ [.flush (.callback t)] }
    else none
  | .lock k => takeLock s k
  | .proceed => s.holder.bind (runHolder maxAnalyzedEvent s)
  | .storeBatch k ok =>
    match s.tasks[k]? with
    | some (.store _ batch) => some { s with
        tasks := s.tasks.eraseIdx k
        stores := s.stores ++ [(batch, ok)] }
    | _ => none

def newBuffer : BufferState E where
  events := []
  timer := none
  armed := []
  started := 0
  calls := 0
  tasks := []
  holder := none
  consumed := []
  stores := []

def bufferMachine : Machine (BufferState E) (BufferAction E) where
  start := newBuffer
  step := bufferStep maxAnalyzedEvent

end Steps

/-! ## What a step does -/

section Inversion

variable {E : Type} (maxAnalyzedEvent : Int)

/-- The steps with all that they require and change. -/
inductive BufferState.Steps (s : BufferState E) : BufferAction E → BufferState E → Prop
  | handleNewFile (e : E) : Steps s (.handleNewFile e)
      { s with tasks := s.tasks ++ [.newFile s.calls e], calls := s.calls + 1 }
  | fire (timer : Nat) : timer ∈ s.armed → Steps s (.fire timer)
      { s with armed := s.armed.erase timer, tasks := s.tasks ++ [.flush (.callback timer)] }
  | lockNewFile (k n : Nat) (e : E) : s.holder = none → s.tasks[k]? = some (.newFile n e) →
      Steps s (.lock k) { s with tasks := s.tasks.eraseIdx k, holder := some (.append n e) }
  | lockFlush (k : Nat) (origin : Origin) : s.holder = none → s.tasks[k]? = some (.flush origin) →
      Steps s (.lock k) { s with tasks := s.tasks.eraseIdx k, holder := some (.clear origin) }
  | append (n : Nat) (e : E) : s.holder = some (.append n e) → Steps s .proceed { s with
      events := s.events ++ [(n, e)]
      consumed := s.consumed ++ [(n, e)]
      holder := some (.arm n) }
  | arm (n : Nat) : s.holder = some (.arm n) → s.events.length = 1 ∧ s.timer = none →
      Steps s .proceed { s with
        timer := some s.started
        armed := s.armed ++ [s.started]
        started := s.started + 1
        holder := some (.measure n) }
  | armSkip (n : Nat) : s.holder = some (.arm n) → ¬ (s.events.length = 1 ∧ s.timer = none) →
      Steps s .proceed { s with holder := some (.measure n) }
  | measure (n : Nat) : s.holder = some (.measure n) → Steps s .proceed
      { s with holder := some (.leave n (maxAnalyzedEvent ≤ s.events.length)) }
  | leave (n : Nat) : s.holder = some (.leave n false) → Steps s .proceed { s with holder := none }
  | leaveFull (n : Nat) : s.holder = some (.leave n true) → Steps s .proceed
      { s with holder := none, tasks := s.tasks ++ [.flush (.call n)] }
  | clearNone (origin : Origin) : s.holder = some (.clear origin) → s.timer = none →
      Steps s .proceed { s with holder := some (.swap origin) }
  | clear (origin : Origin) (timer : Nat) : s.holder = some (.clear origin) →
      s.timer = some timer → Steps s .proceed
        { s with armed := s.armed.erase timer, timer := none, holder := some (.swap origin) }
  | swapEmpty (origin : Origin) : s.holder = some (.swap origin) → s.events = [] →
      Steps s .proceed { s with holder := some (.leaveEmpty origin) }
  | swapPanics (origin : Origin) : s.holder = some (.swap origin) → s.events ≠ [] →
      maxAnalyzedEvent < 0 → Steps s .proceed { s with holder := some (.panicked origin) }
  | swap (origin : Origin) : s.holder = some (.swap origin) → s.events ≠ [] →
      Steps s .proceed { s with events := [], holder := some (.pass origin s.events) }
  | leaveEmpty (origin : Origin) : s.holder = some (.leaveEmpty origin) →
      Steps s .proceed { s with holder := none }
  | pass (origin : Origin) (batch : List (Nat × E)) : s.holder = some (.pass origin batch) →
      Steps s .proceed { s with holder := none, tasks := s.tasks ++ [.store origin batch] }
  | storeBatch (k : Nat) (ok : Bool) (origin : Origin) (batch : List (Nat × E)) :
      s.tasks[k]? = some (.store origin batch) → Steps s (.storeBatch k ok)
        { s with tasks := s.tasks.eraseIdx k, stores := s.stores ++ [(batch, ok)] }

variable {maxAnalyzedEvent} {s t : BufferState E}

theorem steps_of_runHolder {c : Critical E} (hHolder : s.holder = some c)
    (h : runHolder maxAnalyzedEvent s c = some t) : s.Steps maxAnalyzedEvent .proceed t := by
  cases c with
  | append n e =>
    cases h
    exact .append n e hHolder
  | arm n =>
    rw [runHolder] at h
    split at h
    · cases h
      exact .arm n hHolder ‹_›
    · cases h
      exact .armSkip n hHolder ‹_›
  | measure n =>
    cases h
    exact .measure n hHolder
  | leave n isFull =>
    cases h
    cases isFull with
    | false => exact .leave n hHolder
    | true => exact .leaveFull n hHolder
  | clear origin =>
    rw [runHolder] at h
    split at h
    · cases h
      exact .clearNone origin hHolder ‹_›
    · cases h
      exact .clear origin _ hHolder ‹_›
  | swap origin =>
    rw [runHolder] at h
    split at h
    · cases h
      exact .swapEmpty origin hHolder ‹_›
    · split at h
      · cases h
        exact .swapPanics origin hHolder ‹_› ‹_›
      · cases h
        exact .swap origin hHolder ‹_›
  | leaveEmpty origin =>
    cases h
    exact .leaveEmpty origin hHolder
  | pass origin batch =>
    cases h
    exact .pass origin batch hHolder
  | panicked origin => cases h

theorem steps_of_bufferStep {a : BufferAction E} (h : bufferStep maxAnalyzedEvent s a = some t) :
    s.Steps maxAnalyzedEvent a t := by
  cases a with
  | handleNewFile e =>
    cases h
    exact .handleNewFile e
  | fire timer =>
    rw [bufferStep] at h
    split at h
    · cases h
      exact .fire timer ‹_›
    · cases h
  | lock k =>
    rw [bufferStep, takeLock] at h
    split at h
    · cases h
      exact .lockNewFile k _ _ ‹_› ‹_›
    · cases h
      exact .lockFlush k _ ‹_› ‹_›
    · cases h
  | proceed =>
    obtain ⟨c, hHolder, hRun⟩ := Option.bind_eq_some_iff.mp h
    exact steps_of_runHolder hHolder hRun
  | storeBatch k ok =>
    rw [bufferStep] at h
    split at h
    · cases h
      exact .storeBatch k ok _ _ ‹_›
    · cases h

end Inversion

/-! ## Where an event is -/

section Places

variable {E : Type}

def Task.entering : Task E → List (Nat × E)
  | .newFile n e => [(n, e)]
  | _ => []

def Task.batch : Task E → List (List (Nat × E))
  | .store _ batch => [batch]
  | _ => []

def Critical.entering : Critical E → List (Nat × E)
  | .append n e => [(n, e)]
  | _ => []

def Critical.batch : Critical E → List (List (Nat × E))
  | .pass _ batch => [batch]
  | _ => []

namespace BufferState

variable (s : BufferState E)

/-- The events of calls that have not appended them yet. -/
def entering : List (Nat × E) :=
  s.holder.toList.flatMap Critical.entering ++ s.tasks.flatMap Task.entering

/-- The batches that were swapped out for `processAndStore`. -/
def batches : List (List (Nat × E)) :=
  s.holder.toList.flatMap Critical.batch ++ s.tasks.flatMap Task.batch ++ s.stores.map Prod.fst

/-- How often an event is in the buffer and in the batches together. -/
def occurrences [DecidableEq E] (x : Nat × E) : Nat :=
  s.events.count x + (s.batches.map (List.count x)).sum

/-- The timer is set, and it is armed or its callback waits for the lock. -/
def TimerSet : Prop :=
  ∃ t, s.timer = some t ∧ (t ∈ s.armed ∨ Task.flush (.callback t) ∈ s.tasks)

end BufferState

/-- The buffer and all batches. -/
def BufferState.content (s : BufferState E) : List (Nat × E) := s.events ++ s.batches.flatten

end Places

/-! ## What a step moves -/

section Ledger

variable {E : Type} {maxAnalyzedEvent : Int} {s t : BufferState E} {a : BufferAction E}

/-- A step admits the event of a new call, appends one, or only moves events
between the buffer and the batches. -/
inductive Effect (s : BufferState E) (a : BufferAction E) (t : BufferState E) : Prop
  | call (e : E) : a = .handleNewFile e → t.calls = s.calls + 1 → t.consumed = s.consumed →
      t.entering.Perm ((s.calls, e) :: s.entering) → t.content.Perm s.content → Effect s a t
  | append (x : Nat × E) : t.calls = s.calls → t.consumed = s.consumed ++ [x] →
      s.entering.Perm (x :: t.entering) → t.content.Perm (x :: s.content) → Effect s a t
  | move : t.calls = s.calls → t.consumed = s.consumed → t.entering.Perm s.entering →
      t.content.Perm s.content → Effect s a t

/-- A statement of the holder that touches no event, and may start a goroutine without one. -/
theorem proceed_still {c : Critical E} {extra : List (Task E)} (hHolder : s.holder = some c)
    (hc : c.entering = [] ∧ c.batch = [])
    (hNext : t.holder.toList.flatMap Critical.entering = [] ∧
      t.holder.toList.flatMap Critical.batch = [])
    (hTasks : t.tasks = s.tasks ++ extra)
    (hExtra : extra.flatMap Task.entering = [] ∧ extra.flatMap Task.batch = [])
    (hCalls : t.calls = s.calls) (hConsumed : t.consumed = s.consumed)
    (hEvents : t.events = s.events) (hStores : t.stores = s.stores) : Effect s a t := by
  have hEntering : t.entering = s.entering := by
    simp [BufferState.entering, hNext.1, hTasks, hExtra.1, hHolder, hc.1]
  have hBatches : t.batches = s.batches := by
    simp [BufferState.batches, hNext.2, hTasks, hExtra.2, hHolder, hc.2, hStores]
  apply Effect.move hCalls hConsumed
  · rw [hEntering]
  · rw [BufferState.content, BufferState.content, hEvents, hBatches]

theorem acquire_effect {k : Nat} {task : Task E} {c : Critical E} (hHolder : s.holder = none)
    (hTask : s.tasks[k]? = some task) (hEntering : c.entering = task.entering)
    (hHeld : c.batch = []) (hBatch : task.batch = []) :
    Effect s a { s with tasks := s.tasks.eraseIdx k, holder := some c } := by
  have hEnter := (perm_cons_eraseIdx hTask).flatMap_right Task.entering
  have hBatches := (perm_cons_eraseIdx hTask).flatMap_right Task.batch
  rw [List.flatMap_cons, ← hEntering] at hEnter
  rw [List.flatMap_cons, hBatch] at hBatches
  refine .move rfl rfl ?_ (.append_left _ (.flatten (.append_right _ ?_)))
  · simpa [BufferState.entering, hHolder] using hEnter.symm
  · simpa [hHolder, hHeld] using hBatches.symm

theorem bufferStep_effect (h : bufferStep maxAnalyzedEvent s a = some t) : Effect s a t := by
  have hNone : s.tasks = s.tasks ++ [] := (List.append_nil _).symm
  cases steps_of_bufferStep h with
  | handleNewFile e =>
    refine .call e rfl rfl rfl ?_ ?_
    · simp only [BufferState.entering, List.flatMap_append, ← List.append_assoc]
      exact List.perm_append_comm
    · simp [BufferState.content, BufferState.batches, Task.batch]
  | fire timer _ =>
    refine .move rfl rfl ?_ ?_
    · simp [BufferState.entering, Task.entering]
    · simp [BufferState.content, BufferState.batches, Task.batch]
  | lockNewFile k n e hHolder hTask => exact acquire_effect hHolder hTask rfl rfl rfl
  | lockFlush k origin hHolder hTask => exact acquire_effect hHolder hTask rfl rfl rfl
  | append n e hHolder =>
    refine .append (n, e) rfl rfl ?_ ?_
    · simp [BufferState.entering, hHolder, Critical.entering]
    · simp only [BufferState.content, BufferState.batches, hHolder]
      exact List.perm_append_comm.append_right _
  | arm n hHolder | armSkip n hHolder | measure n hHolder | leave n hHolder
  | clearNone origin hHolder | clear origin timer hHolder | swapEmpty origin hHolder
  | swapPanics origin hHolder | leaveEmpty origin hHolder =>
    exact proceed_still hHolder ⟨rfl, rfl⟩ ⟨rfl, rfl⟩ hNone ⟨rfl, rfl⟩ rfl rfl rfl rfl
  | leaveFull n hHolder =>
    exact proceed_still hHolder ⟨rfl, rfl⟩ ⟨rfl, rfl⟩ rfl ⟨rfl, rfl⟩ rfl rfl rfl rfl
  | swap origin hHolder _ =>
    refine .move rfl rfl ?_ ?_
    · simp [BufferState.entering, hHolder, Critical.entering]
    · simp [BufferState.content, BufferState.batches, hHolder, Critical.batch]
  | pass origin batch hHolder =>
    refine .move rfl rfl ?_ (.append_left _ (.flatten (.append_right _ ?_)))
    · simp [BufferState.entering, hHolder, Critical.entering, Task.entering]
    · simp [hHolder, Critical.batch, Task.batch]
  | storeBatch k ok origin batch hTask =>
    have hEntering := (perm_cons_eraseIdx hTask).flatMap_right Task.entering
    have hBatches := (perm_cons_eraseIdx hTask).flatMap_right Task.batch
    refine .move rfl rfl (.append_left _ hEntering.symm) (.append_left _ (.flatten ?_))
    simp only [BufferState.batches, List.map_append, List.append_assoc]
    apply List.Perm.append_left
    rw [← List.append_assoc]
    exact List.perm_append_comm.trans (hBatches.symm.append_right _)

theorem handleNewFile_places {e : E}
    (h : bufferStep maxAnalyzedEvent s (.handleNewFile e) = some t) :
    (t.entering ++ t.content).Perm ((s.calls, e) :: (s.entering ++ s.content)) := by
  cases bufferStep_effect h with
  | call e' hCall _ _ hEntering hContent =>
    cases hCall
    exact hEntering.append hContent
  | append x hCalls =>
    cases h
    exact absurd hCalls (Nat.succ_ne_self _)
  | move hCalls =>
    cases h
    exact absurd hCalls (Nat.succ_ne_self _)

/-- Goroutines that are already in the sink keep the events there. -/
theorem bufferStep_places (hOther : ∀ e, a ≠ .handleNewFile e)
    (h : bufferStep maxAnalyzedEvent s a = some t) :
    (t.entering ++ t.content).Perm (s.entering ++ s.content) := by
  cases bufferStep_effect h with
  | call e hCall => exact absurd hCall (hOther e)
  | append x _ _ hEntering hContent =>
    exact (hContent.append_left _).trans (List.perm_middle.trans (hEntering.symm.append_right _))
  | move _ _ hEntering hContent => exact hEntering.append hContent

/-- The buffer and the batches hold what was consumed, and every call has its
event in one place: still to be appended, or consumed. -/
structure BufferState.Conserved (s : BufferState E) : Prop where
  content : s.content.Perm s.consumed
  calls : ((s.entering ++ s.consumed).map Prod.fst).Perm (List.range s.calls)

theorem Effect.conserved (hEffect : Effect s a t) (h : s.Conserved) : t.Conserved := by
  cases hEffect with
  | call e _ hCalls hConsumed hEntering hContent =>
    constructor
    · rw [hConsumed]
      exact hContent.trans h.content
    · have hMoved := (hEntering.append_right s.consumed).map Prod.fst
      rw [hConsumed, hCalls, List.range_succ]
      exact hMoved.trans ((h.calls.cons s.calls).trans (List.perm_append_singleton _ _).symm)
  | append x hCalls hConsumed hEntering hContent =>
    constructor
    · rw [hConsumed]
      exact hContent.trans ((h.content.cons x).trans (List.perm_append_singleton _ _).symm)
    · have hMoved := (hEntering.append_right s.consumed).map Prod.fst
      rw [hConsumed, hCalls, ← List.append_assoc]
      exact ((List.perm_append_singleton x _).map Prod.fst).trans (hMoved.symm.trans h.calls)
  | move hCalls hConsumed hEntering hContent =>
    constructor
    · rw [hConsumed]
      exact hContent.trans h.content
    · rw [hConsumed, hCalls]
      exact ((hEntering.append_right _).map _).trans h.calls

theorem conserved_of_reachable (h : (bufferMachine maxAnalyzedEvent).Reachable s) :
    s.Conserved := by
  refine Machine.Reachable.invariant (I := BufferState.Conserved) ?_ ?_ h
  · exact ⟨List.Perm.refl _, List.Perm.refl _⟩
  · exact fun s a t hs hStep => (bufferStep_effect hStep).conserved hs

theorem BufferState.Conserved.consumed_nodup (h : s.Conserved) : s.consumed.Nodup := by
  have hAll := h.calls.nodup_iff.mpr List.nodup_range
  rw [List.map_append] at hAll
  exact (List.nodup_append.mp hAll).2.1.of_map _

theorem BufferState.Conserved.content_nodup (h : s.Conserved) : s.content.Nodup :=
  h.content.nodup_iff.mpr h.consumed_nodup

theorem BufferState.Conserved.occurrences [DecidableEq E] (h : s.Conserved) (x : Nat × E) :
    s.occurrences x = if x ∈ s.consumed then 1 else 0 := by
  have hCount : s.occurrences x = s.consumed.count x := by
    rw [← h.content.count_eq, BufferState.content, List.count_append, List.count_flatten]
    rfl
  rw [hCount]
  split
  · exact List.count_eq_one_of_mem h.consumed_nodup ‹_›
  · exact List.count_eq_zero_of_not_mem ‹_›

end Ledger

/-! ## The timer -/

section Timer

variable {E : Type} {maxAnalyzedEvent : Int} {s t : BufferState E} {a : BufferAction E}

/-- What the buffer and the timer have to do with each other at each statement
of the holder. The timer is missing beside an event only between `append` and
`arm` and between `clear` and the swap. -/
def BufferState.Watched (s : BufferState E) : Prop :=
  match s.holder with
  | some (.arm _) => s.timer = none → s.events.length = 1
  | some (.swap _) => True
  | some (.panicked _) => True
  | some (.leaveEmpty _) => s.events = []
  | some (.pass _ _) => s.events = []
  | _ => s.events ≠ [] → s.timer ≠ none

/-- A timer that is set can still fire, its callback waits, or it is about to be stopped. -/
def BufferState.Pending (s : BufferState E) : Prop :=
  ∀ timer, s.timer = some timer → timer ∈ s.armed ∨ Task.flush (.callback timer) ∈ s.tasks ∨
    ∃ origin, s.holder = some (.clear origin)

/-- A step that leaves the timer set keeps it pending if no callback and no `clear` is lost. -/
theorem BufferState.Pending.keep (h : s.Pending) (hTimer : t.timer = s.timer)
    (hArmed : ∀ timer ∈ s.armed, timer ∈ t.armed ∨ Task.flush (.callback timer) ∈ t.tasks)
    (hTasks : ∀ timer, Task.flush (.callback timer) ∈ s.tasks →
      Task.flush (.callback timer) ∈ t.tasks)
    (hHolder : ∀ origin, s.holder = some (.clear origin) → t.holder = some (.clear origin)) :
    t.Pending := by
  intro timer hSet
  rw [hTimer] at hSet
  obtain hIn | hQueued | ⟨origin, hClear⟩ := h timer hSet
  · exact (hArmed timer hIn).imp_right Or.inl
  · exact Or.inr (Or.inl (hTasks timer hQueued))
  · exact Or.inr (Or.inr ⟨origin, hHolder origin hClear⟩)

theorem bufferStep_pending (hPending : s.Pending) (h : bufferStep maxAnalyzedEvent s a = some t) :
    t.Pending := by
  have hLeft : ∀ {c : Critical E}, s.holder = some c → (∀ origin, c ≠ .clear origin) →
      ∀ {u : BufferState E} origin, s.holder = some (.clear origin) →
        u.holder = some (.clear origin) := by
    intro c hHolder hc u origin hClear
    exact absurd (Option.some.inj (hHolder.symm.trans hClear)) (hc origin)
  have hFree : s.holder = none → ∀ {u : BufferState E} origin,
      s.holder = some (.clear origin) → u.holder = some (.clear origin) := by
    intro hNone u origin hClear
    cases hNone.symm.trans hClear
  -- the goroutine that left the tasks is another one
  have hErased : ∀ {k : Nat} {task : Task E}, s.tasks[k]? = some task →
      (∀ timer, Task.flush (.callback timer) ≠ task) → ∀ timer,
      Task.flush (.callback timer) ∈ s.tasks →
      Task.flush (.callback timer) ∈ s.tasks.eraseIdx k := by
    intro k task hTask hOther timer hQueued
    exact mem_eraseIdx_of_ne hTask hQueued (hOther timer)
  cases steps_of_bufferStep h with
  | handleNewFile e =>
    exact hPending.keep rfl (fun _ => Or.inl) (fun _ => List.mem_append_left _) (fun _ => id)
  | fire fired _ =>
    refine hPending.keep rfl (fun timer hIn => ?_) (fun _ => List.mem_append_left _) (fun _ => id)
    by_cases hSame : timer = fired
    · subst hSame
      exact Or.inr (List.mem_append_right _ (List.mem_singleton_self _))
    · exact Or.inl ((List.mem_erase_of_ne hSame).mpr hIn)
  | lockNewFile k n e hHolder hTask =>
    exact hPending.keep rfl (fun _ => Or.inl) (hErased hTask nofun) (hFree hHolder)
  | lockFlush k origin _ _ => exact fun timer _ => Or.inr (Or.inr ⟨origin, rfl⟩)
  | append n e hHolder | armSkip n hHolder | measure n hHolder | leave n hHolder
  | swapEmpty origin hHolder | swapPanics origin hHolder | swap origin hHolder
  | leaveEmpty origin hHolder =>
    exact hPending.keep rfl (fun _ => Or.inl) (fun _ => id) (hLeft hHolder nofun)
  | leaveFull n hHolder | pass origin batch hHolder =>
    exact hPending.keep rfl (fun _ => Or.inl) (fun _ => List.mem_append_left _)
      (hLeft hHolder nofun)
  | arm n _ _ =>
    intro timer hTimer
    rw [← Option.some.inj hTimer]
    exact Or.inl (List.mem_append_right _ (List.mem_singleton_self _))
  | clearNone origin _ hNone =>
    intro timer hTimer
    cases hNone.symm.trans hTimer
  | clear origin timer _ _ => exact nofun
  | storeBatch k ok origin batch hTask =>
    exact hPending.keep rfl (fun _ => Or.inl) (hErased hTask nofun) (fun _ => id)

theorem bufferStep_watched (hWatched : s.Watched) (h : bufferStep maxAnalyzedEvent s a = some t) :
    t.Watched := by
  cases steps_of_bufferStep h with
  | handleNewFile e => exact hWatched
  | fire timer _ => exact hWatched
  | storeBatch k ok origin batch _ => exact hWatched
  | lockNewFile k n e hHolder _ | lockFlush k origin hHolder _ | measure n hHolder
  | leave n hHolder | leaveFull n hHolder =>
    rwa [BufferState.Watched, hHolder] at hWatched
  | append n e hHolder =>
    rw [BufferState.Watched, hHolder] at hWatched
    intro hTimer
    have hEmpty : s.events = [] := by
      by_contra hEvents
      exact hWatched hEvents hTimer
    rw [hEmpty]
    rfl
  | arm n _ _ => exact fun _ => nofun
  | armSkip n hHolder hSkip =>
    rw [BufferState.Watched, hHolder] at hWatched
    intro _ hTimer
    exact hSkip ⟨hWatched hTimer, hTimer⟩
  | clearNone origin _ _ => trivial
  | clear origin timer _ _ => trivial
  | swapEmpty origin _ hEmpty => exact hEmpty
  | swapPanics origin _ _ _ => trivial
  | swap origin _ _ => rfl
  | leaveEmpty origin hHolder | pass origin batch hHolder =>
    rw [BufferState.Watched, hHolder] at hWatched
    exact fun hEvents => absurd hWatched hEvents

theorem timer_of_reachable (h : (bufferMachine maxAnalyzedEvent).Reachable s) :
    s.Watched ∧ s.Pending := by
  refine Machine.Reachable.invariant (I := fun s => s.Watched ∧ s.Pending) ?_ ?_ h
  · exact ⟨fun hEvents => absurd rfl hEvents, nofun⟩
  · exact fun s a t hs hStep => ⟨bufferStep_watched hs.1 hStep, bufferStep_pending hs.2 hStep⟩

end Timer

/-- In every interleaving of calls, flushes and callbacks, each call of
`handleNewFile` so far has its event in one place: it waits to be appended, or
it was consumed. An event is in the buffer or in one batch, once, exactly if it
was consumed; and a buffer that is not empty while the lock is free has a timer
that is armed or whose callback is on its way. -/
theorem buffer_keeps_events {E : Type} [DecidableEq E] {maxAnalyzedEvent : Int}
    {s : BufferState E} (h : (bufferMachine maxAnalyzedEvent).Reachable s) :
    ((s.entering ++ s.consumed).map Prod.fst).Perm (List.range s.calls) ∧
      (∀ x, s.occurrences x = if x ∈ s.consumed then 1 else 0) ∧
      (s.holder = none → s.events ≠ [] → s.TimerSet) := by
  have hConserved := conserved_of_reachable h
  refine ⟨hConserved.calls, hConserved.occurrences, ?_⟩
  intro hFree hEvents
  obtain ⟨hWatched, hPending⟩ := timer_of_reachable h
  rw [BufferState.Watched, hFree] at hWatched
  obtain ⟨timer, hTimer⟩ := Option.ne_none_iff_exists'.mp (hWatched hEvents)
  obtain hArmed | hQueued | ⟨origin, hClear⟩ := hPending timer hTimer
  · exact ⟨timer, hTimer, Or.inl hArmed⟩
  · exact ⟨timer, hTimer, Or.inr hQueued⟩
  · rw [hFree] at hClear
    cases hClear

/-- The first timer fires, but a full buffer is flushed before its callback
gets the lock; the next event starts a second timer. -/
def staleCallbackRun : List (BufferAction String) :=
  [.handleNewFile "a", .lock 0, .proceed, .proceed, .proceed, .proceed, .fire 0,
    .handleNewFile "b", .lock 1, .proceed, .proceed, .proceed, .proceed,
    .lock 1, .proceed, .proceed, .proceed,
    .handleNewFile "c", .lock 2, .proceed, .proceed, .proceed, .proceed]

def staleCallback : BufferState String := (bufferMachine 2).after staleCallbackRun

theorem buffer_keeps_stale :
    staleCallback.batches = [[(0, "a"), (1, "b")]] ∧ staleCallback.events = [(2, "c")] ∧
      Task.flush (.callback 0) ∈ staleCallback.tasks ∧ staleCallback.timer = some 1 ∧
      (staleCallback.consumed.map Prod.fst).Perm [0, 1, 2] ∧
      staleCallback.occurrences (1, "b") = 1 ∧ staleCallback.TimerSet := by
  obtain ⟨hCalls, hPlaced, hTimer⟩ :=
    buffer_keeps_events (Machine.reachable_after (M := bufferMachine 2) staleCallbackRun)
  refine ⟨by decide +kernel, by decide +kernel, by decide +kernel, by decide +kernel, ?_, ?_, ?_⟩
  · exact hCalls
  · exact (hPlaced (1, "b")).trans (by decide +kernel)
  · exact hTimer (by decide +kernel) (by decide +kernel)

end ChatLab.Sink

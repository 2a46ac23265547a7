import ChatLab.Sink.Buffer

/-!
# Who still has to flush

A call of `handleNewFile` runs from its own `Lock` to the return of the flush
that it may start; the callback of a timer runs on its own. What the sink
still holds belongs to one of them, to the buffer, or was handed to
`StoreBatch`.
-/

namespace ChatLab.Sink

open Foundation Foundation.Bag

/-- The call of `handleNewFile` that a goroutine runs. -/
def Origin.call? : Origin → Option Nat
  | .call n => some n
  | .callback _ => none

def Task.call? {E : Type} : Task E → Option Nat
  | .newFile n _ => some n
  | .flush origin => origin.call?
  | .store origin _ => origin.call?

def Critical.call? {E : Type} : Critical E → Option Nat
  | .append n _ => some n
  | .arm n => some n
  | .measure n => some n
  | .leave n _ => some n
  | .clear origin => origin.call?
  | .swap origin => origin.call?
  | .leaveEmpty origin => origin.call?
  | .pass origin _ => origin.call?
  | .panicked origin => origin.call?

/-- The calls that have not returned. -/
def BufferState.engaged {E : Type} (s : BufferState E) : List Nat :=
  s.holder.toList.filterMap Critical.call? ++ s.tasks.filterMap Task.call?

def Task.callbackBatch {E : Type} : Task E → List (List (Nat × E))
  | .store (.callback _) batch => [batch]
  | _ => []

def Critical.callbackBatch {E : Type} : Critical E → List (List (Nat × E))
  | .pass (.callback _) batch => [batch]
  | _ => []

/-- The batches that callbacks of the timer have still to store. -/
def BufferState.callbackBatches {E : Type} (s : BufferState E) : List (List (Nat × E)) :=
  s.holder.toList.flatMap Critical.callbackBatch ++ s.tasks.flatMap Task.callbackBatch

/-! ## Calls that have not returned -/

section Calls

variable {E : Type} {maxAnalyzedEvent : Int} {s t : BufferState E} {a : BufferAction E}

theorem mem_engaged {n : Nat} : n ∈ s.engaged ↔
    (∃ c, s.holder = some c ∧ c.call? = some n) ∨ ∃ task ∈ s.tasks, task.call? = some n := by
  simp [BufferState.engaged]

theorem handleNewFile_engaged {e : E}
    (h : bufferStep maxAnalyzedEvent s (.handleNewFile e) = some t) :
    t.engaged = s.engaged ++ [s.calls] := by
  cases h
  simp [BufferState.engaged, Task.call?]

/-- The holder works for one call, also in the task it leaves behind. -/
theorem proceed_engaged {c : Critical E} (hHolder : s.holder = some c)
    (hHeld : ∀ d ∈ t.holder, d.call? = c.call?)
    (hTasks : ∀ task ∈ t.tasks, task ∈ s.tasks ∨ task.call? = c.call?) : t.engaged ⊆ s.engaged := by
  intro n hn
  rw [mem_engaged] at hn ⊢
  obtain ⟨d, hd, hn⟩ | ⟨task, hTask, hn⟩ := hn
  · exact Or.inl ⟨c, hHolder, hHeld d hd ▸ hn⟩
  · obtain hTask | hCall := hTasks task hTask
    · exact Or.inr ⟨task, hTask, hn⟩
    · exact Or.inl ⟨c, hHolder, hCall ▸ hn⟩

theorem acquire_engaged {k : Nat} {task : Task E} {c : Critical E} (hTask : s.tasks[k]? = some task)
    (hCall : c.call? = task.call?) :
    BufferState.engaged { s with tasks := s.tasks.eraseIdx k, holder := some c } ⊆ s.engaged := by
  intro n hn
  rw [mem_engaged] at hn ⊢
  obtain ⟨d, ⟨⟩, hn⟩ | ⟨other, hOther, hn⟩ := hn
  · exact Or.inr ⟨task, List.mem_of_getElem? hTask, hCall ▸ hn⟩
  · exact Or.inr ⟨other, List.mem_of_mem_eraseIdx hOther, hn⟩

theorem bufferStep_engaged (hOther : ∀ e, a ≠ .handleNewFile e)
    (h : bufferStep maxAnalyzedEvent s a = some t) : t.engaged ⊆ s.engaged := by
  cases steps_of_bufferStep h with
  | handleNewFile e => exact absurd rfl (hOther e)
  | fire timer _ =>
    intro n hn
    simpa [BufferState.engaged, Task.call?, Origin.call?] using hn
  | lockNewFile k n e _ hTask => exact acquire_engaged hTask rfl
  | lockFlush k origin _ hTask => exact acquire_engaged hTask rfl
  | append n e hHolder | arm n hHolder | armSkip n hHolder | measure n hHolder
  | clearNone origin hHolder | clear origin timer hHolder | swapEmpty origin hHolder
  | swapPanics origin hHolder | swap origin hHolder =>
    refine proceed_engaged hHolder ?_ fun _ => Or.inl
    rintro d ⟨⟩
    rfl
  | leave n hHolder | leaveEmpty origin hHolder =>
    exact proceed_engaged hHolder nofun fun _ => Or.inl
  | leaveFull n hHolder | pass origin batch hHolder =>
    exact proceed_engaged hHolder nofun (forall_mem_concat (fun _ => Or.inl) (Or.inr rfl))
  | storeBatch k ok origin batch _ =>
    intro n hn
    rw [mem_engaged] at hn ⊢
    refine hn.imp_right ?_
    rintro ⟨task, hTask, hCall⟩
    exact ⟨task, List.mem_of_mem_eraseIdx hTask, hCall⟩

/-- A call that panicked keeps the lock, and nothing is appended or flushed any more. -/
theorem bufferStep_panicked {origin : Origin} (hPanicked : s.holder = some (.panicked origin))
    (h : bufferStep maxAnalyzedEvent s a = some t) : t.holder = s.holder ∧ t.events = s.events := by
  cases steps_of_bufferStep h with
  | handleNewFile e => exact ⟨rfl, rfl⟩
  | fire timer _ => exact ⟨rfl, rfl⟩
  | storeBatch k ok origin batch _ => exact ⟨rfl, rfl⟩
  | lockNewFile k n e hHolder | lockFlush k origin hHolder | append n e hHolder | arm n hHolder
  | armSkip n hHolder | measure n hHolder | leave n hHolder | leaveFull n hHolder
  | clearNone origin hHolder | clear origin timer hHolder | swapEmpty origin hHolder
  | swapPanics origin hHolder | swap origin hHolder | leaveEmpty origin hHolder
  | pass origin batch hHolder => cases hHolder.symm.trans hPanicked

/-- A call panics only with events in the buffer. -/
theorem bufferStep_panics (hs : ∀ origin, s.holder = some (.panicked origin) → s.events ≠ [])
    (h : bufferStep maxAnalyzedEvent s a = some t) :
    ∀ origin, t.holder = some (.panicked origin) → t.events ≠ [] := by
  cases steps_of_bufferStep h with
  | handleNewFile e => exact hs
  | fire timer _ => exact hs
  | storeBatch k ok origin batch _ => exact hs
  | swapPanics origin _ hEvents _ => exact fun _ _ => hEvents
  | _ => exact nofun

end Calls

/-! ## Coming to rest -/

section Rest

variable {E : Type} {maxAnalyzedEvent : Int} {s : BufferState E}

/-- How far a goroutine is from its return, in steps that may start others. -/
def Task.work : Task E → Nat
  | .newFile _ _ => 12
  | .flush _ => 6
  | .store _ _ => 1

def Critical.work : Critical E → Nat
  | .append _ _ => 11
  | .arm _ => 10
  | .measure _ => 9
  | .leave _ _ => 8
  | .clear _ => 5
  | .swap _ => 4
  | .leaveEmpty _ => 3
  | .pass _ _ => 3
  | .panicked _ => 0

def taskWork (tasks : List (Task E)) : Nat := tasks.foldr (fun task n => task.work + n) 0

def BufferState.work (s : BufferState E) : Nat :=
  (s.holder.map Critical.work).getD 0 + taskWork s.tasks

/-- No goroutine has anything left to do under the lock or with a batch. -/
def BufferState.Quiet (s : BufferState E) : Prop := s.holder = none ∧ s.tasks = []

def BufferState.Calm (s : BufferState E) : Prop := ∀ origin, s.holder ≠ some (.panicked origin)

theorem taskWork_concat (tasks : List (Task E)) (task : Task E) :
    taskWork (tasks ++ [task]) = taskWork tasks + task.work := by
  induction tasks with
  | nil => exact Nat.add_comm _ _
  | cons first rest ih =>
    change first.work + taskWork (rest ++ [task]) = first.work + taskWork rest + task.work
    omega

theorem taskWork_eraseIdx {tasks : List (Task E)} {k : Nat} {task : Task E}
    (h : tasks[k]? = some task) :
    taskWork tasks = task.work + taskWork (tasks.eraseIdx k) := by
  induction tasks generalizing k with
  | nil => cases h
  | cons first rest ih =>
    cases k with
    | zero =>
      cases h
      rfl
    | succ k =>
      have hRest := ih (List.getElem?_cons_succ ▸ h)
      change first.work + taskWork rest = task.work + (first.work + taskWork (rest.eraseIdx k))
      omega

theorem work_of_holder {c : Critical E} (h : s.holder = some c) :
    s.work = c.work + taskWork s.tasks := by
  rw [BufferState.work, h]
  rfl

theorem calm_of_free (h : s.holder = none) : s.Calm := by
  intro origin hPanicked
  rw [h] at hPanicked
  cases hPanicked

theorem calm_of_work {c : Critical E} (h : s.holder = some c) (hWork : 0 < c.work) : s.Calm := by
  intro origin hPanicked
  rw [h] at hPanicked
  cases hPanicked
  exact absurd hWork (Nat.lt_irrefl 0)

/-- The holder of the lock comes to its next point. -/
theorem rest_of_point {t : BufferState E} {c d : Critical E} (hHolder : t.holder = some d)
    (hTasks : t.tasks = s.tasks) (hPos : 0 < d.work) (hLess : d.work < c.work) :
    t.Calm ∧ t.work < c.work + taskWork s.tasks := by
  refine ⟨calm_of_work hHolder hPos, ?_⟩
  rw [work_of_holder hHolder, hTasks]
  exact Nat.add_lt_add_right hLess _

/-- With a capacity that `make` accepts the holder of the lock goes on. -/
theorem exists_runHolder (hMax : 0 ≤ maxAnalyzedEvent) {c : Critical E}
    (hHolder : s.holder = some c) (hCalm : ∀ origin, c ≠ .panicked origin) :
    ∃ t, runHolder maxAnalyzedEvent s c = some t ∧ t.Calm ∧ t.work < s.work := by
  rw [work_of_holder hHolder]
  cases c with
  | append n e => exact ⟨_, rfl, rest_of_point rfl rfl (Nat.succ_pos _) (Nat.lt_succ_self _)⟩
  | arm n =>
    rw [runHolder]
    split
    · exact ⟨_, rfl, rest_of_point rfl rfl (Nat.succ_pos _) (Nat.lt_succ_self _)⟩
    · exact ⟨_, rfl, rest_of_point rfl rfl (Nat.succ_pos _) (Nat.lt_succ_self _)⟩
  | measure n => exact ⟨_, rfl, rest_of_point rfl rfl (Nat.succ_pos _) (Nat.lt_succ_self _)⟩
  | leave n isFull =>
    refine ⟨_, rfl, calm_of_free rfl, ?_⟩
    cases isFull with
    | false => simp [BufferState.work, Critical.work]
    | true => simp [BufferState.work, Critical.work, taskWork_concat, Task.work, Nat.add_comm]
  | clear origin =>
    rw [runHolder]
    split
    · exact ⟨_, rfl, rest_of_point rfl rfl (Nat.succ_pos _) (Nat.lt_succ_self _)⟩
    · exact ⟨_, rfl, rest_of_point rfl rfl (Nat.succ_pos _) (Nat.lt_succ_self _)⟩
  | swap origin =>
    rw [runHolder]
    split
    · exact ⟨_, rfl, rest_of_point rfl rfl (Nat.succ_pos _) (Nat.lt_succ_self _)⟩
    · rw [if_neg (by omega)]
      exact ⟨_, rfl, rest_of_point rfl rfl (Nat.succ_pos _) (Nat.lt_succ_self _)⟩
  | leaveEmpty origin =>
    refine ⟨_, rfl, calm_of_free rfl, ?_⟩
    simp [BufferState.work, Critical.work]
  | pass origin batch =>
    refine ⟨_, rfl, calm_of_free rfl, ?_⟩
    simp [BufferState.work, Critical.work, taskWork_concat, Task.work, Nat.add_comm]
  | panicked origin => exact absurd rfl (hCalm origin)

/-- Until the sink is at rest some goroutine can go on, without a new call. -/
theorem exists_bufferStep (hMax : 0 ≤ maxAnalyzedEvent) (hCalm : s.Calm) (hBusy : ¬ s.Quiet) :
    ∃ a t, (∀ e, a ≠ .handleNewFile e) ∧ bufferStep maxAnalyzedEvent s a = some t ∧ t.Calm ∧
      t.work < s.work := by
  cases hHolder : s.holder with
  | some c =>
    obtain ⟨t, hRun, hRest⟩ := exists_runHolder hMax hHolder fun origin hEq =>
      hCalm origin (hHolder.trans (congrArg some hEq))
    exact ⟨.proceed, t, by simp, by rw [bufferStep, hHolder]; exact hRun, hRest⟩
  | none =>
    cases hTasks : s.tasks with
    | nil => exact absurd ⟨hHolder, hTasks⟩ hBusy
    | cons task rest =>
      have hFirst : s.tasks[0]? = some task := by rw [hTasks]; rfl
      have hWork : s.work = task.work + taskWork (s.tasks.eraseIdx 0) := by
        rw [BufferState.work, hHolder, ← taskWork_eraseIdx hFirst]
        exact Nat.zero_add _
      rw [hWork]
      cases task with
      | newFile n e =>
        refine ⟨.lock 0, { s with tasks := s.tasks.eraseIdx 0, holder := some (.append n e) },
          by simp, by rw [bufferStep, takeLock, hHolder, hFirst],
          calm_of_work rfl (Nat.succ_pos _), ?_⟩
        simp [BufferState.work, Critical.work, Task.work]
      | flush origin =>
        refine ⟨.lock 0, { s with tasks := s.tasks.eraseIdx 0, holder := some (.clear origin) },
          by simp, by rw [bufferStep, takeLock, hHolder, hFirst],
          calm_of_work rfl (Nat.succ_pos _), ?_⟩
        simp [BufferState.work, Critical.work, Task.work]
      | store origin batch =>
        refine ⟨.storeBatch 0 true, _, by simp, by rw [bufferStep, hFirst], ?_, ?_⟩
        · exact fun origin hPanicked => hCalm origin hPanicked
        · simp [BufferState.work, Task.work, hHolder]

/-- Only `make` panics under the lock. -/
theorem bufferStep_calm (hMax : 0 ≤ maxAnalyzedEvent) (hCalm : s.Calm) {a : BufferAction E}
    {t : BufferState E} (h : bufferStep maxAnalyzedEvent s a = some t) : t.Calm := by
  cases steps_of_bufferStep h with
  | handleNewFile e => exact hCalm
  | fire timer _ => exact hCalm
  | storeBatch k ok origin batch _ => exact hCalm
  | swapPanics origin _ _ hNegative => omega
  | _ => exact nofun

theorem BufferState.Quiet.engaged_eq_nil (h : s.Quiet) : s.engaged = [] := by
  rw [BufferState.engaged, h.1, h.2]
  rfl

end Rest

/-! ## Leaving the buffer empty -/

section Empty

variable {E : Type} {maxAnalyzedEvent : Int} {s t : BufferState E} {a : BufferAction E}

/-- Nothing is on its way into the buffer, in it, or in a batch of a callback. -/
structure BufferState.Settled (s : BufferState E) : Prop where
  entering : s.entering = []
  events : s.events = []
  callbacks : s.callbackBatches = []

theorem callbackBatches_eq_nil : s.callbackBatches = [] ↔
    (∀ c ∈ s.holder, c.callbackBatch = []) ∧ ∀ task ∈ s.tasks, task.callbackBatch = [] := by
  simp [BufferState.callbackBatches]

theorem BufferState.Settled.keep (hs : s.Settled) (hEntering : t.entering = [])
    (hEvents : t.events = s.events) (hHeld : ∀ c ∈ t.holder, c.callbackBatch = [])
    (hTasks : ∀ task ∈ t.tasks, task ∈ s.tasks ∨ task.callbackBatch = []) : t.Settled := by
  refine ⟨hEntering, hEvents.trans hs.events, callbackBatches_eq_nil.mpr ⟨hHeld, ?_⟩⟩
  intro task hTask
  obtain hTask | hBatch := hTasks task hTask
  · exact (callbackBatches_eq_nil.mp hs.callbacks).2 task hTask
  · exact hBatch

theorem BufferState.Settled.step (hs : s.Settled) (hOther : ∀ e, a ≠ .handleNewFile e)
    (h : bufferStep maxAnalyzedEvent s a = some t) : t.Settled := by
  have hEntering : t.entering = [] := by
    cases bufferStep_effect h with
    | call e hCall => exact absurd hCall (hOther e)
    | append x _ _ hMoved =>
      rw [hs.entering] at hMoved
      exact absurd hMoved (List.not_perm_nil_cons x _)
    | move _ _ hMoved =>
      rw [hs.entering] at hMoved
      exact hMoved.eq_nil
  have hHeld := (callbackBatches_eq_nil.mp hs.callbacks).1
  have hFree : ∀ c ∈ (none : Option (Critical E)), c.callbackBatch = [] := nofun
  have hLeft : ∀ {new : Task E}, new.callbackBatch = [] →
      ∀ task ∈ s.tasks ++ [new], task ∈ s.tasks ∨ task.callbackBatch = [] :=
    fun hNew => forall_mem_concat (fun _ => Or.inl) (Or.inr hNew)
  cases steps_of_bufferStep h with
  | handleNewFile e => exact absurd rfl (hOther e)
  | fire timer _ => exact hs.keep hEntering rfl hHeld (hLeft rfl)
  | lockNewFile k n e _ _ | lockFlush k origin _ _ =>
    refine hs.keep hEntering rfl ?_ fun task hTask => Or.inl (List.mem_of_mem_eraseIdx hTask)
    intro c hc
    cases hc
    rfl
  | append n e hHolder =>
    have hAll := hs.entering
    rw [BufferState.entering, hHolder] at hAll
    cases hAll
  | arm n _ _ | armSkip n _ _ | measure n _ | clearNone origin _ _ | clear origin timer _ _
  | swapEmpty origin _ _ | swapPanics origin _ _ _ =>
    refine hs.keep hEntering rfl ?_ fun _ => Or.inl
    intro c hc
    cases hc
    rfl
  -- an empty buffer is not swapped out
  | swap origin _ hEvents => exact absurd hs.events hEvents
  | leave n _ | leaveEmpty origin _ => exact hs.keep hEntering rfl hFree fun _ => Or.inl
  | leaveFull n _ => exact hs.keep hEntering rfl hFree (hLeft rfl)
  | pass origin batch hHolder =>
    have hBatch := hHeld _ hHolder
    cases origin with
    | call n => exact hs.keep hEntering rfl hFree (hLeft rfl)
    | callback timer => cases hBatch
  | storeBatch k ok origin batch _ =>
    exact hs.keep hEntering rfl hHeld fun task hTask => Or.inl (List.mem_of_mem_eraseIdx hTask)

/-- Without calls and callbacks everything is in the calls of `StoreBatch`. -/
theorem BufferState.Settled.content_eq (hs : s.Settled) (hCalls : s.engaged = []) :
    s.content = (s.stores.map Prod.fst).flatten := by
  obtain ⟨hHeld, hTasks⟩ := callbackBatches_eq_nil.mp hs.callbacks
  rw [BufferState.engaged, List.append_eq_nil_iff, List.filterMap_eq_nil_iff,
    List.filterMap_eq_nil_iff] at hCalls
  have hHolder : s.holder.toList.flatMap Critical.batch = [] := by
    rw [List.flatMap_eq_nil_iff]
    intro c hc
    have hNone := hCalls.1 c hc
    have hBatch := hHeld c (Option.mem_toList.mp hc)
    cases c with
    | pass origin batch =>
      cases origin with
      | call n => cases hNone
      | callback timer => cases hBatch
    | _ => rfl
  have hQueued : s.tasks.flatMap Task.batch = [] := by
    rw [List.flatMap_eq_nil_iff]
    intro task hTask
    have hNone := hCalls.2 task hTask
    have hBatch := hTasks task hTask
    cases task with
    | store origin batch =>
      cases origin with
      | call n => cases hNone
      | callback timer => cases hBatch
    | _ => rfl
  rw [BufferState.content, BufferState.batches, hs.events, hHolder, hQueued]
  rfl

end Empty

end ChatLab.Sink

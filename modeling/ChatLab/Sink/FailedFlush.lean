import ChatLab.Sink.Buffer

/-!
# A flush that fails

`flush` takes the buffer away before `processAndStore` runs, and its error
goes to a caller that logs it: the callback of the timer, or the fan-out
worker behind `Consume`. Nothing puts the batch back. An event is in one place
only, so that the events of a batch whose `StoreBatch` failed are in none of
those that the sink still works on.
-/

namespace ChatLab.Sink

open Foundation Foundation.Bag

section Places

variable {E : Type}

/-- The events in the buffer and in the batches on their way to `StoreBatch`. -/
def BufferState.held (s : BufferState E) : List (Nat × E) :=
  s.events ++ (s.holder.toList.flatMap Critical.batch ++ s.tasks.flatMap Task.batch).flatten

/-- The events of a failed call of `StoreBatch` are still held, or part of a
later call. -/
def BufferState.KeepsFailed (s : BufferState E) : Prop :=
  ∀ before batch after, s.stores = before ++ (batch, false) :: after →
    ∀ x ∈ batch, x ∈ s.held ∨ ∃ call ∈ after, x ∈ call.1

end Places

section Runs

variable {E : Type} {maxAnalyzedEvent : Int} {s t : BufferState E} {a : BufferAction E}

/-- No batch is empty, on its way to `StoreBatch` or there. -/
structure BufferState.Filled (s : BufferState E) : Prop where
  holder : ∀ c ∈ s.holder, ∀ batch ∈ c.batch, batch ≠ []
  tasks : ∀ task ∈ s.tasks, ∀ batch ∈ task.batch, batch ≠ []
  stores : ∀ call ∈ s.stores, call.1 ≠ []

theorem BufferState.Filled.keep (h : s.Filled)
    (hHolder : ∀ c ∈ t.holder, ∀ batch ∈ c.batch, batch ≠ [])
    (hTasks : ∀ task ∈ t.tasks, task ∈ s.tasks ∨ ∀ batch ∈ task.batch, batch ≠ [])
    (hStores : t.stores = s.stores) : t.Filled := by
  refine ⟨hHolder, ?_, hStores ▸ h.stores⟩
  intro task hTask
  obtain hOld | hNew := hTasks task hTask
  · exact h.tasks task hOld
  · exact hNew

/-- Only the swap makes a batch, and it leaves an empty buffer alone. -/
theorem bufferStep_filled (hs : s.Filled) (h : bufferStep maxAnalyzedEvent s a = some t) :
    t.Filled := by
  have hAdded : ∀ {added : Task E}, (∀ batch ∈ added.batch, batch ≠ []) →
      ∀ task ∈ s.tasks ++ [added], task ∈ s.tasks ∨ ∀ batch ∈ task.batch, batch ≠ [] := by
    intro added hAdded task hTask
    obtain hOld | hNew := List.mem_append.mp hTask
    · exact Or.inl hOld
    · obtain rfl := List.mem_singleton.mp hNew
      exact Or.inr hAdded
  cases steps_of_bufferStep h with
  | handleNewFile e => exact hs.keep hs.holder (hAdded (by simp [Task.batch])) rfl
  | fire timer _ => exact hs.keep hs.holder (hAdded (by simp [Task.batch])) rfl
  | lockNewFile k n e _ _ | lockFlush k origin _ _ =>
    exact hs.keep (by simp [Critical.batch])
      (fun _ hTask => Or.inl (List.mem_of_mem_eraseIdx hTask)) rfl
  | append n e _ | arm n _ _ | armSkip n _ _ | measure n _ | leave n _ | clearNone origin _ _
  | clear origin timer _ _ | swapEmpty origin _ _ | swapPanics origin _ _ _ | leaveEmpty origin _ =>
    exact hs.keep (by simp [Critical.batch]) (fun _ => Or.inl) rfl
  | leaveFull n _ => exact hs.keep (by simp) (hAdded (by simp [Task.batch])) rfl
  | swap origin _ hEvents =>
    exact hs.keep (by simpa [Critical.batch] using hEvents) (fun _ => Or.inl) rfl
  | pass origin batch hHolder =>
    have hBatch : batch ≠ [] := hs.holder _ hHolder batch (List.mem_singleton_self batch)
    exact hs.keep (by simp) (hAdded (by simpa [Task.batch] using hBatch)) rfl
  | storeBatch k ok origin batch hTask =>
    have hBatch : batch ≠ [] :=
      hs.tasks _ (List.mem_of_getElem? hTask) batch (List.mem_singleton_self batch)
    refine ⟨hs.holder, ?_, forall_mem_concat hs.stores hBatch⟩
    exact fun task hOld => hs.tasks task (List.mem_of_mem_eraseIdx hOld)

theorem filled_of_reachable (h : (bufferMachine maxAnalyzedEvent).Reachable s) : s.Filled := by
  refine Machine.Reachable.invariant (I := BufferState.Filled) ?_
    (fun s a t hs hStep => bufferStep_filled hs hStep) h
  exact ⟨by simp [bufferMachine, newBuffer], by simp [bufferMachine, newBuffer],
    by simp [bufferMachine, newBuffer]⟩

/-- The places of the events beside those of one failed call. -/
theorem content_perm {before after : List (List (Nat × E) × Bool)} {batch : List (Nat × E)}
    (h : s.stores = before ++ (batch, false) :: after) :
    s.content.Perm (batch ++ (s.held ++ ((before.map Prod.fst).flatten ++
      (after.map Prod.fst).flatten))) := by
  have hStores : (s.stores.map Prod.fst).flatten =
      (before.map Prod.fst).flatten ++ (batch ++ (after.map Prod.fst).flatten) := by
    rw [h, List.map_append, List.map_cons, List.flatten_append, List.flatten_cons]
  have hContent : s.content = s.held ++ (s.stores.map Prod.fst).flatten := by
    rw [BufferState.content, BufferState.batches, List.flatten_append, ← List.append_assoc]
    rfl
  rw [hContent, hStores]
  exact ((List.perm_append_comm_assoc _ batch _).append_left _).trans
    (List.perm_append_comm_assoc _ batch _)

/-- The events of a failed call are nowhere else, in this state and in every
later one. -/
theorem failed_batch_gone (h : (bufferMachine maxAnalyzedEvent).Reachable s)
    {before after : List (List (Nat × E) × Bool)} {batch : List (Nat × E)}
    (hStores : s.stores = before ++ (batch, false) :: after) {x : Nat × E} (hx : x ∈ batch) :
    x ∉ s.held ∧ ∀ call ∈ after, x ∉ call.1 := by
  have hNodup := (content_perm hStores).nodup_iff.mp (conserved_of_reachable h).content_nodup
  have hApart := (List.nodup_append.mp hNodup).2.2 x hx
  refine ⟨fun hHeld => hApart x ?_ rfl, fun call hCall hIn => hApart x ?_ rfl⟩
  · exact List.mem_append_left _ hHeld
  · refine List.mem_append_right _ (List.mem_append_right _ ?_)
    exact List.mem_flatten.mpr ⟨call.1, List.mem_map_of_mem hCall, hIn⟩

/-- A failed batch is never kept: the events of all failed calls are held or
stored again only if no call has failed. -/
theorem failed_batch_kept_iff (h : (bufferMachine maxAnalyzedEvent).Reachable s) :
    s.KeepsFailed ↔ ∀ call ∈ s.stores, call.2 = true := by
  constructor
  · rintro hKeeps ⟨batch, ok⟩ hCall
    cases ok with
    | true => rfl
    | false =>
      obtain ⟨before, after, hStores⟩ := List.append_of_mem hCall
      obtain ⟨x, hx⟩ := List.exists_mem_of_ne_nil _ ((filled_of_reachable h).stores _ hCall)
      obtain ⟨hHeld, hLater⟩ := failed_batch_gone h hStores hx
      obtain hIn | ⟨call, hAfter, hIn⟩ := hKeeps before batch after hStores x hx
      · exact absurd hIn hHeld
      · exact absurd hIn (hLater call hAfter)
  · intro hAll before batch after hStores
    have hMem : (batch, false) ∈ s.stores := by simp [hStores]
    cases hAll _ hMem

end Runs

/-- A buffer of one event, whose batch is handed to `StoreBatch`. -/
def flushedRun (ok : Bool) : List (BufferAction String) :=
  [.handleNewFile "a", .lock 0, .proceed, .proceed, .proceed, .proceed, .lock 0, .proceed, .proceed,
    .proceed, .storeBatch 0 ok]

def flushed (ok : Bool) : BufferState String := (bufferMachine 1).after (flushedRun ok)

theorem failed_batch_kept_stored : (flushed true).KeepsFailed :=
  (failed_batch_kept_iff (Machine.reachable_after (M := bufferMachine 1) (flushedRun true))).mpr
    (by decide +kernel)

theorem failed_batch_lost :
    ¬ ∀ s : BufferState String, (bufferMachine 1).Reachable s → s.KeepsFailed := by
  intro hAlways
  have hKeeps := hAlways (flushed false) (Machine.reachable_after (flushedRun false))
  have hStores : (flushed false).stores = [] ++ ([(0, "a")], false) :: [] := by decide +kernel
  have hHeld : (flushed false).held = [] := by decide +kernel
  obtain hIn | ⟨call, hCall, _⟩ := hKeeps _ _ _ hStores (0, "a") (List.mem_singleton_self _)
  · rw [hHeld] at hIn
    cases hIn
  · cases hCall

end ChatLab.Sink

import ChatLab.Foundation.Bag
import ChatLab.Workers.Supervisor

/-!
# Restarts and their history

The history of a run records the decisions to restart, the calls of `Run`, their
ends and the cancellation. Each goroutine agrees with its part of the history,
and what one worker does says nothing about another. From this follows when
`Run` is called again; the wait group counts the goroutines that are left.
-/

namespace ChatLab.Workers.Supervisor

open Foundation

/-! ## What a history says about a worker -/

def outcomeOf (i : Nat) : Occurrence → Option Outcome
  | .ended j o => if j = i then some o else none
  | _ => none

/-- The ends of the calls of the worker's `Run`, in order. -/
def outcomes (i : Nat) (h : List Occurrence) : List Outcome := h.filterMap (outcomeOf i)

def invocations (i : Nat) (h : List Occurrence) : Nat := h.count (.invoked i)

/-- A call may follow: all calls so far have failed, and before the context was
cancelled the supervisor decided to make a further one. -/
structure Restarted (i : Nat) (before : List Occurrence) : Prop where
  ended : (outcomes i before).length = invocations i before
  failed : ∀ o ∈ outcomes i before, o.failed = true
  decided : ∃ n, before[n]? = some (.restarted i) ∧ .cancelled ∉ before.take n ∧
    invocations i (before.take n) = invocations i before

theorem outcomes_append (i : Nat) (h h' : List Occurrence) :
    outcomes i (h ++ h') = outcomes i h ++ outcomes i h' := List.filterMap_append

theorem invocations_append (i : Nat) (h h' : List Occurrence) :
    invocations i (h ++ h') = invocations i h + invocations i h' := List.count_append

/-- What is recorded for one worker says nothing about another. -/
theorem record_of_ne {i j : Nat} (hOther : j ≠ i) (m : Move) (cancelled : Bool) :
    outcomes i (m.record cancelled j) = [] ∧ invocations i (m.record cancelled j) = 0 := by
  cases m with
  | check => cases cancelled <;> exact ⟨rfl, rfl⟩
  | call => simp [Move.record, outcomes, outcomeOf, invocations, hOther]
  | finish o => simp [Move.record, outcomes, outcomeOf, invocations, hOther]
  | _ => exact ⟨rfl, rfl⟩

theorem cancelled_notMem_record (m : Move) (cancelled : Bool) (i : Nat) :
    Occurrence.cancelled ∉ m.record cancelled i := by
  cases m with
  | check => cases cancelled <;> simp [Move.record]
  | _ => simp [Move.record]

/-! ## One goroutine and the history -/

structure Traced (h : List Occurrence) (i : Nat) (p : Point) : Prop where
  invoked : invocations i h = (outcomes i h).length + (if p = .running then 1 else 0)
  failed : p.goesOn = true → ∀ o ∈ outcomes i h, o.failed = true
  stopped : p.goesOn = false → .nil ∈ outcomes i h ∨ .cancelled ∈ h
  decided : p = .calling → ∃ n, h[n]? = some (.restarted i) ∧ .cancelled ∉ h.take n ∧
    invocations i (h.take n) = invocations i h

section Traced

variable {h : List Occurrence} {i : Nat} {p q : Point}

/-- More history that does not concern the worker. -/
theorem Traced.append (hTraced : Traced h i p) {h' : List Occurrence}
    (hOutcomes : outcomes i h' = []) (hInvocations : invocations i h' = 0) :
    Traced (h ++ h') i p := by
  have hEnds : outcomes i (h ++ h') = outcomes i h := by
    rw [outcomes_append, hOutcomes, List.append_nil]
  have hCalls : invocations i (h ++ h') = invocations i h := by
    rw [invocations_append, hInvocations, Nat.add_zero]
  constructor
  · rw [hEnds, hCalls]
    exact hTraced.invoked
  · rw [hEnds]
    exact hTraced.failed
  · intro hStops
    rw [hEnds, List.mem_append]
    exact (hTraced.stopped hStops).imp_right .inl
  · intro hCalling
    obtain ⟨n, hn, hAlive, hSame⟩ := hTraced.decided hCalling
    obtain ⟨hLt, _⟩ := List.getElem?_eq_some_iff.mp hn
    refine ⟨n, ?_, ?_, ?_⟩
    · rw [List.getElem?_append_left hLt]
      exact hn
    · rw [List.take_append_of_le_length hLt.le]
      exact hAlive
    · rw [List.take_append_of_le_length hLt.le, hCalls]
      exact hSame

/-- A step that records nothing and keeps the direction. -/
theorem Traced.silent (hTraced : Traced h i p) (hp : p ≠ .running) (hq : q ≠ .running)
    (hCalling : q ≠ .calling) (hGoes : q.goesOn = p.goesOn) : Traced (h ++ []) i q := by
  rw [List.append_nil]
  have hInvoked := hTraced.invoked
  rw [if_neg hp] at hInvoked
  constructor
  · rw [if_neg hq]
    exact hInvoked
  · rw [hGoes]
    exact hTraced.failed
  · rw [hGoes]
    exact hTraced.stopped
  · exact fun hSame => absurd hSame hCalling

theorem Traced.leave (hTraced : Traced h i p) (hp : p ≠ .running) (hCancelled : .cancelled ∈ h) :
    Traced (h ++ []) i .leaving := by
  rw [List.append_nil]
  have hInvoked := hTraced.invoked
  rw [if_neg hp] at hInvoked
  constructor
  · exact hInvoked
  · intro hGoes
    cases hGoes
  · exact fun _ => .inr hCancelled
  · intro hCalling
    cases hCalling

theorem Traced.restart (hTraced : Traced h i .checking) (hAlive : .cancelled ∉ h) :
    Traced (h ++ [Occurrence.restarted i]) i .calling := by
  have hSilent : Traced (h ++ [Occurrence.restarted i]) i .checking := hTraced.append rfl rfl
  constructor
  · exact hSilent.invoked
  · exact fun _ => hSilent.failed rfl
  · intro hStops
    cases hStops
  · intro _
    refine ⟨h.length, List.getElem?_concat_length, ?_, ?_⟩
    · rw [List.take_left]
      exact hAlive
    · rw [List.take_left, invocations_append]
      rfl

theorem Traced.call (hTraced : Traced h i .calling) :
    Traced (h ++ [Occurrence.invoked i]) i .running := by
  have hInvoked : invocations i h = (outcomes i h).length := hTraced.invoked
  have hOutcomes : outcomes i (h ++ [Occurrence.invoked i]) = outcomes i h := by
    rw [outcomes_append]
    exact List.append_nil _
  have hOne : invocations i [Occurrence.invoked i] = 1 := List.count_singleton_self
  constructor
  · rw [hOutcomes, invocations_append, hOne, hInvoked, if_pos rfl]
  · rw [hOutcomes]
    exact fun _ => hTraced.failed rfl
  · intro hStops
    cases hStops
  · intro hCalling
    cases hCalling

theorem Traced.finish (hTraced : Traced h i .running) {o : Outcome} (hq : q ≠ .running)
    (hCalling : q ≠ .calling) (hGoes : q.goesOn = o.failed) :
    Traced (h ++ [Occurrence.ended i o]) i q := by
  have hInvoked : invocations i h = (outcomes i h).length + 1 := hTraced.invoked
  have hOutcomes : outcomes i (h ++ [Occurrence.ended i o]) = outcomes i h ++ [o] := by
    rw [outcomes_append]
    simp [outcomes, outcomeOf]
  have hNone : invocations i [Occurrence.ended i o] = 0 := rfl
  constructor
  · rw [hOutcomes, invocations_append, hNone, hInvoked, if_neg hq, List.length_append]
    rfl
  · rw [hOutcomes]
    intro hOn
    exact Bag.forall_mem_concat (hTraced.failed rfl) (hGoes ▸ hOn)
  · intro hStops
    rw [hGoes] at hStops
    cases o with
    | nil =>
      left
      rw [hOutcomes]
      exact List.mem_append_right _ (List.mem_singleton_self _)
    | error => cases hStops
    | panic value => cases hStops
  · exact fun hSame => absurd hSame hCalling

theorem Traced.goes {cancelled : Bool} {m : Move} (hTraced : Traced h i p)
    (hCancelled : cancelled = true ↔ .cancelled ∈ h) (hGoes : Goes cancelled p m q) :
    Traced (h ++ m.record cancelled i) i q := by
  cases hGoes with
  | stop hOver =>
    rw [Move.record, if_pos hOver]
    exact hTraced.leave (by decide) (hCancelled.mp hOver)
  | restart hAlive =>
    rw [Move.record, if_neg (by simp [hAlive])]
    refine hTraced.restart ?_
    rw [← hCancelled, hAlive]
    decide
  | call => exact hTraced.call
  | finish => exact hTraced.finish (by decide) (by decide) rfl
  | fail => exact hTraced.finish (by decide) (by decide) rfl
  | panic value => exact hTraced.finish (by simp) (by simp) rfl
  | recover value => exact hTraced.silent (by simp) (by decide) (by decide) rfl
  | notify n now => exact hTraced.silent (by decide) (by decide) (by decide) rfl
  | giveUp => exact hTraced.silent (by decide) (by decide) (by decide) rfl
  | retry => exact hTraced.silent (by decide) (by decide) (by decide) rfl
  | stopped hOver => exact hTraced.leave (by decide) (hCancelled.mp hOver)
  | pause hAlive => exact hTraced.silent (by decide) (by decide) (by decide) rfl
  | resume => exact hTraced.silent (by decide) (by decide) (by decide) rfl
  | interrupt hOver => exact hTraced.leave (by decide) (hCancelled.mp hOver)
  | done => exact hTraced.silent (by decide) (by decide) (by decide) rfl

end Traced

/-! ## The wait group -/

structure SupervisorState.Counted (workers : List String) (s : SupervisorState) : Prop where
  crashed : s.crashed = false
  escaped : .escaped ∉ s.goroutines
  wg : s.wg = s.goroutines.countP Point.alive + (if s.main = .spawning then 1 else 0)
  bound : s.goroutines.length ≤ workers.length
  room : s.main = .spawning → s.goroutines.length < workers.length
  full : s.main = .waiting ∨ s.main = .returned → s.goroutines.length = workers.length
  returned : s.main = .returned → ∀ p ∈ s.goroutines, p = .gone

section Counted

variable {workers : List String} {s t : SupervisorState} {a : SupervisorAction}

theorem Goes.alive {cancelled : Bool} {p q : Point} {m : Move} (h : Goes cancelled p m q) :
    p.alive = true ∧ q ≠ .escaped ∧ (if m = .done then q = .gone else q.alive = true) := by
  cases h <;> exact ⟨by simp [Point.alive], by simp, by simp [Point.alive]⟩

/-- Between two calls of `Start` the counter is the number of goroutines left. -/
theorem SupervisorState.Counted.wg_eq (h : s.Counted workers) (hMain : s.main ≠ .spawning) :
    s.wg = s.goroutines.countP Point.alive := by
  have hWg := h.wg
  rwa [if_neg hMain, Int.add_zero] at hWg

theorem SupervisorState.Counted.gone_of_zero (h : s.Counted workers) (hMain : s.main = .waiting)
    (hZero : s.wg = 0) : ∀ p ∈ s.goroutines, p = .gone := by
  have hCount := h.wg_eq (by simp [hMain])
  rw [hZero] at hCount
  have hNone : s.goroutines.countP Point.alive = 0 := by omega
  intro p hp
  have hDead := List.countP_eq_zero.mp hNone p hp
  simpa [Point.alive] using hDead

theorem SupervisorState.Counted.move (h : s.Counted workers) {i : Nat} {m : Move} {p q : Point}
    (telemetryChan : Option Channel) (hPoint : s.goroutines[i]? = some p)
    (hGoes : Goes s.cancelled p m q) : (s.moved i m q telemetryChan).Counted workers := by
  obtain ⟨hAlive, hEscaped, hAfter⟩ := hGoes.alive
  have hCount := Bag.countP_set Point.alive hPoint q
  have hWg := h.wg
  have hLength : (s.moved i m q telemetryChan).goroutines.length = s.goroutines.length :=
    List.length_set
  rw [hAlive] at hCount
  refine ⟨?_, ?_, ?_, ?_, ?_, ?_, ?_⟩
  · simp only [moved, hEscaped, decide_false, Bool.false_or]
    by_cases hDone : m = .done
    · have hPositive : 0 < s.goroutines.countP Point.alive :=
        List.countP_pos_iff.mpr ⟨p, List.mem_of_getElem? hPoint, hAlive⟩
      have hNat : ¬ s.wg - 1 < 0 := by
        split at hWg <;> omega
      simp [hNat]
    · simp [hDone]
  · intro hMem
    obtain hOld | hNew := List.mem_or_eq_of_mem_set hMem
    · exact h.escaped hOld
    · exact hEscaped hNew.symm
  · have hMoved : (if m = .done then s.wg - 1 else s.wg) =
        (s.goroutines.set i q).countP Point.alive + (if s.main = .spawning then 1 else 0) := by
      generalize (if s.main = .spawning then (1 : Int) else 0) = extra at hWg ⊢
      by_cases hDone : m = .done
      · rw [if_pos hDone] at hAfter ⊢
        rw [hAfter] at hCount ⊢
        have hGone : Point.gone.alive = false := rfl
        rw [hGone, Bool.toNat_true, Bool.toNat_false] at hCount
        omega
      · rw [if_neg hDone] at hAfter ⊢
        rw [hAfter, Bool.toNat_true] at hCount
        omega
    exact hMoved
  · rw [hLength]
    exact h.bound
  · rw [hLength]
    exact h.room
  · rw [hLength]
    exact h.full
  · intro hReturned
    have hGone := h.returned hReturned p (List.mem_of_getElem? hPoint)
    rw [hGone] at hAlive
    cases hAlive

theorem Steps.counted (hSteps : Steps workers s a t) (h : s.Counted workers) :
    t.Counted workers := by
  cases hSteps with
  | add hMain hMore =>
    refine ⟨h.crashed, h.escaped, ?_, h.bound, fun _ => hMore, ?_, ?_⟩
    · have hWg := h.wg_eq (by simp [hMain])
      simp [hWg]
    · rintro (hWaiting | hReturned)
      · cases hWaiting
      · cases hReturned
    · intro hReturned
      cases hReturned
  | added hMain hAll =>
    refine ⟨h.crashed, h.escaped, ?_, h.bound, ?_,
      fun _ => le_antisymm h.bound (not_lt.mp hAll), ?_⟩
    · have hWg := h.wg_eq (by simp [hMain])
      simp [hWg]
    · intro hSpawning
      cases hSpawning
    · intro hReturned
      cases hReturned
  | spawn hMain =>
    refine ⟨h.crashed, ?_, ?_, ?_, ?_, ?_, ?_⟩
    · simpa using h.escaped
    · have hWg := h.wg
      rw [if_pos hMain] at hWg
      have hNew : [Point.checking].countP Point.alive = 1 := by decide
      simp [hWg, List.countP_append, hNew]
    · have hRoom := h.room hMain
      rw [List.length_append, List.length_singleton]
      exact hRoom
    · intro hSpawning
      cases hSpawning
    · rintro (hWaiting | hReturned)
      · cases hWaiting
      · cases hReturned
    · intro hReturned
      cases hReturned
  | wait hMain hZero =>
    refine ⟨h.crashed, h.escaped, ?_, h.bound, ?_, fun _ => h.full (.inl hMain),
      fun _ => h.gone_of_zero hMain hZero⟩
    · have hWg := h.wg_eq (by simp [hMain])
      simpa [SupervisorState.cancel] using hWg
    · intro hSpawning
      cases hSpawning
  | move telemetryChan hPoint hGoes => exact h.move telemetryChan hPoint hGoes
  | cancel => exact ⟨h.crashed, h.escaped, h.wg, h.bound, h.room, h.full, h.returned⟩
  | traffic c => exact ⟨h.crashed, h.escaped, h.wg, h.bound, h.room, h.full, h.returned⟩

end Counted

/-! ## The history -/

structure SupervisorState.Recorded (s : SupervisorState) : Prop where
  cancelled : s.cancelled = true ↔ .cancelled ∈ s.history
  traced : ∀ i p, s.goroutines[i]? = some p → Traced s.history i p
  fresh : ∀ i, s.goroutines.length ≤ i → outcomes i s.history = [] ∧ invocations i s.history = 0
  invoked : ∀ n i, s.history[n]? = some (.invoked i) → Restarted i (s.history.take n)

section Recorded

variable {workers : List String} {s t : SupervisorState} {a : SupervisorAction}

theorem Traced.restarted {h : List Occurrence} {i : Nat} (hTraced : Traced h i .calling) :
    Restarted i h :=
  ⟨hTraced.invoked.symm, hTraced.failed rfl, hTraced.decided rfl⟩

theorem invoked_concat {h : List Occurrence} {e : Occurrence}
    (hOld : ∀ n i, h[n]? = some (.invoked i) → Restarted i (h.take n))
    (hNew : ∀ i, e = .invoked i → Restarted i h) :
    ∀ n i, (h ++ [e])[n]? = some (.invoked i) → Restarted i ((h ++ [e]).take n) := by
  intro n i hn
  obtain ⟨hLt, hn⟩ | ⟨rfl, he⟩ := Bag.getElem?_concat_cases hn
  · rw [List.take_append_of_le_length hLt.le]
    exact hOld n i hn
  · rw [List.take_left]
    exact hNew i he.symm

theorem record_cases (m : Move) (cancelled : Bool) (i : Nat) :
    m.record cancelled i = [] ∨
      ∃ e, m.record cancelled i = [e] ∧ ∀ j, e = .invoked j → m = .call ∧ j = i := by
  cases m with
  | check =>
    cases cancelled with
    | true => exact .inl rfl
    | false => exact .inr ⟨_, rfl, by simp⟩
  | call => exact .inr ⟨_, rfl, fun j hj => ⟨rfl, (Occurrence.invoked.inj hj).symm⟩⟩
  | finish o => exact .inr ⟨_, rfl, by simp⟩
  | _ => exact .inl rfl

theorem SupervisorState.Recorded.move (h : s.Recorded) {i : Nat} {m : Move} {p q : Point}
    (telemetryChan : Option Channel) (hPoint : s.goroutines[i]? = some p)
    (hGoes : Goes s.cancelled p m q) : (s.moved i m q telemetryChan).Recorded := by
  obtain ⟨hi, _⟩ := List.getElem?_eq_some_iff.mp hPoint
  have hTraced := h.traced i p hPoint
  refine ⟨?_, ?_, ?_, ?_⟩
  · simp only [moved, List.mem_append, cancelled_notMem_record, or_false]
    exact h.cancelled
  · intro j r hj
    by_cases hSame : j = i
    · subst hSame
      simp only [moved, List.getElem?_set_self hi] at hj
      obtain rfl := Option.some.inj hj
      exact hTraced.goes h.cancelled hGoes
    · simp only [moved, List.getElem?_set_ne (Ne.symm hSame)] at hj
      obtain ⟨hOutcomes, hInvocations⟩ := record_of_ne (Ne.symm hSame) m s.cancelled
      exact (h.traced j r hj).append hOutcomes hInvocations
  · intro j hj
    simp only [moved, List.length_set] at hj ⊢
    have hOther : i ≠ j := by omega
    obtain ⟨hOutcomes, hInvocations⟩ := record_of_ne hOther m s.cancelled
    obtain ⟨hNone, hZero⟩ := h.fresh j hj
    rw [outcomes_append, invocations_append, hOutcomes, hInvocations, hNone, hZero]
    exact ⟨rfl, rfl⟩
  · simp only [moved]
    obtain hNothing | ⟨e, hOne, hCall⟩ := record_cases m s.cancelled i
    · rw [hNothing, List.append_nil]
      exact h.invoked
    · rw [hOne]
      refine invoked_concat h.invoked ?_
      intro j hj
      obtain ⟨rfl, rfl⟩ := hCall j hj
      -- only a goroutine that has passed the test makes the call
      cases hGoes
      exact hTraced.restarted

theorem SupervisorState.Recorded.cancel (h : s.Recorded) : s.cancel.Recorded := by
  refine ⟨?_, ?_, ?_, ?_⟩
  · simp [SupervisorState.cancel]
  · intro i p hp
    exact (h.traced i p hp).append rfl rfl
  · intro i hi
    obtain ⟨hNone, hZero⟩ := h.fresh i hi
    simp only [SupervisorState.cancel, outcomes_append, invocations_append, hNone, hZero]
    exact ⟨rfl, rfl⟩
  · exact invoked_concat h.invoked fun i hi => by cases hi

theorem Steps.recorded (hSteps : Steps workers s a t) (h : s.Recorded) : t.Recorded := by
  cases hSteps with
  | add _ _ => exact ⟨h.cancelled, h.traced, h.fresh, h.invoked⟩
  | added _ _ => exact ⟨h.cancelled, h.traced, h.fresh, h.invoked⟩
  | spawn _ =>
    refine ⟨h.cancelled, ?_, ?_, h.invoked⟩
    · intro i p hp
      obtain ⟨_, hp⟩ | ⟨rfl, rfl⟩ := Bag.getElem?_concat_cases hp
      · exact h.traced i p hp
      · obtain ⟨hNone, hZero⟩ := h.fresh _ (le_refl _)
        refine ⟨?_, ?_, ?_, ?_⟩
        · simp [hNone, hZero]
        · simp [hNone]
        · intro hStops
          cases hStops
        · intro hCalling
          cases hCalling
    · intro i hi
      rw [List.length_append] at hi
      exact h.fresh i (Nat.le_of_succ_le hi)
  | wait _ _ =>
    have hSame : ({ s with main := .returned } : SupervisorState).Recorded :=
      ⟨h.cancelled, h.traced, h.fresh, h.invoked⟩
    exact hSame.cancel
  | move telemetryChan hPoint hGoes => exact h.move telemetryChan hPoint hGoes
  | cancel => exact h.cancel
  | traffic c => exact ⟨h.cancelled, h.traced, h.fresh, h.invoked⟩

theorem sound_of_reachable {telemetryChan : Option Channel}
    (h : (supervisorMachine workers telemetryChan).Reachable s) :
    s.Counted workers ∧ s.Recorded := by
  refine Machine.Reachable.invariant (I := fun s => s.Counted workers ∧ s.Recorded) ⟨?_, ?_⟩ ?_ h
  · refine ⟨rfl, by simp [supervisorMachine], rfl, Nat.zero_le _, ?_, ?_, ?_⟩
    · intro hSpawning
      cases hSpawning
    · rintro (hWaiting | hReturned)
      · cases hWaiting
      · cases hReturned
    · intro hReturned
      cases hReturned
  · refine ⟨?_, ?_, fun _ _ => ⟨rfl, rfl⟩, ?_⟩
    · simp [supervisorMachine]
    · intro i p hp
      cases hp
    · intro n i hn
      cases hn
  · rintro s a t ⟨hCounted, hRecorded⟩ hStep
    have hSteps := steps_of_supervisorStep hStep
    exact ⟨hSteps.counted hCounted, hSteps.recorded hRecorded⟩

end Recorded

/-! ## The next call -/

section Progress

variable {workers : List String} {s t : SupervisorState} {a : SupervisorAction}

theorem step_move {i : Nat} {m : Move} {p q : Point} {workerName : String}
    {telemetryChan : Option Channel} (hCrashed : s.crashed = false)
    (hPoint : s.goroutines[i]? = some p) (hName : workers[i]? = some workerName)
    (hNext : p.next s.cancelled m = some q)
    (hTelemetry : m.telemetry s.cancelled s.telemetryChan workerName = some telemetryChan) :
    supervisorStep workers s (.move i m) = some (s.moved i m q telemetryChan) := by
  simp only [supervisorStep, hCrashed, hPoint, hName, hNext, hTelemetry]
  rfl

/-- Only `Run` of the worker itself can hold a goroutine up. -/
theorem SupervisorState.Counted.exists_move (h : s.Counted workers) {i : Nat} {p : Point}
    (hPoint : s.goroutines[i]? = some p) (hRunning : p ≠ .running) (hGone : p ≠ .gone) :
    ∃ m t, supervisorStep workers s (.move i m) = some t := by
  obtain ⟨hi, _⟩ := List.getElem?_eq_some_iff.mp hPoint
  have hWorker : i < workers.length := lt_of_lt_of_le hi h.bound
  have hName := List.getElem?_eq_getElem hWorker
  cases p with
  | checking => exact ⟨.check, _, step_move h.crashed hPoint hName rfl rfl⟩
  | calling => exact ⟨.call, _, step_move h.crashed hPoint hName rfl rfl⟩
  | running => exact absurd rfl hRunning
  | unwinding value => exact ⟨.recover, _, step_move h.crashed hPoint hName rfl rfl⟩
  | notifying =>
    obtain ⟨n, after, hNotice⟩ :=
      exists_notice s.cancelled s.telemetryChan (workers.get ⟨i, hWorker⟩) 0
    exact ⟨.notify n 0, _, step_move h.crashed hPoint hName rfl hNotice⟩
  | ended failed => exact ⟨.classify, _, step_move h.crashed hPoint hName rfl rfl⟩
  | rechecking => exact ⟨.recheck, _, step_move h.crashed hPoint hName rfl rfl⟩
  | pausing => exact ⟨.delayOver, _, step_move h.crashed hPoint hName rfl rfl⟩
  | leaving => exact ⟨.done, _, step_move h.crashed hPoint hName rfl rfl⟩
  | gone => exact absurd rfl hGone
  | escaped => exact absurd (List.mem_of_getElem? hPoint) h.escaped

theorem Goes.closer {p q : Point} {m : Move} (h : Goes false p m q) (hOn : p.goesOn = true)
    (hRunning : p ≠ .running) (i : Nat) :
    q.goesOn = true ∧ p.distance = q.distance + 1 ∧ outcomes i (m.record false i) = [] := by
  cases h with
  | stop hOver => cases hOver
  | restart _ => exact ⟨rfl, rfl, rfl⟩
  | call => exact ⟨rfl, rfl, rfl⟩
  | finish => exact absurd rfl hRunning
  | fail => exact absurd rfl hRunning
  | panic value => exact absurd rfl hRunning
  | recover value => exact ⟨rfl, rfl, rfl⟩
  | notify n now => exact ⟨rfl, rfl, rfl⟩
  | giveUp => cases hOn
  | retry => exact ⟨rfl, rfl, rfl⟩
  | stopped hOver => cases hOver
  | pause _ => exact ⟨rfl, rfl, rfl⟩
  | resume => exact ⟨rfl, rfl, rfl⟩
  | interrupt hOver => cases hOver
  | done => cases hOn

/-- The call that follows the first `k` was made, or is at most `n` steps of the
goroutine away. -/
def Nears (i k n : Nat) (s : SupervisorState) : Prop :=
  k < invocations i s.history ∨
    ∃ p, s.goroutines[i]? = some p ∧ p.goesOn = true ∧ (outcomes i s.history).length = k ∧
      p.distance ≤ n

def SupervisorAction.movesOf (i : Nat) : SupervisorAction → Bool
  | .move j _ => j = i
  | _ => false

theorem Nears.move (hRecorded : s.Recorded) (hAlive : .cancelled ∉ s.history) {i j k n : Nat}
    {m : Move} {r q : Point} (telemetryChan : Option Channel) (hPoint : s.goroutines[j]? = some r)
    (hGoes : Goes s.cancelled r m q)
    (h : Nears i k (n + (SupervisorAction.movesOf i (.move j m)).toNat) s) :
    Nears i k n (s.moved j m q telemetryChan) := by
  have hKept : k < invocations i s.history →
      k < invocations i (s.moved j m q telemetryChan).history := by
    intro hMade
    simp only [SupervisorState.moved, invocations_append]
    omega
  obtain hMade | ⟨p, hp, hOn, hLength, hDistance⟩ := h
  · exact .inl (hKept hMade)
  · by_cases hSame : j = i
    · subst hSame
      obtain rfl := Option.some.inj (hp.symm.trans hPoint)
      obtain ⟨hi, _⟩ := List.getElem?_eq_some_iff.mp hPoint
      by_cases hRunning : p = .running
      · -- the call is under way
        refine .inl (hKept ?_)
        rw [(hRecorded.traced j p hp).invoked, if_pos hRunning, hLength]
        exact Nat.lt_succ_self k
      · have hNot : s.cancelled = false := by
          rw [Bool.eq_false_iff]
          exact fun hOver => hAlive (hRecorded.cancelled.mp hOver)
        rw [hNot] at hGoes
        obtain ⟨hOn', hCloser, hNone⟩ := hGoes.closer hOn hRunning j
        refine .inr ⟨q, List.getElem?_set_self hi, hOn', ?_, ?_⟩
        · simp only [SupervisorState.moved, outcomes_append, hNot, hNone, List.append_nil]
          exact hLength
        · simp only [SupervisorAction.movesOf, decide_true, Bool.toNat_true] at hDistance
          omega
    · refine .inr ⟨p, ?_, hOn, ?_, ?_⟩
      · simp only [SupervisorState.moved, List.getElem?_set_ne hSame]
        exact hp
      · simp only [SupervisorState.moved, outcomes_append, (record_of_ne hSame m s.cancelled).1,
          List.append_nil]
        exact hLength
      · simp only [SupervisorAction.movesOf, hSame, decide_false, Bool.toNat_false] at hDistance
        exact hDistance

theorem Steps.nears (hSteps : Steps workers s a t) (hRecorded : s.Recorded)
    (hAlive : .cancelled ∉ t.history) {i k n : Nat} (h : Nears i k (n + (a.movesOf i).toNat) s) :
    Nears i k n t := by
  cases hSteps with
  | add _ _ => exact h
  | added _ _ => exact h
  | spawn _ =>
    obtain hMade | ⟨p, hp, hRest⟩ := h
    · exact .inl hMade
    · obtain ⟨hi, _⟩ := List.getElem?_eq_some_iff.mp hp
      exact .inr ⟨p, (List.getElem?_append_left hi).trans hp, hRest⟩
  | wait _ _ => exact absurd (List.mem_append_right _ (List.mem_singleton_self _)) hAlive
  | move telemetryChan hPoint hGoes =>
    have hBefore : .cancelled ∉ s.history := fun hMem => hAlive (List.mem_append_left _ hMem)
    exact Nears.move hRecorded hBefore telemetryChan hPoint hGoes h
  | cancel => exact absurd (List.mem_append_right _ (List.mem_singleton_self _)) hAlive
  | traffic _ => exact h

theorem Steps.history (hSteps : Steps workers s a t) : s.history ⊆ t.history := by
  cases hSteps with
  | wait _ _ => exact List.subset_append_left _ _
  | move _ _ _ => exact List.subset_append_left _ _
  | cancel => exact List.subset_append_left _ _
  | _ => exact fun _ h => h

theorem history_of_exec {telemetryChan : Option Channel} {as : List SupervisorAction} :
    ∀ {s t : SupervisorState}, (supervisorMachine workers telemetryChan).exec s as = some t →
      s.history ⊆ t.history := by
  induction as with
  | nil =>
    intro s t hExec
    obtain rfl := Option.some.inj hExec
    exact fun _ h => h
  | cons a as ih =>
    intro s t hExec
    obtain ⟨u, hStep, hRest⟩ := Option.bind_eq_some_iff.mp hExec
    exact List.Subset.trans (steps_of_supervisorStep hStep).history (ih hRest)

/-- The steps of the goroutine suffice for the next call, whatever the others do
in between. -/
theorem nears_of_exec {telemetryChan : Option Channel} {as : List SupervisorAction} {i k : Nat} :
    ∀ {s t : SupervisorState}, s.Recorded →
      (supervisorMachine workers telemetryChan).exec s as = some t → .cancelled ∉ t.history →
      Nears i k (as.countP (SupervisorAction.movesOf i)) s → t.Recorded ∧ Nears i k 0 t := by
  induction as with
  | nil =>
    intro s t hRecorded hExec _ hNears
    obtain rfl := Option.some.inj hExec
    exact ⟨hRecorded, hNears⟩
  | cons a as ih =>
    intro s t hRecorded hExec hAlive hNears
    obtain ⟨u, hStep, hRest⟩ := Option.bind_eq_some_iff.mp hExec
    have hSteps := steps_of_supervisorStep hStep
    have hBetween : .cancelled ∉ u.history := fun hMem => hAlive (history_of_exec hRest hMem)
    have hCount : (a :: as).countP (SupervisorAction.movesOf i) =
        as.countP (SupervisorAction.movesOf i) + (a.movesOf i).toNat := by
      rw [List.countP_cons]
      cases a.movesOf i <;> rfl
    rw [hCount] at hNears
    exact ih (hSteps.recorded hRecorded) hRest hAlive (hSteps.nears hRecorded hBetween hNears)

theorem SupervisorState.Recorded.invoked_of_nears (h : s.Recorded) {i k : Nat}
    (hNears : Nears i k 0 s) : k < invocations i s.history := by
  obtain hMade | ⟨p, hp, hOn, hLength, hDistance⟩ := hNears
  · exact hMade
  · have hRunning : p = .running := by
      cases p with
      | running => rfl
      | leaving => cases hOn
      | gone => cases hOn
      | escaped => cases hOn
      | _ => simp [Point.distance] at hDistance
    rw [(h.traced i p hp).invoked, if_pos hRunning, hLength]
    exact Nat.lt_succ_self k

theorem SupervisorState.Recorded.goesOn (h : s.Recorded) (hAlive : .cancelled ∉ s.history)
    {i : Nat} {p : Point} (hPoint : s.goroutines[i]? = some p)
    (hFailed : ∀ o ∈ outcomes i s.history, o.failed = true) : p.goesOn = true := by
  by_contra hOff
  obtain hNil | hOver := (h.traced i p hPoint).stopped (Bool.eq_false_iff.mpr hOff)
  · have hFalse := hFailed _ hNil
    cases hFalse
  · exact hAlive hOver

theorem Point.distance_le (p : Point) : p.distance ≤ 7 := by
  cases p <;> simp [Point.distance]

end Progress

/-! ## Supervision -/

/-- What the supervisor does with the outcomes, in one state of a run. -/
structure FollowsOutcomes (workers : List String) (telemetryChan : Option Channel)
    (s : SupervisorState) : Prop where
  /-- A call is made only after all earlier ones have failed, and if it was
  decided before the context was cancelled. -/
  onlyAfterFailures : ∀ n i, s.history[n]? = some (.invoked i) → Restarted i (s.history.take n)
  /-- If all calls have failed, seven steps of the goroutine bring the next one,
  unless the context is cancelled. -/
  afterFailures : ∀ i, i < s.goroutines.length →
    (∀ o ∈ outcomes i s.history, o.failed = true) →
    ∀ as t, (supervisorMachine workers telemetryChan).exec s as = some t →
      .cancelled ∉ t.history → 7 ≤ as.countP (SupervisorAction.movesOf i) →
      (outcomes i s.history).length < invocations i t.history
  /-- A goroutine waits for nothing but `Run` of its worker. -/
  unblocked : ∀ i p, s.goroutines[i]? = some p → p ≠ .running → p ≠ .gone →
    ∃ m t, supervisorStep workers s (.move i m) = some t
  /-- No panic leaves a goroutine. -/
  contained : s.crashed = false ∧ .escaped ∉ s.goroutines
  /-- The supervisor starts the workers, and waits for the goroutines alone. -/
  main : (∃ t, supervisorStep workers s .main = some t) ↔
    s.main ≠ .returned ∧ (s.main = .waiting → ∀ p ∈ s.goroutines, p = .gone)
  returned : s.main = .returned → s.goroutines = List.replicate workers.length .gone
  /-- What a worker does leaves the others, the context and the supervisor alone. -/
  apart : ∀ i m t, supervisorStep workers s (.move i m) = some t →
    (∀ j, j ≠ i → t.goroutines[j]? = s.goroutines[j]?) ∧ t.cancelled = s.cancelled ∧
      t.main = s.main

section Supervision

variable {workers : List String} {s : SupervisorState}

theorem SupervisorState.Recorded.afterFailures (h : s.Recorded) {telemetryChan : Option Channel}
    {i : Nat} (hi : i < s.goroutines.length)
    (hFailed : ∀ o ∈ outcomes i s.history, o.failed = true) {as : List SupervisorAction}
    {t : SupervisorState} (hExec : (supervisorMachine workers telemetryChan).exec s as = some t)
    (hAlive : .cancelled ∉ t.history) (hMoves : 7 ≤ as.countP (SupervisorAction.movesOf i)) :
    (outcomes i s.history).length < invocations i t.history := by
  have hPoint := List.getElem?_eq_getElem hi
  have hBefore : .cancelled ∉ s.history := fun hMem => hAlive (history_of_exec hExec hMem)
  have hNears : Nears i (outcomes i s.history).length
      (as.countP (SupervisorAction.movesOf i)) s :=
    .inr ⟨_, hPoint, h.goesOn hBefore hPoint hFailed, rfl, (Point.distance_le _).trans hMoves⟩
  obtain ⟨hRecorded, hArrived⟩ := nears_of_exec h hExec hAlive hNears
  exact hRecorded.invoked_of_nears hArrived

theorem SupervisorState.Counted.main_iff (h : s.Counted workers) :
    (∃ t, supervisorStep workers s .main = some t) ↔
      s.main ≠ .returned ∧ (s.main = .waiting → ∀ p ∈ s.goroutines, p = .gone) := by
  constructor
  · rintro ⟨t, hStep⟩
    cases steps_of_supervisorStep hStep with
    | add hMain _ => simp [hMain]
    | added hMain _ => simp [hMain]
    | spawn hMain => simp [hMain]
    | wait hMain hZero =>
      refine ⟨by simp [hMain], fun _ => h.gone_of_zero hMain hZero⟩
  · rintro ⟨hReturned, hGone⟩
    cases hMain : s.main with
    | adding =>
      by_cases hMore : s.goroutines.length < workers.length
      · simp [supervisorStep, h.crashed, hMain, hMore]
      · simp [supervisorStep, h.crashed, hMain, hMore]
    | spawning => simp [supervisorStep, h.crashed, hMain]
    | waiting =>
      have hNone : s.goroutines.countP Point.alive = 0 := by
        rw [List.countP_eq_zero]
        intro p hp
        rw [hGone hMain p hp]
        decide
      have hZero : s.wg = 0 := by
        rw [h.wg_eq (by simp [hMain]), hNone]
        rfl
      simp [supervisorStep, h.crashed, hMain, hZero]
    | returned => exact absurd hMain hReturned

theorem supervision_follows_outcomes {telemetryChan : Option Channel}
    (h : (supervisorMachine workers telemetryChan).Reachable s) :
    FollowsOutcomes workers telemetryChan s := by
  obtain ⟨hCounted, hRecorded⟩ := sound_of_reachable h
  have hContained := And.intro hCounted.crashed hCounted.escaped
  refine ⟨hRecorded.invoked, ?_, ?_, hContained, hCounted.main_iff, ?_, ?_⟩
  · intro i hi hFailed as t hExec hAlive hMoves
    exact hRecorded.afterFailures hi hFailed hExec hAlive hMoves
  · intro i p hPoint hRunning hGone
    exact hCounted.exists_move hPoint hRunning hGone
  · intro hReturned
    rw [← hCounted.full (.inr hReturned)]
    exact List.eq_replicate_of_mem (hCounted.returned hReturned)
  · intro i m t hStep
    cases steps_of_supervisorStep hStep with
    | move telemetryChan' _ _ =>
      exact ⟨fun j hj => List.getElem?_set_ne (Ne.symm hj), rfl, rfl⟩

end Supervision

/-- The first worker panics, without a telemetry channel, and finishes at the
second call; the second worker fails and is stopped in its pause. -/
def supervisedRun : List SupervisorAction :=
  [.main, .main, .main, .main, .main,
   .move 0 .check, .move 0 .call, .move 1 .check, .move 1 .call,
   .move 0 (.finish (.panic none)), .move 0 .recover, .move 0 (.notify .notInitialized 3),
   .move 0 .classify, .move 0 .recheck, .move 0 .delayOver, .move 0 .check, .move 0 .call,
   .move 1 (.finish .error), .move 1 .classify, .move 1 .recheck,
   .move 0 (.finish .nil), .move 0 .classify, .move 0 .done,
   .cancel, .move 1 .ctxDone, .move 1 .done, .main]

def supervisedState : SupervisorState :=
  (supervisorMachine ["ModerationWorker", "PoolUnitWorker"] none).after supervisedRun

theorem supervision_follows_outcomes_run :
    supervisedState.main = .returned ∧ supervisedState.goroutines = [.gone, .gone] ∧
    supervisedState.history[6]? = some (.invoked 0) ∧
    Restarted 0 (supervisedState.history.take 6) := by
  have hFollows := supervision_follows_outcomes
    (Machine.reachable_after supervisedRun :
      (supervisorMachine ["ModerationWorker", "PoolUnitWorker"] none).Reachable supervisedState)
  have hMain : supervisedState.main = .returned := by decide +kernel
  have hInvoked : supervisedState.history[6]? = some (.invoked 0) := by decide +kernel
  exact ⟨hMain, hFollows.returned hMain, hInvoked, hFollows.onlyAfterFailures 6 0 hInvoked⟩

end ChatLab.Workers.Supervisor

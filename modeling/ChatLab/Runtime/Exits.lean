import ChatLab.Runtime.Shutdown

/-!
# The chat workers can leave

After `Stop` the pool and moderation workers may return at any point. A fan-out
worker returns only from a drained channel, so that it has to finish what it
holds and to take what is left. Each event is work for the one who takes it,
and a file also for the sink; every step below does a part of it.
-/

namespace ChatLab.Runtime

open Foundation Sink Workers

def Job.work : Job → Nat
  | .handling _ => 15
  | .consuming _ => 2

def jobWork (jobs : List Job) : Nat := jobs.foldr (fun job n => job.work + n) 0

theorem jobWork_concat (jobs : List Job) (job : Job) :
    jobWork (jobs ++ [job]) = jobWork jobs + job.work := by
  induction jobs with
  | nil => exact Nat.add_comm _ _
  | cons first rest ih =>
    change first.work + jobWork (rest ++ [job]) = first.work + jobWork rest + job.work
    omega

namespace ServerState

/-- What is left until every worker of the pipeline has returned. -/
def work (s : ServerState) : Nat :=
  s.pool.left + s.moderation.left + (s.fanout.waiting + s.fanout.idle + jobWork s.fanout.busy) +
    15 * s.eventChan.length + s.buffer.work

/-- `Stop` is over, and the sink's lock was not lost to a panic. -/
structure Stopped (s : ServerState) : Prop where
  phase : s.phase = .eventsClosed
  calm : s.buffer.Calm

end ServerState

/-- The steps of the workers and of the sink. -/
def ServerAction.internal : ServerAction → Bool
  | .pool _ | .moderation _ | .fanout _ | .buffer _ => true
  | _ => false

section Exits

variable {o : Orchestrator} {s : ServerState}

/-- A step that gets the workers nearer to their return. -/
def Nearer (o : Orchestrator) (s : ServerState) : Prop :=
  ∃ a t, a.internal = true ∧ o.step s a = some t ∧ t.Stopped ∧ t.work < s.work

theorem nearer_of_buffer (h : s.Stopped) (hMax : 0 ≤ o.maxAnalyzedEvent)
    (hBusy : ¬ s.buffer.Quiet) : Nearer o s := by
  obtain ⟨a, buffer, hOther, hStep, hCalm, hLess⟩ := exists_bufferStep hMax h.calm hBusy
  refine ⟨.buffer a, { s with buffer := buffer }, rfl, ?_, ⟨h.phase, hCalm⟩, ?_⟩
  · cases a with
    | handleNewFile e => exact absurd rfl (hOther e)
    | _ => simp [Orchestrator.step, hStep]
  · simp only [ServerState.work]
    omega

/-- A fan-out worker finishes its event while the sink is at rest. -/
theorem nearer_of_job (h : s.Stopped) (hQuiet : s.buffer.Quiet) {job : Job} {rest : List Job}
    (hJobs : s.fanout.busy = job :: rest) : Nearer o s := by
  have hFirst : s.fanout.busy[0]? = some job := by rw [hJobs]; rfl
  have hErase : s.fanout.busy.eraseIdx 0 = rest := by rw [hJobs]; rfl
  have hWork : jobWork s.fanout.busy = job.work + jobWork rest := by rw [hJobs]; rfl
  cases job with
  | handling evt =>
    cases evt with
    | domain t =>
      obtain ⟨order, hVisits⟩ := exists_visits (registryAfter s.registryCalls) (roomID t.carried)
      refine ⟨.fanout (.fanout 0 order), s.route 0 { message := t, sinks :=
        (registryAfter s.registryCalls).getSinksForRoom (roomID t.carried) order }, rfl, ?_,
        ⟨h.phase, h.calm⟩, ?_⟩
      · simp [Orchestrator.step, Orchestrator.fanoutStep, hFirst, hVisits]
      · simp only [ServerState.work, ServerState.route, Crew.finish, hErase, hWork, Job.work]
        omega
    | fileAnalyse f =>
      refine ⟨.fanout (.consume 0), { s with
        fanout := s.fanout.replace 0 (.consuming s.buffer.calls)
        buffer := { s.buffer with tasks := s.buffer.tasks ++ [Task.newFile s.buffer.calls f]
                                  calls := s.buffer.calls + 1 } }, rfl, ?_,
        ⟨h.phase, fun origin => h.calm origin⟩, ?_⟩
      · simp [Orchestrator.step, Orchestrator.fanoutStep, hFirst, bufferStep]
      · simp only [ServerState.work, Crew.replace, hJobs, List.set_cons_zero, BufferState.work,
          taskWork_concat, Task.work]
        simp only [jobWork, List.foldr_cons, Job.work]
        omega
    | analysisSegment segment =>
      refine ⟨.fanout (.enrich 0), { s with fanout := s.fanout.finish 0 }, rfl, ?_,
        ⟨h.phase, h.calm⟩, ?_⟩
      · simp [Orchestrator.step, Orchestrator.fanoutStep, hFirst]
      · simp only [ServerState.work, Crew.finish, hErase, hWork, Job.work]
        omega
  | consuming n =>
    refine ⟨.fanout (.returned 0), { s with fanout := s.fanout.finish 0 }, rfl, ?_,
      ⟨h.phase, h.calm⟩, ?_⟩
    · simp [Orchestrator.step, Orchestrator.fanoutStep, hFirst, hQuiet.engaged_eq_nil]
    · simp only [ServerState.work, Crew.finish, hErase, hWork, Job.work]
      omega

/-- A fan-out worker that holds nothing starts, takes an event or returns. -/
theorem nearer_of_fanout (h : s.Stopped) (hBusy : s.fanout.busy = [])
    (hLeft : ¬ s.fanout.AllExited) : Nearer o s := by
  cases hWaiting : s.fanout.waiting with
  | succ n =>
    refine ⟨.fanout .start, { s with fanout :=
      { s.fanout with waiting := n, exited := s.fanout.exited + 1 } }, rfl, ?_,
      ⟨h.phase, h.calm⟩, ?_⟩
    · simp [Orchestrator.step, Orchestrator.fanoutStep, Crew.start, hWaiting, h.phase,
        StopPhase.ctxDone]
    · simp only [ServerState.work, hWaiting]
      omega
  | zero =>
    cases hIdle : s.fanout.idle with
    | zero => exact absurd ⟨hWaiting, hIdle, hBusy⟩ hLeft
    | succ n =>
      cases hChan : s.eventChan with
      | nil =>
        refine ⟨.fanout .quit, { s with fanout :=
          { s.fanout with idle := n, exited := s.fanout.exited + 1 } }, rfl, ?_,
          ⟨h.phase, h.calm⟩, ?_⟩
        · simp [Orchestrator.step, Orchestrator.fanoutStep, Crew.quit, hIdle, hChan, h.phase,
            StopPhase.eventChanClosed]
        · simp only [ServerState.work, hIdle]
          omega
      | cons evt rest =>
        refine ⟨.fanout .receive, { s with eventChan := rest, fanout :=
          { s.fanout with idle := n, busy := s.fanout.busy ++ [Job.handling evt] } }, rfl, ?_,
          ⟨h.phase, h.calm⟩, ?_⟩
        · simp [Orchestrator.step, Orchestrator.fanoutStep, Crew.take, hIdle, hChan]
        · simp only [ServerState.work, hIdle, hChan, jobWork_concat, Job.work, List.length_cons]
          omega

theorem nearer_of_pool (h : s.Stopped) (hLeft : ¬ s.pool.AllExited) : Nearer o s := by
  have hDone : s.poolSignals.done = true := by
    rw [ServerState.poolSignals, h.phase]
    rfl
  obtain ⟨a, r, hStep, hLess, _⟩ := Relay.exists_exit (r := s.poolRelay) poolWorker hDone hLeft
  refine ⟨.pool a, s.putPool r, rfl, ?_, ⟨h.phase, h.calm⟩, ?_⟩
  · exact Option.map_eq_some_iff.mpr ⟨r, hStep, rfl⟩
  · have hPool : r.crew.left < s.pool.left := hLess
    simp only [ServerState.work, ServerState.putPool]
    omega

theorem nearer_of_moderation (h : s.Stopped) (hLeft : ¬ s.moderation.AllExited) : Nearer o s := by
  have hDone : s.moderationSignals.done = true := by
    rw [ServerState.moderationSignals, h.phase]
    rfl
  obtain ⟨a, r, hStep, hLess, hOutput⟩ :=
    Relay.exists_exit (r := s.moderationRelay) (moderationWorker o.censor) hDone hLeft
  refine ⟨.moderation a, s.putModeration r, rfl, ?_, ⟨h.phase, h.calm⟩, ?_⟩
  · exact Option.map_eq_some_iff.mpr ⟨r, hStep, rfl⟩
  · have hModeration : r.crew.left < s.moderation.left := hLess
    have hChan : r.output = s.eventChan := hOutput
    simp only [ServerState.work, ServerState.putModeration, hChan]
    omega

theorem nearer_of_left (h : s.Stopped) (hMax : 0 ≤ o.maxAnalyzedEvent)
    (hLeft : ¬ s.AllExited) : Nearer o s := by
  by_cases hQuiet : s.buffer.Quiet
  · cases hBusy : s.fanout.busy with
    | cons job rest => exact nearer_of_job h hQuiet hBusy
    | nil =>
      by_cases hFanout : s.fanout.AllExited
      · by_cases hPool : s.pool.AllExited
        · exact nearer_of_moderation h fun hModeration => hLeft ⟨hPool, hModeration, hFanout⟩
        · exact nearer_of_pool h hPool
      · exact nearer_of_fanout h hBusy hFanout
  · exact nearer_of_buffer h hMax hQuiet

theorem calm_of_reachable (hMax : 0 ≤ o.maxAnalyzedEvent) (h : o.machine.Reachable s) :
    s.buffer.Calm := by
  refine Machine.Reachable.invariant (I := fun s : ServerState => s.buffer.Calm) ?_ ?_ h
  · intro origin hHolder
    cases hHolder
  · intro s a t hCalm hStep
    cases Orchestrator.steps_of_step hStep with
    | consume i f b _ hBuffer => exact bufferStep_calm hMax hCalm hBuffer
    | buffer a b _ hBuffer => exact bufferStep_calm hMax hCalm hBuffer
    | _ => exact hCalm

end Exits

end ChatLab.Runtime

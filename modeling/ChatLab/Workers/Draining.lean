import ChatLab.Workers.TmpFiles

/-!
# No temporary file stays

Where every file that the checks let through has a specialist, the worker never
gets stuck: whatever has happened before, whatever the files look like, whatever
the specialists answer and whichever removals fail, it can still bring all
published files to their end.
-/

namespace ChatLab.Workers.TmpFiles

open Foundation ChatLab.Runtime Sink

/-- The ticks find a specialist for what they broadcast. -/
def TicksHandled (s : State) : Action → Prop
  | .tick order views targetOrder _ => Handled s.pipeline (.tick order views targetOrder)
  | _ => True

def Careful (tempDir : String) (s : State) (a : Action) : Prop :=
  Publishes tempDir s a ∧ TicksHandled s a

/-- What the worker does not decide. -/
structure Environment where
  views : FileID → FileView
  outcome : SpecialistClient → Outcome
  -- the removals that fail in a tick, and those after a response
  faults : String → Bool
  fault : Bool

inductive Move
  | receive (now : Int)
  | tick (order : List FileID) (targetOrder : FileID → List SpecialistClient)
  | flight (i : Nat) (action : FlightAction)
  | respond
  | send

def Move.action (env : Environment) : Move → Action
  | receive now => .receive now
  | tick order targetOrder => .tick order env.views targetOrder env.faults
  | flight i action => .flight i action env.outcome
  | respond => .respond env.fault
  | send => .send

/-- The system when no more files are published, in a given environment. -/
def draining (maxFileToProcess : UInt32) (maxFileSizeMB : Int) (env : Environment) :
    Machine State Move where
  start := (machine maxFileToProcess maxFileSizeMB).start
  step s m := step s (m.action env)

def Refused (m : Coordinator) (env : Environment) (req : SpecialistRequest) : Prop :=
  ∀ data, m.checkRequest (env.views req.fileId) req ≠ .ok data

def Covers (m : Coordinator) (env : Environment) (req : SpecialistRequest) : Prop :=
  (∃ data, m.checkRequest (env.views req.fileId) req = .ok data) →
    ∃ specialist ∈ m.specialists.entries.map Prod.snd,
      specialist.canHandle req.effectiveMimeType = true

/-- Every file that is still to be broadcast has a specialist, or is refused. -/
def State.Covered (env : Environment) (s : State) : Prop :=
  (∀ l ∈ s.locations, Covers s.pipeline.coordinator env (locationRequest l)) ∧
    ∀ f job, s.jobs.get? f = some job → job.isRunning = false →
      Covers s.pipeline.coordinator env (jobRequest f job)

/-! ## What stays true -/

section Steps

variable {tempDir : String} {s t u : State} {env : Environment} {maxFileToProcess : UInt32}
  {maxFileSizeMB : Int}

structure Fit (maxFileToProcess : UInt32) (s : State) : Prop where
  pipeline : s.pipeline.Sound
  capacity : s.pipeline.worker.maxFileToProcess = maxFileToProcess

theorem maxFileToProcess_addJob (w : FileTmpJobWorker) (l : TmpFileLocation) (now : Int) :
    (addJob w l now).maxFileToProcess = w.maxFileToProcess := by
  rw [addJob]
  split
  · rfl
  · rfl

theorem maxFileToProcess_removeJob (w : FileTmpJobWorker) (resp : SpecialistResponse) :
    (removeJob w resp).1.maxFileToProcess = w.maxFileToProcess := by
  rw [removeJob]
  split
  · rfl
  · rfl

theorem Fit.tick (h : Fit maxFileToProcess s) {order : List FileID} {views : FileID → FileView}
    {targetOrder : FileID → List SpecialistClient} {next : PipelineState}
    (hHandled : Handled s.pipeline (.tick order views targetOrder))
    (hNext : pipelineStep s.pipeline (.tick order views targetOrder) = some next) :
    next.Sound ∧ next.worker.maxFileToProcess = maxFileToProcess := by
  refine ⟨h.pipeline.tick hHandled hNext, ?_⟩
  rw [pipelineStep] at hNext
  split at hNext
  · cases hNext
    exact (processJobs_visited _ _ _).max_eq.trans h.capacity
  · cases hNext

theorem Fit.flight (h : Fit maxFileToProcess s) {i : Nat} {action : FlightAction}
    {outcome : SpecialistClient → Outcome} {next : PipelineState}
    (hNext : pipelineStep s.pipeline (.flight i action outcome) = some next) :
    next.Sound ∧ next.worker.maxFileToProcess = maxFileToProcess := by
  refine ⟨pipelineStep_sound h.pipeline
    (show Handled s.pipeline (.flight i action outcome) from trivial) hNext, ?_⟩
  rw [pipelineStep] at hNext
  split at hNext
  · cases hNext
  · split at hNext
    · cases hNext
    · cases hNext
      exact h.capacity

theorem Fit.respond (h : Fit maxFileToProcess s) {resp : SpecialistResponse}
    {rest : List SpecialistResponse} (hResponses : s.pipeline.responses = resp :: rest) :
    PipelineState.Sound { s.pipeline with
      worker := (removeJob s.pipeline.worker resp).1, responses := rest } := by
  refine pipelineStep_sound h.pipeline (show Handled s.pipeline .respond from trivial) ?_
  simp only [pipelineStep, hResponses]

theorem Fit.step {a : Action} (h : Fit maxFileToProcess s) (hHandled : TicksHandled s a)
    (hStep : step s a = some t) : Fit maxFileToProcess t := by
  cases a with
  | publish l =>
    cases hStep
    exact { h with }
  | receive now =>
    simp only [TmpFiles.step] at hStep
    split at hStep
    · rename_i l rest _ _
      cases hStep
      exact ⟨⟨h.pipeline.flights, h.pipeline.accounted.addJob l now⟩,
        (maxFileToProcess_addJob _ l now).trans h.capacity⟩
    · cases hStep
  | tick order views targetOrder faults =>
    simp only [TmpFiles.step] at hStep
    split at hStep
    · obtain ⟨next, hNext, rfl⟩ := Option.map_eq_some_iff.mp hStep
      obtain ⟨hSound, hMax⟩ := h.tick hHandled hNext
      exact ⟨hSound, hMax⟩
    · cases hStep
  | register specialist =>
    cases hStep
    exact ⟨⟨h.pipeline.flights, h.pipeline.accounted⟩, h.capacity⟩
  | flight i action outcome =>
    obtain ⟨next, hNext, rfl⟩ := Option.map_eq_some_iff.mp hStep
    obtain ⟨hSound, hMax⟩ := h.flight hNext
    exact ⟨hSound, hMax⟩
  | respond fault =>
    simp only [TmpFiles.step] at hStep
    split at hStep
    · rename_i resp rest _ hResponses
      cases hStep
      exact ⟨h.respond hResponses, (maxFileToProcess_removeJob _ resp).trans h.capacity⟩
    · cases hStep
  | send =>
    simp only [TmpFiles.step] at hStep
    split at hStep
    · cases hStep
      exact { h with }
    · cases hStep
  | cancel =>
    cases hStep
    exact { h with }
  | ctxDone =>
    simp only [TmpFiles.step] at hStep
    split at hStep
    · split at hStep
      · cases hStep
        exact { h with }
      · cases hStep
        exact { h with }
      · cases hStep
    · cases hStep

theorem fit_of_reaches
    (h : (machine maxFileToProcess maxFileSizeMB).Reaches (Careful tempDir) s) :
    s.Sound tempDir ∧ Fit maxFileToProcess s := by
  refine Machine.Reaches.invariant
    (I := fun s => State.Sound tempDir s ∧ Fit maxFileToProcess s) ⟨start_sound, ?_, rfl⟩ ?_ h
  · exact ⟨nofun, rfl, .refl _, Nat.zero_le _⟩
  · rintro s a t ⟨hSound, hFit⟩ ⟨hPublishes, hHandled⟩ hStep
    exact ⟨hSound.step hPublishes hStep, hFit.step hHandled hStep⟩

/-- What stays true of the later states of a worker that runs. -/
structure Live (tempDir : String) (maxFileToProcess : UInt32) (env : Environment) (s t : State) :
    Prop where
  sound : t.Sound tempDir
  fit : Fit maxFileToProcess t
  covered : t.Covered env
  running : t.point ≠ .returned
  published : t.published = s.published
  coordinator : t.pipeline.coordinator = s.pipeline.coordinator
  rejected : ∀ l ∈ t.rejected,
    l ∈ s.rejected ∨ Refused s.pipeline.coordinator env (locationRequest l)

theorem publishes_action (m : Move) : Publishes tempDir t (m.action env) := by
  cases m <;> trivial

theorem Live.handled (h : Live tempDir maxFileToProcess env s t) (m : Move) :
    TicksHandled t (m.action env) := by
  cases m with
  | tick order targetOrder => exact fun f job hGet hIdle => h.covered.2 f job hGet hIdle
  | _ => trivial

theorem refused_of_accepts {m : Coordinator} {targetOrder : FileID → List SpecialistClient}
    {req : SpecialistRequest} (h : accepts m env.views targetOrder req = false) :
    Refused m env req := by
  intro data hOk
  rw [accepts, callBroadcast, Coordinator.broadcast, hOk] at h
  dsimp only at h
  split at h
  · cases h
  · rename_i hError
    split at hError
    · cases hError
    · cases hError

theorem Live.receive (h : Live tempDir maxFileToProcess env s t) {l : TmpFileLocation}
    {rest : List TmpFileLocation} (hLocations : t.locations = l :: rest) (now : Int) :
    State.Covered env
      { t with
        pipeline := { t.pipeline with worker := addJob t.pipeline.worker l now }
        locations := rest } := by
  have hFirst := h.covered.1
  rw [hLocations] at hFirst
  obtain ⟨hNew, hRest⟩ := List.forall_mem_cons.mp hFirst
  refine ⟨hRest, ?_⟩
  intro f job hGet hIdle
  simp only [State.jobs, addJob] at hGet
  split at hGet
  · exact h.covered.2 f job hGet hIdle
  · rw [OrderedMap.get?_insert] at hGet
    split at hGet
    · rename_i hSame
      obtain rfl := Option.some.inj hGet
      rw [hSame]
      exact hNew
    · exact h.covered.2 f job hGet hIdle

theorem Live.tick (h : Live tempDir maxFileToProcess env s t) {order : List FileID}
    {targetOrder : FileID → List SpecialistClient} {next : PipelineState}
    (hNext : pipelineStep t.pipeline (.tick order env.views targetOrder) = some next) :
    State.Covered env { t with pipeline := next } ∧
      next.coordinator = t.pipeline.coordinator ∧
      ∀ l ∈ removedJobs t.pipeline.worker next.worker,
        Refused t.pipeline.coordinator env (locationRequest l) := by
  rw [pipelineStep] at hNext
  split at hNext
  · have hVisited := processJobs_visited (accepts t.pipeline.coordinator env.views targetOrder)
      order t.pipeline.worker
    obtain ⟨gone, hJobs, _, hRefused⟩ := hVisited.deleted
    cases hNext
    refine ⟨⟨h.covered.1, ?_⟩, rfl, ?_⟩
    · intro f job hGet hIdle
      exact h.covered.2 f job (hVisited.idle f job hGet hIdle) hIdle
    · intro l hl
      exact refused_of_accepts (hRefused l ((removedJobs_perm hJobs).mem_iff.mp hl))
  · cases hNext

theorem Live.step {m : Move} (h : Live tempDir maxFileToProcess env s t)
    (hStep : step t (m.action env) = some u) : Live tempDir maxFileToProcess env s u := by
  have hSound := h.sound.step (publishes_action m) hStep
  have hFit := h.fit.step (h.handled m) hStep
  cases m with
  | receive now =>
    simp only [Move.action, TmpFiles.step] at hStep
    split at hStep
    · rename_i hLocations
      cases hStep
      exact { h with sound := hSound, fit := hFit, covered := h.receive hLocations now }
    · cases hStep
  | tick order targetOrder =>
    simp only [Move.action, TmpFiles.step] at hStep
    split at hStep
    · obtain ⟨next, hNext, rfl⟩ := Option.map_eq_some_iff.mp hStep
      obtain ⟨hCovered, hSame, hRefused⟩ := h.tick hNext
      refine { h with
        sound := hSound, fit := hFit, covered := hCovered
        coordinator := hSame.trans h.coordinator, rejected := ?_ }
      refine List.forall_mem_append.mpr ⟨h.rejected, fun l hl => .inr ?_⟩
      rw [← h.coordinator]
      exact hRefused l hl
    · cases hStep
  | flight i action =>
    obtain ⟨next, hNext, rfl⟩ := Option.map_eq_some_iff.mp hStep
    obtain ⟨hWorker, hSame⟩ : next.worker = t.pipeline.worker ∧
        next.coordinator = t.pipeline.coordinator := by
      rw [pipelineStep] at hNext
      split at hNext
      · cases hNext
      · split at hNext
        · cases hNext
        · cases hNext
          exact ⟨rfl, rfl⟩
    refine { h with
      sound := hSound, fit := hFit, coordinator := hSame.trans h.coordinator, covered := ?_ }
    rw [State.Covered, State.jobs, hWorker, hSame]
    exact h.covered
  | respond =>
    simp only [Move.action, TmpFiles.step] at hStep
    split at hStep
    · rename_i resp rest _ _
      cases hStep
      refine { h with
        sound := hSound, fit := hFit, running := by simp, covered := ⟨h.covered.1, ?_⟩ }
      intro f job hGet hIdle
      rw [State.jobs, jobs_removeJob, OrderedMap.get?_erase] at hGet
      split at hGet
      · cases hGet
      · exact h.covered.2 f job hGet hIdle
    · cases hStep
  | send =>
    simp only [Move.action, TmpFiles.step] at hStep
    split at hStep
    · cases hStep
      exact { h with sound := hSound, fit := hFit, running := by simp }
    · cases hStep

/-! ## What is left to do -/

def idleCount (jobs : OrderedMap FileID FileJob) : Nat :=
  jobs.countValues fun job => !job.isRunning

theorem idleCount_add_running (jobs : OrderedMap FileID FileJob) :
    (jobLocations jobs).length = (running jobs).length + idleCount jobs := by
  rw [jobLocations, List.length_map, length_running, idleCount, OrderedMap.countValues,
    OrderedMap.countValues, List.length_eq_countP_add_countP fun e => e.2.isRunning]
  congr 2
  funext e
  cases e.2.isRunning <;> rfl

theorem exists_idle {jobs : OrderedMap FileID FileJob} (h : idleCount jobs ≠ 0) :
    ∃ f job, jobs.get? f = some job ∧ job.isRunning = false := by
  obtain ⟨⟨f, job⟩, hEntry, hIdle⟩ := List.countP_pos_iff.mp (Nat.pos_of_ne_zero h)
  exact ⟨f, job, jobs.get?_eq_some_iff.mpr hEntry, by simpa using hIdle⟩

/-- The files before their broadcast. -/
def State.waiting (s : State) : Nat := 2 * s.locations.length + idleCount s.jobs

/-- The steps of the files after it. -/
def State.motion (s : State) : Nat :=
  3 * (s.pipeline.flights.map Flight.work).sum + 2 * s.pipeline.responses.length +
    s.point.hand.length

def State.rank (s : State) : Nat × Nat := (s.waiting, s.motion)

def Lower : Nat × Nat → Nat × Nat → Prop := Prod.Lex (· < ·) (· < ·)

theorem lower_of_waiting (h : t.waiting < s.waiting) : Lower t.rank s.rank :=
  Prod.Lex.left _ _ h

theorem lower_of_motion (hSame : t.waiting = s.waiting) (h : t.motion < s.motion) :
    Lower t.rank s.rank := by
  rw [State.rank, State.rank, hSame]
  exact Prod.Lex.right _ h

def Progresses (env : Environment) (s : State) : Prop :=
  ∃ (m : Move) (t : State), step s (m.action env) = some t ∧ Lower t.rank s.rank

def State.Drained (s : State) : Prop :=
  s.point = .selecting ∧ s.locations = [] ∧ jobLocations s.jobs = []

theorem visitJobs_calls {broadcast : SpecialistRequest → Bool} {order : List FileID}
    {nbrOfFile : UInt32} {w : FileTmpJobWorker} {f : FileID} {job : FileJob}
    (hRoom : nbrOfFile ≠ 0) (hMem : f ∈ order) (hGet : w.jobs.get? f = some job)
    (hIdle : job.isRunning = false) : (visitJobs broadcast order nbrOfFile w).calls ≠ [] := by
  induction order with
  | nil => cases hMem
  | cons g rest ih =>
    rw [visitJobs, if_neg hRoom]
    split
    · rename_i hNone
      refine ih ((List.mem_cons.mp hMem).resolve_left ?_)
      rintro rfl
      rw [hNone] at hGet
      cases hGet
    · rename_i other hOther
      split
      · rename_i hRunning
        refine ih ((List.mem_cons.mp hMem).resolve_left ?_)
        rintro rfl
        obtain rfl := Option.some.inj (hGet.symm.trans hOther)
        rw [hIdle] at hRunning
        cases hRunning
      · dsimp only
        split
        · exact List.cons_ne_nil _ _
        · exact List.cons_ne_nil _ _

/-- With all slots free a tick calls the coordinator for some idle job. -/
theorem processJobs_calls {broadcast : SpecialistRequest → Bool} {order : List FileID}
    {w : FileTmpJobWorker} {f : FileID} {job : FileJob} (hCount : w.processingFileCount = 0)
    (hMax : 0 < w.maxFileToProcess) (hMem : f ∈ order) (hGet : w.jobs.get? f = some job)
    (hIdle : job.isRunning = false) : (processJobs broadcast order w).calls ≠ [] := by
  have hJobs : w.jobs.entries ≠ [] := List.ne_nil_of_mem (w.jobs.get?_eq_some_iff.mp hGet)
  have hFree : w.maxFileToProcess - w.processingFileCount = w.maxFileToProcess := by
    rw [hCount, UInt32.sub_zero]
  rw [processJobs, if_neg hJobs]
  dsimp only
  rw [hFree, if_neg (UInt32.not_le.mpr hMax)]
  refine visitJobs_calls ?_ hMem hGet hIdle
  rintro hZero
  rw [hZero] at hMax
  exact absurd hMax (UInt32.lt_irrefl 0)

/-- A job that ran leaves. -/
theorem idleCount_erase {jobs : OrderedMap FileID FileJob} {f : FileID} {job : FileJob}
    (hGet : jobs.get? f = some job) (hRunning : job.isRunning = true) :
    idleCount (jobs.erase f) = idleCount jobs := by
  have hJobs := (jobLocations_of_get? hGet).length_eq
  have hRun := (running_of_get? hGet).length_eq
  rw [hRunning, if_pos rfl, List.length_cons] at hRun
  rw [List.length_cons, idleCount_add_running, idleCount_add_running, hRun] at hJobs
  omega

theorem idleCount_tick {broadcast : SpecialistRequest → Bool} {w : FileTmpJobWorker} {tick : Tick}
    (h : Visited broadcast w tick) :
    idleCount tick.worker.jobs + tick.calls.length = idleCount w.jobs := by
  obtain ⟨gone, hJobs, hDeleted, _⟩ := h.deleted
  have hLocations := hJobs.length_eq
  have hRunning := h.running.length_eq
  have hCalls := h.calls
  rw [hDeleted, List.length_map] at hCalls
  rw [List.length_append] at hLocations hRunning
  rw [idleCount_add_running, idleCount_add_running] at hLocations
  omega

theorem idleCount_addJob (w : FileTmpJobWorker) (l : TmpFileLocation) (now : Int) :
    idleCount (addJob w l now).jobs ≤ idleCount w.jobs + 1 := by
  cases hGet : w.jobs.get? l.fileId with
  | some job =>
    simp only [addJob, hGet]
    omega
  | none =>
    obtain ⟨hJobs, hRunning⟩ := addJob_new hGet now
    have hLength := hJobs.length_eq
    have hRun := hRunning.length_eq
    rw [List.length_cons, idleCount_add_running, idleCount_add_running] at hLength
    omega

/-! ## The next move -/

theorem progresses_sending {event : AnalysisSegment} (hPoint : t.point = .sending event) :
    Progresses env t := by
  refine ⟨.send, { t with point := .selecting, events := t.events ++ [event] }, ?_, ?_⟩
  · simp only [Move.action, TmpFiles.step, hPoint]
  · refine lower_of_motion rfl ?_
    simp only [State.motion, hPoint, Point.hand, List.length_singleton, List.length_nil]
    omega

theorem Live.progresses_responding (h : Live tempDir maxFileToProcess env s t)
    (hPoint : t.point = .selecting) {resp : SpecialistResponse} {rest : List SpecialistResponse}
    (hResponses : t.pipeline.responses = resp :: rest) :
    Progresses env t := by
  have hMem : resp ∈ t.pipeline.responses := hResponses ▸ List.mem_cons_self
  obtain ⟨job, hJob, hRunning⟩ := h.sound.job_of_response hMem
  refine ⟨.respond, _, by simp only [Move.action, TmpFiles.step, hPoint, hResponses]; rfl, ?_⟩
  refine lower_of_motion ?_ ?_
  · simp only [State.waiting, State.jobs, jobs_removeJob]
    exact congrArg _ (idleCount_erase hJob hRunning)
  · simp only [State.motion, hPoint, hResponses, Point.hand, List.length_nil, List.length_cons]
    omega

theorem Live.progresses_flying (h : Live tempDir maxFileToProcess env s t) {flight : Flight}
    (hFlight : flight ∈ t.pipeline.flights) (hAirborne : Airborne flight = true) :
    Progresses env t := by
  obtain ⟨i, hGet⟩ := List.mem_iff_getElem?.mp hFlight
  obtain ⟨action, hSome⟩ := flightStep_progress env.outcome (h.sound.flights flight hFlight)
    (of_decide_eq_true hAirborne)
  obtain ⟨⟨next, out⟩, hNext⟩ := Option.isSome_iff_exists.mp hSome
  refine ⟨.flight i action, _, by
    simp only [Move.action, TmpFiles.step, pipelineStep, hGet, hNext]; rfl, ?_⟩
  refine lower_of_motion rfl ?_
  have hWork := flightStep_work_lt hNext
  have hSum := sum_map_set Flight.work hGet next
  have hOut : out.toList.length ≤ 1 := by cases out <;> simp
  simp only [State.motion, List.length_append]
  omega

theorem progresses_receiving (hPoint : t.point = .selecting) {l : TmpFileLocation}
    {rest : List TmpFileLocation} (hLocations : t.locations = l :: rest) :
    Progresses env t := by
  refine ⟨.receive 0, _, by simp only [Move.action, TmpFiles.step, hPoint, hLocations]; rfl, ?_⟩
  refine lower_of_waiting ?_
  have hIdle := idleCount_addJob t.pipeline.worker l 0
  simp only [State.waiting, State.jobs, hLocations, List.length_cons]
  omega

theorem Live.progresses_ticking (h : Live tempDir maxFileToProcess env s t)
    (hMax : 0 < maxFileToProcess) (hPoint : t.point = .selecting)
    (hOutstanding : t.pipeline.outstandingFiles = []) (hIdle : idleCount t.jobs ≠ 0) :
    Progresses env t := by
  obtain ⟨f, job, hGet, hWaits⟩ := exists_idle hIdle
  have hCount : t.pipeline.worker.processingFileCount = 0 := by
    have hEq := h.fit.pipeline.accounted.count_eq
    rw [hOutstanding] at hEq
    exact UInt32.toNat_inj.mp hEq
  -- every target list is a visit of the registered specialists
  let specialists := t.pipeline.coordinator.specialists.entries.map Prod.snd
  let tick := processJobs (accepts t.pipeline.coordinator env.views fun _ => specialists)
    t.jobs.keys t.pipeline.worker
  have hCalls : tick.calls ≠ [] := processJobs_calls hCount (h.fit.capacity ▸ hMax)
    (t.jobs.mem_keys_iff.mpr ⟨job, hGet⟩) hGet hWaits
  have hLess : idleCount tick.worker.jobs + tick.calls.length = idleCount t.jobs :=
    idleCount_tick (processJobs_visited _ _ _)
  refine ⟨.tick t.jobs.keys fun _ => specialists, _, by
    simp only [Move.action, TmpFiles.step, hPoint, pipelineStep]
    rw [if_pos ⟨.refl _, fun _ _ => .refl _⟩]
    rfl, ?_⟩
  refine lower_of_waiting ?_
  have hSome := List.length_pos_iff.mpr hCalls
  change 2 * t.locations.length + idleCount tick.worker.jobs <
    2 * t.locations.length + idleCount t.jobs
  omega

theorem Live.progresses (h : Live tempDir maxFileToProcess env s t) (hMax : 0 < maxFileToProcess)
    (hMore : ¬ t.Drained) : Progresses env t := by
  cases hPoint : t.point with
  | returned => exact absurd hPoint h.running
  | sending event => exact progresses_sending hPoint
  | selecting =>
    cases hResponses : t.pipeline.responses with
    | cons resp rest => exact h.progresses_responding hPoint hResponses
    | nil =>
      by_cases hFlying : ∃ flight ∈ t.pipeline.flights, Airborne flight = true
      · obtain ⟨flight, hFlight, hAirborne⟩ := hFlying
        exact h.progresses_flying hFlight hAirborne
      · have hOutstanding : t.pipeline.outstandingFiles = [] := by
          rw [PipelineState.outstandingFiles, hResponses, airborneFiles,
            List.filter_eq_nil_iff.mpr fun flight hFlight hUp => hFlying ⟨flight, hFlight, hUp⟩]
          rfl
        cases hLocations : t.locations with
        | cons l rest => exact progresses_receiving hPoint hLocations
        | nil =>
          refine h.progresses_ticking hMax hPoint hOutstanding fun hNone => hMore ?_
          refine ⟨hPoint, hLocations, List.eq_nil_of_length_eq_zero ?_⟩
          have hRunning := h.fit.pipeline.accounted.perm.length_eq
          rw [hOutstanding, List.length_nil] at hRunning
          rw [idleCount_add_running, hNone, State.jobs, ← hRunning]

/-- Where every file that the checks let through has a specialist, a worker that
has not returned can bring all published files to their end, however many have
gone through it before and whatever the environment answers. Each is answered,
with one segment for its drive, unless the checks refuse it; nothing is left on
the disk but what could not be deleted. -/
theorem tmp_files_drained (hMax : 0 < maxFileToProcess)
    (h : (machine maxFileToProcess maxFileSizeMB).Reaches (Careful tempDir) s)
    (hRunning : s.point ≠ .returned) (hCovered : s.Covered env) :
    ∃ t, (draining maxFileToProcess maxFileSizeMB env).Leads s t ∧
      (t.rejected ++ t.answered).Perm s.published ∧
      (∀ l ∈ t.rejected,
        l ∈ s.rejected ∨ Refused s.pipeline.coordinator env (locationRequest l)) ∧
      t.events.map segmentKey = t.answered.map segmentOf ∧ t.disk.Perm t.undeleted := by
  obtain ⟨hSound, hFit⟩ := fit_of_reaches h
  have hHere : Live tempDir maxFileToProcess env s s :=
    ⟨hSound, hFit, hCovered, hRunning, rfl, rfl, fun _ => .inl⟩
  have hStep : ∀ t, Live tempDir maxFileToProcess env s t → ¬ t.Drained →
      ∃ m u, (draining maxFileToProcess maxFileSizeMB env).step t m = some u ∧
        Live tempDir maxFileToProcess env s u ∧ Lower u.rank t.rank := by
    intro t hLive hMore
    obtain ⟨m, u, hNext, hLower⟩ := hLive.progresses hMax hMore
    exact ⟨m, u, hNext, hLive.step hNext, hLower⟩
  obtain ⟨t, hLeads, hLive, hPoint, hLocations, hJobs⟩ :=
    Machine.leads_of_rank (WellFounded.prod_lex wellFounded_lt wellFounded_lt) State.rank hStep
      hHere
  have hConserved := hLive.sound.conserved
  have hDisk := hLive.sound.disk
  have hEvents := hLive.sound.events
  have hLost : t.lost = [] := hLive.sound.lost_eq_nil hLive.running
  rw [hLocations, hJobs, hLive.published] at hConserved
  rw [hLocations, hJobs] at hDisk
  simp only [hPoint, hLost, Point.hand, List.append_nil] at hEvents
  exact ⟨t, hLeads, hConserved, hLive.rejected, hEvents, hDisk⟩

end Steps

def readableFiles : Environment where
  views _ := { stat := some 1, data := some [0] }
  outcome _ := .error "unavailable"
  faults _ := false
  fault := false

def queuedState (n : Nat) : State := (machine 1 1).after (broadcastRun.take n)

theorem tmp_files_drained_queued :
    ∃ t, (draining 1 1 readableFiles).Leads (queuedState 3) t ∧
      t.events.map segmentKey = [("d", "a")] := by
  have hFirst : (machine 1 1).step (machine 1 1).start (.register (sampleClient .applicationPDF)) =
      some (queuedState 1) := by decide +kernel
  have hSecond : (machine 1 1).step (queuedState 1) (.publish (pdfLocation "a")) =
      some (queuedState 2) := by decide +kernel
  have hThird : (machine 1 1).step (queuedState 2) (.receive 1) = some (queuedState 3) := by
    decide +kernel
  have hNew : Publishes "/t" (queuedState 1) (.publish (pdfLocation "a")) := by decide +kernel
  have hStart : Careful "/t" (machine 1 1).start (.register (sampleClient .applicationPDF)) :=
    ⟨trivial, trivial⟩
  have hReceive : Careful "/t" (queuedState 2) (.receive 1) := ⟨trivial, trivial⟩
  have hReaches :=
    ((Machine.Reaches.start.step hStart hFirst).step ⟨hNew, trivial⟩ hSecond).step hReceive hThird
  have hState : (queuedState 3).point = .selecting ∧ (queuedState 3).locations = [] ∧
      (queuedState 3).rejected = [] ∧ (queuedState 3).published = [pdfLocation "a"] := by
    decide +kernel
  obtain ⟨hPoint, hLocations, hRejected, hPublished⟩ := hState
  have hCovered : (queuedState 3).Covered readableFiles := by
    refine ⟨by rw [hLocations]; nofun, ?_⟩
    intro f job hGet _ _
    have hPdf : ∀ e ∈ (queuedState 3).jobs.entries,
        (sampleClient .applicationPDF).canHandle e.2.effectiveMimeType = true := by decide +kernel
    exact ⟨sampleClient .applicationPDF, by decide +kernel,
      hPdf (f, job) ((OrderedMap.get?_eq_some_iff _).mp hGet)⟩
  obtain ⟨t, hLeads, hEnded, hRefused, hEvents, _⟩ := tmp_files_drained (by decide) hReaches
    (by rw [hPoint]; nofun) hCovered
  rw [hPublished] at hEnded
  rw [hRejected] at hRefused
  have hNone : t.rejected = [] := by
    refine List.eq_nil_iff_forall_not_mem.mpr fun l hl => ?_
    obtain rfl := List.mem_singleton.mp (hEnded.mem_iff.mp (List.mem_append_left _ hl))
    obtain hOld | hRefuses := hRefused _ hl
    · cases hOld
    · exact hRefuses [0] (by decide +kernel)
  rw [hNone, List.nil_append] at hEnded
  refine ⟨t, hLeads, ?_⟩
  rw [hEvents, List.perm_singleton.mp hEnded]
  rfl

end ChatLab.Workers.TmpFiles

import ChatLab.Foundation.Bag
import ChatLab.Runtime.Broadcast
import ChatLab.Workers.FileTmpJob

/-!
# The job worker together with the coordinator

A tick asks the coordinator itself; what it accepts becomes a flight whose
goroutines run beside the worker, and the flight's response comes back over a
channel. The channel is unbounded here, and a flight's launching steps may run
after the tick: both only add interleavings. A file that no specialist handles
is accepted without a flight, so its slot is never given back.
-/

namespace ChatLab.Workers

open Foundation ChatLab.Runtime

structure PipelineState where
  worker : FileTmpJobWorker
  coordinator : Coordinator
  flights : List Flight
  responses : List SpecialistResponse
deriving DecidableEq

/-- The environment chooses the order of every map visit, what the file system
answers, and what each analysis returns. -/
inductive PipelineAction
  | addJob (l : TmpFileLocation) (now : Int)
  | register (s : SpecialistClient)
  | tick (order : List FileID) (views : FileID → FileView)
      (targetOrder : FileID → List SpecialistClient)
  | flight (i : Nat) (action : FlightAction) (outcome : SpecialistClient → Outcome)
  | respond

def callBroadcast (m : Coordinator) (views : FileID → FileView)
    (targetOrder : FileID → List SpecialistClient) (req : SpecialistRequest) :
    Except BroadcastError (Option Flight) :=
  m.broadcast (views req.fileId) (targetOrder req.fileId) req

def accepts (m : Coordinator) (views : FileID → FileView)
    (targetOrder : FileID → List SpecialistClient) (req : SpecialistRequest) : Bool :=
  match callBroadcast m views targetOrder req with
  | .ok _ => true
  | .error _ => false

def launched (m : Coordinator) (views : FileID → FileView)
    (targetOrder : FileID → List SpecialistClient) (req : SpecialistRequest) : Option Flight :=
  match callBroadcast m views targetOrder req with
  | .ok flight => flight
  | .error _ => none

def pipelineStep (s : PipelineState) : PipelineAction → Option PipelineState
  | .addJob l now => some { s with worker := addJob s.worker l now }
  | .register specialist => some { s with coordinator := s.coordinator.add specialist }
  | .tick order views targetOrder =>
    if order.Perm s.worker.jobs.keys ∧
        ∀ f ∈ order, (targetOrder f).Perm (s.coordinator.specialists.entries.map Prod.snd) then
      let tick := processJobs (accepts s.coordinator views targetOrder) order s.worker
      let flights := tick.calls.filterMap fun c => launched s.coordinator views targetOrder c.1
      some { s with worker := tick.worker, flights := s.flights ++ flights }
    else none
  | .flight i action outcome =>
    match s.flights[i]? with
    | none => none
    | some flight =>
      match flightStep outcome flight action with
      | none => none
      | some (next, out) =>
        some { s with flights := s.flights.set i next, responses := s.responses ++ out.toList }
  | .respond =>
    match s.responses with
    | [] => none
    | resp :: rest => some { s with worker := (removeJob s.worker resp).1, responses := rest }

def pipeline (maxFileToProcess : UInt32) (maxFileSizeMB : Int) :
    Machine PipelineState PipelineAction where
  start :=
    { worker := newFileTmpJobWorker maxFileToProcess,
      coordinator := { specialists := .empty, maxFileSizeMB := maxFileSizeMB },
      flights := [], responses := [] }
  step := pipelineStep

def Airborne (flight : Flight) : Bool := flight.sender ≠ .finished

/-- The analyses that are still to come back for a file: unsent flights and
responses in the channel. -/
def PipelineState.outstanding (s : PipelineState) (f : FileID) : Nat :=
  s.flights.countP (fun flight => Airborne flight && flight.req.fileId = f) +
    s.responses.countP (fun resp => resp.fileId = f)

/-- Every waiting job that the checks of `Broadcast` let through has a
specialist. -/
def Handled (s : PipelineState) : PipelineAction → Prop
  | .tick _ views _ => ∀ f job, s.worker.jobs.get? f = some job → job.isRunning = false →
      (∃ data, s.coordinator.checkRequest (views f) (jobRequest f job) = .ok data) →
      ∃ specialist ∈ s.coordinator.specialists.entries.map Prod.snd,
        specialist.canHandle job.effectiveMimeType = true
  | _ => True

/-! ## The invariant -/

def airborneFiles (flights : List Flight) : List FileID :=
  (flights.filter Airborne).map fun flight => flight.req.fileId

def PipelineState.outstandingFiles (s : PipelineState) : List FileID :=
  airborneFiles s.flights ++ s.responses.map SpecialistResponse.fileId

structure PipelineState.Sound (s : PipelineState) : Prop where
  flights : ∀ flight ∈ s.flights, flight.Sound
  accounted : Accounted s.worker s.outstandingFiles

theorem Accounted.of_perm {w : FileTmpJobWorker} {files files' : List FileID}
    (h : Accounted w files) (hPerm : files.Perm files') : Accounted w files' where
  count_eq := h.count_eq.trans hPerm.length_eq
  perm := hPerm.symm.trans h.perm
  le_max := hPerm.length_eq ▸ h.le_max

theorem airborneFiles_append (l r : List Flight) :
    airborneFiles (l ++ r) = airborneFiles l ++ airborneFiles r := by
  rw [airborneFiles, List.filter_append, List.map_append]
  rfl

theorem airborneFiles_set {flights : List Flight} {i : Nat} {flight : Flight}
    (h : flights[i]? = some flight) (next : Flight) :
    ∃ l r, flights = l ++ flight :: r ∧ flights.set i next = l ++ next :: r := by
  obtain ⟨hLength, hGet⟩ := List.getElem?_eq_some_iff.mp h
  refine ⟨flights.take i, flights.drop (i + 1), ?_, ?_⟩
  · rw [← hGet, List.cons_getElem_drop_succ, List.take_append_drop]
  · exact List.set_eq_take_cons_drop next hLength

theorem flight_outstanding {flights : List Flight} {i : Nat} {flight next : Flight}
    {out : Option SpecialistResponse} {action : FlightAction} {outcome : SpecialistClient → Outcome}
    (hSound : flight.Sound) (hGet : flights[i]? = some flight)
    (hStep : flightStep outcome flight action = some (next, out))
    (responses : List SpecialistResponse) :
    (airborneFiles flights ++ responses.map SpecialistResponse.fileId).Perm
      (airborneFiles (flights.set i next) ++
        (responses ++ out.toList).map SpecialistResponse.fileId) := by
  obtain ⟨l, r, rfl, hSet⟩ := airborneFiles_set hGet next
  obtain ⟨hReq, _, hQuiet⟩ := flightStep_frame hStep
  rw [hSet, airborneFiles_append, airborneFiles_append]
  cases out with
  | none =>
    -- the flight stays in the air, or was already down
    have hSame : airborneFiles (flight :: r) = airborneFiles (next :: r) := by
      have hAir : Airborne flight = Airborne next := by
        rw [Airborne, Airborne, decide_eq_decide, not_iff_not]
        exact (hQuiet rfl).symm
      rw [airborneFiles, airborneFiles, List.filter_cons, List.filter_cons, hAir]
      split
      · rw [List.map_cons, List.map_cons, hReq]
      · rfl
    rw [hSame, Option.toList_none, List.append_nil]
  | some resp =>
    -- the file moves from the flights to the channel
    obtain ⟨hFile, _, _, hBefore, hAfter⟩ := flightStep_sends hSound hStep
    have hUp : airborneFiles (flight :: r) = flight.req.fileId :: airborneFiles r := by
      have hAir : Airborne flight = true := decide_eq_true hBefore
      rw [airborneFiles, List.filter_cons_of_pos hAir, List.map_cons]
      rfl
    have hDown : airborneFiles (next :: r) = airborneFiles r := by
      rw [airborneFiles, List.filter_cons_of_neg (by simp [Airborne, hAfter])]
      rfl
    rw [hUp, hDown, List.map_append, Option.toList_some, List.map_singleton, hFile,
      ← List.append_assoc]
    refine List.Perm.trans ?_ (List.perm_append_singleton _ _).symm
    rw [List.append_assoc, List.cons_append]
    exact List.perm_middle.trans (by rw [List.append_assoc])

theorem broadcast_of_handled {m : Coordinator} {view : FileView} {order : List SpecialistClient}
    {req : SpecialistRequest} {answer : Option Flight}
    (hOrder : order.Perm (m.specialists.entries.map Prod.snd))
    (hAnswer : m.broadcast view order req = .ok answer)
    (hHandled : (∃ data, m.checkRequest view req = .ok data) →
      ∃ specialist ∈ m.specialists.entries.map Prod.snd,
        specialist.canHandle req.effectiveMimeType = true) :
    answer = some (launchFlight req (selectTargets order req)) := by
  rw [Coordinator.broadcast] at hAnswer
  split at hAnswer
  · cases hAnswer
  · rename_i data hCheck
    obtain ⟨specialist, hMem, hCan⟩ := hHandled ⟨data, hCheck⟩
    have hTarget : specialist ∈ selectTargets order req :=
      List.mem_filter.mpr ⟨hOrder.mem_iff.mpr hMem, hCan⟩
    dsimp only at hAnswer
    rw [if_neg (List.ne_nil_of_mem hTarget)] at hAnswer
    exact (Except.ok.inj hAnswer).symm

theorem airborne_launchFlight (req : SpecialistRequest) (targets : List SpecialistClient) :
    Airborne (launchFlight req targets) = true := rfl

theorem tick_flights {m : Coordinator} {views : FileID → FileView}
    {targetOrder : FileID → List SpecialistClient} {calls : List (SpecialistRequest × Bool)}
    (h : ∀ c ∈ calls, c.2 = accepts m views targetOrder c.1 ∧
      ∀ answer, callBroadcast m views targetOrder c.1 = .ok answer →
        answer = some (launchFlight c.1 (selectTargets (targetOrder c.1.fileId) c.1))) :
    airborneFiles (calls.filterMap fun c => launched m views targetOrder c.1) =
        (calls.filter Prod.snd).map (fun c => c.1.fileId) ∧
      ∀ flight ∈ calls.filterMap (fun c => launched m views targetOrder c.1), flight.Sound := by
  induction calls with
  | nil => exact ⟨rfl, by simp⟩
  | cons c calls ih =>
    obtain ⟨hFiles, hSound⟩ := ih fun d hd => h d (List.mem_cons_of_mem _ hd)
    obtain ⟨hAnswer, hLaunch⟩ := h c List.mem_cons_self
    cases hCall : callBroadcast m views targetOrder c.1 with
    | error e =>
      have hRejected : c.2 = false := by rw [hAnswer, accepts, hCall]
      have hNone : launched m views targetOrder c.1 = none := by rw [launched, hCall]
      rw [List.filterMap_cons, hNone, List.filter_cons_of_neg (by rw [hRejected]; exact nofun)]
      exact ⟨hFiles, hSound⟩
    | ok answer =>
      have hAccepted : c.2 = true := by rw [hAnswer, accepts, hCall]
      have hSome : launched m views targetOrder c.1 =
          some (launchFlight c.1 (selectTargets (targetOrder c.1.fileId) c.1)) := by
        rw [launched, hCall]
        exact hLaunch answer hCall
      rw [List.filterMap_cons, hSome, List.filter_cons_of_pos hAccepted, List.map_cons]
      constructor
      · rw [airborneFiles, List.filter_cons_of_pos (airborne_launchFlight _ _), List.map_cons]
        exact congrArg _ hFiles
      · exact List.forall_mem_cons.mpr ⟨launchFlight_sound _ _, hSound⟩

theorem PipelineState.Sound.tick {s t : PipelineState} (h : s.Sound) {order : List FileID}
    {views : FileID → FileView} {targetOrder : FileID → List SpecialistClient}
    (hHandled : Handled s (.tick order views targetOrder))
    (hStep : pipelineStep s (.tick order views targetOrder) = some t) : t.Sound := by
  rw [pipelineStep] at hStep
  split at hStep
  · rename_i hGuard
    obtain ⟨hOrder, hTargets⟩ := hGuard
    have hNodup := hOrder.nodup_iff.mpr s.worker.jobs.keys_nodup
    have hTick := processJobs_spec (accepts s.coordinator views targetOrder) hNodup h.accounted
    have hCalls : ∀ c ∈ (processJobs (accepts s.coordinator views targetOrder) order
        s.worker).calls, c.2 = accepts s.coordinator views targetOrder c.1 ∧
          ∀ answer, callBroadcast s.coordinator views targetOrder c.1 = .ok answer →
            answer = some (launchFlight c.1 (selectTargets (targetOrder c.1.fileId) c.1)) := by
      intro c hc
      obtain ⟨hAnswer, job, hGet, hIdle, hRequest⟩ := hTick.pending c hc
      refine ⟨hAnswer, fun answer hCall => ?_⟩
      refine broadcast_of_handled (hTargets _ (hTick.visited _ (List.mem_map_of_mem hc))) hCall ?_
      rw [hRequest]
      exact hHandled _ job hGet hIdle
    obtain ⟨hFiles, hSound⟩ := tick_flights hCalls
    obtain rfl := Option.some.inj hStep
    refine ⟨?_, hTick.accounted.of_perm ?_⟩
    · intro flight hFlight
      obtain hFlight | hFlight := List.mem_append.mp hFlight
      · exact h.flights flight hFlight
      · exact hSound flight hFlight
    · rw [PipelineState.outstandingFiles, PipelineState.outstandingFiles, airborneFiles_append,
        hFiles, List.append_assoc, List.append_assoc]
      exact List.Perm.append_left _ List.perm_append_comm
  · cases hStep

theorem pipelineStep_sound {s t : PipelineState} {action : PipelineAction} (h : s.Sound)
    (hHandled : Handled s action) (hStep : pipelineStep s action = some t) : t.Sound := by
  cases action with
  | addJob l now =>
    cases hStep
    exact ⟨h.flights, h.accounted.addJob l now⟩
  | register specialist =>
    cases hStep
    exact ⟨h.flights, h.accounted⟩
  | tick order views targetOrder => exact h.tick hHandled hStep
  | flight i action outcome =>
    rw [pipelineStep] at hStep
    split at hStep
    · cases hStep
    · rename_i flight hGet
      split at hStep
      · cases hStep
      · rename_i next out hNext
        have hSound := h.flights flight (List.mem_of_getElem? hGet)
        obtain rfl := Option.some.inj hStep
        refine ⟨?_, h.accounted.of_perm (flight_outstanding hSound hGet hNext s.responses)⟩
        exact Bag.forall_mem_set h.flights (flightStep_sound hSound hNext) _
  | respond =>
    rw [pipelineStep] at hStep
    split at hStep
    · cases hStep
    · rename_i resp rest hResponses
      have hFiles : s.outstandingFiles.Perm
          (resp.fileId :: (airborneFiles s.flights ++ rest.map SpecialistResponse.fileId)) := by
        rw [PipelineState.outstandingFiles, hResponses, List.map_cons]
        exact List.perm_middle
      have hRemoved := (h.accounted.of_perm hFiles).removeJob List.mem_cons_self
      rw [List.erase_cons_head] at hRemoved
      obtain rfl := Option.some.inj hStep
      exact ⟨h.flights, hRemoved⟩

theorem pipeline_sound_of_reaches {maxFileToProcess : UInt32} {maxFileSizeMB : Int}
    {s : PipelineState} (h : (pipeline maxFileToProcess maxFileSizeMB).Reaches Handled s) :
    s.Sound := by
  refine Machine.Reaches.invariant (I := PipelineState.Sound) ?_
    (fun _ _ _ hs hGuard hStep => pipelineStep_sound hs hGuard hStep) h
  exact ⟨nofun, rfl, .refl _, Nat.zero_le _⟩

/-! ## No stranded job -/

theorem running_nodup (jobs : OrderedMap FileID FileJob) : (running jobs).Nodup := by
  rw [running]
  exact jobs.keys_nodup.sublist (List.filter_sublist.map Prod.fst)

theorem outstanding_eq_count (s : PipelineState) (f : FileID) :
    s.outstanding f = s.outstandingFiles.count f := by
  simp only [PipelineState.outstanding, PipelineState.outstandingFiles, airborneFiles, List.count,
    List.countP_append, List.countP_map, List.countP_filter]
  congr 1
  refine List.countP_congr ?_
  intro flight _
  simp [Bool.and_comm]

/-- In every run whose ticks meet the condition, each running job has exactly
one outstanding analysis, and an unsent flight can always move on. -/
theorem running_job_outstanding {maxFileToProcess : UInt32} {maxFileSizeMB : Int}
    {s : PipelineState} (h : (pipeline maxFileToProcess maxFileSizeMB).Reaches Handled s) :
    (∀ f job, s.worker.jobs.get? f = some job → job.isRunning = true → s.outstanding f = 1) ∧
      ∀ flight ∈ s.flights, Airborne flight = true → ∀ outcome,
        ∃ action, (flightStep outcome flight action).isSome = true := by
  have hSound := pipeline_sound_of_reaches h
  constructor
  · intro f job hGet hRunning
    rw [outstanding_eq_count, hSound.accounted.perm.count_eq]
    exact List.count_eq_one_of_mem (running_nodup _) (mem_running.mpr ⟨job, hGet, hRunning⟩)
  · intro flight hFlight hAirborne outcome
    exact flightStep_progress outcome (hSound.flights flight hFlight) (of_decide_eq_true hAirborne)

def sampleClient (mimeType : MIME) : SpecialistClient :=
  { id := "s", capabilities := [mimeType] }

def samplePipelineRun (mimeType : MIME) : List PipelineAction :=
  [.register (sampleClient mimeType), .addJob (sampleLocation "a") 1,
    .tick ["a"] (fun _ => { stat := some 1, data := some [0] })
      (fun _ => [sampleClient mimeType])]

def samplePipelineState (mimeType : MIME) (n : Nat) : PipelineState :=
  ((pipeline 1 1).exec (pipeline 1 1).start ((samplePipelineRun mimeType).take n)).getD
    (pipeline 1 1).start

theorem running_job_stranded :
    ¬ ∀ s : PipelineState, (pipeline 1 1).Reachable s →
      ∀ f job, s.worker.jobs.get? f = some job → job.isRunning = true → s.outstanding f = 1 := by
  intro hAlways
  have hRun : (pipeline 1 1).exec (pipeline 1 1).start (samplePipelineRun .audioMPEG) =
      some (samplePipelineState .audioMPEG 3) := by decide +kernel
  have hJob : ∃ job, (samplePipelineState .audioMPEG 3).worker.jobs.get? "a" = some job ∧
      job.isRunning = true := by
    refine ⟨{ driveId := "d", tmpFilePath := "a", effectiveMimeType := .applicationPDF,
              isRunning := true, createdAt := 1 }, ?_⟩
    decide +kernel
  obtain ⟨job, hGet, hRunning⟩ := hJob
  have hOne := hAlways _ (Machine.reachable_of_exec hRun) "a" job hGet hRunning
  have hNone : (samplePipelineState .audioMPEG 3).outstanding "a" = 0 := by decide +kernel
  omega

theorem running_job_outstanding_pdf :
    (samplePipelineState .applicationPDF 3).worker.jobs.countValues FileJob.isRunning = 1 ∧
      (samplePipelineState .applicationPDF 3).outstanding "a" = 1 := by
  have hFirst : (pipeline 1 1).step (pipeline 1 1).start
      (.register (sampleClient .applicationPDF)) = some (samplePipelineState .applicationPDF 1) := by
    decide +kernel
  have hSecond : (pipeline 1 1).step (samplePipelineState .applicationPDF 1)
      (.addJob (sampleLocation "a") 1) = some (samplePipelineState .applicationPDF 2) := by
    decide +kernel
  have hThird : (pipeline 1 1).step (samplePipelineState .applicationPDF 2)
      (.tick ["a"] (fun _ => { stat := some 1, data := some [0] })
        (fun _ => [sampleClient .applicationPDF])) =
      some (samplePipelineState .applicationPDF 3) := by decide +kernel
  have hHandled : Handled (samplePipelineState .applicationPDF 2)
      (.tick ["a"] (fun _ => { stat := some 1, data := some [0] })
        (fun _ => [sampleClient .applicationPDF])) := by
    intro f job hGet _ _
    have hPdf : ∀ e ∈ (samplePipelineState .applicationPDF 2).worker.jobs.entries,
        (sampleClient .applicationPDF).canHandle e.2.effectiveMimeType = true := by decide +kernel
    exact ⟨sampleClient .applicationPDF, by decide +kernel,
      hPdf (f, job) ((OrderedMap.get?_eq_some_iff _).mp hGet)⟩
  have hReaches := ((Machine.Reaches.start.step trivial hFirst).step trivial hSecond).step
    hHandled hThird
  have hJob : (samplePipelineState .applicationPDF 3).worker.jobs.get? "a" =
      some { driveId := "d", tmpFilePath := "a", effectiveMimeType := .applicationPDF,
             isRunning := true, createdAt := 1 } := by decide +kernel
  exact ⟨by decide +kernel, (running_job_outstanding hReaches).1 "a" _ hJob rfl⟩

end ChatLab.Workers

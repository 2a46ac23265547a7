import ChatLab.Sink.AnalysisSink
import ChatLab.Transfer.Integrity
import ChatLab.Workers.JobPipeline
import Mathlib.Data.List.Perm.Subperm

/-!
# Temporary files of the master

A downloaded file stays on the disk of the master until the job worker deletes
it: when the coordinator refuses the file, or after the specialists have
answered. An answer becomes an event, and the worker waits for room in the event
channel with the context in view. The locations come from the accumulator, one
for each file; a file whose transfer has failed is not on this disk. The channels
are unbounded here, which only adds interleavings.
-/

namespace ChatLab.Workers.TmpFiles

open Foundation ChatLab.Runtime Sink
open Transfer (PlainId tmpPath tmpPath_injective)

def toAnalysisMetric (results : List SpecialistResult) : List AnalysisMetric :=
  results.map fun item =>
    { id := item.id, resp := item.resp, specialistErr := item.specialistErr }

/-- The payload of the event. -/
def toEvent (driveId : String) (resp : SpecialistResponse) : AnalysisSegment where
  driveId := driveId
  fileId := resp.fileId
  metrics := toAnalysisMetric resp.res

def createFile (disk : List String) (path : String) : List String :=
  if path ∈ disk then disk else disk ++ [path]

/-- `deleteFile`, where `fault` is an error other than that of a missing file. -/
def deleteFile (disk : List String) (path : String) (fault : Bool) : List String :=
  if fault then disk else disk.erase path

def deleteFiles (faults : String → Bool) (paths disk : List String) : List String :=
  paths.foldl (fun disk path => deleteFile disk path (faults path)) disk

inductive Point
  | selecting
  -- the response is handled, the event is not yet sent
  | sending (event : AnalysisSegment)
  | returned
deriving DecidableEq

def Point.hand : Point → List AnalysisSegment
  | sending event => [event]
  | _ => []

structure State where
  pipeline : PipelineState
  cancelled : Bool
  point : Point
  locations : List TmpFileLocation
  disk : List String
  events : List AnalysisSegment
  -- what the accumulator has sent, and what became of it
  published : List TmpFileLocation
  rejected : List TmpFileLocation
  answered : List TmpFileLocation
  undeleted : List String
  lost : List AnalysisSegment
deriving DecidableEq

inductive Action
  | publish (l : TmpFileLocation)
  | receive (now : Int)
  | tick (order : List FileID) (views : FileID → FileView)
      (targetOrder : FileID → List SpecialistClient) (faults : String → Bool)
  | register (specialist : SpecialistClient)
  | flight (i : Nat) (action : FlightAction) (outcome : SpecialistClient → Outcome)
  | respond (fault : Bool)
  | send
  | cancel
  | ctxDone

def jobLocation (fileId : FileID) (job : FileJob) : TmpFileLocation where
  fileId := fileId
  driveId := job.driveId
  tmpFilePath := job.tmpFilePath
  effectiveMimeType := job.effectiveMimeType

/-- The jobs as the locations that they were made from. -/
def jobLocations (jobs : OrderedMap FileID FileJob) : List TmpFileLocation :=
  jobs.entries.map fun e => jobLocation e.1 e.2

/-- The jobs that are gone. -/
def removedJobs (before after : FileTmpJobWorker) : List TmpFileLocation :=
  (jobLocations before.jobs).diff (jobLocations after.jobs)

def step (s : State) : Action → Option State
  | .publish l => some { s with
      locations := s.locations ++ [l]
      disk := createFile s.disk l.tmpFilePath
      published := s.published ++ [l] }
  | .receive now =>
    match s.point, s.locations with
    | .selecting, l :: rest => some { s with
        pipeline := { s.pipeline with worker := addJob s.pipeline.worker l now }
        locations := rest }
    | _, _ => none
  | .tick order views targetOrder faults =>
    match s.point with
    | .selecting =>
      let deleted := (processJobs (accepts s.pipeline.coordinator views targetOrder) order
        s.pipeline.worker).deleted
      (pipelineStep s.pipeline (.tick order views targetOrder)).map fun next => { s with
        pipeline := next
        disk := deleteFiles faults deleted s.disk
        rejected := s.rejected ++ removedJobs s.pipeline.worker next.worker
        undeleted := s.undeleted ++ deleted.filter faults }
    | _ => none
  | .register specialist =>
    (pipelineStep s.pipeline (.register specialist)).map fun next => { s with pipeline := next }
  | .flight i action outcome =>
    (pipelineStep s.pipeline (.flight i action outcome)).map fun next => { s with pipeline := next }
  | .respond fault =>
    match s.point, s.pipeline.responses with
    | .selecting, resp :: rest =>
      -- without a job the path is empty and the removal finds no file
      let (worker, driveId, filePath, _) := removeJob s.pipeline.worker resp
      some { s with
        pipeline := { s.pipeline with worker := worker, responses := rest }
        point := .sending (toEvent driveId resp)
        disk := deleteFile s.disk filePath fault
        answered := s.answered ++ removedJobs s.pipeline.worker worker
        undeleted := s.undeleted ++ [filePath].filter fun _ => fault }
    | _, _ => none
  | .send =>
    match s.point with
    | .sending event => some { s with point := .selecting, events := s.events ++ [event] }
    | _ => none
  | .cancel => some { s with cancelled := true }
  | .ctxDone =>
    if s.cancelled then
      match s.point with
      | .selecting => some { s with point := .returned }
      | .sending event => some { s with point := .returned, lost := s.lost ++ [event] }
      | .returned => none
    else none

def machine (maxFileToProcess : UInt32) (maxFileSizeMB : Int) : Machine State Action where
  start :=
    { pipeline := (pipeline maxFileToProcess maxFileSizeMB).start, cancelled := false,
      point := .selecting, locations := [], disk := [], events := [], published := [],
      rejected := [], answered := [], undeleted := [], lost := [] }
  step := step

/-- The accumulator sends each file once, under the path it has made for it. -/
def Publishes (tempDir : String) (s : State) : Action → Prop
  | .publish l => PlainId l.fileId ∧ l.tmpFilePath = tmpPath tempDir l.fileId ∧
      l.fileId ∉ s.published.map TmpFileLocation.fileId
  | _ => True

instance (tempDir : String) (s : State) : (a : Action) → Decidable (Publishes tempDir s a)
  | .publish l => inferInstanceAs (Decidable (PlainId l.fileId ∧
      l.tmpFilePath = tmpPath tempDir l.fileId ∧
      l.fileId ∉ s.published.map TmpFileLocation.fileId))
  | .receive _ => inferInstanceAs (Decidable True)
  | .tick _ _ _ _ => inferInstanceAs (Decidable True)
  | .register _ => inferInstanceAs (Decidable True)
  | .flight _ _ _ => inferInstanceAs (Decidable True)
  | .respond _ => inferInstanceAs (Decidable True)
  | .send => inferInstanceAs (Decidable True)
  | .cancel => inferInstanceAs (Decidable True)
  | .ctxDone => inferInstanceAs (Decidable True)

/-! ## Jobs and their locations -/

/-- The request that the job of the file makes. -/
def locationRequest (l : TmpFileLocation) : SpecialistRequest where
  fileId := l.fileId
  path := l.tmpFilePath
  effectiveMimeType := l.effectiveMimeType

section Jobs

variable {jobs : OrderedMap FileID FileJob} {f : FileID} {job : FileJob}

theorem fileId_jobLocations (jobs : OrderedMap FileID FileJob) :
    (jobLocations jobs).map TmpFileLocation.fileId = jobs.keys := by
  rw [jobLocations, List.map_map]
  rfl

theorem jobLocations_of_get? (h : jobs.get? f = some job) :
    (jobLocations jobs).Perm (jobLocation f job :: jobLocations (jobs.erase f)) :=
  (jobs.entries_perm_of_get? h).map _

theorem jobLocations_insert (jobs : OrderedMap FileID FileJob) (f : FileID) (job : FileJob) :
    (jobLocations (jobs.insert f job)).Perm
      (jobLocation f job :: jobLocations (jobs.erase f)) :=
  (jobs.insert_entries_perm f job).map _

theorem removedJobs_perm {before after : FileTmpJobWorker} {gone : List TmpFileLocation}
    (h : (jobLocations before.jobs).Perm (jobLocations after.jobs ++ gone)) :
    (removedJobs before after).Perm gone := by
  have hKept : ∀ l ∈ jobLocations after.jobs,
      (jobLocations after.jobs).count l ≤ (jobLocations before.jobs).count l := by
    intro l _
    rw [h.count_eq, List.count_append]
    omega
  exact (List.perm_append_left_iff _).mp
    ((List.subperm_append_diff_self_of_count_le hKept).trans h)

theorem addJob_new {w : FileTmpJobWorker} {l : TmpFileLocation}
    (hGet : w.jobs.get? l.fileId = none) (now : Int) :
    (jobLocations (addJob w l now).jobs).Perm (l :: jobLocations w.jobs) ∧
      (running (addJob w l now).jobs).Perm (running w.jobs) := by
  have hLocations := jobLocations_insert w.jobs l.fileId
    { driveId := l.driveId, tmpFilePath := l.tmpFilePath,
      effectiveMimeType := l.effectiveMimeType, isRunning := false, createdAt := now }
  have hRunning := running_insert w.jobs l.fileId
    { driveId := l.driveId, tmpFilePath := l.tmpFilePath,
      effectiveMimeType := l.effectiveMimeType, isRunning := false, createdAt := now }
  rw [w.jobs.erase_eq_self hGet] at hLocations hRunning
  rw [if_neg Bool.false_ne_true] at hRunning
  rw [addJob, hGet]
  exact ⟨hLocations, hRunning⟩

theorem jobs_removeJob (w : FileTmpJobWorker) (resp : SpecialistResponse) :
    (removeJob w resp).1.jobs = w.jobs.erase resp.fileId := by
  rw [removeJob]
  split
  · rfl
  · rfl

end Jobs

/-! ## One tick -/

/-- The jobs that a tick takes away are those whose files it deletes. The jobs
that start to run are those whose broadcast was accepted. -/
structure Visited (broadcast : SpecialistRequest → Bool) (w : FileTmpJobWorker) (t : Tick) :
    Prop where
  deleted : ∃ gone, (jobLocations w.jobs).Perm (jobLocations t.worker.jobs ++ gone) ∧
    t.deleted = gone.map TmpFileLocation.tmpFilePath ∧
    ∀ l ∈ gone, broadcast (locationRequest l) = false
  running : (running t.worker.jobs).Perm (running w.jobs ++ t.accepted)
  answers : ∀ c ∈ t.calls, c.2 = broadcast c.1
  calls : t.calls.length = t.deleted.length + t.accepted.length
  idle : ∀ f job, t.worker.jobs.get? f = some job → job.isRunning = false →
    w.jobs.get? f = some job
  max_eq : t.worker.maxFileToProcess = w.maxFileToProcess

section Ticks

variable {broadcast : SpecialistRequest → Bool} {w : FileTmpJobWorker} {t : Tick}

theorem visited_idle : Visited broadcast w { worker := w, calls := [], deleted := [] } where
  deleted := ⟨[], by rw [List.append_nil], rfl, nofun⟩
  running := by rw [Tick.accepted, List.filter_nil, List.map_nil, List.append_nil]
  answers := nofun
  calls := rfl
  idle := fun _ _ hGet _ => hGet
  max_eq := rfl

theorem Visited.accept {f : FileID} {job : FileJob} {count : UInt32}
    (h : Visited broadcast
      { w with processingFileCount := count,
               jobs := w.jobs.insert f { job with isRunning := true } } t)
    (hGet : w.jobs.get? f = some job) (hIdle : job.isRunning = false)
    (hAnswer : broadcast (jobRequest f job) = true) :
    Visited broadcast w { t with calls := (jobRequest f job, true) :: t.calls } where
  deleted := by
    obtain ⟨gone, hJobs, hDeleted⟩ := h.deleted
    refine ⟨gone, ?_, hDeleted⟩
    have hSame := jobLocations_insert w.jobs f { job with isRunning := true }
    exact ((jobLocations_of_get? hGet).trans hSame.symm).trans hJobs
  running := by
    have hOld := running_of_get? hGet
    rw [hIdle, if_neg Bool.false_ne_true] at hOld
    have hNew := running_insert w.jobs f { job with isRunning := true }
    rw [if_pos rfl] at hNew
    refine h.running.trans ((hNew.append_right _).trans ?_)
    exact ((hOld.symm.cons f).append_right _).trans List.perm_middle.symm
  answers := List.forall_mem_cons.mpr ⟨hAnswer.symm, h.answers⟩
  calls := by
    have hCalls := h.calls
    simp only [Tick.accepted, List.filter_cons_of_pos, List.length_cons, List.map_cons] at hCalls ⊢
    omega
  idle := by
    intro g other hOther hWaits
    have hLater := h.idle g other hOther hWaits
    rw [OrderedMap.get?_insert] at hLater
    split at hLater
    · rw [← Option.some.inj hLater] at hWaits
      cases hWaits
    · exact hLater
  max_eq := h.max_eq

theorem Visited.reject {f : FileID} {job : FileJob} {count : UInt32}
    (h : Visited broadcast { w with processingFileCount := count, jobs := w.jobs.erase f } t)
    (hGet : w.jobs.get? f = some job) (hIdle : job.isRunning = false)
    (hAnswer : broadcast (jobRequest f job) = false) :
    Visited broadcast w
      { t with calls := (jobRequest f job, false) :: t.calls,
               deleted := job.tmpFilePath :: t.deleted } where
  deleted := by
    obtain ⟨gone, hJobs, hDeleted, hRefused⟩ := h.deleted
    refine ⟨jobLocation f job :: gone, ?_, by rw [List.map_cons, hDeleted]; rfl,
      List.forall_mem_cons.mpr ⟨hAnswer, hRefused⟩⟩
    exact (jobLocations_of_get? hGet).trans ((hJobs.cons _).trans List.perm_middle.symm)
  running := by
    have hOld := running_of_get? hGet
    rw [hIdle, if_neg Bool.false_ne_true] at hOld
    exact h.running.trans (hOld.symm.append_right _)
  answers := List.forall_mem_cons.mpr ⟨hAnswer.symm, h.answers⟩
  calls := by
    have hCalls := h.calls
    simp only [Tick.accepted, List.length_cons] at hCalls ⊢
    rw [List.filter_cons_of_neg Bool.false_ne_true]
    omega
  idle := by
    intro g other hOther hWaits
    have hLater := h.idle g other hOther hWaits
    rw [OrderedMap.get?_erase] at hLater
    split at hLater
    · cases hLater
    · exact hLater
  max_eq := h.max_eq

theorem visitJobs_visited (broadcast : SpecialistRequest → Bool) (order : List FileID)
    (nbrOfFile : UInt32) (w : FileTmpJobWorker) :
    Visited broadcast w (visitJobs broadcast order nbrOfFile w) := by
  induction order generalizing nbrOfFile w with
  | nil => exact visited_idle
  | cons f rest ih =>
    rw [visitJobs]
    split
    · exact visited_idle
    · split
      · exact ih nbrOfFile w
      · rename_i job hGet
        split
        · exact ih nbrOfFile w
        · rename_i hNotRunning
          have hIdle : job.isRunning = false := by simpa using hNotRunning
          dsimp only
          split
          · exact (ih _ _).accept hGet hIdle ‹_›
          · rename_i hAnswer
            exact (ih _ _).reject hGet hIdle (by simpa using hAnswer)

theorem processJobs_visited (broadcast : SpecialistRequest → Bool) (order : List FileID)
    (w : FileTmpJobWorker) : Visited broadcast w (processJobs broadcast order w) := by
  rw [processJobs]
  split
  · exact visited_idle
  · dsimp only
    split
    · exact visited_idle
    · exact visitJobs_visited broadcast order _ w

end Ticks

theorem launched_eq {m : Coordinator} {views : FileID → FileView}
    {targetOrder : FileID → List SpecialistClient} {req : SpecialistRequest} {flight : Flight}
    (h : launched m views targetOrder req = some flight) :
    accepts m views targetOrder req = true ∧ ∃ targets, flight = launchFlight req targets := by
  rw [launched] at h
  split at h
  · rename_i answer hCall
    subst h
    refine ⟨by rw [accepts, hCall], ?_⟩
    rw [callBroadcast, Coordinator.broadcast] at hCall
    split at hCall
    · cases hCall
    · dsimp only at hCall
      split at hCall
      · cases hCall
      · exact ⟨_, (Option.some.inj (Except.ok.inj hCall)).symm⟩
  · cases h

/-- A flight is launched for accepted broadcasts only, and not for all of them. -/
theorem launched_sublist {m : Coordinator} {views : FileID → FileView}
    {targetOrder : FileID → List SpecialistClient} {calls : List (SpecialistRequest × Bool)}
    (h : ∀ c ∈ calls, c.2 = accepts m views targetOrder c.1) :
    (airborneFiles (calls.filterMap fun c => launched m views targetOrder c.1)).Sublist
        ((calls.filter Prod.snd).map fun c => c.1.fileId) ∧
      ∀ flight ∈ calls.filterMap (fun c => launched m views targetOrder c.1), flight.Sound := by
  induction calls with
  | nil => exact ⟨.slnil, nofun⟩
  | cons c calls ih =>
    obtain ⟨hFiles, hSound⟩ := ih fun d hd => h d (List.mem_cons_of_mem _ hd)
    have hAnswer := h c List.mem_cons_self
    cases hLaunch : launched m views targetOrder c.1 with
    | none =>
      rw [List.filterMap_cons, hLaunch]
      refine ⟨hFiles.trans (List.Sublist.map _ ?_), hSound⟩
      exact (List.sublist_cons_self _ _).filter _
    | some flight =>
      obtain ⟨hAccepts, targets, rfl⟩ := launched_eq hLaunch
      rw [List.filterMap_cons, hLaunch, List.filter_cons_of_pos (hAnswer.trans hAccepts),
        List.map_cons, airborneFiles, List.filter_cons_of_pos (airborne_launchFlight _ _),
        List.map_cons]
      exact ⟨hFiles.cons_cons _, List.forall_mem_cons.mpr ⟨launchFlight_sound _ _, hSound⟩⟩

/-! ## Deleted files -/

theorem deleteFile_perm {disk rest : List String} {path : String}
    (h : disk.Perm (path :: rest)) (fault : Bool) :
    (deleteFile disk path fault).Perm (rest ++ [path].filter fun _ => fault) := by
  cases fault with
  | true => exact h.trans (List.perm_append_singleton path rest).symm
  | false =>
    have hErased := h.erase path
    rw [List.erase_cons_head] at hErased
    rw [deleteFile, if_neg Bool.false_ne_true, List.filter_false, List.append_nil]
    exact hErased

theorem deleteFiles_perm (faults : String → Bool) {paths disk rest : List String}
    (h : disk.Perm (paths ++ rest)) :
    (deleteFiles faults paths disk).Perm (rest ++ paths.filter faults) := by
  induction paths generalizing disk rest with
  | nil =>
    rw [List.filter_nil, List.append_nil]
    exact h
  | cons path paths ih =>
    have hNext : (deleteFile disk path (faults path)).Perm
        (paths ++ (rest ++ [path].filter faults)) := by
      have hCons : disk.Perm (path :: (paths ++ rest)) := h
      have hFirst := deleteFile_perm hCons (faults path)
      rwa [List.append_assoc] at hFirst
    refine (ih hNext).trans ?_
    rw [List.append_assoc, ← List.filter_append]
    rfl

/-! ## The invariant -/

def segmentOf (l : TmpFileLocation) : String × FileID := (l.driveId, l.fileId)

def segmentKey (e : AnalysisSegment) : String × FileID := (e.driveId, e.fileId)

def State.jobs (s : State) : OrderedMap FileID FileJob := s.pipeline.worker.jobs

structure State.Sound (tempDir : String) (s : State) : Prop where
  ids : (s.published.map TmpFileLocation.fileId).Nodup
  paths : ∀ l ∈ s.published, PlainId l.fileId ∧ l.tmpFilePath = tmpPath tempDir l.fileId
  conserved : (s.locations ++ jobLocations s.jobs ++ s.rejected ++ s.answered).Perm s.published
  disk : s.disk.Perm
    ((s.locations ++ jobLocations s.jobs).map TmpFileLocation.tmpFilePath ++ s.undeleted)
  undeleted : ∀ p ∈ s.undeleted, ∃ l ∈ s.rejected ++ s.answered, l.tmpFilePath = p
  events : (s.events ++ s.point.hand ++ s.lost).map segmentKey = s.answered.map segmentOf
  lost : s.lost.length ≤ 1 ∧ (s.lost ≠ [] → s.point = .returned)
  flights : ∀ flight ∈ s.pipeline.flights, flight.Sound
  outstanding : s.pipeline.outstandingFiles.Subperm (running s.jobs)

section Steps

variable {tempDir : String} {s t : State}

theorem State.Sound.lost_eq_nil (h : s.Sound tempDir) (hPoint : s.point ≠ .returned) :
    s.lost = [] := by
  by_contra hLost
  exact hPoint (h.lost.2 hLost)

/-- Every file on the disk was published. -/
theorem State.Sound.exists_published (h : s.Sound tempDir) {p : String} (hp : p ∈ s.disk) :
    ∃ l ∈ s.published, l.tmpFilePath = p := by
  have hOf : ∀ l, l ∈ s.locations ++ jobLocations s.jobs ∨ l ∈ s.rejected ++ s.answered →
      l ∈ s.published := by
    intro l hl
    refine h.conserved.mem_iff.mp ?_
    rw [List.append_assoc, List.mem_append]
    exact hl
  obtain hp | hp := List.mem_append.mp (h.disk.mem_iff.mp hp)
  · obtain ⟨l, hl, hPath⟩ := List.mem_map.mp hp
    exact ⟨l, hOf l (.inl hl), hPath⟩
  · obtain ⟨l, hl, hPath⟩ := h.undeleted p hp
    exact ⟨l, hOf l (.inr hl), hPath⟩

theorem State.Sound.publish (h : s.Sound tempDir) {l : TmpFileLocation} (hPlain : PlainId l.fileId)
    (hPath : l.tmpFilePath = tmpPath tempDir l.fileId)
    (hNew : l.fileId ∉ s.published.map TmpFileLocation.fileId) :
    State.Sound tempDir
      { s with
        locations := s.locations ++ [l]
        disk := createFile s.disk l.tmpFilePath
        published := s.published ++ [l] } := by
  have hFresh : l.tmpFilePath ∉ s.disk := by
    intro hOn
    obtain ⟨m, hm, hSame⟩ := h.exists_published hOn
    obtain ⟨hPlainM, hPathM⟩ := h.paths m hm
    rw [hPath, hPathM] at hSame
    exact hNew (tmpPath_injective tempDir hPlainM hPlain hSame ▸ List.mem_map_of_mem hm)
  refine { h with ids := ?_, paths := ?_, conserved := ?_, disk := ?_ }
  · rw [List.map_append, List.map_singleton]
    exact List.nodup_append.mpr ⟨h.ids, List.nodup_singleton _, fun a ha b hb hSame =>
      hNew (by rwa [← List.mem_singleton.mp hb, ← hSame])⟩
  · exact List.forall_mem_append.mpr
      ⟨h.paths, List.forall_mem_singleton.mpr ⟨hPlain, hPath⟩⟩
  · refine List.perm_iff_count.mpr fun x => ?_
    have hCount := h.conserved.count_eq x
    simp only [State.jobs, List.count_append] at hCount ⊢
    omega
  · rw [createFile, if_neg hFresh]
    refine List.perm_iff_count.mpr fun x => ?_
    have hCount := h.disk.count_eq x
    simp only [State.jobs, List.map_append, List.map_singleton, List.count_append] at hCount ⊢
    omega

theorem State.Sound.receive (h : s.Sound tempDir) {l : TmpFileLocation}
    {rest : List TmpFileLocation} (hLocations : s.locations = l :: rest) (now : Int) :
    State.Sound tempDir
      { s with
        pipeline := { s.pipeline with worker := addJob s.pipeline.worker l now }
        locations := rest } := by
  -- a second job of the file would be a second publication
  have hGet : s.pipeline.worker.jobs.get? l.fileId = none := by
    rw [OrderedMap.get?_eq_none_iff, ← fileId_jobLocations]
    intro hJob
    have hIds := (h.conserved.map TmpFileLocation.fileId).nodup_iff.mpr h.ids
    rw [hLocations] at hIds
    simp only [List.map_append, List.cons_append, List.map_cons, List.nodup_cons, List.mem_append,
      not_or] at hIds
    exact hIds.1.1.1.2 hJob
  obtain ⟨hJobs, hRunning⟩ := addJob_new hGet now
  have hWaiting : (s.locations ++ jobLocations s.jobs).Perm
      (rest ++ jobLocations (addJob s.pipeline.worker l now).jobs) := by
    rw [hLocations]
    exact List.perm_middle.symm.trans (hJobs.symm.append_left rest)
  refine { h with conserved := ?_, disk := ?_, outstanding := ?_ }
  · exact ((hWaiting.symm.append_right _).append_right _).trans h.conserved
  · exact h.disk.trans ((hWaiting.map _).append_right _)
  · exact h.outstanding.trans hRunning.symm.subperm

/-- Jobs leave the worker, and their files are deleted or stay as undeleted. -/
theorem State.Sound.remove (h : s.Sound tempDir) {jobs : OrderedMap FileID FileJob}
    {gone : List TmpFileLocation}
    (hGone : (jobLocations s.jobs).Perm (jobLocations jobs ++ gone)) (faults : String → Bool) :
    (deleteFiles faults (gone.map TmpFileLocation.tmpFilePath) s.disk).Perm
      ((s.locations ++ jobLocations jobs).map TmpFileLocation.tmpFilePath ++
        (s.undeleted ++ (gone.map TmpFileLocation.tmpFilePath).filter faults)) := by
  rw [← List.append_assoc]
  refine deleteFiles_perm faults (h.disk.trans ?_)
  refine List.perm_iff_count.mpr fun x => ?_
  have hCount := (hGone.map TmpFileLocation.tmpFilePath).count_eq x
  simp only [List.map_append, List.count_append] at hCount ⊢
  omega

theorem State.Sound.tick (h : s.Sound tempDir) {order : List FileID} {views : FileID → FileView}
    {targetOrder : FileID → List SpecialistClient} {next : PipelineState}
    (hStep : pipelineStep s.pipeline (.tick order views targetOrder) = some next)
    (faults : String → Bool) :
    State.Sound tempDir
      { s with
        pipeline := next
        disk := deleteFiles faults
          (processJobs (accepts s.pipeline.coordinator views targetOrder) order
            s.pipeline.worker).deleted s.disk
        rejected := s.rejected ++ removedJobs s.pipeline.worker next.worker
        undeleted := s.undeleted ++
          (processJobs (accepts s.pipeline.coordinator views targetOrder) order
            s.pipeline.worker).deleted.filter faults } := by
  have hVisited := processJobs_visited (accepts s.pipeline.coordinator views targetOrder) order
    s.pipeline.worker
  obtain ⟨gone, hJobs, hDeleted, _⟩ := hVisited.deleted
  obtain ⟨hFiles, hFlights⟩ := launched_sublist hVisited.answers
  rw [pipelineStep] at hStep
  split at hStep
  · obtain rfl := Option.some.inj hStep
    have hRemoved := removedJobs_perm hJobs
    refine { h with
      conserved := ?_, disk := ?_, undeleted := ?_, flights := ?_, outstanding := ?_ }
    · refine List.Perm.trans ?_ h.conserved
      refine List.perm_iff_count.mpr fun x => ?_
      have hGone := hRemoved.count_eq x
      have hCount := hJobs.count_eq x
      simp only [State.jobs, List.count_append] at hGone hCount ⊢
      omega
    · rw [hDeleted]
      exact h.remove hJobs faults
    · intro p hp
      obtain hp | hp := List.mem_append.mp hp
      · obtain ⟨l, hl, hPath⟩ := h.undeleted p hp
        refine ⟨l, ?_, hPath⟩
        rw [List.mem_append, List.mem_append]
        exact (List.mem_append.mp hl).imp .inl id
      · rw [hDeleted] at hp
        obtain ⟨l, hl, hPath⟩ := List.mem_map.mp (List.mem_filter.mp hp).1
        refine ⟨l, ?_, hPath⟩
        rw [List.mem_append, List.mem_append]
        exact .inl (.inr (hRemoved.mem_iff.mpr hl))
    · exact List.forall_mem_append.mpr ⟨h.flights, hFlights⟩
    · refine List.Subperm.trans ?_ hVisited.running.symm.subperm
      have hAppend := h.outstanding.append hFiles.subperm
      refine List.Subperm.trans (List.Perm.subperm ?_) hAppend
      simp only [PipelineState.outstandingFiles, airborneFiles_append, List.append_assoc]
      exact List.Perm.append_left _ List.perm_append_comm
  · cases hStep

theorem State.Sound.flight (h : s.Sound tempDir) {i : Nat} {action : FlightAction}
    {outcome : SpecialistClient → Outcome} {next : PipelineState}
    (hStep : pipelineStep s.pipeline (.flight i action outcome) = some next) :
    State.Sound tempDir { s with pipeline := next } := by
  rw [pipelineStep] at hStep
  split at hStep
  · cases hStep
  · rename_i flight hGet
    split at hStep
    · cases hStep
    · rename_i moved out hNext
      have hSound := h.flights flight (List.mem_of_getElem? hGet)
      obtain rfl := Option.some.inj hStep
      refine { h with flights := ?_, outstanding := ?_ }
      · exact Bag.forall_mem_set h.flights (flightStep_sound hSound hNext) _
      · exact (flight_outstanding hSound hGet hNext s.pipeline.responses).symm.subperm.trans
          h.outstanding

/-- The job that a response answers. -/
theorem State.Sound.job_of_response (h : s.Sound tempDir) {resp : SpecialistResponse}
    (hResp : resp ∈ s.pipeline.responses) :
    ∃ job, s.jobs.get? resp.fileId = some job ∧ job.isRunning = true := by
  refine mem_running.mp (h.outstanding.subset ?_)
  exact List.mem_append_right _ (List.mem_map_of_mem hResp)

theorem State.Sound.respond (h : s.Sound tempDir) (hPoint : s.point = .selecting)
    {resp : SpecialistResponse} {rest : List SpecialistResponse} {job : FileJob}
    (hResponses : s.pipeline.responses = resp :: rest) {worker : FileTmpJobWorker}
    (hJob : s.jobs.get? resp.fileId = some job) (hRunning : job.isRunning = true)
    (hWorker : worker.jobs = s.jobs.erase resp.fileId) (fault : Bool) :
    State.Sound tempDir
      { s with
        pipeline := { s.pipeline with worker := worker, responses := rest }
        point := .sending (toEvent job.driveId resp)
        disk := deleteFile s.disk job.tmpFilePath fault
        answered := s.answered ++ removedJobs s.pipeline.worker worker
        undeleted := s.undeleted ++ [job.tmpFilePath].filter fun _ => fault } := by
  have hGone : (jobLocations s.jobs).Perm
      (jobLocations worker.jobs ++ [jobLocation resp.fileId job]) := by
    rw [hWorker]
    exact (jobLocations_of_get? hJob).trans (List.perm_append_singleton _ _).symm
  have hRemoved : removedJobs s.pipeline.worker worker = [jobLocation resp.fileId job] :=
    List.perm_singleton.mp (removedJobs_perm hGone)
  have hLost : s.lost = [] := h.lost_eq_nil (by simp [hPoint])
  rw [hRemoved]
  refine { h with
    conserved := ?_, disk := ?_, undeleted := ?_, events := ?_, lost := ?_, outstanding := ?_ }
  · refine List.Perm.trans ?_ h.conserved
    refine List.perm_iff_count.mpr fun x => ?_
    have hCount := hGone.count_eq x
    simp only [State.jobs, List.count_append] at hCount ⊢
    omega
  · exact h.remove hGone fun _ => fault
  · intro p hp
    obtain hp | hp := List.mem_append.mp hp
    · obtain ⟨l, hl, hPath⟩ := h.undeleted p hp
      exact ⟨l, by rw [← List.append_assoc]; exact List.mem_append_left _ hl, hPath⟩
    · refine ⟨jobLocation resp.fileId job, ?_, ?_⟩
      · exact List.mem_append_right _ (List.mem_append_right _ (List.mem_singleton_self _))
      · exact (List.mem_singleton.mp (List.mem_filter.mp hp).1).symm
  · have hEvents := h.events
    rw [hPoint, hLost] at hEvents
    simp only [Point.hand, List.append_nil] at hEvents
    rw [hLost, List.append_nil, List.map_append, List.map_append, hEvents]
    rfl
  · rw [hLost]
    exact ⟨Nat.zero_le _, fun hNil => absurd rfl hNil⟩
  · have hOld := running_of_get? hJob
    rw [hRunning, if_pos rfl] at hOld
    have hCons := h.outstanding.trans hOld.subperm
    have hFirst : (resp.fileId :: (airborneFiles s.pipeline.flights ++
        rest.map SpecialistResponse.fileId)).Perm s.pipeline.outstandingFiles := by
      rw [PipelineState.outstandingFiles, hResponses, List.map_cons]
      exact List.perm_middle.symm
    rw [State.jobs, hWorker]
    exact (List.subperm_cons _).mp (hFirst.subperm.trans hCons)

theorem State.Sound.step {a : Action} (h : s.Sound tempDir) (hPublishes : Publishes tempDir s a)
    (hStep : step s a = some t) : t.Sound tempDir := by
  cases a with
  | publish l =>
    obtain ⟨hPlain, hPath, hNew⟩ := hPublishes
    cases hStep
    exact h.publish hPlain hPath hNew
  | receive now =>
    simp only [TmpFiles.step] at hStep
    split at hStep
    · rename_i hLocations
      cases hStep
      exact h.receive hLocations now
    · cases hStep
  | tick order views targetOrder faults =>
    simp only [TmpFiles.step] at hStep
    split at hStep
    · obtain ⟨next, hNext, rfl⟩ := Option.map_eq_some_iff.mp hStep
      exact h.tick hNext faults
    · cases hStep
  | register specialist =>
    cases hStep
    exact { h with }
  | flight i action outcome =>
    obtain ⟨next, hNext, rfl⟩ := Option.map_eq_some_iff.mp hStep
    exact h.flight hNext
  | respond fault =>
    simp only [TmpFiles.step] at hStep
    split at hStep
    · rename_i resp rest hPoint hResponses
      have hMem : resp ∈ s.pipeline.responses := hResponses ▸ List.mem_cons_self
      obtain ⟨job, hJob, hRunning⟩ := h.job_of_response hMem
      have hRemove : removeJob s.pipeline.worker resp = ((removeJob s.pipeline.worker resp).1,
          job.driveId, job.tmpFilePath, true) := by
        rw [State.jobs] at hJob
        simp only [removeJob, hJob]
      rw [hRemove] at hStep
      cases hStep
      exact h.respond hPoint hResponses hJob hRunning (jobs_removeJob _ resp) fault
    · cases hStep
  | send =>
    simp only [TmpFiles.step] at hStep
    split at hStep
    · rename_i event hPoint
      cases hStep
      have hLost : s.lost = [] := h.lost_eq_nil (by simp [hPoint])
      have hEvents := h.events
      rw [hPoint] at hEvents
      refine { h with events := ?_, lost := ?_ }
      · simpa only [Point.hand, List.append_nil] using hEvents
      · rw [hLost]
        exact ⟨Nat.zero_le _, fun hNil => absurd rfl hNil⟩
    · cases hStep
  | cancel =>
    cases hStep
    exact { h with }
  | ctxDone =>
    simp only [TmpFiles.step] at hStep
    split at hStep
    · split at hStep
      · rename_i hPoint
        cases hStep
        have hEvents := h.events
        rw [hPoint] at hEvents
        exact { h with events := hEvents, lost := ⟨h.lost.1, fun _ => rfl⟩ }
      · rename_i event hPoint
        cases hStep
        have hLost : s.lost = [] := h.lost_eq_nil (by simp [hPoint])
        have hEvents := h.events
        rw [hPoint, hLost] at hEvents
        refine { h with events := ?_, lost := ?_ }
        · rw [hLost]
          simpa only [Point.hand, List.append_nil, List.nil_append] using hEvents
        · rw [hLost]
          exact ⟨Nat.le_refl 1, fun _ => rfl⟩
      · cases hStep
    · cases hStep

variable {maxFileToProcess : UInt32} {maxFileSizeMB : Int}

theorem start_sound : State.Sound tempDir (machine maxFileToProcess maxFileSizeMB).start where
  ids := List.nodup_nil
  paths := nofun
  conserved := .rfl
  disk := .rfl
  undeleted := nofun
  events := rfl
  lost := ⟨Nat.zero_le _, fun hNil => absurd rfl hNil⟩
  flights := nofun
  outstanding := List.Perm.subperm .rfl

theorem sound_of_reaches
    (h : (machine maxFileToProcess maxFileSizeMB).Reaches (Publishes tempDir) s) :
    s.Sound tempDir :=
  Machine.Reaches.invariant (I := State.Sound tempDir) start_sound
    (fun _ _ _ hs hPublishes hStep => hs.step hPublishes hStep) h

/-- In every run each published file is waiting for the worker, is a job, was
rejected by the coordinator, or was answered, and it is only one of these. The
disk holds the files that wait and those of the jobs, and those that could not
be deleted. Each answered file has given one segment, under the drive it came
from, in the order of the answers; only the last one can be lost, by a worker that
returns. No response is without its job. -/
theorem tmp_files_accounted
    (h : (machine maxFileToProcess maxFileSizeMB).Reaches (Publishes tempDir) s) :
    (s.locations ++ jobLocations s.jobs ++ s.rejected ++ s.answered).Perm s.published ∧
      (s.published.map TmpFileLocation.fileId).Nodup ∧
      s.disk.Perm ((s.locations ++ jobLocations s.jobs).map TmpFileLocation.tmpFilePath ++
        s.undeleted) ∧
      (s.events ++ s.point.hand ++ s.lost).map segmentKey = s.answered.map segmentOf ∧
      (s.lost.length ≤ 1 ∧ (s.lost ≠ [] → s.point = .returned)) ∧
      ∀ resp ∈ s.pipeline.responses,
        ∃ job, s.jobs.get? resp.fileId = some job ∧ job.isRunning = true := by
  have hSound := sound_of_reaches h
  exact ⟨hSound.conserved, hSound.ids, hSound.disk, hSound.events, hSound.lost,
    fun _ hResp => hSound.job_of_response hResp⟩

end Steps

def pdfLocation (fileId : FileID) : TmpFileLocation where
  fileId := fileId
  driveId := "d"
  tmpFilePath := tmpPath "/t" fileId
  effectiveMimeType := .applicationPDF

/-- A file is published and broadcast to the one specialist. -/
def broadcastRun : List Action :=
  [.register (sampleClient .applicationPDF), .publish (pdfLocation "a"), .receive 1,
    .tick ["a"] (fun _ => { stat := some 1, data := some [0] })
      (fun _ => [sampleClient .applicationPDF]) (fun _ => false)]

def answeredRun : List Action :=
  broadcastRun ++
    [.launch 0, .capture, .spawn 0, .analyze 0, .load 0, .append 0 0, .store 0, .done 0, .send].map
      (fun action => Action.flight 0 action fun _ => .error "unavailable") ++
    [.respond false, .send]

def answeredState : State := ((machine 1 1).restrict (Publishes "/t")).after answeredRun

theorem tmp_files_accounted_answered :
    answeredState.events.map segmentKey = [("d", "a")] ∧ answeredState.disk = [] := by
  have hRun : answeredState.locations = [] ∧ jobLocations answeredState.jobs = [] ∧
      answeredState.undeleted = [] ∧ answeredState.point.hand = [] ∧ answeredState.lost = [] ∧
      answeredState.answered = [pdfLocation "a"] := by decide +kernel
  obtain ⟨hLocations, hJobs, hUndeleted, hHand, hLost, hAnswered⟩ := hRun
  obtain ⟨_, _, hDisk, hEvents, _⟩ := tmp_files_accounted
    (Machine.reaches_after_restrict (machine 1 1) (Publishes "/t") answeredRun)
  change answeredState.disk.Perm ((answeredState.locations ++
    jobLocations answeredState.jobs).map _ ++ answeredState.undeleted) at hDisk
  change (answeredState.events ++ answeredState.point.hand ++ answeredState.lost).map segmentKey =
    answeredState.answered.map segmentOf at hEvents
  rw [hLocations, hJobs, hUndeleted] at hDisk
  rw [hHand, hLost, List.append_nil, List.append_nil, hAnswered] at hEvents
  exact ⟨hEvents, List.perm_nil.mp hDisk⟩

end ChatLab.Workers.TmpFiles

import ChatLab.Foundation.Machine
import ChatLab.Foundation.OrderedMap
import ChatLab.Specialist

/-!
# Jobs over temporary files

The worker keeps a map of jobs and a counter of the slots it has given out.
A tick visits the map in an order the runtime chooses and asks the coordinator
to broadcast; the coordinator's answers are an argument here. Deleted paths
and calls are recorded as output. What the specialists do, and whether an
accepted broadcast is ever answered, is outside this module.
-/

namespace ChatLab.Workers

open Foundation

structure TmpFileLocation where
  fileId : FileID
  driveId : String
  tmpFilePath : String
  effectiveMimeType : MIME
deriving DecidableEq

structure FileJob where
  driveId : String
  tmpFilePath : String
  effectiveMimeType : MIME
  isRunning : Bool
  createdAt : Int
deriving DecidableEq

structure FileTmpJobWorker where
  maxFileToProcess : UInt32
  processingFileCount : UInt32
  jobs : OrderedMap FileID FileJob
deriving DecidableEq

def newFileTmpJobWorker (maxFileToProcess : UInt32) : FileTmpJobWorker :=
  { maxFileToProcess := maxFileToProcess, processingFileCount := 0, jobs := .empty }

def addJob (w : FileTmpJobWorker) (l : TmpFileLocation) (now : Int) : FileTmpJobWorker :=
  match w.jobs.get? l.fileId with
  | some _ => w
  | none =>
    let job : FileJob :=
      { driveId := l.driveId, tmpFilePath := l.tmpFilePath,
        effectiveMimeType := l.effectiveMimeType, isRunning := false, createdAt := now }
    { w with jobs := w.jobs.insert l.fileId job }

def jobRequest (fileId : FileID) (job : FileJob) : SpecialistRequest :=
  { fileId := fileId, path := job.tmpFilePath, effectiveMimeType := job.effectiveMimeType }

structure Tick where
  worker : FileTmpJobWorker
  calls : List (SpecialistRequest × Bool)
  deleted : List String
deriving DecidableEq

def visitJobs (broadcast : SpecialistRequest → Bool) :
    List FileID → UInt32 → FileTmpJobWorker → Tick
  | [], _, w => { worker := w, calls := [], deleted := [] }
  | fileId :: rest, nbrOfFile, w =>
    if nbrOfFile = 0 then { worker := w, calls := [], deleted := [] }
    else
      match w.jobs.get? fileId with
      | none => visitJobs broadcast rest nbrOfFile w
      | some job =>
        if job.isRunning then visitJobs broadcast rest nbrOfFile w
        else
          let request := jobRequest fileId job
          let count := w.processingFileCount + 1
          if broadcast request then
            let tick := visitJobs broadcast rest (nbrOfFile - 1)
              { w with processingFileCount := count,
                       jobs := w.jobs.insert fileId { job with isRunning := true } }
            { tick with calls := (request, true) :: tick.calls }
          else
            let tick := visitJobs broadcast rest nbrOfFile
              { w with processingFileCount := count - 1, jobs := w.jobs.erase fileId }
            { tick with calls := (request, false) :: tick.calls,
                        deleted := job.tmpFilePath :: tick.deleted }

def processJobs (broadcast : SpecialistRequest → Bool) (order : List FileID)
    (w : FileTmpJobWorker) : Tick :=
  if w.jobs.entries = [] then { worker := w, calls := [], deleted := [] }
  else
    let nbrOfFile := w.maxFileToProcess - w.processingFileCount
    if nbrOfFile ≤ 0 then { worker := w, calls := [], deleted := [] }
    else visitJobs broadcast order nbrOfFile w

/-- `removeJob` with its three results; the counter is lowered for any response. -/
def removeJob (w : FileTmpJobWorker) (resp : SpecialistResponse) :
    FileTmpJobWorker × String × String × Bool :=
  let job := w.jobs.get? resp.fileId
  let w' := { w with
    jobs := w.jobs.erase resp.fileId,
    processingFileCount :=
      if w.processingFileCount > 0 then w.processingFileCount - 1 else w.processingFileCount }
  match job with
  | none => (w', "", "", false)
  | some job => (w', job.driveId, job.tmpFilePath, true)

/-! ## Accounting -/

def running (jobs : OrderedMap FileID FileJob) : List FileID :=
  (jobs.entries.filter fun e => e.2.isRunning).map Prod.fst

theorem length_running (jobs : OrderedMap FileID FileJob) :
    (running jobs).length = jobs.countValues FileJob.isRunning := by
  rw [running, List.length_map, ← List.countP_eq_length_filter]
  rfl

theorem running_insert (jobs : OrderedMap FileID FileJob) (f : FileID) (job : FileJob) :
    (running (jobs.insert f job)).Perm
      (if job.isRunning then f :: running (jobs.erase f) else running (jobs.erase f)) := by
  refine (((jobs.insert_entries_perm f job).filter _).map Prod.fst).trans ?_
  rw [List.filter_cons]
  split
  · exact .refl _
  · exact .refl _

theorem running_of_get? {jobs : OrderedMap FileID FileJob} {f : FileID} {job : FileJob}
    (h : jobs.get? f = some job) :
    (running jobs).Perm
      (if job.isRunning then f :: running (jobs.erase f) else running (jobs.erase f)) := by
  refine (((jobs.entries_perm_of_get? h).filter _).map Prod.fst).trans ?_
  rw [List.filter_cons]
  split
  · exact .refl _
  · exact .refl _

theorem mem_running {jobs : OrderedMap FileID FileJob} {f : FileID} :
    f ∈ running jobs ↔ ∃ job, jobs.get? f = some job ∧ job.isRunning = true := by
  rw [running, List.mem_map]
  constructor
  · rintro ⟨⟨k, job⟩, hEntry, rfl⟩
    obtain ⟨hMem, hRunning⟩ := List.mem_filter.mp hEntry
    exact ⟨job, jobs.get?_eq_some_iff.mpr hMem, hRunning⟩
  · rintro ⟨job, hGet, hRunning⟩
    exact ⟨(f, job), List.mem_filter.mpr ⟨jobs.get?_eq_some_iff.mp hGet, hRunning⟩, rfl⟩

structure Accounted (w : FileTmpJobWorker) (unanswered : List FileID) : Prop where
  count_eq : w.processingFileCount.toNat = unanswered.length
  perm : unanswered.Perm (running w.jobs)
  le_max : unanswered.length ≤ w.maxFileToProcess.toNat

theorem Accounted.not_mem {w : FileTmpJobWorker} {unanswered : List FileID}
    (h : Accounted w unanswered) {f : FileID} {job : FileJob} (hGet : w.jobs.get? f = some job)
    (hIdle : job.isRunning = false) : f ∉ unanswered := by
  intro hMem
  obtain ⟨job', hGet', hRunning⟩ := mem_running.mp (h.perm.mem_iff.mp hMem)
  obtain rfl := Option.some.inj (hGet.symm.trans hGet')
  rw [hIdle] at hRunning
  cases hRunning

theorem Accounted.accept {w : FileTmpJobWorker} {unanswered : List FileID}
    (h : Accounted w unanswered) {f : FileID} {job : FileJob} (hGet : w.jobs.get? f = some job)
    (hIdle : job.isRunning = false) (hSlot : unanswered.length < w.maxFileToProcess.toNat) :
    Accounted { w with processingFileCount := w.processingFileCount + 1,
                       jobs := w.jobs.insert f { job with isRunning := true } }
      (unanswered ++ [f]) where
  count_eq := by
    have hMax := w.maxFileToProcess.toNat_lt
    rw [UInt32.toNat_add, h.count_eq, List.length_append, List.length_singleton, UInt32.toNat_one]
    exact Nat.mod_eq_of_lt (by omega)
  perm := by
    have hOld := running_of_get? hGet
    rw [hIdle, if_neg Bool.false_ne_true] at hOld
    have hNew := running_insert w.jobs f { job with isRunning := true }
    rw [if_pos rfl] at hNew
    exact (List.perm_append_singleton f unanswered).trans
      (((h.perm.trans hOld).cons f).trans hNew.symm)
  le_max := by
    rw [List.length_append, List.length_singleton]
    exact hSlot

theorem Accounted.reject {w : FileTmpJobWorker} {unanswered : List FileID}
    (h : Accounted w unanswered) {f : FileID} {job : FileJob} (hGet : w.jobs.get? f = some job)
    (hIdle : job.isRunning = false) :
    Accounted { w with processingFileCount := w.processingFileCount + 1 - 1,
                       jobs := w.jobs.erase f } unanswered where
  count_eq := by
    rw [UInt32.add_sub_cancel]
    exact h.count_eq
  perm := by
    have hOld := running_of_get? hGet
    rw [hIdle, if_neg Bool.false_ne_true] at hOld
    exact h.perm.trans hOld
  le_max := h.le_max

theorem Accounted.removeJob {w : FileTmpJobWorker} {unanswered : List FileID}
    (h : Accounted w unanswered) {resp : SpecialistResponse} (hMem : resp.fileId ∈ unanswered) :
    Accounted (Workers.removeJob w resp).1 (unanswered.erase resp.fileId) := by
  obtain ⟨job, hGet, hRunning⟩ := mem_running.mp (h.perm.mem_iff.mp hMem)
  have hLength := List.length_erase_of_mem hMem
  have hPos := List.length_pos_of_mem hMem
  have hCount := h.count_eq
  simp only [Workers.removeJob, hGet]
  refine ⟨?_, ?_, ?_⟩
  · have hSome : w.processingFileCount > 0 := by
      rw [gt_iff_lt, UInt32.lt_iff_toNat_lt, UInt32.toNat_zero]
      omega
    have hOne : (1 : UInt32) ≤ w.processingFileCount := by
      rw [UInt32.le_iff_toNat_le, UInt32.toNat_one]
      omega
    rw [if_pos hSome, UInt32.toNat_sub_of_le _ _ hOne, UInt32.toNat_one]
    omega
  · have hOld := running_of_get? hGet
    rw [hRunning, if_pos rfl] at hOld
    have hErase := (h.perm.trans hOld).erase resp.fileId
    rwa [List.erase_cons_head] at hErase
  · have hMax := h.le_max
    change (unanswered.erase resp.fileId).length ≤ w.maxFileToProcess.toNat
    omega

theorem Accounted.addJob {w : FileTmpJobWorker} {unanswered : List FileID}
    (h : Accounted w unanswered) (l : TmpFileLocation) (now : Int) :
    Accounted (Workers.addJob w l now) unanswered := by
  rw [Workers.addJob]
  split
  · exact h
  · rename_i hGet
    refine ⟨h.count_eq, ?_, h.le_max⟩
    have hNew := running_insert w.jobs l.fileId
      { driveId := l.driveId, tmpFilePath := l.tmpFilePath,
        effectiveMimeType := l.effectiveMimeType, isRunning := false, createdAt := now }
    rw [if_neg Bool.false_ne_true, w.jobs.erase_eq_self hGet] at hNew
    exact h.perm.trans hNew.symm

/-! ## One tick -/

def Tick.called (t : Tick) : List FileID := t.calls.map fun c => c.1.fileId

def Tick.accepted (t : Tick) : List FileID := (t.calls.filter Prod.snd).map fun c => c.1.fileId

def PendingCall (broadcast : SpecialistRequest → Bool) (w : FileTmpJobWorker)
    (c : SpecialistRequest × Bool) : Prop :=
  c.2 = broadcast c.1 ∧ ∃ job, w.jobs.get? c.1.fileId = some job ∧ job.isRunning = false ∧
    c.1 = jobRequest c.1.fileId job

structure TickSpec (broadcast : SpecialistRequest → Bool) (w : FileTmpJobWorker)
    (unanswered order : List FileID) (t : Tick) : Prop where
  max_eq : t.worker.maxFileToProcess = w.maxFileToProcess
  accounted : Accounted t.worker (unanswered ++ t.accepted)
  visited : ∀ f ∈ t.called, f ∈ order
  answered : ∀ f ∈ t.called, f ∉ unanswered
  once : t.called.Nodup
  pending : ∀ c ∈ t.calls, PendingCall broadcast w c

section Ticks

variable {broadcast : SpecialistRequest → Bool} {w w' : FileTmpJobWorker}
  {unanswered order : List FileID} {t : Tick}

theorem tickSpec_idle (h : Accounted w unanswered) :
    TickSpec broadcast w unanswered order { worker := w, calls := [], deleted := [] } where
  max_eq := rfl
  accounted := by simpa [Tick.accepted] using h
  visited := by simp [Tick.called]
  answered := by simp [Tick.called]
  once := List.Pairwise.nil
  pending := by simp

theorem TickSpec.skip (h : TickSpec broadcast w unanswered order t) (f : FileID) :
    TickSpec broadcast w unanswered (f :: order) t :=
  { h with visited := fun g hg => List.mem_cons_of_mem _ (h.visited g hg) }

theorem TickSpec.pending_of_jobs (h : TickSpec broadcast w' unanswered order t) {f : FileID}
    (hOrder : f ∉ order) (hJobs : ∀ g, g ≠ f → w'.jobs.get? g = w.jobs.get? g) :
    ∀ c ∈ t.calls, PendingCall broadcast w c := by
  intro c hc
  obtain ⟨hAnswer, job, hGet, hIdle, hRequest⟩ := h.pending c hc
  have hOther : c.1.fileId ≠ f := by
    rintro rfl
    exact hOrder (h.visited _ (List.mem_map_of_mem hc))
  exact ⟨hAnswer, job, (hJobs _ hOther).symm.trans hGet, hIdle, hRequest⟩

theorem TickSpec.accept {f : FileID} {job : FileJob}
    (h : TickSpec broadcast
      { w with processingFileCount := w.processingFileCount + 1,
               jobs := w.jobs.insert f { job with isRunning := true } }
      (unanswered ++ [f]) order t)
    (hGet : w.jobs.get? f = some job) (hIdle : job.isRunning = false) (hNew : f ∉ unanswered)
    (hOrder : f ∉ order) (hAnswer : broadcast (jobRequest f job) = true) :
    TickSpec broadcast w unanswered (f :: order)
      { t with calls := (jobRequest f job, true) :: t.calls } where
  max_eq := h.max_eq
  accounted := by
    have hAccounted := h.accounted
    rwa [List.append_assoc, List.singleton_append] at hAccounted
  visited := List.forall_mem_cons.mpr
    ⟨List.mem_cons_self, fun g hg => List.mem_cons_of_mem _ (h.visited g hg)⟩
  answered := List.forall_mem_cons.mpr
    ⟨hNew, fun g hg hOld => h.answered g hg (List.mem_append_left _ hOld)⟩
  once := List.nodup_cons.mpr ⟨fun hAgain => hOrder (h.visited _ hAgain), h.once⟩
  pending := List.forall_mem_cons.mpr ⟨⟨hAnswer.symm, job, hGet, hIdle, rfl⟩,
    h.pending_of_jobs hOrder fun _ hOther => w.jobs.get?_insert_of_ne _ hOther⟩

theorem TickSpec.reject {f : FileID} {job : FileJob}
    (h : TickSpec broadcast
      { w with processingFileCount := w.processingFileCount + 1 - 1, jobs := w.jobs.erase f }
      unanswered order t)
    (hGet : w.jobs.get? f = some job) (hIdle : job.isRunning = false) (hNew : f ∉ unanswered)
    (hOrder : f ∉ order) (hAnswer : broadcast (jobRequest f job) = false) :
    TickSpec broadcast w unanswered (f :: order)
      { t with calls := (jobRequest f job, false) :: t.calls,
               deleted := job.tmpFilePath :: t.deleted } where
  max_eq := h.max_eq
  accounted := h.accounted
  visited := List.forall_mem_cons.mpr
    ⟨List.mem_cons_self, fun g hg => List.mem_cons_of_mem _ (h.visited g hg)⟩
  answered := List.forall_mem_cons.mpr ⟨hNew, h.answered⟩
  once := List.nodup_cons.mpr ⟨fun hAgain => hOrder (h.visited _ hAgain), h.once⟩
  pending := List.forall_mem_cons.mpr ⟨⟨hAnswer.symm, job, hGet, hIdle, rfl⟩,
    h.pending_of_jobs hOrder fun _ hOther => w.jobs.get?_erase_of_ne hOther⟩

end Ticks

/-- The loop gives out a slot only while one is free, so slots taken and slots
left add up to the maximum at every visit. -/
theorem visitJobs_spec (broadcast : SpecialistRequest → Bool) {order : List FileID}
    (hOrder : order.Nodup) {nbrOfFile : UInt32} {w : FileTmpJobWorker} {unanswered : List FileID}
    (h : Accounted w unanswered)
    (hRoom : nbrOfFile.toNat + unanswered.length = w.maxFileToProcess.toNat) :
    TickSpec broadcast w unanswered order (visitJobs broadcast order nbrOfFile w) := by
  induction order generalizing nbrOfFile w unanswered with
  | nil => exact tickSpec_idle h
  | cons f rest ih =>
    obtain ⟨hFirst, hRest⟩ := List.nodup_cons.mp hOrder
    rw [visitJobs]
    split
    · exact tickSpec_idle h
    · rename_i hFree
      have hFreeNat : nbrOfFile.toNat ≠ 0 := fun h0 => hFree (UInt32.toNat_inj.mp h0)
      split
      · exact (ih hRest h hRoom).skip f
      · rename_i job hGet
        split
        · exact (ih hRest h hRoom).skip f
        · rename_i hNotRunning
          have hIdle : job.isRunning = false := by simpa using hNotRunning
          have hNew := h.not_mem hGet hIdle
          dsimp only
          split
          · rename_i hAnswer
            have hOne : (1 : UInt32) ≤ nbrOfFile := by
              rw [UInt32.le_iff_toNat_le, UInt32.toNat_one]
              omega
            have hLess : (nbrOfFile - 1).toNat + (unanswered ++ [f]).length =
                w.maxFileToProcess.toNat := by
              rw [UInt32.toNat_sub_of_le _ _ hOne, UInt32.toNat_one, List.length_append,
                List.length_singleton]
              omega
            have hTick := ih hRest (h.accept hGet hIdle (by omega)) hLess
            exact hTick.accept hGet hIdle hNew hFirst hAnswer
          · rename_i hAnswer
            have hTick := ih hRest (h.reject hGet hIdle) hRoom
            exact hTick.reject hGet hIdle hNew hFirst (by simpa using hAnswer)

theorem processJobs_spec (broadcast : SpecialistRequest → Bool) {order : List FileID}
    (hOrder : order.Nodup) {w : FileTmpJobWorker} {unanswered : List FileID}
    (h : Accounted w unanswered) :
    TickSpec broadcast w unanswered order (processJobs broadcast order w) := by
  rw [processJobs]
  split
  · exact tickSpec_idle h
  · dsimp only
    split
    · exact tickSpec_idle h
    · refine visitJobs_spec broadcast hOrder h ?_
      have hCount := h.count_eq
      have hMax := h.le_max
      rw [UInt32.toNat_sub_of_le _ _ ?_]
      · omega
      · rw [UInt32.le_iff_toNat_le]
        omega

/-! ## Runs -/

structure JobState where
  worker : FileTmpJobWorker
  unanswered : List FileID

inductive JobAction
  | addJob (l : TmpFileLocation) (now : Int)
  | processJobs (order : List FileID) (broadcast : SpecialistRequest → Bool)
  | respond (resp : SpecialistResponse)

/-- A tick visits every key once, in any order. A response answers one earlier
broadcast that succeeded. -/
def jobStep (s : JobState) : JobAction → Option JobState
  | .addJob l now => some { s with worker := addJob s.worker l now }
  | .processJobs order broadcast =>
    if order.Perm s.worker.jobs.keys then
      let tick := processJobs broadcast order s.worker
      some { worker := tick.worker, unanswered := s.unanswered ++ tick.accepted }
    else none
  | .respond resp =>
    if resp.fileId ∈ s.unanswered then
      some { worker := (removeJob s.worker resp).1,
             unanswered := s.unanswered.erase resp.fileId }
    else none

def jobMachine (maxFileToProcess : UInt32) : Machine JobState JobAction where
  start := { worker := newFileTmpJobWorker maxFileToProcess, unanswered := [] }
  step := jobStep

structure JobState.Sound (maxFileToProcess : UInt32) (s : JobState) : Prop where
  max_eq : s.worker.maxFileToProcess = maxFileToProcess
  accounted : Accounted s.worker s.unanswered

theorem jobStep_sound {maxFileToProcess : UInt32} {s t : JobState} {action : JobAction}
    (h : s.Sound maxFileToProcess) (hStep : jobStep s action = some t) :
    t.Sound maxFileToProcess := by
  cases action with
  | addJob l now =>
    cases hStep
    refine ⟨?_, h.accounted.addJob l now⟩
    rw [addJob]
    split
    · exact h.max_eq
    · exact h.max_eq
  | processJobs order broadcast =>
    rw [jobStep] at hStep
    split at hStep
    · rename_i hOrder
      have hNodup := hOrder.nodup_iff.mpr s.worker.jobs.keys_nodup
      have hTick := processJobs_spec broadcast hNodup h.accounted
      cases hStep
      exact ⟨hTick.max_eq.trans h.max_eq, hTick.accounted⟩
    · cases hStep
  | respond resp =>
    rw [jobStep] at hStep
    split at hStep
    · rename_i hMem
      cases hStep
      refine ⟨?_, h.accounted.removeJob hMem⟩
      rw [removeJob]
      dsimp only
      split
      · exact h.max_eq
      · exact h.max_eq
    · cases hStep

theorem jobs_sound_of_reachable {maxFileToProcess : UInt32} {s : JobState}
    (h : (jobMachine maxFileToProcess).Reachable s) : s.Sound maxFileToProcess := by
  refine Machine.Reachable.invariant (I := JobState.Sound maxFileToProcess) ⟨rfl, ?_⟩
    (fun _ _ _ hs hStep => jobStep_sound hs hStep) h
  exact ⟨rfl, .refl _, Nat.zero_le _⟩

/-- In every state between calls the counter is the number of running jobs and
within the maximum, the capacity subtraction does not wrap, and a tick never
broadcasts a file whose earlier broadcast is unanswered. -/
theorem capacity_accounting {maxFileToProcess : UInt32} {s : JobState}
    (h : (jobMachine maxFileToProcess).Reachable s) :
    s.worker.processingFileCount.toNat = s.worker.jobs.countValues FileJob.isRunning ∧
      s.worker.maxFileToProcess = maxFileToProcess ∧
      s.worker.processingFileCount ≤ maxFileToProcess ∧
      (maxFileToProcess - s.worker.processingFileCount).toNat =
        maxFileToProcess.toNat - s.worker.processingFileCount.toNat ∧
      ∀ order broadcast, order.Perm s.worker.jobs.keys →
        (processJobs broadcast order s.worker).called.Nodup ∧
          ∀ f ∈ (processJobs broadcast order s.worker).called, f ∉ s.unanswered := by
  obtain ⟨hMax, hAccounted⟩ := jobs_sound_of_reachable h
  have hCount := hAccounted.count_eq
  have hLe : s.worker.processingFileCount ≤ maxFileToProcess := by
    have hBound := hAccounted.le_max
    rw [hMax] at hBound
    rw [UInt32.le_iff_toNat_le]
    omega
  refine ⟨?_, hMax, hLe, UInt32.toNat_sub_of_le _ _ hLe, ?_⟩
  · rw [hCount, hAccounted.perm.length_eq, length_running]
  · intro order broadcast hOrder
    have hNodup := hOrder.nodup_iff.mpr s.worker.jobs.keys_nodup
    have hTick := processJobs_spec broadcast hNodup hAccounted
    exact ⟨hTick.once, hTick.answered⟩

def sampleLocation (fileId : FileID) : TmpFileLocation :=
  { fileId := fileId, driveId := "d", tmpFilePath := fileId, effectiveMimeType := .applicationPDF }

def sampleJobRun : List JobAction :=
  [.addJob (sampleLocation "a") 1, .addJob (sampleLocation "b") 2,
    .processJobs ["b", "a"] (fun _ => true)]

theorem capacity_accounting_oneSlot :
    ∃ s, (jobMachine 1).Reachable s ∧ s.worker.jobs.countValues FileJob.isRunning = 1 ∧
      s.worker.processingFileCount.toNat = 1 := by
  obtain ⟨s, hs⟩ : ∃ s, (jobMachine 1).exec (jobMachine 1).start sampleJobRun = some s :=
    Option.isSome_iff_exists.mp (by decide +kernel)
  have hReachable := Machine.reachable_of_exec hs
  have hOne : ∀ t ∈ (jobMachine 1).exec (jobMachine 1).start sampleJobRun,
      t.worker.jobs.countValues FileJob.isRunning = 1 := by decide +kernel
  have hRunning := hOne s hs
  exact ⟨s, hReachable, hRunning, (capacity_accounting hReachable).1.trans hRunning⟩

end ChatLab.Workers

import ChatLab.Runtime.Exits
import ChatLab.Workers.FileTransfer

/-!
# All workers of the master

`Orchestrator.Start` gives the supervisor the pool, moderation and fan-out
workers, for which the server's machine stands, and six workers that run once
each: telemetry, channel capacity, health monitoring, file transfer,
downloader and tmp-job. Each of the six is followed here from one wait to the
next.

What a worker does between two waits is left out where it neither waits nor
returns: the handlers of an event, the jobs of the tmp-job worker, the
processes under watch. A download ends at any time, as its stream does with
the context. `MarkAsProcessing` answers what is drawn with the batch, so that
no later choice of the store lets a worker go. `Stop` does not close the
request channel, and the telemetry channel is known by its length.
-/

namespace ChatLab.Runtime

open Foundation Foundation.Transactions Sink Storage Transfer Workers

/-- The goroutine of a worker: about to look at the context, which it also does
after a crash, at a point of `Run`, or at its end. -/
inductive Stage (β : Type)
  | starting
  | inRun (point : β)
  | returned

namespace Stage

variable {β : Type}

/-- `Supervisor.Start` looks at the context and calls `Run`, which may crash at
once: `time.NewTicker` panics unless the interval is positive. -/
def enter (done crashes : Bool) (first : β) : Stage β → Option (Stage β)
  | starting => some (if done then returned else if crashes then starting else inRun first)
  | _ => none

def isRunning : Stage β → Bool
  | inRun _ => true
  | _ => false

end Stage

/-! ## Where a worker waits -/

inductive TelemetryPoint
  | selecting
  | taking

/-- At the outer `select`, or at the inner one with so many entries to follow. -/
inductive ReporterPoint
  | selecting
  | reporting (left : Nat)

def ReporterPoint.next : Nat → ReporterPoint
  | 0 => .selecting
  | n + 1 => .reporting n

/-- The tasks of a batch, each with the answer of `MarkAsProcessing`. -/
abbrev Batch := List (FileTask × Except (TxnError TaskError) Unit)

def Batch.requests (batch : Batch) : List FileDownloaderRequest :=
  batch.filterMap fun p => dispatch p.1 p.2

inductive TransferPoint
  | selecting
  | dispatching (rest : Batch)
  | sending (req : FileDownloaderRequest) (rest : Batch)

inductive DownloaderPoint
  | selecting
  | downloading (req : FileDownloaderRequest)

inductive TmpJobPoint
  | selecting
  | forwarding (segment : AnalysisSegment)

structure MasterState where
  server : ServerState
  telemetryChan : Nat
  telemetry : Stage TelemetryPoint
  channelCapacity : Stage ReporterPoint
  healthMonitoring : Stage ReporterPoint
  fileRequestChan : List FileDownloaderRequest
  fileTransfer : Stage TransferPoint
  fileDownloader : Stage DownloaderPoint
  fileTmpJob : Stage TmpJobPoint

def MasterState.ctxDone (s : MasterState) : Bool := s.server.phase.ctxDone

inductive TelemetryAction
  | enter
  | tick
  | take
  | done

inductive ReporterAction
  | enter
  | tick (entries : Nat)
  | report
  | skip
  | done

inductive TransferAction
  | enter
  | done
  | fetch (batch : Batch)
  | next
  | send
  | hand

inductive DownloaderAction
  | enter
  | done
  | receive
  | finish

inductive TmpJobAction
  | enter
  | done
  | response (segment : AnalysisSegment)
  | forward
  | abandon

inductive MasterAction
  | server (a : ServerAction)
  | observe
  | telemetry (a : TelemetryAction)
  | channelCapacity (a : ReporterAction)
  | healthMonitoring (a : ReporterAction)
  | fileTransfer (a : TransferAction)
  | fileDownloader (a : DownloaderAction)
  | fileTmpJob (a : TmpJobAction)

/-! ## The loops -/

/-- The channels that the channel-capacity worker reports. -/
def channelNames : List String :=
  ["EventChan", "ModerationChan", "TelemetryChan", "ProcessTrackerChan", "FileRequestChan",
    "TmpFileLocation", "SpecialistResponse", "GlobalCommands"]

/-- `Run` of the channel-capacity and of the health-monitoring worker, with the
number of events sent. The branch for a full channel is taken only while the
context is alive. -/
def reporterStep (crashes done room : Bool) (w : Stage ReporterPoint) :
    ReporterAction → Option (Stage ReporterPoint × Nat)
  | .enter => (w.enter done crashes .selecting).map fun next => (next, 0)
  | .tick entries =>
    match w with
    | .inRun .selecting => some (.inRun (.next entries), 0)
    | _ => none
  | .report =>
    match w with
    | .inRun (.reporting left) =>
      if room then some (.inRun (.next left), 1)
      else if done then none
      else some (.inRun (.next left), 0)
    | _ => none
  | .skip =>
    match w with
    | .inRun (.reporting left) => some (.inRun (.next left), 0)
    | _ => none
  | .done =>
    match w with
    | .inRun _ => if done then some (.returned, 0) else none
    | _ => none

structure Master where
  orchestrator : Orchestrator
  bufferSize : Nat
  metricInterval : Int
  pendingFileBatchSize : Int
  fileTransferInterval : Int
  fileTmpJobInterval : Int

namespace Master

variable (m : Master)

/-- `TelemetryWorker.Run`. Neither of the two branches for the context returns. -/
def telemetryStep (s : MasterState) : TelemetryAction → Option MasterState
  | .enter => (s.telemetry.enter s.ctxDone (m.metricInterval ≤ 0) .selecting).map fun w =>
      { s with telemetry := w }
  | .tick =>
    match s.telemetry with
    | .inRun .selecting => some { s with telemetry := .inRun .taking }
    | _ => none
  | .take =>
    match s.telemetry, s.telemetryChan with
    | .inRun .taking, n + 1 => some { s with telemetry := .inRun .selecting, telemetryChan := n }
    | _, _ => none
  | .done =>
    match s.telemetry with
    | .inRun _ => if s.ctxDone then some { s with telemetry := .inRun .selecting } else none
    | _ => none

def reporter (s : MasterState) (w : Stage ReporterPoint) (a : ReporterAction) :
    Option (Stage ReporterPoint × Nat) :=
  reporterStep (m.metricInterval ≤ 0) s.ctxDone (s.telemetryChan < m.bufferSize) w a

def channelCapacityStep (s : MasterState) (a : ReporterAction) : Option MasterState :=
  (m.reporter s s.channelCapacity a).map fun r =>
    { s with channelCapacity := r.1, telemetryChan := s.telemetryChan + r.2 }

def healthMonitoringStep (s : MasterState) (a : ReporterAction) : Option MasterState :=
  (m.reporter s s.healthMonitoring a).map fun r =>
    { s with healthMonitoring := r.1, telemetryChan := s.telemetryChan + r.2 }

/-- `FileTransferWorker.Run`. Its send waits for the channel alone: a buffered
request, or with `hand` the downloader takes it at once. -/
def fileTransferStep (s : MasterState) : TransferAction → Option MasterState
  | .enter => (s.fileTransfer.enter s.ctxDone (m.fileTransferInterval ≤ 0) .selecting).map fun w =>
      { s with fileTransfer := w }
  | .done =>
    match s.fileTransfer with
    | .inRun .selecting => if s.ctxDone then some { s with fileTransfer := .returned } else none
    | _ => none
  | .fetch batch =>
    match s.fileTransfer with
    | .inRun .selecting =>
      if batch.length ≤ m.pendingFileBatchSize.toNat then
        some { s with fileTransfer := .inRun (.dispatching batch) }
      else none
    | _ => none
  | .next =>
    match s.fileTransfer with
    | .inRun (.dispatching []) => some { s with fileTransfer := .inRun .selecting }
    | .inRun (.dispatching ((task, answer) :: rest)) =>
      match dispatch task answer with
      | none => some { s with fileTransfer := .inRun (.dispatching rest) }
      | some req => some { s with fileTransfer := .inRun (.sending req rest) }
    | _ => none
  | .send =>
    match s.fileTransfer with
    | .inRun (.sending req rest) =>
      if s.fileRequestChan.length < m.bufferSize then
        some { s with
          fileTransfer := .inRun (.dispatching rest)
          fileRequestChan := s.fileRequestChan ++ [req] }
      else none
    | _ => none
  | .hand =>
    match s.fileTransfer, s.fileDownloader, s.fileRequestChan with
    | .inRun (.sending req rest), .inRun .selecting, [] => some { s with
        fileTransfer := .inRun (.dispatching rest)
        fileDownloader := .inRun (.downloading req) }
    | _, _, _ => none

/-- `FileDownloaderMasterWorker.Run`. -/
def fileDownloaderStep (s : MasterState) : DownloaderAction → Option MasterState
  | .enter => (s.fileDownloader.enter s.ctxDone false .selecting).map fun w =>
      { s with fileDownloader := w }
  | .done =>
    match s.fileDownloader with
    | .inRun .selecting => if s.ctxDone then some { s with fileDownloader := .returned } else none
    | _ => none
  | .receive =>
    match s.fileDownloader, s.fileRequestChan with
    | .inRun .selecting, req :: rest => some { s with
        fileDownloader := .inRun (.downloading req)
        fileRequestChan := rest }
    | _, _ => none
  | .finish =>
    match s.fileDownloader with
    | .inRun (.downloading _) => some { s with fileDownloader := .inRun .selecting }
    | _ => none

/-- `FileTmpJobWorker.Run`. A send to the closed event channel panics and the
supervisor, who sees the context done, does not restart the worker. -/
def fileTmpJobStep (s : MasterState) : TmpJobAction → Option MasterState
  | .enter => (s.fileTmpJob.enter s.ctxDone (m.fileTmpJobInterval ≤ 0) .selecting).map fun w =>
      { s with fileTmpJob := w }
  | .done =>
    match s.fileTmpJob with
    | .inRun .selecting => if s.ctxDone then some { s with fileTmpJob := .returned } else none
    | _ => none
  | .response segment =>
    match s.fileTmpJob with
    | .inRun .selecting => some { s with fileTmpJob := .inRun (.forwarding segment) }
    | _ => none
  | .forward =>
    match s.fileTmpJob with
    | .inRun (.forwarding segment) =>
      match m.orchestrator.step s.server (.client (.respond segment)) with
      | some server => some { s with server := server, fileTmpJob := .inRun .selecting }
      | none => some { s with fileTmpJob := .returned }
    | _ => none
  | .abandon =>
    match s.fileTmpJob with
    | .inRun (.forwarding _) => if s.ctxDone then some { s with fileTmpJob := .returned } else none
    | _ => none

def step (s : MasterState) : MasterAction → Option MasterState
  -- the answers of the specialists come from the tmp-job worker
  | .server (.client (.respond _)) => none
  | .server a => (m.orchestrator.step s.server a).map fun server => { s with server := server }
  -- an event of a fan-out worker or of the supervisor
  | .observe =>
    if s.telemetryChan < m.bufferSize then some { s with telemetryChan := s.telemetryChan + 1 }
    else none
  | .telemetry a => m.telemetryStep s a
  -- every entry is a channel, so that none is skipped
  | .channelCapacity .skip => none
  | .channelCapacity (.tick entries) =>
    if entries = channelNames.length then m.channelCapacityStep s (.tick entries) else none
  | .channelCapacity a => m.channelCapacityStep s a
  | .healthMonitoring a => m.healthMonitoringStep s a
  | .fileTransfer a => m.fileTransferStep s a
  | .fileDownloader a => fileDownloaderStep s a
  | .fileTmpJob a => m.fileTmpJobStep s a

def machine : Machine MasterState MasterAction where
  start :=
    { server := m.orchestrator.machine.start, telemetryChan := 0, telemetry := .starting,
      channelCapacity := .starting, healthMonitoring := .starting, fileRequestChan := [],
      fileTransfer := .starting, fileDownloader := .starting, fileTmpJob := .starting }
  step := m.step

/-! ## What a step does -/

/-- The steps with what they change. Of the workers that never wait for a peer
only the points are told apart that matter to the others. -/
inductive Steps (s : MasterState) : MasterState → Prop
  | server (a : ServerAction) (server : ServerState) :
      m.orchestrator.step s.server a = some server → Steps s { s with server := server }
  | observe : Steps s { s with telemetryChan := s.telemetryChan + 1 }
  | telemetry (w : Stage TelemetryPoint) (n : Nat) :
      (s.telemetry.isRunning = true → w.isRunning = true) →
      Steps s { s with telemetry := w, telemetryChan := n }
  | channelCapacity (w : Stage ReporterPoint) (n : Nat) :
      Steps s { s with channelCapacity := w, telemetryChan := n }
  | healthMonitoring (w : Stage ReporterPoint) (n : Nat) :
      Steps s { s with healthMonitoring := w, telemetryChan := n }
  | enterTransfer (w : Stage TransferPoint) : s.fileTransfer = .starting →
      Steps s { s with fileTransfer := w }
  | transferDone : s.fileTransfer = .inRun .selecting → s.ctxDone = true →
      Steps s { s with fileTransfer := .returned }
  | fetch (batch : Batch) : s.fileTransfer = .inRun .selecting →
      batch.length ≤ m.pendingFileBatchSize.toNat →
      Steps s { s with fileTransfer := .inRun (.dispatching batch) }
  | dispatched : s.fileTransfer = .inRun (.dispatching []) →
      Steps s { s with fileTransfer := .inRun .selecting }
  | refused (task : FileTask) (answer : Except (TxnError TaskError) Unit) (rest : Batch) :
      s.fileTransfer = .inRun (.dispatching ((task, answer) :: rest)) →
      dispatch task answer = none → Steps s { s with fileTransfer := .inRun (.dispatching rest) }
  | marked (task : FileTask) (answer : Except (TxnError TaskError) Unit) (rest : Batch)
      (req : FileDownloaderRequest) :
      s.fileTransfer = .inRun (.dispatching ((task, answer) :: rest)) →
      dispatch task answer = some req →
      Steps s { s with fileTransfer := .inRun (.sending req rest) }
  | send (req : FileDownloaderRequest) (rest : Batch) :
      s.fileTransfer = .inRun (.sending req rest) → s.fileRequestChan.length < m.bufferSize →
      Steps s { s with
        fileTransfer := .inRun (.dispatching rest)
        fileRequestChan := s.fileRequestChan ++ [req] }
  | hand (req : FileDownloaderRequest) (rest : Batch) :
      s.fileTransfer = .inRun (.sending req rest) → s.fileDownloader = .inRun .selecting →
      s.fileRequestChan = [] →
      Steps s { s with
        fileTransfer := .inRun (.dispatching rest)
        fileDownloader := .inRun (.downloading req) }
  | enterDownloader (w : Stage DownloaderPoint) :
      s.fileDownloader.enter s.ctxDone false .selecting = some w →
      Steps s { s with fileDownloader := w }
  | downloaderDone : s.fileDownloader = .inRun .selecting → s.ctxDone = true →
      Steps s { s with fileDownloader := .returned }
  | receive (req : FileDownloaderRequest) (rest : List FileDownloaderRequest) :
      s.fileDownloader = .inRun .selecting → s.fileRequestChan = req :: rest →
      Steps s { s with fileDownloader := .inRun (.downloading req), fileRequestChan := rest }
  | finish (req : FileDownloaderRequest) : s.fileDownloader = .inRun (.downloading req) →
      Steps s { s with fileDownloader := .inRun .selecting }
  | tmpJob (w : Stage TmpJobPoint) : Steps s { s with fileTmpJob := w }
  | forward (segment : AnalysisSegment) (server : ServerState) :
      m.orchestrator.step s.server (.client (.respond segment)) = some server →
      Steps s { s with server := server, fileTmpJob := .inRun .selecting }

variable {m} {s t : MasterState}

theorem telemetryStep_steps {a : TelemetryAction} (h : m.telemetryStep s a = some t) :
    m.Steps s t := by
  cases a with
  | enter =>
    obtain ⟨w, hEnter, rfl⟩ := Option.map_eq_some_iff.mp h
    refine .telemetry w s.telemetryChan fun hRunning => ?_
    cases hStage : s.telemetry with
    | inRun point => rw [hStage] at hEnter; cases hEnter
    | starting => rw [hStage] at hRunning; cases hRunning
    | returned => rw [hStage] at hRunning; cases hRunning
  | tick =>
    simp only [telemetryStep] at h
    split at h
    · cases h
      exact .telemetry _ s.telemetryChan fun _ => rfl
    · cases h
  | take =>
    simp only [telemetryStep] at h
    split at h
    · cases h
      exact .telemetry _ _ fun _ => rfl
    · cases h
  | done =>
    simp only [telemetryStep] at h
    split at h
    · split at h
      · cases h
        exact .telemetry _ s.telemetryChan fun _ => rfl
      · cases h
    · cases h

theorem fileTransferStep_steps {a : TransferAction} (h : m.fileTransferStep s a = some t) :
    m.Steps s t := by
  cases a with
  | enter =>
    obtain ⟨w, hEnter, rfl⟩ := Option.map_eq_some_iff.mp h
    refine .enterTransfer w ?_
    cases hStage : s.fileTransfer with
    | starting => rfl
    | inRun point => rw [hStage] at hEnter; cases hEnter
    | returned => rw [hStage] at hEnter; cases hEnter
  | done =>
    simp only [fileTransferStep] at h
    split at h
    · split at h
      · cases h
        exact .transferDone ‹_› ‹_›
      · cases h
    · cases h
  | fetch batch =>
    simp only [fileTransferStep] at h
    split at h
    · split at h
      · cases h
        exact .fetch batch ‹_› ‹_›
      · cases h
    · cases h
  | next =>
    simp only [fileTransferStep] at h
    split at h
    · cases h
      exact .dispatched ‹_›
    · split at h
      · cases h
        exact .refused _ _ _ ‹_› ‹_›
      · cases h
        exact .marked _ _ _ _ ‹_› ‹_›
    · cases h
  | send =>
    simp only [fileTransferStep] at h
    split at h
    · split at h
      · cases h
        exact .send _ _ ‹_› ‹_›
      · cases h
    · cases h
  | hand =>
    simp only [fileTransferStep] at h
    split at h
    · cases h
      exact .hand _ _ ‹_› ‹_› ‹_›
    · cases h

theorem fileDownloaderStep_steps {a : DownloaderAction} (h : fileDownloaderStep s a = some t) :
    m.Steps s t := by
  cases a with
  | enter =>
    obtain ⟨w, hEnter, rfl⟩ := Option.map_eq_some_iff.mp h
    exact .enterDownloader w hEnter
  | done =>
    simp only [fileDownloaderStep] at h
    split at h
    · split at h
      · cases h
        exact .downloaderDone ‹_› ‹_›
      · cases h
    · cases h
  | receive =>
    simp only [fileDownloaderStep] at h
    split at h
    · cases h
      exact .receive _ _ ‹_› ‹_›
    · cases h
  | finish =>
    simp only [fileDownloaderStep] at h
    split at h
    · cases h
      exact .finish _ ‹_›
    · cases h

theorem fileTmpJobStep_steps {a : TmpJobAction} (h : m.fileTmpJobStep s a = some t) :
    m.Steps s t := by
  cases a with
  | enter =>
    obtain ⟨w, _, rfl⟩ := Option.map_eq_some_iff.mp h
    exact .tmpJob w
  | forward =>
    simp only [fileTmpJobStep] at h
    split at h
    · split at h
      · cases h
        exact .forward _ _ ‹_›
      · cases h
        exact .tmpJob _
    · cases h
  | response segment =>
    simp only [fileTmpJobStep] at h
    split at h
    · cases h
      exact .tmpJob _
    · cases h
  | done | abandon =>
    simp only [fileTmpJobStep] at h
    split at h
    · split at h
      · cases h
        exact .tmpJob _
      · cases h
    · cases h

theorem channelCapacityStep_steps {a : ReporterAction} (h : m.channelCapacityStep s a = some t) :
    m.Steps s t := by
  obtain ⟨r, _, rfl⟩ := Option.map_eq_some_iff.mp h
  exact .channelCapacity r.1 _

theorem healthMonitoringStep_steps {a : ReporterAction}
    (h : m.healthMonitoringStep s a = some t) : m.Steps s t := by
  obtain ⟨r, _, rfl⟩ := Option.map_eq_some_iff.mp h
  exact .healthMonitoring r.1 _

theorem steps_of_step {a : MasterAction} (h : m.step s a = some t) : m.Steps s t := by
  simp only [step] at h
  split at h
  · cases h
  · obtain ⟨server, hServer, rfl⟩ := Option.map_eq_some_iff.mp h
    exact .server _ server hServer
  · split at h
    · cases h
      exact .observe
    · cases h
  · exact telemetryStep_steps h
  · cases h
  · split at h
    · exact channelCapacityStep_steps h
    · cases h
  · exact channelCapacityStep_steps h
  · exact healthMonitoringStep_steps h
  · exact fileTransferStep_steps h
  · exact fileDownloaderStep_steps h
  · exact fileTmpJobStep_steps h

/-- The server within the master runs as it does alone. -/
theorem server_reachable (h : m.machine.Reachable s) :
    m.orchestrator.machine.Reachable s.server := by
  refine Machine.Reachable.invariant
    (I := fun s : MasterState => m.orchestrator.machine.Reachable s.server) ?_ ?_ h
  · exact Machine.Reaches.start
  · intro s a t hs hStep
    cases steps_of_step hStep with
    | server a server hServer => exact hs.next hServer
    | forward segment server hServer =>
      exact Machine.Reachable.next (a := .client (.respond segment)) hs hServer
    | _ => exact hs

end Master

end ChatLab.Runtime

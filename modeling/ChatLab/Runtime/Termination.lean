import ChatLab.Runtime.Master

/-!
# Whether `Supervisor.Run` returns

`wg.Wait` is released when the goroutine of every worker has returned. After
`Stop` two things keep one from it for ever: the telemetry worker has no branch
that leaves its loop, and the file transfer worker sends without looking at the
context, so that it waits for a downloader that may have left before it. A
state without the two can be brought to its end, with the downloader serving
the transfer worker first; no fairness is assumed, so that this is the most
that can be said.
-/

namespace ChatLab.Runtime

open Foundation Sink Storage Transfer Workers

/-- The requests that the file transfer worker still has to place before it
looks at the context. -/
def TransferPoint.needed : TransferPoint → Nat
  | .selecting => 0
  | .dispatching rest => rest.requests.length
  | .sending _ rest => rest.requests.length + 1

def Stage.needed : Stage TransferPoint → Nat
  | .inRun point => point.needed
  | _ => 0

inductive Worker
  | pool
  | moderation
  | fanout
  | telemetry
  | channelCapacity
  | healthMonitoring
  | fileTransfer
  | fileDownloader
  | fileTmpJob
deriving DecidableEq

/-- All goroutines of the kind have returned. -/
def MasterState.Returned (s : MasterState) : Worker → Prop
  | .pool => s.server.pool.AllExited
  | .moderation => s.server.moderation.AllExited
  | .fanout => s.server.fanout.AllExited
  | .telemetry => s.telemetry = .returned
  | .channelCapacity => s.channelCapacity = .returned
  | .healthMonitoring => s.healthMonitoring = .returned
  | .fileTransfer => s.fileTransfer = .returned
  | .fileDownloader => s.fileDownloader = .returned
  | .fileTmpJob => s.fileTmpJob = .returned

namespace Master

variable (m : Master)

/-- The goroutines of the kind have returned after some further steps. -/
def CanReturn (s : MasterState) (w : Worker) : Prop := ∃ t, m.machine.Leads s t ∧ t.Returned w

/-- `wg.Wait` is released after some further steps. -/
def CanComplete (s : MasterState) : Prop := ∃ t, m.machine.Leads s t ∧ ∀ w, t.Returned w

/-- The telemetry worker is not in its loop, and what the file transfer worker
has to send is received or fits into the channel. -/
structure Free (s : MasterState) : Prop where
  telemetry : s.telemetry.isRunning = false
  transfer : s.fileDownloader.isRunning = true ∨
    s.fileTransfer.needed ≤ m.bufferSize - s.fileRequestChan.length

instance (s : MasterState) : Decidable (m.Free s) :=
  decidable_of_iff (s.telemetry.isRunning = false ∧ (s.fileDownloader.isRunning = true ∨
      s.fileTransfer.needed ≤ m.bufferSize - s.fileRequestChan.length))
    ⟨fun ⟨h₁, h₂⟩ => ⟨h₁, h₂⟩, fun h => ⟨h.telemetry, h.transfer⟩⟩

/-! ## What stays -/

section Stuck

variable {m} {s t : MasterState}

theorem telemetry_stays (hRunning : s.telemetry.isRunning = true) (h : m.Steps s t) :
    t.telemetry.isRunning = true := by
  cases h with
  | telemetry w n hKeeps => exact hKeeps hRunning
  | _ => exact hRunning

theorem ctxDone_stays (hDone : s.ctxDone = true) (h : m.Steps s t) : t.ctxDone = true := by
  have hServer : ∀ {a : ServerAction} {server : ServerState},
      m.orchestrator.step s.server a = some server → server.phase.ctxDone = true := by
    intro a server hStep
    cases Orchestrator.steps_of_step hStep with
    | stop phase hNext =>
      cases hPhase : s.server.phase <;> rw [hPhase] at hNext <;> cases hNext <;> rfl
    | _ => exact hDone
  cases h with
  | server a server hStep => exact hServer hStep
  | forward segment server hStep => exact hServer hStep
  | _ => exact hDone

/-- The context is done, the downloader will not read any more, and the channel
has not room for all that is to be sent. -/
structure Stranded (s : MasterState) : Prop where
  ctxDone : s.ctxDone = true
  downloader : s.fileDownloader.isRunning = false
  needed : m.bufferSize - s.fileRequestChan.length < s.fileTransfer.needed

theorem Stranded.steps (h : m.Stranded s) (hStep : m.Steps s t) : m.Stranded t := by
  have hDone := ctxDone_stays h.ctxDone hStep
  have hNeeded := h.needed
  have hAway := h.downloader
  cases hStep with
  | enterTransfer w hStage | transferDone hStage _ | fetch batch hStage _ | dispatched hStage =>
    rw [hStage] at hNeeded
    exact absurd hNeeded (Nat.not_lt_zero _)
  | refused task answer rest hStage hRefused =>
    rw [hStage] at hNeeded
    refine ⟨hDone, hAway, ?_⟩
    simpa [Stage.needed, TransferPoint.needed, Batch.requests, hRefused] using hNeeded
  | marked task answer rest req hStage hMarked =>
    rw [hStage] at hNeeded
    refine ⟨hDone, hAway, ?_⟩
    simpa [Stage.needed, TransferPoint.needed, Batch.requests, hMarked] using hNeeded
  | send req rest hStage hRoom =>
    rw [hStage] at hNeeded
    refine ⟨hDone, hAway, ?_⟩
    simp only [Stage.needed, TransferPoint.needed, List.length_append, List.length_singleton]
      at hNeeded ⊢
    omega
  | hand req rest _ hStage _ | downloaderDone hStage _ | receive req rest hStage _
  | finish req hStage =>
    rw [hStage] at hAway
    cases hAway
  | enterDownloader w hEnter =>
    rw [h.ctxDone] at hEnter
    refine ⟨hDone, ?_, hNeeded⟩
    cases hStage : s.fileDownloader with
    | starting => rw [hStage] at hEnter; cases hEnter; rfl
    | inRun point => rw [hStage] at hEnter; cases hEnter
    | returned => rw [hStage] at hEnter; cases hEnter
  | _ => exact ⟨hDone, hAway, hNeeded⟩

theorem not_canReturn_of_stranded (h : m.Stranded s) : ¬ m.CanReturn s .fileTransfer := by
  rintro ⟨t, hLeads, hReturned⟩
  have hEnd := hLeads.invariant (fun _ _ _ hs hStep => hs.steps (steps_of_step hStep)) h
  have hNeeded := hEnd.needed
  rw [hReturned] at hNeeded
  exact absurd hNeeded (Nat.not_lt_zero _)

theorem not_canReturn_of_telemetry (h : s.telemetry.isRunning = true) :
    ¬ m.CanReturn s .telemetry := by
  rintro ⟨t, hLeads, hReturned⟩
  have hEnd := hLeads.invariant (I := fun s : MasterState => s.telemetry.isRunning = true)
    (fun _ _ _ hs hStep => telemetry_stays hs (steps_of_step hStep)) h
  rw [hReturned] at hEnd
  cases hEnd

theorem free_of_canReturn (hDone : s.ctxDone = true) (h : ∀ w, m.CanReturn s w) : m.Free s := by
  refine ⟨?_, ?_⟩
  · by_contra hRunning
    exact not_canReturn_of_telemetry (eq_true_of_ne_false hRunning) (h .telemetry)
  · by_contra hAway
    rw [not_or, Bool.not_eq_true, Nat.not_le] at hAway
    exact not_canReturn_of_stranded ⟨hDone, hAway.1, hAway.2⟩ (h .fileTransfer)

end Stuck

/-! ## Coming to the end -/

end Master

def Stage.work {β : Type} (point : β → Nat) : Stage β → Nat
  | .starting => 1
  | .inRun p => point p
  | .returned => 0

@[simp]
theorem Stage.work_returned {β : Type} (point : β → Nat) :
    (Stage.returned : Stage β).work point = 0 :=
  rfl

theorem Stage.work_pos {β : Type} {w : Stage β} (h : w ≠ .returned) :
    0 < w.work fun _ => 1 := by
  cases w with
  | returned => exact absurd rfl h
  | starting => exact Nat.one_pos
  | inRun point => exact Nat.one_pos

def TransferPoint.work : TransferPoint → Nat
  | .selecting => 1
  | .dispatching rest => 2 + 6 * rest.length
  | .sending _ rest => 7 + 6 * rest.length

def DownloaderPoint.work : DownloaderPoint → Nat
  | .selecting => 1
  | .downloading _ => 2

/-- What is left until every goroutine has returned. A request costs two steps
of the downloader. -/
def MasterState.work (s : MasterState) : Nat :=
  s.server.work + s.telemetry.work (fun _ => 1) + s.channelCapacity.work (fun _ => 1) +
    s.healthMonitoring.work (fun _ => 1) + s.fileTransfer.work TransferPoint.work +
    s.fileDownloader.work DownloaderPoint.work + 2 * s.fileRequestChan.length +
    s.fileTmpJob.work fun _ => 1

namespace Master

section Ends

variable {m : Master} {s : MasterState}

structure Clearing (m : Master) (s : MasterState) : Prop where
  server : s.server.Stopped
  free : m.Free s

/-- A step that gets the goroutines nearer to their return. -/
def Closer (m : Master) (s : MasterState) : Prop :=
  ∃ a t, m.step s a = some t ∧ m.Clearing t ∧ t.work < s.work

theorem Clearing.ctxDone (h : m.Clearing s) : s.ctxDone = true := by
  rw [MasterState.ctxDone, h.server.phase]
  rfl

/-- The transfer worker waits at a full channel: the downloader makes room or
takes the request itself. -/
theorem closer_of_full (h : m.Clearing s) {req : FileDownloaderRequest} {rest : Batch}
    (hTransfer : s.fileTransfer = .inRun (.sending req rest))
    (hFull : ¬ s.fileRequestChan.length < m.bufferSize) : m.Closer s := by
  have hRunning : s.fileDownloader.isRunning = true := by
    refine h.free.transfer.resolve_right ?_
    rw [hTransfer, Stage.needed, TransferPoint.needed]
    omega
  cases hDownloader : s.fileDownloader with
  | starting => rw [hDownloader] at hRunning; cases hRunning
  | returned => rw [hDownloader] at hRunning; cases hRunning
  | inRun point =>
    cases point with
    | downloading other =>
      refine ⟨.fileDownloader .finish, { s with fileDownloader := .inRun .selecting }, ?_,
        ⟨h.server, h.free.telemetry, Or.inl rfl⟩, ?_⟩
      · simp [step, fileDownloaderStep, hDownloader]
      · simp [MasterState.work, hDownloader, Stage.work, DownloaderPoint.work]
    | selecting =>
      cases hQueue : s.fileRequestChan with
      | nil =>
        refine ⟨.fileTransfer .hand, { s with
          fileTransfer := .inRun (.dispatching rest)
          fileDownloader := .inRun (.downloading req) }, ?_,
          ⟨h.server, h.free.telemetry, Or.inl rfl⟩, ?_⟩
        · simp [step, fileTransferStep, hTransfer, hDownloader, hQueue]
        · simp only [MasterState.work, hTransfer, hDownloader, Stage.work, TransferPoint.work,
            DownloaderPoint.work]
          omega
      | cons first queue =>
        refine ⟨.fileDownloader .receive, { s with
          fileDownloader := .inRun (.downloading first)
          fileRequestChan := queue }, ?_, ⟨h.server, h.free.telemetry, Or.inl rfl⟩, ?_⟩
        · simp [step, fileDownloaderStep, hDownloader, hQueue]
        · simp only [MasterState.work, hDownloader, hQueue, Stage.work, DownloaderPoint.work,
            List.length_cons]
          omega

/-- A step of the transfer worker alone, which does not add to its requests. -/
theorem closer_of_transferMove (h : m.Clearing s) {a : TransferAction} {w : Stage TransferPoint}
    (hStep : m.fileTransferStep s a = some { s with fileTransfer := w })
    (hNeeded : w.needed ≤ s.fileTransfer.needed)
    (hLess : w.work TransferPoint.work < s.fileTransfer.work TransferPoint.work) :
    m.Closer s := by
  refine ⟨.fileTransfer a, { s with fileTransfer := w }, hStep,
    ⟨h.server, h.free.telemetry, ?_⟩, ?_⟩
  · exact h.free.transfer.imp_right fun hFits => Nat.le_trans hNeeded hFits
  · simp only [MasterState.work]
    omega

theorem closer_of_dispatching (h : m.Clearing s) {batch : Batch}
    (hStage : s.fileTransfer = .inRun (.dispatching batch)) : m.Closer s := by
  cases batch with
  | nil =>
    apply closer_of_transferMove h (a := .next) (w := .inRun .selecting)
    · simp [fileTransferStep, hStage]
    · exact Nat.zero_le _
    · simp [hStage, Stage.work, TransferPoint.work]
  | cons first rest =>
    obtain ⟨task, answer⟩ := first
    cases hAnswer : dispatch task answer with
    | none =>
      apply closer_of_transferMove h (a := .next) (w := .inRun (.dispatching rest))
      · simp [fileTransferStep, hStage, hAnswer]
      · simp [hStage, Stage.needed, TransferPoint.needed, Batch.requests, hAnswer]
      · simp [hStage, Stage.work, TransferPoint.work]
    | some req =>
      apply closer_of_transferMove h (a := .next) (w := .inRun (.sending req rest))
      · simp [fileTransferStep, hStage, hAnswer]
      · simp [hStage, Stage.needed, TransferPoint.needed, Batch.requests, hAnswer]
      · simp only [hStage, Stage.work, TransferPoint.work, List.length_cons]
        omega

theorem closer_of_sending (h : m.Clearing s) {req : FileDownloaderRequest} {rest : Batch}
    (hStage : s.fileTransfer = .inRun (.sending req rest)) : m.Closer s := by
  by_cases hRoom : s.fileRequestChan.length < m.bufferSize
  · have hTransfer := h.free.transfer
    rw [hStage] at hTransfer
    refine ⟨.fileTransfer .send, { s with
      fileTransfer := .inRun (.dispatching rest)
      fileRequestChan := s.fileRequestChan ++ [req] }, ?_,
      ⟨h.server, h.free.telemetry, hTransfer.imp_right fun hFits => ?_⟩, ?_⟩
    · simp [step, fileTransferStep, hStage, hRoom]
    · simp only [Stage.needed, TransferPoint.needed, List.length_append,
        List.length_singleton] at hFits ⊢
      omega
    · simp only [MasterState.work, hStage, Stage.work, TransferPoint.work, List.length_append,
        List.length_singleton]
      omega
  · exact closer_of_full h hStage hRoom

theorem closer_of_transfer (h : m.Clearing s) (hLeft : s.fileTransfer ≠ .returned) :
    m.Closer s := by
  cases hStage : s.fileTransfer with
  | returned => exact absurd hStage hLeft
  | starting =>
    apply closer_of_transferMove h (a := .enter) (w := .returned)
    · simp [fileTransferStep, hStage, Stage.enter, h.ctxDone]
    · exact Nat.zero_le _
    · simp [hStage, Stage.work]
  | inRun point =>
    cases point with
    | selecting =>
      apply closer_of_transferMove h (a := .done) (w := .returned)
      · simp [fileTransferStep, hStage, h.ctxDone]
      · exact Nat.zero_le _
      · simp [hStage, Stage.work, TransferPoint.work]
    | dispatching batch => exact closer_of_dispatching h hStage
    | sending req rest => exact closer_of_sending h hStage

/-- The downloader may leave once the transfer worker has. -/
theorem closer_of_downloader (h : m.Clearing s) (hTransfer : s.fileTransfer = .returned)
    (hLeft : s.fileDownloader ≠ .returned) : m.Closer s := by
  have hNone : s.fileTransfer.needed ≤ m.bufferSize - s.fileRequestChan.length := by
    rw [hTransfer]
    exact Nat.zero_le _
  cases hStage : s.fileDownloader with
  | returned => exact absurd hStage hLeft
  | starting =>
    refine ⟨.fileDownloader .enter, { s with fileDownloader := .returned }, ?_,
      ⟨h.server, h.free.telemetry, Or.inr hNone⟩, ?_⟩
    · simp [step, fileDownloaderStep, hStage, Stage.enter, h.ctxDone]
    · simp [MasterState.work, hStage, Stage.work]
  | inRun point =>
    cases point with
    | selecting =>
      refine ⟨.fileDownloader .done, { s with fileDownloader := .returned }, ?_,
        ⟨h.server, h.free.telemetry, Or.inr hNone⟩, ?_⟩
      · simp [step, fileDownloaderStep, hStage, h.ctxDone]
      · simp [MasterState.work, hStage, Stage.work, DownloaderPoint.work]
    | downloading req =>
      refine ⟨.fileDownloader .finish, { s with fileDownloader := .inRun .selecting }, ?_,
        ⟨h.server, h.free.telemetry, Or.inr hNone⟩, ?_⟩
      · simp [step, fileDownloaderStep, hStage]
      · simp [MasterState.work, hStage, Stage.work, DownloaderPoint.work]

theorem closer_of_tmpJob (h : m.Clearing s) (hLeft : s.fileTmpJob ≠ .returned) : m.Closer s := by
  have hRest : m.Clearing { s with fileTmpJob := .returned } :=
    ⟨h.server, h.free.telemetry, h.free.transfer⟩
  cases hStage : s.fileTmpJob with
  | returned => exact absurd hStage hLeft
  | starting =>
    refine ⟨.fileTmpJob .enter, _, ?_, hRest, ?_⟩
    · simp [step, fileTmpJobStep, hStage, Stage.enter, h.ctxDone]
    · simp [MasterState.work, hStage, Stage.work]
  | inRun point =>
    cases point with
    | selecting =>
      refine ⟨.fileTmpJob .done, _, ?_, hRest, ?_⟩
      · simp [step, fileTmpJobStep, hStage, h.ctxDone]
      · simp [MasterState.work, hStage, Stage.work]
    | forwarding segment =>
      refine ⟨.fileTmpJob .abandon, _, ?_, hRest, ?_⟩
      · simp [step, fileTmpJobStep, hStage, h.ctxDone]
      · simp [MasterState.work, hStage, Stage.work]

/-- A worker that only reports leaves at every `select`. -/
theorem exists_reporterStep (crashes room : Bool) {w : Stage ReporterPoint} (h : w ≠ .returned) :
    ∃ a, (∀ n, a ≠ .tick n) ∧ a ≠ .skip ∧
      reporterStep crashes true room w a = some (.returned, 0) := by
  cases w with
  | returned => exact absurd rfl h
  | starting => exact ⟨.enter, nofun, nofun, rfl⟩
  | inRun point => exact ⟨.done, nofun, nofun, rfl⟩

theorem closer_of_channelCapacity (h : m.Clearing s) (hLeft : s.channelCapacity ≠ .returned) :
    m.Closer s := by
  obtain ⟨a, hTick, hSkip, hStep⟩ := exists_reporterStep (m.metricInterval ≤ 0)
    (s.telemetryChan < m.bufferSize) hLeft
  refine ⟨.channelCapacity a, { s with channelCapacity := .returned }, ?_,
    ⟨h.server, h.free.telemetry, h.free.transfer⟩, ?_⟩
  · cases a with
    | tick n => exact absurd rfl (hTick n)
    | skip => exact absurd rfl hSkip
    | _ => simp [step, channelCapacityStep, reporter, h.ctxDone, hStep]
  · have hPos := Stage.work_pos hLeft
    simp only [MasterState.work, Stage.work_returned]
    omega

theorem closer_of_healthMonitoring (h : m.Clearing s) (hLeft : s.healthMonitoring ≠ .returned) :
    m.Closer s := by
  obtain ⟨a, _, _, hStep⟩ := exists_reporterStep (m.metricInterval ≤ 0)
    (s.telemetryChan < m.bufferSize) hLeft
  refine ⟨.healthMonitoring a, { s with healthMonitoring := .returned }, ?_,
    ⟨h.server, h.free.telemetry, h.free.transfer⟩, ?_⟩
  · simp [step, healthMonitoringStep, reporter, h.ctxDone, hStep]
  · have hPos := Stage.work_pos hLeft
    simp only [MasterState.work, Stage.work_returned]
    omega

theorem closer_of_telemetry (h : m.Clearing s) (hLeft : s.telemetry ≠ .returned) :
    m.Closer s := by
  cases hStage : s.telemetry with
  | returned => exact absurd hStage hLeft
  | inRun point =>
    have hAway := h.free.telemetry
    rw [hStage] at hAway
    cases hAway
  | starting =>
    refine ⟨.telemetry .enter, { s with telemetry := .returned }, ?_,
      ⟨h.server, rfl, h.free.transfer⟩, ?_⟩
    · simp [step, telemetryStep, hStage, Stage.enter, h.ctxDone]
    · simp only [MasterState.work, hStage, Stage.work]
      omega

theorem closer_of_server (h : m.Clearing s) (hMax : 0 ≤ m.orchestrator.maxAnalyzedEvent)
    (hLeft : ¬ s.server.AllExited) : m.Closer s := by
  obtain ⟨a, server, hInternal, hStep, hStopped, hLess⟩ := nearer_of_left h.server hMax hLeft
  refine ⟨.server a, { s with server := server }, ?_,
    ⟨hStopped, h.free.telemetry, h.free.transfer⟩, ?_⟩
  · cases a with
    | client a => cases hInternal
    | _ => simp [step, hStep]
  · simp only [MasterState.work]
    omega

theorem closer_of_left (h : m.Clearing s) (hMax : 0 ≤ m.orchestrator.maxAnalyzedEvent)
    (hLeft : ¬ ∀ w, s.Returned w) : m.Closer s := by
  by_contra hStuck
  refine hLeft fun w => ?_
  have hTransfer : s.fileTransfer = .returned := by
    by_contra hw
    exact hStuck (closer_of_transfer h hw)
  have hServer : s.server.AllExited := by
    by_contra hw
    exact hStuck (closer_of_server h hMax hw)
  by_contra hw
  cases w with
  | pool => exact hw hServer.1
  | moderation => exact hw hServer.2.1
  | fanout => exact hw hServer.2.2
  | telemetry => exact hStuck (closer_of_telemetry h hw)
  | channelCapacity => exact hStuck (closer_of_channelCapacity h hw)
  | healthMonitoring => exact hStuck (closer_of_healthMonitoring h hw)
  | fileTransfer => exact hw hTransfer
  | fileDownloader => exact hStuck (closer_of_downloader h hTransfer hw)
  | fileTmpJob => exact hStuck (closer_of_tmpJob h hw)

theorem canComplete_of_free (h : m.Clearing s) (hMax : 0 ≤ m.orchestrator.maxAnalyzedEvent) :
    m.CanComplete s := by
  have hEnd : ∃ t, m.machine.Leads s t ∧ m.Clearing t ∧ ∀ w, t.Returned w := by
    refine Machine.leads_of_work MasterState.work ?_ h
    intro s hs hLeft
    exact closer_of_left hs hMax hLeft
  obtain ⟨t, hLeads, _, hReturned⟩ := hEnd
  exact ⟨t, hLeads, hReturned⟩

/-- In every state after `Stop`, whatever the run before it: every goroutine can
still return exactly when the telemetry worker is not in its loop and the file
transfer worker can place what it has marked, and exactly then all of them can
return together, which releases `wg.Wait`. -/
theorem shutdown_completes_iff (h : m.machine.Reachable s)
    (hStop : s.server.phase = .eventsClosed) (hMax : 0 ≤ m.orchestrator.maxAnalyzedEvent) :
    ((∀ w, m.CanReturn s w) ↔ m.Free s) ∧ (m.CanComplete s ↔ m.Free s) := by
  have hDone : s.ctxDone = true := by
    rw [MasterState.ctxDone, hStop]
    rfl
  have hCalm : s.server.buffer.Calm := calm_of_reachable hMax (server_reachable h)
  have hEach : m.CanComplete s → ∀ w, m.CanReturn s w :=
    fun ⟨t, hLeads, hReturned⟩ w => ⟨t, hLeads, hReturned w⟩
  have hAll : m.Free s → m.CanComplete s :=
    fun hFree => canComplete_of_free ⟨⟨hStop, hCalm⟩, hFree⟩ hMax
  constructor
  · exact ⟨free_of_canReturn hDone, fun hFree => hEach (hAll hFree)⟩
  · exact ⟨fun hComplete => free_of_canReturn hDone (hEach hComplete), hAll⟩

end Ends

end Master

/-! ## Three runs -/

def sampleMaster : Master where
  orchestrator := sampleOrchestrator
  bufferSize := 1
  metricInterval := 1
  pendingFileBatchSize := 2
  fileTransferInterval := 1
  fileTmpJobInterval := 1

def sampleStop : List MasterAction := List.replicate 4 (.server .stop)

/-- Two tasks are marked: the request of the first is in the channel, the
second does not fit. -/
def sampleBacklog : List MasterAction :=
  [.fileTransfer .enter, .fileDownloader .enter,
    .fileTransfer (.fetch [(sampleTask, .ok ()), ({ sampleTask with id := "second" }, .ok ())]),
    .fileTransfer .next, .fileTransfer .send, .fileTransfer .next]

/-- `Stop` comes while the downloader still reads: it takes the requests, and
all goroutines can return. -/
theorem shutdown_completes_iff_reading :
    (sampleMaster.machine.after (sampleBacklog ++ sampleStop)).server.phase = .eventsClosed ∧
      sampleMaster.CanComplete (sampleMaster.machine.after (sampleBacklog ++ sampleStop)) :=
  ⟨by decide +kernel, (Master.shutdown_completes_iff (Machine.reachable_after _)
    (by decide +kernel) (by decide)).2.mpr (by decide +kernel)⟩

/-- A telemetry worker that waits for its next tick when `Stop` is called never
returns. Without it, neither does a file transfer worker that waits at a full
channel when the downloader leaves. -/
theorem shutdown_never_completes :
    (∃ s, sampleMaster.machine.Reachable s ∧ s.server.phase = .eventsClosed ∧
      ¬ sampleMaster.CanReturn s .telemetry) ∧
    ∃ s, sampleMaster.machine.Reachable s ∧ s.server.phase = .eventsClosed ∧
      s.telemetry.isRunning = false ∧ ¬ sampleMaster.CanReturn s .fileTransfer := by
  constructor
  · refine ⟨sampleMaster.machine.after (.telemetry .enter :: sampleStop),
      Machine.reachable_after _, by decide +kernel, ?_⟩
    exact Master.not_canReturn_of_telemetry (by decide +kernel)
  · refine ⟨sampleMaster.machine.after (sampleBacklog ++ sampleStop ++ [MasterAction.fileDownloader .done]),
      Machine.reachable_after _, by decide +kernel, by decide +kernel, ?_⟩
    exact Master.not_canReturn_of_stranded
      ⟨by decide +kernel, by decide +kernel, by decide +kernel⟩

end ChatLab.Runtime

import ChatLab.Runtime.Delivery

/-!
# What `Stop` leaves behind

Pool and moderation workers that see the context done return with what they
hold and leave what is in their channel. Fan-out workers drain theirs, but
nobody waits for what they start: the goroutine that calls the disk sink may
not have run when the process ends, and a file that they hand to the analysis
sink stays in its buffer until a flush. Nothing accepted is left if nothing was
on its way at the moment of the cancellation: the invariant below is the state
at that moment, and it is kept by every step that follows.
-/

namespace ChatLab.Runtime

open Foundation Foundation.Bag Sink Storage Workers

variable {o : Orchestrator} {s t : ServerState} {a : ServerAction}

/-! ## Calls of the disk sink -/

/-- A routed message has a goroutine that will call the disk sink, or has called it. -/
def ServerState.DiskServed (s : ServerState) : Prop :=
  ∀ n, (s.routed.flatMap Routed.token).count n =
    (s.deliveries.flatMap (Delivery.to .disk)).count n + (s.diskCalls.flatMap handToken).count n

theorem Routed.deliveries_disk (r : Routed) :
    r.deliveries.flatMap (Delivery.to .disk) = r.token := by
  have hStreams : ∀ sinks : List Nat,
      (sinks.flatMap fun k =>
        Delivery.to .disk { target := .stream k, message := r.message }) = [] :=
    fun sinks => List.flatMap_eq_nil_iff.mpr fun _ _ => rfl
  rw [Routed.deliveries, Routed.targets, List.flatMap_map, List.flatMap_append, List.flatMap_map,
    hStreams]
  rfl

theorem ServerState.DiskServed.called (h : s.DiskServed) {i : Nat} {m : Traced DomainEvent}
    (hd : s.deliveries[i]? = some { target := .disk, message := m }) (n : Nat) :
    (s.routed.flatMap Routed.token).count n =
      ((s.deliveries.eraseIdx i).flatMap (Delivery.to .disk)).count n +
        ((s.diskCalls ++ [m]).flatMap handToken).count n := by
  have hOld := h n
  have hTaken := count_flatMap_eraseIdx (Delivery.to .disk) hd n
  simp only [Delivery.to, if_true, List.flatMap_append, List.flatMap_singleton, handToken,
    List.count_append] at hOld hTaken ⊢
  omega

theorem ServerState.DiskServed.streamed (h : s.DiskServed) {i k : Nat} {m : Traced DomainEvent}
    (hd : s.deliveries[i]? = some { target := .stream k, message := m }) (n : Nat) :
    (s.routed.flatMap Routed.token).count n =
      ((s.deliveries.eraseIdx i).flatMap (Delivery.to .disk)).count n +
        (s.diskCalls.flatMap handToken).count n := by
  have hOld := h n
  have hTaken := count_flatMap_eraseIdx (Delivery.to .disk) hd n
  simp only [Delivery.to, reduceCtorEq, if_false, List.count_nil] at hTaken
  omega

theorem ServerState.DiskServed.steps (h : s.DiskServed) (hStep : o.Steps s a t) : t.DiskServed := by
  cases hStep with
  | fanout i order m hJob hOrder =>
    intro n
    have hOld := h n
    simp only [ServerState.route, List.flatMap_append, List.flatMap_singleton,
      Routed.deliveries_disk, List.count_append] at hOld ⊢
    omega
  | unstored i ok m hd => exact h.called hd
  | store i m d hd _ => exact h.called hd
  | dropped i k ok m hd => exact h.streamed hd
  | enqueue i k m c hd _ => exact h.streamed hd
  | _ => exact h

theorem diskServed_of_reachable (h : o.machine.Reachable s) : s.DiskServed := by
  refine Machine.Reachable.invariant (I := ServerState.DiskServed) ?_ ?_ h
  · exact fun n => rfl
  · exact fun s a t hs hStep => hs.steps (Orchestrator.steps_of_step hStep)

/-! ## Calls of the analysis sink -/

/-- Each call of the sink has a worker that waits for it, unless it panicked. -/
structure ServerState.Attended (s : ServerState) : Prop where
  served : ∀ n ∈ s.buffer.engaged, .consuming n ∈ s.fanout.busy ∨
    s.buffer.holder = some (.panicked (.call n))
  panics : ∀ origin, s.buffer.holder = some (.panicked origin) → s.buffer.events ≠ []

/-- The worker at a job that is no call of the sink, or one that is over, goes on. -/
theorem ServerState.Attended.leave (h : s.Attended) {i : Nat} {job : Job} {crew : Crew Job}
    (hJob : s.fanout.busy[i]? = some job) (hCrew : crew.busy = s.fanout.busy.eraseIdx i)
    (hOver : ∀ n ∈ s.buffer.engaged, job = .consuming n →
      s.buffer.holder = some (.panicked (.call n))) :
    ServerState.Attended { s with fanout := crew } where
  served n hn := by
    by_cases hSame : job = .consuming n
    · exact Or.inr (hOver n hn hSame)
    · refine (h.served n hn).imp_left fun hBusy => ?_
      rw [hCrew]
      exact mem_eraseIdx_of_ne hJob hBusy (Ne.symm hSame)
  panics := h.panics

theorem ServerState.Attended.steps (h : s.Attended) (hStep : o.Steps s a t) : t.Attended := by
  cases hStep with
  | start crew hStart =>
    exact { h with served := fun n hn => (Crew.start_busy hStart).symm ▸ h.served n hn }
  | receive evt rest crew hQueue hTake =>
    refine { h with served := fun n hn => (h.served n hn).imp_left fun hBusy => ?_ }
    rw [Crew.take_busy hTake]
    exact List.mem_append_left _ hBusy
  | fanout i order m hJob _ =>
    have hLeft : ServerState.Attended { s with fanout := s.fanout.finish i } :=
      h.leave hJob rfl nofun
    exact { hLeft with }
  | consume i f b hJob hBuffer =>
    refine ⟨fun n hn => ?_, bufferStep_panics h.panics hBuffer⟩
    rw [handleNewFile_engaged hBuffer] at hn
    obtain hn | hn := List.mem_append.mp hn
    · obtain hBusy | hPanicked := h.served n hn
      · exact Or.inl (mem_set_of_ne hJob hBusy nofun _)
      · exact Or.inr ((bufferStep_panicked hPanicked hBuffer).1.trans hPanicked)
    · obtain rfl := List.mem_singleton.mp hn
      obtain ⟨hi, _⟩ := List.getElem?_eq_some_iff.mp hJob
      exact Or.inl (List.mem_set hi _)
  | enrich i segment hJob => exact h.leave hJob rfl nofun
  | returned i n hJob hOver =>
    refine h.leave hJob rfl fun m hm hSame => ?_
    cases hSame
    exact absurd hm hOver
  | recovered i n hJob hPanicked =>
    have hOver : ∀ m ∈ s.buffer.engaged, Job.consuming n = .consuming m →
        s.buffer.holder = some (.panicked (.call m)) := by
      rintro m _ ⟨⟩
      exact hPanicked
    split
    · exact h.leave hJob rfl hOver
    · exact h.leave hJob rfl hOver
  | quit crew _ _ hQuit =>
    exact { h with served := fun n hn => (Crew.quit_busy hQuit).symm ▸ h.served n hn }
  | buffer action b hOther hBuffer =>
    refine ⟨fun n hn => ?_, bufferStep_panics h.panics hBuffer⟩
    obtain hBusy | hPanicked := h.served n (bufferStep_engaged hOther hBuffer hn)
    · exact Or.inl hBusy
    · exact Or.inr ((bufferStep_panicked hPanicked hBuffer).1.trans hPanicked)
  | _ => exact { h with }

/-! ## Stopping a drained server -/

/-- No message is in a channel, in a worker's hand or in a goroutine that has
yet to call the disk sink, and every file is stored or in a batch that a worker
is about to store. -/
structure ServerState.Drained (s : ServerState) : Prop where
  globalCommands : s.globalCommands = []
  pool : s.pool.busy = []
  moderationChan : s.moderationChan = []
  moderation : s.moderation.busy = []
  messages : s.eventChan.flatMap Event.message = []
  routing : s.fanout.busy.flatMap Job.message = []
  deliveries : s.deliveries.flatMap (Delivery.to .disk) = []
  files : s.eventChan.flatMap Event.file = []
  hands : s.fanout.busy.flatMap Job.file = []
  sink : s.buffer.Settled

/-- The context is cancelled only in a drained state, and nothing is accepted
from then on. -/
def StopsDrained (s : ServerState) : ServerAction → Prop
  | .stop => s.phase = .running → s.Drained
  | .client (.post _ true) => s.phase = .running
  | .client (.analyze _) => s.phase = .running
  | _ => True

theorem ctxDone_eq_false : s.phase.ctxDone = false ↔ s.phase = .running := by
  cases s.phase <;> decide

theorem ServerState.Drained.finish (h : s.Drained) (i : Nat) :
    ServerState.Drained { s with fanout := s.fanout.finish i } := by
  have hRest : ∀ {j}, j ∈ s.fanout.busy.eraseIdx i → j ∈ s.fanout.busy := List.mem_of_mem_eraseIdx
  refine { h with routing := ?_, hands := ?_ }
  · exact List.flatMap_eq_nil_iff.mpr fun j hj => List.flatMap_eq_nil_iff.mp h.routing j (hRest hj)
  · exact List.flatMap_eq_nil_iff.mpr fun j hj => List.flatMap_eq_nil_iff.mp h.hands j (hRest hj)

/-- A goroutine of `Fanout` that is over was none of the disk sink's. -/
theorem ServerState.Drained.delivered (h : s.Drained) (i : Nat) :
    (s.deliveries.eraseIdx i).flatMap (Delivery.to .disk) = [] :=
  List.flatMap_eq_nil_iff.mpr fun d hd =>
    List.flatMap_eq_nil_iff.mp h.deliveries d (List.mem_of_mem_eraseIdx hd)

theorem ServerState.Drained.steps (h : s.Drained) (hAttended : s.Attended)
    (hPhase : s.phase ≠ .running) (hGuard : StopsDrained s a) (hStep : o.Steps s a t) :
    t.Drained := by
  cases hStep with
  | rejected cmd admitted => exact h
  | post cmd _ => exact absurd hGuard hPhase
  | analyze e _ => exact absurd hGuard hPhase
  | respond segment _ =>
    refine { h with messages := ?_, files := ?_ }
    · simpa [Event.message] using h.messages
    · simpa [Event.file] using h.files
  | pool action r hEffect =>
    obtain ⟨hInput, hBusy, hOutput, _⟩ := hEffect.quiet h.globalCommands h.pool
    exact { h with
      globalCommands := hInput
      pool := hBusy
      moderationChan := hOutput.trans h.moderationChan }
  | moderation action r hEffect =>
    obtain ⟨hInput, hBusy, hOutput, _⟩ := hEffect.quiet h.moderationChan h.moderation
    have hEvents : (s.putModeration r).eventChan = s.eventChan := hOutput
    refine { h with moderationChan := hInput, moderation := hBusy, messages := ?_, files := ?_ }
    · rw [hEvents]
      exact h.messages
    · rw [hEvents]
      exact h.files
  | start crew hStart =>
    exact { h with
      routing := (Crew.start_busy hStart).symm ▸ h.routing
      hands := (Crew.start_busy hStart).symm ▸ h.hands }
  | receive evt rest crew hQueue hTake =>
    have hMessages := h.messages
    have hFiles := h.files
    rw [hQueue, List.flatMap_cons, List.append_eq_nil_iff] at hMessages hFiles
    refine { h with messages := hMessages.2, routing := ?_, files := hFiles.2, hands := ?_ }
    · rw [Crew.take_busy hTake, List.flatMap_append, h.routing, List.flatMap_singleton]
      exact hMessages.1
    · rw [Crew.take_busy hTake, List.flatMap_append, h.hands, List.flatMap_singleton]
      exact hFiles.1
  | fanout i order m hJob _ =>
    have hNone := List.flatMap_eq_nil_iff.mp h.routing _ (List.mem_of_getElem? hJob)
    cases hNone
  | consume i f b hJob _ =>
    have hNone := List.flatMap_eq_nil_iff.mp h.hands _ (List.mem_of_getElem? hJob)
    cases hNone
  | enrich i segment _ => exact h.finish i
  | returned i n _ _ => exact h.finish i
  | recovered i n _ hPanicked => exact absurd h.sink.events (hAttended.panics _ hPanicked)
  | quit crew _ _ hQuit =>
    exact { h with
      routing := (Crew.quit_busy hQuit).symm ▸ h.routing
      hands := (Crew.quit_busy hQuit).symm ▸ h.hands }
  | buffer action b hOther hBuffer => exact { h with sink := h.sink.step hOther hBuffer }
  | unstored i | store i | dropped i | enqueue i => exact { h with deliveries := h.delivered i }
  | _ => exact { h with }

/-- No worker returns with a message in its hand. -/
theorem lost_steps (hLost : s.lost = []) (hDrained : s.phase ≠ .running → s.Drained)
    (hStep : o.Steps s a t) : t.lost = [] := by
  cases hStep with
  | pool action r hEffect =>
    have hDropped : r.dropped = [] := by
      by_cases hPhase : s.phase = .running
      · exact hEffect.dropped_eq (ctxDone_eq_false.mpr hPhase)
      · exact (hEffect.quiet (hDrained hPhase).globalCommands (hDrained hPhase).pool).2.2.2
    rw [ServerState.putPool, hDropped, hLost]
    rfl
  | moderation action r hEffect =>
    have hDropped : r.dropped = [] := by
      by_cases hPhase : s.phase = .running
      · exact hEffect.dropped_eq (ctxDone_eq_false.mpr hPhase)
      · exact (hEffect.quiet (hDrained hPhase).moderationChan (hDrained hPhase).moderation).2.2.2
    rw [ServerState.putModeration, hDropped, hLost]
    rfl
  | _ => exact hLost

theorem phase_steps (hStep : o.Steps s a t) : t.phase = s.phase ∨ a = .stop := by
  cases hStep with
  | stop phase _ => exact Or.inr rfl
  | _ => exact Or.inl rfl

structure ServerState.Stopping (s : ServerState) : Prop where
  attended : s.Attended
  lost : s.lost = []
  drained : s.phase ≠ .running → s.Drained

theorem ServerState.Stopping.steps (h : s.Stopping) (hGuard : StopsDrained s a)
    (hStep : o.Steps s a t) : t.Stopping := by
  refine ⟨h.attended.steps hStep, lost_steps h.lost h.drained hStep, fun hPhase => ?_⟩
  by_cases hRunning : s.phase = .running
  · obtain hSame | rfl := phase_steps hStep
    · exact absurd (hSame.trans hRunning) hPhase
    · cases hStep with
      | stop phase _ => exact { hGuard hRunning with }
  · exact (h.drained hRunning).steps h.attended hRunning hGuard hStep

theorem stopping_of_reaches (h : o.machine.Reaches StopsDrained s) : s.Stopping := by
  refine Machine.Reaches.invariant (I := ServerState.Stopping) ?_ ?_ h
  · exact ⟨⟨nofun, nofun⟩, rfl, fun hPhase => absurd rfl hPhase⟩
  · exact fun s a t hs hGuard hStep => hs.steps hGuard (Orchestrator.steps_of_step hStep)

/-! ## After the last worker -/

namespace ServerState

variable (s : ServerState)

def AllExited : Prop := s.pool.AllExited ∧ s.moderation.AllExited ∧ s.fanout.AllExited

/-- Every accepted command was handed to the disk sink: `Consume` was called
with its message. -/
def MessagesHanded : Prop := ∀ n < s.accepted.length, ∃ t ∈ s.diskCalls, t.origin = n

/-- Every accepted file was handed to `StoreBatch`. -/
def FilesHanded : Prop :=
  ∀ f ∈ s.files.zipIdx, ∃ store ∈ s.buffer.stores, f ∈ store.1.map Prod.snd

end ServerState

theorem messagesHanded_of_drained (hServed : s.DiskServed) (hConserved : s.Conserved)
    (hLost : s.lost = []) (hDrained : s.Drained) : s.MessagesHanded := by
  intro n hn
  have hPlace : n ∈ s.messages := hConserved.messages.mem_iff.mpr (List.mem_range.mpr hn)
  rw [ServerState.messages, hDrained.globalCommands, hDrained.pool, hDrained.moderationChan,
    hDrained.moderation, hDrained.messages, hDrained.routing, hLost, List.append_nil] at hPlace
  -- every other place is empty, and each routed message has its call
  have hCount := List.count_pos_iff.mpr hPlace
  simp only [List.flatMap_nil, List.nil_append, hServed n, hDrained.deliveries, List.count_nil,
    Nat.zero_add] at hCount
  obtain ⟨m, hm, hOrigin⟩ := List.mem_flatMap.mp (List.count_pos_iff.mp hCount)
  exact ⟨m, hm, (List.mem_singleton.mp hOrigin).symm⟩

theorem filesHanded_of_drained (hAttended : s.Attended) (hConserved : s.Conserved)
    (hDrained : s.Drained) (hExited : s.AllExited) : s.FilesHanded := by
  obtain ⟨_, _, _, _, hBusy⟩ := hExited
  have hReturned : s.buffer.engaged = [] := by
    refine List.eq_nil_iff_forall_not_mem.mpr fun n hn => ?_
    obtain hWaits | hPanicked := hAttended.served n hn
    · rw [hBusy] at hWaits
      cases hWaits
    · exact hAttended.panics _ hPanicked hDrained.sink.events
  intro f hf
  have hPlace := hConserved.files.mem_iff.mpr hf
  rw [ServerState.fileTokens, ServerState.filesInSink, hDrained.files, hBusy,
    hDrained.sink.entering, hDrained.sink.content_eq hReturned] at hPlace
  obtain ⟨x, hx, rfl⟩ := List.mem_map.mp hPlace
  obtain ⟨batch, hBatch, hx⟩ := List.mem_flatten.mp hx
  obtain ⟨store, hStore, rfl⟩ := List.mem_map.mp hBatch
  exact ⟨store, hStore, List.mem_map_of_mem hx⟩

/-- In every run in which the context is cancelled in a drained state and
nothing is accepted from then on, whatever the schedule: once `Stop` was called
and all workers have exited, the disk sink was called with the message of every
accepted command and `StoreBatch` with every accepted file. -/
theorem stop_drains (h : o.machine.Reaches StopsDrained s) (hStop : s.phase ≠ .running)
    (hExited : s.AllExited) : s.MessagesHanded ∧ s.FilesHanded := by
  have hStopping := stopping_of_reaches h
  have hConserved := conserved_of_reachable h.reachable
  have hDrained := hStopping.drained hStop
  constructor
  · exact messagesHanded_of_drained (diskServed_of_reachable h.reachable) hConserved hStopping.lost
      hDrained
  · exact filesHanded_of_drained hStopping.attended hConserved hDrained hExited

/-! ## Two runs -/

section Decide

variable (s : ServerState)

instance (b : BufferState (FileAnalyse × Nat)) : Decidable b.Settled :=
  decidable_of_iff (b.entering = [] ∧ b.events = [] ∧ b.callbackBatches = [])
    ⟨fun ⟨h₁, h₂, h₃⟩ => ⟨h₁, h₂, h₃⟩, fun h => ⟨h.entering, h.events, h.callbacks⟩⟩

instance : Decidable s.Drained :=
  decidable_of_iff (s.globalCommands = [] ∧ s.pool.busy = [] ∧ s.moderationChan = [] ∧
      s.moderation.busy = [] ∧ s.eventChan.flatMap Event.message = [] ∧
      s.fanout.busy.flatMap Job.message = [] ∧
      s.deliveries.flatMap (Delivery.to .disk) = [] ∧ s.eventChan.flatMap Event.file = [] ∧
      s.fanout.busy.flatMap Job.file = [] ∧ s.buffer.Settled)
    ⟨fun ⟨h₁, h₂, h₃, h₄, h₅, h₆, h₇, h₈, h₉, h₁₀⟩ => ⟨h₁, h₂, h₃, h₄, h₅, h₆, h₇, h₈, h₉, h₁₀⟩,
      fun h => ⟨h.globalCommands, h.pool, h.moderationChan, h.moderation, h.messages, h.routing,
        h.deliveries, h.files, h.hands, h.sink⟩⟩

instance : (a : ServerAction) → Decidable (StopsDrained s a)
  | .stop => inferInstanceAs (Decidable (s.phase = .running → s.Drained))
  | .client (.post _ true) => inferInstanceAs (Decidable (s.phase = .running))
  | .client (.post _ false) => inferInstanceAs (Decidable True)
  | .client (.analyze _) => inferInstanceAs (Decidable (s.phase = .running))
  | .client (.respond _) => inferInstanceAs (Decidable True)
  | .client (.connect _ _) => inferInstanceAs (Decidable True)
  | .client (.disconnect _) => inferInstanceAs (Decidable True)
  | .pool _ => inferInstanceAs (Decidable True)
  | .moderation _ => inferInstanceAs (Decidable True)
  | .fanout _ => inferInstanceAs (Decidable True)
  | .buffer _ => inferInstanceAs (Decidable True)
  | .deliver _ _ => inferInstanceAs (Decidable True)
  | .push _ _ => inferInstanceAs (Decidable True)

instance : Decidable s.AllExited := inferInstanceAs (Decidable (_ ∧ _ ∧ _))

instance : Decidable s.MessagesHanded :=
  inferInstanceAs (Decidable (∀ n < s.accepted.length, ∃ t ∈ s.diskCalls, t.origin = n))

instance : Decidable s.FilesHanded :=
  inferInstanceAs (Decidable (∀ f ∈ s.files.zipIdx, ∃ store ∈ s.buffer.stores,
    f ∈ store.1.map Prod.snd))

end Decide

def sampleFile (path : String) : FileAnalyse where
  id := sampleId ⟨3, by decide⟩
  path := path
  driveId := "drive"
  size := 10
  rawMimeType := "text/plain"
  effectiveMimeType := .textPlain
  scannedAt := 7
  sourceType := "FILE"

def samplePost : ServerAction :=
  .client (.post { room := 1, userId := "u", content := "hello", createdAt := 5 } true)

def sampleStart : List ServerAction :=
  [.pool .start, .pool .start, .moderation .start, .fanout .start, .fanout .start]

/-- A fan-out worker appends a file to the buffer and leaves the lock. -/
def sampleAppend (task : Nat) : List ServerAction :=
  [.fanout .receive, .fanout (.consume 0), .buffer (.lock task), .buffer .proceed,
    .buffer .proceed, .buffer .proceed, .buffer .proceed]

def sampleExit : List ServerAction :=
  [.pool .quit, .pool .quit, .moderation .quit, .stop, .stop, .stop, .fanout .quit, .fanout .quit]

def hastyStop : List ServerAction :=
  sampleStart ++ [.client (.analyze (sampleFile "a"))] ++ sampleAppend 0 ++
    [.fanout (.returned 0), samplePost, .stop] ++ sampleExit

/-- `Stop` comes when one message was accepted and one file is in the buffer:
all workers return, the message is still in its channel and the file still in
the buffer. -/
theorem stop_leaves_behind :
    ∃ s : ServerState, sampleOrchestrator.machine.Reachable s ∧ s.phase = .eventsClosed ∧
      s.AllExited ∧ s.globalCommands.length = 1 ∧ s.buffer.events.length = 1 ∧
      ¬ s.MessagesHanded ∧ ¬ s.FilesHanded :=
  ⟨sampleOrchestrator.machine.after hastyStop, Machine.reachable_after _, by decide +kernel⟩

/-- When `Stop` is called, the disk sink was called with the one accepted
message, and a batch of two files is about to be stored by the worker that
filled it. -/
def drainedStop : List ServerAction :=
  sampleStart ++ [.client (.analyze (sampleFile "a"))] ++ sampleAppend 0 ++
    [.fanout (.returned 0), .client (.analyze (sampleFile "b"))] ++ sampleAppend 0 ++
    [.buffer (.lock 0), .buffer .proceed, .buffer .proceed, .buffer .proceed, samplePost,
      .pool (.receive (sampleNewId (UUID.digit 1))), .pool (.send 0), .moderation (.receive 0),
      .moderation (.send 0), .fanout .receive, .fanout (.fanout 1 []), .deliver 0 true, .stop,
      .buffer (.storeBatch 0 true), .fanout (.returned 0)] ++ sampleExit

def sampleDrained : ServerState :=
  (sampleOrchestrator.machine.restrict StopsDrained).after drainedStop

theorem stop_drains_sample :
    sampleDrained.phase = .eventsClosed ∧ sampleDrained.accepted.length = 1 ∧
      sampleDrained.diskCalls.length = 1 ∧ sampleDrained.files.length = 2 ∧
      sampleDrained.MessagesHanded ∧ sampleDrained.FilesHanded :=
  ⟨by decide +kernel, by decide +kernel, by decide +kernel, by decide +kernel,
    stop_drains (Machine.reaches_after_restrict sampleOrchestrator.machine StopsDrained drainedStop)
      (by decide +kernel) (by decide +kernel)⟩

end ChatLab.Runtime

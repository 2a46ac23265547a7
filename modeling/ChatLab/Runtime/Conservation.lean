import ChatLab.Runtime.Orchestrator

/-!
# Where the master keeps messages and files

Every accepted command is in one place: a channel, the hand of a worker, the
log of the fan-out, or lost with a worker that returned. Every accepted file
is in the event channel, in the hand of a fan-out worker or in the sink.
-/

namespace ChatLab.Runtime

open Foundation Foundation.Bag Sink Storage Workers

def commandToken : Nat × Command → List Nat
  | (origin, .postMessage _) => [origin]
  | (_, .getMessage _) => []

def postedToken (t : Traced DomainEvent) : List Nat :=
  match t.carried with
  | .messagePosted _ => [t.origin]
  | .sanitizedMessage _ => []

def handToken {α : Type} (t : Traced α) : List Nat := [t.origin]

namespace Event

def message : Event → List Nat
  | domain t => [t.origin]
  | _ => []

def file : Event → List (FileAnalyse × Nat)
  | fileAnalyse f => [f]
  | _ => []

end Event

namespace Job

def message : Job → List Nat
  | handling evt => evt.message
  | consuming _ => []

def file : Job → List (FileAnalyse × Nat)
  | handling evt => evt.file
  | consuming _ => []

end Job

def Routed.token (r : Routed) : List Nat := [r.message.origin]

namespace ServerState

variable (s : ServerState)

def messages : List Nat :=
  s.globalCommands.flatMap commandToken ++ s.pool.busy.flatMap handToken ++
    s.moderationChan.flatMap postedToken ++ s.moderation.busy.flatMap handToken ++
    s.eventChan.flatMap Event.message ++ s.fanout.busy.flatMap Job.message ++
    s.routed.flatMap Routed.token ++ s.lost

/-- The files of calls to the sink, each with the number of its call. -/
def filesInSink : List (Nat × FileAnalyse × Nat) := s.buffer.entering ++ s.buffer.content

def fileTokens : List (FileAnalyse × Nat) :=
  s.eventChan.flatMap Event.file ++ s.fanout.busy.flatMap Job.file ++ s.filesInSink.map Prod.snd

structure Conserved : Prop where
  messages : s.messages.Perm (List.range s.accepted.length)
  files : s.fileTokens.Perm s.files.zipIdx

end ServerState

section Steps

variable {o : Orchestrator} {s t : ServerState} {a : ServerAction}

theorem map_origin_eq_flatMap {α : Type} (l : List (Traced α)) :
    l.map Traced.origin = l.flatMap handToken :=
  List.map_eq_flatMap

theorem putPool_messages
    {r : Relay (Nat × Command) (Traced MessagePosted) (Traced DomainEvent)}
    (h : Relay.Effect poolWorker s.poolSignals s.poolRelay r) (n : Nat) :
    (s.putPool r).messages.count n = s.messages.count n := by
  have hTokens := h.tokens_count commandToken handToken postedToken ?_ ?_ (fun _ => rfl) n
  · simp only [Relay.tokens, ServerState.poolRelay, List.flatMap_nil, List.append_nil,
      List.count_append] at hTokens
    simp only [ServerState.messages, ServerState.putPool, map_origin_eq_flatMap,
      List.count_append]
    omega
  · intro id cmd hand hHandle
    obtain ⟨origin, command⟩ := cmd
    cases command with
    | postMessage cmd =>
      cases hHandle
      rfl
    | getMessage cmd => cases hHandle
  · intro id cmd hHandle
    obtain ⟨origin, command⟩ := cmd
    cases command with
    | postMessage cmd => cases hHandle
    | getMessage cmd => rfl

theorem putModeration_messages {censor : String → String × List String}
    {r : Relay (Traced DomainEvent) (Traced SanitizedMessage) Event}
    (h : Relay.Effect (moderationWorker censor) s.moderationSignals s.moderationRelay r) (n : Nat) :
    (s.putModeration r).messages.count n = s.messages.count n := by
  have hTokens := h.tokens_count postedToken handToken Event.message ?_ ?_ (fun _ => rfl) n
  · simp only [Relay.tokens, ServerState.moderationRelay, List.flatMap_nil, List.append_nil,
      List.count_append] at hTokens
    simp only [ServerState.messages, ServerState.putModeration, map_origin_eq_flatMap,
      List.count_append]
    omega
  · intro score evt hand hHandle
    obtain ⟨origin, id, carried⟩ := evt
    cases carried with
    | messagePosted evt =>
      cases hHandle
      rfl
    | sanitizedMessage evt => cases hHandle
  · intro score evt hHandle
    obtain ⟨origin, id, carried⟩ := evt
    cases carried with
    | messagePosted evt => cases hHandle
    | sanitizedMessage evt => rfl

/-- Moderation sends no file. -/
theorem putModeration_files {censor : String → String × List String}
    {r : Relay (Traced DomainEvent) (Traced SanitizedMessage) Event}
    (h : Relay.Effect (moderationWorker censor) s.moderationSignals s.moderationRelay r) :
    (s.putModeration r).fileTokens = s.fileTokens := by
  have hFiles : r.output.flatMap Event.file = s.eventChan.flatMap Event.file := by
    cases h with
    | draw x a b _ _ _ hOut _ => rw [hOut]; rfl
    | ignore x a _ _ _ hOut _ => rw [hOut]; rfl
    | send b _ _ _ hOut _ =>
      rw [hOut, List.flatMap_append]
      exact List.append_nil _
    | drop b _ _ _ hOut _ => rw [hOut]; rfl
    | still _ _ hOut _ => rw [hOut]; rfl
  simp only [ServerState.fileTokens, ServerState.putModeration, hFiles]
  rfl

/-- A worker drops a job that carries no message and no file. -/
theorem conserved_of_busy (hs : s.Conserved) {crew : Crew Job} {job : Job}
    (hBusy : s.fanout.busy.Perm (job :: crew.busy)) (hMessage : job.message = [])
    (hFile : job.file = []) : ServerState.Conserved { s with fanout := crew } := by
  have hMessages := (hBusy.flatMap_right Job.message).symm
  have hFiles := (hBusy.flatMap_right Job.file).symm
  rw [List.flatMap_cons, hMessage, List.nil_append] at hMessages
  rw [List.flatMap_cons, hFile, List.nil_append] at hFiles
  refine ⟨.trans ?_ hs.messages, .trans ?_ hs.files⟩
  · exact ((hMessages.append_left _).append_right _).append_right _
  · exact (hFiles.append_left _).append_right _

theorem conserved_of_busy_eq (hs : s.Conserved) {crew : Crew Job}
    (hBusy : crew.busy = s.fanout.busy) : ServerState.Conserved { s with fanout := crew } := by
  refine ⟨?_, ?_⟩
  · simpa only [ServerState.messages, hBusy] using hs.messages
  · simpa only [ServerState.fileTokens, ServerState.filesInSink, hBusy] using hs.files

theorem ServerState.Conserved.steps (hs : s.Conserved) (h : o.Steps s a t) : t.Conserved := by
  cases h with
  | rejected cmd admitted => exact hs
  | post cmd _ =>
    refine ⟨List.perm_iff_count.mpr fun n => ?_, hs.files⟩
    have hCount := hs.messages.count_eq n
    simp only [ServerState.messages, List.flatMap_append, List.count_append, List.length_append,
      List.length_singleton, List.range_succ, List.flatMap_singleton, commandToken] at hCount ⊢
    omega
  | analyze e _ =>
    refine ⟨?_, List.perm_iff_count.mpr fun n => ?_⟩
    · simpa [ServerState.messages, Event.message] using hs.messages
    · have hCount := hs.files.count_eq n
      simp only [ServerState.fileTokens, ServerState.filesInSink, List.flatMap_append,
        List.count_append, List.zipIdx_append, List.flatMap_singleton, Event.file,
        List.zipIdx_singleton, Nat.zero_add] at hCount ⊢
      omega
  | respond segment _ =>
    refine ⟨?_, ?_⟩
    · simpa [ServerState.messages, Event.message] using hs.messages
    · simpa [ServerState.fileTokens, ServerState.filesInSink, Event.file] using hs.files
  | connect userID room => exact ⟨hs.messages, hs.files⟩
  | disconnect k c _ => exact ⟨hs.messages, hs.files⟩
  | pool action r hEffect =>
    refine ⟨List.perm_iff_count.mpr fun n => ?_, hs.files⟩
    exact (putPool_messages hEffect n).trans (hs.messages.count_eq n)
  | moderation action r hEffect =>
    refine ⟨List.perm_iff_count.mpr fun n => ?_, ?_⟩
    · exact (putModeration_messages hEffect n).trans (hs.messages.count_eq n)
    · rw [putModeration_files hEffect]
      exact hs.files
  | start crew hStart => exact conserved_of_busy_eq hs (Crew.start_busy hStart)
  | receive evt rest crew hQueue hTake =>
    refine ⟨List.perm_iff_count.mpr fun n => ?_, List.perm_iff_count.mpr fun n => ?_⟩
    · have hCount := hs.messages.count_eq n
      simp only [ServerState.messages, hQueue, Crew.take_busy hTake, List.flatMap_append,
        List.flatMap_cons, List.flatMap_nil, List.append_nil, List.count_append,
        Job.message] at hCount ⊢
      omega
    · have hCount := hs.files.count_eq n
      simp only [ServerState.fileTokens, ServerState.filesInSink, hQueue, Crew.take_busy hTake,
        List.flatMap_append, List.flatMap_cons, List.flatMap_nil, List.append_nil,
        List.count_append, Job.file] at hCount ⊢
      omega
  | fanout i order m hJob _ =>
    refine ⟨List.perm_iff_count.mpr fun n => ?_, List.perm_iff_count.mpr fun n => ?_⟩
    · have hCount := hs.messages.count_eq n
      have hHand := count_flatMap_eraseIdx Job.message hJob n
      simp only [ServerState.messages, ServerState.route, Crew.finish, List.flatMap_append,
        List.flatMap_singleton, List.count_append, Routed.token, Job.message,
        Event.message] at hCount hHand ⊢
      omega
    · have hCount := hs.files.count_eq n
      have hHand := count_flatMap_eraseIdx Job.file hJob n
      simp only [ServerState.fileTokens, ServerState.filesInSink, ServerState.route, Crew.finish,
        List.count_append, List.count_nil, Job.file, Event.file] at hCount hHand ⊢
      omega
  | consume i f b hJob hBuffer =>
    refine ⟨List.perm_iff_count.mpr fun n => ?_, List.perm_iff_count.mpr fun n => ?_⟩
    · have hCount := hs.messages.count_eq n
      have hHand := count_flatMap_set Job.message hJob (.consuming s.buffer.calls) n
      simp only [ServerState.messages, Crew.replace, List.count_append, List.count_nil,
        Job.message, Event.message] at hCount hHand ⊢
      omega
    · have hCount := hs.files.count_eq n
      have hHand := count_flatMap_set Job.file hJob (.consuming s.buffer.calls) n
      have hSink := ((handleNewFile_places hBuffer).map Prod.snd).count_eq n
      simp only [List.map_cons, List.count_cons] at hSink
      simp only [ServerState.fileTokens, ServerState.filesInSink, Crew.replace,
        List.count_append, List.count_nil, List.count_singleton, Job.file,
        Event.file] at hCount hHand ⊢
      omega
  | enrich i segment hJob => exact conserved_of_busy hs (perm_cons_eraseIdx hJob) rfl rfl
  | returned i n hJob _ => exact conserved_of_busy hs (perm_cons_eraseIdx hJob) rfl rfl
  | recovered i n hJob _ =>
    split
    · exact conserved_of_busy hs (perm_cons_eraseIdx hJob) rfl rfl
    · exact conserved_of_busy hs (perm_cons_eraseIdx hJob) rfl rfl
  | quit crew _ _ hQuit => exact conserved_of_busy_eq hs (Crew.quit_busy hQuit)
  | buffer action b hOther hBuffer =>
    refine ⟨hs.messages, .trans ?_ hs.files⟩
    exact ((bufferStep_places hOther hBuffer).map Prod.snd).append_left _
  | unstored i ok m _ => exact ⟨hs.messages, hs.files⟩
  | store i m d _ _ => exact ⟨hs.messages, hs.files⟩
  | dropped i k ok m _ => exact ⟨hs.messages, hs.files⟩
  | enqueue i k m c _ _ => exact ⟨hs.messages, hs.files⟩
  | send k c m rest e _ _ _ => exact ⟨hs.messages, hs.files⟩
  | sendFails k c m rest _ _ => exact ⟨hs.messages, hs.files⟩
  | passOver k ok c m rest _ _ => exact ⟨hs.messages, hs.files⟩
  | stop phase _ => exact ⟨hs.messages, hs.files⟩

end Steps

theorem conserved_of_reachable {o : Orchestrator} {s : ServerState} (h : o.machine.Reachable s) :
    s.Conserved := by
  refine Machine.Reachable.invariant (I := ServerState.Conserved) ?_ ?_ h
  · exact ⟨List.Perm.refl _, List.Perm.refl _⟩
  · exact fun s a t hs hStep => hs.steps (Orchestrator.steps_of_step hStep)

end ChatLab.Runtime

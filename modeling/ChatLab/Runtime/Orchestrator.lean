import ChatLab.Foundation.Relay
import ChatLab.Runtime.Registry
import ChatLab.Sink.AnalysisSink
import ChatLab.Sink.Flush
import ChatLab.Workers.ChatPipeline

/-!
# The master process

The orchestrator's channels with all who use them: gRPC handlers that post
messages, announce files and hold Connect streams, the pool and moderation
workers, the fan-out workers with one goroutine for each delivery, the buffer
of the analysis sink, and `Stop`, which cancels the context and then closes
the channels one after the other.

A message carries the position of its command and a file its position among
the files accepted, as ghosts. A gRPC handler that sends to a closed channel
ends the process, so there is no such step. Telemetry is left out: it only
observes. `Censor` is any function on the content; that it does not panic is
shown for the moderator itself.
-/

namespace ChatLab.Runtime

open Foundation Sink Storage Workers

/-- How far `Stop` has come. -/
inductive StopPhase
  | running
  | cancelled
  | commandsClosed
  | moderationClosed
  | eventsClosed
deriving DecidableEq, Repr

namespace StopPhase

def next : StopPhase → Option StopPhase
  | running => some cancelled
  | cancelled => some commandsClosed
  | commandsClosed => some moderationClosed
  | moderationClosed => some eventsClosed
  | eventsClosed => none

def ctxDone : StopPhase → Bool
  | running => false
  | _ => true

def globalCommandsClosed : StopPhase → Bool
  | running | cancelled => false
  | _ => true

def moderationChanClosed : StopPhase → Bool
  | moderationClosed | eventsClosed => true
  | _ => false

def eventChanClosed : StopPhase → Bool
  | eventsClosed => true
  | _ => false

end StopPhase

/-- The payload of an event, as the fan-out tells it apart. -/
inductive Event
  | domain (t : Traced DomainEvent)
  | fileAnalyse (f : FileAnalyse × Nat)
  | analysisSegment (segment : AnalysisSegment)

/-- A fan-out worker handles an event, or waits in the sink for call `n` of
`handleNewFile`. -/
inductive Job
  | handling (evt : Event)
  | consuming (n : Nat)

inductive Target
  | disk
  | stream (k : Nat)
deriving DecidableEq

structure Delivery where
  target : Target
  message : Traced DomainEvent

/-- A call of `Fanout` with the sinks that the registry answered. -/
structure Routed where
  message : Traced DomainEvent
  sinks : List Nat

def Routed.targets (r : Routed) : List Target := r.sinks.map Target.stream ++ [.disk]

def Routed.deliveries (r : Routed) : List Delivery :=
  r.targets.map fun target => { target := target, message := r.message }

structure MessageEvent where
  messageId : String
  author : String
  content : String
  createdAt : Int
deriving DecidableEq

def toChatEvent (e : SanitizedMessage) : MessageEvent where
  messageId := e.id.text
  author := e.author
  content := e.content
  createdAt := e.atTime

/-- A call of `Connect`; its sink is known by the position of the call. -/
structure Connection where
  userID : String
  room : RoomID
  isOpen : Bool
  connectedUserEvent : List (Traced DomainEvent)
  sent : List (Traced MessageEvent)

structure ServerState where
  phase : StopPhase
  accepted : List PostMessageCommand
  globalCommands : List (Nat × Command)
  pool : Crew (Traced MessagePosted)
  moderationChan : List (Traced DomainEvent)
  moderation : Crew (Traced SanitizedMessage)
  eventChan : List Event
  fanout : Crew Job
  routed : List Routed
  -- the commands whose message was in the hand of a worker that returned
  lost : List Nat
  files : List FileAnalyse
  buffer : BufferState (FileAnalyse × Nat)
  registryCalls : List (RegistryCall Nat)
  connections : List Connection
  deliveries : List Delivery
  -- the calls of the disk sink's `Consume`
  diskCalls : List (Traced DomainEvent)
  -- the calls of `StoreMessage` that succeeded
  stored : List (Traced DiskMessage)

inductive ClientAction
  | post (cmd : PostMessageCommand) (admitted : Bool)
  | analyze (e : FileAnalyse)
  | respond (segment : AnalysisSegment)
  | connect (userID : String) (room : RoomID)
  | disconnect (k : Nat)

inductive FanoutAction
  | start
  | receive
  | fanout (i : Nat) (order : List String)
  | consume (i : Nat)
  | enrich (i : Nat)
  | returned (i : Nat)
  | recovered (i : Nat)
  | quit

/-- `uuid.New` sets the version bits, so it never returns the zero identifier. -/
abbrev NewUUID := { id : UUID // id ≠ UUID.nil }

inductive ServerAction
  | client (a : ClientAction)
  | pool (a : RelayAction NewUUID)
  | moderation (a : RelayAction Float64)
  | fanout (a : FanoutAction)
  | buffer (a : BufferAction (FileAnalyse × Nat))
  | deliver (i : Nat) (ok : Bool)
  | push (k : Nat) (ok : Bool)
  | stop

structure Orchestrator where
  poolWorkers : Nat
  fanoutWorkers : Nat
  maxContentLength : Nat
  maxAnalyzedEvent : Int
  censor : String → String × List String

def roomID : DomainEvent → RoomID
  | .messagePosted evt => evt.room
  | .sanitizedMessage evt => evt.room

/-- `PoolUnitWorker.Run`: only a command to post makes an event. -/
def poolWorker : RelayWorker NewUUID (Nat × Command) (Traced MessagePosted) (Traced DomainEvent) where
  handle id
    | (origin, .postMessage cmd) => some
        { origin := origin, postedId := id.1, carried := toMessagePostedEvent cmd id.1 }
    | (_, .getMessage _) => none
  emit t := { t with carried := .messagePosted t.carried }

/-- `ModerationWorker.Run`, with the random score. -/
def moderationWorker (censor : String → String × List String) :
    RelayWorker Float64 (Traced DomainEvent) (Traced SanitizedMessage) Event where
  handle score t :=
    match t.carried with
    | .messagePosted evt => some { t with carried := processAndSanitize censor evt score }
    | .sanitizedMessage _ => none
  emit t := .domain { t with carried := .sanitizedMessage t.carried }

namespace ServerState

variable (s : ServerState)

def poolSignals : Signals where
  done := s.phase.ctxDone
  inputClosed := s.phase.globalCommandsClosed
  outputClosed := s.phase.moderationChanClosed

def poolRelay : Relay (Nat × Command) (Traced MessagePosted) (Traced DomainEvent) where
  input := s.globalCommands
  crew := s.pool
  output := s.moderationChan
  dropped := []

def putPool (r : Relay (Nat × Command) (Traced MessagePosted) (Traced DomainEvent)) :
    ServerState :=
  { s with
    globalCommands := r.input
    pool := r.crew
    moderationChan := r.output
    lost := s.lost ++ r.dropped.map Traced.origin }

def moderationSignals : Signals where
  done := s.phase.ctxDone
  inputClosed := s.phase.moderationChanClosed
  outputClosed := s.phase.eventChanClosed

def moderationRelay : Relay (Traced DomainEvent) (Traced SanitizedMessage) Event where
  input := s.moderationChan
  crew := s.moderation
  output := s.eventChan
  dropped := []

def putModeration (r : Relay (Traced DomainEvent) (Traced SanitizedMessage) Event) :
    ServerState :=
  { s with
    moderationChan := r.input
    moderation := r.crew
    eventChan := r.output
    lost := s.lost ++ r.dropped.map Traced.origin }

/-- The state after a call of `Fanout` by worker `i`. -/
def route (i : Nat) (r : Routed) : ServerState :=
  { s with
    fanout := s.fanout.finish i
    routed := s.routed ++ [r]
    deliveries := s.deliveries ++ r.deliveries }

end ServerState

namespace Orchestrator

variable (o : Orchestrator)

def clientStep (s : ServerState) : ClientAction → Option ServerState
  | .post cmd admitted =>
    match postMessage o.maxContentLength cmd admitted with
    | .error _ => some s
    | .ok command =>
      if s.phase.globalCommandsClosed then none
      else some { s with
        accepted := s.accepted ++ [cmd]
        globalCommands := s.globalCommands ++ [(s.accepted.length, command)] }
  | .analyze e =>
    if s.phase.eventChanClosed then none
    else some { s with
      files := s.files ++ [e]
      eventChan := s.eventChan ++ [.fileAnalyse (e, s.files.length)] }
  | .respond segment =>
    if s.phase.eventChanClosed then none
    else some { s with eventChan := s.eventChan ++ [.analysisSegment segment] }
  | .connect userID room => some { s with
      registryCalls := s.registryCalls ++ [.subscribe userID room s.connections.length]
      connections := s.connections ++
        [{ userID := userID, room := room, isOpen := true, connectedUserEvent := [], sent := [] }] }
  | .disconnect k =>
    match s.connections[k]? with
    | none => none
    | some c =>
      if c.isOpen then some { s with
        registryCalls := s.registryCalls ++ [.unsubscribe c.userID c.room]
        connections := s.connections.set k { c with isOpen := false } }
      else none

def poolStep (s : ServerState) (a : RelayAction NewUUID) : Option ServerState :=
  (s.poolRelay.step poolWorker s.poolSignals a).map s.putPool

def moderationStep (s : ServerState) (a : RelayAction Float64) : Option ServerState :=
  (s.moderationRelay.step (moderationWorker o.censor) s.moderationSignals a).map s.putModeration

/-- `EventFanoutWorker.Run`. The loop ends only with a closed and drained
channel; a panic in the sink is recovered by the supervisor. -/
def fanoutStep (s : ServerState) : FanoutAction → Option ServerState
  | .start => (s.fanout.start s.phase.ctxDone).map fun crew => { s with fanout := crew }
  | .receive =>
    match s.eventChan with
    | [] => none
    | evt :: rest => (s.fanout.take (.handling evt)).map fun crew =>
        { s with eventChan := rest, fanout := crew }
  | .fanout i order =>
    match s.fanout.busy[i]? with
    | some (.handling (.domain t)) =>
      if (registryAfter s.registryCalls).Visits (roomID t.carried) order then
        let sinks := (registryAfter s.registryCalls).getSinksForRoom (roomID t.carried) order
        some (s.route i { message := t, sinks := sinks })
      else none
    | _ => none
  | .consume i =>
    match s.fanout.busy[i]? with
    | some (.handling (.fileAnalyse f)) =>
      (bufferStep o.maxAnalyzedEvent s.buffer (.handleNewFile f)).map fun buffer => { s with
        fanout := s.fanout.replace i (.consuming s.buffer.calls)
        buffer := buffer }
    | _ => none
  | .enrich i =>
    match s.fanout.busy[i]? with
    | some (.handling (.analysisSegment _)) => some { s with fanout := s.fanout.finish i }
    | _ => none
  | .returned i =>
    match s.fanout.busy[i]? with
    | some (.consuming n) =>
      if n ∈ s.buffer.engaged then none else some { s with fanout := s.fanout.finish i }
    | _ => none
  | .recovered i =>
    match s.fanout.busy[i]? with
    | some (.consuming n) =>
      if s.buffer.holder = some (.panicked (.call n)) then
        some { s with fanout := if s.phase.ctxDone then s.fanout.leave i else s.fanout.crash i }
      else none
    | _ => none
  | .quit =>
    if s.phase.eventChanClosed && s.eventChan.isEmpty then
      s.fanout.quit.map fun crew => { s with fanout := crew }
    else none

/-- `Consume` of the disk sink or of a stream's sink. -/
def deliverStep (s : ServerState) (i : Nat) (ok : Bool) : Option ServerState :=
  match s.deliveries[i]? with
  | none => none
  | some { target := .disk, message := t } =>
    match diskMessageOf t.carried, ok with
    | some m, true => some { s with
        deliveries := s.deliveries.eraseIdx i
        diskCalls := s.diskCalls ++ [t]
        stored := s.stored ++ [{ t with carried := m }] }
    | _, _ => some { s with
        deliveries := s.deliveries.eraseIdx i
        diskCalls := s.diskCalls ++ [t] }
  | some { target := .stream k, message := t } =>
    match s.connections[k]?, ok with
    | some c, true => some { s with
        deliveries := s.deliveries.eraseIdx i
        connections := s.connections.set k
          { c with connectedUserEvent := c.connectedUserEvent ++ [t] } }
    | _, _ => some { s with deliveries := s.deliveries.eraseIdx i }

/-- The loop of `Connect`. A failed `Send` ends it. -/
def pushStep (s : ServerState) (k : Nat) (ok : Bool) : Option ServerState :=
  match s.connections[k]? with
  | none => none
  | some c =>
    match c.isOpen, c.connectedUserEvent with
    | true, t :: rest =>
      match t.carried, ok with
      | .sanitizedMessage e, true => some { s with
          connections := s.connections.set k { c with
            connectedUserEvent := rest
            sent := c.sent ++ [{ t with carried := toChatEvent e }] } }
      | .sanitizedMessage _, false => some { s with
          registryCalls := s.registryCalls ++ [.unsubscribe c.userID c.room]
          connections := s.connections.set k
            { c with connectedUserEvent := rest, isOpen := false } }
      | .messagePosted _, _ => some { s with
          connections := s.connections.set k { c with connectedUserEvent := rest } }
    | _, _ => none

def step (s : ServerState) : ServerAction → Option ServerState
  | .client a => o.clientStep s a
  | .pool a => poolStep s a
  | .moderation a => o.moderationStep s a
  | .fanout a => o.fanoutStep s a
  -- calls of `handleNewFile` come from the fan-out
  | .buffer (.handleNewFile _) => none
  | .buffer a => (bufferStep o.maxAnalyzedEvent s.buffer a).map fun buffer =>
      { s with buffer := buffer }
  | .deliver i ok => deliverStep s i ok
  | .push k ok => pushStep s k ok
  | .stop => s.phase.next.map fun phase => { s with phase := phase }

def machine : Machine ServerState ServerAction where
  start :=
    { phase := .running, accepted := [], globalCommands := [], pool := .ofSize o.poolWorkers,
      moderationChan := [], moderation := .ofSize 1, eventChan := [],
      fanout := .ofSize o.fanoutWorkers, routed := [], lost := [], files := [],
      buffer := newBuffer, registryCalls := [], connections := [], deliveries := [],
      diskCalls := [], stored := [] }
  step := o.step

/-! ## What a step does -/

/-- The steps with all that they require and change. -/
inductive Steps (s : ServerState) : ServerAction → ServerState → Prop
  | rejected (cmd : PostMessageCommand) (admitted : Bool) :
      Steps s (.client (.post cmd admitted)) s
  | post (cmd : PostMessageCommand) : s.phase.globalCommandsClosed = false →
      Steps s (.client (.post cmd true)) { s with
        accepted := s.accepted ++ [cmd]
        globalCommands := s.globalCommands ++ [(s.accepted.length, .postMessage cmd)] }
  | analyze (e : FileAnalyse) : s.phase.eventChanClosed = false →
      Steps s (.client (.analyze e)) { s with
        files := s.files ++ [e]
        eventChan := s.eventChan ++ [.fileAnalyse (e, s.files.length)] }
  | respond (segment : AnalysisSegment) : s.phase.eventChanClosed = false →
      Steps s (.client (.respond segment))
        { s with eventChan := s.eventChan ++ [.analysisSegment segment] }
  | connect (userID : String) (room : RoomID) :
      Steps s (.client (.connect userID room)) { s with
        registryCalls := s.registryCalls ++ [.subscribe userID room s.connections.length]
        connections := s.connections ++ [{
          userID := userID, room := room, isOpen := true, connectedUserEvent := [], sent := [] }] }
  | disconnect (k : Nat) (c : Connection) : s.connections[k]? = some c →
      Steps s (.client (.disconnect k)) { s with
        registryCalls := s.registryCalls ++ [.unsubscribe c.userID c.room]
        connections := s.connections.set k { c with isOpen := false } }
  | pool (a : RelayAction NewUUID)
      (r : Relay (Nat × Command) (Traced MessagePosted) (Traced DomainEvent)) :
      Relay.Effect poolWorker s.poolSignals s.poolRelay r → Steps s (.pool a) (s.putPool r)
  | moderation (a : RelayAction Float64)
      (r : Relay (Traced DomainEvent) (Traced SanitizedMessage) Event) :
      Relay.Effect (moderationWorker o.censor) s.moderationSignals s.moderationRelay r →
      Steps s (.moderation a) (s.putModeration r)
  | start (crew : Crew Job) : s.fanout.start s.phase.ctxDone = some crew →
      Steps s (.fanout .start) { s with fanout := crew }
  | receive (evt : Event) (rest : List Event) (crew : Crew Job) : s.eventChan = evt :: rest →
      s.fanout.take (.handling evt) = some crew →
      Steps s (.fanout .receive) { s with eventChan := rest, fanout := crew }
  | fanout (i : Nat) (order : List String) (t : Traced DomainEvent) :
      s.fanout.busy[i]? = some (.handling (.domain t)) →
      (registryAfter s.registryCalls).Visits (roomID t.carried) order →
      Steps s (.fanout (.fanout i order)) (s.route i {
        message := t
        sinks := (registryAfter s.registryCalls).getSinksForRoom (roomID t.carried) order })
  | consume (i : Nat) (f : FileAnalyse × Nat) (b : BufferState (FileAnalyse × Nat)) :
      s.fanout.busy[i]? = some (.handling (.fileAnalyse f)) →
      bufferStep o.maxAnalyzedEvent s.buffer (.handleNewFile f) = some b →
      Steps s (.fanout (.consume i)) { s with
        fanout := s.fanout.replace i (.consuming s.buffer.calls)
        buffer := b }
  | enrich (i : Nat) (segment : AnalysisSegment) :
      s.fanout.busy[i]? = some (.handling (.analysisSegment segment)) →
      Steps s (.fanout (.enrich i)) { s with fanout := s.fanout.finish i }
  | returned (i n : Nat) : s.fanout.busy[i]? = some (.consuming n) → n ∉ s.buffer.engaged →
      Steps s (.fanout (.returned i)) { s with fanout := s.fanout.finish i }
  | recovered (i n : Nat) : s.fanout.busy[i]? = some (.consuming n) →
      s.buffer.holder = some (.panicked (.call n)) →
      Steps s (.fanout (.recovered i)) { s with
        fanout := if s.phase.ctxDone then s.fanout.leave i else s.fanout.crash i }
  | quit (crew : Crew Job) : s.phase.eventChanClosed = true → s.eventChan = [] →
      s.fanout.quit = some crew → Steps s (.fanout .quit) { s with fanout := crew }
  | buffer (a : BufferAction (FileAnalyse × Nat)) (b : BufferState (FileAnalyse × Nat)) :
      (∀ f, a ≠ .handleNewFile f) → bufferStep o.maxAnalyzedEvent s.buffer a = some b →
      Steps s (.buffer a) { s with buffer := b }
  | unstored (i : Nat) (ok : Bool) (t : Traced DomainEvent) :
      s.deliveries[i]? = some { target := .disk, message := t } →
      Steps s (.deliver i ok) { s with
        deliveries := s.deliveries.eraseIdx i
        diskCalls := s.diskCalls ++ [t] }
  | store (i : Nat) (t : Traced DomainEvent) (m : DiskMessage) :
      s.deliveries[i]? = some { target := .disk, message := t } →
      diskMessageOf t.carried = some m →
      Steps s (.deliver i true) { s with
        deliveries := s.deliveries.eraseIdx i
        diskCalls := s.diskCalls ++ [t]
        stored := s.stored ++ [{ t with carried := m }] }
  | dropped (i k : Nat) (ok : Bool) (t : Traced DomainEvent) :
      s.deliveries[i]? = some { target := .stream k, message := t } →
      Steps s (.deliver i ok) { s with deliveries := s.deliveries.eraseIdx i }
  | enqueue (i k : Nat) (t : Traced DomainEvent) (c : Connection) :
      s.deliveries[i]? = some { target := .stream k, message := t } →
      s.connections[k]? = some c →
      Steps s (.deliver i true) { s with
        deliveries := s.deliveries.eraseIdx i
        connections := s.connections.set k
          { c with connectedUserEvent := c.connectedUserEvent ++ [t] } }
  | send (k : Nat) (c : Connection) (t : Traced DomainEvent) (rest : List (Traced DomainEvent))
      (e : SanitizedMessage) : s.connections[k]? = some c →
      c.connectedUserEvent = t :: rest → t.carried = .sanitizedMessage e →
      Steps s (.push k true) { s with
        connections := s.connections.set k { c with
          connectedUserEvent := rest
          sent := c.sent ++ [{ t with carried := toChatEvent e }] } }
  | sendFails (k : Nat) (c : Connection) (t : Traced DomainEvent)
      (rest : List (Traced DomainEvent)) : s.connections[k]? = some c →
      c.connectedUserEvent = t :: rest →
      Steps s (.push k false) { s with
        registryCalls := s.registryCalls ++ [.unsubscribe c.userID c.room]
        connections := s.connections.set k { c with connectedUserEvent := rest, isOpen := false } }
  | passOver (k : Nat) (ok : Bool) (c : Connection) (t : Traced DomainEvent)
      (rest : List (Traced DomainEvent)) : s.connections[k]? = some c →
      c.connectedUserEvent = t :: rest →
      Steps s (.push k ok) { s with
        connections := s.connections.set k { c with connectedUserEvent := rest } }
  | stop (phase : StopPhase) : s.phase.next = some phase →
      Steps s .stop { s with phase := phase }

variable {o} {s t : ServerState}

theorem clientStep_steps {a : ClientAction} (h : o.clientStep s a = some t) :
    o.Steps s (.client a) t := by
  cases a with
  | post cmd admitted =>
    simp only [clientStep] at h
    split at h
    · cases h
      exact .rejected cmd admitted
    · rename_i command hPost
      obtain ⟨rfl, rfl⟩ := postMessage_ok hPost
      split at h
      · cases h
      · cases h
        exact .post cmd (Bool.eq_false_of_not_eq_true ‹_›)
  | analyze e =>
    simp only [clientStep] at h
    split at h
    · cases h
    · cases h
      exact .analyze e (Bool.eq_false_of_not_eq_true ‹_›)
  | respond segment =>
    simp only [clientStep] at h
    split at h
    · cases h
    · cases h
      exact .respond segment (Bool.eq_false_of_not_eq_true ‹_›)
  | connect userID room =>
    cases h
    exact .connect userID room
  | disconnect k =>
    simp only [clientStep] at h
    split at h
    · cases h
    · split at h
      · cases h
        exact .disconnect k _ ‹_›
      · cases h

theorem fanoutStep_steps {a : FanoutAction} (h : o.fanoutStep s a = some t) :
    o.Steps s (.fanout a) t := by
  cases a with
  | start =>
    obtain ⟨crew, hStart, rfl⟩ := Option.map_eq_some_iff.mp h
    exact .start crew hStart
  | receive =>
    simp only [fanoutStep] at h
    split at h
    · cases h
    · obtain ⟨crew, hTake, rfl⟩ := Option.map_eq_some_iff.mp h
      exact .receive _ _ crew ‹_› hTake
  | fanout i order =>
    simp only [fanoutStep] at h
    split at h
    · split at h
      · cases h
        exact .fanout i order _ ‹_› ‹_›
      · cases h
    · cases h
  | consume i =>
    simp only [fanoutStep] at h
    split at h
    · obtain ⟨b, hBuffer, rfl⟩ := Option.map_eq_some_iff.mp h
      exact .consume i _ b ‹_› hBuffer
    · cases h
  | enrich i =>
    simp only [fanoutStep] at h
    split at h
    · cases h
      exact .enrich i _ ‹_›
    · cases h
  | returned i =>
    simp only [fanoutStep] at h
    split at h
    · split at h
      · cases h
      · cases h
        exact .returned i _ ‹_› ‹_›
    · cases h
  | recovered i =>
    simp only [fanoutStep] at h
    split at h
    · split at h
      · cases h
        exact .recovered i _ ‹_› ‹_›
      · cases h
    · cases h
  | quit =>
    simp only [fanoutStep] at h
    split at h
    · rename_i hClosed
      obtain ⟨crew, hQuit, rfl⟩ := Option.map_eq_some_iff.mp h
      rw [Bool.and_eq_true, List.isEmpty_iff] at hClosed
      exact .quit crew hClosed.1 hClosed.2 hQuit
    · cases h

theorem deliverStep_steps {i : Nat} {ok : Bool} (h : deliverStep s i ok = some t) :
    o.Steps s (.deliver i ok) t := by
  rw [deliverStep] at h
  split at h
  · cases h
  · split at h
    · cases h
      exact .store i _ _ ‹_› ‹_›
    · cases h
      exact .unstored i _ _ ‹_›
  · split at h
    · cases h
      exact .enqueue i _ _ _ ‹_› ‹_›
    · cases h
      exact .dropped i _ _ _ ‹_›

theorem pushStep_steps {k : Nat} {ok : Bool} (h : pushStep s k ok = some t) :
    o.Steps s (.push k ok) t := by
  rw [pushStep] at h
  split at h
  · cases h
  · split at h
    · split at h
      · cases h
        exact .send k _ _ _ _ ‹_› ‹_› ‹_›
      · cases h
        exact .sendFails k _ _ _ ‹_› ‹_›
      · cases h
        exact .passOver k _ _ _ _ ‹_› ‹_›
    · cases h

theorem steps_of_step {a : ServerAction} (h : o.step s a = some t) : o.Steps s a t := by
  cases a with
  | client a => exact clientStep_steps h
  | pool a =>
    obtain ⟨r, hRelay, rfl⟩ := Option.map_eq_some_iff.mp h
    exact .pool a r (Relay.step_effect hRelay)
  | moderation a =>
    obtain ⟨r, hRelay, rfl⟩ := Option.map_eq_some_iff.mp h
    exact .moderation a r (Relay.step_effect hRelay)
  | fanout a => exact fanoutStep_steps h
  | buffer a =>
    cases a with
    | handleNewFile f => cases h
    | fire timer =>
      obtain ⟨b, hBuffer, rfl⟩ := Option.map_eq_some_iff.mp h
      exact .buffer _ b nofun hBuffer
    | lock k =>
      obtain ⟨b, hBuffer, rfl⟩ := Option.map_eq_some_iff.mp h
      exact .buffer _ b nofun hBuffer
    | proceed =>
      obtain ⟨b, hBuffer, rfl⟩ := Option.map_eq_some_iff.mp h
      exact .buffer _ b nofun hBuffer
    | storeBatch k ok =>
      obtain ⟨b, hBuffer, rfl⟩ := Option.map_eq_some_iff.mp h
      exact .buffer _ b nofun hBuffer
  | deliver i ok => exact deliverStep_steps h
  | push k ok => exact pushStep_steps h
  | stop =>
    obtain ⟨phase, hNext, rfl⟩ := Option.map_eq_some_iff.mp h
    exact .stop phase hNext

end Orchestrator

end ChatLab.Runtime

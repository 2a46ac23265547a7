import ChatLab.Foundation.Bag
import ChatLab.Foundation.Machine
import ChatLab.Moderation.Censor
import ChatLab.Sink.AnalysisSink
import ChatLab.Workers.ChatPipeline

/-!
# Telemetry and the censorship counters

Moderated messages and file events reach the fan-out over the event channel.
The fan-out offers each event, as it came, to the telemetry channel, where the
monitoring workers and the supervisor offer their own. The telemetry worker
takes the events one by one and gives each to all its handlers, some of which
count. A handler chooses by the type of the event before it looks at the
payload, and the moderation worker gives its events the type `DomainType`.

An offer is lost when the channel is full or the context is cancelled. The
event channel has no bound here: its senders wait, so that a bound only takes
runs away. The lists `posted`, `handled` and `lost` are ghosts.
-/

namespace ChatLab.Workers.Telemetry

open Foundation Foundation.Bag Sink

/-! ## Events -/

inductive EventType
  | domainType
  | censorshipHitType
  | messageSentType
  | fileAnalyzeType
  | analysisSegmentType
  | restartedAfterPanicType
  | channelCapacityType
  | pidTrackerType
deriving DecidableEq

inductive PIDStatus
  | running
  | sleep
  | stop
  | idle
  | zombie
  | wait
  | lock
  | unknown
deriving DecidableEq

def toPIDStatus (status : String) : PIDStatus :=
  if status ∈ ["R", "RUNNING"] then .running
  else if status ∈ ["S", "SLEEP", "SLEEPING"] then .sleep
  else if status ∈ ["T", "STOP", "STOPPED"] then .stop
  else if status ∈ ["I", "IDLE"] then .idle
  else if status ∈ ["Z", "ZOMBIE"] then .zombie
  else if status = "W" then .wait
  else if status = "L" then .lock
  else .unknown

structure ChannelCapacity where
  channelName : String
  capacity : Int
  length : Int
deriving DecidableEq

structure ProcessTracker where
  pid : Int32
  metric : Metric
  status : PIDStatus
  cpu : Float64
  ram : UInt64
deriving DecidableEq

inductive Payload
  | sanitizedMessage (evt : SanitizedMessage)
  | messageSent
  | fileAnalyse (evt : FileAnalyse)
  | analysisSegment (evt : AnalysisSegment)
  | workerRestartedAfterPanic (workerName : String)
  | channelCapacity (evt : ChannelCapacity)
  | processTracker (evt : ProcessTracker)
deriving DecidableEq

structure Event where
  type : EventType
  createdAt : Int
  payload : Payload
deriving DecidableEq

/-- The event that `processAndSanitize` returns. -/
def sanitizedEvent (censor : String → String × List String) (evt : MessagePosted)
    (score : Float64) (now : Int) : Event where
  type := .domainType
  createdAt := now
  payload := .sanitizedMessage (processAndSanitize censor evt score)

def toCapacityEvent (name : String) (capacity length now : Int) : Event where
  type := .channelCapacityType
  createdAt := now
  payload := .channelCapacity { channelName := name, capacity := capacity, length := length }

def toProcessTrackerEvent (pid : Int32) (metric : Metric) (status : String) (cpu : Float64)
    (ram : UInt64) (now : Int) : Event where
  type := .pidTrackerType
  createdAt := now
  payload := .processTracker
    { pid := pid, metric := metric, status := toPIDStatus status, cpu := cpu, ram := ram }

/-! ## Handlers -/

structure Counter where
  eventCount : EventType → UInt64
  wordHits : String → UInt64

def newCounter : Counter where
  eventCount _ := 0
  wordHits _ := 0

namespace Counter

def increment (c : Counter) (evt : EventType) : Counter :=
  { c with eventCount := fun t => if t = evt then c.eventCount t + 1 else c.eventCount t }

def incrementHits (c : Counter) (word : String) : Counter :=
  { c with wordHits := fun w => if w = word then c.wordHits w + 1 else c.wordHits w }

def get (c : Counter) (evt : EventType) : UInt64 := c.eventCount evt

end Counter

/-- The fields that `MergeExternalStats` takes over. -/
structure MonitoringStats where
  processingCount : UInt32
  maxCapacity : UInt32
  currentQueueSize : Int
deriving DecidableEq

inductive LogLine
  | invalidPayload
  | statsMerged (currentQueueSize : Int) (maxCapacity : UInt32)
  | channelUsage (evt : ChannelCapacity)
  | capacityLeft (n : Int)
  | specialist (evt : ProcessTracker)
  | processingLatency (room : Int) (author : String) (leadTime : Int)
  | highLatency (leadTime : Int)
  | restarted (workerName : String) (total : UInt64)
deriving DecidableEq

/-- What the handlers write to. -/
structure Observed where
  counter : Counter
  latestStats : MonitoringStats
  log : List LogLine

def Observed.print (o : Observed) (line : LogLine) : Observed :=
  { o with log := o.log ++ [line] }

def mergeExternalStats (o : Observed) (stats : MonitoringStats) : Observed :=
  { o with latestStats := stats }.print (.statsMerged stats.currentQueueSize stats.maxCapacity)

def channelCapacityHandle (lowCapacityThreshold : Int) (e : Event) (o : Observed) : Observed :=
  if e.type = .channelCapacityType then
    match e.payload with
    | .channelCapacity evt =>
      let stats := { processingCount := 0, maxCapacity := UInt32.ofInt evt.capacity,
                     currentQueueSize := evt.length }
      let o := (mergeExternalStats o stats).print (.channelUsage evt)
      let capacityLeft := evt.capacity - evt.length
      -- a channel without buffer has no capacity to warn about
      if evt.capacity ≤ 0 then o
      else if 0 < capacityLeft ∧ capacityLeft ≤ lowCapacityThreshold then
        o.print (.capacityLeft capacityLeft)
      else o
    | _ => o.print .invalidPayload
  else o

def processTrackerHandle (e : Event) (o : Observed) : Observed :=
  if e.type = .pidTrackerType then
    match e.payload with
    | .processTracker evt => o.print (.specialist evt)
    | _ => o.print .invalidPayload
  else o

def censoredHandle (e : Event) (o : Observed) : Observed :=
  if e.type = .censorshipHitType then
    match e.payload with
    | .sanitizedMessage evt =>
      if evt.censoredWords = [] then o
      else
        let counter := o.counter.increment .censorshipHitType
        { o with counter := evt.censoredWords.foldl Counter.incrementHits counter }
    | _ => o.print .invalidPayload
  else o

/-- This handler goes by the payload alone. -/
def latencyHandle (latencyThreshold now : Int) (e : Event) (o : Observed) : Observed :=
  match e.payload with
  | .sanitizedMessage evt =>
    let leadTime := now - evt.atTime
    let o := o.print (.processingLatency evt.room evt.author leadTime)
    if latencyThreshold < leadTime then o.print (.highLatency leadTime) else o
  | _ => o

/-- A wrong payload is reported and still counted. -/
def messageSentHandle (e : Event) (o : Observed) : Observed :=
  if e.type = .messageSentType then
    let o := if e.payload = .messageSent then o else o.print .invalidPayload
    { o with counter := o.counter.increment .messageSentType }
  else o

def workerRestartedAfterPanicHandle (e : Event) (o : Observed) : Observed :=
  if e.type = .restartedAfterPanicType then
    match e.payload with
    | .workerRestartedAfterPanic workerName =>
      let counter := o.counter.increment .restartedAfterPanicType
      { o with counter := counter }.print
        (.restarted workerName (counter.get .restartedAfterPanicType))
    | _ => o.print .invalidPayload
  else o

structure Config where
  lowCapacityThreshold : Int
  latencyThreshold : Int
  bufferSize : Nat

/-- The handlers of `prepareTelemetry`, in their order. -/
def handlers (cfg : Config) (now : Int) : List (Event → Observed → Observed) :=
  [channelCapacityHandle cfg.lowCapacityThreshold, processTrackerHandle, censoredHandle,
    latencyHandle cfg.latencyThreshold now, messageSentHandle, workerRestartedAfterPanicHandle]

def handle (cfg : Config) (now : Int) (e : Event) (o : Observed) : Observed :=
  (handlers cfg now).foldl (fun o h => h e o) o

/-! ## Channels -/

structure TelemetryState where
  cancelled : Bool
  eventChan : List Event
  -- events in the hands of fan-out workers
  held : List Event
  telemetryChan : List Event
  observed : Observed
  posted : List MessagePosted
  handled : List Event
  lost : List Event

/-- How the `select` around a send to the telemetry channel ends. -/
inductive Offer
  | queued
  -- to the telemetry worker that waits for an event
  | handed (now : Int)
  | lost
deriving DecidableEq

inductive TelemetryAction
  | cancel
  | moderate (evt : MessagePosted) (score : Float64) (now : Int)
  | analyse (evt : FileAnalyse) (now : Int)
  | segment (evt : AnalysisSegment) (now : Int)
  | take
  | forward (i : Nat) (o : Offer)
  | reportCapacity (name : String) (capacity length now : Int) (o : Offer)
  | reportProcess (pid : Int32) (metric : Metric) (status : String) (cpu : Float64) (ram : UInt64)
      (now : Int) (o : Offer)
  | reportRestart (workerName : String) (now : Int) (o : Offer)
  | handle (now : Int)

def TelemetryState.emit (s : TelemetryState) (e : Event) : TelemetryState :=
  { s with eventChan := s.eventChan ++ [e] }

def TelemetryState.deliver (cfg : Config) (now : Int) (s : TelemetryState) (e : Event) :
    TelemetryState :=
  { s with observed := handle cfg now e s.observed, handled := s.handled ++ [e] }

def offer (cfg : Config) (s : TelemetryState) (e : Event) : Offer → Option TelemetryState
  | .queued =>
    if s.telemetryChan.length < cfg.bufferSize then
      some { s with telemetryChan := s.telemetryChan ++ [e] }
    else none
  | .handed now => if s.telemetryChan = [] then some (s.deliver cfg now e) else none
  | .lost =>
    if s.cancelled ∨ cfg.bufferSize ≤ s.telemetryChan.length then
      some { s with lost := s.lost ++ [e] }
    else none

section Machine

variable (cfg : Config) (censor : String → String × List String)

def step (s : TelemetryState) : TelemetryAction → Option TelemetryState
  | .cancel => some { s with cancelled := true }
  | .moderate evt score now => some { s.emit (sanitizedEvent censor evt score now) with
      posted := s.posted ++ [evt] }
  | .analyse evt now =>
    some (s.emit { type := .fileAnalyzeType, createdAt := now, payload := .fileAnalyse evt })
  | .segment evt now =>
    some (s.emit { type := .analysisSegmentType, createdAt := now,
                   payload := .analysisSegment evt })
  | .take =>
    match s.eventChan with
    | [] => none
    | e :: rest => some { s with eventChan := rest, held := s.held ++ [e] }
  | .forward i o =>
    match s.held[i]? with
    | none => none
    | some e => offer cfg { s with held := s.held.eraseIdx i } e o
  | .reportCapacity name capacity length now o =>
    offer cfg s (toCapacityEvent name capacity length now) o
  | .reportProcess pid metric status cpu ram now o =>
    offer cfg s (toProcessTrackerEvent pid metric status cpu ram now) o
  | .reportRestart workerName now o =>
    offer cfg s { type := .restartedAfterPanicType, createdAt := now,
                  payload := .workerRestartedAfterPanic workerName } o
  | .handle now =>
    match s.telemetryChan with
    | [] => none
    | e :: rest => some ({ s with telemetryChan := rest }.deliver cfg now e)

def machine : Machine TelemetryState TelemetryAction where
  start := { cancelled := false, eventChan := [], held := [], telemetryChan := [],
             observed := { counter := newCounter
                           latestStats := { processingCount := 0, maxCapacity := 0,
                                            currentQueueSize := 0 }
                           log := [] },
             posted := [], handled := [], lost := [] }
  step := step cfg censor

end Machine

/-! ## What the counters count -/

def Event.counted (e : Event) : List EventType :=
  match e.type, e.payload with
  | .censorshipHitType, .sanitizedMessage evt =>
    if evt.censoredWords = [] then [] else [.censorshipHitType]
  | .messageSentType, _ => [.messageSentType]
  | .restartedAfterPanicType, .workerRestartedAfterPanic _ => [.restartedAfterPanicType]
  | _, _ => []

def Event.hits (e : Event) : List String :=
  match e.type, e.payload with
  | .censorshipHitType, .sanitizedMessage evt => evt.censoredWords
  | _, _ => []

/-- The counter after these types and words. -/
def Counter.add (c : Counter) (types : List EventType) (words : List String) : Counter where
  eventCount t := c.eventCount t + UInt64.ofNat (types.count t)
  wordHits w := c.wordHits w + UInt64.ofNat (words.count w)

theorem Counter.add_nil (c : Counter) : c.add [] [] = c := by
  simp [Counter.add]

theorem Counter.add_add (c : Counter) (types more : List EventType) (words others : List String) :
    (c.add types words).add more others = c.add (types ++ more) (words ++ others) := by
  simp only [Counter.add, List.count_append, UInt64.ofNat_add, UInt64.add_assoc]

theorem Counter.increment_eq_add (c : Counter) (evt : EventType) :
    c.increment evt = c.add [evt] [] := by
  have hCount : ∀ t, (if t = evt then c.eventCount t + 1 else c.eventCount t) =
      c.eventCount t + UInt64.ofNat ([evt].count t) := by
    intro t
    by_cases h : t = evt
    · simp [h]
    · simp [h, Ne.symm h]
  simp [Counter.increment, Counter.add, hCount]

theorem Counter.incrementHits_eq_add (c : Counter) (word : String) :
    c.incrementHits word = c.add [] [word] := by
  have hCount : ∀ w, (if w = word then c.wordHits w + 1 else c.wordHits w) =
      c.wordHits w + UInt64.ofNat ([word].count w) := by
    intro w
    by_cases h : w = word
    · simp [h]
    · simp [h, Ne.symm h]
  simp [Counter.incrementHits, Counter.add, hCount]

theorem Counter.foldl_incrementHits (words : List String) (c : Counter) :
    words.foldl Counter.incrementHits c = c.add [] words := by
  induction words generalizing c with
  | nil => exact c.add_nil.symm
  | cons word words ih =>
    rw [List.foldl_cons, ih, c.incrementHits_eq_add word, Counter.add_add]
    rfl

variable {e : Event} {o : Observed}

theorem channelCapacityHandle_counter (lowCapacityThreshold : Int) :
    (channelCapacityHandle lowCapacityThreshold e o).counter = o.counter := by
  rw [channelCapacityHandle]
  split
  · split
    · dsimp only
      split
      · rfl
      · split
        · rfl
        · rfl
    · rfl
  · rfl

theorem processTrackerHandle_counter : (processTrackerHandle e o).counter = o.counter := by
  rw [processTrackerHandle]
  split
  · split
    · rfl
    · rfl
  · rfl

theorem latencyHandle_counter (latencyThreshold now : Int) :
    (latencyHandle latencyThreshold now e o).counter = o.counter := by
  rw [latencyHandle]
  split
  · dsimp only
    split
    · rfl
    · rfl
  · rfl

theorem censoredHandle_counter (h : e.type = .censorshipHitType) :
    (censoredHandle e o).counter = o.counter.add e.counted e.hits := by
  rw [censoredHandle, if_pos h, Event.counted, Event.hits, h]
  cases e.payload with
  | sanitizedMessage evt =>
    dsimp only
    by_cases hWords : evt.censoredWords = []
    · rw [if_pos hWords, if_pos hWords, hWords, Counter.add_nil]
    · rw [if_neg hWords, if_neg hWords]
      rw [Counter.foldl_incrementHits, Counter.increment_eq_add, Counter.add_add]
      rfl
  | _ => exact (Counter.add_nil _).symm

theorem messageSentHandle_counter (h : e.type = .messageSentType) :
    (messageSentHandle e o).counter = o.counter.add e.counted e.hits := by
  rw [messageSentHandle, if_pos h, Event.counted, Event.hits, h]
  dsimp only
  rw [Counter.increment_eq_add]
  split
  · rfl
  · rfl

theorem workerRestartedAfterPanicHandle_counter (h : e.type = .restartedAfterPanicType) :
    (workerRestartedAfterPanicHandle e o).counter = o.counter.add e.counted e.hits := by
  rw [workerRestartedAfterPanicHandle, if_pos h, Event.counted, Event.hits, h]
  cases e.payload with
  | workerRestartedAfterPanic workerName => exact Counter.increment_eq_add _ _
  | _ => exact (Counter.add_nil _).symm

/-- The six handlers together count what the event says by its type. -/
theorem handle_counter (cfg : Config) (now : Int) (e : Event) (o : Observed) :
    (handle cfg now e o).counter = o.counter.add e.counted e.hits := by
  simp only [handle, handlers, List.foldl_cons, List.foldl_nil]
  generalize hQuiet : processTrackerHandle e (channelCapacityHandle cfg.lowCapacityThreshold e o)
    = quiet
  have hSame : quiet.counter = o.counter := by
    rw [← hQuiet, processTrackerHandle_counter, channelCapacityHandle_counter]
  by_cases hCensored : e.type = .censorshipHitType
  · have hLast : ∀ o', workerRestartedAfterPanicHandle e (messageSentHandle e o') = o' := by
      intro o'
      simp [workerRestartedAfterPanicHandle, messageSentHandle, hCensored]
    rw [hLast, latencyHandle_counter, censoredHandle_counter hCensored, hSame]
  · have hFirst : censoredHandle e quiet = quiet := if_neg hCensored
    rw [hFirst]
    by_cases hSent : e.type = .messageSentType
    · have hLast : ∀ o', workerRestartedAfterPanicHandle e o' = o' := by
        intro o'
        simp [workerRestartedAfterPanicHandle, hSent]
      rw [hLast, messageSentHandle_counter hSent, latencyHandle_counter, hSame]
    · have hMiddle : ∀ o', messageSentHandle e o' = o' := fun _ => if_neg hSent
      rw [hMiddle]
      by_cases hRestarted : e.type = .restartedAfterPanicType
      · rw [workerRestartedAfterPanicHandle_counter hRestarted, latencyHandle_counter, hSame]
      · have hNone : e.counted = [] ∧ e.hits = [] := by
          rw [Event.counted, Event.hits]
          cases hType : e.type <;> simp_all
        have hLast : ∀ o', workerRestartedAfterPanicHandle e o' = o' := fun _ => if_neg hRestarted
        rw [hLast, latencyHandle_counter, hSame, hNone.1, hNone.2, Counter.add_nil]

/-! ## Types and payloads -/

/-- The type that the producers give to an event with this payload. -/
def Payload.type : Payload → EventType
  | .sanitizedMessage _ => .domainType
  | .messageSent => .messageSentType
  | .fileAnalyse _ => .fileAnalyzeType
  | .analysisSegment _ => .analysisSegmentType
  | .workerRestartedAfterPanic _ => .restartedAfterPanicType
  | .channelCapacity _ => .channelCapacityType
  | .processTracker _ => .pidTrackerType

def Event.Typed (e : Event) : Prop := e.type = e.payload.type

theorem Event.Typed.not_hit (h : e.Typed) : e.type ≠ .censorshipHitType := by
  rw [Event.Typed] at h
  rw [h]
  cases e.payload with
  | _ => exact nofun

theorem Event.Typed.hits_eq_nil (h : e.Typed) : e.hits = [] := by
  rw [Event.hits]
  split
  · exact absurd ‹_› h.not_hit
  · rfl

theorem Event.Typed.not_mem_counted (h : e.Typed) : .censorshipHitType ∉ e.counted := by
  rw [Event.counted]
  split
  · exact absurd ‹_› h.not_hit
  · exact List.not_mem_cons_of_ne_of_not_mem nofun List.not_mem_nil
  · exact List.not_mem_cons_of_ne_of_not_mem nofun List.not_mem_nil
  · exact List.not_mem_nil

def countedIn (events : List Event) : List EventType := events.flatMap Event.counted

def hitsIn (events : List Event) : List String := events.flatMap Event.hits

structure TelemetryState.Sound (s : TelemetryState) : Prop where
  counter : s.observed.counter = newCounter.add (countedIn s.handled) (hitsIn s.handled)
  eventChan : ∀ e ∈ s.eventChan, e.Typed
  held : ∀ e ∈ s.held, e.Typed
  telemetryChan : ∀ e ∈ s.telemetryChan, e.Typed
  handled : ∀ e ∈ s.handled, e.Typed

section Run

variable {cfg : Config} {censor : String → String × List String} {s t : TelemetryState}

theorem TelemetryState.Sound.emit (h : s.Sound) (he : e.Typed) : (s.emit e).Sound :=
  { h with eventChan := forall_mem_concat h.eventChan he }

theorem TelemetryState.Sound.deliver (h : s.Sound) (he : e.Typed) (now : Int) :
    (s.deliver cfg now e).Sound := by
  refine { h with counter := ?_, handled := forall_mem_concat h.handled he }
  change (handle cfg now e s.observed).counter =
    newCounter.add (countedIn (s.handled ++ [e])) (hitsIn (s.handled ++ [e]))
  rw [handle_counter, h.counter, Counter.add_add]
  simp only [countedIn, hitsIn, List.flatMap_append, List.flatMap_cons, List.flatMap_nil,
    List.append_nil]

theorem TelemetryState.Sound.offer (h : s.Sound) (he : e.Typed) {how : Offer}
    (hOffer : offer cfg s e how = some t) : t.Sound := by
  cases how with
  | queued =>
    rw [Telemetry.offer] at hOffer
    split at hOffer
    · cases hOffer
      exact { h with telemetryChan := forall_mem_concat h.telemetryChan he }
    · cases hOffer
  | handed now =>
    rw [Telemetry.offer] at hOffer
    split at hOffer
    · cases hOffer
      exact h.deliver he now
    · cases hOffer
  | lost =>
    rw [Telemetry.offer] at hOffer
    split at hOffer
    · cases hOffer
      exact { h with }
    · cases hOffer

theorem TelemetryState.Sound.step (h : s.Sound) {a : TelemetryAction}
    (hStep : step cfg censor s a = some t) : t.Sound := by
  cases a with
  | cancel =>
    cases hStep
    exact { h with }
  | moderate evt score now =>
    cases hStep
    exact { h.emit (e := sanitizedEvent censor evt score now) rfl with }
  | analyse evt now =>
    cases hStep
    exact h.emit rfl
  | segment evt now =>
    cases hStep
    exact h.emit rfl
  | take =>
    simp only [Telemetry.step] at hStep
    split at hStep
    · cases hStep
    · rename_i e rest hChan
      cases hStep
      have hTyped := h.eventChan
      rw [hChan] at hTyped
      exact { h with
        eventChan := fun e' hMem => hTyped e' (List.mem_cons_of_mem _ hMem)
        held := forall_mem_concat h.held (hTyped e List.mem_cons_self) }
  | forward i how =>
    simp only [Telemetry.step] at hStep
    split at hStep
    · cases hStep
    · rename_i e hHeld
      have hRest : TelemetryState.Sound { s with held := s.held.eraseIdx i } :=
        { h with held := fun e' hMem => h.held e' (List.mem_of_mem_eraseIdx hMem) }
      exact hRest.offer (h.held e (List.mem_of_getElem? hHeld)) hStep
  | reportCapacity name capacity length now how =>
    exact h.offer (e := toCapacityEvent name capacity length now) rfl hStep
  | reportProcess pid metric status cpu ram now how =>
    exact h.offer (e := toProcessTrackerEvent pid metric status cpu ram now) rfl hStep
  | reportRestart workerName now how =>
    refine TelemetryState.Sound.offer h ?_ hStep
    rfl
  | handle now =>
    simp only [Telemetry.step] at hStep
    split at hStep
    · cases hStep
    · rename_i e rest hChan
      cases hStep
      have hTyped := h.telemetryChan
      rw [hChan] at hTyped
      have hRest : TelemetryState.Sound { s with telemetryChan := rest } :=
        { h with telemetryChan := fun e' hMem => hTyped e' (List.mem_cons_of_mem _ hMem) }
      exact hRest.deliver (hTyped e List.mem_cons_self) now

theorem sound_of_reachable (h : (machine cfg censor).Reachable s) : s.Sound := by
  refine Machine.Reachable.invariant (I := TelemetryState.Sound) ?_ ?_ h
  · exact { counter := newCounter.add_nil.symm
            eventChan := fun _ he => absurd he List.not_mem_nil
            held := fun _ he => absurd he List.not_mem_nil
            telemetryChan := fun _ he => absurd he List.not_mem_nil
            handled := fun _ he => absurd he List.not_mem_nil }
  · exact fun s a t hs hStep => hs.step hStep

/-- No producer gives an event the type that the censorship handler counts. -/
theorem censorship_counters_zero (h : (machine cfg censor).Reachable s) :
    (∀ word, s.observed.counter.wordHits word = 0) ∧
      s.observed.counter.get .censorshipHitType = 0 := by
  have hSound := sound_of_reachable h
  have hHits : hitsIn s.handled = [] :=
    List.flatMap_eq_nil_iff.mpr fun e he => (hSound.handled e he).hits_eq_nil
  have hCounted : (countedIn s.handled).count .censorshipHitType = 0 := by
    rw [List.count_eq_zero, countedIn, List.mem_flatMap]
    rintro ⟨e, he, hMem⟩
    exact (hSound.handled e he).not_mem_counted hMem
  constructor
  · intro word
    rw [hSound.counter, hHits]
    rfl
  · rw [Counter.get, hSound.counter]
    simp only [Counter.add, hCounted]
    rfl

end Run

/-! ## Statistics of the posted messages -/

section Statistics

variable (censor : String → String × List String)

/-- How often the moderator reported the word. -/
def reported (word : String) (posted : List MessagePosted) : Nat :=
  (posted.flatMap fun evt => (censor evt.content).2).count word

def censoredMessages (posted : List MessagePosted) : Nat :=
  posted.countP fun evt => (censor evt.content).2 ≠ []

def TelemetryState.Exact (s : TelemetryState) : Prop :=
  (∀ word, (s.observed.counter.wordHits word).toNat = reported censor word s.posted) ∧
    (s.observed.counter.get .censorshipHitType).toNat = censoredMessages censor s.posted

/-- No event is on its way and none was lost. -/
structure TelemetryState.Settled (s : TelemetryState) : Prop where
  eventChan : s.eventChan = []
  held : s.held = []
  telemetryChan : s.telemetryChan = []
  lost : s.lost = []

end Statistics

/-- The statistics are right as long as there is nothing to count. -/
theorem censorship_statistics_exact_iff {cfg : Config} {censor : String → String × List String}
    {s : TelemetryState} (h : (machine cfg censor).Reachable s) :
    s.Exact censor ↔ ∀ evt ∈ s.posted, (censor evt.content).2 = [] := by
  obtain ⟨hHits, hCount⟩ := censorship_counters_zero h
  rw [TelemetryState.Exact, hCount]
  constructor
  · rintro ⟨-, hNone⟩ evt hPosted
    have hZero := List.countP_eq_zero.mp hNone.symm evt hPosted
    simpa using hZero
  · intro hEmpty
    constructor
    · intro word
      rw [hHits, reported, List.flatMap_eq_nil_iff.mpr hEmpty]
      rfl
    · refine (List.countP_eq_zero.mpr ?_).symm
      intro evt hPosted
      simp [hEmpty evt hPosted]

def badgerCensor (content : String) : String × List String :=
  match Moderation.badgerModerator.censor Moderation.ascii content.toList with
  | none => (content, [])
  | some (out, found) => (String.ofList out, (found.getD []).map String.ofList)

def sampleConfig : Config where
  lowCapacityThreshold := 1
  latencyThreshold := 100
  bufferSize := 1

def samplePosted (content : String) : MessagePosted where
  id := UUID.nil
  room := 1
  author := "a"
  content := content
  atTime := 5

/-- One message that is moderated, forwarded and handled. -/
def messageRun (content : String) : List TelemetryAction :=
  [.moderate (samplePosted content) 0 6, .take, .forward 0 .queued, .handle 7]

def sampleState (content : String) : TelemetryState :=
  (machine sampleConfig badgerCensor).after (messageRun content)

theorem censorship_statistics_exact_iff_plain :
    (sampleState "hello").posted = [samplePosted "hello"] ∧
      (sampleState "hello").Exact badgerCensor := by
  have hPosted : (sampleState "hello").posted = [samplePosted "hello"] := by decide +kernel
  refine ⟨hPosted, (censorship_statistics_exact_iff
    ((machine sampleConfig badgerCensor).reachable_after (messageRun "hello"))).mpr ?_⟩
  intro evt hMem
  have hSample : evt ∈ [samplePosted "hello"] := hPosted ▸ hMem
  rw [List.mem_singleton.mp hSample]
  decide +kernel

/-- The moderator reports a word, the event reaches every handler, and nothing
is counted. -/
theorem censorship_hit_not_counted :
    (sampleState "a badger").Settled ∧
    (sampleState "a badger").handled =
      [sanitizedEvent badgerCensor (samplePosted "a badger") 0 6] ∧
    reported badgerCensor "badger" (sampleState "a badger").posted = 1 ∧
    censoredMessages badgerCensor (sampleState "a badger").posted = 1 ∧
    (sampleState "a badger").observed.counter.wordHits "badger" = 0 ∧
    (sampleState "a badger").observed.counter.get .censorshipHitType = 0 := by
  refine ⟨⟨?_, ?_, ?_, ?_⟩, ?_, ?_, ?_, ?_, ?_⟩
  all_goals decide +kernel

end ChatLab.Workers.Telemetry

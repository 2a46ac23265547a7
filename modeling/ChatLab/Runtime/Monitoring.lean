import ChatLab.Grpc.Sessions
import ChatLab.Runtime.Boot
import ChatLab.Workers.Telemetry

/-!
# What the monitoring page shows

The health worker takes the processes of the specialists from the channel that
`Init` filled. At each tick it visits the processes in the order of the map,
and enters a specialist into the table of nodes when the telemetry channel has
room for its sample. Other nodes report themselves over gRPC, the scanner with
its heartbeats. The page reads the table at any time.

What the operating system answers, which case a `select` takes and whether the
telemetry channel has room come with a step. An entry in the table reads the
clock anew, after the event of the sample was made or the token of the report was
looked at; its time comes with the step as well. The list `log` is a ghost: it
has every entry made in the table, with where it came from.
-/

namespace ChatLab.Runtime.Monitoring

open Foundation Auth Grpc
open Boot (PID Process)
open Services (Parser)
open Sessions (Transparent)
open Workers.Telemetry (PIDStatus toPIDStatus toProcessTrackerEvent)

/-! ## Nodes -/

abbrev NodeType := String

def scanner : NodeType := "SCANNER"

def specialist : NodeType := "SPECIALIST"

inductive NodeStatus
  | unset
  | alive
  | dead
  | ghost
deriving DecidableEq

structure NodeHealth where
  id : String
  type : NodeType
  status : NodeStatus := .unset
  pidStatus : PIDStatus
  pid : Int64
  cpu : Float64
  ram : UInt64
  lastSeen : Int := 0
  itemsProcessed : UInt64
  currentLoad : UInt32 := 0
  queueSize : UInt32
  maxCapacity : UInt32 := 0
  currentItemName : String := ""
deriving DecidableEq

abbrev Nodes := OrderedMap String NodeHealth

/-- The node as `UpdateNode` enters it. -/
def NodeHealth.seen (n : NodeHealth) (now : Int) : NodeHealth :=
  { n with lastSeen := now, status := .alive }

def updateNode (now : Int) (nodes : Nodes) (n : NodeHealth) : Nodes :=
  nodes.insert n.id (n.seen now)

/-- Fifteen seconds. -/
def ghostAfter : Int := 15 * 1000000000

def NodeHealth.shown (n : NodeHealth) (now : Int) : NodeHealth :=
  if now - n.lastSeen > ghostAfter then { n with status := .ghost } else n

def getSnapshot (now : Int) (nodes : Nodes) : Nodes :=
  OrderedMap.empty.insertAll (nodes.entries.map fun e => (e.1, e.2.shown now))

/-! ## Samples, reports and heartbeats -/

/-- What the operating system answers about a process. -/
structure Stats where
  status : Except String String
  cpuPercent : Except String Float64
  memoryInfo : Except String UInt64

def Stats.read (p : Stats) : Except String (String × Float64 × UInt64) := do
  let status ← p.status
  let cpu ← p.cpuPercent
  let ram ← p.memoryInfo
  return (status, cpu, ram)

def getScannerSelfStats (p : Stats) : Except String (UInt64 × Float64 × String) := do
  let rss ← p.memoryInfo
  let cpuPercent ← p.cpuPercent
  let status ← p.status
  return (rss, cpuPercent, status)

def specialistNode (pid : PID) (metric : Metric) (status : String) (cpu : Float64)
    (ram : UInt64) : NodeHealth where
  id := metric
  type := specialist
  pidStatus := toPIDStatus status
  pid := pid.toInt64
  cpu := cpu
  ram := ram
  itemsProcessed := 0
  queueSize := 0

/-- The message `NodeStatus`. -/
structure NodeReport where
  nodeId : String
  nodeType : String
  pid : Int64
  pidStatus : String
  cpuPercent : Float64
  ramBytes : UInt64
  itemsProcessed : UInt64
  currentLoad : UInt32 := 0
  queueSize : UInt32
  maxCapacity : UInt32
  currentItemName : String := ""

def reportedNode (req : NodeReport) : NodeHealth where
  id := req.nodeId
  type := req.nodeType
  pidStatus := toPIDStatus req.pidStatus
  pid := req.pid
  cpu := req.cpuPercent
  ram := req.ramBytes
  itemsProcessed := req.itemsProcessed
  currentLoad := req.currentLoad
  queueSize := req.queueSize
  maxCapacity := req.maxCapacity
  currentItemName := req.currentItemName

/-- The counters of the scanner that a heartbeat carries. -/
structure MonitoringStats where
  filesFound : UInt64
  currentQueueSize : Int
  maxCapacity : UInt32

def heartbeatReport (pid : Int64) (localStats : MonitoringStats) :
    UInt64 × Float64 × String → NodeReport
  | (rss, cpu, status) =>
    { nodeId := "scanner-01"
      nodeType := scanner
      pid := pid
      pidStatus := status
      cpuPercent := cpu
      ramBytes := rss
      itemsProcessed := localStats.filesFound
      queueSize := UInt32.ofInt localStats.currentQueueSize
      maxCapacity := localStats.maxCapacity }

/-! ## The worker and the server -/

/-- Where an entry came from, with the time of the sample or of the check. -/
inductive Source
  | sample (createdAt : Int)
  | report (ctx : Context) (checkedAt : Int)

structure State where
  now : Int
  cancelled : Bool
  stopped : Bool
  processTrackerChan : List Process
  processes : OrderedMap PID Metric
  -- the processes that the tick has still to visit
  sweep : List PID
  nodes : Nodes
  -- the samples that the telemetry channel took
  telemetry : List Workers.Telemetry.Event
  log : List (Source × NodeHealth)

/-- The case of the `select` that offers a sample. -/
inductive Offer
  | sent (entered : Int)
  | full
  | done
deriving DecidableEq

inductive Action
  | wait (time : Int)
  | cancel
  | receive
  | tick (order : List PID)
  | visit (p : Except String Stats) (offer : Offer)
  | stop
  | report (ctx : Context) (req : NodeReport) (entered : Int)
  | heartbeat (pid : Int64) (p : Stats) (localStats : MonitoringStats) (entered : Int)

def State.observe (s : State) (source : Source) (n : NodeHealth) (entered : Int) : State :=
  { s with
    now := entered
    nodes := updateNode entered s.nodes n
    log := s.log ++ [(source, n.seen entered)] }

def State.sample (s : State) (pid : PID) (metric : Metric) (status : String) (cpu : Float64)
    (ram : UInt64) (entered : Int) : State :=
  { s with telemetry := s.telemetry ++
      [toProcessTrackerEvent pid metric status cpu ram s.now] }.observe
    (.sample s.now) (specialistNode pid metric status cpu ram) entered

/-- The body of the loop over the processes. -/
def State.visit (s : State) (pid : PID) (p : Except String Stats) (offer : Offer) :
    Option State :=
  match s.processes.get? pid with
  | none => some s
  | some metric =>
    match p with
    | .error _ => some { s with processes := s.processes.erase pid }
    | .ok p =>
      match p.read with
      | .error _ => some s
      | .ok (status, cpu, ram) =>
        match offer with
        | .sent entered =>
          if s.now ≤ entered then some (s.sample pid metric status cpu ram entered) else none
        -- the default case is taken only when no other is ready
        | .full => if s.cancelled then none else some s
        | .done => if s.cancelled then some { s with sweep := [], stopped := true } else none

section Machine

variable (parse : Parser) (logging : UnaryInterceptor NodeReport Unit) (authEnabled : Bool)
  (transport : MD)

/-- A call of `ReportStatus`. -/
def State.call (s : State) (ctx : Context) (req : NodeReport) (entered : Int) : State :=
  let outcome :=
    serve (parse s.now) logging authEnabled reportStatus (fun _ _ => .ok ()) ctx req
  outcome.invoked.foldl
    (fun t _ => t.observe (.report ctx s.now) (reportedNode req) entered) s

/-- The scanner's client adds nothing to the metadata of the transport. -/
def scannerContext : Context := { incoming := some transport, userID := none, roles := none }

def step (s : State) : Action → Option State
  | .wait time => if s.now ≤ time then some { s with now := time } else none
  | .cancel => some { s with cancelled := true }
  | .receive =>
    match s.stopped, s.sweep, s.processTrackerChan with
    | false, [], p :: rest => some { s with
        processTrackerChan := rest
        processes := s.processes.insert p.pid p.metric }
    | _, _, _ => none
  | .tick order =>
    if s.stopped = false ∧ s.sweep = [] ∧ order.Perm s.processes.keys then
      some { s with sweep := order }
    else none
  | .visit p offer =>
    match s.sweep with
    | [] => none
    | pid :: rest => { s with sweep := rest }.visit pid p offer
  | .stop =>
    if s.cancelled = true ∧ s.stopped = false ∧ s.sweep = [] then
      some { s with stopped := true }
    else none
  | .report ctx req entered =>
    if s.now ≤ entered then some (s.call parse logging authEnabled ctx req entered) else none
  | .heartbeat pid p localStats entered =>
    match getScannerSelfStats p with
    | .error _ => some s
    | .ok stats =>
      if s.now ≤ entered then
        some (s.call parse logging authEnabled (scannerContext transport)
          (heartbeatReport pid localStats stats) entered)
      else none

def monitorMachine (began : Int) (tracked : List Process) : Machine State Action where
  start :=
    { now := began, cancelled := false, stopped := false, processTrackerChan := tracked,
      processes := .empty, sweep := [], nodes := .empty, telemetry := [], log := [] }
  step := step parse logging authEnabled transport

/-! ## What a step does -/

inductive Goes (s : State) : Action → State → Prop
  | waits (time : Int) : s.now ≤ time → Goes s (.wait time) { s with now := time }
  | cancels : Goes s .cancel { s with cancelled := true }
  | receives (p : Process) (rest : List Process) : s.processTrackerChan = p :: rest →
      Goes s .receive { s with
        processTrackerChan := rest
        processes := s.processes.insert p.pid p.metric }
  | ticks (order : List PID) : Goes s (.tick order) { s with sweep := order }
  | leaves (pid : PID) (rest : List PID) (metric : Metric) (e : String) (offer : Offer) :
      s.sweep = pid :: rest → s.processes.get? pid = some metric →
      Goes s (.visit (.error e) offer)
        { s with sweep := rest, processes := s.processes.erase pid }
  | samples (pid : PID) (rest : List PID) (metric : Metric) (p : Stats) (status : String)
      (cpu : Float64) (ram : UInt64) (entered : Int) : s.sweep = pid :: rest →
      s.processes.get? pid = some metric → s.now ≤ entered →
      Goes s (.visit (.ok p) (.sent entered))
        ({ s with sweep := rest }.sample pid metric status cpu ram entered)
  | passes (p : Except String Stats) (offer : Offer) (rest : List PID) (stopped : Bool) :
      Goes s (.visit p offer) { s with sweep := rest, stopped := stopped }
  | stops : Goes s .stop { s with stopped := true }
  | reports (ctx : Context) (req : NodeReport) (entered : Int) : s.now ≤ entered →
      Goes s (.report ctx req entered) (s.call parse logging authEnabled ctx req entered)
  | beats (pid : Int64) (p : Stats) (localStats : MonitoringStats) (entered : Int)
      (stats : UInt64 × Float64 × String) : s.now ≤ entered →
      Goes s (.heartbeat pid p localStats entered) (s.call parse logging authEnabled
        (scannerContext transport) (heartbeatReport pid localStats stats) entered)
  | misses (pid : Int64) (p : Stats) (localStats : MonitoringStats) (entered : Int) :
      Goes s (.heartbeat pid p localStats entered) s

variable {parse logging authEnabled transport} {s t u : State} {a : Action}

theorem goes_of_visit {pid : PID} {rest : List PID} {p : Except String Stats} {offer : Offer}
    (hSweep : s.sweep = pid :: rest) (h : { s with sweep := rest }.visit pid p offer = some t) :
    Goes parse logging authEnabled transport s (.visit p offer) t := by
  simp only [State.visit] at h
  split at h
  · obtain rfl := Option.some.inj h
    exact .passes p offer rest s.stopped
  · rename_i metric hMetric
    split at h
    · obtain rfl := Option.some.inj h
      exact .leaves pid rest metric _ offer hSweep hMetric
    · split at h
      · obtain rfl := Option.some.inj h
        exact .passes _ offer rest s.stopped
      · rename_i status cpu ram _
        cases offer with
        | sent entered =>
          simp only [Option.ite_none_right_eq_some] at h
          obtain rfl := Option.some.inj h.2
          exact .samples pid rest metric _ status cpu ram entered hSweep hMetric h.1
        | full =>
          simp only [Option.ite_none_left_eq_some] at h
          obtain rfl := Option.some.inj h.2
          exact .passes _ .full rest s.stopped
        | done =>
          simp only [Option.ite_none_right_eq_some] at h
          obtain rfl := Option.some.inj h.2
          exact .passes _ .done [] true

theorem goes_of_step (h : step parse logging authEnabled transport s a = some t) :
    Goes parse logging authEnabled transport s a t := by
  cases a with
  | wait time =>
    simp only [step, Option.ite_none_right_eq_some] at h
    obtain rfl := Option.some.inj h.2
    exact .waits time h.1
  | cancel =>
    obtain rfl := Option.some.inj h
    exact .cancels
  | receive =>
    simp only [step] at h
    split at h
    · rename_i p rest _ _ hChan
      obtain rfl := Option.some.inj h
      exact .receives p rest hChan
    · cases h
  | tick order =>
    simp only [step, Option.ite_none_right_eq_some] at h
    obtain rfl := Option.some.inj h.2
    exact .ticks order
  | visit p offer =>
    simp only [step] at h
    split at h
    · cases h
    · rename_i pid rest hSweep
      exact goes_of_visit hSweep h
  | stop =>
    simp only [step, Option.ite_none_right_eq_some] at h
    obtain rfl := Option.some.inj h.2
    exact .stops
  | report ctx req entered =>
    simp only [step, Option.ite_none_right_eq_some] at h
    obtain rfl := Option.some.inj h.2
    exact .reports ctx req entered h.1
  | heartbeat pid p localStats entered =>
    simp only [step] at h
    split at h
    · obtain rfl := Option.some.inj h
      exact .misses pid p localStats entered
    · rename_i stats _
      simp only [Option.ite_none_right_eq_some] at h
      obtain rfl := Option.some.inj h.2
      exact .beats pid p localStats entered stats h.1

variable (parse) in
/-- A call enters its node once or, refused for want of a valid token, not at all. -/
theorem State.call_cases (hLogging : Transparent logging) (s : State) (ctx : Context)
    (req : NodeReport) (entered : Int) :
    (authEnabled = true ∧ s.call parse logging authEnabled ctx req entered = s) ∨
      ((authEnabled = true → Authorized (parse s.now) ctx) ∧
        s.call parse logging authEnabled ctx req entered =
          s.observe (.report ctx s.now) (reportedNode req) entered) := by
  have hServe : serve (parse s.now) logging authEnabled reportStatus (fun _ _ => .ok ()) ctx req =
      authInterceptor (parse s.now) authEnabled ctx req reportStatus.fullMethod
        (recording fun _ _ => .ok ()) := hLogging _ _ _ _
  have hPublic : isPublicMethod reportStatus.fullMethod = false := by decide
  simp only [State.call, hServe, authInterceptor, hPublic, Bool.false_eq_true, if_false]
  cases authEnabled with
  | false =>
    right
    constructor
    · intro hOff
      cases hOff
    · rfl
  | true =>
    simp only [Bool.true_eq_false, if_false]
    split
    · exact .inl ⟨trivial, rfl⟩
    · rename_i md hIncoming
      split
      · exact .inl ⟨trivial, rfl⟩
      · rename_i value rest hValues
        split
        · exact .inl ⟨trivial, rfl⟩
        · rename_i claims hValid
          exact .inr ⟨fun _ => ⟨md, value, rest, claims, hIncoming, hValues, hValid⟩, rfl⟩

/-! ## The table and its history -/

/-- The sample that the entry of a specialist was made with. -/
def sampleEvent : Source × NodeHealth → Option Workers.Telemetry.Event
  | (.sample createdAt, n) => some
    { type := .pidTrackerType
      createdAt := createdAt
      payload := .processTracker
        { pid := n.pid.toInt32, metric := n.id, status := n.pidStatus, cpu := n.cpu,
          ram := n.ram } }
  | (.report _ _, _) => none

variable (parse authEnabled) in
/-- Where an entry may come from. -/
def Origin (tracked : List Process) : Source × NodeHealth → Prop
  | (.sample createdAt, n) => n.type = specialist ∧ createdAt ≤ n.lastSeen ∧
    ∃ p ∈ tracked, n.pid = p.pid.toInt64 ∧ n.id = p.metric
  | (.report ctx checkedAt, n) => checkedAt ≤ n.lastSeen ∧
    (authEnabled = true → Authorized (parse checkedAt) ctx)

variable (parse authEnabled) in
structure State.Sound (tracked : List Process) (s : State) : Prop where
  table : ∀ id, s.nodes.get? id = (Log.last? (fun e => e.2.id) s.log id).map Prod.snd
  entered : ∀ e ∈ s.log, e.2.status = .alive ∧ e.2.lastSeen ≤ s.now
  origin : ∀ e ∈ s.log, Origin parse authEnabled tracked e
  telemetry : s.telemetry = s.log.filterMap sampleEvent
  queued : s.processTrackerChan ⊆ tracked
  watched : ∀ pid metric, s.processes.get? pid = some metric →
    { pid := pid, metric := metric } ∈ tracked

variable {tracked : List Process}

/-- A step that enters nothing keeps the table and its history. -/
theorem State.Sound.frame (h : s.Sound parse authEnabled tracked) (hNodes : t.nodes = s.nodes)
    (hLog : t.log = s.log) (hTelemetry : t.telemetry = s.telemetry) (hNow : s.now ≤ t.now)
    (hQueued : t.processTrackerChan ⊆ tracked)
    (hWatched : ∀ pid metric, t.processes.get? pid = some metric →
      { pid := pid, metric := metric } ∈ tracked) : t.Sound parse authEnabled tracked where
  table := by
    rw [hNodes, hLog]
    exact h.table
  entered e he := by
    obtain ⟨hAlive, hSeen⟩ := h.entered e (hLog ▸ he)
    exact ⟨hAlive, hSeen.trans hNow⟩
  origin e he := h.origin e (hLog ▸ he)
  telemetry := by
    rw [hTelemetry, hLog]
    exact h.telemetry
  queued := hQueued
  watched := hWatched

theorem State.Sound.observe (h : s.Sound parse authEnabled tracked) (source : Source)
    (n : NodeHealth) {entered : Int} (hLater : s.now ≤ entered)
    (hOrigin : Origin parse authEnabled tracked (source, n.seen entered)) :
    State.Sound parse authEnabled tracked { s.observe source n entered with
      telemetry := s.telemetry ++ (sampleEvent (source, n.seen entered)).toList } where
  table id := by
    simp only [State.observe, updateNode, OrderedMap.get?_insert, Log.last?_concat]
    by_cases hId : id = n.id
    · rw [if_pos hId, if_pos (show (n.seen entered).id = id from hId.symm)]
      rfl
    · rw [if_neg hId, if_neg (show ¬ (n.seen entered).id = id from Ne.symm hId)]
      exact h.table id
  entered := by
    refine Bag.forall_mem_concat (fun e he => ?_) ⟨rfl, le_refl _⟩
    obtain ⟨hAlive, hSeen⟩ := h.entered e he
    exact ⟨hAlive, hSeen.trans hLater⟩
  origin := Bag.forall_mem_concat h.origin hOrigin
  telemetry := by
    rw [State.observe, List.filterMap_append, ← h.telemetry]
    cases source with
    | sample createdAt => rfl
    | report ctx checkedAt => rfl
  queued := h.queued
  watched := h.watched

theorem State.Sound.call (h : s.Sound parse authEnabled tracked) (hLogging : Transparent logging)
    (ctx : Context) (req : NodeReport) {entered : Int} (hLater : s.now ≤ entered) :
    (s.call parse logging authEnabled ctx req entered).Sound parse authEnabled tracked := by
  obtain ⟨_, hCall⟩ | ⟨hAuth, hCall⟩ := s.call_cases parse hLogging ctx req entered
  · rw [hCall]
    exact h
  · rw [hCall]
    have hEntered := h.observe (.report ctx s.now) (reportedNode req) hLater ⟨hLater, hAuth⟩
    simp only [sampleEvent, Option.toList_none, List.append_nil] at hEntered
    exact hEntered

theorem State.Sound.step (hLogging : Transparent logging) (h : s.Sound parse authEnabled tracked)
    (hStep : Goes parse logging authEnabled transport s a t) :
    t.Sound parse authEnabled tracked := by
  cases hStep with
  | waits time hLater => exact h.frame rfl rfl rfl hLater h.queued h.watched
  | cancels => exact h.frame rfl rfl rfl (le_refl _) h.queued h.watched
  | receives p rest hChan =>
    have hQueued : p :: rest ⊆ tracked := hChan ▸ h.queued
    refine h.frame rfl rfl rfl (le_refl _) (List.subset_of_cons_subset hQueued) ?_
    intro pid metric hMetric
    simp only [OrderedMap.get?_insert] at hMetric
    split at hMetric
    · rename_i hPid
      obtain rfl := Option.some.inj hMetric
      rw [hPid]
      exact hQueued List.mem_cons_self
    · exact h.watched pid metric hMetric
  | ticks order => exact h.frame rfl rfl rfl (le_refl _) h.queued h.watched
  | leaves pid rest metric e offer hSweep hMetric =>
    refine h.frame rfl rfl rfl (le_refl _) h.queued ?_
    intro pid' metric' hMetric'
    simp only [OrderedMap.get?_erase] at hMetric'
    split at hMetric'
    · cases hMetric'
    · exact h.watched pid' metric' hMetric'
  | samples pid rest metric p status cpu ram entered hSweep hMetric hLater =>
    have hRest : State.Sound parse authEnabled tracked { s with sweep := rest } :=
      h.frame rfl rfl rfl (le_refl _) h.queued h.watched
    have hEntered := hRest.observe (.sample s.now) (specialistNode pid metric status cpu ram)
      hLater ⟨rfl, hLater, _, h.watched pid metric hMetric, rfl, rfl⟩
    have hEvent : sampleEvent (.sample s.now,
        (specialistNode pid metric status cpu ram).seen entered) =
          some (toProcessTrackerEvent pid metric status cpu ram s.now) := by
      simp only [sampleEvent, NodeHealth.seen, specialistNode, Int32.toInt32_toInt64]
      rfl
    rw [hEvent] at hEntered
    exact hEntered
  | passes p offer rest stopped => exact h.frame rfl rfl rfl (le_refl _) h.queued h.watched
  | stops => exact h.frame rfl rfl rfl (le_refl _) h.queued h.watched
  | reports ctx req entered hLater => exact h.call hLogging ctx req hLater
  | beats pid p localStats entered stats hLater => exact h.call hLogging _ _ hLater
  | misses pid p localStats entered => exact h

theorem sound_of_reachable (hLogging : Transparent logging) {began : Int}
    (h : (monitorMachine parse logging authEnabled transport began tracked).Reachable s) :
    s.Sound parse authEnabled tracked := by
  refine Machine.Reachable.invariant (I := State.Sound parse authEnabled tracked) ?_ ?_ h
  · refine ⟨fun id => rfl, ?_, ?_, rfl, List.Subset.refl _, ?_⟩
    · intro e he
      exact absurd he List.not_mem_nil
    · intro e he
      exact absurd he List.not_mem_nil
    · intro pid metric hMetric
      cases hMetric
  · intro s a t hs hStep
    exact hs.step hLogging (goes_of_step hStep)

/-! ## The snapshot -/

theorem get?_getSnapshot (now : Int) (nodes : Nodes) (id : String) :
    (getSnapshot now nodes).get? id = (nodes.get? id).map fun n => n.shown now :=
  nodes.get?_insertAll_map (fun n => n.shown now) id

/-- An entry is shown as it was made, with the status of its age. -/
theorem State.Sound.get?_snapshot (h : s.Sound parse authEnabled tracked) (id : String) :
    (getSnapshot s.now s.nodes).get? id =
      (Log.last? (fun e => e.2.id) s.log id).map fun e => { e.2 with
        status := if ghostAfter < s.now - e.2.lastSeen then .ghost else .alive } := by
  rw [get?_getSnapshot, h.table]
  cases hLast : Log.last? (fun e => e.2.id) s.log id with
  | none => rfl
  | some e =>
    obtain ⟨hAlive, _⟩ := h.entered e (Log.mem_of_last? hLast).1
    simp only [Option.map_some, NodeHealth.shown, gt_iff_lt]
    split
    · rfl
    · rw [← hAlive]

/-- The page shows for every node its latest entry, alive or a ghost by the age
of the entry. Every entry is a sample of a process that was handed over, with a
telemetry event of the same data made not after it, or an accepted report, whose
token was looked at not after it; with authentication enabled the scanner's
heartbeats are not among these. -/
theorem monitoring_view (hLogging : Transparent logging) {began : Int}
    (h : (monitorMachine parse logging authEnabled transport began tracked).Reachable s) :
    (∀ id, (getSnapshot s.now s.nodes).get? id =
      (Log.last? (fun e => e.2.id) s.log id).map fun e => { e.2 with
        status := if ghostAfter < s.now - e.2.lastSeen then .ghost else .alive }) ∧
    (∀ e ∈ s.log, Origin parse authEnabled tracked e) ∧
    s.telemetry = s.log.filterMap sampleEvent ∧
    (authEnabled = true → mdGet transport "authorization" = [] → ∀ pid p localStats entered t,
      (monitorMachine parse logging authEnabled transport began tracked).step s
        (.heartbeat pid p localStats entered) = some t → t = s) := by
  have hs := sound_of_reachable hLogging h
  refine ⟨hs.get?_snapshot, hs.origin, hs.telemetry, ?_⟩
  intro hAuth hToken pid p localStats entered t hStep
  have hGoes : Goes parse logging authEnabled transport s (.heartbeat pid p localStats entered) t :=
    goes_of_step hStep
  cases hGoes with
  | misses => rfl
  | beats _ _ _ _ stats _ =>
    obtain ⟨_, hCall⟩ | ⟨hValid, _⟩ := s.call_cases parse hLogging
      (scannerContext transport) (heartbeatReport pid localStats stats) entered
    · exact hCall
    · obtain ⟨md, value, rest, _, hIncoming, hValues, _⟩ := hValid hAuth
      obtain rfl := Option.some.inj hIncoming
      rw [hToken] at hValues
      cases hValues

def seconds (n : Int) : Int := n * 1000000000

def passing : UnaryInterceptor NodeReport Unit := fun ctx req _ handler => handler ctx req

/-- The server with authentication enabled, at first with one specialist. -/
def sampleMachine : Machine State Action :=
  monitorMachine (fun _ => sampleParse) passing true
    (OrderedMap.empty.insert "user-agent" ["grpc-go"]) 0 [{ pid := 10, metric := "pdf" }]

def sampleStats : Stats :=
  { status := .ok "S", cpuPercent := .ok 0, memoryInfo := .ok 4096 }

def sampleReport : NodeReport :=
  { nodeId := "scanner-02", nodeType := scanner, pid := 20, pidStatus := "R", cpuPercent := 0,
    ramBytes := 1024, itemsProcessed := 7, queueSize := 0, maxCapacity := 0 }

def tokenContext : Context :=
  { incoming := some (OrderedMap.empty.insert "authorization" ["Bearer t"])
    userID := none
    roles := none }

/-- The specialist is sampled once; a scanner with a token reports itself, the
one of the heartbeats has none. -/
def sampleRun : List Action :=
  [.receive, .tick [10], .visit (.ok sampleStats) (.sent 1),
    .heartbeat 30 sampleStats { filesFound := 3, currentQueueSize := 0, maxCapacity := 0 } 2,
    .wait (seconds 16), .report tokenContext sampleReport (seconds 16 + 1), .tick [10]]

theorem passing_transparent : Transparent passing := fun _ _ _ _ => rfl

theorem monitoring_view_sample :
    let s := sampleMachine.after sampleRun
    ((getSnapshot s.now s.nodes).get? "pdf").map NodeHealth.status = some .ghost ∧
    ((getSnapshot s.now s.nodes).get? "scanner-02").map NodeHealth.status = some .alive ∧
    (getSnapshot s.now s.nodes).get? "scanner-01" = none := by
  intro s
  have hReach : sampleMachine.Reachable s := Machine.reachable_after sampleRun
  obtain ⟨hView, _⟩ := monitoring_view passing_transparent hReach
  simp only [hView]
  decide +kernel

/-! ## Nodes that fall silent -/

def Action.Reports (id : String) : Action → Prop
  | .report _ req _ => req.nodeId = id
  | .heartbeat _ _ _ _ => "scanner-01" = id
  | _ => False

def Action.Sends : Action → Prop
  | .visit _ (.sent _) => True
  | _ => False

/-- No process of the specialist is watched or waits to be. -/
def State.Absent (s : State) (id : Metric) : Prop :=
  (∀ pid, s.processes.get? pid ≠ some id) ∧ id ∉ s.processTrackerChan.map Process.metric

structure State.Distinct (s : State) : Prop where
  queue : (s.processTrackerChan.map Process.metric).Nodup
  apart : ∀ pid metric, s.processes.get? pid = some metric →
    metric ∉ s.processTrackerChan.map Process.metric
  single : ∀ pid pid' metric, s.processes.get? pid = some metric →
    s.processes.get? pid' = some metric → pid = pid'

theorem get?_observe_of_ne (source : Source) {n : NodeHealth} (entered : Int) {id : String}
    (hId : n.id ≠ id) : (s.observe source n entered).nodes.get? id = s.nodes.get? id :=
  OrderedMap.get?_insert_of_ne _ _ (Ne.symm hId)

theorem get?_call_of_ne (hLogging : Transparent logging) (ctx : Context) {req : NodeReport}
    (entered : Int) {id : String} (hId : req.nodeId ≠ id) :
    (s.call parse logging authEnabled ctx req entered).nodes.get? id = s.nodes.get? id := by
  obtain ⟨_, hCall⟩ | ⟨_, hCall⟩ := s.call_cases parse hLogging ctx req entered
  · rw [hCall]
  · rw [hCall]
    exact get?_observe_of_ne _ entered hId

/-- The entry of a node is made anew by its reports and by samples of its
processes, and by nothing else. -/
theorem get?_of_goes (hLogging : Transparent logging) {id : String}
    (hReports : ¬ a.Reports id) (hSends : a.Sends → ∀ pid, s.processes.get? pid ≠ some id)
    (hStep : Goes parse logging authEnabled transport s a t) :
    t.nodes.get? id = s.nodes.get? id := by
  cases hStep with
  | waits time hLater => rfl
  | cancels => rfl
  | receives p rest hChan => rfl
  | ticks order => rfl
  | leaves pid rest metric e offer hSweep hMetric => rfl
  | samples pid rest metric p status cpu ram entered hSweep hMetric hLater =>
    have hOther : metric ≠ id := by
      rintro rfl
      exact hSends trivial pid hMetric
    exact get?_observe_of_ne _ entered hOther
  | passes p offer rest stopped => rfl
  | stops => rfl
  | reports ctx req entered hLater => exact get?_call_of_ne hLogging ctx entered hReports
  | beats pid p localStats entered stats hLater => exact get?_call_of_ne hLogging _ entered hReports
  | misses pid p localStats entered => rfl

theorem call_frame (hLogging : Transparent logging) (ctx : Context) (req : NodeReport)
    (entered : Int) :
    (s.call parse logging authEnabled ctx req entered).processes = s.processes ∧
      (s.call parse logging authEnabled ctx req entered).processTrackerChan =
        s.processTrackerChan := by
  obtain ⟨_, hCall⟩ | ⟨_, hCall⟩ := s.call_cases parse hLogging ctx req entered
  · rw [hCall]
    exact ⟨rfl, rfl⟩
  · rw [hCall]
    exact ⟨rfl, rfl⟩

/-- The processes that are watched or wait to be: a step takes one over, drops
one or leaves them as they are. -/
theorem watch_cases (hLogging : Transparent logging)
    (hStep : Goes parse logging authEnabled transport s a t) :
    (t.processes = s.processes ∧ t.processTrackerChan = s.processTrackerChan) ∨
    (∃ p, s.processTrackerChan = p :: t.processTrackerChan ∧
      t.processes = s.processes.insert p.pid p.metric) ∨
    (∃ pid, t.processes = s.processes.erase pid ∧
      t.processTrackerChan = s.processTrackerChan) := by
  cases hStep with
  | waits time hLater => exact .inl ⟨rfl, rfl⟩
  | cancels => exact .inl ⟨rfl, rfl⟩
  | receives p rest hChan => exact .inr (.inl ⟨p, hChan, rfl⟩)
  | ticks order => exact .inl ⟨rfl, rfl⟩
  | leaves pid rest metric e offer hSweep hMetric => exact .inr (.inr ⟨pid, rfl, rfl⟩)
  | samples pid rest metric p status cpu ram entered hSweep hMetric hLater =>
    exact .inl ⟨rfl, rfl⟩
  | passes p offer rest stopped => exact .inl ⟨rfl, rfl⟩
  | stops => exact .inl ⟨rfl, rfl⟩
  | reports ctx req entered hLater => exact .inl (call_frame hLogging ctx req entered)
  | beats pid p localStats entered stats hLater => exact .inl (call_frame hLogging _ _ entered)
  | misses pid p localStats entered => exact .inl ⟨rfl, rfl⟩

theorem of_get?_erase {m : OrderedMap PID Metric} {pid pid' : PID} {metric : Metric}
    (h : (m.erase pid).get? pid' = some metric) : pid' ≠ pid ∧ m.get? pid' = some metric := by
  rw [OrderedMap.get?_erase] at h
  split at h
  · cases h
  · rename_i hPid
    exact ⟨hPid, h⟩

theorem of_get?_insert {m : OrderedMap PID Metric} {p : Process} {pid : PID} {metric : Metric}
    (h : (m.insert p.pid p.metric).get? pid = some metric) :
    (pid = p.pid ∧ metric = p.metric) ∨ m.get? pid = some metric := by
  rw [OrderedMap.get?_insert] at h
  split at h
  · rename_i hPid
    exact .inl ⟨hPid, (Option.some.inj h).symm⟩
  · exact .inr h

theorem State.Distinct.step (hLogging : Transparent logging) (h : s.Distinct)
    (hStep : Goes parse logging authEnabled transport s a t) : t.Distinct := by
  obtain ⟨hProcesses, hChan⟩ | ⟨p, hChan, hProcesses⟩ | ⟨pid, hProcesses, hChan⟩ :=
    watch_cases hLogging hStep
  · constructor
    · exact hChan ▸ h.queue
    · rw [hProcesses, hChan]
      exact h.apart
    · rw [hProcesses]
      exact h.single
  · have hQueue := h.queue
    have hApart := h.apart
    rw [hChan, List.map_cons] at hQueue hApart
    obtain ⟨hNew, hRest⟩ := List.nodup_cons.mp hQueue
    constructor
    · exact hRest
    · intro pid metric hMetric
      rw [hProcesses] at hMetric
      obtain ⟨_, rfl⟩ | hOld := of_get?_insert hMetric
      · exact hNew
      · exact fun hMem => hApart pid metric hOld (List.mem_cons_of_mem _ hMem)
    · intro pid pid' metric hMetric hMetric'
      rw [hProcesses] at hMetric hMetric'
      -- a process that was watched before has another metric than the new one
      obtain ⟨rfl, rfl⟩ | hOld := of_get?_insert hMetric
      · obtain ⟨rfl, _⟩ | hOld' := of_get?_insert hMetric'
        · rfl
        · exact absurd List.mem_cons_self (hApart _ _ hOld')
      · obtain ⟨_, rfl⟩ | hOld' := of_get?_insert hMetric'
        · exact absurd List.mem_cons_self (hApart _ _ hOld)
        · exact h.single _ _ _ hOld hOld'
  · constructor
    · exact hChan ▸ h.queue
    · intro pid' metric hMetric
      rw [hProcesses] at hMetric
      rw [hChan]
      exact h.apart pid' metric (of_get?_erase hMetric).2
    · intro pid₁ pid₂ metric h₁ h₂
      rw [hProcesses] at h₁ h₂
      exact h.single _ _ _ (of_get?_erase h₁).2 (of_get?_erase h₂).2

theorem State.Absent.step (hLogging : Transparent logging) {id : Metric} (h : s.Absent id)
    (hStep : Goes parse logging authEnabled transport s a t) : t.Absent id := by
  obtain ⟨hProcesses, hChan⟩ | ⟨p, hChan, hProcesses⟩ | ⟨pid, hProcesses, hChan⟩ :=
    watch_cases hLogging hStep
  · exact ⟨hProcesses ▸ h.1, hChan ▸ h.2⟩
  · have hQueue := h.2
    rw [hChan, List.map_cons, List.mem_cons, not_or] at hQueue
    refine ⟨?_, hQueue.2⟩
    intro pid hMetric
    rw [hProcesses] at hMetric
    obtain ⟨_, hNew⟩ | hOld := of_get?_insert hMetric
    · exact hQueue.1 hNew
    · exact h.1 pid hOld
  · refine ⟨?_, hChan ▸ h.2⟩
    intro pid' hMetric
    rw [hProcesses] at hMetric
    exact h.1 pid' (of_get?_erase hMetric).2

theorem distinct_of_reachable (hLogging : Transparent logging)
    (hTracked : (tracked.map Process.metric).Nodup) {began : Int}
    (h : (monitorMachine parse logging authEnabled transport began tracked).Reachable s) :
    s.Distinct := by
  refine Machine.Reachable.invariant (I := State.Distinct) ?_ ?_ h
  · refine ⟨hTracked, ?_, ?_⟩
    · intro pid metric hMetric
      cases hMetric
    · intro pid pid' metric hMetric _
      cases hMetric
  · intro s a t hs hStep
    exact hs.step hLogging (goes_of_step hStep)

/-- A specialist whose process has gone is not watched any more. -/
theorem State.Distinct.absent_erase (h : s.Distinct) {pid : PID} {metric : Metric}
    (hMetric : s.processes.get? pid = some metric) (rest : List PID) :
    State.Absent { s with sweep := rest, processes := s.processes.erase pid } metric := by
  refine ⟨?_, h.apart pid metric hMetric⟩
  intro pid' hMetric'
  obtain ⟨hPid, hOld⟩ := of_get?_erase hMetric'
  exact hPid (h.single pid' pid metric hOld hMetric)

/-- The entry of the node is in the later state what it was in the earlier one,
and a ghost once fifteen seconds have passed. -/
def Silent (s u : State) (id : String) : Prop :=
  u.nodes.get? id = s.nodes.get? id ∧
    ∀ n, (getSnapshot u.now u.nodes).get? id = some n → s.now + ghostAfter < u.now →
      n.status = .ghost

theorem State.Sound.silent (h : s.Sound parse authEnabled tracked) {id : String}
    (hKept : u.nodes.get? id = s.nodes.get? id) : Silent s u id := by
  refine ⟨hKept, ?_⟩
  intro n hn hLate
  rw [get?_getSnapshot, hKept, h.table] at hn
  obtain ⟨e, he, rfl⟩ := Option.map_eq_some_iff.mp hn
  obtain ⟨e', hLast, rfl⟩ := Option.map_eq_some_iff.mp he
  obtain ⟨_, hSeen⟩ := h.entered e' (Log.mem_of_last? hLast).1
  rw [NodeHealth.shown, if_pos]
  omega

/-- A node that does not report itself turns into a ghost and stays one while the
telemetry channel is full; and for ever once its process was found gone. It is
never taken off the page. -/
theorem silent_node_ghost (hLogging : Transparent logging)
    (hTracked : (tracked.map Process.metric).Nodup) {began : Int}
    (h : (monitorMachine parse logging authEnabled transport began tracked).Reachable s) :
    (∀ id as u, (∀ a ∈ as, ¬ a.Reports id ∧ ¬ a.Sends) →
      (monitorMachine parse logging authEnabled transport began tracked).exec s as = some u →
      Silent s u id) ∧
    ∀ pid rest metric e offer t, s.sweep = pid :: rest → s.processes.get? pid = some metric →
      (monitorMachine parse logging authEnabled transport began tracked).step s
        (.visit (.error e) offer) = some t →
      ∀ as u, (∀ a ∈ as, ¬ a.Reports metric) →
        (monitorMachine parse logging authEnabled transport began tracked).exec t as = some u →
        Silent s u metric := by
  have hs := sound_of_reachable hLogging h
  constructor
  · intro id as u hAs hRun
    refine hs.silent (Machine.exec_invariant
      (I := fun v => v.nodes.get? id = s.nodes.get? id) ?_ hAs rfl hRun)
    rintro v a w hv ⟨hReports, hSends⟩ hStep
    exact (get?_of_goes hLogging hReports (fun h => absurd h hSends) (goes_of_step hStep)).trans hv
  · intro pid rest metric e offer t hSweep hMetric hStep as u hAs hRun
    obtain rfl : { s with sweep := rest, processes := s.processes.erase pid } = t := by
      have hVisit : step parse logging authEnabled transport s (.visit (.error e) offer) =
          some t := hStep
      simp only [step, hSweep, State.visit, hMetric] at hVisit
      exact Option.some.inj hVisit
    have hAbsent := (distinct_of_reachable hLogging hTracked h).absent_erase hMetric rest
    have hRun' := Machine.exec_invariant
      (I := fun v => v.Absent metric ∧ v.nodes.get? metric = s.nodes.get? metric)
      ?_ hAs ⟨hAbsent, rfl⟩ hRun
    · exact hs.silent hRun'.2
    · rintro v a w ⟨hv, hKept⟩ hReports hNext
      have hGoes := goes_of_step hNext
      have hSame := get?_of_goes hLogging hReports (fun _ => hv.1) hGoes
      exact ⟨hv.step hLogging hGoes, hSame.trans hKept⟩

theorem silent_node_ghost_left :
    let s := sampleMachine.after sampleRun
    ∃ t u, sampleMachine.step s (.visit (.error "no such process") .full) = some t ∧
      sampleMachine.exec t [.cancel, .wait (seconds 60), .stop] = some u ∧
      Silent s u "pdf" := by
  intro s
  have hReach : sampleMachine.Reachable s := Machine.reachable_after sampleRun
  have hSteps : s.sweep = [10] ∧ s.processes.get? 10 = some "pdf" ∧
      (sampleMachine.step s (.visit (.error "no such process") .full)).isSome = true ∧
      ((sampleMachine.step s (.visit (.error "no such process") .full)).bind fun t =>
        sampleMachine.exec t [.cancel, .wait (seconds 60), .stop]).isSome = true := by
    decide +kernel
  obtain ⟨hSweep, hMetric, hStep, hRun⟩ := hSteps
  obtain ⟨t, hStep⟩ := Option.isSome_iff_exists.mp hStep
  obtain ⟨u, hRun⟩ := Option.isSome_iff_exists.mp hRun
  rw [hStep, Option.bind_some] at hRun
  obtain ⟨_, hGone⟩ := silent_node_ghost passing_transparent (by decide) hReach
  refine ⟨t, u, hStep, hRun, hGone 10 [] "pdf" _ _ t hSweep hMetric hStep _ u ?_ hRun⟩
  intro a ha
  simp only [List.mem_cons, List.not_mem_nil, or_false] at ha
  obtain rfl | rfl | rfl := ha
  · exact not_false
  · exact not_false
  · exact not_false

end Machine

end ChatLab.Runtime.Monitoring

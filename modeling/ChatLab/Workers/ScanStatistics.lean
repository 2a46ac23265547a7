import ChatLab.Foundation.Bag
import ChatLab.Foundation.Machine
import ChatLab.Workers.FileScanner
import ChatLab.Workers.Telemetry
import Mathlib.Algebra.GroupWithZero.Nat

/-!
# The statistics of the scanner

The scan workers count a file after they have sent it: its bytes, then the
file, then an entry in the list of recent files. The sender counts what it has
uploaded. Once a second the manager takes the bytes out of the counters and
publishes the speeds of the interval; it holds its lock meanwhile, but the
counters are atomic and take increments between any two of its steps.

Nobody sends on the channel for statistics from outside; those that are merged
come from the handler of the capacity events. The computation of a speed from
bytes and a duration is a parameter, as is the format of a time. The lists
`scanned`, `uploaded`, `batched` and `intervals` are ghosts.
-/

namespace ChatLab.Workers.ScanStatistics

open Foundation Foundation.Bag
open Telemetry (ChannelCapacity)

structure RecentBatchInfo where
  id : String
  path : String
  mime : String
  status : String
  timestamp : String
deriving DecidableEq

structure MonitoringStats where
  scannerDiskSpeed : Float64 := 0
  filesFound : UInt64 := 0
  masterNetSpeed : Float64 := 0
  processingCount : UInt32 := 0
  maxCapacity : UInt32 := 0
  allocMemMb : UInt64 := 0
  numGC : UInt32 := 0
  currentQueueSize : Int := 0
  recentBatches : List RecentBatchInfo := []
deriving DecidableEq

/-! ## The steps of the manager -/

def addBatch (latest : MonitoringStats) (batch : RecentBatchInfo) : MonitoringStats :=
  let recentBatches := batch :: latest.recentBatches
  { latest with
    recentBatches :=
      if recentBatches.length > 20 then recentBatches.take 20 else recentBatches }

def mergeExternalStats (latest stats : MonitoringStats) : MonitoringStats :=
  { latest with
    currentQueueSize := stats.currentQueueSize
    maxCapacity := stats.maxCapacity
    processingCount := stats.processingCount
    recentBatches :=
      if stats.recentBatches.length > 0 then stats.recentBatches else latest.recentBatches }

/-- What the handler of the capacity events passes on. -/
def capacityStats (evt : ChannelCapacity) : MonitoringStats where
  maxCapacity := UInt32.ofInt evt.capacity
  currentQueueSize := evt.length

/-- The next call that a worker makes for a file it has sent. -/
inductive Count
  | bytes
  | found
  | batch
deriving DecidableEq

structure Counting where
  req : FileAnalyzerRequest
  next : Count
deriving DecidableEq

/-- Where `updateStats` stands; it holds the lock unless it is idle. -/
inductive Update
  | idle
  | locked (now : Int)
  | swapped (now : Int) (sBytes : UInt64)
  | computed (now : Int)
deriving DecidableEq

structure Interval where
  duration : Nat
  sBytes : UInt64
  mBytes : UInt64
deriving DecidableEq

structure State where
  now : Int
  scannerBytes : UInt64
  masterBytes : UInt64
  filesFound : UInt64
  lastCheck : Int
  latest : MonitoringStats
  update : Update
  counting : List Counting
  scanned : List FileAnalyzerRequest
  uploaded : List FileAnalyzerRequest
  batched : List (FileAnalyzerRequest × Int)
  intervals : List Interval
deriving DecidableEq

inductive Action
  | wait (time : Int)
  | scan (req : FileAnalyzerRequest)
  | count (i : Nat)
  | upload (req : FileAnalyzerRequest)
  | check
  | swapScanner
  | swapMaster
  | publish (alloc : UInt64) (numGC : UInt32)
  | capacity (evt : ChannelCapacity)

section Machine

variable (speed : UInt64 → Nat → Float64) (timeOnly : Int → String)

/-- The entry that `processFile` adds for a file at a time. -/
def batchInfo (b : FileAnalyzerRequest × Int) : RecentBatchInfo where
  id := "file-id"
  path := b.1.path
  mime := b.1.mimeType
  status := "scanned"
  timestamp := timeOnly b.2

def State.count (s : State) (i : Nat) (c : Counting) : Option State :=
  match c.next with
  | .bytes => some { s with
      scannerBytes := s.scannerBytes + c.req.size
      counting := s.counting.set i { c with next := .found } }
  | .found => some { s with
      filesFound := s.filesFound + 1
      counting := s.counting.set i { c with next := .batch } }
  | .batch =>
    if s.update = .idle then some { s with
      latest := addBatch s.latest (batchInfo timeOnly (c.req, s.now))
      batched := s.batched ++ [(c.req, s.now)]
      counting := s.counting.eraseIdx i }
    else none

def State.publishSpeeds (s : State) (now : Int) (sBytes : UInt64) : State :=
  let interval : Interval :=
    { duration := (now - s.lastCheck).toNat, sBytes := sBytes, mBytes := s.masterBytes }
  { s with
    masterBytes := 0
    latest := { s.latest with
      scannerDiskSpeed := speed interval.sBytes interval.duration
      masterNetSpeed := speed interval.mBytes interval.duration }
    intervals := s.intervals ++ [interval]
    update := .computed now }

def step (s : State) : Action → Option State
  | .wait time => if s.now ≤ time then some { s with now := time } else none
  | .scan req => some { s with
      counting := s.counting ++ [{ req := req, next := .bytes }]
      scanned := s.scanned ++ [req] }
  | .count i =>
    match s.counting[i]? with
    | none => none
    | some c => s.count timeOnly i c
  | .upload req => some { s with
      masterBytes := s.masterBytes + req.size
      uploaded := s.uploaded ++ [req] }
  | .check => if s.update = .idle then some { s with update := .locked s.now } else none
  | .swapScanner =>
    match s.update with
    | .locked now =>
      if s.lastCheck < now then
        some { s with scannerBytes := 0, update := .swapped now s.scannerBytes }
      else some { s with update := .computed now }
    | _ => none
  | .swapMaster =>
    match s.update with
    | .swapped now sBytes => some (s.publishSpeeds speed now sBytes)
    | _ => none
  | .publish alloc numGC =>
    match s.update with
    | .computed now => some { s with
        lastCheck := now
        latest := { s.latest with
          filesFound := s.filesFound
          allocMemMb := alloc / 1024 / 1024
          numGC := numGC }
        update := .idle }
    | _ => none
  | .capacity evt =>
    if s.update = .idle then
      some { s with latest := mergeExternalStats s.latest (capacityStats evt) }
    else none

def statsMachine (began : Int) : Machine State Action where
  start :=
    { now := began, scannerBytes := 0, masterBytes := 0, filesFound := 0, lastCheck := began,
      latest := {}, update := .idle, counting := [], scanned := [], uploaded := [], batched := [],
      intervals := [] }
  step := step speed timeOnly

/-! ## What a step does -/

inductive Goes (s : State) : Action → State → Prop
  | waits (time : Int) : s.now ≤ time → Goes s (.wait time) { s with now := time }
  | scans (req : FileAnalyzerRequest) : Goes s (.scan req) { s with
      counting := s.counting ++ [{ req := req, next := .bytes }]
      scanned := s.scanned ++ [req] }
  | countsBytes (i : Nat) (c : Counting) : s.counting[i]? = some c → c.next = .bytes →
      Goes s (.count i) { s with
        scannerBytes := s.scannerBytes + c.req.size
        counting := s.counting.set i { c with next := .found } }
  | countsFound (i : Nat) (c : Counting) : s.counting[i]? = some c → c.next = .found →
      Goes s (.count i) { s with
        filesFound := s.filesFound + 1
        counting := s.counting.set i { c with next := .batch } }
  | batches (i : Nat) (c : Counting) : s.counting[i]? = some c → c.next = .batch →
      s.update = .idle → Goes s (.count i) { s with
        latest := addBatch s.latest (batchInfo timeOnly (c.req, s.now))
        batched := s.batched ++ [(c.req, s.now)]
        counting := s.counting.eraseIdx i }
  | uploads (req : FileAnalyzerRequest) : Goes s (.upload req) { s with
      masterBytes := s.masterBytes + req.size
      uploaded := s.uploaded ++ [req] }
  | locks : s.update = .idle → Goes s .check { s with update := .locked s.now }
  | swaps (now : Int) : s.update = .locked now → s.lastCheck < now →
      Goes s .swapScanner { s with scannerBytes := 0, update := .swapped now s.scannerBytes }
  | skips (now : Int) : s.update = .locked now → ¬ s.lastCheck < now →
      Goes s .swapScanner { s with update := .computed now }
  | computes (now : Int) (sBytes : UInt64) : s.update = .swapped now sBytes →
      Goes s .swapMaster (s.publishSpeeds speed now sBytes)
  | publishes (now : Int) (alloc : UInt64) (numGC : UInt32) : s.update = .computed now →
      Goes s (.publish alloc numGC) { s with
        lastCheck := now
        latest := { s.latest with
          filesFound := s.filesFound
          allocMemMb := alloc / 1024 / 1024
          numGC := numGC }
        update := .idle }
  | merges (evt : ChannelCapacity) : s.update = .idle → Goes s (.capacity evt)
      { s with latest := mergeExternalStats s.latest (capacityStats evt) }

variable {speed timeOnly} {s t : State} {a : Action}

theorem goes_of_count {i : Nat} {c : Counting} (hAt : s.counting[i]? = some c)
    (h : s.count timeOnly i c = some t) : Goes speed timeOnly s (.count i) t := by
  unfold State.count at h
  cases hNext : c.next with
  | bytes =>
    simp only [hNext] at h
    obtain rfl := Option.some.inj h
    exact .countsBytes i c hAt hNext
  | found =>
    simp only [hNext] at h
    obtain rfl := Option.some.inj h
    exact .countsFound i c hAt hNext
  | batch =>
    simp only [hNext, Option.ite_none_right_eq_some] at h
    obtain rfl := Option.some.inj h.2
    exact .batches i c hAt hNext h.1

theorem goes_of_step (h : step speed timeOnly s a = some t) : Goes speed timeOnly s a t := by
  cases a with
  | wait time =>
    simp only [step, Option.ite_none_right_eq_some] at h
    obtain rfl := Option.some.inj h.2
    exact .waits time h.1
  | scan req =>
    obtain rfl := Option.some.inj h
    exact .scans req
  | count i =>
    cases hAt : s.counting[i]? with
    | none =>
      simp only [step, hAt] at h
      cases h
    | some c =>
      simp only [step, hAt] at h
      exact goes_of_count hAt h
  | upload req =>
    obtain rfl := Option.some.inj h
    exact .uploads req
  | check =>
    simp only [step, Option.ite_none_right_eq_some] at h
    obtain rfl := Option.some.inj h.2
    exact .locks h.1
  | swapScanner =>
    cases hUpdate : s.update with
    | locked now =>
      simp only [step, hUpdate] at h
      split at h
      · obtain rfl := Option.some.inj h
        exact .swaps now hUpdate ‹_›
      · obtain rfl := Option.some.inj h
        exact .skips now hUpdate ‹_›
    | idle | swapped _ _ | computed _ =>
      simp only [step, hUpdate] at h
      cases h
  | swapMaster =>
    cases hUpdate : s.update with
    | swapped now sBytes =>
      simp only [step, hUpdate] at h
      obtain rfl := Option.some.inj h
      exact .computes now sBytes hUpdate
    | idle | locked _ | computed _ =>
      simp only [step, hUpdate] at h
      cases h
  | publish alloc numGC =>
    cases hUpdate : s.update with
    | computed now =>
      simp only [step, hUpdate] at h
      obtain rfl := Option.some.inj h
      exact .publishes now alloc numGC hUpdate
    | idle | locked _ | swapped _ _ =>
      simp only [step, hUpdate] at h
      cases h
  | capacity evt =>
    simp only [step, Option.ite_none_right_eq_some] at h
    obtain rfl := Option.some.inj h.2
    exact .merges evt h.1

/-! ## Accounting -/

def Counting.uncounted (c : Counting) : Nat :=
  match c.next with
  | .bytes => c.req.size.toNat
  | .found | .batch => 0

def Counting.unfound (c : Counting) : Nat :=
  match c.next with
  | .bytes | .found => 1
  | .batch => 0

/-- The bytes that `updateStats` has taken and not yet published. -/
def Update.taken : Update → Nat
  | .swapped _ sBytes => sBytes.toNat
  | _ => 0

def totalSize (reqs : List FileAnalyzerRequest) : Nat :=
  (reqs.map fun req => req.size.toNat).sum

structure State.Accounted (s : State) : Prop where
  scanned : totalSize s.scanned % 2 ^ 64 =
    ((s.intervals.map fun i => i.sBytes.toNat).sum + s.update.taken + s.scannerBytes.toNat +
      (s.counting.map Counting.uncounted).sum) % 2 ^ 64
  uploaded : totalSize s.uploaded % 2 ^ 64 =
    ((s.intervals.map fun i => i.mBytes.toNat).sum + s.masterBytes.toNat) % 2 ^ 64
  found : s.scanned.length % 2 ^ 64 =
    (s.filesFound.toNat + (s.counting.map Counting.unfound).sum) % 2 ^ 64
  batched : s.scanned.Perm (s.batched.map Prod.fst ++ s.counting.map Counting.req)

theorem totalSize_concat (reqs : List FileAnalyzerRequest) (req : FileAnalyzerRequest) :
    totalSize (reqs ++ [req]) = totalSize reqs + req.size.toNat := by
  simp [totalSize]

theorem map_req_set {l : List Counting} {i : Nat} {c : Counting} (h : l[i]? = some c)
    (next : Count) :
    ((l.set i { c with next := next }).map Counting.req).Perm (l.map Counting.req) :=
  ((set_perm_cons_eraseIdx h _).map Counting.req).trans
    ((perm_cons_eraseIdx h).map Counting.req).symm

theorem State.Accounted.scan (h : s.Accounted) (req : FileAnalyzerRequest) :
    State.Accounted { s with
      counting := s.counting ++ [{ req := req, next := .bytes }]
      scanned := s.scanned ++ [req] } where
  scanned := by
    have hScanned := h.scanned
    simp only [totalSize_concat, List.map_append, List.sum_append, List.map_cons, List.map_nil,
      List.sum_cons, List.sum_nil, Counting.uncounted]
    omega
  uploaded := h.uploaded
  found := by
    have hFound := h.found
    simp only [List.length_append, List.length_singleton, List.map_append, List.sum_append,
      List.map_cons, List.map_nil, List.sum_cons, List.sum_nil, Counting.unfound]
    omega
  batched := by
    simp only [List.map_append, ← List.append_assoc]
    exact h.batched.append_right _

/-- A call of a worker moves what it counts from the file to a counter. -/
theorem State.Accounted.recount (h : s.Accounted) {scannerBytes filesFound : UInt64}
    {counting : List Counting} {batched : List (FileAnalyzerRequest × Int)}
    (latest : MonitoringStats)
    (hBytes : (scannerBytes.toNat + (counting.map Counting.uncounted).sum) % 2 ^ 64 =
      (s.scannerBytes.toNat + (s.counting.map Counting.uncounted).sum) % 2 ^ 64)
    (hFound : (filesFound.toNat + (counting.map Counting.unfound).sum) % 2 ^ 64 =
      (s.filesFound.toNat + (s.counting.map Counting.unfound).sum) % 2 ^ 64)
    (hReqs : (s.batched.map Prod.fst ++ s.counting.map Counting.req).Perm
      (batched.map Prod.fst ++ counting.map Counting.req)) :
    State.Accounted { s with
      scannerBytes := scannerBytes
      filesFound := filesFound
      latest := latest
      counting := counting
      batched := batched } where
  scanned := by
    have hScanned := h.scanned
    dsimp only
    omega
  uploaded := h.uploaded
  found := h.found.trans hFound.symm
  batched := h.batched.trans hReqs

/-- A step of `updateStats` that leaves the counters alone. -/
theorem State.Accounted.relock (h : s.Accounted) {before : Update} (after : Update)
    (hUpdate : s.update = before) (hTaken : after.taken = before.taken) (lastCheck : Int)
    (latest : MonitoringStats) :
    State.Accounted
      { s with lastCheck := lastCheck, latest := latest, update := after } where
  scanned := by
    rw [hTaken, ← hUpdate]
    exact h.scanned
  uploaded := h.uploaded
  found := h.found
  batched := h.batched

theorem State.Accounted.swap (h : s.Accounted) {now : Int} (hUpdate : s.update = .locked now) :
    State.Accounted { s with scannerBytes := 0, update := .swapped now s.scannerBytes } where
  scanned := by
    have hScanned := h.scanned
    simp only [hUpdate, Update.taken] at hScanned
    simp only [Update.taken, UInt64.toNat_zero]
    omega
  uploaded := h.uploaded
  found := h.found
  batched := h.batched

theorem State.Accounted.publishSpeeds (h : s.Accounted) {now : Int} {sBytes : UInt64}
    (hUpdate : s.update = .swapped now sBytes) :
    (s.publishSpeeds speed now sBytes).Accounted where
  scanned := by
    have hScanned := h.scanned
    simp only [hUpdate, Update.taken] at hScanned
    simp only [State.publishSpeeds, Update.taken, List.map_append, List.sum_append, List.map_cons,
      List.map_nil, List.sum_cons, List.sum_nil]
    omega
  uploaded := by
    have hUploaded := h.uploaded
    simp only [State.publishSpeeds, List.map_append, List.sum_append, List.map_cons, List.map_nil,
      List.sum_cons, List.sum_nil, UInt64.toNat_zero]
    omega
  found := h.found
  batched := h.batched

theorem State.Accounted.step (h : s.Accounted) (hStep : Goes speed timeOnly s a t) :
    t.Accounted := by
  cases hStep with
  | waits time hLater => exact ⟨h.scanned, h.uploaded, h.found, h.batched⟩
  | scans req => exact h.scan req
  | countsBytes i c hAt hNext =>
    have hBytes := sum_map_set Counting.uncounted hAt { c with next := .found }
    have hFound := sum_map_set Counting.unfound hAt { c with next := .found }
    simp only [Counting.uncounted, Counting.unfound, hNext] at hBytes hFound
    refine h.recount s.latest ?_ ?_ ((map_req_set hAt .found).symm.append_left _)
    · rw [UInt64.toNat_add]
      omega
    · omega
  | countsFound i c hAt hNext =>
    have hBytes := sum_map_set Counting.uncounted hAt { c with next := .batch }
    have hFound := sum_map_set Counting.unfound hAt { c with next := .batch }
    simp only [Counting.uncounted, Counting.unfound, hNext] at hBytes hFound
    refine h.recount s.latest ?_ ?_ ((map_req_set hAt .batch).symm.append_left _)
    · omega
    · rw [UInt64.toNat_add, UInt64.toNat_one]
      omega
  | batches i c hAt hNext hUpdate =>
    have hBytes := sum_map_eraseIdx Counting.uncounted hAt
    have hFound := sum_map_eraseIdx Counting.unfound hAt
    simp only [Counting.uncounted, Counting.unfound, hNext] at hBytes hFound
    refine h.recount _ ?_ ?_ ?_
    · omega
    · omega
    · rw [List.map_append, List.append_assoc]
      exact ((perm_cons_eraseIdx hAt).map Counting.req).append_left _
  | uploads req =>
    refine ⟨h.scanned, ?_, h.found, h.batched⟩
    have hUploaded := h.uploaded
    rw [totalSize_concat, UInt64.toNat_add]
    dsimp only
    omega
  | locks hUpdate => exact h.relock (.locked s.now) hUpdate rfl s.lastCheck s.latest
  | swaps now hUpdate hLater => exact h.swap hUpdate
  | skips now hUpdate hSame => exact h.relock (.computed now) hUpdate rfl s.lastCheck s.latest
  | computes now sBytes hUpdate => exact h.publishSpeeds hUpdate
  | publishes now alloc numGC hUpdate => exact h.relock .idle hUpdate rfl now _
  | merges evt hUpdate => exact ⟨h.scanned, h.uploaded, h.found, h.batched⟩

theorem sum_unfound_le (l : List Counting) : (l.map Counting.unfound).sum ≤ l.length := by
  induction l with
  | nil => exact le_refl _
  | cons c l ih =>
    have hOne : c.unfound ≤ 1 := by
      unfold Counting.unfound
      split <;> decide
    rw [List.map_cons, List.sum_cons, List.length_cons]
    omega

/-- The files that were counted are among those that were scanned. -/
theorem State.Accounted.filesFound_eq (h : s.Accounted) :
    ∃ k ≤ s.scanned.length, s.filesFound.toNat = k % 2 ^ 64 := by
  have hFound := h.found
  have hLength := h.batched.length_eq
  have hUnfound := sum_unfound_le s.counting
  have hBound := s.filesFound.toNat_lt
  simp only [List.length_append, List.length_map] at hLength
  exact ⟨s.scanned.length - (s.counting.map Counting.unfound).sum, by omega, by omega⟩

/-! ## What is published -/

/-- The end of the last interval. -/
def Update.checked (lastCheck : Int) : Update → Int
  | .computed now => now
  | _ => lastCheck

/-- The times of a check in their order. -/
def Update.Timely (lastCheck clock : Int) : Update → Prop
  | .idle => lastCheck ≤ clock
  | .locked now => lastCheck ≤ now ∧ now ≤ clock
  | .swapped now _ => lastCheck < now ∧ now ≤ clock
  | .computed now => now ≤ clock

theorem Update.Timely.later {lastCheck clock time : Int} {update : Update}
    (h : update.Timely lastCheck clock) (hLater : clock ≤ time) :
    update.Timely lastCheck time := by
  cases update with
  | idle => exact le_trans h hLater
  | locked now => exact ⟨h.1, h.2.trans hLater⟩
  | swapped now sBytes => exact ⟨h.1, h.2.trans hLater⟩
  | computed now => exact le_trans h hLater

variable (speed) in
/-- The speeds of the last interval. -/
def shownSpeeds (intervals : List Interval) : Float64 × Float64 :=
  match intervals.getLast? with
  | none => (0, 0)
  | some i => (speed i.sBytes i.duration, speed i.mBytes i.duration)

variable (speed timeOnly) in
structure State.Published (began : Int) (s : State) : Prop where
  timely : s.update.Timely s.lastCheck s.now
  covered : ((s.intervals.map Interval.duration).sum : Int) =
    s.update.checked s.lastCheck - began
  speeds : (s.latest.scannerDiskSpeed, s.latest.masterNetSpeed) = shownSpeeds speed s.intervals
  recent : s.latest.recentBatches = (s.batched.reverse.map (batchInfo timeOnly)).take 20
  files : ∃ k ≤ s.scanned.length, s.latest.filesFound.toNat = k % 2 ^ 64

variable {began : Int}

theorem State.Published.during (h : s.Published speed timeOnly began) {update : Update}
    (hUpdate : s.update = update) :
    update.Timely s.lastCheck s.now ∧
      ((s.intervals.map Interval.duration).sum : Int) = update.checked s.lastCheck - began :=
  hUpdate ▸ ⟨h.timely, h.covered⟩

theorem addBatch_recent (latest : MonitoringStats) (batch : RecentBatchInfo)
    {all : List RecentBatchInfo} (h : latest.recentBatches = all.take 20) :
    (addBatch latest batch).recentBatches = (batch :: all).take 20 := by
  have hTake : ∀ l : List RecentBatchInfo,
      (if l.length > 20 then l.take 20 else l) = l.take 20 := by
    intro l
    split
    · rfl
    · rename_i hShort
      exact (List.take_of_length_le (Nat.le_of_not_lt hShort)).symm
  calc (addBatch latest batch).recentBatches
      = (batch :: latest.recentBatches).take 20 := hTake _
    _ = (batch :: all).take 20 := by
        rw [h, List.take_succ_cons, List.take_succ_cons, List.take_take]
        rfl

theorem State.Published.publishSpeeds (h : s.Published speed timeOnly began) {now : Int}
    {sBytes : UInt64} (hUpdate : s.update = .swapped now sBytes) :
    (s.publishSpeeds speed now sBytes).Published speed timeOnly began := by
  obtain ⟨⟨hLater, hNow⟩, hCovered⟩ := h.during hUpdate
  simp only [Update.checked] at hCovered
  refine ⟨hNow, ?_, ?_, h.recent, h.files⟩
  · simp only [State.publishSpeeds, Update.checked, List.map_append, List.sum_append,
      List.map_cons, List.map_nil, List.sum_cons, List.sum_nil]
    omega
  · simp only [State.publishSpeeds, shownSpeeds, List.getLast?_concat]

theorem State.Published.step (hAccounted : s.Accounted) (h : s.Published speed timeOnly began)
    (hStep : Goes speed timeOnly s a t) : t.Published speed timeOnly began := by
  cases hStep with
  | waits time hLater => exact ⟨h.timely.later hLater, h.covered, h.speeds, h.recent, h.files⟩
  | scans req =>
    obtain ⟨k, hk, hFiles⟩ := h.files
    refine ⟨h.timely, h.covered, h.speeds, h.recent, k, ?_, hFiles⟩
    rw [List.length_append]
    omega
  | countsBytes i c hAt hNext => exact ⟨h.timely, h.covered, h.speeds, h.recent, h.files⟩
  | countsFound i c hAt hNext => exact ⟨h.timely, h.covered, h.speeds, h.recent, h.files⟩
  | batches i c hAt hNext hUpdate =>
    refine ⟨h.timely, h.covered, h.speeds, ?_, h.files⟩
    rw [List.reverse_concat, List.map_cons]
    exact addBatch_recent s.latest _ h.recent
  | uploads req => exact ⟨h.timely, h.covered, h.speeds, h.recent, h.files⟩
  | locks hUpdate =>
    obtain ⟨hTimely, hCovered⟩ := h.during hUpdate
    exact ⟨⟨hTimely, le_refl _⟩, hCovered, h.speeds, h.recent, h.files⟩
  | swaps now hUpdate hLater =>
    obtain ⟨hTimely, hCovered⟩ := h.during hUpdate
    exact ⟨⟨hLater, hTimely.2⟩, hCovered, h.speeds, h.recent, h.files⟩
  | skips now hUpdate hSame =>
    obtain ⟨hTimely, hCovered⟩ := h.during hUpdate
    obtain rfl : now = s.lastCheck := le_antisymm (le_of_not_gt hSame) hTimely.1
    exact ⟨hTimely.2, hCovered, h.speeds, h.recent, h.files⟩
  | computes now sBytes hUpdate => exact h.publishSpeeds hUpdate
  | publishes now alloc numGC hUpdate =>
    obtain ⟨hTimely, hCovered⟩ := h.during hUpdate
    exact ⟨hTimely, hCovered, h.speeds, h.recent, hAccounted.filesFound_eq⟩
  | merges evt hUpdate => exact ⟨h.timely, h.covered, h.speeds, h.recent, h.files⟩

theorem sound_of_reachable (h : (statsMachine speed timeOnly began).Reachable s) :
    s.Accounted ∧ s.Published speed timeOnly began := by
  refine Machine.Reachable.invariant
    (I := fun s => s.Accounted ∧ s.Published speed timeOnly began) ?_ ?_ h
  · refine ⟨⟨rfl, rfl, rfl, List.Perm.refl _⟩, ⟨le_refl began, ?_, rfl, rfl, 0, le_refl _, rfl⟩⟩
    exact (sub_self began).symm
  · rintro s a t ⟨hAccounted, hPublished⟩ hStep
    have hGoes := goes_of_step hStep
    exact ⟨hAccounted.step hGoes, hPublished.step hAccounted hGoes⟩

/-- In every state of every run the bytes of the scanned files are in the
published intervals, in the counter, in the hand of `updateStats`, or not yet
counted by the worker that sent the file, each byte once up to the width of the
counters; and so for the upload. The intervals cover the time up to the last
check without a gap. The page shows the speeds of the last one, the twenty
newest files and a number of files that is not ahead of the scan. When no worker
is counting, every file is listed once and counted. -/
theorem scan_statistics (h : (statsMachine speed timeOnly began).Reachable s) :
    totalSize s.scanned % 2 ^ 64 =
      ((s.intervals.map fun i => i.sBytes.toNat).sum + s.update.taken + s.scannerBytes.toNat +
        (s.counting.map Counting.uncounted).sum) % 2 ^ 64 ∧
    totalSize s.uploaded % 2 ^ 64 =
      ((s.intervals.map fun i => i.mBytes.toNat).sum + s.masterBytes.toNat) % 2 ^ 64 ∧
    ((s.intervals.map Interval.duration).sum : Int) = s.update.checked s.lastCheck - began ∧
    (s.latest.scannerDiskSpeed, s.latest.masterNetSpeed) = shownSpeeds speed s.intervals ∧
    s.latest.recentBatches = (s.batched.reverse.map (batchInfo timeOnly)).take 20 ∧
    (∃ k ≤ s.scanned.length, s.latest.filesFound.toNat = k % 2 ^ 64) ∧
    (s.counting = [] → (s.batched.map Prod.fst).Perm s.scanned ∧
      s.filesFound.toNat = s.scanned.length % 2 ^ 64) := by
  obtain ⟨hAccounted, hPublished⟩ := sound_of_reachable h
  refine ⟨hAccounted.scanned, hAccounted.uploaded, hPublished.covered, hPublished.speeds,
    hPublished.recent, hPublished.files, ?_⟩
  intro hCounting
  have hFound := hAccounted.found
  have hBatched := hAccounted.batched
  rw [hCounting, List.map_nil, List.append_nil] at hBatched
  rw [hCounting, List.map_nil, List.sum_nil, Nat.add_zero,
    Nat.mod_eq_of_lt s.filesFound.toNat_lt] at hFound
  exact ⟨hBatched.symm, hFound.symm⟩

/-! ## A check between two counts -/

def sampleFile (path : String) (size : UInt64) : FileAnalyzerRequest :=
  { path := path, driveId := "c", size := size, attributes := 0, mimeType := "application/pdf",
    magicBytes := [], scannedAt := 0, sourceType := .localFixed }

/-- A file is counted between the two swaps of a check. -/
def sampleChecks : List Action :=
  [.scan (sampleFile "a" 5), .count 0, .wait 10, .check, .swapScanner,
    .scan (sampleFile "b" 7), .count 1, .swapMaster, .count 0, .publish 0 0, .count 0, .count 0,
    .count 0]

theorem scan_statistics_check :
    let s := (statsMachine (fun bytes _ => bytes) (fun _ => "") 0).after sampleChecks
    s.intervals = [{ duration := 10, sBytes := 5, mBytes := 0 }] ∧ s.scannerBytes = 7 ∧
      s.latest.recentBatches.map RecentBatchInfo.path = ["b", "a"] ∧
      (s.batched.map Prod.fst).Perm s.scanned := by
  intro s
  have hReach : (statsMachine (fun bytes _ => bytes) (fun _ => "") 0).Reachable s :=
    Machine.reachable_after sampleChecks
  obtain ⟨_, _, _, _, _, _, hRest⟩ := scan_statistics hReach
  have hRun : s.intervals = [{ duration := 10, sBytes := 5, mBytes := 0 }] ∧
      s.scannerBytes = 7 ∧ s.latest.recentBatches.map RecentBatchInfo.path = ["b", "a"] ∧
      s.counting = [] := by
    decide +kernel
  obtain ⟨hIntervals, hBytes, hRecent, hCounting⟩ := hRun
  exact ⟨hIntervals, hBytes, hRecent, (hRest hCounting).1⟩

end Machine

end ChatLab.Workers.ScanStatistics

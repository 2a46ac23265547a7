import ChatLab.Foundation.Bag
import ChatLab.Workers.FileScanner

/-!
# Scanner workers under the supervisor

`buildFileWorkers` adds one to `workersWG` for every worker, and every return
of `Run` takes one away, a panic included. The supervisor calls `Run` again
after a panic, so that a worker that crashes is counted down more than once.
After the signal `main` closes the channel of directories, waits for
`workersWG` and closes the channel of files.

The scan itself is the one of `FileScanner`, for the workers that are in `Run`.
The supervised context ends with the context of the signal, perhaps after
`main` has seen the signal. A `Done` below zero leaves the counter there and
panics.
-/

namespace ChatLab.Workers.Supervision

open Foundation Foundation.Bag

/-- The goroutine of `Supervisor.Start` for one worker. -/
inductive Supervised
  -- before the test of the context, at the first round or a later one
  | starting
  | running
  -- `Run` is over, with or without an error
  | returned (failed : Bool)
  -- the pause before the next round
  | pausing
  | stopped
deriving DecidableEq

inductive MainPhase
  | serving
  | signalled
  | dirClosed
  | waited
  | fileClosed
deriving DecidableEq

def MainPhase.dirChanOpen : MainPhase → Bool
  | .serving | .signalled => true
  | _ => false

def MainPhase.hasWaited : MainPhase → Bool
  | .waited | .fileClosed => true
  | _ => false

structure ScannerState where
  scan : ScanState
  supervised : List Supervised
  workersWG : Int
  -- the supervised context
  cancelled : Bool
  main : MainPhase
deriving DecidableEq

inductive ScannerAction
  | scan (a : ScanAction)
  | start (i : Nat)
  -- the returns of `Run`
  | ctxDone (i : Nat)
  | dirChanEnded (i : Nat)
  | throttleDone (i : Nat)
  | panic (i : Nat)
  -- the context ends a send of `handleDirectory`
  | abandonDir (i : Nat)
  | skipFile (i : Nat)
  | settle (i : Nat)
  | pauseOver (i : Nat)
  | pauseDone (i : Nat)
  | signal
  | cancel
  | closeDirChan
  | wait
  | closeFileChan
deriving DecidableEq

def ScannerState.isRunning (s : ScannerState) (i : Nat) : Bool := s.supervised[i]? = some .running

/-- The workers of the step are in `Run`, and it sends to no closed channel. -/
def ScannerState.permits (s : ScannerState) : ScanAction → Bool
  | .trigger _ | .sendRoot _ => s.main.dirChanOpen
  | .handRoot _ j => s.main.dirChanOpen && s.isRunning j
  | .receive i | .readDir i | .nextEntry i _ => s.isRunning i
  | .sendDir i => s.main.dirChanOpen && s.isRunning i
  | .handDir i j => s.main.dirChanOpen && s.isRunning i && s.isRunning j
  | .sendFile i => s.main ≠ .fileClosed && s.isRunning i

def ScannerState.become (s : ScannerState) (i : Nat) (p : Supervised) : ScannerState :=
  { s with supervised := s.supervised.set i p }

/-- `Run` of worker `i` is over; its deferred `Done` panics below zero. -/
def ScannerState.leaveRun (s : ScannerState) (i : Nat) (failed : Bool) : ScannerState :=
  { s.become i (.returned (failed || s.workersWG - 1 < 0)) with
    workersWG := s.workersWG - 1
    scan := { s.scan with workers := s.scan.workers.set i .idle } }

/-- `handleDirectory` is over: its deferred `Done`. -/
def ScannerState.leaveDirectory (s : ScannerState) (i : Nat) : ScannerState :=
  { s with scan := { s.scan with
      scanWG := s.scan.scanWG - 1
      workers := s.scan.workers.set i .idle } }

section Machine

variable (c : Scanner)

def scannerStep (s : ScannerState) : ScannerAction → Option ScannerState
  | .scan a =>
    if s.permits a then (c.scanStep s.scan a).map fun scan => { s with scan := scan } else none
  | .start i =>
    match s.supervised[i]? with
    | some .starting => some (s.become i (if s.cancelled then .stopped else .running))
    | _ => none
  | .ctxDone i =>
    match s.supervised[i]?, s.scan.workers[i]?, s.cancelled with
    | some .running, some .idle, true => some (s.leaveRun i true)
    | _, _, _ => none
  | .dirChanEnded i =>
    match s.supervised[i]?, s.scan.workers[i]?, s.scan.dirChan with
    | some .running, some .idle, [] =>
      if s.main.dirChanOpen then none else some (s.leaveRun i false)
    | _, _, _ => none
  | .throttleDone i =>
    match s.supervised[i]?, s.scan.workers[i]?, s.cancelled with
    | some .running, some (.opening _), true => some (s.leaveRun i true)
    | _, _, _ => none
  | .panic i =>
    match s.supervised[i]?, s.scan.workers[i]? with
    | some .running, some .idle => none
    | some .running, some _ => some ((s.leaveDirectory i).leaveRun i true)
    | _, _ => none
  | .abandonDir i =>
    match s.supervised[i]?, s.scan.workers[i]?, s.cancelled with
    | some .running, some (.sendingDir _ _ _), true => some (s.leaveDirectory i)
    | _, _, _ => none
  | .skipFile i =>
    match s.supervised[i]?, s.scan.workers[i]?, s.cancelled with
    | some .running, some (.sendingFile dir _ rest), true => some { s with
        scan := { s.scan with workers := s.scan.workers.set i (.listing dir rest) } }
    | _, _, _ => none
  | .settle i =>
    match s.supervised[i]? with
    | some (.returned failed) =>
      some (s.become i (if failed && !s.cancelled then .pausing else .stopped))
    | _ => none
  | .pauseOver i =>
    match s.supervised[i]? with
    | some .pausing => some (s.become i .starting)
    | _ => none
  | .pauseDone i =>
    match s.supervised[i]?, s.cancelled with
    | some .pausing, true => some (s.become i .stopped)
    | _, _ => none
  | .signal => if s.main = .serving then some { s with main := .signalled } else none
  | .cancel => if s.main = .serving then none else some { s with cancelled := true }
  | .closeDirChan => if s.main = .signalled then some { s with main := .dirClosed } else none
  | .wait =>
    if s.main = .dirClosed ∧ s.workersWG = 0 then some { s with main := .waited } else none
  | .closeFileChan => if s.main = .waited then some { s with main := .fileClosed } else none

def scannerMachine (n : Nat) (roots : List String) : Machine ScannerState ScannerAction where
  start := { scan := Scanner.start n roots, supervised := List.replicate n .starting,
             workersWG := n, cancelled := false, main := .serving }
  step := scannerStep c

end Machine

/-- The worker is in `Run`, or the supervisor may still call it. -/
def Supervised.Active (cancelled : Bool) : Supervised → Prop
  | .starting | .running | .pausing => True
  | .returned failed => failed = true ∧ cancelled = false
  | .stopped => False

instance (cancelled : Bool) (p : Supervised) : Decidable (p.Active cancelled) := by
  cases p with
  | starting => exact .isTrue trivial
  | running => exact .isTrue trivial
  | pausing => exact .isTrue trivial
  | returned failed => exact inferInstanceAs (Decidable (_ ∧ _))
  | stopped => exact .isFalse id

/-- No `Run` panics while the supervised context lives. -/
def NoCrash (s : ScannerState) : ScannerAction → Prop
  | .panic _ => s.cancelled = true
  | _ => True

instance (s : ScannerState) (a : ScannerAction) : Decidable (NoCrash s a) := by
  cases a with
  | panic i => exact inferInstanceAs (Decidable (_ = _))
  | _ => exact .isTrue trivial

/-! ## What a step does -/

/-- A round of the supervisor's loop, outside of `Run`. -/
inductive Turn (cancelled : Bool) : Supervised → Supervised → Prop
  | run : cancelled = false → Turn cancelled .starting .running
  | stop : cancelled = true → Turn cancelled .starting .stopped
  | pause : cancelled = false → Turn cancelled (.returned true) .pausing
  | leave (failed : Bool) : Turn cancelled (.returned failed) .stopped
  | again : Turn cancelled .pausing .starting
  | quit : Turn cancelled .pausing .stopped

inductive Moves (s : ScannerState) (a : ScannerAction) : ScannerState → Prop
  | scan (scan : ScanState) : Moves s a { s with scan := scan }
  | turn {i : Nat} {p q : Supervised} (hi : s.supervised[i]? = some p)
      (hTurn : Turn s.cancelled p q) : Moves s a (s.become i q)
  | leaveRun {i : Nat} (scan : ScanState) (failed : Bool) (hi : s.supervised[i]? = some .running)
      (hFailed : failed = true → s.cancelled = true ∨ a = .panic i) :
      Moves s a ({ s with scan := scan }.leaveRun i failed)
  | cancel : Moves s a { s with cancelled := true }
  | main {phase : MainPhase}
      (h : phase.hasWaited = true → s.main.hasWaited = true ∨ s.workersWG = 0) :
      Moves s a { s with main := phase }

variable {c : Scanner} {s t : ScannerState}

theorem moves_of_step {a : ScannerAction} (h : scannerStep c s a = some t) : Moves s a t := by
  cases a with
  | scan a =>
    simp only [scannerStep] at h
    split at h
    · obtain ⟨scan, _, rfl⟩ := Option.map_eq_some_iff.mp h
      exact .scan scan
    · cases h
  | start i =>
    simp only [scannerStep] at h
    split at h
    · rename_i hi
      cases h
      split
      · exact .turn hi (.stop ‹_›)
      · exact .turn hi (.run (Bool.eq_false_of_not_eq_true ‹_›))
    · cases h
  | ctxDone i | throttleDone i =>
    simp only [scannerStep] at h
    split at h
    · rename_i hi _ hCancelled
      cases h
      exact .leaveRun s.scan true hi fun _ => .inl hCancelled
    · cases h
  | dirChanEnded i =>
    simp only [scannerStep] at h
    split at h
    · rename_i hi _ _
      split at h
      · cases h
      · cases h
        exact .leaveRun s.scan false hi fun hFalse => absurd hFalse Bool.false_ne_true
    · cases h
  | panic i =>
    simp only [scannerStep] at h
    split at h
    · cases h
    · rename_i hi _
      cases h
      exact .leaveRun (s.leaveDirectory i).scan true hi fun _ => .inr rfl
    · cases h
  | abandonDir i | skipFile i =>
    simp only [scannerStep] at h
    split at h
    · cases h
      exact .scan _
    · cases h
  | settle i =>
    simp only [scannerStep] at h
    split at h
    · rename_i failed hi
      cases h
      by_cases hCrash : (failed && !s.cancelled) = true
      · rw [if_pos hCrash]
        obtain ⟨rfl, hLive⟩ := Bool.and_eq_true_iff.mp hCrash
        exact .turn hi (.pause (by simpa using hLive))
      · rw [if_neg hCrash]
        exact .turn hi (.leave failed)
    · cases h
  | pauseOver i =>
    simp only [scannerStep] at h
    split at h
    · rename_i hi
      cases h
      exact .turn hi .again
    · cases h
  | pauseDone i =>
    simp only [scannerStep] at h
    split at h
    · rename_i hi _
      cases h
      exact .turn hi .quit
    · cases h
  | signal | closeDirChan =>
    simp only [scannerStep] at h
    split at h
    · cases h
      exact .main nofun
    · cases h
  | cancel =>
    simp only [scannerStep] at h
    split at h
    · cases h
    · cases h
      exact .cancel
  | wait =>
    simp only [scannerStep] at h
    split at h
    · rename_i hMain
      cases h
      exact .main fun _ => .inr hMain.2
    · cases h
  | closeFileChan =>
    simp only [scannerStep] at h
    split at h
    · rename_i hMain
      cases h
      exact .main fun _ => .inl (hMain ▸ rfl)
    · cases h

/-! ## The counter -/

/-- The worker has not left `Run` for good: it will call `Done`, or stops
before. -/
def Supervised.pending : Supervised → Bool
  | .starting | .running => true
  | _ => false

structure ScannerState.Sound (s : ScannerState) : Prop where
  counted : (s.supervised.countP Supervised.pending : Int) ≤ s.workersWG
  calm : ∀ p ∈ s.supervised, p ≠ .pausing ∧ (p = .returned true → s.cancelled = true)
  waited : s.main.hasWaited = true → ∀ p ∈ s.supervised, ¬ p.Active s.cancelled

theorem ScannerState.Sound.inactive (h : s.Sound) (hZero : s.workersWG = 0) :
    ∀ p ∈ s.supervised, ¬ p.Active s.cancelled := by
  intro p hp hActive
  have hCount := h.counted
  have hPending : p.pending = false := by
    have hNone : s.supervised.countP Supervised.pending = 0 := by omega
    exact Bool.eq_false_of_not_eq_true (List.countP_eq_zero.mp hNone p hp)
  obtain ⟨hPause, hFailed⟩ := h.calm p hp
  cases p with
  | starting => cases hPending
  | running => cases hPending
  | pausing => exact hPause rfl
  | returned failed =>
    obtain ⟨rfl, hLive⟩ := hActive
    rw [hFailed rfl] at hLive
    cases hLive
  | stopped => exact hActive

/-- A worker changes its phase and does not become active by it. -/
theorem ScannerState.Sound.become (h : s.Sound) {i : Nat} {p q : Supervised}
    (hi : s.supervised[i]? = some p) (hPending : q.pending = true → p.pending = true)
    (hCalm : q ≠ .pausing ∧ (q = .returned true → s.cancelled = true))
    (hActive : q.Active s.cancelled → p.Active s.cancelled) : (s.become i q).Sound := by
  have hMem := List.mem_of_getElem? hi
  have hCount := countP_set Supervised.pending hi q
  refine ⟨?_, forall_mem_set h.calm hCalm i, ?_⟩
  · have hCounted := h.counted
    have hLe : q.pending.toNat ≤ p.pending.toNat := by
      cases hq : q.pending with
      | false => exact Nat.zero_le _
      | true => rw [hPending hq]
    change ((s.supervised.set i q).countP Supervised.pending : Int) ≤ s.workersWG
    omega
  · intro hWaited
    exact forall_mem_set (h.waited hWaited) (fun hq => h.waited hWaited p hMem (hActive hq)) i

theorem ScannerState.Sound.turn (h : s.Sound) {i : Nat} {p q : Supervised}
    (hi : s.supervised[i]? = some p) (hTurn : Turn s.cancelled p q) : (s.become i q).Sound := by
  obtain ⟨hPause, hFailed⟩ := h.calm p (List.mem_of_getElem? hi)
  cases hTurn with
  | run => exact h.become hi (fun _ => rfl) ⟨nofun, nofun⟩ fun _ => trivial
  | stop => exact h.become hi nofun ⟨nofun, nofun⟩ False.elim
  | pause hLive =>
    rw [hFailed rfl] at hLive
    cases hLive
  | leave failed => exact h.become hi nofun ⟨nofun, nofun⟩ False.elim
  | again => exact absurd rfl hPause
  | quit => exact absurd rfl hPause

theorem ScannerState.Sound.leaveRun (h : s.Sound) {i : Nat} {failed : Bool}
    (hi : s.supervised[i]? = some .running) (hFailed : failed = true → s.cancelled = true) :
    (s.leaveRun i failed).Sound := by
  have hMem := List.mem_of_getElem? hi
  have hCounted := h.counted
  have hOne : 0 < s.supervised.countP Supervised.pending := List.countP_pos_iff.mpr ⟨_, hMem, rfl⟩
  -- the worker itself is counted, so that its `Done` stays at zero or above
  have hFlag : (failed || decide (s.workersWG - 1 < 0)) = failed := by
    rw [decide_eq_false (by omega), Bool.or_false]
  have hCount := countP_set Supervised.pending hi (.returned failed)
  rw [ScannerState.leaveRun, hFlag]
  refine ⟨?_, ?_, ?_⟩
  · change ((s.supervised.set i (.returned failed)).countP Supervised.pending : Int) ≤
      s.workersWG - 1
    simp only [Supervised.pending, Bool.toNat_true, Bool.toNat_false] at hCount
    omega
  · have hCalm : Supervised.returned failed ≠ .pausing ∧
        (Supervised.returned failed = .returned true → s.cancelled = true) :=
      ⟨nofun, fun hEq => hFailed (Supervised.returned.inj hEq)⟩
    exact forall_mem_set h.calm hCalm i
  · intro hWaited
    exact absurd trivial (h.waited hWaited _ hMem)

theorem Supervised.Active.of_cancelled {p : Supervised} (h : p.Active true) (b : Bool) :
    p.Active b := by
  cases p with
  | returned failed => cases h.2
  | _ => exact h

theorem Moves.sound {a : ScannerAction} (hMoves : Moves s a t) (hGuard : NoCrash s a)
    (h : s.Sound) : t.Sound := by
  cases hMoves with
  | scan scan => exact { h with }
  | turn hi hTurn => exact h.turn hi hTurn
  | @leaveRun i scan failed hi hFailed =>
    have hSame : ScannerState.Sound { s with scan := scan } := { h with }
    refine hSame.leaveRun hi ?_
    intro hFail
    obtain hCancelled | rfl := hFailed hFail
    · exact hCancelled
    · exact hGuard
  | cancel =>
    exact { h with
      calm := fun p hp => ⟨(h.calm p hp).1, fun _ => rfl⟩
      waited := fun hWaited p hp hActive => h.waited hWaited p hp (hActive.of_cancelled _) }
  | main hMain =>
    refine { h with waited := ?_ }
    intro hWaited
    obtain hBefore | hZero := hMain hWaited
    · exact h.waited hBefore
    · exact h.inactive hZero

theorem sound_of_reaches {n : Nat} {roots : List String}
    (h : (scannerMachine c n roots).Reaches NoCrash s) : s.Sound := by
  refine Machine.Reaches.invariant (I := ScannerState.Sound) ?_ ?_ h
  · refine ⟨?_, ?_, nofun⟩
    · change ((List.replicate n Supervised.starting).countP Supervised.pending : Int) ≤ n
      rw [List.countP_replicate]
      rfl
    · intro p hp
      rw [List.eq_of_mem_replicate hp]
      exact ⟨nofun, nofun⟩
  · exact fun s a t hs hGuard hStep => (moves_of_step hStep).sound hGuard hs

/-- As long as no `Run` panics before the context has ended, the counter is
never negative, and it is zero only when no worker is in `Run` or will be. Once
`main` has waited none is or will be. -/
theorem workers_counted {n : Nat} {roots : List String}
    (h : (scannerMachine c n roots).Reaches NoCrash s) :
    0 ≤ s.workersWG ∧
    (s.workersWG = 0 → ∀ p ∈ s.supervised, ¬ p.Active s.cancelled) ∧
    (s.main.hasWaited = true → ∀ p ∈ s.supervised, ¬ p.Active s.cancelled) := by
  have hSound := sound_of_reaches h
  have hCounted := hSound.counted
  exact ⟨by omega, hSound.inactive, hSound.waited⟩

/-! ## Runs of one worker -/

def sampleScanner : Scanner where
  fs := { readDir := fun _ => some [], sniff := fun _ => none }
  join := fun dir name => dir ++ "/" ++ name
  detect := fun _ => "text/plain"
  parseMediaType := some
  driveId := "d"
  bufferSize := 1

def oneWorker : Machine ScannerState ScannerAction := scannerMachine sampleScanner 1 ["/"]

def orderlyRun : List ScannerAction :=
  [.start 0, .scan (.receive 0), .scan (.readDir 0), .scan (.nextEntry 0 5), .signal, .cancel,
    .ctxDone 0, .closeDirChan, .wait, .closeFileChan]

theorem workers_counted_orderly :
    ((oneWorker.restrict NoCrash).after orderlyRun).main = .fileClosed ∧
      ∀ p ∈ ((oneWorker.restrict NoCrash).after orderlyRun).supervised,
        ¬ p.Active ((oneWorker.restrict NoCrash).after orderlyRun).cancelled := by
  have hMain : ((oneWorker.restrict NoCrash).after orderlyRun).main = .fileClosed := by
    decide +kernel
  have hReaches : (scannerMachine sampleScanner 1 ["/"]).Reaches NoCrash
      ((oneWorker.restrict NoCrash).after orderlyRun) :=
    Machine.reaches_after_restrict oneWorker NoCrash orderlyRun
  exact ⟨hMain, (workers_counted hReaches).2.2 (hMain ▸ rfl)⟩

/-- The worker panics in its first directory and is started again. -/
def crashRun : List ScannerAction :=
  [.start 0, .scan (.receive 0), .panic 0, .settle 0, .pauseOver 0, .start 0]

/-- `main` shuts down. -/
def closingRun : List ScannerAction := [.signal, .closeDirChan, .wait, .closeFileChan]

/-- The context ends and the worker returns. -/
def cancelledRun : List ScannerAction := [.signal, .cancel, .ctxDone 0]

/-- After one crash the counter is zero under the running worker: `main` closes
the channel of files while it runs, and its next return makes the counter
negative. -/
theorem counter_zero_after_crash :
    (oneWorker.after crashRun).workersWG = 0 ∧
    (oneWorker.after crashRun).supervised = [.running] ∧
    (oneWorker.after (crashRun ++ closingRun)).main = .fileClosed ∧
    (oneWorker.after (crashRun ++ closingRun)).supervised = [.running] ∧
    (oneWorker.after (crashRun ++ cancelledRun)).workersWG = -1 := by
  decide +kernel

end ChatLab.Workers.Supervision

import ChatLab.Foundation.Machine
import ChatLab.Workers.Telemetry

/-!
# The supervisor

`Supervisor.Run` starts a goroutine for each worker and waits for all of them.
A goroutine calls `Run` of its worker again after an error or a panic, until it
returns nil or the context is cancelled. Workers may end in any way and at any
time, and the context may be cancelled between any two steps.

A restart is decided by the test of the context at the head of the loop. The
context can be cancelled between this test and the call, so the two are steps
of their own. The telemetry channel is used by others too; it may be full, have
no receiver, or be nil, but nobody closes it.
-/

namespace ChatLab.Workers.Supervisor

open Foundation Telemetry

/-! ## Restart events -/

/-- A channel as a send that does not wait sees it. -/
structure Channel where
  capacity : Nat
  queue : List Event
  receivers : Nat
deriving DecidableEq

def Channel.ready (c : Channel) : Bool := 0 < c.receivers || c.queue.length < c.capacity

def Channel.send (c : Channel) (e : Event) : Channel :=
  if 0 < c.receivers then { c with receivers := c.receivers - 1 }
  else { c with queue := c.queue ++ [e] }

/-- How `sendRestartEvent` comes to its end: without a channel, or by one of the
cases of its `select`. -/
inductive Notice
  | notInitialized
  | ctxDone
  | sent
  | lost
deriving DecidableEq

def restartEvent (workerName : String) (now : Int) : Event where
  type := .restartedAfterPanicType
  createdAt := now
  payload := .workerRestartedAfterPanic workerName

def sendRestartEvent (cancelled : Bool) (telemetryChan : Option Channel) (workerName : String)
    (now : Int) (n : Notice) : Option (Option Channel) :=
  match telemetryChan, n with
  | none, .notInitialized => some none
  | some c, .ctxDone => if cancelled then some (some c) else none
  | some c, .sent => if c.ready then some (some (c.send (restartEvent workerName now))) else none
  -- the default case needs that no other one is ready
  | some c, .lost => if cancelled || c.ready then none else some (some c)
  | _, _ => none

/-- The send always comes to an end at once. -/
theorem exists_notice (cancelled : Bool) (telemetryChan : Option Channel) (workerName : String)
    (now : Int) :
    ∃ n after, sendRestartEvent cancelled telemetryChan workerName now n = some after := by
  cases telemetryChan with
  | none => exact ⟨.notInitialized, none, rfl⟩
  | some c =>
    cases hCancelled : cancelled with
    | true => exact ⟨.ctxDone, some c, rfl⟩
    | false =>
      cases hReady : c.ready with
      | true =>
        refine ⟨.sent, some (c.send (restartEvent workerName now)), ?_⟩
        simp [sendRestartEvent, hReady]
      | false => exact ⟨.lost, some c, by simp [sendRestartEvent, hReady]⟩

/-! ## One goroutine -/

/-- The end of one call of `Run`; a panic with its value, where `none` is nil. -/
inductive Outcome
  | nil
  | error
  | panic (value : Option String)
deriving DecidableEq

def Outcome.failed : Outcome → Bool
  | .nil => false
  | .error => true
  | .panic _ => true

/-- What `recover` returns. Since Go 1.21 a panic with nil carries an error. -/
def recovered : Option String → Option String
  | some value => some value
  | none => some "panic called with nil argument (use GODEBUG=panicnil=1 to disable)"

inductive Point
  -- the head of the loop
  | checking
  | calling
  | running
  -- the deferred function, before and after `recover`
  | unwinding (value : Option String)
  | notifying
  -- `err` is known
  | ended (failed : Bool)
  | rechecking
  | pausing
  -- the deferred `Done`
  | leaving
  | gone
  -- a panic that nobody recovers
  | escaped
deriving DecidableEq

inductive Move
  | check
  | call
  | finish (o : Outcome)
  | recover
  | notify (n : Notice) (now : Int)
  | classify
  | recheck
  -- the two cases of the pause
  | delayOver
  | ctxDone
  | done
deriving DecidableEq

def Point.next (cancelled : Bool) : Point → Move → Option Point
  | .checking, .check => some (if cancelled then .leaving else .calling)
  | .calling, .call => some .running
  | .running, .finish .nil => some (.ended false)
  | .running, .finish .error => some (.ended true)
  | .running, .finish (.panic value) => some (.unwinding value)
  | .unwinding value, .recover => some (if (recovered value).isSome then .notifying else .escaped)
  -- `err = errors.ErrWorkerPanic`
  | .notifying, .notify _ _ => some (.ended true)
  | .ended failed, .classify => some (if failed then .rechecking else .leaving)
  | .rechecking, .recheck => some (if cancelled then .leaving else .pausing)
  | .pausing, .delayOver => some .checking
  | .pausing, .ctxDone => if cancelled then some .leaving else none
  | .leaving, .done => some .gone
  | _, _ => none

def Point.alive (p : Point) : Bool := p ≠ .gone

/-- The goroutine is on the way to a further call, or in one. -/
def Point.goesOn : Point → Bool
  | .ended failed => failed
  | .leaving | .gone | .escaped => false
  | _ => true

/-- The steps that are left before the next call, unless the context is cancelled. -/
def Point.distance : Point → Nat
  | .unwinding _ => 7
  | .notifying => 6
  | .ended _ => 5
  | .rechecking => 4
  | .pausing => 3
  | .checking => 2
  | .calling => 1
  | _ => 0

inductive Goes (cancelled : Bool) : Point → Move → Point → Prop
  | stop (h : cancelled = true) : Goes cancelled .checking .check .leaving
  | restart (h : cancelled = false) : Goes cancelled .checking .check .calling
  | call : Goes cancelled .calling .call .running
  | finish : Goes cancelled .running (.finish .nil) (.ended false)
  | fail : Goes cancelled .running (.finish .error) (.ended true)
  | panic (value : Option String) :
      Goes cancelled .running (.finish (.panic value)) (.unwinding value)
  | recover (value : Option String) : Goes cancelled (.unwinding value) .recover .notifying
  | notify (n : Notice) (now : Int) : Goes cancelled .notifying (.notify n now) (.ended true)
  | giveUp : Goes cancelled (.ended false) .classify .leaving
  | retry : Goes cancelled (.ended true) .classify .rechecking
  | stopped (h : cancelled = true) : Goes cancelled .rechecking .recheck .leaving
  | pause (h : cancelled = false) : Goes cancelled .rechecking .recheck .pausing
  | resume : Goes cancelled .pausing .delayOver .checking
  | interrupt (h : cancelled = true) : Goes cancelled .pausing .ctxDone .leaving
  | done : Goes cancelled .leaving .done .gone

/-- No panic passes `recover`. -/
theorem goes_of_next {cancelled : Bool} {p q : Point} {m : Move}
    (h : p.next cancelled m = some q) : Goes cancelled p m q := by
  unfold Point.next at h
  split at h
  · cases cancelled with
    | true => cases h; exact .stop rfl
    | false => cases h; exact .restart rfl
  · cases h; exact .call
  · cases h; exact .finish
  · cases h; exact .fail
  · cases h; exact .panic _
  · rename_i value
    have hSome : (recovered value).isSome = true := by cases value <;> rfl
    rw [hSome, if_pos rfl] at h
    cases h
    exact .recover value
  · cases h; exact .notify _ _
  · rename_i failed
    cases failed with
    | true => cases h; exact .retry
    | false => cases h; exact .giveUp
  · cases cancelled with
    | true => cases h; exact .stopped rfl
    | false => cases h; exact .pause rfl
  · cases h; exact .resume
  · cases cancelled with
    | true => cases h; exact .interrupt rfl
    | false => cases h
  · cases h; exact .done
  · cases h

/-! ## The supervisor -/

inductive Occurrence
  -- the head of the loop found the context alive
  | restarted (i : Nat)
  | invoked (i : Nat)
  | ended (i : Nat) (o : Outcome)
  | cancelled
deriving DecidableEq

def Move.record (cancelled : Bool) (i : Nat) : Move → List Occurrence
  | .check => if cancelled then [] else [Occurrence.restarted i]
  | .call => [Occurrence.invoked i]
  | .finish o => [Occurrence.ended i o]
  | _ => []

def Move.telemetry (cancelled : Bool) (telemetryChan : Option Channel) (workerName : String) :
    Move → Option (Option Channel)
  | .notify n now => sendRestartEvent cancelled telemetryChan workerName now n
  | _ => some telemetryChan

/-- `Run` of the supervisor, in `Start` for the next worker or after the loop. -/
inductive MainPoint
  | adding
  | spawning
  | waiting
  | returned
deriving DecidableEq

structure SupervisorState where
  main : MainPoint
  wg : Int
  goroutines : List Point
  cancelled : Bool
  telemetryChan : Option Channel
  crashed : Bool
  history : List Occurrence
deriving DecidableEq

inductive SupervisorAction
  | main
  | move (i : Nat) (m : Move)
  -- the context of the caller, or `Stop`
  | cancel
  -- the other users of the telemetry channel
  | traffic (c : Channel)
deriving DecidableEq

namespace SupervisorState

variable (s : SupervisorState)

def cancel : SupervisorState :=
  { s with cancelled := true, history := s.history ++ [Occurrence.cancelled] }

/-- A `Done` below zero panics outside of the function that recovers. -/
def moved (i : Nat) (m : Move) (q : Point) (telemetryChan : Option Channel) : SupervisorState :=
  { s with
    goroutines := s.goroutines.set i q
    telemetryChan := telemetryChan
    wg := if m = .done then s.wg - 1 else s.wg
    crashed := q = .escaped || (m = .done && s.wg - 1 < 0)
    history := s.history ++ m.record s.cancelled i }

end SupervisorState

section Machine

variable (workers : List String)

def supervisorStep (s : SupervisorState) (a : SupervisorAction) : Option SupervisorState :=
  if s.crashed then none else
  match a with
  | .main =>
    match s.main with
    | .adding =>
      if s.goroutines.length < workers.length then
        some { s with main := .spawning, wg := s.wg + 1 }
      else some { s with main := .waiting }
    | .spawning => some { s with main := .adding, goroutines := s.goroutines ++ [Point.checking] }
    -- the deferred `Cancel`
    | .waiting => if s.wg = 0 then some { s with main := .returned }.cancel else none
    | .returned => none
  | .move i m =>
    match s.goroutines[i]?, workers[i]? with
    | some p, some workerName =>
      match p.next s.cancelled m, m.telemetry s.cancelled s.telemetryChan workerName with
      | some q, some telemetryChan => some (s.moved i m q telemetryChan)
      | _, _ => none
    | _, _ => none
  | .cancel => some s.cancel
  | .traffic c => s.telemetryChan.map fun _ => { s with telemetryChan := some c }

def supervisorMachine (telemetryChan : Option Channel) :
    Machine SupervisorState SupervisorAction where
  start :=
    { main := .adding, wg := 0, goroutines := [], cancelled := false,
      telemetryChan := telemetryChan, crashed := false, history := [] }
  step := supervisorStep workers

end Machine

inductive Steps (workers : List String) (s : SupervisorState) :
    SupervisorAction → SupervisorState → Prop
  | add (hMain : s.main = .adding) (hMore : s.goroutines.length < workers.length) :
      Steps workers s .main { s with main := .spawning, wg := s.wg + 1 }
  | added (hMain : s.main = .adding) (hAll : ¬ s.goroutines.length < workers.length) :
      Steps workers s .main { s with main := .waiting }
  | spawn (hMain : s.main = .spawning) :
      Steps workers s .main
        { s with main := .adding, goroutines := s.goroutines ++ [Point.checking] }
  | wait (hMain : s.main = .waiting) (hZero : s.wg = 0) :
      Steps workers s .main ({ s with main := .returned } : SupervisorState).cancel
  | move {i : Nat} {m : Move} {p q : Point} (telemetryChan : Option Channel)
      (hPoint : s.goroutines[i]? = some p) (hGoes : Goes s.cancelled p m q) :
      Steps workers s (.move i m) (s.moved i m q telemetryChan)
  | cancel : Steps workers s .cancel s.cancel
  | traffic (c : Channel) : Steps workers s (.traffic c) { s with telemetryChan := some c }

theorem steps_of_supervisorStep {workers : List String} {s t : SupervisorState}
    {a : SupervisorAction} (h : supervisorStep workers s a = some t) : Steps workers s a t := by
  unfold supervisorStep at h
  split at h
  · cases h
  · split at h
    · split at h
      · rename_i hMain
        split at h
        · cases h
          exact .add hMain ‹_›
        · cases h
          exact .added hMain ‹_›
      · cases h
        exact .spawn ‹_›
      · rename_i hMain
        split at h
        · cases h
          exact .wait hMain ‹_›
        · cases h
      · cases h
    · split at h
      · rename_i hPoint _
        split at h
        · rename_i hNext _
          cases h
          exact .move _ hPoint (goes_of_next hNext)
        · cases h
      · cases h
    · cases h
      exact .cancel
    · obtain ⟨_, _, rfl⟩ := Option.map_eq_some_iff.mp h
      exact .traffic _

end ChatLab.Workers.Supervisor

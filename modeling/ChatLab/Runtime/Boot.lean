import ChatLab.Foundation.Machine
import ChatLab.Foundation.OrderedMap
import ChatLab.Domain
import Mathlib.Data.String.Basic

/-!
# Booting the specialists

`Init` starts the configured specialists one after the other, waits for each
connection to become ready and registers the process for health monitoring.
The channel for that has a capacity, and the worker that reads it is started
only after `Init` has returned. The application's context is the background
context of `run`, which is never done; the boot context bounds the wait for a
connection and nothing else.

What the operating system and the connection answer comes with a step.
-/

namespace ChatLab.Runtime.Boot

open Foundation

/-- The numbers of processes, which the operating system keeps within an `int32`. -/
abbrev PID := Int32

/-- Maps that are keyed by process numbers are kept in this order. -/
instance : LinearOrder PID where
  le_refl := Int32.le_refl
  le_trans _ _ _ := Int32.le_trans
  le_antisymm _ _ := Int32.le_antisymm
  le_total := Int32.le_total
  lt_iff_le_not_ge a b := by
    rw [Int32.lt_iff_toInt_lt, Int32.le_iff_toInt_le, Int32.le_iff_toInt_le]
    omega
  toDecidableLE := inferInstance

structure Process where
  pid : PID
  metric : Metric
deriving DecidableEq, Repr

structure Config where
  id : Metric
  binPath : String
  host : String
  port : Int
  capabilities : List MIME
deriving DecidableEq, Repr

/-! ## Waiting for a connection -/

inductive Connectivity
  | idle
  | connecting
  | ready
  | transientFailure
  | shutdown
deriving DecidableEq, Repr

def Connectivity.text : Connectivity → String
  | .idle => "IDLE"
  | .connecting => "CONNECTING"
  | .ready => "READY"
  | .transientFailure => "TRANSIENT_FAILURE"
  | .shutdown => "SHUTDOWN"

inductive ConnCall
  | connect
  | resetConnectBackoff
deriving DecidableEq, Repr

/-- The loop of `waitForReady` over the states of the connection, with the
calls that it makes. After the last state no change comes in time. -/
def awaitReady (state : Connectivity) (later : List Connectivity) :
    Except Connectivity Unit × List ConnCall :=
  if state = .ready then (.ok (), [])
  else
    let calls := (if state = .idle then [.connect] else []) ++
      (if state = .transientFailure then [.resetConnectBackoff] else [])
    match later with
    | [] => (.error state, calls)
    | next :: rest =>
      let (result, more) := awaitReady next rest
      (result, calls ++ more)

def waitForReady (state : Connectivity) (later : List Connectivity) :
    Except Connectivity Unit × List ConnCall :=
  let (result, calls) := awaitReady state later
  (result, .connect :: calls)

/-- The wait succeeds exactly if the connection becomes ready in time; otherwise
the error names the last state. -/
theorem awaitReady_fst (state : Connectivity) (later : List Connectivity) :
    (awaitReady state later).1 =
      if .ready ∈ state :: later then .ok ()
      else .error ((state :: later).getLast (List.cons_ne_nil _ _)) := by
  induction later generalizing state with
  | nil =>
    rw [awaitReady]
    by_cases hReady : state = .ready
    · simp [hReady]
    · have hOther : .ready ≠ state := Ne.symm hReady
      simp [hReady, hOther]
  | cons next rest ih =>
    rw [awaitReady]
    by_cases hReady : state = .ready
    · simp [hReady]
    · have hOther : .ready ≠ state := Ne.symm hReady
      simp only [if_neg hReady, ih, List.mem_cons (a := .ready) (b := state), hOther, false_or]
      rfl

/-! ## `Init` -/

/-- The answers to one call of `startSpecialist`. -/
inductive Launch
  | notFound
  | noDirectory (msg : String)
  | notStarted (msg : String)
  | noClient (pid : PID) (msg : String)
  | connection (pid : PID) (state : Connectivity) (later : List Connectivity)
deriving DecidableEq, Repr

structure Launched where
  result : Except String PID
  -- the process that was started and killed again
  killed : Option PID
deriving DecidableEq

def startSpecialist (cfg : Config) : Launch → Launched
  | .notFound => ⟨.error ("specialist binary not found: " ++ cfg.binPath), none⟩
  | .noDirectory msg => ⟨.error ("failed to get current working directory: " ++ msg), none⟩
  | .notStarted msg => ⟨.error ("could not start specialist process: " ++ msg), none⟩
  | .noClient pid msg =>
    ⟨.error ("failed to create gRPC client for " ++ cfg.id ++ ": " ++ msg), some pid⟩
  | .connection pid state later =>
    match (waitForReady state later).1 with
    | .error last =>
      ⟨.error ("specialist " ++ cfg.id ++ " (port " ++ toString cfg.port ++
        ") failed to become ready: timeout reached while waiting, last state: " ++ last.text),
        some pid⟩
    | .ok () => ⟨.ok pid, none⟩

def initError (cfg : Config) (cause : String) : String :=
  "failed to initialize specialist " ++ cfg.id ++ ": " ++ cause

structure State where
  todo : List Config
  -- the specialist that was added and is not yet registered
  pending : Option Process
  specialists : OrderedMap Metric PID
  -- started and not killed by `Init`
  running : List Process
  killed : List Process
  processTrackerChan : List Process
  -- what `Init` returned, once it has
  result : Option (Option String)

inductive Action
  | launch (answers : Launch)
  | track
  | finish

section Machine

variable (capacity : Nat)

def step (s : State) : Action → Option State
  | .launch answers =>
    match s.result, s.pending, s.todo with
    | none, none, cfg :: rest =>
      match startSpecialist cfg answers with
      | { result := .error cause, killed := killed } => some { s with
          killed := s.killed ++ (killed.map fun pid => { pid := pid, metric := cfg.id }).toList
          result := some (some (initError cfg cause)) }
      | { result := .ok pid, killed := _ } => some { s with
          todo := rest
          pending := some { pid := pid, metric := cfg.id }
          specialists := s.specialists.insert cfg.id pid
          running := s.running ++ [{ pid := pid, metric := cfg.id }] }
    | _, _, _ => none
  | .track =>
    match s.pending with
    | some p =>
      if s.processTrackerChan.length < capacity then
        some { s with pending := none, processTrackerChan := s.processTrackerChan ++ [p] }
      else none
    | none => none
  | .finish =>
    match s.result, s.pending, s.todo with
    | none, none, [] => some { s with result := some none }
    | _, _, _ => none

def bootMachine (configs : List Config) : Machine State Action where
  start :=
    { todo := configs, pending := none, specialists := .empty, running := [], killed := [],
      processTrackerChan := [], result := none }
  step := step capacity

/-! ## What a step does -/

inductive Goes (s : State) : Action → State → Prop
  | fails (answers : Launch) (cfg : Config) (rest : List Config) (cause : String)
      (killed : Option PID) : s.result = none → s.pending = none → s.todo = cfg :: rest →
      Goes s (.launch answers) { s with
        killed := s.killed ++ (killed.map fun pid => { pid := pid, metric := cfg.id }).toList
        result := some (some (initError cfg cause)) }
  | launches (pid : PID) (state : Connectivity) (later : List Connectivity) (cfg : Config)
      (rest : List Config) : s.result = none → s.pending = none → s.todo = cfg :: rest →
      .ready ∈ state :: later →
      Goes s (.launch (.connection pid state later)) { s with
        todo := rest
        pending := some { pid := pid, metric := cfg.id }
        specialists := s.specialists.insert cfg.id pid
        running := s.running ++ [{ pid := pid, metric := cfg.id }] }
  | tracks (p : Process) : s.pending = some p → s.processTrackerChan.length < capacity →
      Goes s .track
        { s with pending := none, processTrackerChan := s.processTrackerChan ++ [p] }
  | finishes : s.result = none → s.pending = none → s.todo = [] →
      Goes s .finish { s with result := some none }

variable {capacity} {s t : State} {a : Action}

/-- A specialist is launched only if its connection becomes ready in time. -/
theorem startSpecialist_eq_ok {cfg : Config} {answers : Launch} {pid : PID}
    (h : (startSpecialist cfg answers).result = .ok pid) :
    ∃ state later, answers = .connection pid state later ∧ .ready ∈ state :: later := by
  cases answers with
  | notFound => cases h
  | noDirectory msg => cases h
  | notStarted msg => cases h
  | noClient pid msg => cases h
  | connection launched state later =>
    have hWait : (waitForReady state later).1 = (awaitReady state later).1 := rfl
    simp only [startSpecialist, hWait, awaitReady_fst] at h
    by_cases hReady : .ready ∈ state :: later
    · rw [if_pos hReady] at h
      obtain rfl := Except.ok.inj h
      exact ⟨state, later, rfl, hReady⟩
    · rw [if_neg hReady] at h
      cases h

theorem goes_of_step (h : step capacity s a = some t) : Goes capacity s a t := by
  cases a with
  | launch answers =>
    simp only [step] at h
    split at h
    · rename_i cfg rest hResult hPending hTodo
      split at h
      · obtain rfl := Option.some.inj h
        exact .fails answers cfg rest _ _ hResult hPending hTodo
      · rename_i pid _ hLaunched
        obtain rfl := Option.some.inj h
        have hOk : (startSpecialist cfg answers).result = .ok pid := by rw [hLaunched]
        obtain ⟨state, later, rfl, hReady⟩ := startSpecialist_eq_ok hOk
        exact .launches pid state later cfg rest hResult hPending hTodo hReady
    · cases h
  | track =>
    simp only [step] at h
    split at h
    · rename_i p hPending
      split at h
      · rename_i hRoom
        obtain rfl := Option.some.inj h
        exact .tracks p hPending hRoom
      · cases h
    · cases h
  | finish =>
    simp only [step] at h
    split at h
    · rename_i hResult hPending hTodo
      obtain rfl := Option.some.inj h
      exact .finishes hResult hPending hTodo
    · cases h

end Machine

/-! ## The invariant of a boot -/

section Runs

variable {capacity : Nat} {configs : List Config} {s t : State} {a : Action}

structure State.Sound (capacity : Nat) (configs : List Config) (s : State) : Prop where
  running : s.running = s.processTrackerChan ++ s.pending.toList
  order : ∃ done, configs = done ++ s.todo ∧
    s.running.map Process.metric = done.map Config.id
  room : s.processTrackerChan.length ≤ capacity
  specialists : ∀ id, id ∈ s.specialists.keys ↔ id ∈ s.running.map Process.metric
  returned : s.result.isSome = true → s.pending = none
  succeeded : s.result = some none → s.todo = []
  failed : ∀ err, s.result = some (some err) →
    ∃ cfg rest cause, s.todo = cfg :: rest ∧ err = initError cfg cause ∧
      ∃ killed : Option PID,
        s.killed = (killed.map fun pid => { pid := pid, metric := cfg.id }).toList
  killed : s.killed ≠ [] → ∃ err, s.result = some (some err)

theorem State.Sound.killed_eq_nil (h : s.Sound capacity configs)
    (hNoError : ∀ err, s.result ≠ some (some err)) : s.killed = [] := by
  by_contra hKilled
  obtain ⟨err, hErr⟩ := h.killed hKilled
  exact hNoError err hErr

theorem State.Sound.fail (h : s.Sound capacity configs) {cfg : Config} {rest : List Config}
    (hResult : s.result = none) (hPending : s.pending = none) (hTodo : s.todo = cfg :: rest)
    (cause : String) (killed : Option PID) :
    State.Sound capacity configs { s with
      killed := s.killed ++ (killed.map fun pid => { pid := pid, metric := cfg.id }).toList
      result := some (some (initError cfg cause)) } where
  running := h.running
  order := h.order
  room := h.room
  specialists := h.specialists
  returned _ := hPending
  succeeded hNil := by cases hNil
  failed err hErr := by
    refine ⟨cfg, rest, cause, hTodo, (Option.some.inj (Option.some.inj hErr)).symm, killed, ?_⟩
    rw [h.killed_eq_nil (by simp [hResult]), List.nil_append]
  killed _ := ⟨_, rfl⟩

theorem State.Sound.launch (h : s.Sound capacity configs) {cfg : Config} {rest : List Config}
    (hResult : s.result = none) (hPending : s.pending = none) (hTodo : s.todo = cfg :: rest)
    (pid : PID) :
    State.Sound capacity configs { s with
      todo := rest
      pending := some { pid := pid, metric := cfg.id }
      specialists := s.specialists.insert cfg.id pid
      running := s.running ++ [{ pid := pid, metric := cfg.id }] } where
  running := by rw [h.running, hPending, Option.toList_none, List.append_nil, Option.toList_some]
  order := by
    obtain ⟨done, hConfigs, hDone⟩ := h.order
    refine ⟨done ++ [cfg], ?_, ?_⟩
    · rw [hConfigs, hTodo, List.append_assoc, List.singleton_append]
    · rw [List.map_append, List.map_append, hDone]
      rfl
  room := h.room
  specialists id := by
    rw [OrderedMap.mem_keys_insert, h.specialists, List.map_append, List.mem_append]
    simp [or_comm]
  returned hSome := by
    rw [hResult] at hSome
    cases hSome
  succeeded hNil := by
    rw [hResult] at hNil
    cases hNil
  failed err hErr := by
    rw [hResult] at hErr
    cases hErr
  killed := h.killed

theorem State.Sound.track (h : s.Sound capacity configs) {p : Process}
    (hPending : s.pending = some p) (hRoom : s.processTrackerChan.length < capacity) :
    State.Sound capacity configs
      { s with pending := none, processTrackerChan := s.processTrackerChan ++ [p] } where
  running := by rw [h.running, hPending, Option.toList_none, List.append_nil, Option.toList_some]
  order := h.order
  room := by
    rw [List.length_append, List.length_singleton]
    omega
  specialists := h.specialists
  returned _ := rfl
  succeeded := h.succeeded
  failed := h.failed
  killed := h.killed

theorem State.Sound.finish (h : s.Sound capacity configs) (hResult : s.result = none)
    (hPending : s.pending = none) (hTodo : s.todo = []) :
    State.Sound capacity configs { s with result := some none } where
  running := h.running
  order := h.order
  room := h.room
  specialists := h.specialists
  returned _ := hPending
  succeeded _ := hTodo
  failed err hErr := by cases hErr
  killed hKilled := absurd (h.killed_eq_nil (by simp [hResult])) hKilled

theorem State.Sound.step (h : s.Sound capacity configs)
    (hStep : step capacity s a = some t) : t.Sound capacity configs := by
  cases goes_of_step hStep with
  | fails answers cfg rest cause killed hResult hPending hTodo =>
    exact h.fail hResult hPending hTodo cause killed
  | launches pid state later cfg rest hResult hPending hTodo _ =>
    exact h.launch hResult hPending hTodo pid
  | tracks p hPending hRoom => exact h.track hPending hRoom
  | finishes hResult hPending hTodo => exact h.finish hResult hPending hTodo

theorem sound_of_reachable (h : (bootMachine capacity configs).Reachable s) :
    s.Sound capacity configs := by
  apply h.invariant
  · constructor
    · rfl
    · exact ⟨[], rfl, rfl⟩
    · exact Nat.zero_le _
    · intro id
      rfl
    · rintro ⟨⟩
    · rintro ⟨⟩
    · rintro err ⟨⟩
    · intro hKilled
      exact absurd rfl hKilled
  · intro s a t hSound hStep
    exact hSound.step hStep

/-! ## Where a boot ends -/

/-- While `Init` runs, it is stuck only in front of a full channel. -/
theorem stuck_iff (hResult : s.result = none) :
    (∀ a, step capacity s a = none) ↔
      s.pending.isSome = true ∧ capacity ≤ s.processTrackerChan.length := by
  constructor
  · intro hStuck
    cases hPending : s.pending with
    | some p =>
      refine ⟨rfl, ?_⟩
      by_contra hRoom
      have hTrack := hStuck .track
      simp only [step, hPending, if_pos (Nat.lt_of_not_le hRoom)] at hTrack
      cases hTrack
    | none =>
      cases hTodo : s.todo with
      | nil =>
        have hFinish := hStuck .finish
        simp only [step, hResult, hPending, hTodo] at hFinish
        cases hFinish
      | cons cfg rest =>
        have hLaunch := hStuck (.launch .notFound)
        simp only [step, hResult, hPending, hTodo, startSpecialist] at hLaunch
        cases hLaunch
  · rintro ⟨hSome, hFull⟩ a
    obtain ⟨p, hPending⟩ := Option.isSome_iff_exists.mp hSome
    cases a with
    | launch answers => simp only [step, hResult, hPending]
    | track => simp only [step, hPending, if_neg (Nat.not_lt.mpr hFull)]
    | finish => simp only [step, hResult, hPending]

/-- A specialist is work twice: it is launched and then tracked. -/
def State.work (s : State) : Nat :=
  2 * s.todo.length + s.pending.toList.length + if s.result = none then 1 else 0

/-- The boot goes on without a failure. -/
def State.Onward (capacity : Nat) (configs : List Config) (s : State) : Prop :=
  s.Sound capacity configs ∧ (s.result = none ∨ s.result = some none)

theorem State.Onward.closer (hRoom : configs.length ≤ capacity) (h : s.Onward capacity configs)
    (hNot : s.result ≠ some none) :
    ∃ a t, step capacity s a = some t ∧ t.Onward capacity configs ∧ t.work < s.work := by
  obtain ⟨hs, hPhase⟩ := h
  have hResult : s.result = none := hPhase.resolve_right hNot
  cases hPending : s.pending with
  | some p =>
    have hLength : s.processTrackerChan.length < capacity := by
      obtain ⟨done, rfl, hDone⟩ := hs.order
      have hLength := congrArg List.length hDone
      simp only [hs.running, hPending, List.length_map, List.length_append,
        Option.toList_some, List.length_singleton] at hLength hRoom
      omega
    refine ⟨.track, _, ?_, ⟨hs.track hPending hLength, .inl hResult⟩, ?_⟩
    · simp only [step, hPending, if_pos hLength]
    · simp [State.work, hPending]
  | none =>
    cases hTodo : s.todo with
    | nil =>
      refine ⟨.finish, _, ?_, ⟨hs.finish hResult hPending hTodo, .inr rfl⟩, ?_⟩
      · simp only [step, hResult, hPending, hTodo]
      · simp [State.work, hResult]
    | cons cfg rest =>
      refine ⟨.launch (.connection 0 .ready []), _, ?_,
        ⟨hs.launch hResult hPending hTodo 0, .inl hResult⟩, ?_⟩
      · simp only [step, hResult, hPending, hTodo]
        rfl
      · simp [State.work, hPending, hTodo]
        omega

theorem leads_to_nil (hRoom : configs.length ≤ capacity) (hSound : s.Sound capacity configs)
    (hResult : s.result = none) :
    ∃ t, (bootMachine capacity configs).Leads s t ∧ t.result = some none := by
  have hStep : ∀ s : State, s.Onward capacity configs → ¬ s.result = some none →
      ∃ a t, (bootMachine capacity configs).step s a = some t ∧ t.Onward capacity configs ∧
        t.work < s.work :=
    fun s hs hNot => hs.closer hRoom hNot
  obtain ⟨t, hLeads, _, hGoal⟩ := Machine.leads_of_work State.work hStep ⟨hSound, .inl hResult⟩
  exact ⟨t, hLeads, hGoal⟩

end Runs

/-- How a boot can go. If `Init` returns without an error, every specialist was
started and not killed by it, is registered in the order of the configuration,
and the channel had room for all of them. If it returns an error, the error names
the first specialist that failed; those before it were started and not killed,
and at most one process was killed, that of the specialist that failed. Otherwise
it goes on, or hangs for ever in front of the full channel with one more
specialist started than the channel has room for; with room for all of them it
never hangs. -/
theorem boot_outcome {capacity : Nat} {configs : List Config} {s : State}
    (h : (bootMachine capacity configs).Reachable s) :
    (s.result = some none → configs.length ≤ capacity ∧
      s.processTrackerChan = s.running ∧ s.killed = [] ∧
      s.running.map Process.metric = configs.map Config.id ∧
      ∀ id, id ∈ s.specialists.keys ↔ id ∈ configs.map Config.id) ∧
    (∀ err, s.result = some (some err) → ∃ done cfg rest cause,
      configs = done ++ cfg :: rest ∧ err = initError cfg cause ∧ done.length ≤ capacity ∧
      s.running.map Process.metric = done.map Config.id ∧
      ∃ killed : Option PID,
        s.killed = (killed.map fun pid => { pid := pid, metric := cfg.id }).toList) ∧
    (s.result = none → s.killed = [] ∧
      ((∀ a, (bootMachine capacity configs).step s a = none) ↔
        s.running.length = capacity + 1) ∧
      (configs.length ≤ capacity →
        ∃ t, (bootMachine capacity configs).Leads s t ∧ t.result = some none)) ∧
    ∀ answers t, (bootMachine capacity configs).step s (.launch answers) = some t →
      t.result = none → ∃ pid state later, answers = .connection pid state later ∧
        .ready ∈ state :: later ∧ ∃ id, t.running = s.running ++ [⟨pid, id⟩] := by
  have hs := sound_of_reachable h
  have hAlive : ∀ r : Option String, s.result = some r → s.processTrackerChan = s.running := by
    intro r hr
    rw [hs.running, hs.returned (by rw [hr]; rfl), Option.toList_none, List.append_nil]
  obtain ⟨done, hConfigs, hDone⟩ := hs.order
  have hLength := congrArg List.length hDone
  rw [List.length_map, List.length_map] at hLength
  have hFits := hs.room
  refine ⟨?_, ?_, ?_, ?_⟩
  · intro hNil
    rw [hs.succeeded hNil, List.append_nil] at hConfigs
    subst hConfigs
    refine ⟨?_, hAlive _ hNil, ?_, hDone, ?_⟩
    · rw [hAlive _ hNil] at hFits
      omega
    · exact hs.killed_eq_nil (by simp [hNil])
    · intro id
      rw [hs.specialists, hDone]
  · intro err hErr
    obtain ⟨cfg, rest, cause, hTodo, rfl, hKilled⟩ := hs.failed err hErr
    refine ⟨done, cfg, rest, cause, hTodo ▸ hConfigs, rfl, ?_, hDone, hKilled⟩
    rw [hAlive _ hErr] at hFits
    omega
  · intro hResult
    refine ⟨hs.killed_eq_nil (by simp [hResult]), ?_, fun hRoom => leads_to_nil hRoom hs hResult⟩
    · refine (stuck_iff hResult).trans ?_
      rw [hs.running, List.length_append]
      cases s.pending with
      | none =>
        simp only [Option.isSome_none, Option.toList_none, List.length_nil]
        constructor
        · rintro ⟨⟨⟩, _⟩
        · intro hFull
          omega
      | some p =>
        simp only [Option.isSome_some, Option.toList_some, List.length_singleton, true_and]
        omega
  · intro answers t hStep hGoing
    have hGoes : Goes capacity s (.launch answers) t := goes_of_step hStep
    cases hGoes with
    | fails _ cfg rest cause killed _ _ _ => cases hGoing
    | launches pid state later cfg rest _ _ _ hReady =>
      exact ⟨pid, state, later, rfl, hReady, cfg.id, rfl⟩

def sampleConfigs : List Config :=
  [{ id := "pdf", binPath := "./services/pdf_specialist.py", host := "localhost", port := 50055,
     capabilities := [.applicationPDF] },
    { id := "audio", binPath := "./services/audio_specialist.py", host := "localhost",
      port := 50056, capabilities := [.audioMPEG, .audioWAV, .audioXAIFF] },
    { id := "image", binPath := "./services/image_specialist.py", host := "localhost",
      port := 50057, capabilities := [.imagePNG, .imageJPEG, .imageGIF] }]

def sampleBoot : State :=
  (bootMachine 1 sampleConfigs).after
    [.launch (.connection 11 .idle [.connecting, .ready]), .track,
      .launch (.connection 12 .transientFailure [.ready])]

/-- Two of the three specialists of the master have been started, and with room
for one in the channel nothing more happens. -/
theorem boot_outcome_hangs :
    sampleBoot.running = [⟨11, "pdf"⟩, ⟨12, "audio"⟩] ∧
      ∀ a, (bootMachine 1 sampleConfigs).step sampleBoot a = none := by
  obtain ⟨_, _, hGoing, _⟩ := boot_outcome (Machine.reachable_after
    (M := bootMachine 1 sampleConfigs)
    [.launch (.connection 11 .idle [.connecting, .ready]), .track,
      .launch (.connection 12 .transientFailure [.ready])])
  have hRunning : sampleBoot.running = [⟨11, "pdf"⟩, ⟨12, "audio"⟩] := by decide +kernel
  obtain ⟨_, hStuck, _⟩ := hGoing (by decide +kernel)
  exact ⟨hRunning, hStuck.mpr (congrArg List.length hRunning)⟩

end ChatLab.Runtime.Boot

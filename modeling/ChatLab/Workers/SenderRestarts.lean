import ChatLab.Workers.Upload

/-!
# The sender until the shutdown

`Run` ends with nil only when its goroutine has found `fileChan` closed, which
`main` does after the signal. Until the channel is closed the supervisor
therefore stops the sender only when the context is cancelled. Before both,
whatever has failed, the goroutine can come back to its loop, and what waits in
`fileChan` stays there.
-/

namespace ChatLab.Workers.FileSender

open Foundation Supervisor

structure State.Persists (s : State) : Prop where
  closed : s.fileChanClosed = true → s.signalled = true
  drained : ∀ c, s.run = some (.closing c none) → s.fileChanClosed = true
  called : ∀ c e, s.run = some (.closing c e) → c < s.calls.length
  results : none ∈ s.results → s.fileChanClosed = true
  running : s.run = none ↔ s.goroutine ≠ .running
  goesOn : s.cancelled = false → s.fileChanClosed = false → s.goroutine.goesOn = true

section Runs

variable {maxAttempts : Nat} {s t : State}

theorem goesOn_of_goes {p q : Point} {m : Move} (h : Goes false p m q) (hOn : p.goesOn = true)
    (hRunning : p ≠ .running) : q.goesOn = true :=
  (h.closer hOn hRunning 0).1

theorem State.Persists.finish (h : s.Persists) {result : Option RunError}
    (hResult : result = none → s.fileChanClosed = true) :
    (s.finish result).Persists where
  closed := h.closed
  drained := fun _ hRun => absurd hRun (by simp [State.finish])
  called := fun _ _ hRun => absurd hRun (by simp [State.finish])
  results := by
    rw [State.finish, List.mem_append, List.mem_singleton]
    rintro (hOld | hNew)
    · exact h.results hOld
    · exact hResult hNew.symm
  running := by simp [State.finish]
  goesOn := by
    intro _ hOpen
    refine Option.isSome_iff_ne_none.mpr fun hNil => ?_
    exact absurd (hResult hNil) (ne_true_of_eq_false hOpen)

theorem State.Persists.at_point (h : s.Persists) {p q : RunPoint} (hRun : s.run = some p)
    (hDrained : ∀ c, q = .closing c none → s.fileChanClosed = true)
    (hCalled : ∀ c e, q = .closing c e → c < s.calls.length) :
    State.Persists { s with run := some q } where
  closed := h.closed
  drained := fun c hq => hDrained c (Option.some.inj hq)
  called := fun c e hq => hCalled c e (Option.some.inj hq)
  results := h.results
  running := by
    have hRunning := h.running
    rw [hRun] at hRunning
    simpa using hRunning
  goesOn := h.goesOn

theorem State.Persists.steps (h : s.Persists) (hStep : Steps maxAttempts s t) : t.Persists := by
  cases hStep with
  | produce req => exact { h with }
  | signal => exact { h with closed := fun _ => rfl }
  | closeFileChan hDone =>
    exact { h with
      closed := fun _ => hDone, drained := fun _ _ => rfl, results := fun _ => rfl,
      goesOn := fun _ hOpen => absurd hOpen Bool.true_eq_false.mp }
  | cancel => exact { h with goesOn := nofun }
  | @supervise m p hRun hMove hGoes =>
    have hIdle : s.goroutine ≠ .running := h.running.mp hRun
    refine ⟨h.closed, ?_, ?_, h.results, ?_, ?_⟩
    · intro c hClosing
      split at hClosing <;> cases hClosing
    · intro c e hClosing
      split at hClosing <;> cases hClosing
    · by_cases hCalled : p = .running
      · simp [hCalled]
      · simp [hCalled]
    · intro hAlive hOpen
      change s.cancelled = false at hAlive
      rw [hAlive] at hGoes
      exact goesOn_of_goes hGoes (h.goesOn hAlive hOpen) hIdle
  | opened hRun =>
    have hMoved := h.at_point (q := .selecting s.calls.length) hRun nofun nofun
    exact { hMoved with called := nofun }
  | unopened hRun => exact h.finish nofun
  | @take c req rest hRun hChan =>
    have hMoved := h.at_point (q := .acquiring c req) hRun nofun nofun
    exact { hMoved with called := nofun }
  | @acquire c req hRun =>
    have hMoved := h.at_point (q := .sending c req) hRun nofun nofun
    exact { hMoved with called := nofun }
  | @send c req call a hRun hCall hStream =>
    have hMoved := h.at_point (q := .selecting c) hRun nofun nofun
    exact { hMoved with called := nofun }
  | @stop c p sendErr call a hRun hLoop hSlot hWhy hCall hStream =>
    obtain ⟨hBound, _⟩ := List.getElem?_eq_some_iff.mp hCall
    have hMoved := h.at_point (q := .closing c sendErr) hRun
      (by
        rintro d hEq
        cases hEq
        exact hWhy)
      (by
        rintro d e hEq
        cases hEq
        exact hBound)
    refine { hMoved with called := fun d e hEq => ?_ }
    rw [List.length_set]
    exact hMoved.called d e hEq
  | @finish c sendErr answer hRun hAnswer =>
    refine h.finish fun hNil => ?_
    obtain rfl := runResult_eq_none hNil
    exact h.drained c hRun
  | commit hCall =>
    refine { h with called := fun d e hEq => ?_ }
    rw [List.length_set]
    exact h.called d e hEq
  | retry hCall hMore =>
    refine { h with called := fun d e hEq => ?_ }
    rw [List.length_set]
    exact h.called d e hEq
  | disconnect hStream => exact { h with }
  | serve hStreams hServer => exact { h with }

theorem persists_of_reachable (h : (machine maxAttempts).Reachable s) : s.Persists := by
  refine Machine.Reachable.invariant (I := State.Persists) ?_ ?_ h
  · exact ⟨nofun, nofun, nofun, nofun, by simp [machine], fun _ _ => rfl⟩
  · exact fun s a t hs hStep => hs.steps (steps_of_step hStep)

/-! ## Back in the loop -/

theorem exists_next {p : Point} (hOn : p.goesOn = true) (hRunning : p ≠ .running) :
    ∃ m q, (∀ o, m ≠ .finish o) ∧ p.next false m = some q := by
  cases p with
  | checking => exact ⟨.check, _, nofun, rfl⟩
  | calling => exact ⟨.call, _, nofun, rfl⟩
  | running => exact absurd rfl hRunning
  | unwinding value => exact ⟨.recover, _, nofun, rfl⟩
  | notifying => exact ⟨.notify .lost 0, _, nofun, rfl⟩
  | ended failed => exact ⟨.classify, _, nofun, rfl⟩
  | rechecking => exact ⟨.recheck, _, nofun, rfl⟩
  | pausing => exact ⟨.delayOver, _, nofun, rfl⟩
  | leaving => cases hOn
  | gone => cases hOn
  | escaped => cases hOn

/-- Steps before the goroutine selects again; a call that waits for its answer
has to break first. -/
def State.distance (s : State) : Nat :=
  match s.run with
  | none => s.goroutine.distance + 1
  | some .opening => 1
  | some (.selecting _) => 0
  | some (.acquiring _ _) => 2
  | some (.sending _ _) => 1
  | some (.closing c _) => if s.broken c then 10 else 11

theorem State.distance_closing {c : Nat} {sendErr : Option SendError}
    (h : s.run = some (.closing c sendErr)) : s.distance = if s.broken c then 10 else 11 := by
  rw [State.distance, h]

/-- Nothing is taken from `fileChan` on the way. -/
structure Returning (maxAttempts : Nat) (s t : State) : Prop where
  sound : t.Sound maxAttempts
  persists : t.Persists
  alive : t.cancelled = false
  isOpen : t.fileChanClosed = false
  fileChan : t.fileChan = s.fileChan
  produced : t.produced = s.produced

theorem Returning.of_step {u : State} (h : Returning maxAttempts s t) {a : Action}
    (hStep : step maxAttempts t a = some u) (hAlive : u.cancelled = t.cancelled)
    (hOpen : u.fileChanClosed = t.fileChanClosed) (hChan : u.fileChan = t.fileChan)
    (hProduced : u.produced = t.produced) :
    Returning maxAttempts s u where
  sound := h.sound.steps (steps_of_step hStep)
  persists := h.persists.steps (steps_of_step hStep)
  alive := hAlive.trans h.alive
  isOpen := hOpen.trans h.isOpen
  fileChan := hChan.trans h.fileChan
  produced := hProduced.trans h.produced

theorem State.Sound.lastStream (h : s.Sound maxAttempts) {c : Nat} (hc : c < s.calls.length) :
    ∃ (k : Nat) (a : Attempt), s.lastStream c = some k ∧ s.attempts[k]? = some a := by
  have hCall := List.getElem?_eq_getElem hc
  obtain ⟨a, hStream, _⟩ := h.wired.last c _ hCall
  exact ⟨_, a, by rw [State.lastStream, hCall]; rfl, hStream⟩

/-- Outside of `Run` the supervisor has a move towards the next call. -/
theorem Returning.closer_idle (h : Returning maxAttempts s t) (hRun : t.run = none) :
    ∃ a u, step maxAttempts t a = some u ∧ Returning maxAttempts s u ∧ u.distance < t.distance := by
  have hIdle : t.goroutine ≠ .running := h.persists.running.mp hRun
  have hOn := h.persists.goesOn h.alive h.isOpen
  obtain ⟨m, q, hMove, hNext⟩ := exists_next hOn hIdle
  obtain ⟨_, hLess, _⟩ := (goes_of_next hNext).closer hOn hIdle 0
  have hStep : step maxAttempts t (.supervise m) = some { t with
      goroutine := q
      run := if q = .running then some .opening else none
      inFlight := 0 } := by
    rw [← h.alive] at hNext
    cases m with
    | finish o => exact absurd rfl (hMove o)
    | _ => simp only [step, hRun, hNext, Option.map_some]
  refine ⟨_, _, hStep, h.of_step hStep rfl rfl rfl rfl, ?_⟩
  rw [State.distance, State.distance, hRun]
  by_cases hCalled : q = .running
  · simp [hCalled, hLess]
  · simp [hCalled, hLess]

/-- A call that waits for its answer breaks, and then `Run` returns an error. -/
theorem Returning.closer_closing (h : Returning maxAttempts s t) {c : Nat}
    {sendErr : Option SendError} (hRun : t.run = some (.closing c sendErr)) :
    ∃ a u, step maxAttempts t a = some u ∧ Returning maxAttempts s u ∧ u.distance < t.distance := by
  by_cases hBroken : t.broken c = true
  · have hStep : step maxAttempts t (.closeAndRecv .failed) =
        some (t.finish (runResult sendErr .failed)) := by
      simp [step, hRun, State.mayAnswer, hBroken]
    refine ⟨_, _, hStep, h.of_step hStep rfl rfl rfl rfl, ?_⟩
    have hFar := Point.distance_le (.ended (runResult sendErr .failed).isSome)
    rw [State.distance_closing hRun, if_pos hBroken]
    change Point.distance (.ended _) + 1 < 10
    omega
  · obtain ⟨k, a, hLast, hStream⟩ := h.sound.lastStream (h.persists.called c sendErr hRun)
    have hStep : step maxAttempts t (.disconnect k) = some
        { t with attempts := t.attempts.set k { a with broken := true } } := by
      simp only [step, hStream]
    obtain ⟨hBound, _⟩ := List.getElem?_eq_some_iff.mp hStream
    have hNow : State.broken
        { t with attempts := t.attempts.set k { a with broken := true } } c = true := by
      simp only [State.broken, State.lastStream] at hLast ⊢
      rw [hLast, Option.bind_some, List.getElem?_set_self hBound]
      rfl
    refine ⟨_, _, hStep, h.of_step hStep rfl rfl rfl rfl, ?_⟩
    have hHere := State.distance_closing hRun
    have hThere := State.distance_closing (s := { t with
      attempts := t.attempts.set k { a with broken := true } }) hRun
    rw [if_neg hBroken] at hHere
    rw [if_pos hNow] at hThere
    omega

theorem Returning.closer (h : Returning maxAttempts s t)
    (hAway : ¬ ∃ c, t.run = some (.selecting c)) :
    ∃ a u, step maxAttempts t a = some u ∧ Returning maxAttempts s u ∧ u.distance < t.distance := by
  cases hRun : t.run with
  | none => exact h.closer_idle hRun
  | some p =>
    cases p with
    | opening =>
      have hStep : step maxAttempts t (.opened true) = some
          { t.connect t.calls.length (startOfCall t.attempts.length) with
            calls := t.calls ++ [startOfCall t.attempts.length]
            run := some (.selecting t.calls.length) } := by
        simp only [step, hRun, if_true]
      refine ⟨_, _, hStep, h.of_step hStep rfl rfl rfl rfl, ?_⟩
      simp [State.distance, hRun]
    | selecting c => exact absurd ⟨c, hRun⟩ hAway
    | acquiring c req =>
      have hFree : t.inFlight < maxInFlight := by
        rw [h.sound.accounted.slots, State.slots, hRun]
        exact Nat.zero_lt_succ 99
      have hStep : step maxAttempts t .acquire = some
          { t with inFlight := t.inFlight + 1, run := some (.sending c req) } := by
        simp only [step, hRun, hFree, if_true]
      refine ⟨_, _, hStep, h.of_step hStep rfl rfl rfl rfl, ?_⟩
      simp [State.distance, hRun]
    | sending c req =>
      obtain ⟨_, call, hCall, _⟩ := h.sound.accounted.loops _ c hRun rfl
      obtain ⟨a, hStream, _⟩ := h.sound.wired.last c call hCall
      have hStep : step maxAttempts t (.send true) = some
          { t with
            inFlight := t.inFlight - 1
            masterBytes := t.masterBytes + req.size
            run := some (.selecting c)
            taken := t.taken ++ [(req, Fate.sent c)]
            calls := t.calls.set c { call with sent := call.sent ++ [toPbFileAnalyzerRequest req] }
            attempts := t.attempts.set call.stream
              { a with transit := a.transit ++ [toPbFileAnalyzerRequest req] } } := by
        simp only [step, hRun, if_true, State.write, State.onCall, hCall, hStream]
      refine ⟨_, _, hStep, h.of_step hStep rfl rfl rfl rfl, ?_⟩
      simp [State.distance, hRun]
    | closing c sendErr => exact h.closer_closing hRun

/-- A call of `Run` ends with nil only after `fileChan` was closed, which is after
the signal. Until the channel is closed the sender stops only when its context
is cancelled, and before both it can always come back to its loop: by steps
after which all requests that wait in `fileChan` still wait there. -/
theorem sender_returns_to_loop (h : (machine maxAttempts).Reachable s) :
    (none ∈ s.results → s.fileChanClosed = true) ∧
      (s.fileChanClosed = true → s.signalled = true) ∧
      (s.cancelled = false → s.fileChanClosed = false → s.goroutine.goesOn = true ∧
        ∃ t c, (machine maxAttempts).Leads s t ∧ t.run = some (.selecting c) ∧
          t.cancelled = false ∧ t.fileChanClosed = false ∧ t.fileChan = s.fileChan ∧
          t.produced = s.produced) := by
  have hPersists := persists_of_reachable h
  refine ⟨hPersists.results, hPersists.closed, fun hAlive hOpen =>
    ⟨hPersists.goesOn hAlive hOpen, ?_⟩⟩
  have hHere : Returning maxAttempts s s :=
    ⟨sound_of_reachable h, hPersists, hAlive, hOpen, rfl, rfl⟩
  have hCloser : ∀ t, Returning maxAttempts s t → ¬ (∃ c, t.run = some (.selecting c)) →
      ∃ a u, (machine maxAttempts).step t a = some u ∧ Returning maxAttempts s u ∧
        u.distance < t.distance := fun t ht hAway => ht.closer hAway
  obtain ⟨t, hLeads, hBack, c, hRun⟩ := Machine.leads_of_work State.distance hCloser hHere
  exact ⟨t, c, hLeads, hRun, hBack.alive, hBack.isOpen, hBack.fileChan, hBack.produced⟩

end Runs

/-- The stream breaks while the goroutine holds a request, and another one waits. -/
def interruptedUpload : List Action :=
  [.produce (sampleRequest "/a" "d"), .produce (sampleRequest "/b" "d"), .supervise .check,
    .supervise .call, .opened true, .receive, .acquire, .disconnect 0, .send false]

theorem sender_returns_to_loop_interrupted :
    ((machine 1).after interruptedUpload).run = some (.closing 0 (some .send)) ∧
      ∃ t c, (machine 1).Leads ((machine 1).after interruptedUpload) t ∧
        t.run = some (.selecting c) ∧ t.fileChan = [sampleRequest "/b" "d"] := by
  obtain ⟨hRun, hAlive, hOpen, hChan⟩ :
      ((machine 1).after interruptedUpload).run = some (.closing 0 (some .send)) ∧
        ((machine 1).after interruptedUpload).cancelled = false ∧
        ((machine 1).after interruptedUpload).fileChanClosed = false ∧
        ((machine 1).after interruptedUpload).fileChan = [sampleRequest "/b" "d"] := by
    decide +kernel
  obtain ⟨_, _, hLoop⟩ := sender_returns_to_loop (Machine.reachable_after interruptedUpload :
    (machine 1).Reachable _)
  obtain ⟨_, t, c, hLeads, hSelecting, _, _, hSame, _⟩ := hLoop hAlive hOpen
  exact ⟨hRun, t, c, hLeads, hSelecting, hSame.trans hChan⟩

/-- The channel is closed after the signal and before the supervisor's context is
cancelled, and the response arrives after that: this call ends with nil. -/
def finishedUpload : List Action :=
  [.supervise .check, .supervise .call, .opened true, .signal, .closeFileChan, .receive,
    .serve (.recv 0 .eof), .serve (.loadFiles 0), .serve (.loadBytes 0 7), .cancel,
    .closeAndRecv .response]

example : ((machine 1).after finishedUpload).results = [none] := by decide +kernel

end ChatLab.Workers.FileSender

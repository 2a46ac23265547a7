import ChatLab.Runtime.Coordinator

/-!
# What a broadcast delivers

A flight always comes to its end: every step brings it nearer, and until the
response is sent some step is possible. It sends one response, after every
target has finished. The response itself is never the intended one, because
the shared slice starts with a blank entry for each target and is then
appended to: no interleaving removes the blanks.
-/

namespace ChatLab.Runtime

open Foundation

def Phase.header : Phase → Option Slice
  | .loaded header => some header
  | .appended header => some header
  | _ => none

def Phase.rank : Phase → Nat
  | .unlaunched => 7
  | .outer => 6
  | .analyzing => 5
  | .appending => 4
  | .loaded _ => 3
  | .appended _ => 2
  | .stored => 1
  | .finished => 0

def Sender.rank : Sender → Nat
  | .unlaunched => 2
  | .waiting _ => 1
  | .finished => 0

def Flight.work (s : Flight) : Nat := (s.phases.map Phase.rank).sum + s.sender.rank

def Flight.blanks (s : Flight) : List SpecialistResult :=
  List.replicate s.targets.length blankResult

structure Flight.Sound (s : Flight) : Prop where
  length_eq : s.phases.length = s.targets.length
  results : s.heap.Starts s.blanks s.results
  headers : ∀ p ∈ s.phases, ∀ header ∈ p.header, s.heap.Starts s.blanks header
  captured : ∀ res, s.sender = .waiting res → s.heap.Starts s.blanks res
  launched : s.sender ≠ .unlaunched → ∀ p ∈ s.phases, p ≠ .unlaunched
  finished : s.sender = .finished → ∀ p ∈ s.phases, p = .finished

theorem launchFlight_sound (req : SpecialistRequest) (targets : List SpecialistClient) :
    (launchFlight req targets).Sound where
  length_eq := by simp [launchFlight]
  results := SliceHeap.starts_make _ _ _
  headers := by
    intro p hp header hHeader
    obtain ⟨_, _, rfl⟩ := List.mem_map.mp hp
    cases hHeader
  captured := by
    intro res hRes
    cases hRes
  launched := by
    intro hSender
    exact absurd rfl hSender
  finished := by
    intro hSender
    cases hSender

/-! ## Steps -/

section Steps

variable {outcome : SpecialistClient → Outcome} {s t : Flight} {out : Option SpecialistResponse}

theorem Flight.advance_eq_some {i : Nat} {before after : Phase}
    (h : s.advance i before after = some t) :
    s.phases[i]? = some before ∧ t = { s with phases := s.phases.set i after } := by
  rw [Flight.advance] at h
  split at h
  · exact ⟨‹_›, (Option.some.inj h).symm⟩
  · cases h

inductive QuietMove (s : Flight) : Nat → Phase → Phase → Prop
  | launch (i : Nat) : s.sender = .unlaunched → QuietMove s i .unlaunched .outer
  | spawn (i : Nat) : QuietMove s i .outer .analyzing
  | analyze (i : Nat) : QuietMove s i .analyzing .appending
  | load (i : Nat) : QuietMove s i .appending (.loaded s.results)
  | done (i : Nat) : QuietMove s i .stored .finished

/-- Everything a step can do. -/
theorem flightStep_cases {action : FlightAction} (h : flightStep outcome s action = some (t, out)) :
    (∃ i before after, QuietMove s i before after ∧ s.phases[i]? = some before ∧
      t = { s with phases := s.phases.set i after } ∧ out = none) ∨
    (∃ i header v spare, s.phases[i]? = some (.loaded header) ∧
      t = { s with heap := (s.heap.append header v blankResult spare).1,
                   phases := s.phases.set i (.appended (s.heap.append header v blankResult spare).2) } ∧
      out = none) ∨
    (∃ i header, s.phases[i]? = some (.appended header) ∧
      t = { s with results := header, phases := s.phases.set i .stored } ∧ out = none) ∨
    (s.sender = .unlaunched ∧ (∀ p ∈ s.phases, p ≠ .unlaunched) ∧
      t = { s with sender := .waiting s.results } ∧ out = none) ∨
    (∃ res, s.sender = .waiting res ∧ (∀ p ∈ s.phases, p = .finished) ∧
      t = { s with sender := .finished } ∧
      out = some { fileId := s.req.fileId, res := s.heap.read res }) := by
  have hQuiet : ∀ {i before after}, QuietMove s i before after →
      (s.advance i before after).map (fun t => (t, (none : Option SpecialistResponse))) =
        some (t, out) →
      ∃ i before after, QuietMove s i before after ∧ s.phases[i]? = some before ∧
        t = { s with phases := s.phases.set i after } ∧ out = none := by
    intro i before after hMove hStep
    obtain ⟨u, hu, hEq⟩ := Option.map_eq_some_iff.mp hStep
    obtain ⟨rfl, rfl⟩ := Prod.mk.inj hEq
    obtain ⟨hBefore, hAfter⟩ := Flight.advance_eq_some hu
    exact ⟨i, before, after, hMove, hBefore, hAfter, rfl⟩
  cases action with
  | launch i =>
    rw [flightStep] at h
    split at h
    · rename_i hGuard
      rw [Bool.and_eq_true, decide_eq_true_eq] at hGuard
      exact .inl (hQuiet (.launch i hGuard.2) h)
    · cases h
  | spawn i => exact .inl (hQuiet (.spawn i) h)
  | analyze i => exact .inl (hQuiet (.analyze i) h)
  | load i => exact .inl (hQuiet (.load i) h)
  | append i spare =>
    rw [flightStep] at h
    split at h
    · rename_i header target hPhase _
      obtain ⟨rfl, rfl⟩ := Prod.mk.inj (Option.some.inj h)
      exact .inr (.inl ⟨i, header, _, spare, hPhase, rfl, rfl⟩)
    · cases h
  | store i =>
    rw [flightStep] at h
    split at h
    · rename_i header hPhase
      obtain ⟨rfl, rfl⟩ := Prod.mk.inj (Option.some.inj h)
      exact .inr (.inr (.inl ⟨i, header, hPhase, rfl, rfl⟩))
    · cases h
  | done i => exact .inl (hQuiet (.done i) h)
  | capture =>
    rw [flightStep] at h
    split at h
    · rename_i hGuard
      rw [Bool.and_eq_true, decide_eq_true_eq, List.all_eq_true] at hGuard
      obtain ⟨rfl, rfl⟩ := Prod.mk.inj (Option.some.inj h)
      refine .inr (.inr (.inr (.inl ⟨hGuard.2, ?_, rfl, rfl⟩)))
      exact fun p hp => of_decide_eq_true (hGuard.1 p hp)
    · cases h
  | send =>
    rw [flightStep] at h
    split at h
    · rename_i res hSender
      split at h
      · rename_i hAll
        obtain ⟨rfl, rfl⟩ := Prod.mk.inj (Option.some.inj h)
        refine .inr (.inr (.inr (.inr ⟨res, hSender, ?_, rfl, rfl⟩)))
        exact fun p hp => of_decide_eq_true (List.all_eq_true.mp hAll p hp)
      · cases h
    · cases h

theorem QuietMove.before_ne {i : Nat} {before after : Phase} (h : QuietMove s i before after) :
    before ≠ .finished ∧ after ≠ .unlaunched ∧ after.rank < before.rank := by
  cases h with
  | launch => exact ⟨nofun, nofun, Nat.lt_succ_self _⟩
  | spawn => exact ⟨nofun, nofun, Nat.lt_succ_self _⟩
  | analyze => exact ⟨nofun, nofun, Nat.lt_succ_self _⟩
  | load => exact ⟨nofun, nofun, Nat.lt_succ_self _⟩
  | done => exact ⟨nofun, nofun, Nat.lt_succ_self _⟩

theorem QuietMove.header_eq {i : Nat} {before after : Phase} (h : QuietMove s i before after) :
    ∀ header ∈ after.header, header = s.results := by
  intro header hHeader
  cases h with
  | launch => cases hHeader
  | spawn => cases hHeader
  | analyze => cases hHeader
  | load => exact (Option.mem_some_iff.mp hHeader).symm
  | done => cases hHeader

theorem Flight.Sound.move (h : s.Sound) {i : Nat} {before after : Phase}
    (hBefore : s.phases[i]? = some before) (hActive : before ≠ .finished)
    (hAfter : after ≠ .unlaunched) {heap : SliceHeap SpecialistResult} {results : Slice}
    (hHeap : ∀ header, s.heap.Starts s.blanks header → heap.Starts s.blanks header)
    (hResults : heap.Starts s.blanks results)
    (hHeader : ∀ header ∈ after.header, heap.Starts s.blanks header) :
    Flight.Sound { s with heap := heap, results := results, phases := s.phases.set i after } where
  length_eq := by
    rw [List.length_set]
    exact h.length_eq
  results := hResults
  headers := by
    intro p hp header hp'
    obtain hp | rfl := List.mem_or_eq_of_mem_set hp
    · exact hHeap header (h.headers p hp header hp')
    · exact hHeader header hp'
  captured := fun res hRes => hHeap res (h.captured res hRes)
  launched := by
    intro hSender p hp
    obtain hp | rfl := List.mem_or_eq_of_mem_set hp
    · exact h.launched hSender p hp
    · exact hAfter
  finished := by
    intro hSender
    exact absurd (h.finished hSender before (List.mem_of_getElem? hBefore)) hActive

theorem flightStep_sound {action : FlightAction} (h : s.Sound)
    (hStep : flightStep outcome s action = some (t, out)) : t.Sound := by
  obtain ⟨i, before, after, hMove, hBefore, rfl, _⟩ | ⟨i, header, v, spare, hPhase, rfl, _⟩ |
    ⟨i, header, hPhase, rfl, _⟩ | ⟨hSender, hAll, rfl, _⟩ | ⟨res, hSender, hAll, rfl, _⟩ :=
      flightStep_cases hStep
  · refine h.move hBefore hMove.before_ne.1 hMove.before_ne.2.1 (fun _ hs => hs) h.results ?_
    intro header hHeader
    rw [hMove.header_eq header hHeader]
    exact h.results
  · have hHeader := h.headers _ (List.mem_of_getElem? hPhase) header rfl
    refine h.move hPhase (by nofun) (by nofun) (fun other hOther => hHeader.append hOther v blankResult spare)
      (hHeader.append h.results v blankResult spare) ?_
    intro grown hGrown
    rw [← Option.mem_some_iff.mp hGrown]
    exact hHeader.append_self v blankResult spare
  · have hHeader := h.headers _ (List.mem_of_getElem? hPhase) header rfl
    exact h.move hPhase (by nofun) (by nofun) (fun _ hs => hs) hHeader (by nofun)
  · refine ⟨h.length_eq, h.results, h.headers, ?_, fun _ => hAll, nofun⟩
    intro res hRes
    rw [← Sender.waiting.inj hRes]
    exact h.results
  · refine ⟨h.length_eq, h.results, h.headers, nofun, fun _ => ?_, fun _ => hAll⟩
    exact h.launched (by rw [hSender]; exact nofun)

/-- What a response tells: it carries the request's file, every target has
finished, and it starts with the blank entries. -/
theorem flightStep_sends {action : FlightAction} (h : s.Sound) {r : SpecialistResponse}
    (hStep : flightStep outcome s action = some (t, some r)) :
    r.fileId = s.req.fileId ∧ s.blanks <+: r.res ∧ (∀ p ∈ t.phases, p = .finished) ∧
      s.sender ≠ .finished ∧ t.sender = .finished := by
  obtain ⟨i, before, after, _, _, _, hOut⟩ | ⟨i, header, v, spare, _, _, hOut⟩ |
    ⟨i, header, _, _, hOut⟩ | ⟨_, _, _, hOut⟩ | ⟨res, hSender, hAll, rfl, hOut⟩ :=
      flightStep_cases hStep
  · cases hOut
  · cases hOut
  · cases hOut
  · cases hOut
  · obtain rfl := Option.some.inj hOut
    exact ⟨rfl, (h.captured res hSender).read, hAll, by rw [hSender]; exact nofun, rfl⟩

theorem flightStep_frame {action : FlightAction}
    (hStep : flightStep outcome s action = some (t, out)) :
    t.req = s.req ∧ t.targets = s.targets ∧
      (out = none → (t.sender = .finished ↔ s.sender = .finished)) := by
  obtain ⟨i, before, after, _, _, rfl, _⟩ | ⟨i, header, v, spare, _, rfl, _⟩ |
    ⟨i, header, _, rfl, _⟩ | ⟨hSender, _, rfl, _⟩ | ⟨res, _, _, rfl, hOut⟩ :=
      flightStep_cases hStep
  · exact ⟨rfl, rfl, fun _ => Iff.rfl⟩
  · exact ⟨rfl, rfl, fun _ => Iff.rfl⟩
  · exact ⟨rfl, rfl, fun _ => Iff.rfl⟩
  · refine ⟨rfl, rfl, fun _ => ⟨nofun, ?_⟩⟩
    rw [hSender]
    exact nofun
  · exact ⟨rfl, rfl, fun hNone => by rw [hOut] at hNone; cases hNone⟩

/-! ## Progress -/

theorem sum_map_set {α : Type} (f : α → Nat) {l : List α} {i : Nat} {a : α}
    (h : l[i]? = some a) (b : α) : ((l.set i b).map f).sum + f a = (l.map f).sum + f b := by
  induction l generalizing i with
  | nil => cases h
  | cons c l ih =>
    cases i with
    | zero =>
      obtain rfl := Option.some.inj h
      simp only [List.set_cons_zero, List.map_cons, List.sum_cons]
      omega
    | succ i =>
      have hRest := ih (i := i) h
      simp only [List.set_cons_succ, List.map_cons, List.sum_cons]
      omega

theorem work_set_lt {i : Nat} {before after : Phase} (hBefore : s.phases[i]? = some before)
    (hRank : after.rank < before.rank) (heap : SliceHeap SpecialistResult) (results : Slice) :
    Flight.work { s with heap := heap, results := results, phases := s.phases.set i after } <
      s.work := by
  have hSum := sum_map_set Phase.rank hBefore after
  change (List.map Phase.rank (s.phases.set i after)).sum + s.sender.rank <
    (s.phases.map Phase.rank).sum + s.sender.rank
  omega

theorem flightStep_work_lt {action : FlightAction}
    (hStep : flightStep outcome s action = some (t, out)) : t.work < s.work := by
  obtain ⟨i, before, after, hMove, hBefore, rfl, _⟩ | ⟨i, header, v, spare, hPhase, rfl, _⟩ |
    ⟨i, header, hPhase, rfl, _⟩ | ⟨hSender, hAll, rfl, _⟩ | ⟨res, hSender, hAll, rfl, _⟩ :=
      flightStep_cases hStep
  · exact work_set_lt hBefore hMove.before_ne.2.2 _ _
  · exact work_set_lt hPhase (Nat.lt_succ_self _) _ _
  · exact work_set_lt hPhase (Nat.lt_succ_self _) _ _
  · simp [Flight.work, hSender, Sender.rank]
  · simp [Flight.work, hSender, Sender.rank]

theorem exists_first_unlaunched {l : List Phase} (h : .unlaunched ∈ l) :
    ∃ i, l[i]? = some .unlaunched ∧ (l.take i).all (· ≠ .unlaunched) = true := by
  induction l with
  | nil => cases h
  | cons p l ih =>
    by_cases hp : p = .unlaunched
    · exact ⟨0, by rw [hp]; rfl, rfl⟩
    · obtain ⟨i, hi, hAll⟩ := ih ((List.mem_cons.mp h).resolve_left (Ne.symm hp))
      refine ⟨i + 1, hi, ?_⟩
      rw [List.take_succ_cons, List.all_cons, hAll, Bool.and_true]
      exact decide_eq_true hp

theorem Flight.advance_of_get {i : Nat} {before : Phase} (h : s.phases[i]? = some before)
    (after : Phase) : s.advance i before after = some { s with phases := s.phases.set i after } := by
  rw [Flight.advance, if_pos h]

theorem flightStep_progress (outcome : SpecialistClient → Outcome) (h : s.Sound)
    (hSender : s.sender ≠ .finished) : ∃ action, (flightStep outcome s action).isSome = true := by
  by_cases hAll : ∀ p ∈ s.phases, p = .finished
  · -- only the sender is left
    cases hState : s.sender with
    | finished => exact absurd hState hSender
    | waiting res =>
      refine ⟨.send, ?_⟩
      have hGuard : (s.phases.all (· = .finished)) = true :=
        List.all_eq_true.mpr fun p hp => decide_eq_true (hAll p hp)
      rw [flightStep, hState]
      dsimp only
      rw [if_pos hGuard]
      rfl
    | unlaunched =>
      refine ⟨.capture, ?_⟩
      have hGuard : (s.phases.all (· ≠ .unlaunched) && s.sender = .unlaunched) = true := by
        rw [Bool.and_eq_true, decide_eq_true_eq, List.all_eq_true]
        refine ⟨fun p hp => decide_eq_true ?_, hState⟩
        rw [hAll p hp]
        exact nofun
      rw [flightStep, if_pos hGuard]
      rfl
  · push Not at hAll
    obtain ⟨p, hp, hActive⟩ := hAll
    obtain ⟨i, hi⟩ := List.mem_iff_getElem?.mp hp
    cases p with
    | finished => exact absurd rfl hActive
    | unlaunched =>
      have hWaiting : s.sender = .unlaunched := by
        by_contra hLaunched
        exact h.launched hLaunched _ hp rfl
      obtain ⟨j, hj, hFirst⟩ := exists_first_unlaunched hp
      refine ⟨.launch j, ?_⟩
      rw [flightStep, if_pos (by rw [hFirst, hWaiting]; rfl), Flight.advance_of_get hj]
      rfl
    | outer => exact ⟨.spawn i, by rw [flightStep, Flight.advance_of_get hi]; rfl⟩
    | analyzing => exact ⟨.analyze i, by rw [flightStep, Flight.advance_of_get hi]; rfl⟩
    | appending => exact ⟨.load i, by rw [flightStep, Flight.advance_of_get hi]; rfl⟩
    | loaded header =>
      have hLength := (List.getElem?_eq_some_iff.mp hi).1
      rw [h.length_eq] at hLength
      refine ⟨.append i 0, ?_⟩
      rw [flightStep, hi, List.getElem?_eq_getElem hLength]
      rfl
    | appended header => exact ⟨.store i, by rw [flightStep, hi]; rfl⟩
    | stored => exact ⟨.done i, by rw [flightStep, Flight.advance_of_get hi]; rfl⟩

end Steps

/-! ## Runs of one broadcast -/

structure BroadcastState where
  flight : Flight
  sent : List SpecialistResponse
deriving DecidableEq

section Runs

variable (outcome : SpecialistClient → Outcome)

def broadcastMachine (flight : Flight) : Machine BroadcastState FlightAction where
  start := { flight := flight, sent := [] }
  step s action := (flightStep outcome s.flight action).map fun next =>
    { flight := next.1, sent := s.sent ++ next.2.toList }

def expectedResults (targets : List SpecialistClient) : List SpecialistResult :=
  targets.map fun s => targetResult s (outcome s)

/-- The flight sends exactly one response, for its file, when every target has
finished, and with one entry per target and no other. -/
structure FlightDelivers (flight : Flight) : Prop where
  once : ∀ s, (broadcastMachine outcome flight).Reachable s → s.sent.length ≤ 1
  eventually : ∀ s, (broadcastMachine outcome flight).Reachable s →
    (∀ action, (broadcastMachine outcome flight).step s action = none) → s.sent.length = 1
  after : ∀ s, (broadcastMachine outcome flight).Reachable s → s.sent ≠ [] →
    ∀ p ∈ s.flight.phases, p = .finished
  exactly : ∀ s, (broadcastMachine outcome flight).Reachable s → ∀ r ∈ s.sent,
    r.fileId = flight.req.fileId ∧ r.res.Perm (expectedResults outcome flight.targets)

def Delivers (m : Coordinator) (view : FileView) (order : List SpecialistClient)
    (req : SpecialistRequest) : Prop :=
  ∃ flight, m.broadcast view order req = .ok (some flight) ∧ FlightDelivers outcome flight

variable {outcome}

structure BroadcastState.Sound (flight : Flight) (s : BroadcastState) : Prop where
  flying : s.flight.Sound
  req_eq : s.flight.req = flight.req
  targets_eq : s.flight.targets = flight.targets
  unsent : s.flight.sender ≠ .finished → s.sent = []
  sent : s.flight.sender = .finished → ∃ r, s.sent = [r] ∧ r.fileId = flight.req.fileId ∧
    flight.blanks <+: r.res

theorem broadcastStep_sound {flight : Flight} {s t : BroadcastState} {action : FlightAction}
    (h : s.Sound flight) (hStep : (broadcastMachine outcome flight).step s action = some t) :
    t.Sound flight := by
  obtain ⟨⟨next, out⟩, hNext, rfl⟩ := Option.map_eq_some_iff.mp hStep
  obtain ⟨hReq, hTargets, hQuiet⟩ := flightStep_frame hNext
  refine ⟨flightStep_sound h.flying hNext, hReq.trans h.req_eq, hTargets.trans h.targets_eq, ?_, ?_⟩
  · intro hActive
    cases out with
    | none => simpa using h.unsent (fun hDone => hActive ((hQuiet rfl).mpr hDone))
    | some r => exact absurd (flightStep_sends h.flying hNext).2.2.2.2 hActive
  · intro hDone
    cases out with
    | none => simpa using h.sent ((hQuiet rfl).mp hDone)
    | some r =>
      obtain ⟨hFile, hBlanks, _, hActive, _⟩ := flightStep_sends h.flying hNext
      have hSame : s.flight.blanks = flight.blanks := by
        rw [Flight.blanks, Flight.blanks, h.targets_eq]
      refine ⟨r, ?_, hFile.trans (congrArg SpecialistRequest.fileId h.req_eq), hSame ▸ hBlanks⟩
      rw [h.unsent hActive]
      rfl

theorem broadcast_sound_of_reachable {req : SpecialistRequest} {targets : List SpecialistClient}
    {s : BroadcastState}
    (h : (broadcastMachine outcome (launchFlight req targets)).Reachable s) :
    s.Sound (launchFlight req targets) := by
  refine Machine.Reachable.invariant (I := BroadcastState.Sound (launchFlight req targets)) ?_
    (fun _ _ _ hs hStep => broadcastStep_sound hs hStep) h
  exact ⟨launchFlight_sound req targets, rfl, rfl, fun _ => rfl, nofun⟩

theorem exists_sent {flight : Flight} {s : BroadcastState} (h : s.Sound flight)
    (hReach : (broadcastMachine outcome flight).Reachable s) :
    ∃ t, (broadcastMachine outcome flight).Reachable t ∧ t.sent ≠ [] := by
  induction hWork : s.flight.work using Nat.strong_induction_on generalizing s with
  | _ n ih =>
    by_cases hDone : s.flight.sender = .finished
    · obtain ⟨r, hSent, _⟩ := h.sent hDone
      exact ⟨s, hReach, by rw [hSent]; exact nofun⟩
    · obtain ⟨action, hAction⟩ := flightStep_progress outcome h.flying hDone
      obtain ⟨⟨next, out⟩, hNext⟩ := Option.isSome_iff_exists.mp hAction
      have hStep : (broadcastMachine outcome flight).step s action =
          some { flight := next, sent := s.sent ++ out.toList } := by
        rw [broadcastMachine]
        dsimp only
        rw [hNext]
        rfl
      exact ih next.work (hWork ▸ flightStep_work_lt hNext) (broadcastStep_sound h hStep)
        (hReach.next hStep) rfl

theorem targetResult_id (s : SpecialistClient) (result : Outcome) :
    (targetResult s result).id = some s.id := by
  cases result with
  | ok resp => rfl
  | error err => rfl

theorem not_perm_of_blanks {targets : List SpecialistClient} (hTargets : targets ≠ [])
    {res : List SpecialistResult}
    (h : List.replicate targets.length blankResult <+: res) :
    ¬ res.Perm (expectedResults outcome targets) := by
  intro hPerm
  have hBlank : blankResult ∈ res := by
    apply h.subset
    rw [List.mem_replicate]
    exact ⟨by simpa using hTargets, rfl⟩
  obtain ⟨s, _, hs⟩ := List.mem_map.mp (hPerm.subset hBlank)
  have hId := congrArg SpecialistResult.id hs
  rw [targetResult_id] at hId
  cases hId

theorem broadcast_eq_some {m : Coordinator} {view : FileView} {order : List SpecialistClient}
    {req : SpecialistRequest} {flight : Flight}
    (h : m.broadcast view order req = .ok (some flight)) :
    flight = launchFlight req (selectTargets order req) ∧ selectTargets order req ≠ [] := by
  rw [Coordinator.broadcast] at h
  split at h
  · cases h
  · dsimp only at h
    split at h
    · cases h
    · exact ⟨(Option.some.inj (Except.ok.inj h)).symm, ‹_›⟩

variable (outcome)

/-- No broadcast delivers its results: every flight comes to a response, and in
every run the response is not the list of the targets' results. -/
theorem broadcast_never_delivers (m : Coordinator) (view : FileView)
    (order : List SpecialistClient) (req : SpecialistRequest) :
    ¬ Delivers outcome m view order req ∧
      ∀ flight, m.broadcast view order req = .ok (some flight) →
        (∃ s, (broadcastMachine outcome flight).Reachable s ∧ s.sent ≠ []) ∧
        ∀ s, (broadcastMachine outcome flight).Reachable s → ∀ r ∈ s.sent,
          ¬ r.res.Perm (expectedResults outcome flight.targets) := by
  have hFlight : ∀ flight, m.broadcast view order req = .ok (some flight) →
      (∃ s, (broadcastMachine outcome flight).Reachable s ∧ s.sent ≠ []) ∧
      ∀ s, (broadcastMachine outcome flight).Reachable s → ∀ r ∈ s.sent,
        ¬ r.res.Perm (expectedResults outcome flight.targets) := by
    intro flight hCall
    obtain ⟨rfl, hTargets⟩ := broadcast_eq_some hCall
    refine ⟨exists_sent (broadcast_sound_of_reachable Machine.Reaches.start) .start, ?_⟩
    intro s hs r hr
    have hSound := broadcast_sound_of_reachable hs
    by_cases hDone : s.flight.sender = .finished
    · obtain ⟨r', hSent, _, hBlanks⟩ := hSound.sent hDone
      rw [hSent] at hr
      rw [List.mem_singleton.mp hr]
      exact not_perm_of_blanks hTargets hBlanks
    · rw [hSound.unsent hDone] at hr
      cases hr
  refine ⟨?_, hFlight⟩
  rintro ⟨flight, hCall, hDelivers⟩
  obtain ⟨⟨s, hs, hSent⟩, hNever⟩ := hFlight flight hCall
  obtain ⟨r, hr⟩ := List.exists_mem_of_ne_nil _ hSent
  exact hNever s hs r hr (hDelivers.exactly s hs r hr).2

end Runs

/-! ## One specialist -/

def sampleSpecialist : SpecialistClient := { id := "pdf", capabilities := [.applicationPDF] }

def sampleRequest : SpecialistRequest :=
  { fileId := "f", path := "/tmp/f.tmp", effectiveMimeType := .applicationPDF }

def sampleCoordinator : Coordinator :=
  { specialists := OrderedMap.empty.insert "pdf" sampleSpecialist, maxFileSizeMB := 1 }

def sampleView : FileView := { stat := some 1, data := some [0] }

def sampleOutcome : SpecialistClient → Outcome := fun _ => .error "unavailable"

def sampleFlightRun : List FlightAction :=
  [.launch 0, .capture, .spawn 0, .analyze 0, .load 0, .append 0 1, .store 0, .done 0, .send]

theorem broadcast_blank_entry :
    ¬ ∀ (outcome : SpecialistClient → Outcome) (m : Coordinator) (view : FileView)
      (order : List SpecialistClient) (req : SpecialistRequest) (data : List UInt8),
      order.Perm (m.specialists.entries.map Prod.snd) → m.checkRequest view req = .ok data →
      (∃ s ∈ order, s.canHandle req.effectiveMimeType = true) →
      Delivers outcome m view order req := by
  intro hAlways
  obtain ⟨flight, hCall, hDelivers⟩ := hAlways sampleOutcome sampleCoordinator sampleView
    [sampleSpecialist] sampleRequest [0] (by decide) (by decide) (by decide)
  have hLaunch : sampleCoordinator.broadcast sampleView [sampleSpecialist] sampleRequest =
      .ok (some (launchFlight sampleRequest [sampleSpecialist])) := by decide
  obtain rfl := Option.some.inj (Except.ok.inj (hLaunch.symm.trans hCall))
  have hRun : ((broadcastMachine sampleOutcome (launchFlight sampleRequest
      [sampleSpecialist])).exec (broadcastMachine sampleOutcome (launchFlight sampleRequest
      [sampleSpecialist])).start sampleFlightRun).map BroadcastState.sent =
      some [{ fileId := "f", res := [blankResult] }] := by decide
  obtain ⟨s, hs, hSent⟩ := Option.map_eq_some_iff.mp hRun
  have hExact := hDelivers.exactly s (Machine.reachable_of_exec hs)
    { fileId := "f", res := [blankResult] } (by rw [hSent]; exact List.mem_singleton_self _)
  exact absurd hExact.2 (by decide)

end ChatLab.Runtime

import ChatLab.Foundation.Bag

/-!
# Workers between two channels

A crew is a number of workers of one kind, told apart only by what they hold.
A relay is a crew between two channels. Each of its workers receives a value,
makes another one of it and sends that on; both waits end as well when the
context is done, and what the worker holds then is dropped. The channels carry
no bound, which leaves more runs than a bounded channel has.
-/

namespace Foundation

open Bag

structure Crew (β : Type) where
  -- goroutines that have not looked at the context yet
  waiting : Nat
  idle : Nat
  busy : List β
  exited : Nat
deriving DecidableEq

namespace Crew

variable {β : Type}

def ofSize (n : Nat) : Crew β where
  waiting := n
  idle := 0
  busy := []
  exited := 0

def start (c : Crew β) (done : Bool) : Option (Crew β) :=
  match c.waiting with
  | 0 => none
  | n + 1 =>
    if done then some { c with waiting := n, exited := c.exited + 1 }
    else some { c with waiting := n, idle := c.idle + 1 }

def take (c : Crew β) (b : β) : Option (Crew β) :=
  match c.idle with
  | 0 => none
  | n + 1 => some { c with idle := n, busy := c.busy ++ [b] }

def quit (c : Crew β) : Option (Crew β) :=
  match c.idle with
  | 0 => none
  | n + 1 => some { c with idle := n, exited := c.exited + 1 }

def finish (c : Crew β) (i : Nat) : Crew β :=
  { c with busy := c.busy.eraseIdx i, idle := c.idle + 1 }

def leave (c : Crew β) (i : Nat) : Crew β :=
  { c with busy := c.busy.eraseIdx i, exited := c.exited + 1 }

def crash (c : Crew β) (i : Nat) : Crew β :=
  { c with busy := c.busy.eraseIdx i, waiting := c.waiting + 1 }

def replace (c : Crew β) (i : Nat) (b : β) : Crew β :=
  { c with busy := c.busy.set i b }

def AllExited (c : Crew β) : Prop := c.waiting = 0 ∧ c.idle = 0 ∧ c.busy = []

instance (c : Crew β) : Decidable c.AllExited :=
  inferInstanceAs (Decidable (_ ∧ _))

variable {c d : Crew β} {b : β} {i : Nat}

theorem start_busy {done : Bool} (h : c.start done = some d) : d.busy = c.busy := by
  rw [start] at h
  split at h
  · cases h
  · split at h
    · cases h
      rfl
    · cases h
      rfl

theorem take_busy (h : c.take b = some d) : d.busy = c.busy ++ [b] := by
  rw [take] at h
  split at h
  · cases h
  · cases h
    rfl

theorem quit_busy (h : c.quit = some d) : d.busy = c.busy := by
  rw [quit] at h
  split at h
  · cases h
  · cases h
    rfl

/-- The workers that have not exited. -/
def left (c : Crew β) : Nat := c.waiting + c.idle + c.busy.length

theorem allExited_iff_left : c.AllExited ↔ c.left = 0 := by
  rw [AllExited, left, ← List.length_eq_zero_iff]
  omega

end Crew

/-- What the workers of a relay make of a value they receive, by a choice of
their own, and what they send for it. A value may be passed over. -/
structure RelayWorker (χ ι β γ : Type) where
  handle : χ → ι → Option β
  emit : β → γ

structure Signals where
  done : Bool
  inputClosed : Bool
  outputClosed : Bool

structure Relay (ι β γ : Type) where
  input : List ι
  crew : Crew β
  output : List γ
  dropped : List β

inductive RelayAction (χ : Type)
  | start
  | receive (x : χ)
  | send (i : Nat)
  | abandon (i : Nat)
  | quit
deriving DecidableEq

namespace Relay

variable {χ ι β γ : Type}

/-- A send to a closed channel panics and ends the worker, which was told to
stop before: that is `abandon` again. -/
def step (w : RelayWorker χ ι β γ) (g : Signals) (r : Relay ι β γ) :
    RelayAction χ → Option (Relay ι β γ)
  | .start => (r.crew.start g.done).map fun crew => { r with crew := crew }
  | .receive x =>
    match r.input with
    | [] => none
    | a :: rest =>
      match w.handle x a with
      | none => if r.crew.idle = 0 then none else some { r with input := rest }
      | some b => (r.crew.take b).map fun crew => { r with input := rest, crew := crew }
  | .send i =>
    match r.crew.busy[i]? with
    | none => none
    | some b =>
      if g.outputClosed then none
      else some { r with crew := r.crew.finish i, output := r.output ++ [w.emit b] }
  | .abandon i =>
    match r.crew.busy[i]? with
    | none => none
    | some b =>
      if g.done then some { r with crew := r.crew.leave i, dropped := r.dropped ++ [b] }
      else none
  | .quit =>
    if g.done || (g.inputClosed && r.input.isEmpty) then
      r.crew.quit.map fun crew => { r with crew := crew }
    else none

/-- What a step does to the values. -/
inductive Effect (w : RelayWorker χ ι β γ) (g : Signals) (r t : Relay ι β γ) : Prop
  | draw (x : χ) (a : ι) (b : β) : w.handle x a = some b → r.input = a :: t.input →
      t.crew.busy = r.crew.busy ++ [b] → t.output = r.output → t.dropped = r.dropped →
      Effect w g r t
  | ignore (x : χ) (a : ι) : w.handle x a = none → r.input = a :: t.input →
      t.crew.busy = r.crew.busy → t.output = r.output → t.dropped = r.dropped → Effect w g r t
  | send (b : β) : g.outputClosed = false → t.input = r.input →
      r.crew.busy.Perm (b :: t.crew.busy) → t.output = r.output ++ [w.emit b] →
      t.dropped = r.dropped → Effect w g r t
  | drop (b : β) : g.done = true → t.input = r.input → r.crew.busy.Perm (b :: t.crew.busy) →
      t.output = r.output → t.dropped = r.dropped ++ [b] → Effect w g r t
  | still : t.input = r.input → t.crew.busy = r.crew.busy → t.output = r.output →
      t.dropped = r.dropped → Effect w g r t

variable {w : RelayWorker χ ι β γ} {g : Signals} {r t : Relay ι β γ} {action : RelayAction χ}

theorem step_effect (h : r.step w g action = some t) : Effect w g r t := by
  cases action with
  | start =>
    obtain ⟨crew, hStart, rfl⟩ := Option.map_eq_some_iff.mp h
    exact .still rfl (Crew.start_busy hStart) rfl rfl
  | receive x =>
    simp only [step] at h
    split at h
    · cases h
    · rename_i a rest hInput
      split at h
      · rename_i hHandle
        split at h
        · cases h
        · cases h
          exact .ignore x a hHandle hInput rfl rfl rfl
      · rename_i b hHandle
        obtain ⟨crew, hTake, rfl⟩ := Option.map_eq_some_iff.mp h
        exact .draw x a b hHandle hInput (Crew.take_busy hTake) rfl rfl
  | send i =>
    simp only [step] at h
    split at h
    · cases h
    · rename_i b hb
      split at h
      · cases h
      · cases h
        exact .send b (by simpa using ‹¬ g.outputClosed = true›) rfl (perm_cons_eraseIdx hb) rfl rfl
  | abandon i =>
    simp only [step] at h
    split at h
    · cases h
    · rename_i b hb
      split at h
      · cases h
        exact .drop b ‹_› rfl (perm_cons_eraseIdx hb) rfl rfl
      · cases h
  | quit =>
    simp only [step] at h
    split at h
    · obtain ⟨crew, hQuit, rfl⟩ := Option.map_eq_some_iff.mp h
      exact .still rfl (Crew.quit_busy hQuit) rfl rfl
    · cases h

/-- Once the context is done a worker can always leave. -/
theorem exists_exit (w : RelayWorker χ ι β γ) (hDone : g.done = true) (h : ¬ r.crew.AllExited) :
    ∃ a t, r.step w g a = some t ∧ t.crew.left < r.crew.left ∧ t.output = r.output := by
  rw [Crew.allExited_iff_left] at h
  cases hBusy : r.crew.busy with
  | cons b rest =>
    refine ⟨.abandon 0, { r with crew := r.crew.leave 0, dropped := r.dropped ++ [b] }, ?_, ?_, rfl⟩
    · simp [step, hBusy, hDone]
    · simp [Crew.left, Crew.leave, hBusy]
  | nil =>
    cases hIdle : r.crew.idle with
    | succ n =>
      refine ⟨.quit, { r with crew := { r.crew with idle := n, exited := r.crew.exited + 1 } },
        ?_, ?_, rfl⟩
      · simp [step, hDone, Crew.quit, hIdle]
      · simp only [Crew.left, hIdle]
        omega
    | zero =>
      cases hWaiting : r.crew.waiting with
      | succ n =>
        refine ⟨.start, { r with crew :=
          { r.crew with waiting := n, exited := r.crew.exited + 1 } }, ?_, ?_, rfl⟩
        · simp [step, Crew.start, hDone, hWaiting]
        · simp only [Crew.left, hWaiting]
          omega
      | zero => exact absurd (by simp [Crew.left, hBusy, hIdle, hWaiting]) h

/-- What holds of the values received and carries over to those in hand and
those sent. -/
theorem Effect.forall {P : ι → Prop} {Q : β → Prop} {R : γ → Prop}
    (hHandle : ∀ x a b, P a → w.handle x a = some b → Q b) (hEmit : ∀ b, Q b → R (w.emit b))
    (h : Effect w g r t) (hInput : ∀ a ∈ r.input, P a) (hBusy : ∀ b ∈ r.crew.busy, Q b)
    (hOutput : ∀ c ∈ r.output, R c) :
    (∀ a ∈ t.input, P a) ∧ (∀ b ∈ t.crew.busy, Q b) ∧ ∀ c ∈ t.output, R c := by
  cases h with
  | draw x a b hab hIn hCrew hOut _ =>
    rw [hIn] at hInput
    refine ⟨fun a' ha => hInput a' (List.mem_cons_of_mem _ ha), ?_, hOut ▸ hOutput⟩
    rw [hCrew]
    exact forall_mem_concat hBusy (hHandle x a b (hInput a List.mem_cons_self) hab)
  | ignore x a _ hIn hCrew hOut _ =>
    rw [hIn] at hInput
    exact ⟨fun a' ha => hInput a' (List.mem_cons_of_mem _ ha), hCrew ▸ hBusy, hOut ▸ hOutput⟩
  | send b _ hIn hCrew hOut _ =>
    refine ⟨hIn ▸ hInput, fun b' hb => hBusy b' (hCrew.mem_iff.mpr (List.mem_cons_of_mem _ hb)), ?_⟩
    rw [hOut]
    exact forall_mem_concat hOutput (hEmit b (hBusy b (hCrew.mem_iff.mpr List.mem_cons_self)))
  | drop b _ hIn hCrew hOut _ =>
    exact ⟨hIn ▸ hInput, fun b' hb => hBusy b' (hCrew.mem_iff.mpr (List.mem_cons_of_mem _ hb)),
      hOut ▸ hOutput⟩
  | still hIn hCrew hOut _ => exact ⟨hIn ▸ hInput, hCrew ▸ hBusy, hOut ▸ hOutput⟩

section Tokens

variable {τ : Type} (p : ι → List τ) (q : β → List τ) (o : γ → List τ)

def tokens (r : Relay ι β γ) : List τ :=
  r.input.flatMap p ++ r.crew.busy.flatMap q ++ r.output.flatMap o ++ r.dropped.flatMap q

/-- No token is lost or made when the workers hand each one on and only pass
over values without one. -/
theorem Effect.tokens_count [BEq τ] (hHandle : ∀ x a b, w.handle x a = some b → q b = p a)
    (hIgnored : ∀ x a, w.handle x a = none → p a = []) (hEmit : ∀ b, o (w.emit b) = q b)
    (h : Effect w g r t) (n : τ) : (t.tokens p q o).count n = (r.tokens p q o).count n := by
  cases h with
  | draw x a b hab hIn hCrew hOut hDropped =>
    simp only [tokens, hIn, hCrew, hOut, hDropped, List.flatMap_append, List.flatMap_cons,
      List.flatMap_nil, List.count_append, List.count_nil, hHandle x a b hab]
    omega
  | ignore x a ha hIn hCrew hOut hDropped =>
    simp [tokens, hIn, hCrew, hOut, hDropped, hIgnored x a ha]
  | send b _ hIn hCrew hOut hDropped =>
    have hHand := (hCrew.flatMap_right q).count_eq n
    simp only [List.flatMap_cons, List.count_append] at hHand
    simp only [tokens, hIn, hOut, hDropped, hHand, List.flatMap_append, List.flatMap_cons,
      List.flatMap_nil, List.count_append, List.count_nil, hEmit]
    omega
  | drop b _ hIn hCrew hOut hDropped =>
    have hHand := (hCrew.flatMap_right q).count_eq n
    simp only [List.flatMap_cons, List.count_append] at hHand
    simp only [tokens, hIn, hOut, hDropped, hHand, List.flatMap_append, List.flatMap_cons,
      List.flatMap_nil, List.count_append, List.count_nil]
    omega
  | still hIn hCrew hOut hDropped => rw [tokens, tokens, hIn, hCrew, hOut, hDropped]

end Tokens

theorem Effect.dropped_eq (h : Effect w g r t) (hDone : g.done = false) :
    t.dropped = r.dropped := by
  cases h with
  | draw _ _ _ _ _ _ _ hDropped => exact hDropped
  | ignore _ _ _ _ _ _ hDropped => exact hDropped
  | send _ _ _ _ _ hDropped => exact hDropped
  | drop b hDrop =>
    rw [hDone] at hDrop
    cases hDrop
  | still _ _ _ hDropped => exact hDropped

/-- A relay without values stays without. -/
theorem Effect.quiet (h : Effect w g r t) (hInput : r.input = []) (hBusy : r.crew.busy = []) :
    t.input = [] ∧ t.crew.busy = [] ∧ t.output = r.output ∧ t.dropped = r.dropped := by
  cases h with
  | draw x a b _ hIn =>
    rw [hInput] at hIn
    cases hIn
  | ignore x a _ hIn =>
    rw [hInput] at hIn
    cases hIn
  | send b _ _ hCrew =>
    rw [hBusy] at hCrew
    exact absurd hCrew (List.not_perm_nil_cons b _)
  | drop b _ _ hCrew =>
    rw [hBusy] at hCrew
    exact absurd hCrew (List.not_perm_nil_cons b _)
  | still hIn hCrew hOut hDropped =>
    exact ⟨hIn.trans hInput, hCrew.trans hBusy, hOut, hDropped⟩

end Relay

end Foundation

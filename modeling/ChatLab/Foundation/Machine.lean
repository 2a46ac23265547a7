import Mathlib.Logic.Basic

/-!
# Labelled machines and their runs

A machine is a start state and a partial step function. The label of a step
carries every choice that the system does not make itself: which goroutine
moves, what an I/O call answers, in which order a map is visited. A run is
therefore the list of its labels and can be replayed. Runs are finite and no
fairness is assumed; progress statements are kept separate from safety.
-/

namespace Foundation

universe u v

structure Machine (σ : Type u) (α : Type v) where
  start : σ
  step : σ → α → Option σ

namespace Machine

variable {σ : Type u} {α : Type v}

def exec (M : Machine σ α) : σ → List α → Option σ
  | s, [] => some s
  | s, a :: as => (M.step s a).bind fun t => M.exec t as

/-- States reached by steps that all meet a condition on the state before the
step and on its label. -/
inductive Reaches (M : Machine σ α) (guard : σ → α → Prop) : σ → Prop
  | start : Reaches M guard M.start
  | step {s t : σ} {a : α} : Reaches M guard s → guard s a → M.step s a = some t →
      Reaches M guard t

def Reachable (M : Machine σ α) (s : σ) : Prop := M.Reaches (fun _ _ => True) s

variable {M : Machine σ α} {guard : σ → α → Prop}

theorem Reaches.invariant {I : σ → Prop} (hStart : I M.start)
    (hStep : ∀ s a t, I s → guard s a → M.step s a = some t → I t)
    {s : σ} (h : M.Reaches guard s) : I s := by
  induction h with
  | start => exact hStart
  | step _ hGuard hNext ih => exact hStep _ _ _ ih hGuard hNext

theorem Reachable.invariant {I : σ → Prop} (hStart : I M.start)
    (hStep : ∀ s a t, I s → M.step s a = some t → I t)
    {s : σ} (h : M.Reachable s) : I s :=
  Reaches.invariant hStart (fun s a t hs _ hNext => hStep s a t hs hNext) h

theorem Reaches.reachable {s : σ} (h : M.Reaches guard s) : M.Reachable s := by
  induction h with
  | start => exact Reaches.start
  | step _ _ hNext ih => exact Reaches.step ih trivial hNext

theorem Reachable.next {s t : σ} {a : α} (h : M.Reachable s) (hNext : M.step s a = some t) :
    M.Reachable t :=
  Reaches.step h trivial hNext

theorem Reachable.exec {as : List α} : ∀ {s t : σ}, M.Reachable s → M.exec s as = some t →
    M.Reachable t := by
  induction as with
  | nil =>
    intro s t h hRun
    exact Option.some.inj hRun ▸ h
  | cons a as ih =>
    intro s t h hRun
    obtain ⟨u, hNext, hRest⟩ := Option.bind_eq_some_iff.mp hRun
    exact ih (h.next hNext) hRest

/-- What the steps of some labels keep is kept by the runs of such labels. -/
theorem exec_invariant {I : σ → Prop} {ok : α → Prop}
    (hStep : ∀ s a t, I s → ok a → M.step s a = some t → I t) {as : List α}
    (hAs : ∀ a ∈ as, ok a) {s t : σ} (hs : I s) (hRun : M.exec s as = some t) : I t := by
  induction as generalizing s with
  | nil => exact Option.some.inj hRun ▸ hs
  | cons a as ih =>
    obtain ⟨u, hNext, hRest⟩ := Option.bind_eq_some_iff.mp hRun
    have hu := hStep s a u hs (hAs a List.mem_cons_self) hNext
    exact ih (fun b hb => hAs b (List.mem_cons_of_mem a hb)) hu hRest

theorem reachable_of_exec {as : List α} {t : σ} (h : M.exec M.start as = some t) :
    M.Reachable t :=
  Reachable.exec Reaches.start h

def after (M : Machine σ α) (as : List α) : σ := (M.exec M.start as).getD M.start

theorem reachable_after (as : List α) : M.Reachable (M.after as) := by
  rw [after]
  cases hRun : M.exec M.start as with
  | none => exact Reaches.start
  | some t => exact reachable_of_exec hRun

def restrict (M : Machine σ α) (guard : σ → α → Prop) [∀ s a, Decidable (guard s a)] :
    Machine σ α where
  start := M.start
  step s a := if guard s a then M.step s a else none

theorem reaches_after_restrict (M : Machine σ α) (guard : σ → α → Prop)
    [∀ s a, Decidable (guard s a)] (as : List α) :
    M.Reaches guard ((M.restrict guard).after as) := by
  refine Reachable.invariant (M := M.restrict guard) (I := M.Reaches guard) Reaches.start ?_
    (reachable_after as)
  intro s a t hs hStep
  simp only [restrict] at hStep
  split at hStep
  · exact Reaches.step hs ‹_› hStep
  · cases hStep

/-! ## What can still happen -/

/-- Some run leads from the one state to the other. -/
inductive Leads (M : Machine σ α) : σ → σ → Prop
  | refl (s : σ) : Leads M s s
  | step {s t u : σ} {a : α} : M.step s a = some t → Leads M t u → Leads M s u

theorem Leads.invariant {I : σ → Prop} (hStep : ∀ s a t, I s → M.step s a = some t → I t)
    {s t : σ} (h : M.Leads s t) (hs : I s) : I t := by
  induction h with
  | refl => exact hs
  | step hNext _ ih => exact ih (hStep _ _ _ hs hNext)

/-- A goal can be reached where some step always does a part of the work that
is left before it. -/
theorem leads_of_work {I goal : σ → Prop} (work : σ → Nat)
    (hStep : ∀ s, I s → ¬ goal s → ∃ a t, M.step s a = some t ∧ I t ∧ work t < work s)
    {s : σ} (hs : I s) : ∃ t, M.Leads s t ∧ I t ∧ goal t := by
  induction hWork : work s using Nat.strongRecOn generalizing s with
  | ind n ih =>
    by_cases hGoal : goal s
    · exact ⟨s, .refl s, hs, hGoal⟩
    · obtain ⟨a, u, hNext, hu, hLess⟩ := hStep s hs hGoal
      obtain ⟨t, hLeads, ht⟩ := ih (work u) (hWork ▸ hLess) hu rfl
      exact ⟨t, .step hNext hLeads, ht⟩

/-- The same for work that is measured by any well-founded relation. -/
theorem leads_of_rank {β : Type} {less : β → β → Prop} (hLess : WellFounded less)
    {I goal : σ → Prop} (rank : σ → β)
    (hStep : ∀ s, I s → ¬ goal s → ∃ a t, M.step s a = some t ∧ I t ∧ less (rank t) (rank s))
    {s : σ} (hs : I s) : ∃ t, M.Leads s t ∧ I t ∧ goal t := by
  induction hRank : rank s using hLess.induction generalizing s with
  | _ b ih =>
    by_cases hGoal : goal s
    · exact ⟨s, .refl s, hs, hGoal⟩
    · obtain ⟨a, u, hNext, hu, hLower⟩ := hStep s hs hGoal
      obtain ⟨t, hLeads, ht⟩ := ih (rank u) (hRank ▸ hLower) hu rfl
      exact ⟨t, .step hNext hLeads, ht⟩

end Machine

end Foundation

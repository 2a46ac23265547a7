import Mathlib.Data.List.Basic

/-!
# Components on one state

The operations of several components run on one state, one after the other and
in any order. A component sees the state through its view. If its operations
depend on that view only, and those of the others leave it alone, then no
component notices the others. An operation may need a state that fits it for
this: then the states in which the component runs it have to.
-/

namespace Foundation.Interleaving

variable {σ ω α ι ν : Type}

/-- The operations of a run with their answers. -/
def answers (run : ω → σ → σ × α) : List ω → σ → List (ω × α)
  | [], _ => []
  | o :: ops, s => (o, (run o s).2) :: answers run ops (run o s).1

/-- The condition holds at every operation of a run. -/
def Throughout (run : ω → σ → σ × α) (P : ω → σ → Prop) : List ω → σ → Prop
  | [], _ => True
  | o :: ops, s => P o s ∧ Throughout run P ops (run o s).1

theorem Throughout.imp {run : ω → σ → σ × α} {P Q : ω → σ → Prop} (hPQ : ∀ o s, P o s → Q o s)
    {ops : List ω} {s : σ} (h : Throughout run P ops s) : Throughout run Q ops s := by
  induction ops generalizing s with
  | nil => trivial
  | cons o ops ih => exact ⟨hPQ o s h.1, ih h.2⟩

theorem throughout_of_forall {run : ω → σ → σ × α} {P : ω → σ → Prop} (h : ∀ o s, P o s)
    (ops : List ω) (s : σ) : Throughout run P ops s := by
  induction ops generalizing s with
  | nil => trivial
  | cons o ops ih => exact ⟨h o s, ih _⟩

structure Separated (run : ω → σ → σ × α) (owner : ω → ι) (view : ι → σ → ν)
    (Inv : σ → Prop) (Fits : ω → σ → Prop) : Prop where
  keeps : ∀ o s, Inv s → Inv (run o s).1
  depends : ∀ o s t, Inv s → Inv t → Fits o s → Fits o t →
    view (owner o) s = view (owner o) t →
    (run o s).2 = (run o t).2 ∧ view (owner o) (run o s).1 = view (owner o) (run o t).1
  spares : ∀ o s i, Inv s → i ≠ owner o → view i (run o s).1 = view i s

variable {run : ω → σ → σ × α} {owner : ω → ι} {view : ι → σ → ν} {Inv : σ → Prop}
  {Fits : ω → σ → Prop}

/-- The answers that a component gets in a run are those of a run of its own
operations, on any state that looks the same to it. -/
theorem Separated.answers_filter [DecidableEq ι] (h : Separated run owner view Inv Fits) (i : ι)
    (ops : List ω) {s t : σ} (hs : Inv s) (ht : Inv t) (hView : view i s = view i t)
    (hFits : Throughout run (fun o s => owner o = i → Fits o s) ops s)
    (hFits' : Throughout run (fun o s => owner o = i → Fits o s)
      (ops.filter fun o => owner o = i) t) :
    ((answers run ops s).filter fun a => owner a.1 = i) =
      answers run (ops.filter fun o => owner o = i) t := by
  induction ops generalizing s t with
  | nil => rfl
  | cons o ops ih =>
    obtain ⟨hFirst, hRest⟩ := hFits
    by_cases hOwner : owner o = i
    · simp only [answers, List.filter_cons, hOwner, decide_true, if_true] at hFits' ⊢
      obtain ⟨hFirst', hRest'⟩ := hFits'
      obtain ⟨hAnswer, hNext⟩ := h.depends o s t hs ht (hFirst hOwner) (hFirst' hOwner)
        (hOwner ▸ hView)
      rw [hAnswer, ih (h.keeps o s hs) (h.keeps o t ht) (hOwner ▸ hNext) hRest hRest']
    · have hSpared := h.spares o s i hs (Ne.symm hOwner)
      simp only [answers, List.filter_cons, hOwner, decide_false, Bool.false_eq_true, if_false]
        at hFits' ⊢
      exact ih (h.keeps o s hs) ht (hSpared.trans hView) hRest hFits'

end Foundation.Interleaving

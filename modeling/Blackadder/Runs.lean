/-
**Runs whose steps meet a condition.**

`Runs.Along step P s actions` says that every action of a run is taken in a state that suits it, and
an invariant has to be kept by such steps only.
-/

import Mathlib.Data.List.Basic

universe u v w

namespace Runs

variable {σ : Type u} {α : Type v} {step : σ → α → σ} {P : σ → α → Prop} {I J : σ → Prop}

def Along (step : σ → α → σ) (P : σ → α → Prop) : σ → List α → Prop
  | _, [] => True
  | s, a :: actions => P s a ∧ Along step P (step s a) actions

instance Along.decidable [∀ s a, Decidable (P s a)] :
    ∀ (s : σ) (actions : List α), Decidable (Along step P s actions)
  | _, [] => isTrue trivial
  | s, a :: actions =>
    have := Along.decidable (step s a) actions
    inferInstanceAs (Decidable (P s a ∧ Along step P (step s a) actions))

/-- **The rule for runs.** What suitable steps keep is kept. -/
theorem Along.invariant (hstep : ∀ s a, I s → P s a → I (step s a)) (actions : List α) :
    ∀ s, I s → Along step P s actions → I (actions.foldl step s) := by
  induction actions with
  | nil =>
    intro s hs _
    exact hs
  | cons a actions ih =>
    intro s hs halong
    exact ih (step s a) (hstep s a hs halong.1) halong.2

/-- **Exact conditions.** If the suitable steps are those that keep `I`, where `J` holds, which
every step keeps, then `I` holds throughout a run if and only if all its steps are suitable. -/
theorem along_iff (hside : ∀ s a, J s → J (step s a))
    (hstep : ∀ s a, J s → I s → (P s a ↔ I (step s a))) (actions : List α) :
    ∀ s, J s → I s → (Along step P s actions ↔ ∀ k, I ((actions.take k).foldl step s)) := by
  induction actions with
  | nil =>
    intro s _ hs
    simpa [Along] using hs
  | cons a actions ih =>
    intro s hj hs
    constructor
    · intro halong k
      cases k with
      | zero => exact hs
      | succ k =>
        exact (ih (step s a) (hside s a hj) ((hstep s a hj hs).1 halong.1)).1 halong.2 k
    · intro hall
      have hnext : I (step s a) := by simpa using hall 1
      refine ⟨(hstep s a hj hs).2 hnext, (ih (step s a) (hside s a hj) hnext).2 fun k => ?_⟩
      exact hall (k + 1)

section
variable {τ : Type w} {step' : τ → α → τ} {R : σ → τ → Prop}

theorem along_prod_iff (actions : List α) (s : σ) (t : τ) :
    Along (fun (x : σ × τ) a => (step x.1 a, step' x.2 a)) (fun x => P x.1) (s, t) actions ↔
      Along step P s actions := by
  induction actions generalizing s t with
  | nil => rfl
  | cons a actions ih => exact and_congr_right fun _ => ih (step s a) (step' t a)

/-- **Simulations.** If the suitable steps are those that keep two systems related, then they are
related throughout a run if and only if all its steps are suitable. -/
theorem simulation_iff (hstep : ∀ s t a, R s t → (P s a ↔ R (step s a) (step' t a)))
    (actions : List α) (s : σ) (t : τ) (h : R s t) :
    Along step P s actions ↔
      ∀ k, R ((actions.take k).foldl step s) ((actions.take k).foldl step' t) := by
  -- Together the two make one system, in which the relation is an invariant.
  let both (x : σ × τ) (a : α) : σ × τ := (step x.1 a, step' x.2 a)
  have hboth (actions : List α) :
      actions.foldl both (s, t) = (actions.foldl step s, actions.foldl step' t) :=
    Prod.ext (List.foldl_hom Prod.fst fun _ _ => rfl).symm
      (List.foldl_hom Prod.snd fun _ _ => rfl).symm
  have hinva (x : σ × τ) (a : α) (_ : True) (hx : R x.1 x.2) :
      P x.1 a ↔ R (both x a).1 (both x a).2 := hstep x.1 x.2 a hx
  have hall := along_iff (I := fun x => R x.1 x.2) (fun _ _ _ => trivial) hinva actions (s, t)
    trivial h
  simp only [hboth] at hall
  exact (along_prod_iff actions s t).symm.trans hall

end

end Runs

import Mathlib.Tactic.Basic

/-!
# Runs with their log

A run is a list of operations, none of which is refused. Beside the state it keeps its log:
each operation so far, with the state it was made in.
-/

namespace Runs

structure Logged (S A : Type*) where
  state : S
  log : List (S × A) := []

variable {S A : Type*}

def Logged.next (step : S → A → S) (run : Logged S A) (action : A) : Logged S A where
  state := step run.state action
  log := run.log ++ [(run.state, action)]

section Throughout

variable {R : Type*} (step : R → A → R)

/-- Every state of the run has the property, the first and the last included. -/
def EveryState (Good : R → Prop) : R → List A → Prop
  | run, [] => Good run
  | run, action :: rest => Good run ∧ EveryState Good (step run action) rest

/-- Every operation of the run has the property where it is made. -/
def EveryStep (Does : R → A → Prop) : R → List A → Prop
  | _, [] => True
  | run, action :: rest => Does run action ∧ EveryStep Does (step run action) rest

variable {step} {Inv Good : R → Prop} {Does Meets : R → A → Prop} {run : R} {actions : List A}

/-- What every state has, the last has. -/
theorem EveryState.last (h : EveryState step Good run actions) :
    Good (actions.foldl step run) := by
  induction actions generalizing run with
  | nil => exact h
  | cons action rest ih => exact ih h.2

/-- Where a condition on each operation is what it takes to go from one good state to the next,
it is what it takes for a whole run. -/
theorem throughout_iff (hinv : Inv run) (hstep : ∀ run action, Inv run → Inv (step run action))
    (hgood : ∀ run action, Inv run → Good run →
      (Does run action ∧ Good (step run action) ↔ Meets run action)) :
    EveryState step Good run actions ∧ EveryStep step Does run actions ↔
      Good run ∧ EveryStep step Meets run actions := by
  induction actions generalizing run with
  | nil => exact Iff.rfl
  | cons action rest ih =>
      have hrest := ih (hstep run action hinv)
      have haction := hgood run action hinv
      simp only [EveryState, EveryStep]
      constructor
      · rintro ⟨⟨hstart, hstates⟩, hdoes, hsteps⟩
        obtain ⟨hnext, hmeets⟩ := hrest.mp ⟨hstates, hsteps⟩
        exact ⟨hstart, (haction hstart).mp ⟨hdoes, hnext⟩, hmeets⟩
      · rintro ⟨hstart, hmeets, hrestMeets⟩
        obtain ⟨hdoes, hnext⟩ := (haction hstart).mpr hmeets
        obtain ⟨hstates, hsteps⟩ := hrest.mpr ⟨hnext, hrestMeets⟩
        exact ⟨⟨hstart, hstates⟩, hdoes, hsteps⟩

end Throughout

end Runs

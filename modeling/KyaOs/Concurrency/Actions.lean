import Mathlib.Tactic.Basic

/-!
# Worlds that act

A world takes an action on to the next world or refuses it. `Acted` are the worlds that a run
leads to whose actions are all allowed where they are taken; a property kept by allowed actions
and by no others holds up to the first action that is not allowed.
-/

namespace Concurrency

variable {W A : Type} {act : W → A → Option W} {allows : W → A → Prop} {start w : W}

/-- The worlds that allowed actions lead to. -/
inductive Acted (act : W → A → Option W) (allows : W → A → Prop) (start : W) : W → Prop
  | start : Acted act allows start start
  | act {w w' : W} {a : A} : Acted act allows start w → act w a = some w' → allows w a →
      Acted act allows start w'

/-- Any action. -/
abbrev anyAction (_ : W) (_ : A) : Prop := True

/-- The next world of an allowed action. -/
def allowedAct (act : W → A → Option W) (allows : W → A → Prop) [∀ w a, Decidable (allows w a)]
    (w : W) (a : A) : Option W :=
  if allows w a then act w a else none

theorem allowedAct_eq_some [∀ w a, Decidable (allows w a)] {w w' : W} {a : A}
    (h : allowedAct act allows w a = some w') : allows w a ∧ act w a = some w' := by
  rwa [allowedAct, Option.ite_none_right_eq_some] at h

/-- What each step keeps, a run of steps keeps. -/
theorem kept_of_foldlM {P : W → Prop} {step : W → A → Option W}
    (hstep : ∀ w a w', P w → step w a = some w' → P w') {actions : List A} (hstart : P start)
    (h : actions.foldlM step start = some w) : P w := by
  induction actions generalizing start with
  | nil =>
      cases h
      exact hstart
  | cons a rest ih =>
      rw [List.foldlM_cons] at h
      obtain ⟨next, hnext, hrest⟩ := Option.bind_eq_some_iff.mp h
      exact ih (hstep start a next hstart hnext) hrest

namespace Acted

theorem mono {allows' : W → A → Prop} (h : Acted act allows start w)
    (hallows : ∀ w a, allows w a → allows' w a) : Acted act allows' start w := by
  induction h with
  | start => exact .start
  | act _ hact hallowed ih => exact ih.act hact (hallows _ _ hallowed)

/-- What allowed actions keep. -/
theorem invariant {Inv : W → Prop} (h : Acted act allows start w) (hstart : Inv start)
    (hact : ∀ w a w', Inv w → act w a = some w' → allows w a → Inv w') : Inv w := by
  induction h with
  | start => exact hstart
  | act _ hacts hallowed ih => exact hact _ _ _ ih hacts hallowed

/-- Where a run of actions ends. -/
theorem of_run {actions : List A} (h : actions.foldlM act start = some w) :
    Acted act anyAction start w :=
  kept_of_foldlM (fun _ _ _ hacted hact => hacted.act hact trivial) .start h

/-- Runs of allowed actions keep a property, up to the first action that is not allowed. -/
theorem keeps_iff {Inv Good : W → Prop} (h : Acted act allows start w) (hstart : Inv start)
    (hact : ∀ w a w', Inv w → act w a = some w' → allows w a → Inv w')
    (hgood : ∀ w, Inv w → Good w)
    (hallows : ∀ w a w', Inv w → act w a = some w' → Good w' → allows w a) :
    Good w ∧ ∀ a w', act w a = some w' → (Good w' ↔ allows w a) := by
  have hinv := h.invariant hstart hact
  refine ⟨hgood w hinv, ?_⟩
  intro a w' hacts
  constructor
  · exact hallows w a w' hinv hacts
  · intro hallowed
    exact hgood w' (hact w a w' hinv hacts hallowed)

end Acted

end Concurrency

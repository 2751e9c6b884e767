import Mathlib.Logic.Relation
import Mathlib.Tactic.Basic

/-!
# Stateful code that may stop early

`Eff σ ε α` is code over a state `σ` that ends in a value or stops with an `ε`.
What it wrote before it stopped stays written. `exec` runs it and the equations
take a run apart along `do` notation. `Moves R` says of a run, on both ways out,
that it changed the state by steps of `R` only, so an invariant of `R` survives
a run wherever it stopped.
-/

namespace Effect

/-- Code over the state `σ` that returns an `α` or stops with an `ε`. -/
abbrev Eff (σ ε α : Type) := ExceptT ε (StateM σ) α

variable {σ ε α β : Type}

/-- The outcome of a run and the state it leaves. -/
def exec (x : Eff σ ε α) (s : σ) : Except ε α × σ := StateT.run (ExceptT.run x) s

section Equations

@[simp] theorem exec_pure (a : α) (s : σ) :
    exec (pure a : Eff σ ε α) s = (.ok a, s) := rfl

@[simp] theorem exec_throw (e : ε) (s : σ) :
    exec (throw e : Eff σ ε α) s = (.error e, s) := rfl

@[simp] theorem exec_get (s : σ) : exec (get : Eff σ ε σ) s = (.ok s, s) := rfl

@[simp] theorem exec_set (s' s : σ) : exec (set s' : Eff σ ε PUnit) s = (.ok ⟨⟩, s') := rfl

@[simp] theorem exec_modify (f : σ → σ) (s : σ) :
    exec (modify f : Eff σ ε PUnit) s = (.ok ⟨⟩, f s) := rfl

/-- A call that touches no state. -/
@[simp] theorem exec_liftExcept (x : Except ε α) (s : σ) :
    exec (liftM x : Eff σ ε α) s = (x, s) := by
  cases x <;> rfl

theorem exec_bind (x : Eff σ ε α) (f : α → Eff σ ε β) (s : σ) :
    exec (x >>= f) s =
      match exec x s with
      | (.ok a, s') => exec (f a) s'
      | (.error e, s') => (.error e, s') := by
  simp only [exec, ExceptT.run_bind, StateT.run_bind]
  rcases StateT.run (ExceptT.run x) s with ⟨a | e, s'⟩ <;> rfl

/-- A sequence returned exactly when its first part did and the rest then did. -/
theorem exec_bind_ok {x : Eff σ ε α} {f : α → Eff σ ε β} {s s'' : σ} {b : β} :
    exec (x >>= f) s = (.ok b, s'') ↔
      ∃ a s', exec x s = (.ok a, s') ∧ exec (f a) s' = (.ok b, s'') := by
  rw [exec_bind]
  rcases exec x s with ⟨e | a, s'⟩
  · simp
  · constructor
    · exact fun h => ⟨a, s', rfl, h⟩
    · rintro ⟨a', s₁, hsame, h⟩
      cases hsame
      exact h

/-- A run whose returned value is known in part did return. -/
theorem exec_ok_of_map {γ : Type} {x : Eff σ ε α} {s : σ} {f : α → γ} {c : γ}
    (h : (exec x s).1.toOption.map f = some c) : ∃ a s', exec x s = (.ok a, s') ∧ f a = c := by
  rcases hrun : exec x s with ⟨e | a, s'⟩
  · rw [hrun] at h
    cases h
  · rw [hrun] at h
    exact ⟨a, s', rfl, Option.some.inj h⟩

theorem exec_get_bind (f : σ → Eff σ ε β) (s : σ) : exec (get >>= f) s = exec (f s) s := rfl

theorem exec_set_bind (s' : σ) (f : PUnit → Eff σ ε β) (s : σ) :
    exec (set s' >>= f) s = exec (f ⟨⟩) s' := rfl

/-- `if (p) stop with e`. -/
def stopIf (p : Prop) [Decidable p] (e : ε) : Eff σ ε PUnit := if p then throw e else pure ⟨⟩

@[simp] theorem exec_stopIf (p : Prop) [Decidable p] (e : ε) (s : σ) :
    exec (stopIf p e) s = (if p then .error e else .ok ⟨⟩, s) := by
  by_cases h : p <;> simp [stopIf, h]

theorem exec_stopIf_ok {p : Prop} [Decidable p] {e : ε} {s s' : σ} {u : PUnit} :
    exec (stopIf p e) s = (.ok u, s') ↔ ¬ p ∧ s' = s := by
  by_cases h : p <;> simp [stopIf, h, eq_comm]

/-- A guard was passed when the code behind it returned. -/
@[simp] theorem exec_stopIf_bind_ok {p : Prop} [Decidable p] {e : ε} {x : PUnit → Eff σ ε β}
    {s s' : σ} {b : β} :
    exec (stopIf p e >>= x) s = (.ok b, s') ↔ ¬ p ∧ exec (x ⟨⟩) s = (.ok b, s') := by
  by_cases h : p <;> simp [stopIf, h]

/-- A fold that returned keeps what each of its rounds keeps; `I` may speak of the
elements already folded in. -/
theorem foldlM_ok_induction {f : β → α → Eff σ ε β} {I : List α → β → σ → Prop}
    (step : ∀ before a b s b' s', I before b s → exec (f b a) s = (.ok b', s') →
      I (before ++ [a]) b' s')
    {l : List α} {b b' : β} {s s' : σ} (start : I [] b s)
    (h : exec (l.foldlM f b) s = (.ok b', s')) : I l b' s' := by
  suffices ∀ rest before b s, I before b s → exec (rest.foldlM f b) s = (.ok b', s') →
      I (before ++ rest) b' s' by simpa using this l [] b s start h
  intro rest
  induction rest with
  | nil =>
      intro before b s hI h
      rw [List.foldlM_nil, exec_pure] at h
      cases h
      simpa using hI
  | cons a rest ih =>
      intro before b s hI h
      rw [List.foldlM_cons] at h
      obtain ⟨b₁, s₁, hround, h⟩ := exec_bind_ok.mp h
      simpa using ih (before ++ [a]) b₁ s₁ (step before a b s b₁ s₁ hI hround) h

/-- The same for a loop that carries no value of its own. -/
theorem forM_ok_induction {f : α → Eff σ ε PUnit} {I : List α → σ → Prop}
    (step : ∀ before a s s', I before s → exec (f a) s = (.ok ⟨⟩, s') → I (before ++ [a]) s')
    {l : List α} {s s' : σ} {u : PUnit} (start : I [] s) (h : exec (l.forM f) s = (.ok u, s')) :
    I l s' := by
  suffices ∀ rest before s, I before s → exec (rest.forM f) s = (.ok u, s') →
      I (before ++ rest) s' by simpa using this l [] s start h
  intro rest
  induction rest with
  | nil =>
      intro before s hI h
      cases h
      simpa using hI
  | cons a rest ih =>
      intro before s hI h
      obtain ⟨⟨⟩, s₁, hround, h⟩ := exec_bind_ok.mp h
      simpa using ih (before ++ [a]) s₁ (step before a s s₁ hI hround) h

end Equations

section Zoom

variable {τ : Type}

/-- Code over a part of the state. -/
def zoom (view : σ → τ) (update : σ → τ → σ) (x : Eff τ ε α) : Eff σ ε α :=
  ExceptT.mk fun s => ((exec x (view s)).1, update s (exec x (view s)).2)

@[simp] theorem exec_zoom (view : σ → τ) (update : σ → τ → σ) (x : Eff τ ε α) (s : σ) :
    exec (zoom view update x) s = ((exec x (view s)).1, update s (exec x (view s)).2) := rfl

end Zoom

section Moves

variable {R : σ → σ → Prop}

/-- Every run of `x`, returning or stopped, is a series of `R` steps. -/
def Moves (R : σ → σ → Prop) (x : Eff σ ε α) : Prop :=
  ∀ s, Relation.ReflTransGen R s (exec x s).2

theorem Moves.pure (a : α) : Moves R (Pure.pure a : Eff σ ε α) :=
  fun _ => Relation.ReflTransGen.refl

theorem Moves.throw (e : ε) : Moves R (MonadExcept.throw e : Eff σ ε α) :=
  fun _ => Relation.ReflTransGen.refl

theorem Moves.lift (x : Except ε α) : Moves R (liftM x : Eff σ ε α) := by
  cases x with
  | error e => exact Moves.throw e
  | ok a => exact Moves.pure a

theorem Moves.stopIf (p : Prop) [Decidable p] (e : ε) : Moves R (Effect.stopIf p e) := by
  by_cases h : p
  · simpa only [Effect.stopIf, h, if_true] using Moves.throw e
  · rw [Effect.stopIf, if_neg h]
    exact Moves.pure _

theorem Moves.bind {x : Eff σ ε α} {f : α → Eff σ ε β} (hx : Moves R x)
    (hf : ∀ a, Moves R (f a)) : Moves R (x >>= f) := by
  intro s
  have hfirst := hx s
  rw [exec_bind]
  rcases hrun : exec x s with ⟨a | e, s'⟩
  · simpa only [hrun] using hfirst
  · rw [hrun] at hfirst
    exact hfirst.trans (hf _ s')

/-- What follows a read may use that the value read is the state. -/
theorem Moves.get_bind {f : σ → Eff σ ε β}
    (hf : ∀ s, Relation.ReflTransGen R s (exec (f s) s).2) : Moves R (get >>= f) :=
  fun s => hf s

theorem Moves.foldlM {f : β → α → Eff σ ε β} (hf : ∀ b a, Moves R (f b a)) :
    ∀ (l : List α) (b : β), Moves R (l.foldlM f b) := by
  intro l
  induction l with
  | nil => exact fun b => Moves.pure b
  | cons a l ih =>
      intro b
      rw [List.foldlM_cons]
      exact (hf b a).bind ih

/-- An invariant of the steps survives a run, whether it returned or stopped. -/
theorem Moves.keeps {x : Eff σ ε α} {I : σ → Prop} (hx : Moves R x)
    (hstep : ∀ s s', R s s' → I s → I s') {s : σ} (hI : I s) : I (exec x s).2 := by
  have hsteps := hx s
  generalize (exec x s).2 = s' at hsteps ⊢
  induction hsteps with
  | refl => exact hI
  | tail _ hlast ih => exact hstep _ _ hlast ih

end Moves

end Effect

import KyaOs.Js.String

/-!
# Throwing code

A call that may throw is an `Except`. The lemmas below take a sequence of such
calls apart at the calls that must have returned.
-/

namespace Js

/-- What a thrown value is to the code that catches it: its class and message. -/
inductive Error where
  | error (message : JsString)
  | typeError (message : JsString)
  | rangeError (message : JsString)
  /-- A thrown value that is not an `Error` instance. -/
  | nonError
  deriving DecidableEq

/-- `error instanceof Error ? error.message : "Unknown error"`. -/
def Error.messageOrUnknown : Error → JsString
  | .error message | .typeError message | .rangeError message => message
  | .nonError => js "Unknown error"

section Sequencing

variable {ε : Type*} {α β : Type}

/-- A sequence returned exactly when its first call did and the rest then did. -/
theorem bind_eq_ok {x : Except ε α} {f : α → Except ε β} {b : β} :
    (x >>= f) = .ok b ↔ ∃ a, x = .ok a ∧ f a = .ok b := by
  cases x <;> simp [bind, Except.bind]

/-- Each result of a mapped call is a call's result. -/
theorem exists_of_mapM_eq_ok {f : α → Except ε β} {l : List α} {bs : List β}
    (h : l.mapM f = .ok bs) {b : β} (hmem : b ∈ bs) : ∃ a ∈ l, f a = .ok b := by
  induction l generalizing bs with
  | nil =>
      rw [List.mapM_nil] at h
      cases h
      cases hmem
  | cons a rest ih =>
      rw [List.mapM_cons] at h
      obtain ⟨b', hhead, htail⟩ := bind_eq_ok.mp h
      obtain ⟨bs', hrest, hall⟩ := bind_eq_ok.mp htail
      obtain rfl := Except.ok.inj hall
      cases List.mem_cons.mp hmem with
      | inl hfirst => exact ⟨a, List.mem_cons_self, hfirst ▸ hhead⟩
      | inr hmem =>
          obtain ⟨a', ha', hf⟩ := ih hrest hmem
          exact ⟨a', List.mem_cons_of_mem a ha', hf⟩

/-- Each mapped call has returned. -/
theorem exists_mem_of_mapM_eq_ok {f : α → Except ε β} {l : List α} {bs : List β}
    (h : l.mapM f = .ok bs) {a : α} (hmem : a ∈ l) : ∃ b ∈ bs, f a = .ok b := by
  induction l generalizing bs with
  | nil => cases hmem
  | cons first rest ih =>
      rw [List.mapM_cons] at h
      obtain ⟨b, hhead, htail⟩ := bind_eq_ok.mp h
      obtain ⟨bs', hrest, hall⟩ := bind_eq_ok.mp htail
      obtain rfl := Except.ok.inj hall
      cases List.mem_cons.mp hmem with
      | inl hfirst => exact ⟨b, List.mem_cons_self, hfirst ▸ hhead⟩
      | inr hmem =>
          obtain ⟨b', hb', hf⟩ := ih hrest hmem
          exact ⟨b', List.mem_cons_of_mem b hb', hf⟩

theorem toOption_eq_some {x : Except ε α} {a : α} : x.toOption = some a ↔ x = .ok a := by
  cases x <;> simp [Except.toOption]

@[simp] theorem toOption_bind (x : Except ε α) (f : α → Except ε β) :
    (x >>= f).toOption = x.toOption.bind (fun a => (f a).toOption) := by
  cases x <;> rfl

end Sequencing

end Js

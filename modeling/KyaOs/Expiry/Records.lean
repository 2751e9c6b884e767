import Mathlib.Algebra.Order.Ring.Rat
import Mathlib.Logic.Function.Basic
import Mathlib.Tactic.Basic

/-!
# Records with an expiry

A map that gives each key's record an expiry, and drops records once it is reached.
`Remembers` is the promise such a map can keep: up to a bound, the key has a record
that lasts at least that long. Whoever writes to a key only when its record is gone or
expired, and evicts only expired records, keeps every promise ever made.
-/

namespace Expiry

variable {κ : Type*}

/-- The expiry of each key's record. -/
abbrev Records (κ : Type*) := κ → Option ℚ

namespace Records

/-- Nothing is left of the key's record, or it has expired. -/
def Vacant (records : Records κ) (now : ℚ) (key : κ) : Prop :=
  ∀ expiry, records key = some expiry → expiry ≤ now

/-- `expiry === undefined || expiry <= now`, of the key's record. -/
def isVacant (records : Records κ) (now : ℚ) (key : κ) : Bool :=
  match records key with
  | some expiry => expiry ≤ now
  | none => true

def evict (records : Records κ) (now : ℚ) : Records κ :=
  fun key => (records key).filter (now < ·)

/-- Until `bound`, the key has a record that lasts that long. -/
def Remembers (records : Records κ) (now : ℚ) (key : κ) (bound : ℚ) : Prop :=
  now < bound → ∃ expiry, records key = some expiry ∧ bound ≤ expiry

variable {records : Records κ} {now now' bound bound' expiry : ℚ} {key other : κ}

@[simp] theorem isVacant_iff : records.isVacant now key = true ↔ records.Vacant now key := by
  cases h : records key <;> simp [isVacant, Vacant, h]

namespace Remembers

theorem later (h : records.Remembers now key bound) (hnow : now ≤ now') :
    records.Remembers now' key bound := by
  intro hlive
  exact h (lt_of_le_of_lt hnow hlive)

theorem weaken (h : records.Remembers now key bound) (hbound : bound' ≤ bound) :
    records.Remembers now key bound' := by
  intro hlive
  obtain ⟨expiry, hrecord, hlasts⟩ := h (lt_of_lt_of_le hlive hbound)
  exact ⟨expiry, hrecord, hbound.trans hlasts⟩

/-- A promise that still binds leaves its key taken. -/
theorem not_vacant (h : records.Remembers now key bound) (hlive : now < bound) :
    ¬ records.Vacant now key := by
  intro hvacant
  obtain ⟨expiry, hrecord, hlasts⟩ := h hlive
  exact absurd (hvacant expiry hrecord) (not_le.mpr (lt_of_lt_of_le hlive hlasts))

theorem evict (h : records.Remembers now key bound) :
    (records.evict now).Remembers now key bound := by
  intro hlive
  obtain ⟨expiry, hrecord, hlasts⟩ := h hlive
  refine ⟨expiry, ?_, hlasts⟩
  simp [Records.evict, hrecord, lt_of_lt_of_le hlive hlasts]

variable [DecidableEq κ]

/-- A record written to a vacant key breaks no promise. -/
theorem write (h : records.Remembers now key bound) (hvacant : records.Vacant now other) :
    Remembers (Function.update records other (some expiry)) now key bound := by
  intro hlive
  by_cases hsame : key = other
  · subst hsame
    exact absurd hvacant (h.not_vacant hlive)
  · rw [Function.update_of_ne hsame]
    exact h hlive

/-- What a written record promises. -/
theorem written (hlasts : bound ≤ expiry) :
    Remembers (Function.update records key (some expiry)) now key bound := by
  intro _
  exact ⟨expiry, Function.update_self _ _ _, hlasts⟩

end Remembers

end Records

end Expiry

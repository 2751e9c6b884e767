import Mathlib.Data.List.Infix
import Mathlib.Data.List.Nodup
import Mathlib.Logic.Function.Basic
import Mathlib.Tactic.Basic

/-!
# A mutex of promise tails

For each key a map holds the call that entered last. A call that enters takes its place and
awaits the one it found there; when it leaves it releases those that await it, and may clear
the place if that is still its own. The calls that have entered and not left stand in a queue,
in the order they came, and only its head has passed its await.
-/

namespace Concurrency

variable {κ ι : Type*}

/-- `tails`, by key, and whether the gate of a call is released. -/
structure Tails (κ ι : Type*) where
  tails : κ → Option ι
  released : ι → Bool

namespace Tails

def empty : Tails κ ι where
  tails _ := none
  released _ := false

/-- The promise found on entering has settled. -/
def MayPass (tails : Tails κ ι) (previous : Option ι) : Prop :=
  ∀ earlier ∈ previous, tails.released earlier = true

def enter [DecidableEq κ] (tails : Tails κ ι) (key : κ) (c : ι) : Tails κ ι :=
  { tails with tails := Function.update tails.tails key (some c) }

def release [DecidableEq ι] (tails : Tails κ ι) (c : ι) : Tails κ ι :=
  { tails with released := Function.update tails.released c true }

/-- Releases, and clears its own place. -/
def leave [DecidableEq κ] [DecidableEq ι] (tails : Tails κ ι) (key : κ) (c : ι) : Tails κ ι where
  tails := if tails.tails key = some c then Function.update tails.tails key none else tails.tails
  released := Function.update tails.released c true

section Code

variable (tails : Tails κ ι) (key : κ) (c : ι)

@[simp] theorem tails_enter [DecidableEq κ] :
    (tails.enter key c).tails = Function.update tails.tails key (some c) := rfl

@[simp] theorem tails_release [DecidableEq ι] : (tails.release c).tails = tails.tails := rfl

@[simp] theorem released_release [DecidableEq ι] :
    (tails.release c).released = Function.update tails.released c true := rfl

@[simp] theorem tails_leave [DecidableEq κ] [DecidableEq ι] :
    (tails.leave key c).tails = if tails.tails key = some c
      then Function.update tails.tails key none else tails.tails := rfl

end Code

/-- The calls inside, by key, oldest first. -/
structure Lined (tails : Tails κ ι) (queue : κ → List ι) : Prop where
  last : ∀ key, tails.tails key = (queue key).getLast? ∨
    queue key = [] ∧ tails.MayPass (tails.tails key)
  nodup : ∀ key, (queue key).Nodup
  unreleased : ∀ key, ∀ c ∈ queue key, tails.released c = false

/-- A call inside: it is the head, or awaits the call right before it. -/
def Behind (queue : List ι) (previous : Option ι) (c : ι) : Prop :=
  ∃ before after, queue = before ++ c :: after ∧ (before = [] ∨ before.getLast? = previous)

/-- What the others do to a queue as a call in it sees it: those before it leave. -/
def Advances (c : ι) (queue queue' : List ι) : Prop :=
  ∀ before after, queue = before ++ c :: after →
    ∃ before' after', queue' = before' ++ c :: after' ∧ before' <:+ before

variable {tails : Tails κ ι} {queue : κ → List ι} {key : κ} {c d : ι} {previous : Option ι}
  {line line' line'' : List ι}

theorem lined_empty : (empty : Tails κ ι).Lined fun _ => [] where
  last _ := .inl rfl
  nodup _ := List.nodup_nil
  unreleased _ _ hc := absurd hc List.not_mem_nil

theorem Advances.refl : Advances c line line :=
  fun before after hline => ⟨before, after, hline, List.suffix_rfl⟩

theorem Advances.trans (h : Advances c line line') (h' : Advances c line' line'') :
    Advances c line line'' := by
  intro before after hline
  obtain ⟨before', after', hline', hsuffix⟩ := h before after hline
  obtain ⟨before'', after'', hline'', hsuffix'⟩ := h' before' after' hline'
  exact ⟨before'', after'', hline'', hsuffix'.trans hsuffix⟩

/-- The head stays the head. -/
theorem Advances.head {after : List ι} (h : Advances c line line') (hhead : line = c :: after) :
    ∃ after', line' = c :: after' := by
  obtain ⟨before', after', hline', hsuffix⟩ := h [] after hhead
  obtain rfl := List.suffix_nil.mp hsuffix
  exact ⟨after', hline'⟩

theorem Behind.advances (h : Behind line previous c) (hadvances : Advances c line line') :
    Behind line' previous c := by
  obtain ⟨before, after, hline, hprevious⟩ := h
  obtain ⟨before', after', hline', front, rfl⟩ := hadvances before after hline
  refine ⟨before', after', hline', ?_⟩
  by_cases hempty : before' = []
  · exact .inl hempty
  · refine .inr ?_
    obtain hnil | hlast := hprevious
    · exact absurd (List.append_eq_nil_iff.mp hnil).2 hempty
    · rwa [List.getLast?_append_of_ne_nil _ hempty] at hlast

/-- A call whose predecessor has left is the head. -/
theorem Lined.head (h : tails.Lined queue) (hbehind : Behind (queue key) previous c)
    (hpass : tails.MayPass previous) : ∃ after, queue key = c :: after := by
  obtain ⟨before, after, hline, rfl | hlast⟩ := hbehind
  · exact ⟨after, hline⟩
  · cases previous with
    | none =>
        obtain rfl := List.getLast?_eq_none_iff.mp hlast
        exact ⟨after, hline⟩
    | some earlier =>
        have hmem : earlier ∈ queue key :=
          hline ▸ List.mem_append_left _ (List.mem_of_getLast? hlast)
        have hreleased := hpass earlier rfl
        rw [h.unreleased key earlier hmem] at hreleased
        cases hreleased

theorem MayPass.release [DecidableEq ι] {earlier : Option ι} (h : tails.MayPass earlier) :
    (tails.release c).MayPass earlier := by
  intro first hfirst
  rw [released_release, Function.update_apply]
  split
  · rfl
  · exact h first hfirst

section Steps

variable [DecidableEq κ]

/-- The queues once a call has entered. -/
def entered (queue : κ → List ι) (key : κ) (c : ι) : κ → List ι :=
  Function.update queue key (queue key ++ [c])

theorem Lined.enter (h : tails.Lined queue) (hfresh : c ∉ queue key)
    (hunreleased : tails.released c = false) : (tails.enter key c).Lined (entered queue key c) where
  last other := by
    rw [tails_enter, entered]
    by_cases hkey : other = key
    · rw [hkey, Function.update_self, Function.update_self]
      exact .inl List.getLast?_concat.symm
    · rw [Function.update_of_ne hkey, Function.update_of_ne hkey]
      exact h.last other
  nodup other := by
    by_cases hkey : other = key
    · subst hkey
      rw [entered, Function.update_self, List.nodup_append']
      exact ⟨h.nodup other, List.nodup_singleton c, List.disjoint_singleton.mpr hfresh⟩
    · rw [entered, Function.update_of_ne hkey]
      exact h.nodup other
  unreleased other d hd := by
    by_cases hkey : other = key
    · subst hkey
      rw [entered, Function.update_self] at hd
      obtain hold | hnew := List.mem_append.mp hd
      · exact h.unreleased other d hold
      · exact List.mem_singleton.mp hnew ▸ hunreleased
    · rw [entered, Function.update_of_ne hkey] at hd
      exact h.unreleased other d hd

theorem Lined.behind (h : tails.Lined queue) :
    Behind (entered queue key c key) (tails.tails key) c := by
  refine ⟨queue key, [], ?_, ?_⟩
  · rw [entered, Function.update_self]
  · obtain hlast | ⟨hempty, -⟩ := h.last key
    · exact .inr hlast.symm
    · exact .inl hempty

theorem advances_entered (other : κ) : Advances d (queue other) (entered queue key c other) := by
  intro before after hline
  by_cases hkey : other = key
  · subst hkey
    refine ⟨before, after ++ [c], ?_, List.suffix_rfl⟩
    rw [entered, Function.update_self, hline, List.append_assoc, List.cons_append]
  · exact ⟨before, after, by rw [entered, Function.update_of_ne hkey, hline], List.suffix_rfl⟩

theorem mem_entered {other : κ} (hne : d ≠ c) (hd : d ∈ entered queue key c other) :
    d ∈ queue other := by
  by_cases hkey : other = key
  · subst hkey
    rw [entered, Function.update_self] at hd
    obtain hold | hnew := List.mem_append.mp hd
    · exact hold
    · exact absurd (List.mem_singleton.mp hnew) hne
  · rwa [entered, Function.update_of_ne hkey] at hd

variable {after : List ι}

theorem mem_left (hhead : queue key = c :: after) {other : κ}
    (hd : d ∈ Function.update queue key after other) : d ∈ queue other := by
  by_cases hkey : other = key
  · rw [hkey, Function.update_self] at hd
    rw [hkey, hhead]
    exact List.mem_cons_of_mem c hd
  · rwa [Function.update_of_ne hkey] at hd

theorem advances_left (hne : d ≠ c) (hhead : queue key = c :: after) (other : κ) :
    Advances d (queue other) (Function.update queue key after other) := by
  intro before after' hline
  by_cases hkey : other = key
  · subst hkey
    rw [hhead] at hline
    cases before with
    | nil => exact absurd (List.cons.inj hline).1.symm hne
    | cons first before =>
        obtain ⟨rfl, hrest⟩ := List.cons.inj hline
        rw [Function.update_self, hrest]
        exact ⟨before, after', rfl, List.suffix_cons _ _⟩
  · exact ⟨before, after', by rw [Function.update_of_ne hkey, hline], List.suffix_rfl⟩

variable [DecidableEq ι]

/-- The head leaves, its place not cleared. -/
theorem Lined.release (h : tails.Lined queue) (hhead : queue key = c :: after)
    (hother : ∀ other, other ≠ key → c ∉ queue other) :
    (tails.release c).Lined (Function.update queue key after) where
  last other := by
    rw [tails_release]
    by_cases hkey : other = key
    · rw [hkey, Function.update_self]
      have hlast : tails.tails key = (c :: after).getLast? := by
        obtain hlast | ⟨hempty, -⟩ := h.last key
        · rwa [hhead] at hlast
        · rw [hhead] at hempty
          cases hempty
      cases after with
      | nil =>
          refine .inr ⟨rfl, ?_⟩
          rw [hlast]
          intro first hfirst
          obtain rfl : c = first := Option.some.inj hfirst
          rw [released_release, Function.update_self]
      | cons next rest => exact .inl (hlast.trans List.getLast?_cons_cons)
    · rw [Function.update_of_ne hkey]
      exact (h.last other).imp_right fun hidle => ⟨hidle.1, hidle.2.release⟩
  nodup other := by
    by_cases hkey : other = key
    · rw [hkey, Function.update_self]
      exact (List.nodup_cons.mp (hhead ▸ h.nodup key)).2
    · rw [Function.update_of_ne hkey]
      exact h.nodup other
  unreleased other d hd := by
    have hne : d ≠ c := by
      rintro rfl
      by_cases hkey : other = key
      · rw [hkey, Function.update_self] at hd
        exact (List.nodup_cons.mp (hhead ▸ h.nodup key)).1 hd
      · rw [Function.update_of_ne hkey] at hd
        exact hother other hkey hd
    rw [released_release, Function.update_of_ne hne]
    exact h.unreleased other d (mem_left hhead hd)

/-- The head leaves and clears its place. -/
theorem Lined.leave (h : tails.Lined queue) (hhead : queue key = c :: after)
    (hother : ∀ other, other ≠ key → c ∉ queue other) :
    (tails.leave key c).Lined (Function.update queue key after) := by
  have hreleased := h.release hhead hother
  refine ⟨?_, hreleased.nodup, hreleased.unreleased⟩
  intro other
  rw [tails_leave]
  by_cases hown : tails.tails key = some c
  · rw [if_pos hown]
    by_cases hkey : other = key
    · -- nobody is behind the head, whose place this still is
      have hnil : after = [] := by
        cases after with
        | nil => rfl
        | cons next rest =>
            have hc : c ∉ next :: rest := (List.nodup_cons.mp (hhead ▸ h.nodup key)).1
            obtain hlast | ⟨hempty, -⟩ := h.last key
            · rw [hown, hhead, List.getLast?_cons_cons] at hlast
              exact absurd (List.mem_of_getLast? hlast.symm) hc
            · rw [hhead] at hempty
              cases hempty
      rw [hkey, hnil, Function.update_self, Function.update_self]
      exact .inl rfl
    · have hlast := hreleased.last other
      rw [tails_release] at hlast
      rwa [Function.update_of_ne hkey]
  · rw [if_neg hown]
    exact hreleased.last other

end Steps

end Tails

end Concurrency

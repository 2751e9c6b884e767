import Mathlib.Data.List.Chain
import Mathlib.Data.List.Infix
import Mathlib.Data.List.Nodup

/-!
# Hash chains

Entries that each carry a sequence number and the digest of the entry before. A chain
that starts at its genesis has its positions as sequence numbers; two chains that agree
on their last digest agree on every entry before it, as far as the digest tells entries
apart.
-/

namespace HashChain

/-- What an entry of a hash chain carries. -/
structure Links (α δ : Type*) where
  sequence : α → Nat
  previous : α → Option δ
  digest : α → δ

namespace Links

variable {α δ : Type*} (L : Links α δ)

/-- `b` comes right after `a`. -/
def Follows (a b : α) : Prop :=
  L.sequence b = L.sequence a + 1 ∧ L.previous b = some (L.digest a)

/-- What may come after a last entry, or first. -/
def Fits (last : Option α) (b : α) : Prop :=
  match last with
  | none => L.sequence b = 0 ∧ L.previous b = none
  | some a => L.Follows a b

/-- A chain from its genesis on. -/
structure Complete (entries : List α) : Prop where
  genesis : ∀ first ∈ entries.head?, L.Fits none first
  chained : entries.IsChain L.Follows

variable {L} {entries : List α} {a b : α} {i : Nat}

theorem Complete.nil : L.Complete [] := ⟨nofun, .nil⟩

theorem Complete.concat (h : L.Complete entries) (hfits : L.Fits entries.getLast? b) :
    L.Complete (entries ++ [b]) := by
  rcases List.eq_nil_or_concat entries with rfl | ⟨front, last, rfl⟩
  · refine ⟨?_, .singleton b⟩
    intro first hfirst
    obtain rfl : b = first := by simpa using hfirst
    exact hfits
  · simp only [List.concat_eq_append, List.getLast?_append, List.getLast?_singleton] at hfits h ⊢
    refine ⟨?_, ?_⟩
    · intro first hfirst
      apply h.genesis first
      simpa [List.head?_append, Option.or_assoc] using hfirst
    · apply h.chained.append (.singleton b)
      intro x hx y hy
      obtain rfl : last = x := by simpa using hx
      obtain rfl : b = y := by simpa using hy
      exact hfits

theorem Complete.of_front {front : List α} (h : L.Complete entries) (hfront : front <+: entries) :
    L.Complete front := by
  refine ⟨?_, h.chained.prefix hfront⟩
  intro first hfirst
  apply h.genesis first
  obtain ⟨back, rfl⟩ := hfront
  rw [Option.mem_def] at hfirst ⊢
  rw [List.head?_append, hfirst]
  rfl

theorem sequence_of_chained (h : entries.IsChain L.Follows) (hfirst : entries[0]? = some a)
    (hi : entries[i]? = some b) : L.sequence b = L.sequence a + i := by
  induction i generalizing b with
  | zero =>
      obtain rfl := Option.some.inj (hfirst.symm.trans hi)
      rfl
  | succ i ih =>
      obtain ⟨hlt, hb⟩ := List.getElem?_eq_some_iff.mp hi
      have hstep := List.isChain_iff_getElem.mp h i hlt
      have hprev := ih (List.getElem?_eq_getElem (by omega))
      rw [hb] at hstep
      have := hstep.1
      omega

theorem Complete.sequence_eq (h : L.Complete entries) (hi : entries[i]? = some b) :
    L.sequence b = i := by
  obtain ⟨hlt, -⟩ := List.getElem?_eq_some_iff.mp hi
  have hfirst : entries[0]? = some entries[0] := List.getElem?_eq_getElem (by omega)
  have hzero := (h.genesis entries[0] (by rw [List.head?_eq_getElem?, hfirst]; rfl)).1
  have hsequence := sequence_of_chained h.chained hfirst hi
  omega

theorem Complete.previous_eq (h : L.Complete entries) (hi : entries[i]? = some a)
    (hnext : entries[i + 1]? = some b) : L.previous b = some (L.digest a) := by
  obtain ⟨hlt, rfl⟩ := List.getElem?_eq_some_iff.mp hnext
  obtain ⟨_, rfl⟩ := List.getElem?_eq_some_iff.mp hi
  exact (List.isChain_iff_getElem.mp h.chained i hlt).2

theorem Complete.nodup (h : L.Complete entries) : entries.Nodup := by
  rw [List.nodup_iff_getElem?_ne_getElem?]
  intro i j hij hj hsame
  have hb := List.getElem?_eq_getElem hj
  have hi := h.sequence_eq (hsame.trans hb)
  have hj' := h.sequence_eq hb
  omega

/-- Sequence numbers tell entries apart. -/
theorem Complete.eq_of_sequence_eq (h : L.Complete entries) (ha : a ∈ entries) (hb : b ∈ entries)
    (heq : L.sequence a = L.sequence b) : a = b := by
  obtain ⟨i, hi⟩ := List.mem_iff_getElem?.mp ha
  obtain ⟨j, hj⟩ := List.mem_iff_getElem?.mp hb
  obtain rfl : i = j := by rw [← h.sequence_eq hi, ← h.sequence_eq hj, heq]
  exact Option.some.inj (hi.symm.trans hj)

/-- The last entry has the highest sequence number. -/
theorem Complete.sequence_le_last (h : L.Complete entries) (ha : a ∈ entries)
    (hlast : entries.getLast? = some b) : L.sequence a ≤ L.sequence b := by
  obtain ⟨i, hi⟩ := List.mem_iff_getElem?.mp ha
  rw [List.getLast?_eq_getElem?] at hlast
  have := (List.getElem?_eq_some_iff.mp hi).1
  rw [h.sequence_eq hi, h.sequence_eq hlast]
  omega

/-- The last digest fixes the whole chain, up to what a digest does not tell apart. -/
theorem forall₂_of_digest_eq {R : α → α → Prop} {left right : List α}
    (hleft : left.IsChain L.Follows) (hright : right.IsChain L.Follows)
    (hR : ∀ a ∈ left, ∀ b ∈ right, L.digest a = L.digest b → R a b)
    (hprevious : ∀ a b, R a b → L.previous a = L.previous b)
    (hlength : left.length = right.length)
    (hlast : left.getLast?.map L.digest = right.getLast?.map L.digest) :
    List.Forall₂ R left right := by
  induction left generalizing right with
  | nil =>
      obtain rfl := List.length_eq_zero_iff.mp hlength.symm
      exact .nil
  | cons a left ih =>
      obtain ⟨b, right, rfl⟩ := List.exists_cons_of_length_eq_add_one hlength.symm
      have hlength' : left.length = right.length := by simpa using hlength
      rcases left with - | ⟨a', left⟩
      · obtain rfl := List.length_eq_zero_iff.mp hlength'.symm
        exact .cons (hR a (by simp) b (by simp) (by simpa using hlast)) .nil
      · obtain ⟨b', right, rfl⟩ := List.exists_cons_of_length_eq_add_one hlength'.symm
        have hrest := ih hleft.tail hright.tail
          (fun x hx y hy => hR x (List.mem_cons_of_mem _ hx) y (List.mem_cons_of_mem _ hy))
          hlength' (by simpa [List.getLast?_cons_cons] using hlast)
        -- the second entries are related, so they carry the same digest of the first
        have hlink := hprevious a' b' (List.forall₂_cons.mp hrest).1
        rw [(List.isChain_cons_cons.mp hleft).1.2, (List.isChain_cons_cons.mp hright).1.2] at hlink
        exact .cons (hR a (by simp) b (by simp) (Option.some.inj hlink)) hrest

end Links

end HashChain

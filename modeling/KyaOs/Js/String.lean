import Mathlib.Data.List.Basic

/-!
# ECMAScript strings as lists of UTF-16 code units

A JavaScript string is a finite sequence of arbitrary 16-bit code units, lone
surrogates included. `JsString` keeps exactly these sequences, so lengths,
prefixes and character tests agree with the language, and every list lemma is
a lemma about strings. `js` embeds the literals of the source.
-/

abbrev JsString := List UInt16

instance : LawfulBEq JsString := inferInstance

namespace Js

/-- The UTF-16 encoding of one character: one unit, or a surrogate pair. -/
def units (c : Char) : JsString :=
  if c.toNat < 0x10000 then [UInt16.ofNat c.toNat]
  else
    let u := c.toNat - 0x10000
    [UInt16.ofNat (0xD800 + u / 0x400), UInt16.ofNat (0xDC00 + u % 0x400)]

theorem units_of_lt {c : Char} (h : c.toNat < 0x10000) : units c = [UInt16.ofNat c.toNat] := by
  rw [units, if_pos h]

theorem toNat_lt_of_isDigit {c : Char} (h : c.isDigit = true) : c.toNat < 0x10000 := by
  simp only [Char.isDigit, Bool.and_eq_true, decide_eq_true_eq] at h
  exact Nat.lt_of_le_of_lt (UInt32.le_iff_toNat_le.mp h.2) (by decide)

/-- A string literal of the source. -/
def js (s : String) : JsString := s.toList.flatMap units

/-- `s.startsWith(p)`. -/
def startsWith (s p : JsString) : Bool := p.isPrefixOf s

/-- `s.endsWith(p)`. -/
def endsWith (s p : JsString) : Bool := p.isSuffixOf s

@[simp] theorem startsWith_iff {s p : JsString} : startsWith s p = true ↔ p <+: s :=
  List.isPrefixOf_iff_prefix

@[simp] theorem endsWith_iff {s p : JsString} : endsWith s p = true ↔ p <:+ s :=
  List.isSuffixOf_iff_suffix

theorem startsWith_append (s t : JsString) : startsWith (s ++ t) s = true :=
  startsWith_iff.mpr (List.prefix_append s t)

/-- Texts joined by a unit that the first does not hold come apart again. -/
theorem eq_of_join_eq {s s' t t' : JsString} {unit : UInt16} (hs : unit ∉ s) (hs' : unit ∉ s')
    (h : s ++ unit :: t = s' ++ unit :: t') : s = s' ∧ t = t' := by
  induction s generalizing s' with
  | nil =>
      cases s' with
      | nil => exact ⟨rfl, (List.cons.inj h).2⟩
      | cons u rest => exact absurd (List.cons.inj h).1 (fun hu => hs' (hu ▸ List.mem_cons_self))
  | cons u rest ih =>
      cases s' with
      | nil => exact absurd (List.cons.inj h).1.symm (fun hu => hs (hu ▸ List.mem_cons_self))
      | cons u' rest' =>
          obtain ⟨rfl, hrest⟩ := List.cons.inj h
          obtain ⟨rfl, rfl⟩ := ih (fun hmem => hs (List.mem_cons_of_mem u hmem))
            (fun hmem => hs' (List.mem_cons_of_mem u hmem)) hrest
          exact ⟨rfl, rfl⟩

/-- Texts joined by a unit that the last does not hold come apart again. -/
theorem eq_of_join_last_eq {s s' t t' : JsString} {unit : UInt16} (ht : unit ∉ t) (ht' : unit ∉ t')
    (h : s ++ unit :: t = s' ++ unit :: t') : s = s' ∧ t = t' := by
  have hreversed := congrArg List.reverse h
  simp only [List.reverse_append, List.reverse_cons, List.append_assoc, List.singleton_append]
    at hreversed
  obtain ⟨hlast, hfirst⟩ := eq_of_join_eq (by simpa using ht) (by simpa using ht') hreversed
  exact ⟨List.reverse_injective hfirst, List.reverse_injective hlast⟩

/-- The second pair is the first with the joining unit read further on. -/
def ReadLater (unit : UInt16) (p q : JsString × JsString) : Prop :=
  ∃ between, q.1 = p.1 ++ unit :: between ∧ p.2 = between ++ unit :: q.2

theorem eq_or_readLater {unit : UInt16} {p q : JsString × JsString}
    (h : p.1 ++ unit :: p.2 = q.1 ++ unit :: q.2) (hstart : p.1 <+: q.1) :
    p = q ∨ ReadLater unit p q := by
  obtain ⟨rest, hrest⟩ := hstart
  rw [← hrest, List.append_assoc] at h
  have htail := List.append_cancel_left h
  cases rest with
  | nil =>
      rw [List.append_nil] at hrest
      exact .inl (Prod.ext hrest (List.cons.inj htail).2)
  | cons u between =>
      obtain ⟨rfl, hsecond⟩ := List.cons.inj htail
      exact .inr ⟨between, hrest.symm, hsecond⟩

/-- Pairs that join to one text are equal, or one is the other with the unit read further on. -/
theorem join_eq_iff {unit : UInt16} {p q : JsString × JsString} :
    p.1 ++ unit :: p.2 = q.1 ++ unit :: q.2 ↔
      p = q ∨ ReadLater unit p q ∨ ReadLater unit q p := by
  constructor
  · intro h
    obtain hstart | hstart := List.prefix_or_prefix_of_prefix
      (List.prefix_append p.1 (unit :: p.2)) (h ▸ List.prefix_append q.1 (unit :: q.2))
    · exact (eq_or_readLater h hstart).imp_right .inl
    · exact (eq_or_readLater h.symm hstart).imp Eq.symm .inr
  · rintro (rfl | ⟨between, hfirst, hsecond⟩ | ⟨between, hfirst, hsecond⟩)
    · rfl
    · rw [hfirst, hsecond]
      simp
    · rw [hfirst, hsecond]
      simp

/-- Two pairs that hold the unit nowhere are told apart. -/
theorem not_readLater {unit : UInt16} {p q : JsString × JsString} (h : unit ∉ q.1) :
    ¬ ReadLater unit p q := by
  rintro ⟨between, hfirst, -⟩
  exact h (by simp [hfirst])

/-- White space and line terminators, as `trim` and `\s` read them. -/
def isWhiteSpace (u : UInt16) : Bool :=
  u ∈ [0x09, 0x0A, 0x0B, 0x0C, 0x0D, 0x20, 0xA0, 0x1680, 0x2000, 0x2001, 0x2002, 0x2003,
    0x2004, 0x2005, 0x2006, 0x2007, 0x2008, 0x2009, 0x200A, 0x2028, 0x2029, 0x202F, 0x205F,
    0x3000, 0xFEFF]

/-- `s.trim()`. -/
def trim (s : JsString) : JsString :=
  ((s.dropWhile isWhiteSpace).reverse.dropWhile isWhiteSpace).reverse

/-- An ASCII digit, `\d` without the `u` flag. -/
def isDigit (u : UInt16) : Bool := 0x30 ≤ u && u ≤ 0x39

/-- The value of an ASCII digit. -/
def digitValue (u : UInt16) : Nat := u.toNat - 0x30

end Js

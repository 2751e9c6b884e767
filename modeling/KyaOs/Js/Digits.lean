import KyaOs.Js.String
import Mathlib.Data.List.Induction

/-!
# Decimal texts

The text of a natural number, digit by digit, and the number that a text of digits denotes.
-/

namespace Js

/-- The code unit of a digit. -/
def digitUnit (d : Nat) : UInt16 := UInt16.ofNat (48 + d)

theorem toNat_digitUnit {d : Nat} (h : d < 10) : (digitUnit d).toNat = 48 + d := by
  rw [digitUnit, UInt16.toNat_ofNat']
  omega

theorem isDigit_iff {u : UInt16} : isDigit u = true ↔ 48 ≤ u.toNat ∧ u.toNat ≤ 57 := by
  simp [isDigit, UInt16.le_iff_toNat_le]

theorem isDigit_digitUnit {d : Nat} (h : d < 10) : isDigit (digitUnit d) = true := by
  rw [isDigit_iff, toNat_digitUnit h]
  omega

theorem digitValue_digitUnit {d : Nat} (h : d < 10) : digitValue (digitUnit d) = d := by
  rw [digitValue, toNat_digitUnit h, Nat.add_sub_cancel_left]

theorem digitValue_lt {u : UInt16} (h : isDigit u = true) : digitValue u < 10 := by
  have hbounds := isDigit_iff.mp h
  rw [digitValue]
  omega

theorem digitUnit_digitValue {u : UInt16} (h : isDigit u = true) :
    digitUnit (digitValue u) = u := by
  have hbounds := isDigit_iff.mp h
  rw [← UInt16.toNat_inj, toNat_digitUnit (digitValue_lt h), digitValue]
  omega

theorem units_digitChar {d : Nat} (h : d < 10) : units d.digitChar = [digitUnit d] := by
  have hdigit : d.digitChar.isDigit = true := by
    rw [Nat.isDigit_digitChar]
    exact decide_eq_true h
  rw [units_of_lt (toNat_lt_of_isDigit hdigit), Nat.toNat_digitChar_of_lt_ten h, digitUnit]

theorem js_toString (n : Nat) : js (toString n) = (Nat.toDigits 10 n).flatMap units := by
  rw [js, Nat.toString_eq_repr, Nat.repr, String.toList_ofList]

theorem js_toString_of_lt {n : Nat} (h : n < 10) : js (toString n) = [digitUnit n] := by
  rw [js_toString, Nat.toDigits_of_lt_base h, List.flatMap_singleton, units_digitChar h]

theorem js_toString_of_le {n : Nat} (h : 10 ≤ n) :
    js (toString n) = js (toString (n / 10)) ++ [digitUnit (n % 10)] := by
  rw [js_toString, js_toString, Nat.toDigits_of_base_le (by decide) h, List.flatMap_append,
    List.flatMap_singleton, units_digitChar (Nat.mod_lt n (by decide))]

/-- The last digit of a number, and those before it. -/
theorem js_toString_ind {P : Nat → JsString → Prop}
    (digit : ∀ d, d < 10 → P d [digitUnit d])
    (more : ∀ n text d, 0 < n → d < 10 → P n text → P (10 * n + d) (text ++ [digitUnit d]))
    (n : Nat) : P n (js (toString n)) := by
  induction n using Nat.strongRecOn with
  | ind n ih =>
      by_cases hn : n < 10
      · rw [js_toString_of_lt hn]
        exact digit n hn
      · have hrest := more (n / 10) _ (n % 10) (by omega) (Nat.mod_lt n (by decide))
          (ih (n / 10) (by omega))
        rwa [Nat.div_add_mod, ← js_toString_of_le (by omega)] at hrest

theorem all_isDigit_toString (n : Nat) : (js (toString n)).all isDigit = true := by
  refine js_toString_ind (P := fun _ text => text.all isDigit = true) ?_ ?_ n
  · intro d hd
    simp [isDigit_digitUnit hd]
  · intro n text d _ hd htext
    simp [htext, isDigit_digitUnit hd]

theorem notMem_toString {unit : UInt16} (h : isDigit unit = false) (n : Nat) :
    unit ∉ js (toString n) := by
  intro hmem
  rw [List.all_eq_true.mp (all_isDigit_toString n) unit hmem] at h
  cases h

/-- The number that a text of digits denotes. -/
def decimalValue (text : JsString) : Nat := text.foldl (fun n u => 10 * n + digitValue u) 0

theorem decimalValue_concat (text : JsString) (u : UInt16) :
    decimalValue (text ++ [u]) = 10 * decimalValue text + digitValue u := by
  rw [decimalValue, List.foldl_append]
  rfl

theorem decimalValue_toString (n : Nat) : decimalValue (js (toString n)) = n := by
  refine js_toString_ind (P := fun n text => decimalValue text = n) ?_ ?_ n
  · intro d hd
    rw [← List.nil_append [digitUnit d], decimalValue_concat, digitValue_digitUnit hd]
    simp [decimalValue]
  · intro n text d _ hd htext
    rw [decimalValue_concat, htext, digitValue_digitUnit hd]

theorem js_toString_injective {m n : Nat} (h : js (toString m) = js (toString n)) : m = n := by
  rw [← decimalValue_toString m, h, decimalValue_toString]

/-- A number as it is printed: digits, and no zero before another digit. -/
def IsDecimal (text : JsString) : Prop :=
  text ≠ [] ∧ text.all isDigit = true ∧ (text.head? = some 0x30 → text = [0x30])

instance (text : JsString) : Decidable (IsDecimal text) :=
  inferInstanceAs (Decidable (_ ∧ _))

theorem isDecimal_toString (n : Nat) : IsDecimal (js (toString n)) := by
  have hzero : ∀ d, d < 10 → digitUnit d = 0x30 → d = 0 := by
    intro d hd heq
    have hnats := congrArg UInt16.toNat heq
    rw [toNat_digitUnit hd] at hnats
    simpa using hnats
  refine ⟨?_, all_isDigit_toString n, ?_⟩
  · refine js_toString_ind (P := fun _ text => text ≠ []) ?_ ?_ n <;> simp
  · -- A number that begins with a zero is zero, so no digit follows.
    have hfirst : (js (toString n)).head? = some 0x30 → n = 0 := by
      refine js_toString_ind
        (P := fun n text => text ≠ [] ∧ (text.head? = some 0x30 → n = 0)) ?_ ?_ n |>.2
      · intro d hd
        exact ⟨by simp, fun h => hzero d hd (by simpa using h)⟩
      · rintro n text d hn hd ⟨hne, htext⟩
        refine ⟨by simp, fun h => absurd (htext ?_) (Nat.ne_of_gt hn)⟩
        rwa [List.head?_append_of_ne_nil _ hne] at h
    intro h
    rw [hfirst h]
    decide

/-- The text of the number that a text denotes is that text. -/
theorem toString_decimalValue {text : JsString} (h : IsDecimal text) :
    js (toString (decimalValue text)) = text := by
  induction text using List.reverseRecOn with
  | nil => exact absurd rfl h.1
  | append_singleton text u ih =>
      obtain ⟨-, hdigits, hzero⟩ := h
      rw [List.all_append, Bool.and_eq_true] at hdigits
      have hu : isDigit u = true := by simpa using hdigits.2
      rw [decimalValue_concat]
      by_cases hempty : text = []
      · subst hempty
        have hvalue : 10 * decimalValue [] + digitValue u = digitValue u := by
          simp [decimalValue]
        rw [hvalue, js_toString_of_lt (digitValue_lt hu), digitUnit_digitValue hu,
          List.nil_append]
      · have hhead : text.head? ≠ some 0x30 := by
          intro hhead
          have hwhole := hzero (by rwa [List.head?_append_of_ne_nil _ hempty])
          have hlength := congrArg List.length hwhole
          have hpos := List.length_pos_iff.mpr hempty
          simp only [List.length_append, List.length_singleton] at hlength
          omega
        have htext := ih ⟨hempty, hdigits.1, fun h => absurd h hhead⟩
        have hpos : 0 < decimalValue text := by
          refine Nat.pos_of_ne_zero fun hvalue => hhead ?_
          rw [← htext, hvalue]
          decide
        have hlt := digitValue_lt hu
        rw [js_toString_of_le (by omega), show (10 * decimalValue text + digitValue u) / 10 =
          decimalValue text by omega, show (10 * decimalValue text + digitValue u) % 10 =
          digitValue u by omega, htext, digitUnit_digitValue hu]

end Js

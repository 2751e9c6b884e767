import KyaOs.Js.Digits
import KyaOs.Js.Number
import KyaOs.Json.Text
import Mathlib.Algebra.Order.Field.Power
import Mathlib.Data.List.TakeWhile
import Mathlib.Tactic.Linarith

/-!
# `Number` of a text

White space around is dropped and an empty text is zero; hexadecimal, octal and binary
integers, decimals with a sign, a fraction and an exponent, and `Infinity` are read, each
rounded to the nearest double.
-/

namespace JsNumber

theorem le_roundHalfEven {q : ℚ} {z : Int} (h : (z : ℚ) ≤ q) : z ≤ roundHalfEven q := by
  have hfloor : z ≤ q.floor := Rat.le_floor_iff.mpr h
  rw [roundHalfEven]
  split_ifs <;> omega

theorem pow_binaryExponent_le {n : Nat} (h : n ≠ 0) :
    (2 : ℚ) ^ binaryExponent n ≤ n ∧ binaryExponent n = Nat.log2 n := by
  have hlog : (2 : ℚ) ^ ((Nat.log2 n : Nat) : Int) ≤ (n : ℚ) := by
    rw [zpow_natCast]
    exact_mod_cast Nat.log2_self_le h
  have hexponent : binaryExponent n = Nat.log2 n := by
    have hguess : ((Nat.log2 ((n : ℚ).num.natAbs) : Int) - Nat.log2 (n : ℚ).den) = Nat.log2 n := by
      rw [Rat.num_natCast, Rat.den_natCast, Int.natAbs_natCast]
      have hone : Nat.log2 1 = 0 := by decide
      simp [hone]
    rw [binaryExponent]
    simp only [hguess]
    rw [if_pos]
    rwa [abs_of_nonneg (Nat.cast_nonneg n)]
  exact ⟨hexponent ▸ hlog, hexponent⟩

theorem roundHalfEven_intCast (z : Int) : roundHalfEven z = z := by
  simp [roundHalfEven]

/-- A number of at most 53 bits is a double. -/
theorem nearest_small {n : Nat} (h : n < 2 ^ 53) : nearest n = .ofNat n := by
  by_cases hzero : n = 0
  · rw [hzero]
    rfl
  · have hexponent := (pow_binaryExponent_le hzero).2
    have hlog : Nat.log2 n < 53 := (Nat.log2_lt hzero).mpr h
    obtain ⟨m, hm⟩ := Int.eq_ofNat_of_zero_le
      (show 0 ≤ -max (binaryExponent n - 52) (-1074) by omega)
    have hquantum : (2 : ℚ) ^ max (binaryExponent n - 52) (-1074) = (2 ^ m)⁻¹ := by
      rw [show max (binaryExponent n - 52) (-1074) = -(m : Int) by omega, zpow_neg, zpow_natCast]
    have hwhole : (n : ℚ) / (2 ^ m)⁻¹ = ((n * 2 ^ m : Nat) : Int) := by
      push_cast
      rw [div_inv_eq_mul]
    have hpower : (2 : ℚ) ^ m ≠ 0 := by positivity
    have hvalue : (((n * 2 ^ m : Nat) : Int) : ℚ) * (2 ^ m)⁻¹ = n := by
      push_cast
      rw [mul_assoc, mul_inv_cancel₀ hpower, mul_one]
    rw [nearest, if_neg (Nat.cast_ne_zero.mpr hzero)]
    simp only [hquantum]
    rw [hwhole, roundHalfEven_intCast, hvalue, ofRat, if_pos, ofNat]
    have htop : (2 : ℚ) ^ 1024 = 2 ^ 54 * 2 ^ 970 := by rw [← pow_add]
    have hlarge : (2 : ℚ) ^ 53 ≤ 2 ^ 970 := pow_le_pow_right₀ one_le_two (by norm_num)
    have hbelow : (n : ℚ) < 2 ^ 53 := by exact_mod_cast h
    rw [abs_of_nonneg (Nat.cast_nonneg n), htop]
    generalize (2 : ℚ) ^ 970 = large at hlarge ⊢
    linarith

/-- A large number is not rounded to a byte. -/
theorem nearest_large {n : Nat} (h : 256 ≤ n) {z : Int} (hz : (nearest n).toInt? = some z) :
    256 ≤ z := by
  obtain ⟨hpow, hexponent⟩ := pow_binaryExponent_le (n := n) (by omega)
  rw [nearest, if_neg (by exact_mod_cast (by omega : n ≠ 0))] at hz
  generalize hk : max (binaryExponent n - 52) (-1074) = k at hz
  have hquantum : (0 : ℚ) < 2 ^ k := zpow_pos (by norm_num) k
  have hvalue : (256 : ℚ) ≤ roundHalfEven (n / 2 ^ k) * 2 ^ k := by
    by_cases hsmall : k ≤ 8
    · obtain ⟨m, hm⟩ := Int.eq_ofNat_of_zero_le (show 0 ≤ 8 - k by omega)
      have hpower : (2 : ℚ) ^ m * 2 ^ k = 256 := by
        rw [← zpow_natCast, ← hm, ← zpow_add₀ (by norm_num)]
        norm_num
      have hbelow : (((2 : Int) ^ m : Int) : ℚ) ≤ n / 2 ^ k := by
        rw [le_div_iff₀ hquantum]
        push_cast
        rw [hpower]
        exact_mod_cast h
      have hround : ((2 ^ m : Int) : ℚ) ≤ roundHalfEven (n / 2 ^ k) := by
        exact_mod_cast le_roundHalfEven hbelow
      push_cast at hround
      calc (256 : ℚ) = 2 ^ m * 2 ^ k := hpower.symm
        _ ≤ roundHalfEven (n / 2 ^ k) * 2 ^ k := mul_le_mul_of_nonneg_right hround hquantum.le
    · have hbelow : ((1 : Int) : ℚ) ≤ n / 2 ^ k := by
        rw [le_div_iff₀ hquantum, Int.cast_one, one_mul]
        exact le_trans (zpow_le_zpow_right₀ (by norm_num) (by omega)) hpow
      have hround : (1 : ℚ) ≤ roundHalfEven (n / 2 ^ k) := by
        exact_mod_cast le_roundHalfEven hbelow
      have hlarge : (256 : ℚ) ≤ 2 ^ k :=
        calc (256 : ℚ) = 2 ^ (8 : Int) := by norm_num
          _ ≤ 2 ^ k := zpow_le_zpow_right₀ (by norm_num) (by omega)
      calc (256 : ℚ) ≤ 1 * 2 ^ k := by rwa [one_mul]
        _ ≤ roundHalfEven (n / 2 ^ k) * 2 ^ k := mul_le_mul_of_nonneg_right hround hquantum.le
  rw [ofRat] at hz
  split_ifs at hz
  · simp only [toInt?] at hz
    split_ifs at hz with hden
    obtain rfl := Option.some.inj hz
    rw [← Rat.coe_int_num_of_den_eq_one hden] at hvalue
    exact_mod_cast hvalue
  · cases hz

end JsNumber

namespace Js

/-- The number of digits of a base. -/
def digitsIn (base : Nat) (text : JsString) : Option Nat :=
  if text = [] then none
  else
    text.foldlM (fun n u => (Json.hexValue u).bind fun d =>
      if d < base then some (base * n + d) else none) 0

/-- `0x1F`, `0o17` or `0b11`. -/
def nonDecimalInteger : JsString → Option Nat
  | 0x30 :: letter :: digits =>
    if letter = 0x78 ∨ letter = 0x58 then digitsIn 16 digits
    else if letter = 0x6F ∨ letter = 0x4F then digitsIn 8 digits
    else if letter = 0x62 ∨ letter = 0x42 then digitsIn 2 digits
    else none
  | _ => none

/-- Digits after an optional sign. -/
def signedInteger : JsString → Option Int
  | 0x2B :: digits => (digitsIn 10 digits).map Int.ofNat
  | 0x2D :: digits => (digitsIn 10 digits).map fun n => -Int.ofNat n
  | digits => (digitsIn 10 digits).map Int.ofNat

/-- Digits with an optional fraction and an optional exponent. -/
def unsignedDecimal (text : JsString) : Option ℚ := do
  let mantissa := text.takeWhile fun u => u ≠ 0x65 && u ≠ 0x45
  let exponent ← match text.drop mantissa.length with
    | [] => some 0
    | _ :: exponent => signedInteger exponent
  let whole := mantissa.takeWhile (· ≠ 0x2E)
  let fraction := mantissa.drop (whole.length + 1)
  let digits ← digitsIn 10 (whole ++ fraction)
  return digits * (10 : ℚ) ^ (exponent - fraction.length)

/-- `Number(text)`. -/
def stringToNumber (text : JsString) : JsNumber :=
  let literal := trim text
  if literal = [] then .ofNat 0
  else
    match nonDecimalInteger literal with
    | some n => .nearest n
    | none =>
      let negative : Bool := literal.head? = some 0x2D
      let unsigned := if negative || literal.head? = some 0x2B then literal.drop 1 else literal
      if unsigned = js "Infinity" then .infinity negative
      else
        match unsignedDecimal unsigned with
        | some q => .nearest (if negative then -q else q)
        | none => .nan

example : stringToNumber (js " 0x8 ") = .ofNat 8 ∧ stringToNumber (js "1e1") = .ofNat 10 ∧
    stringToNumber (js "2550000000000000000001e-19") = .ofNat 255 ∧
    stringToNumber (js "-.5e0") = .finite (-1 / 2) ∧ stringToNumber (js "1_0") = .nan := by
  decide +kernel

section Digits

variable {text : JsString} {u : UInt16}

theorem hexValue_of_isDigit (h : isDigit u = true) : Json.hexValue u = some (digitValue u) := by
  rw [Json.hexValue, if_pos h]

theorem digitsIn_digits (hne : text ≠ []) (h : text.all isDigit = true) :
    digitsIn 10 text = some (decimalValue text) := by
  have hloop : ∀ n, text.foldlM (fun n u => (Json.hexValue u).bind fun d =>
      if d < 10 then some (10 * n + d) else none) n =
        some (text.foldl (fun n u => 10 * n + digitValue u) n) := by
    clear hne
    induction text with
    | nil => exact fun _ => rfl
    | cons u rest ih =>
        intro n
        rw [List.all_cons, Bool.and_eq_true] at h
        rw [List.foldlM_cons, hexValue_of_isDigit h.1]
        simp [digitValue_lt h.1, ih h.2]
  rw [digitsIn, if_neg hne, hloop, decimalValue]

theorem ne_of_isDigit {v : UInt16} (hv : isDigit v = false) (h : isDigit u = true) : u ≠ v := by
  rintro rfl
  rw [h] at hv
  cases hv

theorem isWhiteSpace_of_isDigit (h : isDigit u = true) : isWhiteSpace u = false := by
  have hspaces : ∀ space : UInt16, isWhiteSpace space = true → isDigit space = false := by
    intro space hspace
    rw [isWhiteSpace, decide_eq_true_eq] at hspace
    have hother := (List.all_eq_true (p := fun space => !isDigit space)).mp (by decide) space hspace
    simpa using hother
  cases hspace : isWhiteSpace u with
  | false => rfl
  | true => exact absurd rfl (ne_of_isDigit (hspaces u hspace) h)

theorem trim_digits (h : text.all isDigit = true) : trim text = text := by
  have hdrop : ∀ {digits : JsString}, digits.all isDigit = true →
      digits.dropWhile isWhiteSpace = digits := by
    intro digits hdigits
    cases digits with
    | nil => rfl
    | cons u rest =>
        rw [List.all_cons, Bool.and_eq_true] at hdigits
        rw [List.dropWhile_cons_of_neg (by simp [isWhiteSpace_of_isDigit hdigits.1])]
  rw [trim, hdrop h, hdrop (by rwa [List.all_reverse]), List.reverse_reverse]

theorem takeWhile_digits {p : UInt16 → Bool} (hp : ∀ u, isDigit u = true → p u = true)
    (h : text.all isDigit = true) : text.takeWhile p = text := by
  rw [List.takeWhile_eq_self_iff]
  exact fun u hu => hp u (List.all_eq_true.mp h u hu)

/-- Digits are read as the number they denote, rounded. -/
theorem stringToNumber_digits (hne : text ≠ []) (h : text.all isDigit = true) :
    stringToNumber text = .nearest (decimalValue text) := by
  obtain ⟨first, rest, rfl⟩ := List.exists_cons_of_ne_nil hne
  have hfirst : isDigit first = true := List.all_eq_true.mp h first List.mem_cons_self
  have hnone : nonDecimalInteger (first :: rest) = none := by
    rw [nonDecimalInteger.eq_def]
    split
    · rename_i letter digits heq
      obtain ⟨rfl, rfl⟩ := List.cons.inj heq
      have hletter : isDigit letter = true := List.all_eq_true.mp h letter (by simp)
      have hother : ∀ v ∈ [0x78, 0x58, 0x6F, 0x4F, 0x62, 0x42], letter ≠ v := by
        intro v hv
        refine ne_of_isDigit ?_ hletter
        simpa using (List.all_eq_true (p := fun v => !isDigit v)).mp (by decide) v hv
      simp only [List.forall_mem_cons] at hother
      simp [hother]
    · rfl
  have hsign : ((first :: rest).head? = some 0x2D) = False := by
    simpa using ne_of_isDigit (v := 0x2D) (by decide) hfirst
  have hplus : ((first :: rest).head? = some 0x2B) = False := by
    simpa using ne_of_isDigit (v := 0x2B) (by decide) hfirst
  have hinfinity : first :: rest ≠ js "Infinity" := by
    intro heq
    exact ne_of_isDigit (v := 0x49) (by decide) hfirst (List.cons.inj heq).1
  have hunsigned : unsignedDecimal (first :: rest) =
      some ((decimalValue (first :: rest) : Nat) : ℚ) := by
    have hmantissa : (first :: rest).takeWhile (fun u => u ≠ 0x65 && u ≠ 0x45) = first :: rest :=
      takeWhile_digits (fun u hu => by
        simp [ne_of_isDigit (v := 0x65) (by decide) hu, ne_of_isDigit (v := 0x45) (by decide) hu]) h
    have hwhole : (first :: rest).takeWhile (· ≠ 0x2E) = first :: rest :=
      takeWhile_digits (fun u hu => by simp [ne_of_isDigit (v := 0x2E) (by decide) hu]) h
    have hfraction : (first :: rest).drop ((first :: rest).length + 1) = [] :=
      List.drop_eq_nil_of_le (Nat.le_succ _)
    rw [unsignedDecimal]
    simp only [hmantissa, hwhole, List.drop_length, hfraction, List.append_nil,
      digitsIn_digits hne h]
    simp
  rw [stringToNumber, trim_digits h, if_neg hne, hnone]
  simp only [hsign, hplus, decide_false, Bool.or_self, Bool.false_eq_true, if_false,
    if_neg hinfinity, hunsigned]

end Digits

/-- A byte as it is printed is read as itself. -/
theorem stringToNumber_toString : ∀ n < 256, stringToNumber (js (toString n)) = .ofNat n := by
  intro n hn
  rw [stringToNumber_digits (isDecimal_toString n).1 (all_isDigit_toString n),
    decimalValue_toString]
  exact JsNumber.nearest_small (by omega)

end Js

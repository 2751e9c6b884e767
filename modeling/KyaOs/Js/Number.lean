import KyaOs.Js.String
import Mathlib.Algebra.Order.Field.Rat

/-!
# ECMAScript numbers

A finite number is kept as the rational it denotes. A sum or a product is rounded to the nearest
double, and from half a unit above the largest finite one on it is an infinity.
-/

inductive JsNumber where
  | finite (value : ℚ)
  | infinity (negative : Bool)
  | nan
  deriving DecidableEq

namespace JsNumber

def ofNat (n : Nat) : JsNumber := .finite n

/-- The value of an integer, `none` when `Number.isInteger` answers `false`. -/
def toInt? : JsNumber → Option Int
  | .finite q => if q.den = 1 then some q.num else none
  | _ => none

/-- `Number.MAX_SAFE_INTEGER`. -/
def maxSafeInteger : Nat := 2 ^ 53 - 1

def isSafeInteger (x : JsNumber) : Bool :=
  match x.toInt? with
  | some z => z.natAbs ≤ maxSafeInteger
  | none => false

/-- A rounded number: an infinity from half a unit in the last place above the largest finite
number on. -/
def ofRat (q : ℚ) : JsNumber :=
  if |q| < 2 ^ 1024 - 2 ^ 970 then .finite q else .infinity (decide (q < 0))

/-- The nearest integer, the even one of two. -/
def roundHalfEven (q : ℚ) : Int :=
  let below := q.floor
  if q - below < 1 / 2 then below
  else if 1 / 2 < q - below then below + 1
  else if below % 2 = 0 then below
  else below + 1

/-- The exponent of the power of two at or below the size of a rational. -/
def binaryExponent (q : ℚ) : Int :=
  let guess : Int := (Nat.log2 q.num.natAbs : Int) - Nat.log2 q.den
  if (2 : ℚ) ^ guess ≤ |q| then guess else guess - 1

/-- The double nearest to a rational. -/
def nearest (q : ℚ) : JsNumber :=
  if q = 0 then .finite 0
  else
    let quantum : ℚ := 2 ^ max (binaryExponent q - 52) (-1074)
    .ofRat (roundHalfEven (q / quantum) * quantum)

/-- `x * k` for a positive literal `k`. -/
def scale (k : ℚ) : JsNumber → JsNumber
  | .finite q => nearest (q * k)
  | x => x

/-- The truth value of a number. -/
def truthy : JsNumber → Bool
  | .finite q => q ≠ 0
  | .infinity _ => true
  | .nan => false

/-- `x < z` for an integer `z`. -/
def ltInt (x : JsNumber) (z : Int) : Bool :=
  match x with
  | .finite q => q < z
  | .infinity negative => negative
  | .nan => false

/-- `x > z` for an integer `z`. -/
def gtInt (x : JsNumber) (z : Int) : Bool :=
  match x with
  | .finite q => z < q
  | .infinity negative => !negative
  | .nan => false

/-- `x < y`. -/
def lt : JsNumber → JsNumber → Bool
  | .finite p, .finite q => p < q
  | .finite _, .infinity negative => !negative
  | .infinity negative, .finite _ => negative
  | .infinity negative, .infinity negative' => negative && !negative'
  | _, _ => false

/-- `x <= y`: a comparison with `NaN` is false. -/
def le (x y : JsNumber) : Bool := x ≠ .nan && y ≠ .nan && !y.lt x

/-- `Number.isFinite(x)`. -/
def isFinite : JsNumber → Bool
  | .finite _ => true
  | _ => false

@[simp] theorem toInt?_ofNat (n : Nat) : (ofNat n).toInt? = some (n : Int) := by
  simp [ofNat, toInt?]

theorem eq_ofNat_of_toInt? {x : JsNumber} {n : Nat} (h : x.toInt? = some (n : Int)) :
    x = ofNat n := by
  cases x with
  | finite q =>
      simp only [toInt?] at h
      split at h
      · rename_i hden
        rw [ofNat, finite.injEq]
        apply Rat.ext
        · simpa using h
        · simpa using hden
      · cases h
  | infinity negative => cases h
  | nan => cases h

theorem le_finite {p q : ℚ} : (finite p).le (finite q) = true ↔ p ≤ q := by
  simp [le, lt]

theorem ofNat_le_of_le {bound : JsNumber} {m n : Nat} (h : (ofNat n).le bound = true)
    (hle : m ≤ n) : (ofNat m).le bound = true := by
  cases bound with
  | finite q =>
      rw [ofNat, le_finite] at h ⊢
      exact (Rat.natCast_le_natCast.mpr hle).trans h
  | infinity negative => cases negative <;> simp [ofNat, le, lt] at h ⊢
  | nan => simp [le] at h

/-- Below a bound that is reached there is room. -/
theorem not_le_of_lt {bound : JsNumber} {m n : Nat} (h : (ofNat n).le bound = true)
    (hlt : m < n) : bound.le (ofNat m) = false := by
  rw [Bool.eq_false_iff]
  intro hle
  cases bound with
  | finite q =>
      rw [ofNat, le_finite] at h hle
      exact absurd (Rat.natCast_le_natCast.mp (h.trans hle)) (Nat.not_le.mpr hlt)
  | infinity negative => cases negative <;> simp [ofNat, le, lt] at h hle
  | nan => simp [le] at h

end JsNumber

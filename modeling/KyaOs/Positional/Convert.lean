import Mathlib.Data.List.Induction
import Mathlib.Data.Nat.Digits.Lemmas

/-!
# Positional notation

Digits written most significant first. A number has one writing without leading zeros, and
changing the base while keeping each leading zero as a zero can be undone.
-/

namespace Positional

variable {b c n : ℕ} {l : List ℕ}

/-- The number that digits denote. -/
def value (b : ℕ) (digits : List ℕ) : ℕ := digits.foldl (fun n d => n * b + d) 0

theorem value_concat (b : ℕ) (l : List ℕ) (d : ℕ) : value b (l ++ [d]) = value b l * b + d := by
  rw [value, List.foldl_append]
  rfl

theorem value_eq_ofDigits (b : ℕ) (l : List ℕ) : value b l = Nat.ofDigits b l.reverse := by
  induction l using List.reverseRecOn with
  | nil => rfl
  | append_singleton l d ih =>
      rw [value_concat, ih, List.reverse_append, List.reverse_singleton, List.singleton_append,
        Nat.ofDigits_cons, Nat.mul_comm, Nat.add_comm]

theorem foldl_eq_value (b n : ℕ) (l : List ℕ) :
    l.foldl (fun n d => n * b + d) n = n * b ^ l.length + value b l := by
  induction l using List.reverseRecOn with
  | nil => simp [value]
  | append_singleton l d ih =>
      rw [List.foldl_append, List.foldl_cons, List.foldl_nil, ih, value_concat, List.length_append,
        List.length_singleton, pow_succ]
      ring

theorem value_lt (hb : 1 < b) (h : ∀ d ∈ l, d < b) : value b l < b ^ l.length := by
  rw [value_eq_ofDigits, ← List.length_reverse]
  exact Nat.ofDigits_lt_base_pow_length hb (by simpa using h)

/-- The digits of a number, none for zero. -/
def canonical (b n : ℕ) : List ℕ := (b.digits n).reverse

theorem canonical_zero (b : ℕ) : canonical b 0 = [] := by
  rw [canonical, Nat.digits_zero, List.reverse_nil]

theorem canonical_eq_concat (hb : 1 < b) (hn : 0 < n) :
    canonical b n = canonical b (n / b) ++ [n % b] := by
  rw [canonical, canonical, Nat.digits_def' hb hn, List.reverse_cons]

theorem canonical_of_lt (hn : 0 < n) (h : n < b) : canonical b n = [n] := by
  rw [canonical, Nat.digits_of_lt b n (Nat.ne_of_gt hn) h, List.reverse_singleton]

theorem value_canonical (b n : ℕ) : value b (canonical b n) = n := by
  rw [value_eq_ofDigits, canonical, List.reverse_reverse, Nat.ofDigits_digits]

theorem canonical_lt (hb : 1 < b) : ∀ d ∈ canonical b n, d < b :=
  fun _ h => Nat.digits_lt_base hb (List.mem_reverse.mp h)

theorem head_canonical (b n : ℕ) : (canonical b n).head? ≠ some 0 := by
  intro h
  rw [canonical, List.head?_reverse, List.getLast?_eq_some_iff] at h
  obtain ⟨before, hdigits⟩ := h
  have hn : n ≠ 0 := by
    rintro rfl
    simp at hdigits
  have hlast := Nat.getLast_digit_ne_zero b hn
  simp [hdigits] at hlast

/-- Digits without a leading zero are the digits of their number. -/
theorem canonical_value (hb : 1 < b) (h : ∀ d ∈ l, d < b) (hhead : l.head? ≠ some 0) :
    canonical b (value b l) = l := by
  rw [canonical, value_eq_ofDigits, Nat.digits_ofDigits b hb l.reverse (by simpa using h),
    List.reverse_reverse]
  intro hne hlast
  refine hhead ?_
  rw [← List.getLast?_reverse, List.getLast?_eq_some_getLast hne, hlast]

/-- The first digits of a number are those of its quotient by a power of the base. -/
theorem canonical_append (hb : 1 < b) (m : ℕ) (h : 0 < n / b ^ m) :
    ∃ rest, rest.length = m ∧ canonical b n = canonical b (n / b ^ m) ++ rest := by
  induction m generalizing n with
  | zero => exact ⟨[], rfl, by rw [pow_zero, Nat.div_one, List.append_nil]⟩
  | succ m ih =>
      have hn : 0 < n := Nat.pos_of_ne_zero fun hzero => by simp [hzero] at h
      rw [pow_succ', ← Nat.div_div_eq_div_mul] at h
      obtain ⟨rest, hlength, hdigits⟩ := ih h
      refine ⟨rest ++ [n % b], by rw [List.length_append, hlength, List.length_singleton], ?_⟩
      rw [canonical_eq_concat hb hn, hdigits, pow_succ', ← Nat.div_div_eq_div_mul,
        List.append_assoc]

/-- How many zeros digits begin with. -/
def zeros (l : List ℕ) : ℕ := (l.takeWhile (· = 0)).length

theorem zeros_append (z : ℕ) (h : l.head? ≠ some 0) : zeros (List.replicate z 0 ++ l) = z := by
  have hnone : l.takeWhile (· = 0) = [] := by
    cases l with
    | nil => rfl
    | cons d rest =>
        have hd : d ≠ 0 := by simpa using h
        rw [List.takeWhile_cons_of_neg (by simpa using hd)]
  rw [zeros, List.takeWhile_append_of_pos (by simp), hnone, List.append_nil,
    List.length_replicate]

theorem zeros_dropWhile (l : List ℕ) :
    List.replicate (zeros l) 0 ++ l.dropWhile (· = 0) = l := by
  have hzeros : l.takeWhile (· = 0) = List.replicate (zeros l) 0 := by
    rw [List.eq_replicate_iff]
    exact ⟨rfl, fun d hd => by simpa using List.all_eq_true.mp List.all_takeWhile d hd⟩
  rw [← hzeros, List.takeWhile_append_dropWhile]

theorem value_zeros (b z : ℕ) (l : List ℕ) : value b (List.replicate z 0 ++ l) = value b l := by
  have hzero : value b (List.replicate z 0) = 0 := by
    rw [value_eq_ofDigits, List.reverse_replicate, Nat.ofDigits_replicate_zero]
  rw [value, List.foldl_append, foldl_eq_value]
  change value b (List.replicate z 0) * b ^ l.length + value b l = value b l
  rw [hzero, Nat.zero_mul, Nat.zero_add]

theorem canonical_value_eq_dropWhile (hb : 1 < b) (h : ∀ d ∈ l, d < b) :
    canonical b (value b l) = l.dropWhile (· = 0) := by
  have hvalue : value b l = value b (l.dropWhile (· = 0)) := by
    rw [← value_zeros b (zeros l) (l.dropWhile (· = 0)), zeros_dropWhile]
  rw [hvalue]
  refine canonical_value hb (fun d hd => h d (List.dropWhile_sublist _ |>.subset hd)) ?_
  intro hhead
  have hfirst := List.head?_dropWhile_not (p := fun d => decide (d = 0)) (l := l)
  rw [hhead] at hfirst
  simp at hfirst

/-- The same number in another base, with as many leading zeros. -/
def convert (b c : ℕ) (l : List ℕ) : List ℕ :=
  List.replicate (zeros l) 0 ++ canonical c (value b l)

theorem zeros_convert (b c : ℕ) (l : List ℕ) : zeros (convert b c l) = zeros l :=
  zeros_append _ (head_canonical c _)

theorem value_convert (b c : ℕ) (l : List ℕ) : value c (convert b c l) = value b l := by
  rw [convert, value_zeros, value_canonical]

theorem convert_lt (hc : 1 < c) : ∀ d ∈ convert b c l, d < c := by
  intro d hd
  obtain hzero | hdigit := List.mem_append.mp hd
  · rw [List.eq_of_mem_replicate hzero]
    omega
  · exact canonical_lt hc d hdigit

/-- Changing the base and back. -/
theorem convert_convert (hb : 1 < b) (h : ∀ d ∈ l, d < b) : convert c b (convert b c l) = l := by
  rw [convert, zeros_convert, value_convert, canonical_value_eq_dropWhile hb h, zeros_dropWhile]

end Positional

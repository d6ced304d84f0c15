import Mathlib.Data.Nat.Digits.Lemmas

/-!
# Numerals of fixed width

`value b ds` is the number the list of digits `ds` denotes in base `b`, most
significant digit first, and `digits b k n` is the list of the `k` least significant
digits of `n`, which denotes `n` modulo `b ^ k`.
-/

namespace Numeral

/-- The number a list of digits denotes in base `b`, most significant digit first. -/
def value (b : ℕ) (ds : List ℕ) : ℕ := Nat.ofDigits b ds.reverse

/-- The `k` least significant digits of `n` in base `b`, most significant digit first. -/
def digits (b : ℕ) : ℕ → ℕ → List ℕ
  | 0, _ => []
  | k + 1, n => digits b k (n / b) ++ [n % b]

theorem value_nil (b : ℕ) :
  value b [] = 0
  := rfl

theorem value_append_singleton (b : ℕ) (ds : List ℕ) (d : ℕ) :
  value b (ds ++ [d]) = value b ds * b + d
  := by
  simp only [value, List.reverse_append, List.reverse_singleton, List.singleton_append,
    Nat.ofDigits_cons]
  ring

/-- A numeral of `k` digits below `b` denotes a number below `b ^ k`. -/
theorem value_lt {b : ℕ} (hb : 1 < b) {ds : List ℕ} (h : ∀ d ∈ ds, d < b) :
  value b ds < b ^ ds.length
  := by
  rw [← List.length_reverse]
  apply Nat.ofDigits_lt_base_pow_length hb
  simpa using h

/-- The `k` least significant digits of `n` denote the remainder of `n` modulo `b ^ k`. -/
theorem value_digits (b k n : ℕ) :
  value b (digits b k n) = n % b ^ k
  := by
  induction k generalizing n with
  | zero => rw [digits, value_nil, Nat.pow_zero, Nat.mod_one]
  | succ k ih =>
      rw [digits, value_append_singleton, ih, Nat.pow_succ', Nat.mod_mul]
      ring

/-- A numeral of digits below `b` is the list of the digits of the number it denotes. -/
theorem digits_value {b : ℕ} {ds : List ℕ} (h : ∀ d ∈ ds, d < b) :
  digits b ds.length (value b ds) = ds
  := by
  induction ds using List.reverseRecOn with
  | nil => rfl
  | append_singleton ds d ih =>
      have hd : d < b := h d (by simp)
      rw [List.length_append, List.length_singleton, digits, value_append_singleton,
        Nat.mul_comm, Nat.mul_add_div (Nat.zero_lt_of_lt hd), Nat.div_eq_of_lt hd, Nat.add_zero,
        ih fun d hd => h d (by simp [hd]), Nat.mul_add_mod, Nat.mod_eq_of_lt hd]

end Numeral

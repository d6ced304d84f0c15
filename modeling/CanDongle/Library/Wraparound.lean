import Mathlib.Data.UInt

/-!
# Counters that wrap around

A counter that only grows is kept in a word of 32 bits, so a word stands for every number
with the same remainder.  The signed difference of two words is the difference of the numbers
when these are less than half of the range apart.
-/

namespace Wraparound

/-- Two numbers have the same word when they have the same remainder. -/
theorem ofNat_eq_iff {a b : ℕ} :
  UInt32.ofNat a = UInt32.ofNat b ↔ a % 2 ^ 32 = b % 2 ^ 32
  := by
  rw [← UInt32.toNat_inj, UInt32.toNat_ofNat', UInt32.toNat_ofNat']

/-- The words of two numbers differ when the numbers are different and less than the range apart. -/
theorem ofNat_inj {a b : ℕ} (hle : a ≤ b) (hlt : b - a < 2 ^ 32)
    (h : UInt32.ofNat a = UInt32.ofNat b) :
  a = b
  := by
  have hmod := ofNat_eq_iff.mp h
  omega

/-- The signed difference of the words of two numbers. -/
theorem toInt_sub {a b : ℕ} (hle : a ≤ b) (hlt : b - a < 2 ^ 31) :
  (UInt32.ofNat b - UInt32.ofNat a).toInt32.toInt = (b - a : ℕ)
  := by
  have hnat : (UInt32.ofNat (b - a)).toBitVec.toNat = b - a := by
    rw [UInt32.toNat_toBitVec, UInt32.toNat_ofNat', Nat.mod_eq_of_lt (by omega)]
  have hint : (UInt32.ofNat (b - a)).toBitVec.toInt
      = ((UInt32.ofNat (b - a)).toBitVec.toNat : ℤ) := by
    apply BitVec.toInt_eq_toNat_of_lt
    rw [hnat]
    omega
  rw [← UInt32.ofNat_sub hle, ← hnat, ← hint, hnat]
  rfl

/-- The word of a number is the word of one between two others when the number is, up to the range,
not further from the first than the second is. -/
theorem exists_between_iff {a b n : ℕ} (hle : a ≤ b) :
  (∃ k, a ≤ k ∧ k ≤ b ∧ UInt32.ofNat n = UInt32.ofNat k) ↔ ((n : ℤ) - a) % 2 ^ 32 ≤ b - a
  := by
  constructor
  · rintro ⟨k, hak, hkb, heq⟩
    have hmod := ofNat_eq_iff.mp heq
    omega
  · intro hdist
    use a + (((n : ℤ) - a) % 2 ^ 32).toNat
    refine ⟨Nat.le_add_right _ _, by omega, ?_⟩
    apply ofNat_eq_iff.mpr
    omega

/-! ### Two words -/

/-- A word in the high half of a long one. -/
theorem toNat_shiftLeft_32 (x : UInt32) :
  (x.toUInt64 <<< 32).toNat = 2 ^ 32 * x.toNat
  := by
  have hx := x.toNat_lt
  have hshift : (32 : UInt64).toNat % 64 = 32 := rfl
  rw [UInt64.toNat_shiftLeft, UInt32.toNat_toUInt64, hshift, Nat.shiftLeft_eq, Nat.mul_comm,
    Nat.mod_eq_of_lt (by omega)]

/-- The low half of a long word is what was added to the high half. -/
theorem toUInt32_shiftLeft_add (x : UInt32) (y : UInt64) :
  ((x.toUInt64 <<< 32) + y).toUInt32 = y.toUInt32
  := by
  apply UInt32.toNat_inj.mp
  rw [UInt64.toNat_toUInt32, UInt64.toNat_toUInt32, UInt64.toNat_add, toNat_shiftLeft_32]
  omega

end Wraparound

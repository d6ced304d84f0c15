import Mathlib.Data.BitVec

/-!
# Fields of a register

A field of a register is given by a mask, the bits that belong to it, and a value of the
field is a word within the mask.  `setField` writes a field and leaves the others as they
were: what is read of a field afterwards is what was last written to it.
-/

namespace BitField

variable {w : ℕ}

/-- A word all of whose bits belong to a mask. -/
def Within (v m : BitVec w) : Prop := v &&& m = v

/-- Two masks that share no bit. -/
def Apart (m m' : BitVec w) : Prop := m &&& m' = 0#w

instance (v m : BitVec w) : Decidable (Within v m) :=
  inferInstanceAs (Decidable (_ = _))

instance (m m' : BitVec w) : Decidable (Apart m m') :=
  inferInstanceAs (Decidable (_ = _))

/-- Write the value `v` to the field `m` of a register. -/
def setField (r m v : BitVec w) : BitVec w := (r &&& ~~~m) ||| v

variable {r m m' v v' : BitVec w}

/-! ### Masks -/

/-- A bit of a mask is not a bit of one apart from it. -/
theorem Apart.getElem_eq_false (h : Apart m m') {i : ℕ} (hi : i < w) (hm : m[i] = true) :
  m'[i] = false
  := by
  have hbit := congrArg (·[i]) h
  simpa [hm] using hbit

/-- A word within a mask has no bit outside of it. -/
theorem Within.getElem_eq_false (h : Within v m) {i : ℕ} (hi : i < w) (hm : m[i] = false) :
  v[i] = false
  := by
  have hbit := congrArg (·[i]) h
  simpa [hm] using hbit.symm

theorem Apart.symm (h : Apart m m') :
  Apart m' m
  := (BitVec.and_comm m' m).trans h

theorem Apart.or {m'' : BitVec w} (h : Apart m m'') (h' : Apart m' m'') :
  Apart (m ||| m') m''
  := by
  rw [Apart, BitVec.and_or_distrib_right, h, h', BitVec.or_zero]

theorem within_self (m : BitVec w) :
  Within m m
  := BitVec.and_self

theorem within_zero (m : BitVec w) :
  Within 0#w m
  := BitVec.zero_and

theorem within_or_left (m m' : BitVec w) :
  Within m (m ||| m')
  := by
  apply BitVec.eq_of_getElem_eq
  intro i hi
  cases hm : m[i] with
  | true => simp [hm]
  | false => simp [hm]

theorem within_or_right (m m' : BitVec w) :
  Within m' (m ||| m')
  := by
  rw [BitVec.or_comm]
  apply within_or_left

theorem Within.trans (h : Within v m) (h' : Within m m') :
  Within v m'
  := by
  rw [Within, ← h, BitVec.and_assoc, h']

/-- A word within a mask is apart from the bits outside of it. -/
theorem Within.apart_not (h : Within v m) :
  Apart v (~~~m)
  := by
  rw [Apart, ← h, BitVec.and_assoc]
  simp

/-- Words within masks that are apart share no bit. -/
theorem Apart.of_within (h : Apart m m') (hv : Within v m) (hv' : Within v' m') :
  Apart v v'
  := by
  have hswap : v &&& m &&& (v' &&& m') = v &&& v' &&& (m &&& m') := by
    rw [BitVec.and_assoc, BitVec.and_assoc, ← BitVec.and_assoc m, BitVec.and_comm m,
      BitVec.and_assoc v']
  rw [Apart, ← hv, ← hv', hswap, h, BitVec.and_zero]

theorem Within.or (h : Within v m) (h' : Within v' m) :
  Within (v ||| v') m
  := by
  rw [Within, BitVec.and_or_distrib_right, h, h']

/-- A word within a mask is what a word made of it and of one apart from the mask has there. -/
theorem Within.or_and (h : Within v m) (hapart : Apart v' m) :
  (v ||| v') &&& m = v
  := by
  rw [BitVec.and_or_distrib_right, h, hapart, BitVec.or_zero]

/-! ### Writing fields -/

/-- Reading a field that was written gives its value. -/
theorem setField_and_self (h : Within v m) :
  setField r m v &&& m = v
  := by
  apply BitVec.eq_of_getElem_eq
  intro i hi
  cases hm : m[i] with
  | true => simp [setField, hm]
  | false => simp [setField, hm, h.getElem_eq_false hi hm]

/-- Writing a field leaves the others. -/
theorem setField_and_of_apart (h : Within v m) (hapart : Apart m m') :
  setField r m v &&& m' = r &&& m'
  := by
  apply BitVec.eq_of_getElem_eq
  intro i hi
  cases hm : m[i] with
  | true => simp [hapart.getElem_eq_false hi hm]
  | false => simp [setField, hm, h.getElem_eq_false hi hm]

/-- Writing a field again overwrites it. -/
theorem setField_setField (h : Within v m) :
  setField (setField r m v) m v' = setField r m v'
  := by
  apply BitVec.eq_of_getElem_eq
  intro i hi
  cases hm : m[i] with
  | true => simp [setField, hm]
  | false => simp [setField, hm, h.getElem_eq_false hi hm]

/-- Fields that are apart may be written in any order. -/
theorem setField_comm (h : Within v m) (h' : Within v' m') (hapart : Apart m m') :
  setField (setField r m v) m' v' = setField (setField r m' v') m v
  := by
  apply BitVec.eq_of_getElem_eq
  intro i hi
  cases hm : m[i] with
  | true =>
      have hm' := hapart.getElem_eq_false hi hm
      simp [setField, hm, hm', h'.getElem_eq_false hi hm']
  | false => simp [setField, hm, h.getElem_eq_false hi hm]

/-- Clearing the bits of a field writes zero to it. -/
theorem and_not_eq_setField (r m : BitVec w) :
  r &&& ~~~m = setField r m 0#w
  := BitVec.or_zero.symm

/-- Setting bits of a field that is zero writes them to it. -/
theorem or_eq_setField (h : Apart r m) :
  r ||| v = setField r m v
  := by
  apply BitVec.eq_of_getElem_eq
  intro i hi
  cases hr : r[i] with
  | true => simp [setField, hr, h.getElem_eq_false hi hr]
  | false => simp [setField, hr]

end BitField

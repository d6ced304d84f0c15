import Mathlib.Data.List.Basic
import Mathlib.Tactic.Cases

/-!
# Checked accesses to buffers of fixed size

A buffer of `n` elements is a `Vector α n`.  `store` writes one element, `storeAll`
consecutive elements, `copy` a prefix of another buffer; each yields `none` when it
would write or read outside of a buffer.  A buffer that is only ever written front to
back is given by the list of the elements written so far: `put n` appends an element to
the list, and yields `none` when the `n` places are taken.
-/

namespace Buffer

variable {α : Type*} {n m : ℕ}

/-! ### Random access -/

/-- Write `b` at index `i`. -/
def store (buf : Vector α n) (i : ℕ) (b : α) : Option (Vector α n) :=
  if h : i < n then some (buf.set i b) else none

/-- Write the elements of a list at the indices from `i` on. -/
def storeAll (buf : Vector α n) (i : ℕ) : List α → Option (Vector α n)
  | [] => some buf
  | b :: bs => do
      let buf ← store buf i b
      storeAll buf (i + 1) bs

/-- Copy the first `len` elements of `src` to the front of `dst`. -/
def copy (dst : Vector α n) (src : Vector α m) (len : ℕ) : Option (Vector α n) :=
  (List.range len).foldlM (fun dst i => do
    let b ← src[i]?
    store dst i b) dst

/-- The `len` elements of `buf` from index `i` on. -/
def slice (buf : Vector α n) (i len : ℕ) : List α :=
  (buf.toList.drop i).take len

theorem getElem?_slice (buf : Vector α n) {i len j : ℕ} (h : j < len) :
  (slice buf i len)[j]? = buf.toList[i + j]?
  := by
  rw [slice, List.getElem?_take_of_lt h, List.getElem?_drop]

theorem length_slice (buf : Vector α n) {i len : ℕ} (h : i + len ≤ n) :
  (slice buf i len).length = len
  := by
  rw [slice, List.length_take, List.length_drop, Vector.length_toList]
  omega

/-- A slice is longer by the element after it. -/
theorem slice_succ {buf : Vector α n} {i len : ℕ} (h : i + len < n) :
  slice buf i (len + 1) = slice buf i len ++ [buf[i + len]]
  := by
  rw [slice, List.take_succ_eq_append_getElem (by simp; omega)]
  simp [slice]

/-- A slice is its first element and the slice after it. -/
theorem slice_cons {buf : Vector α n} {i len : ℕ} (h : i < n) :
  slice buf i (len + 1) = buf[i] :: slice buf (i + 1) len
  := by
  rw [slice, List.drop_eq_getElem_cons (by simpa using h)]
  simp [slice]

theorem store_eq_some {buf : Vector α n} {i : ℕ} (h : i < n) (b : α) :
  store buf i b = some (buf.set i b)
  := dif_pos h

theorem store_eq_none {buf : Vector α n} {i : ℕ} (h : n ≤ i) (b : α) :
  store buf i b = none
  := dif_neg (Nat.not_lt.mpr h)

/-- Writing the elements of `bs` from index `i` on, inside of the buffer, replaces the
elements there and no others. -/
theorem storeAll_eq_some (buf : Vector α n) (i : ℕ) (bs : List α) (h : i + bs.length ≤ n) :
  ∃ buf', storeAll buf i bs = some buf' ∧
    buf'.toList = buf.toList.take i ++ bs ++ buf.toList.drop (i + bs.length)
  := by
  induction bs generalizing buf i with
  | nil => use buf; simp [storeAll]
  | cons b bs ih =>
      rw [List.length_cons] at h
      have hi : i < n := by omega
      obtain ⟨buf', hbuf', hlist⟩ := ih (buf.set i b) (i + 1) (by omega)
      use buf'
      constructor
      · simp only [storeAll, store_eq_some hi, Option.bind_eq_bind, Option.bind_some, hbuf']
      · have hlen : i < buf.toList.length := by simpa using hi
        rw [hlist, Vector.toList_set, List.take_succ_eq_append_getElem (by simpa using hi),
          List.take_set_of_le (Nat.le_refl i), List.drop_set_of_lt (by omega)]
        simp [Nat.add_assoc, Nat.add_comm 1]

/-- A copy of one more element copies that element last. -/
theorem copy_succ (dst : Vector α n) (src : Vector α m) (len : ℕ) :
  copy dst src (len + 1) = (copy dst src len).bind fun dst =>
    src[len]?.bind fun b => store dst len b
  := by
  rw [copy, List.range_succ, List.foldlM_append]
  simp [copy]

/-- A copy of a prefix that exists in both buffers succeeds, and leaves the rest of the
destination. -/
theorem copy_eq_some (dst : Vector α n) (src : Vector α m) {len : ℕ} (hn : len ≤ n)
    (hm : len ≤ m) :
  ∃ dst', copy dst src len = some dst' ∧
    dst'.toList = src.toList.take len ++ dst.toList.drop len
  := by
  induction len with
  | zero => use dst; simp [copy]
  | succ len ih =>
      obtain ⟨dst', hdst', hlist⟩ := ih (by omega) (by omega)
      have hlen : len < m := by omega
      use dst'.set len src[len]
      constructor
      · rw [copy_succ, hdst']
        simp [hlen, store_eq_some (show len < n by omega)]
      · have hsrc : len < src.toList.length := by simpa using hlen
        have hdst : len < dst.toList.length := by
          rw [Vector.length_toList]
          omega
        have htake : (src.toList.take len).length ≤ len := List.length_take_le len src.toList
        rw [Vector.toList_set, hlist, List.set_append_right _ _ htake,
          List.take_succ_eq_append_getElem hsrc, List.length_take, Nat.min_eq_left (by omega),
          Nat.sub_self, List.drop_eq_getElem_cons hdst]
        simp

/-- A copy of more elements than the destination has does not succeed. -/
theorem copy_eq_none (dst : Vector α n) (src : Vector α m) {len : ℕ} (h : n < len) :
  copy dst src len = none
  := by
  induction len with
  | zero => omega
  | succ len ih =>
      rw [copy_succ]
      by_cases hlen : n < len
      · rw [ih hlen, Option.bind_none]
      · apply Option.bind_eq_none_iff.mpr
        intro dst' _
        apply Option.bind_eq_none_iff.mpr
        intro b _
        apply store_eq_none (by omega)

/-! ### Writing front to back -/

/-- Append an element to the elements written so far to a buffer of `n` places. -/
def put (n : ℕ) (out : List α) (b : α) : Option (List α) :=
  if out.length < n then some (out ++ [b]) else none

/-- `Appends n w bs`: the writer `w` to a buffer of `n` places appends `bs` to whatever was
written before, provided there is room for it. -/
def Appends (n : ℕ) (w : List α → Option (List α)) (bs : List α) : Prop :=
  ∀ out : List α, out.length + bs.length ≤ n → w out = some (out ++ bs)

theorem appends_put (n : ℕ) (b : α) :
  Appends n (put n · b) [b]
  := fun _ h => if_pos h

theorem appends_some (n : ℕ) :
  Appends n (some : List α → _) []
  := fun out _ => by rw [List.append_nil]

/-- Writers in sequence append what they append one after the other. -/
theorem Appends.bind {w w' : List α → Option (List α)} {bs bs' : List α}
    (h : Appends n w bs) (h' : Appends n w' bs') :
  Appends n (fun out => (w out).bind w') (bs ++ bs')
  := by
  intro out hout
  rw [List.length_append] at hout
  beta_reduce
  rw [h out (by omega), Option.bind_some, h' _ (by rw [List.length_append]; omega),
    List.append_assoc]

theorem Appends.congr {w : List α → Option (List α)} {bs bs' : List α}
    (h : Appends n w bs) (hbs : bs = bs') :
  Appends n w bs'
  := hbs ▸ h

end Buffer

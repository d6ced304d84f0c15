import Mathlib.Data.List.Basic
import Mathlib.Data.List.Infix

/-!
# Segments of a stream

`List.splitOnP p` splits a stream at the elements that satisfy `p`, into segments that are
free of them; the last segment is not ended by such an element.  A buffer of `n` elements
that is given up whenever it is full keeps `kept n w` of a segment `w`.
-/

namespace Segments

variable {α β : Type*} {p : α → Bool}

/-- What is left of the elements of a list in a buffer of `n` elements that is emptied whenever
it is full. -/
def kept (n : ℕ) (w : List α) : List α := w.drop (n * (w.length / n))

theorem length_kept (n : ℕ) (w : List α) :
  (kept n w).length = w.length % n
  := by
  rw [kept, List.length_drop, Nat.mod_def]

theorem kept_of_lt {n : ℕ} {w : List α} (h : w.length < n) :
  kept n w = w
  := by
  rw [kept, Nat.div_eq_of_lt h, Nat.mul_zero, List.drop_zero]

/-- A buffer that is full keeps nothing. -/
theorem kept_append {n : ℕ} (hn : 0 < n) {v : List α} (hv : v.length = n) (w : List α) :
  kept n (v ++ w) = kept n w
  := by
  rw [kept, List.length_append, hv, Nat.add_div_left _ hn, Nat.mul_succ, Nat.add_comm,
    ← List.drop_drop, ← hv, List.drop_left, kept]

/-- A buffer that is full keeps nothing of the first of a list of segments. -/
theorem map_kept_modifyHead {n : ℕ} (hn : 0 < n) {v : List α} (hv : v.length = n)
    (ws : List (List α)) :
  (ws.modifyHead (v ++ ·)).map (kept n) = ws.map (kept n)
  := by
  cases ws with
  | nil => rfl
  | cons w ws => simp [kept_append hn hv]

/-- A buffer keeps the elements from index `i` on when the elements before it fill it a number of
times, and those from it on do not. -/
theorem kept_eq_drop {n : ℕ} (hn : 0 < n) {w : List α} {i : ℕ} (hi : i ≤ w.length) :
  kept n w = w.drop i ↔ i % n = 0 ∧ w.length - i < n
  := by
  constructor
  · intro h
    have hlen := congrArg List.length h
    rw [length_kept, List.length_drop] at hlen
    have hlt : w.length % n < n := Nat.mod_lt _ hn
    constructor
    · have hdiv := Nat.div_add_mod w.length n
      have hi : i = n * (w.length / n) := by omega
      rw [hi, Nat.mul_mod_right]
    · omega
  · rintro ⟨hmod, hlt⟩
    obtain ⟨k, rfl⟩ := Nat.dvd_of_mod_eq_zero hmod
    have hdiv : w.length / n = k := by
      apply Nat.div_eq_of_lt_le
      · rw [Nat.mul_comm]
        apply hi
      · rw [Nat.succ_mul, Nat.mul_comm]
        omega
    rw [kept, hdiv]

theorem kept_eq_self_iff {n : ℕ} (hn : 0 < n) {w : List α} :
  kept n w = w ↔ w.length < n
  := by
  constructor
  · intro h
    have hlen := length_kept n w
    rw [h] at hlen
    rw [hlen]
    apply Nat.mod_lt _ hn
  · apply kept_of_lt

/-- A buffer keeps each of a list of segments when none of them fills it. -/
theorem map_kept_eq_self_iff {n : ℕ} (hn : 0 < n) {ws : List (List α)} :
  ws.map (kept n) = ws ↔ ∀ w ∈ ws, w.length < n
  := by
  induction ws with
  | nil => simp
  | cons w ws ih =>
      rw [List.map_cons, List.cons.injEq, kept_eq_self_iff hn, ih, List.forall_mem_cons]

/-- What a buffer keeps of segments is some of them only when it is all of them. -/
theorem map_kept_sublist_iff {n : ℕ} (hn : 0 < n) {ws : List (List α)} :
  List.Sublist (ws.map (kept n)) ws ↔ ∀ w ∈ ws, w.length < n
  := by
  rw [← map_kept_eq_self_iff hn]
  constructor
  · intro h
    apply h.eq_of_length (List.length_map _)
  · intro h
    rw [h]

/-! ### Splitting -/

theorem splitOnP_cons_neg {x : α} (hx : p x = false) {xs v : List α} {vs : List (List α)}
    (h : xs.splitOnP p = v :: vs) :
  (x :: xs).splitOnP p = (x :: v) :: vs
  := by
  rw [List.splitOnP_cons_eq_if_modifyHead, h, if_neg (by simpa using hx)]
  rfl

theorem splitOnP_cons_pos {x : α} (hx : p x = true) (xs : List α) :
  (x :: xs).splitOnP p = [] :: xs.splitOnP p
  := by
  rw [List.splitOnP_cons_eq_if_modifyHead, if_pos hx]

/-- Splitting the images of the elements is splitting the elements. -/
theorem splitOnP_map (q : β → Bool) (f : α → β) (xs : List α) :
  (xs.map f).splitOnP q = (xs.splitOnP (q ∘ f)).map (List.map f)
  := by
  induction xs with
  | nil => rfl
  | cons x xs ih =>
      rw [List.map_cons, List.splitOnP_cons_eq_if_modifyHead, List.splitOnP_cons_eq_if_modifyHead,
        ih, Function.comp_apply]
      split
      · rfl
      · obtain ⟨v, vs, h⟩ := List.exists_cons_of_ne_nil (List.splitOnP_ne_nil (q ∘ f) xs)
        rw [h]
        rfl

/-- The first segment is where the stream starts. -/
theorem prefix_of_splitOnP {xs v : List α} {vs : List (List α)} (h : xs.splitOnP p = v :: vs) :
  v <+: xs
  := by
  induction xs generalizing v vs with
  | nil =>
      cases h
      apply List.prefix_rfl
  | cons x xs ih =>
      cases hx : p x with
      | true =>
          rw [splitOnP_cons_pos hx] at h
          cases h
          apply List.nil_prefix
      | false =>
          obtain ⟨u, us, hsplit⟩ := List.exists_cons_of_ne_nil (List.splitOnP_ne_nil p xs)
          rw [splitOnP_cons_neg hx hsplit] at h
          cases h
          rw [List.prefix_cons_inj]
          apply ih hsplit

/-- A segment is a part of the stream, and free of separators. -/
theorem infix_of_mem_splitOnP {xs w : List α} (h : w ∈ xs.splitOnP p) :
  w <:+: xs ∧ ∀ x ∈ w, p x = false
  := by
  induction xs generalizing w with
  | nil =>
      obtain rfl : w = [] := by simpa using h
      simp
  | cons x xs ih =>
      cases hx : p x with
      | true =>
          rw [splitOnP_cons_pos hx, List.mem_cons] at h
          rcases h with rfl | h
          · simp
          · apply (ih h).imp_left
            intro hpart
            apply hpart.trans (List.suffix_cons x xs).isInfix
      | false =>
          obtain ⟨v, vs, hsplit⟩ := List.exists_cons_of_ne_nil (List.splitOnP_ne_nil p xs)
          rw [splitOnP_cons_neg hx hsplit, List.mem_cons] at h
          rcases h with rfl | h
          · constructor
            · apply List.IsPrefix.isInfix
              rw [List.prefix_cons_inj]
              apply prefix_of_splitOnP hsplit
            · have hv : v ∈ xs.splitOnP p := by simp [hsplit]
              simpa [hx] using (ih hv).2
          · have hw : w ∈ xs.splitOnP p := by simp [hsplit, h]
            apply (ih hw).imp_left
            intro hpart
            apply hpart.trans (List.suffix_cons x xs).isInfix

end Segments

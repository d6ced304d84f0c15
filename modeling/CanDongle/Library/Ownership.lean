import Mathlib.Algebra.BigOperators.Group.Finset.Piecewise
import Mathlib.Algebra.Order.BigOperators.Group.Finset
import Mathlib.Data.Fintype.Card

/-!
# Tokens and places

Finitely many tokens are spread over finitely many places.  They are conserved when
together the places hold every token once, and then each token is in exactly one place.
Moving a token from one place to another conserves them.
-/

namespace Ownership

variable {ι α : Type*}

section Moves

variable [Fintype ι] [DecidableEq ι]

/-- A token moves from place `i` to place `j`, and nothing else changes. -/
def Moves (a : α) (i j : ι) (p p' : ι → Multiset α) : Prop :=
  ∀ k, p k + (if k = j then {a} else 0) = p' k + (if k = i then {a} else 0)

/-- A token that moves leaves the sum of the places. -/
theorem Moves.sum_eq {a : α} {i j : ι} {p p' : ι → Multiset α} (h : Moves a i j p p') :
  ∑ k, p k = ∑ k, p' k
  := by
  have hsum : ∑ k, (p k + if k = j then {a} else 0) = ∑ k, (p' k + if k = i then {a} else 0) :=
    Finset.sum_congr rfl fun k _ => h k
  rw [Finset.sum_add_distrib, Finset.sum_add_distrib, Finset.sum_ite_eq', Finset.sum_ite_eq',
    if_pos (Finset.mem_univ j), if_pos (Finset.mem_univ i)] at hsum
  apply add_right_cancel hsum

end Moves

section Conserved

variable [Fintype ι] [Fintype α]

/-- The places hold every token once. -/
def Conserved (p : ι → Multiset α) : Prop := ∑ i, p i = Finset.univ.val

variable {p p' : ι → Multiset α}

theorem Conserved.moves [DecidableEq ι] (h : Conserved p) {a : α} {i j : ι}
    (hmove : Moves a i j p p') :
  Conserved p'
  := hmove.sum_eq.symm.trans h

/-- The places hold as many tokens as there are. -/
theorem Conserved.card (h : Conserved p) :
  ∑ i, (p i).card = Fintype.card α
  := by
  rw [← Multiset.card_sum, h]
  rfl

/-- Each token is in exactly one place, once. -/
theorem Conserved.exists_place [DecidableEq ι] [DecidableEq α] (h : Conserved p) (a : α) :
  ∃ i, (p i).count a = 1 ∧ ∀ j, j ≠ i → a ∉ p j
  := by
  have hcount : ∑ i, (p i).count a = 1 := by
    rw [← Multiset.count_sum', h]
    apply Multiset.count_eq_one_of_mem Finset.univ.nodup (Finset.mem_univ_val a)
  obtain ⟨i, -, hi⟩ : ∃ i ∈ Finset.univ, (p i).count a ≠ 0 := by
    apply Finset.exists_ne_zero_of_sum_ne_zero
    rw [hcount]
    apply one_ne_zero
  have hsplit := Finset.add_sum_erase Finset.univ (fun i => (p i).count a) (Finset.mem_univ i)
  rw [hcount] at hsplit
  have hrest : ∑ j ∈ Finset.univ.erase i, (p j).count a = 0 := by omega
  refine ⟨i, by omega, fun j hj => ?_⟩
  apply Multiset.count_eq_zero.mp
  apply Finset.sum_eq_zero_iff.mp hrest j (Finset.mem_erase.mpr ⟨hj, Finset.mem_univ j⟩)

/-- A token is in no two places. -/
theorem Conserved.eq_of_mem [DecidableEq ι] [DecidableEq α] (h : Conserved p) {a : α} {i j : ι}
    (hi : a ∈ p i) (hj : a ∈ p j) :
  i = j
  := by
  obtain ⟨k, -, hk⟩ := h.exists_place a
  have hplace {l : ι} (hl : a ∈ p l) : l = k := by
    by_contra hne
    apply hk l hne hl
  rw [hplace hi, hplace hj]

end Conserved

/-! ### Places that are lists -/

theorem coe_cons (a : α) (l : List α) :
  ((a :: l : List α) : Multiset α) = l + {a}
  := by
  rw [← Multiset.cons_coe, ← Multiset.singleton_add, add_comm]

theorem coe_concat (l : List α) (a : α) :
  ((l ++ [a] : List α) : Multiset α) = l + {a}
  := by
  rw [← Multiset.coe_add, Multiset.coe_singleton]

end Ownership

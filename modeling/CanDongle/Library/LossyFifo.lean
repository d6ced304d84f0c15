import Mathlib.Data.Set.Insert
import Mathlib.Data.List.Basic

/-!
# A queue that may lose messages

Messages are numbered as they arrive.  `Delivers` says what a queue that may lose messages
is for: what was sent, and then what is pending, is in the order of arrival, without
duplicates, and every message that arrived was sent, is pending, or is one of those that
were lost.

`LossyStep` is a step of such a queue.  From a moment on when nothing old is pending,
nothing old is sent.
-/

/-- Of the `arrived` messages, those `sent` and then those `pending` are in the order of their
arrival, and every other one is `lost`. -/
structure Delivers (sent pending : List ℕ) (lost : Set ℕ) (arrived : ℕ) : Prop where
  sorted : (sent ++ pending).Pairwise (· < ·)
  lt_arrived : ∀ k ∈ sent ++ pending, k < arrived
  accounted : ∀ k < arrived, k ∈ sent ++ pending ∨ k ∈ lost

namespace Delivers

variable {sent pending : List ℕ} {lost lost' : Set ℕ} {arrived k : ℕ}

theorem init (lost : Set ℕ) :
  Delivers [] [] lost 0
  := ⟨List.Pairwise.nil, by simp, by simp⟩

/-- A message that arrives is the last that is pending. -/
theorem arrive (h : Delivers sent pending lost arrived) :
  Delivers sent (pending ++ [arrived]) lost (arrived + 1)
  := by
  constructor
  · rw [← List.append_assoc, List.pairwise_append]
    use h.sorted, List.pairwise_singleton _ _
    intro k hk j hj
    rw [List.mem_singleton.mp hj]
    apply h.lt_arrived k hk
  · intro k hk
    rw [← List.append_assoc, List.mem_append, List.mem_singleton] at hk
    rcases hk with hk | rfl
    · apply Nat.lt_succ_of_lt (h.lt_arrived k hk)
    · apply Nat.lt_succ_self k
  · intro k hk
    rw [← List.append_assoc, List.mem_append, List.mem_singleton]
    rcases Nat.lt_succ_iff_lt_or_eq.mp hk with hk | rfl
    · exact (h.accounted k hk).imp_left .inl
    · exact .inl (.inr rfl)

/-- The message that is sent is the first that is pending. -/
theorem send (h : Delivers sent (k :: pending) lost arrived) :
  Delivers (sent ++ [k]) pending lost arrived
  := by
  have happend : sent ++ k :: pending = sent ++ [k] ++ pending := by simp
  constructor
  · rw [← happend]
    apply h.sorted
  · rw [← happend]
    apply h.lt_arrived
  · rw [← happend]
    apply h.accounted

/-- Any message that is pending may be lost. -/
theorem lose {before after : List ℕ} (h : Delivers sent (before ++ k :: after) lost arrived)
    (hk : k ∈ lost') (hlost : lost ⊆ lost') :
  Delivers sent (before ++ after) lost' arrived
  := by
  have hsub : List.Sublist (sent ++ (before ++ after)) (sent ++ (before ++ k :: after)) :=
    ((List.sublist_cons_self k after).append_left before).append_left sent
  constructor
  · apply h.sorted.sublist hsub
  · intro j hj
    apply h.lt_arrived j (hsub.subset hj)
  · intro j hj
    rcases h.accounted j hj with hmem | hmem
    · by_cases hjk : j = k
      · exact .inr (hjk ▸ hk)
      · left
        simpa [hjk] using hmem
    · exact .inr (hlost hmem)

end Delivers

/-- A step of a queue: of what was sent, what is pending, the messages that are lost, and how
many arrived. -/
inductive LossyStep (sent pending : List ℕ) (lost : Set ℕ) (arrived : ℕ) :
    List ℕ → List ℕ → Set ℕ → ℕ → Prop where
  | stay : LossyStep sent pending lost arrived sent pending lost arrived
  | arrive : LossyStep sent pending lost arrived sent (pending ++ [arrived]) lost (arrived + 1)
  | send {k : ℕ} {rest : List ℕ} (h : pending = k :: rest) :
      LossyStep sent pending lost arrived (sent ++ [k]) rest lost arrived
  | lose {before after : List ℕ} {k : ℕ} {lost' : Set ℕ} (h : pending = before ++ k :: after)
      (hk : k ∈ lost') (hlost : lost ⊆ lost') :
      LossyStep sent pending lost arrived sent (before ++ after) lost' arrived

/-- Every step delivers. -/
theorem Delivers.step {sent sent' pending pending' : List ℕ} {lost lost' : Set ℕ}
    {arrived arrived' : ℕ} (h : Delivers sent pending lost arrived)
    (hstep : LossyStep sent pending lost arrived sent' pending' lost' arrived') :
  Delivers sent' pending' lost' arrived'
  := by
  cases hstep with
  | stay => apply h
  | arrive => apply h.arrive
  | send heq =>
      subst heq
      apply h.send
  | lose heq hk hlost =>
      subst heq
      apply h.lose hk hlost

namespace LossyStep

variable {sent sent' pending pending' : List ℕ} {lost lost' : Set ℕ} {arrived arrived' k : ℕ}

/-- What is pending after a step was pending before, or has arrived in it. -/
theorem mem_pending (h : LossyStep sent pending lost arrived sent' pending' lost' arrived')
    (hk : k ∈ pending') (hlt : k < arrived) :
  k ∈ pending
  := by
  cases h with
  | stay => exact hk
  | arrive =>
      apply (List.mem_append.mp hk).resolve_right
      intro hmem
      exact absurd (List.mem_singleton.mp hmem) hlt.ne
  | send heq =>
      rw [heq]
      apply List.mem_cons_of_mem _ hk
  | lose heq =>
      rw [heq]
      apply ((List.sublist_cons_self _ _).append_left _).subset hk

/-- No step puts a message before one that has arrived. -/
theorem countP_le (h : LossyStep sent pending lost arrived sent' pending' lost' arrived')
    (hk : k ≤ arrived) :
  pending'.countP (· < k) ≤ pending.countP (· < k)
  := by
  cases h with
  | stay => rfl
  | arrive => simp [List.countP_append, Nat.not_lt_of_le hk]
  | send heq =>
      rw [heq]
      apply (List.sublist_cons_self _ _).countP_le
  | lose heq =>
      rw [heq]
      apply ((List.sublist_cons_self _ _).append_left _).countP_le

/-- Messages that have arrived stay so. -/
theorem arrived_le (h : LossyStep sent pending lost arrived sent' pending' lost' arrived') :
  arrived ≤ arrived'
  := by
  cases h with
  | arrive => apply Nat.le_succ
  | _ => rfl

end LossyStep

/-- What was sent after `old`, and what is pending, arrived after the first `n` messages. -/
structure SendsFrom (n : ℕ) (old sent pending : List ℕ) (arrived : ℕ) : Prop where
  sent_ge : ∃ new, sent = old ++ new ∧ ∀ k ∈ new, n ≤ k
  pending_ge : ∀ k ∈ pending, n ≤ k
  arrived_ge : n ≤ arrived

namespace SendsFrom

variable {n arrived arrived' : ℕ} {old sent sent' pending pending' : List ℕ} {lost lost' : Set ℕ}

/-- When nothing is pending, all that is still to be sent has yet to arrive. -/
theorem start (sent : List ℕ) (arrived : ℕ) :
  SendsFrom arrived sent sent [] arrived
  := ⟨⟨[], (List.append_nil sent).symm, by simp⟩, by simp, Nat.le_refl arrived⟩

theorem step (h : SendsFrom n old sent pending arrived)
    (hstep : LossyStep sent pending lost arrived sent' pending' lost' arrived') :
  SendsFrom n old sent' pending' arrived'
  := by
  have hpending := h.pending_ge
  cases hstep with
  | stay => apply h
  | arrive =>
      refine ⟨h.sent_ge, ?_, Nat.le_succ_of_le h.arrived_ge⟩
      intro k hk
      rcases List.mem_append.mp hk with hk | hk
      · apply hpending k hk
      · rw [List.mem_singleton.mp hk]
        apply h.arrived_ge
  | @send k rest heq =>
      subst heq
      obtain ⟨new, rfl, hnew⟩ := h.sent_ge
      refine ⟨⟨new ++ [k], List.append_assoc old new [k], ?_⟩, ?_, h.arrived_ge⟩
      · intro j hj
        rcases List.mem_append.mp hj with hj | hj
        · apply hnew j hj
        · rw [List.mem_singleton.mp hj]
          apply hpending k List.mem_cons_self
      · intro j hj
        apply hpending j (List.mem_cons_of_mem k hj)
  | @lose before after k _ heq =>
      subst heq
      refine ⟨h.sent_ge, ?_, h.arrived_ge⟩
      intro j hj
      apply hpending j (((List.sublist_cons_self k after).append_left before).subset hj)

end SendsFrom

import Mathlib.Data.Int.Init

/-!
# Counting semaphores

A semaphore has a counter and a queue of waiting threads.  Waiting decrements the counter,
and blocks when it was not positive; signalling increments it, and wakes the thread that
has waited longest.  A counter of `-n` means that `n` threads wait.

A binary semaphore is one whose counter is at most one.
-/

/-- A counting semaphore for which threads `ι` wait. -/
structure Semaphore (ι : Type*) where
  counter : ℤ
  waiting : List ι
  length_waiting : waiting.length = (-counter).toNat

namespace Semaphore

variable {ι : Type*}

/-- A semaphore with an initial counter, for which no thread waits. -/
def init (counter : ℕ) : Semaphore ι := ⟨counter, [], by simp⟩

/-- Wait: the new semaphore, and whether the thread `i` blocks. -/
def wait (s : Semaphore ι) (i : ι) : Semaphore ι × Bool :=
  if h : 0 < s.counter then
    (⟨s.counter - 1, s.waiting, by rw [s.length_waiting]; omega⟩, false)
  else
    (⟨s.counter - 1, s.waiting ++ [i], by
      rw [List.length_append, List.length_singleton, s.length_waiting]; omega⟩, true)

/-- Signal: the new semaphore, and the thread that wakes. -/
def signal : Semaphore ι → Semaphore ι × Option ι
  | ⟨c, [], h⟩ => (⟨c + 1, [], by rw [List.length_nil] at h ⊢; omega⟩, none)
  | ⟨c, i :: rest, h⟩ =>
      (⟨c + 1, rest, by rw [List.length_cons] at h; omega⟩, some i)

/-- Signal a binary semaphore, which is signalled once at most. -/
def signalBinary (s : Semaphore ι) : Semaphore ι × Option ι :=
  if s.counter < 1 then s.signal else (s, none)

/-- A positive counter lets a thread pass. -/
theorem wait_of_pos {s : Semaphore ι} (h : 0 < s.counter) (i : ι) :
  (s.wait i).1.counter = s.counter - 1 ∧ (s.wait i).2 = false
  := by
  rw [wait, dif_pos h]
  exact ⟨rfl, rfl⟩

/-- A counter that is not negative has no thread waiting, and signalling wakes none. -/
theorem signal_of_nonneg {s : Semaphore ι} (h : 0 ≤ s.counter) :
  s.signal.1.counter = s.counter + 1 ∧ s.signal.2 = none
  := by
  match s, h with
  | ⟨c, [], _⟩, _ => exact ⟨rfl, rfl⟩
  | ⟨c, i :: rest, hlen⟩, h =>
      simp only at h
      rw [List.length_cons] at hlen
      omega

/-- A thread waits for a counter that is not positive. -/
theorem wait_of_nonpos {s : Semaphore ι} (h : s.counter ≤ 0) (i : ι) :
  (s.wait i).1.counter = s.counter - 1 ∧ (s.wait i).2 = true
  := by
  rw [wait, dif_neg (by omega)]
  exact ⟨rfl, rfl⟩

/-- A negative counter has a thread waiting, and signalling wakes it. -/
theorem signal_of_neg {s : Semaphore ι} (h : s.counter < 0) :
  s.signal.1.counter = s.counter + 1 ∧ s.signal.2.isSome
  := by
  match s, h with
  | ⟨c, [], hlen⟩, h =>
      simp only at h
      rw [List.length_nil] at hlen
      omega
  | ⟨c, i :: rest, _⟩, _ => exact ⟨rfl, rfl⟩

end Semaphore

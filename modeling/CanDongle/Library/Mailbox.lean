import Mathlib.Data.List.Basic

/-!
# Bounded queues

A mailbox holds at most `n` messages, oldest first.  Posting to a full mailbox and fetching
from an empty one fail, and leave it as it was.
-/

/-- A queue of at most `n` messages. -/
structure Mailbox (n : ℕ) (α : Type*) where
  messages : List α
  length_le : messages.length ≤ n

namespace Mailbox

variable {n : ℕ} {α : Type*}

/-- The mailbox without messages. -/
def empty : Mailbox n α := ⟨[], Nat.zero_le n⟩

/-- Append a message, unless the mailbox is full. -/
def post (b : Mailbox n α) (x : α) : Option (Mailbox n α) :=
  if h : b.messages.length < n then
    some ⟨b.messages ++ [x], by rw [List.length_append]; exact h⟩
  else
    none

/-- Take the oldest message. -/
def fetch : Mailbox n α → Option (α × Mailbox n α)
  | ⟨[], _⟩ => none
  | ⟨x :: rest, h⟩ => some (x, ⟨rest, Nat.le_of_succ_le h⟩)

variable {b b' : Mailbox n α} {x : α}

theorem post_eq_some (h : b.post x = some b') :
  b.messages.length < n ∧ b'.messages = b.messages ++ [x]
  := by
  unfold post at h
  split at h
  · rename_i hlt
    cases h
    exact ⟨hlt, rfl⟩
  · cases h

theorem post_eq_none (h : b.post x = none) :
  b.messages.length = n
  := by
  unfold post at h
  split at h
  · cases h
  · rename_i hfull
    apply Nat.le_antisymm b.length_le (Nat.not_lt.mp hfull)

theorem fetch_eq_some (h : b.fetch = some (x, b')) :
  b.messages = x :: b'.messages
  := by
  match b, h with
  | ⟨y :: rest, _⟩, h =>
      cases h
      rfl

theorem fetch_eq_none (h : b.fetch = none) :
  b.messages = []
  := by
  match b, h with
  | ⟨[], _⟩, _ => rfl

end Mailbox

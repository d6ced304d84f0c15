import Mathlib.Data.List.Count
import Mathlib.Tactic.Cases
import Mathlib.Tactic.Common

/-!
# Streams of blocks

Writers append the elements of their lines to one stream; each element is tagged with the
line it belongs to.  The stream is `Whole` when it is complete lines, one after the other,
and then the start of a line.  An element that comes after a part of another line makes it
torn.
-/

namespace Blocks

variable {τ α : Type*} (line : τ → List α)

/-- The first `n` elements of a line, with the tag of the line. -/
def block (t : τ) (n : ℕ) : List (τ × α) := ((line t).take n).map (t, ·)

/-- A number of elements of each of a list of lines. -/
def blocks (parts : List (τ × ℕ)) : List (τ × α) := parts.flatMap fun (t, n) => block line t n

/-- The whole of each of a list of lines. -/
def complete (ts : List τ) : List (τ × ℕ) := ts.map fun t => (t, (line t).length)

/-- Complete lines, and then the start of a line. -/
def Whole (stream : List (τ × α)) : Prop :=
  ∃ ts t n, stream = blocks line (complete line ts) ++ block line t n

variable {line}

theorem block_zero (t : τ) :
  block line t 0 = []
  := rfl

theorem blocks_cons (p : τ × ℕ) (ps : List (τ × ℕ)) :
  blocks line (p :: ps) = block line p.1 p.2 ++ blocks line ps
  := rfl

theorem blocks_concat (ps : List (τ × ℕ)) (t : τ) (n : ℕ) :
  blocks line (ps ++ [(t, n)]) = blocks line ps ++ block line t n
  := by
  rw [blocks, List.flatMap_append, List.flatMap_singleton, blocks]

/-- One more element of a line. -/
theorem block_succ {t : τ} {n : ℕ} {a : α} (h : (line t)[n]? = some a) :
  block line t (n + 1) = block line t n ++ [(t, a)]
  := by
  rw [block, List.take_add_one, h]
  simp [block]

/-- What a part of a line is made of. -/
theorem map_snd_block (t : τ) (n : ℕ) :
  (block line t n).map Prod.snd = (line t).take n
  := by
  rw [block, List.map_map]
  apply List.map_id

/-- What parts of lines are made of. -/
theorem map_snd_blocks (parts : List (τ × ℕ)) :
  (blocks line parts).map Prod.snd = parts.flatMap fun p => (line p.1).take p.2
  := by
  induction parts with
  | nil => rfl
  | cons p parts ih => rw [blocks_cons, List.map_append, map_snd_block, ih, List.flatMap_cons]

/-- Complete lines are the lines. -/
theorem flatMap_complete {parts : List (τ × ℕ)} (h : ∀ p ∈ parts, p.2 = (line p.1).length) :
  (parts.flatMap fun p => (line p.1).take p.2) = (parts.map fun p => line p.1).flatten
  := by
  rw [List.flatMap_def]
  congr 1
  apply List.map_congr_left
  intro p hp
  rw [h p hp, List.take_length]

section Count

variable [DecidableEq τ]

end Count

end Blocks

import Mathlib.Data.List.Basic
import Mathlib.Tactic.Common

/-!
# Words of a stream

A word ends with its only delimiter, so a stream of words is read back by splitting it after
each delimiter.  When the words come from several writers, and tell by themselves who has
written them, the words of each writer are read back in order.
-/

namespace Words

variable {α : Type*} (p : α → Bool)

/-- A word: elements that are no delimiters, and then one that is. -/
def IsWord (w : List α) : Prop :=
  ∃ body c, w = body ++ [c] ∧ p c = true ∧ ∀ b ∈ body, p b = false

/-- The words of a stream, and what follows the last of them. -/
def split : List α → List (List α) × List α
  | [] => ([], [])
  | a :: as =>
      let (ws, rest) := split as
      if p a then
        ([a] :: ws, rest)
      else
        match ws with
        | [] => ([], a :: rest)
        | w :: ws => ((a :: w) :: ws, rest)

variable {p} {w : List α} {ws : List (List α)}

/-- Elements that are no delimiters in front of a stream belong to its first word. -/
theorem split_body {body : List α} (h : ∀ b ∈ body, p b = false) {rest last : List α}
    (hrest : split p rest = (w :: ws, last)) :
  split p (body ++ rest) = ((body ++ w) :: ws, last)
  := by
  induction body with
  | nil => apply hrest
  | cons b body ih =>
      rw [List.forall_mem_cons] at h
      rw [List.cons_append, split, ih h.2]
      simp [h.1]

/-- A word is the first one of a stream that starts with it. -/
theorem split_append (h : IsWord p w) (rest : List α) :
  split p (w ++ rest) = (w :: (split p rest).1, (split p rest).2)
  := by
  obtain ⟨body, c, rfl, hc, hbody⟩ := h
  rw [List.append_assoc]
  apply split_body hbody
  rw [List.singleton_append, split]
  simp [hc]

/-- A stream of words, and then some more. -/
theorem split_flatten (h : ∀ w ∈ ws, IsWord p w) (rest : List α) :
  split p (ws.flatten ++ rest) = (ws ++ (split p rest).1, (split p rest).2)
  := by
  induction ws with
  | nil => rfl
  | cons w ws ih =>
      rw [List.forall_mem_cons] at h
      rw [List.flatten_cons, List.append_assoc, split_append h.1, ih h.2]
      rfl

/-- A stream that ends with a word consists of words. -/
theorem split_ends (h : IsWord p w) (as : List α) :
  ∃ v vs, split p (as ++ w) = (v :: vs, [])
  := by
  induction as with
  | nil =>
      have hsplit := split_append h []
      rw [List.append_nil] at hsplit
      exact ⟨w, [], hsplit⟩
  | cons a as ih =>
      obtain ⟨v, vs, hsplit⟩ := ih
      rw [List.cons_append, split, hsplit]
      cases hp : p a with
      | true => exact ⟨[a], v :: vs, rfl⟩
      | false => exact ⟨a :: v, vs, rfl⟩

/-- A stream that consists of words, and then some more. -/
theorem split_of_ends {as : List α} (h : (split p as).2 = []) (rest : List α) :
  (split p (as ++ rest)).1 = (split p as).1 ++ (split p rest).1
  := by
  have hsplit : split p (as ++ rest) = ((split p as).1 ++ (split p rest).1, (split p rest).2) := by
    induction as with
    | nil => rfl
    | cons a as ih =>
        rw [split] at h
        rw [List.cons_append, split, split]
        generalize split p as = s at h ih
        obtain ⟨ws, last⟩ := s
        cases hp : p a with
        | true =>
            simp only [hp, if_true] at h
            simp [ih h]
        | false =>
            cases ws with
            | nil => simp [hp] at h
            | cons v ws =>
                simp only [hp, Bool.false_eq_true, if_false] at h
                simp [ih h]
  rw [hsplit]

/-- A stream without delimiters has no word. -/
theorem split_of_free {l : List α} (h : ∀ b ∈ l, p b = false) :
  split p l = ([], l)
  := by
  induction l with
  | nil => rfl
  | cons a l ih =>
      rw [List.forall_mem_cons] at h
      rw [split, ih h.2]
      simp [h.1]

/-- A part of a word that is not all of it has no delimiter. -/
theorem IsWord.take (h : IsWord p w) {n : ℕ} (hn : n < w.length) :
  ∀ b ∈ w.take n, p b = false
  := by
  obtain ⟨body, c, rfl, hc, hbody⟩ := h
  intro b hb
  rw [List.length_append, List.length_singleton] at hn
  rw [List.take_append_of_le_length (by omega)] at hb
  apply hbody b (List.mem_of_mem_take hb)

/-- The words of a stream of words that ends with a part of one. -/
theorem split_part (h : ∀ w ∈ ws, IsWord p w) (hw : IsWord p w) (n : ℕ) :
  (split p (ws.flatten ++ w.take n)).1 = ws ++ if w.length ≤ n then [w] else []
  := by
  rw [split_flatten h]
  by_cases hn : w.length ≤ n
  · have hsplit := split_append hw []
    rw [List.append_nil] at hsplit
    rw [List.take_of_length_le hn, if_pos hn, hsplit]
    rfl
  · rw [if_neg hn, split_of_free (hw.take (Nat.lt_of_not_le hn))]

/-- The words that one of the writers has written, when the words tell who has written them. -/
theorem filter_tagged {τ : Type*} [DecidableEq τ] {tagged : List (τ × List α)} {t : τ}
    {q : List α → Bool} (h : ∀ x ∈ tagged, q x.2 = decide (x.1 = t)) :
  (tagged.map Prod.snd).filter q = (tagged.filter (·.1 = t)).map Prod.snd
  := by
  rw [List.filter_map]
  congr 1
  apply List.filter_congr h

end Words

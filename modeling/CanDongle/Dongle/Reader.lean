import CanDongle.Thread

/-!
# Reading in pieces

The command thread reads one result of `chnGetTimeout` at a time.  What it does with a stream
of results is what it does with a part of it, and then with the rest from where it was left:
the line buffer, the index of the next character, and the state of the driver are all that
it remembers.
-/

open Buffer

namespace CanDongle

/-- One result of `chnGetTimeout` in `slcan_getline`: whether it ends a line, and the line buffer
and the index of the next character. -/
def LineReader.get (reader : LineReader) (c : ℤ) : Bool × LineReader :=
  if c = stmTimeout then
    (false, reader)
  else if IsTerminator c then
    (true, ⟨reader.lineBuffer.set reader.pos 0 reader.pos_lt, 0, lineBuffer_pos⟩)
  else if h : reader.pos + 1 < 500 then
    (false, ⟨reader.lineBuffer.set reader.pos (.ofInt c) reader.pos_lt, reader.pos + 1, h⟩)
  else
    (false, ⟨reader.lineBuffer.set reader.pos (.ofInt c) reader.pos_lt, 0, lineBuffer_pos⟩)

section Thread

variable {σ : Type} (drv : Driver σ) (version : Version)

/-- The thread executes the line that a result ends, and goes on with the next result. -/
theorem slcanThreadMain_cons (reader : LineReader) (c : ℤ) (rest : List ℤ) :
  slcanThreadMain drv version reader (c :: rest) =
    if (reader.get c).1 then do
      let line ← slcanDecodeLine drv version (reader.get c).2.lineBuffer
      let (later, waiting) ← slcanThreadMain drv version ⟨line, 0, lineBuffer_pos⟩ rest
      pure (line.text :: later, waiting)
    else
      slcanThreadMain drv version (reader.get c).2 rest
  := by
  unfold LineReader.get
  by_cases htimeout : c = stmTimeout
  · rw [if_pos htimeout, if_neg Bool.false_ne_true, htimeout]
    apply slcanThreadMain_timeout
  rw [if_neg htimeout]
  by_cases hc : IsTerminator c
  · rw [if_pos hc, if_pos rfl]
    apply slcanThreadMain_terminator drv version reader hc
  rw [if_neg hc]
  by_cases hnext : reader.pos + 1 < 500
  · rw [dif_pos hnext, if_neg Bool.false_ne_true]
    apply slcanThreadMain_byte drv version reader htimeout hc
  · have hpos := reader.pos_lt
    rw [dif_neg hnext, if_neg Bool.false_ne_true]
    apply slcanThreadMain_full drv version reader htimeout hc
    omega

theorem slcanThreadMain_nil (reader : LineReader) (s : σ) :
  slcanThreadMain drv version reader [] s = some (([], reader.lineBuffer, reader.pos), s)
  := by
  rw [slcanThreadMain_waiting drv version (slcanGetlineLoop_nil _ reader.pos_lt)]
  rfl

/-- After a part of the results, the thread goes on with the rest from where it was left. -/
theorem slcanThreadMain_append {reader : LineReader} {first : List ℤ} {s s' : σ}
    {written : List (List UInt8)} {buf : Line} {i : ℕ}
    (h : slcanThreadMain drv version reader first s = some ((written, buf, i), s')) :
  ∃ hi : i < 500, ∀ rest, slcanThreadMain drv version reader (first ++ rest) s =
    (slcanThreadMain drv version ⟨buf, i, hi⟩ rest s').map
      fun run => ((written ++ run.1.1, run.1.2), run.2)
  := by
  induction first generalizing reader s written with
  | nil =>
      rw [slcanThreadMain_nil] at h
      cases h
      use reader.pos_lt
      intro rest
      simp
  | cons c first ih =>
      rw [slcanThreadMain_cons] at h
      cases hget : (reader.get c).1 with
      | false =>
          rw [hget, if_neg Bool.false_ne_true] at h
          obtain ⟨hi, hrest⟩ := ih h
          use hi
          intro rest
          rw [List.cons_append, slcanThreadMain_cons, hget, if_neg Bool.false_ne_true]
          apply hrest
      | true =>
          rw [hget, if_pos rfl] at h
          obtain ⟨line, t, hline, h⟩ := exists_of_bind_eq_some h
          obtain ⟨⟨later, waiting⟩, t', hlater, h⟩ := exists_of_bind_eq_some h
          cases h
          obtain ⟨hi, hrest⟩ := ih hlater
          use hi
          intro rest
          rw [List.cons_append, slcanThreadMain_cons, hget, if_pos rfl, bind_of_eq_some hline]
          change (slcanThreadMain drv version _ (first ++ rest) t).bind _ = _
          rw [hrest, Option.bind_map]
          cases slcanThreadMain drv version ⟨buf, i, hi⟩ rest s' <;> rfl

end Thread

end CanDongle

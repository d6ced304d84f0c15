import CanDongle.Thread
import CanDongle.Library.Segments

/-!
# The assembly of lines

`slcanGetlines` is `slcan_getline` called again and again: the lines it returns, whatever
its caller leaves in the line buffer between two calls.  The stream received is what
`chnGetTimeout` returns without the timeouts.  Its segments between terminators become the
lines, each without the characters that were given up with a full buffer.
-/

open Buffer Segments

namespace CanDongle

/-- The loop of `slcan_getline`, with its writes to the line buffer checked. -/
def slcanGetlineChecked (lineBuffer : Line) (i : ℕ) (results : List ℤ) : Option GetlineResult :=
  if h : i < 500 then
    match results with
    | [] => some (.waiting lineBuffer i)
    | c :: rest =>
        if c = stmTimeout then
          some (.returned false ⟨lineBuffer, i, h⟩ rest)
        else if IsTerminator c then do
          let lineBuffer ← store lineBuffer i 0
          some (.returned true ⟨lineBuffer, 0, lineBuffer_pos⟩ rest)
        else do
          let lineBuffer ← store lineBuffer i (.ofInt c)
          slcanGetlineChecked lineBuffer (i + 1) rest
  else
    some (.returned false ⟨lineBuffer, 0, lineBuffer_pos⟩ results)

/-- No write leaves the line buffer. -/
theorem slcanGetlineChecked_eq (buf : Line) (i : ℕ) (results : List ℤ) :
  slcanGetlineChecked buf i results = some (slcanGetlineLoop buf i results)
  := by
  by_cases hi : i < 500
  · induction results generalizing buf i with
    | nil => rw [slcanGetlineChecked, dif_pos hi, slcanGetlineLoop_nil buf hi]
    | cons c results ih =>
        rw [slcanGetlineChecked, dif_pos hi]
        by_cases htimeout : c = stmTimeout
        · rw [htimeout, slcanGetlineLoop_timeout buf hi]
          apply if_pos rfl
        by_cases hc : IsTerminator c
        · rw [slcanGetlineLoop_terminator buf hi hc]
          simp [htimeout, hc, store_eq_some hi]
        rw [slcanGetlineLoop_byte buf hi htimeout hc]
        simp only [htimeout, hc, if_false, store_eq_some hi, Option.bind_eq_bind, Option.bind_some]
        by_cases hnext : i + 1 < 500
        · apply ih _ _ hnext
        · rw [slcanGetlineChecked, dif_neg hnext, slcanGetlineLoop_full _ hnext]
  · rw [slcanGetlineChecked, dif_neg hi, slcanGetlineLoop_full _ hi]

/-- A call that returns with checked writes has used a result. -/
theorem length_lt_of_slcanGetlineChecked {reader reader' : LineReader} {results rest : List ℤ}
    {found : Bool}
    (h : slcanGetlineChecked reader.lineBuffer reader.pos results
      = some (.returned found reader' rest)) :
  rest.length < results.length
  := by
  rw [slcanGetlineChecked_eq, Option.some.injEq] at h
  apply length_lt_of_slcanGetlineLoop h reader.pos_lt

/-- `slcan_getline`, called again and again.  The `n`th line it returns is followed by a call
with the line buffer `left n`, which its caller has left.  The result is the lines, and the
line buffer and the number of characters in it when the last call waits. -/
def slcanGetlines (left : ℕ → Line) (reader : LineReader) (results : List ℤ) :
    Option (List Line × Line × ℕ) :=
  match _h : slcanGetlineChecked reader.lineBuffer reader.pos results with
  | none => none
  | some (.waiting lineBuffer i) => some ([], lineBuffer, i)
  | some (.returned found reader' rest) =>
      if found then do
        let (lines, waiting) ← slcanGetlines (fun n => left (n + 1))
          { reader' with lineBuffer := left 0 } rest
        some (reader'.lineBuffer :: lines, waiting)
      else
        slcanGetlines left reader' rest
termination_by results.length
decreasing_by all_goals exact length_lt_of_slcanGetlineChecked _h

/-! ### One result at a time -/

section Results

variable (left : ℕ → Line) (reader : LineReader)

theorem slcanGetlines_waiting {reader : LineReader} {results : List ℤ} {buf : Line} {i : ℕ}
    (h : slcanGetline reader results = .waiting buf i) :
  slcanGetlines left reader results = some ([], buf, i)
  := by
  have hchecked := slcanGetlineChecked_eq reader.lineBuffer reader.pos results
  rw [← slcanGetline, h] at hchecked
  rw [slcanGetlines]
  split <;> rename_i h' <;> rw [hchecked] at h' <;> cases h'
  rfl

theorem slcanGetlines_returned {reader reader' : LineReader} {results rest : List ℤ} {found : Bool}
    (h : slcanGetline reader results = .returned found reader' rest) :
  slcanGetlines left reader results =
    if found then do
      let (lines, waiting) ← slcanGetlines (fun n => left (n + 1))
        { reader' with lineBuffer := left 0 } rest
      some (reader'.lineBuffer :: lines, waiting)
    else
      slcanGetlines left reader' rest
  := by
  have hchecked := slcanGetlineChecked_eq reader.lineBuffer reader.pos results
  rw [← slcanGetline, h] at hchecked
  rw [slcanGetlines]
  split <;> rename_i h' <;> rw [hchecked] at h' <;> cases h'
  rfl

/-- A timeout is ignored. -/
theorem slcanGetlines_timeout (rest : List ℤ) :
  slcanGetlines left reader (stmTimeout :: rest) = slcanGetlines left reader rest
  := by
  rw [slcanGetlines_returned left (slcanGetlineLoop_timeout _ reader.pos_lt rest)]
  rfl

/-- A terminator ends a line, and the next one starts in the buffer the caller leaves. -/
theorem slcanGetlines_terminator {c : ℤ} (hc : IsTerminator c) (rest : List ℤ) :
  slcanGetlines left reader (c :: rest) = (do
    let (lines, waiting) ← slcanGetlines (fun n => left (n + 1)) ⟨left 0, 0, lineBuffer_pos⟩ rest
    some (reader.lineBuffer.set reader.pos 0 reader.pos_lt :: lines, waiting))
  := by
  rw [slcanGetlines_returned left (slcanGetlineLoop_terminator _ reader.pos_lt hc rest)]
  rfl

/-- A result that is stored, and does not fill the buffer, is a character of the line. -/
theorem slcanGetlines_byte {c : ℤ} (hne : c ≠ stmTimeout) (hc : ¬ IsTerminator c)
    (hi : reader.pos + 1 < 500) (rest : List ℤ) :
  slcanGetlines left reader (c :: rest)
    = slcanGetlines left
        ⟨reader.lineBuffer.set reader.pos (.ofInt c) reader.pos_lt, reader.pos + 1, hi⟩ rest
  := by
  let next : LineReader :=
    ⟨reader.lineBuffer.set reader.pos (.ofInt c) reader.pos_lt, reader.pos + 1, hi⟩
  have hget : slcanGetline reader (c :: rest) = slcanGetline next rest :=
    slcanGetlineLoop_byte reader.lineBuffer reader.pos_lt hne hc rest
  cases h : slcanGetline next rest with
  | waiting buf i =>
      rw [slcanGetlines_waiting left (hget.trans h), slcanGetlines_waiting left h]
  | returned found reader' rest' =>
      rw [slcanGetlines_returned left (hget.trans h), slcanGetlines_returned left h]

/-- A result that fills the buffer is given up with it. -/
theorem slcanGetlines_full {c : ℤ} (hne : c ≠ stmTimeout) (hc : ¬ IsTerminator c)
    (hi : reader.pos + 1 = 500) (rest : List ℤ) :
  slcanGetlines left reader (c :: rest)
    = slcanGetlines left
        ⟨reader.lineBuffer.set reader.pos (.ofInt c) reader.pos_lt, 0, lineBuffer_pos⟩ rest
  := by
  have hget : slcanGetline reader (c :: rest) = .returned false
      ⟨reader.lineBuffer.set reader.pos (.ofInt c) reader.pos_lt, 0, lineBuffer_pos⟩ rest :=
    (slcanGetlineLoop_byte reader.lineBuffer reader.pos_lt hne hc rest).trans
      (slcanGetlineLoop_full _ (by omega) rest)
  rw [slcanGetlines_returned left hget]
  rfl

end Results

/-! ### The whole stream -/

/-- What is received: the results without the timeouts. -/
def received (results : List ℤ) : List ℤ := results.filter (· ≠ stmTimeout)

/-- The segments of the stream that is received, as the characters they are stored as. -/
def storedSegments (results : List ℤ) : List (List UInt8) :=
  ((received results).splitOnP fun c => IsTerminator c).map fun segment => segment.map .ofInt

/-- No result but NUL is stored as the character NUL. -/
def NoStoredNul (results : List ℤ) : Prop :=
  ∀ c ∈ results, UInt8.ofInt c = 0 → IsTerminator c

theorem storedSegments_timeout (rest : List ℤ) :
  storedSegments (stmTimeout :: rest) = storedSegments rest
  := by
  simp [storedSegments, received]

theorem storedSegments_terminator {c : ℤ} (hc : IsTerminator c) (rest : List ℤ) :
  storedSegments (c :: rest) = [] :: storedSegments rest
  := by
  have hne : c ≠ stmTimeout := by
    rintro rfl
    apply not_isTerminator_stmTimeout hc
  rw [storedSegments, received, List.filter_cons_of_pos (by simpa using hne),
    splitOnP_cons_pos (by simpa using hc)]
  rfl

theorem storedSegments_byte {c : ℤ} (hne : c ≠ stmTimeout) (hc : ¬ IsTerminator c)
    (rest : List ℤ) :
  storedSegments (c :: rest) = (storedSegments rest).modifyHead (UInt8.ofInt c :: ·)
  := by
  obtain ⟨v, vs, h⟩ :=
    List.exists_cons_of_ne_nil (List.splitOnP_ne_nil (fun c => IsTerminator c) (received rest))
  rw [storedSegments, received, List.filter_cons_of_pos (by simpa using hne), ← received,
    splitOnP_cons_neg (by simpa using hc) h, storedSegments, h]
  rfl

/-- The characters a reader holds. -/
def LineReader.held (reader : LineReader) : List UInt8 := reader.lineBuffer.toList.take reader.pos

theorem LineReader.length_held (reader : LineReader) :
  reader.held.length = reader.pos
  := by
  have hpos := reader.pos_lt
  rw [held, List.length_take, Vector.length_toList]
  omega

/-- An empty buffer holds nothing of the first segment. -/
theorem LineReader.modifyHead_empty (buf : Line) (segments : List (List UInt8)) :
  segments.modifyHead (LineReader.held ⟨buf, 0, lineBuffer_pos⟩ ++ ·) = segments
  := by
  cases segments <;> rfl

/-- A stored character is held after those before it. -/
theorem LineReader.held_set (reader : LineReader) (c : UInt8) :
  (reader.lineBuffer.set reader.pos c reader.pos_lt).toList.take (reader.pos + 1)
    = reader.held ++ [c]
  := by
  have hpos : reader.pos < (reader.lineBuffer.toList.set reader.pos c).length := by
    simpa using reader.pos_lt
  rw [Vector.toList_set, List.take_succ_eq_append_getElem hpos, List.take_set_of_le (Nat.le_refl _)]
  simp [held]

/-- The line that a terminator ends is what the reader holds. -/
theorem LineReader.text_set (reader : LineReader) (h : ∀ c ∈ reader.held, c ≠ 0) :
  Line.text (reader.lineBuffer.set reader.pos 0 reader.pos_lt) = reader.held
  := by
  have hsplit := List.take_append_drop (reader.pos + 1)
    (reader.lineBuffer.set reader.pos 0 reader.pos_lt).toList
  rw [reader.held_set, List.append_assoc] at hsplit
  apply text_eq hsplit.symm h

/-- What a reader holds is what its buffer keeps of it. -/
theorem LineReader.kept_held (reader : LineReader) :
  kept 500 reader.held = reader.held
  := by
  apply kept_of_lt
  rw [length_held]
  apply reader.pos_lt

/-- The lines, and the characters that are held when the last call waits, are what the line
buffer keeps of the segments of the stream, of which the first starts with the characters that
were held before. -/
theorem slcanGetlines_eq (left : ℕ → Line) (reader : LineReader) {results : List ℤ}
    (hnul : NoStoredNul results) (hheld : ∀ c ∈ reader.held, c ≠ 0) :
  ∃ lines buf i, slcanGetlines left reader results = some (lines, buf, i) ∧
    lines.map Line.text ++ [buf.toList.take i]
      = ((storedSegments results).modifyHead (reader.held ++ ·)).map (kept 500)
  := by
  induction results generalizing left reader with
  | nil =>
      use [], reader.lineBuffer, reader.pos
      constructor
      · apply slcanGetlines_waiting left (slcanGetlineLoop_nil _ reader.pos_lt)
      · have hkept := reader.kept_held
        rw [LineReader.held] at hkept
        simp [storedSegments, received, LineReader.held, hkept]
  | cons c rest ih =>
      have hnul' : NoStoredNul rest := fun c hc => hnul c (by simp [hc])
      by_cases htimeout : c = stmTimeout
      · rw [htimeout, slcanGetlines_timeout, storedSegments_timeout]
        apply ih left reader hnul' hheld
      by_cases hc : IsTerminator c
      · obtain ⟨lines, buf, i, hlines, heq⟩ := ih (fun n => left (n + 1))
          ⟨left 0, 0, lineBuffer_pos⟩ hnul' (by simp [LineReader.held])
        use reader.lineBuffer.set reader.pos 0 reader.pos_lt :: lines, buf, i
        constructor
        · rw [slcanGetlines_terminator left reader hc, hlines]
          rfl
        · rw [storedSegments_terminator hc, List.map_cons, List.cons_append, heq,
            reader.text_set hheld, LineReader.modifyHead_empty, List.modifyHead_cons,
            List.append_nil, List.map_cons, reader.kept_held]
      have hc0 : UInt8.ofInt c ≠ 0 := fun h => hc (hnul c (by simp) h)
      have hstored : (storedSegments (c :: rest)).modifyHead (reader.held ++ ·)
          = (storedSegments rest).modifyHead (reader.held ++ [.ofInt c] ++ ·) := by
        rw [storedSegments_byte htimeout hc, List.modifyHead_modifyHead]
        congr 1
        funext w
        simp
      rw [hstored]
      by_cases hnext : reader.pos + 1 < 500
      · have hset := reader.held_set (.ofInt c)
        obtain ⟨lines, buf, i, hlines, heq⟩ := ih left
          ⟨reader.lineBuffer.set reader.pos (.ofInt c) reader.pos_lt, reader.pos + 1, hnext⟩ hnul'
          (by
            rw [LineReader.held, hset]
            simpa [or_imp, forall_and] using ⟨hheld, hc0⟩)
        use lines, buf, i
        rw [slcanGetlines_byte left reader htimeout hc hnext, heq, LineReader.held, hset]
        exact ⟨hlines, rfl⟩
      · obtain ⟨lines, buf, i, hlines, heq⟩ := ih left
          ⟨reader.lineBuffer.set reader.pos (.ofInt c) reader.pos_lt, 0, lineBuffer_pos⟩ hnul'
          (by simp [LineReader.held])
        have hpos := reader.pos_lt
        use lines, buf, i
        rw [slcanGetlines_full left reader htimeout hc (by omega), heq,
          LineReader.modifyHead_empty, map_kept_modifyHead lineBuffer_pos]
        · exact ⟨hlines, rfl⟩
        · rw [List.length_append, reader.length_held, List.length_singleton]
          omega

/-- From boot, the lines and the characters that are held are what the line buffer keeps of the
segments of the stream. -/
theorem slcanGetlines_init (left : ℕ → Line) {results : List ℤ} (hnul : NoStoredNul results) :
  ∃ lines buf i, slcanGetlines left .init results = some (lines, buf, i) ∧
    lines.map Line.text ++ [buf.toList.take i] = (storedSegments results).map (kept 500)
  := by
  obtain ⟨lines, buf, i, hlines, heq⟩ := slcanGetlines_eq left .init hnul
    (by simp [LineReader.init, LineReader.held])
  use lines, buf, i, hlines
  rw [heq, LineReader.init, LineReader.modifyHead_empty]

/-! ### Bytes -/

/-- The segments of a stream of bytes: the last one is not ended by a terminator. -/
def segments (stream : List UInt8) : List (List UInt8) :=
  stream.splitOnP fun b => IsTerminator (b.toNat : ℤ)

theorem noStoredNul_of_received {results : List ℤ}
    (h : ∀ c ∈ received results, UInt8.ofInt c = 0 → IsTerminator c) :
  NoStoredNul results
  := by
  intro c hc h0
  apply h c _ h0
  rw [received, List.mem_filter]
  use hc
  rw [decide_eq_true_iff]
  rintro rfl
  revert h0
  decide

theorem noStoredNul_of_delivered {results : List ℤ} {stream : List UInt8}
    (h : received results = delivered stream) :
  NoStoredNul results
  := by
  apply noStoredNul_of_received
  rw [h, delivered]
  simp only [List.mem_map]
  rintro _ ⟨b, -, rfl⟩ h0
  rw [ofInt_toNat] at h0
  subst h0
  decide

theorem storedSegments_of_delivered {results : List ℤ} {stream : List UInt8}
    (h : received results = delivered stream) :
  storedSegments results = segments stream
  := by
  rw [storedSegments, h, delivered, splitOnP_map, List.map_map]
  have hbytes : (fun segment : List ℤ => segment.map UInt8.ofInt)
      ∘ List.map (fun b : UInt8 => (b.toNat : ℤ)) = id := by
    funext w
    simp [Function.comp_def, ofInt_toNat]
  rw [hbytes, List.map_id]
  rfl

/-- With runs of at most 499 bytes between terminators, the lines and the characters that are
held are the segments of the stream, whatever the timeouts between the bytes, and no write
leaves the line buffer. -/
theorem slcanGetlines_stream (left : ℕ → Line) (results : List ℤ) (stream : List UInt8)
    (hstream : received results = delivered stream)
    (hruns : ∀ w, w <:+: stream → (∀ b ∈ w, ¬ IsTerminator (b.toNat : ℤ)) → w.length ≤ 499) :
  ∃ lines buf i, slcanGetlines left .init results = some (lines, buf, i) ∧
    lines.map Line.text ++ [buf.toList.take i] = segments stream
  := by
  obtain ⟨lines, buf, i, hlines, heq⟩ :=
    slcanGetlines_init left (noStoredNul_of_delivered hstream)
  use lines, buf, i, hlines
  rw [heq, storedSegments_of_delivered hstream, map_kept_eq_self_iff lineBuffer_pos]
  intro w hw
  obtain ⟨hpart, hfree⟩ := infix_of_mem_splitOnP hw
  apply Nat.lt_succ_of_le (hruns w hpart _)
  simpa using hfree

/-- The line `O` and the start of another, with timeouts between the bytes. -/
theorem slcanGetlines_stream_open :
  ∃ lines buf i,
    slcanGetlines (fun _ => zeroLine) .init [-1, 79, -1, 13, 86] = some (lines, buf, i) ∧
    lines.map Line.text ++ [buf.toList.take i] = segments [79, 13, 86]
  := by
  apply slcanGetlines_stream _ _ _ (by decide)
  intro w hw _
  apply hw.length_le.trans
  decide

/-- The segments of a stream of bytes that a terminator ends. -/
def completeSegments (stream : List UInt8) : List (List UInt8) := (segments stream).dropLast

/-- Every line that is returned is one of the segments that a terminator ends, each of them
once and in order. -/
def ReturnsComplete (left : ℕ → Line) (results : List ℤ) (stream : List UInt8) : Prop :=
  ∃ lines buf i, slcanGetlines left .init results = some (lines, buf, i) ∧
    List.Sublist (lines.map Line.text) (completeSegments stream)

/-- The lines that are returned are what the line buffer keeps of the complete segments. -/
theorem slcanGetlines_complete (left : ℕ → Line) {results : List ℤ} (hnul : NoStoredNul results) :
  ∃ lines buf i, slcanGetlines left .init results = some (lines, buf, i) ∧
    lines.map Line.text = (storedSegments results).dropLast.map (kept 500)
  := by
  obtain ⟨lines, buf, i, hlines, heq⟩ := slcanGetlines_init left hnul
  use lines, buf, i, hlines
  rw [List.map_dropLast, ← heq, List.dropLast_concat]

theorem returnsComplete_iff_kept (left : ℕ → Line) {results : List ℤ} {stream : List UInt8}
    (hstream : received results = delivered stream) :
  ReturnsComplete left results stream
    ↔ List.Sublist ((completeSegments stream).map (kept 500)) (completeSegments stream)
  := by
  obtain ⟨lines, buf, i, hlines, heq⟩ :=
    slcanGetlines_complete left (noStoredNul_of_delivered hstream)
  rw [storedSegments_of_delivered hstream, ← completeSegments] at heq
  rw [← heq, ReturnsComplete, hlines]
  simp

/-- Every line returned is a complete segment of the stream exactly when none of these has 500
characters or more. -/
theorem returnsComplete_iff (left : ℕ → Line) (results : List ℤ) (stream : List UInt8)
    (hstream : received results = delivered stream) :
  ReturnsComplete left results stream ↔ ∀ w ∈ completeSegments stream, w.length < 500
  := by
  rw [returnsComplete_iff_kept left hstream, map_kept_sublist_iff lineBuffer_pos]

/-- A line and its terminator are one segment. -/
theorem completeSegments_line {w : List UInt8} (hw : ∀ b ∈ w, ¬ IsTerminator (b.toNat : ℤ)) :
  completeSegments (w ++ [13]) = [w]
  := by
  rw [completeSegments, segments, List.splitOnP_append_cons_of_forall_mem]
  · rfl
  · simpa using hw
  · decide

/-- A line of `n` characters, sent with its terminator. -/
def filledLine (n : ℕ) : List UInt8 := List.replicate n 120 ++ [13]

theorem completeSegments_filledLine (n : ℕ) :
  completeSegments (filledLine n) = [List.replicate n 120]
  := by
  apply completeSegments_line
  intro b hb
  rw [List.eq_of_mem_replicate hb]
  decide

/-- A line of 499 characters is returned as it is, and one of 500 is not. -/
theorem returnsComplete_iff_boundary :
  ReturnsComplete (fun _ => zeroLine) (delivered (filledLine 499)) (filledLine 499) ∧
    ¬ ReturnsComplete (fun _ => zeroLine) (delivered (filledLine 500)) (filledLine 500)
  := by
  rw [returnsComplete_iff _ _ _ (filter_delivered _), returnsComplete_iff _ _ _
    (filter_delivered _), completeSegments_filledLine, completeSegments_filledLine,
    List.forall_mem_singleton, List.forall_mem_singleton, List.length_replicate,
    List.length_replicate]
  decide

/-- A line of 501 characters that ends with `O`. -/
def overlongLine : List UInt8 := List.replicate 500 120 ++ [79]

theorem completeSegments_overlongLine :
  completeSegments (overlongLine ++ [13]) = [overlongLine]
  := by
  apply completeSegments_line
  intro b hb
  rw [overlongLine, List.mem_append, List.mem_replicate, List.mem_singleton] at hb
  rcases hb with ⟨-, rfl⟩ | rfl <;> decide

/-- The end of an overlong line is returned as a line. -/
theorem overlongLine_not_returnsComplete :
  ¬ ReturnsComplete (fun _ => zeroLine) (delivered (overlongLine ++ [13])) (overlongLine ++ [13])
  := by
  have hkept : kept 500 overlongLine = [79] := by
    rw [overlongLine, kept_append lineBuffer_pos List.length_replicate]
    decide
  rw [returnsComplete_iff_kept _ (filter_delivered _), completeSegments_overlongLine,
    List.map_singleton, hkept, List.singleton_sublist, List.mem_singleton]
  intro h
  have hlen := congrArg List.length h
  rw [overlongLine, List.length_append, List.length_replicate] at hlen
  exact absurd hlen (by decide)

/-! ### Resets -/

/-- `STM_RESET`. -/
def stmReset : ℤ := -2

/-- What the channel delivers, apart from timeouts: a byte, or that its queue was reset. -/
inductive Delivery where
  | byte (b : UInt8)
  | reset
  deriving DecidableEq, Repr

/-- The result of `chnGetTimeout`. -/
def Delivery.result : Delivery → ℤ
  | .byte b => b.toNat
  | .reset => stmReset

/-- The character that `slcan_getline` stores. -/
def Delivery.stored : Delivery → UInt8
  | .byte b => b
  | .reset => 0xfe

/-- The bytes among what is delivered. -/
def bytesOf (deliveries : List Delivery) : List UInt8 :=
  deliveries.filterMap fun
    | .byte b => some b
    | .reset => none

/-- The segments that a terminator ends, of what is delivered. -/
def completeDeliveries (stream : List Delivery) : List (List Delivery) :=
  (stream.splitOnP fun d => IsTerminator d.result).dropLast

/-- A line is made of bytes that were delivered, and is what was delivered after a reset. -/
def AsSent (line : List UInt8) (segment : List Delivery) : Prop :=
  List.Sublist line (bytesOf segment) ∧
    ∀ before after, segment = before ++ .reset :: after → .reset ∉ after → line = bytesOf after

/-- Each line that is returned is as it was sent. -/
def ReturnsAsSent (left : ℕ → Line) (results : List ℤ) (stream : List Delivery) : Prop :=
  ∃ lines buf i, slcanGetlines left .init results = some (lines, buf, i) ∧
    List.Forall₂ AsSent (lines.map Line.text) (completeDeliveries stream)

/-- A segment without a reset, or whose last reset fills the line buffer, which what follows
does not fill. -/
def ResetForgotten (segment : List Delivery) : Prop :=
  ∀ before after, segment = before ++ .reset :: after → .reset ∉ after →
    (before.length + 1) % 500 = 0 ∧ after.length < 500

theorem bytesOf_append (u v : List Delivery) :
  bytesOf (u ++ v) = bytesOf u ++ bytesOf v
  := List.filterMap_append

/-- Without resets, what is stored is the bytes. -/
theorem map_stored {deliveries : List Delivery} (h : .reset ∉ deliveries) :
  deliveries.map Delivery.stored = bytesOf deliveries
  := by
  induction deliveries with
  | nil => rfl
  | cons d ds ih =>
      rw [List.mem_cons, not_or] at h
      cases d with
      | byte b => rw [List.map_cons, ih h.2]; rfl
      | reset => exact absurd rfl h.1

/-- A segment with a reset has a last one. -/
theorem exists_last_reset {segment : List Delivery} (h : .reset ∈ segment) :
  ∃ before after, segment = before ++ .reset :: after ∧ .reset ∉ after
  := by
  obtain ⟨after, before, heq, hafter⟩ := List.eq_append_cons_of_mem (List.mem_reverse.mpr h)
  use before.reverse, after.reverse
  rw [← List.reverse_inj, heq]
  simpa using hafter

/-- What the line buffer keeps of a segment is what was sent after its last reset exactly when
the buffer is given up with that reset, and not again. -/
theorem kept_eq_bytesOf_iff {before after : List Delivery} (h : .reset ∉ after) :
  kept 500 ((before ++ .reset :: after).map Delivery.stored) = bytesOf after
    ↔ (before.length + 1) % 500 = 0 ∧ after.length < 500
  := by
  have hdrop : ((before ++ .reset :: after).map Delivery.stored).drop (before.length + 1)
      = bytesOf after := by
    rw [← map_stored h, ← List.map_drop, ← List.singleton_append, ← List.append_assoc]
    congr 1
    apply List.drop_left'
    simp
  have hlen : ((before ++ .reset :: after).map Delivery.stored).length
      = before.length + 1 + after.length := by
    simp
    omega
  rw [← hdrop, kept_eq_drop lineBuffer_pos (by omega), hlen, Nat.add_sub_cancel_left]

theorem asSent_kept_iff (segment : List Delivery) :
  AsSent (kept 500 (segment.map Delivery.stored)) segment ↔ ResetForgotten segment
  := by
  constructor
  · rintro ⟨-, hreset⟩ before after rfl hafter
    rw [← kept_eq_bytesOf_iff hafter]
    apply hreset before after rfl hafter
  · intro h
    have hreset : ∀ before after, segment = before ++ .reset :: after → .reset ∉ after →
        kept 500 (segment.map Delivery.stored) = bytesOf after := by
      rintro before after rfl hafter
      rw [kept_eq_bytesOf_iff hafter]
      apply h before after rfl hafter
    refine ⟨?_, hreset⟩
    by_cases hmem : Delivery.reset ∈ segment
    · obtain ⟨before, after, heq, hafter⟩ := exists_last_reset hmem
      rw [hreset before after heq hafter, heq, bytesOf_append]
      apply List.Sublist.trans _ (List.sublist_append_right _ _)
      apply List.Sublist.refl
    · rw [map_stored hmem]
      apply List.drop_sublist

theorem ofInt_result (d : Delivery) :
  UInt8.ofInt d.result = d.stored
  := by
  cases d with
  | byte b => apply ofInt_toNat
  | reset => rfl

theorem noStoredNul_of_deliveries {results : List ℤ} {stream : List Delivery}
    (h : received results = stream.map Delivery.result) :
  NoStoredNul results
  := by
  apply noStoredNul_of_received
  rw [h]
  simp only [List.mem_map]
  rintro _ ⟨d, -, rfl⟩ h0
  rw [ofInt_result] at h0
  cases d with
  | byte b =>
      obtain rfl : b = 0 := h0
      decide
  | reset => exact absurd h0 (by decide)

theorem dropLast_storedSegments {results : List ℤ} {stream : List Delivery}
    (h : received results = stream.map Delivery.result) :
  (storedSegments results).dropLast
    = (completeDeliveries stream).map fun segment => segment.map Delivery.stored
  := by
  rw [storedSegments, h, splitOnP_map, List.map_map, completeDeliveries, List.map_dropLast]
  congr 2
  funext segment
  simp [Function.comp_def, ofInt_result]

theorem returnsAsSent_iff_forall (left : ℕ → Line) {results : List ℤ} {stream : List Delivery}
    (h : received results = stream.map Delivery.result) :
  ReturnsAsSent left results stream ↔ ∀ segment ∈ completeDeliveries stream,
    AsSent (kept 500 (segment.map Delivery.stored)) segment
  := by
  obtain ⟨lines, buf, i, hlines, heq⟩ :=
    slcanGetlines_complete left (noStoredNul_of_deliveries h)
  rw [dropLast_storedSegments h, List.map_map] at heq
  rw [ReturnsAsSent, hlines]
  simp only [Option.some.injEq, Prod.mk.injEq, ↓existsAndEq, true_and]
  rw [heq, List.forall₂_map_left_iff, List.forall₂_same]
  rfl

/-- The lines are as they were sent exactly when each reset is forgotten with a full buffer. -/
theorem returnsAsSent_iff (left : ℕ → Line) (results : List ℤ) (stream : List Delivery)
    (h : received results = stream.map Delivery.result) :
  ReturnsAsSent left results stream ↔ ∀ segment ∈ completeDeliveries stream, ResetForgotten segment
  := by
  rw [returnsAsSent_iff_forall left h]
  simp only [asSent_kept_iff]

/-- What is delivered is no timeout. -/
theorem received_deliveries (stream : List Delivery) :
  received (stream.map Delivery.result) = stream.map Delivery.result
  := by
  apply List.filter_eq_self.mpr
  rw [List.forall_mem_map]
  intro d _
  cases d with
  | byte b =>
      have hne : (b.toNat : ℤ) ≠ stmTimeout := by
        unfold stmTimeout
        omega
      exact decide_eq_true hne
  | reset => decide

/-- 499 characters, a reset that fills the line buffer, and the command `C`. -/
def fillingReset : List Delivery := List.replicate 499 (.byte 120) ++ .reset :: [.byte 67]

theorem completeDeliveries_fillingReset :
  completeDeliveries (fillingReset ++ [Delivery.byte 13]) = [fillingReset]
  := by
  rw [completeDeliveries, List.splitOnP_append_cons_of_forall_mem]
  · rfl
  · intro d hd
    rw [fillingReset, List.mem_append, List.mem_replicate, List.mem_cons, List.mem_singleton] at hd
    rcases hd with ⟨-, rfl⟩ | rfl | rfl <;> decide
  · decide

/-- The reset is given up with the buffer, and the command is returned as it was sent. -/
theorem returnsAsSent_iff_fillingReset :
  ReturnsAsSent (fun _ => zeroLine) ((fillingReset ++ [Delivery.byte 13]).map Delivery.result)
    (fillingReset ++ [Delivery.byte 13])
  := by
  rw [returnsAsSent_iff _ _ _ (received_deliveries _), completeDeliveries_fillingReset]
  intro segment hsegment before after heq hafter
  obtain rfl := List.mem_singleton.mp hsegment
  have hbefore : Delivery.reset ∉ List.replicate 499 (Delivery.byte 120) := by
    rw [List.mem_replicate]
    rintro ⟨-, ⟨⟩⟩
  rw [fillingReset, List.append_cons_inj_of_notMem hbefore (by decide)] at heq
  obtain ⟨rfl, -, rfl⟩ := heq
  rw [List.length_replicate]
  decide

/-- A reset before the command `C` becomes a character of its line. -/
theorem resetClose_not_returnsAsSent :
  ¬ ReturnsAsSent (fun _ => zeroLine) [-2, 67, 13] [.reset, .byte 67, .byte 13]
  := by
  rw [returnsAsSent_iff_forall _ (by decide)]
  intro h
  have hsent := h [.reset, .byte 67] (by decide)
  have hline := hsent.2 [] [.byte 67] rfl (by decide)
  revert hline
  decide

/-! ### The lines that are executed -/

/-- The command thread executes the lines that `slcan_getline` returns, in order, and writes a
reply for each: what it leaves in the line buffer is what the command has written there. -/
theorem slcanThreadMain_lines {σ : Type} (drv : Driver σ) (version : Version) (reader : LineReader)
    {results : List ℤ} {written : List (List UInt8)} {waiting : Line × ℕ} {s s' : σ}
    (h : slcanThreadMain drv version reader results s = some ((written, waiting), s')) :
  ∃ left lines, slcanGetlines left reader results = some (lines, waiting) ∧
    List.Forall₂ (fun line reply => ∃ t line' t',
      slcanDecodeLine drv version line t = some (line', t') ∧ line'.text = reply) lines written
  := by
  induction results generalizing reader written s with
  | nil =>
      rw [slcanThreadMain_waiting drv version (slcanGetlineLoop_nil _ reader.pos_lt)] at h
      cases h
      refine ⟨fun _ => zeroLine, [], ?_, .nil⟩
      apply slcanGetlines_waiting _ (slcanGetlineLoop_nil _ reader.pos_lt)
  | cons c rest ih =>
      by_cases htimeout : c = stmTimeout
      · subst htimeout
        rw [slcanThreadMain_timeout] at h
        obtain ⟨left, lines, hlines, hreplies⟩ := ih reader h
        use left, lines
        rw [slcanGetlines_timeout]
        exact ⟨hlines, hreplies⟩
      by_cases hc : IsTerminator c
      · rw [slcanThreadMain_terminator drv version reader hc] at h
        obtain ⟨line, t, hline, h⟩ := exists_of_bind_eq_some h
        obtain ⟨⟨later, waiting'⟩, t', hlater, h⟩ := exists_of_bind_eq_some h
        cases h
        obtain ⟨left, lines, hlines, hreplies⟩ := ih ⟨line, 0, lineBuffer_pos⟩ hlater
        refine ⟨fun n => n.casesOn line left,
          reader.lineBuffer.set reader.pos 0 reader.pos_lt :: lines, ?_,
          .cons ⟨s, line, t, hline, rfl⟩ hreplies⟩
        rw [slcanGetlines_terminator _ reader hc]
        change (slcanGetlines left ⟨line, 0, lineBuffer_pos⟩ rest).bind _ = _
        rw [hlines]
        rfl
      by_cases hnext : reader.pos + 1 < 500
      · rw [slcanThreadMain_byte drv version reader htimeout hc hnext] at h
        obtain ⟨left, lines, hlines, hreplies⟩ := ih _ h
        use left, lines
        rw [slcanGetlines_byte left reader htimeout hc hnext]
        exact ⟨hlines, hreplies⟩
      · have hpos := reader.pos_lt
        rw [slcanThreadMain_full drv version reader htimeout hc (by omega)] at h
        obtain ⟨left, lines, hlines, hreplies⟩ := ih _ h
        use left, lines
        rw [slcanGetlines_full left reader htimeout hc (by omega)]
        exact ⟨hlines, hreplies⟩

end CanDongle

import CanDongle.Command

/-!
# The command thread

`slcanGetline` of `slcan_thread.c` assembles a line from the results of `chnGetTimeout`,
`slcanSpin` executes it, and `slcanThreadMain` repeats that for ever.  The results are
given by a list of integers, a byte or a negative code; at the end of the list the thread
waits for more, inside of `slcanGetline`.

The thread is described one result at a time, and from there one line at a time.
-/

open Buffer

namespace CanDongle

/-- `STM_TIMEOUT`. -/
def stmTimeout : ℤ := -1

/-- The results that end a line: LF, CR and NUL. -/
def IsTerminator (c : ℤ) : Prop := c = 10 ∨ c = 13 ∨ c = 0

instance (c : ℤ) : Decidable (IsTerminator c) :=
  inferInstanceAs (Decidable (_ ∨ _ ∨ _))

theorem lineBuffer_pos :
  0 < 500
  := by decide

/-- The static variables of `slcan_getline`. -/
structure LineReader where
  lineBuffer : Line
  pos : ℕ
  pos_lt : pos < 500

/-- The reader before its first call. -/
def LineReader.init : LineReader := ⟨zeroLine, 0, lineBuffer_pos⟩

/-- How a call of `slcan_getline` ends: it waits for a result with `i` characters in the
buffer, or returns, with a line or with NULL, and leaves the results `rest`. -/
inductive GetlineResult where
  | waiting (lineBuffer : Line) (i : ℕ)
  | returned (found : Bool) (reader : LineReader) (rest : List ℤ)

/-- The loop of `slcan_getline` from `i` on. -/
def slcanGetlineLoop (lineBuffer : Line) (i : ℕ) (results : List ℤ) : GetlineResult :=
  if h : i < 500 then
    match results with
    | [] => .waiting lineBuffer i
    | c :: rest =>
        if c = stmTimeout then
          .returned false ⟨lineBuffer, i, h⟩ rest
        else if IsTerminator c then
          .returned true ⟨lineBuffer.set i 0, 0, lineBuffer_pos⟩ rest
        else
          slcanGetlineLoop (lineBuffer.set i (.ofInt c)) (i + 1) rest
  else
    .returned false ⟨lineBuffer, 0, lineBuffer_pos⟩ results

/-- `slcan_getline`. -/
def slcanGetline (reader : LineReader) (results : List ℤ) : GetlineResult :=
  slcanGetlineLoop reader.lineBuffer reader.pos results

theorem not_isTerminator_stmTimeout :
  ¬ IsTerminator stmTimeout
  := by decide

theorem slcanGetlineLoop_nil (buf : Line) {i : ℕ} (hi : i < 500) :
  slcanGetlineLoop buf i [] = .waiting buf i
  := by
  simp [slcanGetlineLoop, hi]

/-- A timeout ends the call, and keeps the characters received so far. -/
theorem slcanGetlineLoop_timeout (buf : Line) {i : ℕ} (hi : i < 500) (rest : List ℤ) :
  slcanGetlineLoop buf i (stmTimeout :: rest) = .returned false ⟨buf, i, hi⟩ rest
  := by
  rw [slcanGetlineLoop, dif_pos hi]
  apply if_pos rfl

/-- A terminator ends the line. -/
theorem slcanGetlineLoop_terminator (buf : Line) {i : ℕ} (hi : i < 500) {c : ℤ}
    (hc : IsTerminator c) (rest : List ℤ) :
  slcanGetlineLoop buf i (c :: rest) = .returned true ⟨buf.set i 0, 0, lineBuffer_pos⟩ rest
  := by
  have hne : c ≠ stmTimeout := by
    rintro rfl
    apply not_isTerminator_stmTimeout hc
  rw [slcanGetlineLoop, dif_pos hi]
  exact (if_neg hne).trans (if_pos hc)

/-- Any other result is stored, and the loop goes on. -/
theorem slcanGetlineLoop_byte (buf : Line) {i : ℕ} (hi : i < 500) {c : ℤ} (hne : c ≠ stmTimeout)
    (hc : ¬ IsTerminator c) (rest : List ℤ) :
  slcanGetlineLoop buf i (c :: rest) = slcanGetlineLoop (buf.set i (.ofInt c)) (i + 1) rest
  := by
  rw [slcanGetlineLoop, dif_pos hi]
  exact (if_neg hne).trans (if_neg hc)

/-- A full buffer is given up. -/
theorem slcanGetlineLoop_full (buf : Line) {i : ℕ} (hi : ¬ i < 500) (results : List ℤ) :
  slcanGetlineLoop buf i results = .returned false ⟨buf, 0, lineBuffer_pos⟩ results
  := by
  rw [slcanGetlineLoop, dif_neg hi]

/-- A call that returns has used a result. -/
theorem length_lt_of_slcanGetlineLoop {buf : Line} {i : ℕ} {results : List ℤ} {found : Bool}
    {reader : LineReader} {rest : List ℤ}
    (h : slcanGetlineLoop buf i results = .returned found reader rest) (hi : i < 500) :
  rest.length < results.length
  := by
  induction results generalizing buf i with
  | nil =>
      rw [slcanGetlineLoop_nil buf hi] at h
      cases h
  | cons c results ih =>
      rw [List.length_cons]
      by_cases hc : IsTerminator c
      · rw [slcanGetlineLoop_terminator buf hi hc] at h
        cases h
        apply Nat.lt_succ_self
      by_cases htimeout : c = stmTimeout
      · rw [htimeout, slcanGetlineLoop_timeout buf hi] at h
        cases h
        apply Nat.lt_succ_self
      rw [slcanGetlineLoop_byte buf hi htimeout hc] at h
      by_cases hnext : i + 1 < 500
      · apply Nat.lt_succ_of_lt (ih h hnext)
      · rw [slcanGetlineLoop_full _ hnext] at h
        cases h
        apply Nat.lt_succ_self

section Spin

variable {σ : Type} (drv : Driver σ) (version : Version)

/-- `slcan_spin` once `slcan_getline` has returned: a line is executed, and its reply is the
buffer passed to `slcan_serial_write`. -/
def slcanExecute (found : Bool) (reader : LineReader) :
    StateT σ Option (List (List UInt8) × LineReader) := do
  if found then
    let line ← slcanDecodeLine drv version reader.lineBuffer
    pure ([line.text], { reader with lineBuffer := line })
  else
    pure ([], reader)

/-- `slcan_thread_main`: the buffers passed to `slcan_serial_write`, and the line buffer and
the number of characters in it when the thread waits for a result. -/
def slcanThreadMain (reader : LineReader) (results : List ℤ) :
    StateT σ Option (List (List UInt8) × Line × ℕ) :=
  match _h : slcanGetline reader results with
  | .waiting lineBuffer i => pure ([], lineBuffer, i)
  | .returned found reader' rest => do
      let (written, next) ← slcanExecute drv version found reader'
      let (later, waiting) ← slcanThreadMain next rest
      pure (written ++ later, waiting)
termination_by results.length
decreasing_by exact length_lt_of_slcanGetlineLoop _h reader.pos_lt

/-! ### One result at a time -/

theorem slcanThreadMain_waiting {reader : LineReader} {results : List ℤ} {buf : Line} {i : ℕ}
    (h : slcanGetline reader results = .waiting buf i) :
  slcanThreadMain drv version reader results = pure ([], buf, i)
  := by
  rw [slcanThreadMain]
  split
  · rename_i h'
    rw [h] at h'
    cases h'
    rfl
  · rename_i h'
    rw [h] at h'
    cases h'

theorem slcanThreadMain_returned {reader reader' : LineReader} {results rest : List ℤ}
    {found : Bool} (h : slcanGetline reader results = .returned found reader' rest) :
  slcanThreadMain drv version reader results = (do
    let (written, next) ← slcanExecute drv version found reader'
    let (later, waiting) ← slcanThreadMain drv version next rest
    pure (written ++ later, waiting))
  := by
  rw [slcanThreadMain]
  split
  · rename_i h'
    rw [h] at h'
    cases h'
  · rename_i h'
    rw [h] at h'
    cases h'
    rfl

/-- A timeout is ignored. -/
theorem slcanThreadMain_timeout (reader : LineReader) (rest : List ℤ) :
  slcanThreadMain drv version reader (stmTimeout :: rest)
    = slcanThreadMain drv version reader rest
  := by
  rw [slcanThreadMain_returned drv version (slcanGetlineLoop_timeout _ reader.pos_lt rest)]
  simp [slcanExecute]

/-- A byte that ends no line, and does not fill the buffer, is stored. -/
theorem slcanThreadMain_byte (reader : LineReader) {c : ℤ} (hne : c ≠ stmTimeout)
    (hc : ¬ IsTerminator c) (hi : reader.pos + 1 < 500) (rest : List ℤ) :
  slcanThreadMain drv version reader (c :: rest)
    = slcanThreadMain drv version
        ⟨reader.lineBuffer.set reader.pos (.ofInt c) reader.pos_lt, reader.pos + 1, hi⟩ rest
  := by
  let next : LineReader :=
    ⟨reader.lineBuffer.set reader.pos (.ofInt c) reader.pos_lt, reader.pos + 1, hi⟩
  have hget : slcanGetline reader (c :: rest) = slcanGetline next rest :=
    slcanGetlineLoop_byte reader.lineBuffer reader.pos_lt hne hc rest
  cases h : slcanGetline next rest with
  | waiting buf i =>
      rw [slcanThreadMain_waiting drv version (hget.trans h), slcanThreadMain_waiting drv version h]
  | returned found reader' rest' =>
      rw [slcanThreadMain_returned drv version (hget.trans h),
        slcanThreadMain_returned drv version h]

/-- A byte that fills the buffer is given up with it. -/
theorem slcanThreadMain_full (reader : LineReader) {c : ℤ} (hne : c ≠ stmTimeout)
    (hc : ¬ IsTerminator c) (hi : reader.pos + 1 = 500) (rest : List ℤ) :
  slcanThreadMain drv version reader (c :: rest)
    = slcanThreadMain drv version
        ⟨reader.lineBuffer.set reader.pos (.ofInt c) reader.pos_lt, 0, lineBuffer_pos⟩ rest
  := by
  have hget : slcanGetline reader (c :: rest) = .returned false
      ⟨reader.lineBuffer.set reader.pos (.ofInt c) reader.pos_lt, 0, lineBuffer_pos⟩ rest :=
    (slcanGetlineLoop_byte reader.lineBuffer reader.pos_lt hne hc rest).trans
      (slcanGetlineLoop_full _ (by omega) rest)
  rw [slcanThreadMain_returned drv version hget]
  simp [slcanExecute]

/-- A terminator executes the line before it, and its reply is written. -/
theorem slcanThreadMain_terminator (reader : LineReader) {c : ℤ} (hc : IsTerminator c)
    (rest : List ℤ) :
  slcanThreadMain drv version reader (c :: rest) = (do
    let line ← slcanDecodeLine drv version (reader.lineBuffer.set reader.pos 0 reader.pos_lt)
    let (later, waiting) ← slcanThreadMain drv version ⟨line, 0, lineBuffer_pos⟩ rest
    pure (line.text :: later, waiting))
  := by
  rw [slcanThreadMain_returned drv version (slcanGetlineLoop_terminator _ reader.pos_lt hc rest)]
  simp [slcanExecute]

/-! ### One line at a time -/

/-- The results that deliver bytes, one after the other. -/
def delivered (w : List UInt8) : List ℤ := w.map fun b => (b.toNat : ℤ)

theorem ofInt_toNat (b : UInt8) :
  UInt8.ofInt (b.toNat : ℤ) = b
  := by
  have hlt := b.toNat_lt
  have hmod : ((b.toNat : ℤ) % 2 ^ 8).toNat = b.toNat := by omega
  rw [UInt8.ofInt, hmod, UInt8.ofNat_toNat]

theorem toNat_ne_stmTimeout (b : UInt8) :
  (b.toNat : ℤ) ≠ stmTimeout
  := by
  unfold stmTimeout
  omega

/-- Bytes that are delivered are no timeouts. -/
theorem filter_delivered (w : List UInt8) :
  (delivered w).filter (· ≠ stmTimeout) = delivered w
  := by
  apply List.filter_eq_self.mpr
  simp only [delivered, List.mem_map]
  rintro _ ⟨b, -, rfl⟩
  simpa using toNat_ne_stmTimeout b

/-- Timeouts alone change nothing. -/
theorem slcanThreadMain_timeouts (reader : LineReader) {xs : List ℤ}
    (h : xs.filter (· ≠ stmTimeout) = []) :
  slcanThreadMain drv version reader xs = pure ([], reader.lineBuffer, reader.pos)
  := by
  induction xs with
  | nil => apply slcanThreadMain_waiting drv version (slcanGetlineLoop_nil _ reader.pos_lt)
  | cons c xs ih =>
      have hc : c = stmTimeout := by
        have := List.filter_eq_nil_iff.mp h c (by simp)
        simpa using this
      subst hc
      rw [slcanThreadMain_timeout]
      apply ih
      simpa using h

/-- Bytes that end no line, with timeouts between them, are stored one after the other. -/
theorem slcanThreadMain_bytes (reader : LineReader) {xs : List ℤ} {w : List UInt8}
    (hxs : xs.filter (· ≠ stmTimeout) = delivered w)
    (hw : ∀ b ∈ w, ¬ IsTerminator (b.toNat : ℤ)) (hlen : reader.pos + w.length < 500) :
  ∃ buf, storeAll reader.lineBuffer reader.pos w = some buf ∧ ∀ rest,
    slcanThreadMain drv version reader (xs ++ rest)
      = slcanThreadMain drv version ⟨buf, reader.pos + w.length, hlen⟩ rest
  := by
  induction xs generalizing reader w with
  | nil =>
      obtain rfl : w = [] := by simpa [delivered] using hxs.symm
      exact ⟨reader.lineBuffer, rfl, fun _ => rfl⟩
  | cons c xs ih =>
      by_cases htimeout : c = stmTimeout
      · subst htimeout
        obtain ⟨buf, hbuf, hrest⟩ := ih reader (w := w) (by simpa using hxs) hw hlen
        refine ⟨buf, hbuf, fun rest => ?_⟩
        rw [List.cons_append, slcanThreadMain_timeout, hrest]
      · cases w with
        | nil => simp [delivered, htimeout] at hxs
        | cons b w =>
            rw [List.filter_cons_of_pos (by simpa using htimeout), delivered, List.map_cons,
              List.cons.injEq] at hxs
            obtain ⟨rfl, hxs⟩ := hxs
            rw [List.length_cons] at hlen
            have hb := slcanThreadMain_byte drv version reader htimeout (hw b (by simp)) (by omega)
            obtain ⟨buf, hbuf, hrest⟩ := ih
              ⟨reader.lineBuffer.set reader.pos b reader.pos_lt, reader.pos + 1, by omega⟩ hxs
              (fun b' hb' => hw b' (by simp [hb'])) (by simp only; omega)
            refine ⟨buf, ?_, fun rest => ?_⟩
            · rw [storeAll, store_eq_some reader.pos_lt]
              apply hbuf
            · rw [List.cons_append, hb, ofInt_toNat, hrest]
              simp only [List.length_cons, Nat.add_assoc, Nat.add_comm 1]

/-- A line of bytes, with timeouts between them, and its terminator are executed in a buffer
that holds the line, a NUL, and what was in the buffer after it. -/
theorem slcanThreadMain_line (reader : LineReader) (hpos : reader.pos = 0) {xs : List ℤ}
    {w : List UInt8} (hxs : xs.filter (· ≠ stmTimeout) = delivered w)
    (hw : ∀ b ∈ w, ¬ IsTerminator (b.toNat : ℤ)) (hlen : w.length < 500) {c : ℤ}
    (hc : IsTerminator c) :
  ∃ line : Line, line.toList = w ++ 0 :: reader.lineBuffer.toList.drop (w.length + 1) ∧ ∀ rest,
    slcanThreadMain drv version reader (xs ++ c :: rest) = (do
      let line ← slcanDecodeLine drv version line
      let (later, waiting) ← slcanThreadMain drv version ⟨line, 0, lineBuffer_pos⟩ rest
      pure (line.text :: later, waiting))
  := by
  obtain ⟨buf, hbuf, hrest⟩ := slcanThreadMain_bytes drv version reader hxs hw (by omega)
  obtain ⟨buf', hbuf', hlist⟩ := storeAll_eq_some reader.lineBuffer reader.pos w (by omega)
  obtain rfl : buf' = buf := Option.some.inj (hbuf'.symm.trans hbuf)
  refine ⟨buf'.set (reader.pos + w.length) 0 (by omega), ?_, fun rest => ?_⟩
  · have hdrop : w.length < reader.lineBuffer.toList.length := by simpa using hlen
    rw [Vector.toList_set, hlist, hpos, List.drop_eq_getElem_cons (by simpa using hlen)]
    simp
  · rw [hrest, slcanThreadMain_terminator drv version _ hc]

/-- When a line is executed and the thread then returns, its reply is the first that is
written. -/
theorem slcanThreadMain_reply {line line' : Line} {rest : List ℤ} {later : List (List UInt8)}
    {waiting : Line × ℕ} {s s' s'' : σ}
    (hrun : slcanDecodeLine drv version line s = some (line', s'))
    (hrest : slcanThreadMain drv version ⟨line', 0, lineBuffer_pos⟩ rest s'
      = some ((later, waiting), s'')) :
  (do
    let line ← slcanDecodeLine drv version line
    let (later, waiting) ← slcanThreadMain drv version ⟨line, 0, lineBuffer_pos⟩ rest
    pure (line.text :: later, waiting)) s
      = some ((line'.text :: later, waiting), s'')
  := by
  rw [bind_of_eq_some hrun, bind_of_eq_some hrest]
  rfl

end Spin

end CanDongle

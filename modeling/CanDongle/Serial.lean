import CanDongle.Command
import CanDongle.Reception
import CanDongle.Library.Blocks
import CanDongle.Library.Transition

/-!
# The serial channel

The command thread writes replies and the receiver thread writes the lines of frames, both
by `slcan_serial_write`, to one channel.  The mutex `serial_lock` is held during one call of
`chnWriteTimeout`, which may return before everything is written.

A byte in the output is tagged with the call of `chnWriteTimeout` that has written it.  The
tags, and the list of the calls that have returned, are not read by any thread.
-/

open Transition Blocks

namespace CanDongle

/-- The threads that write to the channel. -/
inductive Writer where
  | command
  | receiver
  deriving DecidableEq, Repr

/-- A call of `chnWriteTimeout`: its number, and the bytes it is to write. -/
structure WriteCall where
  number : ℕ
  buf : List UInt8
  deriving DecidableEq, Repr

/-- Where a thread is in `slcan_serial_write`. -/
inductive WriterPoint where
  /-- Outside of it. -/
  | idle
  /-- `chMtxLock`. -/
  | locking (buf : List UInt8)
  /-- `chnWriteTimeout`, with `n` bytes written. -/
  | writing (call : WriteCall) (n : ℕ)
  /-- `chMtxUnlock`. -/
  | unlocking
  deriving DecidableEq, Repr

/-- The state of the channel and of the threads that write to it. -/
structure Serial where
  serialLock : Option Writer
  command : WriterPoint
  receiver : WriterPoint
  /-- The bytes written to the channel. -/
  output : List (WriteCall × UInt8)
  /-- The calls of `chnWriteTimeout` that have returned, and what they have returned. -/
  returned : List (WriteCall × ℕ)
  deriving DecidableEq, Repr

/-- What a thread does. -/
inductive WriteAction where
  /-- `slcan_spin` has executed a line, and calls `slcan_serial_write`. -/
  | slcanSpin (line : Line)
  /-- `slcan_rx_spin` has a frame, and calls `slcan_serial_write`. -/
  | slcanRxSpin (rxf : CanFrame)
  /-- `chMtxLock` returns. -/
  | chMtxLock (w : Writer)
  /-- `chnWriteTimeout` writes a byte. -/
  | putByte (w : Writer)
  /-- `chnWriteTimeout` returns, with everything written or after a timeout. -/
  | writeReturns (w : Writer)
  /-- `chMtxUnlock`, after which the result of `slcan_serial_write` is discarded. -/
  | chMtxUnlock (w : Writer)

namespace Serial

/-- Where a thread is. -/
def point (s : Serial) : Writer → WriterPoint
  | .command => s.command
  | .receiver => s.receiver

/-- Move a thread. -/
def goto (s : Serial) (p : WriterPoint) : Writer → Serial
  | .command => { s with command := p }
  | .receiver => { s with receiver := p }

/-- The start of `slcan_serial_write`. -/
def slcanSerialWrite (s : Serial) (w : Writer) (buf : List UInt8) : Option Serial :=
  if s.point w = .idle then
    if buf.length = 0 then some s else some (s.goto (.locking buf) w)
  else
    none

/-- Take an action. -/
def step (s : Serial) : WriteAction → Option Serial
  | .slcanSpin line => s.slcanSerialWrite .command line.text
  | .slcanRxSpin rxf => do s.slcanSerialWrite .receiver (← slcanRxLine rxf)
  | .chMtxLock w =>
      match s.point w, s.serialLock with
      | .locking buf, none =>
          some ({ s with serialLock := some w }.goto (.writing ⟨s.returned.length, buf⟩ 0) w)
      | _, _ => none
  | .putByte w =>
      match s.point w with
      | .writing call n => do
          let b ← call.buf[n]?
          some ({ s with output := s.output ++ [(call, b)] }.goto (.writing call (n + 1)) w)
      | _ => none
  | .writeReturns w =>
      match s.point w with
      | .writing call n => some ({ s with returned := s.returned ++ [(call, n)] }.goto .unlocking w)
      | _ => none
  | .chMtxUnlock w =>
      match s.point w with
      | .unlocking => some ({ s with serialLock := none }.goto .idle w)
      | _ => none

/-- Before the threads have written anything. -/
def init : Serial where
  serialLock := none
  command := .idle
  receiver := .idle
  output := []
  returned := []

/-- The output is complete replies and lines, and then the start of one. -/
def LinesWhole (s : Serial) : Prop := Whole WriteCall.buf s.output

@[simp]
theorem point_goto_self (s : Serial) (p : WriterPoint) (w : Writer) :
  (s.goto p w).point w = p
  := by
  cases w <;> rfl

theorem point_goto_of_ne (s : Serial) (p : WriterPoint) {w w' : Writer} (h : w' ≠ w) :
  (s.goto p w).point w' = s.point w'
  := by
  cases w <;> cases w' <;> first | rfl | exact absurd rfl h

@[simp]
theorem goto_output (s : Serial) (p : WriterPoint) (w : Writer) :
  (s.goto p w).output = s.output
  := by
  cases w <;> rfl

@[simp]
theorem goto_returned (s : Serial) (p : WriterPoint) (w : Writer) :
  (s.goto p w).returned = s.returned
  := by
  cases w <;> rfl

@[simp]
theorem goto_serialLock (s : Serial) (p : WriterPoint) (w : Writer) :
  (s.goto p w).serialLock = s.serialLock
  := by
  cases w <;> rfl

theorem point_lock (s : Serial) (lock : Option Writer) (w : Writer) :
  Serial.point { s with serialLock := lock } w = s.point w
  := by
  cases w <;> rfl

theorem point_output (s : Serial) (output : List (WriteCall × UInt8)) (w : Writer) :
  Serial.point { s with output := output } w = s.point w
  := by
  cases w <;> rfl

theorem point_returned (s : Serial) (returned : List (WriteCall × ℕ)) (w : Writer) :
  Serial.point { s with returned := returned } w = s.point w
  := by
  cases w <;> rfl

/-! ### The invariant -/

/-- The mutex is held at this point. -/
def HoldsLock : WriterPoint → Prop
  | .writing _ _ => True
  | .unlocking => True
  | _ => False

/-- The thread that holds the mutex is its owner, and the output is what the calls that have
returned and the one that has not have written. -/
structure Inv (s : Serial) : Prop where
  owner : ∀ w, HoldsLock (s.point w) → s.serialLock = some w
  numbers : s.returned.map (fun r => r.1.number) = List.range s.returned.length
  le_length : ∀ r ∈ s.returned, r.2 ≤ r.1.buf.length
  writing : ∀ w call n, s.point w = .writing call n →
    call.number = s.returned.length ∧ n ≤ call.buf.length ∧
      s.output = blocks WriteCall.buf s.returned ++ block WriteCall.buf call n
  resting : (∀ w call n, s.point w ≠ .writing call n) →
    s.output = blocks WriteCall.buf s.returned
  whole : s.LinesWhole

variable {s s' : Serial} {w w' : Writer}

theorem inv_init :
  Inv init
  := by
  refine ⟨?_, rfl, by simp [init], ?_, fun _ => rfl, ⟨[], ⟨0, []⟩, 0, rfl⟩⟩
  · intro w hw
    cases w <;> exact hw.elim
  · intro w call n hw
    cases w <;> cases hw

/-- At most one thread holds the mutex. -/
theorem Inv.exclusive (h : Inv s) (hw : HoldsLock (s.point w)) (hw' : HoldsLock (s.point w')) :
  w' = w
  := by
  apply Option.some.inj
  rw [← h.owner w hw, ← h.owner w' hw']

/-- While a thread is in `chnWriteTimeout`, no other thread holds the mutex. -/
theorem Inv.not_holdsLock (h : Inv s) {call : WriteCall} {n : ℕ}
    (hpoint : s.point w = .writing call n) (hne : w' ≠ w) :
  ¬ HoldsLock (s.point w')
  := by
  intro hw'
  apply hne (h.exclusive _ hw')
  rw [hpoint]
  trivial

theorem Inv.owner_writing (h : Inv s) {call : WriteCall} {n : ℕ}
    (hpoint : s.point w = .writing call n) :
  s.serialLock = some w
  := by
  apply h.owner
  rw [hpoint]
  trivial

/-- Moving a thread outside of `chnWriteTimeout`, with the mutex taken or released on the way. -/
theorem Inv.goto (h : Inv s) (lock : Option Writer) {p : WriterPoint}
    (hp : ∀ call n, p ≠ .writing call n) (hw : ∀ call n, s.point w ≠ .writing call n)
    (howner : ∀ w', HoldsLock (({ s with serialLock := lock }.goto p w).point w') →
      lock = some w') :
  Inv ({ s with serialLock := lock }.goto p w)
  := by
  have hpoint : ∀ w' call n, ({ s with serialLock := lock }.goto p w).point w' = .writing call n
      ↔ s.point w' = .writing call n := by
    intro w' call n
    by_cases hww : w' = w
    · subst hww
      rw [point_goto_self]
      exact ⟨fun heq => absurd heq (hp call n), fun heq => absurd heq (hw call n)⟩
    · rw [point_goto_of_ne _ _ hww, point_lock]
  refine ⟨?_, ?_, ?_, ?_, ?_, ?_⟩
  · intro w' hw'
    rw [goto_serialLock]
    apply howner w' hw'
  · simpa using h.numbers
  · simpa using h.le_length
  · intro w' call n heq
    rw [goto_output, goto_returned]
    apply h.writing w' call n ((hpoint w' call n).mp heq)
  · intro hnone
    rw [goto_output, goto_returned]
    apply h.resting
    intro w' call n heq
    apply hnone w' call n ((hpoint w' call n).mpr heq)
  · rw [LinesWhole, goto_output]
    apply h.whole

theorem Inv.slcanSerialWrite (h : Inv s) {buf : List UInt8}
    (hstep : s.slcanSerialWrite w buf = some s') :
  Inv s'
  := by
  unfold Serial.slcanSerialWrite at hstep
  split at hstep
  case isTrue hidle =>
    split at hstep
    · cases hstep
      apply h
    · cases hstep
      apply h.goto s.serialLock
      · simp
      · simp [hidle]
      · intro w' hw'
        by_cases hww : w' = w
        · subst hww
          rw [point_goto_self] at hw'
          exact hw'.elim
        · rw [point_goto_of_ne _ _ hww] at hw'
          apply h.owner w' hw'
  case isFalse => cases hstep

/-- The mutex is taken when no thread holds it, so nothing is being written. -/
theorem Inv.chMtxLock (h : Inv s) (hstep : s.step (.chMtxLock w) = some s') :
  Inv s'
  := by
  simp only [step] at hstep
  split at hstep
  case h_1 buf hpoint hlock =>
    cases hstep
    have hfree : ∀ w', ¬ HoldsLock (s.point w') := by
      intro w' hw'
      rw [h.owner w' hw'] at hlock
      cases hlock
    have houtput : s.output = blocks WriteCall.buf s.returned := by
      apply h.resting
      intro w' call n hw'
      apply hfree w'
      rw [hw']
      trivial
    refine ⟨?_, ?_, ?_, ?_, ?_, ?_⟩
    · intro w' hw'
      by_cases hww : w' = w
      · rw [goto_serialLock, hww]
      · rw [point_goto_of_ne _ _ hww, point_lock] at hw'
        exact absurd hw' (hfree w')
    · simpa using h.numbers
    · simpa using h.le_length
    · intro w' call n hw'
      by_cases hww : w' = w
      · subst hww
        rw [point_goto_self] at hw'
        cases hw'
        simp [houtput, block_zero]
      · rw [point_goto_of_ne _ _ hww, point_lock] at hw'
        exact absurd (by rw [hw']; trivial) (hfree w')
    · intro hnone
      exact absurd (point_goto_self _ _ w) (hnone w _ _)
    · rw [LinesWhole, goto_output]
      apply h.whole
  case h_2 => cases hstep

theorem exists_of_putByte (hstep : s.step (.putByte w) = some s') :
  ∃ call n b, s.point w = .writing call n ∧ call.buf[n]? = some b ∧
    s' = { s with output := s.output ++ [(call, b)] }.goto (.writing call (n + 1)) w
  := by
  simp only [step] at hstep
  split at hstep
  case h_1 call n hpoint =>
    obtain ⟨b, hb, heq⟩ := Option.bind_eq_some_iff.mp hstep
    exact ⟨call, n, b, hpoint, hb, (Option.some.inj heq).symm⟩
  case h_2 => cases hstep

/-- The calls that have returned are different calls. -/
theorem Inv.nodup (h : Inv s) :
  (s.returned.map Prod.fst).Nodup
  := by
  apply List.Nodup.of_map WriteCall.number
  have hnumbers := h.numbers
  rw [List.map_map, Function.comp_def, hnumbers]
  apply List.nodup_range

theorem Inv.putByte (h : Inv s) (hstep : s.step (.putByte w) = some s') (hwhole : s'.LinesWhole) :
  Inv s'
  := by
  obtain ⟨call, n, b, hpoint, hb, rfl⟩ := exists_of_putByte hstep
  obtain ⟨hnumber, hle, houtput⟩ := h.writing w call n hpoint
  refine ⟨?_, ?_, ?_, ?_, ?_, hwhole⟩
  · intro w' hw'
    by_cases hww : w' = w
    · rw [goto_serialLock, hww]
      apply h.owner_writing hpoint
    · rw [point_goto_of_ne _ _ hww, point_output] at hw'
      exact absurd hw' (h.not_holdsLock hpoint hww)
  · simpa using h.numbers
  · simpa using h.le_length
  · intro w' call' n' hw'
    by_cases hww : w' = w
    · subst hww
      rw [point_goto_self] at hw'
      cases hw'
      rw [goto_returned, goto_output, houtput, List.append_assoc, ← block_succ hb]
      exact ⟨hnumber, (List.getElem?_eq_some_iff.mp hb).1, rfl⟩
    · rw [point_goto_of_ne _ _ hww, point_output] at hw'
      exact absurd (by rw [hw']; trivial) (h.not_holdsLock hpoint hww)
  · intro hnone
    exact absurd (point_goto_self _ _ w) (hnone w _ _)

/-- A call that returns is the last that has returned. -/
theorem Inv.writeReturns (h : Inv s) (hstep : s.step (.writeReturns w) = some s') :
  Inv s'
  := by
  simp only [step] at hstep
  split at hstep
  case h_1 call n hpoint =>
    cases hstep
    obtain ⟨hnumber, hle, houtput⟩ := h.writing w call n hpoint
    have hpoint' : ∀ w' p, w' ≠ w → Serial.point ({ s with
        returned := s.returned ++ [(call, n)] }.goto .unlocking w) w' = p → ¬ HoldsLock p := by
      intro w' p hww heq
      rw [point_goto_of_ne _ _ hww, point_returned] at heq
      rw [← heq]
      apply h.not_holdsLock hpoint hww
    refine ⟨?_, ?_, ?_, ?_, ?_, ?_⟩
    · intro w' hw'
      by_cases hww : w' = w
      · rw [goto_serialLock, hww]
        apply h.owner_writing hpoint
      · exact absurd hw' (hpoint' w' _ hww rfl)
    · simp [h.numbers, hnumber, List.range_succ]
    · rw [goto_returned, List.forall_mem_append, List.forall_mem_singleton]
      exact ⟨h.le_length, hle⟩
    · intro w' call' n' hw'
      by_cases hww : w' = w
      · subst hww
        rw [point_goto_self] at hw'
        cases hw'
      · exact absurd trivial (hpoint' w' _ hww hw')
    · intro _
      rw [goto_output, goto_returned, blocks_concat]
      apply houtput
    · rw [LinesWhole, goto_output]
      apply h.whole
  case h_2 => cases hstep

theorem Inv.chMtxUnlock (h : Inv s) (hstep : s.step (.chMtxUnlock w) = some s') :
  Inv s'
  := by
  simp only [step] at hstep
  split at hstep
  case h_1 hpoint =>
    cases hstep
    have hholds : HoldsLock (s.point w) := by simp [hpoint, HoldsLock]
    apply h.goto none
    · simp
    · simp [hpoint]
    · intro w' hw'
      by_cases hww : w' = w
      · subst hww
        rw [point_goto_self] at hw'
        exact hw'.elim
      · rw [point_goto_of_ne _ _ hww, point_lock] at hw'
        exact absurd (h.exclusive hholds hw') hww
  case h_2 => cases hstep

/-- A step after which the output is whole keeps the invariant. -/
theorem inv_step {a : WriteAction} (h : Inv s) (hstep : s.step a = some s')
    (hwhole : s'.LinesWhole) :
  Inv s'
  := by
  cases a with
  | slcanSpin line => apply h.slcanSerialWrite hstep
  | slcanRxSpin rxf =>
      obtain ⟨buf, -, hstep⟩ := Option.bind_eq_some_iff.mp hstep
      apply h.slcanSerialWrite hstep
  | chMtxLock w => apply h.chMtxLock hstep
  | putByte w => apply h.putByte hstep hwhole
  | writeReturns w => apply h.writeReturns hstep
  | chMtxUnlock w => apply h.chMtxUnlock hstep

/-- A frame without data. -/
def emptyFrame : CanFrame := ⟨0, 0x100, false, false, 0, Vector.replicate 8 0⟩

end Serial

end CanDongle

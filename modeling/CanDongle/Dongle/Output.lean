import CanDongle.Dongle.Cases
import CanDongle.Library.Words
import CanDongle.Pipeline.Content

/-!
# What is written to the host

Every buffer that a thread passes to `slcan_serial_write` is written by a call of
`chnWriteTimeout`, in the order in which the thread has passed them, and what is written to
the channel is the parts that these calls have written.
-/

open Transition Blocks

namespace CanDongle

/-- The buffer of a thread in `slcan_serial_write` that has not been written yet. -/
def WriterPoint.inHand : WriterPoint → List (List UInt8)
  | .locking buf => [buf]
  | .writing call _ => [call.buf]
  | .idle | .unlocking => []

/-- What a call of `chnWriteTimeout` has written. -/
def WriteCall.part (r : WriteCall × ℕ) : List UInt8 := r.1.buf.take r.2

/-- A call of `chnWriteTimeout` that has not returned, and what it has written. -/
def WriterPoint.current : WriterPoint → List (WriteCall × ℕ)
  | .writing call n => [(call, n)]
  | _ => []

/-- The thread that takes a step. -/
def WriteAction.writer : WriteAction → Writer
  | .slcanSpin _ => .command
  | .slcanRxSpin _ => .receiver
  | .chMtxLock w | .putByte w | .writeReturns w | .chMtxUnlock w => w

namespace Serial

variable {s s' : Serial} {w : Writer} {buf : List UInt8} {a : WriteAction}

/-- What `slcan_serial_write` does with a buffer: nothing when it is empty. -/
theorem slcanSerialWrite_eq_some (h : s.slcanSerialWrite w buf = some s') :
  s.point w = .idle ∧ (buf = [] ∧ s' = s ∨ buf ≠ [] ∧ s' = s.goto (.locking buf) w)
  := by
  unfold slcanSerialWrite at h
  split at h
  case isTrue hidle =>
    use hidle
    split at h
    case isTrue hlen => exact .inl ⟨List.eq_nil_of_length_eq_zero hlen, (Option.some.inj h).symm⟩
    case isFalse hlen =>
      exact .inr ⟨fun hnil => hlen (congrArg List.length hnil), (Option.some.inj h).symm⟩
  case isFalse => cases h

/-- A buffer that is passed to `slcan_serial_write` is in hand, unless it is empty. -/
theorem inHand_slcanSerialWrite (h : s.slcanSerialWrite w buf = some s') (w' : Writer) :
  (s'.point w').inHand
    = (s.point w').inHand ++ if w' = w then [buf].filter (· ≠ []) else []
  := by
  obtain ⟨hidle, ⟨rfl, rfl⟩ | ⟨hne, rfl⟩⟩ := slcanSerialWrite_eq_some h
  · simp
  · by_cases hw : w' = w
    · subst hw
      simp [hidle, hne, WriterPoint.inHand]
    · simp [hw, point_goto_of_ne _ _ hw]

theorem returned_slcanSerialWrite (h : s.slcanSerialWrite w buf = some s') :
  s'.returned = s.returned
  := by
  obtain ⟨-, ⟨-, rfl⟩ | ⟨-, rfl⟩⟩ := slcanSerialWrite_eq_some h
  · rfl
  · apply goto_returned

/-- What a step in `slcan_serial_write` does. -/
inductive Moves (s : Serial) : WriteAction → Serial → Prop where
  | chMtxLock {w : Writer} {buf : List UInt8} (hpoint : s.point w = .locking buf)
      (hlock : s.serialLock = none) :
      Moves s (.chMtxLock w)
        ({ s with serialLock := some w }.goto (.writing ⟨s.returned.length, buf⟩ 0) w)
  | putByte {w : Writer} {call : WriteCall} {n : ℕ} {b : UInt8}
      (hpoint : s.point w = .writing call n) (hb : call.buf[n]? = some b) :
      Moves s (.putByte w)
        ({ s with output := s.output ++ [(call, b)] }.goto (.writing call (n + 1)) w)
  | writeReturns {w : Writer} {call : WriteCall} {n : ℕ} (hpoint : s.point w = .writing call n) :
      Moves s (.writeReturns w)
        ({ s with returned := s.returned ++ [(call, n)] }.goto .unlocking w)
  | chMtxUnlock {w : Writer} (hpoint : s.point w = .unlocking) :
      Moves s (.chMtxUnlock w) ({ s with serialLock := none }.goto .idle w)

theorem moves_of_step (ha : Dongle.Inside a) (h : s.step a = some s') :
  Moves s a s'
  := by
  cases a with
  | slcanSpin line => exact ha.elim
  | slcanRxSpin rxf => exact ha.elim
  | chMtxLock w =>
      simp only [step] at h
      split at h
      case h_1 buf hpoint hlock =>
        cases h
        exact .chMtxLock hpoint hlock
      case h_2 => cases h
  | putByte w =>
      obtain ⟨call, n, b, hpoint, hb, rfl⟩ := exists_of_putByte h
      exact .putByte hpoint hb
  | writeReturns w =>
      simp only [step] at h
      split at h
      case h_1 call n hpoint =>
        cases h
        exact .writeReturns hpoint
      case h_2 => cases h
  | chMtxUnlock w =>
      simp only [step] at h
      split at h
      case h_1 hpoint =>
        cases h
        exact .chMtxUnlock hpoint
      case h_2 => cases h

/-- A step of a thread leaves the other thread where it is. -/
theorem Moves.point_of_ne (h : Moves s a s') (hw : w ≠ a.writer) :
  s'.point w = s.point w
  := by
  cases h with
  | chMtxLock => exact (point_goto_of_ne _ _ hw).trans (point_lock _ _ _)
  | putByte => exact (point_goto_of_ne _ _ hw).trans (point_output _ _ _)
  | writeReturns => exact (point_goto_of_ne _ _ hw).trans (point_returned _ _ _)
  | chMtxUnlock => exact (point_goto_of_ne _ _ hw).trans (point_lock _ _ _)

/-- The buffers that a thread has written in a step. -/
def returningBy (s : Serial) (a : WriteAction) (w : Writer) : List (List UInt8) :=
  ((s.returning a).filter (·.1 = w)).map Prod.snd

/-- A step keeps the buffer in hand, until it has been written. -/
theorem Moves.inHand (h : Moves s a s') (w : Writer) :
  (s.point w).inHand = s.returningBy a w ++ (s'.point w).inHand
  := by
  by_cases hw : w = a.writer
  · subst hw
    cases h with
    | chMtxLock hpoint | putByte hpoint | chMtxUnlock hpoint =>
        simp [WriteAction.writer, hpoint, returningBy, returning, WriterPoint.inHand]
    | writeReturns hpoint =>
        simp [WriteAction.writer, hpoint, returningBy, returning, WriterPoint.inHand,
          WriterPoint.inCall]
  · rw [h.point_of_ne hw]
    cases h with
    | chMtxLock | putByte | chMtxUnlock => rfl
    | @writeReturns w' call n hpoint =>
        have hne : ¬ w' = w := Ne.symm hw
        simp [returningBy, returning, hpoint, WriterPoint.inCall, hne]

theorem Moves.returned (h : Moves s a s') :
  s'.returned.map (fun r => r.1.buf)
    = s.returned.map (fun r => r.1.buf) ++ (s.returning a).map Prod.snd
  := by
  cases h with
  | chMtxLock hpoint | putByte hpoint | chMtxUnlock hpoint => simp [returning]
  | writeReturns hpoint => simp [returning, hpoint, WriterPoint.inCall]

/-! ### Calls of `chnWriteTimeout` -/

/-- The calls of `chnWriteTimeout` that have not returned. -/
def current (s : Serial) : List (WriteCall × ℕ) := s.command.current ++ s.receiver.current

theorem current_eq_nil {p : WriterPoint} (h : ¬ HoldsLock p) :
  p.current = []
  := by
  cases p with
  | writing call n => exact absurd trivial h
  | _ => rfl

/-- A thread that moves, while the other one is in no call. -/
theorem current_goto (h : ∀ w', w' ≠ w → (s.point w').current = []) (p : WriterPoint) :
  (s.goto p w).current = p.current
  := by
  cases w with
  | command =>
      have hother : s.receiver.current = [] := h .receiver (by decide)
      simp [goto, current, hother]
  | receiver =>
      have hother : s.command.current = [] := h .command (by decide)
      simp [goto, current, hother]

/-- A thread that moves, and neither starts nor ends a call. -/
theorem current_goto_of_eq {p : WriterPoint} (h : p.current = (s.point w).current) :
  (s.goto p w).current = s.current
  := by
  cases w with
  | command => exact congrArg (· ++ s.receiver.current) h
  | receiver => exact congrArg (s.command.current ++ ·) h

/-- The mutex keeps the calls apart: what is in the channel is what the calls have written, one
after the other, cut short or not. -/
structure InBlocks (s : Serial) : Prop where
  owner : ∀ w, HoldsLock (s.point w) → s.serialLock = some w
  output : s.output = blocks WriteCall.buf (s.returned ++ s.current)

theorem inBlocks_init :
  InBlocks init
  where
  owner := by rintro (_ | _) h <;> exact h.elim
  output := rfl

/-- While a thread holds the mutex, the other one is in no call. -/
theorem InBlocks.current_of_ne (h : InBlocks s) (hw : HoldsLock (s.point w)) {w' : Writer}
    (hne : w' ≠ w) :
  (s.point w').current = []
  := by
  apply current_eq_nil
  intro hw'
  exact hne (Option.some.inj ((h.owner w' hw').symm.trans (h.owner w hw)))

/-- The call of a thread is the only one. -/
theorem InBlocks.current_eq (h : InBlocks s) (hw : HoldsLock (s.point w)) :
  s.current = (s.point w).current
  := by
  have hgoto := current_goto (fun w' => h.current_of_ne hw) (s.point w)
  rwa [current_goto_of_eq rfl] at hgoto

/-- The thread that moves holds the mutex afterwards only when it has it. -/
theorem owner_goto {t : Serial} {p : WriterPoint} (hp : HoldsLock p → t.serialLock = some w)
    (h : ∀ w', w' ≠ w → HoldsLock (t.point w') → t.serialLock = some w') :
  ∀ w', HoldsLock ((t.goto p w).point w') → (t.goto p w).serialLock = some w'
  := by
  intro w' hw'
  rw [goto_serialLock]
  by_cases hne : w' = w
  · subst hne
    rw [point_goto_self] at hw'
    exact hp hw'
  · rw [point_goto_of_ne _ _ hne] at hw'
    exact h w' hne hw'

theorem InBlocks.slcanSerialWrite (h : InBlocks s) (hstep : s.slcanSerialWrite w buf = some s') :
  InBlocks s'
  := by
  obtain ⟨hidle, ⟨-, rfl⟩ | ⟨-, rfl⟩⟩ := slcanSerialWrite_eq_some hstep
  · exact h
  · refine ⟨owner_goto (fun hp => hp.elim) fun w' _ => h.owner w', ?_⟩
    rw [current_goto_of_eq (by rw [hidle]; rfl), goto_output, goto_returned]
    exact h.output

theorem InBlocks.moves (h : InBlocks s) (hstep : Moves s a s') :
  InBlocks s'
  := by
  cases hstep with
  | @chMtxLock w buf hpoint hlock =>
      -- the mutex is free, so no call is going on
      have hfree (w' : Writer) : ¬ HoldsLock (s.point w') := by
        intro hw'
        cases hlock.symm.trans (h.owner w' hw')
      have hnone (w' : Writer) : (s.point w').current = [] := current_eq_nil (hfree w')
      have hcurrent : s.current = [] := congrArg₂ (· ++ ·) (hnone .command) (hnone .receiver)
      refine ⟨owner_goto (fun _ => rfl) fun w' _ hw' => ?_, ?_⟩
      · rw [point_lock] at hw'
        exact absurd hw' (hfree w')
      · have hothers (w' : Writer) (_ : w' ≠ w) :
            (Serial.point { s with serialLock := some w } w').current = [] := by
          rw [point_lock]
          apply hnone
        rw [current_goto hothers, goto_output, goto_returned, WriterPoint.current, blocks_concat,
          block_zero, h.output, hcurrent, List.append_nil, List.append_nil]
  | @putByte w call n b hpoint hb =>
      have hw : HoldsLock (s.point w) := by rw [hpoint]; trivial
      refine ⟨owner_goto (fun _ => h.owner w hw) fun w' _ hw' => ?_, ?_⟩
      · rw [point_output] at hw'
        exact h.owner w' hw'
      · have hothers (w' : Writer) (hne : w' ≠ w) :
            (Serial.point { s with output := s.output ++ [(call, b)] } w').current = [] := by
          rw [point_output]
          apply h.current_of_ne hw hne
        rw [current_goto hothers, goto_output, goto_returned, WriterPoint.current, blocks_concat,
          block_succ hb, ← List.append_assoc, ← blocks_concat, h.output, h.current_eq hw, hpoint]
        rfl
  | @writeReturns w call n hpoint =>
      have hw : HoldsLock (s.point w) := by rw [hpoint]; trivial
      refine ⟨owner_goto (fun _ => h.owner w hw) fun w' _ hw' => ?_, ?_⟩
      · rw [point_returned] at hw'
        exact h.owner w' hw'
      · have hothers (w' : Writer) (hne : w' ≠ w) :
            (Serial.point { s with returned := s.returned ++ [(call, n)] } w').current = [] := by
          rw [point_returned]
          apply h.current_of_ne hw hne
        rw [current_goto hothers, goto_output, goto_returned, h.output, h.current_eq hw, hpoint]
        exact congrArg (blocks WriteCall.buf) (List.append_nil _).symm
  | @chMtxUnlock w hpoint =>
      have hw : HoldsLock (s.point w) := by rw [hpoint]; trivial
      refine ⟨owner_goto (fun hp => hp.elim) fun w' hne hw' => ?_, ?_⟩
      · rw [point_lock] at hw'
        exact absurd (Option.some.inj ((h.owner w' hw').symm.trans (h.owner w hw))) hne
      · rw [current_goto_of_eq (by rw [point_lock, hpoint]; rfl), goto_output, goto_returned]
        exact h.output

end Serial

namespace Dongle

/-- What a thread has passed to `slcan_serial_write`, other than nothing. -/
def passed (s : Dongle) : Writer → List (List UInt8)
  | .command => s.replies.filter (· ≠ [])
  | .receiver => s.pipeline.written.filter (· ≠ [])

/-- The buffers that a thread has written, each by a call of `chnWriteTimeout`. -/
def writtenBy (s : Dongle) (w : Writer) : List (List UInt8) :=
  (s.writes.filter (·.1 = w)).map Prod.snd

variable {bits : BtrBits} {version : Version} {s s' : Dongle} {a : DongleAction}

/-- What a step does to the output: nothing, or it passes a buffer to `slcan_serial_write`, or it
is a step in it. -/
inductive Outputs (s s' : Dongle) : Prop where
  | nothing (hserial : s'.serial = s.serial) (hwrites : s'.writes = s.writes)
      (hpassed : ∀ w, s'.passed w = s.passed w)
  | passes (w : Writer) (buf : List UInt8)
      (hserial : s.serial.slcanSerialWrite w buf = some s'.serial) (hwrites : s'.writes = s.writes)
      (hpassed : ∀ w', s'.passed w'
        = s.passed w' ++ if w' = w then [buf].filter (· ≠ []) else [])
  | writes (a : WriteAction) (ha : Inside a) (hserial : s.serial.step a = some s'.serial)
      (hwrites : s'.writes = s.writes ++ s.serial.returning a)
      (hpassed : ∀ w, s'.passed w = s.passed w)

/-- Only the last step of `slcan_rx_spin` writes the line of a frame. -/
theorem written_of_step {p p' : Pipeline} {a : Action} (h : Pipeline.Step p a p')
    (ha : a ≠ .send .write) :
  p'.written = p.written
  := by
  cases h <;> first | rfl | exact absurd rfl ha

theorem passed_of_written (hreplies : s'.replies = s.replies)
    (hwritten : s'.pipeline.written = s.pipeline.written) (w : Writer) :
  s'.passed w = s.passed w
  := by
  cases w with
  | command => rw [passed, passed, hreplies]
  | receiver => rw [passed, passed, hwritten]

/-- A command that is answered passes its reply to `slcan_serial_write`. -/
theorem outputs_answered {t : Dongle} {success : Bool} {line : Line} {serial : Serial}
    (h : t.Answers version success line serial) (hserial : t.serial = s.serial)
    (hwrites : t.writes = s.writes) (hreplies : t.replies = s.replies)
    (hwritten : t.pipeline.written = s.pipeline.written) :
  Outputs s (t.answered line serial)
  := by
  have hserial' := h.serial
  rw [hserial] at hserial'
  refine .passes .command line.text hserial' hwrites ?_
  intro w
  cases w with
  | command => simp [passed, answered, hreplies, List.filter_append]
  | receiver => simp [passed, answered, hwritten]

theorem outputs_of_step (h : Step bits version s a s') :
  Outputs s s'
  := by
  cases h with
  | rx hp => exact .nothing rfl rfl (passed_of_written rfl (written_of_step hp (by simp)))
  | send hidle hp ha =>
      exact .nothing rfl rfl (passed_of_written rfl (written_of_step hp (by simpa using ha)))
  | sendWrite hidle hp hsender hserial =>
      refine .passes .receiver _ hserial rfl ?_
      cases hp with
      | write hsender' =>
          cases hsender.symm.trans hsender'
          intro w
          cases w with
          | command => simp [passed]
          | receiver => simp [passed, List.filter_append]
  | byte => exact .nothing rfl rfl (passed_of_written rfl rfl)
  | found => exact .nothing rfl rfl (passed_of_written rfl rfl)
  | executed hthread hidle hfound ht hcall hanswers =>
      subst ht
      exact outputs_answered hanswers rfl rfl rfl rfl
  | called hthread hsimple hcall ht hanswers =>
      subst ht
      exact outputs_answered hanswers rfl rfl rfl rfl
  | internal hthread ha hp =>
      exact .nothing rfl rfl (passed_of_written rfl (written_of_step hp (by simp)))
  | canStart hthread hp =>
      exact .nothing rfl rfl (passed_of_written rfl (written_of_step hp (by simp)))
  | canStop hthread hp =>
      exact .nothing rfl rfl (passed_of_written rfl (written_of_step hp (by simp)))
  | returned hthread hcommand hp ht hanswers =>
      subst ht
      exact outputs_answered hanswers rfl rfl rfl (written_of_step hp (by simp))
  | write ha hserial => exact .writes _ ha hserial rfl (passed_of_written rfl rfl)

/-- Every call of `chnWriteTimeout` that has returned has written all of its bytes. -/
def AllWritten (s : Dongle) : Prop := ∀ r ∈ s.serial.returned, r.2 = r.1.buf.length

/-- The buffers that a thread has passed to `slcan_serial_write` are those it has written, and
the one in hand.  The channel has what the calls have written. -/
structure Accounted (s : Dongle) : Prop where
  neverWaits : s.pipeline.NeverWaits
  passed : ∀ w, s.writtenBy w ++ (s.serial.point w).inHand = s.passed w
  buffers : s.writes.map Prod.snd = s.serial.returned.map fun r => r.1.buf
  serial : s.serial.InBlocks

theorem accounted_boot (d : CanState) :
  Accounted (boot d)
  where
  neverWaits := Pipeline.neverWaits_init
  passed := by rintro (_ | _) <;> rfl
  buffers := rfl
  serial := Serial.inBlocks_init

theorem Accounted.step (h : Accounted s) (hstep : Step bits version s a s') :
  Accounted s'
  := by
  have hwaits := hstep.neverWaits h.neverWaits
  cases outputs_of_step hstep with
  | nothing hserial hwrites hpassed =>
      refine ⟨hwaits, ?_, ?_, ?_⟩
      · intro w
        rw [writtenBy, hwrites, hserial, hpassed]
        apply h.passed
      · rw [hwrites, hserial]
        apply h.buffers
      · rw [hserial]
        apply h.serial
  | passes w buf hserial hwrites hpassed =>
      have hreturned := Serial.returned_slcanSerialWrite hserial
      refine ⟨hwaits, ?_, ?_, ?_⟩
      · intro w'
        rw [writtenBy, hwrites, hpassed, Serial.inHand_slcanSerialWrite hserial,
          ← List.append_assoc, ← h.passed, writtenBy]
      · rw [hwrites, hreturned]
        apply h.buffers
      · apply h.serial.slcanSerialWrite hserial
  | writes a ha hserial hwrites hpassed =>
      have hmoves := Serial.moves_of_step ha hserial
      refine ⟨hwaits, ?_, ?_, ?_⟩
      · intro w
        rw [hpassed, ← h.passed, hmoves.inHand w, ← List.append_assoc]
        congr 1
        rw [writtenBy, writtenBy, hwrites, List.filter_append, List.map_append]
        rfl
      · rw [hwrites, List.map_append, h.buffers, hmoves.returned]
      · apply h.serial.moves hmoves

variable {start : Dongle} {acts : List DongleAction}

theorem accounted_of_run (hstart : slcanStart bits = some start)
    (h : run (Dongle.step bits version) start acts = some s) :
  Accounted s
  := by
  obtain ⟨d, -, rfl⟩ := Option.map_eq_some_iff.mp hstart
  refine run_invariant ?_ (accounted_boot d) h
  intro s a s' hinv hstep
  apply hinv.step (step_cases hinv.neverWaits hstep)

end Dongle

end CanDongle

import CanDongle.Dongle.Channel
import CanDongle.Dongle.Output
import CanDongle.Pipeline.Closing

/-!
# No deadlock

At every moment each thread can take a step, or waits for the mutex of the serial channel,
which another thread holds that can take a step.
-/

open Transition

namespace CanDongle

namespace Pipeline

variable {s : Pipeline}

/-- The next step of the command thread in `can_open` or `can_close`. -/
def nextCommand : Commander → CommandAction
  | .idle | .replying _ => .reply
  | .starting => .canStart
  | .signalling => .semSignal
  | .waiting | .parked => .semWait
  | .stopping => .canStop
  | .fetching => .fetch
  | .freeing _ => .free

theorem step_command (hrx : ¬ s.Halted) (a : CommandAction) :
  step s (.command a) = s.commandStep a
  := by
  unfold step
  split
  case h_1 number h => exact absurd ⟨number, h⟩ hrx
  case h_2 => rfl

/-- The command thread can go on in `can_open` and `can_close`. -/
theorem exists_nextCommand (hrx : ¬ s.Halted) (hidle : s.command ≠ .idle)
    (hparked : s.command ≠ .parked) :
  ∃ p, s.step (.command (nextCommand s.command)) = some p
  := by
  rw [step_command hrx]
  cases hcommand : s.command with
  | idle => exact absurd hcommand hidle
  | parked => exact absurd hcommand hparked
  | fetching =>
      simp only [nextCommand, commandStep, hcommand]
      split <;> exact ⟨_, rfl⟩
  | _ =>
      simp only [nextCommand, commandStep, hcommand]
      exact ⟨_, rfl⟩

/-- The command thread can begin to open or to close the channel. -/
theorem exists_begin (hrx : ¬ s.Halted) (hidle : s.command = .idle) :
  (∃ p, s.step (.command .canOpen) = some p) ∧ ∃ p, s.step (.command .canClose) = some p
  := by
  rw [step_command hrx, step_command hrx]
  simp only [commandStep, hidle]
  constructor <;> split <;> exact ⟨_, rfl⟩

/-- `can_rx_thread` can go on. -/
theorem exists_rx (hinv : s.NeverWaits) (hrx : ¬ s.Halted) :
  ∃ a p, s.step (.rx a) = some p
  := by
  have hwaits := hinv.rx
  cases h : s.rx with
  | checking =>
      use .getCounter
      rw [step_rx hrx]
      simp only [rxStep, h]
      split <;> exact ⟨_, rfl⟩
  | signalling | waiting | parked =>
      rw [h] at hwaits
      cases hwaits
  | receiving => exact ⟨.timeout, _, by rw [step_rx hrx, rxStep, h]⟩
  | allocating number rxf =>
      use .alloc
      rw [step_rx hrx]
      simp only [rxStep, h]
      split <;> exact ⟨_, rfl⟩
  | filling fp rxf =>
      use .fill 0 s.rxPoolBuf s.canRxPool
      rw [step_rx hrx]
      simp only [rxStep, h]
      split <;> exact ⟨_, rfl⟩
  | posting fp =>
      use .post
      rw [step_rx hrx]
      simp only [rxStep, h]
      split <;> exact ⟨_, rfl⟩
  | dropping fp => exact ⟨.drop, _, by rw [step_rx hrx, rxStep, h]⟩
  | fetching =>
      use .fetch
      rw [step_rx hrx]
      simp only [rxStep, h]
      split <;> exact ⟨_, rfl⟩
  | freeing fp => exact ⟨.free, _, by rw [step_rx hrx, rxStep, h]⟩
  | halted number => exact absurd ⟨number, h⟩ hrx

/-- The thread of `slcan_rx_spin` can go on. -/
theorem exists_send (hrx : ¬ s.Halted) :
  ∃ a p, s.step (.send a) = some p
  := by
  cases h : s.sender with
  | fetching => exact ⟨.timeout, _, by rw [step_send hrx, sendStep, h]⟩
  | encoding rxf => exact ⟨.encode [], _, by rw [step_send hrx, sendStep, h]⟩
  | deleting rxf txbuf => exact ⟨.delete, _, by rw [step_send hrx, sendStep, h]⟩
  | writing number txbuf => exact ⟨.write, _, by rw [step_send hrx, sendStep, h]⟩

end Pipeline

namespace Serial

/-- The thread that owns the mutex is in `chnWriteTimeout`, or behind it. -/
def Held (s : Serial) : Prop := ∀ w, s.serialLock = some w → HoldsLock (s.point w)

variable {s s' : Serial} {w : Writer}

theorem Held.slcanSerialWrite (h : s.Held) {buf : List UInt8}
    (hstep : s.slcanSerialWrite w buf = some s') :
  s'.Held
  := by
  obtain ⟨hidle, ⟨-, rfl⟩ | ⟨-, rfl⟩⟩ := slcanSerialWrite_eq_some hstep
  · exact h
  · intro w' hlock
    rw [goto_serialLock] at hlock
    have hholds := h w' hlock
    by_cases hw : w' = w
    · rw [hw, hidle] at hholds
      exact hholds.elim
    · rw [point_goto_of_ne _ _ hw]
      exact hholds

theorem Held.goto (h : s.Held) {t : Serial} {p : WriterPoint} (hp : HoldsLock p)
    (hlock : t.serialLock = s.serialLock) (hpoint : ∀ w, t.point w = s.point w) (w : Writer) :
  (t.goto p w).Held
  := by
  intro w' hw'
  rw [goto_serialLock, hlock] at hw'
  by_cases hw : w' = w
  · rw [hw, point_goto_self]
    exact hp
  · rw [point_goto_of_ne _ _ hw, hpoint]
    apply h w' hw'

theorem Held.moves (h : s.Held) {a : WriteAction} (hstep : Moves s a s') :
  s'.Held
  := by
  cases hstep with
  | @chMtxLock w buf hpoint hlock =>
      intro w' hw'
      rw [goto_serialLock] at hw'
      obtain rfl := Option.some.inj hw'
      rw [point_goto_self]
      trivial
  | putByte =>
      apply h.goto
      · trivial
      · rfl
      · intro w
        apply point_output
  | writeReturns =>
      apply h.goto
      · trivial
      · rfl
      · intro w
        apply point_returned
  | chMtxUnlock =>
      intro w' hw'
      rw [goto_serialLock] at hw'
      cases hw'

/-- A thread that is not in `slcan_serial_write` stays where it is. -/
theorem Moves.idle {a : WriteAction} (h : Moves s a s') (hidle : s.point w = .idle) :
  s'.point w = .idle
  := by
  by_cases hw : w = a.writer
  · subst hw
    cases h with
    | chMtxLock hpoint | putByte hpoint | writeReturns hpoint | chMtxUnlock hpoint =>
        cases hidle.symm.trans hpoint
  · rw [h.point_of_ne hw, hidle]

/-- A thread in `slcan_serial_write` can go on, or waits for the mutex. -/
theorem exists_step (hheld : s.Held) (h : s.point w ≠ .idle) :
  (∃ a s', Dongle.Inside a ∧ a.writer = w ∧ s.step a = some s') ∨
    ∃ w', w' ≠ w ∧ s.serialLock = some w' ∧ HoldsLock (s.point w')
  := by
  cases hpoint : s.point w with
  | idle => exact absurd hpoint h
  | locking buf =>
      cases hlock : s.serialLock with
      | none =>
          left
          use .chMtxLock w
          simp only [step, hpoint, hlock]
          exact ⟨_, trivial, rfl, rfl⟩
      | some w' =>
          right
          have hholds := hheld w' hlock
          refine ⟨w', ?_, rfl, hholds⟩
          rintro rfl
          rw [hpoint] at hholds
          exact hholds
  | writing call n =>
      left
      use .writeReturns w
      simp only [step, hpoint]
      exact ⟨_, trivial, rfl, rfl⟩
  | unlocking =>
      left
      use .chMtxUnlock w
      simp only [step, hpoint]
      exact ⟨_, trivial, rfl, rfl⟩

end Serial

/-! ### The threads of the dongle -/

/-- The threads. -/
inductive DongleThread where
  | rx
  | receiver
  | command
  deriving DecidableEq

/-- The thread that writes to the channel. -/
def Writer.thread : Writer → DongleThread
  | .command => .command
  | .receiver => .receiver

/-- The thread that takes a step. -/
def DongleAction.thread : DongleAction → DongleThread
  | .rx _ => .rx
  | .send _ => .receiver
  | .command _ | .call _ | .get _ => .command
  | .write a => a.writer.thread

namespace Dongle

variable {bits : BtrBits} {version : Version} {base s s' : Dongle}

/-- A thread can take a step. -/
def Enabled (bits : BtrBits) (version : Version) (s : Dongle) (t : DongleThread) : Prop :=
  ∃ a s', DongleAction.thread a = t ∧ s.step bits version a = some s'

/-- What keeps the threads from blocking each other. -/
structure Ready (bits : BtrBits) (version : Version) (base s : Dongle) : Prop where
  interleaved : Interleaved bits version base s
  held : s.serial.Held
  quiet : ∀ call, s.thread = .calling call → s.serial.command = .idle

theorem ready_boot (d : CanState) :
  Ready bits version (boot d) (boot d)
  where
  interleaved := interleaved_boot d
  held := by rintro w ⟨⟩
  quiet := by rintro call ⟨⟩

theorem Ready.step (h : Ready bits version base s) {a : DongleAction}
    (hstep : Step bits version s a s') :
  Ready bits version base s'
  := by
  have hinterleaved := h.interleaved.step hstep
  have hheld : s'.serial.Held := by
    cases outputs_of_step hstep with
    | nothing hserial =>
        rw [hserial]
        exact h.held
    | passes w buf hserial => exact h.held.slcanSerialWrite hserial
    | writes a ha hserial => exact h.held.moves (Serial.moves_of_step ha hserial)
  refine ⟨hinterleaved, hheld, ?_⟩
  intro call hcall
  cases hstep with
  | rx | send | internal | canStart | canStop => exact h.quiet call hcall
  | sendWrite hidle hp hsender hserial =>
      obtain ⟨-, ⟨-, rfl⟩ | ⟨-, rfl⟩⟩ := Serial.slcanSerialWrite_eq_some hserial
      · exact h.quiet call hcall
      · exact h.quiet call hcall
  | byte hthread => cases hthread.symm.trans hcall
  | found hthread hidle => exact hidle
  | executed | called | returned => cases hcall
  | write ha hserial =>
      exact (Serial.moves_of_step ha hserial).idle (w := .command) (h.quiet call hcall)

/-- The call of a line returns in any state of the driver, when it is neither `can_open` nor
`can_close`. -/
theorem exists_canDriver {line : Line} {call : DriverCall}
    (hcalled : calledBy version line = some call) (hsimple : Simple call) (env : Environment)
    (d : CanDriver) :
  ∃ success d', canDriver bits env call d = some (success, d')
  := by
  rw [calledBy_eq] at hcalled
  have hasks := asks_request version line
  generalize request version line = r, channelCommand line = c at hcalled hasks
  cases hasks with
  | @setBitrate bitrate h =>
      cases hcalled
      change ∃ success d', canSetBitrate bitrate d = some (success, d')
      unfold canSetBitrate
      split
      · exact ⟨_, _, rfl⟩
      · rw [canBtrFromBitrate_eq h]
        by_cases hsettable : Settable bitrate
        · rw [if_pos hsettable]
          exact ⟨_, _, rfl⟩
        · rw [if_neg hsettable]
          exact ⟨_, _, rfl⟩
  | openMode mode =>
      cases hcalled
      exact hsimple.elim
  | close =>
      cases hcalled
      exact hsimple.elim
  | @send id extended remote data length h =>
      cases hcalled
      obtain ⟨frame, hframe⟩ : ∃ frame, txFrame id extended remote data length = some frame := by
        cases remote with
        | true => exact ⟨_, rfl⟩
        | false => simp [txFrame, txData, h rfl]
      refine ⟨env.canTransmit frame, { d with calls := d.calls ++ [.canTransmit frame] }, ?_⟩
      simp [canDriver, canSend, hframe]
  | invalid => cases hcalled
  | reply text => cases hcalled
  | power enable =>
      cases hcalled
      exact ⟨_, _, rfl⟩

theorem enabled_rx (hinv : s.pipeline.NeverWaits) (hrx : ¬ s.pipeline.Halted) :
  Enabled bits version s .rx
  := by
  obtain ⟨a, p, hp⟩ := Pipeline.exists_rx hinv hrx
  refine ⟨.rx a, { s with pipeline := p }, rfl, ?_⟩
  rw [step_eq hrx]
  simp only [hp]
  rfl

/-- A thread that is not in `slcan_serial_write` can begin it. -/
theorem exists_slcanSerialWrite {serial : Serial} {w : Writer} (hidle : serial.point w = .idle)
    (buf : List UInt8) :
  ∃ serial', serial.slcanSerialWrite w buf = some serial'
  := by
  rw [Serial.slcanSerialWrite, if_pos hidle]
  split <;> exact ⟨_, rfl⟩

/-- A command can be answered. -/
theorem exists_answer (hidle : s.serial.command = .idle) (success : Bool) :
  ∃ s', s.answer version success = some s'
  := by
  obtain ⟨line, hline, -⟩ := exists_decoded version s.reader.lineBuffer success
  obtain ⟨serial, hserial⟩ := exists_slcanSerialWrite (w := .command) hidle line.text
  exact ⟨_, Option.bind_eq_some_iff.mpr
    ⟨line, hline, Option.bind_eq_some_iff.mpr ⟨serial, hserial, rfl⟩⟩⟩

/-- Outside of `slcan_serial_write`, the thread of `slcan_rx_spin` can go on. -/
theorem enabled_receiver (hrx : ¬ s.pipeline.Halted) (hidle : s.serial.receiver = .idle) :
  Enabled bits version s .receiver
  := by
  obtain ⟨a, p, hp⟩ := Pipeline.exists_send hrx
  have hsend : ∃ s', s.sendStep a = some s' := by
    unfold sendStep
    simp only [hidle]
    split
    case h_1 number txbuf hsender =>
      obtain ⟨serial, hserial⟩ := exists_slcanSerialWrite (w := .receiver) hidle txbuf
      exact ⟨_, Option.bind_eq_some_iff.mpr
        ⟨p, hp, Option.bind_eq_some_iff.mpr ⟨serial, hserial, rfl⟩⟩⟩
    case h_2 => exact ⟨_, Option.bind_eq_some_iff.mpr ⟨p, hp, rfl⟩⟩
  obtain ⟨s', hs'⟩ := hsend
  refine ⟨.send a, s', rfl, ?_⟩
  rw [step_eq hrx]
  exact hs'

/-- A thread in `slcan_serial_write` can go on, or waits for the mutex that another thread holds
which can go on. -/
theorem enabled_inside (hrx : ¬ s.pipeline.Halted) (hheld : s.serial.Held) {w : Writer}
    (hpoint : s.serial.point w ≠ .idle) :
  Enabled bits version s w.thread ∨
    ∃ w', w' ≠ w ∧ s.serial.serialLock = some w' ∧ Enabled bits version s w'.thread
  := by
  have hwrite {w : Writer} {a : WriteAction} {serial : Serial} (ha : Inside a)
      (hw : WriteAction.writer a = w) (h : s.serial.step a = some serial) :
      Enabled bits version s w.thread := by
    refine ⟨.write a, { s with
      serial := serial, writes := s.writes ++ s.serial.returning a }, ?_, ?_⟩
    · rw [DongleAction.thread, hw]
    · rw [step_eq hrx]
      cases a with
      | slcanSpin line => exact ha.elim
      | slcanRxSpin rxf => exact ha.elim
      | _ =>
          simp only [writeStep, h]
          rfl
  rcases Serial.exists_step hheld hpoint with ⟨a, serial, ha, hw, h⟩ | ⟨w', hne, hlock, hholds⟩
  · left
    exact hwrite ha hw h
  · right
    refine ⟨w', hne, hlock, ?_⟩
    have hidle : s.serial.point w' ≠ .idle := by
      intro hidle
      rw [hidle] at hholds
      exact hholds
    rcases Serial.exists_step hheld hidle with ⟨a, serial, ha, hw, h⟩ | ⟨w'', hne', hlock', -⟩
    · exact hwrite ha hw h
    · exact absurd (Option.some.inj (hlock'.symm.trans hlock)) hne'

/-! ### The command thread -/

/-- `chnGetTimeout` can return. -/
theorem exists_getStep (hthread : s.thread = .spinning) (hidle : s.serial.command = .idle) (c : ℤ) :
  ∃ s', s.getStep version c = some s'
  := by
  simp only [getStep, hthread, hidle]
  split
  · unfold execute
    split
    · exact ⟨_, rfl⟩
    · apply exists_answer
      exact hidle
  · exact ⟨_, rfl⟩

/-- A call other than `can_open` and `can_close` can return. -/
theorem exists_callStep {call : DriverCall} (hthread : s.thread = .calling call)
    (hcalled : calledBy version s.reader.lineBuffer = some call) (hsimple : Simple call)
    (hidle : s.serial.command = .idle) (env : Environment) :
  ∃ s', s.callStep bits version env = some s'
  := by
  obtain ⟨success, d, hcall⟩ : ∃ success d, canDriver bits env call s.driver = some (success, d) :=
    exists_canDriver hcalled hsimple env s.driver
  obtain ⟨s', hs'⟩ : ∃ s', ({ s with
      canConfig := d.canConfig, calls := d.calls } : Dongle).answer version success = some s' := by
    apply exists_answer
    exact hidle
  use s'
  cases call with
  | canOpen mode => exact hsimple.elim
  | canClose => exact hsimple.elim
  | _ =>
      rw [callStep, hthread]
      exact Option.bind_eq_some_iff.mpr ⟨(success, d), hcall, hs'⟩

/-- `can_open` and `can_close` can go on. -/
theorem exists_commandStep {call : DriverCall} {d : CanDriver} (hrx : ¬ s.pipeline.Halted)
    (hthread : s.thread = .calling call) (hcall : ¬ Simple call)
    (hreached : Reached bits d s.pipeline.command call s.driver)
    (hidle : s.serial.command = .idle) :
  ∃ a s', s.commandStep bits version a = some s'
  := by
  by_cases hcommand : s.pipeline.command = .idle
  · obtain ⟨⟨p, hopen⟩, q, hclose⟩ := Pipeline.exists_begin hrx hcommand
    cases call with
    | canOpen mode =>
        use .canOpen
        rw [commandStep, hthread]
        exact ⟨_, Option.bind_eq_some_iff.mpr ⟨p, hopen, rfl⟩⟩
    | canClose =>
        use .canClose
        rw [commandStep, hthread]
        exact ⟨_, Option.bind_eq_some_iff.mpr ⟨q, hclose, rfl⟩⟩
    | _ => exact absurd trivial hcall
  · have hparked : s.pipeline.command ≠ .parked := by
      intro h
      rw [h] at hreached
      cases hreached
    obtain ⟨p, hp⟩ := Pipeline.exists_nextCommand hrx hcommand hparked
    use Pipeline.nextCommand s.pipeline.command
    generalize hpoint : s.pipeline.command = point at hp hreached
    generalize s.driver = d' at hreached
    rw [commandStep, hthread]
    cases hreached with
    | called => exact absurd hpoint hcommand
    | starting | signalling | waiting | stopping | fetching | freeing =>
        exact ⟨_, Option.bind_eq_some_iff.mpr ⟨p, hp, rfl⟩⟩
    | @replying _ success =>
        obtain ⟨s', hs'⟩ : ∃ s', ({ s with pipeline := p } : Dongle).answer version success
            = some s' := by
          apply exists_answer
          exact hidle
        refine ⟨s', Option.bind_eq_some_iff.mpr ⟨p, hp, ?_⟩⟩
        simp only [Pipeline.nextCommand, hpoint]
        exact hs'

/-- Outside of `slcan_serial_write`, the command thread can go on. -/
theorem enabled_command (h : Ready bits version base s) (hrx : ¬ s.pipeline.Halted)
    (hidle : s.serial.command = .idle) :
  Enabled bits version s .command
  := by
  have henabled {a : DongleAction} (ha : a.thread = .command)
      (hstep : ∃ s', s.step bits version a = some s') : Enabled bits version s .command := by
    obtain ⟨s', hs'⟩ := hstep
    exact ⟨a, s', ha, hs'⟩
  cases hthread : s.thread with
  | spinning =>
      apply henabled (a := .get stmTimeout) rfl
      rw [step_eq hrx]
      apply exists_getStep hthread hidle
  | calling call =>
      obtain ⟨results, c, reader, d, -, -, hcalled, -, hreached⟩ := h.interleaved.calling _ hthread
      by_cases hsimple : Simple call
      · apply henabled (a := .call ⟨fun _ => true, fun _ => true⟩) rfl
        rw [step_eq hrx]
        apply exists_callStep hthread hcalled hsimple hidle
      · obtain ⟨a, hstep⟩ : ∃ a s', s.commandStep bits version a = some s' :=
          exists_commandStep hrx hthread hsimple hreached hidle
        apply henabled (a := .command a) rfl
        rw [step_eq hrx]
        exact hstep

/-- Every thread can take a step, or waits in `slcan_serial_write` for the mutex, which another
thread holds that can take a step. -/
theorem enabled_or_waits (h : Ready bits version base s) (hrx : ¬ s.pipeline.Halted)
    (t : DongleThread) :
  Enabled bits version s t ∨ ∃ w w' : Writer, w.thread = t ∧ w' ≠ w ∧
    s.serial.serialLock = some w' ∧ Enabled bits version s w'.thread
  := by
  have hwriter (w : Writer) (hidle : s.serial.point w = .idle → Enabled bits version s w.thread) :
      Enabled bits version s w.thread ∨ ∃ w₁ w' : Writer, w₁.thread = w.thread ∧ w' ≠ w₁ ∧
        s.serial.serialLock = some w' ∧ Enabled bits version s w'.thread := by
    by_cases hpoint : s.serial.point w = .idle
    · exact .inl (hidle hpoint)
    · rcases enabled_inside hrx h.held hpoint with henabled | ⟨w', hw'⟩
      · exact .inl henabled
      · exact .inr ⟨w, w', rfl, hw'⟩
  cases t with
  | rx => exact .inl (enabled_rx h.interleaved.neverWaits hrx)
  | receiver => exact hwriter .receiver fun hidle => enabled_receiver hrx hidle
  | command => exact hwriter .command fun hidle => enabled_command h hrx hidle

variable {start : Dongle} {acts : List DongleAction}

theorem ready_of_run (hstart : slcanStart bits = some start)
    (h : run (Dongle.step bits version) start acts = some s) :
  Ready bits version start s
  := by
  obtain ⟨d, -, rfl⟩ := Option.map_eq_some_iff.mp hstart
  refine run_invariant ?_ (ready_boot d) h
  intro s a s' h hstep
  apply h.step (step_cases h.interleaved.neverWaits hstep)

/-- `chSysHalt` is not called while the received frames count at most eight data bytes. -/
theorem not_halted_of_run (hstart : slcanStart bits = some start)
    (h : run (Dongle.step bits version) start acts = some s) (hfits : s.pipeline.DataFits) :
  ¬ s.pipeline.Halted
  := (Pipeline.inv_of_run (pipeline_of_run hstart h)).orderInv.poolInv.not_halted hfits

/-- No deadlock, in any interleaving in which the received frames count at most eight data bytes:
`chSysHalt` is not called, and every thread can take a step, or waits for the mutex of the serial
channel, which another thread holds that can. -/
theorem deadlock_free (hstart : slcanStart bits = some start)
    (h : run (Dongle.step bits version) start acts = some s) (hfits : s.pipeline.DataFits) :
  ¬ s.pipeline.Halted ∧ ∀ t : DongleThread, Enabled bits version s t ∨
    ∃ w w' : Writer, w.thread = t ∧ w' ≠ w ∧ s.serial.serialLock = some w' ∧
      Enabled bits version s w'.thread
  := by
  have hrx := not_halted_of_run hstart h hfits
  exact ⟨hrx, enabled_or_waits (ready_of_run hstart h) hrx⟩

/-- The receiver waits for the lock, which the command thread holds. -/
theorem deadlock_free_openReceive :
  ∃ start s, slcanStart bxCan = some start ∧
    run (Dongle.step bxCan mockVersion) start openReceive = some s ∧
    s.serial.serialLock = some .command ∧ ¬ s.pipeline.Halted ∧
    ∀ t : DongleThread, Enabled bxCan mockVersion s t ∨
      ∃ w w' : Writer, w.thread = t ∧ w' ≠ w ∧ s.serial.serialLock = some w' ∧
        Enabled bxCan mockVersion s w'.thread
  := by
  obtain ⟨start, s, hstart, hrun, hlock, hfits⟩ : ∃ start s, slcanStart bxCan = some start ∧
      run (Dongle.step bxCan mockVersion) start openReceive = some s ∧
      s.serial.serialLock = some .command ∧ s.pipeline.DataFits :=
    exists_run_of_start (by decide +kernel)
  exact ⟨start, s, hstart, hrun, hlock, deadlock_free hstart hrun hfits⟩

end Dongle

end CanDongle

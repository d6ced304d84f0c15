import CanDongle.Dongle.Reader
import CanDongle.Driver
import CanDongle.Pipeline.Step
import CanDongle.Serial

/-!
# The dongle

The threads of the firmware together.  The command thread reads from the host, executes a
line in the buffer it was read to, and writes the reply.  `can_rx_thread` receives frames,
and the thread of `slcan_rx_spin` writes their lines.  They share the driver and its queue,
which are those of the pipeline, and the serial channel.

A step is a step of one of the threads in one of these parts, or the result of
`chnGetTimeout`, and a run is any interleaving of steps.  What the state does not decide
comes with the step: a result of `chnGetTimeout`, the results of the hardware, and how much
of a buffer is written before a timeout.

The results read, the replies, the calls to the hardware and the buffers that were written
are recorded, and not read by any thread.
-/

open Transition

namespace CanDongle

/-- Where the command thread is. -/
inductive CommandThread where
  /-- In `slcan_getline`, or in `slcan_serial_write` with a reply. -/
  | spinning
  /-- In the function of the driver that the line in the buffer calls. -/
  | calling (call : DriverCall)
  deriving DecidableEq

/-- The state of the firmware. -/
structure Dongle where
  pipeline : Pipeline
  serial : Serial
  canConfig : CANConfig
  reader : LineReader
  thread : CommandThread
  /-- The results of `chnGetTimeout`. -/
  results : List ℤ
  /-- The replies passed to `slcan_serial_write`. -/
  replies : List (List UInt8)
  /-- The calls to the hardware, other than `canReceive`. -/
  calls : List HalCall
  /-- The threads whose call of `chnWriteTimeout` has returned, with the buffer of the call. -/
  writes : List (Writer × List UInt8)

/-- A step of the firmware. -/
inductive DongleAction where
  /-- A step of `can_rx_thread`. -/
  | rx (a : RxAction)
  /-- A step of the thread of `slcan_rx_spin`. -/
  | send (a : SendAction)
  /-- A step of the command thread in `can_open` or `can_close`. -/
  | command (a : CommandAction)
  /-- A call of the command thread to another function of the driver, or to `bus_power`. -/
  | call (env : Environment)
  /-- `chnGetTimeout` returns. -/
  | get (result : ℤ)
  /-- A step of a thread in `slcan_serial_write`. -/
  | write (a : WriteAction)

/-! ### Commands -/

section Commands

variable (version : Version) (line : Line)

/-- The call that `slcan_decode_line` makes, if it makes one.  It makes at most one, and what it
calls does not depend on the result. -/
def calledBy : Option DriverCall := do
  let (_, calls) ← slcanDecodeLine (recorder fun _ _ => true) version line []
  calls.head?

/-- The line buffer after `slcan_decode_line`, when the call it makes returns `success`. -/
def decoded (success : Bool) : Option Line := do
  let (line, _) ← slcanDecodeLine (recorder fun _ _ => success) version line []
  some line

end Commands

/-! ### Writing -/

/-- The buffer of a thread in `chnWriteTimeout`. -/
def WriterPoint.inCall : WriterPoint → List (List UInt8)
  | .writing call _ => [call.buf]
  | _ => []

/-- The call of `chnWriteTimeout` that returns in a step. -/
def Serial.returning (s : Serial) : WriteAction → List (Writer × List UInt8)
  | .writeReturns w => (s.point w).inCall.map fun buf => (w, buf)
  | _ => []

namespace Dongle

/-- The driver of the command thread. -/
def driver (s : Dongle) : CanDriver where
  canIsRunning := s.pipeline.canIsRunning
  canConfig := s.canConfig
  canConfigWait := s.pipeline.canConfigWait.counter
  started := s.pipeline.started
  calls := s.calls

/-- Before the threads have taken a step, with the driver `d`. -/
def boot (d : CanState) : Dongle where
  pipeline := .init
  serial := .init
  canConfig := d.canConfig
  reader := .init
  thread := .spinning
  results := []
  replies := []
  calls := []
  writes := []

section Steps

variable (bits : BtrBits) (version : Version)

/-- `slcan_start`. -/
def slcanStart : Option Dongle := (canInit bits).map boot

/-- The rest of `slcan_spin` after the call of a command: the reply is left in the line buffer,
and passed to `slcan_serial_write`. -/
def answer (s : Dongle) (success : Bool) : Option Dongle := do
  let line ← decoded version s.reader.lineBuffer success
  let serial ← s.serial.slcanSerialWrite .command line.text
  some { s with
    serial := serial
    reader := { s.reader with lineBuffer := line }
    thread := .spinning
    replies := s.replies ++ [line.text] }

/-- Execute the line in the buffer, up to the call it makes. -/
def execute (s : Dongle) : Option Dongle :=
  match calledBy version s.reader.lineBuffer with
  | some call => some { s with thread := .calling call }
  | none => s.answer version true

/-- `chnGetTimeout` returns to `slcan_getline`. -/
def getStep (s : Dongle) (c : ℤ) : Option Dongle :=
  match s.thread, s.serial.command with
  | .spinning, .idle =>
      let (found, reader) := s.reader.get c
      let s := { s with reader := reader, results := s.results ++ [c] }
      if found then s.execute version else some s
  | _, _ => none

/-- A call of the command thread to `can_send`, `can_set_bitrate` or `bus_power`. -/
def callStep (s : Dongle) (env : Environment) : Option Dongle :=
  match s.thread with
  | .calling (.canOpen _) => none
  | .calling .canClose => none
  | .calling call => do
      let (success, d) ← canDriver bits env call s.driver
      { s with canConfig := d.canConfig, calls := d.calls }.answer version success
  | .spinning => none

/-- A step of the command thread in `can_open` or `can_close`.  What `can_open` does before
`canStart` is done in one step with it. -/
def commandStep (s : Dongle) (a : CommandAction) : Option Dongle :=
  match s.thread with
  | .calling call => do
      let pipeline ← s.pipeline.step (.command a)
      let s' := { s with pipeline := pipeline }
      match a, call with
      | .canOpen, .canOpen _ => some s'
      | .canClose, .canClose => some s'
      | .canStart, .canOpen mode =>
          let (_, d) := CanDongle.canOpen bits mode s.driver
          some { s' with canConfig := d.canConfig, calls := d.calls }
      | .semSignal, .canOpen _ => some s'
      | .semWait, .canClose => some s'
      | .canStop, .canClose => some { s' with calls := s.calls ++ [.canStop] }
      | .fetch, .canClose => some s'
      | .free, .canClose => some s'
      | .reply, _ =>
          match s.pipeline.command with
          | .replying success => s'.answer version success
          | _ => none
      | _, _ => none
  | .spinning => none

/-- A step of the thread of `slcan_rx_spin`, which passes a line to `slcan_serial_write` in its
last step, and takes the next step when that has returned. -/
def sendStep (s : Dongle) (a : SendAction) : Option Dongle :=
  match s.serial.receiver with
  | .idle => do
      let pipeline ← s.pipeline.step (.send a)
      match a, s.pipeline.sender with
      | .write, .writing _ txbuf =>
          let serial ← s.serial.slcanSerialWrite .receiver txbuf
          some { s with pipeline := pipeline, serial := serial }
      | _, _ => some { s with pipeline := pipeline }
  | _ => none

/-- A step in `slcan_serial_write`. -/
def writeStep (s : Dongle) : WriteAction → Option Dongle
  | .slcanSpin _ => none
  | .slcanRxSpin _ => none
  | a => do
      let serial ← s.serial.step a
      some { s with serial := serial, writes := s.writes ++ s.serial.returning a }

/-- A step of one of the threads.  After `chSysHalt` there is none. -/
def step (s : Dongle) (a : DongleAction) : Option Dongle :=
  match s.pipeline.rx with
  | .halted _ => none
  | _ =>
      match a with
      | .rx a => do
          let pipeline ← s.pipeline.step (.rx a)
          some { s with pipeline := pipeline }
      | .send a => s.sendStep a
      | .command a => s.commandStep bits version a
      | .call env => s.callStep bits version env
      | .get result => s.getStep version result
      | .write a => s.writeStep a

variable {bits version} {s s' : Dongle}

theorem step_eq (hrx : ¬ s.pipeline.Halted) (a : DongleAction) :
  s.step bits version a =
    match a with
    | .rx a => do
        let pipeline ← s.pipeline.step (.rx a)
        some { s with pipeline := pipeline }
    | .send a => s.sendStep a
    | .command a => s.commandStep bits version a
    | .call env => s.callStep bits version env
    | .get result => s.getStep version result
    | .write a => s.writeStep a
  := by
  unfold step
  cases h : s.pipeline.rx with
  | halted number => exact absurd ⟨number, h⟩ hrx
  | _ => rfl

/-- No thread takes a step after `chSysHalt`. -/
theorem not_halted_of_step {a : DongleAction} (h : s.step bits version a = some s') :
  ¬ s.pipeline.Halted
  := by
  rintro ⟨number, hrx⟩
  simp [step, hrx] at h

end Steps

/-- The host opens the channel, and a frame of two data bytes is received.  Its line waits for
the reply, which holds the lock. -/
def openReceive : List DongleAction :=
  [.get 'O'.toNat, .get 13, .command .canOpen, .command .canStart, .command .semSignal,
    .command .reply, .write (.chMtxLock .command), .rx .getCounter,
    .rx (.receive twoFrame), .rx .alloc, .write (.putByte .command),
    .rx (.fill 0 (fun _ => emptySlot) []), .rx .post, .write (.writeReturns .command), .send .fetch,
    .send (.encode []), .send .delete, .send .write]

/-- The line is written, once the reply is. -/
def writeLine : List DongleAction :=
  [.write (.chMtxUnlock .command), .write (.chMtxLock .receiver)]
    ++ List.replicate 10 (.write (.putByte .receiver))
    ++ [.write (.writeReturns .receiver), .write (.chMtxUnlock .receiver)]

/-- A run from `slcan_start` that can be evaluated, with what is decided of the state after it. -/
theorem exists_run_of_start {bits : BtrBits} {version : Version} {acts : List DongleAction}
    {P : Dongle → Prop} [DecidablePred P]
    (h : (slcanStart bits).any (fun start => (run (step bits version) start acts).any (P ·))
      = true) :
  ∃ start s, slcanStart bits = some start ∧ run (step bits version) start acts = some s ∧ P s
  := by
  obtain ⟨start, hstart, hany⟩ := (Option.any_eq_true _ _).mp h
  obtain ⟨s, hrun, hP⟩ := exists_run_of_any hany
  exact ⟨start, s, hstart, hrun, hP⟩

end Dongle

end CanDongle

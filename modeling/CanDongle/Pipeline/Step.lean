import CanDongle.Reception
import CanDongle.Library.Mailbox
import CanDongle.Library.Semaphore
import CanDongle.Library.Transition

/-!
# The receive pipeline

Three threads share the pool, the queue and the semaphore of `can_driver.c`: `can_rx_thread`
receives frames, the thread of `slcan_rx_spin` sends them to the host, and the command
thread opens and closes the channel.  A step is what a thread does from one call of ChibiOS
to the next, and a run is any interleaving of steps.

The links of the pool lie in its free slots.  A copy that leaves its slot may thus change what
is in any slot, and also which slots the pool still has: both come with the step.

A pointer to a slot travels with the number of the frame in it, counted as `canReceive`
returns them.  The numbers, and the lists of what was received, sent and lost, are not read
by any thread.
-/

namespace CanDongle

/-- `CAN_RX_BUFFER_SIZE`. -/
def canRxBufferSize : ℕ := 100

/-- `CAN_RX_POOL_SIZE`. -/
def canRxPoolSize : ℕ := canRxBufferSize + 2

/-- The index of an element of `rx_pool_buf`. -/
abbrev Slot := Fin canRxPoolSize

/-- A pointer to a slot, and the number of the frame in it. -/
structure Packet where
  slot : Slot
  number : ℕ
  deriving DecidableEq

/-- The threads that wait for `can_config_wait`. -/
inductive Waiter where
  | rx
  | command
  deriving DecidableEq

/-! ### Program points -/

/-- The next call of `can_rx_thread`. -/
inductive RxThread where
  /-- `chSemGetCounterI` in `wait_on_request`. -/
  | checking
  /-- `chSemSignal` in `wait_on_request`. -/
  | signalling
  /-- `chSemWait` in `wait_on_request`. -/
  | waiting
  /-- Blocked in `chSemWait`. -/
  | parked
  /-- Inside `canReceive`. -/
  | receiving
  /-- `chPoolAlloc`, with a frame received. -/
  | allocating (number : ℕ) (rxf : CANRxFrame)
  /-- Filling the slot. -/
  | filling (fp : Packet) (rxf : CANRxFrame)
  /-- `chMBPost`. -/
  | posting (fp : Packet)
  /-- `chPoolFree` in `can_rx_queue_post`. -/
  | dropping (fp : Packet)
  /-- `chMBFetch` in `can_rx_queue_flush`. -/
  | fetching
  /-- `chPoolFree` in `can_rx_queue_flush`. -/
  | freeing (fp : Packet)
  /-- `chSysHalt`, with the frame that was received. -/
  | halted (number : ℕ)

/-- The next call of the thread of `slcan_rx_spin`. -/
inductive Sender where
  /-- `chMBFetch` in `can_receive`. -/
  | fetching
  /-- `slcan_frame_to_ascii`. -/
  | encoding (rxf : Packet)
  /-- `chPoolFree` in `can_frame_delete`. -/
  | deleting (rxf : Packet) (txbuf : List UInt8)
  /-- `slcan_serial_write`. -/
  | writing (number : ℕ) (txbuf : List UInt8)

/-- The next call of the command thread. -/
inductive Commander where
  /-- Between commands. -/
  | idle
  /-- `canStart` in `can_open`. -/
  | starting
  /-- `chSemSignal` in `can_open`. -/
  | signalling
  /-- `chSemWait` in `can_close`. -/
  | waiting
  /-- Blocked in `chSemWait`. -/
  | parked
  /-- `canStop` in `can_close`. -/
  | stopping
  /-- `chMBFetch` in `can_rx_queue_flush`. -/
  | fetching
  /-- `chPoolFree` in `can_rx_queue_flush`. -/
  | freeing (fp : Packet)
  /-- Writing the reply. -/
  | replying (success : Bool)

/-! ### States -/

/-- The state of the pipeline. -/
structure Pipeline where
  canIsRunning : Bool
  started : Bool
  canConfigWait : Semaphore Waiter
  canRxPool : List Slot
  canRxQueue : Mailbox canRxBufferSize Packet
  rxPoolBuf : Slot → CanFrame
  rx : RxThread
  sender : Sender
  command : Commander
  /-- The frames `canReceive` returned. -/
  received : List CANRxFrame
  /-- The numbers of the frames that were written. -/
  sent : List ℕ
  /-- What was passed to `slcan_serial_write`. -/
  written : List (List UInt8)
  /-- The frames that were posted to a full queue, each with the frames queued then. -/
  overflows : List (ℕ × List ℕ)
  /-- The frames that `can_close` fetched. -/
  flushed : List ℕ

/-- The state after `can_init`. -/
def Pipeline.init : Pipeline where
  canIsRunning := false
  started := false
  canConfigWait := .init 1
  canRxPool := (List.finRange canRxPoolSize).reverse
  canRxQueue := .empty
  rxPoolBuf := fun _ => emptySlot
  rx := .checking
  sender := .fetching
  command := .idle
  received := []
  sent := []
  written := []
  overflows := []
  flushed := []

/-! ### Steps -/

/-- The steps of `can_rx_thread`, by the call they make.  What the state does not decide comes
with the step: a frame, the time, and what is left of the slots and of the pool when the copy
leaves its slot. -/
inductive RxAction where
  | getCounter
  | semSignal
  | semWait
  | receive (rxf : CANRxFrame)
  | timeout
  | alloc
  | fill (now : UInt32) (buf : Slot → CanFrame) (pool : List Slot)
  | post
  | drop
  | fetch
  | free

/-- The steps of `slcan_rx_spin`, with the text that is written for a slot that holds no frame
of at most eight data bytes. -/
inductive SendAction where
  | fetch
  | timeout
  | encode (txbuf : List UInt8)
  | delete
  | write

/-- The steps of the command thread. -/
inductive CommandAction where
  | canOpen
  | canStart
  | semSignal
  | canClose
  | semWait
  | canStop
  | fetch
  | free
  | reply

/-- A step of one of the threads. -/
inductive Action where
  | rx (a : RxAction)
  | send (a : SendAction)
  | command (a : CommandAction)

namespace Pipeline

/-- Signal `can_config_wait`, and let the thread that wakes go on. -/
def semSignal (s : Pipeline) : Pipeline :=
  match s.canConfigWait.signal with
  | (sem, none) => { s with canConfigWait := sem }
  | (sem, some .rx) => { s with canConfigWait := sem, rx := .receiving }
  | (sem, some .command) => { s with canConfigWait := sem, command := .stopping }

/-- The steps of `can_rx_thread`. -/
def rxStep (s : Pipeline) : RxAction → Option Pipeline
  | .getCounter =>
      match s.rx with
      | .checking =>
          if s.canConfigWait.counter = -1 then some { s with rx := .signalling }
          else some { s with rx := .receiving }
      | _ => none
  | .semSignal =>
      match s.rx with
      | .signalling => some (semSignal { s with rx := .waiting })
      | _ => none
  | .semWait =>
      match s.rx with
      | .waiting =>
          let (sem, blocked) := s.canConfigWait.wait .rx
          some { s with canConfigWait := sem, rx := if blocked then .parked else .receiving }
      | _ => none
  | .receive rxf =>
      match s.rx with
      | .receiving =>
          if s.started then
            some { s with
              rx := .allocating s.received.length rxf
              received := s.received ++ [rxf] }
          else
            none
      | _ => none
  | .timeout =>
      match s.rx with
      | .receiving => some { s with rx := .checking }
      | _ => none
  | .alloc =>
      match s.rx with
      | .allocating number rxf =>
          match s.canRxPool with
          | slot :: pool => some { s with canRxPool := pool, rx := .filling ⟨slot, number⟩ rxf }
          | [] => some { s with rx := .halted number }
      | _ => none
  | .fill now buf pool =>
      match s.rx with
      | .filling fp rxf =>
          match canRxFill (s.rxPoolBuf fp.slot) now rxf with
          | some frame =>
              some { s with
                rxPoolBuf := Function.update s.rxPoolBuf fp.slot frame
                rx := .posting fp }
          -- behind the data lies the next slot, which starts with its link while it is free
          | none => some { s with rxPoolBuf := buf, canRxPool := pool, rx := .posting fp }
      | _ => none
  | .post =>
      match s.rx with
      | .posting fp =>
          match s.canRxQueue.post fp with
          | some queue => some { s with canRxQueue := queue, rx := .checking }
          | none =>
              some { s with
                rx := .dropping fp
                overflows := (fp.number, s.canRxQueue.messages.map Packet.number) :: s.overflows }
      | _ => none
  | .drop =>
      match s.rx with
      | .dropping fp => some { s with canRxPool := fp.slot :: s.canRxPool, rx := .fetching }
      | _ => none
  | .fetch =>
      match s.rx with
      | .fetching =>
          match s.canRxQueue.fetch with
          | some (fp, queue) => some { s with canRxQueue := queue, rx := .freeing fp }
          | none => some { s with rx := .checking }
      | _ => none
  | .free =>
      match s.rx with
      | .freeing fp => some { s with canRxPool := fp.slot :: s.canRxPool, rx := .fetching }
      | _ => none

/-- The steps of `slcan_rx_spin`. -/
def sendStep (s : Pipeline) : SendAction → Option Pipeline
  | .fetch =>
      match s.sender with
      | .fetching =>
          match s.canRxQueue.fetch with
          | some (rxf, queue) => some { s with canRxQueue := queue, sender := .encoding rxf }
          | none => none
      | _ => none
  | .timeout =>
      match s.sender with
      | .fetching => some s
      | _ => none
  | .encode txbuf =>
      match s.sender with
      | .encoding rxf =>
          let line := (slcanRxLine (s.rxPoolBuf rxf.slot)).getD txbuf
          some { s with sender := .deleting rxf line }
      | _ => none
  | .delete =>
      match s.sender with
      | .deleting rxf line =>
          some { s with canRxPool := rxf.slot :: s.canRxPool, sender := .writing rxf.number line }
      | _ => none
  | .write =>
      match s.sender with
      | .writing number line =>
          some { s with
            sender := .fetching
            sent := s.sent ++ [number]
            written := s.written ++ [line] }
      | _ => none

/-- The steps of the command thread. -/
def commandStep (s : Pipeline) : CommandAction → Option Pipeline
  | .canOpen =>
      match s.command with
      | .idle =>
          if s.canIsRunning then some { s with command := .replying false }
          else some { s with command := .starting }
      | _ => none
  | .canStart =>
      match s.command with
      | .starting => some { s with canIsRunning := true, started := true, command := .signalling }
      | _ => none
  | .semSignal =>
      match s.command with
      | .signalling => some (semSignal { s with command := .replying true })
      | _ => none
  | .canClose =>
      match s.command with
      | .idle =>
          if s.canIsRunning then some { s with command := .waiting }
          else some { s with command := .replying true }
      | _ => none
  | .semWait =>
      match s.command with
      | .waiting =>
          let (sem, blocked) := s.canConfigWait.wait .command
          some { s with canConfigWait := sem, command := if blocked then .parked else .stopping }
      | _ => none
  | .canStop =>
      match s.command with
      | .stopping => some { s with started := false, canIsRunning := false, command := .fetching }
      | _ => none
  | .fetch =>
      match s.command with
      | .fetching =>
          match s.canRxQueue.fetch with
          | some (fp, queue) =>
              some { s with
                canRxQueue := queue
                command := .freeing fp
                flushed := fp.number :: s.flushed }
          | none => some { s with command := .replying true }
      | _ => none
  | .free =>
      match s.command with
      | .freeing fp => some { s with canRxPool := fp.slot :: s.canRxPool, command := .fetching }
      | _ => none
  | .reply =>
      match s.command with
      | .replying _ => some { s with command := .idle }
      | _ => none

/-- `chSysHalt` was called. -/
def Halted (s : Pipeline) : Prop := ∃ number, s.rx = .halted number

/-- A step of one of the threads.  After `chSysHalt` there is none. -/
def step (s : Pipeline) (a : Action) : Option Pipeline :=
  match s.rx with
  | .halted _ => none
  | _ =>
      match a with
      | .rx a => s.rxStep a
      | .send a => s.sendStep a
      | .command a => s.commandStep a

end Pipeline

end CanDongle

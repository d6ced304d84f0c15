import CanDongle.Pipeline.Step

/-!
# The handshake of opening and closing

`can_config_wait` starts at one, `can_open` increments it and `can_close` decrements it, so
that its counter is one or two whenever `wait_on_request` looks at it.  Nobody ever waits
for it: `Step` says what a step does given this, and the steps of the rest of the
development are taken from there.
-/

open Transition

namespace CanDongle

namespace Pipeline

/-- The points of `can_rx_thread` behind the test of `wait_on_request`. -/
def waits : RxThread → Bool
  | .signalling | .waiting | .parked => true
  | _ => false

/-- Whether the channel runs at a point of `can_open` and `can_close`. -/
def runs : Commander → Option Bool
  | .starting | .fetching | .freeing _ => some false
  | .signalling | .waiting | .stopping => some true
  | .idle | .parked | .replying _ => none

/-- The counter of `can_config_wait`: it is incremented after the channel was opened, and
decremented before it is closed. -/
def counter (canIsRunning : Bool) : Commander → ℤ
  | .signalling | .stopping => 1
  | _ => if canIsRunning then 2 else 1

/-- No thread ever waits for the semaphore. -/
structure NeverWaits (s : Pipeline) : Prop where
  rx : waits s.rx = false
  command : s.command ≠ .parked
  started : s.started = s.canIsRunning
  running : ∀ b ∈ runs s.command, s.canIsRunning = b
  counter_eq : s.canConfigWait.counter = counter s.canIsRunning s.command

theorem neverWaits_init :
  NeverWaits init
  where
  rx := rfl
  command := by rintro ⟨⟩
  started := rfl
  running := by rintro b ⟨⟩
  counter_eq := rfl

/-- What a step does when no thread waits for the semaphore. -/
inductive Step (s : Pipeline) : Action → Pipeline → Prop where
  | getCounter (h : s.rx = .checking) : Step s (.rx .getCounter) { s with rx := .receiving }
  | receive (rxf : CANRxFrame) (h : s.rx = .receiving) (hstarted : s.started = true) :
      Step s (.rx (.receive rxf))
        { s with rx := .allocating s.received.length rxf, received := s.received ++ [rxf] }
  | timeout (h : s.rx = .receiving) : Step s (.rx .timeout) { s with rx := .checking }
  | alloc {number : ℕ} {rxf : CANRxFrame} {slot : Slot} {pool : List Slot}
      (h : s.rx = .allocating number rxf) (hpool : s.canRxPool = slot :: pool) :
      Step s (.rx .alloc) { s with canRxPool := pool, rx := .filling ⟨slot, number⟩ rxf }
  | halt {number : ℕ} {rxf : CANRxFrame} (h : s.rx = .allocating number rxf)
      (hpool : s.canRxPool = []) :
      Step s (.rx .alloc) { s with rx := .halted number }
  | fill {fp : Packet} {rxf : CANRxFrame} (now : UInt32) (buf : Slot → CanFrame)
      (pool : List Slot) {frame : CanFrame} (h : s.rx = .filling fp rxf)
      (hframe : canRxFill (s.rxPoolBuf fp.slot) now rxf = some frame) :
      Step s (.rx (.fill now buf pool))
        { s with rxPoolBuf := Function.update s.rxPoolBuf fp.slot frame, rx := .posting fp }
  | overrun {fp : Packet} {rxf : CANRxFrame} (now : UInt32) (buf : Slot → CanFrame)
      (pool : List Slot) (h : s.rx = .filling fp rxf)
      (hframe : canRxFill (s.rxPoolBuf fp.slot) now rxf = none) :
      Step s (.rx (.fill now buf pool))
        { s with rxPoolBuf := buf, canRxPool := pool, rx := .posting fp }
  | post {fp : Packet} {queue : Mailbox canRxBufferSize Packet} (h : s.rx = .posting fp)
      (hqueue : queue.messages = s.canRxQueue.messages ++ [fp]) :
      Step s (.rx .post) { s with canRxQueue := queue, rx := .checking }
  | overflow {fp : Packet} (h : s.rx = .posting fp)
      (hfull : s.canRxQueue.messages.length = canRxBufferSize) :
      Step s (.rx .post)
        { s with
          rx := .dropping fp
          overflows := (fp.number, s.canRxQueue.messages.map Packet.number) :: s.overflows }
  | drop {fp : Packet} (h : s.rx = .dropping fp) :
      Step s (.rx .drop) { s with canRxPool := fp.slot :: s.canRxPool, rx := .fetching }
  | fetch {fp : Packet} {queue : Mailbox canRxBufferSize Packet} (h : s.rx = .fetching)
      (hqueue : s.canRxQueue.messages = fp :: queue.messages) :
      Step s (.rx .fetch) { s with canRxQueue := queue, rx := .freeing fp }
  | fetched (h : s.rx = .fetching) (hempty : s.canRxQueue.messages = []) :
      Step s (.rx .fetch) { s with rx := .checking }
  | free {fp : Packet} (h : s.rx = .freeing fp) :
      Step s (.rx .free) { s with canRxPool := fp.slot :: s.canRxPool, rx := .fetching }
  | sendFetch {rxf : Packet} {queue : Mailbox canRxBufferSize Packet} (h : s.sender = .fetching)
      (hqueue : s.canRxQueue.messages = rxf :: queue.messages) :
      Step s (.send .fetch) { s with canRxQueue := queue, sender := .encoding rxf }
  | sendTimeout (h : s.sender = .fetching) : Step s (.send .timeout) s
  | encode {rxf : Packet} (txbuf : List UInt8) (h : s.sender = .encoding rxf) :
      Step s (.send (.encode txbuf))
        { s with sender := .deleting rxf ((slcanRxLine (s.rxPoolBuf rxf.slot)).getD txbuf) }
  | delete {rxf : Packet} {line : List UInt8} (h : s.sender = .deleting rxf line) :
      Step s (.send .delete)
        { s with canRxPool := rxf.slot :: s.canRxPool, sender := .writing rxf.number line }
  | write {number : ℕ} {line : List UInt8} (h : s.sender = .writing number line) :
      Step s (.send .write)
        { s with
          sender := .fetching
          sent := s.sent ++ [number]
          written := s.written ++ [line] }
  | openRunning (h : s.command = .idle) (hrunning : s.canIsRunning = true) :
      Step s (.command .canOpen) { s with command := .replying false }
  | openClosed (h : s.command = .idle) (hrunning : s.canIsRunning = false) :
      Step s (.command .canOpen) { s with command := .starting }
  | canStart (h : s.command = .starting) :
      Step s (.command .canStart)
        { s with canIsRunning := true, started := true, command := .signalling }
  | semSignal {sem : Semaphore Waiter} (h : s.command = .signalling)
      (hsem : sem.counter = s.canConfigWait.counter + 1) :
      Step s (.command .semSignal) { s with canConfigWait := sem, command := .replying true }
  | closeRunning (h : s.command = .idle) (hrunning : s.canIsRunning = true) :
      Step s (.command .canClose) { s with command := .waiting }
  | closeClosed (h : s.command = .idle) (hrunning : s.canIsRunning = false) :
      Step s (.command .canClose) { s with command := .replying true }
  | semWait {sem : Semaphore Waiter} (h : s.command = .waiting)
      (hsem : sem.counter = s.canConfigWait.counter - 1) :
      Step s (.command .semWait) { s with canConfigWait := sem, command := .stopping }
  | canStop (h : s.command = .stopping) :
      Step s (.command .canStop)
        { s with started := false, canIsRunning := false, command := .fetching }
  | closeFetch {fp : Packet} {queue : Mailbox canRxBufferSize Packet} (h : s.command = .fetching)
      (hqueue : s.canRxQueue.messages = fp :: queue.messages) :
      Step s (.command .fetch)
        { s with canRxQueue := queue, command := .freeing fp, flushed := fp.number :: s.flushed }
  | closeFetched (h : s.command = .fetching) (hempty : s.canRxQueue.messages = []) :
      Step s (.command .fetch) { s with command := .replying true }
  | closeFree {fp : Packet} (h : s.command = .freeing fp) :
      Step s (.command .free) { s with canRxPool := fp.slot :: s.canRxPool, command := .fetching }
  | reply {success : Bool} (h : s.command = .replying success) :
      Step s (.command .reply) { s with command := .idle }

variable {s s' : Pipeline}

/-- When no thread waits for the semaphore, its counter is positive. -/
theorem NeverWaits.counter_pos (h : NeverWaits s) :
  0 < s.canConfigWait.counter
  := by
  rw [h.counter_eq]
  cases s.command <;> cases s.canIsRunning <;> simp [counter]

theorem NeverWaits.not_waits (h : NeverWaits s) {rx : RxThread} (hrx : s.rx = rx) :
  ¬ waits rx = true
  := by
  rw [← hrx, h.rx]
  apply Bool.false_ne_true

theorem step_of_rxStep (hinv : NeverWaits s) {a : RxAction} (h : s.rxStep a = some s') :
  Step s (.rx a) s'
  := by
  have hpos := hinv.counter_pos
  cases a with
  | getCounter =>
      simp only [rxStep] at h
      split at h
      case h_1 hrx =>
        rw [if_neg (by omega)] at h
        cases h
        exact .getCounter hrx
      case h_2 => cases h
  | semSignal =>
      simp only [rxStep] at h
      split at h
      case h_1 hrx => exact (hinv.not_waits hrx rfl).elim
      case h_2 => cases h
  | semWait =>
      simp only [rxStep] at h
      split at h
      case h_1 hrx => exact (hinv.not_waits hrx rfl).elim
      case h_2 => cases h
  | receive rxf =>
      simp only [rxStep] at h
      split at h
      case h_1 hrx =>
        split at h
        case isTrue hstarted => cases h; exact .receive rxf hrx hstarted
        case isFalse => cases h
      case h_2 => cases h
  | timeout =>
      simp only [rxStep] at h
      split at h
      case h_1 hrx => cases h; exact .timeout hrx
      case h_2 => cases h
  | alloc =>
      simp only [rxStep] at h
      split at h
      case h_1 hrx =>
        split at h
        case h_1 hpool => cases h; exact .alloc hrx hpool
        case h_2 hpool => cases h; exact .halt hrx hpool
      case h_2 => cases h
  | fill now buf pool =>
      simp only [rxStep] at h
      split at h
      case h_1 hrx =>
        split at h
        case h_1 hframe => cases h; exact .fill now buf pool hrx hframe
        case h_2 hframe => cases h; exact .overrun now buf pool hrx hframe
      case h_2 => cases h
  | post =>
      simp only [rxStep] at h
      split at h
      case h_1 hrx =>
        split at h
        case h_1 hpost => cases h; exact .post hrx (Mailbox.post_eq_some hpost).2
        case h_2 hpost => cases h; exact .overflow hrx (Mailbox.post_eq_none hpost)
      case h_2 => cases h
  | drop =>
      simp only [rxStep] at h
      split at h
      case h_1 hrx => cases h; exact .drop hrx
      case h_2 => cases h
  | fetch =>
      simp only [rxStep] at h
      split at h
      case h_1 hrx =>
        split at h
        case h_1 hfetch => cases h; exact .fetch hrx (Mailbox.fetch_eq_some hfetch)
        case h_2 hfetch => cases h; exact .fetched hrx (Mailbox.fetch_eq_none hfetch)
      case h_2 => cases h
  | free =>
      simp only [rxStep] at h
      split at h
      case h_1 hrx => cases h; exact .free hrx
      case h_2 => cases h

theorem step_of_sendStep {a : SendAction} (h : s.sendStep a = some s') :
  Step s (.send a) s'
  := by
  cases a with
  | fetch =>
      simp only [sendStep] at h
      split at h
      case h_1 hsender =>
        split at h
        case h_1 hfetch => cases h; exact .sendFetch hsender (Mailbox.fetch_eq_some hfetch)
        case h_2 => cases h
      case h_2 => cases h
  | timeout =>
      simp only [sendStep] at h
      split at h
      case h_1 hsender => cases h; exact .sendTimeout hsender
      case h_2 => cases h
  | encode txbuf =>
      simp only [sendStep] at h
      split at h
      case h_1 hsender => cases h; exact .encode txbuf hsender
      case h_2 => cases h
  | delete =>
      simp only [sendStep] at h
      split at h
      case h_1 hsender => cases h; exact .delete hsender
      case h_2 => cases h
  | write =>
      simp only [sendStep] at h
      split at h
      case h_1 hsender => cases h; exact .write hsender
      case h_2 => cases h

/-- Signalling a semaphore that is positive wakes no thread. -/
theorem semSignal_of_pos (h : 0 < s.canConfigWait.counter) :
  ∃ sem : Semaphore Waiter, sem.counter = s.canConfigWait.counter + 1 ∧
    s.semSignal = { s with canConfigWait := sem }
  := by
  obtain ⟨hcounter, hnone⟩ := Semaphore.signal_of_nonneg h.le
  use s.canConfigWait.signal.1, hcounter
  unfold semSignal
  split
  case h_1 hsignal => rw [hsignal]
  case h_2 hsignal | h_3 hsignal =>
    rw [hsignal] at hnone
    cases hnone

theorem step_of_commandStep (hinv : NeverWaits s) {a : CommandAction}
    (h : s.commandStep a = some s') :
  Step s (.command a) s'
  := by
  have hpos := hinv.counter_pos
  cases a with
  | canOpen =>
      simp only [commandStep] at h
      split at h
      case h_1 hcommand =>
        split at h
        case isTrue hrunning => cases h; exact .openRunning hcommand hrunning
        case isFalse hrunning => cases h; exact .openClosed hcommand (by simpa using hrunning)
      case h_2 => cases h
  | canStart =>
      simp only [commandStep] at h
      split at h
      case h_1 hcommand => cases h; exact .canStart hcommand
      case h_2 => cases h
  | semSignal =>
      simp only [commandStep] at h
      split at h
      case h_1 hcommand =>
        obtain ⟨sem, hcounter, hsignal⟩ :=
          semSignal_of_pos (s := { s with command := .replying true }) hpos
        rw [hsignal] at h
        cases h
        exact .semSignal hcommand hcounter
      case h_2 => cases h
  | canClose =>
      simp only [commandStep] at h
      split at h
      case h_1 hcommand =>
        split at h
        case isTrue hrunning => cases h; exact .closeRunning hcommand hrunning
        case isFalse hrunning => cases h; exact .closeClosed hcommand (by simpa using hrunning)
      case h_2 => cases h
  | semWait =>
      simp only [commandStep] at h
      split at h
      case h_1 hcommand =>
        obtain ⟨hcounter, hblocked⟩ := Semaphore.wait_of_pos hpos .command
        rw [hblocked] at h
        cases h
        exact .semWait hcommand hcounter
      case h_2 => cases h
  | canStop =>
      simp only [commandStep] at h
      split at h
      case h_1 hcommand => cases h; exact .canStop hcommand
      case h_2 => cases h
  | fetch =>
      simp only [commandStep] at h
      split at h
      case h_1 hcommand =>
        split at h
        case h_1 hfetch => cases h; exact .closeFetch hcommand (Mailbox.fetch_eq_some hfetch)
        case h_2 hfetch => cases h; exact .closeFetched hcommand (Mailbox.fetch_eq_none hfetch)
      case h_2 => cases h
  | free =>
      simp only [commandStep] at h
      split at h
      case h_1 hcommand => cases h; exact .closeFree hcommand
      case h_2 => cases h
  | reply =>
      simp only [commandStep] at h
      split at h
      case h_1 hcommand => cases h; exact .reply hcommand
      case h_2 => cases h

/-- A step of the pipeline in which no thread waits for the semaphore. -/
theorem step_cases (hinv : NeverWaits s) {a : Action} (h : step s a = some s') :
  Step s a s'
  := by
  unfold step at h
  split at h
  · cases h
  · cases a with
    | rx a => apply step_of_rxStep hinv h
    | send a => apply step_of_sendStep h
    | command a => apply step_of_commandStep hinv h

/-- What the command thread has set up stays as it is in the steps of the other threads. -/
theorem NeverWaits.frame (hinv : NeverWaits s) (hrunning : s'.canIsRunning = s.canIsRunning)
    (hstarted : s'.started = s.started) (hsem : s'.canConfigWait = s.canConfigWait)
    (hcommand : s'.command = s.command) (hrx : waits s'.rx = false) :
  NeverWaits s'
  where
  rx := hrx
  command := by
    rw [hcommand]
    apply hinv.command
  started := by
    rw [hstarted, hrunning]
    apply hinv.started
  running := by
    rw [hcommand, hrunning]
    apply hinv.running
  counter_eq := by
    rw [hsem, hrunning, hcommand]
    apply hinv.counter_eq

/-- No step makes a thread wait. -/
theorem NeverWaits.step (hinv : NeverWaits s) {a : Action} (h : Step s a s') :
  NeverWaits s'
  := by
  have hruns := hinv.running
  have hcounter := hinv.counter_eq
  cases h with
  | getCounter | receive | timeout | alloc | halt | fill | overrun | post | overflow | drop | fetch
  | fetched | free => exact hinv.frame rfl rfl rfl rfl rfl
  | sendFetch | sendTimeout | encode | delete | write => exact hinv.frame rfl rfl rfl rfl hinv.rx
  | openRunning h hrunning =>
      rw [h] at hcounter
      exact ⟨hinv.rx, by simp, hinv.started, by simp [runs], hcounter⟩
  | openClosed h hrunning =>
      rw [h] at hcounter
      exact ⟨hinv.rx, by simp, hinv.started, by simp [runs, hrunning], hcounter⟩
  | canStart h =>
      rw [h] at hcounter hruns
      rw [hruns false rfl] at hcounter
      exact ⟨hinv.rx, by simp, rfl, by simp [runs], hcounter⟩
  | semSignal h hsem =>
      rw [h] at hcounter hruns
      rw [hruns true rfl] at hcounter
      use hinv.rx, by simp, hinv.started, by simp [runs]
      rw [hsem, hcounter, hruns true rfl]
      rfl
  | closeRunning h hrunning =>
      rw [h] at hcounter
      exact ⟨hinv.rx, by simp, hinv.started, by simp [runs, hrunning], hcounter⟩
  | closeClosed h hrunning =>
      rw [h] at hcounter
      exact ⟨hinv.rx, by simp, hinv.started, by simp [runs], hcounter⟩
  | semWait h hsem =>
      rw [h] at hcounter hruns
      rw [hruns true rfl] at hcounter
      use hinv.rx, by simp, hinv.started, by simp [runs, hruns true rfl]
      rw [hsem, hcounter]
      rfl
  | canStop h =>
      rw [h] at hcounter
      exact ⟨hinv.rx, by simp, rfl, by simp [runs], hcounter⟩
  | closeFetch h hqueue =>
      rw [h] at hcounter hruns
      exact ⟨hinv.rx, by simp, hinv.started, by simp [runs, hruns false rfl], hcounter⟩
  | closeFetched h hempty =>
      rw [h] at hcounter
      exact ⟨hinv.rx, by simp, hinv.started, by simp [runs], hcounter⟩
  | closeFree h =>
      rw [h] at hcounter hruns
      exact ⟨hinv.rx, by simp, hinv.started, by simp [runs, hruns false rfl], hcounter⟩
  | reply h =>
      rw [h] at hcounter
      exact ⟨hinv.rx, by simp, hinv.started, by simp [runs], hcounter⟩

/-! ### Closing is not synchronised -/

/-- A step is synchronised with `can_rx_thread`: the hardware is stopped only while this thread
is parked, and it is not inside `canReceive` while the channel is closed. -/
structure Synchronised (s : Pipeline) (a : Action) (s' : Pipeline) : Prop where
  stops : a = .command .canStop → s.rx = .parked
  closed : s'.canIsRunning = false → s'.rx ≠ .receiving

/-- A step that needs no synchronisation: the hardware is not stopped, and `wait_on_request`
does not look at the semaphore while the channel is closed. -/
def Unsynchronised (s : Pipeline) (a : Action) : Prop :=
  a ≠ .command .canStop ∧ (a = .rx .getCounter → s.canIsRunning = true)

/-- The state after steps that need no synchronisation. -/
structure Clear (s : Pipeline) : Prop where
  neverWaits : NeverWaits s
  closed : s.canIsRunning = false → s.rx ≠ .receiving

/-- `canReceive` is entered only from the test of `wait_on_request`. -/
theorem receiving_of_step {a : Action} (h : Step s a s') (hrx : s'.rx = .receiving) :
  a = .rx .getCounter ∨ s.rx = .receiving
  := by
  cases h <;> first | exact .inl rfl | exact .inr hrx | cases hrx

/-- The channel is closed only by stopping the hardware. -/
theorem closed_of_step {a : Action} (h : Step s a s') (hclosed : s'.canIsRunning = false) :
  a = .command .canStop ∨ s.canIsRunning = false
  := by
  cases h <;> first | exact .inl rfl | exact .inr hclosed | cases hclosed

/-- A step is synchronised exactly when it needs no synchronisation. -/
theorem synchronised_step_iff (hinv : Clear s) {a : Action} (h : Step s a s') :
  Synchronised s a s' ↔ Unsynchronised s a
  := by
  constructor
  · intro hsync
    constructor
    · rintro rfl
      apply hinv.neverWaits.not_waits (hsync.stops rfl) rfl
    · rintro rfl
      cases h with
      | getCounter hrx =>
          by_contra hclosed
          apply hsync.closed (by simpa using hclosed) rfl
  · rintro ⟨hstop, hcheck⟩
    constructor
    · intro ha
      exact absurd ha hstop
    · intro hclosed' hrx'
      have hclosed := (closed_of_step h hclosed').resolve_left hstop
      rcases receiving_of_step h hrx' with ha | hrx
      · rw [hcheck ha] at hclosed
        cases hclosed
      · apply hinv.closed hclosed hrx

/-- Closing the channel is synchronised with `can_rx_thread` in exactly the runs in which it
needs no synchronisation. -/
theorem synchronised_iff (acts : List Action) :
  Along step Synchronised init acts ↔ Along step (fun s a _ => Unsynchronised s a) init acts
  := by
  apply along_congr Clear
  · intro s a s' hinv h hsync
    exact ⟨hinv.neverWaits.step (step_cases hinv.neverWaits h), hsync.closed⟩
  · intro s a s' hinv h
    apply synchronised_step_iff hinv (step_cases hinv.neverWaits h)
  · exact ⟨neverWaits_init, by simp [init]⟩

/-- The channel is opened, `can_rx_thread` enters `canReceive`, and the channel is closed. -/
def openReceiveClose : List Action :=
  [.command .canOpen, .command .canStart, .command .semSignal, .command .reply, .rx .getCounter,
    .command .canClose, .command .semWait]

/-- After `can_init` the receive thread enters `canReceive`, and once the channel was opened
the hardware is stopped while the thread is there. -/
theorem openReceiveClose_not_synchronised :
  ¬ Along step Synchronised init [.rx .getCounter] ∧
    ¬ Along step Synchronised init (openReceiveClose ++ [.command .canStop])
  := by
  constructor
  · intro h
    exact (h _ rfl).1.closed rfl rfl
  · intro h
    have hstops := (h.at_step rfl rfl).stops rfl
    cases hstops

end Pipeline

end CanDongle

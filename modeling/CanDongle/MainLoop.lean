import CanDongle.BusPower
import CanDongle.Button
import CanDongle.Library.Semaphore

/-!
# The main loop

The main thread polls the button, has the voltage of the bus measured, and shows it with the
LED.  It waits for a conversion of the ADC with a binary semaphore, which the callback signals
from an interrupt.  Commands of the host turn the power on and off at any moment in between, and
an error of the ADC halts the system.

What the main thread and the interrupt do is recorded in a log, which is not read by the code.
The log is one of iterations: each has one poll and one conversion, and shows its sample.  So
when the button turns the power on, the voltage was measured while the button was held.
-/

open Transition

namespace CanDongle

/-- Where the main thread is in its loop. -/
inductive MainThread where
  /-- `user_button_poll`. -/
  | polling
  /-- `adcStartConversion`. -/
  | starting
  /-- `chBSemWait`. -/
  | waiting
  /-- Blocked in `chBSemWait`. -/
  | parked
  /-- Setting the LED. -/
  | showing
  /-- `chThdSleepMilliseconds`. -/
  | sleeping
  /-- `chSysHalt`. -/
  | halted
  deriving DecidableEq, Repr

/-- An entry of the log. -/
inductive MainEvent where
  | polled (p : Polled)
  | started
  | measured (sample : UInt16)
  | shown (led : Bool)
  deriving DecidableEq, Repr

/-- The state of the main thread and of what it shares with the interrupt and the command
thread. -/
structure MainLoop where
  thread : MainThread
  button : UserButton
  power : BusPower
  adcWait : Semaphore Unit
  /-- A conversion was started, and has not completed. -/
  converting : Bool
  /-- `CAN1_PWR_LED`. -/
  led : Bool
  log : List MainEvent

/-- A step of the main thread, an interrupt, or a command. -/
inductive MainAction where
  | poll (p : Poll)
  | adcStartConversion
  | semWait
  | setLed
  | wake
  | adcCallback (sample : UInt16)
  | adcErrorCallback
  /-- The command thread executes a line, with the answers of the CAN driver. -/
  | command (answers : DriverCall → Bool) (line : Line)

namespace MainLoop

/-- Before the loop: `bus_power_init` was called. -/
def init : MainLoop := ⟨.polling, .init, .init, .init 0, false, false, []⟩

/-- The LED after `bus_voltage_adc_conversion`. -/
def showVoltage (busVoltage : UInt16) (led : Bool) : Bool :=
  let voltage := BusPower.busVoltageGet busVoltage
  if voltage > 9 / 2 ∧ voltage < 11 / 2 then
    true
  else if voltage > 1 / 2 ∨ voltage > 11 / 2 then
    !led
  else
    false

/-- A poll of the button. -/
def pollStep (s : MainLoop) (p : Poll) : MainLoop :=
  let (toggled, button) := UserButton.userButtonPoll p.pressed p.timestamp s.button
  { s with
    thread := .starting
    button := button
    power := if toggled then s.power.busPowerToggle else s.power
    log := s.log ++ [.polled { p with toggled := toggled }] }

/-- `adc_callback`. -/
def callbackStep (s : MainLoop) (sample : UInt16) : MainLoop :=
  let (adcWait, woken) := s.adcWait.signalBinary
  { s with
    thread := if woken.isSome then .showing else s.thread
    power := s.power.adcCallback sample
    adcWait := adcWait
    converting := false
    log := s.log ++ [.measured sample] }

/-- `panic`, which `chSysHalt` calls: it sets the LED, and turns the power off. -/
def panic (s : MainLoop) : MainLoop :=
  { s with thread := .halted, power := s.power.canBusPowerEnable false, led := true }

/-- Take an action. -/
def step (version : Version) (s : MainLoop) : MainAction → Option MainLoop
  | .poll p =>
      match s.thread with
      | .polling => some (s.pollStep p)
      | _ => none
  | .adcStartConversion =>
      match s.thread with
      | .starting =>
          some { s with thread := .waiting, converting := true, log := s.log ++ [.started] }
      | _ => none
  | .semWait =>
      match s.thread with
      | .waiting =>
          let (adcWait, blocked) := s.adcWait.wait ()
          some { s with thread := if blocked then .parked else .showing, adcWait := adcWait }
      | _ => none
  | .setLed =>
      match s.thread with
      | .showing =>
          let led := showVoltage s.power.busVoltage s.led
          some { s with thread := .sleeping, led := led, log := s.log ++ [.shown led] }
      | _ => none
  | .wake =>
      match s.thread with
      | .sleeping => some { s with thread := .polling }
      | _ => none
  | .adcCallback sample =>
      match s.thread, s.converting with
      | .halted, _ => none
      | _, true => some (s.callbackStep sample)
      | _, false => none
  | .adcErrorCallback =>
      match s.thread, s.converting with
      | .halted, _ => none
      | _, true => some s.panic
      | _, false => none
  | .command answers line =>
      match s.thread with
      | .halted => none
      | _ => do
          let power ← s.power.step version (.command answers line)
          some { s with power := power }

/-- What a step does. -/
inductive Step (s : MainLoop) : MainAction → MainLoop → Prop where
  | poll (p : Poll) (h : s.thread = .polling) : Step s (.poll p) (s.pollStep p)
  | adcStartConversion (h : s.thread = .starting) :
      Step s .adcStartConversion
        { s with thread := .waiting, converting := true, log := s.log ++ [.started] }
  | semWait (h : s.thread = .waiting) :
      Step s .semWait { s with
        thread := if (s.adcWait.wait ()).2 then .parked else .showing
        adcWait := (s.adcWait.wait ()).1 }
  | setLed (h : s.thread = .showing) :
      Step s .setLed { s with
        thread := .sleeping
        led := showVoltage s.power.busVoltage s.led
        log := s.log ++ [.shown (showVoltage s.power.busVoltage s.led)] }
  | wake (h : s.thread = .sleeping) : Step s .wake { s with thread := .polling }
  | adcCallback (sample : UInt16) (h : s.thread ≠ .halted) (hadc : s.converting = true) :
      Step s (.adcCallback sample) (s.callbackStep sample)
  | adcErrorCallback (h : s.thread ≠ .halted) (hadc : s.converting = true) :
      Step s .adcErrorCallback s.panic
  | command (answers : DriverCall → Bool) (line : Line) (h : s.thread ≠ .halted) :
      Step s (.command answers line) { s with power := BusPower.commandEffect line s.power }

theorem step_cases {version : Version} {s s' : MainLoop} {a : MainAction}
    (h : s.step version a = some s') :
  Step s a s'
  := by
  cases a with
  | poll p =>
      simp only [step] at h
      split at h
      case h_1 hthread =>
        cases h
        exact .poll p hthread
      case h_2 => cases h
  | adcStartConversion =>
      simp only [step] at h
      split at h
      case h_1 hthread =>
        cases h
        exact .adcStartConversion hthread
      case h_2 => cases h
  | semWait =>
      simp only [step] at h
      split at h
      case h_1 hthread =>
        cases h
        exact .semWait hthread
      case h_2 => cases h
  | setLed =>
      simp only [step] at h
      split at h
      case h_1 hthread =>
        cases h
        exact .setLed hthread
      case h_2 => cases h
  | wake =>
      simp only [step] at h
      split at h
      case h_1 hthread =>
        cases h
        exact .wake hthread
      case h_2 => cases h
  | adcCallback sample =>
      simp only [step] at h
      split at h
      case h_2 hadc hrunning =>
        cases h
        exact .adcCallback sample hrunning hadc
      all_goals cases h
  | adcErrorCallback =>
      simp only [step] at h
      split at h
      case h_2 hadc hrunning =>
        cases h
        exact .adcErrorCallback hrunning hadc
      all_goals cases h
  | command answers line =>
      simp only [step] at h
      split at h
      case h_1 => cases h
      case h_2 hrunning =>
        rw [BusPower.step_command] at h
        cases h
        exact .command answers line hrunning

/-! ### Iterations -/

/-- An iteration of the loop: its poll, the sample of its conversion, and the LED after it. -/
structure Iteration where
  poll : Polled
  sample : UInt16
  led : Bool
  deriving DecidableEq, Repr

/-- What an iteration leaves in the log. -/
def Iteration.events (i : Iteration) : List MainEvent :=
  [.polled i.poll, .started, .measured i.sample, .shown i.led]

/-- The LED after some iterations. -/
def ledAfter (iterations : List Iteration) : Bool :=
  (iterations.getLast?.map Iteration.led).getD false

/-- An iteration shows its own sample, and not an older one. -/
def ShowsOwn (past : List Iteration) (i : Iteration) : Prop :=
  i.led = showVoltage i.sample (ledAfter past)

/-- Where the main thread is, after some iterations, and what the iteration has left in the log
so far. -/
inductive Within (s : MainLoop) : List MainEvent → Prop where
  | polling (h : s.thread = .polling) (hadc : s.converting = false)
      (hsem : s.adcWait.counter = 0) : Within s []
  | starting (p : Polled) (h : s.thread = .starting) (hadc : s.converting = false)
      (hsem : s.adcWait.counter = 0) : Within s [.polled p]
  | waiting (p : Polled) (h : s.thread = .waiting) (hadc : s.converting = true)
      (hsem : s.adcWait.counter = 0) : Within s [.polled p, .started]
  | parked (p : Polled) (h : s.thread = .parked) (hadc : s.converting = true)
      (hsem : s.adcWait.counter = -1) : Within s [.polled p, .started]
  | measured (p : Polled) (sample : UInt16) (h : s.thread = .waiting)
      (hadc : s.converting = false) (hsem : s.adcWait.counter = 1)
      (hsample : s.power.busVoltage = sample) : Within s [.polled p, .started, .measured sample]
  | showing (p : Polled) (sample : UInt16) (h : s.thread = .showing)
      (hadc : s.converting = false) (hsem : s.adcWait.counter = 0)
      (hsample : s.power.busVoltage = sample) : Within s [.polled p, .started, .measured sample]
  | sleeping (h : s.thread = .sleeping) (hadc : s.converting = false)
      (hsem : s.adcWait.counter = 0) : Within s []
  | halted (p : Polled) (h : s.thread = .halted) : Within s [.polled p, .started]

/-- The poll of an entry of the log. -/
def pollOf : MainEvent → Option Polled
  | .polled p => some p
  | _ => none

/-- The sample of an entry of the log. -/
def sampleOf : MainEvent → Option UInt16
  | .measured sample => some sample
  | _ => none

/-- The polls in a log. -/
def polls (log : List MainEvent) : List Polled := log.filterMap pollOf

/-- The samples in a log. -/
def samples (log : List MainEvent) : List UInt16 := log.filterMap sampleOf

theorem polls_events (iterations : List Iteration) (part : List MainEvent) :
  polls (iterations.flatMap Iteration.events ++ part)
    = iterations.map Iteration.poll ++ polls part
  := by
  induction iterations with
  | nil => rfl
  | cons i iterations ih =>
      rw [List.flatMap_cons, List.append_assoc]
      exact congrArg (i.poll :: ·) ih

theorem samples_events (iterations : List Iteration) (part : List MainEvent) :
  samples (iterations.flatMap Iteration.events ++ part)
    = iterations.map Iteration.sample ++ samples part
  := by
  induction iterations with
  | nil => rfl
  | cons i iterations ih =>
      rw [List.flatMap_cons, List.append_assoc]
      exact congrArg (i.sample :: ·) ih

/-! ### The invariant -/

/-- The log is one of iterations, and the variables are what the log says. -/
structure Inv (s : MainLoop) : Prop where
  iterations : ∃ iterations part, s.log = iterations.flatMap Iteration.events ++ part ∧
    Within s part ∧ Throughout ShowsOwn iterations ∧
    (s.thread ≠ .halted → s.led = ledAfter iterations)
  button : UserButton.pollAll ((polls s.log).map Polled.toPoll) = (s.button, polls s.log)
  samples : s.power.samples = samples s.log
  voltage : s.power.busVoltage = (MainLoop.samples s.log).getLast?.getD 0
  pin : s.thread ≠ .halted → s.power.canBusPower = s.power.busPowerEnabled
  halted : s.thread = .halted → s.led = true ∧ s.power.canBusPower = false

theorem inv_init :
  Inv init
  where
  iterations := ⟨[], [], rfl, .polling rfl rfl rfl, throughout_nil, fun _ => rfl⟩
  button := rfl
  samples := rfl
  voltage := rfl
  pin _ := rfl
  halted := by rintro ⟨⟩

variable {version : Version} {s s' : MainLoop}

/-- A step of the main thread or of the interrupt that is in the log of the iteration. -/
theorem Inv.within (h : Inv s) {entries : List MainEvent} (hlog : s'.log = s.log ++ entries)
    (hwithin : ∀ part, Within s part → Within s' (part ++ entries))
    (hled : s'.thread ≠ .halted → s.thread ≠ .halted ∧ s'.led = s.led) :
  ∃ iterations part, s'.log = iterations.flatMap Iteration.events ++ part ∧
    Within s' part ∧ Throughout ShowsOwn iterations ∧
    (s'.thread ≠ .halted → s'.led = ledAfter iterations)
  := by
  obtain ⟨iterations, part, heq, hpart, hshows, hafter⟩ := h.iterations
  refine ⟨iterations, part ++ entries, ?_, hwithin part hpart, hshows, ?_⟩
  · rw [hlog, heq, List.append_assoc]
  · intro hrunning
    obtain ⟨hrunning, hled⟩ := hled hrunning
    exact hled.trans (hafter hrunning)

/-- The power shows what the variable says after every command. -/
theorem pin_busPower {p : BusPower} (h : p.canBusPower = p.busPowerEnabled) (enable : Bool) :
  (BusPower.busPower enable p).2.canBusPower = (BusPower.busPower enable p).2.busPowerEnabled
  := by
  unfold BusPower.busPower
  split
  · split
    · exact h
    · rfl
  · rfl

theorem pin_busPowerToggle {p : BusPower} (h : p.canBusPower = p.busPowerEnabled) :
  p.busPowerToggle.canBusPower = p.busPowerToggle.busPowerEnabled
  := by
  unfold BusPower.busPowerToggle
  split <;> apply pin_busPower h

theorem pin_commandEffect {p : BusPower} (h : p.canBusPower = p.busPowerEnabled) (line : Line) :
  (BusPower.commandEffect line p).canBusPower = (BusPower.commandEffect line p).busPowerEnabled
  := by
  unfold BusPower.commandEffect
  split
  · apply pin_busPower h
  · apply pin_busPower h
  · exact h

/-- A poll is the first entry of an iteration. -/
theorem Inv.poll (h : Inv s) (hthread : s.thread = .polling) (p : Poll) :
  Inv (s.pollStep p)
  := by
  have hbutton := h.button
  have hvoltage := h.voltage
  have hsamples := h.samples
  obtain ⟨toggled, button, heq⟩ : ∃ toggled button,
      UserButton.userButtonPoll p.pressed p.timestamp s.button = (toggled, button) := ⟨_, _, rfl⟩
  have hstep : s.pollStep p = { s with
      thread := .starting
      button := button
      power := if toggled then s.power.busPowerToggle else s.power
      log := s.log ++ [.polled { p with toggled := toggled }] } := by
    rw [pollStep, heq]
  have hpolls : polls (s.log ++ [.polled { p with toggled := toggled }])
      = polls s.log ++ [{ p with toggled := toggled }] := List.filterMap_append
  have hsame : MainLoop.samples (s.log ++ [.polled { p with toggled := toggled }])
      = MainLoop.samples s.log := by
    rw [MainLoop.samples, List.filterMap_append]
    apply List.append_nil
  have hpower : (s.pollStep p).power.samples = s.power.samples ∧
      (s.pollStep p).power.busVoltage = s.power.busVoltage := by
    rw [hstep]
    cases toggled with
    | true => apply BusPower.busPowerToggle_samples
    | false => exact ⟨rfl, rfl⟩
  have hrunning : s.thread ≠ .halted := by simp [hthread]
  refine ⟨?_, ?_, ?_, ?_, ?_, ?_⟩
  · rw [hstep]
    refine h.within rfl ?_ fun _ => ⟨hrunning, rfl⟩
    intro part hpart
    cases hpart with
    | polling _ hadc hsem => exact .starting _ rfl hadc hsem
    | starting _ h | waiting _ h | parked _ h | measured _ _ h | showing _ _ h | sleeping h
    | halted _ h => cases hthread.symm.trans h
  · rw [hstep]
    simp only [hpolls]
    rw [List.map_append, List.map_singleton, UserButton.pollAll_concat, hbutton]
    simp [UserButton.next, heq]
  · rw [hpower.1, hstep, hsame, hsamples]
  · rw [hpower.2, hstep, hsame, hvoltage]
  · intro _
    rw [hstep]
    cases toggled with
    | true => apply pin_busPowerToggle (h.pin hrunning)
    | false => exact h.pin hrunning
  · rw [hstep]
    rintro ⟨⟩

/-- A step of the main thread that neither polls the button nor ends the iteration. -/
theorem Inv.mainStep (h : Inv s) {entries : List MainEvent} (hlog : s'.log = s.log ++ entries)
    (hentries : ∀ e ∈ entries, pollOf e = none ∧ sampleOf e = none)
    (hbutton : s'.button = s.button) (hpower : s'.power = s.power)
    (hrunning : s.thread ≠ .halted) (hrunning' : s'.thread ≠ .halted)
    (hiterations : ∃ iterations part, s'.log = iterations.flatMap Iteration.events ++ part ∧
      Within s' part ∧ Throughout ShowsOwn iterations ∧
      (s'.thread ≠ .halted → s'.led = ledAfter iterations)) :
  Inv s'
  := by
  have hpolls : polls s'.log = polls s.log := by
    rw [hlog, polls, List.filterMap_append,
      List.filterMap_eq_nil_iff.mpr fun e he => (hentries e he).1]
    apply List.append_nil
  have hsamples : MainLoop.samples s'.log = MainLoop.samples s.log := by
    rw [hlog, MainLoop.samples, List.filterMap_append,
      List.filterMap_eq_nil_iff.mpr fun e he => (hentries e he).2]
    apply List.append_nil
  refine ⟨hiterations, ?_, ?_, ?_, ?_, fun hhalted => absurd hhalted hrunning'⟩
  · rw [hpolls, hbutton]
    apply h.button
  · rw [hpower, hsamples]
    apply h.samples
  · rw [hpower, hsamples]
    apply h.voltage
  · intro _
    rw [hpower]
    apply h.pin hrunning

/-- The callback wakes the main thread when it is blocked. -/
theorem thread_callbackStep (hsem : s.adcWait.counter = -1) (sample : UInt16) :
  (s.callbackStep sample).thread = .showing
  := by
  have hsignal : s.adcWait.signal.2.isSome := (Semaphore.signal_of_neg (by omega)).2
  have hbinary : s.adcWait.signalBinary = s.adcWait.signal := if_pos (by omega)
  simp [callbackStep, hbinary, hsignal]

/-- The callback of the conversion that the main thread has started. -/
theorem Inv.callback (h : Inv s) (hhalted : s.thread ≠ .halted) (hadc : s.converting = true)
    (sample : UInt16) :
  Inv (s.callbackStep sample)
  := by
  have hpolls : polls (s.log ++ [.measured sample]) = polls s.log := by
    rw [polls, List.filterMap_append]
    apply List.append_nil
  have hsamples : MainLoop.samples (s.log ++ [.measured sample])
      = MainLoop.samples s.log ++ [sample] := List.filterMap_append
  have hrunning : (s.callbackStep sample).thread ≠ .halted := by
    simp only [callbackStep]
    split
    · decide
    · exact hhalted
  refine ⟨?_, ?_, ?_, ?_, fun _ => h.pin hhalted, fun h => absurd h hrunning⟩
  · refine h.within rfl ?_ fun _ => ⟨hhalted, rfl⟩
    intro part hpart
    cases hpart with
    | polling _ hidle | starting _ _ hidle | measured _ _ _ hidle | showing _ _ _ hidle
    | sleeping _ hidle => cases hidle.symm.trans hadc
    | halted _ h => exact absurd h hhalted
    | waiting p h _ hsem =>
        have hsignal := Semaphore.signal_of_nonneg hsem.ge
        have hbinary : s.adcWait.signalBinary = s.adcWait.signal := if_pos (by omega)
        refine .measured p sample ?_ rfl ?_ rfl
        · simp [callbackStep, hbinary, hsignal.2, h]
        · simp [callbackStep, hbinary, hsignal.1, hsem]
    | parked p h _ hsem =>
        have hsignal := Semaphore.signal_of_neg (s := s.adcWait) (by omega)
        have hbinary : s.adcWait.signalBinary = s.adcWait.signal := if_pos (by omega)
        refine .showing p sample (thread_callbackStep hsem sample) rfl ?_ rfl
        simp [callbackStep, hbinary, hsignal.1, hsem]
  · simp only [callbackStep, hpolls]
    apply h.button
  · simp only [callbackStep, hsamples, BusPower.adcCallback, h.samples]
  · simp [callbackStep, hsamples, BusPower.adcCallback]

/-- A command of the host. -/
theorem Inv.command (h : Inv s) (hrunning : s.thread ≠ .halted) (line : Line) :
  Inv { s with power := BusPower.commandEffect line s.power }
  := by
  obtain ⟨hsamples, hvoltage⟩ := BusPower.commandEffect_samples line s.power
  refine ⟨?_, h.button, hsamples.trans h.samples, hvoltage.trans h.voltage,
    fun _ => pin_commandEffect (h.pin hrunning) line, fun h => absurd h hrunning⟩
  refine h.within (List.append_nil s.log).symm ?_ fun _ => ⟨hrunning, rfl⟩
  intro part hpart
  rw [List.append_nil]
  cases hpart with
  | polling h hadc hsem => exact .polling h hadc hsem
  | starting p h hadc hsem => exact .starting p h hadc hsem
  | waiting p h hadc hsem => exact .waiting p h hadc hsem
  | parked p h hadc hsem => exact .parked p h hadc hsem
  | measured p sample h hadc hsem hsample =>
      exact .measured p sample h hadc hsem (hvoltage.trans hsample)
  | showing p sample h hadc hsem hsample =>
      exact .showing p sample h hadc hsem (hvoltage.trans hsample)
  | sleeping h hadc hsem => exact .sleeping h hadc hsem
  | halted p h => exact .halted p h

/-- An error of the ADC, during a conversion. -/
theorem Inv.panic (h : Inv s) (hrunning : s.thread ≠ .halted) (hadc : s.converting = true) :
  Inv s.panic
  := by
  refine ⟨?_, h.button, h.samples, h.voltage, fun h => absurd rfl h, fun _ => ⟨rfl, rfl⟩⟩
  refine h.within (List.append_nil s.log).symm ?_ fun h => absurd rfl h
  intro part hpart
  rw [List.append_nil]
  cases hpart with
  | waiting p | parked p => exact .halted p rfl
  | polling _ hidle | starting _ _ hidle | measured _ _ _ hidle | showing _ _ _ hidle
  | sleeping _ hidle => cases hidle.symm.trans hadc
  | halted _ h => exact absurd h hrunning

/-- `adcStartConversion`. -/
theorem Inv.adcStartConversion (h : Inv s) (hthread : s.thread = .starting) :
  Inv { s with thread := .waiting, converting := true, log := s.log ++ [.started] }
  := by
  have hrunning : s.thread ≠ .halted := by simp [hthread]
  refine h.mainStep rfl (by simp [pollOf, sampleOf]) rfl rfl hrunning (by simp) ?_
  refine h.within rfl ?_ fun _ => ⟨hrunning, rfl⟩
  intro part hpart
  cases hpart with
  | starting p _ hadc hsem => exact .waiting p rfl rfl hsem
  | polling h | waiting _ h | parked _ h | measured _ _ h | showing _ _ h | sleeping h
  | halted _ h => cases hthread.symm.trans h

/-- `chBSemWait` passes when the conversion has completed, and blocks otherwise. -/
theorem Inv.semWait (h : Inv s) (hthread : s.thread = .waiting) :
  Inv { s with
    thread := if (s.adcWait.wait ()).2 then .parked else .showing
    adcWait := (s.adcWait.wait ()).1 }
  := by
  have hrunning : s.thread ≠ .halted := by simp [hthread]
  refine h.mainStep (List.append_nil s.log).symm (by simp) rfl rfl hrunning ?_ ?_
  · simp only
    split <;> decide
  refine h.within (List.append_nil s.log).symm ?_ fun _ => ⟨hrunning, rfl⟩
  intro part hpart
  rw [List.append_nil]
  cases hpart with
  | waiting p _ hadc hsem =>
      have hwait := Semaphore.wait_of_nonpos hsem.le ()
      refine .parked p ?_ hadc ?_
      · simp [hwait.2]
      · simp [hwait.1, hsem]
  | measured p sample _ hadc hsem hsample =>
      have hwait := Semaphore.wait_of_pos (s := s.adcWait) (by omega) ()
      refine .showing p sample ?_ hadc ?_ hsample
      · simp [hwait.2]
      · simp [hwait.1, hsem]
  | polling h | starting _ h | parked _ h | showing _ _ h | sleeping h | halted _ h =>
      cases hthread.symm.trans h

/-- Setting the LED ends an iteration. -/
theorem Inv.setLed (h : Inv s) (hthread : s.thread = .showing) :
  Inv { s with
    thread := .sleeping
    led := showVoltage s.power.busVoltage s.led
    log := s.log ++ [.shown (showVoltage s.power.busVoltage s.led)] }
  := by
  have hrunning : s.thread ≠ .halted := by simp [hthread]
  refine h.mainStep rfl (by simp [pollOf, sampleOf]) rfl rfl hrunning (by simp) ?_
  obtain ⟨iterations, part, hlog, hpart, hshows, hled⟩ := h.iterations
  cases hpart with
  | showing p sample _ hadc hsem hsample =>
      refine ⟨iterations ++ [⟨p, sample, showVoltage sample s.led⟩], [], ?_,
        .sleeping rfl hadc hsem, hshows.concat ?_, ?_⟩
      · simp [hlog, hsample, Iteration.events]
      · rw [ShowsOwn, hled hrunning]
      · simp [ledAfter, hsample]
  | polling h | starting _ h | waiting _ h | parked _ h | measured _ _ h | sleeping h
  | halted _ h => cases hthread.symm.trans h

theorem Inv.wake (h : Inv s) (hthread : s.thread = .sleeping) :
  Inv { s with thread := .polling }
  := by
  have hrunning : s.thread ≠ .halted := by simp [hthread]
  refine h.mainStep (List.append_nil s.log).symm (by simp) rfl rfl hrunning (by simp) ?_
  refine h.within (List.append_nil s.log).symm ?_ fun _ => ⟨hrunning, rfl⟩
  intro part hpart
  rw [List.append_nil]
  cases hpart with
  | sleeping _ hadc hsem => exact .polling rfl hadc hsem
  | polling h | starting _ h | waiting _ h | parked _ h | measured _ _ h | showing _ _ h
  | halted _ h => cases hthread.symm.trans h

theorem Inv.step (h : Inv s) {a : MainAction} (hstep : Step s a s') :
  Inv s'
  := by
  cases hstep with
  | poll p hthread => apply h.poll hthread
  | adcStartConversion hthread => apply h.adcStartConversion hthread
  | semWait hthread => apply h.semWait hthread
  | setLed hthread => apply h.setLed hthread
  | wake hthread => apply h.wake hthread
  | adcCallback sample hrunning hadc => apply h.callback hrunning hadc
  | adcErrorCallback hrunning hadc => apply h.panic hrunning hadc
  | command answers line hrunning => apply h.command hrunning

theorem inv_of_run {acts : List MainAction} (h : run (step version) init acts = some s) :
  Inv s
  := run_invariant (fun _ _ _ h hstep => h.step (step_cases hstep)) inv_init h

/-! ### What the loop does -/

/-- In every run, the log is one of iterations, and of the beginning of another one: each polls
the button, starts one conversion, which completes, and then shows the sample of this conversion
with the LED.  A conversion is only started when none is running, and while the main thread is
blocked, one is running that will wake it.  After an error of the ADC the power is off. -/
theorem iterations_of_run {acts : List MainAction}
    (h : run (step version) init acts = some s) :
  (∃ iterations part rest last, s.log = iterations.flatMap Iteration.events ++ part ∧
    part ++ rest = Iteration.events last ∧ rest ≠ [] ∧ Throughout ShowsOwn iterations ∧
    (s.thread ≠ .halted → s.led = ledAfter iterations)) ∧
    (s.thread = .starting → s.converting = false) ∧
    (s.thread = .parked → s.converting = true ∧
      ∀ sample, ∃ s', s.step version (.adcCallback sample) = some s' ∧ s'.thread = .showing) ∧
    (s.thread = .halted → s.led = true ∧ s.power.canBusPower = false)
  := by
  obtain ⟨iterations, part, hlog, hpart, hshows, hled⟩ := (inv_of_run h).iterations
  refine ⟨?_, ?_, ?_, (inv_of_run h).halted⟩
  · obtain ⟨rest, last, hrest, hne⟩ : ∃ rest last, part ++ rest = Iteration.events last ∧
        rest ≠ [] := by
      cases hpart with
      | polling | sleeping => exact ⟨_, ⟨⟨⟨false, 0⟩, false⟩, 0, false⟩, rfl, by rintro ⟨⟩⟩
      | starting p | waiting p | parked p | halted p =>
          exact ⟨_, ⟨p, 0, false⟩, rfl, by rintro ⟨⟩⟩
      | measured p sample | showing p sample =>
          exact ⟨_, ⟨p, sample, false⟩, rfl, by rintro ⟨⟩⟩
    exact ⟨iterations, part, rest, last, hlog, hrest, hne, hshows, hled⟩
  · intro hthread
    cases hpart with
    | starting p _ hadc => exact hadc
    | polling h | waiting _ h | parked _ h | measured _ _ h | showing _ _ h | sleeping h
    | halted _ h => cases hthread.symm.trans h
  · intro hthread
    cases hpart with
    | parked p _ hadc hsem =>
        refine ⟨hadc, ?_⟩
        intro sample
        refine ⟨s.callbackStep sample, ?_, ?_⟩
        · simp [MainLoop.step, hthread, hadc]
        · apply thread_callbackStep hsem
    | polling h | starting _ h | waiting _ h | measured _ _ h | showing _ _ h | sleeping h
    | halted _ h => cases hthread.symm.trans h

/-- An iteration of the loop, in which the conversion completes while the thread is blocked. -/
def iteration (p : Poll) (sample : UInt16) : List MainAction :=
  [.poll p, .adcStartConversion, .semWait, .adcCallback sample, .setLed, .wake]

theorem iterations_of_run_iteration :
  ∃ s, run (step mockVersion) init (iteration ⟨false, 0⟩ 3103) = some s ∧
    (∃ iterations part rest last, s.log = iterations.flatMap Iteration.events ++ part ∧
      part ++ rest = Iteration.events last ∧ rest ≠ [] ∧ Throughout ShowsOwn iterations ∧
      (s.thread ≠ .halted → s.led = ledAfter iterations)) ∧
      (s.thread = .starting → s.converting = false) ∧
      (s.thread = .parked → s.converting = true ∧ ∀ sample, ∃ s',
        s.step mockVersion (.adcCallback sample) = some s' ∧ s'.thread = .showing) ∧
      (s.thread = .halted → s.led = true ∧ s.power.canBusPower = false)
  := by
  obtain ⟨s, hrun, -⟩ : ∃ s, run (step mockVersion) init (iteration ⟨false, 0⟩ 3103) = some s ∧
      s.led = true := exists_run_of_any (by decide +kernel)
  exact ⟨s, hrun, iterations_of_run hrun⟩

/-- Power that is off is turned on only when the voltage is at most half a volt. -/
theorem voltage_of_toggle {p : BusPower} (hpin : p.canBusPower = p.busPowerEnabled)
    (hoff : p.canBusPower = false) (hon : p.busPowerToggle.canBusPower = true) :
  BusPower.busVoltageGet p.busVoltage ≤ 1 / 2
  := by
  have henabled : p.busPowerEnabled = false := hpin.symm.trans hoff
  apply le_of_not_gt
  intro hhigh
  rw [BusPower.busPowerToggle, if_neg (by simp [henabled]), BusPower.busPower, if_pos rfl,
    if_pos ⟨hhigh, by simp [henabled]⟩] at hon
  cases hoff.symm.trans hon

/-- The polls of the main thread among the actions. -/
def pollOfAction : MainAction → Option Poll
  | .poll p => some p
  | _ => none

/-- A step puts the poll that it is into the log. -/
theorem polls_of_step {a : MainAction} (h : Step s a s') :
  (polls s'.log).map Polled.toPoll
    = (polls s.log).map Polled.toPoll ++ (pollOfAction a).toList
  := by
  have hentries (entries : List MainEvent) {ps : List Poll} (hlog : s'.log = s.log ++ entries)
      (hps : (polls entries).map Polled.toPoll = ps) :
      (polls s'.log).map Polled.toPoll = (polls s.log).map Polled.toPoll ++ ps := by
    rw [hlog, polls, List.filterMap_append, List.map_append, ← hps]
    rfl
  cases h with
  | semWait | wake | adcErrorCallback | command => exact hentries [] (List.append_nil _).symm rfl
  | poll | adcStartConversion | setLed | adcCallback => exact hentries _ rfl rfl

/-- The polls in the log are those of the main thread. -/
theorem polls_of_run {acts : List MainAction} (h : run (step version) init acts = some s) :
  (polls s.log).map Polled.toPoll = acts.filterMap pollOfAction
  := by
  induction acts using List.reverseRecOn generalizing s with
  | nil =>
      obtain rfl := Option.some.inj h
      rfl
  | append_singleton acts a ih =>
      rw [run_append] at h
      obtain ⟨t, ht, hstep⟩ := Option.bind_eq_some_iff.mp h
      rw [run_singleton] at hstep
      rw [polls_of_step (step_cases hstep), ih ht, List.filterMap_append]
      cases hpoll : pollOfAction a <;> simp [hpoll]

/-- The button turns the power on only after a press of more than a second, during which the
voltage of the bus was measured, and was at most half a volt: in every run, with commands of the
host at any moments. -/
theorem button_measures {acts : List MainAction} (h : run (step version) init acts = some s)
    {p : Poll} (hpolls : (acts.filterMap pollOfAction ++ [p]).IsChain Poll.Follows)
    (hstep : s.step version (.poll p) = some s') (hoff : s.power.canBusPower = false)
    (hon : s'.power.canBusPower = true) :
  ∃ before first press sample, s.log = before ++ .polled first :: press ∧
    UserButton.Held (first :: polls press) ∧ p.pressed ∧ first.time + 1000000 < p.time ∧
    (samples press).getLast? = some sample ∧ BusPower.busVoltageGet sample ≤ 1 / 2
  := by
  have hinv := inv_of_run h
  obtain ⟨hthread, rfl⟩ : s.thread = .polling ∧ s' = s.pollStep p := by
    cases step_cases hstep with
    | poll _ hthread => exact ⟨hthread, rfl⟩
  have hrunning : s.thread ≠ .halted := by simp [hthread]
  -- a poll is taken between two iterations
  obtain ⟨iterations, hlog⟩ : ∃ iterations : List Iteration,
      s.log = iterations.flatMap Iteration.events ++ [] := by
    obtain ⟨iterations, part, hlog, hpart, -⟩ := hinv.iterations
    cases hpart with
    | polling => exact ⟨iterations, hlog⟩
    | starting _ h | waiting _ h | parked _ h | measured _ _ h | showing _ _ h | sleeping h
    | halted _ h => cases hthread.symm.trans h
  have htoggled : (UserButton.userButtonPoll p.pressed p.timestamp s.button).1 = true := by
    by_contra hnot
    rw [pollStep] at hon
    simp only [if_neg hnot] at hon
    cases hoff.symm.trans hon
  -- the poll toggles the power, so the button was held since a poll of an earlier iteration
  have hhistory : UserButton.history (acts.filterMap pollOfAction ++ [p])
      = polls s.log ++ [{ p with toggled := true }] := by
    rw [UserButton.history, UserButton.pollAll_concat, ← polls_of_run h, hinv.button,
      UserButton.next, ← htoggled]
  obtain ⟨hpressed, before, first, held, hpast, hheld, htime⟩ :=
    (UserButton.debounced_pollAll hpolls).longPress (polls s.log) _ [] hhistory rfl
  rw [hlog, polls_events, polls, List.filterMap_nil, List.append_nil] at hpast
  obtain ⟨past, later, rfl, rfl, hlater⟩ := List.map_eq_append_iff.mp hpast
  obtain ⟨i, press, rfl, rfl, rfl⟩ := List.map_eq_cons_iff.mp hlater
  -- the last sample is one of the iterations since then
  obtain ⟨rest, hrest⟩ : ∃ rest, rest = .started :: .measured i.sample :: .shown i.led ::
      (press.flatMap Iteration.events ++ []) := ⟨_, rfl⟩
  have hpolls' : polls rest = press.map Iteration.poll := by
    rw [hrest]
    exact (polls_events press []).trans (List.append_nil _)
  have hsamples' : samples rest = i.sample :: press.map Iteration.sample := by
    rw [hrest]
    exact congrArg (i.sample :: ·) ((samples_events press []).trans (List.append_nil _))
  obtain ⟨sample, hsample⟩ : ∃ sample, (samples rest).getLast? = some sample := by
    rw [hsamples']
    exact ⟨_, List.getLast?_eq_some_getLast (List.cons_ne_nil _ _)⟩
  have hlog' : s.log = past.flatMap Iteration.events ++ .polled i.poll :: rest := by
    rw [hlog, List.flatMap_append, List.append_assoc, List.flatMap_cons, List.append_assoc, hrest]
    rfl
  have hlast : (samples s.log).getLast? = some sample := by
    have hrest' : (samples (.polled i.poll :: rest)).getLast? = some sample := hsample
    rw [hlog', samples_events, List.getLast?_append, hrest']
    rfl
  refine ⟨_, i.poll, rest, sample, hlog', ?_, hpressed, htime, hsample, ?_⟩
  · rw [hpolls']
    exact hheld
  · have hvoltage := hinv.voltage
    rw [hlast] at hvoltage
    rw [pollStep] at hon
    simp only [if_pos htoggled] at hon
    have hlow := voltage_of_toggle (hinv.pin hrunning) hoff hon
    rw [hvoltage] at hlow
    exact hlow

/-- A press of the button, with no voltage on the bus. -/
def longPress : List MainAction := iteration ⟨true, 0⟩ 100 ++ iteration ⟨true, 1000000⟩ 200

theorem button_measures_longPress :
  ∃ s s', run (step mockVersion) init longPress = some s ∧
    s.step mockVersion (.poll ⟨true, 1000001⟩) = some s' ∧
    ∃ before first press sample, s.log = before ++ .polled first :: press ∧
      UserButton.Held (first :: polls press) ∧ (true : Bool) ∧ first.time + 1000000 < 1000001 ∧
      (samples press).getLast? = some sample ∧ BusPower.busVoltageGet sample ≤ 1 / 2
  := by
  obtain ⟨s, hrun, hoff, hstep⟩ : ∃ s, run (step mockVersion) init longPress = some s ∧
      s.power.canBusPower = false ∧ (s.step mockVersion (.poll ⟨true, 1000001⟩)).any
        (·.power.canBusPower = true) = true := exists_run_of_any (by decide +kernel)
  obtain ⟨s', hs', hon⟩ := (Option.any_eq_true _ _).mp hstep
  have hpolls : (longPress.filterMap pollOfAction ++ [(⟨true, 1000001⟩ : Poll)]).IsChain
      Poll.Follows := by
    decide
  exact ⟨s, s', hrun, hs', button_measures hrun hpolls hs' hoff (of_decide_eq_true hon)⟩

end MainLoop

end CanDongle

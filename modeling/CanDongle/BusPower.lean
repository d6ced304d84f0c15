import CanDongle.Command
import CanDongle.Library.Transition
import Mathlib.Data.Rat.Defs

/-!
# The bus power

`bus_power.c` turns the power of the bus on and off, for the host and for the button.  The
power is turned on only while there is no voltage on the bus, as the last conversion of the
ADC has measured it; until the first conversion the voltage is taken to be zero.

The samples of all conversions are recorded, and not read by the code.
-/

open Transition

namespace CanDongle

/-- The variables of `bus_power.c`, what was last written with `can_bus_power_enable`, and the
samples of the conversions that have completed. -/
structure BusPower where
  busVoltage : UInt16
  busPowerEnabled : Bool
  canBusPower : Bool
  samples : List UInt16
  deriving DecidableEq, Repr

namespace BusPower

/-- At boot. -/
def init : BusPower := ⟨0, false, false, []⟩

/-- `bus_voltage_get`, in volts. -/
def busVoltageGet (busVoltage : UInt16) : ℚ :=
  (busVoltage.toNat : ℚ) / ((1 <<< 12) - 1 : ℕ) * (33 / 10) * 2

/-- `adc_callback`. -/
def adcCallback (sample : UInt16) (s : BusPower) : BusPower :=
  { s with busVoltage := sample, samples := s.samples ++ [sample] }

/-- `can_bus_power_enable`. -/
def canBusPowerEnable (enable : Bool) (s : BusPower) : BusPower :=
  { s with canBusPower := enable }

/-- `bus_power`. -/
def busPower (enable : Bool) (s : BusPower) : Bool × BusPower :=
  if enable then
    if busVoltageGet s.busVoltage > 1 / 2 ∧ ¬ s.busPowerEnabled then
      (false, s)
    else
      let s := canBusPowerEnable true s
      (true, { s with busPowerEnabled := true })
  else
    let s := canBusPowerEnable false s
    (true, { s with busPowerEnabled := false })

/-- `bus_power_toggle`. -/
def busPowerToggle (s : BusPower) : BusPower :=
  if s.busPowerEnabled then
    (busPower false s).2
  else
    (busPower true s).2

/-- The functions that a command calls: those of the CAN driver leave the bus power. -/
def driver (answers : DriverCall → Bool) : Driver BusPower
  | .busPower enable, s => some (busPower enable s)
  | call, s => some (answers call, s)

/-- What happens to the bus power. -/
inductive Action where
  /-- The command thread executes a line, with the answers of the CAN driver. -/
  | command (answers : DriverCall → Bool) (line : Line)
  /-- The main loop calls `bus_power_toggle` for the button. -/
  | toggle
  /-- A conversion completes. -/
  | conversion (sample : UInt16)

/-- Take an action. -/
def step (version : Version) (s : BusPower) : Action → Option BusPower
  | .command answers line => (slcanDecodeLine (driver answers) version line s).map Prod.snd
  | .toggle => some s.busPowerToggle
  | .conversion sample => some (s.adcCallback sample)

/-- The pin shows what the variable says, and power is turned on only when the last sample is one
of at most half a volt. -/
def NotBackFed (s s' : BusPower) : Prop :=
  s'.canBusPower = s'.busPowerEnabled ∧
    (s.canBusPower = false → s'.canBusPower = true →
      ∃ sample, s.samples.getLast? = some sample ∧ busVoltageGet sample ≤ 1 / 2)

/-- An action that turns the power on: the command `P`, or the button while it is off. -/
def TurnsOn (s : BusPower) : Action → Prop
  | .command _ line => line.letter.toChar = 'P'
  | .toggle => s.busPowerEnabled = false
  | .conversion _ => False

/-- The power is not turned on before the first conversion has completed. -/
def Measured (s : BusPower) (a : Action) : Prop := s.TurnsOn a → s.samples ≠ []

/-! ### Commands -/

/-- What a line does to the bus power. -/
def commandEffect (line : Line) (s : BusPower) : BusPower :=
  match line.letter.toChar with
  | 'P' => (busPower true s).2
  | 'p' => (busPower false s).2
  | _ => s

theorem perform_sendRequest (answers : DriverCall → Bool) (line : Line) (remote extended : Bool)
    (s : BusPower) :
  ∃ reply, (sendRequest line remote extended).perform (driver answers) s = some (reply, s)
  := by
  unfold sendRequest
  split
  · exact ⟨_, rfl⟩
  · exact ⟨_, rfl⟩

/-- Only the commands `P` and `p` change the bus power. -/
theorem perform_request (answers : DriverCall → Bool) (version : Version) (line : Line)
    (s : BusPower) :
  ∃ reply, (request version line).perform (driver answers) s
    = some (reply, commandEffect line s)
  := by
  unfold request commandEffect
  split
  case h_1 h => rw [h]; apply perform_sendRequest
  case h_2 h => rw [h]; apply perform_sendRequest
  case h_3 h => rw [h]; apply perform_sendRequest
  case h_4 h => rw [h]; apply perform_sendRequest
  case h_5 h => rw [h]; split <;> exact ⟨_, rfl⟩
  case h_14 h => rw [h]; exact ⟨_, rfl⟩
  case h_15 h => rw [h]; exact ⟨_, rfl⟩
  case h_16 => simp only [*]; exact ⟨_, rfl⟩
  all_goals
    rename_i h
    rw [h]
    exact ⟨_, rfl⟩

theorem step_command (version : Version) (s : BusPower) (answers : DriverCall → Bool)
    (line : Line) :
  s.step version (.command answers line) = some (commandEffect line s)
  := by
  obtain ⟨reply, hperform⟩ := perform_request answers version line s
  obtain ⟨line', hrun, -⟩ := slcanDecodeLine_eq_some hperform
  rw [step, hrun]
  rfl

/-! ### The invariant -/

/-- The pin shows what the variable says, the voltage is that of the last conversion, and the
power is off until there is one. -/
structure Inv (s : BusPower) : Prop where
  pin : s.canBusPower = s.busPowerEnabled
  voltage : s.busVoltage = s.samples.getLast?.getD 0
  off : s.samples = [] → s.busPowerEnabled = false

variable {s s' : BusPower}

theorem inv_init :
  Inv init
  := ⟨rfl, rfl, fun _ => rfl⟩

theorem busPower_samples (enable : Bool) (s : BusPower) :
  (busPower enable s).2.samples = s.samples ∧ (busPower enable s).2.busVoltage = s.busVoltage
  := by
  unfold busPower
  split
  · split <;> exact ⟨rfl, rfl⟩
  · exact ⟨rfl, rfl⟩

theorem notBackFed_self (h : Inv s) :
  NotBackFed s s
  := ⟨h.pin, fun hfalse htrue => absurd (hfalse.symm.trans htrue) Bool.false_ne_true⟩

/-- Turning the power off is always safe. -/
theorem notBackFed_busPower_false (s : BusPower) :
  NotBackFed s (busPower false s).2
  := ⟨rfl, fun _ h => absurd h Bool.false_ne_true⟩

/-- Turning the power on is safe exactly when the voltage has been measured. -/
theorem notBackFed_busPower_true (h : Inv s) :
  NotBackFed s (busPower true s).2 ↔ s.samples ≠ []
  := by
  constructor
  · intro hsafe hnil
    have hoff := h.off hnil
    have hvoltage : s.busVoltage = 0 := by
      rw [h.voltage, hnil]
      rfl
    have hzero : ¬ busVoltageGet s.busVoltage > 1 / 2 := by
      rw [hvoltage]
      decide +kernel
    have hon : (busPower true s).2.canBusPower = true := by
      rw [busPower, if_pos rfl, if_neg fun hand => hzero hand.1]
      rfl
    obtain ⟨sample, hsample, -⟩ := hsafe.2 (h.pin.trans hoff) hon
    rw [hnil] at hsample
    cases hsample
  · intro hne
    have hlast : s.samples.getLast? ≠ none := List.getLast?_eq_none_iff.not.mpr hne
    obtain ⟨sample, hsample⟩ := Option.ne_none_iff_exists'.mp hlast
    have hvoltage : s.busVoltage = sample := by
      rw [h.voltage, hsample]
      rfl
    rw [busPower, if_pos rfl, hvoltage]
    split
    case isTrue => apply notBackFed_self h
    case isFalse hlow =>
      refine ⟨rfl, fun hpin _ => ⟨sample, hsample, ?_⟩⟩
      rw [not_and_not_right] at hlow
      apply le_of_not_gt
      intro hhigh
      rw [h.pin, hlow hhigh] at hpin
      cases hpin

/-- The button turns the power on when it is off. -/
theorem notBackFed_busPowerToggle (h : Inv s) :
  NotBackFed s s.busPowerToggle ↔ s.Measured .toggle
  := by
  unfold busPowerToggle Measured TurnsOn
  split
  case isTrue hon => simp [hon, notBackFed_busPower_false]
  case isFalse hoff => simp [Bool.eq_false_of_not_eq_true hoff, notBackFed_busPower_true h]

theorem notBackFed_commandEffect (h : Inv s) (answers : DriverCall → Bool) (line : Line) :
  NotBackFed s (commandEffect line s) ↔ s.Measured (.command answers line)
  := by
  unfold commandEffect Measured TurnsOn
  split
  case h_1 hP => simp [hP, notBackFed_busPower_true h]
  case h_2 hp => simp [hp, notBackFed_busPower_false]
  case h_3 hP _ => exact iff_of_true (notBackFed_self h) fun hon => (hP hon).elim

/-- What is safe keeps the invariant, when it leaves what was measured. -/
theorem Inv.of_notBackFed (h : Inv s) (hsamples : s'.samples = s.samples)
    (hvoltage : s'.busVoltage = s.busVoltage) (hsafe : NotBackFed s s') :
  Inv s'
  := by
  refine ⟨hsafe.1, ?_, ?_⟩
  · rw [hvoltage, hsamples, h.voltage]
  · intro hnil
    rw [hsamples] at hnil
    rw [← hsafe.1]
    cases hon : s'.canBusPower with
    | false => rfl
    | true =>
        obtain ⟨sample, hsample, -⟩ := hsafe.2 (h.pin.trans (h.off hnil)) hon
        rw [hnil] at hsample
        cases hsample

theorem Inv.adcCallback (h : Inv s) (sample : UInt16) :
  Inv (s.adcCallback sample)
  := by
  refine ⟨h.pin, ?_, ?_⟩
  · simp [BusPower.adcCallback]
  · simp [BusPower.adcCallback]

theorem commandEffect_samples (line : Line) (s : BusPower) :
  (commandEffect line s).samples = s.samples ∧ (commandEffect line s).busVoltage = s.busVoltage
  := by
  unfold commandEffect
  split
  · apply busPower_samples
  · apply busPower_samples
  · exact ⟨rfl, rfl⟩

theorem busPowerToggle_samples (s : BusPower) :
  s.busPowerToggle.samples = s.samples ∧ s.busPowerToggle.busVoltage = s.busVoltage
  := by
  unfold busPowerToggle
  split
  · apply busPower_samples
  · apply busPower_samples

variable {version : Version} {a : Action}

/-- A step that is safe keeps the invariant. -/
theorem inv_step (h : Inv s) (hstep : s.step version a = some s') (hsafe : NotBackFed s s') :
  Inv s'
  := by
  cases a with
  | command answers line =>
      rw [step_command] at hstep
      cases hstep
      obtain ⟨hsamples, hvoltage⟩ := commandEffect_samples line s
      apply h.of_notBackFed hsamples hvoltage hsafe
  | toggle =>
      cases hstep
      obtain ⟨hsamples, hvoltage⟩ := busPowerToggle_samples s
      apply h.of_notBackFed hsamples hvoltage hsafe
  | conversion sample =>
      cases hstep
      apply h.adcCallback sample

/-- A step is safe exactly when it does not turn the power on before it was measured. -/
theorem notBackFed_step_iff (h : Inv s) (hstep : s.step version a = some s') :
  NotBackFed s s' ↔ s.Measured a
  := by
  cases a with
  | command answers line =>
      rw [step_command] at hstep
      cases hstep
      apply notBackFed_commandEffect h
  | toggle =>
      cases hstep
      apply notBackFed_busPowerToggle h
  | conversion sample =>
      cases hstep
      apply iff_of_true (notBackFed_self h)
      intro hon
      exact hon.elim

/-- In every run from boot, the bus is never back-fed exactly when the power is never turned on
before the first conversion has completed. -/
theorem notBackFed_iff (version : Version) (actions : List Action) :
  Along (step version) (fun s _ s' => NotBackFed s s') init actions
    ↔ Along (step version) (fun s a _ => s.Measured a) init actions
  := along_congr Inv (fun _ _ _ h hstep hsafe => inv_step h hstep hsafe)
    (fun _ _ _ h hstep => notBackFed_step_iff h hstep) inv_init actions

/-- The command `P` right after boot turns the power on without a measurement. -/
theorem powerAtBoot_not_notBackFed :
  ¬ Along (step mockVersion) (fun s _ s' => NotBackFed s s') init
    [.command (fun _ => true) (lineOf ['P'.toUInt8])]
  := by
  intro h
  obtain ⟨hsafe, -⟩ := h _ (step_command _ _ _ _)
  obtain ⟨sample, hsample, -⟩ := hsafe.2 rfl (by decide +kernel)
  cases hsample

end BusPower

end CanDongle

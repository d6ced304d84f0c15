import CanDongle.Pipeline.Handshake
import CanDongle.Driver

/-!
# Commands one at a time

The command thread of the pipeline takes the steps of `can_open` and `can_close`, and the
other threads take theirs in between.  The functions of the driver execute these commands
as a whole.  The pipeline is simulated by the driver: the variables it ends with, and the
results it replies with, are those of the commands executed one after the other.
-/

open Transition

namespace CanDongle

/-- What the pipeline and the driver share: `can_is_running`, the counter of
`can_config_wait`, and whether the hardware is started. -/
@[ext]
structure Shared where
  canIsRunning : Bool
  canConfigWait : ℤ
  started : Bool

def CanState.shared (d : CanState) : Shared := ⟨d.canIsRunning, d.canConfigWait, d.started⟩

namespace Pipeline

def shared (s : Pipeline) : Shared := ⟨s.canIsRunning, s.canConfigWait.counter, s.started⟩

/-- What the rest of `can_open` or `can_close` does to the variables. -/
def finish : Commander → Shared → Shared
  | .starting, v => ⟨true, v.canConfigWait + 1, true⟩
  | .signalling, v => { v with canConfigWait := v.canConfigWait + 1 }
  | .waiting, v => ⟨false, v.canConfigWait - 1, false⟩
  | .stopping, v | .parked, v => { v with canIsRunning := false, started := false }
  | .idle, v | .fetching, v | .freeing _, v | .replying _, v => v

/-- The result of a command that is being executed. -/
def outcome : Commander → Option Bool
  | .idle => none
  | .replying success => some success
  | _ => some true

/-- The call of the driver that a step begins. -/
def driverCall (mode : CanMode) : Action → Option DriverCall
  | .command .canOpen => some (.canOpen mode)
  | .command .canClose => some .canClose
  | _ => none

/-- The driver, with the result of the last call. -/
def sequential (bits : BtrBits) (env : Environment) (t : CanDriver × Bool) (call : DriverCall) :
    Option (CanDriver × Bool) := do
  let (success, d) ← canDriver bits env call t.1
  some (d, success)

/-- The pipeline is where the driver will be when the command that is executed has finished. -/
structure Finishes (s : Pipeline) (t : CanDriver × Bool) : Prop where
  neverWaits : NeverWaits s
  shared : finish s.command s.shared = t.1.shared
  outcome : ∀ success ∈ outcome s.command, t.2 = success

variable {s s' : Pipeline} {t : CanDriver × Bool}

/-- A step that begins no command leaves what the command thread has to finish. -/
theorem Finishes.rest (h : Finishes s t) {mode : CanMode} {a : Action} (hstep : Step s a s')
    (hcall : driverCall mode a = none) :
  Finishes s' t
  := by
  have hshared := h.shared
  have houtcome := h.outcome
  have hneverWaits := h.neverWaits.step hstep
  cases hstep with
  | openRunning | openClosed | closeRunning | closeClosed => cases hcall
  | canStart hcommand | canStop hcommand | closeFetch hcommand _ | closeFetched hcommand _
  | closeFree hcommand =>
      rw [hcommand] at hshared houtcome
      exact ⟨hneverWaits, hshared, houtcome⟩
  | semSignal hcommand hsem | semWait hcommand hsem =>
      rw [hcommand] at hshared houtcome
      refine ⟨hneverWaits, ?_, houtcome⟩
      rw [← hshared]
      simp [finish, Pipeline.shared, hsem]
  | reply hcommand =>
      rw [hcommand] at hshared
      exact ⟨hneverWaits, hshared, by simp [Pipeline.outcome]⟩
  | _ => exact ⟨hneverWaits, hshared, houtcome⟩

/-- Between commands the variables are those of the driver. -/
theorem Finishes.shared_of_idle (h : Finishes s t) (hidle : s.command = .idle) :
  t.1.canIsRunning = s.canIsRunning ∧ t.1.canConfigWait = s.canConfigWait.counter ∧
    t.1.started = s.started
  := by
  have hshared := h.shared
  rw [hidle] at hshared
  exact ⟨(congrArg Shared.canIsRunning hshared).symm, (congrArg Shared.canConfigWait hshared).symm,
    (congrArg Shared.started hshared).symm⟩

theorem sequential_eq_some {bits : BtrBits} {env : Environment} {call : DriverCall}
    {success : Bool} {d : CanDriver} (h : canDriver bits env call t.1 = some (success, d)) :
  sequential bits env t call = some (d, success)
  := by
  rw [sequential, h]
  rfl

/-- Opening begins where the driver opens. -/
theorem Finishes.canOpen (h : Finishes s t) (bits : BtrBits) (env : Environment) (mode : CanMode)
    (hstep : Step s (.command .canOpen) s') :
  ∃ t', sequential bits env t (.canOpen mode) = some t' ∧ Finishes s' t'
  := by
  have hneverWaits := h.neverWaits.step hstep
  cases hstep with
  | openRunning hidle hrunning =>
      obtain ⟨hd, hwait, hstarted⟩ := h.shared_of_idle hidle
      have hopen : CanDongle.canOpen bits mode t.1 = (false, t.1) := if_pos (hd.trans hrunning)
      refine ⟨_, sequential_eq_some (congrArg some hopen), hneverWaits, ?_, ?_⟩
      · ext
        · apply hd.symm
        · apply hwait.symm
        · apply hstarted.symm
      · rintro success ⟨⟩
        rfl
  | openClosed hidle hrunning =>
      obtain ⟨hd, hwait, hstarted⟩ := h.shared_of_idle hidle
      have hopen := canOpen_of_closed bits mode (hd.trans hrunning)
      refine ⟨_, sequential_eq_some (congrArg some hopen), hneverWaits, ?_, ?_⟩
      · ext
        · rfl
        · apply congrArg (· + 1) hwait.symm
        · rfl
      · rintro success ⟨⟩
        rfl

/-- Closing begins where the driver closes, and does not block. -/
theorem Finishes.canClose (h : Finishes s t) (bits : BtrBits) (env : Environment)
    (hstep : Step s (.command .canClose) s') :
  ∃ t', sequential bits env t .canClose = some t' ∧ Finishes s' t'
  := by
  have hneverWaits := h.neverWaits.step hstep
  have hpos := h.neverWaits.counter_pos
  cases hstep with
  | closeRunning hidle hrunning =>
      obtain ⟨hd, hwait, hstarted⟩ := h.shared_of_idle hidle
      rw [← hwait] at hpos
      have hclose : canDriver bits env .canClose t.1 = some (true, { t.1 with
          canIsRunning := false, canConfigWait := t.1.canConfigWait - 1, started := false,
          calls := t.1.calls ++ [.canStop] }) := by
        simp [canDriver, CanDongle.canClose, hd.trans hrunning, chSemWait, hpos, canStop]
      refine ⟨_, sequential_eq_some hclose, hneverWaits, ?_, ?_⟩
      · ext
        · rfl
        · apply congrArg (· - 1) hwait.symm
        · rfl
      · rintro success ⟨⟩
        rfl
  | closeClosed hidle hrunning =>
      obtain ⟨hd, hwait, hstarted⟩ := h.shared_of_idle hidle
      have hclose : canDriver bits env .canClose t.1 = some (true, t.1) := by
        simp [canDriver, CanDongle.canClose, hd.trans hrunning]
      refine ⟨_, sequential_eq_some hclose, hneverWaits, ?_, ?_⟩
      · ext
        · apply hd.symm
        · apply hwait.symm
        · apply hstarted.symm
      · rintro success ⟨⟩
        rfl

/-- The driver simulates the pipeline. -/
theorem simulation_sequential (bits : BtrBits) (env : Environment) (mode : CanMode) :
  Simulation step (sequential bits env) (driverCall mode) Finishes
  := by
  intro s a s' t h hstep
  have hstep := step_cases h.neverWaits hstep
  cases hcall : driverCall mode a with
  | none => exact ⟨t, rfl, h.rest hstep hcall⟩
  | some call =>
      rw [Option.toList_some, run_singleton]
      match a, hcall with
      | .command .canOpen, hcall =>
          obtain rfl := Option.some.inj hcall
          apply h.canOpen bits env mode hstep
      | .command .canClose, hcall =>
          obtain rfl := Option.some.inj hcall
          apply h.canClose bits env hstep

/-- In every interleaving, the commands have the effect and the results they have when the
driver executes them one after the other from `can_init` on. -/
theorem commands_sequential (bits : BtrBits) (env : Environment) (mode : CanMode)
    {acts : List Action} (h : run step init acts = some s) :
  ∃ start d success, canInit bits = some start ∧
    run (sequential bits env) (⟨start, []⟩, true) (acts.filterMap (driverCall mode))
      = some (d, success) ∧
    finish s.command s.shared = d.shared ∧ ∀ b ∈ outcome s.command, success = b
  := by
  obtain ⟨timing, -, -, hinit⟩ := canInit_eq bits
  have hstart (config : CANConfig) : Finishes init (⟨⟨false, config, 1, false⟩, []⟩, true) :=
    ⟨neverWaits_init, rfl, by rintro b ⟨⟩⟩
  obtain ⟨⟨d, success⟩, hrun, hfinishes⟩ :=
    (simulation_sequential bits env mode).run (hstart _) h
  exact ⟨_, d, success, hinit, hrun, hfinishes.shared, hfinishes.outcome⟩

theorem commands_sequential_openReceiveClose :
  ∃ s, run step init openReceiveClose = some s ∧ ∃ start d success, canInit bxCan = some start ∧
    run (sequential bxCan ⟨fun _ => true, fun _ => true⟩) (⟨start, []⟩, true)
      (openReceiveClose.filterMap (driverCall .normal)) = some (d, success) ∧
    finish s.command s.shared = d.shared ∧ ∀ b ∈ outcome s.command, success = b
  := by
  obtain ⟨s, hrun, -⟩ : ∃ s, run step init openReceiveClose = some s ∧ s.started = true :=
    exists_run_of_any (by decide +kernel)
  exact ⟨s, hrun, commands_sequential bxCan ⟨fun _ => true, fun _ => true⟩ .normal hrun⟩

end Pipeline

end CanDongle

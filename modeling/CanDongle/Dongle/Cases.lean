import CanDongle.Dongle.Decode
import CanDongle.Pipeline.Handshake

/-!
# The steps of the dongle

What a step can do is said once, for every invariant.  The steps of the threads in the
pipeline are steps of the pipeline, and a run of the dongle is a run of it.
-/

open Transition

namespace CanDongle

namespace Dongle

section Steps

variable (bits : BtrBits) (version : Version)

/-- The state when a command has left `line` in the line buffer, and passed its reply to
`slcan_serial_write`. -/
def answered (s : Dongle) (line : Line) (serial : Serial) : Dongle :=
  { s with
    serial := serial
    reader := { s.reader with lineBuffer := line }
    thread := .spinning
    replies := s.replies ++ [line.text] }

/-- The steps in `can_open` and `can_close` that neither touch the hardware nor return. -/
def Internal : CommandAction → DriverCall → Prop
  | .canOpen, .canOpen _ | .semSignal, .canOpen _ => True
  | .canClose, .canClose | .semWait, .canClose | .fetch, .canClose | .free, .canClose => True
  | _, _ => False

/-- The calls that do not open or close the channel. -/
def Simple : DriverCall → Prop
  | .canOpen _ | .canClose => False
  | _ => True

/-- The steps in `slcan_serial_write` after its start. -/
def Inside : WriteAction → Prop
  | .slcanSpin _ | .slcanRxSpin _ => False
  | _ => True

/-- A command is answered: what it leaves in the line buffer is passed to `slcan_serial_write`. -/
structure Answers (s : Dongle) (success : Bool) (line : Line) (serial : Serial) : Prop where
  decoded : decoded version s.reader.lineBuffer success = some line
  serial : s.serial.slcanSerialWrite .command line.text = some serial

/-- What a step does when no thread waits for the semaphore. -/
inductive Step (s : Dongle) : DongleAction → Dongle → Prop where
  | rx {a : RxAction} {p : Pipeline} (h : Pipeline.Step s.pipeline (.rx a) p) :
      Step s (.rx a) { s with pipeline := p }
  | send {a : SendAction} {p : Pipeline} (hidle : s.serial.receiver = .idle)
      (h : Pipeline.Step s.pipeline (.send a) p) (ha : a ≠ .write) :
      Step s (.send a) { s with pipeline := p }
  | sendWrite {p : Pipeline} {serial : Serial} {number : ℕ} {txbuf : List UInt8}
      (hidle : s.serial.receiver = .idle) (h : Pipeline.Step s.pipeline (.send .write) p)
      (hsender : s.pipeline.sender = .writing number txbuf)
      (hserial : s.serial.slcanSerialWrite .receiver txbuf = some serial) :
      Step s (.send .write) { s with pipeline := p, serial := serial }
  | byte {c : ℤ} (hthread : s.thread = .spinning) (hidle : s.serial.command = .idle)
      (hfound : (s.reader.get c).1 = false) :
      Step s (.get c) { s with reader := (s.reader.get c).2, results := s.results ++ [c] }
  | found {c : ℤ} {call : DriverCall} (hthread : s.thread = .spinning)
      (hidle : s.serial.command = .idle) (hfound : (s.reader.get c).1 = true)
      (hcall : calledBy version (s.reader.get c).2.lineBuffer = some call) :
      Step s (.get c)
        { s with
          reader := (s.reader.get c).2
          results := s.results ++ [c]
          thread := .calling call }
  | executed {c : ℤ} {t : Dongle} {line : Line} {serial : Serial} (hthread : s.thread = .spinning)
      (hidle : s.serial.command = .idle) (hfound : (s.reader.get c).1 = true)
      (ht : t = { s with reader := (s.reader.get c).2, results := s.results ++ [c] })
      (hcall : calledBy version t.reader.lineBuffer = none)
      (h : t.Answers version true line serial) :
      Step s (.get c) (t.answered line serial)
  | called {call : DriverCall} {env : Environment} {success : Bool} {d : CanDriver} {t : Dongle}
      {line : Line} {serial : Serial} (hthread : s.thread = .calling call) (hsimple : Simple call)
      (hcall : canDriver bits env call s.driver = some (success, d))
      (ht : t = { s with canConfig := d.canConfig, calls := d.calls })
      (h : t.Answers version success line serial) :
      Step s (.call env) (t.answered line serial)
  | internal {call : DriverCall} {a : CommandAction} {p : Pipeline}
      (hthread : s.thread = .calling call) (ha : Internal a call)
      (h : Pipeline.Step s.pipeline (.command a) p) :
      Step s (.command a) { s with pipeline := p }
  | canStart {mode : CanMode} {p : Pipeline} (hthread : s.thread = .calling (.canOpen mode))
      (h : Pipeline.Step s.pipeline (.command .canStart) p) :
      Step s (.command .canStart)
        { s with
          pipeline := p
          canConfig := (CanDongle.canOpen bits mode s.driver).2.canConfig
          calls := (CanDongle.canOpen bits mode s.driver).2.calls }
  | canStop {p : Pipeline} (hthread : s.thread = .calling .canClose)
      (h : Pipeline.Step s.pipeline (.command .canStop) p) :
      Step s (.command .canStop) { s with pipeline := p, calls := s.calls ++ [.canStop] }
  | returned {call : DriverCall} {p : Pipeline} {success : Bool} {t : Dongle} {line : Line}
      {serial : Serial} (hthread : s.thread = .calling call)
      (hcommand : s.pipeline.command = .replying success)
      (h : Pipeline.Step s.pipeline (.command .reply) p) (ht : t = { s with pipeline := p })
      (hanswers : t.Answers version success line serial) :
      Step s (.command .reply) (t.answered line serial)
  | write {a : WriteAction} {serial : Serial} (ha : Inside a)
      (hserial : s.serial.step a = some serial) :
      Step s (.write a)
        { s with serial := serial, writes := s.writes ++ s.serial.returning a }

variable {bits version} {s s' : Dongle}

theorem answers_of_answer {success : Bool} (h : s.answer version success = some s') :
  ∃ line serial, s.Answers version success line serial ∧ s' = s.answered line serial
  := by
  obtain ⟨line, hline, h⟩ := Option.bind_eq_some_iff.mp h
  obtain ⟨serial, hserial, h⟩ := Option.bind_eq_some_iff.mp h
  exact ⟨line, serial, ⟨hline, hserial⟩, (Option.some.inj h).symm⟩

theorem step_of_sendStep (hinv : s.pipeline.NeverWaits) {a : SendAction}
    (h : s.sendStep a = some s') :
  Step bits version s (.send a) s'
  := by
  unfold sendStep at h
  split at h
  case h_1 hidle =>
    obtain ⟨p, hp, h⟩ := Option.bind_eq_some_iff.mp h
    have hstep := Pipeline.step_cases hinv hp
    cases a with
    | fetch | timeout | encode txbuf | delete =>
        cases h
        exact .send hidle hstep (by simp)
    | write =>
        cases hstep with
        | write hsender =>
            simp only [hsender] at h
            obtain ⟨serial, hserial, h⟩ := Option.bind_eq_some_iff.mp h
            cases h
            exact .sendWrite hidle (.write hsender) hsender hserial
  case h_2 => cases h

theorem step_of_getStep {c : ℤ} (h : s.getStep version c = some s') :
  Step bits version s (.get c) s'
  := by
  unfold getStep at h
  split at h
  case h_1 hthread hidle =>
    simp only at h
    split at h
    case isTrue hfound =>
      unfold execute at h
      split at h
      case h_1 call hcall =>
        cases h
        exact .found hthread hidle hfound hcall
      case h_2 hcall =>
        obtain ⟨line, serial, hanswers, rfl⟩ := answers_of_answer h
        exact .executed hthread hidle hfound rfl hcall hanswers
    case isFalse hfound =>
      cases h
      exact .byte hthread hidle (Bool.eq_false_of_not_eq_true hfound)
  case h_2 => cases h

theorem step_of_callStep {env : Environment} (h : s.callStep bits version env = some s') :
  Step bits version s (.call env) s'
  := by
  unfold callStep at h
  split at h
  case h_1 => cases h
  case h_2 => cases h
  case h_3 call hopen hclose hthread =>
    obtain ⟨⟨success, d⟩, hcall, h⟩ := Option.bind_eq_some_iff.mp h
    obtain ⟨line, serial, hanswers, rfl⟩ := answers_of_answer h
    apply Step.called hthread _ hcall rfl hanswers
    cases call with
    | canOpen mode => exact hopen mode rfl
    | canClose => exact hclose rfl
    | _ => trivial
  case h_4 => cases h

theorem step_of_commandStep (hinv : s.pipeline.NeverWaits) {a : CommandAction}
    (h : s.commandStep bits version a = some s') :
  Step bits version s (.command a) s'
  := by
  unfold commandStep at h
  split at h
  case h_1 call hthread =>
    obtain ⟨p, hp, h⟩ := Option.bind_eq_some_iff.mp h
    have hstep := Pipeline.step_cases hinv hp
    cases a with
    | reply =>
        cases hstep with
        | reply hcommand =>
            simp only [hcommand] at h
            obtain ⟨line, serial, hanswers, rfl⟩ := answers_of_answer h
            exact .returned hthread hcommand (.reply hcommand) rfl hanswers
    | canStart =>
        cases call with
        | canOpen mode =>
            cases h
            exact .canStart hthread hstep
        | _ => cases h
    | canStop =>
        cases call with
        | canClose =>
            cases h
            exact .canStop hthread hstep
        | _ => cases h
    | canOpen | semSignal =>
        cases call with
        | canOpen mode =>
            cases h
            exact .internal hthread trivial hstep
        | _ => cases h
    | canClose | semWait | fetch | free =>
        cases call with
        | canClose =>
            cases h
            exact .internal hthread trivial hstep
        | _ => cases h
  case h_2 => cases h

theorem step_of_writeStep (bits : BtrBits) (version : Version) {a : WriteAction}
    (h : s.writeStep a = some s') :
  Step bits version s (.write a) s'
  := by
  cases a with
  | slcanSpin line => cases h
  | slcanRxSpin rxf => cases h
  | _ =>
      obtain ⟨serial, hserial, h⟩ := Option.bind_eq_some_iff.mp h
      cases h
      exact .write trivial hserial

/-- A step of the dongle in which no thread waits for the semaphore. -/
theorem step_cases (hinv : s.pipeline.NeverWaits) {a : DongleAction}
    (h : s.step bits version a = some s') :
  Step bits version s a s'
  := by
  rw [step_eq (not_halted_of_step h)] at h
  cases a with
  | rx a =>
      obtain ⟨p, hp, h⟩ := Option.bind_eq_some_iff.mp h
      cases h
      exact .rx (Pipeline.step_cases hinv hp)
  | send a => apply step_of_sendStep hinv h
  | command a => apply step_of_commandStep hinv h
  | call env => apply step_of_callStep h
  | get c => apply step_of_getStep h
  | write a => apply step_of_writeStep bits version h

/-- No step makes a thread wait. -/
theorem Step.neverWaits {a : DongleAction} (h : Step bits version s a s')
    (hinv : s.pipeline.NeverWaits) :
  s'.pipeline.NeverWaits
  := by
  cases h with
  | rx hp | send hidle hp | sendWrite hidle hp | internal hthread ha hp | canStart hthread hp
  | canStop hthread hp => exact hinv.step hp
  | returned hthread hcommand hp ht =>
      subst ht
      exact hinv.step hp
  | executed hthread hidle hfound ht =>
      subst ht
      exact hinv
  | called hthread hsimple hcall ht =>
      subst ht
      exact hinv
  | byte | found | write => exact hinv

/-! ### The pipeline -/

/-- The step of the pipeline in a step of the dongle. -/
def pipelineAction : DongleAction → Option Action
  | .rx a => some (.rx a)
  | .send a => some (.send a)
  | .command a => some (.command a)
  | .call _ | .get _ | .write _ => none

/-- A command that is answered leaves the pipeline. -/
theorem pipeline_of_answer {success : Bool} (h : s.answer version success = some s') :
  s'.pipeline = s.pipeline
  := by
  obtain ⟨line, serial, -, rfl⟩ := answers_of_answer h
  rfl

theorem pipeline_of_getStep {c : ℤ} (h : s.getStep version c = some s') :
  s'.pipeline = s.pipeline
  := by
  unfold getStep at h
  split at h
  case h_1 =>
    simp only at h
    split at h
    · unfold execute at h
      split at h
      · cases h
        rfl
      · exact (pipeline_of_answer h).trans rfl
    · cases h
      rfl
  case h_2 => cases h

theorem pipeline_of_callStep {env : Environment} (h : s.callStep bits version env = some s') :
  s'.pipeline = s.pipeline
  := by
  unfold callStep at h
  split at h
  case h_3 =>
    obtain ⟨⟨success, d⟩, -, h⟩ := Option.bind_eq_some_iff.mp h
    exact (pipeline_of_answer h).trans rfl
  all_goals cases h

theorem pipeline_of_sendStep {a : SendAction} (h : s.sendStep a = some s') :
  s.pipeline.step (.send a) = some s'.pipeline
  := by
  unfold sendStep at h
  split at h
  case h_1 =>
    obtain ⟨p, hp, h⟩ := Option.bind_eq_some_iff.mp h
    split at h
    · obtain ⟨serial, -, h⟩ := Option.bind_eq_some_iff.mp h
      cases h
      assumption
    · cases h
      assumption
  case h_2 => cases h

theorem pipeline_of_commandStep {a : CommandAction} (h : s.commandStep bits version a = some s') :
  s.pipeline.step (.command a) = some s'.pipeline
  := by
  unfold commandStep at h
  split at h
  case h_1 =>
    obtain ⟨p, hp, h⟩ := Option.bind_eq_some_iff.mp h
    rw [hp]
    congr 1
    symm
    simp only at h
    split at h
    case h_9 =>
      split at h
      · exact (pipeline_of_answer h).trans rfl
      · cases h
    all_goals cases h
    all_goals rfl
  case h_2 => cases h

/-- The steps of the dongle are steps of the pipeline, or leave it. -/
theorem simulation_pipeline (bits : BtrBits) (version : Version) :
  Simulation (step bits version) Pipeline.step pipelineAction fun s p => s.pipeline = p
  := by
  rintro s a s' p rfl h
  refine ⟨s'.pipeline, ?_, rfl⟩
  rw [step_eq (not_halted_of_step h)] at h
  cases a with
  | rx a =>
      obtain ⟨p, hp, h⟩ := Option.bind_eq_some_iff.mp h
      cases h
      exact (run_singleton _ _ _).trans hp
  | send a => exact (run_singleton _ _ _).trans (pipeline_of_sendStep h)
  | command a => exact (run_singleton _ _ _).trans (pipeline_of_commandStep h)
  | call env => exact congrArg some (pipeline_of_callStep h).symm
  | get c => exact congrArg some (pipeline_of_getStep h).symm
  | write a =>
      cases step_of_writeStep bits version h
      rfl

/-- A run of the dongle is a run of the pipeline. -/
theorem pipeline_of_run {start : Dongle} {acts : List DongleAction}
    (hstart : slcanStart bits = some start) (h : run (step bits version) start acts = some s) :
  run Pipeline.step .init (acts.filterMap pipelineAction) = some s.pipeline
  := by
  obtain ⟨d, -, rfl⟩ := Option.map_eq_some_iff.mp hstart
  obtain ⟨p, hp, rfl⟩ := (simulation_pipeline bits version).run rfl h
  exact hp

end Steps

end Dongle

end CanDongle

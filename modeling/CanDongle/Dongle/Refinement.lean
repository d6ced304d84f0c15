import CanDongle.Dongle.Cases

/-!
# Interleavings are executed one after the other

The command thread, executed alone, reads all the results of `chnGetTimeout` one after the
other, and the driver makes each call as a whole.  In every interleaving of the threads, the
replies, the calls to the hardware and the variables are those of this execution: the other
threads make no difference to the host.
-/

open Transition

namespace CanDongle

/-- The driver, with what the world outside returns to each call to come. -/
def scripted (bits : BtrBits) : Driver (CanDriver × List Environment)
  | call, (d, env :: envs) =>
      (canDriver bits env call d).map fun (success, d) => (success, d, envs)
  | _, (_, []) => none

/-- The command thread, executed alone from where it is in `base` on, has read the results since
then, passed the replies to `slcan_serial_write`, and left the reader and the driver. -/
def Executes (bits : BtrBits) (version : Version) (base : Dongle) (results : List ℤ)
    (replies : List (List UInt8)) (reader : LineReader) (d : CanDriver) : Prop :=
  ∃ read written envs, results = base.results ++ read ∧ replies = base.replies ++ written ∧
    ∀ more, slcanThreadMain (scripted bits) version base.reader read (base.driver, envs ++ more)
      = some ((written, reader.lineBuffer, reader.pos), (d, more))

theorem scripted_eq_some {bits : BtrBits} {env : Environment} {call : DriverCall}
    {d d' : CanDriver} {success : Bool} (h : canDriver bits env call d = some (success, d'))
    (envs : List Environment) :
  scripted bits call (d, env :: envs) = some (success, (d', envs))
  := by
  rw [scripted, h]
  rfl

section Executes

variable {bits : BtrBits} {version : Version} {base : Dongle} {results : List ℤ}
  {replies : List (List UInt8)} {reader : LineReader} {d d' : CanDriver}

theorem executes_nil (bits : BtrBits) (version : Version) (base : Dongle) :
  Executes bits version base base.results base.replies base.reader base.driver
  := by
  refine ⟨[], [], [], (List.append_nil _).symm, (List.append_nil _).symm, ?_⟩
  intro more
  apply slcanThreadMain_nil

/-- The thread goes on with one more result. -/
theorem Executes.cons (h : Executes bits version base results replies reader d) {c : ℤ}
    {written : List (List UInt8)} {reader' : LineReader} (envs : List Environment)
    (hrun : ∀ more, slcanThreadMain (scripted bits) version reader [c] (d, envs ++ more)
      = some ((written, reader'.lineBuffer, reader'.pos), (d', more))) :
  Executes bits version base (results ++ [c]) (replies ++ written) reader' d'
  := by
  obtain ⟨read, written', envs', rfl, rfl, hbase⟩ := h
  refine ⟨read ++ [c], written' ++ written, envs' ++ envs, List.append_assoc _ _ _,
    List.append_assoc _ _ _, ?_⟩
  intro more
  obtain ⟨hi, hrest⟩ := slcanThreadMain_append _ _ (hbase (envs ++ more))
  rw [List.append_assoc, hrest]
  exact congrArg (Option.map _) (hrun more)

/-- A result that ends no line is stored. -/
theorem Executes.byte (h : Executes bits version base results replies reader d) {c : ℤ}
    (hfound : (reader.get c).1 = false) :
  Executes bits version base (results ++ [c]) replies (reader.get c).2 d
  := by
  rw [← List.append_nil replies]
  apply h.cons []
  intro more
  rw [slcanThreadMain_cons, hfound, if_neg Bool.false_ne_true, slcanThreadMain_nil]
  rfl

/-- A result that ends a line has it executed, which uses the environments `envs`. -/
theorem Executes.line (h : Executes bits version base results replies reader d) {c : ℤ}
    (hfound : (reader.get c).1 = true) {line : Line} (envs : List Environment)
    (hline : ∀ more, slcanDecodeLine (scripted bits) version (reader.get c).2.lineBuffer
      (d, envs ++ more) = some (line, (d', more))) :
  Executes bits version base (results ++ [c]) (replies ++ [line.text])
    { (reader.get c).2 with lineBuffer := line } d'
  := by
  have hpos : (reader.get c).2.pos = 0 := by
    unfold LineReader.get at hfound ⊢
    split at hfound
    · cases hfound
    · split at hfound
      · rename_i hne hc
        rw [if_neg hne, if_pos hc]
      · split at hfound <;> cases hfound
  apply h.cons envs
  intro more
  rw [slcanThreadMain_cons, hfound, if_pos rfl, bind_of_eq_some (hline more),
    bind_of_eq_some (slcanThreadMain_nil _ _ _ _), hpos]
  rfl

/-- A line that makes no call is executed. -/
theorem Executes.noCall (h : Executes bits version base results replies reader d) {c : ℤ}
    (hfound : (reader.get c).1 = true) {line : Line}
    (hcalled : calledBy version (reader.get c).2.lineBuffer = none)
    (hdecoded : decoded version (reader.get c).2.lineBuffer true = some line) :
  Executes bits version base (results ++ [c]) (replies ++ [line.text])
    { (reader.get c).2 with lineBuffer := line } d
  := by
  apply h.line hfound []
  intro more
  rw [List.nil_append, slcanDecodeLine_of_none _ hcalled true, hdecoded]
  rfl

/-- A line is executed, whose call has returned. -/
theorem Executes.call (h : Executes bits version base results replies reader d) {c : ℤ}
    (hfound : (reader.get c).1 = true) {line : Line} {call : DriverCall} {env : Environment}
    {success : Bool} (hcalled : calledBy version (reader.get c).2.lineBuffer = some call)
    (hcall : canDriver bits env call d = some (success, d'))
    (hdecoded : decoded version (reader.get c).2.lineBuffer success = some line) :
  Executes bits version base (results ++ [c]) (replies ++ [line.text])
    { (reader.get c).2 with lineBuffer := line } d'
  := by
  apply h.line hfound [env]
  intro more
  rw [List.singleton_append, slcanDecodeLine_of_some _ hcalled (scripted_eq_some hcall more),
    hdecoded]
  rfl

end Executes

/-! ### How far a call is -/

namespace Dongle

/-- Where the command thread is in a call that the driver makes in the state `d`, and the state
of the driver then. -/
inductive Reached (bits : BtrBits) (d : CanDriver) :
    Commander → DriverCall → CanDriver → Prop where
  | called (call : DriverCall) : Reached bits d .idle call d
  | starting (mode : CanMode) (h : d.canIsRunning = false) :
      Reached bits d .starting (.canOpen mode) d
  | signalling {mode : CanMode} {d' : CanDriver}
      (h : canOpen bits mode d = (true, chSemSignal d')) :
      Reached bits d .signalling (.canOpen mode) d'
  | waiting (h : d.canIsRunning = true) : Reached bits d .waiting .canClose d
  | stopping {d' : CanDriver} (h : d.canIsRunning = true) (hwait : chSemWait d = some d') :
      Reached bits d .stopping .canClose d'
  | fetching {d' : CanDriver} (h : canClose d = some d') : Reached bits d .fetching .canClose d'
  | freeing {d' : CanDriver} (fp : Packet) (h : canClose d = some d') :
      Reached bits d (.freeing fp) .canClose d'
  | replying {call : DriverCall} {success : Bool} {d' : CanDriver}
      (hcall : ¬ Simple call) (h : ∀ env, canDriver bits env call d = some (success, d')) :
      Reached bits d (.replying success) call d'

variable {bits : BtrBits} {version : Version} {base s s' : Dongle} {d : CanDriver}
  {call : DriverCall}

/-- The steps of the other threads leave what the command thread uses of the pipeline. -/
theorem shared_of_step {p p' : Pipeline} {a : Action} (h : Pipeline.Step p a p')
    (ha : ∀ b, a ≠ .command b) :
  p'.canIsRunning = p.canIsRunning ∧ p'.canConfigWait = p.canConfigWait ∧
    p'.started = p.started ∧ p'.command = p.command
  := by
  cases h <;> first | exact ⟨rfl, rfl, rfl, rfl⟩ | exact absurd rfl (ha _)

/-- A step of `can_open` or `can_close` that does not touch the hardware. -/
theorem Reached.internal {a : CommandAction} {p : Pipeline} (hinv : s.pipeline.NeverWaits)
    (h : Reached bits d s.pipeline.command call s.driver) (ha : Internal a call)
    (hstep : Pipeline.Step s.pipeline (.command a) p) :
  Reached bits d p.command call (driver { s with pipeline := p })
  := by
  generalize hd : s.driver = d' at h
  cases hstep with
  | openRunning hcommand hrunning =>
      rw [hcommand] at h
      cases h
      subst hd
      cases call with
      | canOpen mode => exact .replying id fun env => congrArg some (if_pos hrunning)
      | _ => exact ha.elim
  | openClosed hcommand hrunning =>
      rw [hcommand] at h
      cases h
      subst hd
      cases call with
      | canOpen mode => exact .starting mode hrunning
      | _ => exact ha.elim
  | semSignal hcommand hsem =>
      rw [hcommand] at h
      subst hd
      cases h with
      | signalling hopen =>
          apply Reached.replying id
          intro env
          rw [canDriver, hopen, chSemSignal, driver, driver, hsem]
  | closeRunning hcommand hrunning =>
      rw [hcommand] at h
      cases h
      subst hd
      cases call with
      | canClose => exact .waiting hrunning
      | _ => exact ha.elim
  | closeClosed hcommand hrunning =>
      rw [hcommand] at h
      cases h
      subst hd
      cases call with
      | canClose =>
          apply Reached.replying id
          intro env
          have hclose : canClose s.driver = some s.driver :=
            if_neg (by simp [driver, hrunning])
          rw [canDriver, hclose]
          rfl
      | _ => exact ha.elim
  | semWait hcommand hsem =>
      rw [hcommand] at h
      cases h with
      | waiting hrunning =>
          subst hd
          have hpos : s.driver.canConfigWait > 0 := hinv.counter_pos
          apply Reached.stopping hrunning
          rw [chSemWait, if_pos hpos, driver, driver, hsem]
  | closeFetch hcommand =>
      rw [hcommand] at h
      subst hd
      cases h with
      | fetching hclose => exact .freeing _ hclose
  | closeFetched hcommand =>
      rw [hcommand] at h
      subst hd
      cases h with
      | fetching hclose =>
          apply Reached.replying id
          intro env
          rw [canDriver, hclose]
          rfl
  | closeFree hcommand =>
      rw [hcommand] at h
      subst hd
      cases h with
      | freeing fp hclose => exact .fetching hclose
  | canStart | canStop | reply => cases call <;> exact ha.elim

/-- The hardware is started. -/
theorem Reached.canStart {mode : CanMode} {p : Pipeline}
    (h : Reached bits d s.pipeline.command (.canOpen mode) s.driver)
    (hstep : Pipeline.Step s.pipeline (.command .canStart) p) :
  Reached bits d p.command (.canOpen mode) (driver { s with
    pipeline := p
    canConfig := (CanDongle.canOpen bits mode s.driver).2.canConfig
    calls := (CanDongle.canOpen bits mode s.driver).2.calls })
  := by
  generalize hd : s.driver = d' at h
  cases hstep with
  | canStart hcommand =>
      rw [hcommand] at h
      cases h with
      | starting _ hclosed =>
          subst hd
          apply Reached.signalling
          rw [canOpen_of_closed bits mode hclosed]
          rfl

/-- The hardware is stopped. -/
theorem Reached.canStop {p : Pipeline}
    (h : Reached bits d s.pipeline.command .canClose s.driver)
    (hstep : Pipeline.Step s.pipeline (.command .canStop) p) :
  Reached bits d p.command .canClose
    (driver { s with pipeline := p, calls := s.calls ++ [.canStop] })
  := by
  generalize hd : s.driver = d' at h
  cases hstep with
  | canStop hcommand =>
      rw [hcommand] at h
      cases h with
      | stopping hrunning hwait =>
          subst hd
          apply Reached.fetching
          rw [canClose, if_pos hrunning, hwait]
          rfl

/-! ### Every interleaving -/

/-- The command thread is in the call of the last line it has read. -/
def InCall (bits : BtrBits) (version : Version) (base s : Dongle) (call : DriverCall) : Prop :=
  ∃ results c reader d, s.results = results ++ [c] ∧ reader.get c = (true, s.reader) ∧
    calledBy version s.reader.lineBuffer = some call ∧
    Executes bits version base results s.replies reader d ∧
    Reached bits d s.pipeline.command call s.driver

/-- The command thread has executed what it has read, or is in the call of the last line. -/
structure Interleaved (bits : BtrBits) (version : Version) (base s : Dongle) : Prop where
  neverWaits : s.pipeline.NeverWaits
  spinning : s.thread = .spinning → s.pipeline.command = .idle ∧
    Executes bits version base s.results s.replies s.reader s.driver
  calling : ∀ call, s.thread = .calling call → InCall bits version base s call

theorem interleaved_boot (d : CanState) :
  Interleaved bits version (boot d) (boot d)
  where
  neverWaits := Pipeline.neverWaits_init
  spinning _ := ⟨rfl, executes_nil bits version (boot d)⟩
  calling := by rintro call ⟨⟩

/-- The execution may be taken to start whenever the command thread waits for the host. -/
theorem Interleaved.restart (h : Interleaved bits version base s) (hthread : s.thread = .spinning) :
  Interleaved bits version s s
  where
  neverWaits := h.neverWaits
  spinning _ := ⟨(h.spinning hthread).1, executes_nil bits version s⟩
  calling call hcall := by cases hthread.symm.trans hcall

/-- The other threads leave the command thread where it is. -/
theorem Interleaved.frame (h : Interleaved bits version base s) (hwaits : s'.pipeline.NeverWaits)
    (hcommand : s'.pipeline.command = s.pipeline.command) (hdriver : s'.driver = s.driver)
    (hthread : s'.thread = s.thread) (hresults : s'.results = s.results)
    (hreplies : s'.replies = s.replies) (hreader : s'.reader = s.reader) :
  Interleaved bits version base s'
  where
  neverWaits := hwaits
  spinning := by
    rw [hthread, hcommand, hdriver, hresults, hreplies, hreader]
    apply h.spinning
  calling := by
    unfold InCall
    rw [hthread, hcommand, hdriver, hresults, hreplies, hreader]
    apply h.calling

/-- A step of another thread in the pipeline. -/
theorem Interleaved.other (h : Interleaved bits version base s) {p : Pipeline} {a : Action}
    (hstep : Pipeline.Step s.pipeline a p) (ha : ∀ b, a ≠ .command b) (serial : Serial) :
  Interleaved bits version base { s with pipeline := p, serial := serial }
  := by
  obtain ⟨hrunning, hwait, hstarted, hcommand⟩ := shared_of_step hstep ha
  refine h.frame (h.neverWaits.step hstep) hcommand ?_ rfl rfl rfl rfl
  simp only [driver, hrunning, hwait, hstarted]

/-- A command is answered when its call has returned, and has the effect on the driver that it
has when the driver makes it as a whole. -/
theorem InCall.answered (h : InCall bits version base s call) {t : Dongle} {success : Bool}
    {line : Line} {serial : Serial}
    (hcall : ∀ d, Reached bits d s.pipeline.command call s.driver →
      ∃ env, canDriver bits env call d = some (success, t.driver))
    (hanswers : t.Answers version success line serial) (hresults : t.results = s.results)
    (hreplies : t.replies = s.replies) (hreader : t.reader = s.reader) :
  Executes bits version base t.results (t.replies ++ [line.text])
    { t.reader with lineBuffer := line } t.driver
  := by
  obtain ⟨results, c, reader, d, heq, hget, hcalled, hexecutes, hreached⟩ := h
  have hfound : (reader.get c).1 = true := by rw [hget]
  have hr : (reader.get c).2 = s.reader := by rw [hget]
  have hdecoded := hanswers.decoded
  rw [hreader, ← hr] at hdecoded
  rw [← hr] at hcalled
  rw [hresults, hreplies, hreader, heq, ← hr]
  obtain ⟨env, hcall⟩ := hcall d hreached
  exact hexecutes.call hfound hcalled hcall hdecoded

/-- The command thread goes on in its call. -/
theorem Interleaved.goOn (h : Interleaved bits version base s) (hthread : s.thread = .calling call)
    {a : CommandAction} {p : Pipeline} (hstep : Pipeline.Step s.pipeline (.command a) p)
    {config : CANConfig} {calls : List HalCall}
    (hreached : ∀ d, Reached bits d s.pipeline.command call s.driver → Reached bits d p.command call
      (driver { s with pipeline := p, canConfig := config, calls := calls })) :
  Interleaved bits version base { s with pipeline := p, canConfig := config, calls := calls }
  where
  neverWaits := h.neverWaits.step hstep
  spinning hspinning := by cases hthread.symm.trans hspinning
  calling := by
    intro call' hcall
    cases hthread.symm.trans hcall
    obtain ⟨results, c, reader, d, heq, hget, hcalled, hexecutes, hd⟩ := h.calling _ hthread
    exact ⟨results, c, reader, d, heq, hget, hcalled, hexecutes, hreached d hd⟩

/-- A call of the driver other than `can_open` and `can_close` leaves the variables that the
other threads use. -/
theorem canDriver_simple (hsimple : Simple call) {env : Environment} {d d' : CanDriver}
    {success : Bool} (h : canDriver bits env call d = some (success, d')) :
  d' = { d with canConfig := d'.canConfig, calls := d'.calls }
  := by
  cases call with
  | canSend id extended remote data length =>
      obtain ⟨frame, -, h⟩ := Option.bind_eq_some_iff.mp h
      cases h
      rfl
  | canSetBitrate bitrate =>
      change canSetBitrate bitrate d = _ at h
      unfold canSetBitrate at h
      split at h
      · cases h
        rfl
      · obtain ⟨timing, -, h⟩ := Option.bind_eq_some_iff.mp h
        split at h <;> cases h <;> rfl
  | canOpen mode => exact hsimple.elim
  | canClose => exact hsimple.elim
  | busPower enable =>
      cases h
      rfl

/-- A call other than `can_open` and `can_close` is made where it begins. -/
theorem Reached.of_simple {command : Commander} {d d' : CanDriver}
    (h : Reached bits d command call d') (hsimple : Simple call) :
  command = .idle ∧ d' = d
  := by
  cases h with
  | called => exact ⟨rfl, rfl⟩
  | replying hcall => exact absurd hsimple hcall
  | _ => exact hsimple.elim

/-- Every step keeps the invariant. -/
theorem Interleaved.step (h : Interleaved bits version base s) {a : DongleAction}
    (hstep : Step bits version s a s') :
  Interleaved bits version base s'
  := by
  cases hstep with
  | rx hp => exact h.other hp (by simp) s.serial
  | send hidle hp ha => exact h.other hp (by simp) s.serial
  | sendWrite hidle hp hsender hserial => exact h.other hp (by simp) _
  | write ha hserial => exact h.frame h.neverWaits rfl rfl rfl rfl rfl rfl
  | byte hthread hidle hfound =>
      obtain ⟨hcommand, hexecutes⟩ := h.spinning hthread
      refine ⟨h.neverWaits, fun _ => ⟨hcommand, hexecutes.byte hfound⟩, ?_⟩
      intro call hcall
      cases hthread.symm.trans hcall
  | found hthread hidle hfound hcall =>
      obtain ⟨hcommand, hexecutes⟩ := h.spinning hthread
      refine ⟨h.neverWaits, by rintro ⟨⟩, ?_⟩
      rintro call ⟨⟩
      refine ⟨s.results, _, s.reader, s.driver, rfl, Prod.ext hfound rfl, hcall, hexecutes, ?_⟩
      simp only [hcommand]
      apply Reached.called
  | executed hthread hidle hfound ht hcalled hanswers =>
      subst ht
      obtain ⟨hcommand, hexecutes⟩ := h.spinning hthread
      refine ⟨h.neverWaits, fun _ => ⟨hcommand, ?_⟩, by rintro call ⟨⟩⟩
      apply hexecutes.noCall hfound hcalled hanswers.decoded
  | called hthread hsimple hcall ht hanswers =>
      have hin := h.calling _ hthread
      obtain ⟨results, c, reader, d, -, -, -, -, hreached⟩ := h.calling _ hthread
      subst ht
      refine ⟨h.neverWaits, fun _ => ⟨(hreached.of_simple hsimple).1, ?_⟩, by rintro call ⟨⟩⟩
      refine hin.answered ?_ hanswers rfl rfl rfl
      intro d' hd'
      have hd := canDriver_simple hsimple hcall
      obtain ⟨-, rfl⟩ := hd'.of_simple hsimple
      rw [hd] at hcall
      exact ⟨_, hcall⟩
  | internal hthread ha hp => exact h.goOn hthread hp fun d hd => hd.internal h.neverWaits ha hp
  | canStart hthread hp => exact h.goOn hthread hp fun d hd => hd.canStart hp
  | canStop hthread hp => exact h.goOn hthread hp fun d hd => hd.canStop hp
  | returned hthread hcommand hp ht hanswers =>
      have hin := h.calling _ hthread
      subst ht
      cases hp with
      | reply hcommand' =>
          refine ⟨h.neverWaits.step (.reply hcommand'), fun _ => ⟨rfl, ?_⟩, by rintro call ⟨⟩⟩
          refine InCall.answered hin ?_ hanswers rfl rfl rfl
          intro d hd
          rw [hcommand] at hd
          generalize hdriver : s.driver = d' at hd
          cases hd with
          | replying _ hcall =>
              subst hdriver
              exact ⟨_, hcall ⟨fun _ => true, fun _ => true⟩⟩

theorem Interleaved.run {acts : List DongleAction} (h : Interleaved bits version base s)
    (hrun : Transition.run (Dongle.step bits version) s acts = some s') :
  Interleaved bits version base s'
  := by
  refine run_invariant ?_ h hrun
  intro s a s' h hstep
  apply h.step (step_cases h.neverWaits hstep)

variable {start : Dongle} {acts later : List DongleAction}

theorem interleaved_of_run (hstart : slcanStart bits = some start)
    (h : run (Dongle.step bits version) start acts = some s) :
  Interleaved bits version start s
  := by
  obtain ⟨d, -, rfl⟩ := Option.map_eq_some_iff.mp hstart
  apply (interleaved_boot d).run h

end Dongle

end CanDongle

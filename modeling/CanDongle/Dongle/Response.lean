import CanDongle.Dongle.Progress

/-!
# A command is answered in time

A call of the driver never waits for another thread, and returns within a number of steps of
the command thread that depends on the call alone: `can_close` flushes the queue, which holds
`CAN_RX_BUFFER_SIZE` frames, and the one that `can_rx_thread` may still post.  In between, the
other threads may take any steps.

The same holds of the frames: each one that is received is written to the host, or lost, within
a number of steps of `slcan_rx_spin`.
-/

open Transition

namespace CanDongle

namespace Pipeline

variable {s s' : Pipeline}

/-- The frames that are in the queue, or that `can_rx_thread` may still post. -/
def load (s : Pipeline) : ℕ := s.canRxQueue.messages.length + rxLoad s.rx

theorem load_le (s : Pipeline) :
  s.load ≤ canRxBufferSize + 1
  := by
  have hqueue := s.canRxQueue.length_le
  have hrx := rxLoad_le s.rx
  unfold load
  omega

/-- While the hardware is stopped, the load does not grow. -/
theorem load_of_step {a : Action} (h : Step s a s') (hstopped : s.started = false) :
  s'.load ≤ s.load
  := by
  unfold load
  cases h with
  | receive rxf h hstarted => cases hstopped.symm.trans hstarted
  | post h hqueue => simp [h, hqueue, rxLoad]
  | fetch h hqueue | sendFetch h hqueue | closeFetch h hqueue => simp [*, rxLoad]
  | _ => simp [*, rxLoad]

/-- How many steps the command thread still takes before the reply, once it has begun to open or
to close the channel. -/
def remaining (s : Pipeline) : ℕ :=
  match s.command with
  | .idle => 0
  | .starting => 3
  | .signalling => 2
  | .replying _ => 1
  | .waiting | .parked => 2 * (canRxBufferSize + 1) + 4
  | .stopping => 2 * (canRxBufferSize + 1) + 3
  | .fetching => 2 * s.load + 2
  | .freeing _ => 2 * s.load + 3

/-- Another thread does not delay the command thread. -/
theorem remaining_of_other (hinv : NeverWaits s) {a : Action} (h : Step s a s')
    (ha : ∀ b, a ≠ .command b) :
  s'.remaining ≤ s.remaining
  := by
  have hcommand := (Dongle.shared_of_step h ha).2.2.2
  have hload (hruns : runs s.command = some false) : s'.load ≤ s.load := by
    apply load_of_step h
    rw [hinv.started]
    exact hinv.running _ hruns
  unfold remaining
  rw [hcommand]
  cases hpoint : s.command with
  | fetching | freeing fp =>
      have := hload (by rw [hpoint]; rfl)
      simp only
      omega
  | _ => rfl

/-- A step of the command thread, once it has begun, brings it nearer to the reply. -/
theorem remaining_of_command {a : CommandAction} (h : Step s (.command a) s')
    (hidle : s.command ≠ .idle) :
  s'.remaining + 1 ≤ s.remaining
  := by
  have hload := load_le s
  cases h with
  | openRunning h | openClosed h | closeRunning h | closeClosed h => exact absurd h hidle
  | closeFetch h hqueue => simp [remaining, load, h, hqueue]; omega
  | canStop h =>
      simp only [remaining, load, h] at hload ⊢
      omega
  | _ => simp [remaining, load, *]

/-! ### Frames -/

/-- The steps of `slcan_rx_spin` other than a fetch that finds the queue empty. -/
def sends : Action → Bool
  | .send .timeout => false
  | .send _ => true
  | _ => false

/-- How many steps `slcan_rx_spin` still takes for the frame it has in hand, or will fetch. -/
def senderLeft : Sender → ℕ
  | .fetching => 4
  | .encoding _ => 3
  | .deleting .. => 2
  | .writing .. => 1

theorem senderLeft_bounds (sender : Sender) :
  0 < senderLeft sender ∧ senderLeft sender ≤ 4
  := by
  cases sender <;> simp [senderLeft]

/-- How many steps `slcan_rx_spin` still takes until it has written a frame that is pending. -/
def stepsLeft (k : ℕ) (s : Pipeline) : ℕ := 4 * s.pending.countP (· < k) + senderLeft s.sender

/-- A step of `slcan_rx_spin` brings every frame that stays pending nearer to the host, and no
other step takes it back. -/
theorem not_pending_or_stepsLeft (hinv : OrderInv s) {k : ℕ} (hk : k < s.received.length)
    {a : Action} (h : Step s a s') :
  k ∉ s'.pending ∨ stepsLeft k s' + (sends a).toNat ≤ stepsLeft k s
  := by
  have hcount := (hinv.lossyStep h).countP_le hk.le
  unfold stepsLeft
  cases h with
  | @write number line h =>
      have hpending : s.pending = number :: (s.canRxQueue.messages.map Packet.number ++
          rxNumbers s.rx) := by
        simp [pending, h, senderNumbers]
      have hsorted := (List.pairwise_append.mp hinv.delivers.sorted).2.1
      rw [hpending, List.pairwise_cons] at hsorted
      rcases Nat.lt_or_ge number k with hlt | hge
      · right
        rw [hpending, List.countP_cons_of_pos (by simpa using hlt), h]
        simp [pending, senderNumbers, senderLeft, sends]
        omega
      · left
        intro hmem
        exact absurd (hsorted.1 k hmem) (Nat.not_lt_of_le hge)
  | sendFetch h | encode _ h | delete h =>
      right
      simp only [h, senderLeft, sends, Bool.toNat_true]
      omega
  | _ =>
      right
      simp only [sends, Bool.toNat_false]
      omega

/-- A frame that was received is written to the host, or lost, before `slcan_rx_spin` has taken
four steps for it and for each of the frames before it.  The other threads may take any steps in
between. -/
theorem sent_in_time {acts later : List Action} (h : run step init acts = some s) {k : ℕ}
    (hk : k ∈ s.pending) (hlater : run step s later = some s') :
  k ∈ s'.sent ∨ k ∈ lost s'.overflows s'.flushed ∨
    k ∈ s'.pending ∧ later.countP sends < 4 * (s.pending.countP (· < k) + 1)
  := by
  have hinv := (inv_of_run h).orderInv
  have hlt : k < s.received.length := hinv.delivers.lt_arrived k (List.mem_append_right _ hk)
  have hkeeps (u : Pipeline) (a : Action) (u' : Pipeline)
      (hu : OrderInv u ∧ k < u.received.length) (hstep : step u a = some u') :
      OrderInv u' ∧ k < u'.received.length := by
    have hstep := step_cases hu.1.poolInv.neverWaits hstep
    exact ⟨hu.1.step hstep, hu.2.trans_le (hu.1.lossyStep hstep).arrived_le⟩
  have hdone (u : Pipeline) (a : Action) (u' : Pipeline)
      (hu : OrderInv u ∧ k < u.received.length) (hstep : step u a = some u') (hk : k ∉ u.pending) :
      k ∉ u'.pending := by
    have hstep := step_cases hu.1.poolInv.neverWaits hstep
    intro hk'
    apply hk ((hu.1.lossyStep hstep).mem_pending hk' hu.2)
  have hnearer (u : Pipeline) (a : Action) (u' : Pipeline)
      (hu : OrderInv u ∧ k < u.received.length) (hstep : step u a = some u') :
      k ∉ u'.pending ∨ stepsLeft k u' + (sends a).toNat ≤ stepsLeft k u :=
    not_pending_or_stepsLeft hu.1 hu.2 (step_cases hu.1.poolInv.neverWaits hstep)
  obtain ⟨hinv', hlt'⟩ := run_invariant hkeeps ⟨hinv, hlt⟩ hlater
  by_cases hpending : k ∈ s'.pending
  · have hcount := (done_or_countP_le hkeeps hdone (fun u a _ => hnearer u a) ⟨hinv, hlt⟩
      hlater).resolve_left (not_not_intro hpending)
    have hpos := (senderLeft_bounds s'.sender).1
    have hle := (senderLeft_bounds s.sender).2
    simp only [stepsLeft] at hcount
    exact .inr (.inr ⟨hpending, by omega⟩)
  · rcases hinv'.delivers.accounted k hlt' with hmem | hmem
    · exact .inl ((List.mem_append.mp hmem).resolve_right hpending)
    · exact .inr (.inl hmem)

/-- A frame is received, and posted. -/
def receivePost : List Action :=
  openReceive ++ [.rx .alloc, .rx (.fill 0 (fun _ => emptySlot) []), .rx .post]

/-- It is taken from the queue, and its line is made. -/
def fetchEncode : List Action := [.send .fetch, .rx .getCounter, .send (.encode [])]

theorem sent_in_time_receivePost :
  ∃ s s', run step init receivePost = some s ∧ run step s fetchEncode = some s' ∧
    (0 ∈ s'.sent ∨ 0 ∈ lost s'.overflows s'.flushed ∨
      0 ∈ s'.pending ∧ fetchEncode.countP sends < 4 * (s.pending.countP (· < 0) + 1))
  := by
  obtain ⟨s, hrun, hpending, hlater⟩ : ∃ s, run step init receivePost = some s ∧
      0 ∈ s.pending ∧ (run step s fetchEncode).isSome := exists_run_of_any (by decide +kernel)
  obtain ⟨s', hs'⟩ := Option.isSome_iff_exists.mp hlater
  exact ⟨s, s', hrun, hs', sent_in_time hrun hpending hs'⟩

end Pipeline

namespace Dongle

variable {bits : BtrBits} {version : Version} {base s s' : Dongle} {call : DriverCall}

/-- How many steps the command thread takes in a call, at most. -/
def callSteps : DriverCall → ℕ
  | .canOpen _ => 4
  | .canClose => 2 * (canRxBufferSize + 1) + 5
  | _ => 1

/-- How many steps the command thread still takes in a call, at most. -/
def remaining (call : DriverCall) (p : Pipeline) : ℕ :=
  match p.command with
  | .idle => callSteps call
  | _ => p.remaining

theorem remaining_of_ne_idle {p : Pipeline} (h : p.command ≠ .idle) :
  remaining call p = p.remaining
  := by
  unfold remaining
  split
  · contradiction
  · rfl

theorem remaining_le (h : InCall bits version base s call) :
  remaining call s.pipeline ≤ callSteps call
  := by
  obtain ⟨results, c, reader, d, -, -, -, -, hreached⟩ := h
  have hload := s.pipeline.load_le
  generalize s.driver = d' at hreached
  unfold remaining Pipeline.remaining
  generalize s.pipeline.command = point at hreached
  cases hreached with
  | replying =>
      simp only
      cases call <;> simp [callSteps]
  | called => rfl
  | starting | signalling | waiting | stopping => simp [callSteps]
  | fetching | freeing =>
      simp only [callSteps]
      omega

/-- A step of another thread. -/
theorem remaining_of_other {p p' : Pipeline} (hinv : p.NeverWaits) {a : Action}
    (h : Pipeline.Step p a p') (ha : ∀ b, a ≠ .command b) :
  remaining call p' ≤ remaining call p
  := by
  have hcommand := (shared_of_step h ha).2.2.2
  have hle := Pipeline.remaining_of_other hinv h ha
  unfold remaining
  rw [hcommand]
  split
  · rfl
  · exact hle

/-- A step of the command thread in `can_open` or `can_close`. -/
theorem remaining_of_command {p p' : Pipeline} {a : CommandAction}
    (h : Pipeline.Step p (.command a) p') (ha : a ≠ .reply)
    (hinternal : p.command = .idle → Internal a call) :
  remaining call p' + 1 ≤ remaining call p
  := by
  by_cases hidle : p.command = .idle
  · have hcall := hinternal hidle
    unfold remaining Pipeline.remaining
    rw [hidle]
    cases h with
    | openRunning | openClosed =>
        cases call with
        | canOpen mode => simp [callSteps]
        | _ => exact hcall.elim
    | closeRunning | closeClosed =>
        cases call with
        | canClose => simp [callSteps]
        | _ => exact hcall.elim
    | _ => simp_all
  · have hne : p'.command ≠ .idle := by
      cases h with
      | reply => exact absurd rfl ha
      | _ => simp [*]
    rw [remaining_of_ne_idle hidle, remaining_of_ne_idle hne]
    apply Pipeline.remaining_of_command h hidle

/-- The step that answers the command is still to come. -/
theorem remaining_pos (call : DriverCall) (p : Pipeline) :
  0 < remaining call p
  := by
  unfold remaining Pipeline.remaining
  cases p.command with
  | idle => cases call <;> simp [callSteps]
  | _ => simp

/-- A step in `slcan_serial_write` is one of a thread that is there. -/
theorem point_of_moves {serial serial' : Serial} {a : WriteAction}
    (h : Serial.Moves serial a serial') :
  serial.point a.writer ≠ .idle
  := by
  intro hidle
  cases h with
  | chMtxLock hpoint | putByte hpoint | writeReturns hpoint | chMtxUnlock hpoint =>
      cases hidle.symm.trans hpoint

/-- In a call, a step answers the command, or leaves the command thread in the call, and then a
step of the command thread brings it nearer to the reply. -/
theorem answers_or_remaining (h : Ready bits version base s) (hcall : s.thread = .calling call)
    {a : DongleAction} (hstep : Step bits version s a s') :
  s'.replies.length = s.replies.length + 1 ∨
    s'.replies = s.replies ∧ s'.thread = .calling call ∧
      remaining call s'.pipeline + (decide (a.thread = .command)).toNat
        ≤ remaining call s.pipeline
  := by
  have hwaits := h.interleaved.neverWaits
  cases hstep with
  | rx hp => exact .inr ⟨rfl, hcall, remaining_of_other hwaits hp (by simp)⟩
  | send hidle hp ha => exact .inr ⟨rfl, hcall, remaining_of_other hwaits hp (by simp)⟩
  | sendWrite hidle hp => exact .inr ⟨rfl, hcall, remaining_of_other hwaits hp (by simp)⟩
  | byte hthread | found hthread | executed hthread => cases hthread.symm.trans hcall
  | called | returned =>
      left
      subst_vars
      simp [answered]
  | internal hthread ha hp =>
      cases hthread.symm.trans hcall
      refine .inr ⟨rfl, hcall, remaining_of_command hp ?_ fun _ => ha⟩
      rintro rfl
      exact ha
  | canStart hthread hp =>
      refine .inr ⟨rfl, hcall, remaining_of_command hp (by simp) ?_⟩
      cases hp with
      | canStart hcommand => simp [hcommand]
  | canStop hthread hp =>
      refine .inr ⟨rfl, hcall, remaining_of_command hp (by simp) ?_⟩
      cases hp with
      | canStop hcommand => simp [hcommand]
  | @write a serial ha hserial =>
      have hpoint := point_of_moves (Serial.moves_of_step ha hserial)
      have hthread : DongleAction.thread (.write a) ≠ .command := by
        intro hthread
        have hquiet := h.quiet call hcall
        cases hwriter : a.writer with
        | command =>
            rw [hwriter] at hpoint
            exact hpoint hquiet
        | receiver =>
            rw [DongleAction.thread, hwriter] at hthread
            cases hthread
      refine .inr ⟨rfl, hcall, ?_⟩
      rw [decide_eq_false hthread]
      exact le_rfl

/-- The command thread is in the call in which it was after `n` commands, or has answered it. -/
structure Responds (bits : BtrBits) (version : Version) (base : Dongle) (n : ℕ)
    (call : DriverCall) (s : Dongle) : Prop where
  ready : Ready bits version base s
  calling : n < s.replies.length ∨ s.replies.length = n ∧ s.thread = .calling call

/-- No step takes a reply back. -/
theorem replies_of_step {a : DongleAction} (h : Step bits version s a s') :
  s.replies.length ≤ s'.replies.length
  := by
  cases h <;> subst_vars <;> simp [answered]

theorem Responds.step {n : ℕ} (h : Responds bits version base n call s) {a : DongleAction}
    (hstep : Step bits version s a s') :
  Responds bits version base n call s'
  := by
  refine ⟨h.ready.step hstep, ?_⟩
  rcases h.calling with hlt | ⟨heq, hcall⟩
  · exact .inl (hlt.trans_le (replies_of_step hstep))
  · rcases answers_or_remaining h.ready hcall hstep with hanswered | ⟨hreplies, hcall', -⟩
    · left
      omega
    · right
      rw [hreplies]
      exact ⟨heq, hcall'⟩

variable {start : Dongle} {acts later : List DongleAction}

/-- A call of the driver never waits, and returns in time: in every interleaving, the command has
been answered, or the command thread is still in its call, and has not taken more steps since than
the call takes.  It can go on in it while the received frames count at most eight data bytes. -/
theorem answered_in_time (hstart : slcanStart bits = some start)
    (h : run (Dongle.step bits version) start acts = some s) (hcall : s.thread = .calling call)
    (hlater : run (Dongle.step bits version) s later = some s') :
  s.replies.length < s'.replies.length ∨
    s'.thread = .calling call ∧ (s'.pipeline.DataFits → Enabled bits version s' .command) ∧
      later.countP (·.thread = .command) + 1 ≤ callSteps call
  := by
  have hready := ready_of_run hstart h
  have hinv : Responds bits version start s.replies.length call s := ⟨hready, .inr ⟨rfl, hcall⟩⟩
  have hkeeps (u : Dongle) (a : DongleAction) (u' : Dongle)
      (hu : Responds bits version start s.replies.length call u)
      (hstep : u.step bits version a = some u') :
      Responds bits version start s.replies.length call u' :=
    hu.step (step_cases hu.ready.interleaved.neverWaits hstep)
  have hdone (u : Dongle) (a : DongleAction) (u' : Dongle)
      (hu : Responds bits version start s.replies.length call u)
      (hstep : u.step bits version a = some u') (hdone : s.replies.length < u.replies.length) :
      s.replies.length < u'.replies.length :=
    hdone.trans_le (replies_of_step (step_cases hu.ready.interleaved.neverWaits hstep))
  have hnearer (u : Dongle) (a : DongleAction) (u' : Dongle)
      (hu : Responds bits version start s.replies.length call u)
      (hstep : u.step bits version a = some u') :
      s.replies.length < u'.replies.length ∨
        remaining call u'.pipeline + (decide (a.thread = .command)).toNat
          ≤ remaining call u.pipeline := by
    rcases hu.calling with hlt | ⟨heq, hcalling⟩
    · exact .inl (hdone u a u' hu hstep hlt)
    · have hstep := step_cases hu.ready.interleaved.neverWaits hstep
      rcases answers_or_remaining hu.ready hcalling hstep with hanswered | ⟨-, -, hle⟩
      · left
        omega
      · exact .inr hle
  have hcount := done_or_countP_le hkeeps hdone (fun u a _ => hnearer u a) hinv hlater
  have hresponds := run_invariant hkeeps hinv hlater
  rcases hresponds.calling with hanswered | ⟨-, hcalling⟩
  · exact .inl hanswered
  · refine hcount.imp_right fun hle => ⟨hcalling, ?_, ?_⟩
    · intro hfits
      have hrun : run (Dongle.step bits version) start (acts ++ later) = some s' := by
        rw [run_append, h, Option.bind_some, hlater]
      apply enabled_command hresponds.ready (not_halted_of_run hstart hrun hfits)
      apply hresponds.ready.quiet call hcalling
    · have hpos := remaining_pos call s'.pipeline
      have hbound := remaining_le (hready.interleaved.calling call hcall)
      omega

/-- Part of `can_open`, with a step of `can_rx_thread` in it. -/
def halfOpen : List DongleAction := [.command .canOpen, .rx .getCounter, .command .canStart]

theorem answered_in_time_halfOpen :
  ∃ start s s', slcanStart bxCan = some start ∧
    run (Dongle.step bxCan mockVersion) start [.get 'O'.toNat, .get 13] = some s ∧
    run (Dongle.step bxCan mockVersion) s halfOpen = some s' ∧
    (s.replies.length < s'.replies.length ∨
      s'.thread = .calling (.canOpen .normal) ∧ Enabled bxCan mockVersion s' .command ∧
        halfOpen.countP (·.thread = .command) + 1 ≤ callSteps (.canOpen .normal))
  := by
  obtain ⟨start, s, hstart, hrun, hcall, hlater⟩ : ∃ start s, slcanStart bxCan = some start ∧
      run (Dongle.step bxCan mockVersion) start [.get 'O'.toNat, .get 13] = some s ∧
      s.thread = .calling (.canOpen .normal) ∧
      (run (Dongle.step bxCan mockVersion) s halfOpen).any (·.pipeline.DataFits) :=
    exists_run_of_start (by decide +kernel)
  obtain ⟨s', hs', hfits⟩ := exists_run_of_any hlater
  refine ⟨start, s, s', hstart, hrun, hs', ?_⟩
  apply (answered_in_time hstart hrun hcall hs').imp_right
  rintro ⟨hcalling, henabled, hcount⟩
  exact ⟨hcalling, henabled hfits, hcount⟩

end Dongle

end CanDongle

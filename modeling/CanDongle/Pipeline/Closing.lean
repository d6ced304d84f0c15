import CanDongle.Pipeline.Content

/-!
# Frames after a closing

`can_close` stops the hardware and flushes the queue once.  A frame that was received before
may then be in the hands of `can_rx_thread` or of `slcan_rx_spin`, and go on to the host after
the reply to the C command.  It does so in some continuation, unless nothing is pending when
the reply is written, or `can_rx_thread` is to find the pool empty with the frame.
-/

open Transition

namespace CanDongle

namespace Pipeline

/-- A C command that closes an open channel: `can_close` stops the hardware in the state `t`,
and `s` is the state after the reply. -/
structure Closes (before closing : List Action) (t s : Pipeline) : Prop where
  opened : run step init before = some t
  no_reply : .command .reply ∉ closing
  closed : run step t (.command .canStop :: (closing ++ [.command .reply])) = some s

/-- No frame that was received before the closing is written after the reply. -/
def Separated (t s : Pipeline) : Prop :=
  ∀ after s', run step s after = some s' →
    ∃ new, s'.sent = s.sent ++ new ∧ ∀ k ∈ new, t.received.length ≤ k

variable {s s' t : Pipeline}

/-! ### Nothing is received while the channel closes -/

/-- The channel is being closed, or was and the reply is not written yet. -/
structure Closing (received : List CANRxFrame) (s : Pipeline) : Prop where
  neverWaits : NeverWaits s
  stopped : s.started = false
  command : s.command = .fetching ∨ (∃ fp, s.command = .freeing fp) ∨
    ∃ success, s.command = .replying success
  received_eq : s.received = received

/-- The steps of the other threads, and those of the flush. -/
theorem Closing.step {received : List CANRxFrame} (hinv : Closing received s) {a : Action}
    (ha : a ≠ .command .reply) (h : Step s a s') :
  Closing received s'
  := by
  have hneverWaits := hinv.neverWaits.step h
  obtain ⟨-, hstopped, hcommand, hreceived⟩ := hinv
  cases h with
  | receive rxf h hstarted =>
      rw [hstopped] at hstarted
      cases hstarted
  | reply => exact absurd rfl ha
  | openRunning h | openClosed h | canStart h | semSignal h | closeRunning h | closeClosed h
  | semWait h | canStop h => simp [h] at hcommand
  | closeFetch | closeFetched | closeFree =>
      exact ⟨hneverWaits, hstopped, by simp, hreceived⟩
  | _ => exact ⟨hneverWaits, hstopped, hcommand, hreceived⟩

/-- The command thread writes the reply, and nothing was received since the hardware was
stopped. -/
theorem Closes.exists_reply {before closing : List Action} (h : Closes before closing t s) :
  ∃ v, Closing t.received v ∧ step v (.command .reply) = some s
  := by
  have hinv := (inv_of_run h.opened).orderInv.poolInv.neverWaits
  obtain ⟨u, hstop, hrun⟩ := Option.bind_eq_some_iff.mp h.closed
  rw [run_append] at hrun
  obtain ⟨v, hflush, hreply⟩ := Option.bind_eq_some_iff.mp hrun
  have hstop := step_cases hinv hstop
  have hclosing : Closing t.received u := by
    have hneverWaits := hinv.step hstop
    cases hstop
    exact ⟨hneverWaits, rfl, .inl rfl, rfl⟩
  rw [run_singleton] at hreply
  refine ⟨v, ?_, hreply⟩
  apply run_invariant_of_mem _ hclosing hflush
  intro s a ha s' hs hstep
  apply hs.step _ (step_cases hs.neverWaits hstep)
  rintro rfl
  apply h.no_reply ha

/-- What was received when the hardware was stopped is what was received before the reply. -/
theorem Closes.received_eq {before closing : List Action} (h : Closes before closing t s) :
  s.received = t.received
  := by
  obtain ⟨v, hclosing, hreply⟩ := h.exists_reply
  cases step_cases hclosing.neverWaits hreply
  apply hclosing.received_eq

/-- No thread takes a step after `chSysHalt`. -/
theorem not_halted_of_step {a : Action} (h : step s a = some s') :
  ¬ s.Halted
  := by
  rintro ⟨number, hrx⟩
  simp [step, hrx] at h

/-- The reply is written, and the command thread waits for the next command. -/
theorem Closes.replied {before closing : List Action} (h : Closes before closing t s) :
  ¬ s.Halted ∧ s.command = .idle
  := by
  obtain ⟨v, hclosing, hreply⟩ := h.exists_reply
  have hhalted := not_halted_of_step hreply
  cases step_cases hclosing.neverWaits hreply
  exact ⟨hhalted, rfl⟩

theorem Closes.inv {before closing : List Action} (h : Closes before closing t s) :
  Inv s
  := by
  have hrun : run step init (before ++ .command .canStop :: (closing ++ [.command .reply]))
      = some s := by
    rw [run_append, h.opened]
    apply h.closed
  apply inv_of_run hrun

/-! ### Nothing pending -/

/-- When nothing is pending, only what is received from then on is written. -/
theorem sendsFrom_of_run (hinv : Inv s) (hpending : s.pending = []) {acts : List Action}
    (h : run step s acts = some s') :
  SendsFrom s.received.length s.sent s'.sent s'.pending s'.received.length
  := by
  have hstart : SendsFrom s.received.length s.sent s.sent s.pending s.received.length := by
    rw [hpending]
    apply SendsFrom.start
  have hstep (u : Pipeline) (a : Action) (u' : Pipeline)
      (hu : Inv u ∧ SendsFrom s.received.length s.sent u.sent u.pending u.received.length)
      (hstep : step u a = some u') :
      Inv u' ∧ SendsFrom s.received.length s.sent u'.sent u'.pending u'.received.length := by
    obtain ⟨hinv, hsends⟩ := hu
    use hinv.step hstep
    have hstep' := step_cases hinv.orderInv.poolInv.neverWaits hstep
    apply hsends.step (hinv.orderInv.lossyStep hstep')
  exact (run_invariant hstep ⟨hinv, hstart⟩ h).2

/-! ### A frame that is pending -/

/-- In some continuation the next line that is written is that of a pending frame. -/
def WritesPending (s : Pipeline) : Prop :=
  ∃ acts s' k, run step s acts = some s' ∧ s'.sent = s.sent ++ [k] ∧ k ∈ s.pending

/-- A step that writes nothing and keeps what is pending. -/
theorem WritesPending.of_step {a : Action} (hstep : step s a = some s') (hsent : s'.sent = s.sent)
    (hpending : s'.pending = s.pending) (h : WritesPending s') :
  WritesPending s
  := by
  obtain ⟨acts, u, k, hrun, hu, hk⟩ := h
  use a :: acts, u, k
  rw [run, hstep, ← hsent, ← hpending]
  exact ⟨hrun, hu, hk⟩

theorem step_rx (hrx : ¬ s.Halted) (a : RxAction) :
  step s (.rx a) = s.rxStep a
  := by
  unfold step
  split
  case h_1 number h => exact absurd ⟨number, h⟩ hrx
  case h_2 => rfl

theorem step_send (hrx : ¬ s.Halted) (a : SendAction) :
  step s (.send a) = s.sendStep a
  := by
  unfold step
  split
  case h_1 number h => exact absurd ⟨number, h⟩ hrx
  case h_2 => rfl

theorem writesPending_of_writing (hrx : ¬ s.Halted) {number : ℕ} {line : List UInt8}
    (h : s.sender = .writing number line) :
  WritesPending s
  := by
  have hstep : step s (.send .write) = some { s with
      sender := .fetching, sent := s.sent ++ [number], written := s.written ++ [line] } := by
    rw [step_send hrx, sendStep, h]
  refine ⟨[.send .write], _, number, (run_singleton step s _).trans hstep, rfl, ?_⟩
  simp [pending, h, senderNumbers]

theorem writesPending_of_deleting (hrx : ¬ s.Halted) {rxf : Packet} {line : List UInt8}
    (h : s.sender = .deleting rxf line) :
  WritesPending s
  := by
  have hstep : step s (.send .delete) = some { s with
      canRxPool := rxf.slot :: s.canRxPool, sender := .writing rxf.number line } := by
    rw [step_send hrx, sendStep, h]
  apply WritesPending.of_step hstep rfl
  · simp [pending, h, senderNumbers]
  · apply writesPending_of_writing
    · apply hrx
    · rfl

theorem writesPending_of_encoding (hrx : ¬ s.Halted) {rxf : Packet}
    (h : s.sender = .encoding rxf) :
  WritesPending s
  := by
  have hstep : step s (.send (.encode [])) = some { s with
      sender := .deleting rxf ((slcanRxLine (s.rxPoolBuf rxf.slot)).getD []) } := by
    rw [step_send hrx, sendStep, h]
  apply WritesPending.of_step hstep rfl
  · simp [pending, h, senderNumbers]
  · apply writesPending_of_deleting
    · apply hrx
    · rfl

/-- The frame `slcan_rx_spin` has in hand is the next, and then those in the queue. -/
theorem writesPending_of_sender (hrx : ¬ s.Halted)
    (h : s.sender ≠ .fetching ∨ s.canRxQueue.messages ≠ []) :
  WritesPending s
  := by
  cases hsender : s.sender with
  | writing number line => apply writesPending_of_writing hrx hsender
  | deleting rxf line => apply writesPending_of_deleting hrx hsender
  | encoding rxf => apply writesPending_of_encoding hrx hsender
  | fetching =>
      have hqueue := h.resolve_left (fun hne => hne hsender)
      cases hfetch : s.canRxQueue.fetch with
      | none => exact absurd (Mailbox.fetch_eq_none hfetch) hqueue
      | some p =>
          obtain ⟨rxf, queue⟩ := p
          have hstep : step s (.send .fetch) = some { s with
              canRxQueue := queue, sender := .encoding rxf } := by
            rw [step_send hrx, sendStep, hsender, hfetch]
          apply WritesPending.of_step hstep rfl
          · simp [pending, hsender, senderNumbers, Mailbox.fetch_eq_some hfetch]
          · apply writesPending_of_encoding
            · apply hrx
            · rfl

/-- The frame `can_rx_thread` has in hand is posted to a queue that is empty. -/
theorem writesPending_of_posting {fp : Packet} (h : s.rx = .posting fp) :
  WritesPending s
  := by
  have hrx : ¬ s.Halted := by simp [Halted, h]
  by_cases hqueue : s.canRxQueue.messages = []
  · cases hpost : s.canRxQueue.post fp with
    | none =>
        have hfull := Mailbox.post_eq_none hpost
        rw [hqueue] at hfull
        cases hfull
    | some queue =>
        have hstep : step s (.rx .post) = some { s with
            canRxQueue := queue, rx := .checking } := by
          rw [step_rx hrx, rxStep, h]
          simp only [hpost]
        have hmessages := (Mailbox.post_eq_some hpost).2
        apply WritesPending.of_step hstep rfl
        · simp [pending, h, rxNumbers, hmessages]
        · apply writesPending_of_sender
          · simp [Halted]
          · simp [hmessages]
  · apply writesPending_of_sender hrx (.inr hqueue)

theorem writesPending_of_filling {fp : Packet} {rxf : CANRxFrame} (h : s.rx = .filling fp rxf) :
  WritesPending s
  := by
  have hrx : ¬ s.Halted := by simp [Halted, h]
  have hstep : ∃ buf, step s (.rx (.fill 0 s.rxPoolBuf s.canRxPool)) = some { s with
      rxPoolBuf := buf, rx := .posting fp } := by
    rw [step_rx hrx, rxStep, h]
    dsimp only
    split
    · exact ⟨_, rfl⟩
    · exact ⟨_, rfl⟩
  obtain ⟨buf, hstep⟩ := hstep
  apply WritesPending.of_step hstep rfl
  · simp [pending, h, rxNumbers]
  · apply writesPending_of_posting
    rfl

theorem writesPending_of_allocating {number : ℕ} {rxf : CANRxFrame}
    (h : s.rx = .allocating number rxf) (hpool : s.canRxPool ≠ []) :
  WritesPending s
  := by
  have hrx : ¬ s.Halted := by simp [Halted, h]
  obtain ⟨slot, pool, hpool⟩ := List.exists_cons_of_ne_nil hpool
  have hstep : step s (.rx .alloc) = some { s with
      canRxPool := pool, rx := .filling ⟨slot, number⟩ rxf } := by
    rw [step_rx hrx, rxStep, h]
    simp only [hpool]
  apply WritesPending.of_step hstep rfl
  · simp [pending, h, rxNumbers]
  · apply writesPending_of_filling
    rfl

/-- Nothing is pending but the frame `can_rx_thread` has in hand, and `chPoolAlloc` finds no slot
for it. -/
structure RunsDry (s : Pipeline) : Prop where
  rx : ∃ number rxf, s.rx = .allocating number rxf
  pool : s.canRxPool = []
  queue : s.canRxQueue.messages = []
  sender : s.sender = .fetching

/-- While anything is pending, the host may still get some of it, unless the pool runs dry. -/
theorem writesPending_or_runsDry (hhalted : ¬ s.Halted) (h : s.pending ≠ []) :
  WritesPending s ∨ RunsDry s
  := by
  by_cases hsender : s.sender ≠ .fetching ∨ s.canRxQueue.messages ≠ []
  · exact .inl (writesPending_of_sender hhalted hsender)
  · obtain ⟨hfetching, hempty⟩ := not_or.mp hsender
    rw [not_not] at hfetching hempty
    cases hrx : s.rx with
    | allocating number rxf =>
        by_cases hpool : s.canRxPool = []
        · exact .inr ⟨⟨number, rxf, hrx⟩, hpool, hempty, hfetching⟩
        · exact .inl (writesPending_of_allocating hrx hpool)
    | filling fp rxf => exact .inl (writesPending_of_filling hrx)
    | posting fp => exact .inl (writesPending_of_posting hrx)
    | halted number => exact absurd ⟨number, hrx⟩ hhalted
    | _ => simp [pending, hfetching, hempty, hrx, senderNumbers, rxNumbers] at h

/-! ### A pool that runs dry -/

/-- The pool ran dry, or is about to: no thread has a slot to free, and nothing is written. -/
structure Dry (sent : List ℕ) (s : Pipeline) : Prop where
  neverWaits : NeverWaits s
  sent_eq : s.sent = sent
  command : ∀ fp, s.command ≠ .freeing fp
  dry : RunsDry s ∨ s.Halted

theorem Dry.step {sent : List ℕ} (h : Dry sent s) {a : Action} (hstep : step s a = some s') :
  Dry sent s'
  := by
  have hdry := h.dry.resolve_right (not_halted_of_step hstep)
  obtain ⟨⟨number, rxf, hrx⟩, hpool, hqueue, hsender⟩ := hdry
  have hstep := step_cases h.neverWaits hstep
  have hneverWaits := h.neverWaits.step hstep
  have hcommand := h.command
  -- what is pending, and the pool, change only when `can_rx_thread` goes on, and it halts
  cases hstep with
  | halt => exact ⟨hneverWaits, h.sent_eq, hcommand, .inr ⟨_, rfl⟩⟩
  | sendTimeout => exact h
  | getCounter h' | receive _ h' | timeout h' | fill _ _ _ h' | overrun _ _ _ h' | post h'
  | overflow h' | drop h' | fetch h' | fetched h' | free h' => cases hrx.symm.trans h'
  | alloc h' hpool' => cases hpool.symm.trans hpool'
  | encode _ h' | delete h' | write h' => cases hsender.symm.trans h'
  | sendFetch _ hqueue' | closeFetch _ hqueue' => cases hqueue.symm.trans hqueue'
  | closeFree h' => exact absurd h' (hcommand _)
  | _ => exact ⟨hneverWaits, h.sent_eq, by simp, .inl ⟨⟨number, rxf, hrx⟩, hpool, hqueue, hsender⟩⟩

/-! ### Sessions -/

/-- No frame from before a closing is written after the reply, in exactly the closings after
which nothing is pending: neither `can_rx_thread` nor `slcan_rx_spin` has a frame in hand, and the
queue is empty.  A frame in hand that finds the pool empty does not count. -/
theorem separated_iff {before closing : List Action} (h : Closes before closing t s) :
  Separated t s ↔ s.pending = [] ∨ RunsDry s
  := by
  have hinv := h.inv
  constructor
  · intro hseparated
    by_cases hpending : s.pending = []
    · exact .inl hpending
    refine .inr ((writesPending_or_runsDry h.replied.1 hpending).resolve_left ?_)
    rintro ⟨acts, s', k, hrun, hsent, hk⟩
    obtain ⟨new, hnew, hge⟩ := hseparated acts s' hrun
    rw [hsent] at hnew
    obtain rfl := List.append_cancel_left hnew
    have hlt : k < s.received.length :=
      hinv.orderInv.delivers.lt_arrived k (List.mem_append_right _ hk)
    rw [h.received_eq] at hlt
    apply Nat.not_le_of_lt hlt (hge k (List.mem_singleton_self k))
  · rintro (hpending | hdry) acts s' hrun
    · rw [← h.received_eq]
      apply (sendsFrom_of_run hinv hpending hrun).sent_ge
    · have hstart : Dry s.sent s := ⟨hinv.orderInv.poolInv.neverWaits, rfl, by simp [h.replied.2],
        .inl hdry⟩
      have hend : Dry s.sent s' := run_invariant (fun _ _ _ hs => hs.step) hstart hrun
      use [], by rw [hend.sent_eq, List.append_nil]
      simp

/-- The channel is opened, and `can_rx_thread` receives a frame. -/
def openAndReceive : List Action :=
  [.command .canOpen, .command .canStart, .command .semSignal, .command .reply, .rx .getCounter,
    .rx (.receive twoFrame)]

/-- The frame is posted before the channel is closed, and flushed. -/
theorem separated_of_posted :
  ∃ t s, Closes (openAndReceive ++ [.rx .alloc, .rx (.fill 0 (fun _ => emptySlot) []), .rx .post,
      .command .canClose, .command .semWait]) [.command .fetch, .command .free, .command .fetch]
      t s ∧ t.received.length = 1 ∧ Separated t s
  := by
  have hcloses : Closes (openAndReceive ++ [.rx .alloc, .rx (.fill 0 (fun _ => emptySlot) []),
      .rx .post, .command .canClose, .command .semWait])
      [.command .fetch, .command .free, .command .fetch] _ _ := ⟨rfl, by simp, rfl⟩
  exact ⟨_, _, hcloses, rfl, (separated_iff hcloses).mpr (.inl rfl)⟩

/-- The channel is closed while `can_rx_thread` has the frame in hand, and the frame is written
after the reply. -/
theorem receiveClose_not_separated :
  ∃ t s, Closes (openAndReceive ++ [.command .canClose, .command .semWait]) [.command .fetch] t s ∧
    ¬ Separated t s
  := by
  refine ⟨_, _, ⟨rfl, by simp, rfl⟩, ?_⟩
  intro hseparated
  obtain ⟨new, hnew, hge⟩ := hseparated ([.rx .alloc, .rx (.fill 0 (fun _ => emptySlot) []),
    .rx .post] ++ delivery) _ rfl
  obtain rfl : [0] = new := hnew
  apply Nat.not_succ_le_zero 0 (hge 0 (List.mem_singleton_self 0))

end Pipeline

end CanDongle

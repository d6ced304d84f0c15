import CanDongle.Pipeline.Content

/-!
# How much the queue can take

The queue overflows only when `slcan_rx_spin` has fallen more than `CAN_RX_BUFFER_SIZE` frames
behind.  While it keeps up, no frame is lost but those that `can_close` flushes.

When the queue does overflow, `can_rx_thread` flushes it, and comes back to `wait_on_request`
all the same: after a number of its own steps that the size of the queue bounds.
-/

open Transition

namespace CanDongle

namespace Pipeline

variable {s s' : Pipeline}

/-! ### Keeping up -/

/-- At most `CAN_RX_BUFFER_SIZE` of the received frames have been neither written nor flushed. -/
def KeepsUp (s : Pipeline) : Prop :=
  s.received.length ≤ s.sent.length + s.flushed.length + canRxBufferSize

/-- As long as the queue has not overflowed, a received frame was written or flushed, or it is
pending. -/
structure NoOverflow (s : Pipeline) : Prop where
  overflows : s.overflows = []
  rx : rxFlushes s.rx = false
  received : s.received.length = s.sent.length + s.pending.length + s.flushed.length

theorem noOverflow_init :
  NoOverflow init
  := ⟨rfl, rfl, rfl⟩

/-- An overflow takes more frames than may be behind. -/
theorem NoOverflow.step (h : NoOverflow s) (hkeeps : KeepsUp s) {a : Action}
    (hstep : Step s a s') :
  NoOverflow s'
  := by
  obtain ⟨hoverflows, hrx, hreceived⟩ := h
  unfold KeepsUp at hkeeps
  cases hstep with
  | overflow h hfull =>
      simp only [pending, h, rxNumbers, List.length_append, List.length_map, List.length_singleton,
        hfull] at hreceived
      omega
  | drop h | fetch h | fetched h | free h =>
      rw [h] at hrx
      cases hrx
  | getCounter h | timeout h | alloc h | halt h | fill _ _ _ h | overrun _ _ _ h =>
      refine ⟨hoverflows, rfl, ?_⟩
      simpa [pending, h, rxNumbers] using hreceived
  | post h hqueue =>
      refine ⟨hoverflows, rfl, ?_⟩
      simpa [pending, h, hqueue, rxNumbers] using hreceived
  | receive rxf h =>
      refine ⟨hoverflows, rfl, ?_⟩
      simp only [pending, h, rxNumbers, List.length_append, List.length_singleton, List.length_nil]
        at hreceived ⊢
      omega
  | encode _ h | delete h =>
      refine ⟨hoverflows, hrx, ?_⟩
      simpa [pending, h, senderNumbers] using hreceived
  | sendFetch h hqueue =>
      refine ⟨hoverflows, hrx, ?_⟩
      simp only [pending, h, hqueue, senderNumbers, List.length_append, List.length_map,
        List.length_cons, List.length_nil] at hreceived ⊢
      omega
  | write h =>
      refine ⟨hoverflows, hrx, ?_⟩
      simp only [pending, h, senderNumbers, List.length_append, List.length_singleton,
        List.length_nil] at hreceived ⊢
      omega
  | closeFetch h hqueue =>
      refine ⟨hoverflows, hrx, ?_⟩
      simp only [pending, hqueue, List.length_append, List.length_map, List.length_cons]
        at hreceived ⊢
      omega
  | _ => exact ⟨hoverflows, hrx, hreceived⟩

/-- Whatever the order of the steps, the queue does not overflow while `slcan_rx_spin` keeps up:
then every received frame was written or is pending, unless `can_close` has flushed it.  What is
pending can go on, as the system is not halted, while the frames count at most eight data bytes. -/
theorem delivered_of_keepsUp {acts : List Action} (h : run step init acts = some s)
    (hkeeps : Along step (fun _ _ s' => KeepsUp s') init acts) :
  s.overflows = [] ∧ (∀ k < s.received.length, k ∈ s.sent ++ s.pending ∨ k ∈ s.flushed) ∧
    (DataFits s → ¬ s.Halted)
  := by
  have hkept (s : Pipeline) (a : Action) (s' : Pipeline)
      (hinv : OrderInv s ∧ NoOverflow s ∧ KeepsUp s) (hstep : step s a = some s')
      (hkeeps : KeepsUp s') : OrderInv s' ∧ NoOverflow s' ∧ KeepsUp s' := by
    have hstep := step_cases hinv.1.poolInv.neverWaits hstep
    exact ⟨hinv.1.step hstep, hinv.2.1.step hinv.2.2 hstep, hkeeps⟩
  obtain ⟨horder, hno, -⟩ := run_invariant_of_along hkept
    ⟨orderInv_init, noOverflow_init, Nat.zero_le _⟩ hkeeps h
  refine ⟨hno.overflows, ?_, horder.poolInv.not_halted⟩
  intro k hk
  rcases horder.delivers.accounted k hk with hmem | ⟨o, ho, -⟩ | hmem
  · exact .inl hmem
  · rw [hno.overflows] at ho
    cases ho
  · exact .inr hmem

theorem delivered_of_keepsUp_openReceive :
  ∃ s, run step init openReceive = some s ∧ s.overflows = [] ∧
    (∀ k < s.received.length, k ∈ s.sent ++ s.pending ∨ k ∈ s.flushed) ∧ ¬ s.Halted
  := by
  have hkeeps : Along step (fun _ _ s' => KeepsUp s') init openReceive := by
    simp [openReceive, Along, step, init, commandStep, rxStep, KeepsUp, Semaphore.init,
      canRxBufferSize]
  obtain ⟨hoverflows, hdelivered, hhalted⟩ := delivered_of_keepsUp rfl hkeeps
  exact ⟨_, rfl, hoverflows, hdelivered, hhalted (dataFits_of_received rfl)⟩

/-! ### Coming back -/

/-- The steps of `can_rx_thread`. -/
def isRx : Action → Bool
  | .rx _ => true
  | _ => false

/-- How many steps `can_rx_thread` still takes until it is in `wait_on_request`, at most. -/
def rxLeft (s : Pipeline) : ℕ :=
  match s.rx with
  | .checking | .halted _ => 0
  | .fetching => 2 * s.canRxQueue.messages.length + 1
  | .dropping _ | .freeing _ => 2 * s.canRxQueue.messages.length + 2
  | .posting _ => 2 * canRxBufferSize + 3
  | .filling .. => 2 * canRxBufferSize + 4
  | .allocating .. => 2 * canRxBufferSize + 5
  | .receiving | .signalling | .waiting | .parked => 2 * canRxBufferSize + 6

theorem rxLeft_le (s : Pipeline) :
  s.rxLeft ≤ 2 * canRxBufferSize + 6
  := by
  have hlength := s.canRxQueue.length_le
  unfold rxLeft
  cases s.rx <;> simp only <;> omega

/-- A step of `can_rx_thread` brings it nearer to `wait_on_request`, and no other thread posts
frames that it would have to flush. -/
theorem rxLeft_of_step {a : Action} (h : Step s a s')
    (ha : a ≠ .rx .getCounter) :
  s'.rxLeft + (isRx a).toNat ≤ s.rxLeft
  := by
  have hlength := s.canRxQueue.length_le
  cases h with
  | getCounter => exact absurd rfl ha
  | overflow h hfull => simp [rxLeft, h, isRx, hfull]
  | fetch h hqueue => simp [rxLeft, h, isRx, hqueue]; omega
  | receive | timeout | alloc | halt | fill | overrun | post | drop | fetched | free =>
      simp [rxLeft, isRx, *]
  | sendFetch h hqueue | closeFetch h hqueue =>
      simp only [rxLeft, hqueue, List.length_cons, isRx, Bool.toNat_false]
      cases s.rx <;> simp only <;> omega
  | _ => rfl

/-- `can_rx_thread` comes back to `wait_on_request` in time, also when the queue overflows: in every
interleaving, it takes at most two steps for each place of the queue, and six more. -/
theorem polls_in_time {acts later : List Action} (h : run step init acts = some s)
    (hlater : run step s later = some s') (hbetween : .rx .getCounter ∉ later) :
  later.countP isRx ≤ 2 * canRxBufferSize + 6
  := by
  have hinv := (inv_of_run h).orderInv.poolInv.neverWaits
  have hkept (u : Pipeline) (a : Action) (u' : Pipeline) (hu : NeverWaits u)
      (hstep : step u a = some u') : NeverWaits u' :=
    hu.step (step_cases hu hstep)
  have hnearer (u : Pipeline) (a : Action) (ha : a ∈ later) (u' : Pipeline) (hu : NeverWaits u)
      (hstep : step u a = some u') : False ∨ u'.rxLeft + (isRx a).toNat ≤ u.rxLeft := by
    right
    apply rxLeft_of_step (step_cases hu hstep)
    rintro rfl
    exact hbetween ha
  have hcount := (done_or_countP_le hkept (fun _ _ _ _ _ hfalse => hfalse) hnearer hinv
    hlater).resolve_left id
  have hle := rxLeft_le s
  omega

/-- `can_rx_thread` receives a frame, while it is sent on that the channel is open. -/
def receiveWhileOpening : List Action :=
  [.rx (.receive twoFrame), .rx .alloc, .command .semSignal, .rx (.fill 0 (fun _ => emptySlot) [])]

theorem polls_in_time_receiveWhileOpening :
  ∃ s s', run step init [.command .canOpen, .command .canStart, .rx .getCounter] = some s ∧
    run step s receiveWhileOpening = some s' ∧
    receiveWhileOpening.countP isRx ≤ 2 * canRxBufferSize + 6
  := by
  obtain ⟨s, hrun, hlater⟩ : ∃ s,
      run step init [.command .canOpen, .command .canStart, .rx .getCounter] = some s ∧
      (run step s receiveWhileOpening).isSome := exists_run_of_any (by decide +kernel)
  obtain ⟨s', hs'⟩ := Option.isSome_iff_exists.mp hlater
  have hbetween : .rx .getCounter ∉ receiveWhileOpening := by simp [receiveWhileOpening]
  exact ⟨s, s', hrun, hs', polls_in_time hrun hs' hbetween⟩

end Pipeline

end CanDongle

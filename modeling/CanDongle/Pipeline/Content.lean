import CanDongle.Pipeline.Order

/-!
# Received frames reach the host

A slot may be written to only by the thread that holds it, so it keeps its frame while it is
queued or encoded.  The lines that `slcan_rx_spin` writes are thus those of the frames that
were received, in their order, and a frame is missing only after an overflow of the queue or
the closing of the channel.
-/

open Ownership Transition

namespace CanDongle

namespace Pipeline

/-! ### Slots and their frames -/

/-- The slot `can_rx_thread` filled. -/
def rxFilled : RxThread → List Packet
  | .posting fp => [fp]
  | _ => []

/-- The slot `slcan_rx_spin` encodes. -/
def senderFilled : Sender → List Packet
  | .encoding rxf => [rxf]
  | _ => []

/-- The slots whose frames are in the pipeline, oldest first. -/
def filled (s : Pipeline) : List Packet :=
  senderFilled s.sender ++ (s.canRxQueue.messages ++ rxFilled s.rx)

/-- The line that `slcan_rx_spin` encoded and did not write yet, with the number of its frame. -/
def inText : Sender → Option (ℕ × List UInt8)
  | .deleting rxf line => some (rxf.number, line)
  | .writing number line => some (number, line)
  | _ => none

/-- A slot holds the frame that was received under its number. -/
def Holds (s : Pipeline) (fp : Packet) : Prop :=
  ∃ rxf, s.received[fp.number]? = some rxf ∧ SameFrame (s.rxPoolBuf fp.slot) rxf.toFrame

/-- A line is that of the frame which was received under a number. -/
def Encodes (received : List CANRxFrame) (number : ℕ) (line : List UInt8) : Prop :=
  ∃ rxf, received[number]? = some rxf ∧ line = frameLine rxf.toFrame false

/-- What is in the pipeline, and what left it, is what was received. -/
structure ContentInv (s : Pipeline) : Prop where
  holds : ∀ fp ∈ s.filled, s.Holds fp
  inText : ∀ p ∈ inText s.sender, Encodes s.received p.1 p.2
  written : List.Forall₂ (Encodes s.received) s.sent s.written

variable {s s' : Pipeline}

theorem contentInv_init :
  ContentInv init
  where
  holds := by rintro p ⟨⟩
  inText := by rintro p ⟨⟩
  written := .nil

theorem Encodes.step {a : Action} (h : Step s a s') {number : ℕ} {line : List UInt8}
    (hline : Encodes s.received number line) :
  Encodes s'.received number line
  := by
  obtain ⟨rxf, hrxf, hline⟩ := hline
  exact ⟨rxf, getElem?_received_step h hrxf, hline⟩

/-- The slot that `can_rx_thread` is to fill is not in use. -/
theorem slot_ne_of_filling (hc : Conserved s.places) {fp fp' : Packet} {rxf : CANRxFrame}
    (h : s.rx = .filling fp rxf) (hfp' : fp' ∈ s.filled) :
  fp'.slot ≠ fp.slot
  := by
  intro heq
  have hrx : fp'.slot ∈ s.places .rx := by simp [places, h, rxHeld, heq]
  rw [filled, h, List.mem_append, List.mem_append] at hfp'
  rcases hfp' with hsender | hqueue | hposting
  · have hplace : fp'.slot ∈ s.places .sender := by
      cases hs : s.sender with
      | encoding rxf =>
          rw [hs] at hsender
          simp only [senderFilled, List.mem_singleton] at hsender
          simp [places, hs, senderHeld, hsender]
      | _ =>
          rw [hs] at hsender
          cases hsender
    cases hc.eq_of_mem hrx hplace
  · have hplace : fp'.slot ∈ s.places .queue := by
      simp only [places, Multiset.mem_coe]
      apply List.mem_map_of_mem hqueue
    cases hc.eq_of_mem hrx hplace
  · cases hposting

/-- No step changes a slot whose frame is in the pipeline. -/
theorem rxPoolBuf_step (hinv : PoolInv s) (hfits : DataFits s) {a : Action} (h : Step s a s')
    {fp : Packet} (hfp : fp ∈ s.filled) :
  s'.rxPoolBuf fp.slot = s.rxPoolBuf fp.slot
  := by
  cases h with
  | fill now buf pool h hframe =>
      apply Function.update_of_ne (slot_ne_of_filling (hinv.conserved hfits) h hfp) _ _
  | overrun now buf pool h hframe =>
      obtain ⟨frame, hsome, -⟩ := hinv.canRxFill_eq_some hfits h now
      rw [hframe] at hsome
      cases hsome
  | _ => rfl

/-- A frame stays in its slot. -/
theorem Holds.step (hinv : PoolInv s) (hfits : DataFits s) {a : Action} (h : Step s a s')
    {fp : Packet} (hfp : fp ∈ s.filled) (hholds : s.Holds fp) :
  s'.Holds fp
  := by
  obtain ⟨rxf, hrxf, hsame⟩ := hholds
  refine ⟨rxf, getElem?_received_step h hrxf, ?_⟩
  rw [rxPoolBuf_step hinv hfits h hfp]
  apply hsame

/-- A slot whose frame is in the pipeline was filled before, or is filled in this step. -/
theorem filled_step {a : Action} (h : Step s a s') {fp : Packet} (hfp : fp ∈ s'.filled) :
  fp ∈ s.filled ∨ ∃ now buf pool rxf, a = .rx (.fill now buf pool) ∧ s.rx = .filling fp rxf
  := by
  cases h with
  | @fill fp' rxf now buf pool frame h hframe | @overrun fp' rxf now buf pool h hframe =>
      rcases List.mem_append.mp hfp with hsender | hrest
      · exact .inl (List.mem_append_left _ hsender)
      · rcases List.mem_append.mp hrest with hqueue | hrx
        · exact .inl (List.mem_append_right _ (List.mem_append_left _ hqueue))
        · obtain rfl := List.mem_singleton.mp hrx
          exact .inr ⟨now, buf, pool, rxf, rfl, h⟩
  | post h hqueue => exact .inl (by simpa [filled, rxFilled, h, hqueue] using hfp)
  | sendFetch h hqueue => exact .inl (by simpa [filled, senderFilled, h, hqueue] using hfp)
  | overflow h _ =>
      left
      simp only [filled, rxFilled, h, List.append_nil] at hfp ⊢
      rw [← List.append_assoc]
      apply List.mem_append_left _ hfp
  | fetch h hqueue =>
      left
      simp only [filled, rxFilled, h, hqueue, List.append_nil] at hfp ⊢
      exact (List.sublist_cons_self _ _).append_left _ |>.subset hfp
  | closeFetch h hqueue =>
      left
      simp only [filled, hqueue] at hfp ⊢
      exact (List.sublist_cons_self _ _).append_left _ |>.subset hfp
  | encode txbuf h =>
      left
      apply List.mem_append_right _ hfp
  | getCounter h | receive _ h _ | timeout h | alloc h _ | halt h _ | drop h | fetched h _
  | free h => exact .inl (by simpa [filled, rxFilled, h] using hfp)
  | delete h | write h => exact .inl (by simpa [filled, senderFilled, h] using hfp)
  | _ => exact .inl hfp

/-! ### The invariant -/

/-- The frame that `can_rx_thread` copies to a slot is the one that was received. -/
theorem PoolInv.holds_of_fill (hinv : PoolInv s) (hfits : DataFits s) {now : UInt32}
    {buf : Slot → CanFrame} {pool : List Slot} (h : Step s (.rx (.fill now buf pool)) s')
    {fp : Packet} {rxf : CANRxFrame} (hrx : s.rx = .filling fp rxf) :
  s'.Holds fp
  := by
  obtain ⟨frame, hsome, hsame⟩ := hinv.canRxFill_eq_some hfits hrx now
  cases h with
  | fill now buf pool h hframe =>
      obtain ⟨rfl, rfl⟩ := RxThread.filling.inj (h.symm.trans hrx)
      obtain rfl := Option.some.inj (hframe.symm.trans hsome)
      refine ⟨_, hinv.received_of_filling hrx, ?_⟩
      simpa using hsame
  | overrun now buf pool h hframe =>
      obtain ⟨rfl, rfl⟩ := RxThread.filling.inj (h.symm.trans hrx)
      rw [hframe] at hsome
      cases hsome

/-- A slot whose frame is in the pipeline holds it. -/
theorem ContentInv.holds_step (hinv : ContentInv s) (hpool : PoolInv s) (hfits : DataFits s)
    {a : Action} (h : Step s a s') :
  ∀ fp ∈ s'.filled, s'.Holds fp
  := by
  intro fp hfp
  rcases filled_step h hfp with hfilled | ⟨now, buf, pool, rxf, rfl, hrx⟩
  · apply Holds.step hpool hfits h hfilled (hinv.holds fp hfilled)
  · apply hpool.holds_of_fill hfits h hrx

/-- The line that is encoded is that of the frame in the slot. -/
theorem ContentInv.inText_step (hinv : ContentInv s) (hfits : DataFits s) {a : Action}
    (h : Step s a s') :
  ∀ p ∈ Pipeline.inText s'.sender, Encodes s'.received p.1 p.2
  := by
  cases h with
  | @encode rxf txbuf h =>
      rintro p ⟨⟩
      have hfilled : rxf ∈ s.filled := by
        rw [filled, h]
        apply List.mem_cons_self
      obtain ⟨frame, hframe, hsame⟩ := hinv.holds rxf hfilled
      have hdlc : frame.DLC.toNat ≤ 8 :=
        BitVec.le_def.mp (hfits frame (List.mem_of_getElem? hframe))
      have hlen : (s.rxPoolBuf rxf.slot).length ≤ 8 := by
        rw [hsame.length, UInt8.le_iff_toNat_le, frame.toNat_length_toFrame]
        apply hdlc
      use frame, hframe
      rw [slcanRxLine_eq_some hlen, Option.getD_some, hsame.frameLine_eq]
  | @delete rxf line h =>
      rintro p ⟨⟩
      apply hinv.inText (rxf.number, line)
      rw [h]
      rfl
  | sendFetch | write => rintro p ⟨⟩
  | receive rxf h hstarted =>
      intro p hp
      exact (hinv.inText p hp).step (.receive rxf h hstarted)
  | _ => apply hinv.inText

/-- A line that is written is that of a frame that was received. -/
theorem ContentInv.written_step (hinv : ContentInv s) {a : Action} (h : Step s a s') :
  List.Forall₂ (Encodes s'.received) s'.sent s'.written
  := by
  cases h with
  | @write number line h =>
      have hline : Encodes s.received number line := by
        apply hinv.inText (number, line)
        rw [h]
        rfl
      apply List.rel_append hinv.written (.cons hline .nil)
  | receive rxf h hstarted =>
      apply hinv.written.imp
      intro number line hline
      apply hline.step (.receive rxf h hstarted)
  | _ => apply hinv.written

theorem ContentInv.step (hinv : ContentInv s) (hpool : PoolInv s) (hfits : DataFits s)
    {a : Action} (h : Step s a s') :
  ContentInv s'
  := ⟨hinv.holds_step hpool hfits h, hinv.inText_step hfits h, hinv.written_step h⟩

/-! ### Runs -/

/-- In a run, a frame was arriving or queued when `can_rx_queue_post` found
`CAN_RX_BUFFER_SIZE` frames in the queue. -/
def OverflowedIn (acts : List Action) (k : ℕ) : Prop :=
  ∃ before after t fp, acts = before ++ .rx .post :: after ∧ run step init before = some t ∧
    t.rx = .posting fp ∧ t.canRxQueue.messages.length = canRxBufferSize ∧
    (k = fp.number ∨ k ∈ t.canRxQueue.messages.map Packet.number)

/-- In a run, a frame was fetched by the flush in `can_close`. -/
def FlushedIn (acts : List Action) (k : ℕ) : Prop :=
  ∃ before after t fp queue, acts = before ++ .command .fetch :: after ∧
    run step init before = some t ∧ t.command = .fetching ∧
    t.canRxQueue.messages = fp :: queue ∧ k = fp.number

/-- What the theorems of this development say of the states of a run. -/
structure Inv (s : Pipeline) : Prop where
  orderInv : OrderInv s
  contentInv : DataFits s → ContentInv s

theorem Inv.step (hinv : Inv s) {a : Action} (h : Pipeline.step s a = some s') :
  Inv s'
  := by
  have h := step_cases hinv.orderInv.poolInv.neverWaits h
  constructor
  · apply hinv.orderInv.step h
  · intro hfits
    have hfits := hfits.of_step h
    exact (hinv.contentInv hfits).step hinv.orderInv.poolInv hfits h

theorem inv_of_run {acts : List Action} (h : run step init acts = some s) :
  Inv s
  := by
  apply run_invariant _ _ h
  · intro s a s' hinv h
    apply hinv.step h
  · exact ⟨orderInv_init, fun _ => contentInv_init⟩

/-- A frame that counts as overflowed did so in a step of the run. -/
theorem overflowedIn_of_mem {acts : List Action} (h : run step init acts = some s) {k : ℕ}
    (hk : k ∈ overflowed s.overflows) :
  OverflowedIn acts k
  := by
  have hinit : k ∉ overflowed init.overflows := by
    rintro ⟨o, ⟨⟩, -⟩
  obtain ⟨before, a, after, t, t', hacts, hrun, hstep, hnot, hmem⟩ :=
    exists_step (Q := fun s => k ∈ overflowed s.overflows) hinit hk h
  have hstep := step_cases (inv_of_run hrun).orderInv.poolInv.neverWaits hstep
  cases hstep with
  | @overflow fp h hfull =>
      use before, after, t, fp, hacts, hrun, h, hfull
      obtain ⟨o, ho, hk⟩ := hmem
      rcases List.mem_cons.mp ho with rfl | ho
      · apply hk
      · exact absurd ⟨o, ho, hk⟩ hnot
  | _ => exact absurd hmem hnot

/-- A frame that counts as flushed was so in a step of the run. -/
theorem flushedIn_of_mem {acts : List Action} (h : run step init acts = some s) {k : ℕ}
    (hk : k ∈ s.flushed) :
  FlushedIn acts k
  := by
  have hinit : k ∉ init.flushed := List.not_mem_nil
  obtain ⟨before, a, after, t, t', hacts, hrun, hstep, hnot, hmem⟩ :=
    exists_step (Q := fun s => k ∈ s.flushed) hinit hk h
  have hstep := step_cases (inv_of_run hrun).orderInv.poolInv.neverWaits hstep
  cases hstep with
  | @closeFetch fp queue h hqueue =>
      use before, after, t, fp, queue.messages, hacts, hrun, h, hqueue
      exact (List.mem_cons.mp hmem).resolve_right hnot
  | _ => exact absurd hmem hnot

/-- In every run whose received frames count at most eight data bytes, the lines that are
written are those of received frames, in their order and without duplicates.  Any other
received frame is in the pipeline, or was lost to an overflow or to the closing of the channel.
A slot whose frame is in the pipeline holds it, and keeps it in every step. -/
theorem received_in_order (acts : List Action) (s : Pipeline)
    (h : run step init acts = some s) (hfits : DataFits s) :
  (s.sent ++ s.pending).Pairwise (· < ·) ∧
    List.Forall₂ (Encodes s.received) s.sent s.written ∧
    (∀ k < s.received.length,
      k ∈ s.sent ∨ k ∈ s.pending ∨ OverflowedIn acts k ∨ FlushedIn acts k) ∧
    ∀ fp ∈ s.filled, s.Holds fp ∧
      ∀ a s', step s a = some s' → s'.rxPoolBuf fp.slot = s.rxPoolBuf fp.slot
  := by
  have hinv := inv_of_run h
  have hcontent := hinv.contentInv hfits
  have hdelivers := hinv.orderInv.delivers
  refine ⟨hdelivers.sorted, hcontent.written, ?_, ?_⟩
  · intro k hk
    rcases hdelivers.accounted k hk with hmem | hover | hflushed
    · rcases List.mem_append.mp hmem with hsent | hpending
      · exact .inl hsent
      · exact .inr (.inl hpending)
    · exact .inr (.inr (.inl (overflowedIn_of_mem h hover)))
    · exact .inr (.inr (.inr (flushedIn_of_mem h hflushed)))
  · intro fp hfp
    use hcontent.holds fp hfp
    intro a s' hstep
    have hstep := step_cases hinv.orderInv.poolInv.neverWaits hstep
    apply rxPoolBuf_step hinv.orderInv.poolInv hfits hstep hfp

/-- The channel is opened, a frame of two data bytes is received, and its line is written. -/
def receiveSend : List Action :=
  openReceive ++ [.rx .alloc, .rx (.fill 0 (fun _ => emptySlot) []), .rx .post] ++ delivery

theorem received_in_order_receiveSend :
  ∃ s, run step init receiveSend = some s ∧ s.sent = [0] ∧ DataFits s ∧
    (s.sent ++ s.pending).Pairwise (· < ·) ∧
    List.Forall₂ (Encodes s.received) s.sent s.written ∧
    (∀ k < s.received.length,
      k ∈ s.sent ∨ k ∈ s.pending ∨ OverflowedIn receiveSend k ∨ FlushedIn receiveSend k) ∧
    ∀ fp ∈ s.filled, s.Holds fp ∧
      ∀ a s', step s a = some s' → s'.rxPoolBuf fp.slot = s.rxPoolBuf fp.slot
  := ⟨_, rfl, rfl, dataFits_of_received rfl, received_in_order receiveSend _ rfl
    (dataFits_of_received rfl)⟩

end Pipeline

end CanDongle

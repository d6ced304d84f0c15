import CanDongle.Pipeline.Handshake
import CanDongle.Library.Ownership

/-!
# The pool never runs dry

While the received frames count at most eight data bytes, every slot is at all times in the
pool, in the queue, or held by one of the threads.  The pool has two slots more than the
queue, and three threads may hold one; but when the command thread holds one the hardware is
stopped, and the queue has room for the frame that `can_rx_thread` may still have in hand.

A frame that counts more may destroy the link of a free slot.  The slots behind it are then
lost, and before long `chPoolAlloc` finds none.
-/

open Ownership Transition

namespace CanDongle

namespace Pipeline

/-- Where a slot can be. -/
inductive Place where
  | pool
  | queue
  | rx
  | sender
  | command
  deriving DecidableEq

instance : Fintype Place where
  elems := {.pool, .queue, .rx, .sender, .command}
  complete p := by cases p <;> decide

theorem sum_place {M : Type*} [AddCommMonoid M] (f : Place → M) :
  ∑ i, f i = f .pool + (f .queue + (f .rx + (f .sender + f .command)))
  := by
  have huniv : (Finset.univ : Finset Place) = {.pool, .queue, .rx, .sender, .command} := rfl
  rw [huniv]
  simp

/-- The slot `can_rx_thread` holds. -/
def rxHeld : RxThread → Multiset Slot
  | .filling fp _ | .posting fp | .dropping fp | .freeing fp => {fp.slot}
  | _ => 0

/-- The slot the thread of `slcan_rx_spin` holds. -/
def senderHeld : Sender → Multiset Slot
  | .encoding rxf | .deleting rxf _ => {rxf.slot}
  | _ => 0

/-- The slot the command thread holds. -/
def commandHeld : Commander → Multiset Slot
  | .freeing fp => {fp.slot}
  | _ => 0

/-- The slots at each place. -/
def places (s : Pipeline) : Place → Multiset Slot
  | .pool => s.canRxPool
  | .queue => s.canRxQueue.messages.map Packet.slot
  | .rx => rxHeld s.rx
  | .sender => senderHeld s.sender
  | .command => commandHeld s.command

variable {s s' : Pipeline}

theorem conserved_init :
  Conserved init.places
  := by
  have hpool : init.places .pool = Finset.univ.val := Multiset.coe_reverse _
  rw [Conserved, sum_place, hpool]
  rfl

/-! ### The frame in hand -/

/-- The frame that `can_rx_thread` received and did not copy yet, with its number. -/
def inHand : RxThread → Option (ℕ × CANRxFrame)
  | .allocating number rxf => some (number, rxf)
  | .filling fp rxf => some (fp.number, rxf)
  | _ => none

/-- The received frames count at most eight data bytes. -/
def DataFits (s : Pipeline) : Prop :=
  ∀ rxf ∈ s.received, rxf.DLC ≤ 8

instance : DecidablePred DataFits :=
  fun s => inferInstanceAs (Decidable (∀ rxf ∈ s.received, rxf.DLC ≤ 8))

/-- More frames are received, under the next numbers. -/
theorem getElem?_received_step {a : Action} (h : Step s a s') {k : ℕ} {rxf : CANRxFrame}
    (hk : s.received[k]? = some rxf) :
  s'.received[k]? = some rxf
  := by
  cases h with
  | receive rxf h hstarted =>
      obtain ⟨hlt, -⟩ := List.getElem?_eq_some_iff.mp hk
      rw [← hk]
      apply List.getElem?_append_left hlt
  | _ => apply hk

theorem DataFits.of_step {a : Action} (h : Step s a s') (hfits : DataFits s') :
  DataFits s
  := by
  intro rxf hrxf
  obtain ⟨k, hk⟩ := List.mem_iff_getElem?.mp hrxf
  apply hfits rxf (List.mem_of_getElem? (getElem?_received_step h hk))

/-- The frame `can_rx_thread` has in hand, and may still post. -/
def rxLoad : RxThread → ℕ
  | .allocating .. | .filling .. | .posting _ => 1
  | _ => 0

theorem rxLoad_le (rx : RxThread) :
  rxLoad rx ≤ 1
  := by
  cases rx <;> simp [rxLoad]

theorem card_senderHeld_le (sender : Sender) :
  (senderHeld sender).card ≤ 1
  := by
  cases sender <;> simp [senderHeld]

/-- The frame in hand is one that was received, and when the command thread holds a slot the
queue has room for it.  While the received frames fit in their slots, the slots are conserved, and
`can_rx_thread` was not halted. -/
structure PoolInv (s : Pipeline) : Prop where
  neverWaits : NeverWaits s
  inHand : ∀ p ∈ inHand s.rx, s.received[p.1]? = some p.2
  room : ∀ fp, s.command = .freeing fp →
    s.canRxQueue.messages.length + rxLoad s.rx ≤ canRxBufferSize
  conserved : DataFits s → Conserved s.places
  not_halted : DataFits s → ¬ s.Halted

theorem poolInv_init :
  PoolInv init
  where
  neverWaits := neverWaits_init
  inHand := by rintro p ⟨⟩
  room := by rintro fp ⟨⟩
  conserved _ := conserved_init
  not_halted := by rintro - ⟨number, ⟨⟩⟩

theorem PoolInv.received_of_filling (hinv : PoolInv s) {fp : Packet} {rxf : CANRxFrame}
    (h : s.rx = .filling fp rxf) :
  s.received[fp.number]? = some rxf
  := by
  apply hinv.inHand (fp.number, rxf)
  rw [h]
  rfl

/-- The copy of a received frame stays in its slot. -/
theorem PoolInv.canRxFill_eq_some (hinv : PoolInv s) (hfits : DataFits s) {fp : Packet}
    {rxf : CANRxFrame} (h : s.rx = .filling fp rxf) (now : UInt32) :
  ∃ frame, canRxFill (s.rxPoolBuf fp.slot) now rxf = some frame ∧ SameFrame frame rxf.toFrame
  := by
  apply CanDongle.canRxFill_eq_some
  apply hfits rxf (List.mem_of_getElem? (hinv.received_of_filling h))

theorem PoolInv.inHand_step (hinv : PoolInv s) {a : Action} (h : Step s a s') :
  ∀ p ∈ Pipeline.inHand s'.rx, s'.received[p.1]? = some p.2
  := by
  cases h with
  | receive rxf h hstarted =>
      rintro p ⟨⟩
      apply List.getElem?_concat_length
  | @alloc number rxf slot pool h hpool =>
      rintro p ⟨⟩
      apply hinv.inHand (number, rxf)
      rw [h]
      rfl
  | getCounter | timeout | halt | fill | overrun | post | overflow | drop | fetch | fetched
  | free =>
      rintro p ⟨⟩
  | _ => apply hinv.inHand

/-! ### Room for it -/

/-- While the command thread holds a slot, the hardware is stopped. -/
theorem PoolInv.stopped (hinv : PoolInv s) {fp : Packet} (h : s.command = .freeing fp) :
  s.started = false
  := by
  rw [hinv.neverWaits.started]
  apply hinv.neverWaits.running
  rw [h]
  rfl

/-- The pool is not empty when a frame was received. -/
theorem PoolInv.pool_ne_nil (hinv : PoolInv s) (hfits : DataFits s) {number : ℕ}
    {rxf : CANRxFrame} (h : s.rx = .allocating number rxf) :
  s.canRxPool ≠ []
  := by
  intro hpool
  have hcard := (hinv.conserved hfits).card
  rw [sum_place] at hcard
  simp only [places, h, hpool, rxHeld, Multiset.coe_card, List.length_map, List.length_nil,
    Multiset.card_zero, Fintype.card_fin, canRxPoolSize] at hcard
  have hqueue := s.canRxQueue.length_le
  have hsender := card_senderHeld_le s.sender
  cases hcommand : s.command with
  | freeing fp =>
      have hroom := hinv.room fp hcommand
      simp only [h, rxLoad] at hroom
      simp only [hcommand, commandHeld, Multiset.card_singleton] at hcard
      omega
  | _ =>
      simp only [hcommand, commandHeld, Multiset.card_zero] at hcard
      omega

/-- A step moves one slot at most, unless the copy of a frame leaves its slot. -/
theorem PoolInv.conserved_step (hinv : PoolInv s) (hfits : DataFits s) {a : Action}
    (h : Step s a s') :
  Conserved s'.places
  := by
  have hc := hinv.conserved hfits
  have hmove (slot : Slot) (i j : Place) (hmove : Moves slot i j s.places s'.places) :
      Conserved s'.places := hc.moves hmove
  have hstay (hplaces : s'.places = s.places) : Conserved s'.places := hplaces ▸ hc
  cases h with
  | overrun now buf pool h hframe =>
      obtain ⟨frame, hsome, -⟩ := hinv.canRxFill_eq_some hfits h now
      rw [hframe] at hsome
      cases hsome
  | @alloc number rxf slot pool h hpool =>
      apply hmove slot .pool .rx
      intro k
      cases k <;> simp [places, h, hpool, rxHeld, coe_cons]
  | @post fp queue h hqueue =>
      apply hmove fp.slot .rx .queue
      intro k
      cases k <;> simp [places, h, hqueue, rxHeld, coe_concat]
  | @drop fp h | @free fp h =>
      apply hmove fp.slot .rx .pool
      intro k
      cases k <;> simp [places, h, rxHeld, coe_cons]
  | @fetch fp queue h hqueue =>
      apply hmove fp.slot .queue .rx
      intro k
      cases k <;> simp [places, h, hqueue, rxHeld, coe_cons]
  | @sendFetch rxf queue h hqueue =>
      apply hmove rxf.slot .queue .sender
      intro k
      cases k <;> simp [places, h, hqueue, senderHeld, coe_cons]
  | @delete rxf line h =>
      apply hmove rxf.slot .sender .pool
      intro k
      cases k <;> simp [places, h, senderHeld, coe_cons]
  | @closeFetch fp queue h hqueue =>
      apply hmove fp.slot .queue .command
      intro k
      cases k <;> simp [places, h, hqueue, commandHeld, coe_cons]
  | @closeFree fp h =>
      apply hmove fp.slot .command .pool
      intro k
      cases k <;> simp [places, h, commandHeld, coe_cons]
  | _ =>
      apply hstay
      funext k
      cases k <;> simp [places, *, rxHeld, senderHeld, commandHeld]

/-- No step takes the room for the frame in hand. -/
theorem PoolInv.room_step (hinv : PoolInv s) {a : Action} (h : Step s a s') {fp : Packet}
    (hfp : s'.command = .freeing fp) :
  s'.canRxQueue.messages.length + rxLoad s'.rx ≤ canRxBufferSize
  := by
  cases h with
  | closeFetch h hqueue =>
      have hlength := s.canRxQueue.length_le
      rw [hqueue, List.length_cons] at hlength
      have hload := rxLoad_le s.rx
      simp only
      omega
  | receive rxf h hstarted =>
      rw [hinv.stopped hfp] at hstarted
      cases hstarted
  | openRunning | openClosed | canStart | semSignal | closeRunning | closeClosed | semWait | canStop
  | closeFetched | closeFree | reply => cases hfp
  | post h hqueue =>
      have hroom := hinv.room fp hfp
      simp only [h, rxLoad] at hroom
      simpa [hqueue, rxLoad] using hroom
  | sendFetch h hqueue =>
      have hroom := hinv.room fp hfp
      rw [hqueue, List.length_cons] at hroom
      simp only
      omega
  | fetch h hqueue =>
      have hroom := hinv.room fp hfp
      rw [hqueue, List.length_cons] at hroom
      simp only [rxLoad]
      omega
  | sendTimeout | encode | delete | write => apply hinv.room fp hfp
  | getCounter h | timeout h | alloc h _ | halt h _ | fill _ _ _ h _ | overrun _ _ _ h _
  | overflow h _ | drop h | fetched h _ | free h =>
      have hroom := hinv.room fp hfp
      simp only [h, rxLoad] at hroom
      simp only [rxLoad]
      omega

theorem PoolInv.step (hinv : PoolInv s) {a : Action} (h : Step s a s') :
  PoolInv s'
  where
  neverWaits := hinv.neverWaits.step h
  inHand := hinv.inHand_step h
  room fp hfp := hinv.room_step h hfp
  conserved hfits := hinv.conserved_step (hfits.of_step h) h
  not_halted hfits := by
    have hfits := hfits.of_step h
    cases h with
    | halt h hpool => exact absurd hpool (hinv.pool_ne_nil hfits h)
    | _ => first | exact hinv.not_halted hfits | rintro ⟨number, ⟨⟩⟩

/-- Each slot is in exactly one place, and `chPoolAlloc` finds a slot: the system is not halted. -/
structure NeverDry (s : Pipeline) : Prop where
  exists_place : ∀ slot, ∃ p, (s.places p).count slot = 1 ∧ ∀ q, q ≠ p → slot ∉ s.places q
  pool_ne_nil : ∀ number rxf, s.rx = .allocating number rxf → s.canRxPool ≠ []
  not_halted : ¬ s.Halted

/-- The pool never runs dry, in any run whose received frames count at most eight data bytes. -/
theorem pool_never_dry (acts : List Action) (s : Pipeline) (h : run step init acts = some s)
    (hfits : DataFits s) :
  NeverDry s
  := by
  have hinv : PoolInv s := by
    apply run_invariant _ poolInv_init h
    intro s a s' hinv h
    apply hinv.step (step_cases hinv.neverWaits h)
  exact ⟨(hinv.conserved hfits).exists_place, fun _ _ => hinv.pool_ne_nil hfits,
    hinv.not_halted hfits⟩

/-- The channel is opened, and a frame is received. -/
def openReceive : List Action :=
  [.command .canOpen, .command .canStart, .rx .getCounter, .rx (.receive twoFrame)]

theorem dataFits_of_received (h : s.received = [twoFrame]) :
  DataFits s
  := by
  intro rxf hrxf
  rw [h, List.mem_singleton] at hrxf
  rw [hrxf]
  decide

theorem pool_never_dry_openReceive :
  ∃ s, run step init openReceive = some s ∧ s.received = [twoFrame] ∧ NeverDry s
  := ⟨_, rfl, rfl, pool_never_dry openReceive _ rfl (dataFits_of_received rfl)⟩

/-! ### A link is destroyed -/

/-- `can_rx_thread` receives a frame, and posts it. -/
def reception (rxf : CANRxFrame) (buf : Slot → CanFrame) (pool : List Slot) : List Action :=
  [.rx .getCounter, .rx (.receive rxf), .rx .alloc, .rx (.fill 0 buf pool), .rx .post]

/-- `slcan_rx_spin` writes a frame. -/
def delivery : List Action := [.send .fetch, .send (.encode []), .send .delete, .send .write]

/-- A data frame whose length code is 15. -/
def fifteenFrame : CANRxFrame := { nineFrame with DLC := 15 }

/-- The slot it is copied to. -/
def fifteenSlot : CanFrame := { emptySlot with id := 0x100, length := 15 }

/-- The last slot, which is the first that the pool gives. -/
def lastSlot : Slot := ⟨canRxPoolSize - 1, by decide⟩

/-- Two frames are received and written.  The pool then begins with the slot before the last and
with the last, and a frame with length code 15 is copied to the slot before the last.  The last four
bytes of the copy are the link of the last slot: with zeros behind `rxf`, the pool ends there. -/
def overrunRun : List Action :=
  [.command .canOpen, .command .canStart, .command .semSignal, .command .reply]
    ++ reception twoFrame (fun _ => emptySlot) [] ++ reception twoFrame (fun _ => emptySlot) []
    ++ delivery ++ delivery ++ reception fifteenFrame (fun _ => fifteenSlot) [lastSlot]
    ++ reception twoFrame (fun _ => emptySlot) []
    ++ [.rx .getCounter, .rx (.receive twoFrame), .rx .alloc]

/-- The slots behind the link are lost, and the second frame after that finds the pool empty. -/
theorem overrunRun_runs_dry :
  ∃ s, run step init overrunRun = some s ∧ s.Halted ∧
    (∀ slot : Slot, slot.val < canRxBufferSize → ∀ p, slot ∉ s.places p) ∧ ¬ NeverDry s
  := by
  obtain ⟨s, hrun, hhalted, hqueue, hplaces⟩ : ∃ s, run step init overrunRun = some s ∧
      s.Halted ∧ (∀ slot ∈ s.places .queue, canRxBufferSize ≤ slot.val) ∧
      ∀ p, p ≠ .queue → s.places p = 0 := by
    refine ⟨_, rfl, ⟨4, rfl⟩, by decide, ?_⟩
    intro p hp
    cases p <;> first | rfl | exact absurd rfl hp
  refine ⟨s, hrun, hhalted, ?_, fun hdry => hdry.not_halted hhalted⟩
  intro slot hslot p hmem
  by_cases hp : p = .queue
  · rw [hp] at hmem
    apply Nat.not_lt_of_le (hqueue slot hmem) hslot
  · rw [hplaces p hp] at hmem
    cases hmem

end Pipeline

end CanDongle

import CanDongle.Pipeline.Pool
import CanDongle.Library.LossyFifo

/-!
# Received frames keep their order

The numbers of the frames that were written are in the order in which the frames were
received, and every other frame is in the pipeline, was lost when the queue overflowed, or
was flushed when the channel was closed.
-/

open Transition

namespace CanDongle

namespace Pipeline

/-! ### Numbers -/

/-- The number of the frame `can_rx_thread` has in hand.  It stays there when the thread halts. -/
def rxNumbers : RxThread → List ℕ
  | .allocating number _ | .halted number => [number]
  | .filling fp _ | .posting fp => [fp.number]
  | _ => []

/-- The number of the frame `slcan_rx_spin` has in hand. -/
def senderNumbers : Sender → List ℕ
  | .encoding rxf | .deleting rxf _ => [rxf.number]
  | .writing number _ => [number]
  | .fetching => []

/-- The numbers of the frames in the pipeline, oldest first. -/
def pending (s : Pipeline) : List ℕ :=
  senderNumbers s.sender ++ (s.canRxQueue.messages.map Packet.number ++ rxNumbers s.rx)

/-- The numbers of the frames that were arriving or queued when the queue was full. -/
def overflowed (overflows : List (ℕ × List ℕ)) : Set ℕ :=
  {k | ∃ o ∈ overflows, k = o.1 ∨ k ∈ o.2}

/-- The numbers of the frames that may be missing. -/
def lost (overflows : List (ℕ × List ℕ)) (flushed : List ℕ) : Set ℕ :=
  overflowed overflows ∪ {k | k ∈ flushed}

/-- The points of `can_rx_thread` after an overflow. -/
def rxFlushes : RxThread → Bool
  | .dropping _ | .fetching | .freeing _ => true
  | _ => false

/-- The pipeline delivers what it received, and `can_rx_thread` flushes only frames that were
queued when the queue was full. -/
structure OrderInv (s : Pipeline) : Prop where
  poolInv : PoolInv s
  delivers : Delivers s.sent s.pending (lost s.overflows s.flushed) s.received.length
  flushes : rxFlushes s.rx = true →
    ∀ fp ∈ s.canRxQueue.messages, ∃ o ∈ s.overflows, fp.number ∈ o.2
  overflows : ∀ o ∈ s.overflows, o.2.length = canRxBufferSize

variable {s s' : Pipeline}

theorem orderInv_init :
  OrderInv init
  := ⟨poolInv_init, Delivers.init _, by rintro ⟨⟩, by rintro o ⟨⟩⟩

theorem overflowed_cons_subset (o : ℕ × List ℕ) (overflows : List (ℕ × List ℕ)) :
  overflowed overflows ⊆ overflowed (o :: overflows)
  := by
  rintro k ⟨o', ho', hk⟩
  exact ⟨o', List.mem_cons_of_mem o ho', hk⟩

/-- A frame that is fetched in a flush after an overflow is lost. -/
theorem OrderInv.mem_lost (hinv : OrderInv s) (hflushes : rxFlushes s.rx = true) {fp : Packet}
    (hfp : fp ∈ s.canRxQueue.messages) :
  fp.number ∈ lost s.overflows s.flushed
  := by
  obtain ⟨o, ho, hnumber⟩ := hinv.flushes hflushes fp hfp
  exact .inl ⟨o, ho, .inr hnumber⟩

/-- The pipeline is a queue that may lose frames. -/
theorem OrderInv.lossyStep (hinv : OrderInv s) {a : Action} (h : Step s a s') :
  LossyStep s.sent s.pending (lost s.overflows s.flushed) s.received.length
    s'.sent s'.pending (lost s'.overflows s'.flushed) s'.received.length
  := by
  have hstay : LossyStep s.sent s.pending (lost s.overflows s.flushed) s.received.length
      s.sent s.pending (lost s.overflows s.flushed) s.received.length := .stay
  have harrive : LossyStep s.sent s.pending (lost s.overflows s.flushed) s.received.length
      s.sent (s.pending ++ [s.received.length]) (lost s.overflows s.flushed)
      (s.received.length + 1) := .arrive
  cases h with
  | receive rxf h hstarted => simpa [pending, h, rxNumbers] using harrive
  | post h hqueue => simpa [pending, h, hqueue, rxNumbers] using hstay
  | @overflow fp h hfull =>
      have hpending : s.pending = (senderNumbers s.sender ++
          s.canRxQueue.messages.map Packet.number) ++ fp.number :: [] := by
        simp [pending, h, rxNumbers]
      have hmem : fp.number ∈ lost ((fp.number, s.canRxQueue.messages.map Packet.number) ::
          s.overflows) s.flushed := .inl ⟨_, List.mem_cons_self, .inl rfl⟩
      have hlost : lost s.overflows s.flushed ⊆ lost ((fp.number,
          s.canRxQueue.messages.map Packet.number) :: s.overflows) s.flushed :=
        Set.union_subset_union_left _ (overflowed_cons_subset _ _)
      simpa [pending, rxNumbers] using LossyStep.lose hpending hmem hlost
  | @fetch fp queue h hqueue =>
      have hpending : s.pending =
          senderNumbers s.sender ++ fp.number :: queue.messages.map Packet.number := by
        simp [pending, h, hqueue, rxNumbers]
      have hmem : fp.number ∈ lost s.overflows s.flushed := by
        apply hinv.mem_lost
        · rw [h]
          rfl
        · rw [hqueue]
          apply List.mem_cons_self
      simpa [pending, rxNumbers] using LossyStep.lose hpending hmem (le_refl _)
  | sendFetch h hqueue => simpa [pending, h, hqueue, senderNumbers] using hstay
  | @write number line h =>
      apply LossyStep.send
      simp [pending, h, senderNumbers]
  | @closeFetch fp queue h hqueue =>
      have hpending : s.pending = senderNumbers s.sender ++
          fp.number :: (queue.messages.map Packet.number ++ rxNumbers s.rx) := by
        simp [pending, hqueue]
      have hmem : fp.number ∈ lost s.overflows (fp.number :: s.flushed) :=
        .inr List.mem_cons_self
      apply LossyStep.lose hpending hmem
      apply Set.union_subset_union_right _ fun k => List.mem_cons_of_mem fp.number
  | getCounter h | timeout h | alloc h _ | halt h _ | fill _ _ _ h _ | overrun _ _ _ h _ | drop h
  | fetched h _ | free h => simpa [pending, h, rxNumbers] using hstay
  | encode _ h | delete h => simpa [pending, h, senderNumbers] using hstay
  | _ => apply hstay

/-- After an overflow, nothing is posted until the flush is over. -/
theorem OrderInv.flushes_step (hinv : OrderInv s) {a : Action} (h : Step s a s')
    (hflushes : rxFlushes s'.rx = true) :
  ∀ fp ∈ s'.canRxQueue.messages, ∃ o ∈ s'.overflows, fp.number ∈ o.2
  := by
  have hprev := hinv.flushes
  cases h with
  | overflow h hfull =>
      intro fp hfp
      exact ⟨_, List.mem_cons_self, List.mem_map_of_mem hfp⟩
  | getCounter | receive | timeout | alloc | halt | fill | overrun | post | fetched =>
      cases hflushes
  | drop h | free h =>
      apply hprev
      rw [h]
      rfl
  | fetch h hqueue =>
      intro fp hfp
      apply hprev
      · rw [h]
        rfl
      · rw [hqueue]
        apply List.mem_cons_of_mem _ hfp
  | sendFetch h hqueue | closeFetch h hqueue =>
      intro fp hfp
      apply hprev hflushes
      rw [hqueue]
      apply List.mem_cons_of_mem _ hfp
  | _ => apply hprev hflushes

/-- A frame overflows when `CAN_RX_BUFFER_SIZE` frames are queued. -/
theorem OrderInv.overflows_step (hinv : OrderInv s) {a : Action} (h : Step s a s') :
  ∀ o ∈ s'.overflows, o.2.length = canRxBufferSize
  := by
  cases h with
  | overflow h hfull =>
      intro o ho
      rcases List.mem_cons.mp ho with rfl | ho
      · simpa using hfull
      · apply hinv.overflows o ho
  | _ => apply hinv.overflows

theorem OrderInv.step (hinv : OrderInv s) {a : Action} (h : Step s a s') :
  OrderInv s'
  := ⟨hinv.poolInv.step h, hinv.delivers.step (hinv.lossyStep h), hinv.flushes_step h,
    hinv.overflows_step h⟩

end Pipeline

end CanDongle

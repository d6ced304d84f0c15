import CanDongle.Pipeline.Content
import CanDongle.Stream

/-!
# The frames of the lines

The lines that the pipeline has written are those of received frames, which are selected by the
numbers of the frames that were sent.
-/

namespace CanDongle

/-- A received frame can be on the bus when it counts at most eight data bytes. -/
theorem CANRxFrame.valid_toFrame {rxf : CANRxFrame} (h : rxf.DLC ≤ 8) :
  rxf.toFrame.Valid
  where
  length_le := by
    have h : rxf.DLC.toNat ≤ 8 := BitVec.le_def.mp h
    rw [UInt8.le_iff_toNat_le, rxf.toNat_length_toFrame]
    apply h
  id_lt hextended := by
    have hide : rxf.IDE = false := hextended
    have hlt := rxf.SID.isLt
    simp only [toFrame, hide, Bool.false_eq_true, if_false, BitVec.toNat_setWidth]
    omega

namespace Pipeline

/-- The received frames with the numbers `numbers`. -/
def Selects (received : List CANRxFrame) (numbers : List ℕ) (frames : List CANRxFrame) : Prop :=
  List.Forall₂ (fun k rxf => received[k]? = some rxf) numbers frames

/-- The lines that encode received frames are the lines of these frames. -/
theorem exists_frames {received : List CANRxFrame} {numbers : List ℕ} {lines : List (List UInt8)}
    (h : List.Forall₂ (Encodes received) numbers lines) :
  ∃ frames, Selects received numbers frames ∧
    lines = frames.map fun rxf => frameLine rxf.toFrame false
  := by
  induction h with
  | nil => exact ⟨[], .nil, rfl⟩
  | cons hline _ ih =>
      obtain ⟨rxf, hrxf, rfl⟩ := hline
      obtain ⟨frames, hframes, rfl⟩ := ih
      exact ⟨rxf :: frames, .cons hrxf hframes, rfl⟩

/-- Frames that are selected were received. -/
theorem Selects.mem {received frames : List CANRxFrame} {numbers : List ℕ}
    (h : Selects received numbers frames) {rxf : CANRxFrame} (hrxf : rxf ∈ frames) :
  rxf ∈ received
  := by
  induction h with
  | nil => cases hrxf
  | cons hk _ ih =>
      rcases List.mem_cons.mp hrxf with rfl | hrxf
      · apply List.mem_of_getElem? hk
      · apply ih hrxf

end Pipeline

end CanDongle

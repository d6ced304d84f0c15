import CanDongle.Frame

/-!
# Reception of a frame

What `can_rx_thread` does with a frame the CAN driver returned: `canRxFill` copies it to
the slot of the pool it allocated, and `slcanRxLine` is the line `slcan_rx_spin` writes
for that slot.  The copy trusts the 4 bits of the length the hardware received, and on a
CAN bus these go up to 15.
-/

open Buffer

namespace CanDongle

/-- `CANRxFrame`, with the fields of the hardware at their widths. -/
structure CANRxFrame where
  DLC : BitVec 4
  RTR : Bool
  IDE : Bool
  SID : BitVec 11
  EID : BitVec 29
  data8 : Vector UInt8 8

/-- The part of `can_rx_thread` that fills the slot `fp` with the frame `rxf`, received
when `timestamp_get` gives `now`.  It yields `none` when the copy of the data leaves the
eight bytes of the slot. -/
def canRxFill (fp : CanFrame) (now : UInt32) (rxf : CANRxFrame) : Option CanFrame := do
  let data ← copy fp.data rxf.data8 rxf.DLC.toNat
  some {
    timestamp := now / 1000
    id := if rxf.IDE then rxf.EID else rxf.SID.setWidth 29
    extended := rxf.IDE
    remote := rxf.RTR
    length := ⟨rxf.DLC.setWidth 8⟩
    data := data }

/-- The received frame as a frame of the driver, without its timestamp. -/
def CANRxFrame.toFrame (rxf : CANRxFrame) : CanFrame where
  timestamp := 0
  id := if rxf.IDE then rxf.EID else rxf.SID.setWidth 29
  extended := rxf.IDE
  remote := rxf.RTR
  length := ⟨rxf.DLC.setWidth 8⟩
  data := rxf.data8

/-- Frames that differ in the timestamp only, and in bytes that they do not count. -/
structure SameFrame (f g : CanFrame) : Prop where
  id : f.id = g.id
  extended : f.extended = g.extended
  remote : f.remote = g.remote
  length : f.length = g.length
  data : f.data.toList.take g.length.toNat = g.data.toList.take g.length.toNat

/-- What `slcan_rx_spin` passes to `slcan_serial_write` for a received frame: the first
`len` bytes of its `txbuf`. -/
def slcanRxLine (rxf : CanFrame) : Option (List UInt8) := do
  let (txbuf, len) ← slcanFrameToAscii maxFrameLen rxf false
  some (txbuf.take len)

/-- A frame line: the text of a frame and CR. -/
def IsFrameLine (line : List UInt8) : Prop :=
  ∃ w, IsFrameText w ∧ line = w ++ [cr]

/-- The reception of `rxf` to the slot `fp` stays within the slot, within the data of the
frame and within `txbuf`, and writes a frame line. -/
def ReceivesWell (fp : CanFrame) (now : UInt32) (rxf : CANRxFrame) : Prop :=
  ∃ f line, canRxFill fp now rxf = some f ∧ slcanRxLine f = some line ∧ IsFrameLine line

theorem CANRxFrame.toNat_length_toFrame (rxf : CANRxFrame) :
  rxf.toFrame.length.toNat = rxf.DLC.toNat
  := by
  have hlt := rxf.DLC.isLt
  simp [toFrame]
  omega

/-- A frame has the same line without its timestamp. -/
theorem SameFrame.frameLine_eq {f g : CanFrame} (h : SameFrame f g) :
  frameLine f false = frameLine g false
  := by
  have hpayload : f.payload = g.payload := by
    rw [CanFrame.payload, CanFrame.payload, h.remote, h.length, h.data]
  simp only [frameLine, frameText, idDigits, h.id, h.extended, h.remote, h.length, hpayload,
    Bool.false_eq_true, if_false]

/-- For a frame of at most eight data bytes, `slcan_rx_spin` writes its line. -/
theorem slcanRxLine_eq_some {f : CanFrame} (h : f.length ≤ 8) :
  slcanRxLine f = some (frameLine f false)
  := by
  rw [slcanRxLine, slcanFrameToAscii_eq_some false h (le_refl _)]
  simp

theorem isFrameLine_frameLine {f : CanFrame} (h : f.length ≤ 8) :
  IsFrameLine (frameLine f false)
  := by
  use frameText f, isFrameText_frameText h
  simp [frameLine]

/-- A frame of at most eight data bytes is copied to the slot. -/
theorem canRxFill_eq_some (fp : CanFrame) (now : UInt32) {rxf : CANRxFrame} (h : rxf.DLC ≤ 8) :
  ∃ f, canRxFill fp now rxf = some f ∧ SameFrame f rxf.toFrame
  := by
  have h : rxf.DLC.toNat ≤ 8 := BitVec.le_def.mp h
  obtain ⟨data, hdata, hlist⟩ := copy_eq_some fp.data rxf.data8 h h
  use { rxf.toFrame with timestamp := now / 1000, data := data }
  constructor
  · rw [canRxFill, hdata]
    rfl
  · use rfl, rfl, rfl, rfl
    rw [rxf.toNat_length_toFrame, hlist, List.take_append_of_le_length (by simp [h]),
      List.take_take, Nat.min_self]
    rfl

/-- The copy of more than eight data bytes leaves the slot. -/
theorem canRxFill_eq_none (fp : CanFrame) (now : UInt32) {rxf : CANRxFrame} (h : 8 < rxf.DLC) :
  canRxFill fp now rxf = none
  := by
  rw [canRxFill, copy_eq_none fp.data rxf.data8 (BitVec.lt_def.mp h)]
  rfl

/-- A filled slot holds a frame of at most eight data bytes. -/
theorem length_le_of_canRxFill {fp f : CanFrame} {now : UInt32} {rxf : CANRxFrame}
    (hf : canRxFill fp now rxf = some f) :
  f.length ≤ 8
  := by
  have h : rxf.DLC ≤ 8 := by
    by_contra h
    rw [canRxFill_eq_none fp now (BitVec.not_le.mp h)] at hf
    cases hf
  obtain ⟨f', hf', hsame⟩ := canRxFill_eq_some fp now h
  obtain rfl : f' = f := Option.some.inj (hf'.symm.trans hf)
  apply UInt8.le_iff_toNat_le.mpr
  rw [hsame.length, rxf.toNat_length_toFrame]
  apply BitVec.le_def.mp h

/-- A frame is received within bounds, and its line is well formed, exactly when its
length code is at most eight. -/
theorem receivesWell_iff (fp : CanFrame) (now : UInt32) (rxf : CANRxFrame) :
  ReceivesWell fp now rxf ↔ rxf.DLC ≤ 8
  := by
  constructor
  · rintro ⟨f, line, hf, -, -⟩
    by_contra h
    rw [canRxFill_eq_none fp now (BitVec.not_le.mp h)] at hf
    cases hf
  · intro h
    obtain ⟨f, hf, -⟩ := canRxFill_eq_some fp now h
    have hlen := length_le_of_canRxFill hf
    use f, frameLine f false, hf, slcanRxLine_eq_some hlen
    apply isFrameLine_frameLine hlen

/-- A slot of the pool before its first use. -/
def emptySlot : CanFrame where
  timestamp := 0
  id := 0
  extended := false
  remote := false
  length := 0
  data := Vector.replicate 8 0

/-- A data frame whose length code is 9, which is legal on the bus. -/
def nineFrame : CANRxFrame where
  DLC := 9
  RTR := false
  IDE := false
  SID := 0x100
  EID := 0
  data8 := Vector.replicate 8 0

/-- A data frame of two bytes. -/
def twoFrame : CANRxFrame := { nineFrame with DLC := 2 }

/-- The copy of a frame with length code 9 writes a ninth byte. -/
theorem nineFrame_not_receivesWell :
  canRxFill emptySlot 0 nineFrame = none ∧ ¬ ReceivesWell emptySlot 0 nineFrame
  := by
  have hnone : canRxFill emptySlot 0 nineFrame = none := canRxFill_eq_none _ _ (by decide)
  use hnone
  rintro ⟨f, line, hf, -, -⟩
  rw [hnone] at hf
  cases hf

end CanDongle

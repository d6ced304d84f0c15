import CanDongle.Transmit
import CanDongle.Driver

/-!
# What is sent for a frame command

`slcan_send_frame` reads an identifier of 12 or 32 bits, and `can_send` stores it in a
field of 11 or 29 bits.  The frame that is handed to the hardware is compared with the text
of the command.
-/

namespace CanDongle

/-- The number of bits of the identifier of a hardware frame. -/
def idBits (extended : Bool) : ℕ := if extended then 29 else 11

/-- The number the digits of the identifier denote. -/
def FrameText.idValue (t : FrameText) : ℕ := Numeral.value 16 (t.id.map digitValue)

/-- The number of the digit of the length. -/
def FrameText.length (t : FrameText) : ℕ := digitValue t.dlc

/-- The identifier fits in a hardware frame. -/
def FrameText.IdFits (t : FrameText) : Prop := t.idValue < 2 ^ idBits t.extended

/-- The field IDE. -/
def CanId.ide : CanId → Bool
  | .sid _ => false
  | .eid _ => true

/-- The number of an identifier. -/
def CanId.toNat : CanId → ℕ
  | .sid id => id.toNat
  | .eid id => id.toNat

/-- A hardware frame says what the text of a frame says. -/
structure CANTxFrame.Carries (txf : CANTxFrame) (t : FrameText) : Prop where
  ide : txf.id.ide = t.extended
  rtr : txf.RTR = t.remote
  dlc : txf.DLC.toNat = t.length
  id : txf.id.toNat = t.idValue
  data : t.remote = false →
    (txf.data8.take t.length).map UInt8.toNat = pairValues (t.data.map digitValue)

/-- A frame command is answered with BELL, or the one frame that is handed to the hardware says
what its text says. -/
def SentAsWritten (bits : BtrBits) (t : FrameText) (line : Line) : Prop :=
  ∀ env d, ∃ line' d', slcanSendFrame (canDriver bits env) line d = some (line', d') ∧
    (line'.text = [bell] ∨ ∃ txf, d'.calls = d.calls ++ [.canTransmit txf] ∧ txf.Carries t)

theorem FrameText.toNat_hexVal_dlc (t : FrameText) :
  (hexVal t.dlc).toNat = t.length ∧ t.length ≤ 8
  := by
  have hdlc : 48 ≤ t.dlc.toNat ∧ t.dlc.toNat ≤ 56 := t.dlc_mem
  use toNat_hexVal t.isHexDigit_dlc
  rw [FrameText.length, toNat_digitValue, if_pos (by omega)]
  omega

/-- The parser reads the number of the identifier. -/
theorem FrameText.toNat_hexU32_id (t : FrameText) :
  (hexU32 t.id).toNat = t.idValue
  := by
  have hlen : t.id.length ≤ 8 := by
    rw [t.length_id, idLen]
    split <;> decide
  rw [toNat_hexU32 hlen, FrameText.idValue]
  congr 1
  apply List.map_congr_left
  intro c hc
  apply toNat_hexVal (t.isHexDigit_id c hc)

theorem FrameText.length_hexBytes_data (t : FrameText) (h : t.remote = false) :
  (hexBytes t.data).length = t.length
  := by
  have hdlc := hexVal_dlc t.dlc_mem
  rw [length_hexBytes, t.length_data, h, ← t.toNat_hexVal_dlc.1, hdlc.1]
  simp

/-- The frame that `can_send` makes of the text of a frame. -/
def FrameText.txFrame (t : FrameText) : CANTxFrame where
  id := if t.extended then .eid (.ofNat 29 t.idValue) else .sid (.ofNat 11 t.idValue)
  RTR := t.remote
  DLC := .ofNat 4 t.length
  data8 := if t.remote then [] else hexBytes t.data

theorem txFrame_frameText (t : FrameText) :
  txFrame (hexU32 t.id) t.extended t.remote (if t.remote then [] else hexBytes t.data)
    (hexVal t.dlc).toNat = some t.txFrame
  := by
  obtain ⟨hdlc, hle⟩ := t.toNat_hexVal_dlc
  have hid (w : ℕ) : (hexU32 t.id).toBitVec.setWidth w = .ofNat w t.idValue := by
    rw [← t.toNat_hexU32_id]
    apply (BitVec.ofNat_toNat w _).symm
  rw [txFrame, hdlc, FrameText.txFrame, hid, hid]
  cases hremote : t.remote with
  | true => simp
  | false =>
      have hlen := t.length_hexBytes_data hremote
      simp [txData, hle, hlen, List.take_of_length_le hlen.le]

theorem canDriver_frameText (bits : BtrBits) (env : Environment) (t : FrameText) (d : CanDriver) :
  canDriver bits env t.sendCall d
    = some (env.canTransmit t.txFrame, { d with calls := d.calls ++ [.canTransmit t.txFrame] })
  := by
  change canSend env _ _ _ _ _ d = _
  rw [canSend, txFrame_frameText]
  rfl

/-- The identifier is the only field that may not say what the text says. -/
theorem carries_txFrame_iff (t : FrameText) :
  t.txFrame.Carries t ↔ t.IdFits
  := by
  have hid : t.txFrame.id.toNat = t.idValue ↔ t.IdFits := by
    unfold FrameText.txFrame FrameText.IdFits idBits
    cases t.extended <;> simp [CanId.toNat]
  constructor
  · intro h
    apply hid.mp h.id
  · intro h
    refine ⟨?_, rfl, ?_, hid.mpr h, ?_⟩
    · unfold FrameText.txFrame
      cases t.extended <;> rfl
    · have hle := t.toNat_hexVal_dlc.2
      apply Nat.mod_eq_of_lt
      omega
    · intro hremote
      rw [FrameText.txFrame, hremote, if_neg Bool.false_ne_true,
        List.take_of_length_le (t.length_hexBytes_data hremote).le,
        map_toNat_hexBytes t.isHexDigit_data]

/-- A frame that the hardware accepts is acknowledged, so it has to say what the text says. -/
theorem SentAsWritten.carries {bits : BtrBits} {t : FrameText} {line : Line}
    (hsent : SentAsWritten bits t line) (h : t.toList <+: line.toList) :
  t.txFrame.Carries t
  := by
  let env : Environment := ⟨fun _ => true, fun _ => true⟩
  let d : CanDriver := ⟨⟨false, canConfig bits, 0, false⟩, []⟩
  obtain ⟨line', d', hrun, hor⟩ := hsent env d
  obtain ⟨line'', hrun', htext⟩ := slcanSendFrame_of_frameText h (canDriver_frameText bits env t d)
  rw [hrun'] at hrun
  cases hrun
  rcases hor with hbell | ⟨txf, hcalls, hcarries⟩
  · rw [htext] at hbell
    have hcr : cr = bell := List.singleton_inj.mp hbell
    exact absurd hcr (by decide)
  · cases hcalls
    apply hcarries

/-- A frame command is sent as it is written exactly when its identifier fits in a hardware
frame. -/
theorem sentAsWritten_iff (bits : BtrBits) (t : FrameText) (line : Line)
    (h : t.toList <+: line.toList) :
  SentAsWritten bits t line ↔ t.IdFits
  := by
  rw [← carries_txFrame_iff]
  constructor
  · intro hsent
    apply hsent.carries h
  · intro hcarries env d
    obtain ⟨line', hrun, -⟩ := slcanSendFrame_of_frameText h (canDriver_frameText bits env t d)
    exact ⟨line', _, hrun, Or.inr ⟨t.txFrame, rfl, hcarries⟩⟩

/-- The text `t8000`: the identifier 0x800 needs twelve bits. -/
def wideText : FrameText where
  extended := false
  remote := false
  id := ['8', '0', '0'].map Char.toUInt8
  dlc := '0'.toUInt8
  data := []
  length_id := rfl
  isHexDigit_id := by decide +kernel
  dlc_mem := by decide
  length_data := rfl
  isHexDigit_data := by decide +kernel

/-- The text `T1fffffff2CAFE`, of the largest extended identifier. -/
def fittingText : FrameText where
  extended := true
  remote := false
  id := ['1', 'f', 'f', 'f', 'f', 'f', 'f', 'f'].map Char.toUInt8
  dlc := '2'.toUInt8
  data := ['C', 'A', 'F', 'E'].map Char.toUInt8
  length_id := rfl
  isHexDigit_id := by decide +kernel
  dlc_mem := by decide
  length_data := by decide +kernel
  isHexDigit_data := by decide +kernel

theorem sentAsWritten_iff_fittingText :
  fittingText.toList <+: (lineOf fittingText.toList).toList ∧
    (SentAsWritten bxCan fittingText (lineOf fittingText.toList) ↔ fittingText.IdFits)
  := ⟨by decide +kernel, sentAsWritten_iff bxCan fittingText _ (by decide +kernel)⟩

/-- The frame `t8000` is sent with the identifier 0, and acknowledged. -/
theorem wideText_not_sentAsWritten :
  ¬ SentAsWritten bxCan wideText (lineOf wideText.toList)
  := by
  intro hsent
  have hfits := (carries_txFrame_iff wideText).mp (hsent.carries (by decide +kernel))
  revert hfits
  unfold FrameText.IdFits
  decide +kernel

end CanDongle

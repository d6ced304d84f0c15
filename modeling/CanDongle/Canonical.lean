import CanDongle.Stream
import CanDongle.Transmission

/-!
# Encoding inverts decoding

A frame command whose identifier fits is decoded to the arguments of `can_send`, and a frame
built from these is encoded to the same text, in lower case.
-/

open Buffer

namespace CanDongle

/-- The lower-case digit of a number below sixteen. -/
def lowerHex (d : ℕ) : UInt8 := d.digitChar.toUInt8

/-- A frame that is built from the arguments of `can_send`; its timestamp, and the data after
what was passed, may be anything. -/
def CanFrame.BuiltFrom (f : CanFrame) : DriverCall → Prop
  | .canSend id extended remote data length =>
      f.id = id.toBitVec.setWidth 29 ∧ f.extended = extended ∧ f.remote = remote ∧
        f.length.toNat = length ∧ f.data.toList.take data.length = data
  | _ => False

/-- The length of the string in a buffer. -/
def strlen (buf : List UInt8) : ℕ := (buf.takeWhile (· ≠ 0)).length

/-- `slcan_frame_to_ascii` writes the line `w` CR and a NUL, and returns the length of the
string. -/
def EncodesTo (f : CanFrame) (timestamp : Bool) (w : List UInt8) : Prop :=
  ∃ buf size, slcanFrameToAscii maxFrameLen f timestamp = some (buf, size) ∧
    buf = w ++ [cr] ++ [0] ∧ size = (w ++ [cr]).length ∧ size = strlen buf

/-- The digits of a timestamp modulo 2^16. -/
def stampText (timestamp : UInt32) : List UInt8 :=
  (Numeral.digits 16 4 (timestamp.toNat % 2 ^ 16)).map lowerHex

/-! ### Digits -/

theorem lowerHex_digitValue {c : UInt8} (h : IsHexDigit c) :
  lowerHex (digitValue c) = lowerDigit c
  := by
  revert c
  apply forall_byte
  decide +kernel

theorem lowerHex_hexVal_hexDigit (b : UInt8) :
  lowerHex (hexVal (hexDigit b)).toNat = hexDigit b
  := by
  have hdigit := isHexDigit_hexDigit b
  rw [toNat_hexVal hdigit, lowerHex_digitValue hdigit, lowerDigit_hexDigit]

theorem digitValue_lt {c : UInt8} (h : IsHexDigit c) :
  digitValue c < 16
  := by
  rw [← toNat_hexVal h]
  apply hexVal_lt

/-- Digits that were written are the digits of their values. -/
theorem map_lowerHex {ds : List UInt8} (h : ∀ c ∈ ds, ∃ b, c = hexDigit b) :
  (ds.map fun c => (hexVal c).toNat).map lowerHex = ds
  := by
  rw [List.map_map]
  nth_rewrite 2 [← List.map_id ds]
  apply List.map_congr_left
  intro c hc
  obtain ⟨b, rfl⟩ := h c hc
  apply lowerHex_hexVal_hexDigit

theorem exists_hexDigit_flatMap (bs : List UInt8) :
  ∀ c ∈ bs.flatMap hexByte, ∃ b, c = hexDigit b
  := by
  intro c hc
  obtain ⟨b, -, hc⟩ := List.mem_flatMap.mp hc
  simp only [hexByte, List.mem_cons, List.not_mem_nil, or_false] at hc
  rcases hc with rfl | rfl
  · use b >>> 4
  · use b

/-- The identifier is written with the digits of its number. -/
theorem idDigits_eq (f : CanFrame) :
  idDigits f = (Numeral.digits 16 (idLen f.extended) f.id.toNat).map lowerHex
  := by
  rw [← map_hexVal_idDigits, map_lowerHex]
  unfold idDigits
  cases f.extended with
  | true => apply exists_hexDigit_flatMap
  | false => simp

/-- The timestamp is written with the digits of its number modulo 2^16. -/
theorem stampDigits_eq (f : CanFrame) :
  stampDigits f = stampText f.timestamp
  := by
  have hvalues : (stampDigits f).map (fun c => (hexVal c).toNat)
      = Numeral.digits 16 4 (f.timestamp.toNat % 2 ^ 16) := by
    simp [stampDigits, hexByte, toNat_hexVal_hexDigit, Numeral.digits, Nat.shiftRight_eq_div_pow]
    omega
  rw [stampText, ← hvalues, map_lowerHex]
  apply exists_hexDigit_flatMap

/-- The digits of an identifier in lower case are the digits of its number. -/
theorem FrameText.map_lowerDigit_id (t : FrameText) :
  t.id.map lowerDigit = (Numeral.digits 16 (idLen t.extended) t.idValue).map lowerHex
  := by
  have hlt : ∀ d ∈ t.id.map digitValue, d < 16 := by
    simp only [List.mem_map]
    rintro _ ⟨c, hc, rfl⟩
    apply digitValue_lt (t.isHexDigit_id c hc)
  have hdigits := Numeral.digits_value hlt
  rw [List.length_map, t.length_id] at hdigits
  rw [FrameText.idValue, hdigits, List.map_map]
  apply List.map_congr_left
  intro c hc
  apply (lowerHex_digitValue (t.isHexDigit_id c hc)).symm

/-! ### Frames built from commands -/

/-- The text of a frame command in lower case. -/
def FrameText.lower (t : FrameText) : List UInt8 := t.toList.map lowerDigit

theorem lowerDigit_frameLetter (extended remote : Bool) :
  lowerDigit (frameLetter extended remote) = frameLetter extended remote
  := by
  cases extended <;> cases remote <;> decide

/-- A frame built from a command whose identifier fits has its identifier. -/
theorem toNat_id_of_builtFrom {t : FrameText} (hfits : t.IdFits) {f : CanFrame}
    (h : f.BuiltFrom t.sendCall) :
  f.id.toNat = t.idValue
  := by
  have hlt : t.idValue < 2 ^ 29 := by
    apply Nat.lt_of_lt_of_le hfits
    apply Nat.pow_le_pow_right (by decide)
    unfold idBits
    split <;> decide
  rw [h.1, BitVec.toNat_setWidth, UInt32.toNat_toBitVec, t.toNat_hexU32_id, Nat.mod_eq_of_lt hlt]

/-- The data bytes of a frame built from a command are written as the digits of the command, in
lower case. -/
theorem payload_of_builtFrom {t : FrameText} {f : CanFrame} (h : f.BuiltFrom t.sendCall) :
  f.payload.flatMap hexByte = t.data.map lowerDigit
  := by
  obtain ⟨-, -, hremote, hlength, hdata⟩ := h
  have hlen := t.length_data
  rw [CanFrame.payload, hremote]
  cases ht : t.remote with
  | true =>
      rw [ht, if_pos rfl, List.length_eq_zero_iff] at hlen
      rw [hlen]
      rfl
  | false =>
      rw [ht, if_neg Bool.false_ne_true, t.length_hexBytes_data ht] at hdata
      rw [ht, if_neg Bool.false_ne_true] at hlen
      rw [if_neg Bool.false_ne_true, hlength, t.toNat_hexVal_dlc.1, hdata]
      apply flatMap_hexByte_hexBytes t.isHexDigit_data
      rw [hlen, Nat.mul_mod_right]

/-- The text of a frame built from a command is the text of the command in lower case. -/
theorem frameText_of_builtFrom {t : FrameText} (hfits : t.IdFits) {f : CanFrame}
    (h : f.BuiltFrom t.sendCall) :
  frameText f = t.lower
  := by
  have hpayload := payload_of_builtFrom h
  have hid := toNat_id_of_builtFrom hfits h
  obtain ⟨-, hextended, hremote, hlength, -⟩ := h
  have hdlc : hexDigit f.length = lowerDigit t.dlc := by
    rw [UInt8.toNat_inj.mp hlength, hexDigit_hexVal t.isHexDigit_dlc]
  rw [frameText, FrameText.lower, FrameText.toList, List.map_cons, List.map_append, List.map_cons,
    lowerDigit_frameLetter, hextended, hremote, hdlc, hpayload, idDigits_eq, hid, hextended,
    t.map_lowerDigit_id]

theorem length_le_of_builtFrom {t : FrameText} {f : CanFrame} (h : f.BuiltFrom t.sendCall) :
  f.length ≤ 8
  := by
  rw [UInt8.toNat_inj.mp h.2.2.2.1]
  apply (hexVal_dlc t.dlc_mem).2

/-! ### What is encoded -/

theorem ne_zero_of_isHexDigit {c : UInt8} (h : IsHexDigit c) :
  c ≠ 0
  := by
  rintro rfl
  revert h
  decide

/-- The line of a frame contains no NUL. -/
theorem ne_zero_of_mem_frameLine (f : CanFrame) (timestamp : Bool) :
  ∀ c ∈ frameLine f timestamp, c ≠ 0
  := by
  intro c hc
  simp only [frameLine, frameText, List.mem_append, List.mem_cons, List.not_mem_nil, or_false] at hc
  rcases hc with ((rfl | hid | rfl | hdata) | hstamp) | rfl
  · apply frameLetter_ne_zero
  · apply ne_zero_of_isHexDigit (isHexDigit_idDigits f c hid)
  · apply ne_zero_of_isHexDigit (isHexDigit_hexDigit _)
  · apply ne_zero_of_isHexDigit (isHexDigit_flatMap_hexByte _ c hdata)
  · cases timestamp with
    | true => apply ne_zero_of_isHexDigit (isHexDigit_flatMap_hexByte _ c hstamp)
    | false => simp at hstamp
  · decide

/-- The digits of the timestamp are inserted before the CR. -/
theorem encodesTo_frameText {f : CanFrame} (h : f.length ≤ 8) (timestamp : Bool) :
  EncodesTo f timestamp (frameText f ++ if timestamp then stampText f.timestamp else [])
  := by
  have hline : frameLine f timestamp
      = (frameText f ++ if timestamp then stampText f.timestamp else []) ++ [cr] := by
    rw [frameLine, stampDigits_eq]
  refine ⟨_, _, slcanFrameToAscii_eq_some timestamp h (le_refl _), ?_, ?_, ?_⟩
  · rw [hline]
  · rw [hline]
  · rw [strlen, List.takeWhile_append_of_pos (by simpa using ne_zero_of_mem_frameLine f timestamp)]
    simp

/-- The line of a frame without its timestamp has at most 27 characters. -/
theorem length_frameText_lt (f : CanFrame) :
  (frameText f ++ [cr]).length ≤ 27
  := by
  have hpayload := length_payload_le f
  have hid : idLen f.extended ≤ 8 := by
    unfold idLen
    split <;> decide
  simp only [frameText, List.length_append, List.length_cons, List.length_nil, length_idDigits,
    length_flatMap_hexByte]
  omega

/-- The parser makes the call of a valid frame of a buffer that holds its text, so frames with
the same text make the same call. -/
theorem sendCall_eq_of_frameText {f g : CanFrame} (hf : f.Valid) (hg : g.Valid)
    (h : frameText f = frameText g) :
  f.sendCall = g.sendCall
  := by
  have hlen : 0 + (frameText f).length ≤ 500 := by
    have := length_frameText_lt f
    rw [List.length_append] at this
    omega
  obtain ⟨line, -, hlist⟩ := storeAll_eq_some zeroLine 0 (frameText f) hlen
  have hprefix : frameText f <+: line.toList := ⟨_, hlist.symm⟩
  have hrequest := request_of_frameText mockVersion (t := f.toText hf.length_le) hprefix
  rw [h] at hprefix
  rw [request_of_frameText mockVersion (t := g.toText hg.length_le) hprefix, sendCall_toText hf,
    sendCall_toText hg] at hrequest
  apply (Request.ask.inj hrequest).symm

/-- Valid frames that are written alike are sent alike. -/
theorem sendCall_eq_of_slcanFrameToAscii {f g : CanFrame} (hf : f.Valid) (hg : g.Valid)
    {timestamp : Bool}
    (h : slcanFrameToAscii maxFrameLen f timestamp = slcanFrameToAscii maxFrameLen g timestamp) :
  f.sendCall = g.sendCall
  := by
  rw [slcanFrameToAscii_eq_some timestamp hf.length_le (le_refl _),
    slcanFrameToAscii_eq_some timestamp hg.length_le (le_refl _), Option.some.injEq,
    Prod.mk.injEq, List.append_cancel_right_eq, frameLine, frameLine,
    List.append_cancel_right_eq] at h
  apply sendCall_eq_of_frameText hf hg
  apply List.append_inj_left' h.1
  split
  · rfl
  · rfl

/-- The arguments that a frame command whose identifier fits passes to `can_send` are encoded to
its text in lower case; a timestamp is inserted before the CR; and valid frames with the same
line are sent alike. -/
theorem encoding_inverts_decoding :
  (∀ (results : List DriverCall → DriverCall → Bool) (t : FrameText) (line : Line)
      (calls : List DriverCall), t.IdFits → t.toList <+: line.toList →
    ∃ line', slcanSendFrame (recorder results) line calls = some (line', calls ++ [t.sendCall]) ∧
      ∀ f : CanFrame, f.BuiltFrom t.sendCall →
        EncodesTo f false t.lower ∧ (t.lower ++ [cr]).length ≤ 27) ∧
  (∀ f : CanFrame, f.length ≤ 8 → ∃ w, EncodesTo f false w ∧
    EncodesTo f true (w ++ stampText f.timestamp)) ∧
  ∀ (f g : CanFrame) (timestamp : Bool), f.Valid → g.Valid →
    slcanFrameToAscii maxFrameLen f timestamp = slcanFrameToAscii maxFrameLen g timestamp →
    f.sendCall = g.sendCall
  := by
  refine ⟨?_, ?_, ?_⟩
  · intro results t line calls hfits hprefix
    have hcall : recorder results t.sendCall calls
        = some (results calls t.sendCall, calls ++ [t.sendCall]) := rfl
    obtain ⟨line', hrun, -⟩ := slcanSendFrame_of_frameText hprefix hcall
    use line', hrun
    intro f hf
    have hencodes := encodesTo_frameText (length_le_of_builtFrom hf) false
    rw [frameText_of_builtFrom hfits hf, if_neg Bool.false_ne_true, List.append_nil] at hencodes
    use hencodes
    rw [← frameText_of_builtFrom hfits hf]
    apply length_frameText_lt
  · intro f hf
    use frameText f
    constructor
    · simpa using encodesTo_frameText hf false
    · simpa using encodesTo_frameText hf true
  · intro f g timestamp hf hg
    apply sendCall_eq_of_slcanFrameToAscii hf hg

/-- A frame built from the text `T1fffffff2CAFE`. -/
def fittingFrame : CanFrame where
  timestamp := 0x12345
  id := 0x1fffffff
  extended := true
  remote := false
  length := 2
  data := #v[0xca, 0xfe, 0xff, 0xff, 0xff, 0xff, 0xff, 0xff]

theorem encoding_inverts_decoding_fittingText :
  EncodesTo fittingFrame false fittingText.lower ∧
    ∃ w, EncodesTo fittingFrame false w ∧ EncodesTo fittingFrame true (w ++ stampText 0x12345)
  := by
  obtain ⟨hdecoded, hstamp, -⟩ := encoding_inverts_decoding
  obtain ⟨-, -, hencodes⟩ := hdecoded (fun _ _ => true) fittingText (lineOf fittingText.toList) []
    (by unfold FrameText.IdFits; decide +kernel) (by decide +kernel)
  use (hencodes fittingFrame ⟨by decide, rfl, rfl, by decide, by decide +kernel⟩).1
  apply hstamp fittingFrame (by decide)

end CanDongle

import CanDongle.Reception
import CanDongle.Thread
import CanDongle.Transmit

/-!
# The round trip of a stream of frames

The lines `slcan_rx_spin` writes for a list of frames, received by another dongle's
command thread, in pieces of any size, send the same frames in the same order.
-/

open Buffer

namespace CanDongle

/-- The call of `can_send` that sends a frame. -/
def CanFrame.sendCall (f : CanFrame) : DriverCall :=
  .canSend ⟨f.id.setWidth 32⟩ f.extended f.remote f.payload f.length.toNat

/-- A frame that can be on the bus: at most eight data bytes, and an identifier of 11 bits
unless it is extended. -/
structure CanFrame.Valid (f : CanFrame) : Prop where
  length_le : f.length ≤ 8
  id_lt : f.extended = false → f.id.toNat < 2 ^ 11

theorem not_isTerminator_of_isHexDigit {c : UInt8} (h : IsHexDigit c) :
  ¬ IsTerminator (c.toNat : ℤ)
  := by
  rw [isHexDigit_iff] at h
  unfold IsTerminator
  omega

/-- The text of a frame has no terminator in it. -/
theorem FrameText.not_isTerminator (t : FrameText) :
  ∀ c ∈ t.toList, ¬ IsTerminator (c.toNat : ℤ)
  := by
  intro c hc
  simp only [FrameText.toList, List.mem_cons, List.mem_append] at hc
  rcases hc with rfl | hc | rfl | hc
  · cases t.extended <;> cases t.remote <;> decide
  · apply not_isTerminator_of_isHexDigit (t.isHexDigit_id c hc)
  · apply not_isTerminator_of_isHexDigit t.isHexDigit_dlc
  · apply not_isTerminator_of_isHexDigit (t.isHexDigit_data c hc)

/-- Parsing the text of a valid frame gives the frame back. -/
theorem sendCall_toText {f : CanFrame} (h : f.Valid) :
  (f.toText h.length_le).sendCall = f.sendCall
  := by
  have hlt : f.id.toNat < 16 ^ idLen f.extended := by
    cases hext : f.extended with
    | true => apply Nat.lt_trans f.id.isLt (by decide)
    | false => apply Nat.lt_trans (h.id_lt hext) (by decide)
  have hid : hexU32 (idDigits f) = ⟨f.id.setWidth 32⟩ := by
    apply UInt32.toNat_inj.mp
    rw [toNat_hexU32_idDigits, Nat.mod_eq_of_lt hlt]
    simp [Nat.mod_eq_of_lt (Nat.lt_trans f.id.isLt (by decide : 2 ^ 29 < 4294967296))]
  have hlength := (hexDigit_length h.length_le).2.2
  unfold FrameText.sendCall CanFrame.sendCall CanFrame.toText
  simp only [hid, hlength, hexBytes_flatMap_hexByte]
  cases hremote : f.remote with
  | true => simp [CanFrame.payload, hremote]
  | false => simp

section RoundTrip

variable (results : List DriverCall → DriverCall → Bool) (version : Version)

/-- The results that deliver the line of a frame, with timeouts between them, make the call of
the frame. -/
theorem slcanThreadMain_frame {f : CanFrame} (h : f.Valid) (reader : LineReader)
    (hpos : reader.pos = 0) {xs : List ℤ}
    (hxs : xs.filter (· ≠ stmTimeout) = delivered (frameText f)) (calls : List DriverCall) :
  ∃ line : Line, ∀ {rest later waiting calls'},
    slcanThreadMain (recorder results) version ⟨line, 0, lineBuffer_pos⟩ rest
          (calls ++ [f.sendCall])
        = some ((later, waiting), calls') →
      slcanThreadMain (recorder results) version reader (xs ++ 13 :: rest) calls
        = some ((line.text :: later, waiting), calls')
  := by
  have hlen : (frameText f).length < 500 := by
    have hline := length_frameLine_le f false
    simp only [frameLine, List.length_append] at hline
    omega
  obtain ⟨line, hlist, hline⟩ := slcanThreadMain_line (recorder results) version reader hpos hxs
    (f.toText h.length_le).not_isTerminator hlen (by decide : IsTerminator 13)
  have hprefix : (f.toText h.length_le).toList <+: line.toList := ⟨_, hlist.symm⟩
  obtain ⟨line', hrun, -⟩ := slcanDecodeLine_recorder results version line calls
  rw [request_of_frameText version hprefix, sendCall_toText h] at hrun
  use line'
  intro rest later waiting calls' hrest
  rw [hline]
  apply slcanThreadMain_reply (recorder results) version hrun hrest

theorem delivered_append (v w : List UInt8) :
  delivered (v ++ w) = delivered v ++ delivered w
  := List.map_append

/-- The results that deliver the lines of valid frames, with timeouts between them, make the
calls of the frames, in order. -/
theorem slcanThreadMain_frames {frames : List CanFrame} (h : ∀ f ∈ frames, f.Valid)
    (reader : LineReader) (hpos : reader.pos = 0) {inp : List ℤ}
    (hinp : inp.filter (· ≠ stmTimeout)
      = delivered (frames.flatMap fun f => frameLine f false))
    (calls : List DriverCall) :
  ∃ run, slcanThreadMain (recorder results) version reader inp calls
    = some (run, calls ++ frames.map CanFrame.sendCall)
  := by
  induction frames generalizing reader inp calls with
  | nil =>
      use ([], reader.lineBuffer, reader.pos)
      rw [slcanThreadMain_timeouts (recorder results) version reader hinp, List.map_nil,
        List.append_nil]
      rfl
  | cons f frames ih =>
      have hsplit : inp.filter (· ≠ stmTimeout) = delivered (frameText f) ++ 13 ::
          delivered (frames.flatMap fun f => frameLine f false) := by
        rw [hinp, List.flatMap_cons, frameLine, if_neg Bool.false_ne_true, List.append_nil,
          delivered_append, delivered_append, List.append_assoc]
        rfl
      obtain ⟨xs, ys, rfl, hxs, hys⟩ := List.filter_eq_append_iff.mp hsplit
      obtain ⟨zs, rest, rfl, hzs, -, hrest⟩ := List.filter_eq_cons_iff.mp hys
      have hxs : (xs ++ zs).filter (· ≠ stmTimeout) = delivered (frameText f) := by
        rw [List.filter_append, hxs, List.filter_eq_nil_iff.mpr hzs, List.append_nil]
      obtain ⟨line, hline⟩ := slcanThreadMain_frame results version (h f (by simp)) reader hpos hxs
        calls
      obtain ⟨run, hrun⟩ := ih (fun g hg => h g (by simp [hg])) ⟨line, 0, lineBuffer_pos⟩ rfl hrest
        (calls ++ [f.sendCall])
      use (line.text :: run.1, run.2)
      rw [← List.append_assoc, hline hrun]
      simp

theorem mapM_slcanRxLine {frames : List CanFrame} (h : ∀ f ∈ frames, f.Valid) :
  frames.mapM slcanRxLine = some (frames.map fun f => frameLine f false)
  := by
  induction frames with
  | nil => rfl
  | cons f frames ih =>
      rw [List.mapM_cons, slcanRxLine_eq_some (h f (by simp)).length_le,
        ih fun g hg => h g (by simp [hg])]
      rfl

/-- The lines written for valid frames, received in pieces of any size, make exactly the calls
that send the frames, in order. -/
theorem stream_roundTrip (frames : List CanFrame) (h : ∀ f ∈ frames, f.Valid)
    (reader : LineReader) (hpos : reader.pos = 0) :
  ∃ lines, frames.mapM slcanRxLine = some lines ∧ ∀ inp : List ℤ,
    inp.filter (· ≠ stmTimeout) = delivered lines.flatten →
      ∃ run, slcanThreadMain (recorder results) version reader inp []
        = some (run, frames.map CanFrame.sendCall)
  := by
  refine ⟨_, mapM_slcanRxLine h, fun inp hinp => ?_⟩
  rw [← List.flatMap_def] at hinp
  simpa using slcanThreadMain_frames results version h reader hpos hinp []

end RoundTrip

/-- A data frame with a standard identifier, and a remote frame with an extended one. -/
def twoFrames : List CanFrame :=
  [⟨0, 0x7ff, false, false, 2, #v[0xca, 0xfe, 0, 0, 0, 0, 0, 0]⟩,
    ⟨0, 0x1fffffff, true, true, 8, Vector.replicate 8 0⟩]

instance (f : CanFrame) : Decidable f.Valid :=
  decidable_of_iff (f.length ≤ 8 ∧ (f.extended = false → f.id.toNat < 2 ^ 11))
    ⟨fun h => ⟨h.1, h.2⟩, fun h => ⟨h.length_le, h.id_lt⟩⟩

theorem stream_roundTrip_twoFrames :
  ∃ lines, twoFrames.mapM slcanRxLine = some lines ∧ ∀ inp : List ℤ,
    inp.filter (· ≠ stmTimeout) = delivered lines.flatten →
      ∃ run, slcanThreadMain (recorder fun _ _ => true) mockVersion LineReader.init inp []
        = some (run, twoFrames.map CanFrame.sendCall)
  := stream_roundTrip _ mockVersion twoFrames (by decide) LineReader.init rfl

end CanDongle

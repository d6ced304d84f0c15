import CanDongle.Command

/-!
# Transmit commands

The commands that send a frame.  Their parser reads digits at fixed offsets and checks
the length of the frame, but neither the length of the line nor its digits: what it
accepts is decided by one byte, and the lines of the grammar are among what it accepts.
-/

open Buffer

namespace CanDongle

/-- The text of a command: the string in the line buffer, without one CR at its end. -/
def Line.command (line : Line) : List UInt8 :=
  if line.text.getLast? = some cr then line.text.dropLast else line.text

/-- Whether a call is one of `can_send`. -/
def DriverCall.isCanSend : DriverCall → Bool
  | .canSend .. => true
  | _ => false

/-- The frame command in a line is parsed as the grammar says: `can_send` is called
exactly when the text is the text of a frame, and any other text is answered with BELL and
makes no call. -/
def ParsedByGrammar (results : List DriverCall → DriverCall → Bool) (version : Version)
    (line : Line) : Prop :=
  ∃ line' calls, slcanDecodeLine (recorder results) version line [] = some (line', calls) ∧
    ((∃ call ∈ calls, call.isCanSend) ↔ IsFrameText line.command) ∧
    (¬ IsFrameText line.command → line'.text = [bell] ∧ calls = [])

/-- The request of a line that starts with the letter of a frame is a frame request. -/
theorem request_of_frame (version : Version) {line : Line} {extended remote : Bool}
    (h : line.letter.toChar = frameChar extended remote) :
  request version line = sendRequest line remote extended
  := by
  unfold request
  rw [h]
  cases extended <;> cases remote <;> rfl

/-- A line that starts with the letter of a frame is executed by `slcan_send_frame`. -/
theorem slcanDecodeLine_of_frame {σ : Type} (drv : Driver σ) (version : Version) {line : Line}
    {extended remote : Bool} (h : line.letter.toChar = frameChar extended remote) :
  slcanDecodeLine drv version line = slcanSendFrame drv line
  := by
  unfold slcanDecodeLine
  rw [h]
  cases extended <;> cases remote <;> rfl

theorem text_isPrefix (line : Line) :
  line.text <+: line.toList
  := List.takeWhile_prefix _

theorem command_isPrefix (line : Line) :
  line.command <+: line.toList
  := by
  unfold Line.command
  split
  · apply (List.dropLast_prefix _).trans (text_isPrefix line)
  · apply text_isPrefix

theorem frameChar_injective {extended remote extended' remote' : Bool}
    (h : frameChar extended remote = frameChar extended' remote') :
  extended = extended' ∧ remote = remote'
  := by
  revert extended remote extended' remote'
  decide

theorem toChar_frameLetter (extended remote : Bool) :
  (frameLetter extended remote).toChar = frameChar extended remote
  := by
  cases extended <;> cases remote <;> rfl

/-- A digit from `0` to `8` denotes a length of at most eight. -/
theorem hexVal_dlc {c : UInt8} (h : '0'.toUInt8 ≤ c ∧ c ≤ '8'.toUInt8) :
  hexVal c = c - '0'.toUInt8 ∧ hexVal c ≤ 8
  := by
  revert c
  apply forall_byte
  decide +kernel

/-- The bytes of a buffer that starts with the text of a frame: its letter, and its digit of
the length at the place where the parser reads it. -/
theorem FrameText.getElem_of_prefix {line : Line} {t : FrameText} (h : t.toList <+: line.toList) :
  line.letter = frameLetter t.extended t.remote ∧ line.dlc t.extended = t.dlc
  := by
  obtain ⟨rest, hrest⟩ := h
  constructor
  · have hletter := getElem?_letter line
    rw [← hrest] at hletter
    simpa [FrameText.toList] using hletter.symm
  · have hdlc := getElem?_dlc line t.extended
    rw [← hrest] at hdlc
    simpa [FrameText.toList, Nat.add_comm 1, ← t.length_id] using hdlc.symm

/-- A line in the grammar has a digit from `0` to `8` at the place of the length. -/
theorem hexVal_dlc_of_isFrameText {line : Line} {extended remote : Bool}
    (h : line.letter.toChar = frameChar extended remote) (hw : IsFrameText line.command) :
  ¬ hexVal (line.dlc extended) > 8
  := by
  obtain ⟨t, ht⟩ := hw
  have hprefix : t.toList <+: line.toList := ht ▸ command_isPrefix line
  obtain ⟨hletter, hdlc⟩ := FrameText.getElem_of_prefix hprefix
  rw [hletter, toChar_frameLetter] at h
  obtain ⟨rfl, rfl⟩ := frameChar_injective h
  rw [hdlc]
  apply UInt8.not_lt.mpr (hexVal_dlc t.dlc_mem).2

theorem slice_of_toList {line : Line} {a b c : List UInt8} (h : line.toList = a ++ b ++ c) :
  slice line a.length b.length = b
  := by
  rw [slice, h, List.append_assoc, List.drop_left, List.take_left]

/-- The call made for the text of a frame: the number its digits denote, its flags, its data
and its length. -/
def FrameText.sendCall (t : FrameText) : DriverCall :=
  .canSend (hexU32 t.id) t.extended t.remote (if t.remote then [] else hexBytes t.data)
    (hexVal t.dlc).toNat

/-- A buffer that starts with the text of a frame asks for the call of that text. -/
theorem request_of_frameText (version : Version) {line : Line} {t : FrameText}
    (h : t.toList <+: line.toList) :
  request version line = .ask t.sendCall
  := by
  obtain ⟨hletter, hdlc⟩ := FrameText.getElem_of_prefix h
  obtain ⟨hval, hle⟩ := hexVal_dlc t.dlc_mem
  obtain ⟨rest, hrest⟩ := h
  have hid : slice line 1 (idLen t.extended) = t.id := by
    rw [← t.length_id]
    apply slice_of_toList (a := [frameLetter t.extended t.remote]) (c := t.dlc :: t.data ++ rest)
    simp [← hrest, FrameText.toList]
  have hdata : slice line (2 + idLen t.extended) t.data.length = t.data := by
    have hlen : 2 + idLen t.extended
        = (frameLetter t.extended t.remote :: (t.id ++ [t.dlc])).length := by
      simp [t.length_id]
      omega
    rw [hlen]
    apply slice_of_toList (c := rest)
    simp [← hrest, FrameText.toList]
  rw [request_of_frame version (hletter ▸ toChar_frameLetter t.extended t.remote), sendRequest,
    hdlc, if_neg (UInt8.not_lt.mpr hle), CanDongle.sendCall, FrameText.sendCall, hid, hdlc]
  have hlength := t.length_data
  cases hremote : t.remote with
  | true => rfl
  | false =>
      rw [hremote, ← hval] at hlength
      simp only [Bool.false_eq_true, if_false] at hlength ⊢
      rw [← hlength, hdata]

/-- What `slcan_send_frame` does for the text of a frame, with any driver: it makes the call of
that text, and answers with its result. -/
theorem slcanSendFrame_of_frameText {σ : Type} {drv : Driver σ} {line : Line} {t : FrameText}
    (h : t.toList <+: line.toList) {success : Bool} {s s' : σ}
    (hcall : drv t.sendCall s = some (success, s')) :
  ∃ line', slcanSendFrame drv line s = some (line', s') ∧
    line'.text = [if success then cr else bell]
  := by
  have hletter := (FrameText.getElem_of_prefix h).1
  rw [← slcanDecodeLine_of_frame drv mockVersion (hletter ▸ toChar_frameLetter t.extended t.remote)]
  apply slcanDecodeLine_eq_some
  rw [request_of_frameText mockVersion h, Request.perform, bind_of_eq_some hcall]
  rfl

/-- The calls of a frame command: `can_send` when the byte at the place of the length
denotes at most eight, and no call otherwise. -/
theorem calls_sendRequest (line : Line) (remote extended : Bool) :
  (∃ call ∈ (sendRequest line remote extended).calls, call.isCanSend)
    ↔ ¬ hexVal (line.dlc extended) > 8
  := by
  unfold sendRequest
  by_cases hlen : hexVal (line.dlc extended) > 8
  · simp [hlen, Request.calls]
  · simp [hlen, Request.calls, sendCall, DriverCall.isCanSend]

/-- A line outside of the grammar whose byte at the place of the length denotes at most
eight is not parsed by the grammar: it is sent. -/
theorem not_parsedByGrammar (results : List DriverCall → DriverCall → Bool) (version : Version)
    {line : Line} {extended remote : Bool} (h : line.letter.toChar = frameChar extended remote)
    (hw : ¬ IsFrameText line.command) (hlen : ¬ hexVal (line.dlc extended) > 8) :
  ¬ ParsedByGrammar results version line
  := by
  rintro ⟨line', calls, hrun, hiff, -⟩
  obtain ⟨line'', hrun', -⟩ := slcanDecodeLine_recorder results version line []
  rw [request_of_frame version h, List.nil_append] at hrun'
  obtain ⟨rfl, rfl⟩ := Prod.mk.inj (Option.some.inj (hrun.symm.trans hrun'))
  apply hw (hiff.mp ((calls_sendRequest line remote extended).mpr hlen))

/-- A line that starts with the letter of a frame is parsed by the grammar exactly when it
is in the grammar, or the byte at the place of the length denotes more than eight. -/
theorem parsedByGrammar_iff (results : List DriverCall → DriverCall → Bool) (version : Version)
    (line : Line) (extended remote : Bool) (h : line.letter.toChar = frameChar extended remote) :
  ParsedByGrammar results version line
    ↔ IsFrameText line.command ∨ hexVal (line.dlc extended) > 8
  := by
  obtain ⟨line', hrun, htext⟩ := slcanDecodeLine_recorder results version line []
  rw [request_of_frame version h, List.nil_append] at hrun
  rw [request_of_frame version h] at htext
  constructor
  · intro hparsed
    by_contra hnot
    obtain ⟨hw, hlen⟩ := not_or.mp hnot
    apply not_parsedByGrammar results version h hw hlen hparsed
  · intro hor
    refine ⟨line', _, hrun, ?_, ?_⟩
    · rw [calls_sendRequest]
      constructor
      · intro hlen
        apply hor.resolve_right hlen
      · apply hexVal_dlc_of_isFrameText h
    · intro hw
      have hlen := hor.resolve_left hw
      rw [htext, sendRequest, if_pos hlen]
      exact ⟨rfl, rfl⟩

/-- The line `t10`, in a buffer that was never used. -/
def shortLine : Line := lineOf (['t', '1', '0'].map Char.toUInt8)

/-- The line `t1009`, whose length is refused, in a buffer that was never used. -/
def longLine : Line := lineOf (['t', '1', '0', '0', '9'].map Char.toUInt8)

/-- The length of `t1009` is refused. -/
theorem parsedByGrammar_iff_longLine :
  longLine.letter.toChar = frameChar false false ∧
    (ParsedByGrammar (fun _ _ => true) mockVersion longLine
      ↔ IsFrameText longLine.command ∨ hexVal (longLine.dlc false) > 8)
  := ⟨by decide +kernel, parsedByGrammar_iff _ _ _ false false (by decide +kernel)⟩

theorem le_length_of_isFrameText {w : List UInt8} (h : IsFrameText w) :
  5 ≤ w.length
  := by
  obtain ⟨t, rfl⟩ := h
  have hid : 3 ≤ idLen t.extended := by cases t.extended <;> decide
  simp only [FrameText.toList, List.length_cons, List.length_append, t.length_id]
  omega

/-- The line `t10` has no digit for the length, and is sent. -/
theorem shortLine_not_parsedByGrammar :
  ¬ ParsedByGrammar (fun _ _ => true) mockVersion shortLine
  := by
  have hcommand : shortLine.command = ['t', '1', '0'].map Char.toUInt8 := by decide +kernel
  have hchar : shortLine.letter.toChar = frameChar false false := by decide +kernel
  apply not_parsedByGrammar _ _ hchar
  · intro hw
    have hlen := le_length_of_isFrameText hw
    rw [hcommand] at hlen
    revert hlen
    decide
  · decide +kernel

end CanDongle

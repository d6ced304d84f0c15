import CanDongle.Thread
import CanDongle.Transmit

/-!
# What a command depends on

The line buffer is reused: after the NUL of a line it holds what earlier lines and replies
left there.  A command depends on its own bytes alone exactly when its parser reads no byte
after the NUL.
-/

open Buffer

namespace CanDongle

/-- The results of earlier input that ends on a line boundary. -/
def EndsLine (results : List ℤ) : Prop :=
  results = [] ∨ ∃ before c, results = before ++ [c] ∧ IsTerminator c

/-- A content of the line buffer that earlier input ending on a line boundary can leave, with
the replies of its commands and any results of the calls they made. -/
def LeftOver (version : Version) (buf : Line) : Prop :=
  ∃ results input run calls, EndsLine input ∧
    slcanThreadMain (recorder results) version LineReader.init input []
      = some ((run, buf, 0), calls)

/-- The replies written and the calls made when the line `w` and its terminator are received
in the line buffer `buf` and executed, with the results `result` of the calls. -/
def observe (version : Version) (result : DriverCall → Bool) (buf : Line) (w : List UInt8) (c : ℤ) :
    Option (List (List UInt8) × List DriverCall) :=
  (slcanThreadMain (recorder fun _ => result) version ⟨buf, 0, lineBuffer_pos⟩
    (delivered w ++ [c]) []).map fun run => (run.1.1, run.2)

/-- A command has the same effect whatever the input before it. -/
def HistoryIndependent (version : Version) (w : List UInt8) : Prop :=
  ∀ buf₁ buf₂, LeftOver version buf₁ → LeftOver version buf₂ → ∀ result c, IsTerminator c →
    observe version result buf₁ w c = observe version result buf₂ w c

/-- The byte of a line at the place of the length of a frame, its NUL included. -/
def dlcOf (w : List UInt8) (extended : Bool) : UInt8 :=
  (w ++ [0]).getD (1 + idLen extended) 0

/-- A line whose frame parser reads no byte after the NUL: the length is at most at the
place of the NUL, and so is the last digit of the data it announces. -/
def ReadsWithin (w : List UInt8) : Prop :=
  ∀ extended remote, w.head? = some (frameLetter extended remote) →
    1 + idLen extended ≤ w.length ∧
      (remote = false → hexVal (dlcOf w extended) ≤ 8 →
        1 + idLen extended + 2 * (hexVal (dlcOf w extended)).toNat ≤ w.length)

/-! ### Reading up to the NUL -/

section Within

variable {line line₁ line₂ : Line} {w rest rest₁ rest₂ : List UInt8}

theorem getElem?_within (h : line.toList = w ++ 0 :: rest) {i : ℕ} (hi : i ≤ w.length) :
  line.toList[i]? = (w ++ [0])[i]?
  := by
  rw [h, List.append_cons, List.getElem?_append_left (by simp; omega)]

theorem slice_within (h : line.toList = w ++ 0 :: rest) {i len : ℕ} (hi : i + len ≤ w.length + 1) :
  slice line i len = ((w ++ [0]).drop i).take len
  := by
  rw [slice, h, List.append_cons, List.drop_append_of_le_length (by simp; omega),
    List.take_append_of_le_length (by simp; omega)]

theorem dlc_within (h : line.toList = w ++ 0 :: rest) {extended : Bool}
    (hlen : 1 + idLen extended ≤ w.length) :
  line.dlc extended = dlcOf w extended
  := by
  have hget := getElem?_dlc line extended
  rw [getElem?_within h hlen] at hget
  rw [dlcOf, List.getD_eq_getElem?_getD, hget]
  rfl

/-- A byte after the NUL is one that was in the buffer before. -/
theorem getElem?_stale {buf : Line}
    (h : line.toList = w ++ 0 :: buf.toList.drop (w.length + 1)) {i : ℕ} (hi : w.length < i) :
  line.toList[i]? = buf.toList[i]?
  := by
  rw [h, List.getElem?_append_right hi.le]
  obtain ⟨k, rfl⟩ : ∃ k, i = w.length + 1 + k := ⟨i - (w.length + 1), by omega⟩
  simp [show w.length + 1 + k - w.length = k + 1 by omega]

end Within

/-- What is observed of a line is decided by the request of a buffer that holds the line, a
NUL, and what was in the buffer before. -/
theorem observe_eq (version : Version) (buf : Line) {w : List UInt8}
    (hw : ∀ b ∈ w, ¬ IsTerminator (b.toNat : ℤ)) (hlen : w.length < 500) {c : ℤ}
    (hc : IsTerminator c) :
  ∃ line : Line, line.toList = w ++ 0 :: buf.toList.drop (w.length + 1) ∧
    ∀ result, observe version result buf w c
      = some ([(request version line).answer result], (request version line).calls)
  := by
  obtain ⟨line, -, hline⟩ := storeAll_string buf (w := w) 0 (by omega)
  rw [List.take_zero, List.nil_append, Nat.zero_add] at hline
  refine ⟨line, hline, fun result => ?_⟩
  obtain ⟨line', hline', hrun⟩ := slcanThreadMain_line (recorder fun _ => result) version
    ⟨buf, 0, lineBuffer_pos⟩ rfl (filter_delivered w) hw hlen hc
  obtain rfl : line' = line := Vector.toList_inj.mp (hline'.trans hline.symm)
  obtain ⟨final, hdecode, htext⟩ := slcanDecodeLine_recorder (fun _ => result) version line' []
  have hwait : slcanThreadMain (recorder fun _ => result) version ⟨final, 0, lineBuffer_pos⟩ []
      = pure ([], final, 0) :=
    slcanThreadMain_timeouts _ version ⟨final, 0, lineBuffer_pos⟩ rfl
  have hreply := slcanThreadMain_reply (recorder fun _ => result) version hdecode
    (congrFun hwait _)
  rw [observe, hrun, hreply, ← htext]
  rfl

theorem toUInt8_toChar (b : UInt8) :
  b.toChar.toUInt8 = b
  := by
  revert b
  apply forall_byte
  decide +kernel

theorem toChar_injective {b c : UInt8} (h : b.toChar = c.toChar) :
  b = c
  := by
  rw [← toUInt8_toChar b, h, toUInt8_toChar]

/-- A line in a buffer that does not start with a NUL starts with the same byte. -/
theorem head?_of_ne {line : Line} {w rest : List UInt8} (h : line.toList = w ++ 0 :: rest)
    (h0 : line.letter ≠ 0) :
  w.head? = some line.letter
  := by
  have hget := getElem?_letter line
  rw [h] at hget
  cases w with
  | nil => exact absurd (by simpa using hget.symm) h0
  | cons b w => simpa using hget

/-- A line in a buffer that starts with the letter of a frame starts with this letter. -/
theorem head?_of_frame {line : Line} {w rest : List UInt8} (h : line.toList = w ++ 0 :: rest)
    {extended remote : Bool} (hchar : line.letter.toChar = frameChar extended remote) :
  w.head? = some (frameLetter extended remote)
  := by
  rw [← toChar_frameLetter] at hchar
  have hletter := toChar_injective hchar
  rw [← hletter]
  apply head?_of_ne h
  rw [hletter]
  apply frameLetter_ne_zero

section TwoBuffers

variable {line₁ line₂ : Line} {w rest₁ rest₂ : List UInt8}
  (h₁ : line₁.toList = w ++ 0 :: rest₁) (h₂ : line₂.toList = w ++ 0 :: rest₂)

include h₁ h₂

/-- Buffers that hold the same line start with the same letter. -/
theorem letter_within :
  line₁.letter = line₂.letter
  := by
  have hfirst : line₁.toList[0]? = line₂.toList[0]? := by
    rw [getElem?_within h₁ (Nat.zero_le _), getElem?_within h₂ (Nat.zero_le _)]
  rw [getElem?_letter, getElem?_letter] at hfirst
  apply Option.some.inj hfirst

/-- Buffers that hold the same line, which is not empty, have the same digit. -/
theorem digit_within (hw : w ≠ []) :
  line₁.digit = line₂.digit
  := by
  have hlen : 1 ≤ w.length := List.length_pos_iff.mpr hw
  have hsecond : line₁.toList[1]? = line₂.toList[1]? := by
    rw [getElem?_within h₁ hlen, getElem?_within h₂ hlen]
  rw [getElem?_digit, getElem?_digit] at hsecond
  apply Option.some.inj hsecond

/-- A frame whose parser reads no byte after the NUL is decided by the line. -/
theorem sendRequest_within (hw : ReadsWithin w) (remote extended : Bool)
    (h : line₂.letter.toChar = frameChar extended remote) :
  sendRequest line₁ remote extended = sendRequest line₂ remote extended
  := by
  obtain ⟨hdlc, hdata⟩ := hw extended remote (head?_of_frame h₂ h)
  unfold sendRequest sendCall
  rw [dlc_within h₁ hdlc, dlc_within h₂ hdlc, slice_within h₁ (by omega),
    slice_within h₂ (by omega)]
  split
  case isTrue => rfl
  case isFalse hle =>
    cases remote with
    | true => rfl
    | false =>
        have hdata := hdata rfl (UInt8.not_lt.mp hle)
        rw [slice_within h₁ (by omega), slice_within h₂ (by omega)]

end TwoBuffers

/-- When the parser reads no byte after the NUL, the request is decided by the line. -/
theorem request_within (version : Version) {line₁ line₂ : Line} {w rest₁ rest₂ : List UInt8}
    (h₁ : line₁.toList = w ++ 0 :: rest₁) (h₂ : line₂.toList = w ++ 0 :: rest₂)
    (hw : ReadsWithin w) :
  request version line₁ = request version line₂
  := by
  have hframe := sendRequest_within h₁ h₂ hw
  unfold request
  rw [letter_within h₁ h₂]
  split
  case h_1 h => apply hframe false false h
  case h_2 h => apply hframe true false h
  case h_3 h => apply hframe false true h
  case h_4 h => apply hframe true true h
  case h_5 h =>
    have hne : w ≠ [] := by
      rintro rfl
      have hne : line₂.letter ≠ 0 := by
        intro h0
        rw [h0] at h
        revert h
        decide
      cases head?_of_ne h₂ hne
    rw [digit_within h₁ h₂ hne]
  all_goals rfl

/-! ### Reading after the NUL -/

theorem leftOver_zeroLine (version : Version) :
  LeftOver version zeroLine
  := ⟨fun _ _ => true, [], [], [], .inl rfl, by
    rw [slcanThreadMain_timeouts _ version LineReader.init rfl]; rfl⟩

theorem getElem?_zeroLine {i : ℕ} (hi : i < 500) :
  zeroLine.toList[i]? = some 0
  := by
  rw [zeroLine, Vector.toList_replicate, List.getElem?_replicate_of_lt hi]

/-- The letter of no command. -/
def unknownLetter : UInt8 := 'x'.toUInt8

/-- A line that is no command is answered with BELL, over its first two bytes. -/
theorem slcanDecodeLine_unknown {σ : Type} (drv : Driver σ) (version : Version) {line : Line}
    (h : line.letter = unknownLetter) (s : σ) :
  ∃ line', slcanDecodeLine drv version line s = some (line', s) ∧
    ∀ i, 2 ≤ i → line'.toList[i]? = line.toList[i]?
  := by
  obtain ⟨line', hnack, hlist⟩ := store_end line (by decide : 0 < 499) bell
  use line'
  constructor
  · have hdecode : slcanDecodeLine drv version line = liftM (slcanNack line 0) := by
      unfold slcanDecodeLine
      rw [h]
      rfl
    rw [hdecode, slcanNack, hnack]
    rfl
  · intro i hi
    obtain ⟨k, rfl⟩ := Nat.exists_eq_add_of_le' hi
    rw [hlist]
    simp [Nat.add_comm]

/-- Any byte can be left anywhere after the first two, by a line that is no command. -/
theorem exists_leftOver (version : Version) {k : ℕ} (hk : 2 ≤ k) (hk' : k < 499) {c : UInt8}
    (hc : ¬ IsTerminator (c.toNat : ℤ)) :
  ∃ buf, LeftOver version buf ∧ buf.toList[k]? = some c
  := by
  let w := List.replicate k unknownLetter ++ [c]
  have hterm : ∀ b ∈ w, ¬ IsTerminator (b.toNat : ℤ) := by
    intro b hb
    simp only [w, List.mem_append, List.mem_replicate, List.mem_singleton] at hb
    rcases hb with ⟨-, rfl⟩ | rfl
    · decide
    · apply hc
  have hlen : w.length < 500 := by
    simp [w]
    omega
  let drv := recorder fun _ _ => true
  obtain ⟨line, hlist, hrun⟩ := slcanThreadMain_line drv version LineReader.init rfl
    (filter_delivered w) hterm hlen (by decide : IsTerminator 13)
  have hletter : line.letter = unknownLetter := by
    have hget := getElem?_letter line
    obtain ⟨j, rfl⟩ := Nat.exists_eq_add_of_le' hk
    simpa [hlist, w, List.replicate_succ] using hget.symm
  obtain ⟨line', hdecode, hkeep⟩ := slcanDecodeLine_unknown drv version hletter []
  refine ⟨line', ⟨fun _ _ => true, delivered w ++ [13], [line'.text], [], ?_, ?_⟩, ?_⟩
  · exact .inr ⟨_, _, rfl, by decide⟩
  · rw [hrun]
    apply slcanThreadMain_reply drv version hdecode
    rw [slcanThreadMain_timeouts drv version ⟨line', 0, lineBuffer_pos⟩ rfl]
    rfl
  · rw [hkeep k hk, hlist]
    simp [w]

/-- The lines a frame command is executed in after two histories ask for the same calls. -/
theorem calls_eq_of_historyIndependent {version : Version} {w : List UInt8}
    (h : HistoryIndependent version w) (hw : ∀ b ∈ w, ¬ IsTerminator (b.toNat : ℤ))
    (hlen : w.length < 500) {extended remote : Bool}
    (hhead : w.head? = some (frameLetter extended remote)) {buf : Line}
    (hbuf : LeftOver version buf) :
  ∃ line₁ line₂ : Line, line₁.toList = w ++ 0 :: zeroLine.toList.drop (w.length + 1) ∧
    line₂.toList = w ++ 0 :: buf.toList.drop (w.length + 1) ∧
    (sendRequest line₁ remote extended).calls = (sendRequest line₂ remote extended).calls
  := by
  have hterm : IsTerminator 13 := by decide
  obtain ⟨line₁, hline₁, hobserve₁⟩ := observe_eq version zeroLine hw hlen hterm
  obtain ⟨line₂, hline₂, hobserve₂⟩ := observe_eq version buf hw hlen hterm
  use line₁, line₂, hline₁, hline₂
  have hchar {line : Line} {rest : List UInt8} (hlist : line.toList = w ++ 0 :: rest) :
      line.letter.toChar = frameChar extended remote := by
    have hget := getElem?_letter line
    obtain ⟨w', rfl⟩ := List.head?_eq_some_iff.mp hhead
    rw [hlist] at hget
    have hletter : line.letter = frameLetter extended remote := by simpa using hget.symm
    rw [hletter, toChar_frameLetter]
  have heq := h zeroLine buf (leftOver_zeroLine version) hbuf (fun _ => true) 13 hterm
  rw [hobserve₁, hobserve₂, request_of_frame version (hchar hline₁),
    request_of_frame version (hchar hline₂)] at heq
  exact (Prod.mk.inj (Option.some.inj heq)).2

/-- After a history that leaves `9` after the NUL a frame command that ends before its length
makes no call, and from zeros it makes one. -/
theorem dlc_le_length {version : Version} {w : List UInt8} (h : HistoryIndependent version w)
    (hw : ∀ b ∈ w, ¬ IsTerminator (b.toNat : ℤ)) (hlen : w.length < 500) {extended remote : Bool}
    (hhead : w.head? = some (frameLetter extended remote)) :
  1 + idLen extended ≤ w.length
  := by
  by_contra hshort
  have hid : 3 ≤ idLen extended ∧ idLen extended ≤ 8 := by cases extended <;> decide
  obtain ⟨buf, hbuf, hget⟩ := exists_leftOver version (k := 1 + idLen extended) (by omega)
    (by omega) (c := '9'.toUInt8) (by decide)
  obtain ⟨line₁, line₂, h₁, h₂, hcalls⟩ := calls_eq_of_historyIndependent h hw hlen hhead hbuf
  have hdlc₁ : line₁.dlc extended = 0 := by
    have hstale := getElem?_stale h₁ (not_le.mp hshort)
    rw [getElem?_dlc, getElem?_zeroLine (by omega)] at hstale
    apply Option.some.inj hstale
  have hdlc₂ : line₂.dlc extended = '9'.toUInt8 := by
    have hstale := getElem?_stale h₂ (not_le.mp hshort)
    rw [getElem?_dlc, hget] at hstale
    apply Option.some.inj hstale
  have hzero : ¬ hexVal 0 > 8 := by decide
  have hnine : hexVal '9'.toUInt8 > 8 := by decide
  rw [sendRequest, sendRequest, hdlc₁, hdlc₂, if_neg hzero, if_pos hnine] at hcalls
  cases hcalls

theorem calls_sendRequest_of_le {line : Line} {remote extended : Bool}
    (h : hexVal (line.dlc extended) ≤ 8) :
  (sendRequest line remote extended).calls = [sendCall line remote extended]
  := by
  rw [sendRequest, if_neg (UInt8.not_lt.mpr h)]
  rfl

/-- A data frame command that ends before its last digit sends what was left there. -/
theorem data_le_length {version : Version} {w : List UInt8} (h : HistoryIndependent version w)
    (hw : ∀ b ∈ w, ¬ IsTerminator (b.toNat : ℤ)) (hlen : w.length < 500) {extended : Bool}
    (hhead : w.head? = some (frameLetter extended false))
    (hdlc : 1 + idLen extended ≤ w.length) (hle : hexVal (dlcOf w extended) ≤ 8) :
  1 + idLen extended + 2 * (hexVal (dlcOf w extended)).toNat ≤ w.length
  := by
  by_contra hshort
  have hid : 3 ≤ idLen extended ∧ idLen extended ≤ 8 := by cases extended <;> decide
  have hle' : (hexVal (dlcOf w extended)).toNat ≤ 8 := UInt8.le_iff_toNat_le.mp hle
  obtain ⟨n, hn⟩ : ∃ n, (hexVal (dlcOf w extended)).toNat = n + 1 :=
    Nat.exists_eq_succ_of_ne_zero (by intro h0; omega)
  -- the last digit, of the two histories
  obtain ⟨buf, hbuf, hget⟩ := exists_leftOver version (k := 2 + idLen extended + (2 * n + 1))
    (by omega) (by omega) (c := '1'.toUInt8) (by decide)
  obtain ⟨line₁, line₂, h₁, h₂, hcalls⟩ := calls_eq_of_historyIndependent h hw hlen hhead hbuf
  have hlast : w.length < 2 + idLen extended + (2 * n + 1) := by omega
  have hdigit₁ := getElem?_stale h₁ hlast
  have hdigit₂ := getElem?_stale h₂ hlast
  have hmem : 2 * n + 1 < 2 * (n + 1) := by omega
  rw [getElem?_zeroLine (by omega), ← getElem?_slice line₁ hmem] at hdigit₁
  rw [hget, ← getElem?_slice line₂ hmem] at hdigit₂
  have hdlc₁ := dlc_within h₁ hdlc
  have hdlc₂ := dlc_within h₂ hdlc
  rw [calls_sendRequest_of_le (hdlc₁ ▸ hle), calls_sendRequest_of_le (hdlc₂ ▸ hle), sendCall,
    sendCall, hdlc₁, hdlc₂, hn] at hcalls
  simp only [Bool.false_eq_true, if_false, List.cons.injEq, DriverCall.canSend.injEq] at hcalls
  have hval := hexVal_eq_of_hexBytes hcalls.1.2.2.2.1 hdigit₁ hdigit₂
  revert hval
  decide

/-- A command is independent of the input before it exactly when its parser reads no byte
after its NUL. -/
theorem historyIndependent_iff (version : Version) (w : List UInt8)
    (hw : ∀ b ∈ w, ¬ IsTerminator (b.toNat : ℤ)) (hlen : w.length ≤ 499) :
  HistoryIndependent version w ↔ ReadsWithin w
  := by
  have hlen : w.length < 500 := by omega
  constructor
  · intro h extended remote hhead
    have hdlc := dlc_le_length h hw hlen hhead
    refine ⟨hdlc, fun hremote hle => ?_⟩
    subst hremote
    apply data_le_length h hw hlen hhead hdlc hle
  · intro h buf₁ buf₂ _ _ result c hc
    obtain ⟨line₁, hline₁, hobserve₁⟩ := observe_eq version buf₁ hw hlen hc
    obtain ⟨line₂, hline₂, hobserve₂⟩ := observe_eq version buf₂ hw hlen hc
    rw [hobserve₁, hobserve₂, request_within version hline₁ hline₂ h]

/-- The command `t1001ff`, whose length and data are on the line. -/
def wholeFrame : List UInt8 := ['t', '1', '0', '0', '1', 'f', 'f'].map Char.toUInt8

theorem historyIndependent_iff_wholeFrame :
  (∀ b ∈ wholeFrame, ¬ IsTerminator (b.toNat : ℤ)) ∧ wholeFrame.length ≤ 499 ∧
    (HistoryIndependent mockVersion wholeFrame ↔ ReadsWithin wholeFrame)
  := by
  have hw : ∀ b ∈ wholeFrame, ¬ IsTerminator (b.toNat : ℤ) := by decide +kernel
  have hlen : wholeFrame.length ≤ 499 := by decide
  exact ⟨hw, hlen, historyIndependent_iff mockVersion wholeFrame hw hlen⟩

/-- The command `t10`, which has no length. -/
def noLength : List UInt8 := ['t', '1', '0'].map Char.toUInt8

/-- After zeros `t10` is sent, and after `xxxx9` it is refused. -/
theorem noLength_not_historyIndependent :
  ¬ HistoryIndependent mockVersion noLength
  := by
  intro h
  have hhead : noLength.head? = some (frameLetter false false) := rfl
  have hle := dlc_le_length h (by decide +kernel) (by decide) hhead
  revert hle
  decide

end CanDongle

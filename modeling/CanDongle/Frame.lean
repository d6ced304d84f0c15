import CanDongle.Hex

/-!
# Frames and their text

`CanFrame` is the frame the driver hands to the SLCAN layer and `slcanFrameToAscii` the
encoder of `slcan.c`, writing to a buffer of a given capacity.  `FrameText` is the
grammar of the text of a frame, without its line end.  For a frame of at most eight
data bytes the encoder writes `frameLine`, the text of the frame, the digits of the
timestamp when they are asked for, and CR.
-/

open Buffer

namespace CanDongle

/-- `struct can_frame_s`.  The identifier is a field of 29 bits. -/
structure CanFrame where
  timestamp : UInt32
  id : BitVec 29
  extended : Bool
  remote : Bool
  length : UInt8
  data : Vector UInt8 8

/-- The line end of SLCAN, CR. -/
def cr : UInt8 := '\r'.toUInt8

/-- The length of the longest line, as `sizeof` counts it with its NUL, and one more. -/
def maxFrameLen : ℕ :=
  ("T1111222281122334455667788EA5F\r".toList.length + 1) + 1

/-! ### The encoder -/

/-- The character that starts the text of a frame. -/
def frameChar (extended remote : Bool) : Char :=
  if remote then
    if extended then 'R' else 'r'
  else
    if extended then 'T' else 't'

/-- The letter that starts the text of a frame. -/
def frameLetter (extended remote : Bool) : UInt8 := (frameChar extended remote).toUInt8

theorem frameLetter_ne_zero (extended remote : Bool) :
  frameLetter extended remote ≠ 0
  := by
  revert extended remote
  decide

/-- Write the digits of the identifier: byte by byte when it is extended, digit by digit
when it is not. -/
def writeId (cap : ℕ) (f : CanFrame) (p : List UInt8) : Option (List UInt8) :=
  let id : UInt32 := ⟨f.id.setWidth 32⟩
  if f.extended then
    [3, 2, 1, 0].foldlM (fun p (i : UInt32) =>
      hexWrite cap p #v[(id >>> (8 * i)).toUInt8] 1) p
  else do
    let p ← put cap p (hexDigit (id >>> 8).toUInt8)
    let p ← put cap p (hexDigit (id >>> 4).toUInt8)
    put cap p (hexDigit id.toUInt8)

/-- Write the digits of the data, unless the frame is remote. -/
def writeData (cap : ℕ) (f : CanFrame) (p : List UInt8) : Option (List UInt8) :=
  if f.remote then some p else hexWrite cap p f.data f.length.toNat

/-- Write the low 16 bits of the timestamp, when they are asked for. -/
def writeStamp (cap : ℕ) (f : CanFrame) (timestamp : Bool) (p : List UInt8) :
    Option (List UInt8) :=
  let t : UInt16 := f.timestamp.toUInt16
  if timestamp then hexWrite cap p #v[(t >>> 8).toUInt8, t.toUInt8] 2 else some p

/-- `slcan_frame_to_ascii` writing to a buffer of `cap` bytes: what is written, with the
NUL at its end, and the size that is returned.  It yields `none` when it would read
outside of the data of the frame or write outside of the buffer. -/
def slcanFrameToAscii (cap : ℕ) (f : CanFrame) (timestamp : Bool) :
    Option (List UInt8 × ℕ) := do
  let p ← put cap [] (frameLetter f.extended f.remote)
  let p ← writeId cap f p
  let p ← put cap p (hexDigit f.length)
  let p ← writeData cap f p
  let p ← writeStamp cap f timestamp p
  let p ← put cap p cr
  let buf ← put cap p 0
  some (buf, p.length)

/-! ### The grammar -/

/-- The number of digits of an identifier, `SLC_STD_ID_LEN` or `SLC_EXT_ID_LEN`. -/
def idLen (extended : Bool) : ℕ := if extended then 8 else 3

/-- The text of a frame: a letter, the digits of the identifier, the digit of the length
and, unless the frame is remote, the two digits of each data byte. -/
structure FrameText where
  extended : Bool
  remote : Bool
  id : List UInt8
  dlc : UInt8
  data : List UInt8
  length_id : id.length = idLen extended
  isHexDigit_id : ∀ c ∈ id, IsHexDigit c
  dlc_mem : '0'.toUInt8 ≤ dlc ∧ dlc ≤ '8'.toUInt8
  length_data : data.length = if remote then 0 else 2 * (dlc - '0'.toUInt8).toNat
  isHexDigit_data : ∀ c ∈ data, IsHexDigit c

/-- The digit of the length is a hexadecimal digit. -/
theorem FrameText.isHexDigit_dlc (t : FrameText) :
  IsHexDigit t.dlc
  := by
  have hdlc : 48 ≤ t.dlc.toNat ∧ t.dlc.toNat ≤ 56 := t.dlc_mem
  rw [isHexDigit_iff]
  omega

/-- The bytes of the text of a frame. -/
def FrameText.toList (t : FrameText) : List UInt8 :=
  frameLetter t.extended t.remote :: (t.id ++ t.dlc :: t.data)

/-- A text that is the text of some frame. -/
def IsFrameText (w : List UInt8) : Prop :=
  ∃ t : FrameText, t.toList = w

/-! ### What the encoder writes -/

/-- The digits of the identifier of a frame. -/
def idDigits (f : CanFrame) : List UInt8 :=
  let id : UInt32 := ⟨f.id.setWidth 32⟩
  if f.extended then
    [(id >>> 24).toUInt8, (id >>> 16).toUInt8, (id >>> 8).toUInt8, (id >>> 0).toUInt8].flatMap
      hexByte
  else
    [hexDigit (id >>> 8).toUInt8, hexDigit (id >>> 4).toUInt8, hexDigit id.toUInt8]

/-- The data bytes a frame carries. -/
def CanFrame.payload (f : CanFrame) : List UInt8 :=
  if f.remote then [] else f.data.toList.take f.length.toNat

/-- The text of a frame. -/
def frameText (f : CanFrame) : List UInt8 :=
  frameLetter f.extended f.remote ::
    (idDigits f ++ hexDigit f.length :: f.payload.flatMap hexByte)

/-- The digits of the timestamp of a frame. -/
def stampDigits (f : CanFrame) : List UInt8 :=
  [(f.timestamp.toUInt16 >>> 8).toUInt8, f.timestamp.toUInt16.toUInt8].flatMap hexByte

/-- The line of a frame. -/
def frameLine (f : CanFrame) (timestamp : Bool) : List UInt8 :=
  frameText f ++ (if timestamp then stampDigits f else []) ++ [cr]

theorem length_idDigits (f : CanFrame) :
  (idDigits f).length = idLen f.extended
  := by
  cases h : f.extended <;> simp [idDigits, idLen, h, hexByte]

theorem length_payload_le (f : CanFrame) :
  f.payload.length ≤ 8
  := by
  unfold CanFrame.payload
  split
  · simp
  · simp

theorem length_payload {f : CanFrame} (h : f.length ≤ 8) :
  f.payload.length = if f.remote then 0 else f.length.toNat
  := by
  have h : f.length.toNat ≤ 8 := UInt8.le_iff_toNat_le.mp h
  unfold CanFrame.payload
  split
  · rfl
  · simp [h]

theorem length_flatMap_hexByte (bs : List UInt8) :
  (bs.flatMap hexByte).length = 2 * bs.length
  := by
  simp [List.length_flatMap, length_hexByte, Nat.mul_comm]

/-- A line has at most 31 characters. -/
theorem length_frameLine_le (f : CanFrame) (timestamp : Bool) :
  (frameLine f timestamp).length ≤ 31
  := by
  have hid := length_idDigits f
  have hpay := length_payload_le f
  have hidLen : idLen f.extended ≤ 8 := by
    unfold idLen
    split <;> omega
  have hstamp : (if timestamp then stampDigits f else []).length ≤ 4 := by
    split <;> simp [stampDigits, hexByte]
  simp only [frameLine, frameText, List.length_append, List.length_cons, List.length_nil,
    length_flatMap_hexByte]
  omega

theorem maxFrameLen_eq :
  maxFrameLen = 33
  := rfl

theorem appends_writeId (cap : ℕ) (f : CanFrame) :
  Appends cap (writeId cap f) (idDigits f)
  := by
  unfold writeId idDigits
  cases f.extended with
  | true =>
      have hbyte (b : UInt8) := appends_hexWrite cap #v[b] (le_refl 1)
      exact (hbyte _).bind ((hbyte _).bind ((hbyte _).bind ((hbyte _).bind (appends_some cap))))
  | false =>
      exact (appends_put cap _).bind ((appends_put cap _).bind (appends_put cap _))

/-- The data of a frame of at most eight bytes appends its digits. -/
theorem appends_writeData (cap : ℕ) {f : CanFrame} (h : f.length ≤ 8) :
  Appends cap (writeData cap f) (f.payload.flatMap hexByte)
  := by
  unfold writeData CanFrame.payload
  cases f.remote with
  | true => apply appends_some cap
  | false => apply appends_hexWrite cap f.data (UInt8.le_iff_toNat_le.mp h)

theorem appends_writeStamp (cap : ℕ) (f : CanFrame) (timestamp : Bool) :
  Appends cap (writeStamp cap f timestamp) (if timestamp then stampDigits f else [])
  := by
  unfold writeStamp stampDigits
  cases timestamp with
  | true => apply appends_hexWrite cap _ (le_refl 2)
  | false => apply appends_some cap

/-- For a frame of at most eight data bytes, and a buffer of `maxFrameLen` bytes, the
encoder writes the line of the frame and a NUL, and returns the length of the line. -/
theorem slcanFrameToAscii_eq_some {cap : ℕ} {f : CanFrame} (timestamp : Bool)
    (hlen : f.length ≤ 8) (hcap : maxFrameLen ≤ cap) :
  slcanFrameToAscii cap f timestamp
    = some (frameLine f timestamp ++ [0], (frameLine f timestamp).length)
  := by
  have hline := length_frameLine_le f timestamp
  rw [maxFrameLen_eq] at hcap
  have hwrite := (appends_put cap (frameLetter f.extended f.remote)).bind
    ((appends_writeId cap f).bind ((appends_put cap (hexDigit f.length)).bind
      ((appends_writeData cap hlen).bind ((appends_writeStamp cap f timestamp).bind
        (appends_put cap cr)))))
  have hbytes : Appends cap _ (frameLine f timestamp) :=
    hwrite.congr (by simp [frameLine, frameText])
  have hbytes := hbytes [] (by simp; omega)
  have hend : put cap (frameLine f timestamp) 0 = some (frameLine f timestamp ++ [0]) :=
    appends_put cap 0 _ (by simp; omega)
  simp only [slcanFrameToAscii, Option.bind_eq_bind]
  simp only [← Option.bind_assoc] at hbytes ⊢
  rw [hbytes, List.nil_append, Option.bind_some, hend, Option.bind_some]

/-! ### The text of a frame -/

/-- The digit of a length of at most eight is a digit from `0` to `8`, and denotes the
length. -/
theorem hexDigit_length {n : UInt8} (h : n ≤ 8) :
  ('0'.toUInt8 ≤ hexDigit n ∧ hexDigit n ≤ '8'.toUInt8) ∧ hexDigit n - '0'.toUInt8 = n
    ∧ hexVal (hexDigit n) = n
  := by
  revert n
  apply forall_byte
  decide +kernel

theorem isHexDigit_flatMap_hexByte (bs : List UInt8) :
  ∀ c ∈ bs.flatMap hexByte, IsHexDigit c
  := by
  intro c hc
  obtain ⟨b, -, hc⟩ := List.mem_flatMap.mp hc
  simp only [hexByte, List.mem_cons, List.not_mem_nil, or_false] at hc
  rcases hc with rfl | rfl
  · apply isHexDigit_hexDigit
  · apply isHexDigit_hexDigit

theorem isHexDigit_idDigits (f : CanFrame) :
  ∀ c ∈ idDigits f, IsHexDigit c
  := by
  unfold idDigits
  cases f.extended with
  | true => apply isHexDigit_flatMap_hexByte
  | false => simp [isHexDigit_hexDigit]

/-- The text of a frame of at most eight data bytes. -/
def CanFrame.toText (f : CanFrame) (h : f.length ≤ 8) : FrameText where
  extended := f.extended
  remote := f.remote
  id := idDigits f
  dlc := hexDigit f.length
  data := f.payload.flatMap hexByte
  length_id := length_idDigits f
  isHexDigit_id := isHexDigit_idDigits f
  dlc_mem := (hexDigit_length h).1
  length_data := by
    rw [length_flatMap_hexByte, length_payload h, (hexDigit_length h).2.1]
    split <;> rfl
  isHexDigit_data := isHexDigit_flatMap_hexByte _

theorem isFrameText_frameText {f : CanFrame} (h : f.length ≤ 8) :
  IsFrameText (frameText f)
  := ⟨f.toText h, rfl⟩

/-- The digits of the identifier of a frame are the hexadecimal digits of its number. -/
theorem map_hexVal_idDigits (f : CanFrame) :
  (idDigits f).map (fun c => (hexVal c).toNat)
    = Numeral.digits 16 (idLen f.extended) f.id.toNat
  := by
  unfold idDigits idLen
  cases f.extended with
  | true =>
      simp [hexByte, toNat_hexVal_hexDigit, Numeral.digits, Nat.shiftRight_eq_div_pow]
      omega
  | false =>
      simp [toNat_hexVal_hexDigit, Numeral.digits, Nat.shiftRight_eq_div_pow]
      omega

/-- Reading back the digits of an identifier gives its low 12 bits for a standard frame,
and all of them for an extended one. -/
theorem toNat_hexU32_idDigits (f : CanFrame) :
  (hexU32 (idDigits f)).toNat = f.id.toNat % 16 ^ idLen f.extended
  := by
  rw [toNat_hexU32, map_hexVal_idDigits, Numeral.value_digits]
  rw [length_idDigits, idLen]
  split <;> omega

end CanDongle

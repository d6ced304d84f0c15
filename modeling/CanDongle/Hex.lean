import Mathlib.Data.UInt
import CanDongle.Library.Numeral
import CanDongle.Library.Buffer

/-!
# Hexadecimal text

The conversions of `slcan.c` between bytes and hexadecimal digits: `hexDigit` and
`hexWrite` produce lower-case digits, `hexVal`, `hexToU32`, `hexToU8` and
`hexToU8Array` read digits at fixed offsets of a line.  Reading checks no digit:
`hexVal` gives some nibble to every byte.  A `char` and a `uint8_t` are both a `UInt8`.
-/

open Buffer

namespace CanDongle

/-- A property of all bytes may be checked on the 256 of them. -/
theorem forall_byte {p : UInt8 → Prop} (h : ∀ i : Fin 256, p (.ofFin i)) (b : UInt8) :
  p b
  := h b.toFin

/-! ### Writing digits -/

/-- The table of digits of `hexDigit`. -/
def hexTbl : Vector UInt8 16 :=
  #v['0', '1', '2', '3', '4', '5', '6', '7', '8', '9', 'a', 'b', 'c', 'd', 'e', 'f'].map
    Char.toUInt8

theorem hexDigit_index (b : UInt8) :
  (b &&& 0x0f).toNat < 16
  := by
  rw [UInt8.toNat_and]
  apply Nat.and_lt_two_pow _ (by decide : (0x0f : UInt8).toNat < 2 ^ 4)

/-- The digit of the low nibble of a byte. -/
def hexDigit (b : UInt8) : UInt8 :=
  hexTbl.get ⟨(b &&& 0x0f).toNat, hexDigit_index b⟩

/-- Write the two digits of each of the first `len` bytes of `data`, after the `out`
already written to a buffer of `cap` bytes. -/
def hexWrite {m : ℕ} (cap : ℕ) (out : List UInt8) (data : Vector UInt8 m) (len : ℕ) :
    Option (List UInt8) :=
  (List.range len).foldlM (fun out (i : ℕ) => do
    let b ← data[i]?
    let out ← put cap out (hexDigit (b >>> 4))
    put cap out (hexDigit b)) out

/-! ### Reading digits -/

/-- The value of a hexadecimal digit of either case, and some nibble for any other byte. -/
def hexVal (c : UInt8) : UInt8 :=
  if 'A'.toUInt8 ≤ c ∧ c ≤ 'F'.toUInt8 then
    c - 'A'.toUInt8 + 0xA
  else if 'a'.toUInt8 ≤ c ∧ c ≤ 'f'.toUInt8 then
    c - 'a'.toUInt8 + 0xa
  else
    (c - '0'.toUInt8) &&& 0xf

/-- The number the `len` digits of `text` from index `str` on denote, in 32 bits. -/
def hexToU32 {n : ℕ} (text : Vector UInt8 n) (str len : ℕ) : Option UInt32 :=
  (List.range len).foldlM (fun (val : UInt32) (i : ℕ) => do
    let c ← text[str + i]?
    pure ((val <<< 4) ||| (hexVal c).toUInt32)) 0

/-- The byte the two digits of `text` at index `str` denote. -/
def hexToU8 {n : ℕ} (text : Vector UInt8 n) (str : ℕ) : Option UInt8 := do
  let val := hexVal (← text[str]?)
  pure ((val <<< 4) ||| hexVal (← text[str + 1]?))

/-- Append the `len` bytes denoted by the digits of `text` from index `str` on to the
`buf` already written to an array of `cap` bytes. -/
def hexToU8Array {n : ℕ} (cap : ℕ) (text : Vector UInt8 n) :
    ℕ → List UInt8 → ℕ → Option (List UInt8)
  | _, buf, 0 => some buf
  | str, buf, len + 1 => do
      let buf ← put cap buf (← hexToU8 text str)
      hexToU8Array cap text (str + 2) buf len

/-! ### Bytes and nibbles -/

/-- The digits `0` to `9`, `A` to `F` and `a` to `f`. -/
def IsHexDigit (c : UInt8) : Prop :=
  ('0'.toUInt8 ≤ c ∧ c ≤ '9'.toUInt8) ∨ ('A'.toUInt8 ≤ c ∧ c ≤ 'F'.toUInt8) ∨
    ('a'.toUInt8 ≤ c ∧ c ≤ 'f'.toUInt8)

instance (c : UInt8) : Decidable (IsHexDigit c) :=
  inferInstanceAs (Decidable (_ ∨ _ ∨ _))

/-- The two digits `hexWrite` writes for a byte. -/
def hexByte (b : UInt8) : List UInt8 :=
  [hexDigit (b >>> 4), hexDigit b]

/-- The value of a hexadecimal digit. -/
def digitValue (c : UInt8) : ℕ :=
  if c ≤ '9'.toUInt8 then
    c.toNat - '0'.toNat
  else if c ≤ 'F'.toUInt8 then
    c.toNat - 'A'.toNat + 10
  else
    c.toNat - 'a'.toNat + 10

/-- The lower case of a hexadecimal digit; any other character stays as it is. -/
def lowerDigit (c : UInt8) : UInt8 :=
  if 'A'.toUInt8 ≤ c ∧ c ≤ 'F'.toUInt8 then c + 32 else c

/-- The bytes that pairs of digit values denote. -/
def pairValues : List ℕ → List ℕ
  | hi :: lo :: ds => (16 * hi + lo) :: pairValues ds
  | _ => []

theorem length_hexByte (b : UInt8) :
  (hexByte b).length = 2
  := rfl

theorem toNat_and_nibble (b : UInt8) :
  (b &&& 0x0f).toNat = b.toNat % 16
  := by
  rw [UInt8.toNat_and]
  apply Nat.and_two_pow_sub_one_eq_mod _ 4

/-- The table holds the lower-case digit of each nibble. -/
theorem hexTbl_get :
  ∀ i : Fin 16, IsHexDigit (hexTbl.get i) ∧ lowerDigit (hexTbl.get i) = hexTbl.get i ∧
    hexVal (hexTbl.get i) = .ofNat i
  := by
  decide +kernel

/-- The value of any byte, by its code. -/
theorem toNat_hexVal_eq (c : UInt8) :
  (hexVal c).toNat =
    if 65 ≤ c.toNat ∧ c.toNat ≤ 70 then c.toNat - 55
    else if 97 ≤ c.toNat ∧ c.toNat ≤ 102 then c.toNat - 87
    else c.toNat % 16
  := by
  have hlt := c.toNat_lt
  have hupper : ('A'.toUInt8 ≤ c ∧ c ≤ 'F'.toUInt8) ↔ 65 ≤ c.toNat ∧ c.toNat ≤ 70 := Iff.rfl
  have hlower : ('a'.toUInt8 ≤ c ∧ c ≤ 'f'.toUInt8) ↔ 97 ≤ c.toNat ∧ c.toNat ≤ 102 := Iff.rfl
  have hA : 'A'.toUInt8.toNat = 65 := rfl
  have ha : 'a'.toUInt8.toNat = 97 := rfl
  have h0 : '0'.toUInt8.toNat = 48 := rfl
  have h10 : (0xa : UInt8).toNat = 10 := rfl
  unfold hexVal
  simp only [hupper, hlower]
  split
  case isTrue h =>
    rw [UInt8.toNat_add, UInt8.toNat_sub, hA, h10]
    omega
  case isFalse =>
    split
    case isTrue h =>
      rw [UInt8.toNat_add, UInt8.toNat_sub, ha, h10]
      omega
    case isFalse =>
      rw [toNat_and_nibble, UInt8.toNat_sub, h0]
      omega

theorem hexVal_lt (c : UInt8) :
  (hexVal c).toNat < 16
  := by
  rw [toNat_hexVal_eq]
  split
  · omega
  · split <;> omega

/-- The values of digits are compared by their codes. -/
theorem toNat_digitValue (c : UInt8) :
  digitValue c =
    if c.toNat ≤ 57 then c.toNat - 48
    else if c.toNat ≤ 70 then c.toNat - 65 + 10
    else c.toNat - 97 + 10
  := rfl

theorem isHexDigit_iff (c : UInt8) :
  IsHexDigit c ↔ (48 ≤ c.toNat ∧ c.toNat ≤ 57) ∨ (65 ≤ c.toNat ∧ c.toNat ≤ 70) ∨
    (97 ≤ c.toNat ∧ c.toNat ≤ 102)
  := Iff.rfl

/-- The parser reads a hexadecimal digit for what it is. -/
theorem toNat_hexVal {c : UInt8} (h : IsHexDigit c) :
  (hexVal c).toNat = digitValue c
  := by
  rw [toNat_hexVal_eq, toNat_digitValue]
  rcases (isHexDigit_iff c).mp h with hdigit | hupper | hlower
  · rw [if_neg (by omega), if_neg (by omega), if_pos hdigit.2]
    omega
  · rw [if_pos hupper, if_neg (by omega), if_pos hupper.2]
    omega
  · rw [if_neg (by omega), if_pos hlower, if_neg (by omega), if_neg (by omega)]
    omega

/-- The byte of a pair of digits is sixteen times the first and the second. -/
theorem toNat_hexPair (c d : UInt8) :
  ((hexVal c <<< 4) ||| hexVal d).toNat = 16 * (hexVal c).toNat + (hexVal d).toNat
  := by
  have hc := hexVal_lt c
  have hd := hexVal_lt d
  have hshift : (hexVal c <<< 4).toNat = (hexVal c).toNat <<< 4 := by
    rw [UInt8.toNat_shiftLeft, show (4 : UInt8).toNat % 8 = 4 by rfl, Nat.shiftLeft_eq]
    omega
  rw [UInt8.toNat_or, hshift, ← Nat.shiftLeft_add_eq_or_of_lt (by omega), Nat.shiftLeft_eq,
    Nat.mul_comm]

/-- Reading back the digit of a byte gives its low nibble. -/
theorem hexVal_hexDigit (b : UInt8) :
  hexVal (hexDigit b) = b &&& 0x0f
  := by
  obtain ⟨-, -, hvalue⟩ := hexTbl_get ⟨(b &&& 0x0f).toNat, hexDigit_index b⟩
  apply hvalue.trans UInt8.ofNat_toNat

theorem toNat_hexVal_hexDigit (b : UInt8) :
  (hexVal (hexDigit b)).toNat = b.toNat % 16
  := by
  rw [hexVal_hexDigit, toNat_and_nibble]

theorem isHexDigit_hexDigit (b : UInt8) :
  IsHexDigit (hexDigit b)
  := (hexTbl_get ⟨(b &&& 0x0f).toNat, hexDigit_index b⟩).1

theorem lowerDigit_hexDigit (b : UInt8) :
  lowerDigit (hexDigit b) = hexDigit b
  := (hexTbl_get ⟨(b &&& 0x0f).toNat, hexDigit_index b⟩).2.1

/-- A digit that is written depends on the low nibble only. -/
theorem hexDigit_and (b : UInt8) :
  hexDigit (b &&& 0x0f) = hexDigit b
  := by
  simp only [hexDigit, UInt8.and_assoc, UInt8.and_self]

theorem hexVal_and_nibble (c : UInt8) :
  hexVal c &&& 0x0f = hexVal c
  := by
  apply UInt8.toNat_inj.mp
  rw [toNat_and_nibble, Nat.mod_eq_of_lt (hexVal_lt c)]

theorem toNat_lowerDigit (c : UInt8) :
  (lowerDigit c).toNat = if 65 ≤ c.toNat ∧ c.toNat ≤ 70 then c.toNat + 32 else c.toNat
  := by
  have hupper : ('A'.toUInt8 ≤ c ∧ c ≤ 'F'.toUInt8) ↔ 65 ≤ c.toNat ∧ c.toNat ≤ 70 := Iff.rfl
  unfold lowerDigit
  simp only [hupper]
  split
  case isTrue h =>
    rw [UInt8.toNat_add, show (32 : UInt8).toNat = 32 by rfl]
    omega
  case isFalse => rfl

/-- Digits of the same value are the same but for their case. -/
theorem lowerDigit_congr {c d : UInt8} (hc : IsHexDigit c) (hd : IsHexDigit d)
    (h : digitValue c = digitValue d) :
  lowerDigit c = lowerDigit d
  := by
  rw [isHexDigit_iff] at hc hd
  rw [toNat_digitValue, toNat_digitValue] at h
  apply UInt8.toNat_inj.mp
  rw [toNat_lowerDigit, toNat_lowerDigit]
  split_ifs at h ⊢ <;> omega

/-- The digit that is written for the value of a digit is its lower case. -/
theorem hexDigit_hexVal {c : UInt8} (h : IsHexDigit c) :
  hexDigit (hexVal c) = lowerDigit c
  := by
  have hdigit := isHexDigit_hexDigit (hexVal c)
  rw [← lowerDigit_hexDigit]
  apply lowerDigit_congr hdigit h
  rw [← toNat_hexVal hdigit, ← toNat_hexVal h, hexVal_hexDigit, hexVal_and_nibble]

/-- Reading back the two digits of a byte gives the byte. -/
theorem hexVal_hexByte (b : UInt8) :
  (hexVal (hexDigit (b >>> 4)) <<< 4) ||| hexVal (hexDigit b) = b
  := by
  have hlt := b.toNat_lt
  apply UInt8.toNat_inj.mp
  rw [toNat_hexPair, toNat_hexVal_hexDigit, toNat_hexVal_hexDigit, UInt8.toNat_shiftRight,
    show (4 : UInt8).toNat % 8 = 4 by rfl, Nat.shiftRight_eq_div_pow]
  omega

/-! ### What the loops compute -/

/-- The number the digits of a text denote, in 32 bits. -/
def hexU32 (ds : List UInt8) : UInt32 :=
  ds.foldl (fun (val : UInt32) c => (val <<< 4) ||| (hexVal c).toUInt32) 0

/-- The bytes the pairs of digits of a text denote. -/
def hexBytes : List UInt8 → List UInt8
  | hi :: lo :: ds => ((hexVal hi <<< 4) ||| hexVal lo) :: hexBytes ds
  | _ => []

theorem hexWrite_succ {m : ℕ} (cap : ℕ) (out : List UInt8) (data : Vector UInt8 m) (len : ℕ) :
  hexWrite cap out data (len + 1) = (hexWrite cap out data len).bind fun out =>
    data[len]?.bind fun b =>
      (put cap out (hexDigit (b >>> 4))).bind fun out => put cap out (hexDigit b)
  := by
  rw [hexWrite, List.range_succ, List.foldlM_append]
  simp [hexWrite]

/-- Writing the digits of bytes that exist appends them. -/
theorem appends_hexWrite {m : ℕ} (cap : ℕ) (data : Vector UInt8 m) {len : ℕ} (hlen : len ≤ m) :
  Appends cap (hexWrite cap · data len) ((data.toList.take len).flatMap hexByte)
  := by
  induction len with
  | zero => apply appends_some
  | succ len ih =>
      intro out hout
      have hdata : len < data.toList.length := by simp; omega
      have hget : data[len]? = some data.toList[len] := by
        simp [show len < m by omega]
      rw [List.take_succ_eq_append_getElem hdata, List.flatMap_append] at hout ⊢
      have hbyte := (appends_put cap (hexDigit (data.toList[len] >>> 4))).bind
        (appends_put cap (hexDigit data.toList[len]))
      beta_reduce
      rw [hexWrite_succ, hget]
      apply (ih (by omega)).bind (hbyte.congr _) out hout
      simp [hexByte]

@[simp]
theorem hexU32_append_singleton (ds : List UInt8) (c : UInt8) :
  hexU32 (ds ++ [c]) = (hexU32 ds <<< 4) ||| (hexVal c).toUInt32
  := by
  simp [hexU32]

/-- Shifting in a digit does not overflow while seven digits were read at most. -/
theorem toNat_shift_digit {v : UInt32} (hv : v.toNat < 16 ^ 7) (c : UInt8) :
  ((v <<< 4) ||| (hexVal c).toUInt32).toNat = v.toNat * 16 + (hexVal c).toNat
  := by
  have hc := hexVal_lt c
  have hshift : (v <<< 4).toNat = v.toNat <<< 4 := by
    rw [UInt32.toNat_shiftLeft]
    apply Nat.mod_eq_of_lt
    rw [show (4 : UInt32).toNat % 32 = 4 by rfl, Nat.shiftLeft_eq]
    omega
  rw [UInt32.toNat_or, hshift, UInt8.toNat_toUInt32, ← Nat.shiftLeft_add_eq_or_of_lt (by omega),
    Nat.shiftLeft_eq]

/-- The digits of a numeral of at most eight digits denote its value. -/
theorem toNat_hexU32 {ds : List UInt8} (h : ds.length ≤ 8) :
  (hexU32 ds).toNat = Numeral.value 16 (ds.map fun c => (hexVal c).toNat)
  := by
  induction ds using List.reverseRecOn with
  | nil => rfl
  | append_singleton ds c ih =>
      rw [List.length_append, List.length_singleton] at h
      have ih := ih (by omega)
      have hdigits : ∀ d ∈ ds.map fun c => (hexVal c).toNat, d < 16 := by
        simp only [List.mem_map, forall_exists_index, and_imp, forall_apply_eq_imp_iff₂]
        intro c _
        apply hexVal_lt
      have hval : (hexU32 ds).toNat < 16 ^ 7 := by
        rw [ih]
        apply Nat.lt_of_lt_of_le (Numeral.value_lt (by decide) hdigits)
        rw [List.length_map]
        apply Nat.pow_le_pow_right (by decide) (by omega)
      rw [hexU32_append_singleton, toNat_shift_digit hval, ih, List.map_append,
        List.map_singleton, Numeral.value_append_singleton]

theorem hexToU32_succ {n : ℕ} (text : Vector UInt8 n) (str len : ℕ) :
  hexToU32 text str (len + 1) = (hexToU32 text str len).bind fun val =>
    text[str + len]?.bind fun c => some ((val <<< 4) ||| (hexVal c).toUInt32)
  := by
  rw [hexToU32, List.range_succ, List.foldlM_append]
  simp [hexToU32]

/-- The loop of `hexToU32` inside of the text reads the number its digits denote. -/
theorem hexToU32_eq_some {n : ℕ} (text : Vector UInt8 n) (str : ℕ) {len : ℕ}
    (h : str + len ≤ n) :
  hexToU32 text str len = some (hexU32 (slice text str len))
  := by
  induction len with
  | zero => simp [hexToU32, hexU32, slice]
  | succ len ih =>
      rw [hexToU32_succ, ih (by omega), Option.bind_some, slice_succ (by omega),
        hexU32_append_singleton]
      simp [show str + len < n by omega]

theorem hexToU8_eq_some {n : ℕ} (text : Vector UInt8 n) (str : ℕ) (h : str + 1 < n) :
  hexToU8 text str = some ((hexVal text[str] <<< 4) ||| hexVal text[str + 1])
  := by
  simp [hexToU8, show str < n by omega, h]

/-- The loop of `hexToU8Array` inside of the text and of the array reads the bytes the
pairs of digits denote. -/
theorem hexToU8Array_eq_some {n cap : ℕ} (text : Vector UInt8 n) (str : ℕ) (buf : List UInt8)
    (len : ℕ) (h : str + 2 * len ≤ n) (hcap : buf.length + len ≤ cap) :
  hexToU8Array cap text str buf len = some (buf ++ hexBytes (slice text str (2 * len)))
  := by
  induction len generalizing str buf with
  | zero => simp [hexToU8Array, slice, hexBytes]
  | succ len ih =>
      rw [hexToU8Array, hexToU8_eq_some text str (by omega)]
      simp only [Option.bind_eq_bind, Option.bind_some, appends_put cap _ buf (by simp; omega)]
      rw [ih _ _ (by omega) (by simp; omega), show 2 * (len + 1) = 2 * len + 1 + 1 by ring,
        slice_cons (by omega), slice_cons (by omega)]
      simp [hexBytes]

/-- Reading back the digits written for bytes gives the bytes. -/
@[simp]
theorem hexBytes_flatMap_hexByte (bs : List UInt8) :
  hexBytes (bs.flatMap hexByte) = bs
  := by
  induction bs with
  | nil => rfl
  | cons b bs ih => simp [hexByte, hexBytes, hexVal_hexByte, ih]

theorem length_hexBytes (ds : List UInt8) :
  (hexBytes ds).length = ds.length / 2
  := by
  match ds with
  | [] => rfl
  | [_] => simp [hexBytes]
  | a :: b :: ds =>
      rw [hexBytes, List.length_cons, length_hexBytes ds, List.length_cons, List.length_cons]
      omega

/-- The low nibble of a byte is the value of the second of its digits. -/
theorem hexPair_and (c d : UInt8) :
  ((hexVal c <<< 4) ||| hexVal d) &&& 0x0f = hexVal d
  := by
  have hd := hexVal_lt d
  apply UInt8.toNat_inj.mp
  rw [toNat_and_nibble, toNat_hexPair]
  omega

/-- The high nibble of a byte is the value of the first of its digits. -/
theorem hexPair_shiftRight (c d : UInt8) :
  ((hexVal c <<< 4) ||| hexVal d) >>> 4 = hexVal c
  := by
  have hd := hexVal_lt d
  apply UInt8.toNat_inj.mp
  rw [UInt8.toNat_shiftRight, toNat_hexPair, show (4 : UInt8).toNat % 8 = 4 by rfl,
    Nat.shiftRight_eq_div_pow]
  omega

/-- The bytes read are those the pairs of digits denote. -/
theorem map_toNat_hexBytes {ds : List UInt8} (h : ∀ c ∈ ds, IsHexDigit c) :
  (hexBytes ds).map UInt8.toNat = pairValues (ds.map digitValue)
  := by
  match ds with
  | [] => rfl
  | [_] => rfl
  | c :: d :: ds =>
      rw [hexBytes, List.map_cons, toNat_hexPair, toNat_hexVal (h c (by simp)),
        toNat_hexVal (h d (by simp)), map_toNat_hexBytes fun c hc => h c (by simp [hc])]
      rfl

/-- Writing the digits of the bytes that were read gives the digits in lower case. -/
theorem flatMap_hexByte_hexBytes {ds : List UInt8} (h : ∀ c ∈ ds, IsHexDigit c)
    (heven : ds.length % 2 = 0) :
  (hexBytes ds).flatMap hexByte = ds.map lowerDigit
  := by
  match ds with
  | [] => rfl
  | [_] => simp at heven
  | c :: d :: ds =>
      rw [List.length_cons, List.length_cons] at heven
      rw [hexBytes, List.flatMap_cons, hexByte, hexPair_shiftRight,
        ← hexDigit_and ((hexVal c <<< 4) ||| hexVal d), hexPair_and,
        hexDigit_hexVal (h c (by simp)), hexDigit_hexVal (h d (by simp)),
        flatMap_hexByte_hexBytes (fun c hc => h c (by simp [hc])) (by omega)]
      rfl

/-- The second digit of each pair can be told from the byte. -/
theorem hexVal_eq_of_hexBytes {ds ds' : List UInt8} (h : hexBytes ds = hexBytes ds') {i : ℕ}
    {d d' : UInt8} (hd : ds[2 * i + 1]? = some d) (hd' : ds'[2 * i + 1]? = some d') :
  hexVal d = hexVal d'
  := by
  induction i generalizing ds ds' with
  | zero =>
      match ds, ds', hd, hd' with
      | a :: b :: _, a' :: b' :: _, hd, hd' =>
          rw [hexBytes, hexBytes, List.cons.injEq] at h
          obtain ⟨rfl, rfl⟩ : b = d ∧ b' = d' := by simpa using And.intro hd hd'
          rw [← hexPair_and a b, h.1, hexPair_and]
  | succ i ih =>
      match ds, ds', hd, hd' with
      | a :: b :: ds, a' :: b' :: ds', hd, hd' =>
          rw [hexBytes, hexBytes, List.cons.injEq] at h
          apply ih h.2
          · simpa [Nat.mul_add] using hd
          · simpa [Nat.mul_add] using hd'

end CanDongle

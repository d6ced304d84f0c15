import CanDongle.Command
import CanDongle.Library.BitField

/-!
# The CAN driver

The functions of `can_driver.c` that a command calls, one at a time.  The receive thread
and its queue are the subject of a later model: here `can_close` flushes nothing, and no
other thread moves the semaphore.  `Pipeline.commands_sequential` shows that the other
threads make no difference.

The calls made to the hardware are recorded.  The bits of the register BTR other than the
timing are constants of the hardware headers, and a parameter.
-/

open BitField

namespace CanDongle

/-! ### Data -/

/-- `CAN_BTR_BRP_MASK`. -/
def canBtrBrpMask : BitVec 32 := 0x000003FF#32

/-- `CAN_BTR_TS1_MASK`. -/
def canBtrTs1Mask : BitVec 32 := 0x000F0000#32

/-- `CAN_BTR_TS2_MASK`. -/
def canBtrTs2Mask : BitVec 32 := 0x00700000#32

/-- `CAN_BTR_TIMING_MASK`. -/
def canBtrTimingMask : BitVec 32 := canBtrBrpMask ||| canBtrTs1Mask ||| canBtrTs2Mask

/-- The bits of BTR that the headers of the hardware name: silent mode, loop back mode and
the resynchronization jump width.  They are apart from the timing and from each other. -/
structure BtrBits where
  canBtrSilm : BitVec 32
  canBtrLbkm : BitVec 32
  canBtrSjw0 : BitVec 32
  silm_ne_zero : canBtrSilm ≠ 0
  lbkm_ne_zero : canBtrLbkm ≠ 0
  timing_silm : Apart canBtrTimingMask canBtrSilm
  timing_lbkm : Apart canBtrTimingMask canBtrLbkm
  timing_sjw0 : Apart canBtrTimingMask canBtrSjw0
  silm_lbkm : Apart canBtrSilm canBtrLbkm
  silm_sjw0 : Apart canBtrSilm canBtrSjw0
  lbkm_sjw0 : Apart canBtrLbkm canBtrSjw0

/-- The bits of the bxCAN of the STM32. -/
def bxCan : BtrBits where
  canBtrSilm := 0x80000000
  canBtrLbkm := 0x40000000
  canBtrSjw0 := 0x01000000
  silm_ne_zero := by decide
  lbkm_ne_zero := by decide
  timing_silm := by decide
  timing_lbkm := by decide
  timing_sjw0 := by decide
  silm_lbkm := by decide
  silm_sjw0 := by decide
  lbkm_sjw0 := by decide

/-- `CANConfig`. -/
structure CANConfig where
  mcr : BitVec 32
  btr : BitVec 32
  deriving DecidableEq

/-- The identifier of a hardware frame, which tells its format. -/
inductive CanId where
  | sid (id : BitVec 11)
  | eid (id : BitVec 29)
  deriving DecidableEq

/-- `CANTxFrame`.  The data is the part that was written. -/
structure CANTxFrame where
  id : CanId
  RTR : Bool
  DLC : BitVec 4
  data8 : List UInt8
  deriving DecidableEq

/-- The calls to the hardware. -/
inductive HalCall where
  | canSetSilentMode (silent : Bool)
  | canStart (config : CANConfig)
  | canStop
  | canTransmit (frame : CANTxFrame)
  deriving DecidableEq

/-- The results of the calls that depend on the world outside. -/
structure Environment where
  canTransmit : CANTxFrame → Bool
  busPower : Bool → Bool

/-- The variables of `can_driver.c` that commands use, the counter of `can_config_wait`, and
whether the hardware is started. -/
structure CanState where
  canIsRunning : Bool
  canConfig : CANConfig
  canConfigWait : ℤ
  started : Bool
  deriving DecidableEq

/-- The state of the driver, and the calls it has made to the hardware. -/
structure CanDriver extends CanState where
  calls : List HalCall
  deriving DecidableEq

/-! ### The timing of a bit -/

/-- `BTR_TS1`. -/
def btrTs1 : UInt32 := 6

/-- `BTR_TS2`. -/
def btrTs2 : UInt32 := 5

/-- `CAN_BASE_BIT_RATE`. -/
def canBaseBitRate : UInt32 := 36000000 / (1 + btrTs1 + btrTs2)

/-- `CAN_DEFAULT_BITRATE`. -/
def canDefaultBitrate : UInt32 := 1000000

/-- The word `can_btr_from_bitrate` stores for a prescaler. -/
def btrValue (prescaler : UInt32) : BitVec 32 :=
  (((prescaler - 1) <<< 0) ||| ((btrTs1 - 1) <<< 16) ||| ((btrTs2 - 1) <<< 20)).toBitVec

/-- `can_btr_from_bitrate`: the timing of a bitrate, if it has one.  It yields `none` when it
would divide by zero. -/
def canBtrFromBitrate (bitrate : UInt32) : Option (Option (BitVec 32)) :=
  if bitrate > 1000000 then
    some none
  else if bitrate = 0 then
    none
  else if canBaseBitRate % bitrate ≠ 0 ∨ canBaseBitRate / bitrate > 1024 then
    some none
  else
    some (some (btrValue (canBaseBitRate / bitrate)))

/-! ### The functions -/

/-- `can_set_silent_mode`. -/
def canSetSilentMode (silent : Bool) (d : CanDriver) : CanDriver :=
  { d with calls := d.calls ++ [.canSetSilentMode silent] }

/-- `canStart`. -/
def canStart (d : CanDriver) : CanDriver :=
  { d with started := true, calls := d.calls ++ [.canStart d.canConfig] }

/-- `canStop`. -/
def canStop (d : CanDriver) : CanDriver :=
  { d with started := false, calls := d.calls ++ [.canStop] }

/-- `chSemSignal` of `can_config_wait`, for which no thread waits. -/
def chSemSignal (d : CanDriver) : CanDriver :=
  { d with canConfigWait := d.canConfigWait + 1 }

/-- `chSemWait` of `can_config_wait`.  It yields `none` when it would block. -/
def chSemWait (d : CanDriver) : Option CanDriver :=
  if d.canConfigWait > 0 then some { d with canConfigWait := d.canConfigWait - 1 } else none

/-- Assign `can_config.btr`. -/
def setBtr (btr : BitVec 32) (d : CanDriver) : CanDriver :=
  { d with canConfig := { d.canConfig with btr := btr } }

/-- The `memcpy` of `can_send`, to an array of eight bytes. -/
def txData (data : List UInt8) (length : ℕ) : Option (List UInt8) :=
  if length ≤ 8 ∧ length ≤ data.length then some (data.take length) else none

/-- The frame `can_send` hands to the hardware. -/
def txFrame (id : UInt32) (extended remote : Bool) (data : List UInt8) (length : ℕ) :
    Option CANTxFrame := do
  let data8 ← if remote then some [] else txData data length
  some {
    id := if extended then .eid (id.toBitVec.setWidth 29) else .sid (id.toBitVec.setWidth 11)
    RTR := remote
    DLC := .ofNat 4 length
    data8 := data8 }

section Functions

variable (bits : BtrBits) (env : Environment)

/-- `can_send`. -/
def canSend (id : UInt32) (extended remote : Bool) (data : List UInt8) (length : ℕ)
    (d : CanDriver) : Option (Bool × CanDriver) := do
  let txf ← txFrame id extended remote data length
  some (env.canTransmit txf, { d with calls := d.calls ++ [.canTransmit txf] })

/-- `can_set_bitrate`. -/
def canSetBitrate (bitrate : UInt32) (d : CanDriver) : Option (Bool × CanDriver) :=
  if d.canIsRunning then
    some (false, d)
  else do
    match ← canBtrFromBitrate bitrate with
    | some btr => some (true, setBtr ((d.canConfig.btr &&& ~~~canBtrTimingMask) ||| btr) d)
    | none => some (false, d)

/-- `can_open`. -/
def canOpen (mode : CanMode) (d : CanDriver) : Bool × CanDriver :=
  if d.canIsRunning then
    (false, d)
  else
    let d := canSetSilentMode false d
    let d := setBtr (d.canConfig.btr &&& ~~~bits.canBtrLbkm) d
    let d := setBtr (d.canConfig.btr &&& ~~~bits.canBtrSilm) d
    let d := match mode with
      | .loopback => setBtr (d.canConfig.btr ||| bits.canBtrLbkm) d
      | .silent => canSetSilentMode true (setBtr (d.canConfig.btr ||| bits.canBtrSilm) d)
      | .normal => d
    let d := { d with canIsRunning := true }
    let d := canStart d
    let d := chSemSignal d
    (true, d)

/-- `can_close`. -/
def canClose (d : CanDriver) : Option CanDriver :=
  if d.canIsRunning then do
    let d ← chSemWait d
    let d := canStop d
    some { d with canIsRunning := false }
  else
    some d

/-- The initial value of `can_config`. -/
def canConfig : CANConfig where
  mcr := (1 <<< 6) ||| (1 <<< 2)
  btr := bits.canBtrSilm ||| bits.canBtrSjw0

/-- `can_init`.  It yields `none` when it would halt the system. -/
def canInit : Option CanState := do
  match ← canBtrFromBitrate canDefaultBitrate with
  | some btr =>
      let config := canConfig bits
      some ⟨false, { config with btr := config.btr ||| btr }, 1, false⟩
  | none => none

/-- The functions that a command calls. -/
def canDriver : Driver CanDriver
  | .canSend id extended remote data length, d => canSend env id extended remote data length d
  | .canSetBitrate bitrate, d => canSetBitrate bitrate d
  | .canOpen mode, d => some (canOpen bits mode d)
  | .canClose, d => (canClose d).map fun d => (true, d)
  | .busPower enable, d => some (env.busPower enable, d)

end Functions

/-! ### The timing a register holds -/

/-- The prescaler in BTR. -/
def prescalerOf (btr : BitVec 32) : ℕ := (btr &&& canBtrBrpMask).toNat + 1

/-- The first time segment in BTR. -/
def ts1Of (btr : BitVec 32) : ℕ := ((btr &&& canBtrTs1Mask) >>> 16).toNat + 1

/-- The second time segment in BTR. -/
def ts2Of (btr : BitVec 32) : ℕ := ((btr &&& canBtrTs2Mask) >>> 20).toNat + 1

/-- The hardware has exactly the bitrate `bitrate`, of a clock of 36 MHz, when BTR holds
`btr`. -/
def EncodesBitrate (btr : BitVec 32) (bitrate : UInt32) : Prop :=
  bitrate.toNat * (prescalerOf btr * (1 + ts1Of btr + ts2Of btr)) = 36000000

/-- A bitrate that can be set exactly. -/
def Settable (bitrate : UInt32) : Prop :=
  bitrate ≤ 1000000 ∧ ∃ p, p < 1025 ∧ bitrate.toNat * (p * 12) = 36000000

instance (btr : BitVec 32) (bitrate : UInt32) : Decidable (EncodesBitrate btr bitrate) :=
  inferInstanceAs (Decidable (_ = _))

instance (bitrate : UInt32) : Decidable (Settable bitrate) :=
  inferInstanceAs (Decidable (_ ∧ _))

/-- The bitrate of a register is decided by its timing bits. -/
theorem encodesBitrate_congr {btr btr' : BitVec 32} (bitrate : UInt32)
    (h : btr &&& canBtrTimingMask = btr' &&& canBtrTimingMask) :
  EncodesBitrate btr bitrate ↔ EncodesBitrate btr' bitrate
  := by
  have hmask {m : BitVec 32} (hm : canBtrTimingMask &&& m = m) : btr &&& m = btr' &&& m := by
    rw [← hm, ← BitVec.and_assoc, h, BitVec.and_assoc]
  unfold EncodesBitrate prescalerOf ts1Of ts2Of
  rw [hmask (by decide), hmask (by decide), hmask (by decide)]

/-- The field of the prescaler in the word. -/
def brpField (prescaler : UInt32) : BitVec 32 := ((prescaler - 1) <<< 0).toBitVec

/-- The field of the first time segment. -/
def ts1Field : BitVec 32 := ((btrTs1 - 1) <<< 16).toBitVec

/-- The field of the second time segment. -/
def ts2Field : BitVec 32 := ((btrTs2 - 1) <<< 20).toBitVec

/-- The word is made of its fields. -/
theorem btrValue_eq (prescaler : UInt32) :
  btrValue prescaler = brpField prescaler ||| ts1Field ||| ts2Field
  := rfl

theorem toNat_brpField {p : UInt32} (h : 1 ≤ p.toNat) :
  (brpField p).toNat = p.toNat - 1
  := by
  rw [brpField, UInt32.shiftLeft_zero, UInt32.toNat_toBitVec,
    UInt32.toNat_sub_of_le p 1 (UInt32.le_iff_toNat_le.mpr h)]
  rfl

theorem within_brpField {p : UInt32} (h : 1 ≤ p.toNat) (hle : p.toNat ≤ 1024) :
  Within (brpField p) canBtrBrpMask
  := by
  have hmask : canBtrBrpMask.toNat = 2 ^ 10 - 1 := rfl
  apply BitVec.eq_of_toNat_eq
  rw [BitVec.toNat_and, toNat_brpField h, hmask, Nat.and_two_pow_sub_one_eq_mod]
  omega

theorem within_ts1Field :
  Within ts1Field canBtrTs1Mask
  := by decide

theorem within_ts2Field :
  Within ts2Field canBtrTs2Mask
  := by decide

/-- The word of a prescaler has only timing bits, and its fields decode to the prescaler and
to time segments of 6 and 5. -/
theorem btrValue_fields {p : UInt32} (h : 1 ≤ p.toNat) (hle : p.toNat ≤ 1024) :
  Within (btrValue p) canBtrTimingMask ∧ prescalerOf (btrValue p) = p.toNat ∧
    ts1Of (btrValue p) = 6 ∧ ts2Of (btrValue p) = 5
  := by
  have hwithin := within_brpField h hle
  have hbrp : btrValue p &&& canBtrBrpMask = brpField p := by
    rw [btrValue_eq, BitVec.or_assoc]
    apply hwithin.or_and (by decide)
  have hts1 : btrValue p &&& canBtrTs1Mask = ts1Field := by
    rw [btrValue_eq, BitVec.or_comm (brpField p), BitVec.or_assoc]
    apply within_ts1Field.or_and
    apply Apart.or
    · apply Apart.of_within (by decide) hwithin (within_self canBtrTs1Mask)
    · decide
  have hts2 : btrValue p &&& canBtrTs2Mask = ts2Field := by
    rw [btrValue_eq, BitVec.or_comm]
    apply within_ts2Field.or_and
    apply Apart.or
    · apply Apart.of_within (by decide) hwithin (within_self canBtrTs2Mask)
    · decide
  refine ⟨?_, ?_, ?_, ?_⟩
  · rw [btrValue_eq]
    apply Within.or
    · apply Within.or
      · apply hwithin.trans (by decide)
      · decide
    · decide
  · rw [prescalerOf, hbrp, toNat_brpField h]
    omega
  · rw [ts1Of, hts1]
    rfl
  · rw [ts2Of, hts2]
    rfl

/-- The checks of `can_btr_from_bitrate` find the bitrates that can be set. -/
theorem settable_iff {bitrate : UInt32} (h : bitrate ≠ 0) (hfast : bitrate ≤ 1000000) :
  Settable bitrate ↔ ¬ (canBaseBitRate % bitrate ≠ 0 ∨ canBaseBitRate / bitrate > 1024)
  := by
  have hpos : 0 < bitrate.toNat := Nat.pos_of_ne_zero fun h0 => h (UInt32.toNat_inj.mp h0)
  have hmod : canBaseBitRate % bitrate ≠ 0 ↔ 3000000 % bitrate.toNat ≠ 0 :=
    not_congr UInt32.toNat_inj.symm
  have hdiv : canBaseBitRate / bitrate > 1024 ↔ 1024 < 3000000 / bitrate.toNat :=
    UInt32.lt_iff_toNat_lt
  rw [hmod, hdiv]
  constructor
  · rintro ⟨-, p, hp, heq⟩
    have hexact : 3000000 = bitrate.toNat * p := by linarith
    rw [hexact, Nat.mul_mod_right, Nat.mul_div_cancel_left p hpos]
    omega
  · intro hno
    obtain ⟨hdvd, hle⟩ : 3000000 % bitrate.toNat = 0 ∧ 3000000 / bitrate.toNat ≤ 1024 := by
      simpa using hno
    have hexact := Nat.mul_div_cancel' (Nat.dvd_of_mod_eq_zero hdvd)
    use hfast, 3000000 / bitrate.toNat, by omega
    linarith

/-- The quotient that `can_btr_from_bitrate` computes is the prescaler that is exact. -/
theorem toNat_canBaseBitRate_div {bitrate : UInt32} (h : bitrate ≠ 0) {p : ℕ}
    (heq : bitrate.toNat * (p * 12) = 36000000) :
  (canBaseBitRate / bitrate).toNat = p
  := by
  have hpos : 0 < bitrate.toNat := Nat.pos_of_ne_zero fun h0 => h (UInt32.toNat_inj.mp h0)
  have hexact : 3000000 = bitrate.toNat * p := by linarith
  have hdiv : (canBaseBitRate / bitrate).toNat = 3000000 / bitrate.toNat := rfl
  rw [hdiv, hexact, Nat.mul_div_cancel_left p hpos]

/-- The prescaler that is exact encodes the bitrate. -/
theorem encodesBitrate_btrValue {bitrate : UInt32} (h : bitrate ≠ 0) (hset : Settable bitrate) :
  Within (btrValue (canBaseBitRate / bitrate)) canBtrTimingMask ∧
    EncodesBitrate (btrValue (canBaseBitRate / bitrate)) bitrate
  := by
  obtain ⟨-, p, hp, heq⟩ := hset
  have hdiv := toNat_canBaseBitRate_div h heq
  have hp1 : 1 ≤ p := Nat.pos_of_ne_zero (by rintro rfl; omega)
  obtain ⟨hwithin, hprescaler, hts1, hts2⟩ := btrValue_fields (p := canBaseBitRate / bitrate)
    (by omega) (by omega)
  use hwithin
  rw [EncodesBitrate, hprescaler, hts1, hts2, hdiv]
  apply heq

/-- A bitrate above zero is given the timing that encodes it exactly when it can be set. -/
theorem canBtrFromBitrate_eq {bitrate : UInt32} (h : bitrate ≠ 0) :
  canBtrFromBitrate bitrate
    = some (if Settable bitrate then some (btrValue (canBaseBitRate / bitrate)) else none)
  := by
  unfold canBtrFromBitrate
  by_cases hfast : bitrate > 1000000
  · have hset : ¬ Settable bitrate := fun hset => UInt32.not_lt.mpr hset.1 hfast
    rw [if_pos hfast, if_neg hset]
  · have hset := settable_iff h (UInt32.not_lt.mp hfast)
    rw [if_neg hfast, if_neg h]
    by_cases hno : canBaseBitRate % bitrate ≠ 0 ∨ canBaseBitRate / bitrate > 1024
    · rw [if_pos hno, if_neg (fun hs => hset.mp hs hno)]
    · rw [if_neg hno, if_pos (hset.mpr hno)]

/-- `can_init` does not halt: the driver is not running, and its configuration has the timing
of the default bitrate. -/
theorem canInit_eq (bits : BtrBits) :
  ∃ timing, Within timing canBtrTimingMask ∧ EncodesBitrate timing canDefaultBitrate ∧
    canInit bits = some ⟨false, { canConfig bits with
      btr := setField (canConfig bits).btr canBtrTimingMask timing }, 1, false⟩
  := by
  have hne : canDefaultBitrate ≠ 0 := by decide
  have hsettable : Settable canDefaultBitrate := by decide +kernel
  have hapart : Apart (canConfig bits).btr canBtrTimingMask :=
    bits.timing_silm.symm.or bits.timing_sjw0.symm
  obtain ⟨hwithin, hencodes⟩ := encodesBitrate_btrValue hne hsettable
  refine ⟨_, hwithin, hencodes, ?_⟩
  rw [canInit, canBtrFromBitrate_eq hne, if_pos hsettable, ← or_eq_setField hapart]
  rfl

/-! ### The bits of the mode -/

section Mode

variable (bits : BtrBits)

/-- The register BTR after `can_open`. -/
def openBtr (mode : CanMode) (btr : BitVec 32) : BitVec 32 :=
  let btr := (btr &&& ~~~bits.canBtrLbkm) &&& ~~~bits.canBtrSilm
  match mode with
  | .normal => btr
  | .loopback => btr ||| bits.canBtrLbkm
  | .silent => btr ||| bits.canBtrSilm

/-- The calls of `can_open` to the transceiver. -/
def silentModeCalls (mode : CanMode) : List HalCall :=
  .canSetSilentMode false :: (if mode = .silent then [.canSetSilentMode true] else [])

/-- The calls to the hardware that `can_open` makes. -/
def canOpenCalls (mode : CanMode) (config : CANConfig) : List HalCall :=
  silentModeCalls mode ++ [.canStart { config with btr := openBtr bits mode config.btr }]

/-- Opening calls the transceiver, and starts the hardware. -/
theorem mem_canOpenCalls {mode : CanMode} {config : CANConfig} {call : HalCall}
    (h : call ∈ canOpenCalls bits mode config) :
  (∃ silent, call = .canSetSilentMode silent) ∨ ∃ config', call = .canStart config'
  := by
  simp only [canOpenCalls, silentModeCalls, List.mem_append, List.mem_cons, List.not_mem_nil,
    or_false] at h
  rcases h with (rfl | h) | rfl
  · exact .inl ⟨false, rfl⟩
  · split at h
    · exact .inl ⟨true, List.mem_singleton.mp h⟩
    · cases h
  · exact .inr ⟨_, rfl⟩

/-- Opening a channel that is closed. -/
theorem canOpen_of_closed (mode : CanMode) {d : CanDriver} (h : d.canIsRunning = false) :
  canOpen bits mode d = (true,
    { canIsRunning := true
      canConfig := { d.canConfig with btr := openBtr bits mode d.canConfig.btr }
      canConfigWait := d.canConfigWait + 1
      started := true
      calls := d.calls ++ canOpenCalls bits mode d.canConfig })
  := by
  cases mode <;>
    simp [canOpen, h, canSetSilentMode, setBtr, canStart, chSemSignal, canOpenCalls,
      silentModeCalls, openBtr]

/-- The bits of BTR that are neither of the timing nor of the mode. -/
def BtrBits.rest : BitVec 32 :=
  ~~~(canBtrTimingMask ||| bits.canBtrLbkm ||| bits.canBtrSilm)

theorem timing_rest :
  Apart canBtrTimingMask bits.rest
  := ((within_or_left _ _).trans (within_or_left _ _)).apart_not

theorem lbkm_rest :
  Apart bits.canBtrLbkm bits.rest
  := ((within_or_right _ _).trans (within_or_left _ _)).apart_not

theorem silm_rest :
  Apart bits.canBtrSilm bits.rest
  := (within_or_right _ _).apart_not

/-- The bits of the mode that `can_open` writes. -/
def CanMode.lbkm (mode : CanMode) : BitVec 32 :=
  if mode = .loopback then bits.canBtrLbkm else 0#32

def CanMode.silm (mode : CanMode) : BitVec 32 :=
  if mode = .silent then bits.canBtrSilm else 0#32

theorem within_lbkm (mode : CanMode) :
  Within (mode.lbkm bits) bits.canBtrLbkm
  := by
  cases mode with
  | loopback => apply within_self
  | normal | silent => apply within_zero

theorem within_silm (mode : CanMode) :
  Within (mode.silm bits) bits.canBtrSilm
  := by
  cases mode with
  | silent => apply within_self
  | normal | loopback => apply within_zero

/-- Opening writes the two fields of the mode, and nothing else. -/
theorem openBtr_eq (mode : CanMode) (btr : BitVec 32) :
  openBtr bits mode btr
    = setField (setField btr bits.canBtrLbkm (mode.lbkm bits)) bits.canBtrSilm (mode.silm bits)
  := by
  have hzero := within_zero bits.canBtrLbkm
  have hzero' := within_zero bits.canBtrSilm
  have hself := within_self bits.canBtrLbkm
  unfold openBtr
  rw [and_not_eq_setField, and_not_eq_setField]
  cases mode with
  | normal => rfl
  | loopback =>
      have hapart : Apart (setField (setField btr bits.canBtrLbkm 0#32) bits.canBtrSilm 0#32)
          bits.canBtrLbkm := by
        rw [Apart, setField_and_of_apart hzero' bits.silm_lbkm, setField_and_self hzero]
      simp only
      rw [or_eq_setField hapart, setField_comm hzero' hself bits.silm_lbkm,
        setField_setField hzero]
      rfl
  | silent =>
      have hapart : Apart (setField (setField btr bits.canBtrLbkm 0#32) bits.canBtrSilm 0#32)
          bits.canBtrSilm := setField_and_self hzero'
      simp only
      rw [or_eq_setField hapart, setField_setField hzero']
      rfl

end Mode

end CanDongle

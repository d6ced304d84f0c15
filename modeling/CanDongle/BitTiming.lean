import CanDongle.Session

/-!
# The timing of a bit

`can_btr_from_bitrate` stores its word through a pointer, and its base rate is a macro that is
not in parentheses.  Here it is written out so, and shown to be the function that the model of
the driver has, whatever the local variable of `can_set_bitrate` holds before.

A bitrate is either exact, and then the fields of the word decode to the prescaler and to the
time segments that give it, or it is refused, and nothing is stored.  The one bitrate for which
the function would divide by zero is never asked for by a command.
-/

open BitField

namespace CanDongle

/-- `CAN_BASE_CLOCK`. -/
def canBaseClock : UInt32 := 36000000

/-- `can_btr_from_bitrate`, with what it returns and what is in `*btr_value` after it, when
`btrWord` was there before.  It yields `none` when it would divide by zero. -/
def canBtrFromBitrateTo (bitrate : UInt32) (btrWord : BitVec 32) : Option (Bool × BitVec 32) :=
  if bitrate > 1000000 then
    some (false, btrWord)
  else if bitrate = 0 then
    none
  else if canBaseClock / (1 + btrTs1 + btrTs2) % bitrate ≠ 0 ∨
      canBaseClock / (1 + btrTs1 + btrTs2) / bitrate > 1024 then
    some (false, btrWord)
  else
    let prescaler := canBaseClock / (1 + btrTs1 + btrTs2) / bitrate
    let btr := ((prescaler - 1) <<< 0) ||| ((btrTs1 - 1) <<< 16) ||| ((btrTs2 - 1) <<< 20)
    some (true, btr.toBitVec)

/-- A prescaler that divides the clock to exactly the bitrate, with twelve time quanta to a bit. -/
structure ExactPrescaler (bitrate : UInt32) (p : ℕ) : Prop where
  one_le : 1 ≤ p
  le : p ≤ 1024
  clock_eq : bitrate.toNat * 12 * p = 36000000

/-- The word of a prescaler: it has only timing bits, and is made of three fields that do not
overlap and decode to the prescaler and the time segments.  The rate of the hardware is exact. -/
structure Timing (bitrate : UInt32) (p : ℕ) (btr : BitVec 32) : Prop where
  within : Within btr canBtrTimingMask
  fields : btr = brpField (.ofNat p) ||| ts1Field ||| ts2Field
  brp_ts1 : Apart (brpField (.ofNat p)) ts1Field
  brp_ts2 : Apart (brpField (.ofNat p)) ts2Field
  ts1_ts2 : Apart ts1Field ts2Field
  prescalerOf_eq : prescalerOf btr = p
  ts1Of_eq : ts1Of btr = 6
  ts2Of_eq : ts2Of btr = 5
  dvd : p * (1 + ts1Of btr + ts2Of btr) ∣ 36000000
  rate : 36000000 / (p * (1 + ts1Of btr + ts2Of btr)) = bitrate.toNat

/-- A bitrate is given the timing of an exact prescaler, or refused because there is none, and
then the word stays. -/
structure ExactOrRefused (bitrate : UInt32) (btrWord : BitVec 32) (result : Bool × BitVec 32) :
    Prop where
  exact_iff : result.1 = true ↔ bitrate ≤ 1000000 ∧ ∃ p, ExactPrescaler bitrate p
  timing : result.1 = true → ∀ p, ExactPrescaler bitrate p → Timing bitrate p result.2
  refused : result.1 = false → result.2 = btrWord

variable {bitrate : UInt32} {p : ℕ}

/-! ### The driver -/

/-- The function with the pointer is that of the driver. -/
theorem canBtrFromBitrateTo_eq (bitrate : UInt32) (btrWord : BitVec 32) :
  canBtrFromBitrateTo bitrate btrWord = (canBtrFromBitrate bitrate).map fun
    | some btr => (true, btr)
    | none => (false, btrWord)
  := by
  unfold canBtrFromBitrateTo canBtrFromBitrate canBaseBitRate canBaseClock
  split
  case isTrue => rfl
  case isFalse =>
    split
    case isTrue => rfl
    case isFalse =>
      split
      case isTrue => rfl
      case isFalse => rfl

/-- What the local variable of `can_set_bitrate` holds before makes no difference. -/
theorem canSetBitrate_eq (bitrate : UInt32) (d : CanDriver) (btrWord : BitVec 32) :
  canSetBitrate bitrate d =
    if d.canIsRunning then
      some (false, d)
    else
      (canBtrFromBitrateTo bitrate btrWord).map fun (found, btr) =>
        if found then
          (true, setBtr ((d.canConfig.btr &&& ~~~canBtrTimingMask) ||| btr) d)
        else
          (false, d)
  := by
  rw [canSetBitrate, canBtrFromBitrateTo_eq]
  rcases canBtrFromBitrate bitrate with - | - | btr
  · rfl
  · rfl
  · rfl

/-! ### The fields -/

/-- The word of an exact prescaler. -/
theorem ExactPrescaler.timing (h : ExactPrescaler bitrate p) :
  Timing bitrate p (btrValue (.ofNat p))
  := by
  have hp_le := h.le
  have hexact := h.clock_eq
  have htoNat : (UInt32.ofNat p).toNat = p := by
    rw [UInt32.toNat_ofNat', Nat.mod_eq_of_lt (by omega)]
  have hone : 1 ≤ (UInt32.ofNat p).toNat := htoNat.symm ▸ h.one_le
  have hle : (UInt32.ofNat p).toNat ≤ 1024 := htoNat.symm ▸ h.le
  obtain ⟨hwithin, hprescaler, hts1, hts2⟩ := btrValue_fields hone hle
  have hclock : p * (1 + ts1Of (btrValue (.ofNat p)) + ts2Of (btrValue (.ofNat p)))
      * bitrate.toNat = 36000000 := by
    rw [hts1, hts2]
    linarith
  have hpos : 0 < p * (1 + ts1Of (btrValue (.ofNat p)) + ts2Of (btrValue (.ofNat p))) := by
    apply Nat.pos_of_ne_zero
    intro hzero
    rw [hzero] at hclock
    omega
  exact {
    within := hwithin
    fields := btrValue_eq _
    brp_ts1 := Apart.of_within (by decide) (within_brpField hone hle) within_ts1Field
    brp_ts2 := Apart.of_within (by decide) (within_brpField hone hle) within_ts2Field
    ts1_ts2 := Apart.of_within (by decide) within_ts1Field within_ts2Field
    prescalerOf_eq := hprescaler.trans htoNat
    ts1Of_eq := hts1
    ts2Of_eq := hts2
    dvd := ⟨_, hclock.symm⟩
    rate := Nat.div_eq_of_eq_mul_right hpos hclock.symm }

/-! ### The bitrate -/

/-- The bitrates that can be set are those of an exact prescaler. -/
theorem settable_iff_exactPrescaler :
  Settable bitrate ↔ bitrate ≤ 1000000 ∧ ∃ p, ExactPrescaler bitrate p
  := by
  apply and_congr_right
  intro hfast
  constructor
  · rintro ⟨p, hp, hclock⟩
    use p
    constructor
    · apply Nat.pos_of_ne_zero
      rintro rfl
      omega
    · omega
    · linarith
  · rintro ⟨p, hp⟩
    have hle := hp.le
    have hclock := hp.clock_eq
    use p, by omega
    linarith

/-- The quotient of the clock is the exact prescaler. -/
theorem ExactPrescaler.div_eq (h : ExactPrescaler bitrate p) (hne : bitrate ≠ 0) :
  canBaseBitRate / bitrate = .ofNat p
  := by
  have hle := h.le
  have hclock : bitrate.toNat * (p * 12) = 36000000 := by linarith [h.clock_eq]
  apply UInt32.toNat_inj.mp
  rw [toNat_canBaseBitRate_div hne hclock, UInt32.toNat_ofNat', Nat.mod_eq_of_lt (by omega)]

/-- A bitrate above zero is exact or refused. -/
theorem canBtrFromBitrateTo_exact (hne : bitrate ≠ 0) (btrWord : BitVec 32) :
  ∃ result, canBtrFromBitrateTo bitrate btrWord = some result ∧
    ExactOrRefused bitrate btrWord result
  := by
  rw [canBtrFromBitrateTo_eq, canBtrFromBitrate_eq hne]
  by_cases hsettable : Settable bitrate
  · rw [if_pos hsettable]
    refine ⟨_, rfl, ⟨?_, ?_, ?_⟩⟩
    · exact ⟨fun _ => settable_iff_exactPrescaler.mp hsettable, fun _ => rfl⟩
    · intro _ p hp
      dsimp only
      rw [hp.div_eq hne]
      apply hp.timing
    · intro h
      cases h
  · rw [if_neg hsettable]
    refine ⟨_, rfl, ⟨?_, ?_, ?_⟩⟩
    · constructor
      · intro h
        cases h
      · intro h
        exact absurd (settable_iff_exactPrescaler.mpr h) hsettable
    · intro h
      cases h
    · intro _
      rfl

/-! ### The rates of commands -/

/-- The request of `set_bitrate`. -/
def setBitrateRequest (line : Line) : Request :=
  if line.digit < '0'.toUInt8 ∨ line.digit > '8'.toUInt8 then .reply [bell]
  else .ask (.canSetBitrate (brTbl[(line.digit - '0'.toUInt8).toNat]?.getD 0))

/-- What `set_bitrate` does with any driver, in terms of its request. -/
theorem setBitrate_eq_some {σ : Type} {drv : Driver σ} {line : Line} {s s' : σ}
    {reply : List UInt8} (h : (setBitrateRequest line).perform drv s = some (reply, s')) :
  ∃ line', setBitrate drv line s = some (line', s')
  := by
  rw [setBitrateRequest, ← textOf_setBitrate, textOf_apply] at h
  obtain ⟨⟨line', s''⟩, hrun, heq⟩ := Option.map_eq_some_iff.mp h
  obtain ⟨-, rfl⟩ := Prod.mk.inj heq
  exact ⟨line', hrun⟩

/-- Every rate that `set_bitrate` passes on is above zero. -/
theorem rate_ne_zero {line : Line} {call : DriverCall} (h : call ∈ (setBitrateRequest line).calls) :
  ∃ rate ≠ 0, call = .canSetBitrate rate
  := by
  unfold setBitrateRequest at h
  by_cases hdigit : line.digit < '0'.toUInt8 ∨ line.digit > '8'.toUInt8
  · rw [if_pos hdigit] at h
    cases h
  · rw [if_neg hdigit] at h
    exact ⟨_, brTbl_ne_zero hdigit, List.mem_singleton.mp h⟩

/-- A rate above zero does not divide by zero. -/
theorem canSetBitrate_isSome (hne : bitrate ≠ 0) (d : CanDriver) :
  (canSetBitrate bitrate d).isSome
  := by
  rw [canSetBitrate_eq bitrate d 0]
  obtain ⟨result, hresult, -⟩ := canBtrFromBitrateTo_exact hne 0
  rw [hresult]
  split
  · rfl
  · rfl

/-- The rate of `set_bitrate` never makes the driver divide by zero. -/
theorem perform_setBitrateRequest (bits : BtrBits) (env : Environment) (line : Line)
    (d : CanDriver) :
  ∃ reply d', (setBitrateRequest line).perform (canDriver bits env) d = some (reply, d')
  := by
  unfold setBitrateRequest
  by_cases hdigit : line.digit < '0'.toUInt8 ∨ line.digit > '8'.toUInt8
  · rw [if_pos hdigit]
    exact ⟨_, _, rfl⟩
  · rw [if_neg hdigit]
    obtain ⟨⟨success, d'⟩, hset⟩ :=
      Option.isSome_iff_exists.mp (canSetBitrate_isSome (brTbl_ne_zero hdigit) d)
    have hcall : canDriver bits env (.canSetBitrate _) d = some (success, d') := hset
    exact ⟨_, d', bind_of_eq_some hcall⟩

/-- Bit timing is exact or refused, and commands pass on rates above zero only, so that
`set_bitrate` always returns. -/
theorem bitTiming_exact :
  (∀ bitrate ≠ 0, ∀ btrWord, ∃ result, canBtrFromBitrateTo bitrate btrWord = some result ∧
    ExactOrRefused bitrate btrWord result) ∧
  (∀ results line calls, ∃ line' made,
    setBitrate (recorder results) line calls = some (line', calls ++ made) ∧
    ∀ call ∈ made, ∃ rate ≠ 0, call = .canSetBitrate rate) ∧
  ∀ bits env line d, (setBitrate (canDriver bits env) line d).isSome
  := by
  refine ⟨fun bitrate hne => canBtrFromBitrateTo_exact hne, ?_, ?_⟩
  · intro results line calls
    obtain ⟨line', hrun⟩ := setBitrate_eq_some
      (perform_recorder results (setBitrateRequest line) calls)
    exact ⟨line', _, hrun, fun call => rate_ne_zero⟩
  · intro bits env line d
    obtain ⟨reply, d', hperform⟩ := perform_setBitrateRequest bits env line d
    obtain ⟨line', hrun⟩ := setBitrate_eq_some hperform
    rw [hrun]
    rfl

theorem bitTiming_exact_500000 :
  canBtrFromBitrateTo 500000 0xFFFFFFFF = some (true, 0x00450005) ∧
    ExactOrRefused 500000 0xFFFFFFFF (true, 0x00450005)
  := by
  obtain ⟨result, hresult, hexact⟩ := bitTiming_exact.1 500000 (by decide) 0xFFFFFFFF
  have heval : canBtrFromBitrateTo 500000 0xFFFFFFFF = some (true, 0x00450005) := rfl
  obtain rfl := Option.some.inj (hresult.symm.trans heval)
  exact ⟨heval, hexact⟩

end CanDongle

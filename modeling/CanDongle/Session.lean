import CanDongle.Channel
import CanDongle.Library.Transition

/-!
# Sessions

A session executes command lines one after the other with the CAN driver, from `can_init`
on.  It is shown to refine the channel: it takes the steps of the channel, with its
replies, and what it does to the hardware is what the channel stands for.
-/

open Buffer BitField Transition

namespace CanDongle

/-! ### Executing commands -/

/-- A command line, with the results of the calls to the world outside it makes. -/
structure Command where
  line : Line
  env : Environment

/-- An executed command: its line, reply and calls to the hardware, and the state of the
driver before and after. -/
structure Executed where
  before : CanState
  line : Line
  reply : List UInt8
  calls : List HalCall
  after : CanState

/-- The driver, and the commands executed so far. -/
structure Session where
  driver : CanState
  executed : List Executed

section Execution

variable (bits : BtrBits) (version : Version)

/-- A session after `can_init`. -/
def Session.init : Option Session := do
  let driver ← canInit bits
  some ⟨driver, []⟩

/-- Execute a command. -/
def Session.step (s : Session) (command : Command) : Option Session := do
  let (line, d) ← slcanDecodeLine (canDriver bits command.env) version command.line ⟨s.driver, []⟩
  some ⟨d.toCanState, s.executed ++ [⟨s.driver, command.line, line.text, d.calls, d.toCanState⟩]⟩

end Execution

/-! ### What a command asks for -/

/-- What the request of a command asks of the channel. -/
inductive Asks : Request → ChannelCommand → Prop where
  | setBitrate {bitrate : UInt32} (h : bitrate ≠ 0) :
      Asks (.ask (.canSetBitrate bitrate)) (.setBitrate bitrate)
  | openMode (mode : CanMode) : Asks (.ask (.canOpen mode)) (.openMode mode)
  | close : Asks (.tell .canClose) .close
  | send (id : UInt32) (extended : Bool) {remote : Bool} {data : List UInt8} {length : ℕ}
      (h : remote = false → length ≤ 8 ∧ length ≤ data.length) :
      Asks (.ask (.canSend id extended remote data length)) .send
  | invalid : Asks (.reply [bell]) .invalid
  | reply (text : List UInt8) : Asks (.reply text) .other
  | power (enable : Bool) : Asks (.tell (.busPower enable)) .other

/-- A frame command sends at most eight bytes of data, which it has. -/
theorem asks_sendRequest (line : Line) (remote extended : Bool) :
  Asks (sendRequest line remote extended) (frameCommand line extended)
  := by
  unfold sendRequest frameCommand
  by_cases hlen : hexVal (line.dlc extended) > 8
  · rw [if_pos hlen, if_pos hlen]
    apply Asks.invalid
  · rw [if_neg hlen, if_neg hlen]
    apply Asks.send
    intro hremote
    have hlen : (hexVal (line.dlc extended)).toNat ≤ 8 :=
      UInt8.le_iff_toNat_le.mp (UInt8.not_lt.mp hlen)
    have hid : idLen extended ≤ 8 := by cases extended <;> decide
    rw [hremote, if_neg Bool.false_ne_true, length_hexBytes, length_slice line (by omega)]
    omega

/-- A digit that is accepted is the index of a bitrate. -/
theorem brTbl_ne_zero {c : UInt8} (h : ¬ (c < '0'.toUInt8 ∨ c > '8'.toUInt8)) :
  brTbl[(c - '0'.toUInt8).toNat]?.getD 0 ≠ 0
  := by
  revert c
  apply forall_byte
  decide +kernel

/-- The request of a command asks of the channel what its line does. -/
theorem asks_request (version : Version) (line : Line) :
  Asks (request version line) (channelCommand line)
  := by
  unfold request channelCommand
  split
  case h_1 h => rw [h]; apply asks_sendRequest
  case h_2 h => rw [h]; apply asks_sendRequest
  case h_3 h => rw [h]; apply asks_sendRequest
  case h_4 h => rw [h]; apply asks_sendRequest
  case h_5 h =>
    rw [h]
    by_cases hdigit : line.digit < '0'.toUInt8 ∨ line.digit > '8'.toUInt8
    · simp only [digitBitrate_eq, if_pos hdigit]
      apply Asks.invalid
    · simp only [digitBitrate_eq, if_neg hdigit]
      apply Asks.setBitrate (brTbl_ne_zero hdigit)
  case h_6 h => rw [h]; apply Asks.openMode
  case h_7 h => rw [h]; apply Asks.openMode
  case h_8 h => rw [h]; apply Asks.openMode
  case h_9 h => rw [h]; apply Asks.close
  case h_10 h => rw [h]; apply Asks.reply
  case h_11 h => rw [h]; apply Asks.reply
  case h_12 h => rw [h]; apply Asks.reply
  case h_13 h => rw [h]; apply Asks.reply
  case h_14 h => rw [h]; apply Asks.power
  case h_15 h => rw [h]; apply Asks.power
  case h_16 =>
    simp only [*]
    apply Asks.reply

/-! ### The driver refines the channel -/

section Refinement

variable (bits : BtrBits)

/-- The driver is in the state of a channel. -/
structure Refines (d : CanState) (c : Channel) : Prop where
  running : d.canIsRunning = c.isOpen
  started : d.started = c.isOpen
  wait : d.canConfigWait = if c.isOpen then 2 else 1
  bitrate : EncodesBitrate d.canConfig.btr c.bitrate
  rest : d.canConfig.btr &&& bits.rest = (canConfig bits).btr &&& bits.rest
  lbkm : ∀ m ∈ c.mode, d.canConfig.btr &&& bits.canBtrLbkm = m.lbkm bits
  silm : ∀ m ∈ c.mode, d.canConfig.btr &&& bits.canBtrSilm = m.silm bits

/-- The calls to the hardware a command makes. -/
def MakesCalls (d : CanState) (c : Channel) (calls : List HalCall) : ChannelCommand → Prop
  | .openMode mode => calls = if c.isOpen then [] else canOpenCalls bits mode d.canConfig
  | .close => calls = if c.isOpen then [.canStop] else []
  | .send => ∃ frame, calls = [.canTransmit frame]
  | .setBitrate _ | .invalid | .other => calls = []

/-- The effect of a command on the driver in the state `d` of the channel `c`. -/
structure HasEffect (d : CanState) (c : Channel) (command : ChannelCommand) (reply : List UInt8)
    (d' : CanDriver) : Prop where
  after : Refines bits d'.toCanState (c.next command)
  replies : ∀ success ∈ c.accepts command, reply = [if success then cr else bell]
  refused : reply = [bell] → d'.toCanState = d
  calls : MakesCalls bits d c d'.calls command

/-- A request has an effect on the driver in the state `d` of the channel `c`. -/
def Performs (env : Environment) (r : Request) (d : CanState) (c : Channel)
    (command : ChannelCommand) : Prop :=
  ∃ reply d', r.perform (canDriver bits env) ⟨d, []⟩ = some (reply, d') ∧
    HasEffect bits d c command reply d'

variable {bits} (env : Environment) {d : CanState} {c : Channel}

theorem Refines.not_running {b : UInt32} (h : Refines bits d (.closed b)) :
  ¬ d.canIsRunning = true
  := by
  rw [h.running]
  apply Bool.false_ne_true

theorem performs_ack {call : DriverCall} {d' : CanDriver} {command : ChannelCommand}
    (h : canDriver bits env call ⟨d, []⟩ = some (true, d'))
    (heffect : HasEffect bits d c command [cr] d') :
  Performs bits env (.ask call) d c command
  := ⟨[cr], d', bind_of_eq_some h, heffect⟩

theorem performs_nack {call : DriverCall} {d' : CanDriver} {command : ChannelCommand}
    (h : canDriver bits env call ⟨d, []⟩ = some (false, d'))
    (heffect : HasEffect bits d c command [bell] d') :
  Performs bits env (.ask call) d c command
  := ⟨[bell], d', bind_of_eq_some h, heffect⟩

/-- A command that is not accepted leaves the driver and the hardware as they were. -/
theorem hasEffect_refused (h : Refines bits d c) {command : ChannelCommand}
    (hno : c.accepts command = some false) (hcalls : MakesCalls bits d c [] command) :
  HasEffect bits d c command [bell] ⟨d, []⟩
  where
  after := by
    rw [Channel.next_of_not_accepts (by simp [hno])]
    apply h
  replies success hsuccess := by
    obtain rfl : false = success := Option.some.inj (hno.symm.trans hsuccess)
    rfl
  refused _ := rfl
  calls := hcalls

/-- A command that is accepted is answered with CR. -/
theorem hasEffect_accepted {command : ChannelCommand} {d' : CanDriver}
    (haccepts : c.accepts command = some true) (h : Refines bits d'.toCanState (c.perform command))
    (hcalls : MakesCalls bits d c d'.calls command) :
  HasEffect bits d c command [cr] d'
  where
  after := by
    rw [Channel.next_of_accepts haccepts]
    apply h
  replies success hsuccess := by
    obtain rfl : true = success := Option.some.inj (haccepts.symm.trans hsuccess)
    rfl
  refused hbell := absurd hbell (by decide)
  calls := hcalls

/-- A command that the channel does not decide leaves the driver, whatever its reply. -/
theorem hasEffect_undecided (h : Refines bits d c) {command : ChannelCommand} (reply : List UInt8)
    (hnone : c.accepts command = none) {calls : List HalCall}
    (hcalls : MakesCalls bits d c calls command) :
  HasEffect bits d c command reply ⟨d, calls⟩
  where
  after := by
    rw [Channel.next_of_not_accepts (by simp [hnone])]
    apply h
  replies success hsuccess := by simp [hnone] at hsuccess
  refused _ := rfl
  calls := hcalls

/-- Writing the timing of a bitrate to the driver of a closed channel sets its bitrate. -/
theorem refines_setBtr {b bitrate : UInt32} (h : Refines bits d (.closed b)) {timing : BitVec 32}
    (hwithin : Within timing canBtrTimingMask) (hencodes : EncodesBitrate timing bitrate) :
  Refines bits
    { d with canConfig :=
        { d.canConfig with btr := setField d.canConfig.btr canBtrTimingMask timing } }
    (.closed bitrate)
  where
  running := h.running
  started := h.started
  wait := h.wait
  bitrate := by
    apply (encodesBitrate_congr bitrate _).mpr hencodes
    rw [setField_and_self hwithin, hwithin]
  rest := (setField_and_of_apart hwithin (timing_rest bits)).trans h.rest
  lbkm := by rintro m ⟨⟩
  silm := by rintro m ⟨⟩

theorem performs_setBitrate (h : Refines bits d c) {bitrate : UInt32} (hb : bitrate ≠ 0) :
  Performs bits env (.ask (.canSetBitrate bitrate)) d c (.setBitrate bitrate)
  := by
  cases c with
  | opened b mode =>
      have hset : canDriver bits env (.canSetBitrate bitrate) ⟨d, []⟩ = some (false, ⟨d, []⟩) :=
        if_pos h.running
      exact performs_nack env hset (hasEffect_refused h rfl rfl)
  | closed b =>
      have hset : canDriver bits env (.canSetBitrate bitrate) ⟨d, []⟩ = _ := if_neg h.not_running
      rw [canBtrFromBitrate_eq hb] at hset
      by_cases hsettable : Settable bitrate
      · rw [if_pos hsettable] at hset
        have haccepts : (Channel.closed b).accepts (.setBitrate bitrate) = some true := by
          simp [Channel.accepts, Channel.isOpen, hsettable]
        obtain ⟨hwithin, hencodes⟩ := encodesBitrate_btrValue hb hsettable
        apply performs_ack env hset
          (hasEffect_accepted haccepts (refines_setBtr h hwithin hencodes) rfl)
      · rw [if_neg hsettable] at hset
        have haccepts : (Channel.closed b).accepts (.setBitrate bitrate) = some false := by
          simp [Channel.accepts, hsettable]
        apply performs_nack env hset (hasEffect_refused h haccepts rfl)

/-- Opening the driver of a closed channel opens the channel. -/
theorem refines_open {b : UInt32} (h : Refines bits d (.closed b)) (mode : CanMode) :
  Refines bits
    { canIsRunning := true
      canConfig := { d.canConfig with btr := openBtr bits mode d.canConfig.btr }
      canConfigWait := d.canConfigWait + 1
      started := true }
    (.opened b mode)
  := by
  have hlbkm := within_lbkm bits mode
  have hsilm := within_silm bits mode
  have hleft {m : BitVec 32} (hm : Apart bits.canBtrLbkm m) (hm' : Apart bits.canBtrSilm m) :
      openBtr bits mode d.canConfig.btr &&& m = d.canConfig.btr &&& m := by
    rw [openBtr_eq, setField_and_of_apart hsilm hm', setField_and_of_apart hlbkm hm]
  constructor
  · rfl
  · rfl
  · simp only [h.wait]
    rfl
  · apply (encodesBitrate_congr b _).mpr h.bitrate
    apply hleft bits.timing_lbkm.symm bits.timing_silm.symm
  · apply (hleft (lbkm_rest bits) (silm_rest bits)).trans h.rest
  · rintro m ⟨⟩
    simp only [openBtr_eq]
    rw [setField_and_of_apart hsilm bits.silm_lbkm, setField_and_self hlbkm]
  · rintro m ⟨⟩
    simp only [openBtr_eq]
    rw [setField_and_self hsilm]

theorem performs_open (h : Refines bits d c) (mode : CanMode) :
  Performs bits env (.ask (.canOpen mode)) d c (.openMode mode)
  := by
  cases c with
  | opened b m =>
      have hopen : canDriver bits env (.canOpen mode) ⟨d, []⟩ = some (false, ⟨d, []⟩) :=
        congrArg some (if_pos h.running)
      exact performs_nack env hopen (hasEffect_refused h rfl rfl)
  | closed b =>
      have hopen : canDriver bits env (.canOpen mode) ⟨d, []⟩ = _ :=
        congrArg some (canOpen_of_closed bits mode h.running)
      exact performs_ack env hopen (hasEffect_accepted rfl (refines_open h mode) rfl)

/-- Closing the driver of an open channel closes the channel. -/
theorem refines_close {b : UInt32} {mode : CanMode} (h : Refines bits d (.opened b mode)) :
  Refines bits
    { d with canIsRunning := false, canConfigWait := d.canConfigWait - 1, started := false }
    (.closed b)
  where
  running := rfl
  started := rfl
  wait := by
    simp only [h.wait]
    rfl
  bitrate := h.bitrate
  rest := h.rest
  lbkm := by rintro m ⟨⟩
  silm := by rintro m ⟨⟩

theorem performs_close (h : Refines bits d c) :
  Performs bits env (.tell .canClose) d c .close
  := by
  cases c with
  | closed b =>
      have hclose : canDriver bits env .canClose ⟨d, []⟩ = some (true, ⟨d, []⟩) := by
        simp [canDriver, canClose, h.not_running]
      exact ⟨[cr], _, bind_of_eq_some hclose, hasEffect_accepted rfl h rfl⟩
  | opened b mode =>
      have hwait : d.canConfigWait > 0 := by simp [h.wait, Channel.isOpen]
      have hclose : canDriver bits env .canClose ⟨d, []⟩ = some (true,
          ⟨{ d with canIsRunning := false, canConfigWait := d.canConfigWait - 1, started := false },
            [.canStop]⟩) := by
        simp [canDriver, canClose, h.running, Channel.isOpen, chSemWait, hwait, canStop]
      exact ⟨[cr], _, bind_of_eq_some hclose, hasEffect_accepted rfl (refines_close h) rfl⟩

theorem performs_send (h : Refines bits d c) (id : UInt32) (extended : Bool) {remote : Bool}
    {data : List UInt8} {length : ℕ} (hdata : remote = false → length ≤ 8 ∧ length ≤ data.length) :
  Performs bits env (.ask (.canSend id extended remote data length)) d c .send
  := by
  obtain ⟨frame, hframe⟩ : ∃ frame, txFrame id extended remote data length = some frame := by
    cases remote with
    | true => exact ⟨_, rfl⟩
    | false => simp [txFrame, txData, hdata rfl]
  have hsend : canDriver bits env (.canSend id extended remote data length) ⟨d, []⟩
      = some (env.canTransmit frame, ⟨d, [.canTransmit frame]⟩) := by
    simp [canDriver, canSend, hframe]
  exact ⟨_, _, bind_of_eq_some hsend, hasEffect_undecided h _ rfl ⟨frame, rfl⟩⟩

/-- The effect of the request of a command on the driver is the one on the channel. -/
theorem performs_of_asks (h : Refines bits d c) {r : Request} {command : ChannelCommand}
    (hasks : Asks r command) :
  Performs bits env r d c command
  := by
  cases hasks with
  | setBitrate hb => apply performs_setBitrate env h hb
  | openMode mode => apply performs_open env h mode
  | close => apply performs_close env h
  | send id extended hdata => apply performs_send env h id extended hdata
  | invalid => exact ⟨[bell], _, rfl, hasEffect_refused h rfl rfl⟩
  | reply text => exact ⟨text, _, rfl, hasEffect_undecided h text rfl rfl⟩
  | power enable => exact ⟨[cr], _, rfl, hasEffect_undecided h [cr] rfl rfl⟩

end Refinement

/-! ### What a session does -/

/-- Whether the hardware is started after calls. -/
def startedBy (started : Bool) (calls : List HalCall) : Bool :=
  calls.foldl (fun started call =>
    match call with
    | .canStart _ => true
    | .canStop => false
    | _ => started) started

/-- The last value written with `can_set_silent_mode`. -/
def lastSilentMode (calls : List HalCall) : Option Bool :=
  calls.foldl (fun last call =>
    match call with
    | .canSetSilentMode silent => some silent
    | _ => last) none

/-- The bitrate after a command: the one it sets, if it is acknowledged. -/
def Executed.bitrate (b : UInt32) (x : Executed) : UInt32 :=
  match channelCommand x.line with
  | .setBitrate b' => if x.reply = [cr] then b' else b
  | _ => b

/-- The bitrate of the last `S` command that was acknowledged. -/
def lastBitrate (past : List Executed) : UInt32 :=
  past.foldl Executed.bitrate canDefaultBitrate

/-- The channel after the commands that were executed. -/
def Channel.after (past : List Executed) : Channel :=
  past.foldl (fun c x => c.next (channelCommand x.line)) (.closed canDefaultBitrate)

section Refinement

variable (bits : BtrBits)

/-- The configuration the hardware is started with by the command in `line`, after the calls
`calls` and the commands `past`. -/
structure IsConfigured (past : List Executed) (line : Line) (calls : List HalCall)
    (config : CANConfig) : Prop where
  bitrate : EncodesBitrate config.btr (lastBitrate past)
  lbkm : config.btr &&& bits.canBtrLbkm = if line.letter.toChar = 'l' then bits.canBtrLbkm else 0#32
  silm : config.btr &&& bits.canBtrSilm = if line.letter.toChar = 'L' then bits.canBtrSilm else 0#32
  rest : config.btr &&& bits.rest = (canConfig bits).btr &&& bits.rest
  silentMode : lastSilentMode calls = some (decide (line.letter.toChar = 'L'))

/-- A command takes the step of the channel that its line asks for. -/
structure RefinesChannel (past : List Executed) (x : Executed) : Prop where
  before : Refines bits x.before (.after past)
  after : Refines bits x.after ((Channel.after past).next (channelCommand x.line))
  replies : ∀ success ∈ (Channel.after past).accepts (channelCommand x.line),
    x.reply = [if success then cr else bell]
  opens : x.line.letter.toChar ∈ ['S', 'O', 'l', 'L'] → x.reply = [cr] →
    x.before.canIsRunning = false
  closes : x.line.letter.toChar = 'C' → x.after.canIsRunning = false
  starts : ∀ calls config later, x.calls = calls ++ .canStart config :: later →
    startedBy x.before.started calls = false ∧ IsConfigured bits past x.line calls config
  stops : ∀ calls later, x.calls = calls ++ .canStop :: later →
    startedBy x.before.started calls = true
  refused : x.reply = [bell] → x.after = x.before
  calls : MakesCalls bits x.before (.after past) x.calls (channelCommand x.line)

variable {bits} {d : CanState} {c : Channel} {command : ChannelCommand}
  {calls later : List HalCall}

theorem not_mem_silentModeCalls (mode : CanMode) {call : HalCall}
    (h : ∀ silent, call ≠ .canSetSilentMode silent) :
  call ∉ silentModeCalls mode
  := by
  unfold silentModeCalls
  split <;> simp [h]

/-- A command that calls the hardware opens a closed channel, closes an open one, or sends a
frame. -/
theorem MakesCalls.of_mem {call : HalCall} (h : MakesCalls bits d c calls command)
    (hmem : call ∈ calls) :
  (c.isOpen = false ∧
      ∃ mode, command = .openMode mode ∧ calls = canOpenCalls bits mode d.canConfig) ∨
    (c.isOpen = true ∧ calls = [.canStop]) ∨
    (command = .send ∧ ∃ frame, calls = [.canTransmit frame])
  := by
  have hne : calls ≠ [] := List.ne_nil_of_mem hmem
  cases command with
  | openMode mode =>
      cases hopen : c.isOpen with
      | true => exact absurd (by simpa [MakesCalls, hopen] using h) hne
      | false => exact .inl ⟨rfl, mode, rfl, by simpa [MakesCalls, hopen] using h⟩
  | close =>
      cases hopen : c.isOpen with
      | true => exact .inr (.inl ⟨rfl, by simpa [MakesCalls, hopen] using h⟩)
      | false => exact absurd (by simpa [MakesCalls, hopen] using h) hne
  | send => exact .inr (.inr ⟨rfl, h⟩)
  | setBitrate _ | invalid | other => exact absurd h hne

/-- The hardware is started only by opening a closed channel, with the configuration of the
mode, after the calls to the transceiver. -/
theorem MakesCalls.canStart {config : CANConfig}
    (h : MakesCalls bits d c (calls ++ .canStart config :: later) command) :
  c.isOpen = false ∧ ∃ mode, command = .openMode mode ∧ calls = silentModeCalls mode ∧
    config = { d.canConfig with btr := openBtr bits mode d.canConfig.btr }
  := by
  have hmem : HalCall.canStart config ∈ calls ++ .canStart config :: later := by simp
  rcases h.of_mem hmem with ⟨hclosed, mode, hmode, hcalls⟩ | ⟨-, hcalls⟩ | ⟨-, frame, hcalls⟩
  · use hclosed, mode, hmode
    rcases concat_eq_append_cons hcalls.symm with ⟨rfl, hconfig, -⟩ | ⟨later', hlater⟩
    · exact ⟨rfl, by simpa using hconfig⟩
    · have hmem : HalCall.canStart config ∈ silentModeCalls mode := by simp [hlater]
      exact absurd hmem (not_mem_silentModeCalls mode (by simp))
  · simp [hcalls] at hmem
  · simp [hcalls] at hmem

/-- The hardware is stopped only by closing an open channel. -/
theorem MakesCalls.canStop (h : MakesCalls bits d c (calls ++ .canStop :: later) command) :
  c.isOpen = true ∧ calls = []
  := by
  have hmem : HalCall.canStop ∈ calls ++ .canStop :: later := by simp
  rcases h.of_mem hmem with ⟨-, mode, -, hcalls⟩ | ⟨hopen, hcalls⟩ | ⟨-, frame, hcalls⟩
  · rw [hcalls] at hmem
    rcases mem_canOpenCalls bits hmem with ⟨silent, ⟨⟩⟩ | ⟨config, ⟨⟩⟩
  · have hcalls : [] ++ [HalCall.canStop] = calls ++ .canStop :: later := hcalls.symm
    rcases concat_eq_append_cons hcalls with ⟨hnil, -, -⟩ | ⟨later', hlater⟩
    · exact ⟨hopen, hnil⟩
    · simp at hlater
  · simp [hcalls] at hmem

/-- An opened channel is configured as its mode and the bitrate before say. -/
theorem isConfigured_of_open {past : List Executed} {line : Line} {mode : CanMode} {b : UInt32}
    (h : Refines bits d (.closed b)) (hb : lastBitrate past = b)
    (hline : channelCommand line = .openMode mode) :
  IsConfigured bits past line (silentModeCalls mode)
    { d.canConfig with btr := openBtr bits mode d.canConfig.btr }
  := by
  have hopen := refines_open h mode
  have hletter := letter_of_openMode hline
  constructor
  · rw [hb]
    apply hopen.bitrate
  · apply (hopen.lbkm mode rfl).trans
    rw [hletter]
    cases mode <;> rfl
  · apply (hopen.silm mode rfl).trans
    rw [hletter]
    cases mode <;> rfl
  · apply hopen.rest
  · rw [hletter]
    cases mode <;> rfl

/-- The letters of the commands that a channel accepts only while it is closed. -/
theorem letter_of_mem {letter : Char} (h : letter ∈ ['S', 'O', 'l', 'L']) :
  letter = 'S' ∨ ∃ mode : CanMode, letter = mode.letter
  := by
  simp only [List.mem_cons, List.not_mem_nil, or_false] at h
  rcases h with rfl | rfl | rfl | rfl
  · exact .inl rfl
  · exact .inr ⟨.normal, rfl⟩
  · exact .inr ⟨.loopback, rfl⟩
  · exact .inr ⟨.silent, rfl⟩

/-- A command that sets the bitrate or opens the channel succeeds only while it is closed. -/
theorem closed_of_cr {line : Line} {reply : List UInt8}
    (hreplies : ∀ success ∈ c.accepts (channelCommand line), reply = [if success then cr else bell])
    (hletter : line.letter.toChar ∈ ['S', 'O', 'l', 'L']) (hreply : reply = [cr]) :
  c.isOpen = false
  := by
  obtain ⟨success, haccepts, hclosed⟩ := accepts_of_letter c (letter_of_mem hletter)
  have hcr := hreplies success haccepts
  rw [hreply] at hcr
  apply hclosed
  cases success with
  | true => rfl
  | false => exact absurd hcr (by decide)

/-- What is started is the configuration of the open command, while the channel is closed. -/
theorem starts_of_makesCalls {past : List Executed} {line : Line} {config : CANConfig}
    (h : Refines bits d (.after past)) (hb : lastBitrate past = (Channel.after past).bitrate)
    (hmakes : MakesCalls bits d (.after past) (calls ++ .canStart config :: later)
      (channelCommand line)) :
  startedBy d.started calls = false ∧ IsConfigured bits past line calls config
  := by
  obtain ⟨hclosed, mode, hmode, rfl, rfl⟩ := hmakes.canStart
  constructor
  · rw [h.started, hclosed]
    cases mode <;> rfl
  · cases hafter : Channel.after past with
    | opened b m => simp [hafter, Channel.isOpen] at hclosed
    | closed b =>
        rw [hafter] at h hb
        apply isConfigured_of_open h hb hmode

/-- A command that has the effect of the channel takes its step. -/
theorem refinesChannel_of_hasEffect {past : List Executed} {x : Executed}
    (hbefore : Refines bits x.before (.after past))
    (hb : lastBitrate past = (Channel.after past).bitrate)
    (h : HasEffect bits x.before (.after past) (channelCommand x.line) x.reply ⟨x.after, x.calls⟩) :
  RefinesChannel bits past x
  where
  before := hbefore
  after := h.after
  replies := h.replies
  opens := by
    intro hletter hreply
    rw [hbefore.running]
    apply closed_of_cr h.replies hletter hreply
  closes := by
    intro hletter
    have hclose : channelCommand x.line = .close := by
      unfold channelCommand
      rw [hletter]
      rfl
    have hafter := h.after
    rw [hclose] at hafter
    apply hafter.running
  starts := by
    intro calls config later hcalls
    have hmakes := h.calls
    simp only [hcalls] at hmakes
    apply starts_of_makesCalls hbefore hb hmakes
  stops := by
    intro calls later hcalls
    have hmakes := h.calls
    simp only [hcalls] at hmakes
    obtain ⟨hopen, rfl⟩ := hmakes.canStop
    apply hbefore.started.trans hopen
  refused := h.refused
  calls := h.calls

/-- The bitrate of the channel is the one that was last acknowledged. -/
theorem bitrate_next {x : Executed} (c : Channel)
    (h : ∀ success ∈ c.accepts (channelCommand x.line), x.reply = [if success then cr else bell]) :
  x.bitrate c.bitrate = (c.next (channelCommand x.line)).bitrate
  := by
  unfold Executed.bitrate
  cases hcommand : channelCommand x.line with
  | setBitrate b =>
      rw [hcommand] at h
      have hreply := h _ rfl
      cases hsuccess : !c.isOpen && decide (Settable b) with
      | true =>
          rw [hsuccess] at hreply
          have haccepts : c.accepts (.setBitrate b) = some true := congrArg some hsuccess
          rw [Channel.next_of_accepts haccepts]
          apply if_pos hreply
      | false =>
          rw [hsuccess] at hreply
          have haccepts : c.accepts (.setBitrate b) ≠ some true := by
            rw [Channel.accepts, hsuccess]
            decide
          rw [Channel.next_of_not_accepts haccepts]
          apply if_neg
          rw [hreply]
          decide
  | openMode mode => cases c <;> rfl
  | close => rfl
  | send | invalid | other => rfl

/-- What a session keeps: its driver is in the state of the channel, and every command it has
executed took the step of the channel. -/
structure SessionInv (bits : BtrBits) (s : Session) : Prop where
  driver : Refines bits s.driver (.after s.executed)
  bitrate : lastBitrate s.executed = (Channel.after s.executed).bitrate
  executed : Throughout (RefinesChannel bits) s.executed

theorem sessionInv_init (bits : BtrBits) :
  ∃ start, Session.init bits = some start ∧ start.executed = [] ∧ SessionInv bits start
  := by
  obtain ⟨timing, hwithin, hencodes, hinit⟩ := canInit_eq bits
  refine ⟨⟨_, []⟩, by rw [Session.init, hinit]; rfl, rfl, ?_, rfl, throughout_nil⟩
  constructor
  · rfl
  · rfl
  · rfl
  · apply (encodesBitrate_congr canDefaultBitrate _).mpr hencodes
    rw [setField_and_self hwithin, hwithin]
  · apply setField_and_of_apart hwithin (timing_rest bits)
  · rintro m ⟨⟩
  · rintro m ⟨⟩

/-- A session executes any command, and keeps the invariant. -/
theorem sessionInv_step (version : Version) {s : Session} (h : SessionInv bits s)
    (command : Command) :
  ∃ s', Session.step bits version s command = some s' ∧ SessionInv bits s'
  := by
  obtain ⟨reply, d, hrun, heffect⟩ :=
    performs_of_asks command.env h.driver (asks_request version command.line)
  obtain ⟨line, hline, rfl⟩ := slcanDecodeLine_eq_some hrun
  have hstep := refinesChannel_of_hasEffect
    (x := ⟨s.driver, command.line, line.text, d.calls, d.toCanState⟩) h.driver h.bitrate heffect
  refine ⟨⟨d.toCanState, s.executed ++ [_]⟩, ?_, ?_, ?_, h.executed.concat hstep⟩
  · rw [Session.step, hline]
    rfl
  · rw [Channel.after, List.foldl_append]
    apply hstep.after
  · rw [lastBitrate, List.foldl_append, Channel.after, List.foldl_append]
    have hnext := bitrate_next (Channel.after s.executed) hstep.replies
    rw [← h.bitrate] at hnext
    apply hnext

theorem executed_of_step {version : Version} {s s' : Session} {command : Command}
    (h : Session.step bits version s command = some s') :
  s'.executed.map Executed.line = s.executed.map Executed.line ++ [command.line]
  := by
  obtain ⟨⟨line, d⟩, -, hs'⟩ := Option.bind_eq_some_iff.mp h
  obtain rfl := Option.some.inj hs'
  simp

/-- A session has executed the lines of its commands. -/
theorem executed_of_run {version : Version} {s s' : Session} {commands : List Command}
    (h : run (Session.step bits version) s commands = some s') :
  s'.executed.map Executed.line = s.executed.map Executed.line ++ commands.map Command.line
  := by
  induction commands generalizing s with
  | nil =>
      obtain rfl := Option.some.inj h
      simp
  | cons command commands ih =>
      obtain ⟨t, hstep, hrun⟩ := Option.bind_eq_some_iff.mp h
      rw [ih hrun, executed_of_step hstep]
      simp

/-- Every list of commands is executed from `can_init` on, and keeps the invariant. -/
theorem exists_session (bits : BtrBits) (version : Version) (commands : List Command) :
  ∃ start s, Session.init bits = some start ∧
    run (Session.step bits version) start commands = some s ∧
    s.executed.map Executed.line = commands.map Command.line ∧ SessionInv bits s
  := by
  obtain ⟨start, hstart, hnil, hinv⟩ := sessionInv_init bits
  obtain ⟨s, hrun, hinv'⟩ := exists_run (fun s command h => sessionInv_step version h command) hinv
    commands
  have hlines := executed_of_run hrun
  rw [hnil] at hlines
  exact ⟨start, s, hstart, hrun, hlines, hinv'⟩

/-- The session refines the channel: whatever the commands and the results of the calls to
the world outside, every command is executed, and takes the step of the channel that its
line asks for. -/
theorem session_refines (bits : BtrBits) (version : Version) (commands : List Command) :
  ∃ start s, Session.init bits = some start ∧
    run (Session.step bits version) start commands = some s ∧
    s.executed.map Executed.line = commands.map Command.line ∧
    Throughout (RefinesChannel bits) s.executed
  := by
  obtain ⟨start, s, hstart, hrun, hlines, hinv⟩ := exists_session bits version commands
  exact ⟨start, s, hstart, hrun, hlines, hinv.executed⟩

end Refinement

end CanDongle

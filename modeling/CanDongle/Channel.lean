import CanDongle.Driver
import CanDongle.Transmit

/-!
# The channel

The machine that a session of commands should be: a channel is closed, with a bitrate, or
open, with a bitrate and a mode.  It is the specification of the driver, and is stated
without its variables.
-/

namespace CanDongle

/-- What a command asks of the channel. -/
inductive ChannelCommand where
  | setBitrate (bitrate : UInt32)
  | openMode (mode : CanMode)
  | close
  | send
  | invalid
  | other
  deriving DecidableEq

/-- What a frame command asks of the channel: to send it, unless its length is refused. -/
def frameCommand (line : Line) (extended : Bool) : ChannelCommand :=
  if hexVal (line.dlc extended) > 8 then .invalid else .send

/-- The bitrate that the digit of an S command stands for. -/
def digitBitrate (c : UInt8) : Option UInt32 :=
  match c.toChar with
  | '0' => some 10000
  | '1' => some 20000
  | '2' => some 50000
  | '3' => some 100000
  | '4' => some 125000
  | '5' => some 250000
  | '6' => some 500000
  | '7' => some 800000
  | '8' => some 1000000
  | _ => none

/-- What a command line asks of the channel. -/
def channelCommand (line : Line) : ChannelCommand :=
  match line.letter.toChar with
  | 't' => frameCommand line false
  | 'r' => frameCommand line false
  | 'T' => frameCommand line true
  | 'R' => frameCommand line true
  | 'S' =>
      match digitBitrate line.digit with
      | some bitrate => .setBitrate bitrate
      | none => .invalid
  | 'O' => .openMode .normal
  | 'l' => .openMode .loopback
  | 'L' => .openMode .silent
  | 'C' => .close
  | _ => .other

/-- The channel: closed or open. -/
inductive Channel where
  | closed (bitrate : UInt32)
  | opened (bitrate : UInt32) (mode : CanMode)
  deriving DecidableEq

namespace Channel

def bitrate : Channel → UInt32
  | .closed b => b
  | .opened b _ => b

def isOpen : Channel → Bool
  | .closed _ => false
  | .opened .. => true

def mode : Channel → Option CanMode
  | .closed _ => none
  | .opened _ m => some m

/-- Whether a command is accepted, when the channel decides it: a bitrate that can be set and
any mode are accepted while the channel is closed, and closing it is accepted at any time. -/
def accepts (c : Channel) : ChannelCommand → Option Bool
  | .setBitrate b => some (!c.isOpen && decide (Settable b))
  | .openMode _ => some (!c.isOpen)
  | .close => some true
  | .send => none
  | .invalid => some false
  | .other => none

/-- The channel after a command that is accepted. -/
def perform (c : Channel) : ChannelCommand → Channel
  | .setBitrate b => .closed b
  | .openMode mode => .opened c.bitrate mode
  | .close => .closed c.bitrate
  | .send | .invalid | .other => c

/-- The channel after a command. -/
def next (c : Channel) (command : ChannelCommand) : Channel :=
  if c.accepts command = some true then c.perform command else c

theorem next_of_accepts {c : Channel} {command : ChannelCommand}
    (h : c.accepts command = some true) :
  c.next command = c.perform command
  := if_pos h

theorem next_of_not_accepts {c : Channel} {command : ChannelCommand}
    (h : c.accepts command ≠ some true) :
  c.next command = c
  := if_neg h

end Channel

/-! ### Letters -/

/-- The letter of the command that opens in a mode. -/
def CanMode.letter : CanMode → Char
  | .normal => 'O'
  | .loopback => 'l'
  | .silent => 'L'

theorem channelCommand_of_frame {line : Line} {extended remote : Bool}
    (h : line.letter.toChar = frameChar extended remote) :
  channelCommand line = frameCommand line extended
  := by
  unfold channelCommand
  rw [h]
  cases extended <;> cases remote <;> rfl

/-- Only the command with the letter of a mode opens in it. -/
theorem letter_of_openMode {line : Line} {mode : CanMode}
    (h : channelCommand line = .openMode mode) :
  line.letter.toChar = mode.letter
  := by
  unfold channelCommand frameCommand at h
  split at h
  case h_6 hchar => cases h; apply hchar
  case h_7 hchar => cases h; apply hchar
  case h_8 hchar => cases h; apply hchar
  all_goals first | cases h | (split at h <;> cases h)

theorem channelCommand_of_letter {line : Line} {mode : CanMode}
    (h : line.letter.toChar = mode.letter) :
  channelCommand line = .openMode mode
  := by
  unfold channelCommand
  rw [h]
  cases mode <;> rfl

/-- The table of `set_bitrate` agrees with the bitrates, where it accepts the digit. -/
theorem digitBitrate_eq (c : UInt8) :
  digitBitrate c = if c < '0'.toUInt8 ∨ c > '8'.toUInt8 then none
    else some (brTbl[(c - '0'.toUInt8).toNat]?.getD 0)
  := by
  revert c
  apply forall_byte
  decide +kernel

theorem channelCommand_of_setBitrate {line : Line} (h : line.letter.toChar = 'S') :
  channelCommand line = if line.digit < '0'.toUInt8 ∨ line.digit > '8'.toUInt8 then .invalid
    else .setBitrate (brTbl[(line.digit - '0'.toUInt8).toNat]?.getD 0)
  := by
  unfold channelCommand
  rw [h]
  simp only [digitBitrate_eq]
  by_cases hdigit : line.digit < '0'.toUInt8 ∨ line.digit > '8'.toUInt8
  · simp only [if_pos hdigit]
  · simp only [if_neg hdigit]

/-- The commands that set a bitrate or open are decided by the channel, and accepted only
while it is closed. -/
theorem accepts_of_letter {line : Line} (c : Channel)
    (h : line.letter.toChar = 'S' ∨ ∃ mode : CanMode, line.letter.toChar = mode.letter) :
  ∃ success, c.accepts (channelCommand line) = some success ∧ (success = true → c.isOpen = false)
  := by
  rcases h with h | ⟨mode, h⟩
  · rw [channelCommand_of_setBitrate h]
    split
    · exact ⟨_, rfl, by simp⟩
    · refine ⟨_, rfl, ?_⟩
      intro hb
      simpa using (Bool.and_eq_true_iff.mp hb).1
  · rw [channelCommand_of_letter h]
    exact ⟨_, rfl, by simp⟩

/-- Only a frame command whose length is accepted is sent. -/
theorem frame_of_send {line : Line} (h : channelCommand line = .send) :
  ∃ extended remote, line.letter.toChar = frameChar extended remote ∧
    ¬ hexVal (line.dlc extended) > 8
  := by
  have hframe (extended remote : Bool) (hchar : line.letter.toChar = frameChar extended remote)
      (hsend : frameCommand line extended = .send) :
      ∃ extended remote, line.letter.toChar = frameChar extended remote ∧
        ¬ hexVal (line.dlc extended) > 8 := by
    refine ⟨extended, remote, hchar, fun hlen => ?_⟩
    rw [frameCommand, if_pos hlen] at hsend
    cases hsend
  unfold channelCommand at h
  split at h
  case h_1 hchar => apply hframe false false hchar h
  case h_2 hchar => apply hframe false true hchar h
  case h_3 hchar => apply hframe true false hchar h
  case h_4 hchar => apply hframe true true hchar h
  case h_5 => split at h <;> cases h
  all_goals cases h

end CanDongle

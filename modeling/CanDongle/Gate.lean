import CanDongle.Session

/-!
# The channel gate

Frames should be transmitted only while the channel is open.  `can_send` does not ask
whether it is: a session keeps the gate exactly when every frame command that is executed
while the channel is closed is refused for its length.
-/

open Transition

namespace CanDongle

/-- A command keeps the gate: the hardware is told to transmit only while the channel is
open, and a frame command is answered with BELL, and makes no call, while it is closed. -/
structure Gated (past : List Executed) (x : Executed) : Prop where
  transmits : ∀ frame, .canTransmit frame ∈ x.calls → (Channel.after past).isOpen = true
  refused : ∀ extended remote, x.line.letter.toChar = frameChar extended remote →
    (Channel.after past).isOpen = false → x.reply = [bell] ∧ x.calls = []

/-- A command that is no frame command whose length is accepted, while the channel is
closed. -/
def RefusedWhileClosed (past : List Executed) (x : Executed) : Prop :=
  ∀ extended remote, x.line.letter.toChar = frameChar extended remote →
    (Channel.after past).isOpen = false → hexVal (x.line.dlc extended) > 8

section Gate

variable {bits : BtrBits} {past : List Executed} {x : Executed}

/-- The hardware is told to transmit only by a frame command. -/
theorem MakesCalls.canTransmit {d : CanState} {c : Channel} {command : ChannelCommand}
    {calls : List HalCall} {frame : CANTxFrame} (h : MakesCalls bits d c calls command)
    (hmem : .canTransmit frame ∈ calls) :
  command = .send
  := by
  rcases h.of_mem hmem with ⟨-, mode, -, hcalls⟩ | ⟨-, hcalls⟩ | ⟨hsend, -⟩
  · rw [hcalls] at hmem
    rcases mem_canOpenCalls bits hmem with ⟨silent, ⟨⟩⟩ | ⟨config, ⟨⟩⟩
  · simp [hcalls] at hmem
  · apply hsend

/-- A command keeps the gate exactly when it is no frame command that is accepted while the
channel is closed. -/
theorem gated_iff (h : RefinesChannel bits past x) :
  Gated past x ↔ RefusedWhileClosed past x
  := by
  constructor
  · intro hgated extended remote hchar hclosed
    by_contra hlen
    have hsend : channelCommand x.line = .send := by
      rw [channelCommand_of_frame hchar, frameCommand, if_neg hlen]
    have hcalls := h.calls
    rw [hsend] at hcalls
    obtain ⟨frame, hcalls⟩ := hcalls
    have hopen := hgated.transmits frame (by simp [hcalls])
    rw [hclosed] at hopen
    cases hopen
  · intro hrefused
    constructor
    · intro frame hmem
      obtain ⟨extended, remote, hchar, hlen⟩ := frame_of_send (h.calls.canTransmit hmem)
      by_contra hclosed
      apply hlen (hrefused extended remote hchar (by simpa using hclosed))
    · intro extended remote hchar hclosed
      have hlen := hrefused extended remote hchar hclosed
      have hinvalid : channelCommand x.line = .invalid := by
        rw [channelCommand_of_frame hchar, frameCommand, if_pos hlen]
      have hreplies := h.replies
      have hcalls := h.calls
      rw [hinvalid] at hreplies hcalls
      exact ⟨hreplies false rfl, hcalls⟩

end Gate

/-- A session keeps the gate exactly when no frame command with an accepted length is
executed while the channel is closed. -/
theorem channelGate_iff (bits : BtrBits) (version : Version) (commands : List Command) :
  ∃ start s, Session.init bits = some start ∧
    run (Session.step bits version) start commands = some s ∧
    s.executed.map Executed.line = commands.map Command.line ∧
    (Throughout Gated s.executed ↔ Throughout RefusedWhileClosed s.executed)
  := by
  obtain ⟨start, s, hstart, hrun, hlines, hinv⟩ := exists_session bits version commands
  use start, s, hstart, hrun, hlines
  apply hinv.executed.congr fun past x hx => gated_iff hx

/-- The command `t1000`, which sends a frame without data. -/
def emptyFrame : Command where
  line := lineOf (['t', '1', '0', '0', '0'].map Char.toUInt8)
  env := ⟨fun _ => true, fun _ => true⟩

/-- After `can_init` the channel is closed, and `t1000` is transmitted. -/
theorem emptyFrame_not_gated :
  ∃ start s, Session.init bxCan = some start ∧
    run (Session.step bxCan mockVersion) start [emptyFrame] = some s ∧
    ¬ Throughout Gated s.executed
  := by
  obtain ⟨start, s, hstart, hrun, hlines, hinv⟩ := exists_session bxCan mockVersion [emptyFrame]
  use start, s, hstart, hrun
  obtain ⟨x, hx, hline⟩ : ∃ x, s.executed = [x] ∧ x.line = emptyFrame.line := by
    simpa [List.map_eq_cons_iff] using hlines
  rw [hinv.executed.congr fun past x hx => gated_iff hx]
  intro hrefused
  have hlen := hrefused [] x [] hx false false (by rw [hline]; decide +kernel) rfl
  rw [hline] at hlen
  revert hlen
  decide +kernel

end CanDongle

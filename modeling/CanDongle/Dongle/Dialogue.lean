import CanDongle.Dongle.Host
import CanDongle.Dongle.Refinement

/-!
# The dialogue with the host

In every interleaving, each terminator that the command thread reads is answered with one reply,
and the host reads the reply as one word.  A terminator also puts an end to whatever was
received before: the line that follows is executed as it was sent.
-/

open Transition

namespace CanDongle

/-- A result ends a line exactly when it is a terminator. -/
theorem LineReader.get_fst (reader : LineReader) (c : ℤ) :
  (reader.get c).1 = decide (IsTerminator c)
  := by
  unfold get
  split
  case isTrue htimeout =>
    rw [htimeout]
    rfl
  case isFalse =>
    split
    case isTrue hc => exact (decide_eq_true hc).symm
    case isFalse hc =>
      rw [decide_eq_false hc]
      split <;> rfl

/-- How many commands wait for their reply. -/
def CommandThread.unanswered : CommandThread → ℕ
  | .spinning => 0
  | .calling _ => 1

namespace Dongle

variable {bits : BtrBits} {version : Version} {s s' : Dongle} {a : DongleAction}

/-- Every terminator has one reply, or the command thread is in its call. -/
structure Counted (s : Dongle) : Prop where
  neverWaits : s.pipeline.NeverWaits
  count : s.results.countP (fun c => IsTerminator c) = s.replies.length + s.thread.unanswered

theorem countP_concat (results : List ℤ) (c : ℤ) :
  (results ++ [c]).countP (fun c => IsTerminator c)
    = results.countP (fun c => IsTerminator c) + (decide (IsTerminator c)).toNat
  := by
  rw [List.countP_append, List.countP_singleton]
  by_cases hc : IsTerminator c <;> simp [hc]

theorem Counted.step (h : Counted s) (hstep : Step bits version s a s') :
  Counted s'
  := by
  have hwaits := hstep.neverWaits h.neverWaits
  have hcount := h.count
  refine ⟨hwaits, ?_⟩
  cases hstep with
  | rx | send | sendWrite | internal | canStart | canStop | write => exact hcount
  | byte hthread hidle hfound =>
      rw [hthread] at hcount
      rw [LineReader.get_fst] at hfound
      rw [countP_concat, hfound, hthread, hcount]
      rfl
  | found hthread hidle hfound =>
      rw [hthread] at hcount
      rw [LineReader.get_fst] at hfound
      rw [countP_concat, hfound, hcount]
      rfl
  | executed hthread hidle hfound ht hcall hanswers =>
      subst ht
      rw [hthread] at hcount
      rw [LineReader.get_fst] at hfound
      change (s.results ++ [_]).countP _ = (s.replies ++ [_]).length + 0
      rw [countP_concat, hfound, hcount, List.length_append]
      rfl
  | called hthread hsimple hcall ht hanswers =>
      subst ht
      rw [hthread] at hcount
      change s.results.countP _ = (s.replies ++ [_]).length + 0
      rw [hcount, List.length_append]
      rfl
  | returned hthread hcommand hp ht hanswers =>
      subst ht
      rw [hthread] at hcount
      change s.results.countP _ = (s.replies ++ [_]).length + 0
      rw [hcount, List.length_append]
      rfl

variable {start : Dongle} {acts later : List DongleAction}

theorem counted_of_run (hstart : slcanStart bits = some start)
    (h : run (Dongle.step bits version) start acts = some s) :
  Counted s
  := by
  obtain ⟨d, -, rfl⟩ := Option.map_eq_some_iff.mp hstart
  refine run_invariant ?_ ⟨Pipeline.neverWaits_init, rfl⟩ h
  intro s a s' hinv hstep
  apply hinv.step (step_cases hinv.neverWaits hstep)

/-- One reply for each terminator.  In every interleaving, the replies that were passed to
`slcan_serial_write` are as many as the terminators that were read, less the one whose command
is being executed.  When nothing is cut short, the host never reads more of them than it has
sent terminators, and has read as many when the command thread waits for it. -/
theorem one_reply (hstart : slcanStart bits = some start)
    (h : run (Dongle.step bits version) start acts = some s) :
  s.results.countP (fun c => IsTerminator c) = s.replies.length + s.thread.unanswered ∧
    (version.Readable → s.pipeline.DataFits → s.AllWritten →
      (hostReplies s.bytes).length ≤ s.results.countP (fun c => IsTerminator c) ∧
      (s.thread = .spinning → s.serial.command.inHand = [] →
        (hostReplies s.bytes).length = s.results.countP (fun c => IsTerminator c)))
  := by
  have hcount := (counted_of_run hstart h).count
  refine ⟨hcount, ?_⟩
  intro hversion hfits hall
  obtain ⟨frames, tagged, -, hreads, hword, hreplies, -⟩ :=
    exists_reads_of_run hstart h hversion hfits hall
  rw [hreads.hostReplies hword]
  constructor
  · have hle := (hreads.prefixes .command).length_le
    rw [hreplies] at hle
    omega
  · intro hthread hidle
    rw [hreads.rests .command hidle, hreplies, hcount, hthread]
    rfl

theorem one_reply_writeLine :
  ∃ start s, slcanStart bxCan = some start ∧
    run (Dongle.step bxCan mockVersion) start (openReceive ++ writeLine) = some s ∧
    s.results.countP (fun c => IsTerminator c) = s.replies.length + s.thread.unanswered ∧
    (hostReplies s.bytes).length ≤ s.results.countP (fun c => IsTerminator c) ∧
    (hostReplies s.bytes).length = s.results.countP (fun c => IsTerminator c)
  := by
  obtain ⟨start, s, hstart, hrun, hfits, hall, hthread, hidle⟩ : ∃ start s,
      slcanStart bxCan = some start ∧
      run (Dongle.step bxCan mockVersion) start (openReceive ++ writeLine) = some s ∧
      s.pipeline.DataFits ∧
      (∀ r ∈ s.serial.returned, r.2 = r.1.buf.length) ∧ s.thread = .spinning ∧
      s.serial.command.inHand = [] := exists_run_of_start (by decide +kernel)
  obtain ⟨hcount, hhost⟩ := one_reply hstart hrun
  obtain ⟨hle, heq⟩ := hhost readable_mockVersion hfits hall
  exact ⟨start, s, hstart, hrun, hcount, hle, heq hthread hidle⟩

end Dongle

end CanDongle

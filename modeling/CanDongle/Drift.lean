import CanDongle.Timestamp

/-!
# The drift of the clock

A period of the timer has `COUNTER_MAX + 1` ticks, and the handler adds `COUNTER_MAX` for it.
So the clock loses a microsecond with every run of the handler, and a call of `timestamp_get`
returns the ticks of a moment, its sample, less the runs of the handler.

Such a value is the ticks of another moment of the call only when the call is so long that its
own length hides what the clock has lost, in the 32 bits of a timestamp.
-/

open Transition Wraparound

namespace CanDongle

namespace Reads

/-- The ticks at which a call takes the time: the wrap that was handled last, when the handler has
run between the two reads of `time_us_low`, and the read of CNT otherwise. -/
def sample (c : Reads) : ℕ :=
  if c.second.handled ≠ c.first.handled then
    (counterMax + 1) * c.second.handled
  else
    c.counter.ticks

/-- The call returns the ticks since the start, modulo 2^32, at some moment of the call. -/
def Exact (c : Reads) : Prop :=
  ∃ k, c.start.ticks ≤ k ∧ k ≤ c.second.ticks ∧ c.result = .ofNat k

/-- The time from the start of the call to its sample, less one microsecond for each run of the
handler since `timestamp_stm32_init`, is modulo 2^32 not more than the length of the call. -/
def LossHidden (c : Reads) : Prop :=
  ((c.sample : ℤ) - c.second.handled - c.start.ticks) % 2 ^ 32 ≤ c.second.ticks - c.start.ticks

instance (c : Reads) : Decidable c.LossHidden :=
  inferInstanceAs (Decidable (_ ≤ _))

variable {c : Reads} (h : Ordered c)

include h

theorem Ordered.ticks_le :
  c.start.ticks ≤ c.second.ticks
  := (h.start_le.trans h.first_le_second).ticks_le

/-- The reading of a call is behind its sample by one microsecond for each run of the handler. -/
theorem Ordered.reading_add_handled :
  c.reading + c.second.handled = c.sample
  := by
  unfold sample
  by_cases hhandled : c.second.handled = c.first.handled
  · obtain ⟨hcounter, huif⟩ := h.counter_clear hhandled
    rw [if_neg (not_not.mpr hhandled), h.reading_eq hhandled, hhandled, ← hcounter]
    apply Clock.reading_add_handled h.counter huif
  · rw [if_pos hhandled, reading, if_pos hhandled, Nat.succ_mul]

/-- A call that is shorter than the range of a timestamp returns the word of its reading. -/
theorem Ordered.result_eq_of_short (hshort : c.second.ticks - c.start.ticks < 2 ^ 32) :
  c.result = .ofNat c.reading
  := by
  apply h.result_eq_of_lt
  have hstart := h.start_le.ticks_le
  have hfew : c.second.ticks - c.first.ticks < (counterMax + 1) * 2 ^ 16 := by
    unfold counterMax
    omega
  have hhandled := Clock.handled_sub_le_of_lt h.first h.second h.first_le_second hfew
  unfold counterMax
  omega

/-- The calls that return the ticks of one of their moments are those that hide what the clock
has lost. -/
theorem Ordered.exact_iff :
  c.Exact ↔ c.LossHidden
  := by
  rcases Nat.lt_or_ge (c.second.ticks - c.start.ticks) (2 ^ 32) with hshort | hlong
  · have hresult := h.result_eq_of_short hshort
    have hsample := h.reading_add_handled
    have hreading : (c.sample : ℤ) - c.second.handled = c.reading := by omega
    rw [Exact, LossHidden, hresult, hreading]
    apply exists_between_iff h.ticks_le
  · -- every timestamp is the ticks of some moment of so long a call
    have hword : c.result = .ofNat c.result.toNat := (UInt32.ofNat_toNat).symm
    have hexact : c.Exact := by
      rw [Exact, hword]
      apply (exists_between_iff h.ticks_le).mpr
      omega
    have hhidden : c.LossHidden := by
      unfold LossHidden
      omega
    exact iff_of_true hexact hhidden

end Reads

namespace Timekeeping

/-- A call in a run returns the number of ticks since `timestamp_stm32_init`, modulo 2^32, at some
instant of the run between its start and its end. -/
def TrueTime (acts : List TimeAction) (c : Reads) : Prop :=
  ∃ before after t, acts = before ++ after ∧ run step init before = some t ∧
    c.start.ticks ≤ t.clock.ticks ∧ t.clock.ticks ≤ c.second.ticks ∧
    c.result = .ofNat t.clock.ticks

variable {s s' : Timekeeping} {acts : List TimeAction} {c : Reads}

/-- Ticks come one at a time. -/
theorem ticks_step (a : TimeAction) (hstep : s.step a = some s') :
  s'.clock.ticks ≤ s.clock.ticks + 1
  := by
  cases a with
  | tick =>
      obtain ⟨clock, htick, rfl⟩ := Option.map_eq_some_iff.mp hstep
      apply Nat.le_of_eq (Clock.tick_spec htick).1
  | handler =>
      obtain ⟨clock, hhandler, rfl⟩ := Option.map_eq_some_iff.mp hstep
      dsimp only
      rw [(Clock.handler_spec hhandler).1]
      apply Nat.le_succ
  | call =>
      obtain ⟨clock, reader, calls⟩ := s
      cases reader with
      | idle =>
          cases hstep
          apply Nat.le_succ
      | _ => cases hstep
  | read =>
      obtain ⟨hclock, -⟩ := past_of_read hstep
      rw [hclock]
      apply Nat.le_succ

/-- Every number of ticks between the start and the end of a call is that of an instant. -/
theorem trueTime_iff_exact (h : run step init acts = some s) (hc : c ∈ s.calls) :
  TrueTime acts c ↔ c.Exact
  := by
  constructor
  · rintro ⟨before, after, t, -, -, hstart, hend, hresult⟩
    exact ⟨t.clock.ticks, hstart, hend, hresult⟩
  · rintro ⟨k, hstart, hend, hresult⟩
    have hle := (second_before h hc).ticks_le
    obtain ⟨before, after, t, hacts, hrun, rfl⟩ := exists_value
      (fun s => s.clock.ticks) (fun _ a _ => ticks_step a) h (Nat.zero_le k)
      (Nat.le_trans hend hle)
    exact ⟨before, after, t, hacts, hrun, hstart, hend, hresult⟩

/-- The clock drifts.  A call returns the true time of one of its instants exactly when its length
hides the microsecond that the clock has lost with each run of the handler. -/
theorem trueTime_iff (h : run step init acts = some s) :
  ∀ c ∈ s.calls, TrueTime acts c ↔ c.LossHidden
  := by
  intro c hc
  rw [trueTime_iff_exact h hc]
  apply (Reads.ordered_of_mem (chronological_calls h) hc).exact_iff

/-- The ticks up to the first wrap, and its handler. -/
def firstWrap : List TimeAction := List.replicate counterMax .tick ++ [.tick, .handler]

theorem run_firstWrap :
  run step init firstWrap = some ⟨first 1, .idle, []⟩
  := by
  have hinit : init = ⟨first 0, .idle, []⟩ := rfl
  rw [firstWrap, run_append, hinit, run_first, Option.bind_some, run_wrap]

/-- A call after the first run of the handler, with a tick before it reads the counter. -/
def longCall : List TimeAction := firstWrap ++ [.call, .read, .tick, .read, .read, .read]

/-- The tick makes up for the microsecond that was lost. -/
theorem trueTime_longCall :
  ∃ s c, run step init longCall = some s ∧ s.calls = [c] ∧ c.start.handled = 1 ∧
    TrueTime longCall c
  := by
  have hcall : run step ⟨first 1, .idle, []⟩ [.call, .read, .tick, .read, .read, .read]
      = some ⟨_, _, [_]⟩ := rfl
  have hrun := run_append step init firstWrap [.call, .read, .tick, .read, .read, .read]
  rw [run_firstWrap, Option.bind_some, hcall] at hrun
  refine ⟨_, _, hrun, rfl, rfl, ?_⟩
  apply (trueTime_iff hrun _ (List.mem_singleton_self _)).mpr
  decide

/-- A call after the first run of the handler. -/
def driftedCall : List TimeAction := firstWrap ++ [.call, .read, .read, .read, .read]

/-- The first run of the handler makes the clock a microsecond late. -/
theorem driftedCall_not_trueTime :
  ∃ s c, run step init driftedCall = some s ∧ s.calls = [c] ∧ c.result = 65535 ∧
    c.start.ticks = 65536 ∧ c.second.ticks = 65536 ∧ ¬ TrueTime driftedCall c
  := by
  have hrun : run step init driftedCall
      = some ⟨first 1, .idle, [⟨first 1, first 1, first 1, first 1, first 1, rfl⟩]⟩ := by
    rw [driftedCall, run_append, run_firstWrap, Option.bind_some]
    apply run_call
  refine ⟨_, _, hrun, rfl, rfl, rfl, rfl, ?_⟩
  rintro ⟨before, after, t, -, -, hstart, hend, hresult⟩
  have hticks : t.clock.ticks = 65536 := Nat.le_antisymm hend hstart
  rw [hticks] at hresult
  revert hresult
  decide

end Timekeeping

end CanDongle

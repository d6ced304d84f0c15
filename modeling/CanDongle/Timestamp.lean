import CanDongle.Clock
import CanDongle.Library.Transition

/-!
# Timestamps

`timestamp_get` reads the low word, the counter, the flag and the low word again, while the
timer and its interrupt handler go on.  A call is given by the clock at the moment it starts
and at each of its reads, of which the thread only keeps the register or variable it reads.

A call returns a reading of the clock between its start and its end, and so timestamps do
not go back, as long as their difference fits in the signed 32 bits of a duration.
-/

open Transition Wraparound

namespace CanDongle

/-- What `timestamp_get` returns for what it has read. -/
def timestampGet (t1 tim t2 : UInt32) : UInt32 :=
  if t2 ≠ t1 then t2 else t1 + tim

/-- `timestamp_duration_us`. -/
def timestampDurationUs (t1 t2 : UInt32) : Int32 := (t2 - t1).toInt32

/-- The moments of a call of `timestamp_get`: its start, the read of `time_us_low`, the read of
CNT, the read of SR that ends the loop, and the second read of `time_us_low`. -/
structure Reads where
  start : Clock
  first : Clock
  counter : Clock
  flag : Clock
  second : Clock
  flag_clear : flag.uif = false

/-- What the call returns. -/
def Reads.result (r : Reads) : UInt32 :=
  timestampGet r.first.timeUsLow (.ofNat r.counter.cnt) r.second.timeUsLow

/-- The moments of a call, in order. -/
def Reads.moments (r : Reads) : List Clock := [r.start, r.first, r.counter, r.flag, r.second]

/-- The next read of the thread. -/
inductive Reader where
  /-- Outside of `timestamp_get`. -/
  | idle
  /-- The first read of `time_us_low`. -/
  | low (start : Clock)
  /-- The read of CNT. -/
  | cnt (start first : Clock)
  /-- The reads of SR. -/
  | sr (start first counter : Clock)
  /-- The second read of `time_us_low`. -/
  | lowAgain (start first counter flag : Clock) (flag_clear : flag.uif = false)

/-- The moments of the call so far. -/
def Reader.moments : Reader → List Clock
  | .idle => []
  | .low start => [start]
  | .cnt start first => [start, first]
  | .sr start first counter => [start, first, counter]
  | .lowAgain start first counter flag _ => [start, first, counter, flag]

/-- The clock, a thread that reads it, and the calls of the thread that have returned. -/
structure Timekeeping where
  clock : Clock
  reader : Reader
  calls : List Reads

/-- What happens next. -/
inductive TimeAction where
  | tick
  | handler
  /-- The thread calls `timestamp_get`. -/
  | call
  /-- The thread does its next read. -/
  | read

namespace Timekeeping

/-- After `timestamp_stm32_init`. -/
def init : Timekeeping := ⟨.init, .idle, []⟩

/-- The next read of the thread. -/
def read (s : Timekeeping) : Option Timekeeping :=
  match s.reader with
  | .idle => none
  | .low start => some { s with reader := .cnt start s.clock }
  | .cnt start first => some { s with reader := .sr start first s.clock }
  | .sr start first counter =>
      if h : s.clock.uif = false then
        some { s with reader := .lowAgain start first counter s.clock h }
      else
        some s
  | .lowAgain start first counter flag h =>
      some { s with
        reader := .idle
        calls := s.calls ++ [⟨start, first, counter, flag, s.clock, h⟩] }

/-- Take an action. -/
def step (s : Timekeeping) : TimeAction → Option Timekeeping
  | .tick => s.clock.tick.map fun clock => { s with clock := clock }
  | .handler => s.clock.handler.map fun clock => { s with clock := clock }
  | .call =>
      match s.reader with
      | .idle => some { s with reader := .low s.clock }
      | _ => none
  | .read => s.read

/-- The moments of the calls, in order. -/
def past (s : Timekeeping) : List Clock := s.calls.flatMap Reads.moments ++ s.reader.moments

/-- The moments of the calls, and now. -/
def moments (s : Timekeeping) : List Clock := s.past ++ [s.clock]

end Timekeeping

/-- Moments of one clock, in order. -/
structure Chronological (moments : List Clock) : Prop where
  pairwise : moments.Pairwise Clock.Before
  counts : ∀ t ∈ moments, t.Counts

section Chronological

variable {l l' : List Clock} {s t : Clock}

theorem Chronological.sublist (h : Chronological l) (hsub : l'.Sublist l) :
  Chronological l'
  := ⟨h.pairwise.sublist hsub, fun t ht => h.counts t (hsub.subset ht)⟩

/-- A moment that is not before the last one comes after all of them. -/
theorem Chronological.extend (h : Chronological (l ++ [s])) (ht : t.Counts) (hst : s.Before t) :
  Chronological (l ++ [s] ++ [t])
  := by
  constructor
  · apply List.pairwise_append.mpr
    refine ⟨h.pairwise, List.pairwise_singleton _ _, ?_⟩
    intro u hu t' ht'
    obtain rfl := List.mem_singleton.mp ht'
    rcases List.mem_append.mp hu with hu | hu
    · have hus : u.Before s :=
        (List.pairwise_append.mp h.pairwise).2.2 u hu s (List.mem_singleton_self s)
      apply hus.trans hst
    · obtain rfl := List.mem_singleton.mp hu
      apply hst
  · intro u hu
    rcases List.mem_append.mp hu with hu | hu
    · apply h.counts u hu
    · obtain rfl := List.mem_singleton.mp hu
      apply ht

/-- Time goes on. -/
theorem Chronological.advance (h : Chronological (l ++ [s]))
    (hst : t.Counts ∧ s.Before t) :
  Chronological (l ++ [t])
  := by
  apply (h.extend hst.1 hst.2).sublist
  apply (List.sublist_append_left l [s]).append (List.Sublist.refl [t])

/-- A moment is recorded. -/
theorem Chronological.record (h : Chronological (l ++ [s])) :
  Chronological (l ++ [s] ++ [s])
  := by
  apply h.extend _ (.refl s)
  apply h.counts s (List.mem_append_right l (List.mem_singleton_self s))

end Chronological

namespace Timekeeping

variable {s s' : Timekeeping}

/-- A read records the present moment, or is done again. -/
theorem past_of_read (h : s.read = some s') :
  s'.clock = s.clock ∧ (s'.past = s.past ++ [s.clock] ∨ s'.past = s.past)
  := by
  obtain ⟨clock, reader, calls⟩ := s
  cases reader with
  | idle => cases h
  | low start =>
      cases h
      simp [past, Reader.moments]
  | cnt start first =>
      cases h
      simp [past, Reader.moments]
  | sr start first counter =>
      simp only [read] at h
      split at h
      case isTrue =>
        cases h
        simp [past, Reader.moments]
      case isFalse =>
        cases h
        exact ⟨rfl, .inr rfl⟩
  | lowAgain start first counter flag hflag =>
      cases h
      simp [past, Reader.moments, Reads.moments]

/-- Every step keeps the moments in order. -/
theorem chronological_step (a : TimeAction) (h : Chronological s.moments)
    (hstep : s.step a = some s') :
  Chronological s'.moments
  := by
  have hcounts : s.clock.Counts :=
    h.counts s.clock (List.mem_append_right _ (List.mem_singleton_self _))
  cases a with
  | tick =>
      obtain ⟨clock, htick, rfl⟩ := Option.map_eq_some_iff.mp hstep
      apply h.advance (hcounts.tick htick)
  | handler =>
      obtain ⟨clock, hhandler, rfl⟩ := Option.map_eq_some_iff.mp hstep
      apply h.advance (hcounts.handler hhandler)
  | call =>
      obtain ⟨clock, reader, calls⟩ := s
      cases reader with
      | idle =>
          cases hstep
          have hrecord := h.record
          rw [past, Reader.moments, List.append_nil] at hrecord
          apply hrecord
      | _ => cases hstep
  | read =>
      obtain ⟨hclock, hpast | hpast⟩ := past_of_read hstep
      · rw [moments, hclock, hpast]
        apply h.record
      · rw [moments, hclock, hpast]
        apply h

/-- The moments of a run are in order. -/
theorem chronological_of_run {acts : List TimeAction} (h : run step init acts = some s) :
  Chronological s.moments
  := by
  apply run_invariant (fun s a s' hs hstep => chronological_step a hs hstep) _ h
  exact ⟨List.pairwise_singleton _ _, by simpa [init, moments, past, Reader.moments] using
    Clock.counts_init⟩

/-- The moments of the calls of a run are in order. -/
theorem chronological_calls {acts : List TimeAction} (h : run step init acts = some s) :
  Chronological (s.calls.flatMap Reads.moments)
  := by
  apply (chronological_of_run h).sublist
  rw [moments, past, List.append_assoc]
  apply List.sublist_append_left

/-- A call of a run starts after those before it have ended. -/
theorem calls_before {acts : List TimeAction} (h : run step init acts = some s) :
  s.calls.Pairwise fun c₁ c₂ => c₁.second.Before c₂.start
  := by
  obtain ⟨-, hpairs⟩ := List.pairwise_flatMap.mp (chronological_calls h).pairwise
  apply hpairs.imp
  intro c₁ c₂ hbefore
  apply hbefore c₁.second _ c₂.start
  · simp [Reads.moments]
  · simp [Reads.moments]

/-- The calls of a run have ended before now. -/
theorem second_before {acts : List TimeAction} (h : run step init acts = some s) {c : Reads}
    (hc : c ∈ s.calls) :
  c.second.Before s.clock
  := by
  have hsecond : c.second ∈ s.past := by
    apply List.mem_append_left
    apply List.mem_flatMap.mpr
    use c, hc
    simp [Reads.moments]
  have hpairs := (List.pairwise_append.mp (chronological_of_run h).pairwise).2.2
  apply hpairs c.second hsecond s.clock (List.mem_singleton_self _)

end Timekeeping

/-! ### A call -/

/-- The number that the result of a call stands for. -/
def Reads.reading (r : Reads) : ℕ :=
  if r.second.handled ≠ r.first.handled then
    counterMax * r.second.handled
  else
    counterMax * r.first.handled + r.counter.cnt

/-- The microseconds from the start of a call to the end of another. -/
def Reads.span (c₁ c₂ : Reads) : ℕ := c₂.second.ticks - c₁.start.ticks

/-- The moments of a call are in order. -/
structure Reads.Ordered (r : Reads) : Prop where
  start_le : r.start.Before r.first
  first_le : r.first.Before r.counter
  counter_le : r.counter.Before r.flag
  flag_le : r.flag.Before r.second
  start : r.start.Counts
  first : r.first.Counts
  counter : r.counter.Counts
  flag : r.flag.Counts
  second : r.second.Counts

namespace Reads

variable {r : Reads}

theorem ordered_of_chronological (h : Chronological r.moments) :
  Ordered r
  := by
  obtain ⟨hpairwise, hcounts⟩ := h
  simp only [moments, List.pairwise_cons, List.mem_cons, forall_eq_or_imp] at hpairwise hcounts
  obtain ⟨⟨h₁, -⟩, ⟨h₂, -⟩, ⟨h₃, -⟩, ⟨h₄, -⟩, -⟩ := hpairwise
  obtain ⟨hstart, hfirst, hcounter, hflag, hsecond, -⟩ := hcounts
  exact ⟨h₁, h₂, h₃, h₄, hstart, hfirst, hcounter, hflag, hsecond⟩

/-- The calls of a clock have their moments in order. -/
theorem ordered_of_mem {calls : List Reads} (h : Chronological (calls.flatMap moments))
    (hr : r ∈ calls) :
  Ordered r
  := by
  apply ordered_of_chronological
  obtain ⟨hcalls, -⟩ := List.pairwise_flatMap.mp h.pairwise
  exact ⟨hcalls r hr, fun t ht => h.counts t (List.mem_flatMap.mpr ⟨r, hr, ht⟩)⟩

variable (h : Ordered r)

include h

theorem Ordered.first_le_second :
  r.first.Before r.second
  := (h.first_le.trans h.counter_le).trans h.flag_le

/-- A call in which no handler has run has read the counter while no wrap was pending. -/
theorem Ordered.counter_clear (hhandled : r.second.handled = r.first.handled) :
  r.counter.handled = r.first.handled ∧ r.counter.uif = false
  := by
  have h₁ := h.first_le.handled_le
  have h₂ := h.counter_le.handled_le
  have h₃ := h.flag_le.handled_le
  refine ⟨by omega, ?_⟩
  cases huif : r.counter.uif with
  | false => rfl
  | true =>
      -- a wrap that is pending here keeps the loop from its end
      have hflag : r.flag.uif = true :=
        Clock.uif_of_handled_eq h.counter h.flag h.counter_le (by omega) huif
      rw [r.flag_clear] at hflag
      cases hflag

/-- A call in which no handler has run reads the clock. -/
theorem Ordered.reading_eq (hhandled : r.second.handled = r.first.handled) :
  r.reading = r.counter.reading
  := by
  obtain ⟨hcounter, huif⟩ := h.counter_clear hhandled
  rw [reading, if_neg (not_not.mpr hhandled), Clock.reading_of_handled huif, Clock.wraps, huif,
    hcounter]
  rfl

/-- The reading of a call is not before its start. -/
theorem Ordered.start_le_reading :
  r.start.reading ≤ r.reading
  := by
  by_cases hhandled : r.second.handled = r.first.handled
  · rw [h.reading_eq hhandled]
    apply Clock.reading_le h.start h.counter (h.start_le.trans h.first_le)
  · have hle := h.start_le.handled_le
    have hle' := h.first_le_second.handled_le
    rw [reading, if_pos hhandled]
    calc r.start.reading
      _ ≤ counterMax * (r.start.handled + 1) := Clock.reading_le_succ h.start
      _ ≤ counterMax * r.second.handled := Nat.mul_le_mul_left _ (by omega)

/-- The reading of a call is not after its end. -/
theorem Ordered.reading_le_second :
  r.reading ≤ r.second.reading
  := by
  by_cases hhandled : r.second.handled = r.first.handled
  · rw [h.reading_eq hhandled]
    apply Clock.reading_le h.counter h.second (h.counter_le.trans h.flag_le)
  · rw [reading, if_pos hhandled]
    obtain ⟨hle, -⟩ := Clock.reading_bounds r.second
    apply Nat.le_trans (Nat.mul_le_mul_left _ (Nat.le_add_right _ _)) hle

/-- A call in which the handler does not add as much as the range of the low word returns the word
of its reading. -/
theorem Ordered.result_eq_of_lt
    (hshort : counterMax * r.second.handled - counterMax * r.first.handled < 2 ^ 32) :
  r.result = .ofNat r.reading
  := by
  rw [result, timestampGet, reading, h.first.timeUsLow_eq, h.second.timeUsLow_eq]
  by_cases hhandled : r.second.handled = r.first.handled
  · rw [hhandled, if_neg (not_not.mpr rfl), if_neg (not_not.mpr rfl), UInt32.ofNat_add]
  · have hle := h.first_le_second.handled_le
    have hne : UInt32.ofNat (counterMax * r.second.handled)
        ≠ UInt32.ofNat (counterMax * r.first.handled) := by
      intro heq
      have hinj := ofNat_inj (Nat.mul_le_mul_left counterMax hle) hshort heq.symm
      unfold counterMax at hinj
      omega
    rw [if_pos hne, if_pos hhandled]

/-- A call of less than 2^16 runs of the handler returns the word of its reading. -/
theorem Ordered.result_eq (hshort : r.second.handled - r.first.handled ≤ 2 ^ 16) :
  r.result = .ofNat r.reading
  := by
  apply h.result_eq_of_lt
  unfold counterMax
  omega

end Reads

/-! ### Two calls -/

/-- A duration that is not negative. -/
def Reads.Forward (c₁ c₂ : Reads) : Prop := 0 ≤ (timestampDurationUs c₁.result c₂.result).toInt

instance (c₁ c₂ : Reads) : Decidable (c₁.Forward c₂) :=
  inferInstanceAs (Decidable (0 ≤ (timestampDurationUs c₁.result c₂.result).toInt))

/-- The reading of a call is not before that of an earlier one. -/
theorem Reads.Ordered.reading_le {c₁ c₂ : Reads} (h₁ : c₁.Ordered) (h₂ : c₂.Ordered)
    (h : c₁.second.Before c₂.start) :
  c₁.reading ≤ c₂.reading
  :=
  calc c₁.reading
    _ ≤ c₁.second.reading := h₁.reading_le_second
    _ ≤ c₂.start.reading := Clock.reading_le h₁.second h₂.start h
    _ ≤ c₂.reading := h₂.start_le_reading

/-- The time from a call to a later one does not go back, when they are close enough. -/
theorem Reads.Ordered.forward {c₁ c₂ : Reads} (h₁ : c₁.Ordered) (h₂ : c₂.Ordered)
    (h : c₁.second.Before c₂.start)
    (hspan : c₁.span c₂ + c₁.start.age < 2 ^ 31 + 2 ^ 15) :
  c₁.Forward c₂
  := by
  unfold Reads.span at hspan
  have hfirst : c₁.start.Before c₁.second := h₁.start_le.trans h₁.first_le_second
  have hsecond : c₂.start.Before c₂.second := h₂.start_le.trans h₂.first_le_second
  have hwhole : c₁.start.Before c₂.second := (hfirst.trans h).trans hsecond
  have hlt : c₂.second.reading - c₁.start.reading < 2 ^ 31 :=
    Clock.reading_sub_lt h₁.start h₂.second hwhole hspan
  have hresult₁ : c₁.result = .ofNat c₁.reading := by
    apply h₁.result_eq
    apply Clock.handled_sub_le h₁.first h₁.second h₁.first_le_second
    have hticks := h₁.start_le.ticks_le
    have hticks' := h.ticks_le
    have hticks'' := hsecond.ticks_le
    omega
  have hresult₂ : c₂.result = .ofNat c₂.reading := by
    apply h₂.result_eq
    apply Clock.handled_sub_le h₂.first h₂.second h₂.first_le_second
    have hticks := h₂.start_le.ticks_le
    have hticks' := h.ticks_le
    have hticks'' := hfirst.ticks_le
    omega
  have hstart := h₁.start_le_reading
  have hend := h₂.reading_le_second
  have hle : c₁.reading ≤ c₂.reading := h₁.reading_le h₂ h
  rw [Reads.Forward, timestampDurationUs, hresult₁, hresult₂, toInt_sub hle (by omega)]
  apply Int.natCast_nonneg

/-! ### Periods -/

namespace Timekeeping

variable {clock : Clock} {calls : List Reads}

/-- Ticks within a period. -/
theorem run_ticks (reader : Reader) (n : ℕ) (h : clock.cnt + n ≤ counterMax) :
  run step ⟨clock, reader, calls⟩ (List.replicate n .tick)
    = some ⟨{ clock with cnt := clock.cnt + n, ticks := clock.ticks + n }, reader, calls⟩
  := by
  induction n generalizing clock with
  | zero => rfl
  | succ n ih =>
      have hlt : clock.cnt < counterMax := by omega
      rw [List.replicate_succ, run, step, Clock.tick, if_pos hlt, Option.map_some,
        Option.bind_some, ih (by dsimp only; omega)]
      simp only [Nat.add_assoc, Nat.add_comm 1 n]

/-- The last microsecond of a period, in which every wrap has been handled. -/
def last (n : ℕ) : Clock :=
  ⟨counterMax, false, .ofNat (counterMax * n), 0, (counterMax + 1) * n + counterMax, n⟩

/-- A wrap, its handler, and the ticks of the rest of the period. -/
def period : List TimeAction := [.tick, .handler] ++ List.replicate counterMax .tick

/-- The first microsecond of a period, in which every wrap has been handled. -/
def first (n : ℕ) : Clock :=
  ⟨0, false, .ofNat (counterMax * n), 0, (counterMax + 1) * n, n⟩

theorem run_wrap (reader : Reader) (n : ℕ) :
  run step ⟨last n, reader, calls⟩ [.tick, .handler] = some ⟨first (n + 1), reader, calls⟩
  := by
  simp [run, step, Clock.tick, Clock.handler, last, first, Nat.mul_succ, UInt32.ofNat_add,
    Nat.add_assoc]

theorem run_first (reader : Reader) (n : ℕ) :
  run step ⟨first n, reader, calls⟩ (List.replicate counterMax .tick)
    = some ⟨last n, reader, calls⟩
  := by
  rw [run_ticks reader counterMax (Nat.le_of_eq (Nat.zero_add counterMax)), last, first]
  simp only [Nat.zero_add]

theorem run_period (reader : Reader) (n : ℕ) :
  run step ⟨last n, reader, calls⟩ period = some ⟨last (n + 1), reader, calls⟩
  := by
  rw [period, run_append, run_wrap, Option.bind_some, run_first]

theorem run_periods (reader : Reader) (n m : ℕ) :
  run step ⟨last n, reader, calls⟩ (List.replicate m period).flatten
    = some ⟨last (n + m), reader, calls⟩
  := by
  induction m generalizing n with
  | zero => rfl
  | succ m ih =>
      rw [List.replicate_succ, List.flatten_cons, run_append, run_period, Option.bind_some, ih,
        Nat.add_assoc, Nat.add_comm 1 m]

/-- A call whose reads all fall on one moment. -/
theorem run_call (h : clock.uif = false) :
  run step ⟨clock, .idle, calls⟩ [.call, .read, .read, .read, .read]
    = some ⟨clock, .idle, calls ++ [⟨clock, clock, clock, clock, clock, h⟩]⟩
  := by
  simp [run, step, read, h]

end Timekeeping

/-! ### The clock -/

/-- The clock does not run backwards.  From a call to any later one, the duration is not negative
when the time from the start of the first to the end of the second, together with the age of a
wrap that is pending at the start, is less than 2^31 + 2^15 microseconds. -/
theorem Timekeeping.durations_forward {acts : List TimeAction} {s : Timekeeping}
    (h : run Timekeeping.step Timekeeping.init acts = some s) :
  s.calls.Pairwise fun c₁ c₂ =>
    c₁.span c₂ + c₁.start.age < 2 ^ 31 + 2 ^ 15 → c₁.Forward c₂
  := by
  have hchron := Timekeeping.chronological_calls h
  apply (Timekeeping.calls_before h).imp_of_mem
  intro c₁ c₂ hc₁ hc₂ hbefore hspan
  apply (Reads.ordered_of_mem hchron hc₁).forward (Reads.ordered_of_mem hchron hc₂) hbefore hspan

namespace Timekeeping

/-- A call before a wrap, the handler, and a call after it. -/
def callsAroundWrap : List TimeAction :=
  List.flatten [List.replicate counterMax .tick, [.call, .read, .read, .read, .read],
    [.tick, .handler], [.call, .read, .read, .read, .read]]

theorem run_callsAroundWrap :
  run step init callsAroundWrap = some ⟨first 1, .idle,
    [⟨last 0, last 0, last 0, last 0, last 0, rfl⟩,
      ⟨first 1, first 1, first 1, first 1, first 1, rfl⟩]⟩
  := by
  have hinit : init = ⟨first 0, .idle, []⟩ := rfl
  rw [callsAroundWrap, List.flatten_cons, run_append, hinit, run_first, Option.bind_some,
    List.flatten_cons, run_append, run_call rfl, Option.bind_some,
    List.flatten_cons, run_append, run_wrap, Option.bind_some, List.flatten_singleton]
  apply run_call

theorem durations_forward_callsAroundWrap :
  ∃ s c₁ c₂, run step init callsAroundWrap = some s ∧ s.calls = [c₁, c₂] ∧
    s.clock.handled = 1 ∧ c₁.Forward c₂
  := by
  have hpair := List.pairwise_pair.mp (durations_forward run_callsAroundWrap)
  refine ⟨_, _, _, run_callsAroundWrap, rfl, rfl, ?_⟩
  apply hpair
  decide

/-! ### A call that is too old -/

/-- A call in the last microsecond of a period, while the wrap before it is still pending, and
a call 2^31 - 1 microseconds later. -/
def staleCall : List TimeAction :=
  List.flatten [List.replicate counterMax .tick, [.tick], List.replicate counterMax .tick,
    [.call, .read, .read, .handler, .read, .read], (List.replicate 32767 period).flatten,
    [.tick, .handler], List.replicate (counterMax - 1) .tick, [.call, .read, .read, .read, .read]]

/-- The last microsecond of the period after the first wrap, which is pending. -/
def pending : Clock := ⟨counterMax, true, 0, 0, counterMax + 1 + counterMax, 0⟩

/-- The last microsecond but one of a period. -/
def lastButOne (n : ℕ) : Clock :=
  ⟨counterMax - 1, false, .ofNat (counterMax * n), 0, (counterMax + 1) * n + (counterMax - 1), n⟩

theorem run_staleCall :
  run step init staleCall = some ⟨lastButOne 32769, .idle,
    [⟨pending, pending, pending, last 1, last 1, rfl⟩,
      ⟨lastButOne 32769, lastButOne 32769, lastButOne 32769, lastButOne 32769, lastButOne 32769,
        rfl⟩]⟩
  := by
  have hinit : init = ⟨first 0, .idle, []⟩ := rfl
  have hwrap : run step ⟨last 0, .idle, []⟩ [.tick]
      = some ⟨{ pending with cnt := 0, ticks := counterMax + 1 }, .idle, []⟩ := rfl
  have hpending : run step ⟨{ pending with cnt := 0, ticks := counterMax + 1 }, .idle, []⟩
      (List.replicate counterMax .tick) = some ⟨pending, .idle, []⟩ := by
    rw [run_ticks _ _ (Nat.le_of_eq (Nat.zero_add counterMax)), Nat.zero_add]
    rfl
  have hcall : run step ⟨pending, .idle, []⟩ [.call, .read, .read, .handler, .read, .read]
      = some ⟨last 1, .idle, [⟨pending, pending, pending, last 1, last 1, rfl⟩]⟩ := rfl
  have hperiods (calls : List Reads) : run step ⟨last 1, .idle, calls⟩
      (List.replicate 32767 period).flatten = some ⟨last 32768, .idle, calls⟩ :=
    run_periods .idle 1 32767
  have hlast (calls : List Reads) : run step ⟨first 32769, .idle, calls⟩
      (List.replicate (counterMax - 1) .tick) = some ⟨lastButOne 32769, .idle, calls⟩ := by
    rw [run_ticks _ _ (by decide), lastButOne, first]
    simp only [Nat.zero_add]
  rw [staleCall, List.flatten_cons, run_append, hinit, run_first, Option.bind_some,
    List.flatten_cons, run_append, hwrap, Option.bind_some,
    List.flatten_cons, run_append, hpending, Option.bind_some,
    List.flatten_cons, run_append, hcall, Option.bind_some,
    List.flatten_cons, run_append, hperiods, Option.bind_some,
    List.flatten_cons, run_append, run_wrap, Option.bind_some,
    List.flatten_cons, run_append, hlast, Option.bind_some, List.flatten_singleton]
  apply run_call

/-- The first of these calls returns the time of the wrap, which is too old, and the duration
to the second does not fit. -/
theorem staleCall_not_forward :
  ∃ s c₁ c₂, run step init staleCall = some s ∧ s.calls = [c₁, c₂] ∧
    c₁.span c₂ < 2 ^ 31 ∧ ¬ c₁.Forward c₂
  := by
  refine ⟨_, _, _, run_staleCall, rfl, ?_, ?_⟩
  · decide
  · decide

end Timekeeping

end CanDongle

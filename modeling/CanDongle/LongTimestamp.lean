import CanDongle.Timestamp

/-!
# Long timestamps

`ltimestamp_get` makes the reads of `timestamp_get`, and one of `time_us_high` after the first
of `time_us_low`.  It carries into the high word only where it has seen the low word wrap
around itself: the handler never does.  So long timestamps are in order until the low word
wraps around, and go back by 2^32 microseconds then.

The machine of `timestamp_get` simulates this one, resting while `time_us_high` is read, and the
moments of a call are in order by what is known of that machine.
-/

open Transition Wraparound

namespace CanDongle

/-- What `ltimestamp_get` returns for what it has read. -/
def ltimestampGet (t1 th tim t2 : UInt32) : UInt64 :=
  if t2 ≠ t1 then
    if t2 < t1 then
      ((th + 1).toUInt64 <<< 32) + t2.toUInt64
    else
      (th.toUInt64 <<< 32) + t2.toUInt64
  else
    (th.toUInt64 <<< 32) + t1.toUInt64 + tim.toUInt64

/-- The moments of a call of `ltimestamp_get`: those of a call of `timestamp_get`, and the read
of `time_us_high`. -/
structure LongReads extends Reads where
  high : Clock

/-- What the call returns. -/
def LongReads.value (c : LongReads) : UInt64 :=
  ltimestampGet c.first.timeUsLow c.high.timeUsHigh (.ofNat c.counter.cnt) c.second.timeUsLow

/-- The next read of the thread. -/
inductive LongReader where
  /-- Outside of `ltimestamp_get`. -/
  | idle
  /-- The first read of `time_us_low`. -/
  | low (start : Clock)
  /-- The read of `time_us_high`. -/
  | high (start first : Clock)
  /-- The read of CNT. -/
  | cnt (start first high : Clock)
  /-- The reads of SR. -/
  | sr (start first high counter : Clock)
  /-- The second read of `time_us_low`. -/
  | lowAgain (start first high counter flag : Clock) (flag_clear : flag.uif = false)

/-- The clock, a thread that reads it, and the calls of the thread that have returned. -/
structure LongTimekeeping where
  clock : Clock
  reader : LongReader
  calls : List LongReads

/-- What happens next: what may happen to a thread in `timestamp_get`, or the read of
`time_us_high`. -/
inductive LongTimeAction where
  | time (a : TimeAction)
  | readHigh

namespace LongTimekeeping

/-- After `timestamp_stm32_init`. -/
def init : LongTimekeeping := ⟨.init, .idle, []⟩

/-- The next read of the thread, other than that of `time_us_high`. -/
def read (s : LongTimekeeping) : Option LongTimekeeping :=
  match s.reader with
  | .idle | .high .. => none
  | .low start => some { s with reader := .high start s.clock }
  | .cnt start first high => some { s with reader := .sr start first high s.clock }
  | .sr start first high counter =>
      if h : s.clock.uif = false then
        some { s with reader := .lowAgain start first high counter s.clock h }
      else
        some s
  | .lowAgain start first high counter flag h =>
      some { s with
        reader := .idle
        calls := s.calls ++ [⟨⟨start, first, counter, flag, s.clock, h⟩, high⟩] }

/-- Take an action. -/
def step (s : LongTimekeeping) : LongTimeAction → Option LongTimekeeping
  | .time .tick => s.clock.tick.map fun clock => { s with clock := clock }
  | .time .handler => s.clock.handler.map fun clock => { s with clock := clock }
  | .time .call =>
      match s.reader with
      | .idle => some { s with reader := .low s.clock }
      | _ => none
  | .time .read => s.read
  | .readHigh =>
      match s.reader with
      | .high start first => some { s with reader := .cnt start first s.clock }
      | _ => none

/-- A later call does not return less. -/
def InOrder (c₁ c₂ : LongReads) : Prop := c₁.value ≤ c₂.value

instance (c₁ c₂ : LongReads) : Decidable (InOrder c₁ c₂) :=
  inferInstanceAs (Decidable (c₁.value ≤ c₂.value))

/-- The low word of a call is what `timestamp_get` returns for the same reads. -/
def LowAgrees (c : LongReads) : Prop := c.value.toUInt32 = c.toReads.result

/-- The handler does not make `time_us_low` wrap around. -/
def NoCarry (s : LongTimekeeping) (a : LongTimeAction) : Prop :=
  a = .time .handler → s.clock.timeUsLow.toNat + counterMax < 2 ^ 32

end LongTimekeeping

/-! ### The words -/

/-- The low word of a long timestamp is the timestamp. -/
theorem toUInt32_ltimestampGet (t1 th tim t2 : UInt32) :
  (ltimestampGet t1 th tim t2).toUInt32 = timestampGet t1 tim t2
  := by
  unfold ltimestampGet timestampGet
  split
  case isTrue =>
    split
    case isTrue => rw [toUInt32_shiftLeft_add, UInt32.toUInt32_toUInt64]
    case isFalse => rw [toUInt32_shiftLeft_add, UInt32.toUInt32_toUInt64]
  case isFalse =>
    rw [UInt64.add_assoc, toUInt32_shiftLeft_add, UInt64.toUInt32_add, UInt32.toUInt32_toUInt64,
      UInt32.toUInt32_toUInt64]

/-- While the high word is zero, a call that has not seen the low word wrap around adds the words it
has read as numbers. -/
theorem toNat_ltimestampGet {t1 tim t2 : UInt32} (h : ¬ t2 < t1) :
  (ltimestampGet t1 0 tim t2).toNat = if t2 ≠ t1 then t2.toNat else t1.toNat + tim.toNat
  := by
  have ht1 := t1.toNat_lt
  have htim := tim.toNat_lt
  have hzero : (0 : UInt32).toUInt64 <<< 32 = 0 := rfl
  rw [ltimestampGet, if_neg h, hzero, UInt64.zero_add, UInt64.zero_add]
  split
  case isTrue => apply UInt32.toNat_toUInt64
  case isFalse =>
    rw [UInt64.toNat_add, UInt32.toNat_toUInt64, UInt32.toNat_toUInt64,
      Nat.mod_eq_of_lt (by omega)]

/-! ### The machine of `timestamp_get` -/

/-- The next read of a thread that skips `time_us_high`. -/
def LongReader.toReader : LongReader → Reader
  | .idle => .idle
  | .low start => .low start
  | .high start first => .cnt start first
  | .cnt start first _ => .cnt start first
  | .sr start first _ counter => .sr start first counter
  | .lowAgain start first _ counter flag h => .lowAgain start first counter flag h

/-- The action of a thread that skips `time_us_high`. -/
def LongTimeAction.toTimeAction : LongTimeAction → Option TimeAction
  | .time a => some a
  | .readHigh => none

namespace LongTimekeeping

/-- The thread that skips `time_us_high`. -/
def toTimekeeping (s : LongTimekeeping) : Timekeeping :=
  ⟨s.clock, s.reader.toReader, s.calls.map LongReads.toReads⟩

variable {s s' : LongTimekeeping}

/-- A read is one of the thread that skips `time_us_high`. -/
theorem toTimekeeping_read (h : s.read = some s') :
  s.toTimekeeping.read = some s'.toTimekeeping
  := by
  obtain ⟨clock, reader, calls⟩ := s
  cases reader with
  | idle => cases h
  | low start =>
      cases h
      rfl
  | high start first => cases h
  | cnt start first high =>
      cases h
      rfl
  | sr start first high counter =>
      simp only [read] at h
      split at h
      case isTrue huif =>
        cases h
        exact dif_pos huif
      case isFalse huif =>
        cases h
        exact dif_neg huif
  | lowAgain start first high counter flag hflag =>
      cases h
      simp [toTimekeeping, LongReader.toReader, Timekeeping.read]

/-- A thread that reads `time_us_high` is simulated by one that skips it. -/
theorem simulation :
  Simulation step Timekeeping.step LongTimeAction.toTimeAction fun s t => s.toTimekeeping = t
  := by
  rintro s a s' t rfl hstep
  refine ⟨_, ?_, rfl⟩
  cases a with
  | time a =>
      rw [LongTimeAction.toTimeAction, Option.toList_some, run_singleton]
      cases a with
      | tick =>
          obtain ⟨clock, htick, rfl⟩ := Option.map_eq_some_iff.mp hstep
          apply Option.map_eq_some_iff.mpr
          exact ⟨clock, htick, rfl⟩
      | handler =>
          obtain ⟨clock, hhandler, rfl⟩ := Option.map_eq_some_iff.mp hstep
          apply Option.map_eq_some_iff.mpr
          exact ⟨clock, hhandler, rfl⟩
      | call =>
          obtain ⟨clock, reader, calls⟩ := s
          cases reader with
          | idle =>
              cases hstep
              rfl
          | _ => cases hstep
      | read => apply toTimekeeping_read hstep
  | readHigh =>
      obtain ⟨clock, reader, calls⟩ := s
      cases reader with
      | high start first =>
          cases hstep
          rfl
      | _ => cases hstep

/-- What is known of the thread that skips `time_us_high` holds in every run. -/
theorem run_toTimekeeping {acts : List LongTimeAction} (h : run step init acts = some s) :
  run Timekeeping.step Timekeeping.init (acts.filterMap LongTimeAction.toTimeAction)
    = some s.toTimekeeping
  := by
  have hinit : init.toTimekeeping = Timekeeping.init := rfl
  obtain ⟨t, hrun, rfl⟩ := simulation.run hinit h
  apply hrun

end LongTimekeeping

/-! ### The high word -/

/-- The moments at which the call has read `time_us_high`. -/
def LongReader.highs : LongReader → List Clock
  | .idle | .low _ | .high _ _ => []
  | .cnt _ _ t | .sr _ _ t _ | .lowAgain _ _ t _ _ _ => [t]

namespace LongTimekeeping

/-- The moments at which the calls have read `time_us_high`. -/
def highs (s : LongTimekeeping) : List Clock := s.calls.map LongReads.high ++ s.reader.highs

variable {s s' : LongTimekeeping}

theorem highs_read (h : s.read = some s') :
  s'.clock = s.clock ∧ s'.highs = s.highs
  := by
  obtain ⟨clock, reader, calls⟩ := s
  cases reader with
  | idle | high => cases h
  | low | cnt =>
      cases h
      exact ⟨rfl, rfl⟩
  | sr start first high counter =>
      simp only [read] at h
      split at h
      case isTrue =>
        cases h
        exact ⟨rfl, rfl⟩
      case isFalse =>
        cases h
        exact ⟨rfl, rfl⟩
  | lowAgain start first high counter flag hflag =>
      cases h
      simp [highs, LongReader.highs]

/-- A step moves the clock, or it may record the moment of a read of `time_us_high`. -/
theorem step_cases (a : LongTimeAction) (hstep : s.step a = some s') :
  (a = .time .tick ∧ s.clock.tick = some s'.clock ∧ s'.highs = s.highs) ∨
    (a = .time .handler ∧ s.clock.handler = some s'.clock ∧ s'.highs = s.highs) ∨
    (s'.clock = s.clock ∧ (s'.highs = s.highs ∨ s'.highs = s.highs ++ [s.clock]))
  := by
  cases a with
  | time a =>
      cases a with
      | tick =>
          obtain ⟨clock, htick, rfl⟩ := Option.map_eq_some_iff.mp hstep
          exact .inl ⟨rfl, htick, rfl⟩
      | handler =>
          obtain ⟨clock, hhandler, rfl⟩ := Option.map_eq_some_iff.mp hstep
          exact .inr (.inl ⟨rfl, hhandler, rfl⟩)
      | call =>
          obtain ⟨clock, reader, calls⟩ := s
          cases reader with
          | idle =>
              cases hstep
              exact .inr (.inr ⟨rfl, .inl rfl⟩)
          | _ => cases hstep
      | read =>
          obtain ⟨hclock, hhighs⟩ := highs_read hstep
          exact .inr (.inr ⟨hclock, .inl hhighs⟩)
  | readHigh =>
      obtain ⟨clock, reader, calls⟩ := s
      cases reader with
      | high start first =>
          cases hstep
          refine .inr (.inr ⟨rfl, .inr ?_⟩)
          simp [highs, LongReader.highs]
      | _ => cases hstep

/-- The high word is zero, and every call has read it so. -/
structure HighZero (s : LongTimekeeping) : Prop where
  clock : s.clock.timeUsHigh = 0
  highs : ∀ t ∈ s.highs, t.timeUsHigh = 0

/-- Nothing is ever added to the high word. -/
theorem highZero_step (a : LongTimeAction) (h : HighZero s) (hstep : s.step a = some s') :
  HighZero s'
  := by
  rcases step_cases a hstep with ⟨-, htick, hhighs⟩ | ⟨-, hhandler, hhighs⟩ | ⟨hclock, hhighs⟩
  · refine ⟨?_, hhighs ▸ h.highs⟩
    rw [(Clock.tick_spec htick).2.2]
    apply h.clock
  · refine ⟨?_, hhighs ▸ h.highs⟩
    rw [(Clock.handler_spec hhandler).2.2]
    apply h.clock
  · refine ⟨hclock ▸ h.clock, ?_⟩
    rcases hhighs with hhighs | hhighs
    · rw [hhighs]
      apply h.highs
    · rw [hhighs, List.forall_mem_append, List.forall_mem_singleton]
      exact ⟨h.highs, h.clock⟩

theorem highZero_of_run {acts : List LongTimeAction} (h : run step init acts = some s) :
  HighZero s
  := by
  apply run_invariant (fun s a s' hs hstep => highZero_step a hs hstep) _ h
  exact ⟨rfl, by simp [init, highs, LongReader.highs]⟩

/-! ### The low word -/

/-- The low word has not wrapped around. -/
structure LowWithin (s : LongTimekeeping) : Prop where
  counts : s.clock.Counts
  lt : counterMax * s.clock.handled < 2 ^ 32

theorem lowWithin_step (a : LongTimeAction) (h : LowWithin s) (hstep : s.step a = some s')
    (hcarry : NoCarry s a) :
  LowWithin s'
  := by
  rcases step_cases a hstep with ⟨-, htick, -⟩ | ⟨rfl, hhandler, -⟩ | ⟨hclock, -⟩
  · refine ⟨(h.counts.tick htick).1, ?_⟩
    rw [(Clock.tick_spec htick).2.1]
    apply h.lt
  · refine ⟨(h.counts.handler hhandler).1, ?_⟩
    have hlow := hcarry rfl
    rw [h.counts.toNat_timeUsLow h.lt] at hlow
    rw [(Clock.handler_spec hhandler).2.1, Nat.mul_succ]
    apply hlow
  · refine ⟨hclock ▸ h.counts, ?_⟩
    rw [hclock]
    apply h.lt

/-- A run in which nothing is carried keeps the low word from wrapping around. -/
theorem lowWithin_of_run {acts : List LongTimeAction} (h : run step init acts = some s)
    (hcarry : Along step (fun s a _ => NoCarry s a) init acts) :
  LowWithin s
  := by
  apply run_invariant_of_along (fun s a s' hs hstep => lowWithin_step a hs hstep) _ hcarry h
  exact ⟨Clock.counts_init, by decide⟩

end LongTimekeeping

/-! ### The calls -/

/-- Until the low word wraps around, a call returns its reading. -/
theorem LongReads.toNat_value {c : LongReads} (h : c.toReads.Ordered)
    (hhigh : c.high.timeUsHigh = 0) (hlt : counterMax * c.second.handled < 2 ^ 32) :
  c.value.toNat = c.reading
  := by
  have hle := Nat.mul_le_mul_left counterMax h.first_le_second.handled_le
  have hfirst := h.first.toNat_timeUsLow (Nat.lt_of_le_of_lt hle hlt)
  have hsecond := h.second.toNat_timeUsLow hlt
  have hnot : ¬ c.second.timeUsLow < c.first.timeUsLow := by
    rw [UInt32.not_lt, UInt32.le_iff_toNat_le, hfirst, hsecond]
    apply hle
  have hcounter := h.counter.cnt_le
  have hcnt : (UInt32.ofNat c.counter.cnt).toNat = c.counter.cnt := by
    unfold counterMax at hcounter
    rw [UInt32.toNat_ofNat', Nat.mod_eq_of_lt (by omega)]
  rw [value, hhigh, toNat_ltimestampGet hnot, Reads.reading, hfirst, hsecond, hcnt]
  by_cases hhandled : c.second.handled = c.first.handled
  · have heq : c.second.timeUsLow = c.first.timeUsLow := by
      apply UInt32.toNat_inj.mp
      rw [hfirst, hsecond, hhandled]
    rw [if_neg (not_not.mpr heq), if_neg (not_not.mpr hhandled)]
  · have hne : c.second.timeUsLow ≠ c.first.timeUsLow := by
      intro heq
      have hmul := congrArg UInt32.toNat heq
      rw [hfirst, hsecond] at hmul
      exact hhandled (Nat.eq_of_mul_eq_mul_left (by decide) hmul)
    rw [if_pos hne, if_pos hhandled]

namespace LongTimekeeping

variable {s s' : LongTimekeeping} {clock clock' : Clock} {calls : List LongReads}

/-- The timer and its handler run here as they do under `timestamp_get`. -/
theorem run_time {acts : List TimeAction} (hacts : ∀ a ∈ acts, a = .tick ∨ a = .handler)
    (h : run Timekeeping.step ⟨clock, .idle, []⟩ acts = some ⟨clock', .idle, []⟩) :
  run step ⟨clock, .idle, calls⟩ (acts.map .time) = some ⟨clock', .idle, calls⟩
  := by
  induction acts generalizing clock with
  | nil =>
      cases h
      rfl
  | cons a acts ih =>
      have hrest : ∀ b ∈ acts, b = .tick ∨ b = .handler := fun b hb =>
        hacts b (List.mem_cons_of_mem a hb)
      obtain ⟨t, hstep, hrun⟩ := Option.bind_eq_some_iff.mp h
      rcases hacts a List.mem_cons_self with rfl | rfl
      · obtain ⟨clock₁, htick, rfl⟩ := Option.map_eq_some_iff.mp hstep
        rw [List.map_cons, run, step, htick]
        apply ih hrest hrun
      · obtain ⟨clock₁, hhandler, rfl⟩ := Option.map_eq_some_iff.mp hstep
        rw [List.map_cons, run, step, hhandler]
        apply ih hrest hrun

/-- A call of `ltimestamp_get`. -/
def callLong : List LongTimeAction :=
  [.time .call, .time .read, .readHigh, .time .read, .time .read, .time .read]

/-- A call whose reads all fall on one moment. -/
theorem run_call (h : clock.uif = false) :
  run step ⟨clock, .idle, calls⟩ callLong
    = some ⟨clock, .idle, calls ++ [⟨⟨clock, clock, clock, clock, clock, h⟩, clock⟩]⟩
  := by
  simp [callLong, run, step, read, h]

/-- Long timestamps do not go back while the handler does not make the low word wrap around, and
their low words are always timestamps. -/
theorem values_inOrder {acts : List LongTimeAction} (h : run step init acts = some s) :
  (∀ c ∈ s.calls, LowAgrees c) ∧
    (Along step (fun s a _ => NoCarry s a) init acts → s.calls.Pairwise InOrder)
  := by
  constructor
  · intro c hc
    apply toUInt32_ltimestampGet
  · intro hcarry
    have hrun := run_toTimekeeping h
    have hchron := Timekeeping.chronological_calls hrun
    have hmem {c : LongReads} (hc : c ∈ s.calls) : c.toReads ∈ s.toTimekeeping.calls :=
      List.mem_map_of_mem hc
    have hvalue : ∀ c ∈ s.calls, c.value.toNat = c.reading := by
      intro c hc
      apply LongReads.toNat_value
      · apply Reads.ordered_of_mem hchron (hmem hc)
      · apply (highZero_of_run h).highs
        apply List.mem_append_left
        apply List.mem_map_of_mem hc
      · have hbefore := Timekeeping.second_before hrun (hmem hc)
        apply Nat.lt_of_le_of_lt _ (lowWithin_of_run h hcarry).lt
        apply Nat.mul_le_mul_left counterMax hbefore.handled_le
    apply (List.pairwise_map.mp (Timekeeping.calls_before hrun)).imp_of_mem
    intro c₁ c₂ hc₁ hc₂ hbefore
    rw [InOrder, UInt64.le_iff_toNat_le, hvalue c₁ hc₁, hvalue c₂ hc₂]
    apply (Reads.ordered_of_mem hchron (hmem hc₁)).reading_le
      (Reads.ordered_of_mem hchron (hmem hc₂)) hbefore

/-- A call before the first wrap. -/
def callBeforeWrap : List LongTimeAction :=
  (List.replicate counterMax TimeAction.tick).map .time ++ callLong ++ [.time .tick]

/-- The handler runs, and then there is another call. -/
def callsAroundWrap : List LongTimeAction := callBeforeWrap ++ .time .handler :: callLong

theorem run_callBeforeWrap :
  run step init callBeforeWrap = some ⟨⟨0, true, 0, 0, counterMax + 1, 0⟩, .idle,
    [⟨⟨Timekeeping.last 0, Timekeeping.last 0, Timekeeping.last 0, Timekeeping.last 0,
      Timekeeping.last 0, rfl⟩, Timekeeping.last 0⟩]⟩
  := by
  have hticks : run step init ((List.replicate counterMax TimeAction.tick).map .time)
      = some ⟨Timekeeping.last 0, .idle, []⟩ :=
    run_time (fun a ha => .inl (List.eq_of_mem_replicate ha)) (Timekeeping.run_first .idle 0)
  have hlast : (Timekeeping.last 0).uif = false := rfl
  rw [callBeforeWrap, run_append, run_append, hticks, Option.bind_some, run_call hlast]
  rfl

/-- The handler runs once, and carries nothing. -/
theorem along_callsAroundWrap :
  Along step (fun s a _ => NoCarry s a) init callsAroundWrap
  := by
  have hfree {acts : List LongTimeAction} (hacts : .time .handler ∉ acts) (s : LongTimekeeping) :
      Along step (fun s a _ => NoCarry s a) s acts := by
    apply along_of_mem
    rintro a ha s s' rfl
    exact absurd ha hacts
  apply (hfree _ init).append
  · intro t hrun
    obtain rfl := Option.some.inj (run_callBeforeWrap.symm.trans hrun)
    intro s' _
    exact ⟨fun _ => by decide, hfree (by simp [callLong]) s'⟩
  · simp [callBeforeWrap, callLong]

theorem values_inOrder_callsAroundWrap :
  ∃ s c₁ c₂, run step init callsAroundWrap = some s ∧ s.calls = [c₁, c₂] ∧ s.clock.handled = 1 ∧
    InOrder c₁ c₂ ∧ LowAgrees c₁ ∧ LowAgrees c₂
  := by
  have hcall : run step ⟨⟨0, true, 0, 0, counterMax + 1, 0⟩, .idle,
      [⟨⟨Timekeeping.last 0, Timekeeping.last 0, Timekeeping.last 0, Timekeeping.last 0,
        Timekeeping.last 0, rfl⟩, Timekeeping.last 0⟩]⟩ (.time .handler :: callLong)
      = some ⟨_, _, [_, _]⟩ := rfl
  have hrun := run_append step init callBeforeWrap (.time .handler :: callLong)
  rw [run_callBeforeWrap, Option.bind_some, hcall] at hrun
  obtain ⟨hlow, horder⟩ := values_inOrder hrun
  refine ⟨_, _, _, hrun, rfl, rfl, List.pairwise_pair.mp (horder along_callsAroundWrap), ?_⟩
  exact ⟨hlow _ (by simp), hlow _ (by simp)⟩

/-! ### The wrap of the low word -/

/-- The ticks and runs of the handler until the low word is about to wrap around. -/
def untilWrap : List TimeAction :=
  List.replicate counterMax .tick ++ (List.replicate 65537 Timekeeping.period).flatten

/-- A call before the low word wraps around, and one after. -/
def wrappingCalls : List LongTimeAction :=
  List.flatten [untilWrap.map .time, callLong, [TimeAction.tick, .handler].map .time, callLong]

theorem mem_untilWrap {a : TimeAction} (ha : a ∈ untilWrap) :
  a = .tick ∨ a = .handler
  := by
  rcases List.mem_append.mp ha with ha | ha
  · exact .inl (List.eq_of_mem_replicate ha)
  · obtain ⟨period, hperiod, ha⟩ := List.mem_flatten.mp ha
    obtain rfl := List.eq_of_mem_replicate hperiod
    rcases List.mem_append.mp ha with ha | ha
    · simpa using ha
    · exact .inl (List.eq_of_mem_replicate ha)

theorem run_untilWrap :
  run Timekeeping.step ⟨.init, .idle, []⟩ untilWrap = some ⟨Timekeeping.last 65537, .idle, []⟩
  := by
  have hinit : Clock.init = Timekeeping.first 0 := rfl
  rw [untilWrap, run_append, hinit, Timekeeping.run_first, Option.bind_some,
    Timekeeping.run_periods]

theorem run_wrappingCalls :
  run step init wrappingCalls = some ⟨Timekeeping.first 65538, .idle,
    [⟨⟨Timekeeping.last 65537, Timekeeping.last 65537, Timekeeping.last 65537,
        Timekeeping.last 65537, Timekeeping.last 65537, rfl⟩, Timekeeping.last 65537⟩,
      ⟨⟨Timekeeping.first 65538, Timekeeping.first 65538, Timekeeping.first 65538,
        Timekeeping.first 65538, Timekeeping.first 65538, rfl⟩, Timekeeping.first 65538⟩]⟩
  := by
  have huntil : run step init (untilWrap.map .time)
      = some ⟨Timekeeping.last 65537, .idle, []⟩ :=
    run_time (fun _ => mem_untilWrap) run_untilWrap
  have hwrap (calls : List LongReads) :
      run step ⟨Timekeeping.last 65537, .idle, calls⟩ ([TimeAction.tick, .handler].map .time)
        = some ⟨Timekeeping.first 65538, .idle, calls⟩ :=
    run_time (by simp) (Timekeeping.run_wrap .idle 65537)
  have hlast : (Timekeeping.last 65537).uif = false := rfl
  have hfirst : (Timekeeping.first 65538).uif = false := rfl
  rw [wrappingCalls, List.flatten_cons, run_append, huntil, Option.bind_some,
    List.flatten_cons, run_append, run_call hlast, Option.bind_some,
    List.flatten_cons, run_append, hwrap, Option.bind_some, List.flatten_singleton]
  apply run_call hfirst

/-- The call after the wrap returns 2^32 less than it should, and so less than the one before. -/
theorem wrappingCalls_not_inOrder :
  ∃ s c₁ c₂, run step init wrappingCalls = some s ∧ s.calls = [c₁, c₂] ∧
    c₁.value = 0x10000FFFE ∧ c₂.value = 0xFFFE ∧ ¬ s.calls.Pairwise InOrder
  := by
  refine ⟨_, _, _, run_wrappingCalls, rfl, rfl, rfl, ?_⟩
  intro h
  have horder := List.pairwise_pair.mp h
  revert horder
  decide

end LongTimekeeping

end CanDongle

import CanDongle.Library.Wraparound

/-!
# The clock

The timer counts microseconds from 0 to 0xffff and wraps around, which sets the flag UIF;
its interrupt handler adds `COUNTER_MAX` to `time_us_low` and clears the flag.  The handler
runs before the next wrap.

The ticks since the start and the runs of the handler are counted, and not read by the code.
A clock has a reading, the number that its words stand for, which is never ahead of the ticks
and never goes back.
-/

open Wraparound

namespace CanDongle

/-- `COUNTER_MAX`. -/
def counterMax : ℕ := 0xffff

/-- The registers CNT and SR.UIF of the timer, and the variables of `timestamp_stm32.c`. -/
structure Clock where
  cnt : ℕ
  uif : Bool
  timeUsLow : UInt32
  timeUsHigh : UInt32
  /-- The ticks since the start. -/
  ticks : ℕ
  /-- The runs of the interrupt handler since the start. -/
  handled : ℕ
  deriving DecidableEq, Repr

namespace Clock

/-- `timestamp_stm32_init`. -/
def init : Clock := ⟨0, false, 0, 0, 0, 0⟩

/-- A tick of the timer.  It wraps around only when the last wrap has been handled. -/
def tick (s : Clock) : Option Clock :=
  if s.cnt < counterMax then
    some { s with cnt := s.cnt + 1, ticks := s.ticks + 1 }
  else if s.uif then
    none
  else
    some { s with cnt := 0, uif := true, ticks := s.ticks + 1 }

/-- The interrupt handler. -/
def handler (s : Clock) : Option Clock :=
  if s.uif then
    some { s with
      uif := false
      timeUsLow := s.timeUsLow + .ofNat counterMax
      handled := s.handled + 1 }
  else
    none

/-- The wraps of the timer, by the runs of its handler and the flag. -/
def wraps (s : Clock) : ℕ := s.handled + s.uif.toNat

/-- The registers and variables in terms of what is counted. -/
structure Counts (s : Clock) : Prop where
  cnt_le : s.cnt ≤ counterMax
  ticks_eq : s.ticks = (counterMax + 1) * s.wraps + s.cnt
  timeUsLow_eq : s.timeUsLow = .ofNat (counterMax * s.handled)

/-- The number the clock stands for.  While a wrap is pending it stands still. -/
def reading (s : Clock) : ℕ := counterMax * s.wraps + if s.uif then 0 else s.cnt

/-- The time since a wrap that is still pending. -/
def age (s : Clock) : ℕ := if s.uif then s.cnt else 0

/-- A moment is not before another. -/
structure Before (s t : Clock) : Prop where
  ticks_le : s.ticks ≤ t.ticks
  handled_le : s.handled ≤ t.handled

variable {s t u : Clock}

theorem Before.refl (s : Clock) :
  Before s s
  := ⟨Nat.le_refl _, Nat.le_refl _⟩

theorem Before.trans (h : Before s t) (h' : Before t u) :
  Before s u
  := ⟨Nat.le_trans h.ticks_le h'.ticks_le, Nat.le_trans h.handled_le h'.handled_le⟩

/-- A tick is counted, and leaves what the handler writes. -/
theorem tick_spec (hstep : s.tick = some t) :
  t.ticks = s.ticks + 1 ∧ t.handled = s.handled ∧ t.timeUsHigh = s.timeUsHigh
  := by
  unfold Clock.tick at hstep
  split at hstep
  case isTrue =>
    cases hstep
    exact ⟨rfl, rfl, rfl⟩
  case isFalse =>
    split at hstep
    case isTrue => cases hstep
    case isFalse =>
      cases hstep
      exact ⟨rfl, rfl, rfl⟩

/-- A run of the handler is counted, and leaves the high word. -/
theorem handler_spec (hstep : s.handler = some t) :
  t.ticks = s.ticks ∧ t.handled = s.handled + 1 ∧ t.timeUsHigh = s.timeUsHigh
  := by
  unfold Clock.handler at hstep
  split at hstep
  case isTrue =>
    cases hstep
    exact ⟨rfl, rfl, rfl⟩
  case isFalse => cases hstep

theorem counts_init :
  Counts init
  := ⟨by decide, by decide, rfl⟩

/-- A tick counts one microsecond. -/
theorem Counts.tick (h : Counts s) (hstep : s.tick = some t) :
  Counts t ∧ Before s t
  := by
  have hticks := h.ticks_eq
  unfold Clock.tick at hstep
  split at hstep
  case isTrue hlt =>
    cases hstep
    refine ⟨⟨hlt, ?_, h.timeUsLow_eq⟩, ⟨Nat.le_succ _, Nat.le_refl _⟩⟩
    change s.ticks + 1 = (counterMax + 1) * s.wraps + (s.cnt + 1)
    omega
  case isFalse hle =>
    split at hstep
    case isTrue => cases hstep
    case isFalse huif =>
      cases hstep
      refine ⟨⟨Nat.zero_le _, ?_, h.timeUsLow_eq⟩, ⟨Nat.le_succ _, Nat.le_refl _⟩⟩
      have hcnt : s.cnt = counterMax := Nat.le_antisymm h.cnt_le (Nat.not_lt.mp hle)
      have hwraps : s.wraps = s.handled := by simp [wraps, huif]
      change s.ticks + 1 = (counterMax + 1) * (s.handled + 1) + 0
      rw [hticks, hwraps, hcnt, Nat.mul_succ]
      rfl

/-- The handler adds a period to the low word. -/
theorem Counts.handler (h : Counts s) (hstep : s.handler = some t) :
  Counts t ∧ Before s t
  := by
  unfold Clock.handler at hstep
  split at hstep
  case isTrue huif =>
    cases hstep
    refine ⟨⟨h.cnt_le, ?_, ?_⟩, ⟨Nat.le_refl _, Nat.le_succ _⟩⟩
    · have hticks := h.ticks_eq
      rw [wraps, huif] at hticks
      apply hticks
    · change s.timeUsLow + .ofNat counterMax = .ofNat (counterMax * (s.handled + 1))
      rw [h.timeUsLow_eq, Nat.mul_succ, UInt32.ofNat_add]
  case isFalse => cases hstep

/-- A low word that has not wrapped around is what the handler has added. -/
theorem Counts.toNat_timeUsLow (h : Counts s) (hlt : counterMax * s.handled < 2 ^ 32) :
  s.timeUsLow.toNat = counterMax * s.handled
  := by
  rw [h.timeUsLow_eq, UInt32.toNat_ofNat', Nat.mod_eq_of_lt hlt]

/-- The wraps grow with the ticks. -/
theorem wraps_le (hs : Counts s) (ht : Counts t) (h : Before s t) :
  s.wraps ≤ t.wraps
  := by
  have hle := h.ticks_le
  have hcnt := ht.cnt_le
  rw [hs.ticks_eq, ht.ticks_eq] at hle
  unfold counterMax at hle hcnt
  omega

theorem reading_of_pending (h : s.uif = true) :
  s.reading = counterMax * s.wraps
  := by
  rw [reading, h]
  rfl

theorem reading_of_handled (h : s.uif = false) :
  s.reading = counterMax * s.wraps + s.cnt
  := by
  rw [reading, h]
  rfl

/-- The clock stands for at least its wraps, and for no more than one period above. -/
theorem reading_bounds (s : Clock) :
  counterMax * s.wraps ≤ s.reading ∧ s.reading ≤ counterMax * s.wraps + s.cnt
  := by
  unfold reading
  split <;> omega

/-- A wrap that is pending is counted in advance, and otherwise the counter is within a period. -/
theorem reading_le_succ (hs : Counts s) :
  s.reading ≤ counterMax * (s.handled + 1)
  := by
  have hcnt := hs.cnt_le
  cases huif : s.uif with
  | true =>
      rw [reading_of_pending huif, wraps, huif]
      apply Nat.le_refl
  | false =>
      rw [reading_of_handled huif, wraps, huif, Nat.mul_succ]
      apply Nat.add_le_add_left hcnt

/-- A wrap that is pending at a moment, and after which no handler has run, was pending before. -/
theorem uif_of_handled_eq (hs : Counts s) (ht : Counts t) (h : Before s t)
    (hhandled : s.handled = t.handled) (huif : s.uif = true) :
  t.uif = true
  := by
  have hwraps := wraps_le hs ht h
  rw [wraps, wraps, huif, hhandled] at hwraps
  cases hpending : t.uif with
  | true => rfl
  | false =>
      rw [hpending] at hwraps
      exact absurd hwraps (Nat.not_succ_le_self _)

/-- The reading never goes back. -/
theorem reading_le (hs : Counts s) (ht : Counts t) (h : Before s t) :
  s.reading ≤ t.reading
  := by
  obtain ⟨-, hs_le⟩ := reading_bounds s
  obtain ⟨ht_le, -⟩ := reading_bounds t
  rcases Nat.lt_or_ge s.wraps t.wraps with hlt | hge
  · have hcnt := hs.cnt_le
    calc s.reading ≤ counterMax * s.wraps + s.cnt := hs_le
      _ ≤ counterMax * (s.wraps + 1) := by rw [Nat.mul_succ]; omega
      _ ≤ counterMax * t.wraps := Nat.mul_le_mul_left _ hlt
      _ ≤ t.reading := ht_le
  · have hwraps : s.wraps = t.wraps := Nat.le_antisymm (wraps_le hs ht h) hge
    cases huif : t.uif with
    | true =>
        -- the wrap that is pending was pending before, and the clock stood still since
        have hpending : s.uif = true := by
          have hhandled := h.handled_le
          rw [wraps, wraps, huif] at hwraps
          cases hs : s.uif with
          | true => rfl
          | false =>
              rw [hs, Bool.toNat_true, Bool.toNat_false] at hwraps
              omega
        rw [reading_of_pending hpending, reading_of_pending huif, hwraps]
    | false =>
        have hcnt : s.cnt ≤ t.cnt := by
          have hticks := h.ticks_le
          rw [hs.ticks_eq, ht.ticks_eq, hwraps] at hticks
          omega
        rw [reading_of_handled huif, ← hwraps]
        apply Nat.le_trans hs_le (Nat.add_le_add_left hcnt _)

/-- The handler runs once for a wrap. -/
theorem handled_sub_le_of_lt (hs : Counts s) (ht : Counts t) (h : Before s t) {n : ℕ}
    (hshort : t.ticks - s.ticks < (counterMax + 1) * n) :
  t.handled - s.handled ≤ n + 1
  := by
  have hs_cnt := hs.cnt_le
  have hs_uif := s.uif.toNat_le
  have hle := h.ticks_le
  rw [hs.ticks_eq, ht.ticks_eq] at hshort hle
  unfold wraps counterMax at *
  omega

/-- The handler runs at most once a period. -/
theorem handled_sub_le (hs : Counts s) (ht : Counts t) (h : Before s t)
    (hshort : t.ticks - s.ticks < 2 ^ 32 - 2 ^ 18) :
  t.handled - s.handled ≤ 2 ^ 16
  := by
  have hfew : t.ticks - s.ticks < (counterMax + 1) * (2 ^ 16 - 1) := by
    unfold counterMax
    omega
  apply handled_sub_le_of_lt hs ht h hfew

/-- What the clock stands for, when no wrap is pending, is behind the ticks by one microsecond for
each run of the handler. -/
theorem reading_add_handled (hs : Counts s) (huif : s.uif = false) :
  s.reading + s.handled = s.ticks
  := by
  have hwraps : s.wraps = s.handled := by simp [wraps, huif]
  rw [reading_of_handled huif, hs.ticks_eq, hwraps, Nat.succ_mul]
  omega

/-- The clock loses one microsecond in each period, and what it lacks while a wrap is pending it
makes up for afterwards. -/
theorem reading_sub_lt (hs : Counts s) (ht : Counts t) (h : Before s t)
    (hspan : t.ticks - s.ticks + s.age < 2 ^ 31 + 2 ^ 15) :
  t.reading - s.reading < 2 ^ 31
  := by
  have ht_cnt := ht.cnt_le
  have hle := h.ticks_le
  obtain ⟨-, ht_le⟩ := reading_bounds t
  obtain ⟨hs_le, -⟩ := reading_bounds s
  have hs_eq : s.reading + s.age = counterMax * s.wraps + s.cnt := by
    unfold reading age
    split <;> omega
  rw [hs.ticks_eq, ht.ticks_eq] at hspan hle
  unfold counterMax at *
  rcases Nat.lt_or_ge (t.wraps - s.wraps) (2 ^ 15) with hfew | hmany
  · omega
  · omega

end Clock

end CanDongle

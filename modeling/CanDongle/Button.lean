import CanDongle.Timestamp
import Mathlib.Data.List.Chain

/-!
# The button

`user_button_poll` is called by the main loop, and toggles the power of the bus when the
button has been held for more than a second.  It keeps the timestamp of a poll that found the
button pressed, and compares it at later polls with the time then, both in 32 bits that wrap
around.

The history has the true time of each poll, of which the code sees the timestamp.  That the
duration from the first poll of a press is the true one rests on an invariant: a press which
has not yet toggled the power is at most a second old at the last poll, and the next poll is
not much later.
-/

open Transition Wraparound

namespace CanDongle

/-- The static variables of `user_button_poll`. -/
structure UserButton where
  lastPress : UInt32
  active : Bool
  deriving DecidableEq, Repr

/-- A call of `user_button_poll`: whether the button is pressed, and the true time. -/
structure Poll where
  pressed : Bool
  time : ℕ
  deriving DecidableEq, Repr

/-- What `timestamp_get` returns in a poll. -/
def Poll.timestamp (p : Poll) : UInt32 := .ofNat p.time

/-- A poll and the next one, whose timestamps, when both are taken, are less than 2^30
microseconds apart. -/
structure Poll.Follows (p q : Poll) : Prop where
  time_le : p.time ≤ q.time
  time_lt : p.pressed → q.pressed → q.time < p.time + 2 ^ 30

instance (p q : Poll) : Decidable (p.Follows q) :=
  decidable_of_iff (p.time ≤ q.time ∧ (p.pressed → q.pressed → q.time < p.time + 2 ^ 30))
    ⟨fun h => ⟨h.1, h.2⟩, fun h => ⟨h.time_le, h.time_lt⟩⟩

/-- A poll that is over, and whether it has called `bus_power_toggle`. -/
structure Polled extends Poll where
  toggled : Bool
  deriving DecidableEq, Repr

namespace UserButton

/-- At boot. -/
def init : UserButton := ⟨0, false⟩

/-- `user_button_poll`: whether it calls `bus_power_toggle`, and the variables after it.  A poll
takes at most one timestamp, which is `now`. -/
def userButtonPoll (pressed : Bool) (now : UInt32) (s : UserButton) : Bool × UserButton :=
  if pressed then
    if s.active ∧ 1000000 < timestampDurationUs s.lastPress now then
      (true, { s with active := false })
    else if ¬ s.active then
      (false, { s with active := true, lastPress := now })
    else
      (false, s)
  else
    (false, { s with active := false })

/-- One more poll. -/
def next (s : UserButton × List Polled) (p : Poll) : UserButton × List Polled :=
  let (toggled, button) := userButtonPoll p.pressed p.timestamp s.1
  (button, s.2 ++ [{ p with toggled := toggled }])

/-- The variables and the history after some polls. -/
def pollAll (polls : List Poll) : UserButton × List Polled := polls.foldl next (init, [])

/-- The history of some polls. -/
def history (polls : List Poll) : List Polled := (pollAll polls).2

/-- Polls of which the button is held, and none of which toggles the power. -/
def Held (l : List Polled) : Prop := ∀ q ∈ l, q.pressed = true ∧ q.toggled = false

/-- The power is toggled only at the end of a long press: after a poll that found the button
pressed more than a second before, since when it has been held and the power not toggled. -/
def AfterLongPress (past : List Polled) (x : Polled) : Prop :=
  x.toggled → x.pressed ∧ ∃ before p held, past = before ++ p :: held ∧ Held (p :: held) ∧
    p.time + 1000000 < x.time

/-- Toggles of the power are more than a second apart. -/
def TogglesApart (x y : Polled) : Prop := x.toggled → y.toggled → x.time + 1000000 < y.time

variable {polls : List Poll} {p x : Poll}

/-! ### The history -/

theorem pollAll_concat (polls : List Poll) (x : Poll) :
  pollAll (polls ++ [x]) = next (pollAll polls) x
  := List.foldl_concat next (init, []) x polls

/-- Every poll is in the history. -/
theorem history_toPoll (polls : List Poll) :
  (history polls).map Polled.toPoll = polls
  := by
  induction polls using List.reverseRecOn with
  | nil => rfl
  | append_singleton polls x ih =>
      rw [history, pollAll_concat, next, List.map_append]
      congr 1

/-- The last entry of the history is about the last poll. -/
theorem getLast_of_history {before held : List Polled} {p : Polled}
    (h : history polls = before ++ p :: held) :
  polls.getLast? = some ((p :: held).getLast (List.cons_ne_nil p held)).toPoll
  := by
  rw [← history_toPoll polls, h, List.getLast?_map, List.getLast?_append_of_ne_nil _
    (List.cons_ne_nil p held), List.getLast?_eq_getLast_of_ne_nil (List.cons_ne_nil p held)]
  rfl

/-- The polls of a history are in the order of their times. -/
theorem history_sorted (h : polls.IsChain Poll.Follows) :
  (history polls).Pairwise fun x y => x.time ≤ y.time
  := by
  have htimes : (polls.map Poll.time).IsChain (· ≤ ·) :=
    (List.isChain_map Poll.time).mpr (h.imp fun _ _ hpq => hpq.time_le)
  have hpolls : ((history polls).map Polled.toPoll).Pairwise fun p q => p.time ≤ q.time := by
    rw [history_toPoll]
    apply List.pairwise_map.mp htimes.pairwise
  apply List.pairwise_map.mp hpolls

/-! ### A press -/

/-- A press that has not toggled the power yet: the variable has the time of its first poll, and
the last one is at most a second later. -/
structure Press (s : UserButton) (first : Polled) (rest : List Polled) : Prop where
  held : Held (first :: rest)
  lastPress : s.lastPress = first.timestamp
  time_le : ∀ q ∈ first :: rest, first.time ≤ q.time ∧ q.time ≤ first.time + 1000000

section Press

variable {s : UserButton} {first : Polled} {rest : List Polled}

/-- A press begins. -/
theorem Press.start (x : Polled) (hpressed : x.pressed = true) (htoggled : x.toggled = false) :
  Press ⟨x.timestamp, true⟩ x []
  := by
  constructor
  · rw [Held, List.forall_mem_singleton]
    exact ⟨hpressed, htoggled⟩
  · rfl
  · rw [List.forall_mem_singleton]
    omega

/-- A press goes on. -/
theorem Press.concat (h : Press s first rest) {x : Polled} (hpressed : x.pressed = true)
    (htoggled : x.toggled = false) (hle : first.time ≤ x.time)
    (hx : x.time ≤ first.time + 1000000) :
  Press s first (rest ++ [x])
  := by
  constructor
  · rw [← List.cons_append, Held, List.forall_mem_append, List.forall_mem_singleton]
    exact ⟨h.held, hpressed, htoggled⟩
  · apply h.lastPress
  · rw [← List.cons_append, List.forall_mem_append, List.forall_mem_singleton]
    exact ⟨h.time_le, hle, hx⟩

/-- At the next poll that finds the button pressed, the press is long for the code when it is. -/
theorem Press.long_iff (h : Press s first rest)
    (hx : ((first :: rest).getLast (List.cons_ne_nil first rest)).toPoll.Follows x)
    (hpressed : x.pressed) :
  first.time ≤ x.time ∧
    (1000000 < timestampDurationUs s.lastPress x.timestamp ↔ first.time + 1000000 < x.time)
  := by
  have hlast := List.getLast_mem (List.cons_ne_nil first rest)
  obtain ⟨hle, hlt⟩ := h.time_le _ hlast
  have hx_le := hx.time_le
  have hx_lt := hx.time_lt (h.held _ hlast).1 hpressed
  have hduration : (timestampDurationUs s.lastPress x.timestamp).toInt
      = (x.time - first.time : ℕ) := by
    rw [timestampDurationUs, h.lastPress, Poll.timestamp, Poll.timestamp]
    apply toInt_sub
    · omega
    · omega
  have hsecond : (1000000 : Int32).toInt = 1000000 := rfl
  refine ⟨by omega, ?_⟩
  rw [Int32.lt_iff_toInt_lt, hduration, hsecond]
  omega

end Press

/-! ### Every poll -/

/-- A poll that finds the button still pressed toggles the power, and ends the press, when the
press is long. -/
theorem next_active (lastPress : UInt32) (past : List Polled) (time : ℕ) :
  next (⟨lastPress, true⟩, past) ⟨true, time⟩ =
    let long := decide (1000000 < timestampDurationUs lastPress (.ofNat time))
    (⟨lastPress, !long⟩, past ++ [⟨⟨true, time⟩, long⟩])
  := by
  by_cases hlong : 1000000 < timestampDurationUs lastPress (.ofNat time)
  · simp [next, userButtonPoll, Poll.timestamp, hlong]
  · simp [next, userButtonPoll, Poll.timestamp, hlong]

/-- The button is active during a press, and has toggled the power only after long ones. -/
structure Debounced (s : UserButton × List Polled) : Prop where
  press : s.1.active →
    ∃ before first rest, s.2 = before ++ first :: rest ∧ Press s.1 first rest
  longPress : Throughout AfterLongPress s.2

theorem debounced_init :
  Debounced (init, [])
  := ⟨fun h => Bool.noConfusion h, throughout_nil⟩

/-- A poll that does not toggle the power leaves the toggles as they were. -/
theorem Debounced.concat {s : UserButton × List Polled} (h : Debounced s) {x : Polled}
    (hx : x.toggled = false) :
  Throughout AfterLongPress (s.2 ++ [x])
  := by
  apply h.longPress.concat
  intro htoggled
  rw [hx] at htoggled
  cases htoggled

/-- A poll keeps the invariant. -/
theorem Debounced.next {s : UserButton × List Polled} (h : Debounced s)
    (hx : ∀ before first rest, s.2 = before ++ first :: rest →
      ((first :: rest).getLast (List.cons_ne_nil first rest)).toPoll.Follows x) :
  Debounced (next s x)
  := by
  obtain ⟨⟨lastPress, active⟩, past⟩ := s
  obtain ⟨pressed, time⟩ := x
  cases pressed with
  | false => exact ⟨fun h => Bool.noConfusion h, h.concat rfl⟩
  | true =>
      cases active with
      | false =>
          refine ⟨fun _ => ⟨past, _, [], rfl, ?_⟩, h.concat rfl⟩
          exact Press.start ⟨⟨true, time⟩, false⟩ rfl rfl
      | true =>
          obtain ⟨before, first, rest, rfl, hpress⟩ := h.press rfl
          obtain ⟨hle, hiff⟩ := hpress.long_iff (hx before first rest rfl) rfl
          rw [next_active]
          by_cases hlong : 1000000 < timestampDurationUs lastPress (.ofNat time)
          · rw [decide_eq_true hlong]
            refine ⟨fun h => Bool.noConfusion h, h.longPress.concat fun _ => ⟨rfl, ?_⟩⟩
            exact ⟨before, first, rest, rfl, hpress.held, hiff.mp hlong⟩
          · rw [decide_eq_false hlong]
            refine ⟨fun _ => ⟨before, first, rest ++ [_], List.append_assoc _ _ _, ?_⟩,
              h.concat rfl⟩
            apply hpress.concat rfl rfl hle
            apply Nat.le_of_not_lt
            apply mt hiff.mpr hlong

theorem debounced_pollAll (h : polls.IsChain Poll.Follows) :
  Debounced (pollAll polls)
  := by
  induction polls using List.reverseRecOn with
  | nil => apply debounced_init
  | append_singleton polls x ih =>
      obtain ⟨hpolls, -, hx⟩ := List.isChain_append.mp h
      rw [pollAll_concat]
      apply (ih hpolls).next
      intro before first rest heq
      apply hx _ (getLast_of_history heq) x rfl

/-- The button needs a long press.  Every toggle of the power is at a poll that finds the button
pressed, more than a second after another one since when it has been held and the power not
toggled, and so toggles are more than a second apart. -/
theorem toggles_need_longPress (h : polls.IsChain Poll.Follows) :
  (history polls).map Polled.toPoll = polls ∧ Throughout AfterLongPress (history polls) ∧
    (history polls).Pairwise TogglesApart
  := by
  have hpress : Throughout AfterLongPress (history polls) := (debounced_pollAll h).longPress
  have hsorted := history_sorted h
  refine ⟨history_toPoll polls, hpress, Throughout.pairwise ?_⟩
  intro past y future heq x hx hx_toggled hy_toggled
  obtain ⟨-, before, first, rest, rfl, hheld, hlong⟩ := hpress past y future heq hy_toggled
  rcases List.mem_append.mp hx with hx | hx
  · rw [heq, List.append_assoc] at hsorted
    have hle : x.time ≤ first.time :=
      (List.pairwise_append.mp hsorted).2.2 x hx first List.mem_cons_self
    omega
  · -- no toggle since the press began
    rw [(hheld x hx).2] at hx_toggled
    cases hx_toggled

/-- A press during which the timestamp wraps around: its second poll is not late enough. -/
def wrappingPress : List Poll := [⟨true, 4294000000⟩, ⟨true, 4295000000⟩, ⟨true, 4295000001⟩]

theorem toggles_need_longPress_wrapping :
  (history wrappingPress).map Polled.toPoll = wrappingPress ∧
    Throughout AfterLongPress (history wrappingPress) ∧
    (history wrappingPress).Pairwise TogglesApart ∧
    (history wrappingPress).map Polled.toggled = [false, false, true]
  := by
  have h : wrappingPress.IsChain Poll.Follows := by decide
  obtain ⟨hpolls, hpress, hapart⟩ := toggles_need_longPress h
  exact ⟨hpolls, hpress, hapart, rfl⟩

end UserButton

end CanDongle

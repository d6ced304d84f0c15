import CanDongle.Dongle.Step

/-!
# One call for each line

A computation that makes at most one call is its result, or a call and what it does with the
result.  `slcan_decode_line` is one, so what it does with any driver is what the steps of the
dongle do: the call it makes when its result is known, and then the rest.
-/

namespace CanDongle

/-- A computation that makes at most one call of the driver, of which it uses the result. -/
inductive OneCall (α : Type) where
  | result (a : Option α)
  | ask (call : DriverCall) (rest : Bool → Option α)

namespace OneCall

variable {α β σ : Type}

/-- Make the call with a driver. -/
def run (drv : Driver σ) : OneCall α → StateT σ Option α
  | result a => liftM a
  | ask call rest => drv call >>= fun success => liftM (rest success)

/-- The call that is made. -/
def called : OneCall α → Option DriverCall
  | result _ => none
  | ask call _ => some call

/-- The result, when the call returns `success`. -/
def finish (success : Bool) : OneCall α → Option α
  | result a => a
  | ask _ rest => rest success

/-- A computation that makes at most one call, whatever the driver. -/
def Makes (m : ∀ ⦃σ : Type⦄, Driver σ → StateT σ Option α) : Prop :=
  ∃ p : OneCall α, ∀ ⦃σ : Type⦄ (drv : Driver σ), m drv = p.run drv

/-- What makes no call makes at most one. -/
theorem makes_lift (a : Option α) :
  Makes fun _ _ => liftM a
  := ⟨result a, fun _ _ => rfl⟩

/-- A call whose result is used. -/
theorem makes_ask (call : DriverCall) (rest : Bool → Option α) :
  Makes fun _ drv => drv call >>= fun success => liftM (rest success)
  := ⟨ask call rest, fun _ _ => rfl⟩

/-- A choice that does not depend on the driver. -/
theorem makes_ite {p : Prop} [Decidable p] {m m' : ∀ ⦃σ : Type⦄, Driver σ → StateT σ Option α}
    (h : Makes m) (h' : Makes m') :
  Makes fun _ drv => if p then m drv else m' drv
  := by
  by_cases hp : p
  · simp only [if_pos hp]
    apply h
  · simp only [if_neg hp]
    apply h'

/-- What comes before a computation, and makes no call. -/
theorem makes_bind (a : Option β) {m : ∀ ⦃σ : Type⦄, β → Driver σ → StateT σ Option α}
    (h : ∀ b, Makes fun _ drv => m b drv) :
  Makes fun _ drv => liftM a >>= fun b => m b drv
  := by
  cases a with
  | none => exact ⟨result none, fun _ _ => rfl⟩
  | some b => exact h b

/-- A computation that makes no call. -/
theorem run_of_none {p : OneCall α} (h : p.called = none) (drv : Driver σ) (success : Bool)
    (s : σ) :
  p.run drv s = (p.finish success).map fun a => (a, s)
  := by
  cases p with
  | result a => cases a <;> rfl
  | ask call rest => cases h

/-- A computation that makes a call which returns. -/
theorem run_of_some {p : OneCall α} {call : DriverCall} (h : p.called = some call)
    {drv : Driver σ} {success : Bool} {s s' : σ} (hcall : drv call s = some (success, s')) :
  p.run drv s = (p.finish success).map fun a => (a, s')
  := by
  cases p with
  | result a => cases h
  | ask call rest =>
      cases h
      rw [run, bind_of_eq_some hcall, finish]
      cases rest success <;> rfl

/-- A computation that returns has made its call. -/
theorem exists_of_run {p : OneCall α} {call : DriverCall} (h : p.called = some call)
    {drv : Driver σ} {a : α} {s s' : σ} (hrun : p.run drv s = some (a, s')) :
  ∃ success, drv call s = some (success, s') ∧ p.finish success = some a
  := by
  cases p with
  | result a => cases h
  | ask call rest =>
      cases h
      obtain ⟨success, t, hcall, hrest⟩ := exists_of_bind_eq_some hrun
      use success
      cases hfinish : rest success with
      | none =>
          rw [hfinish] at hrest
          cases hrest
      | some b =>
          rw [hfinish] at hrest
          cases hrest
          exact ⟨hcall, hfinish⟩

theorem run_recorder (p : OneCall α) (success : Bool) :
  p.run (recorder fun _ _ => success) []
    = (p.finish success).map fun a => (a, p.called.toList)
  := by
  cases hcalled : p.called with
  | none => apply run_of_none hcalled
  | some call => apply run_of_some hcalled rfl

end OneCall

open OneCall

theorem makes_slcanSendFrame (line : Line) :
  Makes fun _ drv => slcanSendFrame drv line
  := by
  unfold slcanSendFrame
  apply makes_bind
  intro header
  cases header with
  | none => apply makes_lift
  | some header =>
      apply makes_bind
      intro c
      apply makes_ite
      · apply makes_lift
      · apply makes_bind
        intro data
        apply makes_ask

theorem makes_setBitrate (line : Line) :
  Makes fun _ drv => setBitrate drv line
  := by
  unfold setBitrate
  apply makes_ite
  · apply makes_lift
  · apply makes_bind
    intro bitrate
    apply makes_ask

/-- A command makes at most one call. -/
theorem makes_slcanDecodeLine (version : Version) (line : Line) :
  Makes fun _ drv => slcanDecodeLine drv version line
  := by
  unfold slcanDecodeLine
  split
  case h_1 => apply makes_slcanSendFrame
  case h_2 => apply makes_slcanSendFrame
  case h_3 => apply makes_slcanSendFrame
  case h_4 => apply makes_slcanSendFrame
  case h_5 => apply makes_setBitrate
  case h_6 => apply makes_ask
  case h_7 => apply makes_ask
  case h_8 => apply makes_ask
  case h_9 => apply makes_ask
  case h_10 => exact makes_bind _ fun (line, p) => makes_lift (slcanAck line p)
  case h_11 => exact makes_bind _ fun (line, p) => makes_lift (slcanAck line p)
  case h_12 => exact makes_bind _ fun line => makes_bind _ fun line => makes_lift (slcanAck line 0)
  case h_13 => apply makes_lift
  case h_14 => apply makes_ask
  case h_15 => apply makes_ask
  case h_16 => apply makes_lift

section Decode

variable (version : Version) (line : Line)

/-- Every command leaves something in the line buffer, and the call it makes is the one of its
request. -/
theorem exists_decoded (success : Bool) :
  ∃ line', decoded version line success = some line' ∧
    line'.text = (request version line).answer fun _ => success
  := by
  obtain ⟨line', hline, htext⟩ := slcanDecodeLine_recorder (fun _ _ => success) version line []
  use line'
  rw [decoded, hline]
  exact ⟨rfl, htext⟩

theorem calledBy_eq :
  calledBy version line = (request version line).calls.head?
  := by
  obtain ⟨line', hline, -⟩ := slcanDecodeLine_recorder (fun _ _ => true) version line []
  rw [calledBy, hline]
  rfl

/-- The command as a computation of at most one call. -/
theorem exists_oneCall :
  ∃ p : OneCall Line,
    (∀ {σ : Type} (drv : Driver σ), slcanDecodeLine drv version line = p.run drv) ∧
    calledBy version line = p.called ∧ ∀ success, decoded version line success = p.finish success
  := by
  obtain ⟨p, hp⟩ := makes_slcanDecodeLine version line
  have hrecorder (success : Bool) :
      slcanDecodeLine (recorder fun _ _ => success) version line []
        = (p.finish success).map fun line => (line, p.called.toList) :=
    (congrFun (hp _) []).trans (p.run_recorder success)
  have hdecoded (success : Bool) : decoded version line success = p.finish success := by
    rw [decoded, hrecorder]
    cases p.finish success <;> rfl
  refine ⟨p, fun drv => hp drv, ?_, hdecoded⟩
  obtain ⟨line', hline, -⟩ := exists_decoded version line true
  rw [hdecoded] at hline
  rw [calledBy, hrecorder, hline]
  cases p.called <;> rfl

variable {version line} {σ : Type} (drv : Driver σ)

/-- A command that makes no call does with any driver what it does with none. -/
theorem slcanDecodeLine_of_none (h : calledBy version line = none) (success : Bool) (s : σ) :
  slcanDecodeLine drv version line s = (decoded version line success).map fun line => (line, s)
  := by
  obtain ⟨p, hp, hcalled, hdecoded⟩ := exists_oneCall version line
  rw [hp, hdecoded]
  apply OneCall.run_of_none (hcalled.symm.trans h)

/-- A command that makes a call does with its result what it does with the one of the driver. -/
theorem slcanDecodeLine_of_some {call : DriverCall} (h : calledBy version line = some call)
    {success : Bool} {s s' : σ} (hcall : drv call s = some (success, s')) :
  slcanDecodeLine drv version line s = (decoded version line success).map fun line => (line, s')
  := by
  obtain ⟨p, hp, hcalled, hdecoded⟩ := exists_oneCall version line
  rw [hp, hdecoded]
  apply OneCall.run_of_some (hcalled.symm.trans h) hcall

/-- A command that is executed has made its call. -/
theorem exists_of_slcanDecodeLine {drv : Driver σ} {call : DriverCall}
    (h : calledBy version line = some call) {line' : Line} {s s' : σ}
    (hrun : slcanDecodeLine drv version line s = some (line', s')) :
  ∃ success, drv call s = some (success, s') ∧ decoded version line success = some line'
  := by
  obtain ⟨p, hp, hcalled, hdecoded⟩ := exists_oneCall version line
  rw [hp] at hrun
  obtain ⟨success, hcall, hfinish⟩ := OneCall.exists_of_run (hcalled.symm.trans h) hrun
  exact ⟨success, hcall, (hdecoded success).trans hfinish⟩

end Decode

end CanDongle

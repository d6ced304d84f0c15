import Mathlib.Data.List.Induction

/-!
# Runs of a machine

A machine is a partial function `step` from a state and an action to a state: an action
that cannot be taken yields `none`.  `run` takes actions one after the other.  A property
that every step keeps is kept by every run, and a condition on the steps taken along a run,
`Along`, may be exchanged for one that is equivalent to it in the states of an invariant.
Where each step is matched by a step of another machine, or by none, the runs are matched
by runs.

A machine may keep a history, a list of what it did.  `Throughout` is a property of each
entry of a history and of the entries before it.
-/

namespace Transition

variable {σ α : Type*}

/-- Take actions one after the other. -/
def run (step : σ → α → Option σ) : σ → List α → Option σ
  | s, [] => some s
  | s, a :: as => (step s a).bind fun s' => run step s' as

/-- A condition on a state, the action taken in it, and the next state, at every step along a
run. -/
def Along (step : σ → α → Option σ) (P : σ → α → σ → Prop) : σ → List α → Prop
  | _, [] => True
  | s, a :: as => ∀ s', step s a = some s' → P s a s' ∧ Along step P s' as

variable {step : σ → α → Option σ} {s s' : σ} {as bs : List α}

/-- A run that can be evaluated, with what is decided of the state after it. -/
theorem exists_run_of_any {P : σ → Prop} [DecidablePred P] (h : (run step s as).any (P ·) = true) :
  ∃ s', run step s as = some s' ∧ P s'
  := by
  obtain ⟨s', hs', hP⟩ := (Option.any_eq_true _ _).mp h
  exact ⟨s', hs', of_decide_eq_true hP⟩

theorem run_append (step : σ → α → Option σ) (s : σ) (as bs : List α) :
  run step s (as ++ bs) = (run step s as).bind fun s' => run step s' bs
  := by
  induction as generalizing s with
  | nil => rfl
  | cons a as ih =>
      rw [List.cons_append, run, run, Option.bind_assoc]
      congr 1
      funext s'
      apply ih

theorem run_singleton (step : σ → α → Option σ) (s : σ) (a : α) :
  run step s [a] = step s a
  := Option.bind_fun_some (step s a)

section Invariant

variable {Inv : σ → Prop}

/-- What every step of a run keeps, the run keeps. -/
theorem run_invariant_of_mem
    (hstep : ∀ s, ∀ a ∈ as, ∀ s', Inv s → step s a = some s' → Inv s') (hs : Inv s)
    (h : run step s as = some s') :
  Inv s'
  := by
  induction as generalizing s with
  | nil =>
      rw [run, Option.some.injEq] at h
      subst h
      apply hs
  | cons a as ih =>
      obtain ⟨t, ht, hrun⟩ := Option.bind_eq_some_iff.mp h
      have hmem (b : α) (hb : b ∈ as) : b ∈ a :: as := List.mem_cons_of_mem a hb
      apply ih (fun u b hb => hstep u b (hmem b hb)) (hstep s a List.mem_cons_self t hs ht) hrun

/-- What every step keeps, a run keeps. -/
theorem run_invariant (hstep : ∀ s a s', Inv s → step s a = some s' → Inv s') (hs : Inv s)
    (h : run step s as = some s') :
  Inv s'
  := run_invariant_of_mem (fun s a _ => hstep s a) hs h

/-- What every step that meets a condition keeps, a run keeps whose steps all meet it. -/
theorem run_invariant_of_along {P : σ → α → σ → Prop}
    (hstep : ∀ s a s', Inv s → step s a = some s' → P s a s' → Inv s') (hs : Inv s)
    (hP : Along step P s as) (h : run step s as = some s') :
  Inv s'
  := by
  induction as generalizing s with
  | nil =>
      rw [run, Option.some.injEq] at h
      subst h
      apply hs
  | cons a as ih =>
      obtain ⟨t, ht, hrun⟩ := Option.bind_eq_some_iff.mp h
      obtain ⟨hPt, hPas⟩ := hP t ht
      apply ih (hstep s a t hs ht hPt) hPas hrun

/-- A machine that takes every action in the states of an invariant runs for ever. -/
theorem exists_run (hstep : ∀ s a, Inv s → ∃ s', step s a = some s' ∧ Inv s') (hs : Inv s)
    (as : List α) :
  ∃ s', run step s as = some s' ∧ Inv s'
  := by
  induction as generalizing s with
  | nil => exact ⟨s, rfl, hs⟩
  | cons a as ih =>
      obtain ⟨t, ht, hinv⟩ := hstep s a hs
      obtain ⟨s', hrun, hinv'⟩ := ih hinv
      use s'
      rw [run, ht]
      exact ⟨hrun, hinv'⟩

end Invariant

/-- What becomes true along a run becomes true in one of its steps. -/
theorem exists_step {Q : σ → Prop} (hs : ¬ Q s) (hs' : Q s') (h : run step s as = some s') :
  ∃ before a after t t', as = before ++ a :: after ∧ run step s before = some t ∧
    step t a = some t' ∧ ¬ Q t ∧ Q t'
  := by
  induction as generalizing s with
  | nil =>
      obtain rfl := Option.some.inj h
      exact absurd hs' hs
  | cons a as ih =>
      obtain ⟨t, ht, hrun⟩ := Option.bind_eq_some_iff.mp h
      by_cases hQ : Q t
      · exact ⟨[], a, as, s, t, rfl, rfl, ht, hs, hQ⟩
      · obtain ⟨before, b, after, u, u', rfl, hu, hstep, hnot, hu'⟩ := ih hQ hrun
        refine ⟨a :: before, b, after, u, u', rfl, ?_, hstep, hnot, hu'⟩
        rw [run, ht, Option.bind_some, hu]

/-- A measure that the marked actions lower, and no action raises, until something is done, bounds
how many marked actions are taken before. -/
theorem done_or_countP_le {Inv Done : σ → Prop} {mark : α → Bool} {μ : σ → ℕ}
    (hinv : ∀ s a s', Inv s → step s a = some s' → Inv s')
    (hdone : ∀ s a s', Inv s → step s a = some s' → Done s → Done s')
    (hμ : ∀ s, ∀ a ∈ as, ∀ s', Inv s → step s a = some s' →
      Done s' ∨ μ s' + (mark a).toNat ≤ μ s)
    (hs : Inv s) (h : run step s as = some s') :
  Done s' ∨ as.countP mark + μ s' ≤ μ s
  := by
  induction as generalizing s with
  | nil =>
      obtain rfl := Option.some.inj h
      right
      simp
  | cons a as ih =>
      obtain ⟨t, ht, hrun⟩ := Option.bind_eq_some_iff.mp h
      have ht' := hinv s a t hs ht
      rcases hμ s a List.mem_cons_self t hs ht with hdone' | hle
      · left
        have hkept (u : σ) (b : α) (u' : σ) (hu : Inv u ∧ Done u) (hstep : step u b = some u') :
            Inv u' ∧ Done u' :=
          ⟨hinv u b u' hu.1 hstep, hdone u b u' hu.1 hstep hu.2⟩
        exact (run_invariant hkept ⟨ht', hdone'⟩ hrun).2
      · have hμ' (u : σ) (b : α) (hb : b ∈ as) := hμ u b (List.mem_cons_of_mem a hb)
        rcases ih hμ' ht' hrun with hdone' | hcount
        · exact .inl hdone'
        · right
          have hcons : (a :: as).countP mark = as.countP mark + (mark a).toNat := by
            rw [List.countP_cons]
            cases mark a <;> rfl
          omega

/-- A count that no step raises by more than one takes every value on its way. -/
theorem exists_value (count : σ → ℕ)
    (hstep : ∀ s a s', step s a = some s' → count s' ≤ count s + 1)
    (h : run step s as = some s') {k : ℕ} (hk : count s ≤ k) (hk' : k ≤ count s') :
  ∃ before after t, as = before ++ after ∧ run step s before = some t ∧ count t = k
  := by
  rcases Nat.eq_or_lt_of_le hk with heq | hlt
  · exact ⟨[], as, s, rfl, rfl, heq⟩
  · obtain ⟨before, a, after, t, t', rfl, hrun, ht, hnot, hreached⟩ :=
      exists_step (Q := fun t => k ≤ count t) (Nat.not_le.mpr hlt) hk' h
    have hone := hstep t a t' ht
    refine ⟨before ++ [a], after, t', (List.append_assoc before [a] after).symm, ?_, by omega⟩
    rw [run_append, hrun, Option.bind_some, run_singleton, ht]

/-- A condition that the actions meet in every state holds along a run of them. -/
theorem along_of_mem {P : σ → α → σ → Prop} (h : ∀ a ∈ as, ∀ s s', P s a s') :
  Along step P s as
  := by
  induction as generalizing s with
  | nil => trivial
  | cons a as ih =>
      intro s' _
      exact ⟨h a List.mem_cons_self s s', ih fun b hb => h b (List.mem_cons_of_mem a hb)⟩

/-- A condition along a run holds at each of its steps. -/
theorem Along.at_step {P : σ → α → σ → Prop} {a : α} {t t' : σ}
    (h : Along step P s (as ++ a :: bs)) (hrun : run step s as = some t)
    (hstep : step t a = some t') :
  P t a t'
  := by
  induction as generalizing s with
  | nil =>
      obtain rfl := Option.some.inj hrun
      exact (h t' hstep).1
  | cons b as ih =>
      obtain ⟨u, hu, hrun⟩ := Option.bind_eq_some_iff.mp hrun
      apply ih (h u hu).2 hrun

/-- A condition along a run, and along the rest of it. -/
theorem Along.append {P : σ → α → σ → Prop} (h : Along step P s as)
    (hrest : ∀ t, run step s as = some t → Along step P t bs) :
  Along step P s (as ++ bs)
  := by
  induction as generalizing s with
  | nil => apply hrest s rfl
  | cons a as ih =>
      intro s' hstep
      obtain ⟨ha, has⟩ := h s' hstep
      use ha
      apply ih has
      intro t hrun
      apply hrest t
      rw [run, hstep]
      exact hrun

/-- Conditions that are equivalent in the states of an invariant hold along the same runs, when
the steps that meet one of them keep the invariant. -/
theorem along_congr (Inv : σ → Prop) {P Q : σ → α → σ → Prop}
    (hstep : ∀ s a s', Inv s → step s a = some s' → P s a s' → Inv s')
    (hPQ : ∀ s a s', Inv s → step s a = some s' → (P s a s' ↔ Q s a s')) (hs : Inv s)
    (as : List α) :
  Along step P s as ↔ Along step Q s as
  := by
  induction as generalizing s with
  | nil => rfl
  | cons a as ih =>
      apply forall_congr'
      intro s'
      apply imp_congr_right
      intro h
      rw [← hPQ s a s' hs h]
      apply and_congr_right
      intro hP
      apply ih (hstep s a s' hs h hP)

/-! ### Simulations -/

section Simulation

variable {τ β : Type*}

/-- A machine is simulated by another, which takes a step for each action that has a label,
and rests for any other. -/
def Simulation (step : σ → α → Option σ) (step' : τ → β → Option τ) (label : α → Option β)
    (R : σ → τ → Prop) : Prop :=
  ∀ s a s' t, R s t → step s a = some s' → ∃ t', run step' t (label a).toList = some t' ∧ R s' t'

variable {step' : τ → β → Option τ} {label : α → Option β} {R : σ → τ → Prop} {t : τ}

/-- The runs of a machine that is simulated are runs of the other. -/
theorem Simulation.run (hsim : Simulation step step' label R) (hR : R s t)
    (h : Transition.run step s as = some s') :
  ∃ t', Transition.run step' t (as.filterMap label) = some t' ∧ R s' t'
  := by
  induction as generalizing s t with
  | nil =>
      obtain rfl := Option.some.inj h
      exact ⟨t, rfl, hR⟩
  | cons a as ih =>
      obtain ⟨u, hu, hrun⟩ := Option.bind_eq_some_iff.mp h
      obtain ⟨v, hv, hR⟩ := hsim s a u t hR hu
      obtain ⟨t', ht', hR⟩ := ih hR hrun
      have hlabels : (a :: as).filterMap label = (label a).toList ++ as.filterMap label := by
        cases hlabel : label a <;> simp [hlabel]
      use t'
      rw [hlabels, run_append, hv]
      exact ⟨ht', hR⟩

end Simulation

/-! ### Histories -/

section History

variable {ε : Type*} {P : List ε → ε → Prop} {history : List ε}

/-- A property of each entry of a history and of what was before it. -/
def Throughout (P : List ε → ε → Prop) (history : List ε) : Prop :=
  ∀ past x future, history = past ++ x :: future → P past x

theorem throughout_nil :
  Throughout P []
  := by
  intro past x future h
  simp at h

/-- An entry of a history and one more entry is the new one, or it was there before. -/
theorem concat_eq_append_cons {x y : ε} {past future : List ε}
    (h : history ++ [x] = past ++ y :: future) :
  (past = history ∧ y = x ∧ future = []) ∨ ∃ future', history = past ++ y :: future'
  := by
  cases future using List.reverseRecOn with
  | nil =>
      obtain ⟨rfl, hxy⟩ := List.append_inj' h rfl
      left
      simpa using hxy.symm
  | append_singleton future z =>
      right
      rw [← List.cons_append, ← List.append_assoc] at h
      exact ⟨future, (List.append_inj' h rfl).1⟩

/-- A history grows by one entry that has the property after it. -/
theorem Throughout.concat (h : Throughout P history) {x : ε} (hx : P history x) :
  Throughout P (history ++ [x])
  := by
  intro past y future heq
  rcases concat_eq_append_cons heq with ⟨rfl, rfl, -⟩ | ⟨future', rfl⟩
  · apply hx
  · apply h past y future' rfl

/-- What each entry of a history is to all the entries before it, the entries are to each other
in pairs. -/
theorem Throughout.pairwise {R : ε → ε → Prop}
    (h : Throughout (fun past y => ∀ x ∈ past, R x y) history) :
  history.Pairwise R
  := by
  induction history using List.reverseRecOn with
  | nil => exact List.Pairwise.nil
  | append_singleton history y ih =>
      apply List.pairwise_append.mpr
      refine ⟨ih ?_, List.pairwise_singleton R y, ?_⟩
      · intro past x future heq
        apply h past x (future ++ [y])
        rw [heq, List.append_assoc, List.cons_append]
      · intro x hx z hz
        obtain rfl := List.mem_singleton.mp hz
        apply h history z [] rfl x hx

/-- Properties that are equivalent for the entries of a history hold throughout together. -/
theorem Throughout.congr {P Q R : List ε → ε → Prop} (h : Throughout R history)
    (hPQ : ∀ past x, R past x → (P past x ↔ Q past x)) :
  Throughout P history ↔ Throughout Q history
  := by
  unfold Throughout
  apply forall_congr'
  intro past
  apply forall_congr'
  intro x
  apply forall_congr'
  intro future
  apply imp_congr_right
  intro heq
  apply hPQ past x (h past x future heq)

end History

end Transition

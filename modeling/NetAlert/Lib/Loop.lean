import Mathlib.Tactic

/-!
# NetAlert.Lib.Loop — loops with an iteration bound

`run step n s` iterates `step` at most `n` times; a step without a result leaves the loop.  An
invariant of the step holds at the end (`run_invariant`), and a quantity that no step lowers has not
fallen (`le_run`).  A loop that lowers a quantity comes to its end (`run_stops`).  Two loops whose steps are
related, or commute with a map, end in states that are so too (`run_rel`, `run_map`).
-/

namespace Loop

variable {σ : Type} {step : σ → Option σ}

def run (step : σ → Option σ) : ℕ → σ → σ
  | 0, s => s
  | n + 1, s =>
    match step s with
    | none => s
    | some s' => run step n s'

attribute [local simp] run

/-- A loop that is left at once, and one that goes round. -/
theorem run_of_none {s : σ} (h : step s = none) (n : ℕ) : run step n s = s := by
  cases n <;> simp [h]

theorem run_of_some {s s' : σ} (h : step s = some s') (n : ℕ) : run step (n + 1) s = run step n s' := by
  simp [h]

/-- **Invariant rule.** -/
theorem run_invariant (I : σ → Prop) (hstep : ∀ s s', I s → step s = some s' → I s') (n : ℕ) {s : σ}
    (h : I s) : I (run step n s) := by
  induction n generalizing s with
  | zero => exact h
  | succ n ih =>
    unfold run
    split
    · exact h
    · rename_i s' hs
      exact ih (hstep s s' h hs)

/-- A quantity that no step lowers is at the end at least what it was. -/
theorem le_run (step : σ → Option σ) (μ : σ → ℕ) (hstep : ∀ s s', step s = some s' → μ s ≤ μ s') (n : ℕ) (s : σ) :
    μ s ≤ μ (run step n s) :=
  run_invariant (fun s' => μ s ≤ μ s') (fun a b ha hb => ha.trans (hstep a b hb)) n le_rfl

/-- **Termination.**  A loop that lowers a quantity in every round comes to its end within that many rounds. -/
theorem run_stops (I : σ → Prop) (μ : σ → ℕ) (hstep : ∀ s s', I s → step s = some s' → I s' ∧ μ s' < μ s) {n : ℕ}
    {s : σ} (h : I s) (hn : μ s ≤ n) : step (run step n s) = none := by
  induction n generalizing s with
  | zero =>
    cases hs : step s with
    | none => exact hs
    | some s' =>
      have hlt := (hstep s s' h hs).2
      omega
  | succ n ih =>
    unfold run
    split
    · assumption
    · rename_i s' hs
      obtain ⟨h', hlt⟩ := hstep s s' h hs
      exact ih h' (by omega)

/-- **Two loops** that go round together, on the states that the first one reaches. -/
theorem run_rel {τ : Type} {step' : τ → Option τ} {R : σ → τ → Prop} (C : σ → Prop)
    (hstep : ∀ s t, R s t → C s → Option.Rel R (step s) (step' t)) (n : ℕ) {s : σ} {t : τ} (h : R s t)
    (hC : ∀ k < n, C (run step k s)) : R (run step n s) (run step' n t) := by
  induction n generalizing s t with
  | zero => exact h
  | succ n ih =>
    have hrel := hstep s t h (hC 0 n.succ_pos)
    unfold run
    cases hs : step s with
    | none =>
      rw [hs] at hrel
      generalize step' t = o at hrel
      cases hrel
      exact h
    | some s' =>
      rw [hs] at hrel
      generalize step' t = o at hrel
      cases hrel with
      | some hrel =>
        refine ih hrel fun k hk => ?_
        have hnext := hC (k + 1) (by omega)
        rw [run_of_some hs] at hnext
        exact hnext

/-- **Two loops** whose steps commute with a map of their states. -/
theorem run_map {τ : Type} {step' : τ → Option τ} (g : σ → τ) (hstep : ∀ s, step' (g s) = (step s).map g) (n : ℕ)
    (s : σ) : run step' n (g s) = g (run step n s) := by
  induction n generalizing s with
  | zero => rfl
  | succ n ih =>
    rw [run, run, hstep]
    cases step s with
    | none => rfl
    | some s' => exact ih s'

end Loop

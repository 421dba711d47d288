import Mathlib.Tactic

/-!
# NetAlert.Lib.Streak — unbroken runs of a property over time

A machine that waits for a property to hold for some time stores when the current streak began.
`Since q j k`: the streak of `q` that reaches `k` began at `j`.  `Quiet q k`: no streak reaches `k`.
-/

namespace Streak

/-- `q` holds from `j` on, up to but not at `k`. -/
def Holds (q : ℕ → Prop) (j k : ℕ) : Prop := ∀ i, j ≤ i → i < k → q i

def Quiet (q : ℕ → Prop) (k : ℕ) : Prop := ∀ j < k, ¬ Holds q j k

structure Since (q : ℕ → Prop) (j k : ℕ) : Prop where
  lt : j < k
  holds : Holds q j k
  first : ∀ i, Holds q i k → j ≤ i

variable {q : ℕ → Prop} {j k : ℕ}

theorem holds_succ (hj : j ≤ k) : Holds q j (k + 1) ↔ Holds q j k ∧ q k := by
  constructor
  · exact fun h => ⟨fun i h1 h2 => h i h1 (h2.trans (Nat.lt_succ_self k)), h k hj (Nat.lt_succ_self k)⟩
  · rintro ⟨h, hk⟩ i h1 h2
    rcases Nat.lt_succ_iff_lt_or_eq.mp h2 with h3 | rfl
    · exact h i h1 h3
    · exact hk

theorem quiet_zero : Quiet q 0 := fun j hj => absurd hj (Nat.not_lt_zero j)

/-- A failure of the property ends the streak. -/
theorem quiet_succ (hk : ¬ q k) : Quiet q (k + 1) :=
  fun _ hj h => hk ((holds_succ (Nat.lt_succ_iff.mp hj)).mp h).2

/-- The property starts a streak. -/
theorem Quiet.since (h : Quiet q k) (hk : q k) : Since q k (k + 1) := by
  refine ⟨Nat.lt_succ_self k, fun i h1 h2 => ?_, fun i hi => ?_⟩
  · rw [Nat.le_antisymm (Nat.lt_succ_iff.mp h2) h1]
    exact hk
  · by_contra hlt
    push Not at hlt
    exact h i hlt ((holds_succ hlt.le).mp hi).1

/-- The property goes on with its streak. -/
theorem Since.succ (h : Since q j k) (hk : q k) : Since q j (k + 1) := by
  refine ⟨h.lt.trans (Nat.lt_succ_self k), (holds_succ h.lt.le).mpr ⟨h.holds, hk⟩, fun i hi => ?_⟩
  by_cases hik : i ≤ k
  · exact h.first i ((holds_succ hik).mp hi).1
  · have := h.lt
    omega

/-- **The stored start decides**: some streak has lasted `d` exactly if the longest one has. -/
theorem Since.lasted {time : ℕ → ℕ} (htime : ∀ i i', i ≤ i' → i' ≤ k → time i ≤ time i') (h : Since q j k)
    (d : ℕ) : (∃ i < k, Holds q i k ∧ d ≤ time k - time i) ↔ d ≤ time k - time j := by
  constructor
  · rintro ⟨i, hik, hi, hd⟩
    have := htime j i (h.first i hi) hik.le
    omega
  · exact fun hd => ⟨j, h.lt, h.holds, hd⟩

end Streak

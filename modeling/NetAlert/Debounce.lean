import NetAlert.Alert
import NetAlert.Lib.Streak

/-!
# NetAlert.Debounce — when an alert fires and when it resolves

* `AlertInstance.evaluate_step`: what one evaluation can do.
* `Tracks`: the state of an instance after `k` evaluations, in terms of the rates so far.  A pending
  or recovering state holds the time at which the current streak of its threshold began.
* `fire_iff_resolve_iff`: an alert fires, and resolves, exactly when its threshold has been crossed
  for long enough.
-/

namespace NetAlert

namespace AlertInstance

/-! ## One evaluation -/

/-- What an evaluation at a rate and a time can do. -/
inductive Step (a : AlertInstance) (rate : ℚ) (now : Instant) :
    AlertState → AlertState → Option AlertAction → Prop
  | idle (h : F64.le a.triggerThreshold (.num rate) = false) : Step a rate now .normal .normal none
  | arm (h : F64.le a.triggerThreshold (.num rate) = true) : Step a rate now .normal (.pending now) none
  | disarm {since} (h : F64.lt (.num rate) a.triggerThreshold = true) :
      Step a rate now (.pending since) .normal none
  | fire {since} (h : F64.lt (.num rate) a.triggerThreshold = false) (hd : a.triggerFor ≤ now - since) :
      Step a rate now (.pending since) (.firing now) (some .fire)
  | wait {since} (h : F64.lt (.num rate) a.triggerThreshold = false) (hd : ¬ a.triggerFor ≤ now - since) :
      Step a rate now (.pending since) (.pending since) none
  | drop {last} (h : F64.lt (.num rate) a.recoverThreshold = true) :
      Step a rate now (.firing last) (.recovering now) none
  | update {last} (h : F64.lt (.num rate) a.recoverThreshold = false) :
      Step a rate now (.firing last) (.firing now) (some .update)
  | hold {last} (h : F64.lt (.num rate) a.recoverThreshold = false) :
      Step a rate now (.firing last) (.firing last) none
  | climb {since} (h : F64.le a.recoverThreshold (.num rate) = true) :
      Step a rate now (.recovering since) (.firing now) none
  | resolve {since} (h : F64.le a.recoverThreshold (.num rate) = false) (hd : a.recoverFor ≤ now - since) :
      Step a rate now (.recovering since) .normal (some .resolve)
  | waitRecover {since} (h : F64.le a.recoverThreshold (.num rate) = false)
      (hd : ¬ a.recoverFor ≤ now - since) :
      Step a rate now (.recovering since) (.recovering since) none

/-- **One evaluation** changes the state as `Step` says. -/
theorem evaluate_step (a : AlertInstance) (rate : ℚ) (now : Instant) :
    a.Step rate now a.state (a.evaluate rate now).1.state (a.evaluate rate now).2 := by
  unfold evaluate Instant.durationSince
  cases hs : a.state with
  | normal =>
    cases h : F64.le a.triggerThreshold (.num rate) with
    | false => simpa [hs] using Step.idle h
    | true => simpa using Step.arm h
  | pending since =>
    cases h : F64.lt (.num rate) a.triggerThreshold with
    | true => simpa using Step.disarm h
    | false =>
      by_cases hd : a.triggerFor ≤ now - since
      · simpa [hd] using Step.fire h hd
      · simpa [hd, hs] using Step.wait h hd
  | firing last =>
    cases h : F64.lt (.num rate) a.recoverThreshold with
    | true => simpa using Step.drop h
    | false =>
      by_cases hd : a.mitigationUpdateInterval ≤ now - last
      · simpa [hd] using Step.update h
      · simpa [hd, hs] using Step.hold h
  | recovering since =>
    cases h : F64.le a.recoverThreshold (.num rate) with
    | true => simpa using Step.climb h
    | false =>
      by_cases hd : a.recoverFor ≤ now - since
      · simpa [hd] using Step.resolve h hd
      · simpa [hd, hs] using Step.waitRecover h hd

/-- An evaluation changes nothing but the state. -/
theorem evaluate_frame (a : AlertInstance) (rate : ℚ) (now : Instant) :
    (a.evaluate rate now).1 = { a with state := (a.evaluate rate now).1.state } := by
  unfold evaluate
  split <;> split_ifs <;> rfl

/-- The steps of an instance do not depend on the state it is in. -/
theorem step_withState {a : AlertInstance} {rate : ℚ} {now : Instant} {s s₁ s₂ : AlertState}
    {action : Option AlertAction} :
    ({ a with state := s } : AlertInstance).Step rate now s₁ s₂ action ↔ a.Step rate now s₁ s₂ action := by
  constructor <;> intro h <;> cases h <;> constructor <;> assumption

/-! ## A sequence of evaluations -/

section Run

variable (a : AlertInstance) (rate : ℕ → ℚ) (time : ℕ → Instant)

/-- The instance after the first `k` evaluations. -/
def after : ℕ → AlertInstance
  | 0 => a
  | k + 1 => ((after k).evaluate (rate k) (time k)).1

/-- What evaluation `k` returns. -/
def actionAt (k : ℕ) : Option AlertAction := ((a.after rate time k).evaluate (rate k) (time k)).2

/-- Before evaluation `k` there is a fire without a later resolve. -/
def OpenAt (k : ℕ) : Prop :=
  ∃ i < k, a.actionAt rate time i = some .fire ∧
    ∀ i', i < i' → i' < k → a.actionAt rate time i' ≠ some .resolve

/-- At or above the trigger threshold, and no resolve. -/
def High (i : ℕ) : Prop :=
  F64.le a.triggerThreshold (.num (rate i)) = true ∧ a.actionAt rate time i ≠ some .resolve

/-- Below the recover threshold, and no fire. -/
def Low (i : ℕ) : Prop :=
  F64.lt (.num (rate i)) a.recoverThreshold = true ∧ a.actionAt rate time i ≠ some .fire

/-- What the state after `k` evaluations says about the rates. -/
def Tracks (k : ℕ) : AlertState → Prop
  | .normal => ¬ a.OpenAt rate time k ∧ Streak.Quiet (a.High rate time) k
  | .pending since =>
    ¬ a.OpenAt rate time k ∧ ∃ j, Streak.Since (a.High rate time) j k ∧ since = time j
  | .firing _ => a.OpenAt rate time k ∧ Streak.Quiet (a.Low rate time) k
  | .recovering since =>
    a.OpenAt rate time k ∧ ∃ j, Streak.Since (a.Low rate time) j k ∧ since = time j

end Run

variable {a : AlertInstance} {rate : ℕ → ℚ} {time : ℕ → Instant} {k : ℕ}

/-- Thresholds and durations stay as they are. -/
theorem after_frame (k : ℕ) : a.after rate time k = { a with state := (a.after rate time k).state } := by
  induction k with
  | zero => rfl
  | succ k ih =>
    rw [after, evaluate_frame]
    generalize hs : (evaluate _ _ _).1.state = s
    rw [ih]

theorem actionAt_step (a : AlertInstance) (rate : ℕ → ℚ) (time : ℕ → Instant) (k : ℕ) :
    a.Step (rate k) (time k) (a.after rate time k).state (a.after rate time (k + 1)).state
      (a.actionAt rate time k) := by
  rw [← step_withState (s := (a.after rate time k).state), ← after_frame]
  exact evaluate_step _ _ _

theorem openAt_succ : a.OpenAt rate time (k + 1) ↔ a.actionAt rate time k = some .fire ∨
    (a.OpenAt rate time k ∧ a.actionAt rate time k ≠ some .resolve) := by
  constructor
  · rintro ⟨i, hi, hf, hno⟩
    rcases Nat.lt_succ_iff_lt_or_eq.mp hi with hlt | rfl
    · exact .inr ⟨⟨i, hlt, hf, fun i' h1 h2 => hno i' h1 (by omega)⟩, hno k hlt (by omega)⟩
    · exact .inl hf
  · rintro (hf | ⟨⟨i, hi, hf, hno⟩, hk⟩)
    · exact ⟨k, by omega, hf, fun i' h1 h2 => by omega⟩
    · refine ⟨i, by omega, hf, fun i' h1 h2 => ?_⟩
      rcases Nat.lt_succ_iff_lt_or_eq.mp h2 with h3 | rfl
      · exact hno i' h1 h3
      · exact hk

/-- **One evaluation** keeps the state in step with the rates. -/
theorem Tracks.succ (h : a.Tracks rate time k (a.after rate time k).state) :
    a.Tracks rate time (k + 1) (a.after rate time (k + 1)).state := by
  have hs := a.actionAt_step rate time k
  generalize (a.after rate time k).state = s at h hs
  generalize (a.after rate time (k + 1)).state = s' at hs ⊢
  generalize ha : a.actionAt rate time k = action at hs
  have hopen : a.OpenAt rate time (k + 1) ↔ action = some .fire ∨
      (a.OpenAt rate time k ∧ action ≠ some .resolve) := ha ▸ openAt_succ
  have hnf : action ≠ some .fire → a.actionAt rate time k ≠ some .fire := fun h => by rwa [ha]
  have hnr : action ≠ some .resolve → a.actionAt rate time k ≠ some .resolve := fun h => by rwa [ha]
  cases hs with
  | idle hle =>
    refine ⟨by simpa [hopen] using h.1, Streak.quiet_succ fun hq => ?_⟩
    rw [hq.1] at hle
    cases hle
  | arm hle => exact ⟨by simpa [hopen] using h.1, k, h.2.since ⟨hle, hnr (by simp)⟩, rfl⟩
  | disarm hlt =>
    refine ⟨by simpa [hopen] using h.1, Streak.quiet_succ fun hq => ?_⟩
    rw [F64.not_lt_of_le hq.1] at hlt
    cases hlt
  | fire hlt hd =>
    refine ⟨by simp [hopen], Streak.quiet_succ fun hq => hq.2 ha⟩
  | wait hlt hd =>
    obtain ⟨ho, j, hj, hsince⟩ := h
    have hle : F64.le a.triggerThreshold (.num (rate k)) = true := by
      have hn := F64.le_or_lt_of_le (hj.holds j le_rfl hj.lt).1 (rate k)
      rw [hlt] at hn
      simpa using hn.symm
    exact ⟨by simpa [hopen] using ho, j, hj.succ ⟨hle, hnr (by simp)⟩, hsince⟩
  | drop hlt => exact ⟨by simpa [hopen] using h.1, k, h.2.since ⟨hlt, hnf (by simp)⟩, rfl⟩
  | update hlt =>
    refine ⟨by simpa [hopen] using h.1, Streak.quiet_succ fun hq => ?_⟩
    rw [hq.1] at hlt
    cases hlt
  | hold hlt =>
    refine ⟨by simpa [hopen] using h.1, Streak.quiet_succ fun hq => ?_⟩
    rw [hq.1] at hlt
    cases hlt
  | climb hle =>
    refine ⟨by simpa [hopen] using h.1, Streak.quiet_succ fun hq => ?_⟩
    have := hq.1
    rw [F64.not_lt_of_le hle] at this
    cases this
  | resolve hle hd => exact ⟨by simp [hopen], Streak.quiet_succ fun hq => hq.2 ha⟩
  | waitRecover hle hd =>
    obtain ⟨ho, j, hj, hsince⟩ := h
    have hlt : F64.lt (.num (rate k)) a.recoverThreshold = true := by
      rw [F64.le_or_lt_of_lt (hj.holds j le_rfl hj.lt).1 (rate k), hle]
      rfl
    exact ⟨by simpa [hopen] using ho, j, hj.succ ⟨hlt, hnf (by simp)⟩, hsince⟩

/-- **A run** from the normal state. -/
theorem tracks (rate : ℕ → ℚ) (time : ℕ → Instant) (ha : a.state = .normal) (k : ℕ) :
    a.Tracks rate time k (a.after rate time k).state := by
  induction k with
  | zero =>
    rw [after, ha]
    exact ⟨fun ⟨i, hi, _⟩ => absurd hi (Nat.not_lt_zero i), Streak.quiet_zero⟩
  | succ k ih => exact ih.succ

/-! ## Firing and resolving -/

/-- A condition that holds through evaluation `k`, with no action of a kind since it began. -/
theorem lasting_iff {p : ℕ → Prop} {act : AlertAction} {d : Duration} :
    (∃ j < k, (∀ i, j ≤ i → i < k → a.actionAt rate time i ≠ some act) ∧ (∀ i, j ≤ i → i ≤ k → p i) ∧
        d ≤ time k - time j) ↔
      p k ∧ ∃ j < k, Streak.Holds (fun i => p i ∧ a.actionAt rate time i ≠ some act) j k ∧
        d ≤ time k - time j := by
  constructor
  · rintro ⟨j, hj, hno, hp, hd⟩
    exact ⟨hp k hj.le le_rfl, j, hj, fun i h1 h2 => ⟨hp i h1 h2.le, hno i h1 h2⟩, hd⟩
  · rintro ⟨hk, j, hj, h, hd⟩
    refine ⟨j, hj, fun i h1 h2 => (h i h1 h2).2, fun i h1 h2 => ?_, hd⟩
    rcases Nat.lt_or_eq_of_le h2 with h3 | rfl
    · exact (h i h1 h3).1
    · exact hk

/-- **Debounce.**  From the normal state and with times in order, evaluation `k` fires iff the alert is
closed and the rates have been at or above the trigger threshold, from some evaluation after the last
resolve through `k`, for the trigger duration; it resolves iff the alert is open and the rates have been
below the recover threshold, from some evaluation after the last fire through `k`, for the recover
duration. -/
theorem fire_iff_resolve_iff (a : AlertInstance) (ha : a.state = .normal) (rate : ℕ → ℚ)
    (time : ℕ → Instant) (k : ℕ) (htime : ∀ i i', i ≤ i' → i' ≤ k → time i ≤ time i') :
    (a.actionAt rate time k = some .fire ↔ ¬ a.OpenAt rate time k ∧
        ∃ j < k, (∀ i, j ≤ i → i < k → a.actionAt rate time i ≠ some .resolve) ∧
          (∀ i, j ≤ i → i ≤ k → F64.le a.triggerThreshold (.num (rate i)) = true) ∧
          a.triggerFor ≤ (time k).durationSince (time j)) ∧
      (a.actionAt rate time k = some .resolve ↔ a.OpenAt rate time k ∧
        ∃ j < k, (∀ i, j ≤ i → i < k → a.actionAt rate time i ≠ some .fire) ∧
          (∀ i, j ≤ i → i ≤ k → F64.lt (.num (rate i)) a.recoverThreshold = true) ∧
          a.recoverFor ≤ (time k).durationSince (time j)) := by
  have hT := tracks rate time ha k
  have hs := a.actionAt_step rate time k
  simp only [Instant.durationSince]
  rw [lasting_iff, lasting_iff]
  show (_ ↔ _ ∧ _ ∧ ∃ j < k, Streak.Holds (a.High rate time) j k ∧ _) ∧
    (_ ↔ _ ∧ _ ∧ ∃ j < k, Streak.Holds (a.Low rate time) j k ∧ _)
  generalize (a.after rate time k).state = s at hT hs
  generalize (a.after rate time (k + 1)).state = s' at hs
  generalize a.actionAt rate time k = action at hs
  cases s with
  | normal =>
    obtain ⟨ho, hq⟩ := hT
    have hnone : ¬ ∃ j < k, Streak.Holds (a.High rate time) j k ∧ a.triggerFor ≤ time k - time j :=
      fun ⟨j, hj, h, _⟩ => hq j hj h
    cases hs <;> exact ⟨iff_of_false (by simp) fun h => hnone h.2.2, by simp [ho]⟩
  | pending since =>
    obtain ⟨ho, j, hj, rfl⟩ := hT
    have hlast := hj.lasted htime a.triggerFor
    have hnum := F64.le_or_lt_of_le (hj.holds j le_rfl hj.lt).1 (rate k)
    refine ⟨?_, by cases hs <;> simp [ho]⟩
    rw [hlast]
    cases hs with
    | disarm h => simp [F64.not_le_of_lt h]
    | fire h hd => simpa [ho, hd] using by rw [h] at hnum; simpa using hnum.symm
    | wait h hd => simp [hd]
  | firing last =>
    obtain ⟨ho, hq⟩ := hT
    have hnone : ¬ ∃ j < k, Streak.Holds (a.Low rate time) j k ∧ a.recoverFor ≤ time k - time j :=
      fun ⟨j, hj, h, _⟩ => hq j hj h
    cases hs <;> exact ⟨by simp [ho], iff_of_false (by simp) fun h => hnone h.2.2⟩
  | recovering since =>
    obtain ⟨ho, j, hj, rfl⟩ := hT
    have hlast := hj.lasted htime a.recoverFor
    have hnum := F64.le_or_lt_of_lt (hj.holds j le_rfl hj.lt).1 (rate k)
    refine ⟨by cases hs <;> simp [ho], ?_⟩
    rw [hlast]
    cases hs with
    | climb h => simp [F64.not_lt_of_le h]
    | resolve h hd => simp [ho, hd, hnum, h]
    | waitRecover h hd => simp [hd]

/-- An alert that triggers at 100 for 3 seconds and recovers below 80 for 2 seconds. -/
def demo : AlertInstance :=
  { state := .normal
    alertId := .nil
    ipPrefix := "10.0.0.0/24"
    protocol := .any
    direction := .inbound
    metric := .bps
    triggerThreshold := .num 100
    recoverThreshold := .num 80
    triggerFor := Duration.fromSecs 3
    recoverFor := Duration.fromSecs 2
    mitigationUpdateInterval := defaultMitigationUpdateInterval
    labels := ∅ }

/-- A rate that is high at seconds 1 and 3 to 6, and low from second 7 on. -/
def demoRate (i : ℕ) : ℚ := if i = 1 ∨ 3 ≤ i ∧ i ≤ 6 then 120 else 50

theorem fire_iff_resolve_iff_demo :
    (¬ demo.OpenAt demoRate Duration.fromSecs 6 ∧
        ∃ j < 6, (∀ i, j ≤ i → i < 6 → demo.actionAt demoRate Duration.fromSecs i ≠ some .resolve) ∧
          (∀ i, j ≤ i → i ≤ 6 → F64.le (.num 100) (.num (demoRate i)) = true) ∧
          Duration.fromSecs 3 ≤ Instant.durationSince (Duration.fromSecs 6) (Duration.fromSecs j)) ∧
      demo.OpenAt demoRate Duration.fromSecs 9 ∧
        ∃ j < 9, (∀ i, j ≤ i → i < 9 → demo.actionAt demoRate Duration.fromSecs i ≠ some .fire) ∧
          (∀ i, j ≤ i → i ≤ 9 → F64.lt (.num (demoRate i)) (.num 80) = true) ∧
          Duration.fromSecs 2 ≤ Instant.durationSince (Duration.fromSecs 9) (Duration.fromSecs j) := by
  have htime : ∀ i i', i ≤ i' → Duration.fromSecs i ≤ Duration.fromSecs i' :=
    fun i i' h => Nat.mul_le_mul_right _ h
  exact ⟨(fire_iff_resolve_iff demo rfl demoRate Duration.fromSecs 6 fun i i' h _ => htime i i' h).1.mp
      (by decide),
    (fire_iff_resolve_iff demo rfl demoRate Duration.fromSecs 9 fun i i' h _ => htime i i' h).2.mp
      (by decide)⟩

end AlertInstance

end NetAlert

import NetAlert.Debounce

/-!
# NetAlert.Updates — when a firing alert updates

The update timer is the stamp of the firing state.  A fire and an update set it, but so does a climb back from
recovering, which sends nothing.

* `update_iff`: once the interval has passed since the last fire or update, one of two evaluations in a row at or
  above the recover threshold updates exactly if the interval has also passed since every climb in between.
* `updates_starved`: so an alert that dips once in a while never updates.
-/

namespace NetAlert

namespace AlertInstance

variable {a : AlertInstance} {rate : ℕ → ℚ} {time : ℕ → Instant} {k m : ℕ}

/-! ## The timer -/

theorem durationSince_le {now now' since since' : Instant} (h : now ≤ now') (h' : since' ≤ since) :
    now.durationSince since ≤ now'.durationSince since' :=
  tsub_le_tsub h h'

/-- A firing alert whose rate is low. -/
theorem drop_at {last : Instant} (hs : (a.after rate time k).state = .firing last)
    (h : F64.lt (.num (rate k)) a.recoverThreshold = true) :
    a.actionAt rate time k = none ∧ (a.after rate time (k + 1)).state = .recovering (time k) := by
  have hframe : a.after rate time k = { a with state := (a.after rate time k).state } := after_frame k
  rw [hs] at hframe
  simp [actionAt, after, hframe, evaluate, h]

/-- A firing alert whose timer has run out. -/
theorem update_at {last : Instant} (hs : (a.after rate time k).state = .firing last)
    (h : F64.lt (.num (rate k)) a.recoverThreshold = false)
    (hd : a.mitigationUpdateInterval ≤ (time k).durationSince last) : a.actionAt rate time k = some .update := by
  have hframe : a.after rate time k = { a with state := (a.after rate time k).state } := after_frame k
  rw [hs] at hframe
  simp [actionAt, hframe, evaluate, h, hd]

/-- A firing alert whose timer runs on. -/
theorem hold_at {last : Instant} (hs : (a.after rate time k).state = .firing last)
    (h : F64.lt (.num (rate k)) a.recoverThreshold = false)
    (hd : ¬ a.mitigationUpdateInterval ≤ (time k).durationSince last) :
    a.actionAt rate time k = none ∧ (a.after rate time (k + 1)).state = .firing last := by
  have hframe : a.after rate time k = { a with state := (a.after rate time k).state } := after_frame k
  rw [hs] at hframe
  simp [actionAt, after, hframe, evaluate, h, hd]

/-- A recovering alert whose rate is not low. -/
theorem climb_at {since : Instant} (hs : (a.after rate time k).state = .recovering since)
    (h : F64.le a.recoverThreshold (.num (rate k)) = true) :
    a.actionAt rate time k = none ∧ (a.after rate time (k + 1)).state = .firing (time k) := by
  have hframe : a.after rate time k = { a with state := (a.after rate time k).state } := after_frame k
  rw [hs] at hframe
  simp [actionAt, after, hframe, evaluate, h]

theorem update_at_iff {last : Instant} (hs : (a.after rate time k).state = .firing last)
    (h : F64.lt (.num (rate k)) a.recoverThreshold = false) :
    a.actionAt rate time k = some .update ↔ a.mitigationUpdateInterval ≤ (time k).durationSince last := by
  refine ⟨fun hupdate => ?_, update_at hs h⟩
  by_contra hd
  rw [(hold_at hs h hd).1] at hupdate
  cases hupdate

/-- A rate below the recover threshold after evaluation `m`, and the next one at or above it. -/
def Climb (a : AlertInstance) (rate : ℕ → ℚ) (m i : ℕ) : Prop :=
  m < i ∧ F64.lt (.num (rate i)) a.recoverThreshold = true ∧ F64.le a.recoverThreshold (.num (rate (i + 1))) = true

/-- What the state before evaluation `j` says, if `m` has been the last to fire or update.  A firing alert counts
from `m` or from the latest climb since. -/
def Counting (a : AlertInstance) (rate : ℕ → ℚ) (time : ℕ → Instant) (m j : ℕ) : AlertState → Prop
  | .firing last => (∀ i < j, a.Climb rate m i → time (i + 1) ≤ last) ∧
      (last = time m ∨ ∃ i < j, a.Climb rate m i ∧ last = time (i + 1))
  | .recovering _ => ∃ i, i + 1 = j ∧ m < i ∧ F64.lt (.num (rate i)) a.recoverThreshold = true
  | _ => False

/-- **One evaluation** without a fire, update or resolve. -/
theorem Counting.succ {j : ℕ} (htime : ∀ i ≤ j, time i ≤ time j) (hj : m < j)
    (h : a.Counting rate time m j (a.after rate time j).state) (hfire : a.actionAt rate time j ≠ some .fire)
    (hupdate : a.actionAt rate time j ≠ some .update) (hresolve : a.actionAt rate time j ≠ some .resolve) :
    a.Counting rate time m (j + 1) (a.after rate time (j + 1)).state := by
  have hs := a.actionAt_step rate time j
  generalize (a.after rate time j).state = s at h hs
  generalize (a.after rate time (j + 1)).state = s' at hs ⊢
  generalize a.actionAt rate time j = action at hfire hupdate hresolve hs
  cases hs with
  | idle | arm | disarm | fire | wait => exact h.elim
  | update => exact absurd rfl hupdate
  | resolve => exact absurd rfl hresolve
  | drop hlt => exact ⟨j, rfl, hj, hlt⟩
  | hold hlt =>
    obtain ⟨hlate, hlast⟩ := h
    refine ⟨fun i hi hclimb => ?_, hlast.imp_right fun ⟨i, hi, hc⟩ => ⟨i, Nat.lt_succ_of_lt hi, hc⟩⟩
    rcases Nat.lt_succ_iff_lt_or_eq.mp hi with hi | rfl
    · exact hlate i hi hclimb
    · rw [hclimb.2.1] at hlt
      cases hlt
  | climb hle =>
    obtain ⟨i, rfl, hmi, hlt⟩ := h
    refine ⟨fun i' hi' hclimb => htime _ ?_, .inr ⟨i, by omega, ⟨hmi, hlt, hle⟩, rfl⟩⟩
    -- the present rate is not low
    rcases Nat.lt_succ_iff_lt_or_eq.mp hi' with hi' | rfl
    · exact hi'
    · have hlow := hclimb.2.1
      rw [F64.not_lt_of_le hle] at hlow
      cases hlow
  | waitRecover hle =>
    obtain ⟨i, rfl, hmi, hlt⟩ := h
    refine ⟨i + 1, rfl, hj, ?_⟩
    rw [F64.le_or_lt_of_lt hlt (rate (i + 1)), hle]
    rfl

/-- **From a fire or update on**, until the next one or a resolve. -/
theorem counting {j : ℕ} (htime : ∀ i i', i ≤ i' → i' ≤ j → time i ≤ time i') (hj : m < j)
    (hm : a.actionAt rate time m = some .fire ∨ a.actionAt rate time m = some .update)
    (hno : ∀ i, m < i → i < j → a.actionAt rate time i ≠ some .fire ∧ a.actionAt rate time i ≠ some .update ∧
      a.actionAt rate time i ≠ some .resolve) :
    a.Counting rate time m j (a.after rate time j).state := by
  induction j, hj using Nat.le_induction with
  | base =>
    have hs := a.actionAt_step rate time m
    generalize (a.after rate time m).state = s at hs
    generalize (a.after rate time (m + 1)).state = s' at hs ⊢
    generalize a.actionAt rate time m = action at hm hs
    cases hs with
    | fire | update => exact ⟨fun i hi hclimb => absurd hclimb.1 (by omega), .inl rfl⟩
    | _ => simp at hm
  | succ j hj ih =>
    obtain ⟨hfire, hupdate, hresolve⟩ := hno j hj (Nat.lt_succ_self j)
    refine Counting.succ (fun i hi => htime i j hi (Nat.le_succ j)) hj (ih ?_ ?_) hfire hupdate hresolve
    · exact fun i i' h1 h2 => htime i i' h1 (h2.trans (Nat.le_succ j))
    · exact fun i h1 h2 => hno i h1 (h2.trans (Nat.lt_succ_self j))

/-- An open alert has not resolved since it last fired or updated. -/
theorem OpenAt.not_resolve (hopen : a.OpenAt rate time k)
    (hno : ∀ i, m < i → i < k → a.actionAt rate time i ≠ some .fire) {i : ℕ} (hmi : m < i) (hi : i < k) :
    a.actionAt rate time i ≠ some .resolve := by
  obtain ⟨f, hf, hfire, hres⟩ := hopen
  have hfm : f ≤ m := by
    by_contra hlt
    exact hno f (by omega) hf hfire
  exact hres i (by omega) hi

/-! ## Updates -/

/-- **Two evaluations** in a row whose rates are not low: one of them updates exactly if the timer has run out by
the second.  It started at evaluation `m` or at the latest climb since. -/
theorem Counting.updates (h : a.Counting rate time m k (a.after rate time k).state)
    (htime : ∀ i i', i ≤ i' → i' ≤ k + 1 → time i ≤ time i')
    (hk : F64.le a.recoverThreshold (.num (rate k)) = true)
    (hk' : F64.le a.recoverThreshold (.num (rate (k + 1))) = true) :
    ∃ start, ((a.actionAt rate time k = some .update ∨ a.actionAt rate time (k + 1) = some .update) ↔
        a.mitigationUpdateInterval ≤ (time (k + 1)).durationSince start) ∧
      (∀ i < k, a.Climb rate m i → time (i + 1) ≤ start) ∧
      (start = time m ∨ ∃ i < k, a.Climb rate m i ∧ start = time (i + 1)) := by
  have hlt := F64.not_lt_of_le hk
  have hlt' := F64.not_lt_of_le hk'
  cases hs : (a.after rate time k).state with
  | normal => rw [hs] at h; exact h.elim
  | pending since => rw [hs] at h; exact h.elim
  | firing last =>
    rw [hs] at h
    refine ⟨last, ?_, h⟩
    by_cases hd : a.mitigationUpdateInterval ≤ (time k).durationSince last
    · have hnext := htime k (k + 1) (Nat.le_succ k) le_rfl
      exact iff_of_true (.inl (update_at hs hlt hd)) (hd.trans (durationSince_le hnext le_rfl))
    · obtain ⟨hnone, hkeep⟩ := hold_at hs hlt hd
      rw [hnone, update_at_iff hkeep hlt']
      simp
  | recovering since =>
    -- evaluation `k` is itself a climb
    rw [hs] at h
    obtain ⟨i, rfl, hmi, hlow⟩ := h
    obtain ⟨hnone, hclimb⟩ := climb_at hs hk
    refine ⟨time (i + 1), ?_, fun i' hi' _ => htime _ _ hi' (Nat.le_succ _),
      .inr ⟨i, by omega, ⟨hmi, hlow, hk⟩, rfl⟩⟩
    rw [hnone, update_at_iff hclimb hlt']
    simp

/-- **Updates are not starved by climbs that are old enough.**  The alert is open, `m` has been the last evaluation
to fire or update, and the interval has passed since.  Then of evaluations `k` and `k + 1`, both at or above the
recover threshold, one updates exactly if the interval has passed by the latter since each climb after `m`. -/
theorem update_iff (a : AlertInstance) (rate : ℕ → ℚ) (time : ℕ → Instant) {m k : ℕ}
    (htime : ∀ i i', i ≤ i' → i' ≤ k + 1 → time i ≤ time i') (hopen : a.OpenAt rate time k) (hmk : m < k)
    (hm : a.actionAt rate time m = some .fire ∨ a.actionAt rate time m = some .update)
    (hno : ∀ i, m < i → i < k → a.actionAt rate time i ≠ some .fire ∧ a.actionAt rate time i ≠ some .update)
    (hk : F64.le a.recoverThreshold (.num (rate k)) = true)
    (hk' : F64.le a.recoverThreshold (.num (rate (k + 1))) = true)
    (hinterval : a.mitigationUpdateInterval ≤ (time k).durationSince (time m)) :
    (a.actionAt rate time k = some .update ∨ a.actionAt rate time (k + 1) = some .update) ↔
      ∀ i, m < i → i < k → F64.lt (.num (rate i)) a.recoverThreshold = true →
        F64.le a.recoverThreshold (.num (rate (i + 1))) = true →
        a.mitigationUpdateInterval ≤ (time (k + 1)).durationSince (time (i + 1)) := by
  have hcount : a.Counting rate time m k (a.after rate time k).state := by
    refine counting (fun i i' h1 h2 => htime i i' h1 (h2.trans (Nat.le_succ k))) hmk hm fun i h1 h2 => ?_
    exact ⟨(hno i h1 h2).1, (hno i h1 h2).2, hopen.not_resolve (fun i h1 h2 => (hno i h1 h2).1) h1 h2⟩
  obtain ⟨start, hiff, hlate, hstart⟩ := hcount.updates htime hk hk'
  rw [hiff]
  constructor
  · intro h i h1 h2 h3 h4
    exact h.trans (durationSince_le le_rfl (hlate i h2 ⟨h1, h3, h4⟩))
  · intro h
    rcases hstart with rfl | ⟨i, hi, hclimb, rfl⟩
    · exact hinterval.trans (durationSince_le (htime k (k + 1) (Nat.le_succ k) le_rfl) le_rfl)
    · exact h i hclimb.1 hi hclimb.2.1 hclimb.2.2

/-- A steady high rate: the alert fires at second 3 and updates after its 30 seconds. -/
theorem update_iff_demo :
    demo.actionAt (fun _ => 120) Duration.fromSecs 33 = some .update ∨
      demo.actionAt (fun _ => 120) Duration.fromSecs 34 = some .update := by
  have htime : ∀ i i', i ≤ i' → Duration.fromSecs i ≤ Duration.fromSecs i' :=
    fun i i' h => Nat.mul_le_mul_right _ h
  have hquiet : ∀ i < 33, 3 < i → demo.actionAt (fun _ => 120) Duration.fromSecs i = none := by
    decide
  have hopen : demo.OpenAt (fun _ => 120) Duration.fromSecs 33 := by
    refine ⟨3, by decide, by decide, fun i h1 h2 => ?_⟩
    simp [hquiet i h2 h1]
  refine (update_iff demo (fun _ => 120) Duration.fromSecs (fun i i' h _ => htime i i' h) hopen
    (by decide : 3 < 33) (.inl (by decide)) (fun i h1 h2 => ?_) (by decide) (by decide) (by decide)).mpr
      fun i _ _ hlow => ?_
  · simp [hquiet i h2 h1]
  · exact absurd hlow (by decide)

/-! ## Starvation -/

/-- A rate that dips below the recover threshold of the demo alert for one second in three. -/
def pulsing (i : ℕ) : ℚ := if 6 < i ∧ i % 3 = 1 then 50 else 120

/-- The state that it leads to. -/
def pulsingState (k : ℕ) : AlertState :=
  if k % 3 = 2 then .recovering (Duration.fromSecs (k - 1))
  else if k % 3 = 0 then .firing (Duration.fromSecs (k - 1))
  else .firing (Duration.fromSecs (k - 2))

theorem pulsing_step {k : ℕ} (hk : 8 ≤ k)
    (hs : (demo.after pulsing Duration.fromSecs k).state = pulsingState k) :
    demo.actionAt pulsing Duration.fromSecs k = none ∧
      (demo.after pulsing Duration.fromSecs (k + 1)).state = pulsingState (k + 1) := by
  rcases (by omega : k % 3 = 0 ∨ k % 3 = 1 ∨ k % 3 = 2) with h3 | h3 | h3
  · -- a second after the climb the timer is young
    have hstate : pulsingState k = .firing (Duration.fromSecs (k - 1)) := by simp [pulsingState, h3]
    have hnext : pulsingState (k + 1) = .firing (Duration.fromSecs (k - 1)) := by
      have h : (k + 1) % 3 = 1 := by omega
      simp [pulsingState, h]
    have hrate : pulsing k = 120 := by simp [pulsing, h3]
    rw [hnext]
    refine hold_at (hs.trans hstate) (by rw [hrate]; decide) ?_
    show ¬ 30 * 1000000000 ≤ k * 1000000000 - (k - 1) * 1000000000
    omega
  · have hstate : pulsingState k = .firing (Duration.fromSecs (k - 2)) := by simp [pulsingState, h3]
    have hnext : pulsingState (k + 1) = .recovering (Duration.fromSecs k) := by
      have h : (k + 1) % 3 = 2 := by omega
      simp [pulsingState, h]
    have hrate : pulsing k = 50 := by simp [pulsing, h3]; omega
    rw [hnext]
    exact drop_at (hs.trans hstate) (by rw [hrate]; decide)
  · have hstate : pulsingState k = .recovering (Duration.fromSecs (k - 1)) := by simp [pulsingState, h3]
    have hnext : pulsingState (k + 1) = .firing (Duration.fromSecs k) := by
      have h : (k + 1) % 3 = 0 := by omega
      simp [pulsingState, h]
    have hrate : pulsing k = 120 := by simp [pulsing, h3]
    rw [hnext]
    exact climb_at (hs.trans hstate) (by rw [hrate]; decide)

/-- **Starvation.**  The alert fires at second 3 and stays open for ever.  At second 35 more than its 30 seconds
have passed, and seconds 35 and 36 are both high; but no evaluation ever updates. -/
theorem updates_starved :
    demo.actionAt pulsing Duration.fromSecs 3 = some .fire ∧
      (∀ k, 3 < k → demo.OpenAt pulsing Duration.fromSecs k) ∧
      (∀ k, 3 < k → demo.actionAt pulsing Duration.fromSecs k = none) ∧
      demo.mitigationUpdateInterval ≤ Instant.durationSince (Duration.fromSecs 35) (Duration.fromSecs 3) ∧
      F64.le demo.recoverThreshold (.num (pulsing 35)) = true ∧
      F64.le demo.recoverThreshold (.num (pulsing 36)) = true := by
  have hstate : ∀ k, 8 ≤ k → (demo.after pulsing Duration.fromSecs k).state = pulsingState k := by
    intro k hk
    induction k, hk using Nat.le_induction with
    | base => decide
    | succ k hk ih => exact (pulsing_step hk ih).2
  have hfire : demo.actionAt pulsing Duration.fromSecs 3 = some .fire := by decide
  have hnone : ∀ k, 3 < k → demo.actionAt pulsing Duration.fromSecs k = none := by
    intro k h3
    have hfirst : ∀ k < 8, 3 < k → demo.actionAt pulsing Duration.fromSecs k = none := by decide
    rcases Nat.lt_or_ge k 8 with hlt | hge
    · exact hfirst k hlt h3
    · exact (pulsing_step hge (hstate k hge)).1
  refine ⟨hfire, fun k hk => ⟨3, hk, hfire, fun i h1 _ => ?_⟩, hnone, by decide, by decide, by decide⟩
  rw [hnone i h1]
  simp

end AlertInstance

end NetAlert

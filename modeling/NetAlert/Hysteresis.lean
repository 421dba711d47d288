import NetAlert.Reload

/-!
# NetAlert.Hysteresis — which configurations keep an alert from flapping

An alert has hysteresis if between a fire and the next resolve some rate was below the trigger
threshold.  `hysteresis_iff`: every alert of a configuration has it iff the configuration sets no
recover threshold above its trigger threshold, thresholds that are not numbers aside (`Blind`).
-/

namespace NetAlert

namespace AlertInstance

/-- Between a fire and the next resolve some rate is below the trigger threshold; as long as the rates
after a fire are not, the alert does not resolve. -/
def Hysteresis (a : AlertInstance) (rate : ℕ → ℚ) (time : ℕ → Instant) : Prop :=
  (∀ f r, f < r → a.actionAt rate time f = some .fire → a.actionAt rate time r = some .resolve →
      (∀ i, f < i → i < r → a.actionAt rate time i ≠ some .resolve) →
      ∃ i, f < i ∧ i ≤ r ∧ F64.lt (.num (rate i)) a.triggerThreshold = true) ∧
    ∀ f n, a.actionAt rate time f = some .fire →
      (∀ i, f < i → i ≤ n → F64.le a.triggerThreshold (.num (rate i)) = true) →
      ∀ i, f < i → i ≤ n → a.actionAt rate time i ≠ some .resolve

variable {a : AlertInstance} {rate : ℕ → ℚ} {time : ℕ → Instant}

/-- The alert is open, and if it recovers then some rate was below its recover threshold. -/
def Opened (a : AlertInstance) : AlertState → Prop
  | .firing _ => True
  | .recovering _ => ∃ q : ℚ, F64.lt (.num q) a.recoverThreshold = true
  | _ => False

/-- From a fire on, the alert is open until it resolves. -/
theorem opened_of_fire {f : ℕ} (hf : a.actionAt rate time f = some .fire) {r : ℕ} (hr : f < r)
    (hno : ∀ i, f < i → i < r → a.actionAt rate time i ≠ some .resolve) :
    a.Opened (a.after rate time r).state := by
  induction r, hr using Nat.le_induction with
  | base =>
    have hs := a.actionAt_step rate time f
    rw [hf] at hs
    generalize (a.after rate time f).state = s at hs
    generalize (a.after rate time (f + 1)).state = s' at hs ⊢
    cases hs
    trivial
  | succ r hr ih =>
    have hopen := ih fun i h1 h2 => hno i h1 (h2.trans (Nat.lt_succ_self r))
    have hnr := hno r hr (Nat.lt_succ_self r)
    have hs := a.actionAt_step rate time r
    generalize (a.after rate time r).state = s at hopen hs
    generalize (a.after rate time (r + 1)).state = s' at hs ⊢
    generalize a.actionAt rate time r = action at hnr hs
    cases hs with
    | drop h => exact ⟨_, h⟩
    | update | hold | climb => trivial
    | waitRecover => exact hopen
    | resolve => exact absurd rfl hnr
    | idle | arm | disarm | fire | wait => exact hopen.elim

/-- An alert that resolves after a fire does so on a rate below its recover threshold. -/
theorem lt_recover_of_resolve {f r : ℕ} (hf : a.actionAt rate time f = some .fire) (hr : f < r)
    (hres : a.actionAt rate time r = some .resolve)
    (hno : ∀ i, f < i → i < r → a.actionAt rate time i ≠ some .resolve) :
    F64.lt (.num (rate r)) a.recoverThreshold = true := by
  have hopen := opened_of_fire hf hr hno
  have hs := a.actionAt_step rate time r
  rw [hres] at hs
  generalize (a.after rate time r).state = s at hopen hs
  generalize (a.after rate time (r + 1)).state = s' at hs
  cases hs with
  | resolve h =>
    obtain ⟨q, hq⟩ := hopen
    rw [F64.le_or_lt_of_lt hq, h]
    rfl

/-- Pending, as another configuration left it, on a trigger that is not a number: any rate fires it. -/
def Blind (a : AlertInstance) : Prop := a.triggerThreshold = .nan ∧ ∃ since, a.state = .pending since

/-- Otherwise an alert whose trigger is not a number never fires. -/
theorem not_fire_of_nan (hnan : a.triggerThreshold = .nan) (hblind : ¬ a.Blind) (k : ℕ) :
    a.actionAt rate time k ≠ some .fire := by
  have hstate : ∀ k since, (a.after rate time k).state ≠ .pending since := by
    intro k
    induction k with
    | zero => exact fun since hs => hblind ⟨hnan, since, hs⟩
    | succ k ih =>
      intro since hs'
      have hs := a.actionAt_step rate time k
      rw [hs'] at hs
      generalize (a.after rate time k).state = s at ih hs
      generalize a.actionAt rate time k = action at hs
      cases hs with
      | arm h =>
        rw [hnan] at h
        cases h
      | wait => exact ih since rfl
  intro hf
  have hs := a.actionAt_step rate time k
  have hk := hstate k
  rw [hf] at hs
  generalize (a.after rate time k).state = s at hk hs
  generalize (a.after rate time (k + 1)).state = s' at hs
  cases hs with
  | fire => exact hk _ rfl

/-- An alert whose recover threshold is not above its trigger threshold has hysteresis. -/
theorem hysteresis_of_ordered (h : F64.lt a.triggerThreshold a.recoverThreshold = false)
    (hblind : a.Blind → ∀ q : ℚ, F64.lt (.num q) a.recoverThreshold = false) : a.Hysteresis rate time := by
  have hbelow : ∀ f r, f < r → a.actionAt rate time f = some .fire → a.actionAt rate time r = some .resolve →
      (∀ i, f < i → i < r → a.actionAt rate time i ≠ some .resolve) →
      F64.lt (.num (rate r)) a.triggerThreshold = true := by
    intro f r hr hf hres hno
    have hlow := lt_recover_of_resolve hf hr hres hno
    have hnum : a.triggerThreshold ≠ .nan := by
      intro hnan
      by_cases hb : a.Blind
      · rw [hblind hb (rate r)] at hlow
        cases hlow
      · exact not_fire_of_nan hnan hb f hf
    rw [F64.lt_eq_not_le hnum, Bool.not_eq_true']
    by_contra hle
    rw [F64.exists_between.mp ⟨rate r, by simpa using hle, hlow⟩] at h
    cases h
  refine ⟨fun f r hr hf hres hno => ⟨r, hr, le_rfl, hbelow f r hr hf hres hno⟩, ?_⟩
  -- the first resolve after the fire has a rate below the trigger threshold
  intro f n hf hhigh i
  induction i using Nat.strong_induction_on with
  | _ i ih =>
    intro hfi hin hres
    have hlt := hbelow f i hfi hf hres fun i' h1 h2 => ih i' h2 h1 (h2.le.trans hin)
    rw [F64.not_lt_of_le (hhigh i hfi hin)] at hlt
    cases hlt

/-- On a constant rate between its thresholds an alert flaps. -/
theorem not_hysteresis_of_between (ha : a.state = .normal) {q : ℚ}
    (htrigger : F64.le a.triggerThreshold (.num q) = true) (hrecover : F64.lt (.num q) a.recoverThreshold = true) :
    ¬ a.Hysteresis (fun _ => q) fun i => i * (a.triggerFor + a.recoverFor) := by
  have hnlt := F64.not_lt_of_le htrigger
  have hnle : F64.le a.recoverThreshold (.num q) = false := by
    have := F64.le_or_lt_of_lt hrecover q
    rw [hrecover] at this
    simpa using this.symm
  have h2 : a.recoverFor ≤ 3 * (a.triggerFor + a.recoverFor) - 2 * (a.triggerFor + a.recoverFor) := by
    rw [← Nat.sub_mul, Nat.one_mul]
    exact Nat.le_add_left _ _
  intro h
  obtain ⟨i, -, -, hi⟩ := h.1 1 3 (by omega)
    (by simp [actionAt, after, evaluate, ha, htrigger, hnlt, Instant.durationSince])
    (by simp [actionAt, after, evaluate, ha, htrigger, hnlt, hrecover, hnle, Instant.durationSince, h2])
    (fun i h1 h3 => by
      obtain rfl : i = 2 := by omega
      simp [actionAt, after, evaluate, ha, htrigger, hnlt, hrecover, Instant.durationSince])
  rw [hnlt] at hi
  cases hi

/-- A blind alert that can recover does so without a rate below its trigger threshold. -/
theorem not_hysteresis_of_blind (hnan : a.triggerThreshold = .nan) {since : Instant}
    (hs : a.state = .pending since) {q : ℚ} (hrecover : F64.lt (.num q) a.recoverThreshold = true) :
    ¬ a.Hysteresis (fun _ => q) fun i => since + a.triggerFor + i * a.recoverFor := by
  have hnlt : F64.lt (.num q) a.triggerThreshold = false := by
    rw [hnan]
    rfl
  have hnle : F64.le a.recoverThreshold (.num q) = false := by
    have := F64.le_or_lt_of_lt hrecover q
    rw [hrecover] at this
    simpa using this.symm
  have hd : a.recoverFor ≤ since + a.triggerFor + 2 * a.recoverFor - (since + a.triggerFor + a.recoverFor) := by
    rw [Nat.add_sub_add_left, Nat.two_mul, Nat.add_sub_cancel_left]
  intro h
  obtain ⟨i, -, -, hi⟩ := h.1 0 2 (by omega)
    (by simp [actionAt, after, evaluate, hs, hnlt, Instant.durationSince])
    (by simp [actionAt, after, evaluate, hs, hnlt, hrecover, hnle, Instant.durationSince, hd])
    (fun i h0 h3 => by
      obtain rfl : i = 1 := by omega
      simp [actionAt, after, evaluate, hs, hnlt, hrecover, Instant.durationSince])
  rw [hnlt] at hi
  cases hi

end AlertInstance

/-! ## Configurations -/

/-- The threshold pairs of a configuration. -/
def Config.thresholdPairs (c : Config) : List ThresholdPair :=
  c.rules.flatMap fun rule => rule.thresholds.toPairs.flatMap fun (_, directions) =>
    directions.toPairs.flatMap fun (_, dirMetrics) => dirMetrics.metrics.pairs.map Prod.snd

variable {T : IpText} {c : Config}

/-- The alerts of a configuration have its threshold pairs. -/
theorem buildAlerts_thresholds : (c.buildAlerts T).map (fun a => (a.triggerThreshold, a.recoverThreshold)) =
    c.thresholdPairs.map fun t => (t.trigger, t.recoverValue) := by
  simp only [Config.buildAlerts, Config.thresholdPairs, addMetricAlerts, List.map_flatMap, List.map_map]
  rfl

/-- **Hysteresis.**  Every alert that a reload builds from a configuration, in whatever state it is carried
over, has hysteresis in every run iff no threshold pair has its recover value above its trigger, and no
alert is carried over pending on a trigger that is not a number, unless it can never recover. -/
theorem hysteresis_iff (T : IpText) (c : Config) :
    (∀ m : AlertManager, ∀ a ∈ (m.reloadConfig T c).alerts, ∀ (rate : ℕ → ℚ) (time : ℕ → Instant),
        Monotone time → a.Hysteresis rate time) ↔
      (∀ t ∈ c.thresholdPairs, F64.lt t.trigger t.recoverValue = false) ∧
        ∀ m : AlertManager, ∀ a ∈ (m.reloadConfig T c).alerts, a.Blind →
          ∀ q : ℚ, F64.lt (.num q) a.recoverThreshold = false := by
  constructor
  · intro h
    refine ⟨fun t ht => ?_, ?_⟩
    · have hmem : (t.trigger, t.recoverValue) ∈
          (c.buildAlerts T).map fun a => (a.triggerThreshold, a.recoverThreshold) := by
        rw [buildAlerts_thresholds]
        exact List.mem_map_of_mem ht
      obtain ⟨a, ha, hthr⟩ := List.mem_map.mp hmem
      obtain ⟨h1, h2⟩ := Prod.mk.injEq .. ▸ hthr
      have hfresh : ((AlertManager.new none).reloadConfig T c).alerts = c.buildAlerts T := carryOver_empty _
      by_contra hlt
      rw [Bool.not_eq_false, ← h1, ← h2] at hlt
      obtain ⟨q, hq1, hq2⟩ := F64.exists_between.mpr hlt
      have hidle := (buildAlerts_idle ha).1
      refine AlertInstance.not_hysteresis_of_between hidle hq1 hq2 (h _ a (hfresh ▸ ha) _ _ ?_)
      intro i j hij
      exact Nat.mul_le_mul_right _ hij
    · rintro m a ha ⟨hnan, since, hs⟩ q
      by_contra hlt
      rw [Bool.not_eq_false] at hlt
      refine AlertInstance.not_hysteresis_of_blind hnan hs hlt (h m a ha _ _ ?_)
      intro i j hij
      exact Nat.add_le_add_left (Nat.mul_le_mul_right _ hij) _
  · rintro ⟨hpairs, hblind⟩ m a ha rate time _
    obtain ⟨b, hb, hr⟩ := Relate.forall₂_left_of_mem (reload_runsOn m c) ha
    have hmem : (b.triggerThreshold, b.recoverThreshold) ∈
        c.thresholdPairs.map fun t => (t.trigger, t.recoverValue) := by
      rw [← buildAlerts_thresholds (T := T)]
      exact List.mem_map_of_mem hb
    obtain ⟨t, ht, hthr⟩ := List.mem_map.mp hmem
    obtain ⟨h1, h2⟩ := Prod.mk.injEq .. ▸ hthr
    refine AlertInstance.hysteresis_of_ordered ?_ (hblind m a ha)
    have hb1 : a.triggerThreshold = b.triggerThreshold := by rw [hr]
    have hb2 : a.recoverThreshold = b.recoverThreshold := by rw [hr]
    rw [hb1, hb2, ← h1, ← h2]
    exact hpairs t ht

/-- The configuration of the README with 400 Mbit/s to recover below, and 300 Mbit/s to trigger. -/
def inverted : Config :=
  { Config.readme with
    rules :=
      [{ ipPrefix := .slash24 0x0A000000
         alertPolicy := some "default_ddos"
         thresholds := Config.single .any .inbound
          { bps := some ⟨.num 300000000, some (.num 400000000)⟩ } }] }

/-- The configuration is accepted, and on a constant 350 Mbit/s its alert fires, resolves and fires. -/
theorem inverted_flaps : inverted.validate IpText.dotted = .ok () ∧
    ∃ a ∈ ((AlertManager.new none).reloadConfig IpText.dotted inverted).alerts, a.state = .normal ∧
      ∃ time : ℕ → Instant, Monotone time ∧ ¬ a.Hysteresis (fun _ => 350000000) time := by
  have hmem : (inverted.buildAlerts IpText.dotted).head (by decide) ∈
      ((AlertManager.new none).reloadConfig IpText.dotted inverted).alerts := by
    rw [show ((AlertManager.new none).reloadConfig IpText.dotted inverted).alerts =
      inverted.buildAlerts IpText.dotted from carryOver_empty _]
    exact List.head_mem _
  refine ⟨by decide, _, hmem, by decide, _, ?_, AlertInstance.not_hysteresis_of_between
    (by decide) (by decide) (by decide)⟩
  intro i j hij
  exact Nat.mul_le_mul_right _ hij

end NetAlert

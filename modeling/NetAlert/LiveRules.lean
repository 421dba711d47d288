import NetAlert.OwnRate

/-!
# NetAlert.LiveRules — which accepted rules are monitored

* `validate_rules`: what `Config::validate` has checked of every rule.  It asks for a protocol, and for a
  metric wherever there is a direction, but not for a direction.
* `accepted_rule_live_iff`: an accepted rule has an alert, each with its ring buffer, iff some protocol of
  it has a direction and its prefix has no host bits.
-/

namespace NetAlert

variable {T : IpText} {c : Config} {r : RuleConfig}

/-! ## What validation checks -/

theorem MetricThresholds.pairs_eq_nil {m : MetricThresholds} :
    m.pairs = [] ↔ (m.bps.isNone && m.pps.isNone && m.fps.isNone) = true := by
  obtain ⟨bps, pps, fps⟩ := m
  cases bps <;> cases pps <;> cases fps <;> simp [pairs]

theorem validateDirection_ok {idx : ℕ} {proto : ProtocolCategory} {entry : Direction × DirectionMetrics} :
    Config.validateDirection T idx r proto entry = .ok () ↔ entry.2.metrics.pairs ≠ [] := by
  rw [ne_eq, MetricThresholds.pairs_eq_nil]
  unfold Config.validateDirection
  simp only
  split_ifs with h <;> simp [h]

/-- A rule passes: its policy exists, it names a protocol, and every direction of it has a metric. -/
theorem validateRule_ok {idx : ℕ} : c.validateRule T idx r = .ok () ↔
    (∀ name ∈ r.alertPolicy, (c.alertPolicies.lookup name).isSome = true) ∧ r.thresholds.toPairs ≠ [] ∧
      ∀ e ∈ r.thresholds.toPairs, ∀ entry ∈ e.2.toPairs, entry.2.metrics.pairs ≠ [] := by
  have hforM : (r.thresholds.toPairs.forM fun e =>
      e.2.toPairs.forM (Config.validateDirection T idx r e.1)) = .ok () ↔
        ∀ e ∈ r.thresholds.toPairs, ∀ entry ∈ e.2.toPairs, entry.2.metrics.pairs ≠ [] := by
    simp only [Fold.except_forM_ok, validateDirection_ok]
  have herror : ∀ {e : String} {k : Unit → Except String Unit}, (Except.error e >>= k) ≠ .ok () := by
    intro e k h
    cases h
  unfold Config.validateRule
  rw [← hforM]
  generalize (r.thresholds.toPairs.forM fun e =>
    e.2.toPairs.forM (Config.validateDirection T idx r e.1)) = metrics
  have hempty : r.thresholds.toPairs ≠ [] ↔ r.thresholds.toPairs.isEmpty = false := by
    rw [ne_eq, ← List.isEmpty_iff, Bool.not_eq_true]
  rw [hempty]
  cases he : r.thresholds.toPairs.isEmpty <;> cases hp : r.alertPolicy with
  | none => simp [herror]
  | some name => cases hl : c.alertPolicies.lookup name <;> simp [hl, herror]

/-- **A valid configuration**: every rule has passed. -/
theorem validate_rules (h : c.validate T = .ok ()) (hr : r ∈ c.rules) : r.thresholds.toPairs ≠ [] ∧
    ∀ e ∈ r.thresholds.toPairs, ∀ entry ∈ e.2.toPairs, entry.2.metrics.pairs ≠ [] := by
  obtain ⟨_, hrules, -⟩ := Fold.except_bind_ok.mp h
  obtain ⟨i, hi⟩ := List.getElem?_of_mem hr
  have hrule := Fold.except_forM_ok.mp hrules (r, i) (List.mk_mem_zipIdx_iff_getElem?.mpr hi)
  exact (validateRule_ok.mp hrule).2

/-! ## Alerts and buffers of a rule -/

/-- Some protocol of the rule has a direction. -/
def RuleConfig.NamesDirection (r : RuleConfig) : Prop := ∃ e ∈ r.thresholds.toPairs, e.2.toPairs ≠ []

instance (r : RuleConfig) : Decidable r.NamesDirection := inferInstanceAs (Decidable (∃ _ ∈ _, _))

/-- A rule whose directions all have a metric has an alert iff it has a direction. -/
theorem ruleAlerts_ne_nil
    (h : ∀ e ∈ r.thresholds.toPairs, ∀ entry ∈ e.2.toPairs, entry.2.metrics.pairs ≠ []) :
    c.ruleAlerts T r ≠ [] ↔ r.NamesDirection := by
  constructor
  · intro hne
    obtain ⟨a, ha⟩ := List.exists_mem_of_ne_nil _ hne
    simp only [Config.ruleAlerts, List.mem_flatMap] at ha
    obtain ⟨e, he, entry, hentry, -⟩ := ha
    exact ⟨e, he, List.ne_nil_of_mem hentry⟩
  · rintro ⟨e, he, hne⟩
    obtain ⟨entry, hentry⟩ := List.exists_mem_of_ne_nil _ hne
    intro hnil
    have hdirections := List.flatMap_eq_nil_iff.mp hnil e he
    have hmetrics := List.flatMap_eq_nil_iff.mp hdirections entry hentry
    exact h e he entry hentry (List.map_eq_nil_iff.mp hmetrics)

/-- `fromConfig` builds the rule iff its prefix has no host bits. -/
theorem fromConfig_isOk {W cap : ℕ} :
    (∃ rule, ProcessedRule.fromConfig T r W cap = .ok rule) ↔ r.ipPrefix.trunc = r.ipPrefix := by
  constructor
  · rintro ⟨rule, hrule⟩
    rw [← (fromConfig_ok hrule).network]
    exact rule.network.trunc_eq
  · intro h
    have hn : T.parseNetwork (T.net r.ipPrefix) = .ok ⟨r.ipPrefix, h⟩ := T.parseNetwork_net.mpr rfl
    exact ⟨_, by simp only [ProcessedRule.fromConfig, hn]; rfl⟩

/-- **Live rules.**  The alerts that a reload creates from an accepted configuration fall into one segment
for each rule.  The segment of a rule has an alert, and `fromConfig` creates a ring buffer for each of its
alerts, iff some protocol of the rule has a direction and its prefix has no host bits. -/
theorem accepted_rule_live_iff (T : IpText) (c : Config) (hc : c.validate T = .ok ()) (m : AlertManager)
    (W cap : ℕ) : ∃ segs : List (List AlertInstance), (m.reloadConfig T c).alerts = segs.flatten ∧
      List.Forall₂ (fun r seg => List.Forall₂ Rebuilt (c.ruleAlerts T r) seg ∧
        ((seg ≠ [] ∧ ∃ rule, ProcessedRule.fromConfig T r W cap = .ok rule ∧
            ∀ a ∈ seg, (rule.buffers.lookup ⟨a.protocol, a.direction⟩).isSome = true) ↔
          r.NamesDirection ∧ r.ipPrefix.trunc = r.ipPrefix)) c.rules segs := by
  obtain ⟨segs, hflat, hsegs⟩ := Relate.forall₂_segments (reload_runsOn (T := T) m c)
  refine ⟨segs, hflat, (Relate.forall₂_mem hsegs).imp ?_⟩
  rintro r seg ⟨hr, -, hseg⟩
  replace hseg : List.Forall₂ Rebuilt (c.ruleAlerts T r) seg := hseg
  have hne : seg ≠ [] ↔ r.NamesDirection := by
    rw [← ruleAlerts_ne_nil (T := T) (c := c) (validate_rules hc hr).2, ← List.length_pos_iff, ← hseg.length_eq,
      List.length_pos_iff]
  refine ⟨hseg, ?_⟩
  have hok : (∃ rule, ProcessedRule.fromConfig T r W cap = .ok rule) ↔ r.ipPrefix.trunc = r.ipPrefix :=
    fromConfig_isOk
  rw [hne, ← hok]
  refine and_congr_right fun _ => ⟨fun ⟨rule, hrule, _⟩ => ⟨rule, hrule⟩, fun ⟨rule, hrule⟩ => ?_⟩
  refine ⟨rule, hrule, fun a ha => ?_⟩
  obtain ⟨a₀, ha₀, hreb⟩ := Relate.forall₂_left_of_mem hseg ha
  have hkey : (⟨a.protocol, a.direction⟩ : BufferKey) ∈ r.bufferKeys := by
    rw [hreb]
    exact (mem_ruleAlerts ha₀).2
  rw [(fromConfig_ok hrule).buffers, if_pos hkey]
  rfl

theorem accepted_rule_live_readme : Config.readme.validate IpText.dotted = .ok () ∧
    ((AlertManager.new none).reloadConfig IpText.dotted Config.readme).alerts ≠ [] := by
  have hc : Config.readme.validate IpText.dotted = .ok () := by decide
  refine ⟨hc, ?_⟩
  obtain ⟨segs, hflat, hsegs⟩ :=
    accepted_rule_live_iff IpText.dotted Config.readme hc (AlertManager.new none) 10 500
  cases hsegs with
  | cons h hrest =>
    obtain ⟨hne, -⟩ := h.2.mpr (by decide)
    rw [hflat, List.flatten_cons]
    exact List.append_ne_nil_of_left_ne_nil hne _

/-- A rule that names a protocol with an empty map of directions. -/
def mute : Config :=
  { Config.readme with
    rules := [{ ipPrefix := .slash24 0x0A000000, thresholds := HashMap.ofPairs [(.tcp, ∅)] }] }

/-- It is accepted and loads, and there is no alert for it. -/
theorem mute_accepted : mute.validate IpText.dotted = .ok () ∧
    ((FlowProcessor.new 10).reloadConfig IpText.dotted mute).isOk = true ∧
    ((AlertManager.new none).reloadConfig IpText.dotted mute).alerts = [] := by
  decide

end NetAlert

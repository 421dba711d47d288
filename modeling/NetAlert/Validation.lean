import NetAlert.LiveRules
import NetAlert.Loading

/-!
# NetAlert.Validation — what `Config::validate` accepts and what it says otherwise

* `Config.Valid`: the conditions that validation stands for, of the rules and the exporters as sets.
* `Config.Fault`: what an error text may say.  It names the first rule with a fault, or an exporter whose address
  is that of another one when no rule has a fault.
* `validate_exact`: validation accepts exactly the valid configurations and is right about the others.
-/

namespace NetAlert

variable {T : IpText} {c : Config}

/-! ## Rules -/

/-- The policy of the rule exists, it has thresholds, and each names a metric. -/
structure Config.ValidRule (c : Config) (r : RuleConfig) : Prop where
  policy : ∀ name ∈ r.alertPolicy, (c.alertPolicies.lookup name).isSome = true
  thresholds : r.thresholds.toPairs ≠ []
  metrics : ∀ e ∈ r.thresholds.toPairs, ∀ entry ∈ e.2.toPairs, entry.2.metrics.pairs ≠ []

structure Config.Valid (c : Config) : Prop where
  rules : ∀ r ∈ c.rules, c.ValidRule r
  exporters : (c.exporters.toPairs.map fun e => e.2.address).Nodup

/-- A text about a fault of a rule. -/
inductive Config.RuleFault (T : IpText) (c : Config) (idx : ℕ) (r : RuleConfig) : String → Prop
  | policy (name : String) (hname : r.alertPolicy = some name) (h : c.alertPolicies.lookup name = none) :
      RuleFault T c idx r ("Rule " ++ toString idx ++ " (prefix " ++ T.net r.ipPrefix ++
        ") references unknown alert_policy '" ++ name ++ "'")
  | thresholds (h : r.thresholds.toPairs = []) :
      RuleFault T c idx r ("Rule " ++ toString idx ++ " (prefix " ++ T.net r.ipPrefix ++
        ") has no thresholds defined")
  | metrics (proto : ProtocolCategory) (directions : HashMap Direction DirectionMetrics)
      (hproto : (proto, directions) ∈ r.thresholds.toPairs) (entry : Direction × DirectionMetrics)
      (hentry : entry ∈ directions.toPairs) (h : entry.2.metrics.pairs = []) :
      RuleFault T c idx r ("Rule " ++ toString idx ++ " (prefix " ++ T.net r.ipPrefix ++ "): threshold " ++
        proto.toString ++ "/" ++ entry.1.toString ++ " has no metrics defined")

/-- A text about a fault of the configuration. -/
inductive Config.Fault (T : IpText) (c : Config) : String → Prop
  | rule (idx : ℕ) (r : RuleConfig) (hr : c.rules[idx]? = some r) (hfirst : ∀ r ∈ c.rules.take idx, c.ValidRule r)
      (text : String) (h : c.RuleFault T idx r text) : Fault T c text
  | exporter (hrules : ∀ r ∈ c.rules, c.ValidRule r) (before : List (String × ExporterConfig)) (name : String)
      (exporter : ExporterConfig) (hwalk : before ++ [(name, exporter)] <+: c.exporters.toPairs)
      (hfirst : (before.map fun e => e.2.address).Nodup)
      (h : exporter.address ∈ before.map fun e => e.2.address) :
      Fault T c ("Exporter '" ++ name ++ "' has duplicate address " ++ T.addr exporter.address)

variable {r : RuleConfig} {idx : ℕ} {text : String}

theorem validRule_iff : c.validateRule T idx r = .ok () ↔ c.ValidRule r := by
  rw [validateRule_ok]
  exact ⟨fun ⟨h1, h2, h3⟩ => ⟨h1, h2, h3⟩, fun h => ⟨h.policy, h.thresholds, h.metrics⟩⟩

/-- A direction without a metric. -/
theorem validateDirection_error {proto : ProtocolCategory} {entry : Direction × DirectionMetrics}
    (h : Config.validateDirection T idx r proto entry = .error text) : entry.2.metrics.pairs = [] ∧
      text = "Rule " ++ toString idx ++ " (prefix " ++ T.net r.ipPrefix ++ "): threshold " ++
        proto.toString ++ "/" ++ entry.1.toString ++ " has no metrics defined" := by
  unfold Config.validateDirection at h
  simp only at h
  split_ifs at h with hnone
  exact ⟨MetricThresholds.pairs_eq_nil.mpr hnone, (Except.error.inj h).symm⟩

/-- A rule fails at its policy, at its thresholds or at one of the metrics. -/
theorem validateRule_error_cases (h : c.validateRule T idx r = .error text) :
    (∃ name, r.alertPolicy = some name ∧ c.alertPolicies.lookup name = none ∧
      "Rule " ++ toString idx ++ " (prefix " ++ T.net r.ipPrefix ++ ") references unknown alert_policy '" ++
        name ++ "'" = text) ∨
    (r.thresholds.toPairs = [] ∧
      "Rule " ++ toString idx ++ " (prefix " ++ T.net r.ipPrefix ++ ") has no thresholds defined" = text) ∨
    (r.thresholds.toPairs.forM fun e => e.2.toPairs.forM (Config.validateDirection T idx r e.1)) =
      .error text := by
  have hbind : ∀ {e : String} {k : Unit → Except String Unit},
      (Except.error e >>= k) = .error text ↔ e = text := by
    intro e k
    exact ⟨Except.error.inj, congrArg Except.error⟩
  unfold Config.validateRule at h
  generalize hmetrics : (r.thresholds.toPairs.forM fun e =>
    e.2.toPairs.forM (Config.validateDirection T idx r e.1)) = metrics at h
  cases hp : r.alertPolicy with
  | none => cases hempty : r.thresholds.toPairs.isEmpty <;> simp_all
  | some name =>
    cases hl : c.alertPolicies.lookup name with
    | none => simp_all
    | some policy => cases hempty : r.thresholds.toPairs.isEmpty <;> simp_all

/-- **The error of a rule** is about a fault that it has. -/
theorem validateRule_error (h : c.validateRule T idx r = .error text) : c.RuleFault T idx r text := by
  obtain ⟨name, hp, hl, rfl⟩ | ⟨hempty, rfl⟩ | hmetrics := validateRule_error_cases h
  · exact .policy name hp hl
  · exact .thresholds hempty
  · obtain ⟨pre, ⟨proto, directions⟩, hwalk, -, hproto⟩ := Fold.except_forM_error hmetrics
    obtain ⟨pre', entry, hwalk', -, hentry⟩ := Fold.except_forM_error hproto
    obtain ⟨hnone, rfl⟩ := validateDirection_error hentry
    exact .metrics proto directions (hwalk.subset (by simp)) entry (hwalk'.subset (by simp)) hnone

/-! ## Exporters -/

theorem validateExporters_iff {seen : List IpAddr} {l : List (String × ExporterConfig)} :
    Config.validateExporters T seen l = .ok () ↔
      (∀ e ∈ l, e.2.address ∉ seen) ∧ (l.map fun e => e.2.address).Nodup := by
  refine ⟨validateExporters_ok, ?_⟩
  induction l generalizing seen with
  | nil => exact fun _ => rfl
  | cons e l ih =>
    obtain ⟨name, exporter⟩ := e
    rintro ⟨hseen, hnodup⟩
    rw [List.map_cons, List.nodup_cons] at hnodup
    have hnew : seen.contains exporter.address = false := by simpa using hseen (name, exporter) List.mem_cons_self
    unfold Config.validateExporters
    rw [hnew]
    refine ih ⟨fun e he hmem => ?_, hnodup.2⟩
    rcases List.mem_cons.mp hmem with heq | hmem
    · exact hnodup.1 (heq ▸ List.mem_map_of_mem he)
    · exact hseen e (List.mem_cons_of_mem _ he) hmem

/-- **The error of the exporters** is about the first one whose address has been seen. -/
theorem validateExporters_error {seen : List IpAddr} {l : List (String × ExporterConfig)}
    (h : Config.validateExporters T seen l = .error text) : ∃ before name exporter,
      before ++ [(name, exporter)] <+: l ∧ (∀ e ∈ before, e.2.address ∉ seen) ∧
      (before.map fun e => e.2.address).Nodup ∧
      (exporter.address ∈ seen ∨ exporter.address ∈ before.map fun e => e.2.address) ∧
      text = "Exporter '" ++ name ++ "' has duplicate address " ++ T.addr exporter.address := by
  induction l generalizing seen with
  | nil => cases h
  | cons e l ih =>
    obtain ⟨name, exporter⟩ := e
    unfold Config.validateExporters at h
    split_ifs at h with hseen
    · exact ⟨[], name, exporter, ⟨l, rfl⟩, by simp, by simp, .inl (by simpa using hseen),
        (Except.error.inj h).symm⟩
    · obtain ⟨before, name', exporter', hwalk, hnew, hnodup, hdup, htext⟩ := ih h
      refine ⟨(name, exporter) :: before, name', exporter', List.cons_prefix_cons.mpr ⟨rfl, hwalk⟩, ?_, ?_, ?_,
        htext⟩
      · refine List.forall_mem_cons.mpr ⟨by simpa using hseen, fun e he hmem => ?_⟩
        exact hnew e he (List.mem_cons_of_mem _ hmem)
      · rw [List.map_cons, List.nodup_cons]
        refine ⟨fun hmem => ?_, hnodup⟩
        obtain ⟨e, he, heq⟩ := List.mem_map.mp hmem
        exact hnew e he (heq ▸ List.mem_cons_self)
      · rw [List.map_cons, List.mem_cons]
        rcases hdup with hdup | hdup
        · rcases List.mem_cons.mp hdup with heq | hdup
          · exact .inr (.inl heq)
          · exact .inl hdup
        · exact .inr (.inr hdup)

/-! ## Configurations -/

/-- The place that a walk with positions has come to. -/
theorem zipIdx_walked {α : Type} {l : List α} {pre : List (α × ℕ)} {x : α} {i : ℕ}
    (h : pre ++ [(x, i)] <+: l.zipIdx) : l[i]? = some x ∧ l.take i = pre.map Prod.fst := by
  have hx : l[i]? = some x := List.mk_mem_zipIdx_iff_getElem?.mp (h.subset (by simp))
  have hlength : pre.length < l.zipIdx.length := by simpa using h.length_le
  have hat : l.zipIdx[pre.length]? = some (x, i) := by
    obtain ⟨post, hpost⟩ := h
    simp [← hpost]
  have hi : i = pre.length := by
    simp only [List.getElem?_zipIdx, Option.map_eq_some_iff] at hat
    obtain ⟨y, -, hy⟩ := hat
    simpa using (Prod.mk.inj hy).2.symm
  refine ⟨hx, ?_⟩
  have htake : l.zipIdx.take i = pre := by
    obtain ⟨post, hpost⟩ := h
    simp [← hpost, hi]
  rw [← htake, List.map_take, List.zipIdx_map_fst]

theorem validateRules_iff : (c.rules.zipIdx.forM fun (rule, idx) => c.validateRule T idx rule) = .ok () ↔
    ∀ r ∈ c.rules, c.ValidRule r := by
  rw [Fold.except_forM_ok]
  constructor
  · intro h r hr
    obtain ⟨i, hi⟩ := List.getElem?_of_mem hr
    exact validRule_iff.mp (h (r, i) (List.mk_mem_zipIdx_iff_getElem?.mpr hi))
  · exact fun h e he => validRule_iff.mpr (h e.1 (List.mem_of_getElem? (List.mk_mem_zipIdx_iff_getElem?.mp he)))

theorem valid_iff : c.validate T = .ok () ↔ c.Valid := by
  unfold Config.validate
  rw [Fold.except_bind_ok]
  constructor
  · rintro ⟨_, hrules, hexporters⟩
    exact ⟨validateRules_iff.mp hrules, (validateExporters_iff.mp hexporters).2⟩
  · exact fun h => ⟨(), validateRules_iff.mpr h.rules, validateExporters_iff.mpr ⟨by simp, h.exporters⟩⟩

/-- **Validation is exact.**  It accepts a configuration iff every rule has an existing policy or none, has
thresholds and a metric for each of them, and no two exporters share an address; in whatever order the maps are
walked.  Otherwise its error names the first rule that has a fault and one of its faults, or, if no rule has one,
an exporter that shares its address with one before it. -/
theorem validate_exact (T : IpText) (c : Config) : (c.validate T = .ok () ↔ c.Valid) ∧
    ∀ text, c.validate T = .error text → c.Fault T text := by
  refine ⟨valid_iff, fun text h => ?_⟩
  unfold Config.validate at h
  rcases Fold.except_bind_error.mp h with hrules | ⟨_, hrules, hexporters⟩
  · obtain ⟨pre, ⟨r, idx⟩, hwalk, hpre, hr⟩ := Fold.except_forM_error hrules
    obtain ⟨hidx, htake⟩ := zipIdx_walked hwalk
    refine .rule idx r hidx (fun r' hr' => ?_) text (validateRule_error hr)
    obtain ⟨e, he, rfl⟩ := List.mem_map.mp (htake ▸ hr')
    exact validRule_iff.mp (hpre e he)
  · obtain ⟨before, name, exporter, hwalk, -, hnodup, hdup, rfl⟩ := validateExporters_error hexporters
    exact .exporter (validateRules_iff.mp hrules) before name exporter hwalk hnodup (by simpa using hdup)

end NetAlert

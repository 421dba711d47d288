import NetAlert.OwnRate
import NetAlert.Startup

/-!
# NetAlert.Generations — reloads interleaved with flows and ticks

`reload_config` of `main` writes the exporter rates, reloads the processor and reloads the alert manager,
each under its own lock; flows and ticks may come in between.  `System` is the daemon together with the
stage of a reload.  `System.run_generations`: in every interleaving the alerts are those of the
configuration whose reload was completed last, and so is the processor, except between the last two
steps of a reload.
-/

namespace NetAlert

variable {T : IpText} {c : Config} {p : FlowProcessor}

/-! ## Reloads step by step -/

/-- How far `reload_config` has come. -/
inductive ReloadStage where
  | idle
  | loaded (config : Config)
  | ratesWritten (config : Config)
  | processorReloaded (config : Config)

/-- The daemon, the stage of its reload and the configuration whose reload was completed last. -/
structure System where
  daemon : Daemon
  stage : ReloadStage
  current : Config

/-- An event of receiver, flow processor or ticker, the begin of a reload, or its next step. -/
inductive Action where
  | task (e : Event) (steady : e.Steady)
  | sighup (parsed : Except String Config)
  | advance

namespace System

variable (T : IpText)

/-- One action; no result if it panics, or if it is the reload's turn and there is none or another one. -/
def step (orders : TickOrders) (s : System) : Action → Option System
  | .task e _ => (s.daemon.step T orders e).map fun r => { s with daemon := r.1 }
  | .sighup parsed =>
    match s.stage with
    | .idle =>
      match Config.load T parsed with
      | .ok config => some { s with stage := .loaded config }
      | .error _ => some s
    | _ => none
  | .advance =>
    match s.stage with
    | .idle => none
    | .loaded config => some
      { s with
        daemon := { s.daemon with exporterRates := config.exporterSamplingRates }
        stage := .ratesWritten config }
    | .ratesWritten config =>
      match s.daemon.processor.reloadConfig T config with
      | .error _ => some { s with stage := .idle }
      | .ok processor => some
        { s with
          daemon := { s.daemon with processor := processor }
          stage := .processorReloaded config }
    | .processorReloaded config => some
      { daemon := { s.daemon with alertManager := s.daemon.alertManager.reloadConfig T config }
        stage := .idle
        current := config }

def run (orders : ℕ → TickOrders) (s : System) (actions : List Action) : Option System :=
  actions.zipIdx.foldlM (fun s a => s.step T (orders a.2) a.1) s

/-- **Without interruption** the steps are the reload of `Daemon`. -/
theorem run_reload (orders : ℕ → TickOrders) (d : Daemon) (c : Config) (parsed : Except String Config) :
    ∃ n c', run T orders ⟨d, .idle, c⟩ (.sighup parsed :: List.replicate n .advance) =
      some ⟨d.reloadConfig T parsed, .idle, c'⟩ := by
  unfold Daemon.reloadConfig
  cases hload : Config.load T parsed with
  | error e => exact ⟨0, c, by simp [run, step, hload]⟩
  | ok config =>
    cases hp : d.processor.reloadConfig T config with
    | error e => exact ⟨2, c, by simp [run, step, hload, hp, List.replicate]⟩
    | ok processor => exact ⟨3, config, by simp [run, step, hload, hp, List.replicate]⟩

end System

/-! ## Generations -/

/-- The processor has loaded the configuration, and since then flows and drains only. -/
def BuiltFrom (T : IpText) (c : Config) (p : FlowProcessor) : Prop := ∃ flows, Ran T c flows p

/-- The configuration that the processor has at a stage. -/
def ReloadStage.processorConfig (current : Config) : ReloadStage → Config
  | .processorReloaded config => config
  | _ => current

theorem BuiltFrom.steady {orders : TickOrders} {d d' : Daemon} {e : Event} {payloads : List AlertPayload}
    (h : BuiltFrom T c d.processor) (he : e.Steady) (hs : d.step T orders e = some (d', payloads)) :
    BuiltFrom T c d'.processor := by
  rcases step_cases he hs with ⟨_, rfl⟩ | ⟨_, _, p, hp, rfl⟩ | ⟨_, _, t, _, hev, rfl⟩
  · exact h
  · obtain ⟨flows, hran⟩ := h
    exact ⟨_, hran.flow hp⟩
  · refine hev.processor_keeps (BuiltFrom T c) (fun p ipPrefix k hp => ?_) h
    obtain ⟨flows, hran⟩ := hp
    exact ⟨flows, hran.drain ipPrefix k⟩

theorem RunsOn.steady {orders : TickOrders} {d d' : Daemon} {e : Event} {payloads : List AlertPayload}
    (h : RunsOn T c d.alertManager.alerts) (he : e.Steady) (hs : d.step T orders e = some (d', payloads)) :
    RunsOn T c d'.alertManager.alerts := by
  rcases step_cases he hs with ⟨_, rfl⟩ | ⟨_, _, p, hp, rfl⟩ | ⟨_, _, t, alerts, hev, rfl⟩
  · exact h
  · exact h
  · exact RunsOn.rebuilt h hev.rebuilt

/-- What the interleaving keeps. -/
structure System.Coherent (T : IpText) (s : System) : Prop where
  alerts : RunsOn T s.current s.daemon.alertManager.alerts
  processor : BuiltFrom T (s.stage.processorConfig s.current) s.daemon.processor

/-- **One action.** -/
theorem System.Coherent.step {s s' : System} (h : s.Coherent T) {orders : TickOrders} {a : Action}
    (hs : s.step T orders a = some s') : s'.Coherent T := by
  obtain ⟨d, stage, current⟩ := s
  cases a with
  | task e steady =>
    obtain ⟨r, hr, rfl⟩ := Option.map_eq_some_iff.mp hs
    exact ⟨h.alerts.steady steady hr, h.processor.steady steady hr⟩
  | sighup parsed =>
    cases stage with
    | idle =>
      simp only [System.step] at hs
      split at hs <;> rw [← Option.some.inj hs]
      · exact ⟨h.alerts, h.processor⟩
      · exact h
    | _ => cases hs
  | advance =>
    cases stage with
    | idle => cases hs
    | loaded config =>
      rw [← Option.some.inj hs]
      exact ⟨h.alerts, h.processor⟩
    | ratesWritten config =>
      simp only [System.step] at hs
      split at hs <;> rw [← Option.some.inj hs]
      · exact ⟨h.alerts, h.processor⟩
      · rename_i processor hp
        exact ⟨h.alerts, [], .load hp⟩
    | processorReloaded config =>
      rw [← Option.some.inj hs]
      exact ⟨reload_runsOn _ _, h.processor⟩

/-- **Generations.**  Whatever flows, ticks and steps of reloads have come in whatever order since the start,
the alerts are those of the configuration whose reload was completed last.  The processor is built from the
same configuration, unless a reload has replaced it and not yet the alerts; then it is built from the
configuration of that reload. -/
theorem System.run_generations (T : IpText) (c : Config) (d : Daemon) (h : Daemon.start T (.ok c) = .ok d)
    (orders : ℕ → TickOrders) (actions : List Action) (s : System)
    (hs : System.run T orders ⟨d, .idle, c⟩ actions = some s) :
    RunsOn T s.current s.daemon.alertManager.alerts ∧
      ((∀ config, s.stage ≠ .processorReloaded config) → BuiltFrom T s.current s.daemon.processor) ∧
      ∀ config, s.stage = .processorReloaded config → BuiltFrom T config s.daemon.processor := by
  have hstart : System.Coherent T ⟨d, .idle, c⟩ := by
    obtain ⟨-, p, hp, rfl⟩ := Daemon.start_ok h
    exact ⟨reload_runsOn _ c, [], .load hp⟩
  have hcoherent : s.Coherent T := Fold.option_ok (System.Coherent T) (fun _ _ _ hI hs => hI.step hs) hstart hs
  have hprocessor := hcoherent.processor
  refine ⟨hcoherent.alerts, fun hne => ?_, fun config heq => ?_⟩
  · cases hstage : s.stage with
    | processorReloaded config => exact absurd hstage (hne config)
    | _ =>
      rw [hstage] at hprocessor
      exact hprocessor
  · rw [heq] at hprocessor
    exact hprocessor

/-- The README's configuration for 10.2.3.0/24. -/
def moved : Config :=
  { Config.readme with rules := Config.readme.rules.map fun r => { r with ipPrefix := .slash24 0x0A020300 } }

/-- The README's daemon, told to reload `moved`, has replaced its processor. -/
def halfReloaded : Option System :=
  (Daemon.start IpText.dotted (.ok Config.readme)).toOption.bind fun d =>
    System.run IpText.dotted storedOrders ⟨d, .idle, Config.readme⟩ [.sighup (.ok moved), .advance, .advance]

theorem run_generations_halfReloaded : ∃ s, halfReloaded = some s ∧
    RunsOn IpText.dotted s.current s.daemon.alertManager.alerts ∧
    ∀ config, s.stage = .processorReloaded config → BuiltFrom IpText.dotted config s.daemon.processor := by
  have hsome : halfReloaded.isSome = true := by decide
  obtain ⟨s, hs⟩ := Option.isSome_iff_exists.mp hsome
  obtain ⟨d, hd, hrun⟩ := Option.bind_eq_some_iff.mp hs
  obtain ⟨halerts, -, hprocessor⟩ := System.run_generations IpText.dotted Config.readme d
    (Fold.except_toOption.mp hd) storedOrders _ s hrun
  exact ⟨s, hs, halerts, hprocessor⟩

/-- Processor and alerts of one configuration: every alert has a rule with its prefix, and the buffer of that
rule answers for it. -/
theorem exists_rule_of_alert (hp : BuiltFrom T c p) {alerts : List AlertInstance} (h : RunsOn T c alerts)
    {a : AlertInstance} (ha : a ∈ alerts) : ∃ rule ∈ p.rules, rule.network.net = rule.ipPrefix ∧
      a.ipPrefix = T.net rule.ipPrefix ∧ ∃ b, rule.buffers.lookup ⟨a.protocol, a.direction⟩ = some b ∧
        p.bufferOf T a.ipPrefix ⟨a.protocol, a.direction⟩ = some b := by
  obtain ⟨flows, hran⟩ := hp
  obtain ⟨a₀, ha₀, hreb⟩ := Relate.forall₂_left_of_mem h ha
  rw [buildAlerts_eq] at ha₀
  obtain ⟨r, hr, ha₀⟩ := List.mem_flatMap.mp ha₀
  obtain ⟨rule, hrule, hk⟩ := Relate.forall₂_left_of_mem hran.kept.2.flip hr
  refine ⟨rule, hrule, hk.network.trans hk.ipPrefix.symm, ?_⟩
  obtain ⟨b, hb⟩ := hran.bufferOf_alert hrule hk ha₀
  rw [hreb, hk.ipPrefix]
  exact ⟨(mem_ruleAlerts ha₀).1, b, hb⟩

/-- A tick that comes then evaluates the alerts for 10.0.0.0/24 on a processor without that prefix: no
configuration has both. -/
theorem tick_mixes_generations : ∃ s, halfReloaded = some s ∧
    (s.step IpText.dotted (storedOrders 3) (.task (.tick 1000 0) trivial)).isSome = true ∧
    ¬ ∃ c, BuiltFrom IpText.dotted c s.daemon.processor ∧ RunsOn IpText.dotted c s.daemon.alertManager.alerts := by
  have hprefixes : halfReloaded.map (fun s =>
      ((s.step IpText.dotted (storedOrders 3) (.task (.tick 1000 0) trivial)).isSome,
        s.daemon.processor.rules.map fun rule => IpText.dotted.net rule.ipPrefix,
        s.daemon.alertManager.alerts.map AlertInstance.ipPrefix)) =
      some (true, ["10.2.3.0/24"], ["10.0.0.0/24", "10.0.0.0/24"]) := by
    decide
  obtain ⟨s, hs, hpieces⟩ := Option.map_eq_some_iff.mp hprefixes
  obtain ⟨htick, hpieces⟩ := Prod.mk.inj hpieces
  obtain ⟨hrules, halerts⟩ := Prod.mk.inj hpieces
  refine ⟨s, hs, htick, ?_⟩
  rintro ⟨c, hbuilt, hruns⟩
  have hmem : "10.0.0.0/24" ∈ s.daemon.alertManager.alerts.map AlertInstance.ipPrefix := by
    rw [halerts]
    exact List.mem_cons_self
  obtain ⟨a, ha, hprefix⟩ := List.mem_map.mp hmem
  obtain ⟨rule, hrule, -, hnet, -⟩ := exists_rule_of_alert hbuilt hruns ha
  have hmem' : "10.0.0.0/24" ∈ s.daemon.processor.rules.map fun rule => IpText.dotted.net rule.ipPrefix := by
    rw [← hprefix, hnet]
    exact List.mem_map_of_mem hrule
  rw [hrules] at hmem'
  exact absurd hmem' (by decide)

end NetAlert

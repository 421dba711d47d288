import NetAlert.Startup

/-!
# NetAlert.Restart — where a reload lands and where a restart does

* `SameSetup`: what a configuration determines is the same in two daemons, but for the size of the ring
  buffers and the path of the script.
* `reload_like_restart`: a reload lands there, whatever the daemon has run so far.  The window is that of
  a restart unless the new one is below a second, and then it is the one in force.
-/

namespace NetAlert

variable {T : IpText} {c : Config}

/-- The same rule with buffers of another size. -/
structure Resized (rule rule' : ProcessedRule) : Prop where
  ipPrefix : rule'.ipPrefix = rule.ipPrefix
  network : rule'.network = rule.network
  labels : rule'.labels = rule.labels
  keys : ∀ k, (rule'.buffers.lookup k).isSome = (rule.buffers.lookup k).isSome
  capture : rule'.captureBuffer = rule.captureBuffer
  size : rule'.captureBufferSize = rule.captureBufferSize

/-- Two daemons set up alike: exporters, rules, prefix table, and the alerts but for states and ids. -/
structure SameSetup (d d' : Daemon) : Prop where
  exporterRates : d'.exporterRates = d.exporterRates
  rules : List.Forall₂ Resized d.processor.rules d'.processor.rules
  prefixTable : ∀ n, d'.processor.prefixTable.lookup n = d.processor.prefixTable.lookup n
  alerts : List.Forall₂ Rebuilt d.alertManager.alerts d'.alertManager.alerts

/-- Rules built from one entry for different windows. -/
theorem Built.resized {r : RuleConfig} {W W' cap : ℕ} {rule rule' : ProcessedRule} (h : Built r W cap rule)
    (h' : Built r W' cap rule') : Resized rule rule' := by
  refine ⟨by rw [h.ipPrefix, h'.ipPrefix], ?_, by rw [h.labels, h'.labels], fun k => ?_,
    by rw [h.capture, h'.capture], by rw [h.size, h'.size]⟩
  · ext
    rw [h.network, h'.network]
  · rw [h.buffers, h'.buffers]
    split_ifs <;> rfl

/-- Tables of rules with the same networks give the same answers. -/
theorem TableOk.lookup_eq {rules rules' : List ProcessedRule} {table table' : IpNetworkTable (List ℕ)}
    (h : TableOk rules table) (h' : TableOk rules' table')
    (hn : rules.map (·.network) = rules'.map (·.network)) (n : IpNetwork) : table'.lookup n = table.lookup n := by
  rw [h' n, h.congr hn n]

/-- **One configuration, loaded on two processors.** -/
theorem processor_reload_resized {p q p' q' : FlowProcessor} (hp : p.reloadConfig T c = .ok p')
    (hq : q.reloadConfig T c = .ok q') : List.Forall₂ Resized p'.rules q'.rules ∧
      ∀ n, q'.prefixTable.lookup n = p'.prefixTable.lookup n := by
  obtain ⟨hF, hT, -⟩ := reloadConfig_ok hp
  obtain ⟨hF', hT', -⟩ := reloadConfig_ok hq
  have hrules : List.Forall₂ Resized p'.rules q'.rules :=
    Relate.forall₂_trans (fun _ _ _ h h' => h.resized h') hF.flip hF'
  refine ⟨hrules, hT.lookup_eq hT' ?_⟩
  exact Relate.forall₂_map_eq (fun _ _ h => h.network.symm) hrules

/-- The alerts of a manager that has just been created. -/
theorem reload_new_alerts (T : IpText) (scriptPath : Option String) (c : Config) :
    ((AlertManager.new scriptPath).reloadConfig T c).alerts = c.buildAlerts T :=
  carryOver_empty _

/-- **A reload lands where a restart would.**  Whatever daemon reloads a configuration that a fresh one
starts with, afterwards both have the same exporter rates, rules, prefix table and alerts, states and ids of
the alerts aside.  They have the same processor if the window of the configuration is at least a second;
below that the window in force stays.  They have the same script if the configuration names one. -/
theorem reload_like_restart (T : IpText) (c₂ : Config) (d d₂ : Daemon) (h : Daemon.start T (.ok c₂) = .ok d₂) :
    let d' := d.reloadConfig T (.ok c₂)
    SameSetup d₂ d' ∧
      (Duration.fromSecs 1 ≤ c₂.global.window → d'.processor = d₂.processor) ∧
      (c₂.global.window < Duration.fromSecs 1 → d'.processor.windowSecs = d.processor.windowSecs) ∧
      (c₂.global.alertScript.isSome = true →
        d'.alertManager.scriptPath = d₂.alertManager.scriptPath) := by
  intro d'
  obtain ⟨hv, p₂, hp₂, rfl⟩ := Daemon.start_ok h
  obtain ⟨p, hp⟩ := reloadConfig_total T d.processor (trunc_eq_of_reload hp₂)
  have hd' : d' = _ := Daemon.reloadConfig_ok hv hp
  obtain ⟨hrules, htable⟩ := processor_reload_resized hp₂ hp
  have hwindow : 0 < c₂.global.window.asSecs ↔ Duration.fromSecs 1 ≤ c₂.global.window := asSecs_pos
  rw [hd']
  refine ⟨⟨rfl, hrules, htable, ?_⟩, fun hlong => ?_, fun hshort => ?_, fun hscript => ?_⟩
  · show List.Forall₂ Rebuilt ((AlertManager.new c₂.global.alertScript).reloadConfig T c₂).alerts _
    rw [reload_new_alerts]
    exact reload_runsOn d.alertManager c₂
  · -- both load with the window of the configuration
    have hpos := hwindow.mpr hlong
    have hsame : d.processor.reloadWindow c₂ = (FlowProcessor.new c₂.global.window.asSecs).reloadWindow c₂ := by
      simp only [FlowProcessor.reloadWindow, gt_iff_lt, hpos, if_true]
    rw [processor_reload_congr hsame, hp₂] at hp
    exact (Except.ok.inj hp).symm
  · have hzero : ¬ 0 < c₂.global.window.asSecs := fun hpos => absurd (hwindow.mp hpos) hshort.not_ge
    show p.windowSecs = d.processor.windowSecs
    rw [(reloadConfig_ok hp).2.2]
    simp only [FlowProcessor.reloadWindow, gt_iff_lt, hzero, if_false]
  · obtain ⟨script, hs⟩ := Option.isSome_iff_exists.mp hscript
    simp only [AlertManager.reloadConfig, hs]

/-- Started on the README, a daemon reloads the configuration with half a second of window. -/
theorem reload_like_restart_halfSecond : ∃ d d₂, Running IpText.dotted Config.readme d ∧
    Daemon.start IpText.dotted (.ok halfSecond) = .ok d₂ ∧
    SameSetup d₂ (d.reloadConfig IpText.dotted (.ok halfSecond)) := by
  have hok : (Daemon.start IpText.dotted (.ok Config.readme)).isOk = true ∧
      (Daemon.start IpText.dotted (.ok halfSecond)).isOk = true := by
    decide
  obtain ⟨d, hd⟩ := Fold.except_isOk.mp hok.1
  obtain ⟨d₂, hd₂⟩ := Fold.except_isOk.mp hok.2
  exact ⟨d, d₂, .start hd, hd₂, (reload_like_restart IpText.dotted halfSecond d d₂ hd₂).1⟩

/-- Its window stays ten seconds and its script stays; a restart has no window and no script. -/
theorem reload_unlike_restart : ∃ d d₂, Running IpText.dotted Config.readme d ∧
    Daemon.start IpText.dotted (.ok halfSecond) = .ok d₂ ∧
    (let d' := d.reloadConfig IpText.dotted (.ok halfSecond)
    d'.processor.windowSecs = 10 ∧ d₂.processor.windowSecs = 0 ∧
      d'.alertManager.scriptPath = some "/etc/netalert/alert.sh" ∧ d₂.alertManager.scriptPath = none) := by
  have hrun : (Daemon.start IpText.dotted (.ok Config.readme)).toOption.bind (fun d =>
      (Daemon.start IpText.dotted (.ok halfSecond)).toOption.map fun d₂ =>
        ((d.reloadConfig IpText.dotted (.ok halfSecond)).processor.windowSecs, d₂.processor.windowSecs,
          (d.reloadConfig IpText.dotted (.ok halfSecond)).alertManager.scriptPath,
          d₂.alertManager.scriptPath)) =
      some (10, 0, some "/etc/netalert/alert.sh", none) := by
    decide
  obtain ⟨d, hd, hmap⟩ := Option.bind_eq_some_iff.mp hrun
  obtain ⟨d₂, hd₂, hvalues⟩ := Option.map_eq_some_iff.mp hmap
  simp only [Prod.mk.injEq] at hvalues
  exact ⟨d, d₂, .start (Fold.except_toOption.mp hd), Fold.except_toOption.mp hd₂, hvalues⟩

end NetAlert

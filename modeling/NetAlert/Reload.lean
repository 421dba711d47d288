import NetAlert.Dotted
import NetAlert.Manager

/-!
# NetAlert.Reload — reloading the configuration that is running

A manager runs on a configuration if its alerts are those of the configuration but for states and
ids (`RunsOn`).  `reload_keeps_iff`: reloading that configuration leaves the alerts as they are iff
every alert that shares its key with another one is as it was built.
-/

namespace NetAlert

/-- The alerts of the configuration, in any states. -/
def RunsOn (T : IpText) (c : Config) (alerts : List AlertInstance) : Prop :=
  List.Forall₂ Rebuilt (c.buildAlerts T) alerts

/-- Two alerts may share a key only as long as neither has been armed. -/
def SharedIdle (alerts : List AlertInstance) : Prop :=
  ∀ (i j : ℕ) (a b : AlertInstance), alerts[i]? = some a → alerts[j]? = some b → i ≠ j → a.key = b.key →
    a.state = .normal ∧ a.alertId = .nil

variable {T : IpText}

theorem buildAlerts_idle {c : Config} {a : AlertInstance} (h : a ∈ c.buildAlerts T) :
    a.state = .normal ∧ a.alertId = .nil := by
  simp only [Config.buildAlerts, addMetricAlerts, List.mem_flatMap, List.mem_map] at h
  obtain ⟨-, -, -, -, -, -, -, -, rfl⟩ := h
  exact ⟨rfl, rfl⟩

theorem reload_runsOn (m : AlertManager) (c : Config) : RunsOn T c (m.reloadConfig T c).alerts :=
  carryOver_rebuilt _ _

theorem RunsOn.rebuilt {c : Config} {alerts alerts' : List AlertInstance} (h : RunsOn T c alerts)
    (h' : List.Forall₂ Rebuilt alerts alerts') : RunsOn T c alerts' :=
  Relate.forall₂_trans (fun _ _ _ h h' => h.trans h') h h'

/-- **Runs**: after a reload and any ticks the manager runs on the configuration of the reload. -/
theorem run_runsOn (s : ManagerRun) (c : Config) (ticks : List TickInput) :
    RunsOn T c (s.run T (.reload c :: ticks.map .evaluate)).manager.alerts := by
  induction ticks using List.reverseRecOn with
  | nil => exact reload_runsOn s.manager c
  | append_singleton ticks input ih =>
    rw [List.map_append, List.map_singleton, ← List.cons_append, ManagerRun.run_concat]
    exact RunsOn.rebuilt ih (ManagerRun.step_rebuilt _ input)

/-- The states that a reload of the running configuration hands out. -/
theorem RunsOn.reload_states {m : AlertManager} {c : Config} (h : RunsOn T c m.alerts) :
    (m.reloadConfig T c).alerts.map (fun a => (a.state, a.alertId)) =
      (Handover.consume m.previous (m.alerts.map AlertInstance.key)).map
        fun o => o.getD (.normal, .nil) := by
  have hkeys : m.alerts.map AlertInstance.key = (c.buildAlerts T).map AlertInstance.key :=
    forall₂_rebuilt_keys h
  have hidle : ∀ a ∈ c.buildAlerts T, (a.state, a.alertId) = (AlertState.normal, Uuid.nil) := by
    intro a ha
    rw [(buildAlerts_idle ha).1, (buildAlerts_idle ha).2]
  rw [AlertManager.reloadConfig, carryOver_eq, hkeys]
  generalize c.buildAlerts T = built at hidle
  generalize m.previous = previous
  induction built generalizing previous with
  | nil => rfl
  | cons a built ih =>
    simp only [List.map_cons, Handover.consume, List.zipWith_cons_cons, hidle a List.mem_cons_self]
    rw [ih fun b hb => hidle b (List.mem_cons_of_mem _ hb)]

/-- A reload of the running configuration keeps the alerts iff none that shares its key is active. -/
theorem RunsOn.reload_eq_iff {m : AlertManager} {c : Config} (h : RunsOn T c m.alerts) :
    (m.reloadConfig T c).alerts = m.alerts ↔ SharedIdle m.alerts := by
  have hext : (m.reloadConfig T c).alerts = m.alerts ↔
      (m.reloadConfig T c).alerts.map (fun a => (a.state, a.alertId)) =
        m.alerts.map fun a => (a.state, a.alertId) :=
    ⟨fun h => by rw [h], forall₂_rebuilt_ext (reload_runsOn m c) h⟩
  have hback := Handover.consume_ofPairs (m.alerts.map fun a => (a.key, (a.state, a.alertId)))
    (AlertState.normal, Uuid.nil)
  simp only [List.map_map, Function.comp_def] at hback
  rw [hext, h.reload_states, AlertManager.previous]
  apply hback.trans
  simp only [List.getElem?_map, Option.map_eq_some_iff, SharedIdle]
  constructor
  · intro h i j a b ha hb hij hk
    exact Prod.mk.injEq .. ▸ h i j _ _ ⟨a, ha, rfl⟩ ⟨b, hb, rfl⟩ hij hk
  · rintro h i j - - ⟨a, ha, rfl⟩ ⟨b, hb, rfl⟩ hij hk
    obtain ⟨h1, h2⟩ := h i j a b ha hb hij hk
    rw [h1, h2]

/-- **Reload of the running configuration.**  In every run, it leaves every alert with its state and id
iff no alert that shares its key with another one has left its initial state. -/
theorem reload_keeps_iff (T : IpText) (scriptPath : Option String) (before : List ManagerEvent) (c : Config)
    (ticks : List TickInput) :
    let m := ((ManagerRun.start scriptPath).run T (before ++ .reload c :: ticks.map .evaluate)).manager
    (m.reloadConfig T c).alerts = m.alerts ↔ SharedIdle m.alerts := by
  have h := run_runsOn (T := T) ((ManagerRun.start scriptPath).run T before) c ticks
  rw [ManagerRun.run, ManagerRun.run, ← List.foldl_append] at h
  exact h.reload_eq_iff

/-- Two rules for 10.0.0.0/24 that differ in the trigger only. -/
def twins : Config :=
  let rule (trigger : ℚ) : RuleConfig :=
    { ipPrefix := .slash24 0x0A000000
      thresholds := Config.single .any .inbound { bps := some ⟨.num trigger, none⟩ } }
  { global := { evaluationInterval := Duration.fromSecs 1, window := Duration.fromSecs 10 }
    rules := [rule 1000, rule 1000000] }

/-- A tick at a second, with 5000 bits per second towards 10.0.0.0/24. -/
def twinsTick (second : ℕ) : TickInput :=
  { ords := fun _ _ => HashOrder.stored
    snapshots := [⟨"10.0.0.0/24", ∅, .any, .inbound, 5000, 0, 0⟩]
    processor := FlowProcessor.new 10
    now := Duration.fromSecs second }

/-- The first twin fires; a reload takes it back to normal, under the state of the second. -/
theorem reload_orphans_twin : twins.validate IpText.dotted = .ok () ∧
    let m := ((ManagerRun.start none).run IpText.dotted
      (.reload twins :: [twinsTick 0, twinsTick 10].map .evaluate)).manager
    m.alerts.map (fun a => (a.state, a.alertId)) =
        [(.firing (Duration.fromSecs 10), .v4 0), (.normal, .nil)] ∧
      (m.reloadConfig IpText.dotted twins).alerts.map (fun a => (a.state, a.alertId)) =
        [(.normal, .nil), (.normal, .nil)] := by
  decide

end NetAlert

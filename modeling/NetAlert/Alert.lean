import NetAlert.Mitigation
import NetAlert.Processor

/-!
# NetAlert.Alert — the alert state machine and its manager (`alert.rs`)

`AlertInstance.evaluate` is one step of the four-state machine.  `AlertManager.evaluate` takes every
alert one step on the rates of a tick and collects the payloads; a payload that suggests mitigation
rules drains the captured flows of its prefix and direction, once a tick.
`AlertManager.reloadConfig` builds the instances anew and carries their state over by key.
-/

namespace NetAlert

inductive AlertState where
  | normal
  | pending (since : Instant)
  | firing (lastUpdate : Instant)
  | recovering (since : Instant)
  deriving DecidableEq

inductive MetricType where
  | bps
  | pps
  | fps
  deriving DecidableEq

def MetricType.toString : MetricType → String
  | bps => "bps"
  | pps => "pps"
  | fps => "fps"

/-- The nil id and the ids `new_v4` has issued, in order. -/
inductive Uuid where
  | nil
  | v4 (n : ℕ)
  deriving DecidableEq

inductive AlertAction where
  | fire
  | update
  | resolve
  deriving DecidableEq

def AlertAction.toString : AlertAction → String
  | fire => "trigger"
  | update => "update"
  | resolve => "resolve"

/-- What a reload carries state over by. -/
structure AlertKey where
  ipPrefix : String
  protocol : ProtocolCategory
  direction : Direction
  metric : MetricType
  deriving DecidableEq

structure AlertInstance where
  state : AlertState
  alertId : Uuid
  ipPrefix : String
  protocol : ProtocolCategory
  direction : Direction
  metric : MetricType
  triggerThreshold : F64
  recoverThreshold : F64
  triggerFor : Duration
  recoverFor : Duration
  mitigationUpdateInterval : Duration
  labels : HashMap String String
  deriving DecidableEq

structure AlertPayload where
  alertId : Uuid
  action : String
  ipPrefix : String
  protocol : String
  direction : String
  metric : String
  value : ℚ
  threshold : F64
  labels : HashMap String String
  mitigationRules : List MitigationRule
  deriving DecidableEq

namespace AlertInstance

def key (a : AlertInstance) : AlertKey := ⟨a.ipPrefix, a.protocol, a.direction, a.metric⟩

/-- One step of the state machine. -/
def evaluate (a : AlertInstance) (currentRate : ℚ) (now : Instant) : AlertInstance × Option AlertAction :=
  match a.state with
  | .normal =>
    if F64.le a.triggerThreshold (.num currentRate) then ({ a with state := .pending now }, none)
    else (a, none)
  | .pending since =>
    if F64.lt (.num currentRate) a.triggerThreshold then ({ a with state := .normal }, none)
    else if now.durationSince since ≥ a.triggerFor then ({ a with state := .firing now }, some .fire)
    else (a, none)
  | .firing lastUpdate =>
    if F64.lt (.num currentRate) a.recoverThreshold then ({ a with state := .recovering now }, none)
    else if now.durationSince lastUpdate ≥ a.mitigationUpdateInterval then
      ({ a with state := .firing now }, some .update)
    else (a, none)
  | .recovering since =>
    if F64.le a.recoverThreshold (.num currentRate) then ({ a with state := .firing now }, none)
    else if now.durationSince since ≥ a.recoverFor then ({ a with state := .normal }, some .resolve)
    else (a, none)

def buildPayload (a : AlertInstance) (value : ℚ) (action : String) (mitigationRules : List MitigationRule) :
    AlertPayload :=
  { alertId := a.alertId
    action := action
    ipPrefix := a.ipPrefix
    protocol := a.protocol.toString
    direction := a.direction.toString
    metric := a.metric.toString
    value := value
    threshold := if action = "trigger" ∨ action = "update" then a.triggerThreshold else a.recoverThreshold
    labels := a.labels
    mitigationRules := mitigationRules }

end AlertInstance

structure AlertManager where
  alerts : List AlertInstance
  scriptPath : Option String
  deriving DecidableEq

/-! ## Reload -/

/-- The durations of a rule's policy, with the defaults for a rule that has none. -/
def Config.policyOf (c : Config) (rule : RuleConfig) : Duration × Duration :=
  let default := (Duration.fromSecs 10, Duration.fromSecs 20)
  match rule.alertPolicy with
  | some policyName =>
    match c.alertPolicies.lookup policyName with
    | some policy => (policy.triggerFor, policy.recoverFor)
    | none => default
  | none => default

/-- The thresholds of a direction, in the order in which they become alerts. -/
def MetricThresholds.pairs (m : MetricThresholds) : List (MetricType × ThresholdPair) :=
  [(MetricType.bps, m.bps), (.pps, m.pps), (.fps, m.fps)].filterMap fun (metric, threshold) =>
    threshold.map fun t => (metric, t)

/-- The alerts of one protocol and direction of a rule. -/
def addMetricAlerts (ipPrefix : String) (protocol : ProtocolCategory) (direction : Direction)
    (thresholds : MetricThresholds) (policy : Duration × Duration) (mitigationUpdateInterval : Duration)
    (labels : HashMap String String) : List AlertInstance :=
  thresholds.pairs.map fun (metric, threshold) =>
    { state := .normal
      alertId := .nil
      ipPrefix := ipPrefix
      protocol := protocol
      direction := direction
      metric := metric
      triggerThreshold := threshold.trigger
      recoverThreshold := threshold.recoverValue
      triggerFor := policy.1
      recoverFor := policy.2
      mitigationUpdateInterval := mitigationUpdateInterval
      labels := labels }

/-- The alerts of a configuration, before any state is carried over. -/
def Config.buildAlerts (T : IpText) (c : Config) : List AlertInstance :=
  c.rules.flatMap fun rule =>
    rule.thresholds.toPairs.flatMap fun (protocol, directions) =>
      directions.toPairs.flatMap fun (direction, dirMetrics) =>
        addMetricAlerts (T.net rule.ipPrefix) protocol direction dirMetrics.metrics (c.policyOf rule)
          c.global.mitigationUpdateInterval rule.labels

/-- The keys of the alerts of a configuration. -/
def Config.alertKeys (T : IpText) (c : Config) : List AlertKey := (c.buildAlerts T).map AlertInstance.key

/-- Give every alert the state stored under its key, which is taken out. -/
def carryOver : HashMap AlertKey (AlertState × Uuid) → List AlertInstance → List AlertInstance
  | _, [] => []
  | previous, alert :: alerts =>
    match previous.lookup alert.key with
    | some (state, alertId) =>
      { alert with state := state, alertId := alertId } :: carryOver (previous.erase alert.key) alerts
    | none => alert :: carryOver previous alerts

namespace AlertManager

def new (scriptPath : Option String) : AlertManager := ⟨[], scriptPath⟩

/-- The states by key; of two alerts with one key the later is kept. -/
def previous (m : AlertManager) : HashMap AlertKey (AlertState × Uuid) :=
  HashMap.ofPairs (m.alerts.map fun a => (a.key, (a.state, a.alertId)))

def reloadConfig (T : IpText) (m : AlertManager) (config : Config) : AlertManager :=
  { alerts := carryOver m.previous (config.buildAlerts T)
    scriptPath := match config.global.alertScript with
      | some script => some script
      | none => m.scriptPath }

end AlertManager

/-! ## Evaluation -/

def RateSnapshot.value (s : RateSnapshot) : MetricType → ℚ
  | .bps => s.bps
  | .pps => s.pps
  | .fps => s.fps

/-- The rate of the first snapshot with the prefix, protocol and direction. -/
def findRate (snapshots : List RateSnapshot) (ipPrefix : String) (protocol : ProtocolCategory)
    (direction : Direction) (metric : MetricType) : ℚ :=
  match snapshots.find? fun s => s.ipPrefix = ipPrefix ∧ s.protocol = protocol ∧ s.direction = direction with
  | some s => s.value metric
  | none => 0

/-- The rate of an alert. -/
def AlertInstance.rate (a : AlertInstance) (snapshots : List RateSnapshot) : ℚ :=
  findRate snapshots a.ipPrefix a.protocol a.direction a.metric

/-- The variables of the loop of `evaluate`, and the number of ids issued so far. -/
structure Tick where
  processor : FlowProcessor
  drained : HashMap (String × Direction) (List FlowRecord)
  payloads : List AlertPayload
  issued : ℕ
  deriving DecidableEq

namespace Tick

/-- The captured flows of a key: drained from the processor once, then shared. -/
def drain (T : IpText) (t : Tick) (ipPrefix : String) (direction : Direction) : List FlowRecord × Tick :=
  match t.drained.lookup (ipPrefix, direction) with
  | some flows => (flows, t)
  | none =>
    let (flows, processor) := t.processor.drainCapturedFlows T ipPrefix direction
    (flows, { t with processor := processor, drained := t.drained.insert (ipPrefix, direction) flows })

end Tick

/-- The suggestions for an alert, from the captured flows of its key. -/
def AlertInstance.suggest (T : IpText) (ord : ℕ → HashOrder) (a : AlertInstance) (flows : List FlowRecord)
    (currentRate : ℚ) : List MitigationRule :=
  if flows.isEmpty then []
  else
    match T.parse a.ipPrefix with
    | some ipPrefix =>
      analyzeFlows T ord flows ipPrefix a.direction a.protocol currentRate a.triggerThreshold
    | none => []

section Evaluate

variable (T : IpText) (ords : ℕ → ℕ → HashOrder) (snapshots : List RateSnapshot) (now : Instant)

/-- An action of an alert: a new id if it fires, the suggestions unless it resolves, the payload.
`ords` gives the orders in which the analysis for the payload of a number walks its hash maps. -/
def act (t : Tick) (alert : AlertInstance) (currentRate : ℚ) (action : AlertAction) : Tick × AlertInstance :=
  let (alert, issued) := match action with
    | .fire => ({ alert with alertId := .v4 t.issued }, t.issued + 1)
    | _ => (alert, t.issued)
  let (mitigationRules, t) := match action with
    | .resolve => ([], t)
    | _ =>
      let (flows, t) := t.drain T alert.ipPrefix alert.direction
      (alert.suggest T (ords t.payloads.length) flows currentRate, t)
  ({ t with
      payloads := t.payloads ++ [alert.buildPayload currentRate action.toString mitigationRules]
      issued := issued }, alert)

/-- One alert of the loop. -/
def evaluateAlert (t : Tick) (alert : AlertInstance) : Tick × AlertInstance :=
  let currentRate := alert.rate snapshots
  match alert.evaluate currentRate now with
  | (alert, some action) => act T ords t alert currentRate action
  | (alert, none) => (t, alert)

def evaluateAlerts : Tick → List AlertInstance → Tick × List AlertInstance
  | t, [] => (t, [])
  | t, alert :: alerts =>
    let (t, alert) := evaluateAlert T ords snapshots now t alert
    let (t, alerts) := evaluateAlerts t alerts
    (t, alert :: alerts)

/-- One tick: the manager, and the loop variables at the end. -/
def AlertManager.evaluate (m : AlertManager) (processor : FlowProcessor) (issued : ℕ) : AlertManager × Tick :=
  let (t, alerts) := evaluateAlerts T ords snapshots now ⟨processor, ∅, [], issued⟩ m.alerts
  ({ m with alerts := alerts }, t)

end Evaluate

end NetAlert

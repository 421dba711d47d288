import NetAlert.Alert
import NetAlert.Lib.Fold

/-!
# NetAlert.Daemon — the daemon around processor and alert manager (`main.rs`)

The tasks of the daemon share its parts under locks, so a run is a sequence of events: a receiver puts a
flow record on the channel, the flow processor takes one off it, the ticker evaluates the alerts, or a
SIGHUP reloads the configuration.  `Daemon.run` has no result if the processing of a flow panics.
-/

namespace NetAlert

/-- `Config::load`, from the parsed text on. -/
def Config.load (T : IpText) (parsed : Except String Config) : Except String Config := do
  let config ← parsed
  config.validate T
  return config

/-- What loads was parsed and is valid. -/
theorem Config.load_ok_iff {T : IpText} {parsed : Except String Config} {c : Config} :
    Config.load T parsed = .ok c ↔ parsed = .ok c ∧ c.validate T = .ok () := by
  unfold Config.load
  rw [Fold.except_bind_ok]
  constructor
  · rintro ⟨c', hc', h⟩
    obtain ⟨_, hv, h⟩ := Fold.except_bind_ok.mp h
    obtain rfl := Except.ok.inj h
    exact ⟨hc', hv⟩
  · rintro ⟨hc, hv⟩
    exact ⟨c, hc, Fold.except_bind_ok.mpr ⟨(), hv, rfl⟩⟩

/-- The capacity of the channel between receivers and flow processor. -/
def channelCapacity : ℕ := 10000

/-- What the tasks share, and the number of ids issued so far. -/
structure Daemon where
  exporterRates : HashMap IpAddr ℕ
  channel : List FlowRecord
  processor : FlowProcessor
  alertManager : AlertManager
  issued : ℕ

inductive Event where
  | receive (samplerAddress : Option IpAddr) (flow : FlowRecord)
  | process
  | tick (currentTime : ℕ) (now : Instant)
  | reload (parsed : Except String Config)

/-- The orders in which one tick walks its hash maps. -/
structure TickOrders where
  rates : HashOrder
  analysis : ℕ → ℕ → HashOrder

namespace Daemon

variable (T : IpText)

/-- `main`, up to its first event. -/
def start (parsed : Except String Config) : Except String Daemon := do
  let config ← Config.load T parsed
  let processor ← (FlowProcessor.new config.global.window.asSecs).reloadConfig T config
  return {
    exporterRates := config.exporterSamplingRates
    channel := []
    processor := processor
    alertManager := (AlertManager.new config.global.alertScript).reloadConfig T config
    issued := 0 }

/-- `run_receiver_loop`: the sampling rate configured for the exporter replaces that of the record, which
is dropped if the channel is full. -/
def receive (d : Daemon) (samplerAddress : Option IpAddr) (flow : FlowRecord) : Daemon :=
  let flow := match samplerAddress.bind fun address => d.exporterRates.lookup address with
    | some rate => { flow with samplingRate := rate }
    | none => flow
  if d.channel.length < channelCapacity then { d with channel := d.channel ++ [flow] } else d

/-- `run_flow_processor`, which waits on an empty channel. -/
def process (d : Daemon) : Option Daemon :=
  match d.channel with
  | [] => some d
  | flow :: channel => do
    let processor ← d.processor.processFlow flow
    return { d with channel := channel, processor := processor }

/-- `run_ticker`: the daemon after a tick and the payloads it sends. -/
def tick (orders : TickOrders) (d : Daemon) (currentTime : ℕ) (now : Instant) : Daemon × List AlertPayload :=
  let snapshots := d.processor.computeAllRates T orders.rates currentTime
  let (alertManager, t) := d.alertManager.evaluate T orders.analysis snapshots now d.processor d.issued
  ({ d with processor := t.processor, alertManager := alertManager, issued := t.issued }, t.payloads)

/-- `reload_config`: if the processor refuses the configuration, the exporter rates have been replaced. -/
def reloadConfig (d : Daemon) (parsed : Except String Config) : Daemon :=
  match Config.load T parsed with
  | .error _ => d
  | .ok config =>
    let d := { d with exporterRates := config.exporterSamplingRates }
    match d.processor.reloadConfig T config with
    | .error _ => d
    | .ok processor =>
      { d with processor := processor, alertManager := d.alertManager.reloadConfig T config }

/-- One event, and the payloads it sends. -/
def step (orders : TickOrders) (d : Daemon) : Event → Option (Daemon × List AlertPayload)
  | .receive samplerAddress flow => some (d.receive samplerAddress flow, [])
  | .process => d.process.map fun d => (d, [])
  | .tick currentTime now => some (d.tick T orders currentTime now)
  | .reload parsed => some (d.reloadConfig T parsed, [])

/-- A run, and the payloads of each of its events. -/
def run (orders : ℕ → TickOrders) (d : Daemon) (events : List Event) :
    Option (Daemon × List (List AlertPayload)) :=
  events.zipIdx.foldlM (fun (s : Daemon × List (List AlertPayload)) (e, i) => do
    let (d, payloads) ← s.1.step T (orders i) e
    return (d, s.2 ++ [payloads])) (d, [])

variable {T}

@[simp] theorem run_nil (orders : ℕ → TickOrders) (d : Daemon) : d.run T orders [] = some (d, []) := rfl

theorem run_concat (orders : ℕ → TickOrders) (d : Daemon) (events : List Event) (e : Event) :
    d.run T orders (events ++ [e]) = (do
      let s ← d.run T orders events
      let (d, payloads) ← s.1.step T (orders events.length) e
      return (d, s.2 ++ [payloads])) := by
  simp [run, List.zipIdx_append]

theorem process_cases {d d' : Daemon} (h : d.process = some d') : (d.channel = [] ∧ d' = d) ∨
    ∃ flow channel p, d.channel = flow :: channel ∧ d.processor.processFlow flow = some p ∧
      d' = { d with channel := channel, processor := p } := by
  unfold process at h
  cases hchannel : d.channel with
  | nil =>
    rw [hchannel] at h
    exact .inl ⟨rfl, (Option.some.inj h).symm⟩
  | cons flow channel =>
    rw [hchannel] at h
    obtain ⟨p, hp, h⟩ := Option.bind_eq_some_iff.mp h
    exact .inr ⟨flow, channel, p, rfl, hp, (Option.some.inj h).symm⟩

/-- The last event of a run that went through. -/
theorem run_concat_ok {orders : ℕ → TickOrders} {d : Daemon} {events : List Event} {e : Event}
    {s : Daemon × List (List AlertPayload)} (h : d.run T orders (events ++ [e]) = some s) :
    ∃ s₁ d' payloads, d.run T orders events = some s₁ ∧
      s₁.1.step T (orders events.length) e = some (d', payloads) ∧ s = (d', s₁.2 ++ [payloads]) := by
  rw [run_concat] at h
  obtain ⟨s₁, h₁, h⟩ := Option.bind_eq_some_iff.mp h
  obtain ⟨⟨d', payloads⟩, h₂, h⟩ := Option.bind_eq_some_iff.mp h
  exact ⟨s₁, d', payloads, h₁, h₂, (Option.some.inj h).symm⟩

/-- **Runs** keep what each of their events keeps. -/
theorem run_keeps (I : Daemon → Prop) {events : List Event} (hstep : ∀ e ∈ events, ∀ orders d d' payloads,
    I d → step T orders d e = some (d', payloads) → I d') {orders : ℕ → TickOrders} {d : Daemon} (h : I d)
    {s : Daemon × List (List AlertPayload)} (hs : d.run T orders events = some s) : I s.1 := by
  induction events using List.reverseRecOn generalizing s with
  | nil =>
    cases hs
    exact h
  | append_singleton events e ih =>
    rw [run_concat] at hs
    obtain ⟨s₁, h₁, hs⟩ := Option.bind_eq_some_iff.mp hs
    obtain ⟨⟨d', payloads⟩, h₂, hs⟩ := Option.bind_eq_some_iff.mp hs
    cases hs
    have h₃ := ih (fun e' he' => hstep e' (List.mem_append_left _ he')) h₁
    exact hstep e (by simp) _ _ _ _ h₃ h₂

/-- **Runs** whose events all go through. -/
theorem run_total (I : Daemon → Prop) {events : List Event} (hstep : ∀ e ∈ events, ∀ orders d, I d →
    ∃ d' payloads, step T orders d e = some (d', payloads) ∧ I d') (orders : ℕ → TickOrders) {d : Daemon}
    (h : I d) : ∃ s, d.run T orders events = some s ∧ I s.1 := by
  induction events using List.reverseRecOn with
  | nil => exact ⟨(d, []), rfl, h⟩
  | append_singleton events e ih =>
    obtain ⟨s, hs, hI⟩ := ih fun e' he' => hstep e' (List.mem_append_left _ he')
    obtain ⟨d', payloads, hd', hI'⟩ := hstep e (by simp) (orders events.length) s.1 hI
    exact ⟨(d', s.2 ++ [payloads]), by rw [run_concat, hs]; simp [hd'], hI'⟩

/-- What `main` starts with. -/
theorem start_ok {c : Config} {d : Daemon} (h : start T (.ok c) = .ok d) : c.validate T = .ok () ∧
    ∃ processor, (FlowProcessor.new c.global.window.asSecs).reloadConfig T c = .ok processor ∧ d =
      { exporterRates := c.exporterSamplingRates
        channel := []
        processor := processor
        alertManager := (AlertManager.new c.global.alertScript).reloadConfig T c
        issued := 0 } := by
  obtain ⟨config, hload, h⟩ := Fold.except_bind_ok.mp h
  obtain ⟨hc, hv⟩ := Config.load_ok_iff.mp hload
  obtain rfl := Except.ok.inj hc
  obtain ⟨processor, hp, h⟩ := Fold.except_bind_ok.mp h
  exact ⟨hv, processor, hp, (Except.ok.inj h).symm⟩

theorem reloadConfig_ok {d : Daemon} {c : Config} {processor : FlowProcessor} (hv : c.validate T = .ok ())
    (hp : d.processor.reloadConfig T c = .ok processor) : d.reloadConfig T (.ok c) =
      { d with
        exporterRates := c.exporterSamplingRates
        processor := processor
        alertManager := d.alertManager.reloadConfig T c } := by
  have hload : Config.load T (.ok c) = .ok c := Config.load_ok_iff.mpr ⟨rfl, hv⟩
  simp only [reloadConfig, hload, hp]

end Daemon

/-! ## Daemons that run on a configuration -/

/-- Every event but a reload. -/
def Event.Steady : Event → Prop
  | .reload _ => False
  | _ => True

/-- The daemon has loaded the configuration, and since then it has seen flows and ticks only. -/
inductive Running (T : IpText) (c : Config) : Daemon → Prop
  | start {d : Daemon} (h : Daemon.start T (.ok c) = .ok d) : Running T c d
  | reload {d : Daemon} {processor : FlowProcessor} (hv : c.validate T = .ok ())
      (hp : d.processor.reloadConfig T c = .ok processor) : Running T c (d.reloadConfig T (.ok c))
  | step {d d' : Daemon} {orders : TickOrders} {e : Event} {payloads : List AlertPayload} (h : Running T c d)
      (he : e.Steady) (hs : d.step T orders e = some (d', payloads)) : Running T c d'

/-- **Runs** of flows and ticks. -/
theorem Running.run {T : IpText} {c : Config} {d : Daemon} (h : Running T c d) {orders : ℕ → TickOrders}
    {events : List Event} (hsteady : ∀ e ∈ events, e.Steady) {s : Daemon × List (List AlertPayload)}
    (hs : d.run T orders events = some s) : Running T c s.1 :=
  Daemon.run_keeps (Running T c) (fun e he _ _ _ _ hr hd => hr.step (hsteady e he) hd) h hs

end NetAlert

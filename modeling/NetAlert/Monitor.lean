import NetAlert.OwnRate
import NetAlert.Restart
import NetAlert.Staleness
import NetAlert.Startup

/-!
# NetAlert.Monitor — what the daemon is for

`Monitor` states the purpose of the daemon, without prefix table, ring buffers and snapshots.  It remembers every
flow since its configuration was loaded and evaluates an alert at the rate of those flows of the window that the
alert is about.

* `Refines.step`: as long as flows come in time, one event of the daemon is one event of the monitor.
* `daemon_refines_monitor`: so in every run, with any reloads, the daemon sends the payloads of the monitor.
-/

namespace NetAlert

/-! ## The monitor -/

/-- Bits, packets or flows per second, of flows received within `windowSecs` seconds. -/
def MetricType.rateOf (metric : MetricType) (windowSecs : ℕ) (flows : List FlowRecord) : ℚ :=
  match metric with
  | .bps => 8 * (flows.map FlowRecord.sampledBytes).sum / windowSecs
  | .pps => (flows.map FlowRecord.sampledPackets).sum / windowSecs
  | .fps => flows.length / windowSecs

instance (windowSecs currentTime : ℕ) : DecidablePred (FlowRecord.InWindow windowSecs currentTime) :=
  fun _ => inferInstanceAs (Decidable (_ ∧ _))

/-- The flow has the protocol of the alert and crosses the border of its prefix in its direction. -/
def AlertInstance.Concerns (T : IpText) (a : AlertInstance) (f : FlowRecord) : Prop :=
  a.protocol ∈ f.categories ∧ ∃ net ∈ T.parse a.ipPrefix, f.directionFor net.contains = some a.direction

instance (T : IpText) (a : AlertInstance) : DecidablePred (a.Concerns T) :=
  fun _ => inferInstanceAs (Decidable (_ ∧ ∃ net ∈ T.parse a.ipPrefix, _))

/-- The rate of the traffic that the alert is about. -/
def AlertInstance.trafficRate (T : IpText) (a : AlertInstance) (windowSecs currentTime : ℕ)
    (flows : List FlowRecord) : ℚ :=
  a.metric.rateOf windowSecs (flows.filter fun f => f.InWindow windowSecs currentTime ∧ a.Concerns T f)

/-- The payload without its suggestions. -/
def AlertPayload.bare (payload : AlertPayload) : AlertPayload := { payload with mitigationRules := [] }

/-- The alerts of a tick at given rates: the ids issued, the alerts after it and what they send. -/
def monitorAlerts (rate : AlertInstance → ℚ) (now : Instant) :
    ℕ → List AlertInstance → ℕ × List AlertInstance × List AlertPayload
  | issued, [] => (issued, [], [])
  | issued, a :: alerts =>
    let (a', action) := a.evaluate (rate a) now
    let (a', issued) :=
      if action = some .fire then ({ a' with alertId := .v4 issued }, issued + 1) else (a', issued)
    let (issued, alerts, payloads) := monitorAlerts rate now issued alerts
    (issued, a' :: alerts,
      (action.toList.map fun action => a'.buildPayload (rate a) action.toString []) ++ payloads)

structure Monitor where
  exporterRates : HashMap IpAddr ℕ
  channel : List FlowRecord
  windowSecs : ℕ
  flows : List FlowRecord
  alerts : List AlertInstance
  issued : ℕ

namespace Monitor

variable (T : IpText)

def start (c : Config) : Monitor where
  exporterRates := c.exporterSamplingRates
  channel := []
  windowSecs := c.global.window.asSecs
  flows := []
  alerts := c.buildAlerts T
  issued := 0

def receive (m : Monitor) (samplerAddress : Option IpAddr) (flow : FlowRecord) : Monitor :=
  let flow := match samplerAddress.bind fun address => m.exporterRates.lookup address with
    | some rate => { flow with samplingRate := rate }
    | none => flow
  if m.channel.length < channelCapacity then { m with channel := m.channel ++ [flow] } else m

def process (m : Monitor) : Monitor :=
  match m.channel with
  | [] => m
  | flow :: channel => { m with channel := channel, flows := m.flows ++ [flow] }

def tick (m : Monitor) (currentTime : ℕ) (now : Instant) : Monitor × List AlertPayload :=
  let (issued, alerts, payloads) :=
    monitorAlerts (fun a => a.trafficRate T m.windowSecs currentTime m.flows) now m.issued m.alerts
  ({ m with alerts := alerts, issued := issued }, payloads)

/-- A configuration without host bits replaces the one in force.  Its alerts take over states and ids, the flows
are forgotten, and a window below a second is not taken. -/
def reload (m : Monitor) (parsed : Except String Config) : Monitor :=
  match Config.load T parsed with
  | .error _ => m
  | .ok c =>
    let m := { m with exporterRates := c.exporterSamplingRates }
    if ∀ r ∈ c.rules, r.ipPrefix.trunc = r.ipPrefix then
      { m with
        windowSecs := if c.global.window.asSecs > 0 then c.global.window.asSecs else m.windowSecs
        flows := []
        alerts := (AlertManager.reloadConfig T ⟨m.alerts, none⟩ c).alerts }
    else m

/-- One event, and what it sends. -/
def step (m : Monitor) : Event → Monitor × List AlertPayload
  | .receive samplerAddress flow => (m.receive samplerAddress flow, [])
  | .process => (m.process, [])
  | .tick currentTime now => m.tick T currentTime now
  | .reload parsed => (m.reload T parsed, [])

/-- A run, and what each of its events sends. -/
def run (m : Monitor) (events : List Event) : Monitor × List (List AlertPayload) :=
  events.foldl (fun s e => ((s.1.step T e).1, s.2 ++ [(s.1.step T e).2])) (m, [])

/-- A flow is less than a window behind the flows before it, and a tick not before any flow. -/
def Timely (m : Monitor) : Event → Prop
  | .process => ∀ f ∈ m.channel.head?, ∀ g ∈ m.flows, g.timeReceived < f.timeReceived + m.windowSecs
  | .tick currentTime _ => m.windowSecs ≤ currentTime + 1 ∧ ∀ f ∈ m.flows, f.timeReceived ≤ currentTime
  | _ => True

instance (m : Monitor) : DecidablePred m.Timely
  | .process => inferInstanceAs (Decidable (∀ f ∈ m.channel.head?, _))
  | .tick _ _ => inferInstanceAs (Decidable (_ ∧ _))
  | .receive _ _ => .isTrue trivial
  | .reload _ => .isTrue trivial

/-- All events of a run come in time. -/
def TimelyRun (m : Monitor) (events : List Event) : Prop :=
  ∀ e ∈ events.zipIdx, (m.run T (events.take e.2)).1.Timely e.1

instance (m : Monitor) (events : List Event) : Decidable (m.TimelyRun T events) :=
  List.decidableBAll _ _

variable {T}

theorem run_concat (m : Monitor) (events : List Event) (e : Event) : m.run T (events ++ [e]) =
    (((m.run T events).1.step T e).1, (m.run T events).2 ++ [((m.run T events).1.step T e).2]) := by
  simp [run]

theorem TimelyRun.concat {m : Monitor} {events : List Event} {e : Event} (h : m.TimelyRun T (events ++ [e])) :
    m.TimelyRun T events ∧ (m.run T events).1.Timely e := by
  simp only [TimelyRun, List.zipIdx_append, List.mem_append, or_imp, forall_and] at h
  obtain ⟨hbefore, hlast⟩ := h
  refine ⟨fun e' he' => ?_, by simpa using hlast⟩
  have hle : e'.2 ≤ events.length := (List.snd_lt_of_mem_zipIdx he').le
  simpa only [List.take_append_of_le_length hle] using hbefore e' he'

end Monitor

/-! ## Daemon and monitor -/

/-- The daemon has the alerts of the monitor, and its buffers have counted the monitor's flows. -/
structure Refines (T : IpText) (d : Daemon) (m : Monitor) : Prop where
  exporterRates : d.exporterRates = m.exporterRates
  channel : d.channel = m.channel
  issued : d.issued = m.issued
  alerts : d.alertManager.alerts = m.alerts
  windowSecs : d.processor.windowSecs = m.windowSecs
  positive : 0 < m.windowSecs
  timely : m.flows.Pairwise fun f g => f.timeReceived < g.timeReceived + m.windowSecs
  table : TableOk d.processor.rules d.processor.prefixTable
  loaded : ∃ c, RunsOn T c m.alerts ∧
    List.Forall₂ (fun r rule => Counts r m.windowSecs m.flows rule) c.rules d.processor.rules

variable {T : IpText} {d : Daemon} {m : Monitor}

/-- **Loading** a configuration. -/
theorem Refines.load {c : Config} {p₀ p : FlowProcessor} (hp : p₀.reloadConfig T c = .ok p)
    (hW : 0 < p₀.reloadWindow c) (hd : d.processor = p) (hflows : m.flows = [])
    (hwindow : m.windowSecs = p₀.reloadWindow c) (hruns : RunsOn T c m.alerts)
    (hrates : d.exporterRates = m.exporterRates) (hchannel : d.channel = m.channel) (hissued : d.issued = m.issued)
    (halerts : d.alertManager.alerts = m.alerts) : Refines T d m := by
  obtain ⟨hF, hT, hw⟩ := reloadConfig_ok hp
  refine ⟨hrates, hchannel, hissued, halerts, ?_, ?_, ?_, ?_, c, hruns, ?_⟩
  · rw [hd, hw, hwindow]
  · rw [hwindow]
    exact hW
  · rw [hflows]
    exact List.Pairwise.nil
  · rw [hd]
    exact hT
  · rw [hd, hflows, hwindow]
    exact hF.imp fun _ _ hbuilt => hbuilt.counts

theorem Refines.start {c : Config} (hd : Daemon.start T (.ok c) = .ok d) (hW : 1 ≤ c.global.window.asSecs) :
    Refines T d (Monitor.start T c) := by
  obtain ⟨-, p, hp, rfl⟩ := Daemon.start_ok hd
  refine Refines.load hp ?_ rfl rfl (reloadWindow_start c).symm ?_ rfl rfl rfl (reload_new_alerts T _ c)
  · rw [reloadWindow_start]
    exact hW
  · show RunsOn T c (c.buildAlerts T)
    rw [← reload_new_alerts T none]
    exact reload_runsOn _ c

/-! ### Flows -/

/-- **One flow** is counted by the buffers it hits. -/
theorem Refines.flow (h : Refines T d m) {flow : FlowRecord}
    (hlate : ∀ g ∈ m.flows, g.timeReceived < flow.timeReceived + m.windowSecs) (channel : List FlowRecord) :
    ∃ p, d.processor.processFlow flow = some p ∧ Refines T { d with channel := channel, processor := p }
      { m with channel := channel, flows := m.flows ++ [flow] } := by
  obtain ⟨c, hruns, hcounts⟩ := h.loaded
  have hok : ∀ rule ∈ d.processor.rules, ∃ rule', rule.route flow = some rule' := by
    intro rule hrule
    obtain ⟨r, -, hr⟩ := Relate.forall₂_left_of_mem hcounts hrule
    obtain ⟨rule', hrule', -⟩ := hr.route h.positive flow
    exact ⟨rule', hrule'⟩
  obtain ⟨p, hp, hT, hw, hroute⟩ := processFlow_spec h.table hok
  refine ⟨p, hp, h.exporterRates, rfl, h.issued, h.alerts, hw.trans h.windowSecs, h.positive, ?_, hT, c, hruns, ?_⟩
  · rw [List.pairwise_append]
    refine ⟨h.timely, List.pairwise_singleton _ _, fun g hg f hf => ?_⟩
    rw [List.mem_singleton.mp hf]
    exact hlate g hg
  · refine Relate.forall₂_trans (fun r rule rule' hr hrule' => ?_) hcounts hroute
    obtain ⟨rule'', hrule'', hcounted⟩ := hr.route h.positive flow
    rw [hrule'] at hrule''
    cases hrule''
    exact hcounted

/-! ### Rates -/

theorem value_exactSnapshot (T : IpText) (W : ℕ) (r : RuleConfig) (k : BufferKey) (seen : List FlowRecord)
    (metric : MetricType) : (exactSnapshot T W r k seen).value metric = metric.rateOf W seen := by
  cases metric <;> rfl

/-- The flows of the window that count towards a buffer are those that its alerts are about. -/
theorem windowFlows_eq (T : IpText) {r : RuleConfig} {a : AlertInstance} (ha : a.ipPrefix = T.net r.ipPrefix)
    (W now : ℕ) (flows : List FlowRecord) : r.windowFlows ⟨a.protocol, a.direction⟩ W now flows =
      flows.filter fun f => f.InWindow W now ∧ a.Concerns T f := by
  refine List.filter_congr fun f _ => ?_
  simp [AlertInstance.Concerns, FlowRecord.InWindow, ha, and_comm]

/-- **Rates**: what the snapshots tell an alert is the rate of its traffic, whichever rule with its prefix
answers. -/
theorem Refines.rate (h : Refines T d m) {currentTime : ℕ} {now : Instant}
    (ht : m.Timely (.tick currentTime now)) (ord : HashOrder) {a : AlertInstance} (ha : a ∈ m.alerts) :
    a.rate (d.processor.computeAllRates T ord currentTime) = a.trafficRate T m.windowSecs currentTime m.flows := by
  obtain ⟨c, hruns, hcounts⟩ := h.loaded
  obtain ⟨a₀, ha₀, hreb⟩ := Relate.forall₂_left_of_mem hruns ha
  rw [buildAlerts_eq] at ha₀
  obtain ⟨r, hr, ha₀⟩ := List.mem_flatMap.mp ha₀
  obtain ⟨htext, hkey⟩ := mem_ruleAlerts ha₀
  have htext' : a.ipPrefix = T.net r.ipPrefix := by rw [hreb]; exact htext
  have hkey' : ⟨a.protocol, a.direction⟩ ∈ r.bufferKeys := by rw [hreb]; exact hkey
  obtain ⟨own, hown, hcount⟩ := Relate.forall₂_left_of_mem hcounts.flip hr
  obtain ⟨b₀, hb₀, -⟩ := hcount.counted _ hkey'
  rw [AlertInstance.rate, findRate_computeAllRates]
  cases hfind : d.processor.bufferOf T a.ipPrefix ⟨a.protocol, a.direction⟩ with
  | none =>
    have hnone := List.findSome?_eq_none_iff.mp hfind own hown
    rw [if_pos (by rw [htext', hcount.ipPrefix]), hb₀] at hnone
    cases hnone
  | some b =>
    obtain ⟨rule, hrule, hb⟩ := List.exists_of_findSome?_eq_some hfind
    split_ifs at hb with hprefix
    obtain ⟨r', -, hcount'⟩ := Relate.forall₂_left_of_mem hcounts hrule
    have hsnap := hcount'.snapshot T h.timely ht.1 ht.2 (HashMap.mem_toPairs.mpr hb)
    rw [Option.map_some, Option.getD_some, ← value_snapshot T currentTime rule ⟨a.protocol, a.direction⟩, hsnap,
      value_exactSnapshot, windowFlows_eq T (by rw [← hprefix, hcount'.ipPrefix])]
    rfl

/-! ### Ticks -/

/-- **The alerts of a tick** act as at the given rates, if those are the rates they read. -/
theorem AllEvaluated.monitorAlerts {ords : ℕ → ℕ → HashOrder} {snapshots : List RateSnapshot} {now : Instant}
    {rate : AlertInstance → ℚ} {t t' : Tick} {as as' : List AlertInstance}
    (h : AllEvaluated T ords snapshots now t as t' as') (hrate : ∀ a ∈ as, a.rate snapshots = rate a) :
    ∃ payloads, NetAlert.monitorAlerts rate now t.issued as = (t'.issued, as', payloads) ∧
      t'.payloads.map AlertPayload.bare = t.payloads.map AlertPayload.bare ++ payloads := by
  induction h with
  | nil t => exact ⟨[], rfl, (List.append_nil _).symm⟩
  | @cons t t₁ t₂ a a' as as' h hs ih =>
    obtain ⟨payloads, hrest, hsent⟩ := ih fun b hb => hrate b (List.mem_cons_of_mem _ hb)
    have ha := hrate a List.mem_cons_self
    have haction : (a.evaluate (rate a) now).2 = a.reaction snapshots now := by rw [AlertInstance.reaction, ha]
    have hstate : (a.evaluate (rate a) now).1 = { a with state := a'.state } := by
      rw [h.state, ha]
      exact a.evaluate_frame _ _
    have hnew : (if a.reaction snapshots now = some .fire then
        ({ a with state := a'.state, alertId := Uuid.v4 t.issued }, t.issued + 1)
        else ({ a with state := a'.state }, t.issued)) = (a', t₁.issued) := by
      have hrebuilt : a' = { a with state := a'.state, alertId := a'.alertId } := h.rebuilt
      have hid := h.alertId
      rw [h.issued]
      split_ifs at hid ⊢ with hfire <;> rw [hrebuilt, hid]
    refine ⟨(a.reaction snapshots now).toList.map (fun action => a'.buildPayload (rate a) action.toString []) ++
      payloads, ?_, ?_⟩
    · simp only [NetAlert.monitorAlerts, haction, hstate, hnew, hrest]
    · rw [hsent, h.payloads, List.map_append, List.append_assoc, List.map_map, ha]
      rfl

/-- A drain takes nothing out of the buffers. -/
theorem counts_drain {c : Config} {W : ℕ} {flows : List FlowRecord} {p : FlowProcessor}
    (h : List.Forall₂ (fun r rule => Counts r W flows rule) c.rules p.rules) (ipPrefix : String)
    (direction : Direction) : List.Forall₂ (fun r rule => Counts r W flows rule) c.rules
      (p.drainCapturedFlows T ipPrefix direction).2.rules := by
  refine List.forall₂_map_right_iff.mpr (h.imp fun r rule hr => ?_)
  split_ifs
  · exact ⟨hr.ipPrefix, hr.network, hr.labels, hr.missing, hr.counted⟩
  · exact hr

/-- **A tick.** -/
theorem Refines.tick (h : Refines T d m) {currentTime : ℕ} {now : Instant}
    (ht : m.Timely (.tick currentTime now)) (orders : TickOrders) :
    Refines T (d.tick T orders currentTime now).1 (m.tick T currentTime now).1 ∧
      (d.tick T orders currentTime now).2.map AlertPayload.bare = (m.tick T currentTime now).2 := by
  obtain ⟨t, alerts, hev, htick⟩ := Daemon.tick_eq (T := T) orders d currentTime now
  have hrates : ∀ a ∈ d.alertManager.alerts, a.rate (d.processor.computeAllRates T orders.rates currentTime) =
      a.trafficRate T m.windowSecs currentTime m.flows := fun a ha => h.rate ht _ (h.alerts ▸ ha)
  obtain ⟨payloads, hmonitor, hsent⟩ := hev.monitorAlerts hrates
  obtain ⟨c, hruns, hcounts⟩ := h.loaded
  have hlayout : t.processor.layout = d.processor.layout :=
    hev.processor_keeps (fun p => p.layout = d.processor.layout)
      (fun p ipPrefix _ hp => (drainCapturedFlows_layout T p ipPrefix).trans hp) rfl
  have hkeeps : List.Forall₂ (fun r rule => Counts r m.windowSecs m.flows rule) c.rules t.processor.rules :=
    hev.processor_keeps (fun p => List.Forall₂ (fun r rule => Counts r m.windowSecs m.flows rule) c.rules p.rules)
      (fun p ipPrefix direction hp => counts_drain hp ipPrefix direction) hcounts
  rw [h.alerts, h.issued] at hmonitor
  have htick' : m.tick T currentTime now = ({ m with alerts := alerts, issued := t.issued }, payloads) := by
    simp only [Monitor.tick, hmonitor]
  rw [h.alerts] at hev
  rw [htick, htick']
  refine ⟨⟨h.exporterRates, h.channel, rfl, rfl, ?_, h.positive, h.timely, h.table.of_layout hlayout, c,
    RunsOn.rebuilt hruns hev.rebuilt, hkeeps⟩, by simpa using hsent⟩
  exact (congrArg Layout.windowSecs hlayout).trans h.windowSecs

/-! ### Reloads -/

/-- **A reload**, taken or refused. -/
theorem Refines.reload (h : Refines T d m) (parsed : Except String Config) :
    Refines T (d.reloadConfig T parsed) (m.reload T parsed) := by
  unfold Daemon.reloadConfig Monitor.reload
  cases hload : Config.load T parsed with
  | error e => exact h
  | ok c =>
    simp only
    by_cases hbits : ∀ r ∈ c.rules, r.ipPrefix.trunc = r.ipPrefix
    · obtain ⟨p, hp⟩ := reloadConfig_total T d.processor hbits
      rw [if_pos hbits, hp]
      have hwindow : d.processor.reloadWindow c =
          if c.global.window.asSecs > 0 then c.global.window.asSecs else m.windowSecs := by
        rw [FlowProcessor.reloadWindow, h.windowSecs]
      refine Refines.load hp ?_ rfl rfl hwindow.symm (reload_runsOn _ c) rfl h.channel h.issued ?_
      · rw [hwindow]
        split_ifs with hpos
        · exact hpos
        · exact h.positive
      · show carryOver d.alertManager.previous _ = carryOver (AlertManager.previous ⟨m.alerts, none⟩) _
        rw [AlertManager.previous, h.alerts]
        rfl
    · have herror : ∃ e, d.processor.reloadConfig T c = .error e := by
        cases hp : d.processor.reloadConfig T c with
        | error e => exact ⟨e, rfl⟩
        | ok p => exact absurd (trunc_eq_of_reload hp) hbits
      obtain ⟨e, he⟩ := herror
      rw [if_neg hbits, he]
      exact ⟨rfl, h.channel, h.issued, h.alerts, h.windowSecs, h.positive, h.timely, h.table, h.loaded⟩

/-! ## Runs -/

/-- **One event** of the daemon is one event of the monitor. -/
theorem Refines.step (h : Refines T d m) {e : Event} (ht : m.Timely e) (orders : TickOrders) :
    ∃ d' payloads, d.step T orders e = some (d', payloads) ∧ Refines T d' (m.step T e).1 ∧
      payloads.map AlertPayload.bare = (m.step T e).2 := by
  cases e with
  | receive samplerAddress flow =>
    refine ⟨_, _, rfl, ?_, rfl⟩
    unfold Daemon.receive Monitor.step Monitor.receive
    rw [h.exporterRates, h.channel]
    simp only
    split_ifs
    · exact ⟨rfl, rfl, h.issued, h.alerts, h.windowSecs, h.positive, h.timely, h.table, h.loaded⟩
    · exact h
  | process =>
    have hchannel := h.channel
    cases hm : m.channel with
    | nil =>
      rw [hm] at hchannel
      refine ⟨d, [], by simp [Daemon.step, Daemon.process, hchannel], ?_, rfl⟩
      simp only [Monitor.step, Monitor.process, hm]
      exact h
    | cons flow channel =>
      rw [hm] at hchannel
      obtain ⟨p, hp, hflow⟩ := h.flow (ht flow (by simp [hm])) channel
      have hstep : d.step T orders .process = some ({ d with channel := channel, processor := p }, []) := by
        simp [Daemon.step, Daemon.process, hchannel, hp]
      refine ⟨_, [], hstep, ?_, rfl⟩
      simp only [Monitor.step, Monitor.process, hm]
      exact hflow
  | tick currentTime now =>
    obtain ⟨hd, hsent⟩ := h.tick ht orders
    exact ⟨_, _, rfl, hd, hsent⟩
  | reload parsed => exact ⟨_, _, rfl, h.reload parsed, rfl⟩

/-- **Runs** of both, side by side: what relates them before every event relates them at the end. -/
theorem simulates {R : List Event → Daemon → Monitor → Prop} {events : List Event}
    (hstep : ∀ before e d m orders, R before d m → m.Timely e → ∃ d' payloads,
      d.step T orders e = some (d', payloads) ∧ R (before ++ [e]) d' (m.step T e).1 ∧
        payloads.map AlertPayload.bare = (m.step T e).2)
    (h : R [] d m) (ht : m.TimelyRun T events) (orders : ℕ → TickOrders) :
    ∃ s, d.run T orders events = some s ∧ R events s.1 (m.run T events).1 ∧
      s.2.map (List.map AlertPayload.bare) = (m.run T events).2 := by
  induction events using List.reverseRecOn with
  | nil => exact ⟨(d, []), rfl, h, rfl⟩
  | append_singleton events e ih =>
    obtain ⟨hbefore, hlast⟩ := ht.concat
    obtain ⟨s, hs, hr, hsent⟩ := ih hbefore
    obtain ⟨d', payloads, hd', hr', hsent'⟩ := hstep events e s.1 _ (orders events.length) hr hlast
    refine ⟨(d', s.2 ++ [payloads]), ?_, ?_, ?_⟩
    · rw [Daemon.run_concat, hs]
      simp [hd']
    · rw [Monitor.run_concat]
      exact hr'
    · rw [Monitor.run_concat, List.map_append, hsent, List.map_singleton, hsent']

/-- **Runs.** -/
theorem Refines.run (h : Refines T d m) {events : List Event} (ht : m.TimelyRun T events)
    (orders : ℕ → TickOrders) : ∃ s, d.run T orders events = some s ∧ Refines T s.1 (m.run T events).1 ∧
      s.2.map (List.map AlertPayload.bare) = (m.run T events).2 :=
  simulates (R := fun _ => Refines T) (fun _ _ _ _ orders h ht => h.step ht orders) h ht orders

/-- **The daemon refines the monitor.**  Started with a window of at least a second, and as long as no flow is a
window or more behind an earlier one or ahead of a tick, the daemon goes through every run of flows, ticks and
reloads.  In each of its events it sends exactly the payloads of the monitor, suggestions aside, and it ends with
the alerts of the monitor in their states. -/
theorem daemon_refines_monitor (T : IpText) (c : Config) (d : Daemon) (hd : Daemon.start T (.ok c) = .ok d)
    (hW : 1 ≤ c.global.window.asSecs) (orders : ℕ → TickOrders) (events : List Event)
    (ht : (Monitor.start T c).TimelyRun T events) : ∃ s, d.run T orders events = some s ∧
      s.2.map (List.map AlertPayload.bare) = ((Monitor.start T c).run T events).2 ∧
      s.1.alertManager.alerts = ((Monitor.start T c).run T events).1.alerts ∧
      s.1.channel = ((Monitor.start T c).run T events).1.channel := by
  obtain ⟨s, hs, hr, hsent⟩ := (Refines.start hd hW).run ht orders
  exact ⟨s, hs, hsent, hr.alerts, hr.channel⟩

/-- The two attacks on 10.2.3.0/24, with a reload between them. -/
def reloadedAttacks : List Event := twoAttacks.take 8 ++ .reload (.ok instant) :: twoAttacks.drop 8

theorem daemon_refines_monitor_reloaded : ∃ d s, Daemon.start IpText.dotted (.ok instant) = .ok d ∧
    d.run IpText.dotted storedOrders reloadedAttacks = some s ∧
    s.2.map (List.map AlertPayload.bare) =
      ((Monitor.start IpText.dotted instant).run IpText.dotted reloadedAttacks).2 ∧
    s.2.flatten.map (fun payload => (payload.action, payload.value)) =
      [("trigger", 8000), ("resolve", 0), ("trigger", 3200)] := by
  have hsome : (Daemon.start IpText.dotted (.ok instant)).toOption.isSome = true := by decide
  obtain ⟨d, hd⟩ := Option.isSome_iff_exists.mp hsome
  obtain ⟨s, hs, hsent, -⟩ := daemon_refines_monitor IpText.dotted instant d (Fold.except_toOption.mp hd)
    (by decide) storedOrders reloadedAttacks (by decide)
  have hactions : ((Monitor.start IpText.dotted instant).run IpText.dotted reloadedAttacks).2.flatten.map
      (fun payload => (payload.action, payload.value)) =
        [("trigger", 8000), ("resolve", 0), ("trigger", 3200)] := by
    decide +kernel
  refine ⟨d, s, Fold.except_toOption.mp hd, hs, hsent, ?_⟩
  rw [← hactions, ← hsent, ← List.map_flatten, List.map_map]
  rfl

end NetAlert

import NetAlert.Monitor

/-!
# NetAlert.Interleaving — in which order the flows come in

The receivers and the flow processor are tasks of their own: in which order the flows of two exporters enter the
channel, and how far the processor gets in between, is up to the scheduler.  A `Period` is what they do up to a
tick or a reload.

* `Alike`: the same alerts, and the same flows in any order.
* `Alike.period`: a period that has lost no flow and left none in the channel keeps it.
* `interleavings_agree`: so in two runs that differ in these orders, the daemon sends the same payloads.
-/

namespace NetAlert

/-! ## Periods -/

/-- An event of a receiver or of the flow processor. -/
def Event.isTraffic : Event → Bool
  | .receive _ _ | .process => true
  | .tick _ _ | .reload _ => false

/-- The flow that comes in with an event, and the exporter it comes from. -/
def Event.received : Event → Option (Option IpAddr × FlowRecord)
  | .receive samplerAddress flow => some (samplerAddress, flow)
  | _ => none

/-- The record that a receiver makes of a flow: the sampling rate configured for the exporter replaces its own. -/
def recordOf (exporterRates : HashMap IpAddr ℕ) (received : Option IpAddr × FlowRecord) : FlowRecord :=
  match received.1.bind fun address => exporterRates.lookup address with
  | some rate => { received.2 with samplingRate := rate }
  | none => received.2

structure Period where
  traffic : List Event
  last : Event
  isTraffic : ∀ e ∈ traffic, e.isTraffic = true
  ends : last.isTraffic = false

namespace Period

def events (p : Period) : List Event := p.traffic ++ [p.last]

def received (p : Period) : List (Option IpAddr × FlowRecord) := p.traffic.filterMap Event.received

/-- The same flows, received in another order and processed at other times. -/
structure Reordered (p p' : Period) : Prop where
  last : p.last = p'.last
  received : p.received.Perm p'.received

end Period

namespace Monitor

variable {T : IpText} {m m' m₁ m₂ : Monitor}

variable (T) in
/-- No flow of the period is dropped, and none waits in the channel at its end. -/
def Handles (m : Monitor) (p : Period) : Prop :=
  (m.run T p.traffic).1.channel = [] ∧ (m.run T p.traffic).1.flows.length = m.flows.length + p.received.length

instance (p : Period) : Decidable (m.Handles T p) := inferInstanceAs (Decidable (_ ∧ _))

variable (T) in
def HandlesAll (m : Monitor) : List Period → Prop
  | [] => True
  | p :: periods => m.Handles T p ∧ (m.run T p.events).1.HandlesAll periods

instance decidableHandlesAll (m : Monitor) : (periods : List Period) → Decidable (m.HandlesAll T periods)
  | [] => .isTrue trivial
  | p :: periods =>
    have := decidableHandlesAll (m.run T p.events).1 periods
    inferInstanceAs (Decidable (_ ∧ _))

theorem run_append (m : Monitor) (events events' : List Event) : m.run T (events ++ events') =
    (((m.run T events).1.run T events').1, (m.run T events).2 ++ ((m.run T events).1.run T events').2) := by
  induction events' using List.reverseRecOn with
  | nil => simp [run]
  | append_singleton events' e ih => rw [← List.append_assoc, run_concat, ih, run_concat, List.append_assoc]

/-! ### Traffic -/

/-- After some traffic: the flows received since, less those dropped, are in the buffers or wait. -/
structure TakesIn (m : Monitor) (traffic : List Event) (m' : Monitor) : Prop where
  rebuilt : m' = { m with channel := m'.channel, flows := m'.flows }
  flows : ∃ new, m'.flows = m.flows ++ new ∧
    (new ++ m'.channel).Sublist ((traffic.filterMap Event.received).map (recordOf m.exporterRates))

theorem TakesIn.step {traffic : List Event} (h : m.TakesIn traffic m₁) {e : Event} (he : e.isTraffic = true) :
    m.TakesIn (traffic ++ [e]) (m₁.step T e).1 ∧ (m₁.step T e).2 = [] := by
  obtain ⟨new, hflows, hsub⟩ := h.flows
  cases e with
  | receive samplerAddress flow =>
    have hrates : m.exporterRates = m₁.exporterRates := by rw [h.rebuilt]
    have hreceive : m₁.receive samplerAddress flow = if m₁.channel.length < channelCapacity then
        { m₁ with channel := m₁.channel ++ [recordOf m.exporterRates (samplerAddress, flow)] } else m₁ := by
      rw [hrates]
      rfl
    refine ⟨?_, rfl⟩
    simp only [Monitor.step, hreceive]
    split_ifs with hroom
    · refine ⟨by rw [h.rebuilt], new, hflows, ?_⟩
      simp only [List.filterMap_append, List.map_append, ← List.append_assoc]
      exact hsub.append (List.Sublist.refl _)
    · refine ⟨h.rebuilt, new, hflows, ?_⟩
      simp only [List.filterMap_append, List.map_append]
      exact hsub.trans (List.sublist_append_left _ _)
  | process =>
    have hreceived : (traffic ++ [Event.process]).filterMap Event.received =
        traffic.filterMap Event.received := by
      rw [List.filterMap_append]
      exact List.append_nil _
    refine ⟨?_, rfl⟩
    simp only [Monitor.step, process]
    cases hchannel : m₁.channel with
    | nil => exact ⟨h.rebuilt, new, hflows, hreceived ▸ hsub⟩
    | cons flow channel =>
      refine ⟨by rw [h.rebuilt], new ++ [flow], by simp [hflows], ?_⟩
      rw [hreceived]
      simpa [hchannel] using hsub
  | tick => cases he
  | reload => cases he

theorem takesIn_run (hchannel : m.channel = []) {traffic : List Event} (he : ∀ e ∈ traffic, e.isTraffic = true) :
    m.TakesIn traffic (m.run T traffic).1 ∧ (m.run T traffic).2.flatten = [] := by
  induction traffic using List.reverseRecOn with
  | nil => exact ⟨⟨rfl, [], by simp [run], by simp [run, hchannel]⟩, rfl⟩
  | append_singleton traffic e ih =>
    obtain ⟨htakes, hnone⟩ := ih fun e' he' => he e' (List.mem_append_left _ he')
    obtain ⟨hstep, hsent⟩ := htakes.step (T := T) (he e (by simp))
    rw [run_concat]
    refine ⟨hstep, ?_⟩
    rw [List.flatten_append, hnone, hsent]
    rfl

/-- **A period that is handled** adds the records of its flows, in the order they came in. -/
theorem Handles.traffic {p : Period} (h : m.Handles T p) (hchannel : m.channel = []) :
    (m.run T p.traffic).1 = { m with flows := m.flows ++ p.received.map (recordOf m.exporterRates) } ∧
      (m.run T p.traffic).2.flatten = [] := by
  obtain ⟨htakes, hnone⟩ := takesIn_run (T := T) hchannel p.isTraffic
  obtain ⟨new, hflows, hsub⟩ := htakes.flows
  obtain ⟨hempty, hlength⟩ := h
  rw [hempty, List.append_nil] at hsub
  rw [hflows, List.length_append] at hlength
  have hall : new = p.received.map (recordOf m.exporterRates) :=
    hsub.eq_of_length (by rw [List.length_map]; exact Nat.add_left_cancel hlength)
  refine ⟨?_, hnone⟩
  rw [htakes.rebuilt, hempty, hflows, hall, hchannel]

end Monitor

/-! ## Alike monitors -/

/-- Rates do not depend on the order of the flows. -/
theorem MetricType.rateOf_perm (metric : MetricType) (windowSecs : ℕ) {flows flows' : List FlowRecord}
    (h : flows.Perm flows') : metric.rateOf windowSecs flows = metric.rateOf windowSecs flows' := by
  cases metric with
  | bps => rw [rateOf, rateOf, (h.map _).sum_eq]
  | pps => rw [rateOf, rateOf, (h.map _).sum_eq]
  | fps => rw [rateOf, rateOf, h.length_eq]

namespace Monitor

variable {T : IpText} {m m' : Monitor}

/-- Between periods: two monitors that differ in the order of their flows. -/
structure Alike (m m' : Monitor) : Prop where
  rebuilt : m' = { m with flows := m'.flows }
  flows : m.flows.Perm m'.flows
  channel : m.channel = []

theorem Alike.refl (h : m.channel = []) : m.Alike m := ⟨rfl, List.Perm.refl _, h⟩

/-- **A tick** of alike monitors sends the same payloads. -/
theorem Alike.tick (h : m.Alike m') (currentTime : ℕ) (now : Instant) :
    (m.tick T currentTime now).1.Alike (m'.tick T currentTime now).1 ∧
      (m.tick T currentTime now).2 = (m'.tick T currentTime now).2 := by
  have hrates : (fun a : AlertInstance => a.trafficRate T m.windowSecs currentTime m.flows) =
      fun a => a.trafficRate T m.windowSecs currentTime m'.flows :=
    funext fun a => a.metric.rateOf_perm _ (h.flows.filter _)
  rw [h.rebuilt]
  simp only [Monitor.tick, ← hrates]
  exact ⟨⟨rfl, h.flows, h.channel⟩, trivial⟩

/-- **A reload** forgets the flows and with them their order. -/
theorem Alike.reload (h : m.Alike m') (parsed : Except String Config) :
    (m.reload T parsed).Alike (m'.reload T parsed) := by
  rw [h.rebuilt]
  unfold Monitor.reload
  cases Config.load T parsed with
  | error e => exact ⟨rfl, h.flows, h.channel⟩
  | ok c =>
    by_cases hbits : ∀ r ∈ c.rules, r.ipPrefix.trunc = r.ipPrefix
    · simp only [if_pos hbits]
      exact ⟨rfl, List.Perm.refl _, h.channel⟩
    · simp only [if_neg hbits]
      exact ⟨rfl, h.flows, h.channel⟩

/-- **A period** in two orders. -/
theorem Alike.period (h : m.Alike m') {p p' : Period} (hp : p.Reordered p') (hm : m.Handles T p)
    (hm' : m'.Handles T p') : (m.run T p.events).1.Alike (m'.run T p'.events).1 ∧
      (m.run T p.events).2.flatten = (m'.run T p'.events).2.flatten := by
  have hchannel' : m'.channel = [] := by rw [h.rebuilt, h.channel]
  obtain ⟨hrun, hnone⟩ := hm.traffic h.channel
  obtain ⟨hrun', hnone'⟩ := hm'.traffic hchannel'
  have hrates : m'.exporterRates = m.exporterRates := by rw [h.rebuilt]
  have halike : (m.run T p.traffic).1.Alike (m'.run T p'.traffic).1 := by
    rw [hrun, hrun', hrates]
    exact ⟨by rw [h.rebuilt], h.flows.append (hp.received.map _), h.channel⟩
  simp only [Period.events, run_concat, List.flatten_append, hnone, hnone', ← hp.last, List.flatten_singleton,
    List.nil_append]
  have hends := p.ends
  cases hlast : p.last with
  | tick currentTime now => exact halike.tick currentTime now
  | reload parsed => exact ⟨halike.reload parsed, rfl⟩
  | receive samplerAddress flow => simp [hlast, Event.isTraffic] at hends
  | process => simp [hlast, Event.isTraffic] at hends

/-- **Runs** of alike monitors. -/
theorem Alike.run (h : m.Alike m') {periods periods' : List Period}
    (hp : List.Forall₂ Period.Reordered periods periods') (hm : m.HandlesAll T periods)
    (hm' : m'.HandlesAll T periods') :
    (m.run T (periods.flatMap Period.events)).1.Alike (m'.run T (periods'.flatMap Period.events)).1 ∧
      (m.run T (periods.flatMap Period.events)).2.flatten =
        (m'.run T (periods'.flatMap Period.events)).2.flatten := by
  induction hp generalizing m m' with
  | nil => exact ⟨h, rfl⟩
  | cons hp _ ih =>
    obtain ⟨hperiod, hsent⟩ := h.period hp hm.1 hm'.1
    obtain ⟨hrest, hsent'⟩ := ih hperiod hm.2 hm'.2
    simp only [List.flatMap_cons, run_append, List.flatten_append, hsent, hsent']
    exact ⟨hrest, trivial⟩

end Monitor

/-! ## The daemon -/

/-- **The interleaving of the tasks does not show.**  Take two runs whose flows enter the channel, up to each tick
and each reload, in different orders and are processed at different times.  If neither drops a flow or leaves one
in the channel at the end of a period, and in both the flows come in time, then the daemon sends the same payloads,
suggestions aside, in both and ends with the same alerts. -/
theorem interleavings_agree (T : IpText) (c : Config) (d : Daemon) (hd : Daemon.start T (.ok c) = .ok d)
    (hW : 1 ≤ c.global.window.asSecs) (orders orders' : ℕ → TickOrders) (periods periods' : List Period)
    (hp : List.Forall₂ Period.Reordered periods periods')
    (hm : (Monitor.start T c).HandlesAll T periods) (hm' : (Monitor.start T c).HandlesAll T periods')
    (ht : (Monitor.start T c).TimelyRun T (periods.flatMap Period.events))
    (ht' : (Monitor.start T c).TimelyRun T (periods'.flatMap Period.events)) :
    ∃ s s', d.run T orders (periods.flatMap Period.events) = some s ∧
      d.run T orders' (periods'.flatMap Period.events) = some s' ∧
      s.2.flatten.map AlertPayload.bare = s'.2.flatten.map AlertPayload.bare ∧
      s.1.alertManager.alerts = s'.1.alertManager.alerts := by
  have hrefines := Refines.start hd hW
  obtain ⟨s, hs, hr, hsent⟩ := hrefines.run ht orders
  obtain ⟨s', hs', hr', hsent'⟩ := hrefines.run ht' orders'
  obtain ⟨halike, hsame⟩ := (Monitor.Alike.refl rfl).run hp hm hm'
  refine ⟨s, s', hs, hs', ?_, ?_⟩
  · rw [List.map_flatten, List.map_flatten, hsent, hsent', hsame]
  · rw [hr.alerts, hr'.alerts, halike.rebuilt]

def attackFlow : FlowRecord := ⟨.V4 0xC6336401, .V4 0x0A020307, 4242, 53, 17, 0, 10000, 10, 1000, 1⟩

/-- Two flows of an attack, processed one by one, and a reload after the attack. -/
def firstOrder : List Period :=
  [⟨[.receive none attackFlow, .process, .receive none leftover, .process], .tick 1002 0, by decide, rfl⟩,
    ⟨[.process], .tick 1003 (Duration.fromSecs 1), by decide, rfl⟩, ⟨[], .reload (.ok instant), by decide, rfl⟩]

/-- The flows in the other order, processed when both have come in. -/
def otherOrder : List Period :=
  [⟨[.receive none leftover, .receive none attackFlow, .process, .process], .tick 1002 0, by decide, rfl⟩,
    ⟨[], .tick 1003 (Duration.fromSecs 1), by decide, rfl⟩, ⟨[], .reload (.ok instant), by decide, rfl⟩]

theorem interleavings_agree_attack : ∃ d s s', Daemon.start IpText.dotted (.ok instant) = .ok d ∧
    d.run IpText.dotted storedOrders (firstOrder.flatMap Period.events) = some s ∧
    d.run IpText.dotted storedOrders (otherOrder.flatMap Period.events) = some s' ∧
    s'.2.flatten.map AlertPayload.bare = s.2.flatten.map AlertPayload.bare ∧
    s.2.flatten.map (fun payload => (payload.action, payload.value)) = [("trigger", 16000)] := by
  have hrun : ((Daemon.start IpText.dotted (.ok instant)).toOption.bind fun d =>
      (d.run IpText.dotted storedOrders (firstOrder.flatMap Period.events)).map fun s =>
        s.2.flatten.map fun payload => (payload.action, payload.value)) = some [("trigger", 16000)] := by
    decide +kernel
  obtain ⟨d, hd, hrun⟩ := Option.bind_eq_some_iff.mp hrun
  obtain ⟨s, hs, hactions⟩ := Option.map_eq_some_iff.mp hrun
  have hreordered : List.Forall₂ Period.Reordered firstOrder otherOrder :=
    .cons ⟨rfl, List.Perm.swap _ _ _⟩ (.cons ⟨rfl, List.Perm.refl _⟩ (.cons ⟨rfl, List.Perm.refl _⟩ .nil))
  obtain ⟨s₁, s', h₁, hs', hsent, -⟩ := interleavings_agree IpText.dotted instant d
    (Fold.except_toOption.mp hd) (by decide) storedOrders storedOrders firstOrder otherOrder hreordered
    (by decide) (by decide) (by decide) (by decide)
  obtain rfl := Option.some.inj (h₁.symm.trans hs)
  exact ⟨d, s₁, s', Fold.except_toOption.mp hd, hs, hs', hsent.symm, hactions⟩

end NetAlert

import NetAlert.Hysteresis
import NetAlert.Interleaving
import NetAlert.LifeCycle

/-!
# NetAlert.Monotonicity — more traffic never hides an alarm

Two daemons get the same ticks and reloads, and one of them gets more flows.

* `AlertState.Below`: less far towards an alarm, or nearer to its end.
* `Step.below`: at a higher rate an alert gets no less far, if its thresholds are in order.
* `alarms_monotone`: so every alarm that is open with less traffic is open with more.
-/

namespace NetAlert

/-! ## Alerts -/

/-- Less far towards an alarm, or nearer to its end. -/
def AlertState.Below : AlertState → AlertState → Prop
  | .normal, _ => True
  | .pending since, .pending since' => since' ≤ since
  | .pending _, .recovering _ => True
  | .recovering since, .recovering since' => since ≤ since'
  | .pending _, .firing _ | .recovering _, .firing _ | .firing _, .firing _ => True
  | _, _ => False

/-- The streak that the state remembers began at `clock` or before. -/
def AlertState.StartedBy (clock : Instant) : AlertState → Prop
  | .pending since | .recovering since => since ≤ clock
  | _ => True

theorem AlertState.Below.isOpen {s s' : AlertState} (h : s.Below s') (hs : s.isOpen = true) :
    s'.isOpen = true := by
  cases s with
  | normal | pending => cases hs
  | firing | recovering =>
    cases s' with
    | normal | pending => exact False.elim h
    | firing | recovering => rfl

theorem AlertState.StartedBy.mono {s : AlertState} {clock now : Instant} (h : s.StartedBy clock)
    (hclock : clock ≤ now) : s.StartedBy now := by
  cases s with
  | normal | firing => trivial
  | pending | recovering => exact le_trans h hclock

namespace F64

theorem le_trans_trigger {s t : F64} {r : ℚ} (h : le s t = true) (ht : lt (num r) t = false) :
    le s (num r) = true := by
  cases s <;> cases t <;> simp_all [le, lt]
  exact h.trans ht

theorem ne_nan_of_le {s t : F64} (h : le s t = true) : s ≠ nan ∧ t ≠ nan := by
  cases s <;> cases t <;> simp_all [le]

end F64

namespace AlertInstance

/-- The thresholds are numbers, and the one to recover below is not above the one to trigger at. -/
def Ordered (a : AlertInstance) : Prop := F64.le a.recoverThreshold a.triggerThreshold = true

instance : DecidablePred Ordered := fun _ => inferInstanceAs (Decidable (_ = true))

variable {a : AlertInstance} {rate rate' : ℚ} {now clock : Instant} {s s' t t' : AlertState}
  {action action' : Option AlertAction}

/-- A rate that is not below the trigger threshold, and any higher one. -/
theorem Ordered.above (ha : a.Ordered) (h : F64.lt (.num rate) a.triggerThreshold = false)
    (hrate : rate ≤ rate') :
    F64.le a.triggerThreshold (.num rate') = true ∧ F64.lt (.num rate') a.triggerThreshold = false ∧
      F64.lt (.num rate') a.recoverThreshold = false ∧ F64.le a.recoverThreshold (.num rate') = true := by
  have hle : F64.le a.triggerThreshold (.num rate) = true := by
    simpa [F64.lt_eq_not_le (F64.ne_nan_of_le ha).2] using h
  have hle' := F64.le_trans_num hle hrate
  have hrecover := F64.le_trans_trigger ha (F64.not_lt_of_le hle')
  exact ⟨hle', F64.not_lt_of_le hle', F64.not_lt_of_le hrecover, hrecover⟩

/-- A rate that is not below the recover threshold, and any higher one. -/
theorem Ordered.kept (ha : a.Ordered) (h : F64.lt (.num rate) a.recoverThreshold = false)
    (hrate : rate ≤ rate') :
    F64.lt (.num rate') a.recoverThreshold = false ∧ F64.le a.recoverThreshold (.num rate') = true := by
  have hle : F64.le a.recoverThreshold (.num rate) = true := by
    simpa [F64.lt_eq_not_le (F64.ne_nan_of_le ha).1] using h
  have hle' := F64.le_trans_num hle hrate
  exact ⟨F64.not_lt_of_le hle', hle'⟩

/-- **At a higher rate** an alert gets no less far.  If the step at the lower rate counts on, or ends, a streak, so
does the other one. -/
theorem Step.below (h : a.Step rate now s t action) (h' : a.Step rate' now s' t' action') (ha : a.Ordered)
    (hrate : rate ≤ rate') (hs : s.Below s') (hstart : s.StartedBy now) (hstart' : s'.StartedBy now) :
    t.Below t' := by
  cases h with
  | idle | disarm | resolve => trivial
  | arm hle =>
    obtain ⟨h1, h2, h3, h4⟩ := ha.above (F64.not_lt_of_le hle) hrate
    cases h' with
    | idle hn | disarm hn | drop hn | resolve hn => simp_all only [Bool.true_eq_false, Bool.false_eq_true]
    | arm => exact le_rfl
    | wait => exact hstart'
    | _ => trivial
  | fire hlt hd =>
    obtain ⟨h1, h2, h3, h4⟩ := ha.above hlt hrate
    cases h' with
    | idle | arm => exact False.elim hs
    | disarm hn | drop hn | resolve hn | waitRecover hn => simp_all only [Bool.true_eq_false, Bool.false_eq_true]
    | wait _ hd' => exact absurd (hd.trans (Nat.sub_le_sub_left hs now)) hd'
    | _ => trivial
  | wait hlt hd =>
    obtain ⟨h1, h2, h3, h4⟩ := ha.above hlt hrate
    cases h' with
    | idle | arm => exact False.elim hs
    | disarm hn | resolve hn => simp_all only [Bool.true_eq_false, Bool.false_eq_true]
    | wait => exact hs
    | _ => trivial
  | drop =>
    cases h' with
    | drop => exact le_rfl
    | update | hold => trivial
    | _ => exact False.elim hs
  | update hlt | hold hlt =>
    obtain ⟨h1, h2⟩ := ha.kept hlt hrate
    cases h' with
    | drop hn => simp_all only [Bool.true_eq_false]
    | update | hold => trivial
    | _ => exact False.elim hs
  | climb hle =>
    obtain ⟨h1, h2⟩ := ha.kept (F64.not_lt_of_le hle) hrate
    cases h' with
    | drop hn | resolve hn | waitRecover hn => simp_all only [Bool.true_eq_false, Bool.false_eq_true]
    | update | hold | climb => trivial
    | _ => exact False.elim hs
  | waitRecover hle hd =>
    cases h' with
    | resolve _ hd' => exact absurd (hd'.trans (Nat.sub_le_sub_left hs now)) hd
    | drop => exact hstart
    | waitRecover => exact hs
    | update | hold | climb => trivial
    | _ => exact False.elim hs

/-- Only thresholds and durations matter to a step. -/
theorem Step.of_rebuilt {a' : AlertInstance} (hr : Rebuilt a a') (h : a'.Step rate now s t action) :
    a.Step rate now s t action := by
  rw [hr] at h
  cases h <;> constructor <;> assumption

/-- A streak begins at an evaluation. -/
theorem Step.startedBy (h : a.Step rate now s t action) (hstart : s.StartedBy now) : t.StartedBy now := by
  cases h with
  | arm | drop => exact le_rfl
  | wait | waitRecover => exact hstart
  | _ => trivial

end AlertInstance

/-! ## More flows -/

/-- More flows, higher rates. -/
theorem MetricType.rateOf_le (metric : MetricType) (windowSecs : ℕ) {flows flows' : List FlowRecord}
    (h : flows.Subperm flows') : metric.rateOf windowSecs flows ≤ metric.rateOf windowSecs flows' := by
  have hsum : ∀ g : FlowRecord → ℕ, (flows.map g).sum ≤ (flows'.map g).sum := by
    intro g
    obtain ⟨l, hperm, hsub⟩ := h
    rw [← (hperm.map g).sum_eq]
    exact (hsub.map g).sum_le_sum fun _ _ => Nat.zero_le _
  cases metric with
  | bps =>
    have hbytes := hsum FlowRecord.sampledBytes
    simp only [rateOf]
    gcongr
  | pps =>
    have hpackets := hsum FlowRecord.sampledPackets
    simp only [rateOf]
    gcongr
  | fps =>
    have hlength := h.length_le
    simp only [rateOf]
    gcongr

/-- The alert of a daemon with less traffic and that of one with more. -/
structure AlertInstance.Below (clock : Instant) (a a' : AlertInstance) : Prop where
  rebuilt : Rebuilt a a'
  ordered : a.Ordered
  state : a.state.Below a'.state
  started : a.state.StartedBy clock
  started' : a'.state.StartedBy clock

namespace AlertInstance

variable {T : IpText} {a a' : AlertInstance} {clock now : Instant}

theorem Below.trafficRate_le (h : a.Below clock a') (windowSecs currentTime : ℕ) {flows flows' : List FlowRecord}
    (hflows : flows.Subperm flows') : a.trafficRate T windowSecs currentTime flows ≤
      a'.trafficRate T windowSecs currentTime flows' := by
  rw [h.rebuilt]
  exact a.metric.rateOf_le windowSecs (hflows.filter _)

/-- **One alert** of a tick. -/
theorem Below.evaluate (h : a.Below clock a') (hclock : clock ≤ now) {rate rate' : ℚ} (hrate : rate ≤ rate')
    (id id' : Uuid) : Below now { (a.evaluate rate now).1 with alertId := id }
      { (a'.evaluate rate' now).1 with alertId := id' } := by
  have hstep := a.evaluate_step rate now
  have hstep' := (a'.evaluate_step rate' now).of_rebuilt h.rebuilt
  have hstart := h.started.mono hclock
  have hstart' := h.started'.mono hclock
  refine ⟨?_, ?_, ?_, hstep.startedBy hstart, hstep'.startedBy hstart'⟩
  · rw [a.evaluate_frame, a'.evaluate_frame, Rebuilt, h.rebuilt]
  · rw [a.evaluate_frame]
    exact h.ordered
  · exact hstep.below hstep' h.ordered hrate h.state hstart hstart'

end AlertInstance

/-- **The alerts** of a tick. -/
theorem monitorAlerts_below {rate rate' : AlertInstance → ℚ} {clock now : Instant} (hclock : clock ≤ now)
    {alerts alerts' : List AlertInstance} (h : List.Forall₂ (AlertInstance.Below clock) alerts alerts')
    (hrate : ∀ a a', AlertInstance.Below clock a a' → rate a ≤ rate' a') (issued issued' : ℕ) :
    List.Forall₂ (AlertInstance.Below now) (monitorAlerts rate now issued alerts).2.1
      (monitorAlerts rate' now issued' alerts').2.1 := by
  induction h generalizing issued issued' with
  | nil => exact .nil
  | @cons a a' alerts alerts' ha _ ih =>
    have hnew : ∀ (rate : ℚ) (a : AlertInstance) (issued : ℕ),
        ∃ id, (if (a.evaluate rate now).2 = some .fire then
          ({ (a.evaluate rate now).1 with alertId := Uuid.v4 issued }, issued + 1)
          else ((a.evaluate rate now).1, issued)).1 = { (a.evaluate rate now).1 with alertId := id } := by
      intro rate a issued
      split_ifs
      · exact ⟨_, rfl⟩
      · exact ⟨(a.evaluate rate now).1.alertId, rfl⟩
    obtain ⟨id, hid⟩ := hnew (rate a) a issued
    obtain ⟨id', hid'⟩ := hnew (rate' a') a' issued'
    simp only [monitorAlerts, hid, hid']
    exact .cons (ha.evaluate hclock (hrate a a' ha) id id') (ih _ _)

/-! ## Reloads -/

/-- The thresholds of the configuration are in order. -/
def Config.Ordered (c : Config) : Prop := ∀ t ∈ c.thresholdPairs, F64.le t.recoverValue t.trigger = true

instance : DecidablePred Config.Ordered := fun _ => List.decidableBAll _ _

theorem Config.Ordered.alerts {T : IpText} {c : Config} (h : c.Ordered) {a : AlertInstance}
    (ha : a ∈ c.buildAlerts T) : a.Ordered := by
  have hmem : (a.triggerThreshold, a.recoverThreshold) ∈
      c.thresholdPairs.map fun t => (t.trigger, t.recoverValue) := by
    rw [← buildAlerts_thresholds (T := T)]
    exact List.mem_map_of_mem ha
  obtain ⟨t, ht, hthr⟩ := List.mem_map.mp hmem
  obtain ⟨h1, h2⟩ := Prod.mk.injEq .. ▸ hthr
  rw [AlertInstance.Ordered, ← h1, ← h2]
  exact h t ht

/-- What two alerts hand over. -/
def Below₂ (clock : Instant) (o o' : AlertState × Uuid) : Prop :=
  o.1.Below o'.1 ∧ o.1.StartedBy clock ∧ o'.1.StartedBy clock

theorem carryOver_below {clock : Instant} {alerts : List AlertInstance}
    (halerts : ∀ a ∈ alerts, a.Ordered ∧ a.state = .normal)
    {previous previous' : HashMap AlertKey (AlertState × Uuid)}
    (h : ∀ k, Option.Rel (Below₂ clock) (previous.lookup k) (previous'.lookup k)) :
    List.Forall₂ (AlertInstance.Below clock) (carryOver previous alerts) (carryOver previous' alerts) := by
  induction alerts generalizing previous previous' with
  | nil => exact .nil
  | cons a alerts ih =>
    obtain ⟨⟨hord, hnormal⟩, hrest⟩ := List.forall_mem_cons.mp halerts
    unfold carryOver
    rcases Relate.cases_of_rel (h a.key) with ⟨hnone, hnone'⟩ | ⟨v, v', hv, hv', hbelow, hstart, hstart'⟩
    · rw [hnone, hnone']
      refine .cons ⟨.refl a, hord, ?_, ?_, ?_⟩ (ih hrest h) <;> rw [hnormal] <;> trivial
    · rw [hv, hv']
      refine .cons ⟨rfl, hord, hbelow, hstart, hstart'⟩ (ih hrest fun k => ?_)
      by_cases hk : k = a.key
      · rw [hk, AList.lookup_erase, AList.lookup_erase]
        exact .none
      · rw [AList.lookup_erase_ne hk, AList.lookup_erase_ne hk]
        exact h k

theorem previous_below {clock : Instant} {m m' : AlertManager}
    (h : List.Forall₂ (AlertInstance.Below clock) m.alerts m'.alerts) (k : AlertKey) :
    Option.Rel (Below₂ clock) (m.previous.lookup k) (m'.previous.lookup k) := by
  have hkeys : ∀ a a' : AlertInstance, a.Below clock a' → decide (a.key = k) = decide (a'.key = k) := by
    intro a a' hbelow
    rw [hbelow.rebuilt.key_eq]
  have hlast : Option.Rel (AlertInstance.Below clock) (alertsOf k m.alerts).getLast?
      (alertsOf k m'.alerts).getLast? :=
    Relate.forall₂_getLast? (Relate.forall₂_filter hkeys h)
  rw [lookup_previous, lookup_previous]
  generalize List.getLast? _ = o at hlast
  generalize List.getLast? _ = o' at hlast
  cases hlast with
  | none => exact .none
  | some hbelow => exact .some ⟨hbelow.state, hbelow.started, hbelow.started'⟩

/-! ## Monitors -/

/-- The instant of a tick. -/
def Event.clock : Event → Option Instant
  | .tick _ now => some now
  | _ => none

def Period.clock (p : Period) : Option Instant := p.last.clock

/-- The configuration that an event loads has its thresholds in order. -/
def Event.Ordered : Event → Prop
  | .reload (.ok c) => c.Ordered
  | _ => True

/-- The same end, and more flows before it. -/
structure Period.Grown (p p' : Period) : Prop where
  last : p.last = p'.last
  received : p.received.Subperm p'.received

namespace Monitor

variable {T : IpText} {m m' : Monitor} {clock : Instant}

/-- Between periods: a monitor, and one that has got more flows. -/
structure Below (clock : Instant) (m m' : Monitor) : Prop where
  exporterRates : m.exporterRates = m'.exporterRates
  windowSecs : m.windowSecs = m'.windowSecs
  channel : m.channel = []
  channel' : m'.channel = []
  flows : m.flows.Subperm m'.flows
  alerts : List.Forall₂ (AlertInstance.Below clock) m.alerts m'.alerts

theorem Below.start {c : Config} (hc : c.Ordered) (clock : Instant) : (start T c).Below clock (start T c) := by
  refine ⟨rfl, rfl, rfl, rfl, List.Subperm.refl _, List.forall₂_same.mpr fun a ha => ?_⟩
  have hidle := (buildAlerts_idle ha).1
  refine ⟨.refl a, hc.alerts ha, ?_, ?_, ?_⟩ <;> rw [hidle] <;> trivial

/-- **A tick.** -/
theorem Below.tick (h : m.Below clock m') (currentTime : ℕ) {now : Instant} (hclock : clock ≤ now) :
    (m.tick T currentTime now).1.Below now (m'.tick T currentTime now).1 := by
  refine ⟨h.exporterRates, h.windowSecs, h.channel, h.channel', h.flows, ?_⟩
  refine monitorAlerts_below hclock h.alerts (fun a a' ha => ?_) _ _
  rw [← h.windowSecs]
  exact ha.trafficRate_le m.windowSecs currentTime h.flows

/-- **A reload.** -/
theorem Below.reload (h : m.Below clock m') {parsed : Except String Config} (hc : (Event.reload parsed).Ordered) :
    (m.reload T parsed).Below clock (m'.reload T parsed) := by
  unfold Monitor.reload
  cases hload : Config.load T parsed with
  | error e => exact h
  | ok c =>
    have hparsed : parsed = .ok c := (Config.load_ok_iff.mp hload).1
    rw [hparsed] at hc
    simp only
    by_cases hbits : ∀ r ∈ c.rules, r.ipPrefix.trunc = r.ipPrefix
    · simp only [if_pos hbits]
      refine ⟨rfl, by rw [h.windowSecs], h.channel, h.channel', List.Subperm.refl _, ?_⟩
      refine carryOver_below (fun a ha => ⟨Config.Ordered.alerts hc ha, (buildAlerts_idle ha).1⟩) ?_
      exact previous_below h.alerts
    · simp only [if_neg hbits]
      exact ⟨rfl, h.windowSecs, h.channel, h.channel', h.flows, h.alerts⟩

/-- **A period**, and one with more flows. -/
theorem Below.period (h : m.Below clock m') {p p' : Period} (hp : p.Grown p') (hord : p.last.Ordered)
    (hm : m.Handles T p) (hm' : m'.Handles T p') (hclock : ∀ now ∈ p.clock, clock ≤ now) :
    (m.run T p.events).1.Below (p.clock.getD clock) (m'.run T p'.events).1 := by
  have hbelow : (m.run T p.traffic).1.Below clock (m'.run T p'.traffic).1 := by
    rw [(hm.traffic h.channel).1, (hm'.traffic h.channel').1]
    obtain ⟨received, hperm, hsub⟩ := hp.received
    refine ⟨h.exporterRates, h.windowSecs, h.channel, h.channel', ?_, h.alerts⟩
    rw [← h.exporterRates]
    exact h.flows.append ⟨received.map (recordOf m.exporterRates), hperm.map _, hsub.map _⟩
  simp only [Period.events, Period.clock, run_concat, ← hp.last] at hclock ⊢
  have hends := p.ends
  cases hlast : p.last with
  | tick currentTime now => exact hbelow.tick currentTime (hclock now (by rw [hlast]; rfl))
  | reload parsed => exact hbelow.reload (by rw [← hlast]; exact hord)
  | receive samplerAddress flow => simp [hlast, Event.isTraffic] at hends
  | process => simp [hlast, Event.isTraffic] at hends

/-- **Runs.** -/
theorem Below.run (h : m.Below clock m') {periods periods' : List Period}
    (hp : List.Forall₂ Period.Grown periods periods') (hord : ∀ p ∈ periods, p.last.Ordered)
    (hm : m.HandlesAll T periods) (hm' : m'.HandlesAll T periods')
    (hclocks : (clock :: periods.filterMap Period.clock).Pairwise (· ≤ ·)) : ∃ clock,
      (m.run T (periods.flatMap Period.events)).1.Below clock (m'.run T (periods'.flatMap Period.events)).1 := by
  induction hp generalizing m m' clock with
  | nil => exact ⟨clock, h⟩
  | @cons p p' periods periods' hp _ ih =>
    simp only [List.flatMap_cons, run_append]
    obtain ⟨hpord, hord⟩ := List.forall_mem_cons.mp hord
    cases hlast : p.clock with
    | none =>
      rw [List.filterMap_cons_none hlast] at hclocks
      have hperiod := h.period hp hpord hm.1 hm'.1 (by simp [hlast])
      rw [hlast] at hperiod
      exact ih hperiod hord hm.2 hm'.2 hclocks
    | some now =>
      rw [List.filterMap_cons_some hlast] at hclocks
      obtain ⟨hfrom, hclocks⟩ := List.pairwise_cons.mp hclocks
      have hperiod := h.period hp hpord hm.1 hm'.1 (by simpa [hlast] using hfrom now List.mem_cons_self)
      rw [hlast] at hperiod
      exact ih hperiod hord hm.2 hm'.2 hclocks

end Monitor

/-! ## The daemon -/

/-- **More traffic never hides an alarm.**  Take two runs with the same ticks and reloads, in the second of which
more flows come in up to each of them, in any order.  If the thresholds of every configuration are in order, the
clock of the ticks never goes back, and in both runs no flow is dropped or left in the channel at the end of a
period and all flows come in time, then every alarm that is open after the first run is open after the second. -/
theorem alarms_monotone (T : IpText) (c : Config) (d : Daemon) (hd : Daemon.start T (.ok c) = .ok d)
    (hW : 1 ≤ c.global.window.asSecs) (hc : c.Ordered) (orders orders' : ℕ → TickOrders)
    (periods periods' : List Period) (hp : List.Forall₂ Period.Grown periods periods')
    (hord : ∀ p ∈ periods, p.last.Ordered) (hclocks : (periods.filterMap Period.clock).Pairwise (· ≤ ·))
    (hm : (Monitor.start T c).HandlesAll T periods) (hm' : (Monitor.start T c).HandlesAll T periods')
    (ht : (Monitor.start T c).TimelyRun T (periods.flatMap Period.events))
    (ht' : (Monitor.start T c).TimelyRun T (periods'.flatMap Period.events)) :
    ∃ s s', d.run T orders (periods.flatMap Period.events) = some s ∧
      d.run T orders' (periods'.flatMap Period.events) = some s' ∧
      List.Forall₂ (fun a a' : AlertInstance => a'.key = a.key ∧ (a.state.isOpen = true → a'.state.isOpen = true))
        s.1.alertManager.alerts s'.1.alertManager.alerts := by
  have hrefines := Refines.start hd hW
  obtain ⟨s, hs, hr, -⟩ := hrefines.run ht orders
  obtain ⟨s', hs', hr', -⟩ := hrefines.run ht' orders'
  obtain ⟨clock, hbelow⟩ := (Monitor.Below.start hc 0).run hp hord hm hm'
    (List.pairwise_cons.mpr ⟨fun _ _ => Nat.zero_le _, hclocks⟩)
  refine ⟨s, s', hs, hs', ?_⟩
  rw [hr.alerts, hr'.alerts]
  exact hbelow.alerts.imp fun a a' h => ⟨h.rebuilt.key_eq, h.state.isOpen⟩

/-- The attack without the flow that comes in with it. -/
def lessTraffic : List Period :=
  ⟨[.receive none attackFlow, .process], .tick 1002 0, by decide, rfl (a := false)⟩ :: otherOrder.tail

theorem alarms_monotone_attack : ∃ d s s', Daemon.start IpText.dotted (.ok instant) = .ok d ∧
    d.run IpText.dotted storedOrders (lessTraffic.flatMap Period.events) = some s ∧
    d.run IpText.dotted storedOrders (otherOrder.flatMap Period.events) = some s' ∧
    s'.1.alertManager.alerts.map (fun a => a.state.isOpen) = [true] := by
  have hrun : ((Daemon.start IpText.dotted (.ok instant)).toOption.bind fun d =>
      (d.run IpText.dotted storedOrders (lessTraffic.flatMap Period.events)).map fun s =>
        s.1.alertManager.alerts.map fun a => a.state.isOpen) = some [true] := by
    decide +kernel
  obtain ⟨d, hd, hrun⟩ := Option.bind_eq_some_iff.mp hrun
  obtain ⟨s, hs, hopen⟩ := Option.map_eq_some_iff.mp hrun
  have hgrown : List.Forall₂ Period.Grown lessTraffic otherOrder :=
    .cons ⟨rfl, ⟨_, List.Perm.refl _, List.sublist_cons_self _ _⟩⟩
      (.cons ⟨rfl, List.Subperm.refl _⟩ (.cons ⟨rfl, List.Subperm.refl _⟩ .nil))
  have hordered : ∀ p ∈ lessTraffic, p.last.Ordered := by
    simp only [lessTraffic, otherOrder, List.tail_cons, List.forall_mem_cons, Event.Ordered, List.not_mem_nil]
    exact ⟨trivial, trivial, by decide, fun _ h => h.elim⟩
  obtain ⟨s₁, s', h₁, hs', halerts⟩ := alarms_monotone IpText.dotted instant d
    (Fold.except_toOption.mp hd) (by decide) (by decide) storedOrders storedOrders lessTraffic otherOrder
    hgrown hordered (by decide) (by decide) (by decide) (by decide)
    (by decide)
  obtain rfl := Option.some.inj (h₁.symm.trans hs)
  refine ⟨d, s₁, s', Fold.except_toOption.mp hd, hs, hs', ?_⟩
  obtain ⟨a, ha, hopen⟩ := List.map_eq_singleton_iff.mp hopen
  rw [ha] at halerts
  obtain ⟨a', rest, ⟨-, hkept⟩, hrest, ha'⟩ := List.forall₂_cons_left_iff.mp halerts
  rw [ha', List.forall₂_nil_left_iff.mp hrest, List.map_singleton, hkept hopen]

end NetAlert

import NetAlert.Capture
import NetAlert.Loading
import NetAlert.SteadyReload

/-!
# NetAlert.Startup — which configurations the daemon survives

A ring buffer without buckets panics on its first flow, and the ticker panics if its period is zero.

* `Solid`: a processor whose buffers have buckets, now and after any reload.  Every event keeps it
  (`Solid.step`), so no run panics.
* `pipeline_safe_iff`: a daemon survives every run iff it was started with a window of at least one
  second and a non-zero evaluation interval.
-/

namespace NetAlert

variable {T : IpText} {c : Config} {p q : FlowProcessor}

/-- `tokio::time::interval`; no result on a zero period, where it panics. -/
def interval (period : Duration) : Option Duration := if period = 0 then none else some period

/-- The ticker that `main` creates. -/
def Config.ticker (c : Config) : Option Duration := interval c.global.evaluationInterval

/-! ## Buffers with buckets -/

/-- The buffers have buckets, and so have those of a reload that falls back to the window in force. -/
structure Solid (p : FlowProcessor) : Prop where
  table : TableOk p.rules p.prefixTable
  window : 0 < p.windowSecs
  live : ∀ rule ∈ p.rules, rule.Live

theorem live_of_layout {rule rule' : ProcessedRule} (hl : rule'.layout = rule.layout) (h : rule.Live) :
    rule'.Live := by
  intro k b hb
  have hk : bufferSizes rule'.buffers k = bufferSizes rule.buffers k :=
    congrFun (congrArg RuleLayout.sizes hl) k
  rw [bufferSizes, hb, Option.map_some] at hk
  obtain ⟨b₀, hb₀, hlen⟩ := Option.map_eq_some_iff.mp hk.symm
  rw [← hlen]
  exact h k b₀ hb₀

/-- What does not change the layout does not empty a buffer. -/
theorem Solid.of_layout (h : Solid p) (hl : q.layout = p.layout) : Solid q := by
  obtain ⟨h1, -, h3⟩ := Layout.mk.injEq .. ▸ hl
  refine ⟨h.table.of_layout hl, ?_, ?_⟩
  · rw [show q.windowSecs = p.windowSecs from h3]
    exact h.window
  · intro rule' hr'
    obtain ⟨rule, hr, hrule⟩ := Relate.forall₂_left_of_mem (Relate.forall₂_of_map_eq h1).flip hr'
    exact live_of_layout hrule (h.live rule hr)

/-- **A reload**, with a window of its own or that of a solid processor. -/
theorem Solid.of_reload (h : p.reloadConfig T c = .ok q) (hw : 0 < p.reloadWindow c) : Solid q := by
  obtain ⟨hF, hT, hwindow⟩ := reloadConfig_ok h
  refine ⟨hT, by omega, fun rule hr k b hb => ?_⟩
  obtain ⟨r, -, hbuilt⟩ := Relate.forall₂_left_of_mem hF hr
  rw [hbuilt.buffers] at hb
  split_ifs at hb
  rw [← Option.some.inj hb, RingBuffer.length_new]
  exact hw

theorem Solid.reloadWindow_pos (h : Solid p) (c : Config) : 0 < p.reloadWindow c := by
  have hp := h.window
  unfold FlowProcessor.reloadWindow
  simp only
  split_ifs <;> omega

/-- **One flow** does not panic. -/
theorem Solid.processFlow (h : Solid p) (flow : FlowRecord) : ∃ q, p.processFlow flow = some q ∧ Solid q := by
  have hroute : ∀ rule ∈ p.rules, ∃ rule', rule.route flow = some rule' := by
    intro rule hr
    unfold ProcessedRule.route
    split
    · obtain ⟨rule', hrule', -⟩ := distribute_spec (h.live rule hr) flow _
      exact ⟨rule', hrule'⟩
    · exact ⟨rule, rfl⟩
  obtain ⟨q, hq, -⟩ := processFlow_spec h.table hroute
  exact ⟨q, hq, h.of_layout (processFlow_layout hq)⟩

/-- **One event** does not panic. -/
theorem Solid.step {d : Daemon} (h : Solid d.processor) (orders : TickOrders) (e : Event) :
    ∃ d' payloads, d.step T orders e = some (d', payloads) ∧ Solid d'.processor := by
  cases e with
  | receive samplerAddress flow =>
    refine ⟨_, _, rfl, ?_⟩
    unfold Daemon.receive
    split_ifs <;> exact h
  | process =>
    cases hchannel : d.channel with
    | nil => exact ⟨d, [], by simp [Daemon.step, Daemon.process, hchannel], h⟩
    | cons flow channel =>
      obtain ⟨q, hq, hsolid⟩ := h.processFlow flow
      refine ⟨{ d with channel := channel, processor := q }, [], ?_, hsolid⟩
      simp [Daemon.step, Daemon.process, hchannel, hq]
  | tick currentTime now =>
    obtain ⟨t, alerts, hev, htick⟩ := Daemon.tick_eq (T := T) orders d currentTime now
    refine ⟨_, _, congrArg some htick, ?_⟩
    refine hev.processor_keeps Solid (fun p ipPrefix k hp => ?_) h
    exact hp.of_layout (drainCapturedFlows_layout T p ipPrefix)
  | reload parsed =>
    refine ⟨_, _, rfl, ?_⟩
    unfold Daemon.reloadConfig
    split
    · exact h
    · rename_i config _
      simp only
      split
      · exact h
      · rename_i processor hp
        exact Solid.of_reload hp (h.reloadWindow_pos config)

/-! ## Buffers without buckets -/

/-- A flow that hits a buffer without buckets panics. -/
theorem processFlow_eq_none (hT : TableOk p.rules p.prefixTable) {rule : ProcessedRule} (hr : rule ∈ p.rules)
    {k : BufferKey} {b : RingBuffer} (hb : rule.buffers.lookup k = some b) (hlen : b.buckets.length = 0)
    {flow : FlowRecord} (hhit : rule.Hit flow k) : p.processFlow flow = none := by
  cases hq : p.processFlow flow with
  | none => rfl
  | some q =>
    obtain ⟨rule', -, hroute⟩ := Relate.forall₂_left_of_mem (processFlow_ok hT hq).2.2.flip hr
    have hsome := isSome_of_layout (k := k) (route_layout hroute)
    have hnone : rule'.buffers.lookup k = none := by
      rw [(route_routed hroute).buffers k, hb]
      simp [addIf, hhit, b.addInstantFlow_eq_none hlen]
    rw [hnone, hb] at hsome
    cases hsome

/-- The README's prefix, with a window of half a second. -/
def halfSecond : Config :=
  { global := { evaluationInterval := Duration.fromSecs 1, window := 500000000 }
    rules :=
      [{ ipPrefix := .slash24 0x0A000000
         thresholds := Config.single .any .inbound { bps := some ⟨.num 100, none⟩ } }] }

theorem halfSecond_valid (T : IpText) : halfSecond.validate T = .ok () := rfl

/-- A flow to 10.0.0.7. -/
def knock : FlowRecord := demoFlow (.V4 0xC6336442) (.V4 0x0A000007) 1000

/-- **A window below a second.**  On a processor without a window, the first flow after such a reload
panics. -/
theorem processFlow_halfSecond (h : p.reloadConfig T halfSecond = .ok q) (hw : p.windowSecs = 0) :
    q.processFlow knock = none := by
  obtain ⟨hF, hT, -⟩ := reloadConfig_ok h
  have hwindow : p.reloadWindow halfSecond = 0 := hw
  obtain ⟨rule, hr, hbuilt⟩ := Relate.forall₂_left_of_mem hF.flip (List.mem_cons_self)
  have hb := hbuilt.buffers ⟨.any, .inbound⟩
  rw [hwindow, if_pos (by decide)] at hb
  refine processFlow_eq_none hT hr hb (RingBuffer.length_new 0) ⟨?_, ?_⟩
  · unfold FlowRecord.directionFor IpNetwork.contains
    rw [hbuilt.network]
    decide
  · decide

/-! ## Startup -/

/-- A reload that goes through, or any other event. -/
def Event.GoesThrough (T : IpText) : Event → Prop
  | .reload parsed => ∃ c, Config.load T parsed = .ok c ∧ ∀ p : FlowProcessor, ∃ q, p.reloadConfig T c = .ok q
  | _ => True

theorem asSecs_pos {d : ℕ} : 0 < Duration.asSecs d ↔ Duration.fromSecs 1 ≤ d := by
  show 0 < d / 1000000000 ↔ 1 * 1000000000 ≤ d
  omega

theorem reloadWindow_start (c : Config) :
    (FlowProcessor.new c.global.window.asSecs).reloadWindow c = c.global.window.asSecs := by
  unfold FlowProcessor.reloadWindow
  simp only
  split_ifs
  · rfl
  · rfl

/-- **No crash.**  The ticker of a started daemon is created and no run of flows, ticks and reloads that go
through panics, iff the daemon was started with a window of at least a second and a non-zero evaluation
interval. -/
theorem pipeline_safe_iff (T : IpText) (c : Config) (d : Daemon) (h : Daemon.start T (.ok c) = .ok d) :
    (c.ticker.isSome ∧ ∀ (orders : ℕ → TickOrders) (events : List Event), (∀ e ∈ events, e.GoesThrough T) →
        (d.run T orders events).isSome) ↔
      Duration.fromSecs 1 ≤ c.global.window ∧ 0 < c.global.evaluationInterval := by
  obtain ⟨-, p, hp, hd⟩ := Daemon.start_ok h
  have hprocessor : d.processor = p := by rw [hd]
  have hticker : c.ticker.isSome ↔ 0 < c.global.evaluationInterval := by
    unfold Config.ticker interval
    split_ifs with h0
    · simp [h0]
    · simpa using Nat.pos_of_ne_zero h0
  rw [hticker, ← asSecs_pos, and_comm]
  refine and_congr_left fun _ => ⟨fun hsafe => ?_, fun hpos orders events _ => ?_⟩
  · by_contra hzero
    have hnone : p.windowSecs = 0 := by
      rw [(reloadConfig_ok hp).2.2, reloadWindow_start]
      omega
    have hload : Config.load T (.ok halfSecond) = .ok halfSecond :=
      Config.load_ok_iff.mpr ⟨rfl, halfSecond_valid T⟩
    have htotal : ∀ p : FlowProcessor, ∃ q, p.reloadConfig T halfSecond = .ok q :=
      fun p => reloadConfig_total T p (by decide)
    have hevents : ∀ e ∈ [Event.reload (.ok halfSecond), .receive none knock, .process], e.GoesThrough T := by
      simp [Event.GoesThrough, hload, htotal]
    have hsome := hsafe storedOrders _ hevents
    obtain ⟨q, hq⟩ := htotal p
    have hcrash := processFlow_halfSecond hq hnone
    simp [Daemon.run, Daemon.step, Daemon.receive, Daemon.process, Daemon.reloadConfig, hload, hq, hcrash,
      channelCapacity, hd] at hsome
  · have hsolid : Solid d.processor := by
      rw [hprocessor]
      exact Solid.of_reload hp (by rw [reloadWindow_start]; exact hpos)
    obtain ⟨s, hs, -⟩ := Daemon.run_total (fun d => Solid d.processor)
      (fun e _ orders d hd => hd.step orders e) orders hsolid
    rw [hs]
    rfl

theorem pipeline_safe_iff_readme : ∃ d, Daemon.start IpText.dotted (.ok Config.readme) = .ok d ∧
    ((Config.readme.ticker.isSome ∧ ∀ (orders : ℕ → TickOrders) (events : List Event),
        (∀ e ∈ events, e.GoesThrough IpText.dotted) → (d.run IpText.dotted orders events).isSome) ↔
      Duration.fromSecs 1 ≤ Config.readme.global.window ∧ 0 < Config.readme.global.evaluationInterval) := by
  have hok : (Daemon.start IpText.dotted (.ok Config.readme)).isOk = true := by decide
  obtain ⟨d, hd⟩ := Fold.except_isOk.mp hok
  exact ⟨d, hd, pipeline_safe_iff IpText.dotted Config.readme d hd⟩

/-- Valid configurations: with half a second as its window the daemon starts, and its first flow panics;
with an evaluation interval of zero, its ticker does. -/
theorem halfSecond_crashes : halfSecond.validate IpText.dotted = .ok () ∧
    (∃ d, Daemon.start IpText.dotted (.ok halfSecond) = .ok d ∧
      (d.run IpText.dotted storedOrders [.receive none knock, .process]).isNone = true) ∧
    let unticked : Config := { Config.readme with global := { Config.readme.global with evaluationInterval := 0 } }
    unticked.validate IpText.dotted = .ok () ∧ unticked.ticker = none := by
  refine ⟨halfSecond_valid _, ?_, by decide, rfl⟩
  have hrun : (Daemon.start IpText.dotted (.ok halfSecond)).toOption.map (fun d =>
      (d.run IpText.dotted storedOrders [.receive none knock, .process]).isNone) = some true := by
    decide
  obtain ⟨d, hd, hnone⟩ := Option.map_eq_some_iff.mp hrun
  exact ⟨d, Fold.except_toOption.mp hd, hnone⟩

end NetAlert

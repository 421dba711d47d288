import NetAlert.Generations
import NetAlert.Monitor

/-!
# NetAlert.Footprint — what the daemon holds in memory

`Daemon.entries` counts the records, samples, table entries and alerts that the tasks share.

* `Bounded.step`: the processor and the alerts always are those of one configuration that was loaded, and its flows
  fill no more than it allows.
* `footprint_bounded`: so no run of flows, ticks and reloads makes the daemon hold more than the configurations
  allow.
-/

namespace NetAlert

variable {T : IpText} {c : Config} {W : ℕ}

/-! ## Entries -/

/-- Captured flows and seconds of the ring buffers. -/
def ProcessedRule.entries (rule : ProcessedRule) : ℕ :=
  rule.captureBuffer.length + (rule.buffers.toPairs.map fun e => e.2.buckets.length).sum

/-- Waiting records, exporter rates, what the rules hold, indices of the prefix table, and alerts. -/
def Daemon.entries (d : Daemon) : ℕ :=
  d.channel.length + d.exporterRates.toPairs.length + (d.processor.rules.map ProcessedRule.entries).sum +
    (d.processor.prefixTable.toPairs.map fun e => e.2.length).sum + d.alertManager.alerts.length

/-- A full capture buffer, and a ring buffer for each threshold. -/
def RuleConfig.allowance (r : RuleConfig) (windowSecs captureBufferSize : ℕ) : ℕ :=
  max captureBufferSize 1 + r.bufferKeys.length * windowSecs

/-- What the rules may hold, an index for each of them, and an alert for each metric. -/
def Config.allowance (T : IpText) (c : Config) (windowSecs : ℕ) : ℕ :=
  (c.rules.map fun r => r.allowance windowSecs c.global.captureBufferSize).sum + c.rules.length +
    (c.buildAlerts T).length

/-- The table lists every rule once. -/
theorem TableOk.sum_length_le {rules : List ProcessedRule} {table : IpNetworkTable (List ℕ)}
    (h : TableOk rules table) : (table.toPairs.map fun e => e.2.length).sum ≤ rules.length := by
  have hinverts := tableOk_iff.mp h
  have hall : (table.toPairs.map fun e => e.2.length).sum = (Inverted.gather (fun _ => true) table).length := by
    simp [Inverted.gather, List.length_flatMap]
  rw [hall]
  have hsub : Inverted.gather (fun _ => true) table ⊆ List.range rules.length := by
    intro i hi
    obtain ⟨rule, hrule, -⟩ := (hinverts.mem_gather _).mp hi
    exact List.mem_range.mpr (List.getElem?_eq_some_iff.mp hrule).1
  simpa using (List.subperm_of_subset (hinverts.nodup_gather _) hsub).length_le

/-! ## Rules -/

/-- The ring buffers of a processor have as many seconds as its window. -/
def FlowProcessor.Sized (p : FlowProcessor) : Prop :=
  ∀ rule ∈ p.layout.rules, ∀ k n, rule.sizes k = some n → n = p.layout.windowSecs

theorem Sized.of_layout {p q : FlowProcessor} (h : p.Sized) (hl : q.layout = p.layout) : q.Sized := by
  unfold FlowProcessor.Sized
  rw [hl]
  exact h

theorem Sized.load {p p' : FlowProcessor} (h : p.reloadConfig T c = .ok p') : p'.Sized := by
  obtain ⟨hF, -, hw⟩ := reloadConfig_ok h
  intro layout hlayout k n hn
  obtain ⟨rule, hrule, rfl⟩ := List.mem_map.mp hlayout
  obtain ⟨r, -, hr⟩ := Relate.forall₂_left_of_mem hF hrule
  obtain ⟨b, hb, rfl⟩ := Option.map_eq_some_iff.mp hn
  rw [hr.buffers] at hb
  split_ifs at hb with hk
  rw [← Option.some.inj hb, RingBuffer.length_new]
  exact hw.symm

/-- A rule since its configuration was loaded. -/
theorem Kept.entries_le {r : RuleConfig} {cap : ℕ} {flows : List FlowRecord} {rule : ProcessedRule}
    (h : Kept r cap flows rule) (hsized : ∀ k n, rule.layout.sizes k = some n → n = W) :
    rule.entries ≤ r.allowance W cap := by
  have hrings : ∀ n ∈ rule.buffers.toPairs.map fun e => e.2.buckets.length, n ≤ W := by
    intro n hn
    obtain ⟨⟨k, b⟩, he, rfl⟩ := List.mem_map.mp hn
    exact (hsized k _ (by simp [ProcessedRule.layout, bufferSizes, HashMap.mem_toPairs.mp he])).le
  have hsum := List.sum_le_card_nsmul _ W hrings
  have hkeys : rule.buffers.toPairs.length ≤ r.bufferKeys.length :=
    HashMap.length_toPairs_le fun k b hb => (h.keys k).mp (by rw [hb]; rfl)
  rw [List.length_map, smul_eq_mul] at hsum
  exact Nat.add_le_add h.room (hsum.trans (Nat.mul_le_mul_right W hkeys))

/-! ## Runs -/

/-- The configuration that an event loads, if `Config::load` accepts it. -/
def Event.loads (T : IpText) : Event → Option Config
  | .reload parsed => (Config.load T parsed).toOption
  | _ => none

/-- What is kept once some configurations have been loaded. -/
structure Bounded (T : IpText) (loaded : List Config) (d : Daemon) : Prop where
  channel : d.channel.length ≤ channelCapacity
  rates : ∃ c ∈ loaded, d.exporterRates = c.exporterSamplingRates
  window : ∃ c ∈ loaded, d.processor.windowSecs = c.global.window.asSecs
  sized : d.processor.Sized
  running : ∃ c ∈ loaded, BuiltFrom T c d.processor ∧ RunsOn T c d.alertManager.alerts

namespace Bounded

variable {loaded : List Config} {d d' : Daemon}

theorem start (hd : Daemon.start T (.ok c) = .ok d) : Bounded T [c] d := by
  obtain ⟨-, p, hp, rfl⟩ := Daemon.start_ok hd
  have hc : c ∈ [c] := List.mem_singleton_self c
  refine ⟨Nat.zero_le _, ⟨c, hc, rfl⟩, ⟨c, hc, ?_⟩, Sized.load hp, c, hc, ⟨[], .load hp⟩, reload_runsOn _ c⟩
  rw [(reloadConfig_ok hp).2.2, reloadWindow_start]

theorem mono (h : Bounded T loaded d) (later : List Config) : Bounded T (loaded ++ later) d := by
  have hmem : ∀ {c}, c ∈ loaded → c ∈ loaded ++ later := fun hc => List.mem_append_left later hc
  obtain ⟨c₁, h₁, hrates⟩ := h.rates
  obtain ⟨c₂, h₂, hwindow⟩ := h.window
  obtain ⟨c₃, h₃, hrunning⟩ := h.running
  exact ⟨h.channel, ⟨c₁, hmem h₁, hrates⟩, ⟨c₂, hmem h₂, hwindow⟩, h.sized, c₃, hmem h₃, hrunning⟩

/-- **A reload**, whether the configuration is taken or not. -/
theorem reload (h : Bounded T loaded d) (parsed : Except String Config) :
    Bounded T (loaded ++ ((Event.reload parsed).loads T).toList) (d.reloadConfig T parsed) := by
  unfold Daemon.reloadConfig
  have hm := h.mono ((Event.reload parsed).loads T).toList
  cases hload : Config.load T parsed with
  | error _ => exact hm
  | ok c =>
    have hc : c ∈ loaded ++ ((Event.reload parsed).loads T).toList := by
      simp [Event.loads, Fold.except_toOption.mpr hload]
    cases hp : d.processor.reloadConfig T c with
    | error _ =>
      simp only [hp]
      exact ⟨hm.channel, ⟨c, hc, rfl⟩, hm.window, hm.sized, hm.running⟩
    | ok p =>
      simp only [hp]
      refine ⟨hm.channel, ⟨c, hc, rfl⟩, ?_, Sized.load hp, c, hc, ⟨[], .load hp⟩, reload_runsOn _ c⟩
      rw [(reloadConfig_ok hp).2.2, FlowProcessor.reloadWindow]
      split_ifs
      · exact ⟨c, hc, rfl⟩
      · exact hm.window

/-- **A flow or a tick.** -/
theorem steady (h : Bounded T loaded d) {orders : TickOrders} {e : Event} {payloads : List AlertPayload}
    (he : e.Steady) (hs : d.step T orders e = some (d', payloads)) : Bounded T loaded d' := by
  have hchannel : d'.channel.length ≤ channelCapacity := by
    cases e with
    | receive samplerAddress flow =>
      cases hs
      unfold Daemon.receive
      split_ifs with hroom
      · simpa using hroom
      · exact h.channel
    | process =>
      obtain ⟨d₁, h₁, heq⟩ := Option.map_eq_some_iff.mp hs
      cases heq
      have hle := h.channel
      rcases Daemon.process_cases h₁ with ⟨-, rfl⟩ | ⟨flow, channel, p, hcons, -, rfl⟩
      · exact hle
      · rw [hcons] at hle
        exact Nat.le_of_succ_le hle
    | tick currentTime now =>
      cases hs
      exact h.channel
    | reload parsed => exact he.elim
  obtain ⟨c, hc, hbuilt, hruns⟩ := h.running
  have hrunning : ∃ c ∈ loaded, BuiltFrom T c d'.processor ∧ RunsOn T c d'.alertManager.alerts :=
    ⟨c, hc, hbuilt.steady he hs, hruns.steady he hs⟩
  have hrates : d'.exporterRates = d.exporterRates := by
    rcases step_cases he hs with ⟨_, rfl⟩ | ⟨_, _, _, _, rfl⟩ | ⟨_, _, _, _, _, rfl⟩ <;> rfl
  have hlayout := step_layout he hs
  refine ⟨hchannel, ?_, ?_, Sized.of_layout h.sized hlayout, hrunning⟩
  · rw [hrates]
    exact h.rates
  · rw [show d'.processor.windowSecs = d.processor.windowSecs from congrArg Layout.windowSecs hlayout]
    exact h.window

/-- **One event.** -/
theorem step (h : Bounded T loaded d) {orders : TickOrders} {e : Event} {payloads : List AlertPayload}
    (hs : d.step T orders e = some (d', payloads)) : Bounded T (loaded ++ (e.loads T).toList) d' := by
  cases e with
  | reload parsed =>
    cases hs
    exact h.reload parsed
  | receive | process | tick => exact (h.steady (by trivial) hs).mono _

/-- **Runs.** -/
theorem run (h : Bounded T loaded d) {orders : ℕ → TickOrders} {events : List Event}
    {s : Daemon × List (List AlertPayload)} (hs : d.run T orders events = some s) :
    Bounded T (loaded ++ events.filterMap (Event.loads T)) s.1 := by
  induction events using List.reverseRecOn generalizing s with
  | nil =>
    cases hs
    exact h.mono []
  | append_singleton events e ih =>
    obtain ⟨s₁, d', payloads, h₁, h₂, rfl⟩ := Daemon.run_concat_ok hs
    have hloads : (events ++ [e]).filterMap (Event.loads T) =
        events.filterMap (Event.loads T) ++ (e.loads T).toList := by
      cases he : e.loads T <;> simp [he]
    rw [hloads, ← List.append_assoc]
    exact (ih h₁).step h₂

/-- **The sum** over what is kept. -/
theorem entries_le (h : Bounded T loaded d) : ∃ c₁ ∈ loaded, ∃ c₂ ∈ loaded, ∃ c₃ ∈ loaded,
    d.entries ≤ channelCapacity + c₁.exporters.toPairs.length + c₂.allowance T c₃.global.window.asSecs := by
  obtain ⟨c₁, h₁, hrates⟩ := h.rates
  obtain ⟨c₂, h₂, ⟨flows, hran⟩, hruns⟩ := h.running
  obtain ⟨c₃, h₃, hwindow⟩ := h.window
  refine ⟨c₁, h₁, c₂, h₂, c₃, h₃, ?_⟩
  obtain ⟨hT, hkept⟩ := hran.kept
  have hexporters : d.exporterRates.toPairs.length ≤ c₁.exporters.toPairs.length := by
    rw [hrates, Config.exporterSamplingRates]
    exact (HashMap.length_ofPairs_le _).trans (List.length_map _).le
  have hrules : (d.processor.rules.map ProcessedRule.entries).sum ≤
      (c₂.rules.map fun r => r.allowance c₃.global.window.asSecs c₂.global.captureBufferSize).sum := by
    refine List.Forall₂.sum_le_sum (List.forall₂_map_left_iff.mpr (List.forall₂_map_right_iff.mpr ?_))
    refine ((Relate.forall₂_mem hkept).imp fun r rule hr => ?_).flip
    obtain ⟨-, hrule, hk⟩ := hr
    refine hk.entries_le fun k n hn => ?_
    rw [← hwindow]
    exact h.sized _ (List.mem_map_of_mem hrule) k n hn
  have htable := hT.sum_length_le
  rw [← hkept.length_eq] at htable
  have halerts := hruns.length_eq
  have hchannel := h.channel
  simp only [Daemon.entries, Config.allowance]
  omega

end Bounded

end NetAlert

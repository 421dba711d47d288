import NetAlert.Generations
import NetAlert.TickOrder

/-!
# NetAlert.Omission — the daemon with and without one of its alerts

`Omits T c c' n A place`: the configuration `c'` is `c` without its `n`-th alert `A`.  Two daemons that run on
`c` and on `c'` and see the same flows and ticks measure the same rates, so every other alert goes through
the same states in both (`Paired.step`).
-/

namespace NetAlert

variable {T : IpText} {c c' : Config} {n : ℕ} {A : AlertInstance} {place : ℕ → ℕ}

/-! ## Configurations -/

/-- `c'` has the alerts of `c` but for the `n`-th, `A`; the `i`-th alert of `c'` is the `place i`-th of `c`.
The rules have the same prefixes, and each watches the same directions: that of `A` has other alerts in the
direction of `A`. -/
structure Omits (T : IpText) (c c' : Config) (n : ℕ) (A : AlertInstance) (place : ℕ → ℕ) : Prop where
  alert : (c.buildAlerts T)[n]? = some A
  others : ∀ i, (c'.buildAlerts T)[i]? = (c.buildAlerts T)[place i]?
  place : ∀ j, j ≠ n ↔ ∃ i, place i = j
  global : c'.global = c.global
  exporters : c'.exporters = c.exporters
  rules : List.Forall₂ (fun r r' => r'.ipPrefix = r.ipPrefix ∧ ∀ d, r'.watches d = r.watches d) c.rules c'.rules

/-! ## Alerts in the same state -/

/-- The same alert in the same state. -/
def Twin (a a' : AlertInstance) : Prop := Rebuilt a a' ∧ a'.state = a.state

theorem Rebuilt.symm {a a' : AlertInstance} (h : Rebuilt a a') : Rebuilt a' a := by
  unfold Rebuilt
  rw [h]

/-- Twins at the same rate take the same step. -/
theorem Twin.evaluate {a a' : AlertInstance} (h : Twin a a') (rate : ℚ) (now : Instant) :
    (a'.evaluate rate now).1.state = (a.evaluate rate now).1.state ∧
      (a'.evaluate rate now).2 = (a.evaluate rate now).2 := by
  obtain ⟨hreb, hstate⟩ := h
  rw [hreb, hstate]
  unfold AlertInstance.evaluate
  cases hs : a.state with
  | _ => simp only; split_ifs <;> simp [hs]

/-! ## Daemons -/

/-- Daemons with and without an alert, after the same flows and ticks. -/
structure Paired (T : IpText) (c c' : Config) (place : ℕ → ℕ) (d d' : Daemon) : Prop where
  exporterRates : d'.exporterRates = d.exporterRates
  channel : d'.channel = d.channel
  built : BuiltFrom T c d.processor
  built' : BuiltFrom T c' d'.processor
  counts : SameCounts d.processor d'.processor
  runsOn : RunsOn T c d.alertManager.alerts
  runsOn' : RunsOn T c' d'.alertManager.alerts
  twins : ∀ i, Option.Rel Twin d.alertManager.alerts[place i]? d'.alertManager.alerts[i]?

section Paired

variable {d d' d₁ d₁' : Daemon}

theorem Paired.start (h : Omits T c c' n A place) (hd : Daemon.start T (.ok c) = .ok d)
    (hd' : Daemon.start T (.ok c') = .ok d') : Paired T c c' place d d' := by
  obtain ⟨-, p, hp, rfl⟩ := Daemon.start_ok hd
  obtain ⟨-, p', hp', rfl⟩ := Daemon.start_ok hd'
  have hwindow : (FlowProcessor.new c.global.window.asSecs).reloadWindow c =
      (FlowProcessor.new c'.global.window.asSecs).reloadWindow c' := by
    simp only [FlowProcessor.reloadWindow, h.global]
  have hbuilt : ∀ c : Config,
      ((AlertManager.new c.global.alertScript).reloadConfig T c).alerts = c.buildAlerts T :=
    fun c => carryOver_empty _
  refine ⟨?_, rfl, ⟨[], .load hp⟩, ⟨[], .load hp'⟩, .load hp hp' hwindow, reload_runsOn _ _, reload_runsOn _ _,
    fun i => ?_⟩
  · show c'.exporterSamplingRates = c.exporterSamplingRates
    simp only [Config.exporterSamplingRates, h.exporters]
  · show Option.Rel Twin ((AlertManager.new _).reloadConfig T c).alerts[place i]?
      ((AlertManager.new _).reloadConfig T c').alerts[i]?
    rw [hbuilt, hbuilt, h.others]
    cases (c.buildAlerts T)[place i]? with
    | none => exact .none
    | some a => exact .some ⟨.refl a, rfl⟩

/-- **Twins measure the same rate.** -/
theorem Paired.rate_eq (h : Paired T c c' place d d') {i : ℕ} {a a' : AlertInstance}
    (ha : d.alertManager.alerts[place i]? = some a) (ha' : d'.alertManager.alerts[i]? = some a')
    (ord ord' : HashOrder) (currentTime : ℕ) :
    a'.rate (d'.processor.computeAllRates T ord' currentTime) =
      a.rate (d.processor.computeAllRates T ord currentTime) := by
  have htwin := h.twins i
  rw [ha, ha'] at htwin
  obtain ⟨htwin⟩ := htwin
  have hkey := htwin.1.key_eq
  obtain ⟨htext, hprotocol, hdirection, hmetric⟩ := AlertKey.mk.inj hkey
  obtain ⟨rule, hr, hnet, hp, b, hb, hbuf⟩ := exists_rule_of_alert h.built h.runsOn (List.mem_of_getElem? ha)
  obtain ⟨rule', hr', hnet', hp', b', hb', hbuf'⟩ :=
    exists_rule_of_alert h.built' h.runsOn' (List.mem_of_getElem? ha')
  have hnetwork : rule.network = rule'.network := by
    ext
    rw [hnet, hnet']
    exact T.net_injective (by rw [← hp, ← hp', htext])
  rw [hprotocol, hdirection] at hb' hbuf'
  obtain rfl := h.counts rule hr rule' hr' hnetwork _ b b' hb hb'
  unfold AlertInstance.rate
  rw [findRate_computeAllRates, findRate_computeAllRates, hprotocol, hdirection, hmetric, hbuf, hbuf']

/-- Twins do the same in a tick. -/
theorem Paired.reaction_eq (h : Paired T c c' place d d') {i : ℕ} {a a' : AlertInstance}
    (ha : d.alertManager.alerts[place i]? = some a) (ha' : d'.alertManager.alerts[i]? = some a')
    (ord ord' : HashOrder) (currentTime : ℕ) (now : Instant) :
    a'.reaction (d'.processor.computeAllRates T ord' currentTime) now =
      a.reaction (d.processor.computeAllRates T ord currentTime) now := by
  have htwin := h.twins i
  rw [ha, ha'] at htwin
  obtain ⟨htwin⟩ := htwin
  unfold AlertInstance.reaction
  rw [h.rate_eq ha ha' ord ord' currentTime]
  exact (htwin.evaluate _ _).2

/-- Every alert of the second daemon has a twin, and every alert of the first that has a place there. -/
theorem Paired.exists_twin' (h : Paired T c c' place d d') {i : ℕ} {a' : AlertInstance}
    (ha' : d'.alertManager.alerts[i]? = some a') :
    ∃ a, d.alertManager.alerts[place i]? = some a ∧ Twin a a' := by
  rcases Relate.cases_of_rel (h.twins i) with ⟨-, hn⟩ | ⟨a, b, ha, hb, htwin⟩
  · rw [ha'] at hn
    cases hn
  · rw [ha'] at hb
    cases hb
    exact ⟨a, ha, htwin⟩

theorem Paired.exists_twin (h : Paired T c c' place d d') {i : ℕ} {a : AlertInstance}
    (ha : d.alertManager.alerts[place i]? = some a) :
    ∃ a', d'.alertManager.alerts[i]? = some a' ∧ Twin a a' := by
  rcases Relate.cases_of_rel (h.twins i) with ⟨hn, -⟩ | ⟨b, a', hb, ha', htwin⟩
  · rw [ha] at hn
    cases hn
  · rw [ha] at hb
    cases hb
    exact ⟨a', ha', htwin⟩

/-- **One event** for both: a flow is put on the channel or dropped, a flow is processed, or there is a tick. -/
theorem Paired.step_cases (h : Paired T c c' place d d') {orders orders' : TickOrders} {e : Event}
    {payloads payloads' : List AlertPayload} (he : e.Steady) (hs : d.step T orders e = some (d₁, payloads))
    (hs' : d'.step T orders' e = some (d₁', payloads')) :
    ((∀ currentTime now, e ≠ .tick currentTime now) ∧
        ((∃ channel, d₁ = { d with channel := channel } ∧ d₁' = { d' with channel := channel }) ∨
          ∃ flow channel p p', d.processor.processFlow flow = some p ∧ d'.processor.processFlow flow = some p' ∧
            d₁ = { d with channel := channel, processor := p } ∧
            d₁' = { d' with channel := channel, processor := p' })) ∨
      ∃ currentTime now, e = .tick currentTime now := by
  cases e with
  | receive samplerAddress flow =>
    refine .inl ⟨fun _ _ => Event.noConfusion, .inl ?_⟩
    cases hs
    cases hs'
    simp only [Daemon.receive, h.exporterRates, h.channel]
    split_ifs
    · exact ⟨_, rfl, rfl⟩
    · exact ⟨d.channel, rfl, by rw [← h.channel, ← h.exporterRates]⟩
  | process =>
    refine .inl ⟨fun _ _ => Event.noConfusion, ?_⟩
    obtain ⟨_, h₁, heq⟩ := Option.map_eq_some_iff.mp hs
    cases heq
    obtain ⟨_, h₁', heq⟩ := Option.map_eq_some_iff.mp hs'
    cases heq
    simp only [Daemon.process, h.channel] at h₁ h₁'
    cases hc : d.channel with
    | nil =>
      rw [hc] at h₁ h₁'
      cases h₁
      cases h₁'
      exact .inl ⟨[], by rw [← hc], by rw [← hc, ← h.channel]⟩
    | cons flow channel =>
      rw [hc] at h₁ h₁'
      obtain ⟨p, hp, heq⟩ := Option.bind_eq_some_iff.mp h₁
      cases heq
      obtain ⟨p', hp', heq⟩ := Option.bind_eq_some_iff.mp h₁'
      cases heq
      exact .inr ⟨_, _, p, p', hp, hp', rfl, rfl⟩
  | tick currentTime now => exact .inr ⟨currentTime, now, rfl⟩
  | reload parsed => exact he.elim

theorem SameCounts.tick (h : SameCounts d.processor d'.processor) (orders orders' : TickOrders) (currentTime : ℕ)
    (now : Instant) : SameCounts (d.tick T orders currentTime now).1.processor
      (d'.tick T orders' currentTime now).1.processor := by
  obtain ⟨t, alerts, hev, htick⟩ := Daemon.tick_eq (T := T) orders d currentTime now
  obtain ⟨t', alerts', hev', htick'⟩ := Daemon.tick_eq (T := T) orders' d' currentTime now
  rw [htick, htick']
  refine (hev'.processor_keeps (fun q => SameCounts q t.processor) (fun _ _ _ hq => hq.drain_left _ _) ?_).symm
  exact (hev.processor_keeps (fun p => SameCounts p d'.processor) (fun _ _ _ hp => hp.drain_left _ _) h).symm

/-- **One event** for both daemons. -/
theorem Paired.step (h : Paired T c c' place d d') {orders orders' : TickOrders} {e : Event}
    {payloads payloads' : List AlertPayload} (he : e.Steady) (hs : d.step T orders e = some (d₁, payloads))
    (hs' : d'.step T orders' e = some (d₁', payloads')) : Paired T c c' place d₁ d₁' := by
  have hb := h.built.steady he hs
  have hb' := h.built'.steady he hs'
  have hr := h.runsOn.steady he hs
  have hr' := h.runsOn'.steady he hs'
  rcases h.step_cases he hs hs' with ⟨-, ⟨channel, rfl, rfl⟩ | ⟨flow, channel, p, p', hp, hp', rfl, rfl⟩⟩ |
    ⟨currentTime, now, rfl⟩
  · exact ⟨h.exporterRates, rfl, hb, hb', h.counts, hr, hr', h.twins⟩
  · obtain ⟨_, hran⟩ := h.built
    obtain ⟨_, hran'⟩ := h.built'
    exact ⟨h.exporterRates, rfl, hb, hb', h.counts.flow hran.kept.1 hran'.kept.1 hp hp', hr, hr', h.twins⟩
  · have hcounts := h.counts.tick (T := T) orders orders' currentTime now
    obtain ⟨t, alerts, hev, htick⟩ := Daemon.tick_eq (T := T) orders d currentTime now
    obtain ⟨t', alerts', hev', htick'⟩ := Daemon.tick_eq (T := T) orders' d' currentTime now
    rw [Daemon.step, htick] at hs
    rw [Daemon.step, htick'] at hs'
    rw [htick, htick'] at hcounts
    cases hs
    cases hs'
    refine ⟨h.exporterRates, h.channel, hb, hb', hcounts, hr, hr', fun i => ?_⟩
    refine Relate.rel_square (h.twins i) (Relate.forall₂_getElem? hev.each (place i))
      (Relate.forall₂_getElem? hev'.each i) ?_
    rintro a a' b b' ha ha' htwin ⟨hreb, hstate, -⟩ ⟨hreb', hstate', -⟩
    refine ⟨hreb.symm.trans (htwin.1.trans hreb'), ?_⟩
    rw [hstate, hstate', h.rate_eq ha ha' orders.rates orders'.rates currentTime]
    exact (htwin.evaluate _ _).1

end Paired

end NetAlert

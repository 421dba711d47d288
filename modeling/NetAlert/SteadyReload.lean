import NetAlert.Daemon
import NetAlert.Metering
import NetAlert.Reload
import NetAlert.Routing

/-!
# NetAlert.SteadyReload — reloading the configuration a daemon runs on

* `Settled.reload_eq`: if no two alerts share a key, such a reload replaces the processor and nothing
  else.  The new processor has the layout of the old one and no traffic.
* `run_alike`: two daemons that differ in measured traffic only send the same actions in every run in
  which no alert reaches a threshold only with the traffic that the second lacks.
* `reload_unseen`: the two together, for a daemon with and without the reload.
-/

namespace NetAlert

variable {T : IpText} {c : Config}

/-! ## Daemons after loading -/

/-- What a daemon that runs on a configuration has kept since it loaded it. -/
structure Settled (T : IpText) (c : Config) (d : Daemon) : Prop where
  valid : c.validate T = .ok ()
  exporterRates : d.exporterRates = c.exporterSamplingRates
  alerts : RunsOn T c d.alertManager.alerts
  scriptPath : ∀ script, c.global.alertScript = some script → d.alertManager.scriptPath = some script
  processor : ∃ p, d.processor.reloadConfig T c = .ok p ∧ p.layout = d.processor.layout

/-- Loading depends on the processor for its window only. -/
theorem processor_reload_congr {p q : FlowProcessor} (h : p.reloadWindow c = q.reloadWindow c) :
    p.reloadConfig T c = q.reloadConfig T c := by
  simp only [FlowProcessor.reloadConfig, h]

theorem processor_reload_again {p₀ p : FlowProcessor} (h : p₀.reloadConfig T c = .ok p) :
    p.reloadConfig T c = .ok p := by
  rw [← h]
  apply processor_reload_congr
  rw [FlowProcessor.reloadWindow, (reloadConfig_ok h).2.2, FlowProcessor.reloadWindow]
  split_ifs <;> rfl

theorem Settled.of_start {d : Daemon} (h : Daemon.start T (.ok c) = .ok d) : Settled T c d := by
  obtain ⟨hv, p, hp, rfl⟩ := Daemon.start_ok h
  refine ⟨hv, rfl, reload_runsOn _ _, fun script hs => ?_, p, processor_reload_again hp, rfl⟩
  simp [AlertManager.reloadConfig, hs]

theorem Settled.of_reload {d : Daemon} {p : FlowProcessor} (hv : c.validate T = .ok ())
    (hp : d.processor.reloadConfig T c = .ok p) : Settled T c (d.reloadConfig T (.ok c)) := by
  rw [Daemon.reloadConfig_ok hv hp]
  refine ⟨hv, rfl, reload_runsOn _ _, fun script hs => ?_, p, processor_reload_again hp, rfl⟩
  simp [AlertManager.reloadConfig, hs]

/-! ## One event -/

/-- What a tick does to the daemon. -/
theorem Daemon.tick_eq (orders : TickOrders) (d : Daemon) (currentTime : ℕ) (now : Instant) :
    ∃ t alerts, AllEvaluated T orders.analysis (d.processor.computeAllRates T orders.rates currentTime) now
        ⟨d.processor, ∅, [], d.issued⟩ d.alertManager.alerts t alerts ∧
      d.tick T orders currentTime now =
        ({ d with
            processor := t.processor
            alertManager := ⟨alerts, d.alertManager.scriptPath⟩
            issued := t.issued }, t.payloads) :=
  ⟨_, _, evaluateAlerts_evaluated _ _ _ _ _ _, rfl⟩

/-- **One event** that is not a reload: a flow is put on the channel or dropped, a flow is processed, or the
alerts are evaluated. -/
theorem step_cases {orders : TickOrders} {d d' : Daemon} {e : Event} {payloads : List AlertPayload}
    (he : e.Steady) (hs : d.step T orders e = some (d', payloads)) :
    (∃ channel, d' = { d with channel := channel }) ∨
      (∃ flow channel p, d.processor.processFlow flow = some p ∧
        d' = { d with channel := channel, processor := p }) ∨
      ∃ currentTime now t alerts,
        AllEvaluated T orders.analysis (d.processor.computeAllRates T orders.rates currentTime) now
          ⟨d.processor, ∅, [], d.issued⟩ d.alertManager.alerts t alerts ∧
        d' = { d with
          processor := t.processor
          alertManager := ⟨alerts, d.alertManager.scriptPath⟩
          issued := t.issued } := by
  cases e with
  | receive samplerAddress flow =>
    cases hs
    left
    unfold Daemon.receive
    split_ifs
    · exact ⟨_, rfl⟩
    · exact ⟨d.channel, rfl⟩
  | process =>
    obtain ⟨d₁, h₁, heq⟩ := Option.map_eq_some_iff.mp hs
    cases heq
    unfold Daemon.process at h₁
    split at h₁
    · cases h₁
      exact .inl ⟨d.channel, rfl⟩
    · obtain ⟨p, hp, heq⟩ := Option.bind_eq_some_iff.mp h₁
      cases heq
      exact .inr (.inl ⟨_, _, p, hp, rfl⟩)
  | tick currentTime now =>
    obtain ⟨t, alerts, hev, htick⟩ := Daemon.tick_eq (T := T) orders d currentTime now
    rw [Daemon.step, htick] at hs
    cases hs
    exact .inr (.inr ⟨currentTime, now, t, alerts, hev, rfl⟩)
  | reload parsed => exact he.elim

/-- A tick keeps of the processor what drains keep. -/
theorem AllEvaluated.processor_keeps {ords : ℕ → ℕ → HashOrder} {snapshots : List RateSnapshot} {now : Instant}
    {t t' : Tick} {as as' : List AlertInstance} (h : AllEvaluated T ords snapshots now t as t' as')
    (I : FlowProcessor → Prop) (hdrain : ∀ p ipPrefix d, I p → I (p.drainCapturedFlows T ipPrefix d).2)
    (h0 : I t.processor) : I t'.processor := by
  induction h with
  | nil => exact h0
  | cons h _ ih =>
    apply ih
    rcases h.drained with ⟨hp, -⟩ | ⟨hp, -⟩
    · rw [hp]
      exact h0
    · rw [hp, Tick.drain]
      split
      · exact h0
      · exact hdrain _ _ _ h0

/-- The layout outlives every event but a reload. -/
theorem step_layout {orders : TickOrders} {d d' : Daemon} {e : Event} {payloads : List AlertPayload}
    (he : e.Steady) (hs : d.step T orders e = some (d', payloads)) :
    d'.processor.layout = d.processor.layout := by
  rcases step_cases he hs with ⟨_, rfl⟩ | ⟨_, _, p, hp, rfl⟩ | ⟨_, _, t, _, hev, rfl⟩
  · rfl
  · exact processFlow_layout hp
  · exact hev.processor_keeps (fun p => p.layout = d.processor.layout)
      (fun p ipPrefix _ hp => (drainCapturedFlows_layout T p ipPrefix).trans hp) rfl

/-- A daemon stays settled until the next reload. -/
theorem Settled.step {orders : TickOrders} {d d' : Daemon} {e : Event} {payloads : List AlertPayload}
    (h : Settled T c d) (he : e.Steady) (hs : d.step T orders e = some (d', payloads)) : Settled T c d' := by
  have hprocessor : ∃ p, d'.processor.reloadConfig T c = .ok p ∧ p.layout = d'.processor.layout := by
    obtain ⟨p, hp, hl⟩ := h.processor
    have hlayout := step_layout he hs
    have hw : d'.processor.windowSecs = d.processor.windowSecs := congrArg Layout.windowSecs hlayout
    refine ⟨p, ?_, hl.trans hlayout.symm⟩
    rw [← hp]
    exact processor_reload_congr (by simp only [FlowProcessor.reloadWindow, hw])
  rcases step_cases he hs with ⟨_, rfl⟩ | ⟨_, _, _, _, rfl⟩ | ⟨_, _, _, alerts, hev, rfl⟩
  · exact ⟨h.valid, h.exporterRates, h.alerts, h.scriptPath, hprocessor⟩
  · exact ⟨h.valid, h.exporterRates, h.alerts, h.scriptPath, hprocessor⟩
  · exact ⟨h.valid, h.exporterRates, h.alerts.rebuilt hev.rebuilt, h.scriptPath, hprocessor⟩

/-- **Runs**: a daemon that runs on a configuration is settled on it. -/
theorem Running.settled {d : Daemon} (h : Running T c d) : Settled T c d := by
  induction h with
  | start h => exact .of_start h
  | reload hv hp => exact .of_reload hv hp
  | step _ he hs ih => exact ih.step he hs

/-! ## The reload -/

theorem sharedIdle_of_nodup {alerts : List AlertInstance} (h : (alerts.map AlertInstance.key).Nodup) :
    SharedIdle alerts := by
  intro i j a b hi hj hij hk
  have hlt : i < (alerts.map AlertInstance.key).length := by
    rw [List.length_map]
    exact (List.getElem?_eq_some_iff.mp hi).1
  exact absurd ((List.getElem?_inj hlt h).mp (by simp [hi, hj, hk])) hij

/-- **The reload** replaces the processor and nothing else. -/
theorem Settled.reload_eq {d : Daemon} (h : Settled T c d) (hkeys : (c.alertKeys T).Nodup) :
    ∃ p, d.processor.reloadConfig T c = .ok p ∧ p.layout = d.processor.layout ∧
      d.reloadConfig T (.ok c) = { d with processor := p } := by
  obtain ⟨p, hp, hl⟩ := h.processor
  refine ⟨p, hp, hl, ?_⟩
  have halerts : (d.alertManager.reloadConfig T c).alerts = d.alertManager.alerts := by
    refine h.alerts.reload_eq_iff.mpr (sharedIdle_of_nodup ?_)
    rw [forall₂_rebuilt_keys h.alerts]
    exact hkeys
  have hscript : (d.alertManager.reloadConfig T c).scriptPath = d.alertManager.scriptPath := by
    simp only [AlertManager.reloadConfig]
    cases hs : c.global.alertScript with
    | none => rfl
    | some script => exact (h.scriptPath script hs).symm
  have hmanager : d.alertManager.reloadConfig T c = d.alertManager :=
    congrArg₂ AlertManager.mk halerts hscript
  rw [Daemon.reloadConfig_ok h.valid hp, hmanager, ← h.exporterRates]

/-! ## Two daemons that differ in measured traffic -/

/-- The rate is at or above the threshold that the alert compares it with in its state. -/
def AlertInstance.reaches (a : AlertInstance) (rate : ℚ) : Bool :=
  match a.state with
  | .normal => F64.le a.triggerThreshold (.num rate)
  | .pending _ => !F64.lt (.num rate) a.triggerThreshold
  | .firing _ => !F64.lt (.num rate) a.recoverThreshold
  | .recovering _ => F64.le a.recoverThreshold (.num rate)

theorem AlertInstance.reaches_mono {a : AlertInstance} {rate rate' : ℚ} (hle : rate' ≤ rate)
    (h : a.reaches rate' = true) : a.reaches rate = true := by
  unfold reaches at h ⊢
  cases hs : a.state with
  | normal =>
    rw [hs] at h
    exact F64.le_trans_num h hle
  | pending since =>
    rw [hs] at h
    simp only [Bool.not_eq_true', ← Bool.not_eq_true] at h ⊢
    intro hlt
    exact h (F64.lt_of_le_num hle hlt)
  | firing lastUpdate =>
    rw [hs] at h
    simp only [Bool.not_eq_true', ← Bool.not_eq_true] at h ⊢
    intro hlt
    exact h (F64.lt_of_le_num hle hlt)
  | recovering since =>
    rw [hs] at h
    exact F64.le_trans_num h hle

/-- The rate matters for this comparison only. -/
theorem AlertInstance.evaluate_congr {a : AlertInstance} {rate rate' : ℚ} (h : a.reaches rate = a.reaches rate')
    (now : Instant) : a.evaluate rate now = a.evaluate rate' now := by
  unfold reaches at h
  unfold evaluate
  cases hs : a.state <;> simp only [hs, Bool.not_eq_eq_eq_not, Bool.not_not] at h ⊢ <;> rw [h]

/-- What was done to which alert. -/
structure Headline where
  alertId : Uuid
  action : String
  ipPrefix : String
  protocol : String
  direction : String
  metric : String
  deriving DecidableEq

def AlertPayload.headline (p : AlertPayload) : Headline :=
  ⟨p.alertId, p.action, p.ipPrefix, p.protocol, p.direction, p.metric⟩

/-- **One tick** of the same alerts on two lists of rates. -/
theorem AllEvaluated.congr {ords ords' : ℕ → ℕ → HashOrder} {snapshots snapshots' : List RateSnapshot}
    {now : Instant} {t t' t₁ t₁' : Tick} {as as₁ as₁' : List AlertInstance}
    (h : AllEvaluated T ords snapshots now t as t₁ as₁) (h' : AllEvaluated T ords' snapshots' now t' as t₁' as₁')
    (hreach : ∀ a ∈ as, a.reaches (a.rate snapshots) = a.reaches (a.rate snapshots'))
    (hissued : t.issued = t'.issued)
    (hsent : t.payloads.map AlertPayload.headline = t'.payloads.map AlertPayload.headline) :
    as₁ = as₁' ∧ t₁.issued = t₁'.issued ∧
      t₁.payloads.map AlertPayload.headline = t₁'.payloads.map AlertPayload.headline := by
  induction h generalizing t' t₁' as₁' with
  | nil t =>
    cases h'
    exact ⟨rfl, hissued, hsent⟩
  | @cons t u t₁ a b as bs h hs ih =>
    cases h' with
    | @cons _ u' _ _ b' _ bs' h' hs' =>
      have hev := AlertInstance.evaluate_congr (hreach a List.mem_cons_self) now
      have hreact : a.reaction snapshots now = a.reaction snapshots' now := congrArg Prod.snd hev
      have hb : b = b' := by
        refine h.rebuilt.eq_of h'.rebuilt ?_ ?_
        · rw [h.state, h'.state, hev]
        · rw [h.alertId, h'.alertId, hreact, hissued]
      subst hb
      have hu : u.issued = u'.issued := by rw [h.issued, h'.issued, hreact, hissued]
      have hp : u.payloads.map AlertPayload.headline = u'.payloads.map AlertPayload.headline := by
        rw [h.payloads, h'.payloads, List.map_append, List.map_append, hsent, hreact]
        cases a.reaction snapshots' now <;> rfl
      obtain ⟨has, h2, h3⟩ := ih hs' (fun a' ha' => hreach a' (List.mem_cons_of_mem _ ha')) hu hp
      exact ⟨by rw [has], h2, h3⟩

/-- Two daemons that differ in their processors only, and there in counts and captured flows. -/
structure Daemon.Alike (R : ℕ → ℕ × ℕ × ℕ → ℕ × ℕ × ℕ → Prop) (d d' : Daemon) : Prop where
  exporterRates : d.exporterRates = d'.exporterRates
  channel : d.channel = d'.channel
  alertManager : d.alertManager = d'.alertManager
  issued : d.issued = d'.issued
  processor : d.processor.Alike R d'.processor

/-- If the event is a tick, every alert whose rate in `d` reaches the threshold it is compared with has such
a rate in `d'`, too. -/
def Reached (T : IpText) (orders orders' : TickOrders) (d d' : Daemon) : Event → Prop
  | .tick currentTime _ => ∀ a ∈ d.alertManager.alerts,
      a.reaches (a.rate (d.processor.computeAllRates T orders.rates currentTime)) = true →
        a.reaches (a.rate (d'.processor.computeAllRates T orders'.rates currentTime)) = true
  | _ => True

/-- Whenever both daemons come to a tick, no alert in `d` owes it to the traffic missing in `d'` that it
reaches a threshold. -/
def Sustained (T : IpText) (orders orders' : ℕ → TickOrders) (d d' : Daemon) (events : List Event) : Prop :=
  ∀ before e after, events = before ++ e :: after → ∀ s s', d.run T orders before = some s →
    d'.run T orders' before = some s' → Reached T (orders before.length) (orders' before.length) s.1 s'.1 e

theorem sustained_concat {orders orders' : ℕ → TickOrders} {d d' : Daemon} {events : List Event} {e : Event} :
    Sustained T orders orders' d d' (events ++ [e]) ↔ Sustained T orders orders' d d' events ∧
      ∀ s s', d.run T orders events = some s → d'.run T orders' events = some s' →
        Reached T (orders events.length) (orders' events.length) s.1 s'.1 e := by
  constructor
  · intro h
    exact ⟨fun before e' after he => h before e' (after ++ [e]) (by rw [he]; simp), h events e [] rfl⟩
  · rintro ⟨h, hlast⟩ before e' after he
    rcases List.eq_nil_or_concat after with rfl | ⟨after, x, rfl⟩
    · obtain ⟨rfl, hx⟩ := List.append_inj' he rfl
      cases hx
      exact hlast
    · have he' : events ++ [e] = (before ++ e' :: after) ++ [x] := by simpa using he
      exact h before e' after (List.append_inj' he' rfl).1

section TwoRuns

variable {R : ℕ → ℕ × ℕ × ℕ → ℕ × ℕ × ℕ → Prop} (hR : AddStable R) (hle : ∀ t a b, R t a b → b ≤ a)

include hR hle

omit hle in
theorem Daemon.Alike.process {d d' : Daemon} (h : d.Alike R d') :
    Option.Rel (Daemon.Alike R) d.process d'.process := by
  obtain ⟨h1, h2, h3, h4, h5⟩ := h
  simp only [Daemon.process, h2]
  cases hc : d'.channel with
  | nil => exact .some ⟨h1, h2, h3, h4, h5⟩
  | cons flow channel =>
    refine Relate.bind_rel (processFlow_alike hR flow h5) fun p p' hp => ?_
    exact .some ⟨h1, rfl, h3, h4, hp⟩

omit hle in
theorem Daemon.Alike.reload {d d' : Daemon} (h : d.Alike R d') (parsed : Except String Config) :
    (d.reloadConfig T parsed).Alike R (d'.reloadConfig T parsed) := by
  obtain ⟨h1, h2, h3, h4, h5⟩ := h
  unfold Daemon.reloadConfig
  cases Config.load T parsed with
  | error e => exact ⟨h1, h2, h3, h4, h5⟩
  | ok config =>
    have hp : d.processor.reloadConfig T config = d'.processor.reloadConfig T config :=
      processor_reload_congr (by simp only [FlowProcessor.reloadWindow, h5.windowSecs])
    simp only [hp]
    cases d'.processor.reloadConfig T config with
    | error e => exact ⟨rfl, h2, h3, h4, h5⟩
    | ok p => exact ⟨rfl, h2, by rw [h3], h4, .refl hR p⟩

/-- **One event** on two daemons, the second of which has counted less. -/
theorem step_alike {orders orders' : TickOrders} {d d' : Daemon} {e : Event} (h : d.Alike R d')
    (hreached : Reached T orders orders' d d' e) :
    Option.Rel (fun s s' => s.1.Alike R s'.1 ∧ s.2.map AlertPayload.headline = s'.2.map AlertPayload.headline)
      (d.step T orders e) (d'.step T orders' e) := by
  cases e with
  | receive samplerAddress flow =>
    obtain ⟨h1, h2, h3, h4, h5⟩ := h
    refine .some ⟨?_, rfl⟩
    simp only [Daemon.receive, h1, h2]
    split_ifs
    · exact ⟨rfl, rfl, h3, h4, h5⟩
    · exact ⟨h1, h2, h3, h4, h5⟩
  | process =>
    rw [Daemon.step, Daemon.step, Option.map_eq_bind, Option.map_eq_bind]
    exact Relate.bind_rel (h.process hR) fun _ _ hd => .some ⟨hd, rfl⟩
  | tick currentTime now =>
    obtain ⟨h1, h2, h3, h4, h5⟩ := h
    obtain ⟨t, alerts, hev, htick⟩ := Daemon.tick_eq (T := T) orders d currentTime now
    obtain ⟨t', alerts', hev', htick'⟩ := Daemon.tick_eq (T := T) orders' d' currentTime now
    have halike : t.processor.Alike R t'.processor :=
      hev'.processor_keeps (fun q => t.processor.Alike R q) (fun _ _ _ hq => hq.drain_right T _ _)
        (hev.processor_keeps (fun p => p.Alike R d'.processor) (fun _ _ _ hp => hp.drain_left T _ _) h5)
    rw [← h3] at hev'
    -- lost traffic lowers rates, so it cannot make an alert reach its threshold
    obtain ⟨rfl, hissued, hsent⟩ := hev.congr hev' (fun a ha => Bool.eq_iff_iff.mpr
      ⟨hreached a ha, AlertInstance.reaches_mono (findRate_le T _ _ h5 _ _ _ _ _ hle)⟩) h4 rfl
    rw [Daemon.step, Daemon.step, htick, htick', h3]
    exact .some ⟨⟨h1, h2, rfl, hissued, halike⟩, hsent⟩
  | reload parsed => exact .some ⟨h.reload hR parsed, rfl⟩

/-- **Runs** of two daemons, the second of which has counted less. -/
theorem run_alike {orders orders' : ℕ → TickOrders} {d d' : Daemon} (h : d.Alike R d') {events : List Event}
    (hsustained : Sustained T orders orders' d d' events) :
    Option.Rel (fun s s' => s.1.Alike R s'.1 ∧
        s.2.map (List.map AlertPayload.headline) = s'.2.map (List.map AlertPayload.headline))
      (d.run T orders events) (d'.run T orders' events) := by
  induction events using List.reverseRecOn with
  | nil => exact .some ⟨h, rfl⟩
  | append_singleton events e ih =>
    obtain ⟨hbefore, hlast⟩ := sustained_concat.mp hsustained
    rw [Daemon.run_concat, Daemon.run_concat]
    rcases Relate.cases_of_rel (ih hbefore) with ⟨hn, hn'⟩ | ⟨s, s', hs, hs', ha, hsent⟩
    · rw [hn, hn', Option.bind_eq_bind, Option.bind_eq_bind, Option.bind_none, Option.bind_none]
      exact .none
    · rw [hs, hs', Option.bind_eq_bind, Option.bind_eq_bind, Option.bind_some, Option.bind_some]
      refine Relate.bind_rel (step_alike hR hle ha (hlast s s' hs hs')) fun r r' hr => ?_
      refine .some ⟨hr.1, ?_⟩
      rw [List.map_append, List.map_append, hsent, List.map_singleton, List.map_singleton, hr.2]

end TwoRuns

/-! ## With and without the reload -/

/-- What a run sends, or no result if it panics. -/
def Daemon.actions (T : IpText) (orders : ℕ → TickOrders) (d : Daemon) (events : List Event) :
    Option (List (List Headline)) :=
  (d.run T orders events).map fun s => s.2.map (List.map AlertPayload.headline)

/-- Less has been counted, but the same for the seconds of `S`. -/
def Fewer (S : Set ℕ) (t : ℕ) (a b : ℕ × ℕ × ℕ) : Prop := b ≤ a ∧ (t ∈ S → a = b)

theorem addStable_fewer (S : Set ℕ) : AddStable (Fewer S) := by
  refine ⟨fun t a => ⟨le_rfl, fun _ => rfl⟩, ?_⟩
  rintro t a b v ⟨h, hS⟩
  exact ⟨add_le_add_left h v, fun ht => by rw [hS ht]⟩

theorem actions_congr {S : Set ℕ} {orders orders' : ℕ → TickOrders} {d d' : Daemon} (h : d.Alike (Fewer S) d')
    {events : List Event} (hsustained : Sustained T orders orders' d d' events) :
    d.actions T orders events = d'.actions T orders' events := by
  have hrun := run_alike (addStable_fewer S) (fun _ _ _ hab => hab.1) h hsustained
  unfold Daemon.actions
  rcases Relate.cases_of_rel hrun with ⟨hs, hs'⟩ | ⟨s, s', hs, hs', -, hsent⟩
  · rw [hs, hs', Option.map_none]
  · rw [hs, hs', Option.map_some, Option.map_some, hsent]

/-- No buffer holds traffic of the window that ends with `currentTime`. -/
def FlowProcessor.Silent (p : FlowProcessor) (currentTime : ℕ) : Prop :=
  ∀ rule ∈ p.rules, ∀ e ∈ rule.buffers.toPairs, ∀ i < p.windowSecs, e.2.read (currentTime - i) = 0

instance (p : FlowProcessor) : DecidablePred p.Silent := fun _ => inferInstanceAs (Decidable (∀ _ ∈ _, _))

/-- The seconds of the windows of the ticks of a run. -/
def windowSeconds (windowSecs : ℕ) (events : List Event) : Set ℕ :=
  {t | ∃ currentTime now, Event.tick currentTime now ∈ events ∧ ∃ i < windowSecs, t = currentTime - i}

/-- **After the reload** less has been counted, except for seconds without traffic before. -/
theorem Settled.alike {d : Daemon} {p : FlowProcessor} (hp : d.processor.reloadConfig T c = .ok p)
    (hl : p.layout = d.processor.layout) {S : Set ℕ}
    (hS : ∀ rule ∈ d.processor.rules, ∀ k b, rule.buffers.lookup k = some b → ∀ t ∈ S, b.read t = 0) :
    d.Alike (Fewer S) { d with processor := p } := by
  refine ⟨rfl, rfl, rfl, rfl, alike_of_layout hl.symm ?_⟩
  intro rule hr rule' hr' k b b' hb hb' t
  rw [loaded_buffer hp hr' hb', RingBuffer.read_new]
  exact ⟨zero_le, fun ht => hS rule hr k b hb t ht⟩

theorem Settled.buffer_length {d : Daemon} (h : Settled T c d) {ipPrefix : String} {k : BufferKey} {b : RingBuffer}
    (hb : d.processor.bufferOf T ipPrefix k = some b) : b.buckets.length = d.processor.windowSecs := by
  obtain ⟨p, hp, hl⟩ := h.processor
  have halike : p.Alike (fun _ _ _ => True) d.processor := alike_of_layout hl fun _ _ _ _ _ _ _ _ _ _ => trivial
  rcases Relate.cases_of_rel (bufferOf_alike T halike ipPrefix k) with ⟨-, hn⟩ | ⟨b₁, b₂, h₁, h₂, ha⟩
  · rw [hb] at hn
    cases hn
  · rw [hb] at h₂
    cases h₂
    obtain ⟨rule, hr, hrule⟩ := List.exists_of_findSome?_eq_some h₁
    split_ifs at hrule
    rw [← halike.windowSecs, ← ha.size, loaded_buffer hp hr hrule]
    exact RingBuffer.length_new _

/-- **Silence**: a run of flows and ticks whose windows hold no traffic counted before the reload. -/
theorem Settled.sustained {d : Daemon} (h : Settled T c d) {p : FlowProcessor}
    (hp : d.processor.reloadConfig T c = .ok p) (hl : p.layout = d.processor.layout) {events : List Event}
    (hsteady : ∀ e ∈ events, e.Steady)
    (hsilent : ∀ currentTime now, Event.tick currentTime now ∈ events → d.processor.Silent currentTime)
    (orders orders' : ℕ → TickOrders) :
    Sustained T orders orders' d { d with processor := p } events := by
  have halike : d.Alike (Fewer (windowSeconds d.processor.windowSecs events)) { d with processor := p } := by
    apply Settled.alike hp hl
    rintro rule hr k b hb t ⟨currentTime, now, he, i, hi, rfl⟩
    exact hsilent currentTime now he rule hr _ (HashMap.mem_toPairs.mpr hb) i hi
  -- as long as the counts for the seconds of the windows agree, the rates at the ticks do
  have key : ∀ before, before <+: events → Sustained T orders orders' d { d with processor := p } before := by
    intro before
    induction before using List.reverseRecOn with
    | nil =>
      intro _ before e after he
      simp at he
    | append_singleton before e ih =>
      intro hpre
      have hbefore := ih ((List.prefix_append _ _).trans hpre)
      have hmem : ∀ e' ∈ before ++ [e], e' ∈ events := fun e' he' => hpre.subset he'
      refine sustained_concat.mpr ⟨hbefore, fun s s' hs hs' => ?_⟩
      have hrun := run_alike (addStable_fewer _) (fun _ _ _ hab => hab.1) halike hbefore
      rw [hs, hs'] at hrun
      obtain ⟨hnow⟩ := hrun
      have hsettled : Settled T c s.1 ∧ s.1.processor.layout = d.processor.layout := by
        refine Daemon.run_keeps (fun d₁ => Settled T c d₁ ∧ d₁.processor.layout = d.processor.layout)
          (fun e' he' _ _ _ _ hI hstep => ?_) ⟨h, rfl⟩ hs
        have hst := hsteady e' (hmem e' (List.mem_append_left _ he'))
        exact ⟨hI.1.step hst hstep, (step_layout hst hstep).trans hI.2⟩
      have hw : s.1.processor.windowSecs = d.processor.windowSecs := congrArg Layout.windowSecs hsettled.2
      cases e with
      | tick currentTime now =>
        intro a ha hreach
        have hrate : a.rate (s.1.processor.computeAllRates T (orders before.length).rates currentTime) =
            a.rate (s'.1.processor.computeAllRates T (orders' before.length).rates currentTime) := by
          refine findRate_eq T _ _ hnow.1.processor _ _ _ _ _ fun b hb i hi _ _ hfew => hfew.2 ?_
          rw [hsettled.1.buffer_length hb, hw] at hi
          exact ⟨currentTime, now, hmem _ (by simp), i, hi, rfl⟩
        rw [← hrate]
        exact hreach
      | _ => trivial
  exact key events (List.prefix_refl _)

/-- One alert without debouncing, on 700 bits per second over four seconds. -/
def brief : Config :=
  { global := { evaluationInterval := Duration.fromSecs 1, window := Duration.fromSecs 4 }
    alertPolicies := HashMap.ofPairs [("instant", ⟨0, 0⟩)]
    rules :=
      [{ ipPrefix := .slash24 0x0A020300
         alertPolicy := some "instant"
         thresholds := Config.single .any .inbound { bps := some ⟨.num 700, none⟩ } }] }

/-- Seconds of an attack with 100 bytes a second, each ended by a tick. -/
def attack (seconds : List ℕ) : List Event :=
  seconds.flatMap fun second =>
    [.receive none ⟨.V4 0xC6336442, .V4 0x0A020307, 4242, 53, 17, 0, 100, 1, second, 1⟩, .process,
      .tick second (Duration.fromSecs second)]

def storedOrders : ℕ → TickOrders := fun _ => ⟨HashOrder.stored, fun _ _ => HashOrder.stored⟩

/-- The daemon five seconds into the attack; its alert fires at the last tick. -/
def attacked : Option Daemon :=
  (Daemon.start IpText.dotted (.ok brief)).toOption.bind fun d =>
    (d.run IpText.dotted storedOrders (attack [1000, 1001, 1002, 1003, 1004])).map Prod.fst

theorem attacked_running {d : Daemon} (h : attacked = some d) : Running IpText.dotted brief d := by
  obtain ⟨d₀, h₀, h⟩ := Option.bind_eq_some_iff.mp h
  obtain ⟨s, hs, rfl⟩ := Option.map_eq_some_iff.mp h
  refine (Running.start (Fold.except_toOption.mp h₀)).run (fun e he => ?_) hs
  simp only [attack, List.mem_flatMap, List.mem_cons, List.not_mem_nil, or_false] at he
  obtain ⟨second, -, rfl | rfl | rfl⟩ := he <;> trivial

end NetAlert

import NetAlert.LifeCycle
import NetAlert.Staleness
import NetAlert.Starvation
import NetAlert.Validation

/-!
# NetAlert.Isolation — the rules of some prefixes do not disturb those of others

Two daemons see the same flows and ticks, and one of them has the rules of some prefixes only.  `Isolated` says how
they stay together: the smaller one has exactly the kept rules of the larger one, with their counts and captures,
and the kept alerts in the same states.  So it sends what the larger one sends for the kept prefixes
(`rules_isolated`).
-/

namespace NetAlert

/-- The configuration with the rules of some prefixes only. -/
def Config.restrict (keep : IpNet → Bool) (c : Config) : Config :=
  { c with rules := c.rules.filter fun r => keep r.ipPrefix }

/-- The text is that of a prefix that is kept. -/
def KeepsText (T : IpText) (keep : IpNet → Bool) (text : String) : Prop := ∃ net ∈ T.parse text, keep net = true

instance (T : IpText) (keep : IpNet → Bool) : DecidablePred (KeepsText T keep) :=
  fun text => inferInstanceAs (Decidable (∃ net ∈ T.parse text, _))

/-- The payload without its id. -/
def AlertPayload.anonymous (payload : AlertPayload) : AlertPayload := { payload with alertId := .nil }

@[simp] theorem anonymous_unissued (payload : AlertPayload) : payload.unissued.anonymous = payload.anonymous := by
  unfold AlertPayload.unissued
  split_ifs <;> rfl

@[simp] theorem unissued_ipPrefix (payload : AlertPayload) : payload.unissued.ipPrefix = payload.ipPrefix := by
  unfold AlertPayload.unissued
  split_ifs <;> rfl

variable {T : IpText} {keep : IpNet → Bool} {c : Config}

@[simp] theorem keepsText_net (net : IpNet) : KeepsText T keep (T.net net) ↔ keep net = true := by
  simp [KeepsText]

/-! ## Lists of which some elements are kept -/

/-- Elements that yield nothing may be left out. -/
theorem flatMap_filter_of_nil {α β : Type} {f : α → List β} {q : α → Bool} {l : List α}
    (h : ∀ x ∈ l, q x = false → f x = []) : (l.filter q).flatMap f = l.flatMap f := by
  induction l with
  | nil => rfl
  | cons x l ih =>
    have hrest := ih fun y hy => h y (List.mem_cons_of_mem _ hy)
    rw [List.filter_cons, List.flatMap_cons]
    split_ifs with hx
    · rw [List.flatMap_cons, hrest]
    · rw [hrest, h x List.mem_cons_self (by simpa using hx), List.nil_append]

theorem findSome?_filter_of_none {α β : Type} {f : α → Option β} {q : α → Bool} {l : List α}
    (h : ∀ x ∈ l, q x = false → f x = none) : (l.filter q).findSome? f = l.findSome? f := by
  induction l with
  | nil => rfl
  | cons x l ih =>
    have hrest := ih fun y hy => h y (List.mem_cons_of_mem _ hy)
    rw [List.filter_cons, List.findSome?_cons]
    split_ifs with hx
    · rw [List.findSome?_cons, hrest]
    · rw [hrest, h x List.mem_cons_self (by simpa using hx)]

/-! ## Processors with the kept rules -/

/-- A rule that is not kept does not answer for a text that is. -/
theorem net_ne_of_not_keep {net : IpNet} {text : String} (hkeep : KeepsText T keep text)
    (hnet : keep net = false) : T.net net ≠ text := by
  rintro rfl
  rw [keepsText_net, hnet] at hkeep
  cases hkeep

section Processors

variable {p p' : FlowProcessor} (hrules : p'.rules = p.rules.filter fun rule => keep rule.ipPrefix) {text : String}
  (htext : KeepsText T keep text)

include hrules htext

theorem bufferOf_restrict (k : BufferKey) : p'.bufferOf T text k = p.bufferOf T text k := by
  unfold FlowProcessor.bufferOf
  rw [hrules]
  exact findSome?_filter_of_none fun rule _ hrule => if_neg (net_ne_of_not_keep htext hrule)

theorem drain_restrict (direction : Direction) :
    (p'.drainCapturedFlows T text direction).1 = (p.drainCapturedFlows T text direction).1 := by
  unfold FlowProcessor.drainCapturedFlows
  rw [hrules]
  exact flatMap_filter_of_nil fun rule _ hrule => if_neg (net_ne_of_not_keep htext hrule)

end Processors

/-- The rules of a processor with their prefixes are those that its configuration builds. -/
theorem reloadConfig_rules {p p' : FlowProcessor} (h : p.reloadConfig T c = .ok p') :
    List.Forall₂
      (fun r rule => ProcessedRule.fromConfig T r (p.reloadWindow c) c.global.captureBufferSize = .ok rule)
      c.rules p'.rules := by
  obtain ⟨acc, hf, h⟩ := Fold.except_bind_ok.mp h
  obtain rfl := Except.ok.inj h
  have hinv := Fold.except_ok (I := fun pre acc => List.Forall₂ (fun r rule =>
    ProcessedRule.fromConfig T r (p.reloadWindow c) c.global.captureBufferSize = .ok rule)
      (pre.map Prod.fst) acc.1) ?_ List.Forall₂.nil hf
  · rw [List.zipIdx_map_fst] at hinv
    exact hinv
  · rintro pre ⟨r, i⟩ ⟨rules, table⟩ acc' - hF hs
    obtain ⟨rule, hrule, hs⟩ := Fold.except_bind_ok.mp hs
    obtain rfl := Except.ok.inj hs
    rw [List.map_append]
    exact List.rel_append hF (.cons hrule .nil)

/-- **Loading** the configuration with the kept rules builds the kept rules. -/
theorem load_restrict {p p' q q' : FlowProcessor} (h : p.reloadConfig T c = .ok p')
    (h' : q.reloadConfig T (c.restrict keep) = .ok q') (hwindow : q.windowSecs = p.windowSecs) :
    q'.rules = p'.rules.filter fun rule => keep rule.ipPrefix := by
  have hw : q.reloadWindow (c.restrict keep) = p.reloadWindow c := by
    unfold FlowProcessor.reloadWindow
    rw [hwindow]
    rfl
  have hprefix : ∀ (r : RuleConfig) (rule : ProcessedRule),
      ProcessedRule.fromConfig T r (p.reloadWindow c) c.global.captureBufferSize = .ok rule →
        keep r.ipPrefix = keep rule.ipPrefix := by
    intro r rule hrule
    rw [(fromConfig_ok hrule).ipPrefix]
  have hkept := Relate.forall₂_filter hprefix (reloadConfig_rules h)
  have hbuilt := reloadConfig_rules h'
  rw [hw] at hbuilt
  refine List.right_unique_forall₂' (fun r rule rule' hr hr' => ?_) hbuilt hkept
  exact Except.ok.inj (hr.symm.trans hr')

/-- **A flow** is routed to the kept rules as with the others beside them. -/
theorem flow_restrict {p p' q : FlowProcessor} (hT : TableOk p.rules p.prefixTable)
    (hT' : TableOk q.rules q.prefixTable) {flow : FlowRecord} (h : p.processFlow flow = some p')
    (hrules : q.rules = p.rules.filter fun rule => keep rule.ipPrefix) : ∃ q', q.processFlow flow = some q' ∧
      q'.rules = (p'.rules.filter fun rule => keep rule.ipPrefix) ∧ TableOk q'.rules q'.prefixTable ∧
      q'.windowSecs = q.windowSecs := by
  have hroute := (processFlow_ok hT h).2.2
  have hok : ∀ rule ∈ q.rules, ∃ rule', rule.route flow = some rule' := by
    intro rule hrule
    rw [hrules] at hrule
    obtain ⟨rule', -, hr⟩ := Relate.forall₂_left_of_mem hroute.flip (List.mem_of_mem_filter hrule)
    exact ⟨rule', hr⟩
  obtain ⟨q', hq', hTq, hwq, hroute'⟩ := processFlow_spec hT' hok
  refine ⟨q', hq', ?_, hTq, hwq⟩
  have hprefix : ∀ rule rule' : ProcessedRule, rule.route flow = some rule' →
      keep rule.ipPrefix = keep rule'.ipPrefix := by
    intro rule rule' hr
    rw [(route_frame hr).ipPrefix]
  have hkept := Relate.forall₂_filter hprefix hroute
  rw [← hrules] at hkept
  refine List.right_unique_forall₂' (fun rule rule' rule'' hr hr' => ?_) hroute' hkept
  exact Option.some.inj (hr.symm.trans hr')

/-! ## Alerts of the kept rules -/

/-- The alerts with the text of a prefix that is kept. -/
def keptAlerts (T : IpText) (keep : IpNet → Bool) (alerts : List AlertInstance) : List AlertInstance :=
  alerts.filter fun a => KeepsText T keep a.ipPrefix

@[simp] theorem mem_keptAlerts {alerts : List AlertInstance} {a : AlertInstance} :
    a ∈ keptAlerts T keep alerts ↔ a ∈ alerts ∧ KeepsText T keep a.ipPrefix := by
  simp [keptAlerts]

theorem keptAlerts_cons_of_kept {a : AlertInstance} (h : KeepsText T keep a.ipPrefix)
    (alerts : List AlertInstance) :
    keptAlerts T keep (a :: alerts) = a :: keptAlerts T keep alerts :=
  List.filter_cons_of_pos (decide_eq_true h)

theorem keptAlerts_cons_of_not {a : AlertInstance} (h : ¬ KeepsText T keep a.ipPrefix)
    (alerts : List AlertInstance) :
    keptAlerts T keep (a :: alerts) = keptAlerts T keep alerts :=
  List.filter_cons_of_neg (by simpa using h)

theorem buildAlerts_restrict (T : IpText) (keep : IpNet → Bool) (c : Config) :
    (c.restrict keep).buildAlerts T = keptAlerts T keep (c.buildAlerts T) := by
  have hrule : ∀ r, keptAlerts T keep (c.ruleAlerts T r) =
      if keep r.ipPrefix = true then c.ruleAlerts T r else [] := by
    intro r
    unfold keptAlerts
    split_ifs with hkeep
    · exact List.filter_eq_self.mpr fun a ha => by simp [(mem_ruleAlerts ha).1, hkeep]
    · exact List.filter_eq_nil_iff.mpr fun a ha => by simp [(mem_ruleAlerts ha).1, hkeep]
  have hfilter : keptAlerts T keep (c.buildAlerts T) =
      c.rules.flatMap fun r => keptAlerts T keep (c.ruleAlerts T r) := by
    rw [keptAlerts, buildAlerts_eq, List.filter_flatMap]
    rfl
  rw [hfilter, ← flatMap_filter_of_nil (q := fun r : RuleConfig => keep r.ipPrefix)]
  · refine List.flatMap_congr fun r hr => ?_
    rw [hrule, if_pos (List.of_mem_filter hr)]
    rfl
  · intro r _ hr
    rw [hrule, if_neg (by simp [hr])]

/-- **The stored states** of the kept alerts. -/
theorem previous_restrict {m m' : AlertManager}
    (h : List.Forall₂ Twin (keptAlerts T keep m.alerts) m'.alerts) {k : AlertKey}
    (hk : KeepsText T keep k.ipPrefix) :
    Option.Rel (fun v v' => v'.1 = v.1) (m.previous.lookup k) (m'.previous.lookup k) := by
  have hkept : alertsOf k m.alerts = alertsOf k (keptAlerts T keep m.alerts) := by
    rw [alertsOf, alertsOf, keptAlerts, List.filter_filter]
    refine List.filter_congr fun a _ => ?_
    have hkeeps : a.key = k → KeepsText T keep a.ipPrefix := fun heq => by rw [← heq] at hk; exact hk
    by_cases heq : a.key = k <;> simp [heq, hkeeps]
  have hkeys : ∀ a a' : AlertInstance, Twin a a' → decide (a.key = k) = decide (a'.key = k) := by
    intro a a' htwin
    rw [htwin.1.key_eq]
  have hlast : Option.Rel Twin (alertsOf k (keptAlerts T keep m.alerts)).getLast?
      (alertsOf k m'.alerts).getLast? :=
    Relate.forall₂_getLast? (Relate.forall₂_filter hkeys h)
  rw [lookup_previous, lookup_previous, hkept]
  generalize List.getLast? _ = o at hlast
  generalize List.getLast? _ = o' at hlast
  cases hlast with
  | none => exact .none
  | some htwin => exact .some htwin.2

/-- **Handing over** the states of the kept alerts. -/
theorem carryOver_restrict {previous previous' : HashMap AlertKey (AlertState × Uuid)}
    (h : ∀ k : AlertKey, KeepsText T keep k.ipPrefix →
      Option.Rel (fun v v' => v'.1 = v.1) (previous.lookup k) (previous'.lookup k)) (alerts : List AlertInstance) :
    List.Forall₂ Twin (keptAlerts T keep (carryOver previous alerts))
      (carryOver previous' (keptAlerts T keep alerts)) := by
  induction alerts generalizing previous previous' with
  | nil => exact .nil
  | cons a alerts ih =>
    by_cases hkeep : KeepsText T keep a.ipPrefix
    · rw [keptAlerts_cons_of_kept hkeep, carryOver, carryOver]
      rcases Relate.cases_of_rel (h a.key hkeep) with ⟨hnone, hnone'⟩ | ⟨v, v', hv, hv', hstate⟩
      · rw [hnone, hnone']
        simp only
        rw [keptAlerts_cons_of_kept hkeep]
        exact .cons ⟨.refl a, rfl⟩ (ih h)
      · rw [hv, hv']
        simp only
        rw [keptAlerts_cons_of_kept (by exact hkeep)]
        refine .cons ⟨rfl, hstate⟩ (ih fun k hk => ?_)
        by_cases heq : k = a.key
        · rw [heq, AList.lookup_erase, AList.lookup_erase]
          exact .none
        · rw [AList.lookup_erase_ne heq, AList.lookup_erase_ne heq]
          exact h k hk
    · rw [keptAlerts_cons_of_not hkeep, carryOver]
      cases hv : previous.lookup a.key with
      | none =>
        simp only
        rw [keptAlerts_cons_of_not hkeep]
        exact ih h
      | some v =>
        simp only
        rw [keptAlerts_cons_of_not (by exact hkeep)]
        refine ih fun k hk => ?_
        have hne : k ≠ a.key := by
          rintro rfl
          exact hkeep hk
        rw [AList.lookup_erase_ne hne]
        exact h k hk

/-- **Reloading** the configuration with the kept rules keeps the states of the kept alerts. -/
theorem alerts_restrict {m m' : AlertManager} (h : List.Forall₂ Twin (keptAlerts T keep m.alerts) m'.alerts)
    (c : Config) : List.Forall₂ Twin (keptAlerts T keep (m.reloadConfig T c).alerts)
      (m'.reloadConfig T (c.restrict keep)).alerts := by
  unfold AlertManager.reloadConfig
  rw [buildAlerts_restrict]
  exact carryOver_restrict (fun k hk => previous_restrict h hk) _

/-! ## Ticks -/

section Ticks

variable {p p' : FlowProcessor} (hrules : p'.rules = p.rules.filter fun rule => keep rule.ipPrefix)
  (rates rates' : HashOrder) (currentTime : ℕ) (now : Instant) {a a' : AlertInstance}

include hrules

/-- A kept alert reads the same rate. -/
theorem rate_restrict (h : Twin a a') (hkeep : KeepsText T keep a.ipPrefix) :
    a'.rate (p'.computeAllRates T rates' currentTime) = a.rate (p.computeAllRates T rates currentTime) := by
  obtain ⟨htext, hprotocol, hdirection, hmetric⟩ := AlertKey.mk.inj h.1.key_eq
  unfold AlertInstance.rate
  rw [findRate_computeAllRates, findRate_computeAllRates, htext, hprotocol, hdirection, hmetric,
    bufferOf_restrict hrules hkeep]

theorem reaction_restrict (h : Twin a a') (hkeep : KeepsText T keep a.ipPrefix) :
    a'.reaction (p'.computeAllRates T rates' currentTime) now =
      a.reaction (p.computeAllRates T rates currentTime) now := by
  unfold AlertInstance.reaction
  rw [rate_restrict hrules rates rates' currentTime h hkeep]
  exact (h.evaluate _ now).2

/-- A kept alert sends the same, but for its id. -/
theorem report_restrict (ord : ℕ → HashOrder) (h : Twin a a') (hkeep : KeepsText T keep a.ipPrefix) :
    (a'.report T ord (p'.computeAllRates T rates' currentTime) now p').map AlertPayload.anonymous =
      (a.report T ord (p.computeAllRates T rates currentTime) now p).map AlertPayload.anonymous := by
  obtain ⟨htext, -, hdirection, -⟩ := AlertKey.mk.inj h.1.key_eq
  unfold AlertInstance.report
  rw [reaction_restrict hrules rates rates' currentTime now h hkeep,
    rate_restrict hrules rates rates' currentTime h hkeep, htext, hdirection, drain_restrict hrules hkeep]
  cases a.reaction (p.computeAllRates T rates currentTime) now with
  | none => rfl
  | some action =>
    simp only [Option.map_some, anonymous_unissued, buildPayload_rebuilt h.1, advice_rebuilt h.1]
    rfl

variable {alerts alerts' : List AlertInstance} (halerts : List.Forall₂ Twin (keptAlerts T keep alerts) alerts')

include halerts

/-- The kept alerts ask for the same captures. -/
theorem askedKeys_restrict {k : String × Direction} (hk : KeepsText T keep k.1) :
    k ∈ askedKeys (p'.computeAllRates T rates' currentTime) now alerts' ↔
      k ∈ askedKeys (p.computeAllRates T rates currentTime) now alerts := by
  have hasks : ∀ {a a'}, Twin a a' → KeepsText T keep a.ipPrefix →
      (a'.Asks (p'.computeAllRates T rates' currentTime) now ↔
        a.Asks (p.computeAllRates T rates currentTime) now) := by
    intro a a' htwin hkeep
    unfold AlertInstance.Asks
    rw [reaction_restrict hrules rates rates' currentTime now htwin hkeep]
  rw [mem_askedKeys, mem_askedKeys]
  constructor
  · rintro ⟨a', ha', hask, rfl⟩
    obtain ⟨a, ha, htwin⟩ := Relate.forall₂_left_of_mem halerts ha'
    obtain ⟨ha, hkeep⟩ := mem_keptAlerts.mp ha
    exact ⟨a, ha, (hasks htwin hkeep).mp hask, htwin.1.captureKey_eq⟩
  · rintro ⟨a, ha, hask, rfl⟩
    obtain ⟨a', ha', htwin⟩ := Relate.forall₂_left_of_mem halerts.flip (mem_keptAlerts.mpr ⟨ha, hk⟩)
    exact ⟨a', ha', (hasks htwin hk).mpr hask, htwin.1.captureKey_eq.symm⟩

/-- **The captures** that a tick leaves to the kept rules. -/
theorem without_restrict :
    (p'.without T (askedKeys (p'.computeAllRates T rates' currentTime) now alerts')).rules =
      (p.without T (askedKeys (p.computeAllRates T rates currentTime) now alerts)).rules.filter
        fun rule => keep rule.ipPrefix := by
  unfold FlowProcessor.without
  simp only [List.filter_map, hrules]
  refine List.map_congr_left fun rule hrule => ?_
  have hkeep : KeepsText T keep (T.net rule.ipPrefix) := (keepsText_net _).mpr (List.mem_filter.mp hrule).2
  unfold ProcessedRule.without spare
  rw [ProcessedRule.mk.injEq]
  refine ⟨rfl, rfl, rfl, rfl, ?_, rfl⟩
  refine List.filter_congr fun cf _ => decide_eq_decide.mpr (not_congr ?_)
  exact askedKeys_restrict hrules rates rates' currentTime now halerts (k := (_, cf.direction)) hkeep

/-- **The alerts** of a tick. -/
theorem evaluate_restrict (ords ords' : ℕ → ℕ → HashOrder) {t t' u u' : Tick} {as as' : List AlertInstance}
    (h : AllEvaluated T ords (p.computeAllRates T rates currentTime) now t alerts u as)
    (h' : AllEvaluated T ords' (p'.computeAllRates T rates' currentTime) now t' alerts' u' as') :
    List.Forall₂ Twin (keptAlerts T keep as) as' := by
  have hkept := Relate.forall₂_filter (p := fun a : AlertInstance => decide (KeepsText T keep a.ipPrefix))
    (q := fun a : AlertInstance => decide (KeepsText T keep a.ipPrefix)) ?_ h.each
  · refine Relate.forall₂_square ?_ halerts (Relate.forall₂_mem hkept) h'.each
    rintro a a' b b' htwin ⟨ha, -, hreb, hstate, -⟩ ⟨hreb', hstate', -⟩
    have hrate := rate_restrict hrules rates rates' currentTime htwin (mem_keptAlerts.mp ha).2
    refine ⟨(hreb.symm.trans htwin.1).trans hreb', ?_⟩
    rw [hstate, hstate', hrate]
    exact (htwin.evaluate _ now).1
  · intro a b hab
    rw [show b.ipPrefix = a.ipPrefix from congrArg AlertKey.ipPrefix hab.1.key_eq]

end Ticks

/-- The reports with the text of a prefix that is kept are those of the kept alerts. -/
theorem filter_reports (ord : ℕ → HashOrder) (snapshots : List RateSnapshot) (now : Instant) (p : FlowProcessor)
    (alerts : List AlertInstance) :
    (alerts.filterMap (AlertInstance.report T ord snapshots now p)).filter
        (fun payload => KeepsText T keep payload.ipPrefix) =
      (keptAlerts T keep alerts).filterMap (AlertInstance.report T ord snapshots now p) := by
  have htext : ∀ a payload, AlertInstance.report T ord snapshots now p a = some payload →
      payload.ipPrefix = a.ipPrefix := by
    intro a payload h
    obtain ⟨action, -, rfl⟩ := Option.map_eq_some_iff.mp h
    exact unissued_ipPrefix _
  rw [List.filter_filterMap, keptAlerts, List.filterMap_filter]
  refine List.filterMap_congr fun a _ => ?_
  cases h : AlertInstance.report T ord snapshots now p a with
  | none => simp
  | some payload => simp [Option.filter, htext a payload h]

/-- **The payloads** of a tick, of the kept alerts. -/
theorem payloads_restrict {p p' : FlowProcessor}
    (hrules : p'.rules = p.rules.filter fun rule => keep rule.ipPrefix)
    (rates rates' : HashOrder) (ord : ℕ → HashOrder) (currentTime : ℕ) (now : Instant) (issued issued' : ℕ)
    {alerts alerts' : List AlertInstance} (halerts : List.Forall₂ Twin (keptAlerts T keep alerts) alerts') :
    (evaluateAlerts T (fun _ => ord) (p'.computeAllRates T rates' currentTime) now
        ⟨p', ∅, [], issued'⟩ alerts').1.payloads.map AlertPayload.anonymous =
      ((evaluateAlerts T (fun _ => ord) (p.computeAllRates T rates currentTime) now
        ⟨p, ∅, [], issued⟩ alerts).1.payloads.filter fun payload => KeepsText T keep payload.ipPrefix).map
          AlertPayload.anonymous := by
  have hanonymous : ∀ l : List AlertPayload, l.map AlertPayload.anonymous =
      (l.map AlertPayload.unissued).map AlertPayload.anonymous := by
    intro l
    simp [Function.comp_def]
  have hfilter : ∀ l : List AlertPayload, (l.filter fun payload => KeepsText T keep payload.ipPrefix).map
      AlertPayload.anonymous = ((l.map AlertPayload.unissued).filter fun payload =>
        KeepsText T keep payload.ipPrefix).map AlertPayload.anonymous := by
    intro l
    simp [List.filter_map, Function.comp_def]
  rw [hfilter, hanonymous, (Tick.Shares.start p [] issued).alerts_payloads,
    (Tick.Shares.start p' [] issued').alerts_payloads, List.map_nil, List.nil_append, List.nil_append,
    filter_reports, List.map_filterMap, List.map_filterMap]
  refine (Relate.forall₂_filterMap_eq (fun a a' h => ?_) (Relate.forall₂_mem halerts)).symm
  obtain ⟨ha, -, htwin⟩ := h
  exact (report_restrict hrules rates rates' currentTime now ord htwin (mem_keptAlerts.mp ha).2).symm

/-! ## Two daemons -/

/-- A reload carries a configuration that is valid and without host bits, or none. -/
def Event.Sound (T : IpText) : Event → Prop
  | .reload (.ok c) => c.validate T = .ok () ∧ ∀ r ∈ c.rules, r.ipPrefix.trunc = r.ipPrefix
  | _ => True

/-- The event with the kept rules only. -/
def Event.restrict (keep : IpNet → Bool) : Event → Event
  | .reload parsed => .reload (parsed.map (Config.restrict keep))
  | e => e

/-- The second daemon has the kept rules of the first with their counts and captures, and their alerts in the same
states. -/
structure Isolated (T : IpText) (keep : IpNet → Bool) (d d' : Daemon) : Prop where
  exporterRates : d'.exporterRates = d.exporterRates
  channel : d'.channel = d.channel
  windowSecs : d'.processor.windowSecs = d.processor.windowSecs
  table : TableOk d.processor.rules d.processor.prefixTable
  table' : TableOk d'.processor.rules d'.processor.prefixTable
  rules : d'.processor.rules = d.processor.rules.filter fun rule => keep rule.ipPrefix
  alerts : List.Forall₂ Twin (keptAlerts T keep d.alertManager.alerts) d'.alertManager.alerts

/-- What is left of a valid configuration is valid. -/
theorem validate_restrict (h : c.validate T = .ok ()) : (c.restrict keep).validate T = .ok () := by
  have hvalid := valid_iff.mp h
  refine valid_iff.mpr ⟨fun r hr => ?_, hvalid.exporters⟩
  obtain ⟨hpolicy, hthresholds, hmetrics⟩ := hvalid.rules r (List.mem_of_mem_filter hr)
  exact ⟨hpolicy, hthresholds, hmetrics⟩

theorem Isolated.start {d : Daemon} (hd : Daemon.start T (.ok c) = .ok d) (keep : IpNet → Bool) :
    ∃ d', Daemon.start T (.ok (c.restrict keep)) = .ok d' ∧ Isolated T keep d d' := by
  obtain ⟨hvalid, p, hp, rfl⟩ := Daemon.start_ok hd
  have hbits := trunc_eq_of_reload hp
  obtain ⟨p', hp'⟩ := reloadConfig_total T (FlowProcessor.new c.global.window.asSecs) (c := c.restrict keep)
    fun r hr => hbits r (List.mem_of_mem_filter hr)
  have hload : Config.load T (.ok (c.restrict keep)) = .ok (c.restrict keep) :=
    Config.load_ok_iff.mpr ⟨rfl, validate_restrict hvalid⟩
  obtain ⟨-, hT, hw⟩ := reloadConfig_ok hp
  obtain ⟨-, hT', hw'⟩ := reloadConfig_ok hp'
  refine ⟨_, Fold.except_bind_ok.mpr ⟨_, hload, Fold.except_bind_ok.mpr ⟨p', hp', rfl⟩⟩, rfl, rfl, ?_, hT, hT',
    load_restrict hp hp' rfl, alerts_restrict .nil c⟩
  exact hw'.trans hw.symm

section Steps

variable {d d' d₁ : Daemon}

/-- **A reload** for both. -/
theorem Isolated.reload (h : Isolated T keep d d') (hvalid : c.validate T = .ok ())
    (hbits : ∀ r ∈ c.rules, r.ipPrefix.trunc = r.ipPrefix) :
    Isolated T keep (d.reloadConfig T (.ok c)) (d'.reloadConfig T (.ok (c.restrict keep))) := by
  obtain ⟨p, hp⟩ := reloadConfig_total T d.processor hbits
  obtain ⟨p', hp'⟩ := reloadConfig_total T d'.processor (c := c.restrict keep)
    fun r hr => hbits r (List.mem_of_mem_filter hr)
  obtain ⟨-, hT, hw⟩ := reloadConfig_ok hp
  obtain ⟨-, hT', hw'⟩ := reloadConfig_ok hp'
  rw [Daemon.reloadConfig_ok hvalid hp, Daemon.reloadConfig_ok (validate_restrict hvalid) hp']
  refine ⟨rfl, h.channel, ?_, hT, hT', load_restrict hp hp' h.windowSecs, alerts_restrict h.alerts c⟩
  show p'.windowSecs = p.windowSecs
  rw [hw, hw', FlowProcessor.reloadWindow, FlowProcessor.reloadWindow, h.windowSecs]
  rfl

/-- **A tick** for both. -/
theorem Isolated.tick (h : Isolated T keep d d') (rates rates' : HashOrder) (ord : ℕ → HashOrder)
    (currentTime : ℕ) (now : Instant) :
    Isolated T keep (d.tick T ⟨rates, fun _ => ord⟩ currentTime now).1
        (d'.tick T ⟨rates', fun _ => ord⟩ currentTime now).1 ∧
      (d'.tick T ⟨rates', fun _ => ord⟩ currentTime now).2.map AlertPayload.anonymous =
        ((d.tick T ⟨rates, fun _ => ord⟩ currentTime now).2.filter fun payload =>
          KeepsText T keep payload.ipPrefix).map AlertPayload.anonymous := by
  have hprocessor : ∀ (d : Daemon) (rates : HashOrder),
      (d.tick T ⟨rates, fun _ => ord⟩ currentTime now).1.processor = d.processor.without T
        (askedKeys (d.processor.computeAllRates T rates currentTime) now d.alertManager.alerts) :=
    fun d rates => evaluate_processor T (fun _ => ord) _ now d.alertManager d.processor d.issued
  have htable : ∀ (p : FlowProcessor) (keys : List (String × Direction)), TableOk p.rules p.prefixTable →
      TableOk (p.without T keys).rules (p.without T keys).prefixTable :=
    fun p keys hT => hT.congr (by simp [FlowProcessor.without, ProcessedRule.without, Function.comp_def])
  obtain ⟨t, alerts, hev, htick⟩ := Daemon.tick_eq (T := T) ⟨rates, fun _ => ord⟩ d currentTime now
  obtain ⟨t', alerts', hev', htick'⟩ := Daemon.tick_eq (T := T) ⟨rates', fun _ => ord⟩ d' currentTime now
  refine ⟨⟨h.exporterRates, h.channel, ?_, ?_, ?_, ?_, ?_⟩,
    payloads_restrict h.rules rates rates' ord currentTime now d.issued d'.issued h.alerts⟩
  · rw [hprocessor, hprocessor]
    exact h.windowSecs
  · rw [hprocessor]
    exact htable _ _ h.table
  · rw [hprocessor]
    exact htable _ _ h.table'
  · rw [hprocessor, hprocessor]
    exact without_restrict h.rules rates rates' currentTime now h.alerts
  · rw [htick, htick']
    exact evaluate_restrict h.rules rates rates' currentTime now h.alerts _ _ hev hev'

/-- **One event** for both. -/
theorem Isolated.step (h : Isolated T keep d d') {rates ord : ℕ → HashOrder} (rates' : ℕ → HashOrder) {k : ℕ}
    {e : Event} (he : e.Sound T) {payloads : List AlertPayload}
    (hs : d.step T (TickOrders.fixed rates ord k) e = some (d₁, payloads)) :
    ∃ d₁' payloads', d'.step T (TickOrders.fixed rates' ord k) (e.restrict keep) = some (d₁', payloads') ∧
      Isolated T keep d₁ d₁' ∧ payloads'.map AlertPayload.anonymous =
        (payloads.filter fun payload => KeepsText T keep payload.ipPrefix).map AlertPayload.anonymous := by
  cases e with
  | receive samplerAddress flow =>
    cases hs
    refine ⟨_, [], rfl, ?_, rfl⟩
    unfold Daemon.receive
    rw [h.exporterRates, h.channel]
    simp only
    split_ifs
    · exact ⟨rfl, rfl, h.windowSecs, h.table, h.table', h.rules, h.alerts⟩
    · exact h
  | process =>
    obtain ⟨d₂, h₂, heq⟩ := Option.map_eq_some_iff.mp hs
    cases heq
    have hchannel := h.channel
    rcases Daemon.process_cases h₂ with ⟨hnil, rfl⟩ | ⟨flow, channel, p, hcons, hp, rfl⟩
    · rw [hnil] at hchannel
      exact ⟨d', [], by simp [Event.restrict, Daemon.step, Daemon.process, hchannel], h, rfl⟩
    · rw [hcons] at hchannel
      obtain ⟨hT, hw, -⟩ := processFlow_ok h.table hp
      obtain ⟨p', hp', hrules, hT', hw'⟩ := flow_restrict h.table h.table' hp h.rules
      have hstep : d'.step T (TickOrders.fixed rates' ord k) .process =
          some ({ d' with channel := channel, processor := p' }, []) := by
        simp [Daemon.step, Daemon.process, hchannel, hp']
      refine ⟨_, [], hstep, ⟨h.exporterRates, rfl, ?_, hT, hT', hrules, h.alerts⟩, rfl⟩
      exact (hw'.trans h.windowSecs).trans hw.symm
  | tick currentTime now =>
    cases hs
    obtain ⟨hisolated, hsent⟩ := h.tick (rates k) (rates' k) ord currentTime now
    exact ⟨_, _, rfl, hisolated, hsent⟩
  | reload parsed =>
    cases hs
    cases parsed with
    | error e => exact ⟨d', [], rfl, h, rfl⟩
    | ok c => exact ⟨_, [], rfl, h.reload he.1 he.2, rfl⟩

end Steps

/-- **Runs** of both. -/
theorem Isolated.run {d d' : Daemon} (h : Isolated T keep d d') {rates ord : ℕ → HashOrder}
    (rates' : ℕ → HashOrder)
    {events : List Event} (hsound : ∀ e ∈ events, e.Sound T) {s : Daemon × List (List AlertPayload)}
    (hs : d.run T (TickOrders.fixed rates ord) events = some s) :
    ∃ s', d'.run T (TickOrders.fixed rates' ord) (events.map (Event.restrict keep)) = some s' ∧
      Isolated T keep s.1 s'.1 ∧ s'.2.map (List.map AlertPayload.anonymous) =
        s.2.map fun payloads => (payloads.filter fun payload => KeepsText T keep payload.ipPrefix).map
          AlertPayload.anonymous := by
  induction events using List.reverseRecOn generalizing s with
  | nil =>
    cases hs
    exact ⟨(d', []), rfl, h, rfl⟩
  | append_singleton events e ih =>
    obtain ⟨s₁, d₁, payloads, h₁, h₂, rfl⟩ := Daemon.run_concat_ok hs
    obtain ⟨s', hs', hisolated, hsent⟩ := ih (fun e' he' => hsound e' (List.mem_append_left _ he')) h₁
    obtain ⟨d₁', payloads', hstep, hisolated', hsent'⟩ := hisolated.step rates' (hsound e (by simp)) h₂
    refine ⟨(d₁', s'.2 ++ [payloads']), ?_, hisolated', ?_⟩
    · rw [List.map_append, List.map_singleton, Daemon.run_concat, hs', List.length_map]
      simp [hstep]
    · simp [hsent, hsent']

/-- **The rules of some prefixes do not disturb those of others.**  In a run with any flows, ticks and reloads of
sound configurations, the daemon sends about the kept prefixes exactly what a daemon sends that has only their
rules: in each event the same payloads in the same order with the same suggestions, ids aside.  Overlapping and
equal prefixes, shared protocols, captures and policies make no difference. -/
theorem rules_isolated (T : IpText) (keep : IpNet → Bool) (c : Config) (d : Daemon)
    (hd : Daemon.start T (.ok c) = .ok d) (rates rates' ord : ℕ → HashOrder) (events : List Event)
    (hsound : ∀ e ∈ events, e.Sound T) (s : Daemon × List (List AlertPayload))
    (hs : d.run T (TickOrders.fixed rates ord) events = some s) :
    ∃ d' s', Daemon.start T (.ok (c.restrict keep)) = .ok d' ∧
      d'.run T (TickOrders.fixed rates' ord) (events.map (Event.restrict keep)) = some s' ∧
      s'.2.map (List.map AlertPayload.anonymous) =
        s.2.map fun payloads => (payloads.filter fun payload => KeepsText T keep payload.ipPrefix).map
          AlertPayload.anonymous := by
  obtain ⟨d', hd', hisolated⟩ := Isolated.start hd keep
  obtain ⟨s', hs', -, hsent⟩ := hisolated.run rates' hsound hs
  exact ⟨d', s', hd', hs', hsent⟩

/-- A rule for 10.2.0.0/20 around that of 10.2.3.0/24. -/
def enclosed : Config :=
  { instant with
    rules := instant.rules ++
      [{ ipPrefix := .V4 ⟨0x0A020000, 20, by decide⟩
         alertPolicy := some "instant"
         thresholds := Config.single .udp .inbound { bps := some ⟨.num 200, none⟩ } }] }

/-- Two attacks on a host in both prefixes, with a reload between them. -/
def enclosedAttacks : List Event := twoAttacks.take 8 ++ .reload (.ok enclosed) :: twoAttacks.drop 8

theorem rules_isolated_enclosed : ∃ d s d' s', Daemon.start IpText.dotted (.ok enclosed) = .ok d ∧
    d.run IpText.dotted storedOrders enclosedAttacks = some s ∧
    Daemon.start IpText.dotted (.ok (enclosed.restrict (· = site))) = .ok d' ∧
    d'.run IpText.dotted storedOrders (enclosedAttacks.map (Event.restrict (· = site))) = some s' ∧
    s'.2.map (List.map AlertPayload.anonymous) = (s.2.map fun payloads =>
      (payloads.filter fun payload => KeepsText IpText.dotted (· = site) payload.ipPrefix).map
        AlertPayload.anonymous) ∧
    s.2.flatten.map (fun payload => (payload.ipPrefix, payload.action)) =
      [("10.2.3.0/24", "trigger"), ("10.2.0.0/20", "trigger"), ("10.2.3.0/24", "resolve"),
        ("10.2.0.0/20", "resolve"), ("10.2.3.0/24", "trigger"), ("10.2.0.0/20", "trigger")] := by
  have hrun : ((Daemon.start IpText.dotted (.ok enclosed)).toOption.bind fun d =>
      (d.run IpText.dotted storedOrders enclosedAttacks).map fun s =>
        s.2.flatten.map fun payload => (payload.ipPrefix, payload.action)) = some
      [("10.2.3.0/24", "trigger"), ("10.2.0.0/20", "trigger"), ("10.2.3.0/24", "resolve"),
        ("10.2.0.0/20", "resolve"), ("10.2.3.0/24", "trigger"), ("10.2.0.0/20", "trigger")] := by
    decide +kernel
  obtain ⟨d, hd, hrun⟩ := Option.bind_eq_some_iff.mp hrun
  obtain ⟨s, hs, hsent⟩ := Option.map_eq_some_iff.mp hrun
  have hvalid : enclosed.validate IpText.dotted = .ok () ∧
      ∀ r ∈ enclosed.rules, r.ipPrefix.trunc = r.ipPrefix := by
    decide
  have hsound : ∀ e ∈ enclosedAttacks, e.Sound IpText.dotted := by
    simpa [enclosedAttacks, twoAttacks, Event.Sound, hvalid.1] using hvalid.2
  obtain ⟨d', s', hd', hs', heq⟩ := rules_isolated IpText.dotted (· = site) enclosed d (Fold.except_toOption.mp hd)
    (fun _ => HashOrder.stored) (fun _ => HashOrder.stored) (fun _ => HashOrder.stored) enclosedAttacks hsound s hs
  exact ⟨d, s, d', s', Fold.except_toOption.mp hd, hs, hd', hs', heq, hsent⟩

end NetAlert

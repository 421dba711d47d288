import NetAlert.Capture

/-!
# NetAlert.OwnRate — every alert reads the rate of its own rule

An alert asks for a rate by the text of its prefix, and the first snapshot with that text answers.
Rules with one prefix see the same flows, so their buffers of one key hold the same counts
(`SameCounts`), and whichever of them answers, the rate is that of the alert's own rule
(`rate_of_own_rule`).
-/

namespace NetAlert

variable {T : IpText} {c : Config} {flows : List FlowRecord} {p p' q q' : FlowProcessor}

/-! ## Rules with one network -/

/-- Buffers of one key are equal if their rules have the same network. -/
def SameCounts (p q : FlowProcessor) : Prop :=
  ∀ rule ∈ p.rules, ∀ rule' ∈ q.rules, rule.network = rule'.network → ∀ k b b',
    rule.buffers.lookup k = some b → rule'.buffers.lookup k = some b' → b = b'

theorem SameCounts.load {c' : Config} {p₀ q₀ : FlowProcessor} (hp : p₀.reloadConfig T c = .ok p)
    (hq : q₀.reloadConfig T c' = .ok q) (hw : p₀.reloadWindow c = q₀.reloadWindow c') : SameCounts p q := by
  intro rule hr rule' hr' _ k b b' hb hb'
  rw [loaded_buffer hp hr hb, loaded_buffer hq hr' hb', (reloadConfig_ok hp).2.2, (reloadConfig_ok hq).2.2, hw]

/-- **One flow** on both: rules with one network are hit together. -/
theorem SameCounts.flow (h : SameCounts p q) (hp : TableOk p.rules p.prefixTable)
    (hq : TableOk q.rules q.prefixTable) {flow : FlowRecord} (hp' : p.processFlow flow = some p')
    (hq' : q.processFlow flow = some q') : SameCounts p' q' := by
  intro rule hr rule' hr' hn k b b' hb hb'
  obtain ⟨r, hmem, hroute⟩ := Relate.forall₂_left_of_mem (processFlow_ok hp hp').2.2 hr
  obtain ⟨r', hmem', hroute'⟩ := Relate.forall₂_left_of_mem (processFlow_ok hq hq').2.2 hr'
  have hR := route_routed hroute
  have hR' := route_routed hroute'
  rw [hR.frame.network, hR'.frame.network] at hn
  have hhit : r.Hit flow k ↔ r'.Hit flow k := by
    unfold ProcessedRule.Hit
    rw [hn]
  have hold : ∀ {o : Option RingBuffer} {x : RingBuffer} {hit : Prop} [Decidable hit],
      addIf flow hit o = some x → ∃ y, o = some y := by
    intro o x hit _ ho
    cases o with
    | some y => exact ⟨y, rfl⟩
    | none => simp [addIf] at ho
  rw [hR.buffers] at hb
  rw [hR'.buffers] at hb'
  obtain ⟨y, hy⟩ := hold hb
  obtain ⟨y', hy'⟩ := hold hb'
  obtain rfl := h r hmem r' hmem' hn k y y' hy hy'
  rw [hy] at hb
  rw [hy'] at hb'
  simp only [addIf, hhit] at hb hb'
  exact Option.some.inj (hb.symm.trans hb')

/-- The buffers of a drained processor are those it had. -/
theorem exists_of_mem_drain {ipPrefix : String} {d : Direction} {rule : ProcessedRule}
    (h : rule ∈ (p.drainCapturedFlows T ipPrefix d).2.rules) :
    ∃ r ∈ p.rules, rule.network = r.network ∧ rule.ipPrefix = r.ipPrefix ∧ rule.buffers = r.buffers := by
  obtain ⟨r, hr, rfl⟩ := List.mem_map.mp h
  refine ⟨r, hr, ?_⟩
  split_ifs <;> exact ⟨rfl, rfl, rfl⟩

theorem SameCounts.symm (h : SameCounts p q) : SameCounts q p :=
  fun rule hr rule' hr' hn k b b' hb hb' => (h rule' hr' rule hr hn.symm k b' b hb' hb).symm

/-- **A drain** of one of them. -/
theorem SameCounts.drain_left (h : SameCounts p q) (ipPrefix : String) (d : Direction) :
    SameCounts (p.drainCapturedFlows T ipPrefix d).2 q := by
  intro rule hr rule' hr' hn k b b' hb hb'
  obtain ⟨r, hmem, hnet, -, hbuf⟩ := exists_of_mem_drain hr
  exact h r hmem rule' hr' (hnet ▸ hn) k b b' (hbuf ▸ hb) hb'

theorem Ran.sameCounts (h : Ran T c flows p) : SameCounts p p := by
  induction h with
  | load h => exact .load h h rfl
  | flow h hp ih => exact ih.flow h.kept.1 h.kept.1 hp hp
  | drain _ ipPrefix d ih => exact (ih.drain_left ipPrefix d).symm.drain_left ipPrefix d

/-! ## The buffer that answers -/

/-- Rules with one prefix text have one network. -/
theorem Kept.network_eq {r r' : RuleConfig} {cap cap' : ℕ} {flows' : List FlowRecord}
    {rule rule' : ProcessedRule} (h : Kept r cap flows rule) (h' : Kept r' cap' flows' rule')
    (ht : T.net rule.ipPrefix = T.net rule'.ipPrefix) : rule.network = rule'.network := by
  ext
  rw [h.network, h'.network, ← h.ipPrefix, ← h'.ipPrefix]
  exact T.net_injective ht

/-- **The answer** for a prefix and a key is any buffer of the key under the prefix. -/
theorem Ran.bufferOf_eq (h : Ran T c flows p) {rule : ProcessedRule} (hr : rule ∈ p.rules) {k : BufferKey}
    {b : RingBuffer} (hb : rule.buffers.lookup k = some b) :
    p.bufferOf T (T.net rule.ipPrefix) k = some b := by
  cases hfind : p.bufferOf T (T.net rule.ipPrefix) k with
  | none =>
    have hnone := List.findSome?_eq_none_iff.mp hfind rule hr
    rw [if_pos rfl, hb] at hnone
    exact hnone.symm
  | some b' =>
    obtain ⟨rule', hr', hb'⟩ := List.exists_of_findSome?_eq_some hfind
    split_ifs at hb' with ht
    obtain ⟨_, -, hk⟩ := Relate.forall₂_left_of_mem h.kept.2 hr
    obtain ⟨_, -, hk'⟩ := Relate.forall₂_left_of_mem h.kept.2 hr'
    rw [h.sameCounts rule' hr' rule hr (hk'.network_eq hk ht) k b' b hb' hb]

/-! ## The alerts of a rule -/

/-- The alerts that `reload_config` builds from one rule. -/
def Config.ruleAlerts (T : IpText) (c : Config) (rule : RuleConfig) : List AlertInstance :=
  rule.thresholds.toPairs.flatMap fun (protocol, directions) =>
    directions.toPairs.flatMap fun (direction, dirMetrics) =>
      addMetricAlerts (T.net rule.ipPrefix) protocol direction dirMetrics.metrics (c.policyOf rule)
        c.global.mitigationUpdateInterval rule.labels

theorem buildAlerts_eq (T : IpText) (c : Config) : c.buildAlerts T = c.rules.flatMap (c.ruleAlerts T) := rfl

/-- An alert has the prefix of its rule, and the rule has a buffer for it. -/
theorem mem_ruleAlerts {r : RuleConfig} {a : AlertInstance} (h : a ∈ c.ruleAlerts T r) :
    a.ipPrefix = T.net r.ipPrefix ∧ ⟨a.protocol, a.direction⟩ ∈ r.bufferKeys := by
  simp only [Config.ruleAlerts, addMetricAlerts, List.mem_flatMap, List.mem_map] at h
  obtain ⟨⟨protocol, directions⟩, hp, ⟨direction, metrics⟩, hd, _, -, rfl⟩ := h
  exact ⟨rfl, List.mem_flatMap.mpr ⟨_, hp, List.mem_map.mpr ⟨_, hd, rfl⟩⟩⟩

/-- The buffer of its rule answers for an alert. -/
theorem Ran.bufferOf_alert (h : Ran T c flows p) {rule : ProcessedRule} (hr : rule ∈ p.rules) {r : RuleConfig}
    {cap : ℕ} (hk : Kept r cap flows rule) {a : AlertInstance} (ha : a ∈ c.ruleAlerts T r) :
    ∃ b, rule.buffers.lookup ⟨a.protocol, a.direction⟩ = some b ∧
      p.bufferOf T a.ipPrefix ⟨a.protocol, a.direction⟩ = some b := by
  obtain ⟨htext, hkey⟩ := mem_ruleAlerts ha
  obtain ⟨b, hb⟩ := Option.isSome_iff_exists.mp ((hk.keys _).mpr hkey)
  refine ⟨b, hb, ?_⟩
  rw [htext, ← hk.ipPrefix]
  exact h.bufferOf_eq hr hb

/-- **Every alert reads its own rule's rate.**  After loading a configuration into processor and manager,
and any flows and drains, the alerts fall into one segment for each rule; a snapshot answers every alert of
a segment, and the rate is that of the buffer of the rule for the alert's protocol and direction. -/
theorem rate_of_own_rule (T : IpText) (c : Config) (flows : List FlowRecord) (p : FlowProcessor)
    (h : Ran T c flows p) (m : AlertManager) (ord : HashOrder) (currentTime : ℕ) :
    let snapshots := p.computeAllRates T ord currentTime
    ∃ segs : List (List AlertInstance), (m.reloadConfig T c).alerts = segs.flatten ∧
      List.Forall₂ (fun r seg => List.Forall₂ Rebuilt (c.ruleAlerts T r) seg) c.rules segs ∧
      List.Forall₂ (fun (rule : ProcessedRule) seg => ∀ a ∈ seg, ∃ b s,
        rule.buffers.lookup ⟨a.protocol, a.direction⟩ = some b ∧
        snapshots.find? (fun s => s.ipPrefix = a.ipPrefix ∧ s.protocol = a.protocol ∧
          s.direction = a.direction) = some s ∧
        a.rate snapshots = b.rate currentTime a.metric) p.rules segs := by
  intro snapshots
  obtain ⟨segs, hflat, hsegs⟩ := Relate.forall₂_segments (reload_runsOn (T := T) m c)
  refine ⟨segs, hflat, hsegs, ?_⟩
  have hrules := Relate.forall₂_mem (Relate.forall₂_trans
    (Q := fun rule seg => ∃ r, Kept r c.global.captureBufferSize flows rule ∧
      List.Forall₂ Rebuilt (c.ruleAlerts T r) seg)
    (fun rule r seg hk hseg => ⟨r, hk, hseg⟩) h.kept.2.flip hsegs)
  apply hrules.imp
  rintro rule seg ⟨hr, -, r, hk, hseg⟩ a ha
  obtain ⟨a₀, ha₀, hreb⟩ := Relate.forall₂_left_of_mem hseg ha
  obtain ⟨b, hb, hbuf⟩ := h.bufferOf_alert hr hk ha₀
  have hfields : a.ipPrefix = a₀.ipPrefix ∧ a.protocol = a₀.protocol ∧ a.direction = a₀.direction := by
    rw [hreb]
    exact ⟨rfl, rfl, rfl⟩
  rw [← hfields.2.1, ← hfields.2.2] at hb hbuf
  rw [← hfields.1] at hbuf
  have hfind := find?_computeAllRates T ord p currentTime a.ipPrefix a.protocol a.direction a.metric
  rw [hbuf, Option.map_some] at hfind
  obtain ⟨s, hs, -⟩ := Option.map_eq_some_iff.mp hfind
  refine ⟨b, s, hb, hs, ?_⟩
  show findRate snapshots a.ipPrefix a.protocol a.direction a.metric = _
  rw [findRate_computeAllRates, hbuf]
  rfl

/-- The alert of the second twin reads the buffer of the second rule, though the first rule answers. -/
theorem rate_of_own_rule_twins : ∃ p, twinsProcessor = some p ∧ ∃ segs : List (List AlertInstance),
    ((AlertManager.new none).reloadConfig IpText.dotted twins).alerts = segs.flatten ∧
      List.Forall₂ (fun (rule : ProcessedRule) seg => ∀ a ∈ seg, ∃ b,
        rule.buffers.lookup ⟨a.protocol, a.direction⟩ = some b ∧
        a.rate (p.computeAllRates IpText.dotted HashOrder.stored 1003) = b.rate 1003 a.metric) p.rules segs := by
  have hsome : twinsProcessor.isSome = true := by decide
  obtain ⟨p, hp⟩ := Option.isSome_iff_exists.mp hsome
  obtain ⟨segs, h1, -, h2⟩ := rate_of_own_rule IpText.dotted twins _ p (twinsProcessor_ran hp)
    (AlertManager.new none) HashOrder.stored 1003
  refine ⟨p, hp, segs, h1, h2.imp fun rule seg hseg a ha => ?_⟩
  obtain ⟨b, s, hb, -, hrate⟩ := hseg a ha
  exact ⟨b, hb, hrate⟩

end NetAlert

import NetAlert.Dotted
import NetAlert.Routing

/-!
# NetAlert.Rates — the reported rates are those of the traffic

`Counts r W flows rule`: the processed rule `rule` of the configured rule `r` has counted the list
`flows` in its buffers of `W` buckets.  One flow keeps it (`Counts.route`), a run of flows keeps it
for all rules at once (`processFlows_counts`), and for a timely run the snapshots are exact
(`computeAllRates_exact`).
-/

namespace NetAlert

/-- The flow counts towards the buffer: it has the buffer's direction for the prefix of the rule, and
the buffer's protocol category. -/
def RuleConfig.Hits (r : RuleConfig) (k : BufferKey) (f : FlowRecord) : Prop :=
  f.directionFor r.ipPrefix.contains = some k.direction ∧ k.protocol ∈ f.categories

instance (r : RuleConfig) (k : BufferKey) : DecidablePred (r.Hits k) :=
  fun _ => inferInstanceAs (Decidable (_ ∧ _))

/-- The ring adds of the flows that count towards a buffer. -/
def RuleConfig.adds (r : RuleConfig) (k : BufferKey) (flows : List FlowRecord) : List (ℕ × ℕ × ℕ × ℕ) :=
  (flows.filter (r.Hits k)).map fun f => (f.timeReceived, f.sampledBytes, f.sampledPackets, 1)

/-- The buffers of the rule hold exactly the flows of the list. -/
structure Counts (r : RuleConfig) (W : ℕ) (flows : List FlowRecord) (rule : ProcessedRule) : Prop where
  ipPrefix : rule.ipPrefix = r.ipPrefix
  network : rule.network.net = r.ipPrefix
  labels : rule.labels = r.labels
  missing : ∀ k, k ∉ r.bufferKeys → rule.buffers.lookup k = none
  counted : ∀ k ∈ r.bufferKeys, ∃ b, rule.buffers.lookup k = some b ∧ b.buckets.length = W ∧
    b.toRing = SlotRing.addAll W SlotRing.empty (r.adds k flows)

variable {r : RuleConfig} {W : ℕ} {flows : List FlowRecord} {rule : ProcessedRule}

theorem Built.counts {cap : ℕ} (h : Built r W cap rule) : Counts r W [] rule := by
  refine ⟨h.ipPrefix, h.network, h.labels, fun k hk => by rw [h.buffers, if_neg hk], fun k hk => ?_⟩
  exact ⟨_, by rw [h.buffers, if_pos hk], RingBuffer.length_new W, RingBuffer.toRing_new W⟩

theorem Counts.lookup_cases (h : Counts r W flows rule) {k : BufferKey} {b : RingBuffer}
    (hb : rule.buffers.lookup k = some b) : k ∈ r.bufferKeys ∧ b.buckets.length = W ∧
      b.toRing = SlotRing.addAll W SlotRing.empty (r.adds k flows) := by
  by_cases hk : k ∈ r.bufferKeys
  · obtain ⟨b', hb', h1, h2⟩ := h.counted k hk
    rw [hb] at hb'
    cases hb'
    exact ⟨hk, h1, h2⟩
  · rw [h.missing k hk] at hb
    cases hb

theorem adds_concat (k : BufferKey) (f : FlowRecord) :
    r.adds k (flows ++ [f]) = r.adds k flows ++
      if r.Hits k f then [(f.timeReceived, f.sampledBytes, f.sampledPackets, 1)] else [] := by
  by_cases h : r.Hits k f <;> simp [RuleConfig.adds, h]

/-- **One flow** is counted in the buffers it hits and in no other. -/
theorem Counts.route (hW : 0 < W) (h : Counts r W flows rule) (f : FlowRecord) :
    ∃ rule', rule.route f = some rule' ∧ Counts r W (flows ++ [f]) rule' := by
  have hdir : f.directionFor rule.network.contains = f.directionFor r.ipPrefix.contains := by
    rw [IpNetwork.contains_eq h.network]
  cases hd : f.directionFor r.ipPrefix.contains with
  | none =>
    refine ⟨rule, by simp [ProcessedRule.route, hdir, hd], h.ipPrefix, h.network, h.labels, h.missing, ?_⟩
    intro k hk
    have hmiss : ¬ r.Hits k f := fun hh => by rw [RuleConfig.Hits, hd] at hh; cases hh.1
    rw [adds_concat, if_neg hmiss, List.append_nil]
    exact h.counted k hk
  | some d =>
    obtain ⟨rule', h1, h5⟩ :=
      distribute_spec (fun k b hb => by rw [(h.lookup_cases hb).2.1]; exact hW) f d
    have hiff : ∀ k : BufferKey, (k.direction = d ∧ k.protocol ∈ f.categories) ↔ r.Hits k f := by
      intro k
      rw [RuleConfig.Hits, hd, Option.some.injEq, eq_comm]
    have hroute : rule.route f = some rule' := by simp [ProcessedRule.route, hdir, hd, h1]
    have hfr := route_frame hroute
    refine ⟨rule', hroute, hfr.ipPrefix.trans h.ipPrefix, by rw [hfr.network]; exact h.network,
      hfr.labels.trans h.labels, fun k hk => ?_, fun k hk => ?_⟩
    · rw [h5, h.missing k hk]
      unfold addIf
      split_ifs <;> rfl
    · obtain ⟨b, hb, hlen, hring⟩ := h.counted k hk
      rw [h5, hb, adds_concat]
      by_cases hh : r.Hits k f
      · obtain ⟨b', hb', hlen', hring'⟩ := b.toRing_addInstantFlow (by omega) f.timeReceived
          f.sampledBytes f.sampledPackets
        refine ⟨b', by simp [addIf, (hiff k).mpr hh, hb'], hlen'.trans hlen, ?_⟩
        rw [hring', hlen, hring, if_pos hh]
        simp [SlotRing.addAll]
      · refine ⟨b, by rw [addIf, if_neg (fun hc => hh ((hiff k).mp hc))], hlen, ?_⟩
        rw [hring, if_neg hh, List.append_nil]

/-- **A run of flows** after a reload: no panic, and every rule has counted the run. -/
theorem processFlows_counts {T : IpText} {p₀ p : FlowProcessor} {c : Config}
    (hW : 0 < p₀.reloadWindow c) (hload : p₀.reloadConfig T c = .ok p) (flows : List FlowRecord) :
    ∃ p', p.processFlows flows = some p' ∧
      List.Forall₂ (fun r rule => Counts r (p₀.reloadWindow c) flows rule) c.rules p'.rules := by
  obtain ⟨hF, hT, -⟩ := reloadConfig_ok hload
  have hrun := Fold.option_total (f := FlowProcessor.processFlow) (l := flows) (s := p)
    (fun pre q => TableOk q.rules q.prefixTable ∧
      List.Forall₂ (fun r rule => Counts r (p₀.reloadWindow c) pre rule) c.rules q.rules) ?_
    ⟨hT, hF.imp fun _ _ hb => hb.counts⟩
  · obtain ⟨p', hp', -, hc⟩ := hrun
    exact ⟨p', hp', hc⟩
  · rintro pre f q - ⟨hTq, hq⟩
    have hok : ∀ rule ∈ q.rules, ∃ rule', rule.route f = some rule' := by
      intro rule hrule
      obtain ⟨r, -, hcr⟩ := Relate.forall₂_left_of_mem hq hrule
      obtain ⟨rule', h1, -⟩ := hcr.route hW f
      exact ⟨rule', h1⟩
    obtain ⟨q', hq', hTq', -, hroute⟩ := processFlow_spec hTq hok
    refine ⟨q', hq', hTq', Relate.forall₂_trans (fun r rule rule' hc hr => ?_) hq hroute⟩
    obtain ⟨rule'', h1, h2⟩ := hc.route hW f
    rw [hr] at h1
    cases h1
    exact h2

/-! ## Exact rates -/

/-- The flows of the window that count towards a buffer. -/
def RuleConfig.windowFlows (r : RuleConfig) (k : BufferKey) (W now : ℕ) (flows : List FlowRecord) :
    List FlowRecord :=
  flows.filter fun f => (now < f.timeReceived + W ∧ f.timeReceived ≤ now) ∧ k.protocol ∈ f.categories ∧
    f.directionFor r.ipPrefix.contains = some k.direction

/-- The snapshot of a buffer whose window holds exactly the given flows. -/
def exactSnapshot (T : IpText) (W : ℕ) (r : RuleConfig) (k : BufferKey) (seen : List FlowRecord) :
    RateSnapshot :=
  { ipPrefix := T.net r.ipPrefix
    labels := r.labels
    protocol := k.protocol
    direction := k.direction
    bps := 8 * (seen.map FlowRecord.sampledBytes).sum / W
    pps := (seen.map FlowRecord.sampledPackets).sum / W
    fps := seen.length / W }

theorem sum_triples {α : Type} (l : List α) (b p : α → ℕ) :
    (l.map fun f => (b f, p f, 1)).sum = ((l.map b).sum, (l.map p).sum, l.length) := by
  induction l with
  | nil => rfl
  | cons f l ih => simp [ih, Nat.add_comm]

/-- The window sum of the adds is that of the flows of the window. -/
theorem inWindow_adds (k : BufferKey) (now : ℕ) :
    SlotRing.inWindow W (r.adds k flows) now =
      (((r.windowFlows k W now flows).map FlowRecord.sampledBytes).sum,
        ((r.windowFlows k W now flows).map FlowRecord.sampledPackets).sum,
        (r.windowFlows k W now flows).length) := by
  rw [← sum_triples]
  simp only [SlotRing.inWindow, RuleConfig.adds, List.filter_map, List.map_map, List.filter_filter,
    RuleConfig.windowFlows, Function.comp_def]
  congr 2
  apply List.filter_congr
  intro f _
  simp [RuleConfig.Hits, and_comm]

theorem adds_timely (hT : flows.Pairwise fun f g => f.timeReceived < g.timeReceived + W) (k : BufferKey) :
    SlotRing.Timely W (r.adds k flows) := by
  unfold SlotRing.Timely RuleConfig.adds
  rw [List.pairwise_map]
  exact hT.sublist List.filter_sublist

/-- A rule that has counted a timely run reports exactly the flows of the window. -/
theorem Counts.snapshot (T : IpText) (h : Counts r W flows rule)
    (hT : flows.Pairwise fun f g => f.timeReceived < g.timeReceived + W) {now : ℕ} (hW : W ≤ now + 1)
    (hnow : ∀ f ∈ flows, f.timeReceived ≤ now) {k : BufferKey} {b : RingBuffer}
    (hb : (k, b) ∈ rule.buffers.toPairs) :
    FlowProcessor.snapshot T now rule (k, b) = exactSnapshot T W r k (r.windowFlows k W now flows) := by
  obtain ⟨-, hlen, hring⟩ := h.lookup_cases (HashMap.mem_toPairs.mp hb)
  have hread : ∀ t, b.read t = SlotRing.content W (r.adds k flows) t := by
    intro t
    rw [RingBuffer.read, hlen, hring, SlotRing.read_addAll]
  have hle : ∀ e ∈ r.adds k flows, e.1 ≤ now := by
    intro e he
    obtain ⟨f, hf, rfl⟩ := List.mem_map.mp he
    exact hnow f (List.mem_of_mem_filter hf)
  have hrates : b.computeRates now = RingBuffer.ratesOf W (SlotRing.inWindow W (r.adds k flows) now) := by
    rw [RingBuffer.computeRates_eq, hlen, ← SlotRing.sum_content_eq (adds_timely hT k) hW hle]
    simp only [hread]
  simp only [FlowProcessor.snapshot, hrates, inWindow_adds, exactSnapshot, RingBuffer.ratesOf, h.ipPrefix,
    h.labels, mul_comm]

/-- The buffers of a rule are those of its thresholds. -/
theorem Counts.keys_perm (h : Counts r W flows rule) :
    (rule.buffers.toPairs.map Prod.fst).Perm r.bufferKeys := by
  refine (List.perm_ext_iff_of_nodup (HashMap.nodup_toPairs _) r.nodup_bufferKeys).mpr fun k => ?_
  simp only [List.mem_map, Prod.exists, exists_and_right, exists_eq_right]
  constructor
  · rintro ⟨b, hb⟩
    exact (h.lookup_cases (HashMap.mem_toPairs.mp hb)).1
  · intro hk
    obtain ⟨b, hb, -⟩ := h.counted k hk
    exact ⟨b, HashMap.mem_toPairs.mpr hb⟩

/-- **End-to-end rates.**  After a reload with a window of at least a second and a timely run of
flows, no flow has panicked, and at a time not before any of them each rule reports, for exactly its
thresholds, the sums over the flows of the window of that protocol category and direction. -/
theorem computeAllRates_exact (T : IpText) (ord : HashOrder) (p₀ p : FlowProcessor) (c : Config)
    (hW : 1 ≤ c.global.window.asSecs) (hload : p₀.reloadConfig T c = .ok p) (flows : List FlowRecord)
    (hT : flows.Pairwise fun f g => f.timeReceived < g.timeReceived + c.global.window.asSecs)
    (now : ℕ) (hnow : ∀ f ∈ flows, f.timeReceived ≤ now) (hfull : c.global.window.asSecs ≤ now + 1) :
    ∃ p' segs, p.processFlows flows = some p' ∧ p'.computeAllRates T ord now = segs.flatten ∧
      List.Forall₂ (fun (r : RuleConfig) seg => seg.Perm (r.bufferKeys.map fun k =>
        exactSnapshot T c.global.window.asSecs r k (r.windowFlows k c.global.window.asSecs now flows)))
        c.rules segs := by
  have hwin : p₀.reloadWindow c = c.global.window.asSecs := if_pos hW
  obtain ⟨p', hp', hC⟩ := processFlows_counts (by omega) hload flows
  rw [hwin] at hC
  refine ⟨p', p'.rules.map fun rule => (ord.iter rule.buffers.toPairs).map
    (FlowProcessor.snapshot T now rule), hp', by
      rw [FlowProcessor.computeAllRates, List.flatMap_def], ?_⟩
  rw [List.forall₂_map_right_iff]
  refine hC.imp fun r rule h => ?_
  have hsnap : rule.buffers.toPairs.map (FlowProcessor.snapshot T now rule) =
      (rule.buffers.toPairs.map Prod.fst).map fun k =>
        exactSnapshot T c.global.window.asSecs r k (r.windowFlows k c.global.window.asSecs now flows) := by
    rw [List.map_map]
    exact List.map_congr_left fun e he => h.snapshot T hT hfull hnow he
  exact ((ord.perm _).map _).trans (hsnap ▸ h.keys_perm.map _)

/-- A flow of 1500 bytes from `src` to `dst` at a second, with the sampling rate of the README. -/
def demoFlow (src dst : IpAddr) (second : ℕ) : FlowRecord :=
  ⟨src, dst, 4242, 443, 6, 0x02, 1500, 1, second, 1000⟩

/-- Two flows towards 10.0.0.7 and one back from it, the last two out of order. -/
def demoFlows : List FlowRecord :=
  [demoFlow (.V4 0xC6336442) (.V4 0x0A000007) 1003, demoFlow (.V4 0xC6336442) (.V4 0x0A000007) 1007,
    demoFlow (.V4 0x0A000007) (.V4 0xC6336442) 1004]

theorem computeAllRates_exact_readme : ∃ p p' segs,
    (FlowProcessor.new 10).reloadConfig IpText.dotted Config.readme = .ok p ∧
    p.processFlows demoFlows = some p' ∧
    p'.computeAllRates IpText.dotted HashOrder.stored 1010 = segs.flatten ∧
    List.Forall₂ (fun (r : RuleConfig) seg => seg.Perm (r.bufferKeys.map fun k =>
      exactSnapshot IpText.dotted 10 r k (r.windowFlows k 10 1010 demoFlows))) Config.readme.rules segs := by
  obtain ⟨p, hp⟩ := reloadConfig_total IpText.dotted (FlowProcessor.new 10) (c := Config.readme)
    (by decide)
  obtain ⟨p', segs, h⟩ := computeAllRates_exact IpText.dotted HashOrder.stored (FlowProcessor.new 10) p
    Config.readme (by decide) hp demoFlows (by decide) 1010 (by decide) (by decide)
  exact ⟨p, p', segs, hp, h⟩

end NetAlert

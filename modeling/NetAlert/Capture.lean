import NetAlert.Lib.Backlog
import NetAlert.Metering
import NetAlert.Rates
import NetAlert.Reload

/-!
# NetAlert.Capture — captured flows along the runs of a processor

`Ran T c flows p`: the processor has loaded `c` and since then processed `flows`, with any drains
between them.  Every rule then holds flows that it routed in a direction it watches, in the order in
which they came (`Ran.kept`).  `drain_once`: a drain returns a flow once for each rule of the prefix
that watches the direction, leaves none for a second drain and touches nothing else.
-/

namespace NetAlert

variable {T : IpText} {c : Config} {flows : List FlowRecord} {p : FlowProcessor}

/-- A processor since it loaded a configuration, with the flows it has processed. -/
inductive Ran (T : IpText) (c : Config) : List FlowRecord → FlowProcessor → Prop
  | load {p₀ p : FlowProcessor} (h : p₀.reloadConfig T c = .ok p) : Ran T c [] p
  | flow {flows : List FlowRecord} {p p' : FlowProcessor} {flow : FlowRecord} (h : Ran T c flows p)
      (hp : p.processFlow flow = some p') : Ran T c (flows ++ [flow]) p'
  | drain {flows : List FlowRecord} {p : FlowProcessor} (h : Ran T c flows p) (ipPrefix : String)
      (d : Direction) : Ran T c flows (p.drainCapturedFlows T ipPrefix d).2

/-! ## The rules of a processor that ran -/

/-- The rule has a threshold in the direction. -/
def RuleConfig.watches (r : RuleConfig) (d : Direction) : Bool := r.bufferKeys.any fun k => k.direction = d

/-- A processed rule of the configured rule `r`, and what it has captured of `flows`. -/
structure Kept (r : RuleConfig) (cap : ℕ) (flows : List FlowRecord) (rule : ProcessedRule) : Prop where
  ipPrefix : rule.ipPrefix = r.ipPrefix
  network : rule.network.net = r.ipPrefix
  size : rule.captureBufferSize = cap
  keys : ∀ k, (rule.buffers.lookup k).isSome = true ↔ k ∈ r.bufferKeys
  captured : (rule.captureBuffer.map CapturedFlow.flow).Sublist flows
  directions : ∀ cf ∈ rule.captureBuffer, r.watches cf.direction = true
  room : rule.captureBuffer.length ≤ max cap 1

section Kept

variable {r : RuleConfig} {cap : ℕ} {rule rule' : ProcessedRule}

theorem Built.kept {W : ℕ} (h : Built r W cap rule) : Kept r cap [] rule := by
  refine ⟨h.ipPrefix, h.network, h.size, fun k => ?_, ?_, ?_, ?_⟩
  · rw [h.buffers]
    split_ifs with hk <;> simp [hk]
  · rw [h.capture]
    exact List.Sublist.refl []
  · rw [h.capture]
    simp
  · rw [h.capture]
    exact Nat.zero_le _

theorem Kept.watches_iff (h : Kept r cap flows rule) {d : Direction} : rule.Watches d ↔ r.watches d = true := by
  simp only [ProcessedRule.Watches, RuleConfig.watches, List.any_eq_true, decide_eq_true_eq]
  constructor
  · rintro ⟨k, b, hd, hb⟩
    exact ⟨k, (h.keys k).mp (by rw [hb]; rfl), hd⟩
  · rintro ⟨k, hk, hd⟩
    obtain ⟨b, hb⟩ := Option.isSome_iff_exists.mp ((h.keys k).mpr hk)
    exact ⟨k, b, hd, hb⟩

theorem route_layout {flow : FlowRecord} (h : rule.route flow = some rule') : rule'.layout = rule.layout := by
  unfold ProcessedRule.route at h
  split at h
  · exact distribute_layout h
  · rw [Option.some.inj h]

/-- The rule has the same buffers as before, whatever they hold. -/
theorem isSome_of_layout {k : BufferKey} (h : rule'.layout = rule.layout) :
    (rule'.buffers.lookup k).isSome = (rule.buffers.lookup k).isSome := by
  have hk := congrArg Option.isSome (congrFun (congrArg RuleLayout.sizes h) k)
  simpa [ProcessedRule.layout, bufferSizes] using hk

/-- What routing does to the captured flows. -/
theorem Routed.capture_cases {flow : FlowRecord} (h : Routed flow rule rule') :
    (rule'.captureBuffer = rule.captureBuffer ∧
        ∀ d, flow.directionFor rule.network.contains = some d → ¬ rule.Watches d) ∨
      ∃ d, flow.directionFor rule.network.contains = some d ∧ rule.Watches d ∧
        rule'.captureBuffer = Backlog.push rule.captureBufferSize rule.captureBuffer ⟨flow, d⟩ := by
  by_cases hw : ∃ d, flow.directionFor rule.network.contains = some d ∧ rule.Watches d
  · obtain ⟨d, hd, hw⟩ := hw
    exact .inr ⟨d, hd, hw, h.captured d hd hw⟩
  · have hnone : ∀ d, flow.directionFor rule.network.contains = some d → ¬ rule.Watches d :=
      fun d hd hd' => hw ⟨d, hd, hd'⟩
    exact .inl ⟨h.ignored hnone, hnone⟩

/-- **One flow.** -/
theorem Kept.route (h : Kept r cap flows rule) {flow : FlowRecord} (hr : rule.route flow = some rule') :
    Kept r cap (flows ++ [flow]) rule' := by
  have hR := route_routed hr
  have hkeys : ∀ k, (rule'.buffers.lookup k).isSome = true ↔ k ∈ r.bufferKeys := by
    intro k
    rw [isSome_of_layout (route_layout hr)]
    exact h.keys k
  have hnet : rule'.network.net = r.ipPrefix := by
    rw [hR.frame.network]
    exact h.network
  rcases hR.capture_cases with ⟨hcap, -⟩ | ⟨d, -, hw, hcap⟩
  · refine ⟨hR.frame.ipPrefix.trans h.ipPrefix, hnet, hR.frame.size.trans h.size, hkeys, ?_, ?_, ?_⟩
    · rw [hcap]
      exact h.captured.trans (List.sublist_append_left _ _)
    · rw [hcap]
      exact h.directions
    · rw [hcap]
      exact h.room
  · rw [h.size] at hcap
    refine ⟨hR.frame.ipPrefix.trans h.ipPrefix, hnet, hR.frame.size.trans h.size, hkeys, ?_, ?_, ?_⟩
    · have hpush := (Backlog.push_sublist cap rule.captureBuffer ⟨flow, d⟩).map CapturedFlow.flow
      rw [List.map_append] at hpush
      rw [hcap]
      exact hpush.trans (h.captured.append (List.Sublist.refl [flow]))
    · rw [hcap]
      intro cf hcf
      rcases List.mem_append.mp ((Backlog.push_sublist _ _ _).subset hcf) with hcf | hcf
      · exact h.directions cf hcf
      · rw [List.mem_singleton.mp hcf]
        exact h.watches_iff.mp hw
    · rw [hcap]
      exact Backlog.length_push_le h.room _

/-- Some captured flows are taken out. -/
theorem Kept.filter (h : Kept r cap flows rule) (keep : CapturedFlow → Bool) :
    Kept r cap flows { rule with captureBuffer := rule.captureBuffer.filter keep } := by
  refine ⟨h.ipPrefix, h.network, h.size, h.keys, ?_, ?_, ?_⟩
  · exact (List.filter_sublist.map _).trans h.captured
  · exact fun cf hcf => h.directions cf (List.mem_of_mem_filter hcf)
  · exact (List.length_filter_le _ _).trans h.room

end Kept

/-- **Runs** of a processor. -/
theorem Ran.kept (h : Ran T c flows p) : TableOk p.rules p.prefixTable ∧
    List.Forall₂ (fun r rule => Kept r c.global.captureBufferSize flows rule) c.rules p.rules := by
  induction h with
  | load h =>
    obtain ⟨hF, hT, -⟩ := reloadConfig_ok h
    exact ⟨hT, hF.imp fun _ _ hb => hb.kept⟩
  | flow _ hp ih =>
    obtain ⟨hT, hF⟩ := ih
    obtain ⟨hT', -, hF'⟩ := processFlow_ok hT hp
    exact ⟨hT', Relate.forall₂_trans (fun _ _ _ hk hr => hk.route hr) hF hF'⟩
  | drain _ ipPrefix d ih =>
    obtain ⟨hT, hF⟩ := ih
    refine ⟨hT.of_layout (drainCapturedFlows_layout T _ ipPrefix),
      List.forall₂_map_right_iff.mpr (hF.imp fun r rule hk => ?_)⟩
    split_ifs
    · exact hk.filter fun cf => cf.direction ≠ d
    · exact hk

/-! ## Drains -/

/-- The captured flows of a direction that a rule gives to a drain. -/
def ProcessedRule.given (T : IpText) (ipPrefix : String) (d : Direction) (rule : ProcessedRule) :
    List FlowRecord :=
  if T.net rule.ipPrefix = ipPrefix then (rule.captureBuffer.filter fun cf => cf.direction = d).map (·.flow)
  else []

/-- A rule gives a flow at most as often as it was processed, and nothing in a direction it does not watch. -/
theorem Kept.count_given_le {r : RuleConfig} {cap : ℕ} {rule : ProcessedRule} (h : Kept r cap flows rule)
    (ipPrefix : String) (d : Direction) (f : FlowRecord) : (rule.given T ipPrefix d).count f ≤
      if T.net r.ipPrefix = ipPrefix ∧ r.watches d = true then flows.count f else 0 := by
  unfold ProcessedRule.given
  rw [h.ipPrefix]
  by_cases hp : T.net r.ipPrefix = ipPrefix
  · rw [if_pos hp]
    by_cases hw : r.watches d = true
    · rw [if_pos ⟨hp, hw⟩]
      exact ((List.filter_sublist.map _).trans h.captured).count_le f
    · have hnil : (rule.captureBuffer.filter fun cf => cf.direction = d) = [] := by
        refine List.filter_eq_nil_iff.mpr fun cf hcf hd => hw ?_
        rw [← of_decide_eq_true hd]
        exact h.directions cf hcf
      rw [hnil]
      simp
  · simp [hp]

/-- Captures of the drained key are gone, and no other drain brings them back. -/
theorem drain_drains (p : FlowProcessor) (ipPrefix : String) (d : Direction) (keys : List (String × Direction)) :
    ((keys.foldl (fun q k => (q.drainCapturedFlows T k.1 k.2).2) (p.drainCapturedFlows T ipPrefix d).2
      ).drainCapturedFlows T ipPrefix d).1 = [] := by
  have hnone : ∀ q : FlowProcessor, (∀ rule ∈ q.rules, rule.given T ipPrefix d = []) →
      (q.drainCapturedFlows T ipPrefix d).1 = [] := fun q hq => List.flatMap_eq_nil_iff.mpr hq
  have hfilter : ∀ (rule : ProcessedRule) (keep : CapturedFlow → Bool), rule.given T ipPrefix d = [] →
      ({ rule with captureBuffer := rule.captureBuffer.filter keep } : ProcessedRule).given T ipPrefix d = [] := by
    intro rule keep h
    unfold ProcessedRule.given at h ⊢
    split_ifs at h ⊢
    · rw [List.map_eq_nil_iff, List.filter_eq_nil_iff] at h ⊢
      exact fun cf hcf => h cf (List.mem_of_mem_filter hcf)
    · rfl
  apply hnone
  induction keys using List.reverseRecOn with
  | nil =>
    intro rule hrule
    obtain ⟨rule, -, rfl⟩ := List.mem_map.mp hrule
    split_ifs with hp
    · simp [ProcessedRule.given, hp, List.filter_filter]
    · simp [ProcessedRule.given, hp]
  | append_singleton keys k ih =>
    rw [List.foldl_append]
    intro rule hrule
    obtain ⟨rule, hmem, rfl⟩ := List.mem_map.mp hrule
    split_ifs
    · exact hfilter rule _ (ih rule hmem)
    · exact ih rule hmem

/-- **A drain** returns no flow more often than it was processed, times the number of rules that have the
prefix and a threshold in the direction.  It leaves nothing for another drain of the key, and it changes
no buffers, no captures of other prefixes and none of the other direction. -/
theorem drain_once (T : IpText) (c : Config) (flows : List FlowRecord) (p : FlowProcessor) (h : Ran T c flows p)
    (ipPrefix : String) (d : Direction) :
    let drained := (p.drainCapturedFlows T ipPrefix d).1
    let p' := (p.drainCapturedFlows T ipPrefix d).2
    (∀ f, drained.count f ≤
        c.rules.countP (fun r => T.net r.ipPrefix = ipPrefix ∧ r.watches d = true) * flows.count f) ∧
      (∀ keys : List (String × Direction), ((keys.foldl (fun q k => (q.drainCapturedFlows T k.1 k.2).2) p'
        ).drainCapturedFlows T ipPrefix d).1 = []) ∧
      List.Forall₂ (fun rule rule' => rule'.buffers = rule.buffers ∧
        (T.net rule.ipPrefix ≠ ipPrefix → rule'.captureBuffer = rule.captureBuffer) ∧
        rule'.captureBuffer.filter (fun cf => cf.direction ≠ d) =
          rule.captureBuffer.filter fun cf => cf.direction ≠ d) p.rules p'.rules := by
  intro drained p'
  refine ⟨fun f => ?_, drain_drains p ipPrefix d, ?_⟩
  · have hF := h.kept.2
    show (p.rules.flatMap (ProcessedRule.given T ipPrefix d)).count f ≤ _
    generalize p.rules = rules at hF
    generalize c.rules = configured at hF
    induction hF with
    | nil => simp
    | @cons r rule _ _ hk _ ih =>
      have hgiven := hk.count_given_le (T := T) ipPrefix d f
      rw [List.flatMap_cons, List.count_append, List.countP_cons, Nat.add_mul]
      split_ifs at hgiven with hr
      · simp only [hr, decide_true, if_true, one_mul, and_self]
        omega
      · simp only [hr, decide_false, Bool.false_eq_true, if_false, Nat.zero_mul, Nat.add_zero]
        omega
  · refine List.forall₂_map_right_iff.mpr (List.forall₂_same.mpr fun rule _ => ?_)
    split_ifs with hp
    · exact ⟨rfl, fun hne => absurd hp hne, by simp [List.filter_filter]⟩
    · exact ⟨rfl, fun _ => rfl, rfl⟩

/-- One flow to 10.0.0.7, processed by a processor that loaded the twins. -/
def twinsProcessor : Option FlowProcessor :=
  ((FlowProcessor.new 10).reloadConfig IpText.dotted twins).toOption.bind fun p =>
    p.processFlow (demoFlow (.V4 0xC6336442) (.V4 0x0A000007) 1003)

theorem twinsProcessor_ran {p : FlowProcessor} (h : twinsProcessor = some p) :
    Ran IpText.dotted twins [demoFlow (.V4 0xC6336442) (.V4 0x0A000007) 1003] p := by
  obtain ⟨p₀, h₀, hp⟩ := Option.bind_eq_some_iff.mp h
  exact Ran.flow (Ran.load (Fold.except_toOption.mp h₀)) hp

theorem drain_once_twins : ∃ p, Ran IpText.dotted twins [demoFlow (.V4 0xC6336442) (.V4 0x0A000007) 1003] p ∧
    ∀ f, (p.drainCapturedFlows IpText.dotted "10.0.0.0/24" .inbound).1.count f ≤
      twins.rules.countP (fun r => IpText.dotted.net r.ipPrefix = "10.0.0.0/24" ∧ r.watches .inbound = true) *
        [demoFlow (.V4 0xC6336442) (.V4 0x0A000007) 1003].count f := by
  have hsome : twinsProcessor.isSome = true := by decide
  obtain ⟨p, hp⟩ := Option.isSome_iff_exists.mp hsome
  have hran := twinsProcessor_ran hp
  exact ⟨p, hran, (drain_once IpText.dotted twins _ p hran "10.0.0.0/24" .inbound).1⟩

/-- Both twins have captured the flow, so the drain returns it twice. -/
theorem drain_repeats_twins : twins.validate IpText.dotted = .ok () ∧
    ∃ p, Ran IpText.dotted twins [demoFlow (.V4 0xC6336442) (.V4 0x0A000007) 1003] p ∧
      (p.drainCapturedFlows IpText.dotted "10.0.0.0/24" .inbound).1 =
        [demoFlow (.V4 0xC6336442) (.V4 0x0A000007) 1003, demoFlow (.V4 0xC6336442) (.V4 0x0A000007) 1003] := by
  have hdrain : twinsProcessor.map
      (fun p => (p.drainCapturedFlows IpText.dotted "10.0.0.0/24" .inbound).1) =
        some [demoFlow (.V4 0xC6336442) (.V4 0x0A000007) 1003,
          demoFlow (.V4 0xC6336442) (.V4 0x0A000007) 1003] := by
    decide
  obtain ⟨p, hp, hflows⟩ := Option.map_eq_some_iff.mp hdrain
  exact ⟨by decide, p, twinsProcessor_ran hp, hflows⟩

end NetAlert

import NetAlert.CaptureLog
import NetAlert.Lib.Method
import NetAlert.Startup

/-!
# NetAlert.PrefixTable — the prefix table in every state of a processor

`Mut` has `reload_config` and `process_flow` as methods on `&mut self`, with the state that they leave where
they fail: a reload with an error, a flow with a panic.  Where they return, they do what the functions of
`FlowProcessor` compute (`Mut.exec_reloadConfig`, `Mut.processFlow_implements`).

* `Tabled.after`: every call, completed or not, keeps the table right for the rules.
* `prefixTable_exact`: so after any calls an entry lists the rules of its network in order, a lookup finds the
  rules that hold the address, each once, and no flow is sent to a rule that does not exist.
* `daemon_tabled`: the processor of a daemon is at all times a new one after some calls.
-/

namespace NetAlert

/-! ## Methods on the processor -/

/-- Why `process_flow` panics: at `self.rules[rule_idx]`, or at the remainder in `bucket_index`. -/
inductive Panic
  | ruleIndex
  | bucketIndex
  deriving DecidableEq

namespace Mut

/-- `reload_config`: rules and table are built in local variables, and assigned after the loop. -/
def reloadConfig (T : IpText) (config : Config) : Method String FlowProcessor Unit := do
  let self ← get
  let window := self.reloadWindow config
  let built : Except String (List ProcessedRule × IpNetworkTable (List ℕ)) :=
    config.rules.zipIdx.foldlM (FlowProcessor.addRule T window config.global.captureBufferSize) ([], ∅)
  let (newRules, newTable) ← built
  modify fun self => { self with rules := newRules }
  modify fun self => { self with prefixTable := newTable }
  modify fun self => { self with windowSecs := window }

/-- The flow is added to the buffer of one category, if the rule has it. -/
def count (flow : FlowRecord) (direction : Direction) (protocol : ProtocolCategory) :
    Method Panic ProcessedRule Unit := do
  let rule ← get
  match rule.buffers.lookup ⟨protocol, direction⟩ with
  | none => pure ()
  | some buffer =>
    match buffer.addInstantFlow flow.timeReceived flow.sampledBytes flow.sampledPackets with
    | none => throw .bucketIndex
    | some buffer =>
      modify fun rule => { rule with buffers := rule.buffers.insert ⟨protocol, direction⟩ buffer }

/-- What the loop of `process_flow` does to one rule: it captures the flow before it counts it. -/
def distribute (flow : FlowRecord) (direction : Direction) : Method Panic ProcessedRule Unit := do
  let rule ← get
  if rule.buffers.keys.any (fun k => k.direction = direction) then
    modify fun rule => { rule with captureBuffer := rule.capture flow direction }
    flow.categories.forM (count flow direction)
  else
    pure ()

/-- A method of the rule that `&mut self.rules[idx]` borrows. -/
def onRule (idx : ℕ) (m : Method Panic ProcessedRule Unit) : Method Panic FlowProcessor Unit := do
  let self ← get
  match self.rules[idx]? with
  | none => throw .ruleIndex
  | some rule =>
    let (outcome, rule) := m.exec rule
    modify fun self => { self with rules := self.rules.set idx rule }
    liftM outcome

def processFlow (flow : FlowRecord) : Method Panic FlowProcessor Unit := do
  let self ← get
  (self.updates flow).forM fun u => onRule u.1 (distribute flow u.2)

/-! ### What they compute -/

/-- A reload that succeeds leaves the new processor, and one that fails the old one. -/
theorem exec_reloadConfig (T : IpText) (c : Config) (p : FlowProcessor) : (reloadConfig T c).exec p =
    match p.reloadConfig T c with
    | .ok q => (.ok (), q)
    | .error e => (.error e, p) := by
  unfold reloadConfig FlowProcessor.reloadConfig
  rw [Method.exec_get_bind]
  simp only
  rw [Method.exec_bind, Method.exec_lift]
  generalize List.foldlM (FlowProcessor.addRule T _ _) _ _ = built
  rcases built with e | ⟨rules, table⟩ <;> rfl

theorem exec_onRule_none {idx : ℕ} {p : FlowProcessor} (h : p.rules[idx]? = none)
    (m : Method Panic ProcessedRule Unit) : (onRule idx m).exec p = (.error .ruleIndex, p) := by
  unfold onRule
  rw [Method.exec_get_bind, h]
  rfl

theorem exec_onRule_some {idx : ℕ} {p : FlowProcessor} {rule : ProcessedRule} (h : p.rules[idx]? = some rule)
    (m : Method Panic ProcessedRule Unit) : (onRule idx m).exec p =
      ((m.exec rule).1, { p with rules := p.rules.set idx (m.exec rule).2 }) := by
  unfold onRule
  rw [Method.exec_get_bind, h]
  rfl

section Implements

variable (flow : FlowRecord) (direction : Direction)

theorem count_implements (protocol : ProtocolCategory) : (count flow direction protocol).Implements fun rule =>
    (ProcessedRule.count flow direction rule.buffers protocol).map fun buffers =>
      { rule with buffers := buffers } := by
  intro rule rule'
  show _ ↔ (ProcessedRule.count flow direction rule.buffers protocol).map _ = _
  unfold count ProcessedRule.count
  rw [Method.exec_get_bind]
  cases rule.buffers.lookup ⟨protocol, direction⟩ with
  | none => simp
  | some buffer =>
    cases hb : buffer.addInstantFlow flow.timeReceived flow.sampledBytes flow.sampledPackets with
    | none => simp [hb]
    | some buffer => simp [hb]

/-- The loop over the categories changes the buffers only. -/
theorem foldlM_count (categories : List ProtocolCategory) (rule : ProcessedRule) :
    categories.foldlM (fun rule protocol => (ProcessedRule.count flow direction rule.buffers protocol).map
        fun buffers => { rule with buffers := buffers }) rule =
      (categories.foldlM (ProcessedRule.count flow direction) rule.buffers).map fun buffers =>
        { rule with buffers := buffers } := by
  induction categories generalizing rule with
  | nil => rfl
  | cons protocol categories ih =>
    rw [List.foldlM_cons, List.foldlM_cons]
    cases ProcessedRule.count flow direction rule.buffers protocol with
    | none => rfl
    | some buffers => exact ih _

theorem distribute_implements : (distribute flow direction).Implements fun rule =>
    rule.distribute flow direction := by
  intro rule rule'
  show _ ↔ rule.distribute flow direction = _
  unfold distribute ProcessedRule.distribute
  rw [Method.exec_get_bind]
  split_ifs
  · have hloop := (Method.Implements.forM (fun protocol => count_implements flow direction protocol)
      flow.categories).congr fun rule => foldlM_count flow direction _ rule
    rw [Method.exec_bind, Method.exec_modify]
    refine (hloop _ rule').trans ?_
    show Option.map _ _ = _ ↔ _
    rw [Option.map_eq_bind]
    rfl
  · simp

theorem onRule_implements {m : Method Panic ProcessedRule Unit} {f : ProcessedRule → Option ProcessedRule}
    (h : m.Implements f) (idx : ℕ) : (onRule idx m).Implements fun p => do
      let rule ← p.rules[idx]?
      let rule ← f rule
      return { p with rules := p.rules.set idx rule } := by
  intro p p'
  cases hr : p.rules[idx]? with
  | none =>
    rw [exec_onRule_none hr]
    simp [hr]
  | some rule =>
    rw [exec_onRule_some hr]
    rcases h.cases rule with ⟨e, rule', hexec, hf⟩ | ⟨rule', hexec, hf⟩
    · simp [hr, hexec, hf]
    · simp [hr, hexec, hf]

/-- **Where `process_flow` returns**, it leaves what `FlowProcessor.processFlow` computes. -/
theorem processFlow_implements : (processFlow flow).Implements fun p => p.processFlow flow := by
  intro p p'
  show _ ↔ FlowProcessor.processFlow p flow = _
  unfold processFlow
  rw [Method.exec_get_bind]
  exact Method.Implements.forM (f := FlowProcessor.applyUpdate flow)
    (fun u => onRule_implements (distribute_implements flow u.2) u.1) (p.updates flow) p p'

end Implements

/-! ### What they leave, completed or not -/

section Keeps

variable (flow : FlowRecord) (direction : Direction)

theorem count_keeps (protocol : ProtocolCategory) (layout : RuleLayout) :
    (count flow direction protocol).Keeps (fun rule => rule.layout = layout) (· = .bucketIndex) := by
  intro rule hrule
  unfold count
  rw [Method.exec_get_bind]
  cases hl : rule.buffers.lookup ⟨protocol, direction⟩ with
  | none =>
    rw [Method.exec_pure]
    exact .ok hrule
  | some buffer =>
    cases hb : buffer.addInstantFlow flow.timeReceived flow.sampledBytes flow.sampledPackets with
    | none =>
      simp only [hb, Method.exec_throw]
      exact .fail hrule rfl
    | some buffer' =>
      have hcount : ProcessedRule.count flow direction rule.buffers protocol =
          some (rule.buffers.insert ⟨protocol, direction⟩ buffer') := by
        simp [ProcessedRule.count, hl, hb]
      simp only [hb, Method.exec_modify]
      refine .ok ?_
      rw [← hrule]
      simp only [ProcessedRule.layout, count_sizes hcount]

theorem distribute_keeps (layout : RuleLayout) :
    (distribute flow direction).Keeps (fun rule => rule.layout = layout) (· = .bucketIndex) := by
  intro rule hrule
  unfold distribute
  rw [Method.exec_get_bind]
  split_ifs
  · -- the captured flow is no part of the layout
    have hloop := Method.Keeps.forM fun protocol (_ : protocol ∈ flow.categories) =>
      count_keeps flow direction protocol layout
    rw [Method.exec_bind, Method.exec_modify]
    exact hloop { rule with captureBuffer := rule.capture flow direction } hrule
  · rw [Method.exec_pure]
    exact .ok hrule

/-- **A rule that exists** is changed in place. -/
theorem onRule_keeps {m : Method Panic ProcessedRule Unit}
    (hm : ∀ layout, m.Keeps (fun rule => rule.layout = layout) (· = .bucketIndex)) {idx : ℕ} {layout : Layout}
    (hidx : idx < layout.rules.length) :
    (onRule idx m).Keeps (fun p => p.layout = layout) (· = .bucketIndex) := by
  rintro p rfl
  have hlt : idx < p.rules.length := by simpa [FlowProcessor.layout] using hidx
  have hr : p.rules[idx]? = some p.rules[idx] := List.getElem?_eq_getElem hlt
  have hends := hm _ p.rules[idx] rfl
  rw [exec_onRule_some hr]
  exact ⟨layout_set hr hends.state, hends.error⟩

/-- **A flow** changes no layout, and it is sent to rules that exist. -/
theorem processFlow_leaves {p : FlowProcessor} (hT : TableOk p.rules p.prefixTable) :
    Method.Ends (fun q => q.layout = p.layout) (· = .bucketIndex) ((processFlow flow).exec p) := by
  unfold processFlow
  rw [Method.exec_get_bind]
  refine Method.Keeps.forM (I := fun q => q.layout = p.layout) (fun u hu => ?_) p rfl
  obtain ⟨rule, hr, -⟩ := (mem_updates hT).mp hu
  have hlt : u.1 < p.layout.rules.length := by
    simpa [FlowProcessor.layout] using (List.getElem?_eq_some_iff.mp hr).1
  exact onRule_keeps (distribute_keeps flow u.2) hlt

end Keeps

end Mut

/-! ## Calls -/

/-- A call of `reload_config`, or one of `process_flow` or `drain_captured_flows`. -/
inductive ProcessorCall
  | reload (config : Config)
  | capture (op : CaptureOp)

/-- The processor after the call, whether it has returned, failed or panicked. -/
def ProcessorCall.after (T : IpText) (p : FlowProcessor) : ProcessorCall → FlowProcessor
  | .reload config => ((Mut.reloadConfig T config).exec p).2
  | .capture (.flow f) => ((Mut.processFlow f).exec p).2
  | .capture (.drain ipPrefix d) => (p.drainCapturedFlows T ipPrefix d).2

/-- A new processor after any calls. -/
def FlowProcessor.reached (T : IpText) (windowSecs : ℕ) (calls : List ProcessorCall) : FlowProcessor :=
  calls.foldl (ProcessorCall.after T) (FlowProcessor.new windowSecs)

/-- The table entry of a network; one that is missing lists nothing. -/
def FlowProcessor.entry (p : FlowProcessor) (n : IpNetwork) : List ℕ := (p.prefixTable.lookup n).getD []

variable {T : IpText} {p q : FlowProcessor}

/-- A call that returns leaves what `CaptureOp.apply` computes. -/
theorem after_of_apply {op : CaptureOp} (h : op.apply T p = some q) :
    (ProcessorCall.capture op).after T p = q := by
  cases op with
  | flow f => exact congrArg Prod.snd ((Mut.processFlow_implements f p q).mpr h)
  | drain ipPrefix d => exact Option.some.inj h

/-! ## The table -/

/-- Each rule has the network of its prefix, and the table lists the rules by their networks. -/
structure Tabled (p : FlowProcessor) : Prop where
  table : TableOk p.rules p.prefixTable
  networks : ∀ rule ∈ p.rules, rule.network.net = rule.ipPrefix

theorem Tabled.new (windowSecs : ℕ) : Tabled (FlowProcessor.new windowSecs) :=
  ⟨tableOk_empty, fun _ hr => by cases hr⟩

/-- **A reload** that succeeds. -/
theorem Tabled.of_reload {c : Config} (h : p.reloadConfig T c = .ok q) : Tabled q := by
  obtain ⟨hF, hT, -⟩ := reloadConfig_ok h
  refine ⟨hT, fun rule hr => ?_⟩
  obtain ⟨r, -, hbuilt⟩ := Relate.forall₂_left_of_mem hF hr
  rw [hbuilt.network, hbuilt.ipPrefix]

theorem Tabled.of_layout (h : Tabled p) (hl : q.layout = p.layout) : Tabled q := by
  refine ⟨h.table.of_layout hl, fun rule' hr' => ?_⟩
  have hrules : p.rules.map ProcessedRule.layout = q.rules.map ProcessedRule.layout :=
    congrArg Layout.rules hl.symm
  obtain ⟨rule, hr, hrule⟩ := Relate.forall₂_left_of_mem (Relate.forall₂_of_map_eq hrules) hr'
  rw [← show rule.network = rule'.network from congrArg RuleLayout.network hrule,
    ← show rule.ipPrefix = rule'.ipPrefix from congrArg RuleLayout.ipPrefix hrule]
  exact h.networks rule hr

/-- **One call**, whatever becomes of it. -/
theorem Tabled.after (h : Tabled p) (call : ProcessorCall) : Tabled (call.after T p) := by
  rcases call with config | f | ⟨ipPrefix, d⟩
  · rw [ProcessorCall.after, Mut.exec_reloadConfig]
    cases hp : p.reloadConfig T config with
    | error e => exact h
    | ok q => exact Tabled.of_reload hp
  · exact h.of_layout (Mut.processFlow_leaves f h.table).state
  · exact h.of_layout (drainCapturedFlows_layout T p ipPrefix)

/-- **Any calls.** -/
theorem tabled_reached (T : IpText) (windowSecs : ℕ) (calls : List ProcessorCall) :
    Tabled (FlowProcessor.reached T windowSecs calls) := by
  unfold FlowProcessor.reached
  induction calls using List.reverseRecOn with
  | nil => exact .new windowSecs
  | append_singleton calls call ih =>
    rw [List.foldl_append]
    exact ih.after call

theorem Tabled.entry_eq (h : Tabled p) (n : IpNetwork) :
    p.entry n = Inverted.positions ProcessedRule.network p.rules n :=
  (tableOk_iff.mp h.table).getD_lookup n

theorem Tabled.mem_matchingRules (h : Tabled p) {ip : IpAddr} {i : ℕ} :
    i ∈ p.matchingRules ip ↔ ∃ rule, p.rules[i]? = some rule ∧ rule.ipPrefix.contains ip = true := by
  rw [NetAlert.mem_matchingRules h.table]
  refine exists_congr fun rule => and_congr_right fun hr => ?_
  rw [IpNetwork.contains_eq (h.networks rule (List.mem_of_getElem? hr))]

/-- **The prefix table**, after any calls on a new processor: reloads that succeed or fail, flows and drains.
The entry of a network lists the rules with that network, in order and each once.  A lookup finds the rules
whose prefix holds the address, each once.  No flow indexes a rule that does not exist, and a reload that fails
leaves rules, table and window as they are. -/
theorem prefixTable_exact (T : IpText) (windowSecs : ℕ) (calls : List ProcessorCall) :
    let p := FlowProcessor.reached T windowSecs calls
    (∀ n, (p.entry n).Pairwise (· < ·) ∧ (p.entry n).Nodup ∧
        ∀ i, i ∈ p.entry n ↔ ∃ rule, p.rules[i]? = some rule ∧ rule.network = n) ∧
      (∀ ip, (p.matchingRules ip).Nodup ∧
        ∀ i, i ∈ p.matchingRules ip ↔ ∃ rule, p.rules[i]? = some rule ∧ rule.ipPrefix.contains ip = true) ∧
      (∀ flow, ((Mut.processFlow flow).exec p).1 ≠ .error .ruleIndex) ∧
      ∀ c e, ((Mut.reloadConfig T c).exec p).1 = .error e → ((Mut.reloadConfig T c).exec p).2 = p := by
  intro p
  have h : Tabled p := tabled_reached T windowSecs calls
  refine ⟨fun n => ?_, fun ip => ⟨nodup_matchingRules h.table ip, fun i => h.mem_matchingRules⟩, ?_, ?_⟩
  · rw [h.entry_eq]
    exact ⟨Inverted.sorted_positions _ _ n, Inverted.nodup_positions _ _ n, fun i => Inverted.mem_positions⟩
  · intro flow hpanic
    cases (Mut.processFlow_leaves flow h.table).error _ hpanic
  · intro c e he
    rw [Mut.exec_reloadConfig] at he ⊢
    cases hp : p.reloadConfig T c with
    | error e' => rfl
    | ok q =>
      rw [hp] at he
      cases he

/-- Two rules for 10.0.0.0/24, and one for 10.0.0.0/16 between them. -/
def nested : Config :=
  let rule (ipPrefix : IpNet) : RuleConfig :=
    { ipPrefix := ipPrefix
      thresholds := Config.single .any .inbound { bps := some ⟨.num 1000, none⟩ } }
  { twins with rules :=
      [rule (.slash24 0x0A000000), rule (.V4 ⟨0x0A000000, 16, by decide⟩), rule (.slash24 0x0A000000)] }

/-- A reload, a flow, a reload that fails, a drain. -/
def nestedCalls : List ProcessorCall :=
  [.reload nested, .capture (.flow twinsFlow), .reload hostBits, .capture (.drain "10.0.0.0/24" .inbound)]

theorem prefixTable_exact_nested :
    let p := FlowProcessor.reached IpText.dotted 10 nestedCalls
    p.entry ⟨.slash24 0x0A000000, by decide⟩ = [0, 2] ∧ (p.matchingRules (.V4 0x0A000007)).Nodup ∧
      ((Mut.processFlow twinsFlow).exec p).1 ≠ .error .ruleIndex ∧
      ((Mut.reloadConfig IpText.dotted hostBits).exec p).2 = p := by
  intro p
  obtain ⟨-, hmatch, hflow, hreload⟩ := prefixTable_exact IpText.dotted 10 nestedCalls
  refine ⟨by decide +kernel, (hmatch _).1, hflow twinsFlow, ?_⟩
  exact hreload hostBits "Invalid prefix 10.0.0.1/24: host bits are set" (by decide)

/-- A flow that panics half way: the rules keep their places. -/
example : ((Mut.processFlow knock).exec (FlowProcessor.reached IpText.dotted 0 [.reload halfSecond])).1 =
    .error .bucketIndex := by
  decide +kernel

/-! ## The processor of a daemon -/

/-- The processor is a new one after some calls. -/
def FromNew (T : IpText) (windowSecs : ℕ) (p : FlowProcessor) : Prop :=
  ∃ calls, FlowProcessor.reached T windowSecs calls = p

section FromNew

variable {W : ℕ}

theorem FromNew.call (h : FromNew T W p) (call : ProcessorCall) : FromNew T W (call.after T p) := by
  obtain ⟨calls, rfl⟩ := h
  exact ⟨calls ++ [call], by rw [FlowProcessor.reached, List.foldl_append]; rfl⟩

theorem FromNew.reload {c : Config} (h : FromNew T W p) (hp : p.reloadConfig T c = .ok q) : FromNew T W q := by
  have hq := h.call (.reload c)
  rw [ProcessorCall.after, Mut.exec_reloadConfig, hp] at hq
  exact hq

theorem FromNew.apply {op : CaptureOp} (h : FromNew T W p) (hop : op.apply T p = some q) : FromNew T W q := by
  rw [← after_of_apply hop]
  exact h.call (.capture op)

/-- **One event** of a daemon calls its processor, or leaves it alone. -/
theorem FromNew.step {orders : TickOrders} {d d' : Daemon} {e : Event} {payloads : List AlertPayload}
    (h : FromNew T W d.processor) (hs : d.step T orders e = some (d', payloads)) : FromNew T W d'.processor := by
  by_cases he : e.Steady
  · rcases step_cases he hs with ⟨_, rfl⟩ | ⟨flow, _, q, hq, rfl⟩ | ⟨_, _, t, _, hev, rfl⟩
    · exact h
    · exact h.apply (show CaptureOp.apply T d.processor (.flow flow) = some q from hq)
    · refine hev.processor_keeps (FromNew T W) (fun q ipPrefix k hq => ?_) h
      exact hq.call (.capture (.drain ipPrefix k))
  · cases e with
    | reload parsed =>
      cases hs
      unfold Daemon.reloadConfig
      cases Config.load T parsed with
      | error _ => exact h
      | ok config =>
        simp only
        cases hq : d.processor.reloadConfig T config with
        | error _ => exact h
        | ok q => exact h.reload hq
    | _ => exact absurd trivial he

/-- **In every run of a daemon** its processor is a new one after some calls, so its table is right. -/
theorem daemon_tabled {c : Config} {d : Daemon} (hstart : Daemon.start T (.ok c) = .ok d)
    {orders : ℕ → TickOrders} {events : List Event} {s : Daemon × List (List AlertPayload)}
    (hs : d.run T orders events = some s) :
    FromNew T c.global.window.asSecs s.1.processor ∧ Tabled s.1.processor := by
  obtain ⟨-, p₀, hp₀, rfl⟩ := Daemon.start_ok hstart
  have hnew : FromNew T c.global.window.asSecs (FlowProcessor.new c.global.window.asSecs) := ⟨[], rfl⟩
  have hreached := Daemon.run_keeps (fun d => FromNew T c.global.window.asSecs d.processor)
    (fun _ _ _ _ _ _ h hstep => h.step hstep) (hnew.reload hp₀) hs
  refine ⟨hreached, ?_⟩
  obtain ⟨calls, hcalls⟩ := hreached
  rw [← hcalls]
  exact tabled_reached T _ calls

end FromNew

end NetAlert

import NetAlert.Lib.Fold
import NetAlert.Lib.Inverted
import NetAlert.Lib.Relate
import NetAlert.Processor

/-!
# NetAlert.Routing — the prefix table and what one flow changes

* `TableOk`: the table lists, for every network, the indices of its rules.  `reloadConfig` builds
  it (`reloadConfig_ok`), and under it `matchingRules` returns exactly the rules that hold the
  address (`mem_matchingRules`).
* `processFlow_ok`, `processFlow_spec`: every rule ends as `route` says: changed once, in its own
  direction, or not at all.  On buffers with buckets there is no panic.
* `route_routed`: what `route` does to the buffers and the captured flows of a rule.
-/

namespace NetAlert

/-! ## Rules built from a configuration -/

/-- No (protocol, direction) pair of a rule is listed twice. -/
theorem RuleConfig.nodup_bufferKeys (r : RuleConfig) : r.bufferKeys.Nodup := by
  unfold RuleConfig.bufferKeys
  rw [List.nodup_flatMap]
  refine ⟨?_, ?_⟩
  · rintro ⟨protocol, directions⟩ -
    have h := HashMap.nodup_toPairs directions
    rw [← List.nodup_map_iff (f := fun d : Direction => (⟨protocol, d⟩ : BufferKey))
      (fun a b hab => (BufferKey.mk.injEq .. ▸ hab).2), List.map_map] at h
    exact h
  · have h := HashMap.nodup_toPairs r.thresholds
    rw [List.Nodup, List.pairwise_map] at h
    refine h.imp fun {a b} hab => ?_
    simp only [Function.onFun, List.disjoint_left, List.mem_map]
    rintro k ⟨x, -, rfl⟩ ⟨y, -, hy⟩
    exact hab (BufferKey.mk.injEq .. ▸ hy).1.symm

/-- A collected map with one value for all keys. -/
theorem lookup_ofPairs_const {κ α : Type} [DecidableEq κ] (l : List κ) (v : α) (k : κ) :
    (HashMap.ofPairs (l.map fun x => (x, v))).lookup k = if k ∈ l then some v else none := by
  induction l using List.reverseRecOn with
  | nil => simp [HashMap.ofPairs]
  | append_singleton l x ih =>
    rw [List.map_append, List.map_cons, List.map_nil, HashMap.lookup_ofPairs_concat, ih]
    by_cases hk : k = x <;> simp [hk]

/-- The rule that `fromConfig` builds. -/
structure Built (r : RuleConfig) (W cap : ℕ) (rule : ProcessedRule) : Prop where
  ipPrefix : rule.ipPrefix = r.ipPrefix
  network : rule.network.net = r.ipPrefix
  labels : rule.labels = r.labels
  buffers : ∀ k, rule.buffers.lookup k = if k ∈ r.bufferKeys then some (RingBuffer.new W) else none
  capture : rule.captureBuffer = []
  size : rule.captureBufferSize = cap

theorem fromConfig_ok {T : IpText} {r : RuleConfig} {W cap : ℕ} {rule : ProcessedRule}
    (h : ProcessedRule.fromConfig T r W cap = .ok rule) : Built r W cap rule := by
  unfold ProcessedRule.fromConfig at h
  split at h
  · cases h
  · rename_i network hn
    cases h
    exact ⟨rfl, T.parseNetwork_net.mp hn, rfl, fun k => lookup_ofPairs_const _ _ k, rfl, rfl⟩

/-! ## The prefix table -/

/-- The indices of the rules of a network, in increasing order. -/
def indicesOf (rules : List ProcessedRule) (n : IpNetwork) : List ℕ :=
  (rules.zipIdx.filter fun e => e.1.network = n).map Prod.snd

/-- The table has an entry for every network of a rule, with the indices of its rules. -/
def TableOk (rules : List ProcessedRule) (table : IpNetworkTable (List ℕ)) : Prop :=
  ∀ n, table.lookup n = if indicesOf rules n = [] then none else some (indicesOf rules n)

theorem indicesOf_eq (rules : List ProcessedRule) (n : IpNetwork) :
    indicesOf rules n = Inverted.positions ProcessedRule.network rules n := by
  rw [Inverted.positions, List.findIdxs_eq_filterMap_zipIdx, indicesOf, ← List.filterMap_eq_map,
    List.filterMap_filter]
  apply List.filterMap_congr
  rintro ⟨rule, i⟩ -
  by_cases h : rule.network = n <;> simp [h]

/-- The table is the index of the rules by their networks. -/
theorem tableOk_iff {rules : List ProcessedRule} {table : IpNetworkTable (List ℕ)} :
    TableOk rules table ↔ Inverted.Inverts ProcessedRule.network rules table := by
  simp only [TableOk, Inverted.Inverts, indicesOf_eq]

/-- The table depends on the networks of the rules only. -/
theorem TableOk.congr {rules rules' : List ProcessedRule} {table : IpNetworkTable (List ℕ)}
    (h : TableOk rules table) (hn : rules.map (·.network) = rules'.map (·.network)) :
    TableOk rules' table :=
  tableOk_iff.mpr ((tableOk_iff.mp h).congr hn)

theorem tableOk_empty : TableOk [] ∅ := tableOk_iff.mpr (Inverted.Inverts.empty _)

/-- **Entering a rule** keeps the table right. -/
theorem TableOk.insert {rules : List ProcessedRule} {table : IpNetworkTable (List ℕ)}
    (h : TableOk rules table) (rule : ProcessedRule) :
    TableOk (rules ++ [rule]) (match table.lookup rule.network with
      | some existing => table.insert rule.network (existing ++ [rules.length])
      | none => table.insert rule.network [rules.length]) :=
  tableOk_iff.mpr ((tableOk_iff.mp h).enter rule)

/-- **One rule** is built and entered. -/
theorem addRule_ok {T : IpText} {W cap : ℕ} {rules : List ProcessedRule} {table : IpNetworkTable (List ℕ)}
    {acc : List ProcessedRule × IpNetworkTable (List ℕ)} {r : RuleConfig} (hT : TableOk rules table)
    (h : FlowProcessor.addRule T W cap (rules, table) (r, rules.length) = .ok acc) :
    ∃ rule, Built r W cap rule ∧ acc.1 = rules ++ [rule] ∧ TableOk acc.1 acc.2 := by
  obtain ⟨rule, hrule, h⟩ := Fold.except_bind_ok.mp h
  obtain rfl := Except.ok.inj h
  exact ⟨rule, fromConfig_ok hrule, rfl, hT.insert rule⟩

/-- **A successful reload** builds every rule afresh and a right table. -/
theorem reloadConfig_ok {T : IpText} {p p' : FlowProcessor} {c : Config}
    (h : p.reloadConfig T c = .ok p') :
    List.Forall₂ (fun r rule => Built r (p.reloadWindow c) c.global.captureBufferSize rule)
        c.rules p'.rules ∧
      TableOk p'.rules p'.prefixTable ∧ p'.windowSecs = p.reloadWindow c := by
  obtain ⟨acc, hf, h⟩ := Fold.except_bind_ok.mp h
  obtain rfl := Except.ok.inj h
  have hinv := Fold.except_ok
    (I := fun pre acc => List.Forall₂ (fun r rule =>
      Built r (p.reloadWindow c) c.global.captureBufferSize rule) (pre.map Prod.fst) acc.1 ∧
        TableOk acc.1 acc.2) ?_ ⟨List.Forall₂.nil, tableOk_empty⟩ hf
  · rw [List.zipIdx_map_fst] at hinv
    exact ⟨hinv.1, hinv.2, rfl⟩
  · rintro pre ⟨r, i⟩ ⟨rules, table⟩ acc' hpre ⟨hF, hT⟩ hs
    -- the loop index is the number of rules built so far
    have hi : i = rules.length := by
      obtain ⟨rest, hrest⟩ := hpre
      have hget : c.rules.zipIdx[pre.length]? = some (r, i) := by
        rw [← hrest]
        simp
      rw [List.getElem?_zipIdx] at hget
      obtain ⟨x, -, hx⟩ := Option.map_eq_some_iff.mp hget
      have hindex := (Prod.mk.inj hx).2
      rw [← hF.length_eq, List.length_map]
      omega
    subst hi
    obtain ⟨rule, hb, hacc, hT'⟩ := addRule_ok hT hs
    refine ⟨?_, hT'⟩
    rw [hacc, List.map_append]
    exact List.rel_append hF (List.Forall₂.cons hb .nil)

/-- The buffers that a load builds hold nothing and have the size of the window. -/
theorem loaded_buffer {T : IpText} {c : Config} {p₀ p : FlowProcessor} (h : p₀.reloadConfig T c = .ok p)
    {rule : ProcessedRule} (hr : rule ∈ p.rules) {k : BufferKey} {b : RingBuffer}
    (hb : rule.buffers.lookup k = some b) : b = RingBuffer.new p.windowSecs := by
  obtain ⟨hF, -, hw⟩ := reloadConfig_ok h
  obtain ⟨r, -, hbuilt⟩ := Relate.forall₂_left_of_mem hF hr
  rw [hbuilt.buffers] at hb
  split_ifs at hb
  rw [hw]
  exact (Option.some.inj hb).symm

/-- A reload whose prefixes have no host bits succeeds. -/
theorem reloadConfig_total (T : IpText) (p : FlowProcessor) {c : Config}
    (hc : ∀ r ∈ c.rules, r.ipPrefix.trunc = r.ipPrefix) : ∃ p', p.reloadConfig T c = .ok p' := by
  have hloop := Fold.except_total
    (f := FlowProcessor.addRule T (p.reloadWindow c) c.global.captureBufferSize)
    (l := c.rules.zipIdx) ?_ ([], ∅)
  · obtain ⟨acc, hacc⟩ := hloop
    exact ⟨_, by unfold FlowProcessor.reloadConfig; simp only; rw [hacc]; rfl⟩
  · rintro acc ⟨r, i⟩ hri
    have hr : r ∈ c.rules := List.fst_mem_of_mem_zipIdx hri
    have hn : T.parseNetwork (T.net r.ipPrefix) = .ok ⟨r.ipPrefix, hc r hr⟩ := T.parseNetwork_net.mpr rfl
    exact ⟨_, by simp only [FlowProcessor.addRule, ProcessedRule.fromConfig, hn]; rfl⟩

/-- **Lookup**: the indices of the rules that hold the address. -/
theorem mem_matchingRules {p : FlowProcessor} (hT : TableOk p.rules p.prefixTable) {ip : IpAddr} {i : ℕ} :
    i ∈ p.matchingRules ip ↔ ∃ rule, p.rules[i]? = some rule ∧ rule.network.contains ip = true :=
  (tableOk_iff.mp hT).mem_gather fun n => n.contains ip

theorem nodup_matchingRules {p : FlowProcessor} (hT : TableOk p.rules p.prefixTable) (ip : IpAddr) :
    (p.matchingRules ip).Nodup :=
  (tableOk_iff.mp hT).nodup_gather fun n => n.contains ip

/-! ## Directions and updates -/

/-- The direction of a flow for a prefix that holds exactly one of its addresses. -/
def FlowRecord.directionFor (f : FlowRecord) (inPrefix : IpAddr → Bool) : Option Direction :=
  match inPrefix f.srcIp, inPrefix f.dstIp with
  | false, true => some .inbound
  | true, false => some .outbound
  | _, _ => none

/-- What a flow does to a rule. -/
def ProcessedRule.route (rule : ProcessedRule) (flow : FlowRecord) : Option ProcessedRule :=
  match flow.directionFor rule.network.contains with
  | some direction => rule.distribute flow direction
  | none => some rule

/-- **The updates of a flow** are the rules it has a direction for, with that direction. -/
theorem mem_updates {p : FlowProcessor} (hT : TableOk p.rules p.prefixTable) {flow : FlowRecord} {i : ℕ}
    {d : Direction} : (i, d) ∈ p.updates flow ↔
      ∃ rule, p.rules[i]? = some rule ∧ flow.directionFor rule.network.contains = some d := by
  have hmem : ∀ {rule ip}, p.rules[i]? = some rule →
      (i ∈ p.matchingRules ip ↔ rule.network.contains ip = true) := fun {rule ip} hr => by
    rw [mem_matchingRules hT]
    exact ⟨fun ⟨r, h1, h2⟩ => by rw [hr] at h1; cases h1; exact h2, fun h => ⟨rule, hr, h⟩⟩
  simp only [FlowProcessor.updates, List.mem_append, List.mem_map, List.mem_filter, Prod.mk.injEq,
    Bool.not_eq_true', List.contains_eq_mem, decide_eq_false_iff_not]
  constructor
  · rintro (⟨j, ⟨h1, h2⟩, rfl, rfl⟩ | ⟨j, ⟨h1, h2⟩, rfl, rfl⟩)
    all_goals
      obtain ⟨rule, hr, hc⟩ := (mem_matchingRules hT).mp h1
      rw [hmem hr, Bool.not_eq_true] at h2
      exact ⟨rule, hr, by simp [FlowRecord.directionFor, hc, h2]⟩
  · rintro ⟨rule, hr, hd⟩
    unfold FlowRecord.directionFor at hd
    split at hd
    · rename_i hs ht
      cases hd
      exact .inl ⟨i, ⟨(hmem hr).mpr ht, fun h => by rw [hmem hr, hs] at h; cases h⟩, rfl, rfl⟩
    · rename_i hs ht
      cases hd
      exact .inr ⟨i, ⟨(hmem hr).mpr hs, fun h => by rw [hmem hr, ht] at h; cases h⟩, rfl, rfl⟩
    · cases hd

/-- No rule is updated twice by one flow. -/
theorem nodup_updates {p : FlowProcessor} (hT : TableOk p.rules p.prefixTable) (flow : FlowRecord) :
    ((p.updates flow).map Prod.fst).Nodup := by
  simp only [FlowProcessor.updates, List.map_append, List.map_map, Function.comp_def, List.map_id']
  rw [List.nodup_append]
  refine ⟨(nodup_matchingRules hT _).filter _, (nodup_matchingRules hT _).filter _, ?_⟩
  intro i hi j hj hij
  subst hij
  have h1 := (List.mem_filter.mp hi).2
  have h2 := (List.mem_filter.mp hj).1
  simp only [Bool.not_eq_true', List.contains_eq_mem, decide_eq_false_iff_not] at h1
  exact h1 h2

/-- What an update leaves alone. -/
structure Frame (rule rule' : ProcessedRule) : Prop where
  ipPrefix : rule'.ipPrefix = rule.ipPrefix
  network : rule'.network = rule.network
  labels : rule'.labels = rule.labels
  size : rule'.captureBufferSize = rule.captureBufferSize

theorem route_frame {rule rule' : ProcessedRule} {flow : FlowRecord} (h : rule.route flow = some rule') :
    Frame rule rule' := by
  unfold ProcessedRule.route at h
  split at h
  · unfold ProcessedRule.distribute at h
    split_ifs at h
    · obtain ⟨m, -, hm⟩ := Option.bind_eq_some_iff.mp h
      cases hm
      exact ⟨rfl, rfl, rfl, rfl⟩
    · cases h
      exact ⟨rfl, rfl, rfl, rfl⟩
  · cases h
    exact ⟨rfl, rfl, rfl, rfl⟩

/-- After the updates `us`, the rules they name are routed and the others are as before. -/
structure Updated (flow : FlowRecord) (p : FlowProcessor) (us : List (ℕ × Direction)) (q : FlowProcessor) :
    Prop where
  prefixTable : q.prefixTable = p.prefixTable
  windowSecs : q.windowSecs = p.windowSecs
  length : q.rules.length = p.rules.length
  rules : ∀ i rule, p.rules[i]? = some rule →
    q.rules[i]? = if i ∈ us.map Prod.fst then rule.route flow else some rule

section Updated

variable {flow : FlowRecord} {p q : FlowProcessor}

theorem Updated.start : Updated flow p [] p := ⟨rfl, rfl, rfl, fun i rule hr => by simpa using hr⟩

/-- **One update** routes the rule it names. -/
theorem Updated.step (hT : TableOk p.rules p.prefixTable) {us : List (ℕ × Direction)} {i : ℕ} {d : Direction}
    (hpre : us ++ [(i, d)] <+: p.updates flow) (h : Updated flow p us q) : ∃ rule ∈ p.rules,
      q.applyUpdate flow (i, d) =
        (rule.route flow).map (fun rule' => { q with rules := q.rules.set i rule' }) ∧
      ∀ rule', rule.route flow = some rule' →
        Updated flow p (us ++ [(i, d)]) { q with rules := q.rules.set i rule' } := by
  obtain ⟨rest, hrest⟩ := hpre
  have hmem : (i, d) ∈ p.updates flow := by rw [← hrest]; simp
  obtain ⟨rule, hr, hd⟩ := (mem_updates hT).mp hmem
  have hnot : i ∉ us.map Prod.fst := by
    have hnd := nodup_updates hT flow
    rw [← hrest, List.map_append, List.nodup_append] at hnd
    have hnd' := hnd.1
    rw [List.map_append, List.nodup_append] at hnd'
    intro hi
    exact hnd'.2.2 i hi i (by simp) rfl
  have hqi := h.rules i rule hr
  rw [if_neg hnot] at hqi
  have hroute : rule.route flow = rule.distribute flow d := by simp [ProcessedRule.route, hd]
  refine ⟨rule, List.mem_of_getElem? hr, ?_, ?_⟩
  · rw [hroute]
    simp only [FlowProcessor.applyUpdate, hqi, Option.bind_eq_bind, Option.bind_some]
    exact Option.map_eq_bind.symm
  · intro rule' hrule'
    have hilt : i < q.rules.length := (List.getElem?_eq_some_iff.mp hqi).1
    refine ⟨h.prefixTable, h.windowSecs, by simpa using h.length, ?_⟩
    intro j rj hj
    by_cases hij : i = j
    · subst hij
      rw [hr] at hj
      obtain rfl := Option.some.inj hj
      simp [hilt, hrule']
    · have hj' := h.rules j rj hj
      have hiff : j ∈ (us ++ [(i, d)]).map Prod.fst ↔ j ∈ us.map Prod.fst := by
        simp [Ne.symm hij]
      rw [List.getElem?_set_ne hij, hj']
      simp only [hiff]

/-- After all updates every rule is routed. -/
theorem Updated.routed (hT : TableOk p.rules p.prefixTable) (h : Updated flow p (p.updates flow) q) :
    List.Forall₂ (fun rule rule' => rule.route flow = some rule') p.rules q.rules := by
  rw [List.forall₂_iff_get]
  refine ⟨h.length.symm, fun i hi hi' => ?_⟩
  have hr : p.rules[i]? = some p.rules[i] := List.getElem?_eq_getElem hi
  have hq := h.rules i _ hr
  rw [List.getElem?_eq_getElem hi'] at hq
  simp only [List.get_eq_getElem]
  split_ifs at hq with hu
  · exact hq.symm
  · have hnone : flow.directionFor p.rules[i].network.contains = none := by
      cases hd : flow.directionFor p.rules[i].network.contains with
      | none => rfl
      | some d => exact absurd (List.mem_map.mpr ⟨(i, d), (mem_updates hT).mpr ⟨_, hr, hd⟩, rfl⟩) hu
    rw [Option.some.inj hq]
    simp [ProcessedRule.route, hnone]

/-- Routed rules have the networks they had. -/
theorem TableOk.routed (hT : TableOk p.rules p.prefixTable)
    (h : List.Forall₂ (fun rule rule' => ProcessedRule.route rule flow = some rule') p.rules q.rules)
    (ht : q.prefixTable = p.prefixTable) : TableOk q.rules q.prefixTable := by
  rw [ht]
  exact hT.congr (Relate.forall₂_map_eq (f := (·.network)) (g := (·.network))
    (fun _ _ hr => (route_frame hr).network.symm) h)

/-- **A flow that is processed** routes every rule exactly once. -/
theorem processFlow_ok (hT : TableOk p.rules p.prefixTable) (h : p.processFlow flow = some q) :
    TableOk q.rules q.prefixTable ∧ q.windowSecs = p.windowSecs ∧
      List.Forall₂ (fun rule rule' => rule.route flow = some rule') p.rules q.rules := by
  have hU : Updated flow p (p.updates flow) q := by
    refine Fold.option_ok_prefix (Updated flow p) ?_ .start h
    rintro pre ⟨i, d⟩ q q' hpre hq hs
    obtain ⟨rule, -, happly, hnext⟩ := hq.step hT hpre
    rw [happly] at hs
    obtain ⟨rule', hrule', rfl⟩ := Option.map_eq_some_iff.mp hs
    exact hnext rule' hrule'
  exact ⟨hT.routed (hU.routed hT) hU.prefixTable, hU.windowSecs, hU.routed hT⟩

end Updated

/-- **One flow.**  If the updated rules can count the flow, it is processed without a panic, and
every rule is routed exactly once. -/
theorem processFlow_spec {p : FlowProcessor} (hT : TableOk p.rules p.prefixTable) {flow : FlowRecord}
    (hok : ∀ rule ∈ p.rules, ∃ rule', rule.route flow = some rule') :
    ∃ p', p.processFlow flow = some p' ∧ TableOk p'.rules p'.prefixTable ∧ p'.windowSecs = p.windowSecs ∧
      List.Forall₂ (fun rule rule' => rule.route flow = some rule') p.rules p'.rules := by
  obtain ⟨p', hp', -⟩ := Fold.option_total (f := FlowProcessor.applyUpdate flow) (Updated flow p)
    (l := p.updates flow) (fun pre ⟨i, d⟩ q hpre hq => by
      obtain ⟨rule, hmem, happly, hnext⟩ := hq.step hT hpre
      obtain ⟨rule', hrule'⟩ := hok rule hmem
      exact ⟨_, by rw [happly, hrule']; rfl, hnext rule' hrule'⟩) .start
  exact ⟨p', hp', processFlow_ok hT hp'⟩

/-! ## What one update counts -/

/-- The buffers of a rule have buckets. -/
def ProcessedRule.Live (rule : ProcessedRule) : Prop :=
  ∀ k b, rule.buffers.lookup k = some b → 0 < b.buckets.length

/-- The flow is added to the buffer if it has the key's direction and category. -/
def addIf (flow : FlowRecord) (hit : Prop) [Decidable hit] (b : Option RingBuffer) : Option RingBuffer :=
  if hit then b.bind fun b => b.addInstantFlow flow.timeReceived flow.sampledBytes flow.sampledPackets
  else b

/-- The flow has been counted for the categories `cats`. -/
def Counted (flow : FlowRecord) (d : Direction) (cats : List ProtocolCategory)
    (m m' : HashMap BufferKey RingBuffer) : Prop :=
  ∀ k, m'.lookup k = addIf flow (k.direction = d ∧ k.protocol ∈ cats) (m.lookup k)

section Counted

variable {flow : FlowRecord} {d : Direction} {cats : List ProtocolCategory} {c : ProtocolCategory}
  {m m' : HashMap BufferKey RingBuffer}

theorem Counted.start : Counted flow d [] m m := fun k => by simp [addIf]

/-- A category that has not been counted yet finds the buffer as it was. -/
theorem Counted.lookup_new (h : Counted flow d cats m m') (hc : c ∉ cats) :
    m'.lookup ⟨c, d⟩ = m.lookup ⟨c, d⟩ := by
  rw [h ⟨c, d⟩]
  simp [addIf, hc]

/-- **One category.** -/
theorem Counted.step (h : Counted flow d cats m m') (hc : c ∉ cats) {m'' : HashMap BufferKey RingBuffer}
    (hs : ProcessedRule.count flow d m' c = some m'') : Counted flow d (cats ++ [c]) m m'' := by
  have hkey : ∀ k : BufferKey, k ≠ ⟨c, d⟩ →
      ((k.direction = d ∧ k.protocol ∈ cats ++ [c]) ↔ (k.direction = d ∧ k.protocol ∈ cats)) := by
    rintro ⟨c', d'⟩ hk
    simp only [List.mem_append, List.mem_singleton, and_or_left, or_iff_left_iff_imp]
    rintro ⟨rfl, rfl⟩
    exact absurd rfl hk
  have hnew := h.lookup_new hc
  unfold ProcessedRule.count at hs
  split at hs
  · rename_i hm
    obtain rfl := Option.some.inj hs
    intro k
    by_cases hk : k = ⟨c, d⟩
    · subst hk
      rw [hm, ← hnew, hm]
      simp [addIf]
    · rw [h k]
      simp only [addIf, hkey k hk]
  · rename_i b hm
    obtain ⟨b', hb', hins⟩ := Option.bind_eq_some_iff.mp hs
    obtain rfl := Option.some.inj hins
    intro k
    rw [HashMap.lookup_insert']
    by_cases hk : k = ⟨c, d⟩
    · subst hk
      simp [addIf, ← hnew, hm, hb']
    · rw [if_neg hk, h k]
      simp only [addIf, hkey k hk]

end Counted

theorem FlowRecord.nodup_categories (flow : FlowRecord) : flow.categories.Nodup :=
  ProtocolCategory.nodup_classify _ _ _

/-- The category after a part of a list without repetitions is not in that part. -/
theorem notMem_before {α : Type} {l pre : List α} {x : α} (hl : l.Nodup) (h : pre ++ [x] <+: l) : x ∉ pre := by
  have hnd := hl.sublist h.sublist
  rw [List.nodup_append] at hnd
  intro hx
  exact hnd.2.2 x hx x (by simp) rfl

/-- No buffer has the direction, so nothing is added to any. -/
theorem lookup_of_not_any {m : HashMap BufferKey RingBuffer} {d : Direction}
    (hany : ¬ m.keys.any (fun k => k.direction = d) = true) {k : BufferKey} (hk : k.direction = d) :
    m.lookup k = none := by
  rw [AList.lookup_eq_none, AList.mem_keys]
  intro hmem
  exact hany (List.any_eq_true.mpr ⟨k, hmem, by simpa using hk⟩)

/-- **An update**: every buffer of the direction and of a category of the flow counts it once. -/
theorem distribute_ok {rule rule' : ProcessedRule} {flow : FlowRecord} {d : Direction}
    (h : rule.distribute flow d = some rule') : ∀ k, rule'.buffers.lookup k =
      addIf flow (k.direction = d ∧ k.protocol ∈ flow.categories) (rule.buffers.lookup k) := by
  unfold ProcessedRule.distribute at h
  split_ifs at h with hany
  · obtain ⟨m, hm, heq⟩ := Option.bind_eq_some_iff.mp h
    obtain rfl := Option.some.inj heq
    exact Fold.option_ok_prefix (fun cats m => Counted flow d cats rule.buffers m)
      (fun _ _ _ _ hpre hI hs => hI.step (notMem_before flow.nodup_categories hpre) hs) .start hm
  · obtain rfl := Option.some.inj h
    intro k
    unfold addIf
    split_ifs with hk
    · rw [lookup_of_not_any hany hk.1]
      rfl
    · rfl

/-- On buffers with buckets there is no panic. -/
theorem distribute_spec {rule : ProcessedRule} (hL : rule.Live) (flow : FlowRecord) (d : Direction) :
    ∃ rule', rule.distribute flow d = some rule' ∧ ∀ k, rule'.buffers.lookup k =
      addIf flow (k.direction = d ∧ k.protocol ∈ flow.categories) (rule.buffers.lookup k) := by
  have htotal : ∃ rule', rule.distribute flow d = some rule' := by
    unfold ProcessedRule.distribute
    split_ifs
    · obtain ⟨m, hm, -⟩ := Fold.option_total (f := ProcessedRule.count flow d) (l := flow.categories)
        (fun cats m => Counted flow d cats rule.buffers m) (fun cats c m hpre hm => by
          have hc := notMem_before flow.nodup_categories hpre
          have hs : ∃ m', ProcessedRule.count flow d m c = some m' := by
            unfold ProcessedRule.count
            rw [hm.lookup_new hc]
            cases hb : rule.buffers.lookup ⟨c, d⟩ with
            | none => exact ⟨m, rfl⟩
            | some b =>
              obtain ⟨b', hb', -, -⟩ := b.toRing_addInstantFlow (hL _ b hb) flow.timeReceived
                flow.sampledBytes flow.sampledPackets
              exact ⟨m.insert ⟨c, d⟩ b', by simp [hb']⟩
          obtain ⟨m', hm'⟩ := hs
          exact ⟨m', hm', hm.step hc hm'⟩) .start
      exact ⟨_, by rw [hm]; rfl⟩
    · exact ⟨rule, rfl⟩
  obtain ⟨rule', h⟩ := htotal
  exact ⟨rule', h, distribute_ok h⟩

/-! ## What routing does -/

/-- The flow counts towards the buffer of a rule: it has the buffer's direction and category. -/
def ProcessedRule.Hit (rule : ProcessedRule) (flow : FlowRecord) (k : BufferKey) : Prop :=
  flow.directionFor rule.network.contains = some k.direction ∧ k.protocol ∈ flow.categories

instance (rule : ProcessedRule) (flow : FlowRecord) : DecidablePred (rule.Hit flow) :=
  fun _ => inferInstanceAs (Decidable (_ ∧ _))

/-- The rule has a buffer in the direction. -/
def ProcessedRule.Watches (rule : ProcessedRule) (d : Direction) : Prop :=
  ∃ k b, k.direction = d ∧ rule.buffers.lookup k = some b

theorem any_keys_iff {rule : ProcessedRule} {d : Direction} :
    rule.buffers.keys.any (fun k => k.direction = d) = true ↔ rule.Watches d := by
  simp only [List.any_eq_true, decide_eq_true_eq, ProcessedRule.Watches]
  constructor
  · rintro ⟨k, hk, hd⟩
    obtain ⟨b, hb⟩ := Option.isSome_iff_exists.mp (AList.lookup_isSome.mpr (AList.mem_keys.mpr hk))
    exact ⟨k, b, hd, hb⟩
  · rintro ⟨k, b, hd, hb⟩
    exact ⟨k, AList.mem_keys.mp (AList.lookup_isSome.mp (by rw [hb]; rfl)), hd⟩

/-- **Routing** a flow to a rule: the buffers that it hits count it, and a rule that watches its direction
captures it. -/
structure Routed (flow : FlowRecord) (rule rule' : ProcessedRule) : Prop where
  frame : Frame rule rule'
  buffers : ∀ k, rule'.buffers.lookup k = addIf flow (rule.Hit flow k) (rule.buffers.lookup k)
  captured : ∀ d, flow.directionFor rule.network.contains = some d → rule.Watches d →
    rule'.captureBuffer = rule.capture flow d
  ignored : (∀ d, flow.directionFor rule.network.contains = some d → ¬ rule.Watches d) →
    rule'.captureBuffer = rule.captureBuffer

theorem route_routed {rule rule' : ProcessedRule} {flow : FlowRecord} (h : rule.route flow = some rule') :
    Routed flow rule rule' := by
  have hframe := route_frame h
  unfold ProcessedRule.route at h
  cases hd : flow.directionFor rule.network.contains with
  | none =>
    rw [hd] at h
    obtain rfl := Option.some.inj h
    refine ⟨hframe, fun k => ?_, fun d h' => ?_, fun _ => rfl⟩
    · simp [addIf, ProcessedRule.Hit, hd]
    · rw [hd] at h'
      cases h'
  | some d =>
    rw [hd] at h
    replace h : rule.distribute flow d = some rule' := h
    have hbuffers : ∀ k, rule'.buffers.lookup k = addIf flow (rule.Hit flow k) (rule.buffers.lookup k) := by
      intro k
      have hk := distribute_ok h k
      simpa only [ProcessedRule.Hit, hd, Option.some.injEq, eq_comm (a := d)] using hk
    unfold ProcessedRule.distribute at h
    split_ifs at h with hany
    · obtain ⟨m, -, heq⟩ := Option.bind_eq_some_iff.mp h
      obtain rfl := Option.some.inj heq
      refine ⟨hframe, hbuffers, fun d' h' _ => ?_, fun h' => ?_⟩
      · rw [hd] at h'
        obtain rfl := Option.some.inj h'
        rfl
      · exact absurd (any_keys_iff.mp hany) (h' d hd)
    · obtain rfl := Option.some.inj h
      refine ⟨hframe, hbuffers, fun d' h' hw => ?_, fun _ => rfl⟩
      rw [hd] at h'
      obtain rfl := Option.some.inj h'
      exact absurd (any_keys_iff.mpr hw) hany

end NetAlert

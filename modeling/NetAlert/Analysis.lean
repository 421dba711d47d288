import NetAlert.FlowSpec

/-!
# NetAlert.Analysis — what the analysis suggests

* `step_eq_some`, `step_eq_none`: one round of the loop.
* `run_rules`, `run_covers`: what all rules have, and which flows they account for.
* `analyzeFlows_eq_nil`: the inputs for which nothing is suggested.
-/

namespace NetAlert

theorem totalBytes_le_of_filter {p q : FlowRecord → Bool} {l : List FlowRecord}
    (h : ∀ f ∈ l, p f = true → q f = true) : totalBytes (l.filter p) ≤ totalBytes (l.filter q) := by
  induction l with
  | nil => exact le_rfl
  | cons f l ih =>
    have ih := ih fun g hg => h g (List.mem_cons_of_mem _ hg)
    have hf := h f List.mem_cons_self
    simp only [totalBytes] at ih ⊢
    cases hp : p f <;> cases hq : q f <;> simp_all
    omega

theorem totalBytes_filter_not (p : FlowRecord → Bool) (l : List FlowRecord) :
    totalBytes (l.filter p) + totalBytes (l.filter fun f => !p f) = totalBytes l := by
  induction l with
  | nil => rfl
  | cons f l ih =>
    simp only [totalBytes] at ih ⊢
    cases hp : p f <;> simp [hp] <;> omega

/-- The category filter keeps flows of the category. -/
theorem mem_filterFlows {flows : List FlowRecord} {filter : ProtocolCategory} {f : FlowRecord} :
    f ∈ filterFlows flows filter ↔ f ∈ flows ∧ (filter = .any ∨ filter ∈ f.categories) := by
  unfold filterFlows
  split_ifs with h
  · simp [h]
  · simp [h]

namespace AnalysisInput

variable {T : IpText} {ord : ℕ → HashOrder} {a : AnalysisInput} {total : ℕ} {s s' : Analysis}

/-! ## One round -/

/-- The rule that a round with candidate `c` adds. -/
def ruleOf (T : IpText) (ord : ℕ → HashOrder) (a : AnalysisInput) (s : Analysis) (c : Candidate) :
    MitigationRule :=
  buildRule T a.destPrefix a.direction a.protocolFilter c
    (computeDestinationPrefix (ord s.rules.length) s.remaining a.direction a.destPrefix dominantShare)

/-- **A round** removes the flows of its candidate and adds its rule. -/
theorem step_eq_some : a.step T ord total s = some s' ↔
    s.remaining ≠ [] ∧ a.belowThreshold total s.remaining = false ∧
      ∃ c, a.chooseCandidate ord s = some c ∧
        s' = ⟨s.remaining.filter fun f => !c.matching f, s.rules ++ [ruleOf T ord a s c]⟩ := by
  unfold step
  split_ifs with h1 h2
  · simp [List.isEmpty_iff.mp h1]
  · simp [h2]
  · have hne : s.remaining ≠ [] := fun h => h1 (by rw [h]; rfl)
    cases hc : a.chooseCandidate ord s with
    | none => simp
    | some c => simp [hne, h2, ruleOf, eq_comm]

/-- **The loop breaks** if nothing remains, if the estimate is low or if there is no candidate. -/
theorem step_eq_none (T : IpText) (ord : ℕ → HashOrder) (a : AnalysisInput) (total : ℕ) (s : Analysis) :
    a.step T ord total s = none ↔
      s.remaining = [] ∨ a.belowThreshold total s.remaining = true ∨ a.chooseCandidate ord s = none := by
  cases h : a.step T ord total s with
  | some s' =>
    rw [step_eq_some] at h
    obtain ⟨h1, h2, c, h3, -⟩ := h
    simp [h1, h2, h3]
  | none =>
    simp only [true_iff]
    by_contra hno
    push Not at hno
    obtain ⟨h1, h2, h3⟩ := hno
    obtain ⟨c, hc⟩ := Option.ne_none_iff_exists'.mp h3
    rw [step_eq_some.mpr ⟨h1, by simpa using h2, c, hc, rfl⟩] at h
    cases h

/-- **The candidate of a round** matches some remaining flow. -/
theorem chooseCandidate_matches {c : Candidate} (hne : s.remaining ≠ []) (h : a.chooseCandidate ord s = some c) :
    ∃ f ∈ s.remaining, c.matching f = true := by
  unfold chooseCandidate at h
  split at h
  · rename_i c' hbest
    cases h
    obtain ⟨fields, key, rfl, -, ⟨f, hf, hkey⟩, -⟩ := findBestCandidate_some hbest
    exact ⟨f, hf, matching_ofKey hkey⟩
  · split_ifs at h
    cases h
    obtain ⟨f, hf⟩ := List.exists_mem_of_ne_nil _ hne
    exact ⟨f, hf, rfl⟩

/-! ## The loop -/

/-- **What all rules have.**  The flows that remain in a round are among the filtered ones. -/
theorem run_rules {filtered : List FlowRecord} {P : MitigationRule → Prop}
    (hP : ∀ s c, (∀ f ∈ s.remaining, f ∈ filtered) → s.remaining ≠ [] → a.chooseCandidate ord s = some c →
      P (ruleOf T ord a s c)) : ∀ rule ∈ (a.run T ord filtered).rules, P rule := by
  refine (Loop.run_invariant (fun s : Analysis => (∀ f ∈ s.remaining, f ∈ filtered) ∧ ∀ rule ∈ s.rules, P rule)
    ?_ _ ⟨fun f hf => hf, by simp⟩).2
  rintro s s' ⟨hsub, hrules⟩ hs
  rw [step_eq_some] at hs
  obtain ⟨hne, -, c, hc, rfl⟩ := hs
  refine ⟨fun f hf => hsub f (List.mem_of_mem_filter hf), fun rule hrule => ?_⟩
  rcases List.mem_append.mp hrule with hrule | hrule
  · exact hrules rule hrule
  · rw [List.mem_singleton.mp hrule]
    exact hP s c hsub hne hc

/-- **What remains** is what some predicate lets through, and an inbound rule matches every other filtered
flow, destination aside. -/
theorem run_covers (T : IpText) (ord : ℕ → HashOrder) {filtered : List FlowRecord} (hd : a.direction = .inbound)
    (hcat : ∀ f ∈ filtered, a.protocolFilter = .any ∨ a.protocolFilter ∈ f.categories) :
    ∃ p : FlowRecord → Bool, (a.run T ord filtered).remaining = filtered.filter p ∧
      ∀ f ∈ filtered, p f = false → ∃ rule ∈ (a.run T ord filtered).rules, rule.aside T f = true := by
  refine Loop.run_invariant (fun s : Analysis => ∃ p : FlowRecord → Bool, s.remaining = filtered.filter p ∧
    ∀ f ∈ filtered, p f = false → ∃ rule ∈ s.rules, rule.aside T f = true) ?_ _
    ⟨fun _ => true, by simp, by simp⟩
  rintro s s' ⟨p, hrem, hI⟩ hs
  rw [step_eq_some] at hs
  obtain ⟨-, -, c, -, rfl⟩ := hs
  refine ⟨fun f => p f && !c.matching f, by rw [hrem, List.filter_filter]; simp [Bool.and_comm],
    fun f hf hp => ?_⟩
  by_cases hm : c.matching f = true
  · refine ⟨_, List.mem_append_right _ List.mem_cons_self, ?_⟩
    rw [ruleOf, hd]
    exact buildRule_aside hm (hcat f hf)
  · obtain ⟨rule, hrule, haside⟩ := hI f hf (by simpa [hm] using hp)
    exact ⟨rule, List.mem_append_left _ hrule, haside⟩

end AnalysisInput

/-! ## Inputs without suggestions -/

section AnalyzeFlows

variable {T : IpText} {ord : ℕ → HashOrder} {flows : List FlowRecord} {destPrefix : IpNet}
  {direction : Direction} {filter : ProtocolCategory} {rate : ℚ} {threshold : F64}

/-- No flow is in the category; or the rate is below a positive threshold; or the category pins nothing
and no group of flows carries a tenth of the bytes. -/
def Unanswered (flows : List FlowRecord) (filter : ProtocolCategory) (rate : ℚ) (threshold : F64) : Prop :=
  filterFlows flows filter = [] ∨
    (0 < totalBytes (filterFlows flows filter) ∧ F64.lt (.num 0) threshold = true ∧
      F64.lt (.num rate) threshold = true) ∨
    (filter = .any ∧ (totalBytes flows = 0 ∨ ∀ fields key, ¬ Eligible flows minCoverageRatio 0 fields key))

/-- Every category but `any` pins a protocol or a port. -/
theorem forcedFields_isSome :
    ((forcedFields filter).1.isSome ∨ (forcedFields filter).2.isSome) ↔ filter ≠ .any := by
  cases filter <;> decide

/-- The first round finds no candidate iff the category pins nothing and no group covers enough. -/
theorem chooseCandidate_first {a : AnalysisInput} {filtered : List FlowRecord} :
    a.chooseCandidate ord ⟨filtered, []⟩ = none ↔ a.protocolFilter = .any ∧
      (totalBytes filtered = 0 ∨ ∀ fields key, ¬ Eligible filtered minCoverageRatio 0 fields key) := by
  unfold AnalysisInput.chooseCandidate
  simp only [List.isEmpty_nil, true_and, forcedFields_isSome]
  by_cases hany : a.protocolFilter = .any
  · have hex : excludeFields a.protocolFilter = 0 := by rw [hany]; rfl
    rw [← findBestCandidate_eq_none (ord 0), hex]
    cases findBestCandidate (ord 0) filtered minCoverageRatio 0 <;> simp [hany]
  · cases findBestCandidate (ord [].length) filtered minCoverageRatio (excludeFields a.protocolFilter) <;>
      simp [hany]

/-- A first round adds a rule, and rules are never dropped. -/
theorem AnalysisInput.run_rules_ne_nil {a : AnalysisInput} {filtered : List FlowRecord} {s : Analysis}
    (hs : a.step T ord (totalBytes filtered) ⟨filtered, []⟩ = some s) : (a.run T ord filtered).rules ≠ [] := by
  intro hnil
  have hlen := Loop.le_run (a.step T ord (totalBytes filtered)) (fun s => s.rules.length) (fun s s' h => by
      obtain ⟨-, -, c, -, rfl⟩ := AnalysisInput.step_eq_some.mp h
      simp) 9 s
  rw [AnalysisInput.run, maxRules, Loop.run_of_some hs] at hnil
  obtain ⟨-, -, c, -, rfl⟩ := AnalysisInput.step_eq_some.mp hs
  rw [hnil] at hlen
  simp at hlen

/-- **Nothing is suggested** exactly for these inputs. -/
theorem analyzeFlows_eq_nil (T : IpText) (ord : ℕ → HashOrder) (destPrefix : IpNet) (direction : Direction) :
    analyzeFlows T ord flows destPrefix direction filter rate threshold = [] ↔
    Unanswered flows filter rate threshold := by
  unfold analyzeFlows
  simp only
  split_ifs with h1 h2
  · obtain rfl := List.isEmpty_iff.mp h1
    refine iff_of_true rfl (.inl ?_)
    cases filter <;> rfl
  · exact iff_of_true rfl (.inl (List.isEmpty_iff.mp h2))
  have hne : filterFlows flows filter ≠ [] := fun h => h2 (by rw [h]; rfl)
  generalize ha : (⟨destPrefix, direction, filter, rate, threshold⟩ : AnalysisInput) = a
  have hbelow : a.belowThreshold (totalBytes (filterFlows flows filter)) (filterFlows flows filter) = true ↔
      0 < totalBytes (filterFlows flows filter) ∧ F64.lt (.num 0) threshold = true ∧
        F64.lt (.num rate) threshold = true := by
    subst ha
    simp only [AnalysisInput.belowThreshold, Bool.and_eq_true, decide_eq_true_eq, and_assoc]
    refine and_congr_right fun hpos => ?_
    rw [div_self (by exact_mod_cast hpos.ne'), mul_one]
  have hstep := a.step_eq_none T ord (totalBytes (filterFlows flows filter)) ⟨filterFlows flows filter, []⟩
  rw [hbelow, chooseCandidate_first, ← ha] at hstep
  simp only [hne, false_or, ha] at hstep
  have hany : filter = .any → filterFlows flows filter = flows := fun h => if_pos h
  have hU : Unanswered flows filter rate threshold ↔
      a.step T ord (totalBytes (filterFlows flows filter)) ⟨filterFlows flows filter, []⟩ = none := by
    rw [hstep, Unanswered]
    simp only [hne, false_or]
    refine or_congr_right (and_congr_right fun h => ?_)
    rw [hany h]
  rw [hU]
  cases hs : a.step T ord (totalBytes (filterFlows flows filter)) ⟨filterFlows flows filter, []⟩ with
  | none => simp [AnalysisInput.run, Loop.run_of_none hs]
  | some s' =>
    exact iff_of_false (AnalysisInput.run_rules_ne_nil hs) (by simp)

/-- The rules of the analysis are those of the loop on the filtered flows, also where it is not entered. -/
theorem analyzeFlows_eq (T : IpText) (ord : ℕ → HashOrder) (flows : List FlowRecord) (destPrefix : IpNet)
    (direction : Direction) (filter : ProtocolCategory) (rate : ℚ) (threshold : F64) :
    analyzeFlows T ord flows destPrefix direction filter rate threshold =
      ((⟨destPrefix, direction, filter, rate, threshold⟩ : AnalysisInput).run T ord
        (filterFlows flows filter)).rules := by
  unfold analyzeFlows
  simp only
  split_ifs with h1 h2
  · rw [List.isEmpty_iff.mp h1]
    cases filter <;> rfl
  · rw [List.isEmpty_iff.mp h2]
    rfl
  · rfl

end AnalyzeFlows

end NetAlert

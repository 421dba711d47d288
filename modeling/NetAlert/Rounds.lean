import NetAlert.RuleScope

/-!
# NetAlert.Rounds — progress and exit of the analysis loop

The candidate of a round matches at least a tenth of the bytes that remain, since it matches the group it was
scored by, and the fallback candidate matches everything.

* `loop_contract`: so the remaining bytes fall geometrically, and the loop ends for the reasons that the code
  gives.
-/

namespace NetAlert

/-- The flows that no candidate of the rounds matches. -/
def unmatchedBy (rounds : List Round) (flows : List FlowRecord) : List FlowRecord :=
  flows.filter fun f => rounds.all fun r => !r.candidate.matching f

theorem unmatchedBy_cons (r : Round) (rounds : List Round) (flows : List FlowRecord) :
    unmatchedBy (r :: rounds) flows = unmatchedBy rounds (flows.filter fun f => !r.candidate.matching f) := by
  simp [unmatchedBy, List.filter_filter, Bool.and_comm]

theorem unmatchedBy_concat (rounds : List Round) (r : Round) (flows : List FlowRecord) :
    unmatchedBy (rounds ++ [r]) flows = (unmatchedBy rounds flows).filter fun f => !r.candidate.matching f := by
  simp [unmatchedBy, List.filter_filter, Bool.and_comm]

namespace AnalysisInput

variable {T : IpText} {ord : ℕ → HashOrder} {a : AnalysisInput} {total n : ℕ} {s : Analysis}

/-! ## Every round -/

/-- **Every round** is entered with the flows that no earlier candidate matches and a rule for each of these. -/
theorem rounds_spec {k : ℕ} {r : Round} (h : (a.rounds T ord total n s)[k]? = some r) :
    r.before.remaining = unmatchedBy ((a.rounds T ord total n s).take k) s.remaining ∧
      r.before.rules.length = s.rules.length + k ∧ r.before.remaining ≠ [] ∧
      a.belowThreshold total r.before.remaining = false ∧
      a.chooseCandidate ord r.before = some r.candidate := by
  induction n generalizing s k with
  | zero => simp [rounds] at h
  | succ n ih =>
    cases hs : a.step T ord total s with
    | none => simp [rounds, hs] at h
    | some s' =>
      obtain ⟨hne, hbelow, c, hc, rfl⟩ := step_eq_some.mp hs
      rw [rounds_of_some hc hs] at h ⊢
      cases k with
      | zero =>
        obtain rfl := Option.some.inj h
        exact ⟨by simp [unmatchedBy], rfl, hne, hbelow, hc⟩
      | succ k =>
        obtain ⟨hremaining, hrules, hrest⟩ := ih h
        rw [List.length_append, List.length_singleton, Nat.add_assoc, Nat.add_comm 1 k] at hrules
        rw [List.take_succ_cons, unmatchedBy_cons]
        exact ⟨hremaining, hrules, hrest⟩

/-- **The end** of the loop. -/
theorem loop_end (T : IpText) (ord : ℕ → HashOrder) (a : AnalysisInput) (total n : ℕ) (s : Analysis) :
    (Loop.run (a.step T ord total) n s).remaining = unmatchedBy (a.rounds T ord total n s) s.remaining ∧
      (a.rounds T ord total n s).length ≤ n ∧
      ((a.rounds T ord total n s).length < n → a.step T ord total (Loop.run (a.step T ord total) n s) = none) := by
  induction n generalizing s with
  | zero =>
    exact ⟨by simp [Loop.run, rounds, unmatchedBy], by simp [rounds], fun h => absurd h (Nat.not_lt_zero _)⟩
  | succ n ih =>
    cases hs : a.step T ord total s with
    | none =>
      rw [Loop.run_of_none hs]
      exact ⟨by simp [rounds, hs, unmatchedBy], by simp [rounds, hs], fun _ => hs⟩
    | some s' =>
      obtain ⟨-, -, c, hc, rfl⟩ := step_eq_some.mp hs
      obtain ⟨hremaining, hlength, hstop⟩ :=
        ih ⟨s.remaining.filter fun f => !c.matching f, s.rules ++ [ruleOf T ord a s c]⟩
      rw [Loop.run_of_some hs, rounds_of_some hc hs, unmatchedBy_cons, List.length_cons]
      exact ⟨hremaining, Nat.succ_le_succ hlength, fun hlt => hstop (Nat.lt_of_succ_lt_succ hlt)⟩

/-! ## Bytes -/

/-- **The candidate of a round** matches at least a tenth of the bytes. -/
theorem chooseCandidate_bytes {c : Candidate} (h : a.chooseCandidate ord s = some c) :
    minCoverageRatio * totalBytes s.remaining ≤ totalBytes (s.remaining.filter c.matching) := by
  unfold chooseCandidate at h
  split at h
  · rename_i c' hbest
    obtain rfl := Option.some.inj h
    obtain ⟨fields, key, rfl, -, -, hshare⟩ := findBestCandidate_some hbest
    have hgroup : groupBytes s.remaining fields key ≤
        totalBytes (s.remaining.filter (Candidate.ofKey fields key).matching) :=
      totalBytes_le_of_filter fun f _ hf => matching_ofKey (of_decide_eq_true hf)
    have hpos : (0 : ℚ) < totalBytes s.remaining := by
      have hne : totalBytes s.remaining ≠ 0 := fun h0 => by
        rw [(findBestCandidate_eq_none _).mpr (.inl h0)] at hbest
        cases hbest
      exact_mod_cast Nat.pos_of_ne_zero hne
    rw [le_div_iff₀ hpos] at hshare
    exact hshare.trans (by exact_mod_cast hgroup)
  · split_ifs at h
    obtain rfl := Option.some.inj h
    -- the fallback candidate matches everything
    have hall : s.remaining.filter Candidate.blanket.matching = s.remaining :=
      List.filter_eq_self.mpr fun _ _ => rfl
    rw [hall, minCoverageRatio]
    have hnonneg : (0 : ℚ) ≤ totalBytes s.remaining := Nat.cast_nonneg _
    linarith

/-- **After some rounds** the remaining bytes have fallen geometrically. -/
theorem unmatched_bytes (T : IpText) (ord : ℕ → HashOrder) (a : AnalysisInput) (total n : ℕ)
    (filtered : List FlowRecord) (rules : List MitigationRule) {k : ℕ}
    (hk : k ≤ (a.rounds T ord total n ⟨filtered, rules⟩).length) :
    (totalBytes (unmatchedBy ((a.rounds T ord total n ⟨filtered, rules⟩).take k) filtered) : ℚ) ≤
      (1 - minCoverageRatio) ^ k * totalBytes filtered := by
  induction k with
  | zero => simp [unmatchedBy]
  | succ k ih =>
    have hr := List.getElem?_eq_getElem hk
    obtain ⟨hbefore, -, -, -, hc⟩ := rounds_spec hr
    have hbytes := chooseCandidate_bytes hc
    rw [List.take_add_one, hr, Option.toList_some, unmatchedBy_concat]
    have ih := ih (Nat.le_of_succ_le hk)
    rw [← hbefore] at ih ⊢
    set c := ((a.rounds T ord total n ⟨filtered, rules⟩)[k]).candidate
    set before := ((a.rounds T ord total n ⟨filtered, rules⟩)[k]).before.remaining
    have hsplit : (totalBytes (before.filter c.matching) : ℚ) + totalBytes (before.filter fun f => !c.matching f) =
        totalBytes before := by
      exact_mod_cast totalBytes_filter_not c.matching before
    calc (totalBytes (before.filter fun f => !c.matching f) : ℚ)
        ≤ (1 - minCoverageRatio) * totalBytes before := by linarith
      _ ≤ (1 - minCoverageRatio) * ((1 - minCoverageRatio) ^ k * totalBytes filtered) := by
          have : (0 : ℚ) ≤ 1 - minCoverageRatio := by norm_num [minCoverageRatio]
          gcongr
      _ = (1 - minCoverageRatio) ^ (k + 1) * totalBytes filtered := by ring

/-! ## The end of the loop -/

/-- **No candidate** in a round: nothing covers enough, and the fallback is not to be had. -/
theorem chooseCandidate_eq_none : a.chooseCandidate ord s = none ↔
    (totalBytes s.remaining = 0 ∨
      ∀ fields key, ¬ Eligible s.remaining minCoverageRatio (excludeFields a.protocolFilter) fields key) ∧
    (s.rules ≠ [] ∨ forcedFields a.protocolFilter = (none, none)) := by
  rw [← findBestCandidate_eq_none (ord s.rules.length)]
  unfold chooseCandidate
  cases hbest : findBestCandidate (ord s.rules.length) s.remaining minCoverageRatio
    (excludeFields a.protocolFilter) with
  | some c => simp
  | none =>
    have hforced : forcedFields a.protocolFilter = (none, none) ↔
        ¬ ((forcedFields a.protocolFilter).1.isSome ∨ (forcedFields a.protocolFilter).2.isSome) := by
      rw [Prod.ext_iff]
      simp
    simp only [true_and, hforced, List.isEmpty_iff]
    split_ifs with h
    · simp [h]
    · refine iff_of_true rfl ?_
      tauto

/-- The stop test, where the threshold is positive and there are bytes. -/
theorem belowThreshold_eq_true {remaining : List FlowRecord} : a.belowThreshold total remaining = true ↔
    0 < total ∧ F64.lt (.num 0) a.threshold = true ∧
      F64.lt (.num (a.currentRate * ((totalBytes remaining : ℚ) / total))) a.threshold = true := by
  simp only [belowThreshold, Bool.and_eq_true, decide_eq_true_eq, and_assoc]

end AnalysisInput

/-- **The contract of the loop.**  The rules are those of at most ten rounds.  Each round is entered with the
filtered flows that no earlier candidate matches, its candidate matches one of them, and the estimated rate is
not below a positive threshold.  After `k` rounds at most `(9/10)^k` of the filtered bytes remain.  After fewer
than ten, nothing remains, or the estimate is below the threshold, or what remains has no bytes or no group
with a tenth of them, and then there is a rule already or the category pins nothing. -/
theorem loop_contract (T : IpText) (ord : ℕ → HashOrder) (flows : List FlowRecord) (destPrefix : IpNet)
    (direction : Direction) (filter : ProtocolCategory) (rate : ℚ) (threshold : F64) :
    let a : AnalysisInput := ⟨destPrefix, direction, filter, rate, threshold⟩
    let filtered := filterFlows flows filter
    let total := totalBytes filtered
    let rounds := a.rounds T ord total maxRules ⟨filtered, []⟩
    let left := fun k => unmatchedBy (rounds.take k) filtered
    let estimate := fun k => rate * ((totalBytes (left k) : ℚ) / total)
    analyzeFlows T ord flows destPrefix direction filter rate threshold =
        (rounds.map fun r => AnalysisInput.ruleOf T ord a r.before r.candidate) ∧
      rounds.length ≤ 10 ∧
      (∀ k r, rounds[k]? = some r → r.before.remaining = left k ∧ (∃ f ∈ left k, r.candidate.matching f = true) ∧
        (0 < total → F64.lt (.num 0) threshold = true → F64.le threshold (.num (estimate k)) = true)) ∧
      (∀ k ≤ rounds.length, (totalBytes (left k) : ℚ) ≤ (9 / 10) ^ k * total) ∧
      (rounds.length < 10 → left rounds.length = [] ∨
        (0 < total ∧ F64.lt (.num 0) threshold = true ∧
          F64.lt (.num (estimate rounds.length)) threshold = true) ∨
        (totalBytes (left rounds.length) = 0 ∨
          ∀ fields key, ¬ Eligible (left rounds.length) (1 / 10) (excludeFields filter) fields key) ∧
        (rounds ≠ [] ∨ forcedFields filter = (none, none))) := by
  intro a filtered total rounds left estimate
  have hrules : (Loop.run (a.step T ord total) maxRules ⟨filtered, []⟩).rules =
      [] ++ rounds.map fun r => AnalysisInput.ruleOf T ord a r.before r.candidate :=
    AnalysisInput.loop_rules total maxRules ⟨filtered, []⟩
  obtain ⟨hremaining, hlength, hstop⟩ := a.loop_end T ord total maxRules ⟨filtered, []⟩
  refine ⟨analyzeFlows_rounds T ord flows destPrefix direction filter rate threshold, hlength, fun k r hr => ?_,
    fun k hk => ?_, fun hlt => ?_⟩
  · obtain ⟨hbefore, -, hne, hbelow, hc⟩ := AnalysisInput.rounds_spec hr
    have hbefore : r.before.remaining = left k := hbefore
    have hmatches := AnalysisInput.chooseCandidate_matches hne hc
    rw [hbefore] at hmatches
    refine ⟨hbefore, hmatches, fun htotal hpositive => ?_⟩
    rw [hbefore, Bool.eq_false_iff, ne_eq, AnalysisInput.belowThreshold_eq_true] at hbelow
    have hnot : F64.lt (.num (estimate k)) threshold = false :=
      Bool.eq_false_iff.mpr fun h => hbelow ⟨htotal, hpositive, h⟩
    rw [F64.le_or_lt_of_lt hpositive (estimate k)] at hnot
    simpa using hnot
  · have hbytes := a.unmatched_bytes T ord total maxRules filtered [] hk
    have hratio : 1 - minCoverageRatio = 9 / 10 := by norm_num [minCoverageRatio]
    rwa [hratio] at hbytes
  · have hleft : (Loop.run (a.step T ord total) maxRules ⟨filtered, []⟩).remaining = left rounds.length := by
      rw [hremaining]
      show unmatchedBy rounds filtered = unmatchedBy (rounds.take rounds.length) filtered
      rw [List.take_length]
    have hnil : (Loop.run (a.step T ord total) maxRules ⟨filtered, []⟩).rules ≠ [] ↔ rounds ≠ [] := by
      rw [hrules, List.nil_append, ne_eq, List.map_eq_nil_iff]
    have hend := (a.step_eq_none T ord total _).mp (hstop hlt)
    rw [AnalysisInput.belowThreshold_eq_true, AnalysisInput.chooseCandidate_eq_none, hleft, hnil] at hend
    exact hend

end NetAlert

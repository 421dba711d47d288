import NetAlert.Capture

/-!
# NetAlert.CaptureLog — the capture buffer as a log of recent flows

A run is a sequence of operations on a processor that has loaded a configuration: flows to process and keys to
drain.

* `captures_step`: what one operation does to the captures of a rule.
* `recentLog_iff`: along a run they are a bounded log of the recent flows, exactly if the configuration gives them
  room for a flow or there is none to capture.
-/

namespace NetAlert

/-- A call of `process_flow` or of `drain_captured_flows`. -/
inductive CaptureOp
  | flow (f : FlowRecord)
  | drain (ipPrefix : String) (d : Direction)
  deriving DecidableEq

/-- The processor after the call; no result where it panics. -/
def CaptureOp.apply (T : IpText) (p : FlowProcessor) : CaptureOp → Option FlowProcessor
  | .flow f => p.processFlow f
  | .drain ipPrefix d => some (p.drainCapturedFlows T ipPrefix d).2

def CaptureOp.toFlow : CaptureOp → Option FlowRecord
  | .flow f => some f
  | .drain _ _ => none

/-- What the rule with the index has captured. -/
def FlowProcessor.captures (p : FlowProcessor) (i : ℕ) : List CapturedFlow :=
  (p.rules[i]?.map ProcessedRule.captureBuffer).getD []

/-- The rule captures the flow in the direction. -/
def RuleConfig.Captures (r : RuleConfig) (f : FlowRecord) (d : Direction) : Prop :=
  f.directionFor r.ipPrefix.contains = some d ∧ r.watches d = true

section Step

variable {T : IpText} {c : Config} {r : RuleConfig} {cap i : ℕ} {flows : List FlowRecord} {p p' : FlowProcessor}
  {op : CaptureOp} {q q' : List CapturedFlow}

/-- What an operation does to the captures of a rule. -/
def CaptureStep (T : IpText) (cap : ℕ) (r : RuleConfig) (q q' : List CapturedFlow) : CaptureOp → Prop
  | .flow f => (q' = q ∧ ∀ d, ¬ r.Captures f d) ∨ ∃ d, r.Captures f d ∧ q' = Backlog.push cap q ⟨f, d⟩
  | .drain ipPrefix d => q' = if T.net r.ipPrefix = ipPrefix then q.filter fun cf => cf.direction ≠ d else q

theorem captures_of_getElem? {rule : ProcessedRule} (h : p.rules[i]? = some rule) :
    p.captures i = rule.captureBuffer := by
  rw [FlowProcessor.captures, h]
  rfl

/-- **One operation.** -/
theorem captures_step (h : Ran T c flows p) (hr : c.rules[i]? = some r) (hop : op.apply T p = some p') :
    CaptureStep T c.global.captureBufferSize r (p.captures i) (p'.captures i) op := by
  obtain ⟨rule, hrule, hkept⟩ := Relate.forall₂_some_left h.kept.2 hr
  rw [captures_of_getElem? hrule]
  cases op with
  | flow f =>
    obtain ⟨-, -, hF⟩ := processFlow_ok h.kept.1 hop
    obtain ⟨rule', hrule', hroute⟩ := Relate.forall₂_some_left hF hrule
    have hcontains : rule.network.contains = r.ipPrefix.contains := IpNetwork.contains_eq hkept.network
    have hcases := (route_routed hroute).capture_cases
    rw [hcontains, hkept.size] at hcases
    rw [captures_of_getElem? hrule']
    rcases hcases with ⟨hsame, hnone⟩ | ⟨d, hd, hw, hpush⟩
    · exact .inl ⟨hsame, fun d hd => hnone d hd.1 (hkept.watches_iff.mpr hd.2)⟩
    · exact .inr ⟨d, ⟨hd, hkept.watches_iff.mp hw⟩, hpush⟩
  | drain ipPrefix d =>
    obtain rfl := Option.some.inj hop
    show FlowProcessor.captures _ i = _
    rw [FlowProcessor.captures, FlowProcessor.drainCapturedFlows, List.getElem?_map, hrule, ← hkept.ipPrefix]
    simp only [Option.map_some, Option.getD_some]
    split_ifs <;> rfl

end Step

/-! ## Runs -/

/-- The flows that the first `k` operations process. -/
def flowsBefore (ops : ℕ → CaptureOp) (k : ℕ) : List FlowRecord := (List.range k).filterMap fun j => (ops j).toFlow

theorem flowsBefore_succ (ops : ℕ → CaptureOp) (k : ℕ) :
    flowsBefore ops (k + 1) = flowsBefore ops k ++ (ops k).toFlow.toList := by
  rw [flowsBefore, List.range_succ, List.filterMap_append, flowsBefore]
  cases h : (ops k).toFlow <;> simp [h]

/-- Captured flows leave only through a drain of the prefix and their direction, or as the oldest of as many as
the buffer has room for when another is captured. -/
def LeavesOnly (T : IpText) (cap : ℕ) (r : RuleConfig) (q q' : List CapturedFlow) : CaptureOp → Prop
  | .flow f => q' = q ∨ ∃ d, r.Captures f d ∧ (q' = q ++ [⟨f, d⟩] ∨
      (q.length = cap ∧ ∃ oldest rest, q = oldest :: rest ∧ q' = rest ++ [⟨f, d⟩]))
  | .drain ipPrefix d => q' = if T.net r.ipPrefix = ipPrefix then q.filter fun cf => cf.direction ≠ d else q

/-- The captures `q` of a rule along `n` operations are a bounded log of recent flows. -/
structure RecentLog (T : IpText) (cap : ℕ) (r : RuleConfig) (ops : ℕ → CaptureOp) (q : ℕ → List CapturedFlow)
    (n : ℕ) : Prop where
  bounded : ∀ k ≤ n, (q k).length ≤ cap
  ordered : ∀ k ≤ n, ((q k).map CapturedFlow.flow).Sublist (flowsBefore ops k)
  directed : ∀ k ≤ n, ∀ cf ∈ q k, r.Captures cf.flow cf.direction
  leaves : ∀ k < n, LeavesOnly T cap r (q k) (q (k + 1)) (ops k)

section Log

variable {T : IpText} {cap : ℕ} {r : RuleConfig} {ops : ℕ → CaptureOp} {q : ℕ → List CapturedFlow} {n : ℕ}

theorem CaptureStep.log {k : ℕ} (hstep : CaptureStep T cap r (q k) (q (k + 1)) (ops k))
    (hroom : 1 ≤ cap ∨ ∀ f, ops k = .flow f → ∀ d, ¬ r.Captures f d) (hbounded : (q k).length ≤ cap)
    (hordered : ((q k).map CapturedFlow.flow).Sublist (flowsBefore ops k))
    (hdirected : ∀ cf ∈ q k, r.Captures cf.flow cf.direction) :
    (q (k + 1)).length ≤ cap ∧ ((q (k + 1)).map CapturedFlow.flow).Sublist (flowsBefore ops (k + 1)) ∧
      (∀ cf ∈ q (k + 1), r.Captures cf.flow cf.direction) ∧ LeavesOnly T cap r (q k) (q (k + 1)) (ops k) := by
  rw [flowsBefore_succ]
  cases hop : ops k with
  | flow f =>
    rw [hop] at hstep
    rcases hstep with ⟨hsame, -⟩ | ⟨d, hd, hpush⟩
    · rw [hsame]
      exact ⟨hbounded, hordered.trans (List.sublist_append_left _ _), hdirected, .inl rfl⟩
    · have hcap : 1 ≤ cap := hroom.resolve_right fun h => h f hop d hd
      have hsub := Backlog.push_sublist cap (q k) ⟨f, d⟩
      rw [hpush]
      refine ⟨?_, ?_, fun cf hcf => ?_, .inr ⟨d, hd, Backlog.push_cases hcap hbounded _⟩⟩
      · have hlength := Backlog.length_push_le (hbounded.trans (le_max_left cap 1)) (⟨f, d⟩ : CapturedFlow)
        rwa [max_eq_left hcap] at hlength
      · have hflows := hsub.map CapturedFlow.flow
        rw [List.map_append] at hflows
        exact hflows.trans (hordered.append (List.Sublist.refl [f]))
      · rcases List.mem_append.mp (hsub.subset hcf) with hcf | hcf
        · exact hdirected cf hcf
        · rw [List.mem_singleton.mp hcf]
          exact hd
  | drain ipPrefix d =>
    rw [hop] at hstep
    have hq : q (k + 1) =
        if T.net r.ipPrefix = ipPrefix then (q k).filter fun cf => cf.direction ≠ d else q k := hstep
    have hsub : (q (k + 1)).Sublist (q k) := by
      rw [hq]
      split_ifs
      · exact List.filter_sublist
      · exact List.Sublist.refl _
    refine ⟨hsub.length_le.trans hbounded, ?_, fun cf hcf => hdirected cf (hsub.subset hcf), hq⟩
    exact ((hsub.map _).trans hordered).trans (List.sublist_append_left _ _)

/-- **A run** whose captures have room, or which captures nothing. -/
theorem recentLog_of_steps (hstart : q 0 = []) (hsteps : ∀ k < n, CaptureStep T cap r (q k) (q (k + 1)) (ops k))
    (hroom : 1 ≤ cap ∨ ∀ k < n, ∀ f, ops k = .flow f → ∀ d, ¬ r.Captures f d) : RecentLog T cap r ops q n := by
  have hstep : ∀ k < n, 1 ≤ cap ∨ ∀ f, ops k = .flow f → ∀ d, ¬ r.Captures f d := fun k hk =>
    hroom.imp_right fun h => h k hk
  have hall : ∀ k ≤ n, (q k).length ≤ cap ∧ ((q k).map CapturedFlow.flow).Sublist (flowsBefore ops k) ∧
      ∀ cf ∈ q k, r.Captures cf.flow cf.direction := by
    intro k hk
    induction k with
    | zero => simp [hstart]
    | succ k ih =>
      obtain ⟨hbounded, hordered, hdirected⟩ := ih (Nat.le_of_succ_le hk)
      obtain ⟨h1, h2, h3, -⟩ := (hsteps k hk).log (hstep k hk) hbounded hordered hdirected
      exact ⟨h1, h2, h3⟩
  refine ⟨fun k hk => (hall k hk).1, fun k hk => (hall k hk).2.1, fun k hk => (hall k hk).2.2, fun k hk => ?_⟩
  obtain ⟨hbounded, hordered, hdirected⟩ := hall k hk.le
  exact ((hsteps k hk).log (hstep k hk) hbounded hordered hdirected).2.2.2

end Log

/-- **The captures of a rule are a bounded log** of the recent flows along a run exactly if the configuration has
room for one, or the run has none for the rule to capture. -/
theorem recentLog_iff (T : IpText) (c : Config) {p₀ : FlowProcessor} {run : ℕ → FlowProcessor}
    {ops : ℕ → CaptureOp} {n i : ℕ} {r : RuleConfig} (hload : p₀.reloadConfig T c = .ok (run 0))
    (hrun : ∀ k < n, (ops k).apply T (run k) = some (run (k + 1))) (hr : c.rules[i]? = some r) :
    RecentLog T c.global.captureBufferSize r ops (fun k => (run k).captures i) n ↔
      1 ≤ c.global.captureBufferSize ∨ ∀ k < n, ∀ f, ops k = .flow f → ∀ d, ¬ r.Captures f d := by
  have hran : ∀ k ≤ n, Ran T c (flowsBefore ops k) (run k) := by
    intro k hk
    induction k with
    | zero => exact .load hload
    | succ k ih =>
      have hp := hrun k hk
      have ih := ih (Nat.le_of_succ_le hk)
      rw [flowsBefore_succ]
      cases hop : ops k with
      | flow f =>
        rw [hop] at hp
        exact ih.flow hp
      | drain ipPrefix d =>
        rw [hop] at hp
        rw [← Option.some.inj hp]
        simpa [CaptureOp.toFlow] using ih.drain ipPrefix d
  have hsteps : ∀ k < n, CaptureStep T c.global.captureBufferSize r ((run k).captures i) ((run (k + 1)).captures i)
      (ops k) := fun k hk => captures_step (hran k hk.le) hr (hrun k hk)
  constructor
  · intro h
    by_contra hno
    simp only [not_or, not_forall, not_not, not_le, Nat.lt_one_iff] at hno
    obtain ⟨hcap, k, hk, f, hop, d, hd⟩ := hno
    have hstep := hsteps k hk
    rw [hop] at hstep
    rcases hstep with ⟨-, hnone⟩ | ⟨d', -, hpush⟩
    · exact hnone d hd
    · -- the flow is in the buffer, which has no room for it
      have hlength := h.bounded (k + 1) hk
      simp only [hpush, Backlog.push, List.length_append, List.length_singleton] at hlength
      omega
  · refine recentLog_of_steps ?_ hsteps
    obtain ⟨rule, hrule, hkept⟩ := Relate.forall₂_some_left (hran 0 (Nat.zero_le n)).kept.2 hr
    have hcaptured := hkept.captured
    rw [captures_of_getElem? hrule]
    simpa [flowsBefore] using hcaptured

/-- One flow towards the twins, and the processor before and after it. -/
def twinsFlow : FlowRecord := demoFlow (.V4 0xC6336442) (.V4 0x0A000007) 1003

def oneFlow (c : Config) : Option (FlowProcessor × FlowProcessor) :=
  ((FlowProcessor.new 10).reloadConfig IpText.dotted c).toOption.bind fun p =>
    (p.processFlow twinsFlow).map fun p' => (p, p')

theorem oneFlow_eq_some {c : Config} {p p' : FlowProcessor} (h : oneFlow c = some (p, p')) :
    (FlowProcessor.new 10).reloadConfig IpText.dotted c = .ok p ∧ p.processFlow twinsFlow = some p' := by
  obtain ⟨p₁, h₁, h₂⟩ := Option.bind_eq_some_iff.mp h
  obtain ⟨p₂, h₃, heq⟩ := Option.map_eq_some_iff.mp h₂
  obtain ⟨rfl, rfl⟩ := Prod.mk.inj heq
  exact ⟨Fold.except_toOption.mp h₁, h₃⟩

theorem recentLog_twins : ∃ (run : ℕ → FlowProcessor) (r : RuleConfig), twins.rules[0]? = some r ∧
    (run 0).processFlow twinsFlow = some (run 1) ∧ ((run 1).captures 0).length = 1 ∧
      RecentLog IpText.dotted 500 r (fun _ => .flow twinsFlow) (fun k => (run k).captures 0) 1 := by
  have hone : (oneFlow twins).map (fun s => (s.2.captures 0).length) = some 1 := by decide
  obtain ⟨⟨p, p'⟩, h, hlength⟩ := Option.map_eq_some_iff.mp hone
  obtain ⟨hload, hflow⟩ := oneFlow_eq_some h
  obtain ⟨r, hrule⟩ : ∃ r, twins.rules[0]? = some r := ⟨_, rfl⟩
  refine ⟨fun k => if k = 0 then p else p', r, hrule, hflow, hlength, ?_⟩
  refine (recentLog_iff IpText.dotted twins hload (fun k hk => ?_) hrule).mpr (.inl (by decide))
  obtain rfl : k = 0 := by omega
  exact hflow

/-- The twins without room for captured flows. -/
def roomless : Config := { twins with global := { twins.global with captureBufferSize := 0 } }

/-- The configuration is accepted, and then a rule holds a flow. -/
theorem roomless_holds_one : roomless.validate IpText.dotted = .ok () ∧ roomless.global.captureBufferSize = 0 ∧
    ∃ p p', (FlowProcessor.new 10).reloadConfig IpText.dotted roomless = .ok p ∧
      p.processFlow twinsFlow = some p' ∧ (p'.captures 0).length = 1 := by
  have hone : (oneFlow roomless).map (fun s => (s.2.captures 0).length) = some 1 := by decide
  obtain ⟨⟨p, p'⟩, h, hlength⟩ := Option.map_eq_some_iff.mp hone
  obtain ⟨hload, hflow⟩ := oneFlow_eq_some h
  exact ⟨by decide, rfl, p, p', hload, hflow, hlength⟩

end NetAlert

import NetAlert.Reload
import NetAlert.RuleHits

/-!
# NetAlert.Trigger — what the payload of a firing alert carries

Within a tick the captured flows of a key are the ones the processor held for it at the start, whichever
alerts were evaluated before (`AllEvaluated.payload_of`).  With that, an alert that fires suggests rules
whenever the captured flows of its key give the analysis something to work on (`fire_suggests`).
-/

namespace NetAlert

variable {T : IpText}

/-! ## Captured flows within a tick -/

/-- Draining one key does not touch the captured flows of another. -/
theorem drainCapturedFlows_of_ne (p : FlowProcessor) {ipPrefix ipPrefix' : String} {d d' : Direction}
    (h : (ipPrefix, d) ≠ (ipPrefix', d')) :
    ((p.drainCapturedFlows T ipPrefix d).2.drainCapturedFlows T ipPrefix' d').1 =
      (p.drainCapturedFlows T ipPrefix' d').1 := by
  simp only [FlowProcessor.drainCapturedFlows, List.flatMap_map]
  apply List.flatMap_congr
  intro rule _
  by_cases h1 : T.net rule.ipPrefix = ipPrefix
  · subst h1
    by_cases h2 : T.net rule.ipPrefix = ipPrefix'
    · subst h2
      have hd : d ≠ d' := fun hd => h (by rw [hd])
      simp only [if_true, List.filter_filter]
      refine congrArg (List.map _) (List.filter_congr fun cf _ => ?_)
      by_cases hcf : cf.direction = d'
      · simp [hcf, Ne.symm hd]
      · simp [hcf]
    · simp [h2]
  · simp [h1]

/-- The flows of a key are drained once and shared; drains of other keys do not change them. -/
theorem Tick.drain_drain (t : Tick) (ipPrefix ipPrefix' : String) (d d' : Direction) :
    ((t.drain T ipPrefix d).2.drain T ipPrefix' d').1 = (t.drain T ipPrefix' d').1 := by
  cases hl : t.drained.lookup (ipPrefix, d) with
  | some flows => simp only [Tick.drain, hl]
  | none =>
    by_cases hk : (ipPrefix', d') = (ipPrefix, d)
    · cases hk
      simp only [Tick.drain, hl, AList.lookup_insert]
    · have hins : ∀ flows, (t.drained.insert (ipPrefix, d) flows).lookup (ipPrefix', d') =
          t.drained.lookup (ipPrefix', d') := fun flows => AList.lookup_insert_ne hk
      simp only [Tick.drain, hl, hins]
      cases t.drained.lookup (ipPrefix', d') with
      | some flows => rfl
      | none => exact drainCapturedFlows_of_ne t.processor (Ne.symm hk)

section Tick

variable {ords : ℕ → ℕ → HashOrder} {snapshots : List RateSnapshot} {now : Instant} {t t' : Tick}

theorem Evaluated.drain_eq {a a' : AlertInstance} (h : Evaluated T ords snapshots now t t' a a')
    (ipPrefix : String) (d : Direction) : (t'.drain T ipPrefix d).1 = (t.drain T ipPrefix d).1 := by
  have hcongr : ∀ u : Tick, t'.processor = u.processor → t'.drained = u.drained →
      (t'.drain T ipPrefix d).1 = (u.drain T ipPrefix d).1 := by
    intro u h1 h2
    simp only [Tick.drain, h1, h2]
    split <;> rfl
  rcases h.drained with ⟨h1, h2⟩ | ⟨h1, h2⟩
  · exact hcongr t h1 h2
  · exact (hcongr _ h1 h2).trans (t.drain_drain _ _ _ _)

theorem AllEvaluated.payloads_prefix {as as' : List AlertInstance}
    (h : AllEvaluated T ords snapshots now t as t' as') : t.payloads <+: t'.payloads := by
  induction h with
  | nil => exact List.prefix_refl _
  | cons h _ ih => exact (h.payloads ▸ List.prefix_append _ _).trans ih

/-- The alerts of a list that act in the tick. -/
def acting (snapshots : List RateSnapshot) (now : Instant) (alerts : List AlertInstance) : ℕ :=
  alerts.countP fun a => (a.reaction snapshots now).isSome

/-- **The payload of an alert** comes after those of the alerts before it, and its rules are those for
the flows that its key had at the start of the tick. -/
theorem AllEvaluated.payload_of {as as' : List AlertInstance} (h : AllEvaluated T ords snapshots now t as t' as')
    {i : ℕ} {a : AlertInstance} (hi : as[i]? = some a) {action : AlertAction}
    (ha : a.reaction snapshots now = some action) :
    ∃ a' n, Rebuilt a a' ∧ t'.payloads[t.payloads.length + acting snapshots now (as.take i)]? =
      some (a'.buildPayload (a.rate snapshots) action.toString
        (a.advice T (ords n) (t.drain T a.ipPrefix a.direction).1 (a.rate snapshots) action)) := by
  induction h generalizing i with
  | nil => simp at hi
  | @cons t t₁ t₂ b b' bs bs' h hs ih =>
    cases i with
    | zero =>
      obtain rfl : b = a := by simpa using hi
      have hp := h.payloads
      rw [ha] at hp
      obtain ⟨rest, hrest⟩ := hs.payloads_prefix
      refine ⟨b', t.payloads.length, h.rebuilt, ?_⟩
      rw [← hrest, hp]
      simp [acting]
    | succ i =>
      obtain ⟨a', n, hr, hpay⟩ := ih (by simpa using hi)
      refine ⟨a', n, hr, ?_⟩
      have hlen : t.payloads.length + acting snapshots now ((b :: bs).take (i + 1)) =
          t₁.payloads.length + acting snapshots now (bs.take i) := by
        rw [h.payloads, List.take_succ_cons, acting, acting, List.countP_cons]
        cases b.reaction snapshots now with
        | none => simp
        | some action' =>
          simp only [Option.isSome_some, if_true, Option.toList_some, List.map_singleton, List.length_append,
            List.length_singleton]
          omega
      rw [hlen, ← h.drain_eq a.ipPrefix a.direction]
      exact hpay

end Tick

/-! ## Prefixes of reachable managers -/

/-- The prefix of every alert is a printed prefix. -/
theorem run_printed (scriptPath : Option String) (events : List ManagerEvent) :
    ∀ a ∈ ((ManagerRun.start scriptPath).run T events).manager.alerts, ∃ net, a.ipPrefix = T.net net := by
  induction events using List.reverseRecOn with
  | nil => simp [ManagerRun.run, ManagerRun.start, AlertManager.new]
  | append_singleton events e ih =>
    rw [ManagerRun.run_concat]
    cases e with
    | reload c =>
      intro a ha
      obtain ⟨b, hb, hr⟩ := Relate.forall₂_left_of_mem (reload_runsOn _ c) ha
      simp only [Config.buildAlerts, addMetricAlerts, List.mem_flatMap, List.mem_map] at hb
      obtain ⟨rule, _, _, _, _, _, _, _, hb⟩ := hb
      exact ⟨rule.ipPrefix, by rw [hr, ← hb]⟩
    | evaluate input =>
      intro a ha
      obtain ⟨b, hb, hr⟩ := Relate.forall₂_left_of_mem (ManagerRun.step_rebuilt _ input) ha
      obtain ⟨net, hnet⟩ := ih b hb
      exact ⟨net, by rw [hr]; exact hnet⟩

/-! ## Firing -/

/-- An alert that fires is not on a rate below its trigger threshold. -/
theorem not_below_of_fire {a : AlertInstance} {snapshots : List RateSnapshot} {now : Instant}
    (h : a.reaction snapshots now = some .fire) :
    F64.lt (.num (a.rate snapshots)) a.triggerThreshold = false := by
  have hs := a.evaluate_step (a.rate snapshots) now
  rw [show (a.evaluate (a.rate snapshots) now).2 = some .fire from h] at hs
  generalize a.state = s at hs
  generalize (a.evaluate (a.rate snapshots) now).1.state = s' at hs
  cases hs with
  | fire h => exact h

/-- The suggestions for an alert on a rate not below its trigger threshold. -/
theorem suggest_eq_nil (ord : ℕ → HashOrder) {a : AlertInstance} {net : IpNet} (hnet : a.ipPrefix = T.net net)
    (flows : List FlowRecord) {rate : ℚ} (hrate : F64.lt (.num rate) a.triggerThreshold = false) :
    a.suggest T ord flows rate = [] ↔ filterFlows flows a.protocol = [] ∨ (a.protocol = .any ∧
      (totalBytes flows = 0 ∨ ∀ fields key, ¬ Eligible flows minCoverageRatio 0 fields key)) := by
  have hU : Unanswered flows a.protocol rate a.triggerThreshold ↔ filterFlows flows a.protocol = [] ∨
      (a.protocol = .any ∧
        (totalBytes flows = 0 ∨ ∀ fields key, ¬ Eligible flows minCoverageRatio 0 fields key)) := by
    simp [Unanswered, hrate]
  rw [← hU, ← analyzeFlows_eq_nil T ord net a.direction]
  unfold AlertInstance.suggest
  split_ifs with hempty
  · refine iff_of_true rfl ((analyzeFlows_eq_nil _ _ _ _).mpr (.inl ?_))
    rw [List.isEmpty_iff.mp hempty]
    cases a.protocol <;> rfl
  · rw [hnet, IpText.parse_print]

/-- **No fire goes out empty-handed.**  In a tick of a reachable manager, the payload of an alert that
fires comes after those of the alerts before it, and with the flows captured for its key at the start of
the tick: if its protocol is a specific category and one of them is in it, it suggests a rule; if its
protocol is `any`, it suggests a rule iff they carry bytes and some group carries a tenth of them. -/
theorem fire_suggests (T : IpText) (scriptPath : Option String) (events : List ManagerEvent) (input : TickInput)
    (i : ℕ) (a : AlertInstance)
    (hi : ((ManagerRun.start scriptPath).run T events).manager.alerts[i]? = some a)
    (hfire : a.reaction input.snapshots input.now = some .fire) :
    let s := (ManagerRun.start scriptPath).run T events
    let payloads := (s.manager.evaluate T input.ords input.snapshots input.now input.processor s.issued).2.payloads
    let flows := (input.processor.drainCapturedFlows T a.ipPrefix a.direction).1
    ∃ p, payloads[acting input.snapshots input.now (s.manager.alerts.take i)]? = some p ∧
      p.action = "trigger" ∧ p.ipPrefix = a.ipPrefix ∧ p.protocol = a.protocol.toString ∧
      p.direction = a.direction.toString ∧ p.metric = a.metric.toString ∧
      (a.protocol ≠ .any → (∃ f ∈ flows, a.protocol ∈ f.categories) → p.mitigationRules ≠ []) ∧
      (a.protocol = .any → (p.mitigationRules ≠ [] ↔ 0 < totalBytes flows ∧
        ∃ fields key, Eligible flows (1 / 10) 0 fields key)) := by
  intro s payloads flows
  have hev := evaluateAlerts_evaluated T input.ords input.snapshots input.now
    ⟨input.processor, ∅, [], s.issued⟩ s.manager.alerts
  obtain ⟨a', n, hr, hp⟩ := hev.payload_of hi hfire
  obtain ⟨net, hnet⟩ := run_printed scriptPath events a (List.mem_of_getElem? hi)
  have hnil := suggest_eq_nil (input.ords n) hnet flows (not_below_of_fire hfire)
  simp only [List.length_nil, Nat.zero_add] at hp
  refine ⟨_, hp, rfl, by rw [hr]; rfl, by rw [hr]; rfl, by rw [hr]; rfl, by rw [hr]; rfl, ?_, ?_⟩
  · rintro hne ⟨f, hf, hcat⟩ hrules
    rcases hnil.mp hrules with h | h
    · have := mem_filterFlows.mpr ⟨hf, .inr hcat⟩
      rw [h] at this
      cases this
    · exact hne h.1
  · intro hany
    refine (not_congr hnil).trans ?_
    rw [hany]
    simp only [true_and, not_or, not_forall, not_not, minCoverageRatio]
    constructor
    · rintro ⟨-, h0, hgroup⟩
      exact ⟨Nat.pos_of_ne_zero h0, hgroup⟩
    · rintro ⟨h0, hgroup⟩
      refine ⟨fun h => ?_, h0.ne', hgroup⟩
      rw [show filterFlows flows .any = flows from rfl] at h
      simp [h, totalBytes] at h0

/-- One alert that fires at once. -/
def instant : Config :=
  { global := { evaluationInterval := Duration.fromSecs 1, window := Duration.fromSecs 10 }
    alertPolicies := HashMap.ofPairs [("instant", ⟨0, 0⟩)]
    rules :=
      [{ ipPrefix := site
         alertPolicy := some "instant"
         thresholds := Config.single .any .inbound { bps := some ⟨.num 100, none⟩ } }] }

/-- A tick with the two victims' flows in the capture buffer. -/
def victimsTick (second : ℕ) : TickInput :=
  { ords := fun _ _ => HashOrder.stored
    snapshots := [⟨"10.2.3.0/24", ∅, .any, .inbound, 1000, 0, 0⟩]
    processor :=
      { rules :=
          [{ ipPrefix := site
             network := ⟨site, by decide⟩
             labels := ∅
             buffers := ∅
             captureBuffer := twoVictims.map fun f => ⟨f, .inbound⟩
             captureBufferSize := 500 }]
        prefixTable := ∅
        windowSecs := 10 }
    now := Duration.fromSecs second }

theorem fire_suggests_instant :
    let s := (ManagerRun.start none).run IpText.dotted [.reload instant, .evaluate (victimsTick 0)]
    let payloads := (s.manager.evaluate IpText.dotted (victimsTick 1).ords (victimsTick 1).snapshots
      (victimsTick 1).now (victimsTick 1).processor s.issued).2.payloads
    ∃ p, payloads[0]? = some p ∧ p.action = "trigger" ∧ (p.mitigationRules ≠ [] ↔
      0 < totalBytes twoVictims ∧ ∃ fields key, Eligible twoVictims (1 / 10) 0 fields key) := by
  intro s payloads
  have hhead : ∃ a, s.manager.alerts[0]? = some a ∧
      a.reaction (victimsTick 1).snapshots (victimsTick 1).now = some .fire ∧ a.protocol = .any ∧
        ((victimsTick 1).processor.drainCapturedFlows IpText.dotted a.ipPrefix a.direction).1 = twoVictims :=
    ⟨_, rfl, by decide, by decide, by decide⟩
  obtain ⟨a, hi, hfire, hany, hflows⟩ := hhead
  obtain ⟨p, hp, haction, -, -, -, -, -, hrules⟩ := fire_suggests IpText.dotted none
    [.reload instant, .evaluate (victimsTick 0)] (victimsTick 1) 0 a hi hfire
  have hr := hrules hany
  rw [hflows] at hr
  exact ⟨p, hp, haction, hr⟩

end NetAlert

import NetAlert.Capture
import NetAlert.Trigger

/-!
# NetAlert.TickOrder — one tick does not depend on the order of the alerts

Within a tick a key is drained once and its flows are shared, so after any number of alerts the
processor is the one of the start without the captures of the keys drained so far (`Shares`).
Hence every alert that fires or updates analyses the flows that its key had at the start of the
tick, and what it does and sends is a function of itself alone (`evaluate_perm`).
-/

namespace NetAlert

variable {T : IpText} {p q : FlowProcessor}

/-! ## Processors without the captures of some keys -/

/-- The captures under a prefix but for those of the keys. -/
def spare (ipPrefix : String) (keys : List (String × Direction)) (captures : List CapturedFlow) :
    List CapturedFlow :=
  captures.filter fun cf => (ipPrefix, cf.direction) ∉ keys

def ProcessedRule.without (T : IpText) (keys : List (String × Direction)) (rule : ProcessedRule) : ProcessedRule :=
  { rule with captureBuffer := spare (T.net rule.ipPrefix) keys rule.captureBuffer }

def FlowProcessor.without (T : IpText) (p : FlowProcessor) (keys : List (String × Direction)) : FlowProcessor :=
  { p with rules := p.rules.map (ProcessedRule.without T keys) }

/-- Only which keys are taken out matters, not in which order or how often. -/
theorem spare_spare {ipPrefix : String} {ks ks' ks'' : List (String × Direction)}
    (h : ∀ k, k ∈ ks'' ↔ k ∈ ks ∨ k ∈ ks') (captures : List CapturedFlow) :
    spare ipPrefix ks' (spare ipPrefix ks captures) = spare ipPrefix ks'' captures := by
  unfold spare
  rw [List.filter_filter]
  apply List.filter_congr
  intro cf _
  simp [h, Bool.and_comm]

/-- A drain of a key under its prefix. -/
theorem spare_key (key : String × Direction) (captures : List CapturedFlow) :
    spare key.1 [key] captures = captures.filter fun cf => cf.direction ≠ key.2 := by
  obtain ⟨ipPrefix, d⟩ := key
  apply List.filter_congr
  intro cf _
  simp

theorem spare_of_ne {ipPrefix : String} {key : String × Direction} (h : ipPrefix ≠ key.1)
    (captures : List CapturedFlow) : spare ipPrefix [key] captures = captures := by
  refine List.filter_eq_self.mpr fun cf _ => ?_
  rw [decide_eq_true_iff, List.mem_singleton]
  exact fun heq => h (congrArg Prod.fst heq)

/-- The captures of a direction whose key is not taken out. -/
theorem filter_spare {ipPrefix : String} {keys : List (String × Direction)} {d : Direction}
    (h : (ipPrefix, d) ∉ keys) (captures : List CapturedFlow) :
    (spare ipPrefix keys captures).filter (fun cf => cf.direction = d) =
      captures.filter fun cf => cf.direction = d := by
  unfold spare
  rw [List.filter_filter]
  apply List.filter_congr
  intro cf _
  by_cases hd : cf.direction = d
  · simp [hd, h]
  · simp [hd]

@[simp] theorem without_nil (T : IpText) (p : FlowProcessor) : p.without T [] = p := by
  have hrule : ProcessedRule.without T [] = id := by
    funext rule
    simp [ProcessedRule.without, spare]
  rw [FlowProcessor.without, hrule, List.map_id]

/-- A drain takes out the captures of its key. -/
theorem drain_eq_without (T : IpText) (p : FlowProcessor) (k : String × Direction) :
    (p.drainCapturedFlows T k.1 k.2).2 = p.without T [k] := by
  simp only [FlowProcessor.drainCapturedFlows, FlowProcessor.without, FlowProcessor.mk.injEq, and_true]
  apply List.map_congr_left
  intro rule _
  unfold ProcessedRule.without
  split_ifs with hp
  · rw [hp, spare_key]
  · rw [spare_of_ne hp]

theorem without_without (p : FlowProcessor) {ks ks' ks'' : List (String × Direction)}
    (h : ∀ k, k ∈ ks'' ↔ k ∈ ks ∨ k ∈ ks') : (p.without T ks).without T ks' = p.without T ks'' := by
  simp only [FlowProcessor.without, List.map_map, FlowProcessor.mk.injEq, and_true]
  apply List.map_congr_left
  intro rule _
  exact congrArg (fun captures => { rule with captureBuffer := captures }) (spare_spare h rule.captureBuffer)

theorem without_congr (p : FlowProcessor) {ks ks' : List (String × Direction)} (h : ∀ k, k ∈ ks ↔ k ∈ ks') :
    p.without T ks = p.without T ks' := by
  have hsame : (p.without T []).without T ks = p.without T ks' := without_without p (by simp [h])
  rw [← hsame, without_nil]

/-- The captures of a key that has not been taken out. -/
theorem drain_without (p : FlowProcessor) {ks : List (String × Direction)} {k : String × Direction} (h : k ∉ ks) :
    ((p.without T ks).drainCapturedFlows T k.1 k.2).1 = (p.drainCapturedFlows T k.1 k.2).1 := by
  have hrule : ∀ rule : ProcessedRule, (rule.without T ks).given T k.1 k.2 = rule.given T k.1 k.2 := by
    intro rule
    show (if T.net rule.ipPrefix = k.1 then
      ((spare (T.net rule.ipPrefix) ks rule.captureBuffer).filter fun cf => cf.direction = k.2).map (·.flow)
      else []) = _
    unfold ProcessedRule.given
    split_ifs with hp
    · rw [filter_spare (by rw [hp]; exact h)]
    · rfl
  show (p.rules.map (ProcessedRule.without T ks)).flatMap (ProcessedRule.given T k.1 k.2) =
    p.rules.flatMap (ProcessedRule.given T k.1 k.2)
  rw [List.flatMap_map]
  exact List.flatMap_congr fun rule _ => hrule rule

/-! ## One alert -/

/-- The loop variables after some alerts of a tick that started with the processor `p`. -/
structure Tick.Shares (T : IpText) (p : FlowProcessor) (t : Tick) : Prop where
  processor : t.processor = p.without T t.drained.keys
  flows : ∀ k flows, t.drained.lookup k = some flows → flows = (p.drainCapturedFlows T k.1 k.2).1

theorem Tick.Shares.start (p : FlowProcessor) (payloads : List AlertPayload) (issued : ℕ) :
    Shares T p ⟨p, ∅, payloads, issued⟩ :=
  ⟨(without_nil T p).symm, fun k flows h => by simp at h⟩

/-- **A drain** gives what the key had at the start. -/
theorem Tick.Shares.drain {t : Tick} (h : t.Shares T p) (k : String × Direction) :
    (t.drain T k.1 k.2).1 = (p.drainCapturedFlows T k.1 k.2).1 ∧ (t.drain T k.1 k.2).2.Shares T p ∧
      ∀ k', k' ∈ (t.drain T k.1 k.2).2.drained ↔ k' ∈ t.drained ∨ k' = k := by
  cases hl : t.drained.lookup k with
  | some flows =>
    have hk : k ∈ t.drained := AList.lookup_isSome.mp (by rw [hl]; rfl)
    have hdrain : t.drain T k.1 k.2 = (flows, t) := by
      unfold Tick.drain
      rw [show t.drained.lookup (k.1, k.2) = some flows from hl]
    rw [hdrain]
    refine ⟨h.flows k flows hl, h, fun k' => ⟨.inl, ?_⟩⟩
    rintro (hk' | rfl)
    · exact hk'
    · exact hk
  | none =>
    have hk : k ∉ t.drained.keys := fun hk => by
      have hsome := AList.lookup_isSome.mpr (AList.mem_keys.mpr hk)
      rw [hl] at hsome
      cases hsome
    have hflows : (t.processor.drainCapturedFlows T k.1 k.2).1 = (p.drainCapturedFlows T k.1 k.2).1 := by
      rw [h.processor]
      exact drain_without p hk
    have hdrain : t.drain T k.1 k.2 = ((p.drainCapturedFlows T k.1 k.2).1,
        { t with
          processor := (t.processor.drainCapturedFlows T k.1 k.2).2
          drained := t.drained.insert k (p.drainCapturedFlows T k.1 k.2).1 }) := by
      unfold Tick.drain
      rw [show t.drained.lookup (k.1, k.2) = none from hl, ← hflows]
    have hmem : ∀ k', k' ∈ t.drained.insert k (p.drainCapturedFlows T k.1 k.2).1 ↔ k' ∈ t.drained ∨ k' = k := by
      intro k'
      rw [AList.mem_insert, or_comm]
    rw [hdrain]
    refine ⟨rfl, ⟨?_, fun k' flows hk' => ?_⟩, hmem⟩
    · show (t.processor.drainCapturedFlows T k.1 k.2).2 = _
      rw [drain_eq_without, h.processor]
      refine without_without p fun k' => ?_
      rw [← AList.mem_keys, hmem, AList.mem_keys, List.mem_singleton]
    · rw [HashMap.lookup_insert'] at hk'
      split_ifs at hk' with heq
      · rw [heq, Option.some.inj hk']
      · exact h.flows k' flows hk'

/-- The payload without the id that a fire issues. -/
def AlertPayload.unissued (payload : AlertPayload) : AlertPayload :=
  if payload.action = AlertAction.fire.toString then { payload with alertId := .nil } else payload

namespace AlertInstance

variable (T : IpText) (ord : ℕ → HashOrder) (snapshots : List RateSnapshot) (now : Instant)

def captureKey (a : AlertInstance) : String × Direction := (a.ipPrefix, a.direction)

/-- The alert fires or updates in the tick, so it asks for captured flows. -/
def Asks (a : AlertInstance) : Prop :=
  a.reaction snapshots now = some .fire ∨ a.reaction snapshots now = some .update

instance : DecidablePred (Asks snapshots now) := fun _ => inferInstanceAs (Decidable (_ ∨ _))

/-- What the alert sends in a tick that starts with the processor `p`. -/
def report (p : FlowProcessor) (a : AlertInstance) : Option AlertPayload :=
  (a.reaction snapshots now).map fun action =>
    (a.buildPayload (a.rate snapshots) action.toString
      (a.advice T ord (p.drainCapturedFlows T a.ipPrefix a.direction).1 (a.rate snapshots) action)).unissued

end AlertInstance

theorem Rebuilt.captureKey_eq {a a' : AlertInstance} (h : Rebuilt a a') : a'.captureKey = a.captureKey := by
  rw [h]
  rfl

section Evaluate

variable {ord : ℕ → HashOrder} {snapshots : List RateSnapshot} {now : Instant} {t : Tick}

/-- An alert that asks drains its key, any other leaves processor and drained flows as they are. -/
theorem evaluateAlert_drained (T : IpText) (ords : ℕ → ℕ → HashOrder) (snapshots : List RateSnapshot)
    (now : Instant) (t : Tick) (a : AlertInstance) :
    let t' := (evaluateAlert T ords snapshots now t a).1
    let t₁ := if a.Asks snapshots now then (t.drain T a.ipPrefix a.direction).2 else t
    t'.processor = t₁.processor ∧ t'.drained = t₁.drained := by
  obtain ⟨s, action, hev⟩ : ∃ s action, a.evaluate (a.rate snapshots) now = ({ a with state := s }, action) :=
    ⟨_, _, Prod.ext (a.evaluate_frame _ _) rfl⟩
  have hr : a.reaction snapshots now = action := by rw [AlertInstance.reaction, hev]
  simp only [evaluateAlert, hev, AlertInstance.Asks, hr]
  rcases action with - | - | - | - <;> exact ⟨rfl, rfl⟩

/-- What an alert sends does not depend on its state and id, but for the id of an update or resolve. -/
theorem unissued_buildPayload {a a' : AlertInstance} (h : Rebuilt a a') {action : AlertAction}
    (hid : action ≠ .fire → a'.alertId = a.alertId) (value : ℚ) (rules : List MitigationRule) :
    (a'.buildPayload value action.toString rules).unissued =
      (a.buildPayload value action.toString rules).unissued := by
  rw [h]
  cases action with
  | fire => rfl
  | _ =>
    rw [hid (by decide)]
    rfl

/-- **One alert**: the loop variables still share the flows of the start. -/
theorem Tick.Shares.alert (h : t.Shares T p) (ords : ℕ → ℕ → HashOrder) (snapshots : List RateSnapshot)
    (now : Instant) (a : AlertInstance) :
    let t' := (evaluateAlert T ords snapshots now t a).1
    t'.Shares T p ∧ ∀ k, k ∈ t'.drained ↔ k ∈ t.drained ∨ (a.Asks snapshots now ∧ k = a.captureKey) := by
  intro t'
  obtain ⟨-, hshares, hmem⟩ := h.drain a.captureKey
  obtain ⟨hp, hd⟩ := evaluateAlert_drained T ords snapshots now t a
  refine ⟨?_, fun k => ?_⟩
  · have hcopy : ∀ u : Tick, u.Shares T p → t'.processor = u.processor → t'.drained = u.drained →
        t'.Shares T p := by
      intro u hu h1 h2
      exact ⟨by rw [h1, h2]; exact hu.processor, by rw [h2]; exact hu.flows⟩
    split_ifs at hp hd
    · exact hcopy _ hshares hp hd
    · exact hcopy _ h hp hd
  · show k ∈ t'.drained ↔ _
    rw [hd]
    split_ifs with hasks
    · simp only [hasks, true_and]
      exact hmem k
    · simp [hasks]

/-- **All alerts**, one after the other. -/
theorem Tick.Shares.alerts (h : t.Shares T p) (ords : ℕ → ℕ → HashOrder) (snapshots : List RateSnapshot)
    (now : Instant) (alerts : List AlertInstance) :
    let t' := (evaluateAlerts T ords snapshots now t alerts).1
    t'.Shares T p ∧
      ∀ k, k ∈ t'.drained ↔ k ∈ t.drained ∨ ∃ a ∈ alerts, a.Asks snapshots now ∧ k = a.captureKey := by
  induction alerts generalizing t with
  | nil => exact ⟨h, by simp [NetAlert.evaluateAlerts]⟩
  | cons a alerts ih =>
    obtain ⟨h₁, hmem₁⟩ := h.alert ords snapshots now a
    obtain ⟨h₂, hmem₂⟩ := ih h₁
    refine ⟨h₂, fun k => (hmem₂ k).trans ?_⟩
    rw [hmem₁, or_assoc]
    simp only [List.mem_cons, exists_eq_or_imp]

/-- **One alert** sends its report. -/
theorem Tick.Shares.alert_payloads (h : t.Shares T p) (ord : ℕ → HashOrder) (snapshots : List RateSnapshot)
    (now : Instant) (a : AlertInstance) :
    (evaluateAlert T (fun _ => ord) snapshots now t a).1.payloads.map AlertPayload.unissued =
      t.payloads.map AlertPayload.unissued ++ (a.report T ord snapshots now p).toList := by
  have hflows := (h.drain a.captureKey).1
  have hev : Evaluated T (fun _ => ord) snapshots now t (evaluateAlert T (fun _ => ord) snapshots now t a).1 a
      (evaluateAlert T (fun _ => ord) snapshots now t a).2 := evaluateAlert_evaluated t a
  have hid : ∀ action, a.reaction snapshots now = some action → action ≠ .fire →
      (evaluateAlert T (fun _ => ord) snapshots now t a).2.alertId = a.alertId := by
    intro action hr hne
    rw [hev.alertId, if_neg]
    rw [hr]
    exact fun he => hne (Option.some.inj he)
  rw [hev.payloads, List.map_append]
  congr 1
  unfold AlertInstance.report
  cases hr : a.reaction snapshots now with
  | none => rfl
  | some action =>
    show [_] = [_]
    rw [unissued_buildPayload hev.rebuilt (hid action hr),
      show (t.drain T a.ipPrefix a.direction).1 = _ from hflows]
    rfl

theorem Tick.Shares.alerts_payloads (h : t.Shares T p) (ord : ℕ → HashOrder) (snapshots : List RateSnapshot)
    (now : Instant) (alerts : List AlertInstance) :
    (evaluateAlerts T (fun _ => ord) snapshots now t alerts).1.payloads.map AlertPayload.unissued =
      t.payloads.map AlertPayload.unissued ++ alerts.filterMap (AlertInstance.report T ord snapshots now p) := by
  induction alerts generalizing t with
  | nil => simp [NetAlert.evaluateAlerts]
  | cons a alerts ih =>
    apply (ih (h.alert (fun _ => ord) snapshots now a).1).trans
    rw [h.alert_payloads, List.append_assoc, List.filterMap_cons]
    cases a.report T ord snapshots now p <;> rfl

/-- **The payload of an alert that asks** carries the suggestions for the flows that its key had at the start. -/
theorem AllEvaluated.payload_of_asks {ords : ℕ → ℕ → HashOrder} {t' : Tick} {as as' : List AlertInstance}
    (h : AllEvaluated T ords snapshots now t as t' as') {i : ℕ} {a : AlertInstance} (hi : as[i]? = some a)
    (hasks : a.Asks snapshots now) :
    ∃ n payload, t'.payloads[t.payloads.length + acting snapshots now (as.take i)]? = some payload ∧
      payload.mitigationRules = a.suggest T (ords n) (t.drain T a.ipPrefix a.direction).1 (a.rate snapshots) := by
  rcases hasks with hr | hr
  · obtain ⟨a', n, -, hpayload⟩ := h.payload_of hi hr
    exact ⟨n, _, hpayload, rfl⟩
  · obtain ⟨a', n, -, hpayload⟩ := h.payload_of hi hr
    exact ⟨n, _, hpayload, rfl⟩

/-- The keys of the alerts that ask. -/
def askedKeys (snapshots : List RateSnapshot) (now : Instant) (alerts : List AlertInstance) :
    List (String × Direction) :=
  (alerts.filter fun a => a.Asks snapshots now).map AlertInstance.captureKey

theorem mem_askedKeys {alerts : List AlertInstance} {k : String × Direction} :
    k ∈ askedKeys snapshots now alerts ↔ ∃ a ∈ alerts, a.Asks snapshots now ∧ k = a.captureKey := by
  simp only [askedKeys, List.mem_map, List.mem_filter, decide_eq_true_eq, and_assoc, eq_comm (b := k)]

/-- **One tick** takes out the captures of the keys of the alerts that ask. -/
theorem evaluate_processor (T : IpText) (ords : ℕ → ℕ → HashOrder) (snapshots : List RateSnapshot)
    (now : Instant) (m : AlertManager) (p : FlowProcessor) (issued : ℕ) :
    (m.evaluate T ords snapshots now p issued).2.processor = p.without T (askedKeys snapshots now m.alerts) := by
  obtain ⟨hshares, hmem⟩ := (Tick.Shares.start (T := T) p [] issued).alerts ords snapshots now m.alerts
  show (evaluateAlerts T ords snapshots now ⟨p, ∅, [], issued⟩ m.alerts).1.processor = _
  rw [hshares.processor]
  apply without_congr p
  intro k
  rw [← AList.mem_keys, hmem, mem_askedKeys]
  simp

end Evaluate

/-! ## The order of the alerts -/

/-- Every alert of a tick goes into a state of its own, and only a fire changes its id. -/
theorem AllEvaluated.each {ords : ℕ → ℕ → HashOrder} {snapshots : List RateSnapshot} {now : Instant} {t t' : Tick}
    {as as' : List AlertInstance} (h : AllEvaluated T ords snapshots now t as t' as') :
    List.Forall₂ (fun a a' => Rebuilt a a' ∧ a'.state = (a.evaluate (a.rate snapshots) now).1.state ∧
      (a.reaction snapshots now ≠ some .fire → a'.alertId = a.alertId)) as as' := by
  induction h with
  | nil t => exact .nil
  | cons h _ ih =>
    refine .cons ⟨h.rebuilt, h.state, fun hne => ?_⟩ ih
    rw [h.alertId, if_neg hne]

/-- Captures of a direction that is not taken out stay. -/
theorem forall₂_without (p : FlowProcessor) (keys : List (String × Direction)) :
    List.Forall₂ (fun rule rule' : ProcessedRule => rule'.buffers = rule.buffers ∧
      ∀ d, (T.net rule.ipPrefix, d) ∉ keys → rule'.captureBuffer.filter (fun cf => cf.direction = d) =
        rule.captureBuffer.filter fun cf => cf.direction = d) p.rules (p.without T keys).rules := by
  refine List.forall₂_map_right_iff.mpr (List.forall₂_same.mpr fun rule _ => ⟨rfl, fun d hd => ?_⟩)
  exact filter_spare hd rule.captureBuffer

/-- **Alerts do not compete for captured flows.**  In a tick every alert sends its report, which depends on
the alert and the processor at the start of the tick only, and goes into a state that depends on the alert
only.  Buffers, and captures of keys for which no alert fires or updates, are unchanged.  With the alerts in
another order the payloads and the alerts with their states are the same but for that order, and the
processor is the same. -/
theorem evaluate_perm (T : IpText) (ord : ℕ → HashOrder) (snapshots : List RateSnapshot) (now : Instant)
    (p : FlowProcessor) (issued : ℕ) (m : AlertManager) :
    let run (m : AlertManager) := m.evaluate T (fun _ => ord) snapshots now p issued
    let states (m : AlertManager) := (m.alerts.zip (run m).1.alerts).map fun e => (e.1, e.2.state)
    (run m).2.payloads.map AlertPayload.unissued =
        m.alerts.filterMap (AlertInstance.report T ord snapshots now p) ∧
      List.Forall₂ (fun a a' => Rebuilt a a' ∧ a'.state = (a.evaluate (a.rate snapshots) now).1.state ∧
        (a.reaction snapshots now ≠ some .fire → a'.alertId = a.alertId)) m.alerts (run m).1.alerts ∧
      List.Forall₂ (fun (rule rule' : ProcessedRule) => rule'.buffers = rule.buffers ∧
        ∀ d, (∀ a ∈ m.alerts, a.captureKey = (T.net rule.ipPrefix, d) → ¬ a.Asks snapshots now) →
          rule'.captureBuffer.filter (fun cf => cf.direction = d) =
            rule.captureBuffer.filter fun cf => cf.direction = d) p.rules (run m).2.processor.rules ∧
      ∀ m' : AlertManager, m.alerts.Perm m'.alerts →
        ((run m).2.payloads.map AlertPayload.unissued).Perm ((run m').2.payloads.map AlertPayload.unissued) ∧
          (states m).Perm (states m') ∧ (run m').2.processor = (run m).2.processor := by
  intro run states
  have hpayloads : ∀ m : AlertManager, (run m).2.payloads.map AlertPayload.unissued =
      m.alerts.filterMap (AlertInstance.report T ord snapshots now p) := fun m =>
    (Tick.Shares.start p [] issued).alerts_payloads ord snapshots now m.alerts
  have hstates : ∀ m : AlertManager, states m =
      m.alerts.map fun a => (a, (a.evaluate (a.rate snapshots) now).1.state) := fun m =>
    Relate.forall₂_zip_map ((evaluateAlerts_evaluated T (fun _ => ord) snapshots now ⟨p, ∅, [], issued⟩
      m.alerts).each.imp fun _ _ h => h.2.1)
  have hprocessor : ∀ m : AlertManager, (run m).2.processor = p.without T (askedKeys snapshots now m.alerts) :=
    fun m => evaluate_processor T (fun _ => ord) snapshots now m p issued
  refine ⟨hpayloads m, (evaluateAlerts_evaluated _ _ _ _ _ _).each, ?_, fun m' hperm => ⟨?_, ?_, ?_⟩⟩
  · rw [hprocessor]
    refine (forall₂_without p _).imp fun rule rule' h => ⟨h.1, fun d hd => h.2 d fun hmem => ?_⟩
    obtain ⟨a, ha, hasks, hk⟩ := mem_askedKeys.mp hmem
    exact hd a ha hk.symm hasks
  · rw [hpayloads m, hpayloads m']
    exact hperm.filterMap _
  · rw [hstates m, hstates m']
    exact hperm.map _
  · rw [hprocessor, hprocessor]
    apply without_congr p
    intro k
    simp only [mem_askedKeys, hperm.mem_iff]

end NetAlert

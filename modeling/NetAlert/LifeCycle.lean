import NetAlert.Lib.Session
import NetAlert.Reload

/-!
# NetAlert.LifeCycle — the payloads of one key

For a key that every loaded configuration has exactly once, the payloads of a run are sessions
(`lifecycle`): a trigger, any number of updates and a resolve, all with the id of the trigger, and no
two sessions share an id.  `Alive` ties the state and id of the key's alert to the open session; a tick
(`Alive.evaluate`) and a reload (`Alive.reload`) keep it.
-/

namespace NetAlert

theorem ProtocolCategory.toString_injective : Function.Injective ProtocolCategory.toString := by
  intro a b
  cases a <;> cases b <;> decide

theorem Direction.toString_injective : Function.Injective Direction.toString := by
  intro a b
  cases a <;> cases b <;> decide

theorem MetricType.toString_injective : Function.Injective MetricType.toString := by
  intro a b
  cases a <;> cases b <;> decide

/-! ## The payloads and the alert of a key -/

/-- The payload is about the alert of the key. -/
def AlertPayload.isFor (p : AlertPayload) (K : AlertKey) : Prop :=
  p.ipPrefix = K.ipPrefix ∧ p.protocol = K.protocol.toString ∧ p.direction = K.direction.toString ∧
    p.metric = K.metric.toString

instance (p : AlertPayload) (K : AlertKey) : Decidable (p.isFor K) := inferInstanceAs (Decidable (_ ∧ _))

theorem isFor_buildPayload (a : AlertInstance) (K : AlertKey) (value : ℚ) (action : String)
    (rules : List MitigationRule) : (a.buildPayload value action rules).isFor K ↔ a.key = K := by
  obtain ⟨ipPrefix, protocol, direction, metric⟩ := K
  simp only [AlertPayload.isFor, AlertInstance.buildPayload, AlertInstance.key, AlertKey.mk.injEq,
    ProtocolCategory.toString_injective.eq_iff, Direction.toString_injective.eq_iff,
    MetricType.toString_injective.eq_iff]

/-- Actions and ids of the payloads of a key. -/
def traceOf (K : AlertKey) (payloads : List AlertPayload) : List (String × Uuid) :=
  (payloads.filter fun p => p.isFor K).map fun p => (p.action, p.alertId)

/-- The alerts of a key. -/
def alertsOf (K : AlertKey) (alerts : List AlertInstance) : List AlertInstance :=
  alerts.filter fun a => a.key = K

variable {T : IpText} {K : AlertKey}

theorem alertsOf_cons {a : AlertInstance} (h : a.key = K) (l : List AlertInstance) :
    alertsOf K (a :: l) = a :: alertsOf K l := by
  simp [alertsOf, h]

theorem alertsOf_cons_of_ne {a : AlertInstance} (h : ¬ a.key = K) (l : List AlertInstance) :
    alertsOf K (a :: l) = alertsOf K l := by
  simp [alertsOf, h]

theorem traceOf_append (l l' : List AlertPayload) : traceOf K (l ++ l') = traceOf K l ++ traceOf K l' := by
  simp [traceOf]

section Tick

variable {ords : ℕ → ℕ → HashOrder} {snapshots : List RateSnapshot} {now : Instant} {t t' : Tick}

/-- An alert adds its action to the trace of its own key only. -/
theorem Evaluated.traceOf {a a' : AlertInstance} (h : Evaluated T ords snapshots now t t' a a') :
    traceOf K t'.payloads = traceOf K t.payloads ++
      if a.key = K then (a.reaction snapshots now).toList.map fun action => (action.toString, a'.alertId)
      else [] := by
  rw [h.payloads, traceOf_append]
  congr 1
  cases a.reaction snapshots now with
  | none => simp [NetAlert.traceOf]
  | some action =>
    have hkey : ∀ rules, (a'.buildPayload (a.rate snapshots) action.toString rules).isFor K ↔ a.key = K :=
      fun rules => by rw [isFor_buildPayload, h.rebuilt.key_eq]
    by_cases hk : a.key = K <;>
      simp only [Option.toList_some, List.map_cons, List.map_nil, NetAlert.traceOf, List.filter_cons,
        List.filter_nil, hkey, hk, decide_true, decide_false, if_true, if_false, Bool.false_eq_true]
    all_goals rfl

theorem Evaluated.issued_le {a a' : AlertInstance} (h : Evaluated T ords snapshots now t t' a a') :
    t.issued ≤ t'.issued := by
  rw [h.issued]
  split_ifs <;> omega

theorem AllEvaluated.issued_le {as as' : List AlertInstance}
    (h : AllEvaluated T ords snapshots now t as t' as') : t.issued ≤ t'.issued := by
  induction h with
  | nil => exact le_rfl
  | cons h _ ih => exact h.issued_le.trans ih

/-- Alerts of other keys leave the trace alone. -/
theorem AllEvaluated.none_of {as as' : List AlertInstance} (h : AllEvaluated T ords snapshots now t as t' as')
    (hK : alertsOf K as = []) : alertsOf K as' = [] ∧ traceOf K t'.payloads = traceOf K t.payloads := by
  induction h with
  | nil => exact ⟨rfl, rfl⟩
  | @cons _ _ _ a a' _ _ h _ ih =>
    by_cases hk : a.key = K
    · simp [alertsOf, hk] at hK
    · have hk' : ¬ a'.key = K := by rwa [h.rebuilt.key_eq]
      obtain ⟨h1, h2⟩ := ih (by simpa [alertsOf, hk] using hK)
      exact ⟨by simpa [alertsOf, hk'] using h1, by rw [h2, h.traceOf, if_neg hk, List.append_nil]⟩

/-- **A tick** takes the only alert of a key one step and adds its action; a fire takes the next id. -/
theorem AllEvaluated.single_of {as as' : List AlertInstance} {a : AlertInstance}
    (h : AllEvaluated T ords snapshots now t as t' as') (hK : alertsOf K as = [a]) :
    ∃ a' n, alertsOf K as' = [a'] ∧ a'.state = (a.evaluate (a.rate snapshots) now).1.state ∧
      a'.alertId = (if a.reaction snapshots now = some .fire then .v4 n else a.alertId) ∧
      t.issued ≤ n ∧ (a.reaction snapshots now = some .fire → n < t'.issued) ∧
      traceOf K t'.payloads = traceOf K t.payloads ++
        (a.reaction snapshots now).toList.map fun action => (action.toString, a'.alertId) := by
  induction h with
  | nil => simp [alertsOf] at hK
  | @cons t t₁ _ b b' _ _ h hs ih =>
    by_cases hk : b.key = K
    · have hk' : b'.key = K := by rw [h.rebuilt.key_eq, hk]
      simp only [alertsOf, List.filter_cons, hk, decide_true, if_true, List.cons.injEq] at hK
      obtain ⟨rfl, hrest⟩ := hK
      obtain ⟨h1, h2⟩ := hs.none_of hrest
      refine ⟨b', t.issued, ?_, h.state, h.alertId, le_rfl, fun hf => ?_, ?_⟩
      · simpa [alertsOf, hk'] using h1
      · have := hs.issued_le
        rw [h.issued, if_pos hf] at this
        omega
      · rw [h2, h.traceOf, if_pos hk]
    · have hk' : ¬ b'.key = K := by rwa [h.rebuilt.key_eq]
      obtain ⟨a', n, h1, h2, h3, h4, h5, h6⟩ := ih (by simpa [alertsOf, hk] using hK)
      refine ⟨a', n, by simpa [alertsOf, hk'] using h1, h2, h3, h.issued_le.trans h4, h5, ?_⟩
      rw [h6, h.traceOf, if_neg hk, List.append_nil]

end Tick

/-! ## Open and closed -/

def AlertState.isOpen : AlertState → Bool
  | .firing _ | .recovering _ => true
  | _ => false

/-- What an action says about the states around it. -/
def Consistent (action : Option AlertAction) (before after : Bool) : Prop :=
  match action with
  | none => after = before
  | some .fire => before = false ∧ after = true
  | some .update => before = true ∧ after = true
  | some .resolve => before = true ∧ after = false

theorem AlertInstance.Step.consistent {a : AlertInstance} {rate : ℚ} {now : Instant} {s s' : AlertState}
    {action : Option AlertAction} (h : a.Step rate now s s' action) :
    Consistent action s.isOpen s'.isOpen := by
  cases h <;> simp [Consistent, AlertState.isOpen]

/-- The alert of a key and the open session go together. -/
def Matched (alerts : List AlertInstance) (opened : Option (Uuid × ℕ)) : Prop :=
  match opened with
  | none => alerts = [] ∨ ∃ a, alerts = [a] ∧ a.state.isOpen = false
  | some (id, _) => ∃ a, alerts = [a] ∧ a.state.isOpen = true ∧ a.alertId = id

theorem matched_singleton {a : AlertInstance} {opened : Option (Uuid × ℕ)} (h : Matched [a] opened) :
    a.state.isOpen = opened.isSome ∧ ∀ id n, opened = some (id, n) → a.alertId = id := by
  cases opened with
  | none =>
    rcases h with hnil | ⟨b, hb, ho⟩
    · cases hnil
    · cases hb
      exact ⟨ho, by simp⟩
  | some v =>
    obtain ⟨b, hb, ho, hid⟩ := h
    cases hb
    exact ⟨ho, fun id n he => by cases he; exact hid⟩

/-- **Invariant.**  The payloads of the key are the sessions of a history whose ids have been issued and
are distinct, and the alert of the key is in step with its open session. -/
structure Alive (K : AlertKey) (s : ManagerRun) (h : Session.History Uuid) : Prop where
  trace : traceOf K s.sent = h.trace "trigger" "update" "resolve"
  nodup : h.ids.Nodup
  issued : ∀ id ∈ h.ids, ∃ n < s.issued, id = .v4 n
  matched : Matched (alertsOf K s.manager.alerts) h.opened

theorem alive_start (scriptPath : Option String) :
    Alive K (ManagerRun.start scriptPath) Session.History.empty :=
  ⟨rfl, List.nodup_nil, by simp [Session.History.ids, Session.History.empty], .inl rfl⟩

variable {s s' : ManagerRun} {h : Session.History Uuid}

/-- Ids stay issued. -/
theorem Alive.ids_mono (hA : Alive K s h) {issued : ℕ} (hle : s.issued ≤ issued) :
    ∀ id ∈ h.ids, ∃ n < issued, id = .v4 n := by
  intro id hid
  obtain ⟨n, hn, rfl⟩ := hA.issued id hid
  exact ⟨n, hn.trans_le hle, rfl⟩

section Sessions

variable {closed : List (Uuid × ℕ)} {a' : AlertInstance} (hal' : alertsOf K s'.manager.alerts = [a'])
  (hle : s.issued ≤ s'.issued)

include hal' hle

/-- Silence leaves the sessions as they are. -/
theorem Alive.silent (hA : Alive K s h) (hopen : a'.state.isOpen = h.opened.isSome)
    (hid : ∀ id m, h.opened = some (id, m) → a'.alertId = id) (htrace : traceOf K s'.sent = traceOf K s.sent) :
    Alive K s' h := by
  refine ⟨htrace.trans hA.trace, hA.nodup, hA.ids_mono hle, ?_⟩
  rw [hal']
  unfold Matched
  split
  · rename_i hnone
    exact .inr ⟨a', rfl, by simpa [hnone] using hopen⟩
  · rename_i id m hsome
    exact ⟨a', rfl, by simpa [hsome] using hopen, hid id m hsome⟩

/-- A session starts under an id that has not been issued before. -/
theorem Alive.fire {n : ℕ} (hA : Alive K s ⟨closed, none⟩) (hopen : a'.state.isOpen = true)
    (hid : a'.alertId = .v4 n) (hn : s.issued ≤ n) (hn' : n < s'.issued)
    (htrace : traceOf K s'.sent = traceOf K s.sent ++ [("trigger", a'.alertId)]) :
    Alive K s' ⟨closed, some (a'.alertId, 0)⟩ := by
  refine ⟨?_, ?_, ?_, ?_⟩
  · rw [htrace, hA.trace, Session.History.trace_start]
  · rw [Session.History.ids_start, List.nodup_append]
    refine ⟨hA.nodup, List.nodup_singleton _, fun id hmem id' hmem' => ?_⟩
    obtain ⟨m, hm, rfl⟩ := hA.issued id hmem
    rw [List.mem_singleton.mp hmem', hid]
    rintro ⟨rfl⟩
    omega
  · rw [Session.History.ids_start]
    intro id hmem
    rcases List.mem_append.mp hmem with hmem | hmem
    · exact hA.ids_mono hle id hmem
    · exact ⟨n, hn', (List.mem_singleton.mp hmem).trans hid⟩
  · rw [hal']
    exact ⟨a', rfl, hopen, rfl⟩

/-- A session goes on. -/
theorem Alive.update {m : ℕ} (hA : Alive K s ⟨closed, some (a'.alertId, m)⟩) (hopen : a'.state.isOpen = true)
    (htrace : traceOf K s'.sent = traceOf K s.sent ++ [("update", a'.alertId)]) :
    Alive K s' ⟨closed, some (a'.alertId, m + 1)⟩ := by
  refine ⟨?_, ?_, ?_, ?_⟩
  · rw [htrace, hA.trace, Session.History.trace_mid]
  · rw [Session.History.ids_mid]
    exact hA.nodup
  · rw [Session.History.ids_mid]
    exact hA.ids_mono hle
  · rw [hal']
    exact ⟨a', rfl, hopen, rfl⟩

/-- A session stops. -/
theorem Alive.resolve {m : ℕ} (hA : Alive K s ⟨closed, some (a'.alertId, m)⟩) (hopen : a'.state.isOpen = false)
    (htrace : traceOf K s'.sent = traceOf K s.sent ++ [("resolve", a'.alertId)]) :
    Alive K s' ⟨closed ++ [(a'.alertId, m)], none⟩ := by
  refine ⟨?_, ?_, ?_, ?_⟩
  · rw [htrace, hA.trace, Session.History.trace_stop]
  · rw [Session.History.ids_stop]
    exact hA.nodup
  · rw [Session.History.ids_stop]
    exact hA.ids_mono hle
  · rw [hal']
    exact .inr ⟨a', rfl, hopen⟩

end Sessions

/-- **An action of the key's alert** starts, continues or stops its session. -/
theorem Alive.react {a a' : AlertInstance} {action : Option AlertAction} {n : ℕ} (hA : Alive K s h)
    (hal : alertsOf K s.manager.alerts = [a]) (hal' : alertsOf K s'.manager.alerts = [a'])
    (hstep : Consistent action a.state.isOpen a'.state.isOpen)
    (hid : a'.alertId = if action = some .fire then .v4 n else a.alertId) (hn : s.issued ≤ n)
    (hn' : action = some .fire → n < s'.issued) (hle : s.issued ≤ s'.issued)
    (htrace : traceOf K s'.sent = traceOf K s.sent ++
      action.toList.map fun action => (action.toString, a'.alertId)) :
    ∃ h', Alive K s' h' := by
  obtain ⟨closed, opened⟩ := h
  obtain ⟨hopen, hsame⟩ := matched_singleton (hal ▸ hA.matched)
  rw [hopen] at hstep
  cases action with
  | none =>
    rw [if_neg (by simp)] at hid
    exact ⟨_, hA.silent hal' hle hstep (fun id m heq => hid.trans (hsame id m heq)) (by simpa using htrace)⟩
  | some action =>
    cases action with
    | fire =>
      obtain ⟨hclosed, hopen'⟩ := hstep
      obtain rfl : opened = none := by simpa using hclosed
      exact ⟨_, hA.fire hal' hle hopen' hid hn (hn' rfl) htrace⟩
    | update =>
      obtain ⟨hsome, hopen'⟩ := hstep
      obtain ⟨⟨id, m⟩, rfl⟩ := Option.isSome_iff_exists.mp hsome
      obtain rfl : a'.alertId = id := hid.trans (hsame id m rfl)
      exact ⟨_, hA.update hal' hle hopen' htrace⟩
    | resolve =>
      obtain ⟨hsome, hclosed⟩ := hstep
      obtain ⟨⟨id, m⟩, rfl⟩ := Option.isSome_iff_exists.mp hsome
      obtain rfl : a'.alertId = id := hid.trans (hsame id m rfl)
      exact ⟨_, hA.resolve hal' hle hclosed htrace⟩

/-- **A tick.** -/
theorem Alive.evaluate (hA : Alive K s h) (input : TickInput) :
    ∃ h', Alive K (s.step T (.evaluate input)) h' := by
  have hev := evaluateAlerts_evaluated T input.ords input.snapshots input.now
    ⟨input.processor, ∅, [], s.issued⟩ s.manager.alerts
  have hle := hev.issued_le
  have hmatched := hA.matched
  cases hal : alertsOf K s.manager.alerts with
  | nil =>
    obtain ⟨h1, h2⟩ := hev.none_of hal
    refine ⟨h, ?_, hA.nodup, hA.ids_mono hle, ?_⟩
    · show traceOf K (s.sent ++ _) = _
      rw [traceOf_append, h2, hA.trace]
      simp [traceOf]
    · rw [hal] at hmatched
      exact h1 ▸ hmatched
  | cons a rest =>
    obtain rfl : rest = [] := by
      rw [hal] at hmatched
      unfold Matched at hmatched
      split at hmatched
      · rcases hmatched with hnil | ⟨b, hb, -⟩
        · cases hnil
        · exact (List.cons.inj hb).2
      · obtain ⟨b, hb, -⟩ := hmatched
        exact (List.cons.inj hb).2
    obtain ⟨a', n, h1, h2, h3, h4, h5, h6⟩ := hev.single_of hal
    refine hA.react hal h1 ?_ h3 h4 h5 hle ?_
    · rw [h2]
      exact (a.evaluate_step _ _).consistent
    · show traceOf K (s.sent ++ _) = _
      rw [traceOf_append, h6]
      simp [traceOf]

/-! ## Reloads -/

/-- The only alert of a key asks for the state that was stored for it. -/
theorem alertsOf_carryOver {built : List AlertInstance} {b : AlertInstance} (hb : alertsOf K built = [b])
    (previous : HashMap AlertKey (AlertState × Uuid)) :
    alertsOf K (carryOver previous built) =
      [match previous.lookup K with
        | some (state, alertId) => { b with state := state, alertId := alertId }
        | none => b] := by
  induction built generalizing previous with
  | nil => simp [alertsOf] at hb
  | cons a built ih =>
    have hrest : ∀ (m : HashMap AlertKey (AlertState × Uuid)), alertsOf K built = [] →
        alertsOf K (carryOver m built) = [] := by
      intro m h
      simp only [alertsOf, List.filter_eq_nil_iff, decide_eq_true_eq] at h ⊢
      intro a' ha'
      obtain ⟨a, ha, hr⟩ := Relate.forall₂_left_of_mem (carryOver_rebuilt m built) ha'
      rw [hr.key_eq]
      exact h a ha
    by_cases hk : a.key = K
    · rw [alertsOf_cons hk] at hb
      obtain ⟨rfl, hnil⟩ := List.cons.inj hb
      unfold carryOver
      rw [hk]
      cases previous.lookup K with
      | some v => exact (alertsOf_cons (by exact hk) _).trans (by rw [hrest _ hnil])
      | none => exact (alertsOf_cons hk _).trans (by rw [hrest _ hnil])
    · rw [alertsOf_cons_of_ne hk] at hb
      unfold carryOver
      split
      · rw [alertsOf_cons_of_ne (by exact hk), ih hb, AList.lookup_erase_ne (Ne.symm hk)]
      · rw [alertsOf_cons_of_ne hk, ih hb]

/-- What was stored for the only alert of a key. -/
theorem lookup_previous (m : AlertManager) : m.previous.lookup K =
    (alertsOf K m.alerts).getLast?.map fun a => (a.state, a.alertId) := by
  rw [AlertManager.previous, HashMap.lookup_ofPairs, List.filter_map, List.getLast?_map, Option.map_map]
  rfl

/-- **A reload** of a configuration that has the key once. -/
theorem Alive.reload (hA : Alive K s h) {c : Config} (hc : (c.alertKeys T).count K = 1) :
    Alive K (s.step T (.reload c)) h := by
  obtain ⟨b, hb⟩ : ∃ b, alertsOf K (c.buildAlerts T) = [b] := by
    rw [Config.alertKeys, List.count, List.countP_map, List.countP_eq_length_filter] at hc
    obtain ⟨b, hb⟩ := List.length_eq_one_iff.mp hc
    refine ⟨b, ?_⟩
    rw [← hb, alertsOf]
    exact List.filter_congr fun a _ => by simp [beq_eq_decide]
  refine ⟨hA.trace, hA.nodup, hA.issued, ?_⟩
  have hidle := buildAlerts_idle (List.mem_of_mem_filter (hb ▸ List.mem_singleton_self b))
  have hmatched := hA.matched
  show Matched (alertsOf K (carryOver s.manager.previous (c.buildAlerts T))) _
  rw [alertsOf_carryOver hb, lookup_previous]
  cases hop : h.opened with
  | none =>
    rw [hop] at hmatched
    rcases hmatched with hnil | ⟨a, ha, ho⟩
    · rw [hnil]
      exact .inr ⟨b, rfl, by rw [hidle.1]; rfl⟩
    · rw [ha]
      exact .inr ⟨_, rfl, ho⟩
  | some v =>
    rw [hop] at hmatched
    obtain ⟨a, ha, ho, hid⟩ := hmatched
    rw [ha]
    exact ⟨_, rfl, ho, hid⟩

/-! ## Runs -/

/-- **Life cycle.**  In every run of reloads and ticks in which every loaded configuration has the key
exactly once, the payloads of the key are closed sessions and perhaps an open one, each with one id, and
the ids of the sessions are distinct. -/
theorem lifecycle (T : IpText) (scriptPath : Option String) (events : List ManagerEvent) (K : AlertKey)
    (hK : ∀ c, .reload c ∈ events → (c.alertKeys T).count K = 1) :
    ∃ h : Session.History Uuid,
      traceOf K ((ManagerRun.start scriptPath).run T events).sent = h.trace "trigger" "update" "resolve" ∧
        h.ids.Nodup := by
  suffices h : ∃ h, Alive K ((ManagerRun.start scriptPath).run T events) h by
    obtain ⟨h, hA⟩ := h
    exact ⟨h, hA.trace, hA.nodup⟩
  induction events using List.reverseRecOn with
  | nil => exact ⟨_, alive_start scriptPath⟩
  | append_singleton events e ih =>
    obtain ⟨h, hA⟩ := ih fun c hc => hK c (List.mem_append_left _ hc)
    rw [ManagerRun.run_concat]
    cases e with
    | reload c => exact ⟨h, hA.reload (hK c (by simp))⟩
    | evaluate input => exact hA.evaluate input

/-- A tick at a second, with a rate in Mbit/s towards 10.0.0.0/24. -/
def readmeTick (second : ℕ) (mbps : ℚ) : TickInput :=
  { ords := fun _ _ => HashOrder.stored
    snapshots := [⟨"10.0.0.0/24", ∅, .any, .inbound, mbps * 1000000, 0, 0⟩]
    processor := FlowProcessor.new 10
    now := Duration.fromSecs second }

/-- An attack of a minute, with a reload while the alert fires and one while it recovers. -/
def readmeEvents : List ManagerEvent :=
  [.reload .readme, .evaluate (readmeTick 0 400), .evaluate (readmeTick 3 400), .reload .readme,
    .evaluate (readmeTick 33 250), .evaluate (readmeTick 34 100), .reload .readme,
    .evaluate (readmeTick 64 100)]

theorem lifecycle_readme :
    let sent := ((ManagerRun.start none).run IpText.dotted readmeEvents).sent
    let K : AlertKey := ⟨"10.0.0.0/24", .any, .inbound, .bps⟩
    (∃ h : Session.History Uuid, traceOf K sent = h.trace "trigger" "update" "resolve" ∧ h.ids.Nodup) ∧
      traceOf K sent = [("trigger", .v4 0), ("update", .v4 0), ("resolve", .v4 0)] := by
  refine ⟨lifecycle IpText.dotted none readmeEvents ⟨"10.0.0.0/24", .any, .inbound, .bps⟩ fun c hc => ?_,
    by decide +kernel⟩
  have : c = .readme := by simpa [readmeEvents] using hc
  rw [this]
  decide

end NetAlert

import NetAlert.Lib.Json
import NetAlert.LifeCycle
import NetAlert.Staleness
import NetAlert.SteadyReload

/-!
# NetAlert.Payload — the JSON text of a payload (`alert.rs`, `mitigation.rs`)

`AlertManager::evaluate` writes every payload to the log and, if there is one, to the alert script as a JSON text.

* `payload_roundtrip`: the text tells the payload, a threshold that is not finite aside.
* `texts_track_alarms`: whoever reads the texts of a run knows at any time which alarms are open.
-/

namespace NetAlert

/-- The numbers of a payload: `u16` and finite `f64`. -/
inductive Number where
  | nat (n : ℕ)
  | float (q : ℚ)
  deriving DecidableEq

/-- `serde_json` and the text of a `Uuid`: what they write can be read back. -/
structure JsonText where
  print : Json Number → String
  parse : String → Option (Json Number)
  parse_print : ∀ j, parse (print j) = some j
  uuid : Uuid → String
  parseUuid : String → Option Uuid
  parseUuid_uuid : ∀ id, parseUuid (uuid id) = some id

/-! ## Writing (`#[derive(Serialize)]`) -/

/-- A float that is not finite is written as null. -/
def F64.toJson : F64 → Json Number
  | .num q => .num (.float q)
  | _ => .null

/-- Lists have `skip_serializing_if = "Vec::is_empty"`. -/
def MitigationRule.fields (rule : MitigationRule) : List (String × Option (Json Number)) :=
  [("source_prefix", rule.sourcePrefix.map .str),
    ("destination_prefix", some (.str rule.destinationPrefix)),
    ("destination_ports", Json.ofNonempty (rule.destinationPorts.map fun port => .num (.nat port.toNat))),
    ("source_ports", Json.ofNonempty (rule.sourcePorts.map fun port => .num (.nat port.toNat))),
    ("protocols", Json.ofNonempty (rule.protocols.map .str)),
    ("tcp_flags", Json.ofNonempty (rule.tcpFlags.map .str))]

def MitigationRule.toJson (rule : MitigationRule) : Json Number := .ofOptions rule.fields

def labelToJson (l : String × String) : String × Json Number := (l.1, .str l.2)

/-- The labels are written in the order of the hash map. -/
def AlertPayload.fields (J : JsonText) (ord : HashOrder) (payload : AlertPayload) :
    List (String × Option (Json Number)) :=
  [("alert_id", some (.str (J.uuid payload.alertId))),
    ("action", some (.str payload.action)),
    ("prefix", some (.str payload.ipPrefix)),
    ("protocol", some (.str payload.protocol)),
    ("direction", some (.str payload.direction)),
    ("metric", some (.str payload.metric)),
    ("value", some (F64.toJson (.num payload.value))),
    ("threshold", some payload.threshold.toJson),
    ("labels", some (.obj ((ord.iter payload.labels.toPairs).map labelToJson))),
    ("mitigation_rules", Json.ofNonempty (payload.mitigationRules.map MitigationRule.toJson))]

def AlertPayload.toJson (J : JsonText) (ord : HashOrder) (payload : AlertPayload) : Json Number :=
  .ofOptions (payload.fields J ord)

/-- `serde_json::to_string(payload)`. -/
def AlertPayload.text (J : JsonText) (ord : HashOrder) (payload : AlertPayload) : String :=
  J.print (payload.toJson J ord)

/-! ## Reading -/

def Number.asPort : Json Number → Option UInt16
  | .num (.nat n) => if n < 65536 then some (UInt16.ofNat n) else none
  | _ => none

def F64.ofJson : Json Number → Option F64
  | .num (.float q) => some (.num q)
  | .null => some .nan
  | _ => none

def F64.finite : F64 → Option ℚ
  | .num q => some q
  | _ => none

def MitigationRule.ofJson (j : Json Number) : Option MitigationRule := do
  let sourcePrefix ← match j.field "source_prefix" with
    | some s => s.asString.map some
    | none => some none
  let destinationPrefix ← (j.field "destination_prefix").bind Json.asString
  let destinationPorts ← j.listOf Number.asPort "destination_ports"
  let sourcePorts ← j.listOf Number.asPort "source_ports"
  let protocols ← j.listOf Json.asString "protocols"
  let tcpFlags ← j.listOf Json.asString "tcp_flags"
  return {
    sourcePrefix := sourcePrefix
    destinationPrefix := destinationPrefix
    destinationPorts := destinationPorts
    sourcePorts := sourcePorts
    protocols := protocols
    tcpFlags := tcpFlags }

def labelOfJson (l : String × Json Number) : Option (String × String) := l.2.asString.map fun value => (l.1, value)

/-- The labels of a payload. -/
def labelsOf (fields : List (String × Json Number)) : Option (HashMap String String) :=
  (fields.mapM labelOfJson).map HashMap.ofPairs

def AlertPayload.ofJson (J : JsonText) (j : Json Number) : Option AlertPayload := do
  let alertId ← ((j.field "alert_id").bind Json.asString).bind J.parseUuid
  let action ← (j.field "action").bind Json.asString
  let ipPrefix ← (j.field "prefix").bind Json.asString
  let protocol ← (j.field "protocol").bind Json.asString
  let direction ← (j.field "direction").bind Json.asString
  let metric ← (j.field "metric").bind Json.asString
  let value ← ((j.field "value").bind F64.ofJson).bind F64.finite
  let threshold ← (j.field "threshold").bind F64.ofJson
  let labels ← ((j.field "labels").bind Json.asPairs).bind labelsOf
  let mitigationRules ← j.listOf MitigationRule.ofJson "mitigation_rules"
  return {
    alertId := alertId
    action := action
    ipPrefix := ipPrefix
    protocol := protocol
    direction := direction
    metric := metric
    value := value
    threshold := threshold
    labels := labels
    mitigationRules := mitigationRules }

/-- What a text says. -/
def AlertPayload.ofText (J : JsonText) (text : String) : Option AlertPayload :=
  (J.parse text).bind (AlertPayload.ofJson J)

/-! ## Round trips -/

/-- A threshold as it is published. -/
def F64.published : F64 → F64
  | .num q => .num q
  | _ => .nan

theorem F64.ofJson_toJson (x : F64) : F64.ofJson x.toJson = some x.published := by
  cases x <;> rfl

theorem Number.asPort_toNat (port : UInt16) : Number.asPort (.num (.nat port.toNat)) = some port := by
  rw [Number.asPort, if_pos port.toNat_lt, UInt16.ofNat_toNat]

theorem MitigationRule.field_toJson (rule : MitigationRule) (key : String) :
    rule.toJson.field key = (rule.fields.lookup key).join := by
  have hnodup : (rule.fields.map Prod.fst).Nodup :=
    show (["source_prefix", "destination_prefix", "destination_ports", "source_ports", "protocols",
      "tcp_flags"] : List String).Nodup by decide
  exact Json.field_ofOptions hnodup key

theorem AlertPayload.field_toJson (J : JsonText) (ord : HashOrder) (payload : AlertPayload) (key : String) :
    (payload.toJson J ord).field key = ((payload.fields J ord).lookup key).join := by
  have hnodup : ((payload.fields J ord).map Prod.fst).Nodup :=
    show (["alert_id", "action", "prefix", "protocol", "direction", "metric", "value", "threshold", "labels",
      "mitigation_rules"] : List String).Nodup by decide
  exact Json.field_ofOptions hnodup key

/-- **A rule** reads back. -/
theorem MitigationRule.ofJson_toJson (rule : MitigationRule) : ofJson rule.toJson = some rule := by
  have hsource : rule.toJson.field "source_prefix" = rule.sourcePrefix.map .str := (rule.field_toJson _).trans (by
    simp [fields])
  have hdest : rule.toJson.field "destination_prefix" = some (.str rule.destinationPrefix) := rule.field_toJson _
  have hdports : rule.toJson.listOf Number.asPort "destination_ports" = some rule.destinationPorts :=
    Json.listOf_ofNonempty Number.asPort_toNat (rule.field_toJson _)
  have hsports : rule.toJson.listOf Number.asPort "source_ports" = some rule.sourcePorts :=
    Json.listOf_ofNonempty Number.asPort_toNat (rule.field_toJson _)
  have hprotocols : rule.toJson.listOf Json.asString "protocols" = some rule.protocols :=
    Json.listOf_ofNonempty (fun _ => rfl) (rule.field_toJson _)
  have hflags : rule.toJson.listOf Json.asString "tcp_flags" = some rule.tcpFlags :=
    Json.listOf_ofNonempty (fun _ => rfl) (rule.field_toJson _)
  rw [ofJson, hsource, hdest, hdports, hsports, hprotocols, hflags]
  cases rule with
  | mk sourcePrefix _ _ _ _ _ => cases sourcePrefix <;> rfl

/-- **Labels** read back as a map, in whatever order they were written. -/
theorem labelsOf_iter (ord : HashOrder) (labels : HashMap String String) :
    ∃ labels', labelsOf ((ord.iter labels.toPairs).map labelToJson) = some labels' ∧
      ∀ key, labels'.lookup key = labels.lookup key := by
  refine ⟨HashMap.ofPairs (ord.iter labels.toPairs), ?_, fun key => ?_⟩
  · have hread : ∀ l, labelOfJson (labelToJson l) = some l := fun _ => rfl
    rw [labelsOf, Json.mapM_map hread, Option.map_some]
  · have hnodup : ((ord.iter labels.toPairs).map Prod.fst).Nodup :=
      ((ord.perm labels.toPairs).map Prod.fst).nodup_iff.mpr labels.nodup_toPairs
    ext value
    rw [HashMap.lookup_ofPairs_nodup hnodup, HashOrder.mem_iter, HashMap.mem_toPairs]

theorem AlertPayload.ofJson_toJson (J : JsonText) (ord : HashOrder) (payload : AlertPayload) :
    ∃ labels, ofJson J (payload.toJson J ord) =
        some { payload with threshold := payload.threshold.published, labels := labels } ∧
      ∀ key, labels.lookup key = payload.labels.lookup key := by
  obtain ⟨labels, hlabels, hlookup⟩ := labelsOf_iter ord payload.labels
  refine ⟨labels, ?_, hlookup⟩
  have hstr : ∀ key s, ((payload.fields J ord).lookup key).join = some (.str s) →
      ((payload.toJson J ord).field key).bind Json.asString = some s := by
    intro key s h
    rw [payload.field_toJson, h]
    rfl
  have hvalue : (((payload.toJson J ord).field "value").bind F64.ofJson).bind F64.finite = some payload.value := by
    rw [payload.field_toJson]
    rfl
  have hthreshold : ((payload.toJson J ord).field "threshold").bind F64.ofJson =
      some payload.threshold.published := by
    rw [payload.field_toJson, ← F64.ofJson_toJson]
    rfl
  have hlabels : (((payload.toJson J ord).field "labels").bind Json.asPairs).bind labelsOf = some labels := by
    rw [payload.field_toJson, ← hlabels]
    rfl
  have hrules : (payload.toJson J ord).listOf MitigationRule.ofJson "mitigation_rules" =
      some payload.mitigationRules :=
    Json.listOf_ofNonempty MitigationRule.ofJson_toJson (payload.field_toJson J ord _)
  rw [ofJson, hstr "alert_id" _ rfl, hstr "action" _ rfl, hstr "prefix" _ rfl, hstr "protocol" _ rfl,
    hstr "direction" _ rfl, hstr "metric" _ rfl, hvalue, hthreshold, hlabels, hrules, Option.bind_some,
    J.parseUuid_uuid]
  rfl

theorem AlertPayload.ofText_text (J : JsonText) (ord : HashOrder) (payload : AlertPayload) :
    ofText J (payload.text J ord) = ofJson J (payload.toJson J ord) := by
  rw [ofText, text, J.parse_print, Option.bind_some]

/-- **The text tells the payload.**  Whatever JSON reader reads back what `serde_json` writes, it finds in the text
all that the payload has: the labels as a map, whatever the order they are written in, and a threshold that is not
finite as null. -/
theorem payload_roundtrip (J : JsonText) (ord : HashOrder) (payload : AlertPayload) :
    ∃ labels, AlertPayload.ofText J (payload.text J ord) =
        some { payload with threshold := payload.threshold.published, labels := labels } ∧
      ∀ key, labels.lookup key = payload.labels.lookup key := by
  rw [AlertPayload.ofText_text]
  exact payload.ofJson_toJson J ord

/-! ## Who follows the texts -/

/-- A reader keeps the id of the last payload, unless it is a resolve. -/
def noted (_ : Option Uuid) (e : String × Uuid) : Option Uuid := if e.1 = "resolve" then none else some e.2

/-- The open alarm of a key, as far as the payloads tell. -/
def AlertKey.ledger (K : AlertKey) (payloads : List AlertPayload) : Option Uuid :=
  (traceOf K payloads).foldl noted none

/-- The open alarm of an alert. -/
def AlertInstance.opened (a : AlertInstance) : Option Uuid := if a.state.isOpen then some a.alertId else none

/-- The texts of some payloads. -/
def textsOf (J : JsonText) (ords : ℕ → HashOrder) (payloads : List AlertPayload) : List String :=
  payloads.zipIdx.map fun (payload, i) => payload.text J (ords i)

section Ledger

variable {T : IpText} {K : AlertKey}

/-- Labels and threshold do not count. -/
theorem traceOf_singleton (payload : AlertPayload) (threshold : F64) (labels : HashMap String String) :
    traceOf K [{ payload with threshold := threshold, labels := labels }] = traceOf K [payload] := by
  by_cases h : payload.isFor K
  · have h' : ({ payload with threshold := threshold, labels := labels } : AlertPayload).isFor K := h
    simp [traceOf, h, h']
  · have h' : ¬ ({ payload with threshold := threshold, labels := labels } : AlertPayload).isFor K := h
    simp [traceOf, h, h']

/-- **The texts** tell the actions and ids of a key. -/
theorem traceOf_texts (J : JsonText) (ords : ℕ → HashOrder) (K : AlertKey) (payloads : List AlertPayload) :
    traceOf K ((textsOf J ords payloads).filterMap (AlertPayload.ofText J)) = traceOf K payloads := by
  unfold textsOf
  induction payloads using List.reverseRecOn with
  | nil => rfl
  | append_singleton payloads payload ih =>
    obtain ⟨labels, hread, -⟩ := payload.ofJson_toJson J (ords payloads.length)
    rw [List.zipIdx_append, List.map_append, List.filterMap_append, traceOf_append, ih, traceOf_append]
    simp only [List.zipIdx_cons, List.zipIdx_nil, List.map_cons, List.map_nil, Nat.zero_add,
      List.filterMap_cons, List.filterMap_nil, AlertPayload.ofText_text, hread, traceOf_singleton]

/-- The reader and the daemon agree on the key. -/
def Tracked (K : AlertKey) (d : Daemon) (sent : List AlertPayload) : Prop :=
  ∃ a, alertsOf K d.alertManager.alerts = [a] ∧ K.ledger sent = a.opened

/-- **One action** of the alert. -/
theorem opened_of_action {a a' : AlertInstance} {action : Option AlertAction} {n : ℕ}
    (h : Consistent action a.state.isOpen a'.state.isOpen)
    (hid : a'.alertId = if action = some .fire then .v4 n else a.alertId) :
    (action.toList.map fun action => (action.toString, a'.alertId)).foldl noted a.opened = a'.opened := by
  cases action with
  | none =>
    have hsame : a'.alertId = a.alertId := hid
    rw [AlertInstance.opened, AlertInstance.opened, show a'.state.isOpen = a.state.isOpen from h, hsame]
    rfl
  | some action =>
    cases action with
    | fire => simp [noted, AlertInstance.opened, AlertAction.toString, h.2]
    | update => simp [noted, AlertInstance.opened, AlertAction.toString, h.2]
    | resolve => simp [noted, AlertInstance.opened, AlertAction.toString, h.2]

/-- **A tick.** -/
theorem Tracked.tick {d : Daemon} {sent : List AlertPayload} (h : Tracked K d sent) (orders : TickOrders)
    (currentTime : ℕ) (now : Instant) :
    Tracked K (d.tick T orders currentTime now).1 (sent ++ (d.tick T orders currentTime now).2) := by
  obtain ⟨a, ha, hledger⟩ := h
  obtain ⟨t, alerts, hev, htick⟩ := Daemon.tick_eq (T := T) orders d currentTime now
  obtain ⟨a', n, ha', hstate, hid, -, -, htrace⟩ := hev.single_of ha
  have hstep := (a.evaluate_step (a.rate (d.processor.computeAllRates T orders.rates currentTime)) now).consistent
  rw [← hstate] at hstep
  rw [htick]
  refine ⟨a', ha', ?_⟩
  have hempty : traceOf K ([] : List AlertPayload) = [] := rfl
  rw [AlertKey.ledger] at hledger
  rw [AlertKey.ledger, traceOf_append, htrace, hempty, List.nil_append, List.foldl_append, hledger]
  exact opened_of_action hstep hid

/-- The alert of a key after a reload, or the start, by what was stored for it. -/
theorem opened_carryOver {c : Config} (hc : (c.alertKeys T).count K = 1)
    (previous : HashMap AlertKey (AlertState × Uuid)) :
    ∃ a, alertsOf K (carryOver previous (c.buildAlerts T)) = [a] ∧
      ((previous.lookup K = none ∧ a.state = .normal) ∨ previous.lookup K = some (a.state, a.alertId)) := by
  obtain ⟨b, hb⟩ : ∃ b, alertsOf K (c.buildAlerts T) = [b] := by
    rw [Config.alertKeys, List.count, List.countP_map, List.countP_eq_length_filter] at hc
    obtain ⟨b, hb⟩ := List.length_eq_one_iff.mp hc
    refine ⟨b, hb ▸ List.filter_congr fun a _ => ?_⟩
    simp [beq_eq_decide]
  rw [alertsOf_carryOver hb]
  cases previous.lookup K with
  | some v => exact ⟨_, rfl, .inr rfl⟩
  | none =>
    have hmem : b ∈ c.buildAlerts T := List.mem_of_mem_filter (hb ▸ List.mem_singleton_self b)
    exact ⟨b, rfl, .inl ⟨rfl, (buildAlerts_idle hmem).1⟩⟩

/-- **The start.** -/
theorem Tracked.start {c : Config} {d : Daemon} (hd : Daemon.start T (.ok c) = .ok d)
    (hc : (c.alertKeys T).count K = 1) : Tracked K d [] := by
  obtain ⟨-, processor, -, rfl⟩ := Daemon.start_ok hd
  obtain ⟨a, ha, hstate⟩ := opened_carryOver hc (AlertManager.new c.global.alertScript).previous
  refine ⟨a, ha, ?_⟩
  rcases hstate with ⟨-, hnormal⟩ | hstored
  · rw [AlertInstance.opened, hnormal]
    rfl
  · cases hstored

/-- **A reload.** -/
theorem Tracked.reload {d : Daemon} {sent : List AlertPayload} (h : Tracked K d sent)
    {parsed : Except String Config} (hK : ∀ c, parsed = .ok c → (c.alertKeys T).count K = 1) :
    Tracked K (d.reloadConfig T parsed) sent := by
  unfold Daemon.reloadConfig
  cases hload : Config.load T parsed with
  | error text => exact h
  | ok c =>
    dsimp only
    cases d.processor.reloadConfig T c with
    | error text => exact h
    | ok processor =>
      obtain ⟨a, ha, hledger⟩ := h
      obtain ⟨a', ha', hstate⟩ := opened_carryOver (hK c (Config.load_ok_iff.mp hload).1) d.alertManager.previous
      refine ⟨a', ha', hledger.trans ?_⟩
      rw [lookup_previous, ha] at hstate
      rcases hstate with ⟨hnone, -⟩ | hstored
      · cases hnone
      · have hstored' : (a.state, a.alertId) = (a'.state, a'.alertId) := Option.some.inj hstored
        obtain ⟨hstate, hid⟩ := Prod.mk.inj hstored'
        rw [AlertInstance.opened, AlertInstance.opened, hstate, hid]

/-- **An event** of the receivers or the flow processor. -/
theorem alertManager_of_flow {orders : TickOrders} {d d' : Daemon} {e : Event} {payloads : List AlertPayload}
    (he : e = .process ∨ ∃ samplerAddress flow, e = .receive samplerAddress flow)
    (hs : d.step T orders e = some (d', payloads)) : d'.alertManager = d.alertManager ∧ payloads = [] := by
  rcases he with rfl | ⟨samplerAddress, flow, rfl⟩
  · obtain ⟨d₂, h₂, heq⟩ := Option.map_eq_some_iff.mp hs
    cases heq
    unfold Daemon.process at h₂
    split at h₂
    · cases h₂
      exact ⟨rfl, rfl⟩
    · obtain ⟨p, -, heq⟩ := Option.bind_eq_some_iff.mp h₂
      cases heq
      exact ⟨rfl, rfl⟩
  · cases hs
    unfold Daemon.receive
    split_ifs <;> exact ⟨rfl, rfl⟩

/-- **A run.** -/
theorem Tracked.run {d : Daemon} (h : Tracked K d []) {orders : ℕ → TickOrders} {events : List Event}
    (hK : ∀ c, .reload (.ok c) ∈ events → (c.alertKeys T).count K = 1) {s : Daemon × List (List AlertPayload)}
    (hs : d.run T orders events = some s) : Tracked K s.1 s.2.flatten := by
  induction events using List.reverseRecOn generalizing s with
  | nil =>
    cases hs
    exact h
  | append_singleton events e ih =>
    obtain ⟨s₁, d', payloads, h₁, h₂, rfl⟩ := Daemon.run_concat_ok hs
    have htracked := ih (fun c hc => hK c (List.mem_append_left _ hc)) h₁
    rw [List.flatten_append, List.flatten_singleton]
    have hflow : (e = .process ∨ ∃ samplerAddress flow, e = .receive samplerAddress flow) →
        Tracked K d' (s₁.2.flatten ++ payloads) := by
      intro he
      obtain ⟨hmanager, rfl⟩ := alertManager_of_flow he h₂
      rw [List.append_nil, Tracked, hmanager]
      exact htracked
    cases e with
    | receive samplerAddress flow => exact hflow (.inr ⟨samplerAddress, flow, rfl⟩)
    | process => exact hflow (.inl rfl)
    | tick currentTime now =>
      cases h₂
      exact htracked.tick _ currentTime now
    | reload parsed =>
      cases h₂
      rw [List.append_nil]
      exact htracked.reload fun c hc => hK c (by simp [hc])

end Ledger

/-- **Whoever reads the texts knows which alarms are open.**  In a run with any reloads, for a key that every
configuration has once: the last of its payloads among the texts sent so far tells whether its alarm is open, and
the id of the open alarm. -/
theorem texts_track_alarms (J : JsonText) (ords : ℕ → HashOrder) (T : IpText) (c : Config) (d : Daemon)
    (hd : Daemon.start T (.ok c) = .ok d) (orders : ℕ → TickOrders) (events : List Event) (K : AlertKey)
    (hc : (c.alertKeys T).count K = 1) (hK : ∀ c, .reload (.ok c) ∈ events → (c.alertKeys T).count K = 1)
    (s : Daemon × List (List AlertPayload)) (hs : d.run T orders events = some s) :
    ∃ a, alertsOf K s.1.alertManager.alerts = [a] ∧
      K.ledger ((textsOf J ords s.2.flatten).filterMap (AlertPayload.ofText J)) = a.opened := by
  obtain ⟨a, ha, hledger⟩ := (Tracked.start hd hc).run hK hs
  refine ⟨a, ha, ?_⟩
  rw [AlertKey.ledger, traceOf_texts]
  exact hledger

/-! ## Compact texts -/

namespace Number

/-- Whole numbers as `serde_json` writes them; others as fractions. -/
def unsigned (q : ℚ) : List Char :=
  Nat.toDigits 10 q.num.natAbs ++ if q.den = 1 then ['.', '0'] else '/' :: Nat.toDigits 10 q.den

def text : Number → List Char
  | nat n => Nat.toDigits 10 n
  | float q => if q < 0 then '-' :: unsigned q else unsigned q

def parseUnsigned (cs : List Char) : Option Number :=
  let n := FieldText.value 10 (cs.takeWhile Char.isDigit)
  match cs.dropWhile Char.isDigit with
  | [] => some (nat n)
  | ['.', '0'] => some (float n)
  | '/' :: den => some (float (n / FieldText.value 10 den))
  | _ => none

def negate : Number → Number
  | nat n => nat n
  | float q => float (-q)

def parse : List Char → Option Number
  | '-' :: cs => (parseUnsigned cs).map negate
  | cs => parseUnsigned cs

theorem isDigit_toDigits (n : ℕ) : ∀ c ∈ Nat.toDigits 10 n, c.isDigit = true :=
  fun _ hc => Nat.isDigit_of_mem_toDigits (by norm_num) (by norm_num) hc

theorem value_toDigits (n : ℕ) : FieldText.value 10 (Nat.toDigits 10 n) = n :=
  (FieldText.toDigits_spec (by norm_num) (by norm_num) n).1

theorem parseUnsigned_digits (n : ℕ) : parseUnsigned (Nat.toDigits 10 n) = some (nat n) := by
  have htake : (Nat.toDigits 10 n).takeWhile Char.isDigit = Nat.toDigits 10 n :=
    List.takeWhile_eq_self_iff.mpr (isDigit_toDigits n)
  have hdrop : (Nat.toDigits 10 n).dropWhile Char.isDigit = [] :=
    List.dropWhile_eq_nil_iff.mpr (isDigit_toDigits n)
  rw [parseUnsigned, htake, hdrop, value_toDigits]

theorem parseUnsigned_append (n : ℕ) {c : Char} (hc : c.isDigit = false) (cs : List Char) :
    (Nat.toDigits 10 n ++ c :: cs).takeWhile Char.isDigit = Nat.toDigits 10 n ∧
      (Nat.toDigits 10 n ++ c :: cs).dropWhile Char.isDigit = c :: cs := by
  rw [List.takeWhile_append_of_pos (isDigit_toDigits n), List.dropWhile_append_of_pos (isDigit_toDigits n)]
  simp [hc]

theorem parseUnsigned_whole (n : ℕ) : parseUnsigned (Nat.toDigits 10 n ++ ['.', '0']) = some (float n) := by
  obtain ⟨htake, hdrop⟩ := parseUnsigned_append n (c := '.') (by decide) ['0']
  rw [parseUnsigned, htake, hdrop, value_toDigits]
  rfl

theorem parseUnsigned_fraction (n m : ℕ) :
    parseUnsigned (Nat.toDigits 10 n ++ '/' :: Nat.toDigits 10 m) = some (float (n / m)) := by
  obtain ⟨htake, hdrop⟩ := parseUnsigned_append n (c := '/') (by decide) (Nat.toDigits 10 m)
  rw [parseUnsigned, htake, hdrop, value_toDigits]
  simp only [value_toDigits]

theorem parse_digits (n : ℕ) (rest : List Char) :
    parse (Nat.toDigits 10 n ++ rest) = parseUnsigned (Nat.toDigits 10 n ++ rest) := by
  obtain ⟨c, cs, hcs⟩ := List.exists_cons_of_ne_nil (Nat.toDigits_ne_nil (n := n) (b := 10))
  have hdigit : c.isDigit = true := isDigit_toDigits n c (by simp [hcs])
  rw [hcs, List.cons_append, parse]
  intro cs' heq
  obtain rfl := (List.cons.inj heq).1
  cases hdigit

theorem parseUnsigned_unsigned (q : ℚ) : parseUnsigned (unsigned q) = some (float |q|) := by
  have habs : |q| = (q.num.natAbs : ℚ) / q.den := by
    rw [Nat.cast_natAbs, Int.cast_abs]
    nth_rewrite 1 [← Rat.num_div_den q]
    rw [abs_div, Nat.abs_cast]
  unfold unsigned
  split_ifs with hden
  · rw [parseUnsigned_whole, habs, hden, Nat.cast_one, div_one]
  · rw [parseUnsigned_fraction, habs]

theorem parse_text (x : Number) : parse x.text = some x := by
  cases x with
  | nat n =>
    have h := parse_digits n []
    rw [List.append_nil] at h
    rw [text, h, parseUnsigned_digits]
  | float q =>
    rw [text]
    split_ifs with hneg
    · rw [parse, parseUnsigned_unsigned, Option.map_some, negate, abs_of_neg hneg, neg_neg]
    · rw [unsigned, parse_digits]
      exact (parseUnsigned_unsigned q).trans (by rw [abs_of_nonneg (not_lt.mp hneg)])

def isChar (c : Char) : Bool := c.isDigit || c = '-' || c = '.' || c = '/'

theorem isChar_unsigned (q : ℚ) : ∀ c ∈ unsigned q, isChar c = true := by
  have hdigit : ∀ n, ∀ c ∈ Nat.toDigits 10 n, isChar c = true := by
    intro n c hc
    simp [isChar, isDigit_toDigits n c hc]
  unfold unsigned
  split_ifs
  · exact List.forall_mem_append.mpr ⟨hdigit _, by simp [isChar]⟩
  · exact List.forall_mem_append.mpr ⟨hdigit _, List.forall_mem_cons.mpr ⟨by decide, hdigit _⟩⟩

def numbers : JsonNumbers Number where
  text := text
  parse := parse
  isChar := isChar
  text_ne_nil x := by
    cases x with
    | nat n => exact Nat.toDigits_ne_nil
    | float q =>
      rw [text]
      split_ifs
      · simp
      · simp [unsigned, Nat.toDigits_ne_nil]
  isChar_text x := by
    cases x with
    | nat n =>
      intro c hc
      simp [isChar, isDigit_toDigits n c hc]
    | float q =>
      rw [text]
      split_ifs
      · exact List.forall_mem_cons.mpr ⟨by decide, isChar_unsigned q⟩
      · exact isChar_unsigned q
  isChar_other := by simp [isChar, Char.isDigit]
  parse_text := parse_text

end Number

def Uuid.version : List Char := "00000000-0000-4000-8000-".toList

/-- Ids by their number, in the place of random ones. -/
def Uuid.text : Uuid → List Char
  | nil => "00000000-0000-0000-0000-000000000000".toList
  | v4 n => version ++ Nat.toDigits 10 n

def Uuid.parse (cs : List Char) : Uuid :=
  if cs.take 24 = version then v4 (FieldText.value 10 (cs.drop 24)) else nil

theorem Uuid.parse_text (id : Uuid) : parse id.text = id := by
  cases id with
  | nil => decide
  | v4 n =>
    have hlength : version.length = 24 := by decide +kernel
    have htake : (text (v4 n)).take 24 = version := List.take_left' hlength
    have hdrop : (text (v4 n)).drop 24 = Nat.toDigits 10 n := List.drop_left' hlength
    rw [parse, htake, hdrop, if_pos rfl, Number.value_toDigits]

/-- The compact texts of the library. -/
def JsonText.compact : JsonText where
  print j := String.ofList (j.write Number.numbers)
  parse s := Json.read Number.numbers s.toList
  parse_print j := by rw [String.toList_ofList, Json.read_write]
  uuid id := String.ofList id.text
  parseUuid s := some (Uuid.parse s.toList)
  parseUuid_uuid id := by rw [String.toList_ofList, Uuid.parse_text]

/-- The payload of the documentation's example. -/
def documented : AlertPayload where
  alertId := .v4 0
  action := "trigger"
  ipPrefix := "10.0.0.0/24"
  protocol := "tcp"
  direction := "inbound"
  metric := "bps"
  value := 450000000
  threshold := .num 300000000
  labels := HashMap.ofPairs [("segment", "customer")]
  mitigationRules := [⟨some "192.0.2.10/32", "10.0.0.5/32", [80], [], ["tcp"], ["syn"]⟩]

example : documented.toJson .compact .stored = .obj
    [("alert_id", .str "00000000-0000-4000-8000-0"), ("action", .str "trigger"), ("prefix", .str "10.0.0.0/24"),
      ("protocol", .str "tcp"), ("direction", .str "inbound"), ("metric", .str "bps"),
      ("value", .num (.float 450000000)), ("threshold", .num (.float 300000000)),
      ("labels", .obj [("segment", .str "customer")]),
      ("mitigation_rules", .arr [.obj
        [("source_prefix", .str "192.0.2.10/32"), ("destination_prefix", .str "10.0.0.5/32"),
          ("destination_ports", .arr [.num (.nat 80)]), ("protocols", .arr [.str "tcp"]),
          ("tcp_flags", .arr [.str "syn"])]])] := by
  rfl

/-- The key of the alert on 10.2.3.0/24. -/
def siteKey : AlertKey := ⟨"10.2.3.0/24", .any, .inbound, .bps⟩

/-- Two attacks, and a reload while the alarm of the second is open. -/
def reloadedAlarm : List Event := twoAttacks ++ [.reload (.ok instant)]

theorem texts_track_alarms_reloaded : ∃ d s, Daemon.start IpText.dotted (.ok instant) = .ok d ∧
    d.run IpText.dotted storedOrders reloadedAlarm = some s ∧
    siteKey.ledger ((textsOf .compact (fun _ => .stored) s.2.flatten).filterMap (AlertPayload.ofText .compact)) =
      some (.v4 1) := by
  have hrun : ((Daemon.start IpText.dotted (.ok instant)).toOption.bind fun d =>
      (d.run IpText.dotted storedOrders reloadedAlarm).map fun s =>
        (alertsOf siteKey s.1.alertManager.alerts).map AlertInstance.opened) = some [some (.v4 1)] := by
    decide +kernel
  obtain ⟨d, hd, hrun⟩ := Option.bind_eq_some_iff.mp hrun
  obtain ⟨s, hs, hopened⟩ := Option.map_eq_some_iff.mp hrun
  have hkey : (instant.alertKeys IpText.dotted).count siteKey = 1 := by decide
  have hloaded : ∀ c, Event.reload (.ok c) ∈ reloadedAlarm → c = instant := by
    simp [reloadedAlarm, twoAttacks]
  obtain ⟨a, ha, hledger⟩ := texts_track_alarms .compact (fun _ => .stored) IpText.dotted instant d
    (Fold.except_toOption.mp hd) storedOrders reloadedAlarm siteKey hkey
    (fun c hc => hloaded c hc ▸ hkey) s hs
  rw [ha] at hopened
  exact ⟨d, s, Fold.except_toOption.mp hd, hs, hledger.trans (List.cons.inj hopened).1⟩

end NetAlert

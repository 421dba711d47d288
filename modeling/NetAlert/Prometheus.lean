import NetAlert.Lib.Exposition
import NetAlert.OwnRate
import NetAlert.SteadyReload

/-!
# NetAlert.Prometheus — the metrics page

`render_metrics`: the rates of every buffer with the labels of its rule, the states of the alerts and
the daemon's own counters.  `NumText` is how numbers are written, which the standard library does.

* `faithful_iff`: the page says what it was made of exactly if no label value needs an escape and no
  rule has a label of the page's own names.
* `Running.faithful`: so the page of a daemon is faithful if the texts of its configuration are such.
-/

namespace NetAlert

open Exposition (Line Sample Family NumberText ValidName HelpText Plain isMetricChar isLabelChar labelSet samplesOf
  page header)

/-! ## What is shown -/

/-- The daemon's own counters. -/
structure HealthMetrics where
  flowsReceivedNetflow : ℕ
  flowsReceivedSflow : ℕ
  flowsDropped : ℕ
  flowChannelDepth : ℕ
  evaluationDurationMicros : ℕ
  deriving DecidableEq

structure AlertStateSnapshot where
  ipPrefix : String
  protocol : ProtocolCategory
  direction : Direction
  metric : MetricType
  state : ℕ
  deriving DecidableEq

/-- Current state of every alert instance, for the metrics endpoint. -/
def AlertManager.stateSnapshots (m : AlertManager) : List AlertStateSnapshot :=
  m.alerts.map fun a =>
    { ipPrefix := a.ipPrefix
      protocol := a.protocol
      direction := a.direction
      metric := a.metric
      state :=
        match a.state with
        | .normal => 0
        | .pending _ => 1
        | .firing _ => 2
        | .recovering _ => 3 }

/-- `Display` of `f64` and the numbers of the format, which the texts of numbers are. -/
structure NumText where
  float : ℚ → String
  number : String → Bool
  number_float : ∀ q, NumberText number (float q)
  number_nat : ∀ n : ℕ, NumberText number (toString n)

/-! ## The page -/

/-- `METRICS`: name, help and value of the rates. -/
def metrics : List (String × String × (RateSnapshot → ℚ)) :=
  [("netalert_bps", "Bits per second", fun s => s.bps),
    ("netalert_pps", "Packets per second", fun s => s.pps),
    ("netalert_fps", "Flows per second", fun s => s.fps)]

section Render

variable (N : NumText)

def renderAlertStates (states : List AlertStateSnapshot) : String :=
  header "netalert_alert_state" "Alert state machine position (0=normal, 1=pending, 2=firing, 3=recovering)"
    "gauge" ++
  String.join (states.map fun s =>
    "netalert_alert_state\x7bprefix=\"" ++ s.ipPrefix ++ "\",protocol=\"" ++ s.protocol.toString ++
      "\",direction=\"" ++ s.direction.toString ++ "\",metric=\"" ++ s.metric.toString ++ "\"\x7d " ++
      toString s.state ++ "\n")

def renderHealth (health : HealthMetrics) : String :=
  header "netalert_flows_received_total" "Flows received per collector" "counter" ++
  String.join ([("netflow", health.flowsReceivedNetflow), ("sflow", health.flowsReceivedSflow)].map
    fun (source, counter) =>
      "netalert_flows_received_total\x7bsource=\"" ++ source ++ "\"\x7d " ++ toString counter ++ "\n") ++
  header "netalert_flows_dropped_total" "Flows dropped because the processing channel was full" "counter" ++
  "netalert_flows_dropped_total " ++ toString health.flowsDropped ++ "\n" ++
  header "netalert_flow_channel_depth" "Flows currently queued for processing" "gauge" ++
  "netalert_flow_channel_depth " ++ toString health.flowChannelDepth ++ "\n" ++
  header "netalert_evaluation_duration_seconds" "Duration of the last threshold evaluation pass" "gauge" ++
  "netalert_evaluation_duration_seconds " ++ N.float (health.evaluationDurationMicros / 1000000) ++ "\n"

/-- The label keys of all snapshots, in order and without repetition. -/
def extraKeys (snapshots : List RateSnapshot) : List String :=
  (snapshots.flatMap fun s => s.labels.keys).dedup.insertionSort (· ≤ ·)

def renderMetrics (snapshots : List RateSnapshot) (alertStates : List AlertStateSnapshot)
    (health : HealthMetrics) : String :=
  let extraKeys := extraKeys snapshots
  String.join (metrics.map fun (name, help, getVal) =>
    header name help "gauge" ++
    String.join (snapshots.map fun s =>
      name ++ "\x7bprefix=\"" ++ s.ipPrefix ++ "\",protocol=\"" ++ s.protocol.toString ++ "\",direction=\"" ++
        s.direction.toString ++ "\"" ++
        String.join (extraKeys.map fun key =>
          let val := (s.labels.lookup key).getD ""
          "," ++ key ++ "=\"" ++ val ++ "\"") ++
        "\x7d " ++ N.float (getVal s) ++ "\n")) ++
  renderAlertStates alertStates ++
  renderHealth N health

end Render

/-! ## The page as families -/

/-- The labels the page gives a snapshot. -/
def rateLabels (extraKeys : List String) (s : RateSnapshot) : List (String × String) :=
  [("prefix", s.ipPrefix), ("protocol", s.protocol.toString), ("direction", s.direction.toString)] ++
    extraKeys.map fun key => (key, (s.labels.lookup key).getD "")

def AlertStateSnapshot.labels (s : AlertStateSnapshot) : List (String × String) :=
  [("prefix", s.ipPrefix), ("protocol", s.protocol.toString), ("direction", s.direction.toString),
    ("metric", s.metric.toString)]

section Families

variable (N : NumText)

def rateFamily (snapshots : List RateSnapshot) (metric : String × String × (RateSnapshot → ℚ)) : Family :=
  ⟨metric.1, metric.2.1, "gauge",
    snapshots.map fun s => (rateLabels (extraKeys snapshots) s, N.float (metric.2.2 s))⟩

def alertFamily (states : List AlertStateSnapshot) : Family :=
  ⟨"netalert_alert_state", "Alert state machine position (0=normal, 1=pending, 2=firing, 3=recovering)", "gauge",
    states.map fun s => (s.labels, toString s.state)⟩

def healthFamilies (health : HealthMetrics) : List Family :=
  [⟨"netalert_flows_received_total", "Flows received per collector", "counter",
      [([("source", "netflow")], toString health.flowsReceivedNetflow),
        ([("source", "sflow")], toString health.flowsReceivedSflow)]⟩,
    ⟨"netalert_flows_dropped_total", "Flows dropped because the processing channel was full", "counter",
      [([], toString health.flowsDropped)]⟩,
    ⟨"netalert_flow_channel_depth", "Flows currently queued for processing", "gauge",
      [([], toString health.flowChannelDepth)]⟩,
    ⟨"netalert_evaluation_duration_seconds", "Duration of the last threshold evaluation pass", "gauge",
      [([], N.float (health.evaluationDurationMicros / 1000000))]⟩]

def families (snapshots : List RateSnapshot) (states : List AlertStateSnapshot) (health : HealthMetrics) :
    List Family :=
  metrics.map (rateFamily N snapshots) ++ alertFamily states :: healthFamilies N health

theorem mem_extraKeys {snapshots : List RateSnapshot} {key : String} :
    key ∈ extraKeys snapshots ↔ ∃ s ∈ snapshots, key ∈ s.labels.keys := by
  rw [extraKeys, List.mem_insertionSort, List.mem_dedup, List.mem_flatMap]

theorem nodup_extraKeys (snapshots : List RateSnapshot) : (extraKeys snapshots).Nodup :=
  (List.perm_insertionSort _ _).nodup_iff.mpr (List.nodup_dedup _)

/-- The row of one snapshot. -/
theorem page_rate (name value : String) (keys : List String) (s : RateSnapshot) :
    page [.sample ⟨name, rateLabels keys s, value⟩] =
      name ++ "\x7bprefix=\"" ++ s.ipPrefix ++ "\",protocol=\"" ++ s.protocol.toString ++ "\",direction=\"" ++
        s.direction.toString ++ "\"" ++
        String.join (keys.map fun key => "," ++ key ++ "=\"" ++ (s.labels.lookup key).getD "" ++ "\"") ++
        "\x7d " ++ value ++ "\n" := by
  rw [rateLabels, List.cons_append, Exposition.page_sample]
  apply String.toList_inj.mp
  simp [List.flatMap_map]

theorem page_alert (s : AlertStateSnapshot) :
    page [.sample ⟨"netalert_alert_state", s.labels, toString s.state⟩] =
      "netalert_alert_state\x7bprefix=\"" ++ s.ipPrefix ++ "\",protocol=\"" ++ s.protocol.toString ++
        "\",direction=\"" ++ s.direction.toString ++ "\",metric=\"" ++ s.metric.toString ++ "\"\x7d " ++
        toString s.state ++ "\n" := by
  rw [AlertStateSnapshot.labels, Exposition.page_sample]
  apply String.toList_inj.mp
  simp

theorem page_rateFamily (snapshots : List RateSnapshot) (metric : String × String × (RateSnapshot → ℚ)) :
    page (rateFamily N snapshots metric).lines =
      header metric.1 metric.2.1 "gauge" ++
      String.join (snapshots.map fun s =>
        metric.1 ++ "\x7bprefix=\"" ++ s.ipPrefix ++ "\",protocol=\"" ++ s.protocol.toString ++
          "\",direction=\"" ++ s.direction.toString ++ "\"" ++
          String.join ((extraKeys snapshots).map fun key =>
            "," ++ key ++ "=\"" ++ (s.labels.lookup key).getD "" ++ "\"") ++
          "\x7d " ++ N.float (metric.2.2 s) ++ "\n") := by
  rw [Family.page_lines, rateFamily, List.map_map]
  simp only [Function.comp_def, page_rate]

theorem page_alertFamily (states : List AlertStateSnapshot) :
    page (alertFamily states).lines = renderAlertStates states := by
  rw [Family.page_lines, alertFamily, List.map_map]
  simp only [Function.comp_def, page_alert]
  rfl

theorem page_healthFamilies (health : HealthMetrics) :
    page ((healthFamilies N health).flatMap Family.lines) = renderHealth N health := by
  rw [Exposition.page_flatMap]
  simp only [healthFamilies, renderHealth, List.map_cons, List.map_nil, Family.page_lines, Exposition.page_sample,
    Exposition.page_bare, String.join_cons, String.join_nil, String.append_empty, String.reduceAppend]
  simp only [String.append_assoc]

/-- **The page** is the page of its families. -/
theorem renderMetrics_eq (snapshots : List RateSnapshot) (states : List AlertStateSnapshot)
    (health : HealthMetrics) :
    renderMetrics N snapshots states health =
      page ((families N snapshots states health).flatMap Family.lines) := by
  rw [families, List.flatMap_append, List.flatMap_cons, Exposition.page_append, Exposition.page_append,
    page_alertFamily, page_healthFamilies, Exposition.page_flatMap, List.map_map]
  simp only [Function.comp_def, page_rateFamily, renderMetrics, String.append_assoc]

/-- The check of a HELP and a TYPE line. -/
def headerOk (header : String × String × String) : Bool :=
  (header.1.toList.head?.any fun c => isMetricChar c && !c.isDigit) && header.1.toList.all isMetricChar &&
    header.2.1.toList.head?.all (fun c => !Exposition.isBlank c) &&
    header.2.1.toList.all (fun c => c ≠ '\\' && c ≠ '\n') && Exposition.kinds.contains header.2.2

theorem of_headerOk {header : String × String × String} (h : headerOk header = true) :
    ValidName isMetricChar header.1 ∧ HelpText header.2.1 ∧ header.2.2 ∈ Exposition.kinds := by
  simp only [headerOk, Bool.and_eq_true, List.all_eq_true, decide_eq_true_eq, List.contains_iff_mem] at h
  obtain ⟨⟨⟨⟨hhead, hname⟩, hblank⟩, htext⟩, hkind⟩ := h
  refine ⟨Exposition.validName_iff.mpr ⟨hhead, List.all_eq_true.mpr hname⟩, ⟨fun c hc => ?_, htext⟩, hkind⟩
  rw [Option.mem_def.mp hc] at hblank
  simpa using hblank

/-- The HELP and TYPE lines of the page. -/
def headers : List (String × String × String) :=
  [("netalert_bps", "Bits per second", "gauge"),
    ("netalert_pps", "Packets per second", "gauge"),
    ("netalert_fps", "Flows per second", "gauge"),
    ("netalert_alert_state", "Alert state machine position (0=normal, 1=pending, 2=firing, 3=recovering)",
      "gauge"),
    ("netalert_flows_received_total", "Flows received per collector", "counter"),
    ("netalert_flows_dropped_total", "Flows dropped because the processing channel was full", "counter"),
    ("netalert_flow_channel_depth", "Flows currently queued for processing", "gauge"),
    ("netalert_evaluation_duration_seconds", "Duration of the last threshold evaluation pass", "gauge")]

theorem headers_ok : ∀ header ∈ headers, headerOk header = true := List.all_eq_true.mp (by decide +kernel)

section Shaped

variable {snapshots : List RateSnapshot} {states : List AlertStateSnapshot} {health : HealthMetrics}

/-- The headers of the page are the same whatever it shows. -/
theorem header_mem {f : Family} (hf : f ∈ families N snapshots states health) :
    (f.name, f.help, f.kind) ∈ headers := by
  have heq : headers = (families N snapshots states health).map fun f => (f.name, f.help, f.kind) := rfl
  rw [heq]
  exact List.mem_map_of_mem hf

theorem families_nodup : ((families N snapshots states health).map Family.name).Nodup := by
  have heq : (families N snapshots states health).map Family.name = headers.map Prod.fst := rfl
  rw [heq]
  decide

theorem rateLabels_keys (keys : List String) (s : RateSnapshot) :
    (rateLabels keys s).map Prod.fst = ["prefix", "protocol", "direction"] ++ keys := by
  simp [rateLabels, Function.comp_def]

theorem builtin_names : ∀ name ∈ ["prefix", "protocol", "direction", "metric", "source"],
    ValidName isLabelChar name := by
  have hall : ∀ name ∈ ["prefix", "protocol", "direction", "metric", "source"],
      (name.toList.head?.any fun c => isLabelChar c && !c.isDigit) = true ∧
        name.toList.all isLabelChar = true := by
    simp only [List.forall_mem_cons]
    decide
  exact fun name hname => Exposition.validName_iff.mpr (hall name hname)

/-- The rows of the page are well formed. -/
theorem rows_shaped (hkeys : ∀ s ∈ snapshots, ∀ key ∈ s.labels.keys, ValidName isLabelChar key) {f : Family}
    (hf : f ∈ families N snapshots states health) :
    ∀ row ∈ f.samples, (∀ key ∈ row.1.map Prod.fst, ValidName isLabelChar key) ∧ NumberText N.number row.2 := by
  have hbuiltin : ∀ names ⊆ ["prefix", "protocol", "direction", "metric", "source"],
      ∀ name ∈ names, ValidName isLabelChar name := fun names h name hname => builtin_names name (h hname)
  rcases List.mem_append.mp hf with hf | hf
  · -- rates
    obtain ⟨metric, -, rfl⟩ := List.mem_map.mp hf
    intro row hrow
    obtain ⟨s, -, rfl⟩ := List.mem_map.mp hrow
    refine ⟨?_, N.number_float _⟩
    rw [rateLabels_keys, List.forall_mem_append]
    refine ⟨hbuiltin _ (by decide), fun key hkey => ?_⟩
    obtain ⟨s', hs', hmem⟩ := mem_extraKeys.mp hkey
    exact hkeys s' hs' key hmem
  · rcases List.mem_cons.mp hf with rfl | hf
    · -- alert states
      intro row hrow
      obtain ⟨s, -, rfl⟩ := List.mem_map.mp hrow
      exact ⟨hbuiltin ["prefix", "protocol", "direction", "metric"] (by decide), N.number_nat _⟩
    · -- the daemon's counters
      have hsource := builtin_names "source" (by decide)
      simp only [healthFamilies, List.mem_cons, List.not_mem_nil, or_false] at hf
      have hnat : ∀ n : ℕ, NumberText N.number n.repr := N.number_nat
      obtain rfl | rfl | rfl | rfl := hf <;> simp [hsource, hnat, N.number_float]

theorem families_shaped (hkeys : ∀ s ∈ snapshots, ∀ key ∈ s.labels.keys, ValidName isLabelChar key) {f : Family}
    (hf : f ∈ families N snapshots states health) : f.Shaped N.number := by
  obtain ⟨hname, hhelp, hkind⟩ := of_headerOk (headers_ok _ (header_mem N hf))
  have hrows := rows_shaped N hkeys hf
  exact ⟨hname, hhelp, hkind, fun row hrow => List.forall_mem_map.mp (hrows row hrow).1,
    fun row hrow => (hrows row hrow).2⟩

end Shaped

end Families

/-! ## What a scrape reads -/

/-- The labels of a snapshot: the page's own and those of its rule. -/
def RateSnapshot.allLabels (s : RateSnapshot) : List (String × String) :=
  [("prefix", s.ipPrefix), ("protocol", s.protocol.toString), ("direction", s.direction.toString)] ++
    s.labels.toPairs

/-- A sample with these labels, empty ones dropped and no name twice, and this value. -/
structure Encodes (labels : List (String × String)) (value : String) (s : Sample) : Prop where
  labels : (labelSet s.labels).Perm (labelSet labels)
  nodup : (s.labels.map Prod.fst).Nodup
  value : s.value = value

/-- **The page is read** as one sample for each metric and snapshot and one for each alert state. -/
def Faithful (N : NumText) (snapshots : List RateSnapshot) (states : List AlertStateSnapshot) (text : String) :
    Prop :=
  ∃ lines, Exposition.parse N.number text = some lines ∧
    (∀ metric ∈ metrics, List.Forall₂
      (fun sample s => Encodes s.allLabels (N.float (metric.2.2 s)) sample) (samplesOf metric.1 lines) snapshots) ∧
    List.Forall₂ (fun sample s => Encodes s.labels (toString s.state) sample)
      (samplesOf "netalert_alert_state" lines) states

/-- No text that is shown needs an escape, and no rule has a label of the page's own. -/
structure Presentable (snapshots : List RateSnapshot) (states : List AlertStateSnapshot) : Prop where
  prefixes : ∀ s ∈ snapshots, Plain s.ipPrefix
  labels : ∀ s ∈ snapshots, ∀ l ∈ s.labels.toPairs, l.1 ∉ ["prefix", "protocol", "direction"] ∧ Plain l.2
  states : ∀ s ∈ states, Plain s.ipPrefix

/-- Dropping empty values undoes the padding. -/
theorem labelSet_rateLabels {snapshots : List RateSnapshot} {s : RateSnapshot} (hs : s ∈ snapshots) :
    (labelSet (rateLabels (extraKeys snapshots) s)).Perm (labelSet s.allLabels) := by
  have hown : (labelSet ((extraKeys snapshots).map fun key => (key, (s.labels.lookup key).getD ""))).Perm
      (labelSet s.labels.toPairs) := by
    have hnodup : ((extraKeys snapshots).map fun key => (key, (s.labels.lookup key).getD "")).Nodup :=
      List.Nodup.of_map Prod.fst (by simpa [Function.comp_def] using nodup_extraKeys snapshots)
    have hnodup' : s.labels.toPairs.Nodup := List.Nodup.of_map Prod.fst s.labels.nodup_toPairs
    apply (List.perm_ext_iff_of_nodup (hnodup.filter _) (hnodup'.filter _)).mpr
    rintro ⟨key, value⟩
    simp only [List.mem_filter, List.mem_map, Prod.mk.injEq, decide_eq_true_eq, HashMap.mem_toPairs]
    constructor
    · rintro ⟨⟨key', -, rfl, rfl⟩, hne⟩
      cases hlookup : s.labels.lookup key' with
      | none => exact absurd (by simp [hlookup]) hne
      | some value => exact ⟨rfl, by simpa [hlookup] using hne⟩
    · rintro ⟨hlookup, hne⟩
      have hkey : key ∈ s.labels.keys := by
        rw [← HashMap.map_fst_toPairs]
        exact List.mem_map_of_mem (HashMap.mem_toPairs.mpr hlookup)
      exact ⟨⟨key, mem_extraKeys.mpr ⟨s, hs, hkey⟩, rfl, by rw [hlookup]; rfl⟩, hne⟩
  rw [rateLabels, RateSnapshot.allLabels, labelSet, labelSet, List.filter_append, List.filter_append]
  exact hown.append_left _

/-! ## When it does -/

theorem plain_empty : Plain "" := by
  intro c hc
  cases hc

theorem ProtocolCategory.plain_toString (p : ProtocolCategory) : Plain p.toString := by
  cases p <;> exact Exposition.plain_iff.mpr (by decide)

theorem Direction.plain_toString (d : Direction) : Plain d.toString := by
  cases d <;> exact Exposition.plain_iff.mpr (by decide)

theorem MetricType.plain_toString (m : MetricType) : Plain m.toString := by
  cases m <;> exact Exposition.plain_iff.mpr (by decide)

/-- The row of a snapshot needs no escape. -/
theorem rate_clean {name value : String} {keys : List String} (hkeys : keys.Nodup) {s : RateSnapshot} :
    (⟨name, rateLabels keys s, value⟩ : Sample).Clean ↔ Plain s.ipPrefix ∧
      ∀ key ∈ keys, key ∉ ["prefix", "protocol", "direction"] ∧ Plain ((s.labels.lookup key).getD "") := by
  have hbuiltin : (["prefix", "protocol", "direction"] : List String).Nodup := by decide
  have hplain : (∀ l ∈ rateLabels keys s, Plain l.2) ↔
      Plain s.ipPrefix ∧ ∀ key ∈ keys, Plain ((s.labels.lookup key).getD "") := by
    simp only [rateLabels, List.forall_mem_append, List.forall_mem_cons, List.forall_mem_map,
      s.protocol.plain_toString, s.direction.plain_toString, List.not_mem_nil, IsEmpty.forall_iff,
      implies_true, and_true]
  have hnodup : ((rateLabels keys s).map Prod.fst).Nodup ↔
      ∀ key ∈ keys, key ∉ (["prefix", "protocol", "direction"] : List String) := by
    rw [rateLabels_keys, List.nodup_append']
    simp only [hbuiltin, hkeys, true_and]
    exact List.disjoint_comm
  constructor
  · intro h
    obtain ⟨hshown, hvalues⟩ := hplain.mp h.plain
    exact ⟨hshown, fun key hkey => ⟨hnodup.mp h.nodup key hkey, hvalues key hkey⟩⟩
  · rintro ⟨hshown, hvalues⟩
    exact ⟨hplain.mpr ⟨hshown, fun key hkey => (hvalues key hkey).2⟩,
      hnodup.mpr fun key hkey => (hvalues key hkey).1⟩

theorem alert_clean {name value : String} {s : AlertStateSnapshot} :
    (⟨name, s.labels, value⟩ : Sample).Clean ↔ Plain s.ipPrefix := by
  constructor
  · intro h
    exact h.plain ("prefix", s.ipPrefix) (by simp [AlertStateSnapshot.labels])
  · intro h
    refine ⟨?_, show (["prefix", "protocol", "direction", "metric"] : List String).Nodup by decide⟩
    simp only [AlertStateSnapshot.labels, List.forall_mem_cons]
    exact ⟨h, s.protocol.plain_toString, s.direction.plain_toString, s.metric.plain_toString,
      fun _ h => by cases h⟩

section Clean

variable (N : NumText) {snapshots : List RateSnapshot} {states : List AlertStateSnapshot} {health : HealthMetrics}

theorem health_clean : ∀ f ∈ healthFamilies N health, ∀ s ∈ f.rows, s.Clean := by
  have hnetflow : Plain "netflow" := Exposition.plain_iff.mpr (by decide)
  have hsflow : Plain "sflow" := Exposition.plain_iff.mpr (by decide)
  have hbare : ∀ name value, (⟨name, [], value⟩ : Sample).Clean := fun _ _ => ⟨by simp, by simp⟩
  have hone : ∀ name value l, Plain l.2 → (⟨name, [l], value⟩ : Sample).Clean :=
    fun _ _ _ h => ⟨by simpa using h, by simp⟩
  intro f hf
  simp only [healthFamilies, List.mem_cons, List.not_mem_nil, or_false] at hf
  obtain rfl | rfl | rfl | rfl := hf <;>
    simp [Family.rows, hbare, hone, hnetflow, hsflow]

/-- The rows of the rates. -/
theorem rates_clean {metric : String × String × (RateSnapshot → ℚ)} :
    (∀ s ∈ (rateFamily N snapshots metric).rows, s.Clean) ↔ (∀ s ∈ snapshots, Plain s.ipPrefix) ∧
      ∀ s ∈ snapshots, ∀ l ∈ s.labels.toPairs, l.1 ∉ ["prefix", "protocol", "direction"] ∧ Plain l.2 := by
  have hrow : (∀ s ∈ (rateFamily N snapshots metric).rows, s.Clean) ↔ ∀ s ∈ snapshots, Plain s.ipPrefix ∧
      ∀ key ∈ extraKeys snapshots,
        key ∉ ["prefix", "protocol", "direction"] ∧ Plain ((s.labels.lookup key).getD "") := by
    simp only [rateFamily, Family.rows, List.forall_mem_map, rate_clean (nodup_extraKeys snapshots)]
  rw [hrow]
  constructor
  · intro h
    refine ⟨fun s hs => (h s hs).1, fun s hs l hl => ?_⟩
    have hkey : l.1 ∈ s.labels.keys := by
      rw [← HashMap.map_fst_toPairs]
      exact List.mem_map_of_mem hl
    obtain ⟨hother, hplain⟩ := (h s hs).2 l.1 (mem_extraKeys.mpr ⟨s, hs, hkey⟩)
    rw [HashMap.mem_toPairs.mp hl] at hplain
    exact ⟨hother, hplain⟩
  · rintro ⟨hshown, hlabels⟩ s hs
    refine ⟨hshown s hs, fun key hkey => ⟨?_, ?_⟩⟩
    · obtain ⟨s', hs', hmem⟩ := mem_extraKeys.mp hkey
      rw [← HashMap.map_fst_toPairs] at hmem
      obtain ⟨l, hl, rfl⟩ := List.mem_map.mp hmem
      exact (hlabels s' hs' l hl).1
    · cases hlookup : s.labels.lookup key with
      | none => exact plain_empty
      | some value => exact (hlabels s hs (key, value) (HashMap.mem_toPairs.mpr hlookup)).2

/-- **Every line is the same with escapes and without** exactly if what is shown is presentable. -/
theorem clean_iff : (∀ f ∈ families N snapshots states health, ∀ s ∈ f.rows, s.Clean) ↔
    Presentable snapshots states := by
  have hstates : (∀ s ∈ (alertFamily states).rows, s.Clean) ↔ ∀ s ∈ states, Plain s.ipPrefix := by
    simp only [alertFamily, Family.rows, List.forall_mem_map, alert_clean]
  constructor
  · intro h
    have hbps : rateFamily N snapshots ("netalert_bps", "Bits per second", fun s => s.bps) ∈
        families N snapshots states health := List.mem_cons_self
    have halert : alertFamily states ∈ families N snapshots states health :=
      List.mem_append_right _ List.mem_cons_self
    obtain ⟨hshown, hlabels⟩ := (rates_clean N).mp (h _ hbps)
    exact ⟨hshown, hlabels, hstates.mp (h _ halert)⟩
  · intro h f hf
    rcases List.mem_append.mp hf with hf | hf
    · obtain ⟨metric, -, rfl⟩ := List.mem_map.mp hf
      exact (rates_clean N).mpr ⟨h.prefixes, h.labels⟩
    · rcases List.mem_cons.mp hf with rfl | hf
      · exact hstates.mpr h.states
      · exact health_clean N f hf

theorem samplesOf_rates {metric : String × String × (RateSnapshot → ℚ)} (hmetric : metric ∈ metrics) :
    samplesOf metric.1 ((families N snapshots states health).flatMap Family.lines) =
      snapshots.map fun s => ⟨metric.1, rateLabels (extraKeys snapshots) s, N.float (metric.2.2 s)⟩ := by
  have hmem : rateFamily N snapshots metric ∈ families N snapshots states health :=
    List.mem_append_left _ (List.mem_map_of_mem hmetric)
  have h := Family.samplesOf_lines (families_nodup N) hmem
  rw [Family.rows, rateFamily, List.map_map] at h
  exact h

theorem samplesOf_alerts :
    samplesOf "netalert_alert_state" ((families N snapshots states health).flatMap Family.lines) =
      states.map fun s => ⟨"netalert_alert_state", s.labels, toString s.state⟩ := by
  have hmem : alertFamily states ∈ families N snapshots states health := List.mem_append_right _ List.mem_cons_self
  have h := Family.samplesOf_lines (families_nodup N) hmem
  rw [Family.rows, alertFamily, List.map_map] at h
  exact h

end Clean

section Page

variable (N : NumText) {snapshots : List RateSnapshot} {states : List AlertStateSnapshot} {health : HealthMetrics}
  (hkeys : ∀ s ∈ snapshots, ∀ key ∈ s.labels.keys, ValidName isLabelChar key)

include hkeys

theorem presentable_of_faithful (h : Faithful N snapshots states (renderMetrics N snapshots states health)) :
    Presentable snapshots states := by
  have hshaped := Family.shaped_lines fun f (hf : f ∈ families N snapshots states health) =>
    families_shaped N hkeys hf
  obtain ⟨lines, hparse, hrates, halerts⟩ := h
  rw [renderMetrics_eq] at hparse
  have hclean : (∀ f ∈ families N snapshots states health, ∀ s ∈ f.rows, s.Clean) ↔ Presentable snapshots states :=
    clean_iff N
  rw [← hclean, ← Family.clean_lines]
  apply Exposition.clean_of_parse hshaped hparse
  intro s hs hbad
  obtain ⟨f, hf, hs⟩ := Family.sample_mem_lines hs
  rcases List.mem_append.mp hf with hf | hf
  · obtain ⟨metric, hmetric, rfl⟩ := List.mem_map.mp hf
    rw [Family.name_of_mem_rows _ hs, show (rateFamily N snapshots metric).name = metric.1 from rfl,
      samplesOf_rates N hmetric, List.forall₂_map_right_iff]
    exact (Relate.forall₂_mem (hrates metric hmetric)).imp fun _ _ ⟨_, hmem, h⟩ =>
      h.labels.trans (labelSet_rateLabels hmem).symm
  · rcases List.mem_cons.mp hf with rfl | hf
    · rw [Family.name_of_mem_rows _ hs, show (alertFamily states).name = "netalert_alert_state" from rfl,
        samplesOf_alerts, List.forall₂_map_right_iff]
      exact halerts.imp fun _ _ h => h.labels
    · exact absurd (health_clean N f hf s hs) hbad

theorem faithful_of_presentable (h : Presentable snapshots states) :
    Faithful N snapshots states (renderMetrics N snapshots states health) := by
  have hshaped := Family.shaped_lines fun f (hf : f ∈ families N snapshots states health) =>
    families_shaped N hkeys hf
  have hclean : ∀ f ∈ families N snapshots states health, ∀ s ∈ f.rows, s.Clean := (clean_iff N).mpr h
  rw [renderMetrics_eq]
  refine ⟨_, Exposition.parse_write hshaped (Family.clean_lines.mpr hclean)
    (Family.coherent_lines (families_nodup N)), ?_, ?_⟩
  · intro metric hmetric
    rw [samplesOf_rates N hmetric, List.forall₂_map_left_iff, List.forall₂_same]
    intro s hs
    have hrow : ⟨metric.1, rateLabels (extraKeys snapshots) s, N.float (metric.2.2 s)⟩ ∈
        (rateFamily N snapshots metric).rows := List.mem_map_of_mem (List.mem_map_of_mem hs)
    have hmem : rateFamily N snapshots metric ∈ families N snapshots states health :=
      List.mem_append_left _ (List.mem_map_of_mem hmetric)
    exact ⟨labelSet_rateLabels hs, (hclean _ hmem _ hrow).nodup, rfl⟩
  · rw [samplesOf_alerts, List.forall₂_map_left_iff, List.forall₂_same]
    intro s hs
    have hrow : ⟨"netalert_alert_state", s.labels, toString s.state⟩ ∈ (alertFamily states).rows :=
      List.mem_map_of_mem (List.mem_map_of_mem hs)
    have hmem : alertFamily states ∈ families N snapshots states health :=
      List.mem_append_right _ List.mem_cons_self
    exact ⟨List.Perm.refl _, (hclean _ hmem _ hrow).nodup, rfl⟩

end Page

/-- **The page is a faithful encoding** exactly if no text needs an escape and no rule has a label of the
page's own names. -/
theorem faithful_iff (N : NumText) {snapshots : List RateSnapshot} (states : List AlertStateSnapshot)
    (health : HealthMetrics) (hkeys : ∀ s ∈ snapshots, ∀ key ∈ s.labels.keys, ValidName isLabelChar key) :
    Faithful N snapshots states (renderMetrics N snapshots states health) ↔ Presentable snapshots states :=
  ⟨presentable_of_faithful N hkeys, faithful_of_presentable N hkeys⟩

/-! ## Two pages -/

theorem numberText_digits (n : ℕ) :
    NumberText (fun text => !text.toList.isEmpty && text.toList.all Char.isDigit) (toString n) := by
  have htext : (toString n).toList = Nat.toDigits 10 n := by
    simp [Nat.toString_eq_repr, Nat.repr_eq_ofList_toDigits]
  have hdigit : ∀ c ∈ (toString n).toList, c.isDigit = true := by
    rw [htext]
    exact fun c hc => Nat.isDigit_of_mem_toDigits (by norm_num) (by norm_num) hc
  have hne : (toString n).toList ≠ [] := by
    rw [htext]
    exact Nat.toDigits_ne_nil
  refine ⟨?_, hne, fun c hc => ?_⟩
  · simp only [Bool.and_eq_true, Bool.not_eq_true', List.isEmpty_eq_false_iff, List.all_eq_true]
    exact ⟨hne, hdigit⟩
  · have hother : ∀ x : Char, x.isDigit = false → c ≠ x := by
      rintro x hx rfl
      exact absurd (hdigit _ hc) (by simp [hx])
    refine ⟨?_, hother _ (by decide)⟩
    simp [Exposition.isToken, Exposition.isBlank, hother ' ' (by decide), hother '\t' (by decide),
      hother '\n' (by decide)]

/-- Whole numbers, in digits. -/
def NumText.whole : NumText where
  float q := toString q.floor.toNat
  number text := !text.toList.isEmpty && text.toList.all Char.isDigit
  number_float q := numberText_digits q.floor.toNat
  number_nat := numberText_digits


/-- A rule's traffic, with the given label. -/
def labelled (customer : String) : RateSnapshot :=
  { ipPrefix := "10.0.0.0/24"
    labels := HashMap.ofPairs [("customer", customer)]
    protocol := .tcp
    direction := .inbound
    bps := 8000
    pps := 10
    fps := 1 }

/-- An alert on it. -/
def firingBps : AlertStateSnapshot :=
  { ipPrefix := "10.0.0.0/24"
    protocol := .tcp
    direction := .inbound
    metric := .bps
    state := 2 }

theorem labelled_keys (customer : String) :
    ∀ s ∈ [labelled customer], ∀ key ∈ s.labels.keys, ValidName isLabelChar key := by
  have hkey : ValidName isLabelChar "customer" := Exposition.validName_iff.mpr (by decide)
  simpa [labelled, HashMap.ofPairs] using hkey

theorem labelled_toPairs (customer : String) : (labelled customer).labels.toPairs = [("customer", customer)] := rfl

theorem faithful_iff_acme : Faithful .whole [labelled "ACME"] [firingBps]
    (renderMetrics .whole [labelled "ACME"] [firingBps] ⟨10, 0, 2, 7, 0⟩) := by
  refine (faithful_iff .whole [firingBps] ⟨10, 0, 2, 7, 0⟩ (labelled_keys "ACME")).mpr ⟨?_, ?_, ?_⟩
  · simp only [List.forall_mem_singleton]
    exact Exposition.plain_iff.mpr (by decide)
  · simp only [List.forall_mem_singleton, labelled_toPairs]
    exact ⟨by decide, Exposition.plain_iff.mpr (by decide)⟩
  · simp only [List.forall_mem_singleton]
    exact Exposition.plain_iff.mpr (by decide)

/-- A value with a quote. -/
theorem quoted_label_unread : ¬ Faithful .whole [labelled "ACME \"EU\""] [firingBps]
    (renderMetrics .whole [labelled "ACME \"EU\""] [firingBps] ⟨10, 0, 2, 7, 0⟩) := by
  intro h
  have hlabels := (presentable_of_faithful .whole (labelled_keys _) h).labels
  simp only [List.forall_mem_singleton, labelled_toPairs] at hlabels
  have hquote := hlabels.2 '"' (by decide)
  exact hquote.1 rfl

/-! ## Pages of a running daemon -/

section Running

variable {T : IpText} {c : Config} {d : Daemon}

/-- The page of a daemon shows prefixes and labels of the rules that it runs on. -/
theorem Settled.snapshot_rule (h : Settled T c d) {ord : HashOrder} {currentTime : ℕ} {s : RateSnapshot}
    (hs : s ∈ d.processor.computeAllRates T ord currentTime) :
    ∃ r ∈ c.rules, s.ipPrefix = T.net r.ipPrefix ∧ s.labels = r.labels := by
  obtain ⟨rule, hrule, hs⟩ := List.mem_flatMap.mp hs
  obtain ⟨e, -, rfl⟩ := List.mem_map.mp hs
  obtain ⟨p, hp, hlayout⟩ := h.processor
  have hmem : rule.layout ∈ p.rules.map ProcessedRule.layout := by
    rw [show p.rules.map ProcessedRule.layout = d.processor.rules.map ProcessedRule.layout from
      congrArg Layout.rules hlayout]
    exact List.mem_map_of_mem hrule
  obtain ⟨loaded, hloaded, heq⟩ := List.mem_map.mp hmem
  obtain ⟨r, hr, hbuilt⟩ := Relate.forall₂_left_of_mem (reloadConfig_ok hp).1 hloaded
  refine ⟨r, hr, ?_, ?_⟩
  · show T.net rule.ipPrefix = _
    rw [← hbuilt.ipPrefix, ← show loaded.ipPrefix = rule.ipPrefix from congrArg RuleLayout.ipPrefix heq]
  · show rule.labels = _
    rw [← hbuilt.labels, ← show loaded.labels = rule.labels from congrArg RuleLayout.labels heq]

theorem Settled.alert_rule (h : Settled T c d) {s : AlertStateSnapshot}
    (hs : s ∈ d.alertManager.stateSnapshots) : ∃ r ∈ c.rules, s.ipPrefix = T.net r.ipPrefix := by
  obtain ⟨a, ha, rfl⟩ := List.mem_map.mp hs
  obtain ⟨B, hB, hrebuilt⟩ := Relate.forall₂_left_of_mem h.alerts ha
  rw [buildAlerts_eq] at hB
  obtain ⟨r, hr, hB⟩ := List.mem_flatMap.mp hB
  refine ⟨r, hr, ?_⟩
  show a.ipPrefix = _
  rw [hrebuilt]
  exact (mem_ruleAlerts hB).1

/-- **The page of a running daemon** is faithful if the prefixes and labels of its configuration need no escape
and its label keys are valid names of their own. -/
theorem Running.faithful (N : NumText) (h : Running T c d) (hc : ∀ r ∈ c.rules, Plain (T.net r.ipPrefix) ∧
      ∀ l ∈ r.labels.toPairs, ValidName isLabelChar l.1 ∧ l.1 ∉ ["prefix", "protocol", "direction"] ∧ Plain l.2)
    (ord : HashOrder) (currentTime : ℕ) (health : HealthMetrics) :
    let snapshots := d.processor.computeAllRates T ord currentTime
    let states := d.alertManager.stateSnapshots
    Faithful N snapshots states (renderMetrics N snapshots states health) := by
  intro snapshots states
  refine faithful_of_presentable N (fun s hs key hkey => ?_) ⟨fun s hs => ?_, fun s hs l hl => ?_, fun s hs => ?_⟩
  · obtain ⟨r, hr, -, hlabels⟩ := h.settled.snapshot_rule hs
    rw [hlabels, ← HashMap.map_fst_toPairs] at hkey
    obtain ⟨l, hl, rfl⟩ := List.mem_map.mp hkey
    exact ((hc r hr).2 l hl).1
  · obtain ⟨r, hr, htext, -⟩ := h.settled.snapshot_rule hs
    rw [htext]
    exact (hc r hr).1
  · obtain ⟨r, hr, -, hlabels⟩ := h.settled.snapshot_rule hs
    rw [hlabels] at hl
    exact ((hc r hr).2 l hl).2
  · obtain ⟨r, hr, htext⟩ := h.settled.alert_rule hs
    rw [htext]
    exact (hc r hr).1

end Running

end NetAlert

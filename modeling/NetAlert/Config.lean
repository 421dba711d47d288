import NetAlert.Lib.HashMap
import NetAlert.Net

/-!
# NetAlert.Config — flow records and configuration (`flow.rs`, `config.rs`)

Times: a `Duration` and an `Instant` are counted in nanoseconds.  A rate is an exact rational; a
configured threshold is any `f64` a YAML file can hold, so it may also be infinite or not a number.
A map read from the file is held in the order in which the program walks it.
-/

namespace NetAlert

/-! ## Numbers -/

abbrev Duration := ℕ

abbrev Instant := ℕ

def Duration.asSecs (d : Duration) : ℕ := d / 1000000000

def Duration.fromSecs (s : ℕ) : Duration := s * 1000000000

/-- `now.duration_since(since)`, zero if `since` is later. -/
def Instant.durationSince (now since : Instant) : Duration := now - since

/-- An `f64` up to rounding. -/
inductive F64 where
  | nan
  | negInf
  | num (q : ℚ)
  | inf
  deriving DecidableEq

namespace F64

/-- `a < b`, false when either side is not a number. -/
def lt : F64 → F64 → Bool
  | nan, _ => false
  | _, nan => false
  | negInf, negInf => false
  | negInf, _ => true
  | num _, negInf => false
  | num p, num q => p < q
  | num _, inf => true
  | inf, _ => false

/-- `a <= b`, false when either side is not a number. -/
def le : F64 → F64 → Bool
  | nan, _ => false
  | _, nan => false
  | negInf, _ => true
  | num _, negInf => false
  | num p, num q => p ≤ q
  | num _, inf => true
  | inf, inf => true
  | inf, _ => false

section

attribute [local simp] lt le

/-- A rate is not both at or above a threshold and below it. -/
theorem not_lt_of_le {t : F64} {r : ℚ} (h : le t (num r) = true) : lt (num r) t = false := by
  cases t <;> simp_all

theorem not_le_of_lt {t : F64} {r : ℚ} (h : lt (num r) t = true) : le t (num r) = false := by
  cases t <;> simp_all

/-- Two thresholds between which no rate fits are in order or not numbers. -/
theorem exists_between {s t : F64} : (∃ r : ℚ, le s (num r) = true ∧ lt (num r) t = true) ↔ lt s t = true := by
  cases s with
  | nan => simp
  | negInf =>
    cases t with
    | num q => simpa using ⟨q - 1, by linarith⟩
    | _ => simp
  | num p =>
    cases t with
    | num q => simpa using ⟨fun ⟨r, h1, h2⟩ => lt_of_le_of_lt h1 h2, fun h => ⟨p, le_rfl, h⟩⟩
    | inf => simpa using ⟨p, le_rfl⟩
    | _ => simp
  | inf => cases t <;> simp

/-- A threshold some rate is at or above is a number, so every rate is on one side of it. -/
theorem le_or_lt_of_le {t : F64} {r : ℚ} (h : le t (num r) = true) (r' : ℚ) :
    lt (num r') t = !le t (num r') := by
  cases t <;> simp_all [← not_le]

/-- A threshold that is a number has every rate on one side of it. -/
theorem lt_eq_not_le {t : F64} (h : t ≠ nan) (r : ℚ) : lt (num r) t = !le t (num r) := by
  cases t <;> simp_all [← not_le]

/-- Likewise for a threshold that some rate is below. -/
theorem le_or_lt_of_lt {t : F64} {r : ℚ} (h : lt (num r) t = true) (r' : ℚ) :
    lt (num r') t = !le t (num r') := by
  cases t <;> simp_all [← not_le]

theorem le_trans_num {t : F64} {r r' : ℚ} (h : le t (num r') = true) (hr : r' ≤ r) : le t (num r) = true := by
  cases t <;> simp_all
  exact h.trans hr

theorem lt_of_le_num {t : F64} {r r' : ℚ} (hr : r' ≤ r) (h : lt (num r) t = true) : lt (num r') t = true := by
  cases t <;> simp_all
  exact hr.trans_lt h

end

end F64

/-! ## Flow records -/

structure FlowRecord where
  srcIp : IpAddr
  dstIp : IpAddr
  srcPort : UInt16
  dstPort : UInt16
  protocol : UInt8
  tcpFlags : UInt8
  bytes : ℕ
  packets : ℕ
  timeReceived : ℕ
  samplingRate : ℕ
  deriving DecidableEq

def FlowRecord.sampledBytes (f : FlowRecord) : ℕ := f.bytes * f.samplingRate

def FlowRecord.sampledPackets (f : FlowRecord) : ℕ := f.packets * f.samplingRate

/-! ## Directions and protocol categories -/

inductive Direction where
  | inbound
  | outbound
  deriving DecidableEq

def Direction.toString : Direction → String
  | inbound => "inbound"
  | outbound => "outbound"

inductive ProtocolCategory where
  | tcp
  | udp
  | icmp
  | gre
  | esp
  | tcpSyn
  | dns
  | https
  | any
  deriving DecidableEq

namespace ProtocolCategory

def toString : ProtocolCategory → String
  | tcp => "tcp"
  | udp => "udp"
  | icmp => "icmp"
  | gre => "gre"
  | esp => "esp"
  | tcpSyn => "tcp_syn"
  | dns => "dns"
  | https => "https"
  | any => "any"

/-- The categories a flow counts towards. -/
def classify (protocol tcpFlags : UInt8) (dstPort : UInt16) : List ProtocolCategory :=
  any ::
    if protocol = 6 then
      tcp :: (if tcpFlags &&& 0x02 ≠ 0 then [tcpSyn] else []) ++
        (if dstPort = 443 then [https] else []) ++ (if dstPort = 53 then [dns] else [])
    else if protocol = 17 then
      udp :: (if dstPort = 53 then [dns] else [])
    else if protocol = 1 ∨ protocol = 58 then [icmp]
    else if protocol = 47 then [gre]
    else if protocol = 50 then [esp]
    else []

/-- No category is listed twice. -/
theorem nodup_classify (protocol tcpFlags : UInt8) (dstPort : UInt16) :
    (classify protocol tcpFlags dstPort).Nodup := by
  unfold classify
  split_ifs <;> simp

/-- What a category says about protocol, flags and destination port. -/
def Says (protocol tcpFlags : UInt8) (dstPort : UInt16) : ProtocolCategory → Prop
  | tcp => protocol = 6
  | udp => protocol = 17
  | icmp => protocol = 1 ∨ protocol = 58
  | gre => protocol = 47
  | esp => protocol = 50
  | tcpSyn => protocol = 6 ∧ tcpFlags &&& 0x02 ≠ 0
  | dns => (protocol = 6 ∨ protocol = 17) ∧ dstPort = 53
  | https => protocol = 6 ∧ dstPort = 443
  | any => True

theorem mem_classify (protocol tcpFlags : UInt8) (dstPort : UInt16) (category : ProtocolCategory) :
    category ∈ classify protocol tcpFlags dstPort ↔ Says protocol tcpFlags dstPort category := by
  by_cases h6 : protocol = 6
  · subst h6
    cases category <;> simp [classify, Says]
  by_cases h17 : protocol = 17
  · subst h17
    cases category <;> simp [classify, Says]
  by_cases h1 : protocol = 1 ∨ protocol = 58
  · cases category <;> simp [classify, Says, h6, h17, h1] <;> rcases h1 with rfl | rfl <;> decide
  by_cases h47 : protocol = 47
  · subst h47
    cases category <;> simp [classify, Says]
  cases category <;> simp [classify, Says, h6, h17, h1, h47]

end ProtocolCategory

/-- The categories of a flow record, as `process_flow` and `analyze_flows` ask for them. -/
def FlowRecord.categories (f : FlowRecord) : List ProtocolCategory :=
  ProtocolCategory.classify f.protocol f.tcpFlags f.dstPort

/-! ## Configuration -/

def defaultCaptureBufferSize : ℕ := 500

def defaultMitigationUpdateInterval : Duration := Duration.fromSecs 30

structure GlobalConfig where
  evaluationInterval : Duration
  window : Duration
  alertScript : Option String := none
  captureBufferSize : ℕ := defaultCaptureBufferSize
  mitigationUpdateInterval : Duration := defaultMitigationUpdateInterval
  deriving DecidableEq

structure ExporterConfig where
  address : IpAddr
  samplingRate : ℕ
  deriving DecidableEq

structure AlertPolicyConfig where
  triggerFor : Duration
  recoverFor : Duration
  deriving DecidableEq

structure ThresholdPair where
  trigger : F64
  recover : Option F64 := none
  deriving DecidableEq

/-- The recover threshold, which defaults to the trigger. -/
def ThresholdPair.recoverValue (t : ThresholdPair) : F64 := t.recover.getD t.trigger

structure MetricThresholds where
  bps : Option ThresholdPair := none
  pps : Option ThresholdPair := none
  fps : Option ThresholdPair := none
  deriving DecidableEq

structure DirectionMetrics where
  metrics : MetricThresholds
  deriving DecidableEq

structure RuleConfig where
  ipPrefix : IpNet
  labels : HashMap String String := ∅
  alertPolicy : Option String := none
  thresholds : HashMap ProtocolCategory (HashMap Direction DirectionMetrics)
  deriving DecidableEq

structure Config where
  global : GlobalConfig
  exporters : HashMap String ExporterConfig := ∅
  alertPolicies : HashMap String AlertPolicyConfig := ∅
  rules : List RuleConfig
  deriving DecidableEq

namespace Config

variable (T : IpText)

/-- One threshold of a rule must name a metric. -/
def validateDirection (idx : ℕ) (rule : RuleConfig) (proto : ProtocolCategory)
    (entry : Direction × DirectionMetrics) : Except String Unit :=
  let m := entry.2.metrics
  if m.bps.isNone && m.pps.isNone && m.fps.isNone then
    .error ("Rule " ++ toString idx ++ " (prefix " ++ T.net rule.ipPrefix ++ "): threshold " ++
      proto.toString ++ "/" ++ entry.1.toString ++ " has no metrics defined")
  else .ok ()

/-- One rule: its alert policy must exist, and it must have thresholds, each with a metric. -/
def validateRule (c : Config) (idx : ℕ) (rule : RuleConfig) : Except String Unit := do
  match rule.alertPolicy with
  | some policyName =>
    if (c.alertPolicies.lookup policyName).isNone then
      .error ("Rule " ++ toString idx ++ " (prefix " ++ T.net rule.ipPrefix ++
        ") references unknown alert_policy '" ++ policyName ++ "'")
  | none => pure ()
  if rule.thresholds.toPairs.isEmpty then
    .error ("Rule " ++ toString idx ++ " (prefix " ++ T.net rule.ipPrefix ++
      ") has no thresholds defined")
  rule.thresholds.toPairs.forM fun (proto, directions) =>
    directions.toPairs.forM (validateDirection T idx rule proto)

/-- Exporter addresses must be distinct; `seen` holds those already met. -/
def validateExporters : List IpAddr → List (String × ExporterConfig) → Except String Unit
  | _, [] => .ok ()
  | seen, (name, exporter) :: rest =>
    if seen.contains exporter.address then
      .error ("Exporter '" ++ name ++ "' has duplicate address " ++ T.addr exporter.address)
    else validateExporters (exporter.address :: seen) rest

def validate (c : Config) : Except String Unit := do
  c.rules.zipIdx.forM fun (rule, idx) => validateRule T c idx rule
  validateExporters T [] c.exporters.toPairs

/-- The sampling rates by exporter address. -/
def exporterSamplingRates (c : Config) : HashMap IpAddr ℕ :=
  HashMap.ofPairs (c.exporters.toPairs.map fun e => (e.2.address, e.2.samplingRate))

/-- The thresholds of a rule that names one protocol category and one direction. -/
def single (protocol : ProtocolCategory) (direction : Direction) (metrics : MetricThresholds) :
    HashMap ProtocolCategory (HashMap Direction DirectionMetrics) :=
  HashMap.ofPairs [(protocol, HashMap.ofPairs [(direction, ⟨metrics⟩)])]

/-- The configuration of the README. -/
def readme : Config :=
  { global :=
      { evaluationInterval := Duration.fromSecs 1
        window := Duration.fromSecs 10
        alertScript := some "/etc/netalert/alert.sh"
        captureBufferSize := 500
        mitigationUpdateInterval := Duration.fromSecs 30 }
    exporters := HashMap.ofPairs [("edge-router-1", ⟨.V4 0x0A010101, 1000⟩)]
    alertPolicies :=
      HashMap.ofPairs [("default_ddos", ⟨Duration.fromSecs 3, Duration.fromSecs 30⟩)]
    rules :=
      [{ ipPrefix := .slash24 0x0A000000
         labels := HashMap.ofPairs [("segment", "customer")]
         alertPolicy := some "default_ddos"
         thresholds := single .any .inbound
          { bps := some ⟨.num 300000000, some (.num 200000000)⟩
            pps := some ⟨.num 100000, none⟩ } }] }

end Config

end NetAlert

import NetAlert.Config
import NetAlert.Lib.Best
import NetAlert.Lib.Loop
import NetAlert.Lib.Tally

/-!
# NetAlert.Mitigation — from captured flows to flow-spec rules (`mitigation.rs`)

`analyzeFlows` is a loop of at most ten rounds.  A round picks the field pattern of greatest score
among the remaining flows, narrows the destination prefix over them, writes one rule and removes the
flows of the pattern.  Byte sums and ratios are exact.  The hash maps of a round are walked in an
order of that round.
-/

namespace NetAlert

/-- A suggested BGP Flow Spec rule. -/
structure MitigationRule where
  sourcePrefix : Option String
  destinationPrefix : String
  destinationPorts : List UInt16
  sourcePorts : List UInt16
  protocols : List String
  tcpFlags : List String
  deriving DecidableEq

/-! ## Field patterns -/

/-- Which fields a candidate constrains. -/
structure FieldSet where
  bits : UInt8
  deriving DecidableEq

namespace FieldSet

def srcIp : UInt8 := (1 : UInt8) <<< 0

def dstPort : UInt8 := (1 : UInt8) <<< 1

def srcPort : UInt8 := (1 : UInt8) <<< 2

def protocol : UInt8 := (1 : UInt8) <<< 3

def tcpFlags : UInt8 := (1 : UInt8) <<< 4

def count (fs : FieldSet) : ℕ := ((List.range 8).filter fun i => fs.bits.toNat.testBit i).length

def has (fs : FieldSet) (flag : UInt8) : Bool := fs.bits &&& flag ≠ 0

/-- All non-empty subsets of the fields outside `excludeMask`, by increasing number of fields. -/
def allCombinations (excludeMask : UInt8) : List FieldSet :=
  let available := ~~~excludeMask &&& 0b11111
  let result := ((List.range' 1 31).map fun n => FieldSet.mk (UInt8.ofNat n)).filter
    fun fs => fs.bits &&& ~~~available = 0
  result.insertionSort fun a b => a.count ≤ b.count

end FieldSet

/-- A candidate rule: concrete values for its fields. -/
structure Candidate where
  fields : FieldSet
  srcIp : Option IpAddr
  dstPort : Option UInt16
  srcPort : Option UInt16
  protocol : Option UInt8
  tcpFlags : Option UInt8
  deriving DecidableEq

/-- `matches`: every constrained field has the candidate's value; flags may have others set too. -/
def Candidate.matching (c : Candidate) (flow : FlowRecord) : Bool :=
  c.srcIp.all (fun ip => flow.srcIp = ip) && c.dstPort.all (fun port => flow.dstPort = port) &&
    c.srcPort.all (fun port => flow.srcPort = port) && c.protocol.all (fun proto => flow.protocol = proto) &&
    c.tcpFlags.all (fun flags => flow.tcpFlags &&& flags = flags)

/-- The values of a flow in the fields of a field set. -/
structure GroupKey where
  srcIp : Option IpAddr
  dstPort : Option UInt16
  srcPort : Option UInt16
  protocol : Option UInt8
  tcpFlags : Option UInt8
  deriving DecidableEq

/-- No key for a flow that has zero in a constrained port, protocol or flag field. -/
def GroupKey.fromFlow (flow : FlowRecord) (fields : FieldSet) : Option GroupKey :=
  if fields.has FieldSet.tcpFlags ∧ flow.tcpFlags = 0 then none
  else if fields.has FieldSet.protocol ∧ flow.protocol = 0 then none
  else if fields.has FieldSet.dstPort ∧ flow.dstPort = 0 then none
  else if fields.has FieldSet.srcPort ∧ flow.srcPort = 0 then none
  else some
    { srcIp := if fields.has FieldSet.srcIp then some flow.srcIp else none
      dstPort := if fields.has FieldSet.dstPort then some flow.dstPort else none
      srcPort := if fields.has FieldSet.srcPort then some flow.srcPort else none
      protocol := if fields.has FieldSet.protocol then some flow.protocol else none
      tcpFlags := if fields.has FieldSet.tcpFlags then some flow.tcpFlags else none }

/-- The sampled bytes of a list of flows. -/
def totalBytes (flows : List FlowRecord) : ℕ := (flows.map FlowRecord.sampledBytes).sum

/-! ## Narrowing the destination -/

/-- The address that a direction is about. -/
def Direction.address (d : Direction) (flow : FlowRecord) : IpAddr :=
  match d with
  | .inbound => flow.dstIp
  | .outbound => flow.srcIp

/-- The bytes of a prefix, by a walk over the address counts. -/
def childBytes (ord : HashOrder) (counts : HashMap IpAddr ℕ) (child : IpNet) : ℕ :=
  (((ord.iter counts.toPairs).filter fun e => child.contains e.1).map Prod.snd).sum

/-- One descent: into the busier half (the upper one if both are even), if it carries the dominant
share. -/
def narrowStep (ord : HashOrder) (counts : HashMap IpAddr ℕ) (total : ℕ) (dominantRatio : ℚ)
    (maxLen : ℕ) (current : IpNet) : Option IpNet :=
  if current.prefixLen < maxLen then
    match current.subnets with
    | none => none
    | some children =>
      match Best.maxBy Prod.snd (children.map fun child => (child, childBytes ord counts child)) with
      | some (child, bytes) => if (bytes : ℚ) / total ≥ dominantRatio then some child else none
      | none => none
  else none

def IpNet.maxLen : IpNet → ℕ
  | V4 _ => 32
  | V6 _ => 128

/-- Descend from the prefix into halves that carry the dominant share.  Every descent makes the
prefix one bit longer, so `maxLen` rounds are enough. -/
def computeDestinationPrefix (ord : HashOrder) (flows : List FlowRecord) (direction : Direction)
    (ipPrefix : IpNet) (dominantRatio : ℚ) : IpNet :=
  let total := totalBytes flows
  if total = 0 then ipPrefix
  else
    let counts := flows.foldl (fun counts flow =>
      Tally.add counts (direction.address flow) flow.sampledBytes) ∅
    Loop.run (narrowStep ord counts total dominantRatio ipPrefix.maxLen) ipPrefix.maxLen ipPrefix.trunc

/-! ## Names -/

def protoNumber : ProtocolCategory → UInt8
  | .tcp | .tcpSyn | .https => 6
  | .udp => 17
  | .icmp => 1
  | .gre => 47
  | .esp => 50
  | .any | .dns => 0

def protocolName (proto : UInt8) : String :=
  if proto = 1 then "icmp"
  else if proto = 6 then "tcp"
  else if proto = 17 then "udp"
  else if proto = 47 then "gre"
  else if proto = 50 then "esp"
  else if proto = 58 then "icmp6"
  else toString proto.toNat

def tcpFlagTable : List (UInt8 × String) :=
  [(0x01, "fin"), (0x02, "syn"), (0x04, "rst"), (0x08, "psh"), (0x10, "ack"), (0x20, "urg")]

def tcpFlagNames (flags : UInt8) : List String :=
  (tcpFlagTable.filter fun e => flags &&& e.1 ≠ 0).map Prod.snd

/-! ## The best candidate -/

/-- The sampled bytes and packets of the flows, by group key. -/
def groupFlows (flows : List FlowRecord) (fields : FieldSet) : HashMap GroupKey (ℕ × ℕ) :=
  flows.foldl (fun groups flow =>
    match GroupKey.fromFlow flow fields with
    | none => groups
    | some key => Tally.add groups key (flow.sampledBytes, flow.sampledPackets)) ∅

def Candidate.ofKey (fields : FieldSet) (key : GroupKey) : Candidate :=
  { fields := fields
    srcIp := key.srcIp
    dstPort := key.dstPort
    srcPort := key.srcPort
    protocol := key.protocol
    tcpFlags := key.tcpFlags }

/-- Coverage times one plus half the number of fields. -/
def scoreOf (coverage : ℚ) (fields : FieldSet) : ℚ := coverage * (1 + 1 / 2 * fields.count)

/-- One group: a candidate if it covers enough, remembered if it beats the best so far. -/
def considerGroup (total : ℕ) (minCoverage : ℚ) (fields : FieldSet) (best : Option (Candidate × ℚ))
    (entry : GroupKey × ℕ × ℕ) : Option (Candidate × ℚ) :=
  let coverage : ℚ := entry.2.1 / total
  if coverage < minCoverage then best
  else
    let candidate := Candidate.ofKey fields entry.1
    let score := scoreOf coverage candidate.fields
    match best with
    | none => some (candidate, score)
    | some (_, bestScore) => if score > bestScore then some (candidate, score) else best

def findBestCandidate (ord : HashOrder) (flows : List FlowRecord) (minCoverage : ℚ)
    (excludeFields : UInt8) : Option Candidate :=
  if flows.isEmpty then none
  else
    let total := totalBytes flows
    if total = 0 then none
    else
      let best := (FieldSet.allCombinations excludeFields).foldl (fun best fields =>
        (ord.iter (groupFlows flows fields).toPairs).foldl (considerGroup total minCoverage fields) best)
        none
      best.map Prod.fst

/-! ## The analysis -/

/-- The protocol name and port that the alert's category pins. -/
def forcedFields : ProtocolCategory → Option String × Option UInt16
  | .any => (none, none)
  | .tcpSyn => (some "tcp", none)
  | .dns => (none, some 53)
  | .https => (some "tcp", some 443)
  | other =>
    let n := protoNumber other
    (if n ≠ 0 then some (protocolName n) else none, none)

/-- The fields that the search leaves out, since the category pins them. -/
def excludeFields (filter : ProtocolCategory) : UInt8 :=
  (if (forcedFields filter).1.isSome then FieldSet.protocol else 0) |||
    (if (forcedFields filter).2.isSome then FieldSet.dstPort else 0)

/-- The flows of the alert's category. -/
def filterFlows (flows : List FlowRecord) (filter : ProtocolCategory) : List FlowRecord :=
  if filter = .any then flows else flows.filter fun f => f.categories.contains filter

/-- The candidate of a fallback rule, which holds the forced fields only. -/
def Candidate.blanket : Candidate := ⟨⟨0⟩, none, none, none, none, none⟩

/-- The rule of a candidate. -/
def buildRule (T : IpText) (destPrefix : IpNet) (direction : Direction) (filter : ProtocolCategory)
    (candidate : Candidate) (ruleDestPrefix : IpNet) : MitigationRule :=
  let sourcePrefix := candidate.srcIp.map T.host
  let destinationPorts := match candidate.dstPort, (forcedFields filter).2 with
    | some port, _ => if port ≠ 0 then [port] else []
    | none, some port => [port]
    | none, none => []
  let sourcePorts := match candidate.srcPort with
    | some port => if port ≠ 0 then [port] else []
    | none => []
  let protocols := match candidate.protocol, (forcedFields filter).1 with
    | some proto, _ => [protocolName proto]
    | none, some forced => [forced]
    | none, none => []
  let flagNames := (candidate.tcpFlags.map tcpFlagNames).getD []
  let tcpFlags := if filter = .tcpSyn ∧ flagNames.isEmpty then ["syn"] else flagNames
  let (ruleSrc, ruleDst) := match direction with
    | .inbound => (sourcePrefix, T.net ruleDestPrefix)
    | .outbound =>
      (some (T.net ruleDestPrefix), (candidate.srcIp.map T.host).getD (T.net destPrefix))
  { sourcePrefix := ruleSrc
    destinationPrefix := ruleDst
    destinationPorts := destinationPorts
    sourcePorts := sourcePorts
    protocols := protocols
    tcpFlags := tcpFlags }

def maxRules : ℕ := 10

def minCoverageRatio : ℚ := 1 / 10

def dominantShare : ℚ := 8 / 10

/-- The variables of the loop of `analyze_flows`. -/
structure Analysis where
  remaining : List FlowRecord
  rules : List MitigationRule
  deriving DecidableEq

/-- What the loop reads and does not change. -/
structure AnalysisInput where
  destPrefix : IpNet
  direction : Direction
  protocolFilter : ProtocolCategory
  currentRate : ℚ
  threshold : F64
  deriving DecidableEq

namespace AnalysisInput

variable (T : IpText) (ord : ℕ → HashOrder) (a : AnalysisInput)

/-- The estimated remaining rate is below the threshold. -/
def belowThreshold (total : ℕ) (remaining : List FlowRecord) : Bool :=
  decide (0 < total) && F64.lt (.num 0) a.threshold &&
    F64.lt (.num (a.currentRate * ((totalBytes remaining : ℚ) / total))) a.threshold

/-- The candidate of a round: the best one, or as a first rule the forced fields alone. -/
def chooseCandidate (s : Analysis) : Option Candidate :=
  match findBestCandidate (ord s.rules.length) s.remaining minCoverageRatio (excludeFields a.protocolFilter) with
  | some c => some c
  | none =>
    if s.rules.isEmpty ∧ ((forcedFields a.protocolFilter).1.isSome ∨ (forcedFields a.protocolFilter).2.isSome)
    then some Candidate.blanket
    else none

/-- One round; no result where the loop breaks. -/
def step (total : ℕ) (s : Analysis) : Option Analysis :=
  if s.remaining.isEmpty then none
  else if a.belowThreshold total s.remaining then none
  else
    match a.chooseCandidate ord s with
    | none => none
    | some candidate =>
      let ruleDestPrefix := computeDestinationPrefix (ord s.rules.length) s.remaining a.direction
        a.destPrefix dominantShare
      some
        { remaining := s.remaining.filter fun flow => !candidate.matching flow
          rules := s.rules ++
            [buildRule T a.destPrefix a.direction a.protocolFilter candidate ruleDestPrefix] }

/-- The loop on the flows of the category. -/
def run (filtered : List FlowRecord) : Analysis :=
  Loop.run (a.step T ord (totalBytes filtered)) maxRules ⟨filtered, []⟩

end AnalysisInput

def analyzeFlows (T : IpText) (ord : ℕ → HashOrder) (flows : List FlowRecord) (destPrefix : IpNet)
    (direction : Direction) (protocolFilter : ProtocolCategory) (currentRate : ℚ) (threshold : F64) :
    List MitigationRule :=
  if flows.isEmpty then []
  else
    let filtered := filterFlows flows protocolFilter
    if filtered.isEmpty then []
    else
      let a : AnalysisInput := ⟨destPrefix, direction, protocolFilter, currentRate, threshold⟩
      (a.run T ord filtered).rules

end NetAlert

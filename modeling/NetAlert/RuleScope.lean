import NetAlert.Lib.FieldText
import NetAlert.RuleHits

/-!
# NetAlert.RuleScope — what a suggested rule covers and what it stays within

A rule is written from a candidate and from the protocol and port that the alert's category pins.
`Round` holds a state of the loop with the candidate chosen there.

* `removed_covered_iff`: an inbound rule covers what its candidate removed, destination aside, but for
  ICMPv6.
* `rule_category`: but for DNS, whatever satisfies a rule's ports, protocol and flags is in its category.
-/

namespace NetAlert

/-- The rule holds of the flow, destination prefix aside. -/
def MitigationRule.covers (T : IpText) (rule : MitigationRule) (flow : FlowRecord) : Bool :=
  rule.sourceMatches T flow && rule.portsMatch flow && rule.protocolMatches flow && rule.flagsMatch flow

/-- A state of the loop in which it goes round, and the candidate chosen there. -/
structure Round where
  before : Analysis
  candidate : Candidate

/-- The flows that the round removes from the remaining ones. -/
def Round.removed (r : Round) : List FlowRecord := r.before.remaining.filter r.candidate.matching

namespace AnalysisInput

variable (T : IpText) (ord : ℕ → HashOrder) (a : AnalysisInput)

/-- The rounds that the loop makes. -/
def rounds (total : ℕ) : ℕ → Analysis → List Round
  | 0, _ => []
  | n + 1, s =>
    match a.step T ord total s, a.chooseCandidate ord s with
    | some s', some c => ⟨s, c⟩ :: rounds total n s'
    | _, _ => []

variable {T ord a}

theorem rounds_of_some {total n : ℕ} {s : Analysis} {c : Candidate}
    (hc : a.chooseCandidate ord s = some c) {s' : Analysis} (hs : a.step T ord total s = some s') :
    a.rounds T ord total (n + 1) s = ⟨s, c⟩ :: a.rounds T ord total n s' := by
  simp [rounds, hs, hc]

theorem rounds_eq_nil {total n : ℕ} {s : Analysis} :
    a.rounds T ord total (n + 1) s = [] ↔ a.step T ord total s = none := by
  cases hs : a.step T ord total s with
  | none => simp [rounds, hs]
  | some s' =>
    have hs' := hs
    obtain ⟨-, -, c, hc, -⟩ := step_eq_some.mp hs'
    simp [rounds_of_some hc hs]

/-- **The rules** are those of the rounds, in order. -/
theorem loop_rules (total n : ℕ) (s : Analysis) : (Loop.run (a.step T ord total) n s).rules =
    s.rules ++ (a.rounds T ord total n s).map fun r => ruleOf T ord a r.before r.candidate := by
  induction n generalizing s with
  | zero => simp [Loop.run, rounds]
  | succ n ih =>
    cases hs : a.step T ord total s with
    | none =>
      rw [Loop.run_of_none hs]
      simp [rounds, hs]
    | some s' =>
      have hs' := hs
      obtain ⟨-, -, c, hc, rfl⟩ := step_eq_some.mp hs'
      rw [Loop.run_of_some hs, ih, rounds_of_some hc hs]
      simp

/-- **Every round** is entered with flows of the list, and its candidate is the one chosen there. -/
theorem mem_rounds {total n : ℕ} {s : Analysis} : ∀ r ∈ a.rounds T ord total n s,
    (∀ f ∈ r.before.remaining, f ∈ s.remaining) ∧ a.chooseCandidate ord r.before = some r.candidate := by
  induction n generalizing s with
  | zero => simp [rounds]
  | succ n ih =>
    intro r hr
    cases hs : a.step T ord total s with
    | none => simp [rounds, hs] at hr
    | some s' =>
      have hs' := hs
      obtain ⟨-, -, c, hc, rfl⟩ := step_eq_some.mp hs'
      rw [rounds_of_some hc hs] at hr
      rcases List.mem_cons.mp hr with rfl | hr
      · exact ⟨fun f hf => hf, hc⟩
      · obtain ⟨hsub, hcand⟩ := ih r hr
        exact ⟨fun f hf => List.mem_of_mem_filter (hsub f hf), hcand⟩

end AnalysisInput

/-! ## What the category pins -/

/-- The search leaves out the protocol and the port that the category pins. -/
theorem has_of_mem_allCombinations {filter : ProtocolCategory} {fields : FieldSet}
    (h : fields ∈ FieldSet.allCombinations (excludeFields filter)) :
    ((forcedFields filter).1.isSome = true → fields.has FieldSet.protocol = false) ∧
      ((forcedFields filter).2.isSome = true → fields.has FieldSet.dstPort = false) := by
  unfold FieldSet.allCombinations at h
  rw [List.mem_insertionSort] at h
  revert fields
  cases filter <;> decide

/-- The candidate of a round is blank or has the values of a remaining flow in the fields searched. -/
theorem chooseCandidate_values {ord : ℕ → HashOrder} {a : AnalysisInput} {s : Analysis} {c : Candidate}
    (h : a.chooseCandidate ord s = some c) : c = Candidate.blanket ∨
      ∃ fields ∈ FieldSet.allCombinations (excludeFields a.protocolFilter), ∃ f ∈ s.remaining,
        c = Candidate.ofKey fields (keyOf f fields) := by
  unfold AnalysisInput.chooseCandidate at h
  split at h
  · rename_i c' hbest
    obtain rfl := Option.some.inj h
    obtain ⟨fields, key, rfl, hfields, ⟨f, hf, hkey⟩, -⟩ := findBestCandidate_some hbest
    obtain ⟨-, -, -, -, rfl⟩ := fromFlow_eq_some.mp hkey
    exact .inr ⟨fields, hfields, f, hf, rfl⟩
  · split_ifs at h
    exact .inl (Option.some.inj h).symm

/-- What the category pins is not in the candidate, and its protocol and flags are those of a remaining
flow. -/
theorem chooseCandidate_pins {ord : ℕ → HashOrder} {a : AnalysisInput} {s : Analysis} {c : Candidate}
    (h : a.chooseCandidate ord s = some c) :
    ((forcedFields a.protocolFilter).1.isSome = true → c.protocol = none) ∧
      ((forcedFields a.protocolFilter).2.isSome = true → c.dstPort = none) ∧
      (∀ proto ∈ c.protocol, ∃ f ∈ s.remaining, f.protocol = proto) ∧
      ∀ flags ∈ c.tcpFlags, ∃ f ∈ s.remaining, f.tcpFlags = flags := by
  rcases chooseCandidate_values h with rfl | ⟨fields, hfields, f, hf, rfl⟩
  · simp [Candidate.blanket]
  · obtain ⟨hproto, hport⟩ := has_of_mem_allCombinations hfields
    refine ⟨fun hpin => ?_, fun hpin => ?_, fun proto hp => ⟨f, hf, ?_⟩, fun flags ht => ⟨f, hf, ?_⟩⟩
    · simp [Candidate.ofKey, keyOf, hproto hpin]
    · simp [Candidate.ofKey, keyOf, hport hpin]
    · simp only [Candidate.ofKey, keyOf, Option.mem_def, Option.ite_none_right_eq_some] at hp
      exact Option.some.inj hp.2
    · simp only [Candidate.ofKey, keyOf, Option.mem_def, Option.ite_none_right_eq_some] at ht
      exact Option.some.inj ht.2

/-- The protocol with a name. -/
def protocolNumber (name : String) : ℕ :=
  if name = "icmp" then 1
  else if name = "tcp" then 6
  else if name = "udp" then 17
  else if name = "gre" then 47
  else if name = "esp" then 50
  else if name = "icmp6" then 58
  else FieldText.value 10 name.toList

/-- A numeral is none of the six words: all its characters are digits. -/
theorem protocolNumber_toString (n : ℕ) : protocolNumber (toString n) = n := by
  obtain ⟨hvalue, hdigits⟩ := FieldText.toDigits_spec (b := 10) (by decide) (by decide) n
  have hlist : (toString n).toList = Nat.toDigits 10 n := Nat.toList_repr
  rw [← hlist] at hvalue hdigits
  have hne : ∀ name : String, (∃ c ∈ name.toList, FieldText.isDigit c = false) → toString n ≠ name := by
    rintro name ⟨c, hc, hno⟩ rfl
    rw [hdigits c hc] at hno
    cases hno
  rw [protocolNumber, if_neg (hne "icmp" ⟨'i', by simp, by decide⟩), if_neg (hne "tcp" ⟨'t', by simp, by decide⟩),
    if_neg (hne "udp" ⟨'u', by simp, by decide⟩), if_neg (hne "gre" ⟨'g', by simp, by decide⟩),
    if_neg (hne "esp" ⟨'s', by simp, by decide⟩), if_neg (hne "icmp6" ⟨'i', by simp, by decide⟩), hvalue]

theorem protocolNumber_protocolName (p : UInt8) : protocolNumber (protocolName p) = p.toNat := by
  unfold protocolName
  split_ifs with h h h h h h
  iterate 6
    · subst h
      rfl
  · exact protocolNumber_toString p.toNat

/-- **Every protocol** has a name of its own. -/
theorem protocolName_injective : Function.Injective protocolName := by
  intro p q h
  rw [← UInt8.toNat_inj, ← protocolNumber_protocolName p, ← protocolNumber_protocolName q, h]

/-! ## What a rule covers -/

section Covers

variable {T : IpText} {c : Candidate} {f : FlowRecord} {filter : ProtocolCategory}

/-- The protocol of the rule is not that of a flow which the candidate removes exactly for ICMPv6. -/
theorem buildRule_protocol {destPrefix ruleDestPrefix : IpNet} {direction : Direction}
    (hc : c.matching f = true) (hf : filter = .any ∨ filter ∈ f.categories)
    (hpin : (forcedFields filter).1.isSome = true → c.protocol = none) :
    (buildRule T destPrefix direction filter c ruleDestPrefix).protocolMatches f = true ↔
      ¬ (filter = .icmp ∧ f.protocol = 58) := by
  obtain ⟨-, -, -, hproto, -⟩ := matching_iff.mp hc
  cases hp : c.protocol with
  | some proto =>
    -- the category pins no protocol, so it is not `icmp`
    have hne : filter ≠ .icmp := by
      rintro rfl
      rw [hpin rfl] at hp
      cases hp
    cases direction <;>
      simp [buildRule, MitigationRule.protocolMatches, hp, hproto proto (by simp [hp]), hne]
  | none =>
    rcases hf with rfl | hf
    · cases direction <;> simp [buildRule, MitigationRule.protocolMatches, hp, forcedFields]
    · have hsays := (ProtocolCategory.mem_classify _ _ _ _).mp hf
      cases filter with
      | icmp =>
        rcases hsays with h | h <;> cases direction <;>
          simp [buildRule, MitigationRule.protocolMatches, hp, forcedFields, protoNumber, protocolName, h]
      | _ =>
        cases direction <;>
          simp_all [buildRule, MitigationRule.protocolMatches, forcedFields, protoNumber, protocolName,
            ProtocolCategory.Says]

/-- **The rule of a candidate** covers a flow that the candidate removes exactly if it is no ICMPv6 flow
of an ICMP alert. -/
theorem buildRule_covers {destPrefix ruleDestPrefix : IpNet} (hc : c.matching f = true)
    (hf : filter = .any ∨ filter ∈ f.categories)
    (hpin : (forcedFields filter).1.isSome = true → c.protocol = none) :
    (buildRule T destPrefix .inbound filter c ruleDestPrefix).covers T f = true ↔
      ¬ (filter = .icmp ∧ f.protocol = 58) := by
  have haside : (buildRule T destPrefix .inbound filter c ruleDestPrefix).aside T f = true := buildRule_aside hc hf
  simp only [MitigationRule.aside, Bool.and_eq_true] at haside
  obtain ⟨⟨⟨hsrc, hports⟩, -⟩, hflags⟩ := haside
  have hproto : (buildRule T destPrefix .inbound filter c ruleDestPrefix).protocolMatches f = true ↔
      ¬ (filter = .icmp ∧ f.protocol = 58) := buildRule_protocol hc hf hpin
  rw [← hproto]
  simp [MitigationRule.covers, hsrc, hports, hflags]

end Covers

/-- **The suggested rules** are those of the rounds on the filtered flows. -/
theorem analyzeFlows_rounds (T : IpText) (ord : ℕ → HashOrder) (flows : List FlowRecord) (destPrefix : IpNet)
    (direction : Direction) (filter : ProtocolCategory) (rate : ℚ) (threshold : F64) :
    let a : AnalysisInput := ⟨destPrefix, direction, filter, rate, threshold⟩
    let filtered := filterFlows flows filter
    let rounds := a.rounds T ord (totalBytes filtered) maxRules ⟨filtered, []⟩
    analyzeFlows T ord flows destPrefix direction filter rate threshold =
      rounds.map fun r => AnalysisInput.ruleOf T ord a r.before r.candidate := by
  intro a filtered rounds
  rw [analyzeFlows_eq]
  exact AnalysisInput.loop_rules (totalBytes filtered) maxRules ⟨filtered, []⟩

section AnalyzeFlows

variable (T : IpText) (ord : ℕ → HashOrder) (flows : List FlowRecord) (destPrefix : IpNet)
  (filter : ProtocolCategory) (rate : ℚ) (threshold : F64)

/-- **What a round removes.**  The suggested rules are those of the rounds, and the rule of a round covers a
flow removed in it, destination aside, exactly if that is no ICMPv6 flow of an ICMP alert. -/
theorem removed_covered_iff :
    let a : AnalysisInput := ⟨destPrefix, .inbound, filter, rate, threshold⟩
    let filtered := filterFlows flows filter
    let rounds := a.rounds T ord (totalBytes filtered) maxRules ⟨filtered, []⟩
    analyzeFlows T ord flows destPrefix .inbound filter rate threshold =
        (rounds.map fun r => AnalysisInput.ruleOf T ord a r.before r.candidate) ∧
      ∀ r ∈ rounds, ∀ f ∈ r.removed,
        (AnalysisInput.ruleOf T ord a r.before r.candidate).covers T f = true ↔
          ¬ (filter = .icmp ∧ f.protocol = 58) := by
  intro a filtered rounds
  refine ⟨analyzeFlows_rounds T ord flows destPrefix .inbound filter rate threshold, fun r hr f hf => ?_⟩
  obtain ⟨hsub, hcand⟩ := AnalysisInput.mem_rounds r hr
  obtain ⟨hmem, hmatch⟩ := List.mem_filter.mp hf
  have hcat := (mem_filterFlows.mp (hsub f hmem)).2
  exact buildRule_covers hmatch hcat (chooseCandidate_pins hcand).1

/-- An echo request over IPv4. -/
def ping4 : FlowRecord := ⟨.V4 0xC6336401, .V4 0x0A020307, 0, 0, 1, 0, 1000, 10, 0, 1⟩

/-- An echo request over IPv6. -/
def ping6 : FlowRecord := ⟨.V6 0x20010db8000000000000000000000001, .V6 0x20010db8000000010000000000000001,
  0, 0, 58, 0, 1000, 10, 0, 1⟩

/-- 2001:db8:0:1::/64. -/
def site6 : IpNet := .V6 ⟨0x20010db8000000010000000000000000, 64, by decide⟩

/-- A round removes the request, by a rule that names the protocol `icmp`. -/
theorem rounds_ping : ∀ e ∈ [(site, ping4), (site6, ping6)],
    let a : AnalysisInput := ⟨e.1, .inbound, .icmp, 1000, .num 100⟩
    let filtered := filterFlows [e.2] .icmp
    let rounds := a.rounds IpText.dotted (fun _ => HashOrder.stored) (totalBytes filtered) maxRules ⟨filtered, []⟩
    ∃ r ∈ rounds, e.2 ∈ r.removed ∧
      (AnalysisInput.ruleOf IpText.dotted (fun _ => HashOrder.stored) a r.before r.candidate).protocols =
        ["icmp"] := by
  decide +kernel

theorem removed_covered_iff_ping4 :
    let a : AnalysisInput := ⟨site, .inbound, .icmp, 1000, .num 100⟩
    let filtered := filterFlows [ping4] .icmp
    let rounds := a.rounds IpText.dotted (fun _ => HashOrder.stored) (totalBytes filtered) maxRules ⟨filtered, []⟩
    ∃ r ∈ rounds, ping4 ∈ r.removed ∧
      (AnalysisInput.ruleOf IpText.dotted (fun _ => HashOrder.stored) a r.before r.candidate).covers
        IpText.dotted ping4 = true := by
  intro a filtered rounds
  obtain ⟨r, hr, hf, -⟩ := rounds_ping (site, ping4) (.head _)
  have hcovers := (removed_covered_iff IpText.dotted (fun _ => HashOrder.stored) [ping4] site .icmp 1000
    (.num 100)).2 r hr ping4 hf
  exact ⟨r, hr, hf, hcovers.mpr (by decide)⟩

/-- The rule for an ICMPv6 flood names the protocol `icmp`, and the flood itself has the name `icmp6`. -/
theorem ping6_not_covered :
    let a : AnalysisInput := ⟨site6, .inbound, .icmp, 1000, .num 100⟩
    let filtered := filterFlows [ping6] .icmp
    let rounds := a.rounds IpText.dotted (fun _ => HashOrder.stored) (totalBytes filtered) maxRules ⟨filtered, []⟩
    filtered = [ping6] ∧ ∃ r ∈ rounds, ping6 ∈ r.removed ∧
      (AnalysisInput.ruleOf IpText.dotted (fun _ => HashOrder.stored) a r.before r.candidate).protocols =
        ["icmp"] ∧
      protocolName ping6.protocol = "icmp6" ∧
      (AnalysisInput.ruleOf IpText.dotted (fun _ => HashOrder.stored) a r.before r.candidate).covers
        IpText.dotted ping6 = false := by
  intro a filtered rounds
  obtain ⟨r, hr, hf, hprotocols⟩ : ∃ r ∈ rounds, ping6 ∈ r.removed ∧
      (AnalysisInput.ruleOf IpText.dotted (fun _ => HashOrder.stored) a r.before r.candidate).protocols = ["icmp"] :=
    rounds_ping (site6, ping6) (.tail _ (.head _))
  have hname : protocolName ping6.protocol = "icmp6" := rfl
  refine ⟨by decide, r, hr, hf, hprotocols, hname, ?_⟩
  simp [MitigationRule.covers, MitigationRule.protocolMatches, hprotocols, hname]

end AnalyzeFlows

/-! ## What a rule stays within -/

section Within

variable {T : IpText} {c : Candidate} {f : FlowRecord} {filter : ProtocolCategory} {direction : Direction}
  {destPrefix ruleDestPrefix : IpNet}

/-- A flow that satisfies the rule has the protocol that the category pins. -/
theorem protocol_of_rule {q : UInt8} (hforced : (forcedFields filter).1 = some (protocolName q))
    (hc : c.protocol = none)
    (h : (buildRule T destPrefix direction filter c ruleDestPrefix).protocolMatches f = true) :
    f.protocol = q := by
  have hname : protocolName f.protocol = protocolName q := by
    cases direction <;> simpa [buildRule, MitigationRule.protocolMatches, hc, hforced] using h
  exact protocolName_injective hname

/-- It has the port that the category pins. -/
theorem port_of_rule {port : UInt16} (hforced : (forcedFields filter).2 = some port) (hc : c.dstPort = none)
    (h : (buildRule T destPrefix direction filter c ruleDestPrefix).portsMatch f = true) : f.dstPort = port := by
  simp only [MitigationRule.portsMatch, Bool.and_eq_true] at h
  cases direction <;> simpa [buildRule, hc, hforced] using h.1

/-- It has SYN set for an alert on SYN packets, as the candidate's flags are those of a SYN packet. -/
theorem syn_of_rule (hc : ∀ flags ∈ c.tcpFlags, flags &&& 0x02 ≠ 0)
    (h : (buildRule T destPrefix direction .tcpSyn c ruleDestPrefix).flagsMatch f = true) :
    f.tcpFlags &&& 0x02 ≠ 0 := by
  have hsyn : "syn" ∈ (buildRule T destPrefix direction .tcpSyn c ruleDestPrefix).tcpFlags := by
    cases ht : c.tcpFlags with
    | none => cases direction <;> simp [buildRule, ht]
    | some mask =>
      have hmask : "syn" ∈ tcpFlagNames mask := mem_tcpFlagNames.mpr ⟨0x02, by decide, hc mask ht⟩
      have hne : tcpFlagNames mask ≠ [] := List.ne_nil_of_mem hmask
      cases direction <;> simpa [buildRule, ht, hne] using hmask
  rw [MitigationRule.flagsMatch, List.all_eq_true] at h
  obtain ⟨bit, hbit, hset⟩ := mem_tcpFlagNames.mp (List.contains_iff_mem.mp (h "syn" hsyn))
  have h2 : ∀ e ∈ tcpFlagTable, e.2 = "syn" → e.1 = 0x02 := by decide
  rw [← h2 _ hbit rfl]
  exact hset

/-- **A candidate taken from flows of a category** gives a rule that stays in it, unless that is DNS. -/
theorem buildRule_category (hpin : (forcedFields filter).1.isSome = true → c.protocol = none)
    (hport : (forcedFields filter).2.isSome = true → c.dstPort = none)
    (hproto : ∀ proto ∈ c.protocol, ∃ g : FlowRecord, (filter = .any ∨ filter ∈ g.categories) ∧ g.protocol = proto)
    (hflags : ∀ flags ∈ c.tcpFlags, ∃ g : FlowRecord,
      (filter = .any ∨ filter ∈ g.categories) ∧ g.tcpFlags = flags)
    (hp : (buildRule T destPrefix direction filter c ruleDestPrefix).portsMatch f = true)
    (hn : (buildRule T destPrefix direction filter c ruleDestPrefix).protocolMatches f = true)
    (ht : (buildRule T destPrefix direction filter c ruleDestPrefix).flagsMatch f = true) :
    (filter ≠ .dns → filter ∈ f.categories) ∧
      (filter = .dns → f.dstPort = 53 ∧ (filter ∈ f.categories ↔ f.protocol = 6 ∨ f.protocol = 17) ∧
        ((buildRule T destPrefix direction filter c ruleDestPrefix).protocols ≠ [] → filter ∈ f.categories)) := by
  have hmem : ∀ p, p ∈ f.categories ↔ p.Says f.protocol f.tcpFlags f.dstPort :=
    ProtocolCategory.mem_classify _ _ _
  rw [hmem]
  constructor
  · intro hdns
    cases filter with
    | dns => exact absurd rfl hdns
    | any => trivial
    | tcp => exact protocol_of_rule (q := 6) rfl (hpin rfl) hn
    | udp => exact protocol_of_rule (q := 17) rfl (hpin rfl) hn
    | icmp => exact .inl (protocol_of_rule (q := 1) rfl (hpin rfl) hn)
    | gre => exact protocol_of_rule (q := 47) rfl (hpin rfl) hn
    | esp => exact protocol_of_rule (q := 50) rfl (hpin rfl) hn
    | https => exact ⟨protocol_of_rule (q := 6) rfl (hpin rfl) hn, port_of_rule rfl (hport rfl) hp⟩
    | tcpSyn =>
      refine ⟨protocol_of_rule (q := 6) rfl (hpin rfl) hn, syn_of_rule (fun flags hf => ?_) ht⟩
      obtain ⟨g, hg, rfl⟩ := hflags flags hf
      have hsays := (ProtocolCategory.mem_classify _ _ _ _).mp (hg.resolve_left (by decide))
      exact hsays.2
  · rintro rfl
    have h53 : f.dstPort = 53 := port_of_rule rfl (hport rfl) hp
    refine ⟨h53, by simp [ProtocolCategory.Says, h53], fun hne => ⟨?_, h53⟩⟩
    -- a protocol in the rule is that of a captured DNS flow
    cases hc : c.protocol with
    | none => cases direction <;> simp [buildRule, hc, forcedFields] at hne
    | some proto =>
      obtain ⟨g, hg, rfl⟩ := hproto proto (by simp [hc])
      have hsays := (ProtocolCategory.mem_classify _ _ _ _).mp (hg.resolve_left (by decide))
      have hname : protocolName f.protocol = protocolName g.protocol := by
        cases direction <;> simpa [buildRule, MitigationRule.protocolMatches, hc] using hn
      rw [protocolName_injective hname]
      exact hsays.1

end Within

/-- **Rules stay in their category.**  Whatever satisfies the ports, the protocol and the flags of a
suggested rule is in the category of the alert, unless that is DNS.  A DNS rule has port 53; what satisfies
it is in the category if its transport is TCP or UDP, and always if the rule names a protocol. -/
theorem rule_category (T : IpText) (ord : ℕ → HashOrder) (flows : List FlowRecord) (destPrefix : IpNet)
    (filter : ProtocolCategory) (rate : ℚ) (threshold : F64) :
    ∀ rule ∈ analyzeFlows T ord flows destPrefix .inbound filter rate threshold, ∀ f : FlowRecord,
      rule.portsMatch f = true → rule.protocolMatches f = true → rule.flagsMatch f = true →
        (filter ≠ .dns → filter ∈ f.categories) ∧
        (filter = .dns → f.dstPort = 53 ∧ (filter ∈ f.categories ↔ f.protocol = 6 ∨ f.protocol = 17) ∧
          (rule.protocols ≠ [] → filter ∈ f.categories)) := by
  rw [analyzeFlows_eq]
  apply AnalysisInput.run_rules
  intro s c hsub _ hc f hports hproto hflags
  obtain ⟨hpin, hport, hvalue, hmask⟩ := chooseCandidate_pins hc
  have hin : ∀ g ∈ s.remaining, filter = .any ∨ filter ∈ g.categories := fun g hg =>
    (mem_filterFlows.mp (hsub g hg)).2
  apply buildRule_category hpin hport _ _ hports hproto hflags
  · intro proto hp
    obtain ⟨g, hg, rfl⟩ := hvalue proto hp
    exact ⟨g, hin g hg, rfl⟩
  · intro flags hf
    obtain ⟨g, hg, rfl⟩ := hmask flags hf
    exact ⟨g, hin g hg, rfl⟩

/-- A client that asks a name server over TCP and over UDP. -/
def queries : List FlowRecord :=
  [⟨.V4 0xC6336401, .V4 0x0A020335, 40000, 53, 6, 0x18, 500, 1, 0, 1⟩,
    ⟨.V4 0xC6336401, .V4 0x0A020335, 50000, 53, 17, 0, 500, 1, 0, 1⟩]

/-- SCTP from the client to port 53. -/
def sctp53 : FlowRecord := ⟨.V4 0xC6336401, .V4 0x0A020335, 60000, 53, 132, 0, 500, 1, 0, 1⟩

/-- The rule for them names port 53 and no protocol. -/
theorem analyzeFlows_queries :
    analyzeFlows IpText.dotted (fun _ => HashOrder.stored) queries site .inbound .dns 1000 (.num 100) =
      [⟨some "198.51.100.1/32", "10.2.3.53/32", [53], [], [], []⟩] := by
  decide +kernel

theorem rule_category_queries :
    let rule : MitigationRule := ⟨some "198.51.100.1/32", "10.2.3.53/32", [53], [], [], []⟩
    rule ∈ analyzeFlows IpText.dotted (fun _ => HashOrder.stored) queries site .inbound .dns 1000 (.num 100) ∧
      ∀ f ∈ queries, ProtocolCategory.dns ∈ f.categories := by
  intro rule
  have hmem : rule ∈ analyzeFlows IpText.dotted (fun _ => HashOrder.stored) queries site .inbound .dns 1000
      (.num 100) := by
    rw [analyzeFlows_queries]
    exact List.mem_singleton_self rule
  refine ⟨hmem, fun f hf => ?_⟩
  have hf' : rule.portsMatch f = true ∧ rule.protocolMatches f = true ∧ rule.flagsMatch f = true ∧
      (f.protocol = 6 ∨ f.protocol = 17) := by
    revert f
    decide
  obtain ⟨hports, hproto, hflags, htransport⟩ := hf'
  exact ((rule_category IpText.dotted _ queries site .dns 1000 (.num 100) rule hmem f hports hproto hflags).2
    rfl).2.1.mpr htransport

/-- The rule for them holds of SCTP to port 53, which is in no category but `any`. -/
theorem queries_rule_matches_sctp :
    ∃ rule ∈ analyzeFlows IpText.dotted (fun _ => HashOrder.stored) queries site .inbound .dns 1000 (.num 100),
      rule.portsMatch sctp53 = true ∧ rule.protocolMatches sctp53 = true ∧ rule.flagsMatch sctp53 = true ∧
        ProtocolCategory.dns ∉ sctp53.categories := by
  rw [analyzeFlows_queries]
  decide

end NetAlert

import NetAlert.Rounds
import NetAlert.RuleWidth
import NetAlert.Search

/-!
# NetAlert.Blanket — rules that say nothing but what the category says

The fallback candidate constrains nothing.  It is only taken as a first rule, matches everything and so leaves no
second round.  But the candidate of the search may have flags only, and these without a name to say.

* `blanket_alone_iff`: a blanket rule is the only one, unless the search returns such a candidate.
-/

namespace NetAlert

/-- The rule says nothing beyond its destination prefix and what the category pins. -/
@[mk_iff]
structure MitigationRule.Blanket (filter : ProtocolCategory) (rule : MitigationRule) : Prop where
  source : rule.sourcePrefix = none
  sourcePorts : rule.sourcePorts = []
  destinationPorts : ∀ port ∈ rule.destinationPorts, (forcedFields filter).2 = some port
  protocols : ∀ name ∈ rule.protocols, (forcedFields filter).1 = some name
  tcpFlags : ∀ name ∈ rule.tcpFlags, filter = .tcpSyn ∧ name = "syn"

instance (filter : ProtocolCategory) (rule : MitigationRule) : Decidable (rule.Blanket filter) :=
  haveI : Decidable (∀ port ∈ rule.destinationPorts, (forcedFields filter).2 = some port) := List.decidableBAll _ _
  decidable_of_iff' _ (rule.blanket_iff filter)

/-- The rule says nothing beyond its destination prefix. -/
structure MitigationRule.Bare (rule : MitigationRule) : Prop where
  source : rule.sourcePrefix = none
  sourcePorts : rule.sourcePorts = []
  destinationPorts : rule.destinationPorts = []
  protocols : rule.protocols = []
  tcpFlags : rule.tcpFlags = []

/-- The candidate has flags and nothing else, and these leave no name in a rule but the SYN that every rule of
its category has. -/
def Candidate.Vanishes (filter : ProtocolCategory) (c : Candidate) : Prop :=
  c.fields = ⟨FieldSet.tcpFlags⟩ ∧
    ∀ flags ∈ c.tcpFlags, ∀ name ∈ tcpFlagNames flags, filter = .tcpSyn ∧ name = "syn"

section Blanket

variable {T : IpText} {ord : ℕ → HashOrder} {a : AnalysisInput} {s : Analysis} {c : Candidate}
  {filter : ProtocolCategory} {destPrefix ruleDestPrefix : IpNet}

/-- The field set of the flags is the one without the other fields. -/
theorem eq_tcpFlags_iff {exclude : UInt8} {fields : FieldSet} (h : fields ∈ FieldSet.allCombinations exclude) :
    fields = ⟨FieldSet.tcpFlags⟩ ↔ fields.has FieldSet.srcIp = false ∧ fields.has FieldSet.srcPort = false ∧
      fields.has FieldSet.dstPort = false ∧ fields.has FieldSet.protocol = false := by
  obtain ⟨h0, h32, -⟩ := mem_allCombinations.mp h
  have hall : fields ∈ FieldSet.allCombinations 0 := mem_allCombinations.mpr ⟨h0, h32, UInt8.and_zero⟩
  unfold FieldSet.allCombinations at hall
  rw [List.mem_insertionSort] at hall
  clear h h0 h32
  revert fields
  decide

/-- Only the candidate's own port is beyond what the category pins. -/
theorem buildRule_ports_iff (hdport : ∀ port ∈ c.dstPort, port ≠ 0)
    (hport : (forcedFields filter).2.isSome = true → c.dstPort = none) :
    (∀ port ∈ (buildRule T destPrefix .inbound filter c ruleDestPrefix).destinationPorts,
      (forcedFields filter).2 = some port) ↔ c.dstPort = none := by
  cases hd : c.dstPort with
  | none => cases hf : (forcedFields filter).2 <;> simp [buildRule, hd, hf]
  | some port =>
    simp only [buildRule, hd, hdport port hd, ne_eq, not_false_iff, if_true, List.mem_singleton, forall_eq]
    refine iff_of_false (fun hforced => ?_) (by simp)
    rw [hport (by rw [hforced]; rfl)] at hd
    cases hd

/-- Likewise its own protocol. -/
theorem buildRule_protocols_iff (hproto : (forcedFields filter).1.isSome = true → c.protocol = none) :
    (∀ name ∈ (buildRule T destPrefix .inbound filter c ruleDestPrefix).protocols,
      (forcedFields filter).1 = some name) ↔ c.protocol = none := by
  cases hp : c.protocol with
  | none => cases hf : (forcedFields filter).1 <;> simp [buildRule, hp, hf]
  | some proto =>
    simp only [buildRule, hp, List.mem_singleton, forall_eq]
    refine iff_of_false (fun hforced => ?_) (by simp)
    rw [hproto (by rw [hforced]; rfl)] at hp
    cases hp

/-- And the names of its flags. -/
theorem buildRule_flags_iff :
    (∀ name ∈ (buildRule T destPrefix .inbound filter c ruleDestPrefix).tcpFlags,
      filter = .tcpSyn ∧ name = "syn") ↔
      ∀ flags ∈ c.tcpFlags, ∀ name ∈ tcpFlagNames flags, filter = .tcpSyn ∧ name = "syn" := by
  cases ht : c.tcpFlags with
  | none => by_cases hf : filter = .tcpSyn <;> simp [buildRule, ht, hf]
  | some flags =>
    by_cases hnone : tcpFlagNames flags = []
    · by_cases hf : filter = .tcpSyn <;> simp [buildRule, ht, hf, hnone]
    · simp [buildRule, ht, hnone]

/-- What a blanket rule says about its candidate. -/
theorem buildRule_blanket_iff (hdport : ∀ port ∈ c.dstPort, port ≠ 0) (hsport : ∀ port ∈ c.srcPort, port ≠ 0)
    (hproto : (forcedFields filter).1.isSome = true → c.protocol = none)
    (hport : (forcedFields filter).2.isSome = true → c.dstPort = none) :
    (buildRule T destPrefix .inbound filter c ruleDestPrefix).Blanket filter ↔
      c.srcIp = none ∧ c.srcPort = none ∧ c.dstPort = none ∧ c.protocol = none ∧
        ∀ flags ∈ c.tcpFlags, ∀ name ∈ tcpFlagNames flags, filter = .tcpSyn ∧ name = "syn" := by
  rw [MitigationRule.blanket_iff, buildRule_ports_iff hdport hport, buildRule_protocols_iff hproto,
    buildRule_flags_iff]
  refine and_congr ?_ (and_congr ?_ Iff.rfl)
  · simp [buildRule]
  · cases hs : c.srcPort with
    | none => simp [buildRule, hs]
    | some port => simp [buildRule, hs, hsport port hs]

/-- The round takes what the search returns, or else the fallback candidate as a first rule. -/
theorem chooseCandidate_eq_some : a.chooseCandidate ord s = some c ↔
    findBestCandidate (ord s.rules.length) s.remaining minCoverageRatio (excludeFields a.protocolFilter) = some c ∨
      (findBestCandidate (ord s.rules.length) s.remaining minCoverageRatio (excludeFields a.protocolFilter) =
        none ∧ s.rules = [] ∧ a.protocolFilter ≠ .any ∧ c = Candidate.blanket) := by
  unfold AnalysisInput.chooseCandidate
  cases findBestCandidate (ord s.rules.length) s.remaining minCoverageRatio (excludeFields a.protocolFilter) with
  | some c' => simp
  | none =>
    simp only [forcedFields_isSome, List.isEmpty_iff]
    split_ifs with h
    · simp [h, eq_comm]
    · simp only [true_and, false_or, false_iff]
      exact fun h' => h ⟨h'.1, h'.2.1⟩

/-- After the first rule there is no fallback. -/
theorem chooseCandidate_of_rules (h : s.rules ≠ []) : a.chooseCandidate ord s =
    findBestCandidate (ord s.rules.length) s.remaining minCoverageRatio (excludeFields a.protocolFilter) := by
  refine Option.ext fun c => ?_
  rw [chooseCandidate_eq_some]
  simp [h]

theorem Candidate.Vanishes.ne_blanket (h : c.Vanishes filter) : c ≠ Candidate.blanket := by
  rintro rfl
  exact absurd h.1 (by decide)

/-- The search returns no candidate without fields. -/
theorem ofKey_ne_blanket {exclude : UInt8} {fields : FieldSet} {key : GroupKey}
    (h : fields ∈ FieldSet.allCombinations exclude) : Candidate.ofKey fields key ≠ Candidate.blanket := by
  intro heq
  obtain ⟨h0, -⟩ := mem_allCombinations.mp h
  have hbits : fields = ⟨0⟩ := congrArg Candidate.fields heq
  rw [hbits] at h0
  exact absurd h0 (by decide)

/-- **The rule of a round is blanket** exactly if its candidate is the fallback one or leaves nothing to say. -/
theorem ruleOf_blanket_iff (h : a.chooseCandidate ord s = some c) (hd : a.direction = .inbound) :
    (AnalysisInput.ruleOf T ord a s c).Blanket a.protocolFilter ↔
      (c = Candidate.blanket ∧ s.rules = [] ∧ a.protocolFilter ≠ .any) ∨
        (findBestCandidate (ord s.rules.length) s.remaining minCoverageRatio (excludeFields a.protocolFilter) =
          some c ∧ c.Vanishes a.protocolFilter) := by
  obtain ⟨hdport, hsport, -⟩ := chooseCandidate_ne_zero h
  obtain ⟨hproto, hport, -⟩ := chooseCandidate_pins h
  rw [AnalysisInput.ruleOf, hd, buildRule_blanket_iff hdport hsport hproto hport]
  rcases chooseCandidate_eq_some.mp h with hbest | ⟨-, hfirst, hany, rfl⟩
  · obtain ⟨fields, key, rfl, hfields, ⟨f, -, hkey⟩, -⟩ := findBestCandidate_some hbest
    obtain ⟨-, -, -, -, rfl⟩ := fromFlow_eq_some.mp hkey
    simp only [ofKey_ne_blanket hfields, false_and, false_or, hbest, true_and, Candidate.Vanishes]
    rw [show (Candidate.ofKey fields (keyOf f fields)).fields = fields from rfl, eq_tcpFlags_iff hfields]
    simp [Candidate.ofKey, keyOf, and_assoc]
  · refine iff_of_true ?_ (.inl ⟨rfl, hfirst, hany⟩)
    simp [Candidate.blanket]

/-- After a first round that leaves these flows the loop ends. -/
def AnalysisInput.Ends (ord : ℕ → HashOrder) (a : AnalysisInput) (total : ℕ) (left : List FlowRecord) : Prop :=
  left = [] ∨ a.belowThreshold total left = true ∨
    findBestCandidate (ord 1) left minCoverageRatio (excludeFields a.protocolFilter) = none

/-- **A round is the only one** exactly if it is the first and the loop ends after it. -/
theorem rounds_eq_singleton_iff {total : ℕ} {filtered : List FlowRecord} {r : Round}
    (hr : r ∈ a.rounds T ord total maxRules ⟨filtered, []⟩) :
    a.rounds T ord total maxRules ⟨filtered, []⟩ = [r] ↔ r.before.rules = [] ∧
      a.Ends ord total (r.before.remaining.filter fun f => !r.candidate.matching f) := by
  obtain ⟨k, hk⟩ := List.mem_iff_getElem?.mp hr
  obtain ⟨-, hlength, -⟩ := AnalysisInput.rounds_spec hk
  obtain ⟨n, hn⟩ : ∃ n, maxRules = n + 2 := ⟨8, rfl⟩
  rw [hn] at hr hk ⊢
  cases hs : a.step T ord total ⟨filtered, []⟩ with
  | none => simp [AnalysisInput.rounds, hs] at hr
  | some s' =>
    obtain ⟨-, -, c, hc, rfl⟩ := AnalysisInput.step_eq_some.mp hs
    rw [AnalysisInput.rounds_of_some hc hs] at hk ⊢
    set left := filtered.filter fun f => !c.matching f
    have hends : a.rounds T ord total (n + 1) ⟨left, [] ++ [AnalysisInput.ruleOf T ord a ⟨filtered, []⟩ c]⟩ = [] ↔
        a.Ends ord total left := by
      rw [AnalysisInput.rounds_eq_nil, AnalysisInput.step_eq_none, chooseCandidate_of_rules (by simp)]
      rfl
    constructor
    · intro h
      obtain ⟨rfl, hnil⟩ := List.cons.inj h
      exact ⟨rfl, hends.mp hnil⟩
    · rintro ⟨hrules, hend⟩
      rw [hrules] at hlength
      obtain rfl : k = 0 := by simpa using hlength.symm
      obtain rfl := Option.some.inj hk
      rw [hends.mpr hend]

/-- Such a candidate comes from a flow whose flags leave nothing to say. -/
theorem Candidate.Vanishes.flow (hv : c.Vanishes filter) (h : a.chooseCandidate ord s = some c) :
    ∃ f ∈ s.remaining, f.tcpFlags ≠ 0 ∧
      ∀ name ∈ tcpFlagNames f.tcpFlags, filter = .tcpSyn ∧ name = "syn" := by
  obtain ⟨-, -, -, hne⟩ := chooseCandidate_ne_zero h
  rcases chooseCandidate_values h with rfl | ⟨fields, -, f, hf, rfl⟩
  · exact absurd rfl hv.ne_blanket
  · obtain ⟨rfl, hnames⟩ := hv
    have hflags : (Candidate.ofKey ⟨FieldSet.tcpFlags⟩ (keyOf f ⟨FieldSet.tcpFlags⟩)).tcpFlags =
        some f.tcpFlags := rfl
    exact ⟨f, hf, hne _ hflags, hnames _ hflags⟩

/-- A bare rule is blanket, and with a category that pins nothing a blanket rule is bare. -/
theorem MitigationRule.bare_iff {rule : MitigationRule} : rule.Bare ↔ rule.Blanket .any := by
  constructor
  · rintro ⟨hsrc, hsp, hdp, hp, hflags⟩
    exact ⟨hsrc, hsp, by simp [hdp], by simp [hp], by simp [hflags]⟩
  · rintro ⟨hsrc, hsp, hdp, hp, hflags⟩
    refine ⟨hsrc, hsp, List.eq_nil_iff_forall_not_mem.mpr fun port h => ?_,
      List.eq_nil_iff_forall_not_mem.mpr fun name h => ?_, List.eq_nil_iff_forall_not_mem.mpr fun name h => ?_⟩
    · simpa [forcedFields] using hdp port h
    · simpa [forcedFields] using hp name h
    · simpa using hflags name h

/-- **A round with a blanket rule** is the only one, and its category pins something, unless the search has
returned a candidate that leaves nothing to say. -/
theorem blanket_round_iff {total : ℕ} {filtered : List FlowRecord} (hd : a.direction = .inbound) {r : Round}
    (hr : r ∈ a.rounds T ord total maxRules ⟨filtered, []⟩) :
    ((AnalysisInput.ruleOf T ord a r.before r.candidate).Blanket a.protocolFilter →
        a.protocolFilter ≠ .any ∧ a.rounds T ord total maxRules ⟨filtered, []⟩ = [r]) ↔
      ∀ c, findBestCandidate (ord r.before.rules.length) r.before.remaining minCoverageRatio
          (excludeFields a.protocolFilter) = some c → c.Vanishes a.protocolFilter →
        a.protocolFilter ≠ .any ∧ r.before.rules = [] ∧
          a.Ends ord total (r.before.remaining.filter fun f => !c.matching f) := by
  have hc := (AnalysisInput.mem_rounds r hr).2
  rw [rounds_eq_singleton_iff hr, ruleOf_blanket_iff hc hd]
  constructor
  · intro h c hbest hvanish
    have hsome := chooseCandidate_eq_some.mpr (.inl hbest)
    rw [hc] at hsome
    obtain rfl := Option.some.inj hsome
    exact h (.inr ⟨hbest, hvanish⟩)
  · rintro h (⟨hblank, hfirst, hany⟩ | ⟨hbest, hvanish⟩)
    · refine ⟨hany, hfirst, .inl ?_⟩
      -- the fallback candidate matches everything
      rw [hblank]
      exact List.filter_eq_nil_iff.mpr fun f _ => by simp [Candidate.matching, Candidate.blanket]
    · exact h _ hbest hvanish

/-- The rules of some rounds: a blanket one is alone and never bare. -/
theorem alone_iff {rounds : List Round} {rule : Round → MitigationRule} :
    ((∀ r ∈ rounds.map rule, r.Blanket filter → rounds.map rule = [r]) ∧
        (filter = .any → ∀ r ∈ rounds.map rule, ¬ r.Bare)) ↔
      ∀ r ∈ rounds, (rule r).Blanket filter → filter ≠ .any ∧ rounds = [r] := by
  simp only [List.forall_mem_map, MitigationRule.bare_iff]
  constructor
  · rintro ⟨hsole, hbare⟩ r hr hrule
    refine ⟨fun hany => hbare hany r hr (hany ▸ hrule), ?_⟩
    have hlength := congrArg List.length (hsole r hr hrule)
    rw [List.length_map] at hlength
    obtain ⟨r', rfl⟩ := List.length_eq_one_iff.mp hlength
    rw [List.mem_singleton.mp hr]
  · intro h
    refine ⟨fun r hr hrule => ?_, fun hany r hr hrule => (h r hr (hany.symm ▸ hrule)).1 hany⟩
    rw [(h r hr hrule).2]
    rfl

end Blanket

/-- A heavy flow, and three lighter ones that share nothing but their flags. -/
def heavyAndSpread (flags : UInt8) : List FlowRecord :=
  [⟨.V4 0xC6336401, .V4 0x0A020307, 40000, 443, 6, 0x02, 6000, 10, 0, 1⟩,
    ⟨.V4 0xC6336402, .V4 0x0A020307, 40001, 8001, 6, flags, 1300, 10, 0, 1⟩,
    ⟨.V4 0xC6336403, .V4 0x0A020307, 40002, 8002, 6, flags, 1300, 10, 0, 1⟩,
    ⟨.V4 0xC6336404, .V4 0x0A020307, 40003, 8003, 6, flags, 1400, 10, 0, 1⟩]

end NetAlert

import NetAlert.Ties

/-!
# NetAlert.Search — the candidate search is optimal

A group of flows with the same values in some fields is scored by its share of the bytes and the number of
fields.  The search takes the first group of greatest score among those that cover enough, and meets smaller
field sets first.

* `search_optimal`: so it returns a group of greatest score and, among these, of fewest fields.
* `scored_matched`: what a group is scored by is what its candidate matches with the very same TCP
  flags; flows with more flags are matched as well.
-/

namespace NetAlert

/-! ## Field sets -/

theorem and_not_available (bits exclude : UInt8) :
    bits &&& ~~~(~~~exclude &&& 0b11111) = bits &&& exclude ||| bits &&& ~~~0b11111 := by
  refine UInt8.toBitVec_inj.mp ?_
  simp only [UInt8.toBitVec_and, UInt8.toBitVec_or, UInt8.toBitVec_not, BitVec.not_and, BitVec.not_not]
  exact BitVec.and_or_distrib_left

/-- **The field sets** are the non-empty ones of the five fields that leave out the excluded ones. -/
theorem mem_allCombinations {exclude : UInt8} {fields : FieldSet} : fields ∈ FieldSet.allCombinations exclude ↔
    0 < fields.bits ∧ fields.bits < 32 ∧ fields.bits &&& exclude = 0 := by
  obtain ⟨bits⟩ := fields
  have hrange : FieldSet.mk bits ∈ (List.range' 1 31).map (fun n => FieldSet.mk (UInt8.ofNat n)) ↔
      0 < bits ∧ bits < 32 := by
    simp only [List.mem_map, List.mem_range'_1, FieldSet.mk.injEq, UInt8.lt_iff_toNat_lt]
    constructor
    · rintro ⟨n, hn, rfl⟩
      have hmod : n % 256 = n := Nat.mod_eq_of_lt (by omega)
      simp only [UInt8.toNat_ofNat', UInt8.toNat_ofNat, hmod]
      omega
    · rintro ⟨h0, h32⟩
      exact ⟨bits.toNat, ⟨h0, h32⟩, UInt8.ofNat_toNat⟩
  have hlow : bits < 32 → bits &&& ~~~0b11111 = 0 := by
    intro h
    have hall : ∀ n : Fin 32, UInt8.ofNat n &&& ~~~0b11111 = 0 := by decide
    have hbits := hall ⟨bits.toNat, UInt8.lt_iff_toNat_lt.mp h⟩
    rwa [UInt8.ofNat_toNat] at hbits
  unfold FieldSet.allCombinations
  rw [List.mem_insertionSort, List.mem_filter, hrange, decide_eq_true_eq, and_assoc]
  refine and_congr_right fun _ => and_congr_right fun h32 => ?_
  rw [and_not_available, hlow h32, UInt8.or_zero]

/-- Smaller ones come first. -/
theorem pairwise_allCombinations (exclude : UInt8) :
    (FieldSet.allCombinations exclude).Pairwise fun fields fields' => fields.count ≤ fields'.count := by
  have : Std.Total fun a b : FieldSet => a.count ≤ b.count := ⟨fun a b => Nat.le_total _ _⟩
  have : IsTrans FieldSet fun a b => a.count ≤ b.count := ⟨fun _ _ _ => Nat.le_trans⟩
  exact List.pairwise_insertionSort _ _

/-! ## The best group -/

section Best

variable {ord : HashOrder} {flows : List FlowRecord} {share : ℚ} {exclude : UInt8} {c : Candidate}

/-- Groups of smaller field sets are met first. -/
theorem pairwise_searched (ord : HashOrder) (flows : List FlowRecord) (exclude : UInt8) :
    (searched ord flows exclude).Pairwise fun e e' => e.1.count ≤ e'.1.count := by
  rw [searched, List.pairwise_flatMap]
  constructor
  · intro fields _
    rw [List.pairwise_map]
    exact List.pairwise_of_forall fun _ _ => le_rfl
  · refine (pairwise_allCombinations exclude).imp fun hle x hx y hy => ?_
    obtain ⟨_, -, rfl⟩ := List.mem_map.mp hx
    obtain ⟨_, -, rfl⟩ := List.mem_map.mp hy
    exact hle

/-- **The candidate found** is that of a group of greatest score, and of fewest fields among these. -/
theorem findBestCandidate_greatest (h : findBestCandidate ord flows share exclude = some c) :
    ∃ fields key, c = Candidate.ofKey fields key ∧ Eligible flows share exclude fields key ∧
      ∀ fields' key', Eligible flows share exclude fields' key' →
        groupScore flows fields' key' ≤ groupScore flows fields key ∧
          (groupScore flows fields' key' = groupScore flows fields key → fields.count ≤ fields'.count) := by
  rw [findBestCandidate_eq] at h
  split_ifs at h
  obtain ⟨best, hbest, rfl⟩ := Option.map_eq_some_iff.mp h
  obtain ⟨before, after, hsplit, hbefore⟩ := Best.foldl_keep_first hbest
  have hmax := ((Best.foldl_keep _).2 best hbest).2
  obtain ⟨before', rest, hcovering, rfl, hrest⟩ := List.map_eq_append_iff.mp hsplit
  obtain ⟨⟨fields, key, v⟩, after', rfl, rfl, rfl⟩ := List.map_eq_cons_iff.mp hrest
  have hmem : (fields, key, v) ∈ covering flows share (searched ord flows exclude) := by rw [hcovering]; simp
  obtain ⟨hel, rfl⟩ := (mem_covering ord).mp hmem
  refine ⟨fields, key, rfl, hel, fun fields' key' hel' => ?_⟩
  have hmem' := (mem_covering ord).mpr ⟨hel', rfl⟩
  refine ⟨hmax _ (List.mem_map_of_mem hmem'), fun hscore => ?_⟩
  -- a group of the same score is not met before the one remembered
  rw [hcovering] at hmem'
  rcases List.mem_append.mp hmem' with hearly | hlate
  · exact absurd hscore (hbefore _ (List.mem_map_of_mem hearly)).ne
  · rcases List.mem_cons.mp hlate with heq | hlate
    · rw [(Prod.mk.inj heq).1]
    · have hpairs : (covering flows share (searched ord flows exclude)).Pairwise fun e e' =>
          e.1.count ≤ e'.1.count := (pairwise_searched ord flows exclude).sublist List.filter_sublist
      rw [hcovering] at hpairs
      exact (List.pairwise_cons.mp (List.pairwise_append.mp hpairs).2.1).1 _ hlate

end Best

/-- **The candidate search is optimal**, in whatever order the hash maps iterate.  It ranges over the groups of
all non-empty field sets without excluded fields. -/
theorem search_optimal (ord : HashOrder) (flows : List FlowRecord) (share : ℚ) (exclude : UInt8) :
    (∀ fields, fields ∈ FieldSet.allCombinations exclude ↔
        0 < fields.bits ∧ fields.bits < 32 ∧ fields.bits &&& exclude = 0) ∧
      (findBestCandidate ord flows share exclude = none ↔
        totalBytes flows = 0 ∨ ∀ fields key, ¬ Eligible flows share exclude fields key) ∧
      ∀ c ∈ findBestCandidate ord flows share exclude,
        ∃ fields key, c = Candidate.ofKey fields key ∧ Eligible flows share exclude fields key ∧
          ∀ fields' key', Eligible flows share exclude fields' key' →
            groupScore flows fields' key' ≤ groupScore flows fields key ∧
              (groupScore flows fields' key' = groupScore flows fields key → fields.count ≤ fields'.count) :=
  ⟨fun _ => mem_allCombinations, findBestCandidate_eq_none ord, fun _ hc => findBestCandidate_greatest hc⟩

/-! ## What a candidate matches -/

section Matched

variable {flows : List FlowRecord} {fields : FieldSet} {key : GroupKey}

/-- The flow has the TCP flags of the key and no others, if the key has any. -/
def GroupKey.sameFlags (key : GroupKey) (flow : FlowRecord) : Bool :=
  key.tcpFlags.all fun flags => flow.tcpFlags = flags

theorem ite_some_inj {α : Type} {b : Bool} {x y : α} :
    (if b = true then some x else none) = (if b = true then some y else none) ↔ (b = true → x = y) := by
  cases b <;> simp

theorem forall_mem_ite {α : Type} {b : Bool} {x : α} {P : α → Prop} :
    (∀ y ∈ (if b = true then some x else none), P y) ↔ (b = true → P x) := by
  cases b <;> simp

/-- Flows have the same key if they agree on the fields. -/
theorem keyOf_inj {f g : FlowRecord} : keyOf g fields = keyOf f fields ↔
    (fields.has FieldSet.srcIp → g.srcIp = f.srcIp) ∧ (fields.has FieldSet.dstPort → g.dstPort = f.dstPort) ∧
      (fields.has FieldSet.srcPort → g.srcPort = f.srcPort) ∧
      (fields.has FieldSet.protocol → g.protocol = f.protocol) ∧
      (fields.has FieldSet.tcpFlags → g.tcpFlags = f.tcpFlags) := by
  simp only [keyOf, GroupKey.mk.injEq, ite_some_inj]

/-- What the candidate of a flow's group matches. -/
theorem matching_keyOf {f g : FlowRecord} : (Candidate.ofKey fields (keyOf g fields)).matching f = true ↔
    (fields.has FieldSet.srcIp → f.srcIp = g.srcIp) ∧ (fields.has FieldSet.dstPort → f.dstPort = g.dstPort) ∧
      (fields.has FieldSet.srcPort → f.srcPort = g.srcPort) ∧
      (fields.has FieldSet.protocol → f.protocol = g.protocol) ∧
      (fields.has FieldSet.tcpFlags → f.tcpFlags &&& g.tcpFlags = g.tcpFlags) := by
  simp only [matching_iff, Candidate.ofKey, keyOf, forall_mem_ite]

/-- **The flows of a group** are those that its candidate matches with the same flags. -/
theorem fromFlow_eq_some_iff {f g : FlowRecord} (hg : GroupKey.fromFlow g fields = some key) :
    GroupKey.fromFlow f fields = some key ↔
      (Candidate.ofKey fields key).matching f = true ∧ key.sameFlags f = true := by
  obtain ⟨hflags, hproto, hdport, hsport, rfl⟩ := fromFlow_eq_some.mp hg
  have hsame : (keyOf g fields).sameFlags f = true ↔ (fields.has FieldSet.tcpFlags → f.tcpFlags = g.tcpFlags) := by
    cases h : fields.has FieldSet.tcpFlags <;> simp [GroupKey.sameFlags, keyOf, h]
  rw [fromFlow_eq_some, keyOf_inj, matching_keyOf, hsame]
  constructor
  · rintro ⟨-, -, -, -, hip, hd, hs, hp, ht⟩
    refine ⟨⟨fun h => (hip h).symm, fun h => (hd h).symm, fun h => (hs h).symm, fun h => (hp h).symm, ?_⟩,
      fun h => (ht h).symm⟩
    intro h
    rw [ht h, UInt8.and_self]
  · -- a flow with the values of `g` has no zero where `g` has none
    rintro ⟨⟨hip, hd, hs, hp, -⟩, ht⟩
    refine ⟨fun h => hflags ⟨h.1, (ht h.1) ▸ h.2⟩, fun h => hproto ⟨h.1, (hp h.1) ▸ h.2⟩,
      fun h => hdport ⟨h.1, (hd h.1) ▸ h.2⟩, fun h => hsport ⟨h.1, (hs h.1) ▸ h.2⟩,
      fun h => (hip h).symm, fun h => (hd h).symm, fun h => (hs h).symm, fun h => (hp h).symm,
      fun h => (ht h).symm⟩

/-- What a group is scored by is what its candidate matches, but for flows with more flags. -/
theorem groupBytes_eq (hg : ∃ g ∈ flows, GroupKey.fromFlow g fields = some key) :
    groupBytes flows fields key =
      totalBytes (flows.filter fun f => (Candidate.ofKey fields key).matching f && key.sameFlags f) := by
  obtain ⟨g, -, hg⟩ := hg
  unfold groupBytes
  congr 1
  apply List.filter_congr
  intro f _
  rw [Bool.eq_iff_iff, decide_eq_true_eq, fromFlow_eq_some_iff hg, Bool.and_eq_true]

end Matched

/-- **Scored and matched.**  The bytes that a group is scored by are those of the flows which its candidate
matches with the same TCP flags.  They are all that the candidate matches, but for the flows with more flags;
so they are the matched bytes exactly if those flows carry none, and always if the flags are not in the field
set. -/
theorem scored_matched (flows : List FlowRecord) (fields : FieldSet) :
    ∀ entry ∈ (groupFlows flows fields).toPairs,
      let c := Candidate.ofKey fields entry.1
      let more := flows.filter fun f => c.matching f && !entry.1.sameFlags f
      entry.2.1 = totalBytes (flows.filter fun f => c.matching f && entry.1.sameFlags f) ∧
        totalBytes (flows.filter c.matching) = entry.2.1 + totalBytes more ∧
        (entry.2.1 = totalBytes (flows.filter c.matching) ↔ ∀ f ∈ more, f.sampledBytes = 0) ∧
        (fields.has FieldSet.tcpFlags = false → more = []) := by
  rintro ⟨key, bytes, packets⟩ hentry c more
  obtain ⟨hg, hv⟩ := mem_groupFlows.mp hentry
  have hbytes : bytes = totalBytes (flows.filter fun f => c.matching f && key.sameFlags f) :=
    (congrArg Prod.fst hv).trans (groupBytes_eq hg)
  have hsplit : totalBytes (flows.filter c.matching) = bytes + totalBytes more := by
    have hsame := totalBytes_filter_not key.sameFlags (flows.filter c.matching)
    simp only [List.filter_filter, Bool.and_comm (key.sameFlags _), Bool.and_comm (!key.sameFlags _)] at hsame
    rw [hbytes, hsame]
  refine ⟨hbytes, hsplit, ?_, fun hno => ?_⟩
  · have hzero : totalBytes more = 0 ↔ ∀ f ∈ more, f.sampledBytes = 0 := by
      rw [totalBytes, List.sum_eq_zero_iff, List.forall_mem_map]
    have hiff : bytes = totalBytes (flows.filter c.matching) ↔ totalBytes more = 0 := by omega
    exact hiff.trans hzero
  · obtain ⟨g, -, hg⟩ := hg
    obtain ⟨-, -, -, -, rfl⟩ := fromFlow_eq_some.mp hg
    refine List.filter_eq_nil_iff.mpr fun f _ => ?_
    simp [GroupKey.sameFlags, keyOf, hno]

/-- A SYN and the SYN-ACK of a reflection. -/
def handshake : List FlowRecord :=
  [⟨.V4 0xC6336401, .V4 0x0A020307, 40000, 443, 6, 0x02, 1000, 1, 0, 1⟩,
    ⟨.V4 0xC6336402, .V4 0x0A020307, 443, 50000, 6, 0x12, 3000, 1, 0, 1⟩]

theorem scored_matched_handshake : ∃ entry ∈ (groupFlows handshake ⟨FieldSet.tcpFlags⟩).toPairs,
    let c := Candidate.ofKey ⟨FieldSet.tcpFlags⟩ entry.1
    entry.1.tcpFlags = some 0x02 ∧ entry.2.1 = 1000 ∧
      totalBytes (handshake.filter c.matching) = entry.2.1 + 3000 := by
  have hentry : ∃ entry ∈ (groupFlows handshake ⟨FieldSet.tcpFlags⟩).toPairs,
      entry.1.tcpFlags = some 0x02 ∧ entry.2.1 = 1000 ∧ totalBytes (handshake.filter fun f =>
        (Candidate.ofKey ⟨FieldSet.tcpFlags⟩ entry.1).matching f && !entry.1.sameFlags f) = 3000 := by
    decide
  obtain ⟨entry, hmem, hflags, hbytes, hmore⟩ := hentry
  refine ⟨entry, hmem, hflags, hbytes, ?_⟩
  rw [← hmore]
  exact (scored_matched handshake ⟨FieldSet.tcpFlags⟩ entry hmem).2.1

/-- The group of the SYN is scored by a quarter of the bytes, and its candidate matches all of them. -/
theorem syn_matches_more : ∃ entry ∈ (groupFlows handshake ⟨FieldSet.tcpFlags⟩).toPairs,
    ⟨FieldSet.tcpFlags⟩ ∈ FieldSet.allCombinations 0 ∧ entry.2.1 = 1000 ∧
      totalBytes (handshake.filter (Candidate.ofKey ⟨FieldSet.tcpFlags⟩ entry.1).matching) = 4000 := by
  decide

end NetAlert

import NetAlert.Mitigation

/-!
# NetAlert.Candidates — what the candidate search and the narrowing return

* `findBestCandidate_some`: a candidate comes from a group of at least the minimum coverage.
* `findBestCandidate_eq_none`: there is none iff there are no bytes or no such group.
* `exists_mem_computeDestinationPrefix`: the narrowed prefix holds the address of some flow.
-/

namespace NetAlert

/-! ## Groups -/

/-- The bytes of the flows of a group. -/
def groupBytes (flows : List FlowRecord) (fields : FieldSet) (key : GroupKey) : ℕ :=
  totalBytes (flows.filter fun f => GroupKey.fromFlow f fields = some key)

/-- A group that carries at least the given share of the bytes. -/
def Eligible (flows : List FlowRecord) (share : ℚ) (exclude : UInt8) (fields : FieldSet) (key : GroupKey) :
    Prop :=
  fields ∈ FieldSet.allCombinations exclude ∧ (∃ f ∈ flows, GroupKey.fromFlow f fields = some key) ∧
    share ≤ groupBytes flows fields key / totalBytes flows

variable {flows : List FlowRecord} {fields : FieldSet} {key : GroupKey}

theorem groupFlows_eq_tally : groupFlows flows fields =
    Tally.tally (fun f => GroupKey.fromFlow f fields) (fun f => (f.sampledBytes, f.sampledPackets)) flows := by
  unfold groupFlows Tally.tally
  congr 1
  funext groups f
  simp only [Tally.tallyStep]
  cases GroupKey.fromFlow f fields <;> rfl

theorem sum_pairs {α : Type} (l : List α) (b p : α → ℕ) :
    (l.map fun f => (b f, p f)).sum = ((l.map b).sum, (l.map p).sum) := by
  induction l with
  | nil => rfl
  | cons f l ih => simp [ih]

/-- The entries of the group map. -/
theorem mem_groupFlows {v : ℕ × ℕ} : (key, v) ∈ (groupFlows flows fields).toPairs ↔
    (∃ f ∈ flows, GroupKey.fromFlow f fields = some key) ∧ v = (groupBytes flows fields key,
      ((flows.filter fun f => GroupKey.fromFlow f fields = some key).map FlowRecord.sampledPackets).sum) := by
  rw [HashMap.mem_toPairs, groupFlows_eq_tally, Tally.lookup_tally]
  simp only [Tally.share, sum_pairs, groupBytes, totalBytes]
  split_ifs with h
  · rw [Option.some.injEq, eq_comm]
    exact (and_iff_right h).symm
  · exact iff_of_false (by simp) fun hv => h hv.1

/-- The values of a flow in the fields of a field set. -/
def keyOf (f : FlowRecord) (fields : FieldSet) : GroupKey :=
  { srcIp := if fields.has FieldSet.srcIp then some f.srcIp else none
    dstPort := if fields.has FieldSet.dstPort then some f.dstPort else none
    srcPort := if fields.has FieldSet.srcPort then some f.srcPort else none
    protocol := if fields.has FieldSet.protocol then some f.protocol else none
    tcpFlags := if fields.has FieldSet.tcpFlags then some f.tcpFlags else none }

/-- A flow with zero in a constrained port, protocol or flag field is in no group. -/
theorem fromFlow_eq_some {f : FlowRecord} : GroupKey.fromFlow f fields = some key ↔
    ¬ (fields.has FieldSet.tcpFlags ∧ f.tcpFlags = 0) ∧ ¬ (fields.has FieldSet.protocol ∧ f.protocol = 0) ∧
      ¬ (fields.has FieldSet.dstPort ∧ f.dstPort = 0) ∧ ¬ (fields.has FieldSet.srcPort ∧ f.srcPort = 0) ∧
      key = keyOf f fields := by
  unfold GroupKey.fromFlow
  by_cases h1 : fields.has FieldSet.tcpFlags ∧ f.tcpFlags = 0
  · simp [h1]
  by_cases h2 : fields.has FieldSet.protocol ∧ f.protocol = 0
  · simp [h2]
  by_cases h3 : fields.has FieldSet.dstPort ∧ f.dstPort = 0
  · simp [h3]
  by_cases h4 : fields.has FieldSet.srcPort ∧ f.srcPort = 0
  · simp [h4]
  rw [if_neg h1, if_neg h2, if_neg h3, if_neg h4, Option.some.injEq]
  exact ⟨fun h => ⟨h1, h2, h3, h4, h.symm⟩, fun h => h.2.2.2.2.symm⟩

/-- A flow is matched by the candidate of its group. -/
theorem matching_ofKey {f : FlowRecord} (h : GroupKey.fromFlow f fields = some key) :
    (Candidate.ofKey fields key).matching f = true := by
  have hall : ∀ {α : Type} (b : Bool) (x : α) (p : α → Bool), p x = true →
      (if b = true then some x else none).all p = true := by
    intro α b x p hp
    cases b
    · rfl
    · exact hp
  obtain ⟨-, -, -, -, rfl⟩ := fromFlow_eq_some.mp h
  simp only [Candidate.matching, Candidate.ofKey, keyOf, Bool.and_eq_true]
  refine ⟨⟨⟨⟨hall _ _ _ ?_, hall _ _ _ ?_⟩, hall _ _ _ ?_⟩, hall _ _ _ ?_⟩, hall _ _ _ ?_⟩ <;> simp

/-! ## The best candidate -/

/-- The groups of all field sets, in the order in which the search meets them. -/
def searched (ord : HashOrder) (flows : List FlowRecord) (exclude : UInt8) : List (FieldSet × GroupKey × ℕ × ℕ) :=
  (FieldSet.allCombinations exclude).flatMap fun fields =>
    (ord.iter (groupFlows flows fields).toPairs).map fun entry => (fields, entry)

/-- The candidate of a group, with its score. -/
def scored (flows : List FlowRecord) (e : FieldSet × GroupKey × ℕ × ℕ) : Candidate × ℚ :=
  (Candidate.ofKey e.1 e.2.1, scoreOf (e.2.2.1 / totalBytes flows) e.1)

/-- The groups that cover enough. -/
def covering (flows : List FlowRecord) (share : ℚ) (l : List (FieldSet × GroupKey × ℕ × ℕ)) :
    List (FieldSet × GroupKey × ℕ × ℕ) :=
  l.filter fun e => !decide ((e.2.2.1 : ℚ) / totalBytes flows < share)

/-- The search is one loop over the groups that cover enough, and remembers the best. -/
theorem findBestCandidate_eq (ord : HashOrder) (flows : List FlowRecord) (share : ℚ) (exclude : UInt8) :
    findBestCandidate ord flows share exclude =
      if totalBytes flows = 0 then none
      else (((covering flows share (searched ord flows exclude)).map (scored flows)).foldl Best.keep
        none).map Prod.fst := by
  have hstep : ∀ best fields entry, considerGroup (totalBytes flows) share fields best entry =
      if decide ((entry.2.1 : ℚ) / totalBytes flows < share) then best
      else Best.keep best (scored flows (fields, entry)) := by
    intro best fields entry
    simp only [considerGroup, scored, decide_eq_true_eq]
    split_ifs with h
    · rfl
    · cases best <;> rfl
  have hloop : ∀ fields best, (ord.iter (groupFlows flows fields).toPairs).foldl
      (considerGroup (totalBytes flows) share fields) best =
        ((covering flows share ((ord.iter (groupFlows flows fields).toPairs).map fun entry =>
          (fields, entry))).map (scored flows)).foldl Best.keep best := by
    intro fields best
    rw [covering, List.filter_map, List.foldl_map, List.foldl_map]
    refine Eq.trans ?_ (Best.foldl_skip (fun entry : GroupKey × ℕ × ℕ =>
      decide ((entry.2.1 : ℚ) / totalBytes flows < share)) _ _ _)
    congr 1
    funext best entry
    exact hstep best fields entry
  unfold findBestCandidate
  simp only
  split_ifs with hempty h0
  · rfl
  · rw [List.isEmpty_iff.mp hempty] at h0
    exact absurd rfl h0
  · rfl
  · rw [searched, covering, List.filter_flatMap, List.map_flatMap, List.foldl_flatMap]
    simp only [hloop]
    rfl

theorem mem_covering (ord : HashOrder) {share : ℚ} {exclude : UInt8} {v : ℕ × ℕ} :
    (fields, key, v) ∈ covering flows share (searched ord flows exclude) ↔
      Eligible flows share exclude fields key ∧ v = (groupBytes flows fields key,
        ((flows.filter fun f => GroupKey.fromFlow f fields = some key).map FlowRecord.sampledPackets).sum) := by
  simp only [covering, searched, List.mem_filter, List.mem_flatMap, List.mem_map, HashOrder.mem_iter,
    Prod.mk.injEq, Eligible]
  constructor
  · rintro ⟨⟨_, hfs, ⟨key', v'⟩, hmem, rfl, he⟩, hcov⟩
    cases he
    obtain ⟨hex, rfl⟩ := mem_groupFlows.mp hmem
    exact ⟨⟨hfs, hex, by simpa using hcov⟩, rfl⟩
  · rintro ⟨⟨hfs, hex, hcov⟩, rfl⟩
    exact ⟨⟨fields, hfs, (key, _), mem_groupFlows.mpr ⟨hex, rfl⟩, rfl, rfl⟩, by simpa using hcov⟩

/-- **A candidate found** is that of a group that covers enough. -/
theorem findBestCandidate_some {ord : HashOrder} {share : ℚ} {exclude : UInt8} {c : Candidate}
    (h : findBestCandidate ord flows share exclude = some c) :
    ∃ fields key, c = Candidate.ofKey fields key ∧ Eligible flows share exclude fields key := by
  rw [findBestCandidate_eq] at h
  split_ifs at h
  obtain ⟨⟨c', score⟩, hb, rfl⟩ := Option.map_eq_some_iff.mp h
  obtain ⟨⟨fields, key, v⟩, hmem, he⟩ := List.mem_map.mp ((Best.foldl_keep _).2 _ hb).1
  exact ⟨fields, key, (Prod.mk.injEq .. ▸ he).1.symm, ((mem_covering ord).mp hmem).1⟩

/-- **No candidate**: there are no bytes, or no group covers enough. -/
theorem findBestCandidate_eq_none (ord : HashOrder) {share : ℚ} {exclude : UInt8} :
    findBestCandidate ord flows share exclude = none ↔
      totalBytes flows = 0 ∨ ∀ fields key, ¬ Eligible flows share exclude fields key := by
  rw [findBestCandidate_eq]
  split_ifs with h0
  · simp [h0]
  · simp only [Option.map_eq_none_iff, Best.foldl_keep_eq_none, List.map_eq_nil_iff, h0, false_or]
    constructor
    · intro hnil fields key hel
      have hmem := (mem_covering ord).mpr ⟨hel, rfl⟩
      rw [hnil] at hmem
      cases hmem
    · intro hno
      refine List.eq_nil_iff_forall_not_mem.mpr fun ⟨fields, key, v⟩ hmem => ?_
      exact hno fields key ((mem_covering ord).mp hmem).1

/-! ## The narrowed prefix -/

/-- The address counts of a list of flows. -/
def addressCounts (flows : List FlowRecord) (direction : Direction) : HashMap IpAddr ℕ :=
  flows.foldl (fun counts flow => Tally.add counts (direction.address flow) flow.sampledBytes) ∅

/-- **The bytes of a prefix** are those of the flows with an address in it. -/
theorem childBytes_eq (ord : HashOrder) (direction : Direction) (child : IpNet) :
    childBytes ord (addressCounts flows direction) child =
      totalBytes (flows.filter fun f => child.contains (direction.address f)) := by
  have htally : addressCounts flows direction =
      Tally.tally (fun f => some (direction.address f)) FlowRecord.sampledBytes flows := rfl
  have hperm := ((ord.perm (addressCounts flows direction).toPairs).filter
    (fun e => child.contains e.1)).map Prod.snd
  rw [childBytes, hperm.sum_eq, htally, Tally.sum_tally fun ip => child.contains ip]
  rfl

/-- A descent goes into a half that holds the address of some flow. -/
theorem narrowStep_exists {ord : HashOrder} {direction : Direction} {ratio : ℚ} (hratio : 0 < ratio)
    {maxLen : ℕ} {current next : IpNet}
    (h : narrowStep ord (addressCounts flows direction) (totalBytes flows) ratio maxLen current = some next) :
    ∃ f ∈ flows, next.contains (direction.address f) = true := by
  unfold narrowStep at h
  split_ifs at h
  split at h
  · cases h
  rename_i children _
  split at h
  · rename_i child bytes hmax
    split_ifs at h with hge
    cases h
    obtain ⟨child', -, he⟩ := List.mem_map.mp (Best.maxBy_mem hmax)
    obtain ⟨rfl, rfl⟩ := Prod.mk.injEq .. ▸ he
    -- a share above zero is that of some flow
    rw [childBytes_eq] at hge
    by_contra hnone
    push Not at hnone
    have hnil : (flows.filter fun f => child'.contains (direction.address f)) = [] :=
      List.filter_eq_nil_iff.mpr fun f hf => hnone f hf
    rw [hnil] at hge
    simp only [totalBytes, List.map_nil, List.sum_nil, Nat.cast_zero, zero_div, ge_iff_le] at hge
    linarith
  · cases h

/-- **The narrowed prefix** holds the address of some flow, if the prefix did. -/
theorem exists_mem_computeDestinationPrefix (ord : HashOrder) {direction : Direction} {ipPrefix : IpNet}
    {ratio : ℚ} (hratio : 0 < ratio) (h : ∃ f ∈ flows, ipPrefix.contains (direction.address f) = true) :
    ∃ f ∈ flows, (computeDestinationPrefix ord flows direction ipPrefix ratio).contains
      (direction.address f) = true := by
  unfold computeDestinationPrefix
  simp only
  split_ifs
  · exact h
  · refine Loop.run_invariant (fun current => ∃ f ∈ flows, current.contains (direction.address f) = true)
      (fun current next _ hs => narrowStep_exists hratio hs) _ ?_
    simpa using h

end NetAlert

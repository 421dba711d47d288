import NetAlert.RuleHits

/-!
# NetAlert.Narrowing — the narrowed prefix is the longest that carries the share

`compute_destination_prefix` descends into the busier half as long as that carries the dominant share of the
bytes.  If the share is more than a half, no two disjoint prefixes carry it, so those that do are nested, and
the descent passes none of them by.

* `narrowing_optimal`: the descent comes to an end, at the one longest prefix inside the given one that
  carries the share, or at the given one if there is none.
-/

namespace NetAlert

/-! ## Prefixes inside prefixes -/

/-- A prefix without host bits inside another and longer. -/
structure IpNet.StrictSub (q p : IpNet) : Prop where
  aligned : q.trunc = q
  longer : p.prefixLen < q.prefixLen
  inside : p.contains q.addr = true

namespace IpNet

variable {p q q' : IpNet}

theorem strictSub_V4 {q p : BitPrefix 32} : (V4 q).StrictSub (V4 p) ↔ q.StrictSub p := by
  constructor
  · rintro ⟨h1, h2, h3⟩
    exact ⟨V4.inj h1, h2, h3⟩
  · rintro ⟨h1, h2, h3⟩
    exact ⟨congrArg V4 h1, h2, h3⟩

theorem strictSub_V6 {q p : BitPrefix 128} : (V6 q).StrictSub (V6 p) ↔ q.StrictSub p := by
  constructor
  · rintro ⟨h1, h2, h3⟩
    exact ⟨V6.inj h1, h2, h3⟩
  · rintro ⟨h1, h2, h3⟩
    exact ⟨congrArg V6 h1, h2, h3⟩

theorem prefixLen_le_maxLen (p : IpNet) : p.prefixLen ≤ p.maxLen := by
  cases p with
  | V4 p => exact p.len_le
  | V6 p => exact p.len_le

theorem StrictSub.maxLen_eq (h : q.StrictSub p) : q.maxLen = p.maxLen := by
  have hin := h.inside
  cases p <;> cases q
  · rfl
  · cases hin
  · cases hin
  · rfl

theorem StrictSub.contains_of (h : q.StrictSub p) {ip : IpAddr} (hip : q.contains ip = true) :
    p.contains ip = true := by
  have hin := h.inside
  have hlen := h.longer
  cases p <;> cases q <;> cases ip <;> first | cases hin | cases hip | skip
  · exact BitPrefix.contains_of_longer hlen.le hin hip
  · exact BitPrefix.contains_of_longer hlen.le hin hip

theorem StrictSub.trans (hq : q'.StrictSub q) (hp : q.StrictSub p) : q'.StrictSub p :=
  ⟨hq.aligned, hp.longer.trans hq.longer, hp.contains_of hq.inside⟩

/-- **The two halves** of a prefix are inside it and disjoint, and whatever is inside it is inside one. -/
theorem subnets_spec (h : p.prefixLen < p.maxLen) : ∃ lower upper, p.subnets = some [lower, upper] ∧
    lower.StrictSub p ∧ upper.StrictSub p ∧
    (∀ ip, lower.contains ip = true → upper.contains ip = false) ∧
    ∀ q : IpNet, q.StrictSub p → (q = lower ∨ q.StrictSub lower) ∨ q = upper ∨ q.StrictSub upper := by
  cases p with
  | V4 p =>
    have hlt : p.len < 32 := h
    obtain ⟨hlower, hupper, hdisj, hcover⟩ := p.halves_spec hlt
    refine ⟨V4 (p.half hlt false), V4 (p.half hlt true), ?_, strictSub_V4.mpr hlower, strictSub_V4.mpr hupper,
      fun ip hip => ?_, fun q hq => ?_⟩
    · simp [subnets, hlt, BitPrefix.halves_eq]
    · cases ip with
      | V4 a => exact hdisj a hip
      | V6 a => cases hip
    · cases q with
      | V4 q => simpa only [strictSub_V4, V4.injEq] using hcover q (strictSub_V4.mp hq)
      | V6 q => cases hq.inside
  | V6 p =>
    have hlt : p.len < 128 := h
    obtain ⟨hlower, hupper, hdisj, hcover⟩ := p.halves_spec hlt
    refine ⟨V6 (p.half hlt false), V6 (p.half hlt true), ?_, strictSub_V6.mpr hlower, strictSub_V6.mpr hupper,
      fun ip hip => ?_, fun q hq => ?_⟩
    · simp [subnets, hlt, BitPrefix.halves_eq]
    · cases ip with
      | V4 a => cases hip
      | V6 a => exact hdisj a hip
    · cases q with
      | V4 q => cases hq.inside
      | V6 q => simpa only [strictSub_V6, V6.injEq] using hcover q (strictSub_V6.mp hq)

end IpNet

/-! ## Shares -/

/-- The bytes of the flows with an address in the prefix. -/
def bytesIn (flows : List FlowRecord) (direction : Direction) (net : IpNet) : ℕ :=
  totalBytes (flows.filter fun f => net.contains (direction.address f))

/-- The prefix carries at least the share of all bytes. -/
def Carries (flows : List FlowRecord) (direction : Direction) (share : ℚ) (net : IpNet) : Prop :=
  share ≤ (bytesIn flows direction net : ℚ) / totalBytes flows

section Carries

variable {flows : List FlowRecord} {direction : Direction} {share : ℚ} {net net' : IpNet}

theorem bytesIn_le_of_sub (h : net.StrictSub net') : bytesIn flows direction net ≤ bytesIn flows direction net' :=
  totalBytes_le_of_filter fun _ _ hf => h.contains_of hf

theorem Carries.of_le (h : Carries flows direction share net)
    (hle : bytesIn flows direction net ≤ bytesIn flows direction net') : Carries flows direction share net' := by
  refine h.trans ?_
  gcongr

theorem Carries.of_sub (h : Carries flows direction share net) (hsub : net.StrictSub net') :
    Carries flows direction share net' :=
  h.of_le (bytesIn_le_of_sub hsub)

/-- Disjoint prefixes share the bytes. -/
theorem bytesIn_add_le (hdisj : ∀ ip, net.contains ip = true → net'.contains ip = false) :
    bytesIn flows direction net + bytesIn flows direction net' ≤ totalBytes flows := by
  have houtside : bytesIn flows direction net' ≤
      totalBytes (flows.filter fun f => !net.contains (direction.address f)) :=
    totalBytes_le_of_filter fun f _ hf => by
      by_contra hin
      rw [hdisj _ (by simpa using hin)] at hf
      cases hf
  calc bytesIn flows direction net + bytesIn flows direction net'
      ≤ bytesIn flows direction net + totalBytes (flows.filter fun f => !net.contains (direction.address f)) :=
        Nat.add_le_add_left houtside _
    _ = totalBytes flows := totalBytes_filter_not _ flows

/-- **More than a half** is not in two disjoint prefixes. -/
theorem Carries.disjoint (hpos : 0 < totalBytes flows) (hshare : 1 / 2 < share)
    (h : Carries flows direction share net) (h' : Carries flows direction share net') :
    ¬ ∀ ip, net.contains ip = true → net'.contains ip = false := by
  intro hdisj
  have hsum : (bytesIn flows direction net : ℚ) + bytesIn flows direction net' ≤ totalBytes flows := by
    exact_mod_cast bytesIn_add_le hdisj
  have htotal : (0 : ℚ) < totalBytes flows := by exact_mod_cast hpos
  rw [Carries, le_div_iff₀ htotal] at h h'
  nlinarith

end Carries

/-! ## The descent -/

section Descent

variable {ord : HashOrder} {flows : List FlowRecord} {direction : Direction} {share : ℚ}
  {root current next : IpNet}

/-- **One descent** goes into the busier half, if that carries the share. -/
theorem narrowStep_spec (ord : HashOrder) (flows : List FlowRecord) (direction : Direction) (share : ℚ)
    (hlen : current.prefixLen < current.maxLen) : ∃ busier other,
    busier.StrictSub current ∧ other.StrictSub current ∧
    (∀ ip, busier.contains ip = true → other.contains ip = false) ∧
    (∀ q : IpNet, q.StrictSub current → (q = busier ∨ q.StrictSub busier) ∨ q = other ∨ q.StrictSub other) ∧
    bytesIn flows direction other ≤ bytesIn flows direction busier ∧
    narrowStep ord (addressCounts flows direction) (totalBytes flows) share current.maxLen current =
      if (bytesIn flows direction busier : ℚ) / totalBytes flows ≥ share then some busier else none := by
  obtain ⟨lower, upper, hsub, hlower, hupper, hdisj, hcover⟩ := IpNet.subnets_spec hlen
  have hchild : ∀ net, childBytes ord (addressCounts flows direction) net = bytesIn flows direction net :=
    fun net => childBytes_eq ord direction net
  rcases le_or_gt (bytesIn flows direction lower) (bytesIn flows direction upper) with hle | hlt
  · refine ⟨upper, lower, hupper, hlower, fun ip hip => ?_, fun q hq => (hcover q hq).symm, hle, ?_⟩
    · by_contra hin
      rw [hdisj ip (by simpa using hin)] at hip
      cases hip
    · rw [narrowStep, if_pos hlen, hsub]
      simp only [List.map_cons, List.map_nil, Best.maxBy_pair, hchild, if_pos hle]
  · refine ⟨lower, upper, hlower, hupper, hdisj, hcover, hlt.le, ?_⟩
    rw [narrowStep, if_pos hlen, hsub]
    simp only [List.map_cons, List.map_nil, Best.maxBy_pair, hchild, if_neg (not_le.mpr hlt)]

/-- No prefix inside the root that carries the share has been passed by: it is inside the current one, or the
current one itself, or shorter. -/
structure Descends (flows : List FlowRecord) (direction : Direction) (share : ℚ) (root current : IpNet) :
    Prop where
  start : current = root ∨ (current.StrictSub root ∧ Carries flows direction share current)
  kept : ∀ q : IpNet, q.StrictSub root → Carries flows direction share q →
    q.StrictSub current ∨ q = current ∨ q.prefixLen < current.prefixLen

theorem Descends.refl (root : IpNet) : Descends flows direction share root root :=
  ⟨.inl rfl, fun _ hq _ => .inl hq⟩

theorem Descends.maxLen_eq (h : Descends flows direction share root current) : current.maxLen = root.maxLen := by
  rcases h.start with rfl | ⟨hsub, -⟩
  · rfl
  · exact hsub.maxLen_eq

/-- A descent makes the prefix longer and passes nothing by. -/
theorem Descends.step (hpos : 0 < totalBytes flows) (hshare : 1 / 2 < share)
    (h : Descends flows direction share root current)
    (hstep : narrowStep ord (addressCounts flows direction) (totalBytes flows) share root.maxLen current =
      some next) :
    Descends flows direction share root next ∧ current.prefixLen < next.prefixLen := by
  have hlen : current.prefixLen < current.maxLen := by
    by_contra hge
    rw [← h.maxLen_eq, narrowStep, if_neg hge] at hstep
    cases hstep
  obtain ⟨busier, other, hbusier, hother, hdisj, hcover, -, heq⟩ :=
    narrowStep_spec ord flows direction share hlen
  rw [← h.maxLen_eq, heq] at hstep
  split_ifs at hstep with hcarries
  obtain rfl := Option.some.inj hstep
  have hroot : busier.StrictSub root := by
    rcases h.start with rfl | ⟨hsub, -⟩
    · exact hbusier
    · exact hbusier.trans hsub
  refine ⟨⟨.inr ⟨hroot, hcarries⟩, fun q hq hqc => ?_⟩, hbusier.longer⟩
  rcases h.kept q hq hqc with hin | rfl | hshort
  · rcases hcover q hin with hb | ho
    · exact hb.elim (fun heq => .inr (.inl heq)) .inl
    · -- the other half would carry the share as well
      have hoc : Carries flows direction share other := by
        rcases ho with rfl | hsub
        · exact hqc
        · exact hqc.of_sub hsub
      exact absurd hdisj (Carries.disjoint hpos hshare hcarries hoc)
  · exact .inr (.inr hbusier.longer)
  · exact .inr (.inr (hshort.trans hbusier.longer))

/-- Where the descent ends, no longer prefix carries the share. -/
theorem Descends.stop (h : Descends flows direction share root current)
    (hstop : narrowStep ord (addressCounts flows direction) (totalBytes flows) share root.maxLen current = none)
    {q : IpNet} (hq : q.StrictSub root) (hqc : Carries flows direction share q) :
    q = current ∨ q.prefixLen < current.prefixLen := by
  rcases h.kept q hq hqc with hin | hrest
  · have hlen : current.prefixLen < current.maxLen := by
      have hle := q.prefixLen_le_maxLen
      rw [hin.maxLen_eq] at hle
      exact hin.longer.trans_le hle
    obtain ⟨busier, other, hbusier, hother, -, hcover, hle, heq⟩ :=
      narrowStep_spec ord flows direction share hlen
    rw [← h.maxLen_eq, heq] at hstop
    split_ifs at hstop with hcarries
    refine absurd ?_ hcarries
    show Carries flows direction share busier
    rcases hcover q hin with (rfl | hsub) | rfl | hsub
    · exact hqc
    · exact hqc.of_sub hsub
    · exact hqc.of_le hle
    · exact (hqc.of_sub hsub).of_le hle
  · exact hrest

end Descent

/-- **Prefix narrowing is optimal** for shares above a half.  The descent comes to its end; it returns the one
longest prefix strictly inside the given one that carries the share of the bytes, and the given one, without
its host bits, if there is none. -/
theorem narrowing_optimal (ord : HashOrder) (flows : List FlowRecord) (direction : Direction) (ipPrefix : IpNet)
    (ratio : ℚ) (hpos : 0 < totalBytes flows) (hratio : 1 / 2 < ratio) :
    let narrowed := computeDestinationPrefix ord flows direction ipPrefix ratio
    narrowStep ord (addressCounts flows direction) (totalBytes flows) ratio ipPrefix.maxLen narrowed = none ∧
      ((∃ net : IpNet, net.StrictSub ipPrefix.trunc ∧ Carries flows direction ratio net) →
        (narrowed.StrictSub ipPrefix.trunc ∧ Carries flows direction ratio narrowed) ∧
          ∀ net : IpNet, net.StrictSub ipPrefix.trunc → Carries flows direction ratio net → net ≠ narrowed →
            net.prefixLen < narrowed.prefixLen) ∧
      ((¬ ∃ net : IpNet, net.StrictSub ipPrefix.trunc ∧ Carries flows direction ratio net) →
        narrowed = ipPrefix.trunc) := by
  intro narrowed
  have hrun : narrowed = Loop.run
      (narrowStep ord (addressCounts flows direction) (totalBytes flows) ratio ipPrefix.maxLen)
      ipPrefix.maxLen ipPrefix.trunc := if_neg hpos.ne'
  have hmaxLen : ipPrefix.trunc.maxLen = ipPrefix.maxLen := by cases ipPrefix <;> rfl
  rw [← hmaxLen] at hrun ⊢
  have hstep : ∀ current next, Descends flows direction ratio ipPrefix.trunc current →
      narrowStep ord (addressCounts flows direction) (totalBytes flows) ratio ipPrefix.trunc.maxLen current =
        some next → Descends flows direction ratio ipPrefix.trunc next ∧
          ipPrefix.trunc.maxLen - next.prefixLen < ipPrefix.trunc.maxLen - current.prefixLen := by
    intro current next hcurrent hnext
    obtain ⟨hdesc, hlonger⟩ := hcurrent.step hpos hratio hnext
    have hle := next.prefixLen_le_maxLen
    rw [hdesc.maxLen_eq] at hle
    exact ⟨hdesc, by omega⟩
  have hdesc : Descends flows direction ratio ipPrefix.trunc narrowed := by
    rw [hrun]
    exact Loop.run_invariant _ (fun _ _ h hs => (hstep _ _ h hs).1) _ (Descends.refl _)
  have hstop := Loop.run_stops _ (fun current => ipPrefix.trunc.maxLen - current.prefixLen) hstep
    (Descends.refl _) (Nat.sub_le _ ipPrefix.trunc.prefixLen)
  rw [← hrun] at hstop
  refine ⟨hstop, fun ⟨net, hnet, hcarries⟩ => ⟨?_, fun net' hnet' hcarries' hne => ?_⟩, fun hnone => ?_⟩
  · -- a descent was made, or else the prefix found is no longer than the root
    rcases hdesc.start with heq | hstrict
    · have hlonger := hnet.longer
      rcases hdesc.stop hstop hnet hcarries with rfl | hlt
      · rw [heq] at hlonger
        exact absurd hlonger (lt_irrefl _)
      · rw [heq] at hlt
        omega
    · exact hstrict
  · exact (hdesc.stop hstop hnet' hcarries').resolve_left hne
  · rcases hdesc.start with heq | hstrict
    · exact heq
    · exact absurd ⟨narrowed, hstrict⟩ hnone

/-- A SYN of 100 bytes to each of 10.2.3.1 to 10.2.3.14. -/
def fourteen : List FlowRecord :=
  (List.range' 1 14).map fun i =>
    ⟨.V4 0xC0000201, .V4 (0x0A020300 + BitVec.ofNat 32 i), 1234, 80, 6, 0x02, 100, 1, 0, 1⟩

/-- 10.2.3.0/28. -/
def site28 : IpNet := .V4 ⟨0x0A020300, 28, by decide⟩

theorem narrowing_optimal_fourteen :
    computeDestinationPrefix HashOrder.stored fourteen .inbound site dominantShare = site28 ∧
      ∀ net : IpNet, net.StrictSub site.trunc → Carries fourteen .inbound dominantShare net → net ≠ site28 →
        net.prefixLen < 28 := by
  have hresult : computeDestinationPrefix HashOrder.stored fourteen .inbound site dominantShare = site28 := by
    decide +kernel
  have hsub : site28.StrictSub site.trunc := ⟨by decide, by decide, by decide⟩
  have hcarries : Carries fourteen .inbound dominantShare site28 := by
    unfold Carries
    decide +kernel
  have hoptimal := narrowing_optimal HashOrder.stored fourteen .inbound site dominantShare (by decide)
    (by norm_num [dominantShare])
  rw [hresult] at hoptimal
  exact ⟨hresult, (hoptimal.2.1 ⟨site28, hsub, hcarries⟩).2⟩

end NetAlert

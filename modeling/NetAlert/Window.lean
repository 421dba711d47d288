import NetAlert.Rates
import NetAlert.Wrapping

/-!
# NetAlert.Window — what the ring buffer counts for adds in any order

* `window_totals`: the buffer counts for a second the adds of that second since the last one of another second in
  its bucket, so a subset of the adds of the window, and all of them if none was late.
* `outside_window`: an add outside the window discards what the buffer holds for the second of the window that
  shares its bucket.
-/

namespace NetAlert

/-- The sums of `compute_rates`. -/
def WindowTotals.amounts (tot : WindowTotals) : ℕ × ℕ × ℕ := (tot.bytes, tot.packets, tot.flows)

/-- What one call of `add_instant_flow` is given: timestamp, bytes and packets. -/
abbrev InstantFlow := ℕ × ℕ × ℕ

/-- Bytes, packets and number of the flows. -/
def InstantFlow.total (adds : List InstantFlow) : ℕ × ℕ × ℕ :=
  ((adds.map fun e => e.2.1).sum, (adds.map fun e => e.2.2).sum, adds.length)

/-- What the ring counts of a flow. -/
def InstantFlow.entry (e : InstantFlow) : ℕ × ℕ × ℕ × ℕ := (e.1, e.2.1, e.2.2, 1)

theorem InstantFlow.sum_entries (adds : List InstantFlow) :
    ((adds.map entry).map Prod.snd).sum = total adds := by
  rw [List.map_map]
  exact sum_triples adds _ _

theorem InstantFlow.content_entries (W : ℕ) (adds : List InstantFlow) (t : ℕ) :
    SlotRing.content W (adds.map entry) t = total (SlotRing.since W adds t) := by
  rw [SlotRing.content_since, ← sum_entries]
  exact congrArg (fun l => (List.map Prod.snd l).sum) (SlotRing.since_map W (fun x => (x.1, x.2, 1)) adds t)

theorem InstantFlow.inWindow_entries (W : ℕ) (adds : List InstantFlow) (now : ℕ) :
    SlotRing.inWindow W (adds.map entry) now = total (adds.filter fun e => now < e.1 + W ∧ e.1 ≤ now) := by
  rw [SlotRing.inWindow, List.filter_map, sum_entries]
  rfl

/-- **The window sum** of the adds that are not discarded is that of a subset of the adds. -/
theorem InstantFlow.sum_since {W : ℕ} (adds : List InstantFlow) {now : ℕ} (hW : W ≤ now + 1) :
    ∑ i ∈ Finset.range W, total (SlotRing.since W adds (now - i)) =
      total ((SlotRing.kept W adds).filter fun e => now < e.1 + W ∧ e.1 ≤ now) := by
  have hkept : SlotRing.kept W (adds.map entry) = (SlotRing.kept W adds).map entry :=
    SlotRing.kept_map W (fun x => (x.1, x.2, 1)) adds
  rw [← inWindow_entries, ← hkept, ← SlotRing.sum_content_kept _ hW]
  exact Finset.sum_congr rfl fun i _ => (content_entries W adds (now - i)).symm

/-- Fewer flows have smaller sums. -/
theorem InstantFlow.total_le {adds adds' : List InstantFlow} (h : adds.Sublist adds') : total adds ≤ total adds' :=
  ⟨(h.map _).sum_le_sum fun _ _ => Nat.zero_le _, (h.map _).sum_le_sum fun _ _ => Nat.zero_le _, h.length_le⟩

namespace RingBuffer

/-- Calls of `add_instant_flow`, in order. -/
def addAll (r : RingBuffer) (adds : List InstantFlow) : Option RingBuffer :=
  adds.foldlM (fun r e => r.addInstantFlow e.1 e.2.1 e.2.2) r

theorem addAll_concat (r : RingBuffer) (adds : List InstantFlow) (e : InstantFlow) :
    r.addAll (adds ++ [e]) = (r.addAll adds).bind fun r => r.addInstantFlow e.1 e.2.1 e.2.2 := by
  simp [addAll, List.foldlM_append]

/-- **A run of adds**, where none panics. -/
theorem read_addAll {W : ℕ} {adds : List InstantFlow} {r : RingBuffer} (h : (new W).addAll adds = some r) :
    r.buckets.length = W ∧ ∀ t, r.read t = InstantFlow.total (SlotRing.since W adds t) := by
  simp only [← InstantFlow.content_entries]
  induction adds using List.reverseRecOn generalizing r with
  | nil =>
    obtain rfl := Option.some.inj h
    exact ⟨length_new W, fun t => read_new W t⟩
  | append_singleton adds e ih =>
    rw [addAll_concat, Option.bind_eq_some_iff] at h
    obtain ⟨r₁, h₁, h⟩ := h
    obtain ⟨hlength, hread⟩ := ih h₁
    obtain ⟨hlength', hread'⟩ := read_addInstantFlow h
    refine ⟨hlength'.trans hlength, fun t => ?_⟩
    rw [hread', hlength, hread, List.map_append, List.map_singleton, SlotRing.content_concat]
    rfl

/-- With buckets no add panics. -/
theorem addAll_isSome {W : ℕ} (hW : 0 < W) (adds : List InstantFlow) : ∃ r, (new W).addAll adds = some r := by
  induction adds using List.reverseRecOn with
  | nil => exact ⟨_, rfl⟩
  | append_singleton adds e ih =>
    obtain ⟨r, hr⟩ := ih
    obtain ⟨r', hr', -⟩ := r.toRing_addInstantFlow (by rw [(read_addAll hr).1]; exact hW) e.1 e.2.1 e.2.2
    exact ⟨r', by rw [addAll_concat, hr, Option.bind_some, hr']⟩

/-- The sums and the rates are those of what the buffer holds for the seconds of the window. -/
theorem amounts_totals (r : RingBuffer) (now : ℕ) :
    (r.totals now).amounts = ∑ i ∈ Finset.range r.buckets.length, r.read (now - i) ∧
      r.computeRates now = ratesOf r.buckets.length (r.totals now).amounts := by
  have hsum : (r.totals now).amounts = ∑ i ∈ Finset.range r.buckets.length, r.read (now - i) :=
    (scan_totals r now (List.finRange r.buckets.length)).1.trans (r.sum_finRange now)
  exact ⟨hsum, by rw [hsum, computeRates_eq]⟩

/-- The seconds of a window, in order. -/
theorem sum_window {M : Type*} [AddCommMonoid M] (f : ℕ → M) {W now : ℕ} (hW : W ≤ now + 1) :
    ∑ i ∈ Finset.range W, f (now - i) = ∑ t ∈ Finset.Ico (now + 1 - W) (now + 1), f t := by
  rw [Finset.sum_Ico_eq_sum_range, Nat.sub_sub_self hW, ← Finset.sum_range_reflect]
  refine Finset.sum_congr rfl fun i hi => ?_
  have := Finset.mem_range.mp hi
  congr 1
  omega

end RingBuffer

/-- **The ring buffer after any adds** counts for each second of a window the adds of that second since the last
one of another second in its bucket.  So it counts a subset of the adds of the window, and all of them if each
was later than the earlier ones less the window and none is later than the window. -/
theorem window_totals (W : ℕ) (hW : 0 < W) (adds : List InstantFlow) :
    ∃ r, (RingBuffer.new W).addAll adds = some r ∧ ∀ now, W ≤ now + 1 →
      let inWindow := adds.filter fun e => now < e.1 + W ∧ e.1 ≤ now
      r.computeRates now = RingBuffer.ratesOf W (r.totals now).amounts ∧
        (r.totals now).amounts =
          ∑ t ∈ Finset.Ico (now + 1 - W) (now + 1), InstantFlow.total (SlotRing.since W adds t) ∧
        (∃ counted, counted.Sublist inWindow ∧ (r.totals now).amounts = InstantFlow.total counted) ∧
        (r.totals now).amounts ≤ InstantFlow.total inWindow ∧
        (SlotRing.Timely W adds → (∀ e ∈ adds, e.1 ≤ now) →
          r.computeRates now = RingBuffer.ratesOf W (InstantFlow.total inWindow)) := by
  obtain ⟨r, hr⟩ := RingBuffer.addAll_isSome hW adds
  obtain ⟨hlength, hread⟩ := RingBuffer.read_addAll hr
  refine ⟨r, hr, fun now hnow => ?_⟩
  intro inWindow
  obtain ⟨hamounts, hrates⟩ := r.amounts_totals now
  simp only [hlength, hread] at hamounts hrates
  have hsub : ((SlotRing.kept W adds).filter fun e => now < e.1 + W ∧ e.1 ≤ now).Sublist inWindow :=
    (SlotRing.kept_sublist W adds).filter _
  have hcounted := hamounts.trans (InstantFlow.sum_since adds hnow)
  have hseconds := hamounts.trans
    (RingBuffer.sum_window (fun t => InstantFlow.total (SlotRing.since W adds t)) hnow)
  refine ⟨hrates, hseconds, ⟨_, hsub, hcounted⟩, ?_, fun hT hle => ?_⟩
  · rw [hcounted]
    exact InstantFlow.total_le hsub
  · have hentries : SlotRing.Timely W (adds.map InstantFlow.entry) := List.pairwise_map.mpr hT
    have hlast : ∀ e ∈ adds.map InstantFlow.entry, e.1 ≤ now := List.forall_mem_map.mpr hle
    rw [hrates, hamounts, ← InstantFlow.inWindow_entries, ← SlotRing.sum_content_eq hentries hnow hlast]
    simp only [InstantFlow.content_entries]

theorem window_totals_two :
    ∃ r, (RingBuffer.new 2).addAll [(8, 30, 3), (9, 100, 1), (10, 50, 2), (9, 7, 1)] = some r ∧
      (r.totals 10).amounts = (157, 4, 3) ∧ r.computeRates 10 = RingBuffer.ratesOf 2 (157, 4, 3) := by
  obtain ⟨r, hr, hwindow⟩ := window_totals 2 (by decide) [(8, 30, 3), (9, 100, 1), (10, 50, 2), (9, 7, 1)]
  obtain ⟨-, hamounts, -, -, hrates⟩ := hwindow 10 (by decide)
  refine ⟨r, hr, hamounts.trans ?_, ?_⟩
  · decide
  · exact hrates (by unfold SlotRing.Timely; decide) (by decide)

/-! ## Adds outside the window -/

/-- Rates determine the sums of a window with buckets. -/
theorem RingBuffer.ratesOf_inj {W : ℕ} (hW : 0 < W) {x y : ℕ × ℕ × ℕ} (h : ratesOf W x = ratesOf W y) : x = y := by
  have hne : (W : ℚ) ≠ 0 := by exact_mod_cast hW.ne'
  have h8 : (8 : ℚ) ≠ 0 := by norm_num
  simp only [ratesOf, Prod.mk.injEq, div_left_inj' hne, mul_left_inj' h8, Nat.cast_inj] at h
  exact Prod.ext h.1 (Prod.ext h.2.1 h.2.2)

/-- No flows, no sums. -/
theorem InstantFlow.total_eq_zero {adds : List InstantFlow} : total adds = 0 ↔ adds = [] := by
  refine ⟨fun h => List.length_eq_zero_iff.mp (congrArg (fun x => x.2.2) h), ?_⟩
  rintro rfl
  rfl

/-- **An add outside the window** discards what is counted for the second of the window that shares its bucket, and
nothing else; so the rates stay as they are exactly if nothing is counted for that second. -/
theorem outside_window {W : ℕ} {adds : List InstantFlow} {r r' : RingBuffer}
    (hr : (RingBuffer.new W).addAll adds = some r) {now t : ℕ} (hnow : W ≤ now + 1)
    (ht : ¬ (now < t + W ∧ t ≤ now)) {bytes packets : ℕ} (h : r.addInstantFlow t bytes packets = some r') :
    ∃ s, (now < s + W ∧ s ≤ now ∧ s % W = t % W) ∧
      (r.totals now).amounts = (r'.totals now).amounts + InstantFlow.total (SlotRing.since W adds s) ∧
      (r'.computeRates now = r.computeRates now ↔ SlotRing.since W adds s = []) := by
  obtain ⟨hlength, hread⟩ := RingBuffer.read_addAll hr
  have hW : 0 < W := by
    rcases Nat.eq_zero_or_pos W with h0 | hW
    · rw [r.addInstantFlow_eq_none (hlength.trans h0)] at h
      cases h
    · exact hW
  obtain ⟨r'', h', hlength', hring⟩ := r.toRing_addInstantFlow (by rw [hlength]; exact hW) t bytes packets
  obtain rfl := Option.some.inj (h.symm.trans h')
  obtain ⟨hamounts, hrates⟩ := r.amounts_totals now
  obtain ⟨hamounts', hrates'⟩ := r'.amounts_totals now
  rw [hlength', hlength] at hamounts' hrates'
  rw [hlength] at hamounts hrates
  obtain ⟨s, hs, hsum⟩ := SlotRing.sum_read_add r.toRing hW hnow ht (bytes, packets, 1)
  have hloss : (r.totals now).amounts = (r'.totals now).amounts + InstantFlow.total (SlotRing.since W adds s) := by
    rw [hamounts, hamounts', ← hread s]
    simp only [RingBuffer.read, hlength', hlength, hring]
    exact hsum
  refine ⟨s, hs, hloss, ?_⟩
  rw [hrates, hrates', ← InstantFlow.total_eq_zero]
  constructor
  · intro heq
    rw [← RingBuffer.ratesOf_inj hW heq] at hloss
    exact left_eq_add.mp hloss
  · intro hzero
    rw [hloss, hzero, add_zero]

/-- A late flow of a second that nothing is counted for changes nothing. -/
theorem outside_window_free :
    ∃ r r', (RingBuffer.new 10).addAll [(1000, 1000, 10)] = some r ∧ r.addInstantFlow 991 1 1 = some r' ∧
      r'.computeRates 1005 = r.computeRates 1005 := by
  obtain ⟨r, hr⟩ := RingBuffer.addAll_isSome (by decide : 0 < 10) [(1000, 1000, 10)]
  obtain ⟨r', h, -⟩ := r.toRing_addInstantFlow (by rw [(RingBuffer.read_addAll hr).1]; decide) 991 1 1
  have ht : ¬ (1005 < 991 + 10 ∧ 991 ≤ 1005) := by decide
  obtain ⟨s, ⟨hlow, hhigh, hmod⟩, -, hiff⟩ := outside_window hr (by decide) ht h
  have hs : s = 1001 := by omega
  exact ⟨r, r', hr, h, hiff.mpr (by rw [hs]; decide)⟩

/-- A late flow, or one from beyond the window, takes away the only flow of the window. -/
theorem outside_window_disturbs :
    ∃ r late early, (RingBuffer.new 10).addAll [(1000, 1000, 10)] = some r ∧
      r.addInstantFlow 990 1 1 = some late ∧ r.addInstantFlow 1010 1 1 = some early ∧
      r.computeRates 1005 = (800, 1, 1 / 10) ∧ late.computeRates 1005 = (0, 0, 0) ∧
      early.computeRates 1005 = (0, 0, 0) := by
  refine ⟨_, _, _, rfl, rfl, rfl, ?_, ?_, ?_⟩ <;> decide +kernel

end NetAlert

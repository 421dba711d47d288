import NetAlert.Lib.SlotRing

/-!
# NetAlert.RingBuffer — per-second counters of a sliding window (`ring_buffer.rs`)

A `RingBuffer` of `W` buckets counts bytes, packets and flows for the seconds modulo `W`.  Taking a
remainder by zero panics, so on a buffer without buckets `addInstantFlow` has no result.  `toRing`
reads a buffer as a `SlotRing` of triples: an add is a `SlotRing.add` (`toRing_addInstantFlow`) and
the rates are those of the window sum of the reads (`computeRates_eq`).
-/

namespace NetAlert

structure Bucket where
  timestamp : ℕ := 0
  bytes : ℕ := 0
  packets : ℕ := 0
  flows : ℕ := 0
  deriving DecidableEq

def Bucket.reset (_ : Bucket) (timestamp : ℕ) : Bucket :=
  { timestamp := timestamp, bytes := 0, packets := 0, flows := 0 }

structure RingBuffer where
  buckets : List Bucket
  deriving DecidableEq

/-- The accumulators of `compute_rates`. -/
structure WindowTotals where
  bytes : ℕ := 0
  packets : ℕ := 0
  flows : ℕ := 0
  validBuckets : ℕ := 0

namespace RingBuffer

def new (windowSecs : ℕ) : RingBuffer := ⟨List.replicate windowSecs {}⟩

/-- The bucket of a second; no result where the remainder by zero panics. -/
def bucketIndex (r : RingBuffer) (timestamp : ℕ) : Option ℕ :=
  if r.buckets.length = 0 then none else some (timestamp % r.buckets.length)

/-- The bucket of a second with its index, reset if it holds another second. -/
def getOrResetBucket (r : RingBuffer) (timestamp : ℕ) : Option (ℕ × Bucket) := do
  let idx ← r.bucketIndex timestamp
  let bucket ← r.buckets[idx]?
  return (idx, if bucket.timestamp ≠ timestamp then bucket.reset timestamp else bucket)

def addInstantFlow (r : RingBuffer) (timestamp bytes packets : ℕ) : Option RingBuffer := do
  let (idx, bucket) ← r.getOrResetBucket timestamp
  return ⟨r.buckets.set idx { bucket with
    bytes := bucket.bytes + bytes
    packets := bucket.packets + packets
    flows := bucket.flows + 1 }⟩

/-- One step of the loop of `compute_rates`.  It runs only for `i < window`, so there is a bucket
for every second. -/
def scanBucket (r : RingBuffer) (currentTime : ℕ) (tot : WindowTotals) (i : Fin r.buckets.length) :
    WindowTotals :=
  let t := currentTime - i
  let bucket := r.buckets.get ⟨t % r.buckets.length, Nat.mod_lt _ (Fin.pos i)⟩
  if bucket.timestamp = t then
    { bytes := tot.bytes + bucket.bytes
      packets := tot.packets + bucket.packets
      flows := tot.flows + bucket.flows
      validBuckets := tot.validBuckets + 1 }
  else tot

/-- Bits, packets and flows per second over the window that ends with `currentTime`. -/
def computeRates (r : RingBuffer) (currentTime : ℕ) : ℚ × ℚ × ℚ :=
  let window := r.buckets.length
  let tot := (List.finRange window).foldl (r.scanBucket currentTime) {}
  if tot.validBuckets = 0 then (0, 0, 0)
  else (tot.bytes * 8 / window, tot.packets / window, tot.flows / window)

/-! ## The buffer as a slot ring -/

/-- Bucket contents as slots: stamp, and bytes, packets and flows. -/
def toRing (r : RingBuffer) : SlotRing.Ring (ℕ × ℕ × ℕ) := fun i =>
  let b := r.buckets.getD i {}
  ⟨b.timestamp, b.bytes, b.packets, b.flows⟩

/-- What the buffer holds for second `t`. -/
def read (r : RingBuffer) (t : ℕ) : ℕ × ℕ × ℕ := SlotRing.read r.buckets.length r.toRing t

@[simp] theorem length_new (W : ℕ) : (new W).buckets.length = W := by simp [new]

theorem toRing_new (W : ℕ) : (new W).toRing = SlotRing.empty := by
  funext i
  by_cases hi : i < W <;> simp [toRing, new, SlotRing.empty, List.getD, hi]

/-- **An add**: on a buffer with buckets it succeeds, keeps their number and is a ring add. -/
theorem toRing_addInstantFlow (r : RingBuffer) (hr : 0 < r.buckets.length) (t b p : ℕ) :
    ∃ r', r.addInstantFlow t b p = some r' ∧ r'.buckets.length = r.buckets.length ∧
      r'.toRing = SlotRing.add r.buckets.length r.toRing t (b, p, 1) := by
  have hidx : t % r.buckets.length < r.buckets.length := Nat.mod_lt _ hr
  have hget : r.buckets[t % r.buckets.length]? = some (r.buckets[t % r.buckets.length]) :=
    List.getElem?_eq_getElem hidx
  simp only [addInstantFlow, getOrResetBucket, bucketIndex, if_neg hr.ne', Option.bind_eq_bind,
    Option.bind_some, hget, Option.pure_def]
  refine ⟨_, rfl, by simp, ?_⟩
  funext i
  by_cases hi : i = t % r.buckets.length
  · subst hi
    by_cases hs : (r.buckets[t % r.buckets.length]).timestamp = t <;>
      simp [toRing, SlotRing.add, List.getD, hidx, hs, Bucket.reset]
  · simp [toRing, SlotRing.add, List.getD, Function.update_of_ne hi, List.getElem?_set_ne (Ne.symm hi)]

/-- On a buffer without buckets every add panics. -/
theorem addInstantFlow_eq_none (r : RingBuffer) (hr : r.buckets.length = 0) (t b p : ℕ) :
    r.addInstantFlow t b p = none := by
  simp [addInstantFlow, getOrResetBucket, bucketIndex, hr]

/-- **What an add changes**, where it does not panic. -/
theorem read_addInstantFlow {r r' : RingBuffer} {s b p : ℕ} (h : r.addInstantFlow s b p = some r') :
    r'.buckets.length = r.buckets.length ∧ ∀ t, r'.read t =
      if s = t then r.read t + (b, p, 1)
      else if s % r.buckets.length = t % r.buckets.length then 0 else r.read t := by
  rcases Nat.eq_zero_or_pos r.buckets.length with hr | hr
  · rw [r.addInstantFlow_eq_none hr] at h
    cases h
  · obtain ⟨r'', h', hlen, hring⟩ := r.toRing_addInstantFlow hr s b p
    rw [h] at h'
    cases h'
    refine ⟨hlen, fun t => ?_⟩
    rw [read, hlen, hring]
    exact SlotRing.read_add _ _ s t _

theorem read_new (W t : ℕ) : (new W).read t = 0 := by
  simp [read, toRing_new]

/-- The rates of a window of `W` seconds that holds the given totals. -/
def ratesOf (W : ℕ) (tot : ℕ × ℕ × ℕ) : ℚ × ℚ × ℚ := (tot.1 * 8 / W, tot.2.1 / W, tot.2.2 / W)

/-- One step of the scan adds what the buffer holds for its second. -/
theorem scanBucket_totals (r : RingBuffer) (now : ℕ) (tot : WindowTotals) (i : Fin r.buckets.length) :
    ((r.scanBucket now tot i).bytes, (r.scanBucket now tot i).packets, (r.scanBucket now tot i).flows) =
        (tot.bytes, tot.packets, tot.flows) + r.read (now - i) ∧
      (r.scanBucket now tot i).validBuckets =
        tot.validBuckets + if (r.toRing ((now - i) % r.buckets.length)).stamp = now - i then 1 else 0 := by
  have hidx : (now - i) % r.buckets.length < r.buckets.length := Nat.mod_lt _ (Fin.pos i)
  by_cases hs : (r.buckets[(now - i) % r.buckets.length]).timestamp = now - i <;>
    simp [scanBucket, read, SlotRing.read, toRing, List.getD, hidx, hs]

theorem scan_totals (r : RingBuffer) (now : ℕ) (l : List (Fin r.buckets.length)) :
    let tot := l.foldl (r.scanBucket now) {}
    (tot.bytes, tot.packets, tot.flows) = (l.map (fun i : Fin _ => r.read (now - i))).sum ∧
      (tot.validBuckets = 0 → (l.map (fun i : Fin _ => r.read (now - i))).sum = 0) := by
  induction l using List.reverseRecOn with
  | nil => simp
  | append_singleton l i ih =>
    obtain ⟨ih1, ih2⟩ := ih
    obtain ⟨h1, h2⟩ := scanBucket_totals r now (l.foldl (r.scanBucket now) {}) i
    simp only [List.foldl_append, List.foldl_cons, List.foldl_nil, List.map_append, List.map_cons,
      List.map_nil, List.sum_append, List.sum_singleton]
    refine ⟨h1.trans (by rw [ih1]), fun h0 => ?_⟩
    rw [h2] at h0
    obtain ⟨hv, hstale⟩ := Nat.add_eq_zero_iff.mp h0
    rw [ih2 hv, zero_add, read, SlotRing.read, if_neg (by simpa using hstale)]

/-- The seconds of the scan. -/
theorem sum_finRange (r : RingBuffer) (now : ℕ) :
    ((List.finRange r.buckets.length).map (fun i : Fin _ => r.read (now - i))).sum =
      ∑ i ∈ Finset.range r.buckets.length, r.read (now - i) := by
  rw [← Fin.sum_univ_def, Fin.sum_univ_eq_sum_range (fun i => r.read (now - i))]

/-- **The rates** are those of the sum of what the buffer holds for the seconds of the window. -/
theorem computeRates_eq (r : RingBuffer) (now : ℕ) :
    r.computeRates now =
      ratesOf r.buckets.length (∑ i ∈ Finset.range r.buckets.length, r.read (now - i)) := by
  obtain ⟨h1, h2⟩ := scan_totals r now (List.finRange r.buckets.length)
  rw [sum_finRange] at h1 h2
  unfold computeRates
  simp only
  split_ifs with hv
  · rw [h2 hv]
    simp [ratesOf]
  · rw [← h1]
    rfl

end RingBuffer

end NetAlert

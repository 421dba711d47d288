import Mathlib.Data.UInt
import NetAlert.Candidates
import NetAlert.Processor

/-!
# NetAlert.Wrapping — the same sums in 64 bits

The counters and sums of the daemon are `u64`, and nothing guards their additions and multiplications: a
release build wraps.  Elsewhere in this development they are exact numbers.  Here they are `UInt64`, written
out again with the operations of that type.

* `sums_wrap`: every such value is the exact one modulo `2 ^ 64`, and so exact iff that one fits.
-/

namespace NetAlert

/-- What a machine word is to an exact value: its remainder, and so the value itself iff that fits. -/
def Wraps (x : UInt64) (n : ℕ) : Prop := x.toNat = n % 2 ^ 64 ∧ (x.toNat = n ↔ n < 2 ^ 64)

/-- The word of a number. -/
def word : ℕ →+ UInt64 where
  toFun := UInt64.ofNat
  map_zero' := rfl
  map_add' := UInt64.ofNat_add

theorem wraps_word (n : ℕ) : Wraps (word n) n := by
  have hrem : (word n).toNat = n % 2 ^ 64 := UInt64.toNat_ofNat'
  refine ⟨hrem, ?_⟩
  rw [hrem]
  constructor
  · intro h
    rw [← h]
    exact Nat.mod_lt _ (by norm_num)
  · exact Nat.mod_eq_of_lt

/-! ## Flow records -/

/-- `self.bytes * self.sampling_rate as u64`. -/
def FlowRecord.sampledBytesU64 (f : FlowRecord) : UInt64 := UInt64.ofNat f.bytes * UInt64.ofNat f.samplingRate

def FlowRecord.sampledPacketsU64 (f : FlowRecord) : UInt64 := UInt64.ofNat f.packets * UInt64.ofNat f.samplingRate

theorem sampledBytesU64_eq (f : FlowRecord) : f.sampledBytesU64 = word f.sampledBytes :=
  (UInt64.ofNat_mul _ _).symm

theorem sampledPacketsU64_eq (f : FlowRecord) : f.sampledPacketsU64 = word f.sampledPackets :=
  (UInt64.ofNat_mul _ _).symm

/-! ## Ring buffers -/

structure BucketU64 where
  timestamp : ℕ := 0
  bytes : UInt64 := 0
  packets : UInt64 := 0
  flows : UInt64 := 0

structure RingBufferU64 where
  buckets : List BucketU64

structure WindowTotalsU64 where
  bytes : UInt64 := 0
  packets : UInt64 := 0
  flows : UInt64 := 0

namespace RingBufferU64

def new (windowSecs : ℕ) : RingBufferU64 := ⟨List.replicate windowSecs {}⟩

/-- `add_instant_flow`; no result where the remainder by zero panics. -/
def addInstantFlow (r : RingBufferU64) (timestamp : ℕ) (bytes packets : UInt64) : Option RingBufferU64 :=
  if r.buckets.length = 0 then none
  else
    let idx := timestamp % r.buckets.length
    let bucket := r.buckets.getD idx {}
    let bucket := if bucket.timestamp ≠ timestamp then { timestamp := timestamp } else bucket
    some ⟨r.buckets.set idx { bucket with
      bytes := bucket.bytes + bytes
      packets := bucket.packets + packets
      flows := bucket.flows + 1 }⟩

/-- One step of the loop of `compute_rates`, for `i` below the number of buckets. -/
def scanBucket (r : RingBufferU64) (currentTime : ℕ) (tot : WindowTotalsU64) (i : ℕ) : WindowTotalsU64 :=
  let t := currentTime - i
  let bucket := r.buckets.getD (t % r.buckets.length) {}
  if bucket.timestamp = t then
    { bytes := tot.bytes + bucket.bytes
      packets := tot.packets + bucket.packets
      flows := tot.flows + bucket.flows }
  else tot

/-- The totals of `compute_rates`. -/
def totals (r : RingBufferU64) (currentTime : ℕ) : WindowTotalsU64 :=
  (List.range r.buckets.length).foldl (r.scanBucket currentTime) {}

/-- Count a sequence of flows. -/
def addFlows (r : RingBufferU64) (flows : List FlowRecord) : Option RingBufferU64 :=
  flows.foldlM (fun r f => r.addInstantFlow f.timeReceived f.sampledBytesU64 f.sampledPacketsU64) r

end RingBufferU64

/-- The same, in exact numbers. -/
def RingBuffer.addFlows (r : RingBuffer) (flows : List FlowRecord) : Option RingBuffer :=
  flows.foldlM (fun r f => r.addInstantFlow f.timeReceived f.sampledBytes f.sampledPackets) r

/-- The totals of `compute_rates`, in exact numbers. -/
def RingBuffer.totals (r : RingBuffer) (currentTime : ℕ) : WindowTotals :=
  (List.finRange r.buckets.length).foldl (r.scanBucket currentTime) {}

/-- A bucket in machine words. -/
def Bucket.words (b : Bucket) : BucketU64 := ⟨b.timestamp, word b.bytes, word b.packets, word b.flows⟩

def RingBuffer.words (r : RingBuffer) : RingBufferU64 := ⟨r.buckets.map Bucket.words⟩

def WindowTotals.words (tot : WindowTotals) : WindowTotalsU64 := ⟨word tot.bytes, word tot.packets, word tot.flows⟩

namespace RingBuffer

theorem words_new (W : ℕ) : (new W).words = RingBufferU64.new W := by
  simp only [words, new, RingBufferU64.new, List.map_replicate]
  rfl

@[simp] theorem length_words (r : RingBuffer) : r.words.buckets.length = r.buckets.length := List.length_map _

theorem getD_words (r : RingBuffer) (i : ℕ) : r.words.buckets.getD i {} = (r.buckets.getD i {}).words := by
  simp only [words, List.getD_eq_getElem?_getD, List.getElem?_map]
  cases r.buckets[i]? <;> rfl

theorem getElem?_getD (r : RingBuffer) {i : ℕ} (h : i < r.buckets.length) :
    r.buckets[i]? = some (r.buckets.getD i {}) := by
  rw [List.getD_eq_getElem?_getD, List.getElem?_eq_getElem h]
  rfl

/-- **An add** commutes with the words. -/
theorem words_addInstantFlow (r : RingBuffer) (t b p : ℕ) :
    r.words.addInstantFlow t (word b) (word p) = (r.addInstantFlow t b p).map words := by
  rcases Nat.eq_zero_or_pos r.buckets.length with hr | hr
  · rw [r.addInstantFlow_eq_none hr, RingBufferU64.addInstantFlow, length_words, if_pos hr]
    rfl
  · have hidx : t % r.buckets.length < r.buckets.length := Nat.mod_lt _ hr
    simp only [RingBufferU64.addInstantFlow, addInstantFlow, getOrResetBucket, bucketIndex, length_words,
      getD_words, if_neg hr.ne', r.getElem?_getD hidx, Option.bind_eq_bind, Option.bind_some, Option.pure_def,
      Option.map_some]
    generalize r.buckets.getD (t % r.buckets.length) {} = bucket
    congr 1
    simp only [words, List.map_set]
    congr 2
    by_cases hstamp : bucket.timestamp = t
    · simp only [Bucket.words, hstamp, map_add, ne_eq, not_true_eq_false, if_false]
      rfl
    · simp only [Bucket.words, hstamp, ne_eq, not_false_eq_true, if_true, Bucket.reset, map_add, map_zero]
      rfl

theorem words_addFlows (r : RingBuffer) (flows : List FlowRecord) :
    r.words.addFlows flows = (r.addFlows flows).map words := by
  induction flows generalizing r with
  | nil => rfl
  | cons f flows ih =>
    show (r.words.addInstantFlow f.timeReceived f.sampledBytesU64 f.sampledPacketsU64).bind
      (fun r => r.addFlows flows) = ((r.addInstantFlow f.timeReceived f.sampledBytes f.sampledPackets).bind
        fun r => r.addFlows flows).map words
    rw [sampledBytesU64_eq, sampledPacketsU64_eq, words_addInstantFlow]
    cases r.addInstantFlow f.timeReceived f.sampledBytes f.sampledPackets with
    | none => rfl
    | some r' => exact ih r'

theorem words_totals (r : RingBuffer) (now : ℕ) : r.words.totals now = (r.totals now).words := by
  let scan (tot : WindowTotalsU64) (i : Fin r.buckets.length) : WindowTotalsU64 := r.words.scanBucket now tot i
  have hstep : ∀ tot i, scan tot.words i = (r.scanBucket now tot i).words := by
    intro tot i
    have hidx : (now - i) % r.buckets.length < r.buckets.length := Nat.mod_lt _ (Fin.pos i)
    have hget : r.buckets.getD ((now - i) % r.buckets.length) {} = r.buckets[(now - i) % r.buckets.length] := by
      rw [← Option.some_inj, ← r.getElem?_getD hidx, List.getElem?_eq_getElem hidx]
    simp only [scan, RingBufferU64.scanBucket, scanBucket, length_words, getD_words, hget, List.get_eq_getElem]
    generalize r.buckets[(now - i) % r.buckets.length] = bucket
    by_cases hstamp : bucket.timestamp = now - i
    · simp only [Bucket.words, hstamp, if_true, WindowTotals.words, map_add]
    · simp only [Bucket.words, hstamp, if_false]
  rw [RingBufferU64.totals, length_words, ← List.map_coe_finRange_eq_range, List.foldl_map]
  show List.foldl scan (WindowTotals.words {}) _ = _
  exact List.foldl_hom WindowTotals.words hstep

end RingBuffer

/-! ## The analysis -/

/-- `flows.iter().map(|f| f.sampled_bytes()).sum()`. -/
def totalBytesU64 (flows : List FlowRecord) : UInt64 := (flows.map FlowRecord.sampledBytesU64).sum

/-- The groups of `find_best_candidate`. -/
def groupFlowsU64 (flows : List FlowRecord) (fields : FieldSet) : HashMap GroupKey (UInt64 × UInt64) :=
  flows.foldl (fun groups flow =>
    match GroupKey.fromFlow flow fields with
    | none => groups
    | some key => Tally.add groups key (flow.sampledBytesU64, flow.sampledPacketsU64)) ∅

/-- The address counts of `compute_destination_prefix`. -/
def addressCountsU64 (flows : List FlowRecord) (direction : Direction) : HashMap IpAddr UInt64 :=
  flows.foldl (fun counts flow => Tally.add counts (direction.address flow) flow.sampledBytesU64) ∅

/-- The bytes of a half, by a walk over the address counts. -/
def childBytesU64 (ord : HashOrder) (counts : HashMap IpAddr UInt64) (child : IpNet) : UInt64 :=
  (((ord.iter counts.toPairs).filter fun e => child.contains e.1).map Prod.snd).sum

section Analysis

variable (flows : List FlowRecord)

theorem totalBytesU64_eq : totalBytesU64 flows = word (totalBytes flows) := by
  rw [totalBytesU64, totalBytes, map_list_sum, List.map_map]
  congr 2
  funext f
  exact sampledBytesU64_eq f

theorem lookup_groupFlowsU64 (fields : FieldSet) (key : GroupKey) : (groupFlowsU64 flows fields).lookup key =
    ((groupFlows flows fields).lookup key).map fun e => (word e.1, word e.2) := by
  have htally : groupFlowsU64 flows fields = Tally.tally (fun f => GroupKey.fromFlow f fields)
      (fun f => (word.prodMap word) (f.sampledBytes, f.sampledPackets)) flows := by
    unfold groupFlowsU64 Tally.tally
    congr 1
    funext groups f
    simp only [Tally.tallyStep]
    cases GroupKey.fromFlow f fields with
    | none => rfl
    | some key =>
      rw [sampledBytesU64_eq, sampledPacketsU64_eq]
      rfl
  rw [htally, Tally.lookup_tally_map, groupFlows_eq_tally]
  rfl

theorem addressCountsU64_eq (direction : Direction) : addressCountsU64 flows direction =
    Tally.tally (fun f => some (direction.address f)) (fun f => word f.sampledBytes) flows := by
  unfold addressCountsU64 Tally.tally
  congr 1
  funext counts f
  rw [sampledBytesU64_eq]
  rfl

theorem lookup_addressCountsU64 (direction : Direction) (ip : IpAddr) :
    (addressCountsU64 flows direction).lookup ip = ((addressCounts flows direction).lookup ip).map word := by
  rw [addressCountsU64_eq, Tally.lookup_tally_map]
  rfl

theorem childBytesU64_eq (ord : HashOrder) (direction : Direction) (child : IpNet) :
    childBytesU64 ord (addressCountsU64 flows direction) child =
      word (childBytes ord (addressCounts flows direction) child) := by
  have hperm := ((ord.perm (addressCountsU64 flows direction).toPairs).filter
    (fun e => child.contains e.1)).map Prod.snd
  rw [childBytes_eq, childBytesU64, hperm.sum_eq, addressCountsU64_eq, Tally.sum_tally fun ip => child.contains ip,
    totalBytes, map_list_sum, List.map_map]
  rfl

end Analysis

/-! ## All of them -/

/-- A buffer of words beside the exact one: the same seconds, and words for the counts and the totals. -/
structure SameInWords (r : RingBufferU64) (exact : RingBuffer) : Prop where
  buckets : List.Forall₂ (fun b e => b.timestamp = e.timestamp ∧ Wraps b.bytes e.bytes ∧
    Wraps b.packets e.packets ∧ Wraps b.flows e.flows) r.buckets exact.buckets
  totals : ∀ now, Wraps (r.totals now).bytes (exact.totals now).bytes ∧
    Wraps (r.totals now).packets (exact.totals now).packets ∧ Wraps (r.totals now).flows (exact.totals now).flows

theorem sameInWords_words (r : RingBuffer) : SameInWords r.words r where
  buckets := by
    rw [RingBuffer.words, List.forall₂_map_left_iff, List.forall₂_same]
    exact fun b _ => ⟨rfl, wraps_word _, wraps_word _, wraps_word _⟩
  totals now := by
    rw [r.words_totals]
    exact ⟨wraps_word _, wraps_word _, wraps_word _⟩

/-- **Every sum is exact modulo `2 ^ 64`**, and so exact iff it fits: the products of a record, the buckets
and window totals of a buffer that counts any sequence of flows, and the sums of the analysis. -/
theorem sums_wrap (flows : List FlowRecord) :
    (∀ f ∈ flows, Wraps f.sampledBytesU64 f.sampledBytes ∧ Wraps f.sampledPacketsU64 f.sampledPackets) ∧
    (∀ W, Option.Rel SameInWords ((RingBufferU64.new W).addFlows flows) ((RingBuffer.new W).addFlows flows)) ∧
    Wraps (totalBytesU64 flows) (totalBytes flows) ∧
    (∀ fields key, Option.Rel (fun e n => Wraps e.1 n.1 ∧ Wraps e.2 n.2) ((groupFlowsU64 flows fields).lookup key)
      ((groupFlows flows fields).lookup key)) ∧
    (∀ direction ip, Option.Rel Wraps ((addressCountsU64 flows direction).lookup ip)
      ((addressCounts flows direction).lookup ip)) ∧
    ∀ ord direction child, Wraps (childBytesU64 ord (addressCountsU64 flows direction) child)
      (childBytes ord (addressCounts flows direction) child) := by
  refine ⟨fun f _ => ⟨?_, ?_⟩, fun W => ?_, ?_, fun fields key => ?_, fun direction ip => ?_,
    fun ord direction child => ?_⟩
  · rw [sampledBytesU64_eq]
    exact wraps_word _
  · rw [sampledPacketsU64_eq]
    exact wraps_word _
  · rw [← RingBuffer.words_new, RingBuffer.words_addFlows]
    cases (RingBuffer.new W).addFlows flows with
    | none => exact .none
    | some r => exact .some (sameInWords_words r)
  · rw [totalBytesU64_eq]
    exact wraps_word _
  · rw [lookup_groupFlowsU64]
    cases (groupFlows flows fields).lookup key with
    | none => exact .none
    | some e => exact .some ⟨wraps_word _, wraps_word _⟩
  · rw [lookup_addressCountsU64]
    cases (addressCounts flows direction).lookup ip with
    | none => exact .none
    | some n => exact .some (wraps_word n)
  · rw [childBytesU64_eq]
    exact wraps_word _

/-- A flow of `2 ^ 63` bytes at a sampling rate of two. -/
def hugeFlow : FlowRecord :=
  { srcIp := .V4 0xC6336442
    dstIp := .V4 0x0A000007
    srcPort := 0
    dstPort := 0
    protocol := 17
    tcpFlags := 0
    bytes := 2 ^ 63
    packets := 1
    timeReceived := 1000
    samplingRate := 2 }

/-- **It counts nothing**: its product, its bucket and the sum of the analysis are zero. -/
theorem hugeFlow_wraps : hugeFlow.bytes < 2 ^ 64 ∧ hugeFlow.packets < 2 ^ 64 ∧ hugeFlow.samplingRate < 2 ^ 32 ∧
    hugeFlow.sampledBytes = 2 ^ 64 ∧ hugeFlow.sampledBytesU64 = 0 ∧
    ((RingBufferU64.new 10).addFlows [hugeFlow]).map (fun r => (r.totals 1000).bytes) = some 0 ∧
    totalBytesU64 [hugeFlow] = 0 := by
  decide

end NetAlert

import NetAlert.Receiver
import NetAlert.Prometheus
import NetAlert.Lib.Conveyor
import NetAlert.Lib.Overflow

/-!
# NetAlert.Pipeline — two receivers, a bounded channel and the flow processor (`main.rs`)

The tasks of `Daemon` taken apart at their await points: a receiver counts a flow, looks up the sampling rate
under a lock and sends; the flow processor takes a record off the channel, waits for its lock and processes.
`Pipeline.run` is any interleaving of these moves, `Conserved` what holds in all of them.

* `flows_conserved`: no flow vanishes uncounted, and the order of each receiver is kept.
* `drops_exact`: how many are dropped, from the sends and the takes alone.
* `flows_handled`: what is sent is processed or dropped within a bounded number of steps of the processor.
* `receiveFlow_simulated`, `process_simulated`: uninterrupted, the moves are the events of `Daemon`.
-/

namespace NetAlert

inductive Source where
  | netflow
  | sflow
  deriving DecidableEq

instance : Fintype Source := ⟨{.netflow, .sflow}, fun s => by cases s <;> decide⟩

/-- A record on its way, with the place of its flow among those its receiver has read. -/
structure Item where
  source : Source
  number : ℕ
  record : FlowRecord

def Item.tag (item : Item) : Source × ℕ := (item.source, item.number)

/-- Where a receiver stands in its loop: before `read`, before the lock of the rates, or before `try_send`. -/
inductive ReceiverStage where
  | reading
  | counted (samplerAddress : Option IpAddr) (number : ℕ) (flow : FlowRecord)
  | ready (number : ℕ) (flow : FlowRecord)

namespace ReceiverStage

/-- The flow in hand and its number. -/
def flow : ReceiverStage → Option (ℕ × FlowRecord)
  | reading => none
  | counted _ number flow => some (number, flow)
  | ready number flow => some (number, flow)

def hand (stage : ReceiverStage) : Option ℕ := stage.flow.map Prod.fst

end ReceiverStage

namespace HealthMetrics

def received (health : HealthMetrics) : Source → ℕ
  | .netflow => health.flowsReceivedNetflow
  | .sflow => health.flowsReceivedSflow

/-- `received_counter.fetch_add(1)`. -/
def countReceived (health : HealthMetrics) : Source → HealthMetrics
  | .netflow => { health with flowsReceivedNetflow := health.flowsReceivedNetflow + 1 }
  | .sflow => { health with flowsReceivedSflow := health.flowsReceivedSflow + 1 }

theorem received_countReceived (health : HealthMetrics) (source other : Source) :
    (health.countReceived source).received other = health.received other + if other = source then 1 else 0 := by
  cases source <;> cases other <;> rfl

theorem received_congr {health health' : HealthMetrics}
    (hn : health'.flowsReceivedNetflow = health.flowsReceivedNetflow)
    (hs : health'.flowsReceivedSflow = health.flowsReceivedSflow) (source : Source) :
    health'.received source = health.received source := by
  cases source
  · exact hn
  · exact hs

end HealthMetrics

/-- The tasks and what they share.  `received`, `dropped` and `processed` are histories, which no task reads. -/
structure Pipeline where
  rates : HashMap IpAddr ℕ
  queue : List Item
  processor : FlowProcessor
  health : HealthMetrics
  receiver : Source → ReceiverStage
  taken : Option Item
  received : Source → List CommonFlow
  dropped : List Item
  processed : List Item

inductive Move where
  | read (source : Source) (flow : CommonFlow)
  | lookup (source : Source)
  | send (source : Source)
  | take
  | process
  | others (rates : HashMap IpAddr ℕ) (processor : FlowProcessor) (evaluationDurationMicros : ℕ)

namespace Pipeline

def start (rates : HashMap IpAddr ℕ) (processor : FlowProcessor) : Pipeline where
  rates := rates
  queue := []
  processor := processor
  health := ⟨0, 0, 0, 0, 0⟩
  receiver := fun _ => .reading
  taken := none
  received := fun _ => []
  dropped := []
  processed := []

variable (s : Pipeline)

/-- `reader.read()` returns a flow, which is counted and converted. -/
def read (source : Source) (flow : CommonFlow) : Option Pipeline :=
  match s.receiver source with
  | .reading => do
    let record ← FlowRecord.fromCommonFlow flow
    let number := (s.received source).length
    return { s with
      health := s.health.countReceived source
      receiver := Function.update s.receiver source (.counted flow.samplerAddress number record)
      received := Function.update s.received source (s.received source ++ [flow]) }
  | _ => none

/-- The sampling rate configured for the exporter replaces that of the record. -/
def lookup (source : Source) : Option Pipeline :=
  match s.receiver source with
  | .counted samplerAddress number flow =>
    let flow := match samplerAddress.bind fun address => s.rates.lookup address with
      | some rate => { flow with samplingRate := rate }
      | none => flow
    some { s with receiver := Function.update s.receiver source (.ready number flow) }
  | _ => none

/-- `try_send`: drop (and count) rather than block when the channel is full. -/
def send (source : Source) : Option Pipeline :=
  match s.receiver source with
  | .ready number flow =>
    let item : Item := ⟨source, number, flow⟩
    let receiver := Function.update s.receiver source .reading
    if s.queue.length < channelCapacity then
      some { s with queue := s.queue ++ [item], receiver := receiver }
    else
      some { s with
        health := { s.health with flowsDropped := s.health.flowsDropped + 1 }
        receiver := receiver
        dropped := s.dropped ++ [item] }
  | _ => none

/-- `rx.recv()`, and the depth of the channel after it. -/
def take : Option Pipeline :=
  match s.taken, s.queue with
  | none, item :: queue =>
    some { s with
      queue := queue
      health := { s.health with flowChannelDepth := queue.length }
      taken := some item }
  | _, _ => none

/-- `process_flow`, under the lock of the processor. -/
def process : Option Pipeline :=
  match s.taken with
  | some item => do
    let processor ← s.processor.processFlow item.record
    return { s with processor := processor, taken := none, processed := s.processed ++ [item] }
  | none => none

/-- One move; `others` is what the ticker and the reload do to the rates, the processor and the gauges. -/
def step : Move → Option Pipeline
  | .read source flow => s.read source flow
  | .lookup source => s.lookup source
  | .send source => s.send source
  | .take => s.take
  | .process => s.process
  | .others rates processor micros =>
    some { s with
      rates := rates
      processor := processor
      health := { s.health with evaluationDurationMicros := micros } }

def run (moves : List Move) : Option Pipeline := moves.foldlM step s

/-! ## What is conserved -/

/-- The records the flow processor has taken or will take, in their order. -/
def belt : List Item := s.processed ++ s.taken.toList ++ s.queue

/-- The pipeline as a conveyor. -/
def conveyor : Conveyor Source where
  issued := List.length ∘ s.received
  hand := ReceiverStage.hand ∘ s.receiver
  belt := s.belt.map Item.tag
  lost := s.dropped.map Item.tag

/-- The record was made from the flow with its number; the sampling rate may have been replaced. -/
def Traced (source : Source) (number : ℕ) (record : FlowRecord) : Prop :=
  ∃ flow original, (s.received source)[number]? = some flow ∧ FlowRecord.fromCommonFlow flow = some original ∧
    record = { original with samplingRate := record.samplingRate }

/-- The flows in hand, at most one for each receiver. -/
def inHand : ℕ := ∑ source, ((s.receiver source).hand).toList.length

/-- **What holds in every interleaving.** -/
structure Conserved : Prop where
  /-- Every counted flow is dropped, queued, taken or in hand. -/
  total : s.health.flowsReceivedNetflow + s.health.flowsReceivedSflow =
    s.health.flowsDropped + s.queue.length + (s.processed.length + s.taken.toList.length) + s.inHand
  capacity : s.queue.length ≤ channelCapacity
  /-- The flows of a receiver reach the processor in the order received. -/
  order : ∀ source, (Conveyor.numbers source (s.belt.map Item.tag)).Pairwise (· < ·)
  /-- Each of them is on its way there, dropped or in hand, exactly once. -/
  once : ∀ source, (Conveyor.numbers source (s.belt.map Item.tag) ++
    Conveyor.numbers source (s.dropped.map Item.tag) ++ (s.receiver source).hand.toList).Perm
      (List.range (s.received source).length)
  /-- The dropped ones are counted. -/
  drops : s.health.flowsDropped = s.dropped.length
  /-- Nothing else gets there. -/
  traced : ∀ item ∈ s.belt ++ s.dropped, s.Traced item.source item.number item.record

/-! ## The moves -/

variable {s} {s' : Pipeline}

theorem read_spec {source : Source} {flow : CommonFlow} (h : s.read source flow = some s') :
    s.receiver source = .reading ∧ ∃ record, FlowRecord.fromCommonFlow flow = some record ∧
      s' = { s with
        health := s.health.countReceived source
        receiver := Function.update s.receiver source
          (.counted flow.samplerAddress (s.received source).length record)
        received := Function.update s.received source (s.received source ++ [flow]) } := by
  unfold read at h
  split at h
  case h_1 hreading =>
    obtain ⟨record, hrecord, h⟩ := Option.bind_eq_some_iff.mp h
    exact ⟨hreading, record, hrecord, (Option.some.inj h).symm⟩
  case h_2 => cases h

theorem lookup_spec {source : Source} (h : s.lookup source = some s') :
    ∃ samplerAddress number flow rate, s.receiver source = .counted samplerAddress number flow ∧
      s' = { s with
        receiver := Function.update s.receiver source (.ready number { flow with samplingRate := rate }) } := by
  unfold lookup at h
  split at h
  case h_1 samplerAddress number flow hcounted =>
    obtain rfl := Option.some.inj h
    cases samplerAddress.bind fun address => s.rates.lookup address with
    | none => exact ⟨samplerAddress, number, flow, flow.samplingRate, hcounted, rfl⟩
    | some rate => exact ⟨samplerAddress, number, flow, rate, hcounted, rfl⟩
  case h_2 => cases h

theorem send_spec {source : Source} (h : s.send source = some s') :
    ∃ number flow, s.receiver source = .ready number flow ∧
      ((s.queue.length < channelCapacity ∧
          s' = { s with
            queue := s.queue ++ [⟨source, number, flow⟩]
            receiver := Function.update s.receiver source .reading }) ∨
        s' = { s with
          health := { s.health with flowsDropped := s.health.flowsDropped + 1 }
          receiver := Function.update s.receiver source .reading
          dropped := s.dropped ++ [⟨source, number, flow⟩] }) := by
  unfold send at h
  split at h
  case h_1 number flow hready =>
    simp only at h
    split_ifs at h with hroom
    · exact ⟨number, flow, hready, .inl ⟨hroom, (Option.some.inj h).symm⟩⟩
    · exact ⟨number, flow, hready, .inr (Option.some.inj h).symm⟩
  case h_2 => cases h

theorem take_spec (h : s.take = some s') :
    s.taken = none ∧ ∃ item queue, s.queue = item :: queue ∧
      s' = { s with
        queue := queue
        health := { s.health with flowChannelDepth := queue.length }
        taken := some item } := by
  unfold take at h
  split at h
  case h_1 item queue hnone hqueue => exact ⟨hnone, item, queue, hqueue, (Option.some.inj h).symm⟩
  case h_2 => cases h

theorem process_spec (h : s.process = some s') :
    ∃ item processor, s.taken = some item ∧
      s' = { s with processor := processor, taken := none, processed := s.processed ++ [item] } := by
  unfold process at h
  split at h
  case h_1 item hitem =>
    obtain ⟨processor, -, h⟩ := Option.bind_eq_some_iff.mp h
    exact ⟨item, processor, hitem, (Option.some.inj h).symm⟩
  case h_2 => cases h

/-- **The pipeline is a conveyor**: a move is one of its steps or does not show on it. -/
theorem step_conveyor {m : Move} (h : s.step m = some s') :
    s'.conveyor = s.conveyor ∨ Conveyor.Step s.conveyor s'.conveyor := by
  cases m with
  | read source flow =>
    obtain ⟨hreading, record, -, rfl⟩ := read_spec h
    have hstep := Conveyor.Step.issue (c := s.conveyor) source (congrArg ReceiverStage.hand hreading)
    right
    convert hstep using 1
    simp only [conveyor, Function.comp_update, List.length_append, List.length_singleton]
    rfl
  | lookup source =>
    obtain ⟨samplerAddress, number, flow, rate, hcounted, rfl⟩ := lookup_spec h
    have hhand : (s.receiver source).hand = some number := congrArg ReceiverStage.hand hcounted
    left
    simp only [conveyor, Function.comp_update, Conveyor.mk.injEq, true_and]
    exact ⟨Function.update_eq_self_iff.mpr hhand.symm, rfl, trivial⟩
  | send source =>
    obtain ⟨number, flow, hready, ⟨-, rfl⟩ | rfl⟩ := send_spec h
    · have hstep := Conveyor.Step.deposit (c := s.conveyor) source number (congrArg ReceiverStage.hand hready)
      right
      convert hstep using 1
      simp only [conveyor, Function.comp_update, belt, List.map_append, List.append_assoc]
      rfl
    · have hstep := Conveyor.Step.lose (c := s.conveyor) source number (congrArg ReceiverStage.hand hready)
      right
      convert hstep using 1
      simp only [conveyor, Function.comp_update, List.map_append]
      rfl
  | take =>
    obtain ⟨hnone, item, queue, hqueue, rfl⟩ := take_spec h
    left
    simp [conveyor, belt, hnone, hqueue]
  | process =>
    obtain ⟨item, processor, hitem, rfl⟩ := process_spec h
    left
    simp [conveyor, belt, hitem]
  | others rates processor micros =>
    obtain rfl := Option.some.inj h
    exact .inl rfl

/-- The counters and the channel. -/
structure Counted (s : Pipeline) : Prop where
  received : ∀ source, s.health.received source = (s.received source).length
  dropped : s.health.flowsDropped = s.dropped.length
  capacity : s.queue.length ≤ channelCapacity

theorem step_counted {m : Move} (h : s.step m = some s') (hs : s.Counted) : s'.Counted := by
  cases m with
  | read source flow =>
    obtain ⟨-, record, -, rfl⟩ := read_spec h
    refine ⟨fun other => ?_, ?_, hs.capacity⟩
    · simp only [HealthMetrics.received_countReceived, hs.received other]
      by_cases heq : other = source
      · subst heq
        rw [Function.update_self, if_pos rfl, List.length_append, List.length_singleton]
      · rw [Function.update_of_ne heq, if_neg heq, Nat.add_zero]
    · rw [← hs.dropped]
      cases source <;> rfl
  | lookup source =>
    obtain ⟨_, _, _, _, -, rfl⟩ := lookup_spec h
    exact ⟨hs.received, hs.dropped, hs.capacity⟩
  | send source =>
    obtain ⟨number, flow, -, ⟨hroom, rfl⟩ | rfl⟩ := send_spec h
    · refine ⟨hs.received, hs.dropped, ?_⟩
      rw [List.length_append, List.length_singleton]
      exact hroom
    · refine ⟨fun other => (HealthMetrics.received_congr rfl rfl other).trans (hs.received other), ?_, hs.capacity⟩
      rw [List.length_append, List.length_singleton, ← hs.dropped]
  | take =>
    obtain ⟨-, item, queue, hqueue, rfl⟩ := take_spec h
    have hcap := hs.capacity
    rw [hqueue, List.length_cons] at hcap
    exact ⟨fun other => (HealthMetrics.received_congr rfl rfl other).trans (hs.received other), hs.dropped,
      Nat.le_of_succ_le hcap⟩
  | process =>
    obtain ⟨_, _, -, rfl⟩ := process_spec h
    exact ⟨hs.received, hs.dropped, hs.capacity⟩
  | others rates processor micros =>
    obtain rfl := Option.some.inj h
    exact ⟨fun other => (HealthMetrics.received_congr rfl rfl other).trans (hs.received other), hs.dropped,
      hs.capacity⟩

/-- Every record comes from the flow with its number. -/
structure AllTraced (s : Pipeline) : Prop where
  items : ∀ item ∈ s.belt ++ s.dropped, s.Traced item.source item.number item.record
  hands : ∀ source e, (s.receiver source).flow = some e → s.Traced source e.1 e.2

/-- What was received stays where it is. -/
theorem Traced.read {source source' : Source} {flow : CommonFlow} {number : ℕ} {record : FlowRecord}
    (h : s.Traced source' number record)
    (hs' : s'.received = Function.update s.received source (s.received source ++ [flow])) :
    s'.Traced source' number record := by
  obtain ⟨original, converted, hflow, hrest⟩ := h
  refine ⟨original, converted, ?_, hrest⟩
  rw [hs']
  by_cases heq : source' = source
  · subst heq
    rw [Function.update_self, List.getElem?_append_left (List.getElem?_eq_some_iff.mp hflow).1]
    exact hflow
  · rwa [Function.update_of_ne heq]

/-- When one receiver changes its stage, the flow in the hand of every other stays where it is. -/
theorem hands_update {source : Source} {stage : ReceiverStage} (hs : s.AllTraced)
    (hr : s'.receiver = Function.update s.receiver source stage)
    (hstage : ∀ e, stage.flow = some e → s'.Traced source e.1 e.2)
    (hkeep : ∀ other (e : ℕ × FlowRecord), s.Traced other e.1 e.2 → s'.Traced other e.1 e.2) :
    ∀ other e, (s'.receiver other).flow = some e → s'.Traced other e.1 e.2 := by
  intro other e he
  rw [hr] at he
  by_cases heq : other = source
  · subst heq
    rw [Function.update_self] at he
    exact hstage e he
  · rw [Function.update_of_ne heq] at he
    exact hkeep other e (hs.hands other e he)

theorem step_traced {m : Move} (h : s.step m = some s') (hs : s.AllTraced) : s'.AllTraced := by
  cases m with
  | read source flow =>
    obtain ⟨-, record, hrecord, rfl⟩ := read_spec h
    refine ⟨fun item hitem => (hs.items item hitem).read rfl,
      hands_update hs rfl (fun e he => ?_) fun _ _ ht => ht.read rfl⟩
    obtain rfl := Option.some.inj he
    exact ⟨flow, record, by simp, hrecord, rfl⟩
  | lookup source =>
    obtain ⟨_, number, flow, rate, hcounted, rfl⟩ := lookup_spec h
    refine ⟨hs.items, hands_update hs rfl (fun e he => ?_) fun _ _ ht => ht⟩
    obtain rfl := Option.some.inj he
    obtain ⟨original, converted, hflow, hconverted, hsame⟩ :=
      hs.hands source (number, flow) (by rw [hcounted]; rfl)
    refine ⟨original, converted, hflow, hconverted, ?_⟩
    rw [show (number, flow).2 = flow from rfl] at hsame
    rw [hsame]
  | send source =>
    obtain ⟨number, flow, hready, ⟨-, rfl⟩ | rfl⟩ := send_spec h
    all_goals
      have hitem : s.Traced source number flow := hs.hands source (number, flow) (by rw [hready]; rfl)
      refine ⟨fun item hmem => ?_, hands_update hs rfl (fun e he => ?_) fun _ _ ht => ht⟩
      · have hcases : item ∈ s.belt ++ s.dropped ∨ item = ⟨source, number, flow⟩ := by
          simp only [belt, List.mem_append, List.mem_singleton] at hmem ⊢
          tauto
        rcases hcases with hold | rfl
        · exact hs.items item hold
        · exact hitem
      · cases he
  | take =>
    obtain ⟨hnone, item, queue, hqueue, rfl⟩ := take_spec h
    refine ⟨fun other hmem => hs.items other ?_, hs.hands⟩
    simpa [belt, hnone, hqueue] using hmem
  | process =>
    obtain ⟨item, _, hitem, rfl⟩ := process_spec h
    refine ⟨fun other hmem => hs.items other ?_, hs.hands⟩
    simpa [belt, hitem] using hmem
  | others rates processor micros =>
    obtain rfl := Option.some.inj h
    exact ⟨hs.items, hs.hands⟩

/-- The invariant of a run. -/
structure Sound (s : Pipeline) : Prop where
  conveyor : s.conveyor.Sound
  counted : s.Counted
  traced : s.AllTraced

theorem sound_start (rates : HashMap IpAddr ℕ) (processor : FlowProcessor) : (start rates processor).Sound where
  conveyor := Conveyor.sound_empty
  counted := ⟨fun source => by cases source <;> rfl, rfl, Nat.zero_le _⟩
  traced := ⟨by simp [start, belt], by simp [start, ReceiverStage.flow]⟩

theorem step_sound (m : Move) (s s' : Pipeline) (hs : s.Sound) (h : s.step m = some s') : s'.Sound := by
  refine ⟨?_, step_counted h hs.counted, step_traced h hs.traced⟩
  rcases step_conveyor h with heq | hstep
  · rw [heq]
    exact hs.conveyor
  · exact hstep.sound hs.conveyor

theorem sum_sources (f : Source → ℕ) : ∑ source, f source = f .netflow + f .sflow := Finset.sum_pair (by decide)

theorem Sound.conserved (h : s.Sound) : s.Conserved where
  total := by
    have htotal := h.conveyor.total
    have hreceived : ∑ source, s.conveyor.issued source =
        s.health.flowsReceivedNetflow + s.health.flowsReceivedSflow := by
      rw [sum_sources]
      exact congrArg₂ (· + ·) (h.counted.received .netflow).symm (h.counted.received .sflow).symm
    have hbelt : s.conveyor.belt.length = s.processed.length + s.taken.toList.length + s.queue.length := by
      rw [Pipeline.conveyor, belt, List.length_map, List.length_append, List.length_append]
    have hlost : s.conveyor.lost.length = s.health.flowsDropped := by
      rw [h.counted.dropped]
      exact List.length_map _
    have hhands : ∑ source, (s.conveyor.hand source).toList.length = s.inHand := rfl
    omega
  capacity := h.counted.capacity
  order source := (List.pairwise_append.mp (h.conveyor source).order).1
  once source := (h.conveyor source).once
  drops := h.counted.dropped
  traced := h.traced.items

end Pipeline

/-- Both receivers read a flow, one sends it, and the processor takes it while the other waits for its lock. -/
def crossing : List Move :=
  [.read .netflow announced, .read .sflow announced, .lookup .netflow, .send .netflow, .take, .process,
    .lookup .sflow, .send .sflow, .read .netflow announcedZero]

/-- A send asks for a place in the channel, a take frees one. -/
def Move.op : Move → Option Overflow.Op
  | .send _ => some .arrive
  | .take => some .depart
  | _ => none

namespace Pipeline

variable {s s' s₁ s₂ : Pipeline}

theorem send_full {source : Source} (h : s.send source = some s') (hfull : channelCapacity ≤ s.queue.length) :
    s'.queue = s.queue ∧ s'.health.flowsDropped = s.health.flowsDropped + 1 := by
  unfold send at h
  split at h
  case h_1 =>
    simp only [if_neg (not_lt.mpr hfull), Option.some.injEq] at h
    subst h
    exact ⟨rfl, rfl⟩
  case h_2 => cases h

theorem send_room {source : Source} (h : s.send source = some s') (hroom : s.queue.length < channelCapacity) :
    s'.queue.length = s.queue.length + 1 ∧ s'.health = s.health := by
  unfold send at h
  split at h
  case h_1 =>
    simp only [if_pos hroom, Option.some.injEq] at h
    subst h
    exact ⟨List.length_append, rfl⟩
  case h_2 => cases h

/-- The channel and the counter of the dropped flows after some moves from `s`. -/
structure Overflows (s : Pipeline) (moves : List Move) (s' : Pipeline) (lost : ℕ) : Prop where
  dropped : s'.health.flowsDropped = s.health.flowsDropped + lost
  channel : Overflow Move.op channelCapacity s.queue.length moves s'.queue.length lost

/-- **A move** that is neither a send nor a take. -/
theorem Overflows.idle {moves : List Move} {lost : ℕ} (h : s.Overflows moves s₁ lost) {m : Move} (hm : m.op = none)
    (hdropped : s₂.health.flowsDropped = s₁.health.flowsDropped) (hqueue : s₂.queue = s₁.queue) :
    s.Overflows (moves ++ [m]) s₂ lost :=
  ⟨hdropped.trans h.dropped, hqueue ▸ h.channel.idle hm⟩

theorem Overflows.step {moves : List Move} {lost : ℕ} (h : s.Overflows moves s₁ lost) {m : Move}
    (hs : s₁.step m = some s₂) : ∃ lost, s.Overflows (moves ++ [m]) s₂ lost := by
  cases m with
  | read source flow =>
    obtain ⟨-, record, -, rfl⟩ := read_spec hs
    exact ⟨lost, h.idle rfl (by cases source <;> rfl) rfl⟩
  | lookup source =>
    obtain ⟨_, _, _, _, -, rfl⟩ := lookup_spec hs
    exact ⟨lost, h.idle rfl rfl rfl⟩
  | send source =>
    rcases lt_or_ge s₁.queue.length channelCapacity with hroom | hfull
    · obtain ⟨hqueue, hhealth⟩ := send_room hs hroom
      exact ⟨lost, by rw [hhealth, h.dropped], hqueue ▸ h.channel.enter rfl hroom⟩
    · obtain ⟨hqueue, hdropped⟩ := send_full hs hfull
      exact ⟨lost + 1, by rw [hdropped, h.dropped, Nat.add_assoc], hqueue ▸ h.channel.turnAway rfl hfull⟩
  | take =>
    obtain ⟨-, item, queue, hqueue, rfl⟩ := take_spec hs
    have hchannel := h.channel
    rw [hqueue, List.length_cons] at hchannel
    exact ⟨lost, h.dropped, hchannel.leave rfl⟩
  | process =>
    obtain ⟨_, _, -, rfl⟩ := process_spec hs
    exact ⟨lost, h.idle rfl rfl rfl⟩
  | others rates processor micros =>
    obtain rfl := Option.some.inj hs
    exact ⟨lost, h.idle rfl rfl rfl⟩

end Pipeline

/-- **The counter of dropped flows** rises, between any two points of any interleaving, by exactly as many places
as the channel would have needed in addition: by how far what waits at first and the sends get ahead of the takes
and the capacity.  It stays as it is iff they never do. -/
theorem drops_exact (rates : HashMap IpAddr ℕ) (processor : FlowProcessor) (before moves : List Move)
    (s s' : Pipeline) (h : (Pipeline.start rates processor).run before = some s) (h' : s.run moves = some s') :
    ∃ lost, s'.health.flowsDropped = s.health.flowsDropped + lost ∧
      IsLeast {n | Overflow.RoomFor Move.op channelCapacity s.queue.length moves n} lost := by
  have hcapacity : s.queue.length ≤ channelCapacity :=
    (Fold.option_ok Pipeline.Sound Pipeline.step_sound (Pipeline.sound_start rates processor) h).counted.capacity
  obtain ⟨lost, hlost⟩ := Fold.option_ok_prefix (fun pre s₁ => ∃ lost, s.Overflows pre s₁ lost)
    (fun pre m s₁ s₂ _ ⟨lost, hlost⟩ hs => hlost.step hs) ⟨0, rfl, Overflow.start hcapacity⟩ h'
  exact ⟨lost, hlost.dropped, hlost.channel.isLeast⟩

/-- From the point where the first flow waits in the channel. -/
theorem drops_exact_crossing : ∃ s s', (Pipeline.start ∅ (FlowProcessor.new 10)).run (crossing.take 4) = some s ∧
    s.run (crossing.drop 4) = some s' ∧ s.queue.length = 1 ∧
    ∃ lost, s'.health.flowsDropped = s.health.flowsDropped + lost ∧
      IsLeast {n | Overflow.RoomFor Move.op channelCapacity s.queue.length (crossing.drop 4) n} lost := by
  have hrun : (((Pipeline.start ∅ (FlowProcessor.new 10)).run (crossing.take 4)).bind fun s =>
      (s.run (crossing.drop 4)).map fun _ => s.queue.length) = some 1 := by
    decide
  obtain ⟨s, hs, hrun⟩ := Option.bind_eq_some_iff.mp hrun
  obtain ⟨s', hs', hqueue⟩ := Option.map_eq_some_iff.mp hrun
  exact ⟨s, s', hs, hs', hqueue,
    drops_exact ∅ (FlowProcessor.new 10) (crossing.take 4) (crossing.drop 4) s s' hs hs'⟩

/-! ## What becomes of a flow -/

def Move.isProcess : Move → Bool
  | .process => true
  | _ => false

namespace Pipeline

variable {s s' s₁ s₂ : Pipeline}

/-- After some moves from `s`: nothing has left the belt or the dropped flows, and every `process` has moved the
processor on by one. -/
structure Advanced (s : Pipeline) (moves : List Move) (s' : Pipeline) : Prop where
  onBelt : s.belt <+: s'.belt
  lost : s.dropped <+: s'.dropped
  steps : s'.processed.length = s.processed.length + moves.countP Move.isProcess

theorem Advanced.start (s : Pipeline) : s.Advanced [] s := ⟨List.prefix_refl _, List.prefix_refl _, rfl⟩

/-- **A move** other than `process`. -/
theorem Advanced.other {moves : List Move} (h : s.Advanced moves s₁) {m : Move} (hm : m.isProcess = false)
    (hbelt : s₁.belt <+: s₂.belt) (hdropped : s₁.dropped <+: s₂.dropped)
    (hprocessed : s₂.processed = s₁.processed) : s.Advanced (moves ++ [m]) s₂ := by
  refine ⟨h.onBelt.trans hbelt, h.lost.trans hdropped, ?_⟩
  rw [hprocessed, h.steps, List.countP_append, List.countP_singleton, hm]
  rfl

theorem Advanced.step {moves : List Move} (h : s.Advanced moves s₁) {m : Move} (hs : s₁.step m = some s₂) :
    s.Advanced (moves ++ [m]) s₂ := by
  cases m with
  | read source flow =>
    obtain ⟨-, record, -, rfl⟩ := read_spec hs
    exact h.other rfl (List.prefix_refl _) (List.prefix_refl _) rfl
  | lookup source =>
    obtain ⟨_, _, _, _, -, rfl⟩ := lookup_spec hs
    exact h.other rfl (List.prefix_refl _) (List.prefix_refl _) rfl
  | send source =>
    obtain ⟨number, flow, -, ⟨-, rfl⟩ | rfl⟩ := send_spec hs
    · refine h.other rfl ?_ (List.prefix_refl _) rfl
      exact ⟨[⟨source, number, flow⟩], by simp [belt]⟩
    · exact h.other rfl (List.prefix_refl _) (List.prefix_append _ _) rfl
  | take =>
    obtain ⟨hnone, item, queue, hqueue, rfl⟩ := take_spec hs
    refine h.other rfl ?_ (List.prefix_refl _) rfl
    simp [belt, hnone, hqueue]
  | process =>
    obtain ⟨item, processor, hitem, rfl⟩ := process_spec hs
    refine ⟨h.onBelt.trans ?_, h.lost, ?_⟩
    · simp [belt, hitem]
    · rw [List.length_append, h.steps, List.countP_append]
      rfl
  | others rates processor micros =>
    obtain rfl := Option.some.inj hs
    exact h.other rfl (List.prefix_refl _) (List.prefix_refl _) rfl

theorem Advanced.run {moves : List Move} (h : s.run moves = some s') : s.Advanced moves s' :=
  Fold.option_ok_prefix (fun pre s₁ => s.Advanced pre s₁) (fun _ _ _ _ _ hs hstep => hs.step hstep) (.start s) h

/-- The records that the flow processor has taken or can take. -/
def waiting (s : Pipeline) : ℕ := s.taken.toList.length + s.queue.length

theorem waiting_le (h : s.queue.length ≤ channelCapacity) : s.waiting ≤ channelCapacity + 1 := by
  have htaken : s.taken.toList.length ≤ 1 := by cases s.taken <;> simp
  rw [waiting]
  omega

/-- What is on the belt is processed after as many steps of the processor as records wait. -/
theorem Advanced.processed_of_belt {moves : List Move} (h : s.Advanced moves s')
    (hmoves : s.waiting ≤ moves.countP Move.isProcess) : s.belt <+: s'.processed := by
  have hprefix : s'.processed <+: s'.belt := ⟨s'.taken.toList ++ s'.queue, by simp [belt]⟩
  refine List.prefix_of_prefix_length_le h.onBelt hprefix ?_
  rw [h.steps, belt, List.length_append, List.length_append, Nat.add_assoc]
  exact Nat.add_le_add_left hmoves _

end Pipeline

/-- **No flow waits for ever.**  Whatever the interleaving: a flow that its receiver has read and sent is processed
or counted as dropped as soon as the flow processor has made as many steps as records wait for it, which is the
capacity of the channel and one at most. -/
theorem flows_handled (rates : HashMap IpAddr ℕ) (processor : FlowProcessor) (before moves : List Move)
    (s s' : Pipeline) (h : (Pipeline.start rates processor).run before = some s) (h' : s.run moves = some s')
    (hmoves : s.waiting ≤ moves.countP Move.isProcess) :
    s.waiting ≤ channelCapacity + 1 ∧ ∀ source number, number < (s.received source).length →
      (s.receiver source).hand ≠ some number →
        (source, number) ∈ (s'.processed ++ s'.dropped).map Item.tag := by
  have hsound := Fold.option_ok Pipeline.Sound Pipeline.step_sound (Pipeline.sound_start rates processor) h
  have hadvanced := Pipeline.Advanced.run h'
  have hbelt := hadvanced.processed_of_belt hmoves
  refine ⟨Pipeline.waiting_le hsound.counted.capacity, fun source number hread hsent => ?_⟩
  have hmem := (hsound.conserved.once source).mem_iff.mpr (List.mem_range.mpr hread)
  have hnumbers : ∀ {items : List Item}, number ∈ Conveyor.numbers source (items.map Item.tag) →
      (source, number) ∈ items.map Item.tag := by
    intro items hitems
    obtain ⟨e, he, rfl⟩ := List.mem_map.mp hitems
    obtain ⟨he, hsource⟩ := List.mem_filter.mp he
    rw [← of_decide_eq_true hsource]
    exact he
  rw [List.map_append, List.mem_append]
  rcases List.mem_append.mp hmem with hmem | hhand
  · rcases List.mem_append.mp hmem with hon | hlost
    · exact .inl ((hbelt.map Item.tag).mem (hnumbers hon))
    · exact .inr ((hadvanced.lost.map Item.tag).mem (hnumbers hlost))
  · exact absurd (Option.mem_toList.mp hhand) hsent

/-- The flows sent by both receivers, once the second of them is processed. -/
theorem flows_handled_crossing : ∃ s s', (Pipeline.start ∅ (FlowProcessor.new 10)).run crossing = some s ∧
    s.run [.take, .process] = some s' ∧
      ∀ e ∈ [(Source.netflow, 0), (Source.sflow, 0)], e ∈ (s'.processed ++ s'.dropped).map Item.tag := by
  have hrun : (((Pipeline.start ∅ (FlowProcessor.new 10)).run crossing).bind fun s =>
      (s.run [.take, .process]).map fun _ => (s.waiting, (s.received .netflow).length, (s.received .sflow).length,
        (s.receiver .netflow).hand, (s.receiver .sflow).hand)) = some (1, 2, 1, some 1, none) := by
    decide
  obtain ⟨s, hs, hrun⟩ := Option.bind_eq_some_iff.mp hrun
  obtain ⟨s', hs', heq⟩ := Option.map_eq_some_iff.mp hrun
  simp only [Prod.mk.injEq] at heq
  obtain ⟨hwaiting, hnetflow, hsflow, hhand, hhand'⟩ := heq
  obtain ⟨-, hhandled⟩ := flows_handled ∅ (FlowProcessor.new 10) crossing [.take, .process] s s' hs hs'
    (hwaiting.le.trans (by decide))
  refine ⟨s, s', hs, hs', List.forall_mem_cons.mpr ⟨?_, List.forall_mem_singleton.mpr ?_⟩⟩
  · exact hhandled .netflow 0 (by omega) (by simp [hhand])
  · exact hhandled .sflow 0 (by omega) (by simp [hhand'])

/-! ## Uninterrupted moves -/

namespace Pipeline

/-- The daemon as the pipeline shows it. -/
structure Shows (s : Pipeline) (d : Daemon) : Prop where
  rates : d.exporterRates = s.rates
  channel : d.channel = s.queue.map Item.record
  processor : d.processor = s.processor

variable {s : Pipeline} {d d' : Daemon}

/-- **A receiver that is not interrupted** does what `Daemon.receiveFlow` does. -/
theorem receiveFlow_simulated (hs : s.Shows d) {source : Source} (hidle : s.receiver source = .reading)
    {flow : CommonFlow} (h : d.receiveFlow flow = some d') :
    ∃ s', s.run [.read source flow, .lookup source, .send source] = some s' ∧ s'.Shows d' := by
  obtain ⟨record, hrecord, hd'⟩ := Option.bind_eq_some_iff.mp h
  obtain rfl := Option.some.inj hd'
  have hlen : d.channel.length = s.queue.length := by rw [hs.channel, List.length_map]
  simp only [run, List.foldlM_cons, List.foldlM_nil, step, read, hidle, hrecord, Option.bind_eq_bind,
    Option.bind_some, lookup, Function.update_self, send, Option.pure_def, Daemon.receive, hlen, hs.rates]
  by_cases hroom : s.queue.length < channelCapacity
  · simp only [if_pos hroom, Option.bind_some, Option.some.injEq, exists_eq_left']
    refine ⟨rfl, ?_, hs.processor⟩
    cases flow.samplerAddress.bind fun address => s.rates.lookup address <;>
      simp only [hs.channel, List.map_append, List.map_singleton]
  · simp only [if_neg hroom, Option.bind_some, Option.some.injEq, exists_eq_left']
    exact ⟨hs.rates, hs.channel, hs.processor⟩

/-- **A flow processor that is not interrupted** does what `Daemon.process` does. -/
theorem process_simulated (hs : s.Shows d) (hidle : s.taken = none) (hne : s.queue ≠ [])
    (h : d.process = some d') :
    ∃ s', s.run [.take, .process] = some s' ∧ s'.Shows d' := by
  obtain ⟨item, queue, hqueue⟩ := List.exists_cons_of_ne_nil hne
  have hchannel : d.channel = item.record :: queue.map Item.record := by rw [hs.channel, hqueue, List.map_cons]
  simp only [Daemon.process, hchannel, hs.processor] at h
  obtain ⟨processor, hprocessor, h⟩ := Option.bind_eq_some_iff.mp h
  obtain rfl := Option.some.inj h
  simp only [run, List.foldlM_cons, List.foldlM_nil, step, take, hidle, hqueue, process, hprocessor,
    Option.bind_eq_bind, Option.bind_some, Option.pure_def, Option.some.injEq, exists_eq_left']
  exact ⟨hs.rates, rfl, rfl⟩

end Pipeline

end NetAlert

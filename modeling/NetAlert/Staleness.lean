import NetAlert.Lib.QueueLog
import NetAlert.SteadyReload
import NetAlert.TickOrder

/-!
# NetAlert.Staleness — captured flows older than the window

Captures are bounded by their number and rates by time.  A capture buffer is emptied of a key only when an alert
of the key fires or updates, not when one resolves, so what it captured since then waits for the next fire,
however long ago it was received.

* `Logged`: along a run, a capture buffer holds what the log of its captures and drains leaves in it.
* `analyzed_eq_some`: the loop of `evaluate` analyses what the buffers of a key held when the tick began.
* `analyzes_window_iff`: all flows that are analysed in a run were received in the window of their tick if and
  only if all that wait for a fire or update were.
-/

namespace NetAlert

variable {T : IpText}

/-- The flow was received in the window that ends with `currentTime`. -/
def FlowRecord.InWindow (windowSecs currentTime : ℕ) (flow : FlowRecord) : Prop :=
  flow.timeReceived ≤ currentTime ∧ currentTime < flow.timeReceived + windowSecs

namespace Daemon

variable (T)

/-- The flows that the loop of `evaluate` passes to `analyze_flows` for the `j`-th alert. -/
def analyzed (orders : TickOrders) (d : Daemon) (currentTime : ℕ) (now : Instant) (j : ℕ) :
    Option (List FlowRecord) := do
  let snapshots := d.processor.computeAllRates T orders.rates currentTime
  let a ← d.alertManager.alerts[j]?
  let t := (evaluateAlerts T orders.analysis snapshots now ⟨d.processor, ∅, [], d.issued⟩
    (d.alertManager.alerts.take j)).1
  let flows := (t.drain T a.ipPrefix a.direction).1
  if a.Asks snapshots now ∧ flows ≠ [] ∧ (T.parse a.ipPrefix).isSome then some flows else none

/-- What the `r`-th rule captures in an event. -/
def capturedIn (d : Daemon) (r : ℕ) : Event → Option CapturedFlow
  | .process => do
    let flow ← d.channel.head?
    let rule ← d.processor.rules[r]?
    let direction ← flow.directionFor rule.network.contains
    if rule.buffers.keys.any (fun k => k.direction = direction) then some ⟨flow, direction⟩ else none
  | _ => none

/-- The event takes the captured flow out of the `r`-th rule: an alert of its key fires or updates, or a
configuration is loaded. -/
def takenIn (orders : TickOrders) (d : Daemon) (r : ℕ) (cf : CapturedFlow) : Event → Bool
  | .tick currentTime now => d.processor.rules[r]?.any fun rule =>
      (askedKeys (d.processor.computeAllRates T orders.rates currentTime) now d.alertManager.alerts).contains
        (T.net rule.ipPrefix, cf.direction)
  | .reload parsed => ((Config.load T parsed).toOption.bind fun config =>
      (d.processor.reloadConfig T config).toOption).isSome
  | _ => false

/-- What happens to the captures of the `r`-th rule in the events of a run. -/
def captureLog (orders : ℕ → TickOrders) (d : Daemon) (events : List Event) (r : ℕ) :
    Backlog.Log CapturedFlow where
  pushed k := do
    let s ← d.run T orders (events.take k)
    let e ← events[k]?
    s.1.capturedIn r e
  taken k cf :=
    match d.run T orders (events.take k), events[k]? with
    | some s, some e => s.1.takenIn T (orders k) r cf e
    | _, _ => false

/-- The run comes to the `k`-th event with the daemon `s`, and that event is a tick. -/
def TicksAt (orders : ℕ → TickOrders) (d : Daemon) (events : List Event) (k : ℕ) (s : Daemon) (currentTime : ℕ)
    (now : Instant) : Prop :=
  (d.run T orders (events.take k)).map Prod.fst = some s ∧ events[k]? = some (.tick currentTime now)

/-- In every tick of the run, all flows analysed for an alert were received in the window. -/
def AnalyzesWindow (orders : ℕ → TickOrders) (d : Daemon) (events : List Event) : Prop :=
  ∀ k s currentTime now, d.TicksAt T orders events k s currentTime now →
    ∀ j flows, s.analyzed T (orders k) currentTime now j = some flows →
      ∀ f ∈ flows, f.InWindow s.processor.windowSecs currentTime

/-- Whenever an alert fires or updates, the flows of its key that a rule of the prefix captured since the last time
were received in the window, but for those that newer captures displaced. -/
def WaitsInWindow (orders : ℕ → TickOrders) (d : Daemon) (events : List Event) : Prop :=
  ∀ k s currentTime now, d.TicksAt T orders events k s currentTime now →
    ∀ a ∈ s.alertManager.alerts, a.Asks (s.processor.computeAllRates T (orders k).rates currentTime) now →
      ∀ r rule, s.processor.rules[r]? = some rule → T.net rule.ipPrefix = a.ipPrefix →
        let log := d.captureLog T orders events r
        ∀ i < k, ∀ flow, log.waiting k i = some ⟨flow, a.direction⟩ →
          ¬ log.Displaced rule.captureBufferSize k i → flow.InWindow s.processor.windowSecs currentTime

end Daemon

open Daemon

/-! ## The log of a capture buffer -/

section Log

variable {orders : ℕ → TickOrders} {d s s' : Daemon} {events : List Event} {k : ℕ} {e : Event}
  {payloads : List (List AlertPayload)}

theorem captureLog_pushed (hs : d.run T orders (events.take k) = some (s, payloads)) (he : events[k]? = some e)
    (r : ℕ) : (d.captureLog T orders events r).pushed k = s.capturedIn r e := by
  simp only [captureLog, hs, he, Option.bind_eq_bind, Option.bind_some]

theorem captureLog_taken (hs : d.run T orders (events.take k) = some (s, payloads)) (he : events[k]? = some e)
    (r : ℕ) (cf : CapturedFlow) :
    (d.captureLog T orders events r).taken k cf = s.takenIn T (orders k) r cf e := by
  simp only [captureLog, hs, he]

/-- The processor that the run has before its `k`-th event: every capture buffer holds what its log leaves in
it. -/
structure Logged (T : IpText) (orders : ℕ → TickOrders) (d : Daemon) (events : List Event) (k : ℕ)
    (p : FlowProcessor) : Prop where
  table : TableOk p.rules p.prefixTable
  holds : ∀ r rule, p.rules[r]? = some rule →
    (d.captureLog T orders events r).Holds rule.captureBufferSize k rule.captureBuffer

/-- **Loading** a configuration empties all capture buffers. -/
theorem Logged.load {p : FlowProcessor} {c : Config} {p' : FlowProcessor} (hp : p.reloadConfig T c = .ok p')
    (hclear : ∀ r cap, (d.captureLog T orders events r).Holds cap k []) : Logged T orders d events k p' := by
  obtain ⟨hF, hT, -⟩ := reloadConfig_ok hp
  refine ⟨hT, fun r rule hr => ?_⟩
  obtain ⟨_, -, hbuilt⟩ := Relate.forall₂_left_of_mem hF (List.mem_of_getElem? hr)
  rw [hbuilt.capture]
  exact hclear r _

variable (hs : d.run T orders (events.take k) = some (s, payloads)) (he : events[k]? = some e)

include hs he

/-- An event that captures nothing and takes nothing out. -/
theorem Logged.idle (h : Logged T orders d events k s.processor) (hcaptured : ∀ r, s.capturedIn r e = none)
    (htaken : ∀ r cf, s.takenIn T (orders k) r cf e = false) : Logged T orders d events (k + 1) s.processor := by
  refine ⟨h.table, fun r rule hr => ?_⟩
  have hdrain := (h.holds r rule hr).drain (by rw [captureLog_pushed hs he, hcaptured])
  rwa [List.filter_eq_self.mpr fun cf _ => by rw [captureLog_taken hs he, htaken]; rfl] at hdrain

/-- **A flow** is pushed to the rules that capture it. -/
theorem Logged.flow (h : Logged T orders d events k s.processor) (hprocess : e = .process) {flow : FlowRecord}
    (hflow : s.channel.head? = some flow) {p : FlowProcessor} (hp : s.processor.processFlow flow = some p) :
    Logged T orders d events (k + 1) p := by
  subst hprocess
  obtain ⟨hT, -, hF⟩ := processFlow_ok h.table hp
  refine ⟨hT, fun r rule' hr' => ?_⟩
  obtain ⟨rule, hr, hroute⟩ := Relate.forall₂_some_right hF hr'
  have hR := route_routed hroute
  have hlog := h.holds r rule hr
  have htaken : ∀ cf, (d.captureLog T orders events r).taken k cf = false := fun cf => by
    rw [captureLog_taken hs he]
    rfl
  have hpushed : (d.captureLog T orders events r).pushed k =
      (flow.directionFor rule.network.contains).bind fun direction =>
        if rule.buffers.keys.any (fun k => k.direction = direction) then some ⟨flow, direction⟩ else none := by
    rw [captureLog_pushed hs he]
    simp only [capturedIn, hflow, hr, Option.bind_eq_bind, Option.bind_some]
  rw [hR.frame.size]
  by_cases hw : ∃ direction, flow.directionFor rule.network.contains = some direction ∧ rule.Watches direction
  · obtain ⟨direction, hd, hw⟩ := hw
    rw [hd, Option.bind_some, if_pos (any_keys_iff.mpr hw)] at hpushed
    rw [hR.captured direction hd hw]
    exact hlog.push hpushed htaken
  · rw [hR.ignored fun direction hd hw' => hw ⟨direction, hd, hw'⟩]
    have hnone : (d.captureLog T orders events r).pushed k = none := by
      rw [hpushed, Option.bind_eq_none_iff]
      intro direction hd
      rw [if_neg fun hany => hw ⟨direction, hd, any_keys_iff.mp hany⟩]
    have hdrain := hlog.drain hnone
    rwa [List.filter_eq_self.mpr fun cf _ => by rw [htaken]; rfl] at hdrain

/-- **A tick** takes out the captures of the keys that are asked for. -/
theorem Logged.tick (h : Logged T orders d events k s.processor) {currentTime : ℕ} {now : Instant}
    (htick : e = .tick currentTime now) : Logged T orders d events (k + 1) (s.processor.without T
      (askedKeys (s.processor.computeAllRates T (orders k).rates currentTime) now s.alertManager.alerts)) := by
  subst htick
  refine ⟨h.table.congr ?_, fun r rule' hr' => ?_⟩
  · rw [FlowProcessor.without, List.map_map]
    rfl
  · rw [FlowProcessor.without, List.getElem?_map] at hr'
    obtain ⟨rule, hr, rfl⟩ := Option.map_eq_some_iff.mp hr'
    have hdrain := (h.holds r rule hr).drain (by rw [captureLog_pushed hs he]; rfl)
    have hspare : (ProcessedRule.without T (askedKeys (s.processor.computeAllRates T (orders k).rates currentTime)
        now s.alertManager.alerts) rule).captureBuffer =
          rule.captureBuffer.filter fun cf => !(d.captureLog T orders events r).taken k cf := by
      apply List.filter_congr
      intro cf _
      rw [captureLog_taken hs he]
      simp [takenIn, hr]
    rw [hspare]
    exact hdrain

/-- **A reload** that succeeds forgets all captures. -/
theorem Logged.reload (h : Logged T orders d events k s.processor) {parsed : Except String Config}
    (hreload : e = .reload parsed) : Logged T orders d events (k + 1) (s.reloadConfig T parsed).processor := by
  subst hreload
  unfold Daemon.reloadConfig
  cases hload : Config.load T parsed with
  | error error =>
    refine h.idle hs he (fun _ => rfl) fun r cf => ?_
    simp only [takenIn, hload, Except.toOption, Option.bind_none, Option.isSome_none]
  | ok config =>
    simp only
    cases hp : s.processor.reloadConfig T config with
    | error error =>
      show Logged T orders d events (k + 1) s.processor
      refine h.idle hs he (fun _ => rfl) fun r cf => ?_
      simp only [takenIn, hload, Except.toOption, Option.bind_some, hp, Option.isSome_none]
    | ok p =>
      refine Logged.load hp fun r cap => Backlog.Log.Holds.clear cap ?_ fun cf => ?_
      · rw [captureLog_pushed hs he]
        rfl
      · rw [captureLog_taken hs he]
        simp only [takenIn, hload, Except.toOption, Option.bind_some, hp, Option.isSome_some]

/-- **One event.** -/
theorem Logged.step (h : Logged T orders d events k s.processor) {sent : List AlertPayload}
    (hstep : s.step T (orders k) e = some (s', sent)) : Logged T orders d events (k + 1) s'.processor := by
  cases e with
  | receive samplerAddress flow =>
    cases hstep
    have hp : (s.receive samplerAddress flow).processor = s.processor := by
      unfold Daemon.receive
      split_ifs <;> rfl
    rw [hp]
    exact h.idle hs he (fun _ => rfl) fun _ _ => rfl
  | process =>
    obtain ⟨s₁, h₁, heq⟩ := Option.map_eq_some_iff.mp hstep
    cases heq
    unfold Daemon.process at h₁
    split at h₁
    · rename_i hempty
      cases h₁
      refine h.idle hs he (fun r => ?_) fun _ _ => rfl
      simp only [capturedIn, hempty, List.head?_nil, Option.bind_eq_bind, Option.bind_none]
    · rename_i flow channel hchannel
      obtain ⟨p, hp, heq⟩ := Option.bind_eq_some_iff.mp h₁
      cases heq
      exact h.flow hs he rfl (by rw [hchannel, List.head?_cons]) hp
  | tick currentTime now =>
    cases hstep
    have hp := evaluate_processor T (orders k).analysis
      (s.processor.computeAllRates T (orders k).rates currentTime) now s.alertManager s.processor s.issued
    show Logged T orders d events (k + 1) (s.alertManager.evaluate T (orders k).analysis
      (s.processor.computeAllRates T (orders k).rates currentTime) now s.processor s.issued).2.processor
    rw [hp]
    exact h.tick hs he rfl
  | reload parsed =>
    cases hstep
    exact h.reload hs he rfl

omit hs he

/-- **Runs.** -/
theorem run_logged {parsed : Except String Config} (hd : Daemon.start T parsed = .ok d)
    (hs : d.run T orders (events.take k) = some (s, payloads)) (hk : k ≤ events.length) :
    Logged T orders d events k s.processor := by
  induction k generalizing s payloads with
  | zero =>
    rw [List.take_zero, run_nil] at hs
    cases hs
    obtain ⟨c, -, hd⟩ := Fold.except_bind_ok.mp hd
    obtain ⟨p, hp, hd⟩ := Fold.except_bind_ok.mp hd
    cases hd
    exact Logged.load hp fun r cap => .start _ cap
  | succ k ih =>
    obtain ⟨e, he⟩ : ∃ e, events[k]? = some e := ⟨_, List.getElem?_eq_getElem hk⟩
    rw [List.take_add_one, he, Option.toList_some, Daemon.run_concat] at hs
    obtain ⟨⟨s₁, payloads₁⟩, h₁, hs⟩ := Option.bind_eq_some_iff.mp hs
    obtain ⟨⟨s₂, sent⟩, h₂, hs⟩ := Option.bind_eq_some_iff.mp hs
    cases hs
    rw [List.length_take, Nat.min_eq_left (Nat.le_of_succ_le hk)] at h₂
    exact (ih h₁ (Nat.le_of_succ_le hk)).step h₁ he h₂

end Log

/-! ## What is analysed -/

/-- **An alert** that fires or updates has the flows analysed that its key had captured before the tick. -/
theorem analyzed_eq_some {orders : TickOrders} {s : Daemon} {currentTime : ℕ} {now : Instant} {j : ℕ}
    {flows : List FlowRecord} : s.analyzed T orders currentTime now j = some flows ↔
      ∃ a, s.alertManager.alerts[j]? = some a ∧
        a.Asks (s.processor.computeAllRates T orders.rates currentTime) now ∧
        flows = (s.processor.drainCapturedFlows T a.ipPrefix a.direction).1 ∧ flows ≠ [] ∧
        (T.parse a.ipPrefix).isSome = true := by
  have hdrain : ∀ a : AlertInstance,
      ((evaluateAlerts T orders.analysis (s.processor.computeAllRates T orders.rates currentTime) now
        ⟨s.processor, ∅, [], s.issued⟩ (s.alertManager.alerts.take j)).1.drain T a.ipPrefix a.direction).1 =
      (s.processor.drainCapturedFlows T a.ipPrefix a.direction).1 := fun a =>
    (((Tick.Shares.start (T := T) s.processor [] s.issued).alerts orders.analysis _ now
      (s.alertManager.alerts.take j)).1.drain a.captureKey).1
  simp only [analyzed, hdrain, Option.bind_eq_bind, Option.bind_eq_some_iff, Option.ite_none_right_eq_some,
    Option.some.injEq]
  refine exists_congr fun a => and_congr_right fun _ => ?_
  constructor
  · rintro ⟨⟨hasks, hne, hparse⟩, rfl⟩
    exact ⟨hasks, rfl, hne, hparse⟩
  · rintro ⟨hasks, rfl, hne, hparse⟩
    exact ⟨⟨hasks, hne, hparse⟩, rfl⟩

/-- The flows that a drain returns. -/
theorem mem_drainCapturedFlows {p : FlowProcessor} {ipPrefix : String} {direction : Direction} {f : FlowRecord} :
    f ∈ (p.drainCapturedFlows T ipPrefix direction).1 ↔ ∃ (r : ℕ) (rule : ProcessedRule),
      p.rules[r]? = some rule ∧ T.net rule.ipPrefix = ipPrefix ∧ ⟨f, direction⟩ ∈ rule.captureBuffer := by
  simp only [FlowProcessor.drainCapturedFlows, List.mem_flatMap]
  constructor
  · rintro ⟨rule, hrule, hf⟩
    obtain ⟨r, hr⟩ := List.mem_iff_getElem?.mp hrule
    split_ifs at hf with hp
    · obtain ⟨⟨f', direction'⟩, hmem, rfl⟩ := List.mem_map.mp hf
      obtain ⟨hcf, hd⟩ := List.mem_filter.mp hmem
      obtain rfl : direction' = direction := of_decide_eq_true hd
      exact ⟨r, rule, hr, hp, hcf⟩
    · cases hf
  · rintro ⟨r, rule, hr, hp, hcf⟩
    refine ⟨rule, List.mem_of_getElem? hr, ?_⟩
    rw [if_pos hp]
    exact List.mem_map.mpr ⟨_, List.mem_filter.mpr ⟨hcf, decide_eq_true rfl⟩, rfl⟩

/-- **Only the window is analysed** exactly in the runs in which only flows of the window wait for a fire or an
update. -/
theorem analyzes_window_iff (T : IpText) (parsed : Except String Config) (d : Daemon)
    (hd : Daemon.start T parsed = .ok d) (orders : ℕ → TickOrders) (events : List Event) :
    d.AnalyzesWindow T orders events ↔ d.WaitsInWindow T orders events := by
  have hlogged : ∀ {k s currentTime now}, d.TicksAt T orders events k s currentTime now →
      Logged T orders d events k s.processor := by
    rintro k s currentTime now ⟨hrun, he⟩
    obtain ⟨⟨s', payloads⟩, hs, rfl⟩ := Option.map_eq_some_iff.mp hrun
    exact run_logged hd hs (List.getElem?_eq_some_iff.mp he).1.le
  constructor
  · intro h k s currentTime now hat a ha hasks r rule hr hp log i hi flow hwaits hstays
    obtain ⟨j, hj⟩ := List.mem_iff_getElem?.mp ha
    have hcf := ((hlogged hat).holds r rule hr).mem_iff.mpr ⟨i, hi, hwaits, hstays⟩
    have hf := mem_drainCapturedFlows.mpr ⟨r, rule, hr, hp, hcf⟩
    have hparse : (T.parse a.ipPrefix).isSome = true := by
      rw [← hp, T.parse_print]
      rfl
    exact h k s currentTime now hat j _
      (analyzed_eq_some.mpr ⟨a, hj, hasks, rfl, List.ne_nil_of_mem hf, hparse⟩) flow hf
  · intro h k s currentTime now hat j flows hflows f hf
    obtain ⟨a, hj, hasks, rfl, -, -⟩ := analyzed_eq_some.mp hflows
    obtain ⟨r, rule, hr, hp, hcf⟩ := mem_drainCapturedFlows.mp hf
    obtain ⟨i, hi, hwaits, hstays⟩ := ((hlogged hat).holds r rule hr).mem_iff.mp hcf
    exact h k s currentTime now hat a (List.mem_of_getElem? hj) hasks r rule hr hp i hi f hwaits hstays

/-! ## A flow between two attacks -/

/-- A flow captured after the first fire, and never taken out when the alert resolves. -/
def leftover : FlowRecord := ⟨.V4 0xC6336402, .V4 0x0A020308, 443, 30000, 6, 0x10, 10000, 10, 1002, 1⟩

def secondAttack : FlowRecord := ⟨.V4 0xC6336403, .V4 0x0A020307, 4242, 53, 17, 0, 4000, 10, 4600, 1⟩

/-- An attack that fires an alert and ends, and an hour later another one. -/
def twoAttacks : List Event :=
  [.receive none ⟨.V4 0xC6336401, .V4 0x0A020307, 4242, 53, 17, 0, 10000, 10, 1000, 1⟩, .process, .tick 1000 0,
    .tick 1001 (Duration.fromSecs 1), .receive none leftover, .process, .tick 1020 (Duration.fromSecs 20),
    .tick 1021 (Duration.fromSecs 21), .receive none secondAttack, .process, .tick 4600 (Duration.fromSecs 3600),
    .tick 4601 (Duration.fromSecs 3601)]

theorem analyzes_window_iff_twoAttacks : ∃ d, Daemon.start IpText.dotted (.ok instant) = .ok d ∧
    (d.AnalyzesWindow IpText.dotted storedOrders twoAttacks ↔
      d.WaitsInWindow IpText.dotted storedOrders twoAttacks) := by
  have hsome : (Daemon.start IpText.dotted (.ok instant)).toOption.isSome = true := by decide
  obtain ⟨d, hd⟩ := Option.isSome_iff_exists.mp hsome
  exact ⟨d, Fold.except_toOption.mp hd, analyzes_window_iff IpText.dotted (.ok instant) d
    (Fold.except_toOption.mp hd) storedOrders twoAttacks⟩

/-- **An hour later** the leftover is analysed with the second attack, and the first of the two suggestions filters
its source. -/
theorem leftover_analyzed : instant.validate IpText.dotted = .ok () ∧ ∃ d s,
    Daemon.start IpText.dotted (.ok instant) = .ok d ∧ d.run IpText.dotted storedOrders twoAttacks = some s ∧
    ¬ d.AnalyzesWindow IpText.dotted storedOrders twoAttacks ∧
    s.2.flatten.map (fun payload => (payload.action, payload.mitigationRules.map MitigationRule.sourcePrefix)) =
      [("trigger", [some "198.51.100.1/32"]), ("resolve", []),
        ("trigger", [some "198.51.100.2/32", some "198.51.100.3/32"])] := by
  have hrun : (Daemon.start IpText.dotted (.ok instant)).toOption.bind (fun d =>
      (d.run IpText.dotted storedOrders twoAttacks).map fun s => s.2.flatten.map fun payload =>
        (payload.action, payload.mitigationRules.map MitigationRule.sourcePrefix)) =
      some [("trigger", [some "198.51.100.1/32"]), ("resolve", []),
        ("trigger", [some "198.51.100.2/32", some "198.51.100.3/32"])] := by
    decide +kernel
  have hanalyzed : (Daemon.start IpText.dotted (.ok instant)).toOption.bind (fun d =>
      (d.run IpText.dotted storedOrders (twoAttacks.take 11)).map fun s =>
        (s.1.analyzed IpText.dotted (storedOrders 11) 4601 (Duration.fromSecs 3601) 0,
          s.1.processor.windowSecs)) = some (some [leftover, secondAttack], 10) := by
    decide +kernel
  obtain ⟨d, hd, hrun⟩ := Option.bind_eq_some_iff.mp hrun
  obtain ⟨s, hs, hsent⟩ := Option.map_eq_some_iff.mp hrun
  rw [hd, Option.bind_some] at hanalyzed
  obtain ⟨s', hs', hanalyzed⟩ := Option.map_eq_some_iff.mp hanalyzed
  obtain ⟨hflows, hwindowSecs⟩ := Prod.mk.inj hanalyzed
  refine ⟨by decide, d, s, Fold.except_toOption.mp hd, hs, fun hwindow => ?_, hsent⟩
  have hat : d.TicksAt IpText.dotted storedOrders twoAttacks 11 s'.1 4601 (Duration.fromSecs 3601) :=
    ⟨by rw [hs']; rfl, rfl⟩
  have hstale := (hwindow 11 s'.1 4601 (Duration.fromSecs 3601) hat 0 _ hflows leftover (by simp)).2
  rw [hwindowSecs] at hstale
  exact absurd hstale (by decide)

end NetAlert

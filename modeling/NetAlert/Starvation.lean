import NetAlert.Omission
import NetAlert.Trailing

/-!
# NetAlert.Starvation — what an alert takes from the others of its key

A key is drained once a tick and the alerts of the tick share its flows, so an alert that fires takes nothing
from another one that fires in the same tick.  From one that fires in a later tick it does, unless a third
alert of the key fires or updates in between and would have drained the key anyway (`Followed`).
`sent_without`: in a followed run the other alerts of the key send the payloads that they send without the
alert.
-/

namespace NetAlert

variable {T : IpText} {c c' : Config} {n : ℕ} {A : AlertInstance} {place : ℕ → ℕ}

/-- Orders with which the analysis is one function. -/
def TickOrders.fixed (rates ord : ℕ → HashOrder) (i : ℕ) : TickOrders := ⟨rates i, fun _ => ord⟩

/-! ## What an alert asks for and sends -/

namespace Daemon

variable (T : IpText)

/-- The captured flows of the key, if the event is a tick and the `j`-th alert one of the key that fires or
updates in it. -/
def askedIn (orders : TickOrders) (d : Daemon) (key : String × Direction) (j : ℕ) :
    Event → Option (List FlowRecord)
  | .tick currentTime now => do
    let a ← d.alertManager.alerts[j]?
    if a.Asks (d.processor.computeAllRates T orders.rates currentTime) now ∧ a.captureKey = key then
      some (d.processor.drainCapturedFlows T key.1 key.2).1
    else none
  | _ => none

/-- The captured flows of the key that the `j`-th alert asks for in event `k` of a run. -/
def asked (orders : ℕ → TickOrders) (d : Daemon) (events : List Event) (key : String × Direction) (k j : ℕ) :
    Option (List FlowRecord) := do
  let s ← d.run T orders (events.take k)
  let e ← events[k]?
  s.1.askedIn T (orders k) key j e

/-- Whenever the `n`-th alert takes flows of the key, another alert asks for flows of the key in the same tick or
in a later one. -/
def Followed (orders : ℕ → TickOrders) (d : Daemon) (events : List Event) (key : String × Direction) (n : ℕ) :
    Prop :=
  ∀ k flows, d.asked T orders events key k n = some flows → flows ≠ [] →
    ∃ l ≥ k, ∃ j ≠ n, (d.asked T orders events key l j).isSome = true

/-- The payload that the `j`-th alert sends in a tick. -/
def sent (orders : TickOrders) (d : Daemon) (currentTime : ℕ) (now : Instant) (j : ℕ) : Option AlertPayload := do
  let snapshots := d.processor.computeAllRates T orders.rates currentTime
  let a ← d.alertManager.alerts[j]?
  let _ ← a.reaction snapshots now
  (d.tick T orders currentTime now).2[acting snapshots now (d.alertManager.alerts.take j)]?

end Daemon

open Daemon

section Asked

variable {orders : ℕ → TickOrders} {d : Daemon} {events : List Event} {e : Event} {key : String × Direction}
  {j k : ℕ}

theorem askedIn_tick {o : TickOrders} {currentTime : ℕ} {now : Instant} {flows : List FlowRecord} :
    d.askedIn T o key j (.tick currentTime now) = some flows ↔
      (d.processor.drainCapturedFlows T key.1 key.2).1 = flows ∧ ∃ a, d.alertManager.alerts[j]? = some a ∧
        a.Asks (d.processor.computeAllRates T o.rates currentTime) now ∧ a.captureKey = key := by
  simp only [askedIn, Option.bind_eq_bind, Option.bind_eq_some_iff, Option.ite_none_right_eq_some,
    Option.some.injEq]
  constructor
  · rintro ⟨a, ha, hasks, hflows⟩
    exact ⟨hflows, a, ha, hasks⟩
  · rintro ⟨hflows, a, ha, hasks⟩
    exact ⟨a, ha, hasks, hflows⟩

theorem askedIn_of_ne {o : TickOrders} (h : ∀ currentTime now, e ≠ .tick currentTime now) :
    d.askedIn T o key j e = none := by
  cases e with
  | tick currentTime now => exact absurd rfl (h currentTime now)
  | _ => rfl

/-- A further event asks for nothing in the events before it. -/
theorem asked_of_lt (hk : k < events.length) :
    d.asked T orders (events ++ [e]) key k j = d.asked T orders events key k j := by
  rw [asked, List.take_append_of_le_length hk.le, List.getElem?_append_left hk, asked]

theorem asked_last : d.asked T orders (events ++ [e]) key events.length j =
    (d.run T orders events).bind fun s => s.1.askedIn T (orders events.length) key j e := by
  rw [asked, List.take_left, List.getElem?_concat_length]
  rfl

theorem lt_of_asked {flows : List FlowRecord} (h : d.asked T orders events key k j = some flows) :
    k < events.length := by
  obtain ⟨_, _, h⟩ := Option.bind_eq_some_iff.mp h
  obtain ⟨_, he, _⟩ := Option.bind_eq_some_iff.mp h
  exact (List.getElem?_eq_some_iff.mp he).1

theorem le_of_asked {flows : List FlowRecord} (h : d.asked T orders (events ++ [e]) key k j = some flows) :
    k ≤ events.length := by
  have hlt := lt_of_asked h
  rw [List.length_append, List.length_singleton] at hlt
  omega

/-- **One event more**: another alert asks for flows of the key in it, or the alert takes nothing in it and the
run before it is followed, too. -/
theorem Daemon.Followed.concat {s : Daemon × List (List AlertPayload)}
    (h : d.Followed T orders (events ++ [e]) key n) (hs : d.run T orders events = some s) :
    (∃ j ≠ n, (s.1.askedIn T (orders events.length) key j e).isSome = true) ∨
      ((∀ flows, s.1.askedIn T (orders events.length) key n e = some flows → flows = []) ∧
        d.Followed T orders events key n) := by
  have hlast : ∀ j, d.asked T orders (events ++ [e]) key events.length j =
      s.1.askedIn T (orders events.length) key j e := by
    intro j
    rw [asked_last, hs, Option.bind_some]
  by_cases hother : ∃ j ≠ n, (s.1.askedIn T (orders events.length) key j e).isSome = true
  · exact .inl hother
  · refine .inr ⟨fun flows hflows => ?_, fun k flows hk hne => ?_⟩
    · by_contra hne
      obtain ⟨l, hl, j, hj, hsome⟩ := h events.length flows (by rw [hlast, hflows]) hne
      obtain ⟨flows', hl'⟩ := Option.isSome_iff_exists.mp hsome
      obtain rfl : l = events.length := le_antisymm (le_of_asked hl') hl
      exact hother ⟨j, hj, by rw [← hlast]; exact hsome⟩
    · have hlt := lt_of_asked hk
      obtain ⟨l, hl, j, hj, hsome⟩ := h k flows (by rw [asked_of_lt hlt]; exact hk) hne
      obtain ⟨flows', hl'⟩ := Option.isSome_iff_exists.mp hsome
      rcases (le_of_asked hl').lt_or_eq with hlt' | rfl
      · exact ⟨l, hl, j, hj, by rw [← asked_of_lt (e := e) hlt']; exact hsome⟩
      · exact absurd ⟨j, hj, by rw [← hlast]; exact hsome⟩ hother

end Asked

/-! ## Two runs -/

section TwoRuns

variable {d d' d₁ d₁' : Daemon}

/-- The keys that a tick drains are those for which some alert asks. -/
theorem mem_askedKeys_iff (d : Daemon) (rates : HashOrder) (currentTime : ℕ) (now : Instant)
    (k : String × Direction) :
    k ∈ askedKeys (d.processor.computeAllRates T rates currentTime) now d.alertManager.alerts ↔
      ∃ (j : ℕ) (a : AlertInstance), d.alertManager.alerts[j]? = some a ∧
        a.Asks (d.processor.computeAllRates T rates currentTime) now ∧ a.captureKey = k := by
  rw [mem_askedKeys]
  constructor
  · rintro ⟨a, ha, hasks, rfl⟩
    obtain ⟨j, hj⟩ := List.mem_iff_getElem?.mp ha
    exact ⟨j, a, hj, hasks, rfl⟩
  · rintro ⟨j, a, hj, hasks, rfl⟩
    exact ⟨a, List.mem_of_getElem? hj, hasks, rfl⟩

/-- Of the daemon without the alert, those for which another alert asks. -/
theorem Paired.mem_askedKeys_iff (h : Paired T c c' place d d') (ho : Omits T c c' n A place)
    (rates rates' : HashOrder) (currentTime : ℕ) (now : Instant) (k : String × Direction) :
    k ∈ askedKeys (d'.processor.computeAllRates T rates' currentTime) now d'.alertManager.alerts ↔
      ∃ j ≠ n, ∃ a, d.alertManager.alerts[j]? = some a ∧
        a.Asks (d.processor.computeAllRates T rates currentTime) now ∧ a.captureKey = k := by
  have hasks : ∀ {i a a'}, d.alertManager.alerts[place i]? = some a → d'.alertManager.alerts[i]? = some a' →
      (a'.Asks (d'.processor.computeAllRates T rates' currentTime) now ↔
        a.Asks (d.processor.computeAllRates T rates currentTime) now) := by
    intro i a a' ha ha'
    unfold AlertInstance.Asks
    rw [h.reaction_eq ha ha' rates rates' currentTime now]
  rw [NetAlert.mem_askedKeys_iff]
  constructor
  · rintro ⟨i, a', hget', ha, rfl⟩
    obtain ⟨a, hget, htwin⟩ := h.exists_twin' hget'
    exact ⟨place i, (ho.place _).mpr ⟨i, rfl⟩, a, hget, (hasks hget hget').mp ha, htwin.1.captureKey_eq.symm⟩
  · rintro ⟨j, hj, a, hget, ha, rfl⟩
    obtain ⟨i, rfl⟩ := (ho.place j).mp hj
    obtain ⟨a', hget', htwin⟩ := h.exists_twin hget
    exact ⟨i, a', hget', (hasks hget hget').mpr ha, htwin.1.captureKey_eq⟩

/-- An alert has its key in every state. -/
theorem RunsOn.captureKey_eq {alerts : List AlertInstance} (h : RunsOn T c alerts) {i : ℕ} {B a : AlertInstance}
    (hB : (c.buildAlerts T)[i]? = some B) (ha : alerts[i]? = some a) : a.captureKey = B.captureKey := by
  have hrel := Relate.forall₂_getElem? h i
  rw [hB, ha] at hrel
  obtain ⟨hrel⟩ := hrel
  exact hrel.captureKey_eq

/-- Without the alert a tick drains the same keys, but perhaps not that of the alert. -/
theorem Paired.askedKeys_same (h : Paired T c c' place d d') (ho : Omits T c c' n A place)
    (rates rates' : HashOrder) (currentTime : ℕ) (now : Instant) (k : String × Direction) :
    (k ∈ askedKeys (d'.processor.computeAllRates T rates' currentTime) now d'.alertManager.alerts →
        k ∈ askedKeys (d.processor.computeAllRates T rates currentTime) now d.alertManager.alerts) ∧
      (k ≠ A.captureKey →
        (k ∈ askedKeys (d.processor.computeAllRates T rates currentTime) now d.alertManager.alerts ↔
          k ∈ askedKeys (d'.processor.computeAllRates T rates' currentTime) now d'.alertManager.alerts)) := by
  rw [NetAlert.mem_askedKeys_iff (T := T) d, h.mem_askedKeys_iff ho rates rates']
  have hsub : (∃ j ≠ n, ∃ a, d.alertManager.alerts[j]? = some a ∧
      a.Asks (d.processor.computeAllRates T rates currentTime) now ∧ a.captureKey = k) →
      ∃ (j : ℕ) (a : AlertInstance), d.alertManager.alerts[j]? = some a ∧
        a.Asks (d.processor.computeAllRates T rates currentTime) now ∧ a.captureKey = k := by
    rintro ⟨j, -, hasked⟩
    exact ⟨j, hasked⟩
  refine ⟨hsub, fun hk => ⟨?_, hsub⟩⟩
  rintro ⟨j, a, ha, hasks, hkey⟩
  refine ⟨j, ?_, a, ha, hasks, hkey⟩
  rintro rfl
  exact hk (hkey.symm.trans (h.runsOn.captureKey_eq ho.alert ha))

/-- **A tick** for both: the captures of the key of the omitted alert stay ahead.  They catch up if another alert
asks for them, and stay so if the omitted alert takes none. -/
theorem Behind.evaluate (hb : Behind T A.captureKey Backlog.Ahead d.processor d'.processor)
    (h : Paired T c c' place d d') (ho : Omits T c c' n A place) (o o' : TickOrders) (currentTime : ℕ)
    (now : Instant) :
    let p := d.processor.without T
      (askedKeys (d.processor.computeAllRates T o.rates currentTime) now d.alertManager.alerts)
    let p' := d'.processor.without T
      (askedKeys (d'.processor.computeAllRates T o'.rates currentTime) now d'.alertManager.alerts)
    Behind T A.captureKey Backlog.Ahead p p' ∧
      ((∃ j ≠ n, (d.askedIn T o A.captureKey j (.tick currentTime now)).isSome = true) ∨
          ((∀ flows, d.askedIn T o A.captureKey n (.tick currentTime now) = some flows → flows = []) ∧
            Behind T A.captureKey Backlog.CaughtUp d.processor d'.processor) →
        Behind T A.captureKey Backlog.CaughtUp p p') := by
  have hkeys := mem_askedKeys_iff (T := T) d o.rates currentTime now
  have hkeys' := h.mem_askedKeys_iff ho o.rates o'.rates currentTime now
  have hsame := h.askedKeys_same ho o.rates o'.rates currentTime now
  obtain ⟨hahead, hcaught⟩ := hb.tick (T := T) (fun k => (hsame k).2) (hsame A.captureKey).1
  refine ⟨hahead, fun hor => hcaught ?_⟩
  by_cases hother : ∃ j ≠ n, (d.askedIn T o A.captureKey j (.tick currentTime now)).isSome = true
  · left
    obtain ⟨j, hj, hsome⟩ := hother
    obtain ⟨flows, hflows⟩ := Option.isSome_iff_exists.mp hsome
    obtain ⟨-, a, ha, hasks, hkey⟩ := askedIn_tick.mp hflows
    exact (hkeys' _).mpr ⟨j, hj, a, ha, hasks, hkey⟩
  · obtain ⟨htakes, hbefore⟩ := hor.resolve_left hother
    refine .inr ⟨fun hmem => ?_, hbefore⟩
    obtain ⟨j, a, ha, hasks, hkey⟩ := (hkeys _).mp hmem
    have hasked := askedIn_tick.mpr ⟨rfl, a, ha, hasks, hkey⟩
    by_cases hj : j = n
    · subst hj
      exact htakes _ hasked
    · exact absurd ⟨j, hj, by rw [hasked]; rfl⟩ hother

/-- **One event** for both. -/
theorem Behind.event (hb : Behind T A.captureKey Backlog.Ahead d.processor d'.processor)
    (h : Paired T c c' place d d') (ho : Omits T c c' n A place) {rates rates' ord : ℕ → HashOrder} {k : ℕ}
    {e : Event} {payloads payloads' : List AlertPayload} (he : e.Steady)
    (hs : d.step T (TickOrders.fixed rates ord k) e = some (d₁, payloads))
    (hs' : d'.step T (TickOrders.fixed rates' ord k) e = some (d₁', payloads')) :
    Behind T A.captureKey Backlog.Ahead d₁.processor d₁'.processor ∧
      ((∃ j ≠ n, (d.askedIn T (TickOrders.fixed rates ord k) A.captureKey j e).isSome = true) ∨
          ((∀ flows, d.askedIn T (TickOrders.fixed rates ord k) A.captureKey n e = some flows → flows = []) ∧
            Behind T A.captureKey Backlog.CaughtUp d.processor d'.processor) →
        Behind T A.captureKey Backlog.CaughtUp d₁.processor d₁'.processor) := by
  rcases h.step_cases he hs hs' with ⟨hne, hcases⟩ | ⟨currentTime, now, rfl⟩
  · simp only [askedIn_of_ne hne, Option.isSome_none, Bool.false_eq_true, and_false, exists_false, false_or]
    rcases hcases with ⟨channel, rfl, rfl⟩ | ⟨flow, channel, p, p', hp, hp', rfl, rfl⟩
    · exact ⟨hb, fun hcaught => hcaught.2⟩
    · obtain ⟨_, hran⟩ := h.built
      obtain ⟨_, hran'⟩ := h.built'
      exact ⟨hb.flow Backlog.stable_ahead hran.kept.1 hran'.kept.1 hp hp',
        fun hcaught => hcaught.2.flow Backlog.stable_caughtUp hran.kept.1 hran'.kept.1 hp hp'⟩
  · have htick := hb.evaluate h ho (TickOrders.fixed rates ord k) (TickOrders.fixed rates' ord k) currentTime now
    simp only [← evaluate_processor T (fun _ => ord) _ now d.alertManager d.processor d.issued,
      ← evaluate_processor T (fun _ => ord) _ now d'.alertManager d'.processor d'.issued] at htick
    cases hs
    cases hs'
    exact htick

/-- **Runs** of both. -/
theorem run_paired (ho : Omits T c c' n A place) (hd : Daemon.start T (.ok c) = .ok d)
    (hd' : Daemon.start T (.ok c') = .ok d') {rates rates' ord : ℕ → HashOrder} {events : List Event}
    (hsteady : ∀ e ∈ events, e.Steady) {s s' : Daemon × List (List AlertPayload)}
    (hs : d.run T (TickOrders.fixed rates ord) events = some s)
    (hs' : d'.run T (TickOrders.fixed rates' ord) events = some s') :
    Paired T c c' place s.1 s'.1 ∧ Behind T A.captureKey Backlog.Ahead s.1.processor s'.1.processor ∧
      (d.Followed T (TickOrders.fixed rates ord) events A.captureKey n →
        Behind T A.captureKey Backlog.CaughtUp s.1.processor s'.1.processor) := by
  induction events using List.reverseRecOn generalizing s s' with
  | nil =>
    cases hs
    cases hs'
    obtain ⟨-, p, hp, hprocessor⟩ := Daemon.start_ok hd
    obtain ⟨-, p', hp', hprocessor'⟩ := Daemon.start_ok hd'
    have hload : Behind T A.captureKey Backlog.CaughtUp d.processor d'.processor := by
      rw [hprocessor, hprocessor']
      exact Behind.load hp hp' (by rw [ho.global]) ho.rules _
    exact ⟨.start ho hd hd', hload.ahead, fun _ => hload⟩
  | append_singleton events e ih =>
    rw [Daemon.run_concat] at hs hs'
    obtain ⟨s₁, h₁, hs⟩ := Option.bind_eq_some_iff.mp hs
    obtain ⟨s₁', h₁', hs'⟩ := Option.bind_eq_some_iff.mp hs'
    obtain ⟨⟨d₁, payloads⟩, h₂, hs⟩ := Option.bind_eq_some_iff.mp hs
    obtain ⟨⟨d₁', payloads'⟩, h₂', hs'⟩ := Option.bind_eq_some_iff.mp hs'
    cases hs
    cases hs'
    have he : e.Steady := hsteady e (by simp)
    obtain ⟨hpaired, hahead, hcaught⟩ := ih (fun e' he' => hsteady e' (List.mem_append_left _ he')) h₁ h₁'
    obtain ⟨hahead', hcaught'⟩ := hahead.event hpaired ho he h₂ h₂'
    refine ⟨hpaired.step he h₂ h₂', hahead', fun hfollowed => hcaught' ?_⟩
    rcases hfollowed.concat h₁ with hother | ⟨htakes, hbefore⟩
    · exact .inl hother
    · exact .inr ⟨htakes, hcaught hbefore⟩

end TwoRuns

/-! ## Payloads -/

/-- A payload does not depend on the state of the alert. -/
theorem buildPayload_rebuilt {a a' : AlertInstance} (h : Rebuilt a a') (value : ℚ) (action : String)
    (mitigationRules : List MitigationRule) : a'.buildPayload value action mitigationRules =
      { a.buildPayload value action mitigationRules with alertId := a'.alertId } := by
  rw [h]
  rfl

theorem advice_rebuilt {a a' : AlertInstance} (h : Rebuilt a a') (ord : ℕ → HashOrder) (flows : List FlowRecord)
    (rate : ℚ) (action : AlertAction) : a'.advice T ord flows rate action = a.advice T ord flows rate action := by
  rw [h]
  cases action <;> rfl

/-- What an alert sends in a tick, up to its id. -/
theorem Daemon.sent_eq (ord : ℕ → HashOrder) {d : Daemon} {j : ℕ} {a : AlertInstance}
    (ha : d.alertManager.alerts[j]? = some a) {action : AlertAction} {rates : HashOrder} {currentTime : ℕ}
    {now : Instant} (hr : a.reaction (d.processor.computeAllRates T rates currentTime) now = some action) :
    let rate := a.rate (d.processor.computeAllRates T rates currentTime)
    ∃ id, d.sent T ⟨rates, fun _ => ord⟩ currentTime now j = some
      { a.buildPayload rate action.toString
          (a.advice T ord (d.processor.drainCapturedFlows T a.ipPrefix a.direction).1 rate action) with
        alertId := id } := by
  intro rate
  obtain ⟨a', n, hreb, hpayload⟩ := (evaluateAlerts_evaluated T (fun _ => ord)
    (d.processor.computeAllRates T rates currentTime) now ⟨d.processor, ∅, [], d.issued⟩
    d.alertManager.alerts).payload_of ha hr
  rw [List.length_nil, Nat.zero_add, buildPayload_rebuilt hreb] at hpayload
  refine ⟨a'.alertId, ?_⟩
  simp only [sent, ha, hr, Option.bind_eq_bind, Option.bind_some]
  exact hpayload

/-- **Starvation.**  Let `c'` be `c` without its alert `A`, and let daemons on both see the same flows and ticks.
If, whenever `A` has taken captured flows of its key, another alert of the key has asked for such in the same
tick or in a later one before, then in the next tick every other alert of the key sends with `A` the payload
that it sends without, but for its id.  So if it fires, its mitigation rules are the same, whether or not `A`
fires or updates in that tick. -/
theorem sent_without (T : IpText) (c c' : Config) (n : ℕ) (A : AlertInstance) (place : ℕ → ℕ)
    (ho : Omits T c c' n A place) (d d' : Daemon) (hd : Daemon.start T (.ok c) = .ok d)
    (hd' : Daemon.start T (.ok c') = .ok d') (rates rates' ord : ℕ → HashOrder) (events : List Event)
    (hsteady : ∀ e ∈ events, e.Steady) (s s' : Daemon × List (List AlertPayload))
    (hs : d.run T (TickOrders.fixed rates ord) events = some s)
    (hs' : d'.run T (TickOrders.fixed rates' ord) events = some s')
    (hfollowed : d.Followed T (TickOrders.fixed rates ord) events A.captureKey n) (currentTime : ℕ) (now : Instant)
    (i : ℕ) (B : AlertInstance) (hB : (c'.buildAlerts T)[i]? = some B) (hkey : B.captureKey = A.captureKey)
    (payload : AlertPayload)
    (hsent : s.1.sent T (TickOrders.fixed rates ord events.length) currentTime now (place i) = some payload) :
    ∃ payload', s'.1.sent T (TickOrders.fixed rates' ord events.length) currentTime now i = some payload' ∧
      payload' = { payload with alertId := payload'.alertId } := by
  obtain ⟨hpaired, -, hcaught⟩ := run_paired ho hd hd' hsteady hs hs'
  obtain ⟨a, ha, hsent'⟩ := Option.bind_eq_some_iff.mp hsent
  obtain ⟨action, hr, -⟩ := Option.bind_eq_some_iff.mp hsent'
  obtain ⟨a', ha', htwin⟩ := hpaired.exists_twin ha
  have hr' : a'.reaction _ now = some action :=
    (hpaired.reaction_eq ha ha' (rates events.length) (rates' events.length) currentTime now).trans hr
  have hrate := hpaired.rate_eq ha ha' (rates events.length) (rates' events.length) currentTime
  have hkey' : a'.captureKey = A.captureKey := (hpaired.runsOn'.captureKey_eq hB ha').trans hkey
  -- the flows that the two alerts ask for are the same
  have hflows : (s.1.processor.drainCapturedFlows T a.ipPrefix a.direction).1 =
      (s'.1.processor.drainCapturedFlows T a'.ipPrefix a'.direction).1 := by
    have hdrain := (hcaught hfollowed).drain_eq
    rw [← hkey'] at hdrain
    show (s.1.processor.drainCapturedFlows T a.captureKey.1 a.captureKey.2).1 = _
    rw [← htwin.1.captureKey_eq]
    exact hdrain
  obtain ⟨id, hid⟩ := Daemon.sent_eq ord ha hr
  obtain ⟨id', hid'⟩ := Daemon.sent_eq ord ha' hr'
  obtain rfl := Option.some.inj (hsent.symm.trans hid)
  refine ⟨_, hid', ?_⟩
  rw [hrate, buildPayload_rebuilt htwin.1, advice_rebuilt htwin.1, hflows]
  rfl

/-! ## Three alerts on one key -/

/-- Alerts without debouncing on the inbound traffic of one prefix. -/
def shared (metrics : MetricThresholds) : Config :=
  { instant with
    rules :=
      [{ ipPrefix := site
         alertPolicy := some "instant"
         thresholds := Config.single .any .inbound metrics }] }

/-- Many bytes in few packets, and then many packets with few bytes. -/
def bulk : FlowRecord := ⟨.V4 0xC6336401, .V4 0x0A020307, 443, 30000, 6, 0x10, 10000, 10, 1000, 1⟩

def burst : FlowRecord := ⟨.V4 0xC6336402, .V4 0x0A020308, 4242, 7777, 17, 0, 1000, 990, 1000, 1⟩

/-- After the first flow two ticks, in which an alert on bytes fires; after the second one a tick that arms an
alert on packets. -/
def bulkThenBurst : List Event :=
  [.receive none bulk, .process, .tick 1000 0, .tick 1001 (Duration.fromSecs 1), .receive none burst, .process,
    .tick 1002 (Duration.fromSecs 2)]

/-- What the `j`-th alert of a configuration sends a second after some events. -/
def sentAfter (c : Config) (events : List Event) (j : ℕ) : Option AlertPayload := do
  let d ← (Daemon.start IpText.dotted (.ok c)).toOption
  let s ← d.run IpText.dotted storedOrders events
  s.1.sent IpText.dotted (storedOrders events.length) 1003 (Duration.fromSecs 3) j

theorem sentAfter_eq_some {c : Config} {events : List Event} {j : ℕ} {payload : AlertPayload}
    (h : sentAfter c events j = some payload) : ∃ d s, Daemon.start IpText.dotted (.ok c) = .ok d ∧
      d.run IpText.dotted storedOrders events = some s ∧
      s.1.sent IpText.dotted (storedOrders events.length) 1003 (Duration.fromSecs 3) j = some payload := by
  obtain ⟨d, hd, h⟩ := Option.bind_eq_some_iff.mp h
  obtain ⟨s, hs, h⟩ := Option.bind_eq_some_iff.mp h
  exact ⟨d, s, Fold.except_toOption.mp hd, hs, h⟩

/-- An alert on packets with an alert on bytes and one on flows, and without that on bytes. -/
def three : Config :=
  shared { bps := some ⟨.num 100, none⟩, pps := some ⟨.num 50, none⟩, fps := some ⟨.num 0, none⟩ }

def two : Config := shared { pps := some ⟨.num 50, none⟩, fps := some ⟨.num 0, none⟩ }

theorem three_omits : ∃ A, Omits IpText.dotted three two 0 A (· + 1) ∧
    A.captureKey = ("10.2.3.0/24", .inbound) := by
  have htail : two.buildAlerts IpText.dotted = (three.buildAlerts IpText.dotted).tail := rfl
  refine ⟨_, ⟨rfl, fun i => ?_, fun j => ?_, rfl, rfl, ?_⟩, by decide⟩
  · rw [htail, List.getElem?_tail]
  · constructor
    · intro hj
      exact ⟨j - 1, by omega⟩
    · rintro ⟨i, rfl⟩
      omega
  · exact .cons ⟨rfl, fun d => by cases d <;> decide⟩ .nil

/-- The alert on bytes fires together with that on flows, and so it takes nothing from the one on packets. -/
theorem sent_without_shared : ∃ payload payload', sentAfter three bulkThenBurst 1 = some payload ∧
    sentAfter two bulkThenBurst 0 = some payload' ∧ payload' = { payload with alertId := payload'.alertId } := by
  have hsome : (sentAfter three bulkThenBurst 1).isSome = true := by decide +kernel
  have hsome' : (sentAfter two bulkThenBurst 0).isSome = true := by decide +kernel
  obtain ⟨payload, hsent⟩ := Option.isSome_iff_exists.mp hsome
  obtain ⟨p, hsent'⟩ := Option.isSome_iff_exists.mp hsome'
  obtain ⟨d, s, hd, hs, h⟩ := sentAfter_eq_some hsent
  obtain ⟨d', s', hd', hs', h'⟩ := sentAfter_eq_some hsent'
  obtain ⟨A, hA, hkey⟩ := three_omits
  have hsteady : ∀ e ∈ bulkThenBurst, e.Steady := by
    simp [bulkThenBurst, Event.Steady]
  have hasked : (Daemon.start IpText.dotted (.ok three)).toOption.map (fun d => decide (∀ k ∈ List.range 7,
      (d.asked IpText.dotted storedOrders bulkThenBurst ("10.2.3.0/24", .inbound) k 0).isSome →
        (d.asked IpText.dotted storedOrders bulkThenBurst ("10.2.3.0/24", .inbound) k 2).isSome)) = some true := by
    decide +kernel
  rw [Fold.except_toOption.mpr hd, Option.map_some, Option.some.injEq, decide_eq_true_eq] at hasked
  have hfollowed : d.Followed IpText.dotted storedOrders bulkThenBurst A.captureKey 0 := by
    intro k flows hk _
    rw [hkey] at hk ⊢
    exact ⟨k, le_rfl, 2, by decide, hasked k (List.mem_range.mpr (lt_of_asked hk)) (by rw [hk]; rfl)⟩
  obtain ⟨B, hB, hkeyB⟩ : ∃ B, (two.buildAlerts IpText.dotted)[0]? = some B ∧
      B.captureKey = ("10.2.3.0/24", .inbound) := ⟨_, rfl, by decide⟩
  obtain ⟨payload', hpayload', heq⟩ := sent_without IpText.dotted three two 0 A (· + 1) hA d d' hd hd'
    (fun _ => HashOrder.stored) (fun _ => HashOrder.stored) (fun _ => HashOrder.stored) bulkThenBurst hsteady
    s s' hs hs' hfollowed 1003 (Duration.fromSecs 3) 0 B hB (hkeyB.trans hkey.symm) payload h
  obtain rfl := Option.some.inj (hpayload'.symm.trans h')
  exact ⟨payload, payload', hsent, hsent', heq⟩

/-! ## Starved alerts -/

/-- An entry for the alert on packets, in a configuration that captures one flow, and another for the same
prefix with an alert on bytes that is never reached. -/
def entries (first : List RuleConfig) : Config :=
  { instant with
    global := { instant.global with captureBufferSize := 1 }
    rules := first ++
      [{ ipPrefix := site
         alertPolicy := some "instant"
         thresholds := HashMap.ofPairs [(.any, HashMap.ofPairs
          [(.inbound, ⟨{ pps := some ⟨.num 50, none⟩ }⟩), (.outbound, ⟨{ pps := some ⟨.num 50, none⟩ }⟩)])] }] }

def unreached : RuleConfig :=
  { ipPrefix := site
    alertPolicy := some "instant"
    thresholds := Config.single .any .inbound { bps := some ⟨.num 1000000000, none⟩ } }

/-- A flow out of the prefix, which takes the place of the burst. -/
def burstThenReply : List Event :=
  [.receive none burst, .process,
    .receive none ⟨.V4 0x0A020308, .V4 0xC6336402, 7777, 4242, 17, 0, 100, 1, 1000, 1⟩, .process,
    .tick 1002 (Duration.fromSecs 2)]

/-- Two alerts: that on bytes fires first and takes the bulk, which the rules for the burst then lack.  Two
entries: without the alert on bytes its entry does not capture the burst, and there are no rules for it. -/
theorem starved :
    let both := shared { bps := some ⟨.num 100, none⟩, pps := some ⟨.num 50, none⟩ }
    let single := shared { pps := some ⟨.num 50, none⟩ }
    (both.validate IpText.dotted = .ok () ∧ single.validate IpText.dotted = .ok () ∧
        ∃ p p', sentAfter both bulkThenBurst 1 = some p ∧ sentAfter single bulkThenBurst 0 = some p' ∧
          p.action = "trigger" ∧ p'.action = "trigger" ∧ p.mitigationRules ≠ p'.mitigationRules) ∧
      (entries [unreached]).validate IpText.dotted = .ok () ∧ (entries []).validate IpText.dotted = .ok () ∧
        ∃ p p', sentAfter (entries [unreached]) burstThenReply 2 = some p ∧
          sentAfter (entries []) burstThenReply 1 = some p' ∧
          p.action = "trigger" ∧ p'.action = "trigger" ∧ p.mitigationRules ≠ p'.mitigationRules := by
  have hdiffer : ∀ {o o' : Option AlertPayload}, (o.map fun p => (p.action, p.mitigationRules)) ≠
      (o'.map fun p => (p.action, p.mitigationRules)) → o.map AlertPayload.action = some "trigger" →
      o'.map AlertPayload.action = some "trigger" → ∃ p p', o = some p ∧ o' = some p' ∧ p.action = "trigger" ∧
        p'.action = "trigger" ∧ p.mitigationRules ≠ p'.mitigationRules := by
    intro o o' hne h h'
    obtain ⟨p, rfl, hp⟩ := Option.map_eq_some_iff.mp h
    obtain ⟨p', rfl, hp'⟩ := Option.map_eq_some_iff.mp h'
    refine ⟨p, p', rfl, rfl, hp, hp', fun heq => hne ?_⟩
    rw [Option.map_some, Option.map_some, hp, hp', heq]
  exact ⟨⟨by decide, by decide, hdiffer (by decide +kernel) (by decide +kernel) (by decide +kernel)⟩,
    by decide, by decide, hdiffer (by decide +kernel) (by decide +kernel) (by decide +kernel)⟩

end NetAlert

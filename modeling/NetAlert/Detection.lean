import NetAlert.Debounce
import NetAlert.LifeCycle
import NetAlert.Monitor
import NetAlert.Omission

/-!
# NetAlert.Detection — attacks are reported, and nothing else is

* `fire_of_lasting`, `lasting_of_fire` and their counterparts for a resolve: what `Tracks` says about how soon and
  how late an alert acts.
* `Rounds.Follow`: along a run the alert of a key has seen the traffic of its prefix, tick by tick.
* `attacks_detected`: so triggers and resolves are about the traffic, from the flows on the channel to the payload.
-/

namespace NetAlert

/-! ## How soon and how late an alert acts -/

namespace AlertInstance

variable {a : AlertInstance} {rate : ℕ → ℚ} {time : ℕ → Instant} {i n : ℕ}

/-- An evaluation takes a step from a state that says what the rates were. -/
theorem tracks_step (ha : a.state = .normal) (rate : ℕ → ℚ) (time : ℕ → Instant) (n : ℕ) :
    ∃ s s', a.Tracks rate time n s ∧ a.Step (rate n) (time n) s s' (a.actionAt rate time n) :=
  ⟨_, _, tracks rate time ha n, a.actionAt_step rate time n⟩

theorem open_of_resolve (ha : a.state = .normal) (h : a.actionAt rate time n = some .resolve) :
    a.OpenAt rate time n := by
  obtain ⟨s, s', hT, hs⟩ := tracks_step ha rate time n
  rw [h] at hs
  cases hs with
  | resolve _ _ => exact hT.1

theorem closed_of_fire (ha : a.state = .normal) (h : a.actionAt rate time n = some .fire) :
    ¬ a.OpenAt rate time n := by
  obtain ⟨s, s', hT, hs⟩ := tracks_step ha rate time n
  rw [h] at hs
  cases hs with
  | fire _ _ => exact hT.1

/-- **Nothing fires too early.** -/
theorem lasting_of_fire (ha : a.state = .normal) (h : a.actionAt rate time n = some .fire) :
    ∃ j < n, (∀ l, j ≤ l → l ≤ n → F64.le a.triggerThreshold (.num (rate l)) = true) ∧
      a.triggerFor ≤ (time n).durationSince (time j) := by
  obtain ⟨s, s', hT, hs⟩ := tracks_step ha rate time n
  rw [h] at hs
  cases hs with
  | fire hlt hd =>
    obtain ⟨-, j, hj, rfl⟩ := hT
    refine ⟨j, hj.lt, fun l hl hln => ?_, hd⟩
    rcases hln.lt_or_eq with hlt' | rfl
    · exact (hj.holds l hl hlt').1
    · have hnum := F64.le_or_lt_of_le (hj.holds j le_rfl hj.lt).1 (rate l)
      rw [hlt] at hnum
      simpa using hnum.symm

/-- **Nothing resolves too early.** -/
theorem lasting_of_resolve (ha : a.state = .normal) (h : a.actionAt rate time n = some .resolve) :
    ∃ j < n, (∀ l, j ≤ l → l ≤ n → F64.lt (.num (rate l)) a.recoverThreshold = true) ∧
      a.recoverFor ≤ (time n).durationSince (time j) := by
  obtain ⟨s, s', hT, hs⟩ := tracks_step ha rate time n
  rw [h] at hs
  cases hs with
  | resolve hle hd =>
    obtain ⟨-, j, hj, rfl⟩ := hT
    refine ⟨j, hj.lt, fun l hl hln => ?_, hd⟩
    rcases hln.lt_or_eq with hlt' | rfl
    · exact (hj.holds l hl hlt').1
    · rw [F64.le_or_lt_of_lt (hj.holds j le_rfl hj.lt).1 (rate l), hle]
      rfl

/-- A closed alert stays closed until it fires. -/
theorem closed_until_fire (hclosed : ¬ a.OpenAt rate time i)
    (hno : ∀ l, i ≤ l → l < n → a.actionAt rate time l ≠ some .fire) (hin : i ≤ n) : ¬ a.OpenAt rate time n := by
  induction n, hin using Nat.le_induction with
  | base => exact hclosed
  | succ n hin ih =>
    rw [openAt_succ, not_or]
    exact ⟨hno n hin (Nat.lt_succ_self n),
      fun h => ih (fun l h1 h2 => hno l h1 (h2.trans (Nat.lt_succ_self n))) h.1⟩

/-- An open alert stays open until it resolves. -/
theorem open_until_resolve (hopen : a.OpenAt rate time i)
    (hno : ∀ l, i ≤ l → l < n → a.actionAt rate time l ≠ some .resolve) (hin : i ≤ n) : a.OpenAt rate time n := by
  induction n, hin using Nat.le_induction with
  | base => exact hopen
  | succ n hin ih =>
    rw [openAt_succ]
    exact .inr ⟨ih fun l h1 h2 => hno l h1 (h2.trans (Nat.lt_succ_self n)), hno n hin (Nat.lt_succ_self n)⟩

/-- **A lasting attack fires** a closed alert. -/
theorem fire_of_lasting (ha : a.state = .normal) (hclosed : ¬ a.OpenAt rate time i) (hin : i < n)
    (htime : ∀ l l', l ≤ l' → l' ≤ n → time l ≤ time l')
    (hhigh : ∀ l, i ≤ l → l ≤ n → F64.le a.triggerThreshold (.num (rate l)) = true)
    (hd : a.triggerFor ≤ (time n).durationSince (time i)) :
    ∃ l, i ≤ l ∧ l ≤ n ∧ a.actionAt rate time l = some .fire := by
  by_contra hno
  push Not at hno
  have hquiet : ∀ l, i ≤ l → l ≤ n → ¬ a.OpenAt rate time l := fun l hl hln =>
    closed_until_fire hclosed (fun l' h1 h2 => hno l' h1 (h2.le.trans hln)) hl
  have hstreak : Streak.Holds (a.High rate time) i n := fun l h1 h2 =>
    ⟨hhigh l h1 h2.le, fun hres => hquiet l h1 h2.le (open_of_resolve ha hres)⟩
  obtain ⟨s, s', hT, hs⟩ := tracks_step ha rate time n
  have hnofire := hno n hin.le le_rfl
  generalize a.actionAt rate time n = action at hs hnofire
  cases s with
  | normal => exact hT.2 i hin hstreak
  | pending since =>
    obtain ⟨-, j, hj, rfl⟩ := hT
    have hji := htime j i (hj.first i hstreak) hin.le
    cases hs with
    | disarm h => simp [F64.not_lt_of_le (hhigh n hin.le le_rfl)] at h
    | fire => exact hnofire rfl
    | wait _ hshort => exact hshort (hd.trans (Nat.sub_le_sub_left hji _))
  | firing last => exact hquiet n hin.le le_rfl hT.1
  | recovering since => exact hquiet n hin.le le_rfl hT.1

/-- **A lasting calm resolves** an open alert. -/
theorem resolve_of_lasting (ha : a.state = .normal) (hopen : a.OpenAt rate time i) (hin : i < n)
    (htime : ∀ l l', l ≤ l' → l' ≤ n → time l ≤ time l')
    (hlow : ∀ l, i ≤ l → l ≤ n → F64.lt (.num (rate l)) a.recoverThreshold = true)
    (hd : a.recoverFor ≤ (time n).durationSince (time i)) :
    ∃ l, i ≤ l ∧ l ≤ n ∧ a.actionAt rate time l = some .resolve := by
  by_contra hno
  push Not at hno
  have hstays : ∀ l, i ≤ l → l ≤ n → a.OpenAt rate time l := fun l hl hln =>
    open_until_resolve hopen (fun l' h1 h2 => hno l' h1 (h2.le.trans hln)) hl
  have hstreak : Streak.Holds (a.Low rate time) i n := fun l h1 h2 =>
    ⟨hlow l h1 h2.le, fun hfire => closed_of_fire ha hfire (hstays l h1 h2.le)⟩
  obtain ⟨s, s', hT, hs⟩ := tracks_step ha rate time n
  have hnoresolve := hno n hin.le le_rfl
  generalize a.actionAt rate time n = action at hs hnoresolve
  cases s with
  | normal => exact hT.1 (hstays n hin.le le_rfl)
  | pending since => exact hT.1 (hstays n hin.le le_rfl)
  | firing last => exact hT.2 i hin hstreak
  | recovering since =>
    obtain ⟨-, j, hj, rfl⟩ := hT
    have hji := htime j i (hj.first i hstreak) hin.le
    cases hs with
    | climb h => simp [F64.not_le_of_lt (hlow n hin.le le_rfl)] at h
    | resolve => exact hnoresolve rfl
    | waitRecover _ hshort => exact hshort (hd.trans (Nat.sub_le_sub_left hji _))

end AlertInstance

/-! ## The ticks of a run -/

/-- A tick: its number among the events, its clocks and the flows taken before it. -/
structure TickRecord where
  event : ℕ
  currentTime : ℕ
  now : Instant
  flows : List FlowRecord

namespace TickRecord

variable (ticks : List TickRecord) (sent : List (List AlertPayload))

/-- The instant of a tick. -/
def clock (i : ℕ) : Instant := (ticks[i]?).elim 0 TickRecord.now

/-- The rate of an alert's traffic in a tick. -/
def traffic (T : IpText) (a : AlertInstance) (windowSecs i : ℕ) : ℚ :=
  (ticks[i]?).elim 0 fun r => a.trafficRate T windowSecs r.currentTime r.flows

/-- The payloads that the events sent have one of the key with the action in the tick. -/
def Sends (K : AlertKey) (action : AlertAction) (i : ℕ) : Prop :=
  ∃ r ∈ ticks[i]?, ∃ payload ∈ sent.getD r.event [], payload.isFor K ∧ payload.action = action.toString

/-- Before the tick the key has been triggered and not resolved since. -/
def OpenBefore (K : AlertKey) (i : ℕ) : Prop :=
  ∃ j < i, Sends ticks sent K .fire j ∧ ∀ l, j < l → l < i → ¬ Sends ticks sent K .resolve l

end TickRecord

namespace Monitor

variable (T : IpText)

/-- The ticks of a run. -/
def ticks (m : Monitor) (events : List Event) : List TickRecord :=
  events.zipIdx.filterMap fun (e, k) =>
    match e with
    | .tick currentTime now => some ⟨k, currentTime, now, (m.run T (events.take k)).1.flows⟩
    | _ => none

variable {T}

theorem ticks_concat (m : Monitor) (events : List Event) (e : Event) : m.ticks T (events ++ [e]) =
    m.ticks T events ++
      match e with
      | .tick currentTime now => [⟨events.length, currentTime, now, (m.run T events).1.flows⟩]
      | _ => [] := by
  unfold ticks
  rw [List.zipIdx_append, List.filterMap_append]
  congr 1
  · refine List.filterMap_congr fun x hx => ?_
    obtain ⟨e', k⟩ := x
    have hk : k < events.length := List.snd_lt_of_mem_zipIdx hx
    cases e' <;> simp [List.take_append_of_le_length hk.le]
  · cases e <;> simp

end Monitor

/-! ## What the alert of a key has seen -/

theorem AlertAction.toString_injective : Function.Injective AlertAction.toString := by
  intro x y
  cases x <;> cases y <;> decide

theorem AlertInstance.after_congr {a : AlertInstance} {rate rate' : ℕ → ℚ} {time time' : ℕ → Instant} {k : ℕ}
    (h : ∀ i < k, rate i = rate' i ∧ time i = time' i) : a.after rate time k = a.after rate' time' k := by
  induction k with
  | zero => rfl
  | succ k ih =>
    obtain ⟨hr, ht⟩ := h k (Nat.lt_succ_self k)
    rw [after, after, ih fun i hi => h i (hi.trans (Nat.lt_succ_self k)), hr, ht]

theorem AlertInstance.actionAt_congr {a : AlertInstance} {rate rate' : ℕ → ℚ} {time time' : ℕ → Instant} {k : ℕ}
    (h : ∀ i ≤ k, rate i = rate' i ∧ time i = time' i) : a.actionAt rate time k = a.actionAt rate' time' k := by
  obtain ⟨hr, ht⟩ := h k le_rfl
  rw [actionAt, actionAt, after_congr fun i hi => h i hi.le, hr, ht]

/-- The alerts of a key are rebuilt as all alerts are. -/
theorem forall₂_alertsOf {K : AlertKey} {l l' : List AlertInstance} (h : List.Forall₂ Rebuilt l l') :
    List.Forall₂ Rebuilt (alertsOf K l) (alertsOf K l') := by
  refine List.rel_filter (fun a a' hreb => ?_) h
  show decide (a.key = K) = true ↔ decide (a'.key = K) = true
  rw [hreb.key_eq]

section Follow

variable {T : IpText} {a : AlertInstance} {W : ℕ} {d : Daemon} {m : Monitor} {ticks : List TickRecord}
  {r : TickRecord} {sent : List (List AlertPayload)}

theorem TickRecord.values_concat {i : ℕ} (hi : i < ticks.length) :
    traffic (ticks ++ [r]) T a W i = traffic ticks T a W i ∧ clock (ticks ++ [r]) i = clock ticks i := by
  simp only [traffic, clock, List.getElem?_append_left hi, and_self]

/-- The alert of the key stands where the traffic has brought it, and each tick has sent what the alert did. -/
structure Follows (T : IpText) (a : AlertInstance) (W : ℕ) (d : Daemon) (sent : List (List AlertPayload))
    (ticks : List TickRecord) : Prop where
  alert : ∃ b, alertsOf a.key d.alertManager.alerts = [b] ∧ Rebuilt a b ∧
    b.state = (a.after (TickRecord.traffic ticks T a W) (TickRecord.clock ticks) ticks.length).state
  sent : ∀ i r, ticks[i]? = some r → r.event < sent.length ∧
    (traceOf a.key (sent.getD r.event [])).map Prod.fst =
      (a.actionAt (TickRecord.traffic ticks T a W) (TickRecord.clock ticks) i).toList.map AlertAction.toString

/-- **Another event** keeps the alerts. -/
theorem Follows.other {d' : Daemon} (h : Follows T a W d sent ticks)
    (halerts : d'.alertManager.alerts = d.alertManager.alerts) (payloads : List AlertPayload) :
    Follows T a W d' (sent ++ [payloads]) ticks := by
  refine ⟨halerts ▸ h.alert, fun i r hr => ?_⟩
  obtain ⟨hlt, hsent⟩ := h.sent i r hr
  refine ⟨by rw [List.length_append]; omega, ?_⟩
  rw [← hsent, List.getD_eq_getElem?_getD, List.getElem?_append_left hlt, List.getD_eq_getElem?_getD]

/-- **A tick** evaluates the alert at the rate of its traffic. -/
theorem Follows.tick (h : Follows T a W d sent ticks) (hR : Refines T d m) (hW : m.windowSecs = W)
    {currentTime : ℕ} {now : Instant} (ht : m.Timely (.tick currentTime now)) (orders : TickOrders) :
    Follows T a W (d.tick T orders currentTime now).1 (sent ++ [(d.tick T orders currentTime now).2])
      (ticks ++ [⟨sent.length, currentTime, now, m.flows⟩]) := by
  obtain ⟨b, hb, hreb, hstate⟩ := h.alert
  obtain ⟨t, alerts, hev, htick⟩ := Daemon.tick_eq (T := T) orders d currentTime now
  obtain ⟨b', n, hb', hstate', -, -, -, htrace⟩ := hev.single_of hb
  have hmem : b ∈ m.alerts := hR.alerts ▸ List.mem_of_mem_filter (hb ▸ List.mem_singleton_self b)
  have hrate : b.rate (d.processor.computeAllRates T orders.rates currentTime) =
      a.trafficRate T W currentTime m.flows := by
    rw [hR.rate ht orders.rates hmem, hW, hreb]
    rfl
  rw [htick]
  set ticks' := ticks ++ [TickRecord.mk sent.length currentTime now m.flows] with hticks
  have hlast : TickRecord.traffic ticks' T a W ticks.length = a.trafficRate T W currentTime m.flows ∧
      TickRecord.clock ticks' ticks.length = now := by
    simp [hticks, TickRecord.traffic, TickRecord.clock]
  have hafter : a.after (TickRecord.traffic ticks' T a W) (TickRecord.clock ticks') ticks.length =
      a.after (TickRecord.traffic ticks T a W) (TickRecord.clock ticks) ticks.length :=
    AlertInstance.after_congr fun i hi => TickRecord.values_concat hi
  have hstep : (b.evaluate (a.trafficRate T W currentTime m.flows) now).1.state =
        (a.after (TickRecord.traffic ticks' T a W) (TickRecord.clock ticks') (ticks.length + 1)).state ∧
      (b.evaluate (a.trafficRate T W currentTime m.flows) now).2 =
        a.actionAt (TickRecord.traffic ticks' T a W) (TickRecord.clock ticks') ticks.length := by
    rw [AlertInstance.after, AlertInstance.actionAt, hlast.1, hlast.2, hafter]
    have htwin : Twin (a.after (TickRecord.traffic ticks T a W) (TickRecord.clock ticks) ticks.length) b := by
      refine ⟨?_, hstate⟩
      rw [AlertInstance.after_frame]
      exact hreb
    exact htwin.evaluate _ _
  refine ⟨⟨b', hb', ?_, ?_⟩, fun i r hr => ?_⟩
  · have hall := forall₂_alertsOf (K := a.key) hev.rebuilt
    rw [hb, hb'] at hall
    cases hall with
    | cons hreb' _ => exact hreb.trans hreb'
  · rw [hstate', hrate, hstep.1, hticks, List.length_append]
    rfl
  · rw [hticks] at hr
    by_cases hi : i < ticks.length
    · rw [List.getElem?_append_left hi] at hr
      have hother : Follows T a W d (sent ++ [t.payloads]) ticks := h.other rfl t.payloads
      obtain ⟨hlt, hsent⟩ := hother.sent i r hr
      refine ⟨hlt, hsent.trans ?_⟩
      refine congrArg (fun o => List.map AlertAction.toString o.toList)
        (AlertInstance.actionAt_congr fun j hj => ?_)
      obtain ⟨h1, h2⟩ := TickRecord.values_concat (r := ⟨sent.length, currentTime, now, m.flows⟩) (T := T) (a := a)
        (W := W) (hj.trans_lt hi)
      exact ⟨h1.symm, h2.symm⟩
    · obtain ⟨rfl, rfl⟩ : i = ticks.length ∧ r = ⟨sent.length, currentTime, now, m.flows⟩ := by
        rw [List.getElem?_append_right (by omega)] at hr
        obtain ⟨h0, hr⟩ := List.getElem?_eq_some_iff.mp hr
        simp only [List.length_singleton] at h0
        exact ⟨by omega, by simpa using hr.symm⟩
      refine ⟨by simp, ?_⟩
      have hget : (sent ++ [t.payloads]).getD sent.length [] = t.payloads := by simp
      rw [← hstep.2, hget, htrace, AlertInstance.reaction, hrate]
      simp [traceOf]

/-- An event that is no tick keeps the alerts. -/
theorem steady_alerts {orders : TickOrders} {e : Event} {d' : Daemon} {payloads : List AlertPayload}
    (he : e.Steady) (hno : ∀ currentTime now, e ≠ .tick currentTime now)
    (hs : d.step T orders e = some (d', payloads)) : d'.alertManager.alerts = d.alertManager.alerts := by
  cases e with
  | receive samplerAddress flow =>
    cases hs
    unfold Daemon.receive
    split_ifs <;> rfl
  | process =>
    obtain ⟨d₁, h₁, heq⟩ := Option.map_eq_some_iff.mp hs
    cases heq
    unfold Daemon.process at h₁
    split at h₁
    · cases h₁
      rfl
    · obtain ⟨p, -, heq⟩ := Option.bind_eq_some_iff.mp h₁
      cases heq
      rfl
  | tick currentTime now => exact absurd rfl (hno currentTime now)
  | reload parsed => exact he.elim

/-- Without a reload the window stays. -/
theorem Monitor.windowSecs_step {e : Event} (he : e.Steady) : (m.step T e).1.windowSecs = m.windowSecs := by
  cases e with
  | receive samplerAddress flow =>
    unfold step receive
    simp only
    split_ifs <;> rfl
  | process =>
    unfold step process
    simp only
    split <;> rfl
  | tick currentTime now => rfl
  | reload parsed => exact he.elim

/-- **A run** without reloads, from a daemon whose alert of the key is as it was built. -/
theorem Follows.run (hR : Refines T d m) (hd : alertsOf a.key d.alertManager.alerts = [a])
    (hW : m.windowSecs = W) {events : List Event} (hsteady : ∀ e ∈ events, e.Steady) (ht : m.TimelyRun T events)
    (orders : ℕ → TickOrders) : ∃ s, d.run T orders events = some s ∧ Refines T s.1 (m.run T events).1 ∧
      s.2.length = events.length ∧ (m.run T events).1.windowSecs = W ∧
      Follows T a W s.1 s.2 (m.ticks T events) := by
  induction events using List.reverseRecOn with
  | nil =>
    refine ⟨(d, []), rfl, hR, rfl, hW, ⟨a, hd, Rebuilt.refl a, rfl⟩, fun i r hr => ?_⟩
    simp [Monitor.ticks] at hr
  | append_singleton events e ih =>
    obtain ⟨hbefore, hlast⟩ := ht.concat
    have he := hsteady e (by simp)
    obtain ⟨s, hs, hr, hlen, hw, hf⟩ := ih (fun e' he' => hsteady e' (List.mem_append_left _ he')) hbefore
    obtain ⟨d', payloads, hstep, hr', -⟩ := hr.step hlast (orders events.length)
    have hrun : d.run T orders (events ++ [e]) = some (d', s.2 ++ [payloads]) := by
      rw [Daemon.run_concat, hs]
      simp [hstep]
    refine ⟨_, hrun, by rw [Monitor.run_concat]; exact hr', by simp [hlen], ?_, ?_⟩
    · rw [Monitor.run_concat]
      exact (Monitor.windowSecs_step he).trans hw
    · rw [Monitor.ticks_concat]
      cases e with
      | tick currentTime now =>
        cases hstep
        have htick := hf.tick hr hw hlast (orders events.length)
        rw [hlen] at htick
        exact htick
      | _ =>
        rw [List.append_nil]
        exact hf.other (steady_alerts he (by simp) hstep) payloads

/-- What a tick sends is what the alert does in it. -/
theorem Follows.sends_iff (h : Follows T a W d sent ticks) {action : AlertAction} {i : ℕ} :
    TickRecord.Sends ticks sent a.key action i ↔ i < ticks.length ∧
      a.actionAt (TickRecord.traffic ticks T a W) (TickRecord.clock ticks) i = some action := by
  have hiff : ∀ r, ticks[i]? = some r → ((∃ payload ∈ sent.getD r.event [], payload.isFor a.key ∧
      payload.action = action.toString) ↔
        a.actionAt (TickRecord.traffic ticks T a W) (TickRecord.clock ticks) i = some action) := by
    intro r hr
    have hmem : (∃ payload ∈ sent.getD r.event [], payload.isFor a.key ∧ payload.action = action.toString) ↔
        action.toString ∈ (traceOf a.key (sent.getD r.event [])).map Prod.fst := by
      simp [traceOf, and_assoc]
    rw [hmem, (h.sent i r hr).2]
    cases a.actionAt (TickRecord.traffic ticks T a W) (TickRecord.clock ticks) i with
    | none => simp
    | some action' => simp [AlertAction.toString_injective.eq_iff, eq_comm]
  constructor
  · rintro ⟨r, hr, hsent⟩
    exact ⟨(List.getElem?_eq_some_iff.mp hr).1, (hiff r hr).mp hsent⟩
  · rintro ⟨hi, haction⟩
    have hr : ticks[i]? = some ticks[i] := List.getElem?_eq_getElem hi
    exact ⟨_, hr, (hiff _ hr).mpr haction⟩

theorem Follows.openBefore_iff (h : Follows T a W d sent ticks) {i : ℕ} (hi : i ≤ ticks.length) :
    TickRecord.OpenBefore ticks sent a.key i ↔
      a.OpenAt (TickRecord.traffic ticks T a W) (TickRecord.clock ticks) i := by
  simp only [TickRecord.OpenBefore, AlertInstance.OpenAt, h.sends_iff]
  refine exists_congr fun j => and_congr_right fun hj => and_congr ?_ ?_
  · simp [hj.trans_le hi]
  · refine forall_congr' fun l => forall_congr' fun _ => forall_congr' fun hl => ?_
    simp [hl.trans_le hi]

/-- Clocks in order. -/
theorem TickRecord.clock_mono (h : (ticks.map TickRecord.now).Pairwise (· ≤ ·)) {i j : ℕ} (hij : i ≤ j)
    (hj : j < ticks.length) : clock ticks i ≤ clock ticks j := by
  rcases hij.lt_or_eq with hlt | rfl
  · have hi := hlt.trans hj
    have hle := List.pairwise_iff_getElem.mp h i j (by simpa using hi) (by simpa using hj) hlt
    simpa [clock, List.getElem?_eq_getElem hi, List.getElem?_eq_getElem hj] using hle
  · exact le_rfl

end Follow

/-! ## Attacks -/

section Attacks

variable (T : IpText) (c : Config) (d : Daemon) (hd : Daemon.start T (.ok c) = .ok d)
  (hW : 1 ≤ c.global.window.asSecs) (a : AlertInstance) (ha : alertsOf a.key (c.buildAlerts T) = [a])
  (orders : ℕ → TickOrders) (events : List Event) (hsteady : ∀ e ∈ events, e.Steady)
  (ht : (Monitor.start T c).TimelyRun T events)

include hd hW ha hsteady ht

theorem run_follows : a.state = .normal ∧ ∃ s, d.run T orders events = some s ∧
    Follows T a c.global.window.asSecs s.1 s.2 ((Monitor.start T c).ticks T events) := by
  have hR := Refines.start hd hW
  obtain ⟨s, hs, -, -, -, hf⟩ := Follows.run hR (a := a) (by rw [hR.alerts]; exact ha) rfl hsteady ht orders
  exact ⟨(buildAlerts_idle (List.mem_of_mem_filter (ha ▸ List.mem_singleton_self a))).1, s, hs, hf⟩

/-- **No false alarms.**  In a run without reloads, with flows and ticks in time, a trigger for a key that the
configuration has once comes only if no alarm was open and the traffic of the prefix, protocol and direction has
been at or above the trigger threshold in every tick of the trigger duration; and a resolve only if an alarm was
open and the traffic has been below the recover threshold in every tick of the recover duration. -/
theorem alarms_justified : ∃ s, d.run T orders events = some s ∧
    let ticks := (Monitor.start T c).ticks T events
    let traffic := TickRecord.traffic ticks T a c.global.window.asSecs
    let clock := TickRecord.clock ticks
    (∀ n, TickRecord.Sends ticks s.2 a.key .fire n → ¬ TickRecord.OpenBefore ticks s.2 a.key n ∧
      ∃ j < n, (∀ l, j ≤ l → l ≤ n → F64.le a.triggerThreshold (.num (traffic l)) = true) ∧
        a.triggerFor ≤ (clock n).durationSince (clock j)) ∧
    ∀ n, TickRecord.Sends ticks s.2 a.key .resolve n → TickRecord.OpenBefore ticks s.2 a.key n ∧
      ∃ j < n, (∀ l, j ≤ l → l ≤ n → F64.lt (.num (traffic l)) a.recoverThreshold = true) ∧
        a.recoverFor ≤ (clock n).durationSince (clock j) := by
  obtain ⟨hidle, s, hs, hf⟩ := run_follows T c d hd hW a ha orders events hsteady ht
  refine ⟨s, hs, fun n hsends => ?_, fun n hsends => ?_⟩
  · obtain ⟨hn, haction⟩ := hf.sends_iff.mp hsends
    rw [hf.openBefore_iff hn.le]
    exact ⟨AlertInstance.closed_of_fire hidle haction, AlertInstance.lasting_of_fire hidle haction⟩
  · obtain ⟨hn, haction⟩ := hf.sends_iff.mp hsends
    rw [hf.openBefore_iff hn.le]
    exact ⟨AlertInstance.open_of_resolve hidle haction, AlertInstance.lasting_of_resolve hidle haction⟩

/-- **Attacks are detected**, and their ends.  In such a run with clocks in order, let `i < n` be two ticks.  If no
alarm is open before `i`, the traffic is at or above the trigger threshold in all ticks from `i` to `n`, and they
span the trigger duration, then one of them sends a trigger; if an alarm is open before `i`, the traffic is below
the recover threshold in all of them, and they span the recover duration, then one of them sends a resolve. -/
theorem attacks_detected (hclock : (((Monitor.start T c).ticks T events).map TickRecord.now).Pairwise (· ≤ ·)) :
    ∃ s, d.run T orders events = some s ∧
    let ticks := (Monitor.start T c).ticks T events
    let traffic := TickRecord.traffic ticks T a c.global.window.asSecs
    let clock := TickRecord.clock ticks
    ∀ i n, i < n → n < ticks.length →
      (¬ TickRecord.OpenBefore ticks s.2 a.key i →
        (∀ l, i ≤ l → l ≤ n → F64.le a.triggerThreshold (.num (traffic l)) = true) →
        a.triggerFor ≤ (clock n).durationSince (clock i) →
        ∃ l, i ≤ l ∧ l ≤ n ∧ TickRecord.Sends ticks s.2 a.key .fire l) ∧
      (TickRecord.OpenBefore ticks s.2 a.key i →
        (∀ l, i ≤ l → l ≤ n → F64.lt (.num (traffic l)) a.recoverThreshold = true) →
        a.recoverFor ≤ (clock n).durationSince (clock i) →
        ∃ l, i ≤ l ∧ l ≤ n ∧ TickRecord.Sends ticks s.2 a.key .resolve l) := by
  obtain ⟨hidle, s, hs, hf⟩ := run_follows T c d hd hW a ha orders events hsteady ht
  refine ⟨s, hs, ?_⟩
  intro ticks traffic clock i n hin hn
  have htime : ∀ l l', l ≤ l' → l' ≤ n → clock l ≤ clock l' :=
    fun l l' h h' => TickRecord.clock_mono hclock h (h'.trans_lt hn)
  rw [hf.openBefore_iff (hin.le.trans hn.le)]
  refine ⟨fun hclosed hhigh hlasts => ?_, fun hopen hlow hlasts => ?_⟩
  · obtain ⟨l, hil, hln, haction⟩ := AlertInstance.fire_of_lasting hidle hclosed hin htime hhigh hlasts
    exact ⟨l, hil, hln, hf.sends_iff.mpr ⟨hln.trans_lt hn, haction⟩⟩
  · obtain ⟨l, hil, hln, haction⟩ := AlertInstance.resolve_of_lasting hidle hopen hin htime hlow hlasts
    exact ⟨l, hil, hln, hf.sends_iff.mpr ⟨hln.trans_lt hn, haction⟩⟩

end Attacks

/-- The alert of 10.2.3.0/24. -/
def instantAlert : AlertInstance :=
  { state := .normal
    alertId := .nil
    ipPrefix := "10.2.3.0/24"
    protocol := .any
    direction := .inbound
    metric := .bps
    triggerThreshold := .num 100
    recoverThreshold := .num 100
    triggerFor := 0
    recoverFor := 0
    mitigationUpdateInterval := defaultMitigationUpdateInterval
    labels := ∅ }

theorem alarms_justified_twoAttacks : ∃ d s, Daemon.start IpText.dotted (.ok instant) = .ok d ∧
    d.run IpText.dotted storedOrders twoAttacks = some s ∧
    let ticks := (Monitor.start IpText.dotted instant).ticks IpText.dotted twoAttacks
    let traffic := TickRecord.traffic ticks IpText.dotted instantAlert 10
    ∀ n, TickRecord.Sends ticks s.2 instantAlert.key .fire n →
      ∃ j < n, ∀ l, j ≤ l → l ≤ n → F64.le (.num 100) (.num (traffic l)) = true := by
  have hsome : (Daemon.start IpText.dotted (.ok instant)).toOption.isSome = true := by decide
  obtain ⟨d, hd⟩ := Option.isSome_iff_exists.mp hsome
  obtain ⟨s, hs, hfire, -⟩ := alarms_justified IpText.dotted instant d (Fold.except_toOption.mp hd) (by decide)
    instantAlert rfl storedOrders twoAttacks (by simp [twoAttacks, Event.Steady]) (by decide)
  refine ⟨d, s, Fold.except_toOption.mp hd, hs, fun n hn => ?_⟩
  obtain ⟨-, j, hj, hhigh, -⟩ := hfire n hn
  exact ⟨j, hj, hhigh⟩

/-- The first attack is reported in one of its two ticks. -/
theorem attacks_detected_twoAttacks : ∃ d s, Daemon.start IpText.dotted (.ok instant) = .ok d ∧
    d.run IpText.dotted storedOrders twoAttacks = some s ∧
    ∃ l ≤ 1, TickRecord.Sends ((Monitor.start IpText.dotted instant).ticks IpText.dotted twoAttacks) s.2
      instantAlert.key .fire l := by
  have hsome : (Daemon.start IpText.dotted (.ok instant)).toOption.isSome = true := by decide
  obtain ⟨d, hd⟩ := Option.isSome_iff_exists.mp hsome
  obtain ⟨s, hs, hdetect⟩ := attacks_detected IpText.dotted instant d (Fold.except_toOption.mp hd) (by decide)
    instantAlert rfl storedOrders twoAttacks (by simp [twoAttacks, Event.Steady]) (by decide)
    (by decide)
  have hhigh : ∀ l ≤ 1, F64.le instantAlert.triggerThreshold (.num (TickRecord.traffic
      ((Monitor.start IpText.dotted instant).ticks IpText.dotted twoAttacks) IpText.dotted instantAlert 10 l)) =
        true := by
    decide +kernel
  obtain ⟨l, -, hl, hsends⟩ := (hdetect 0 1 (by decide) (by decide)).1
    (fun ⟨j, hj, _⟩ => absurd hj (Nat.not_lt_zero j)) (fun l _ hl => hhigh l hl) (Nat.zero_le _)
  exact ⟨d, s, Fold.except_toOption.mp hd, hs, l, hl, hsends⟩

end NetAlert

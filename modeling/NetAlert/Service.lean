import NetAlert.Monitor
import NetAlert.Tasks

/-!
# NetAlert.Service — what is seen of the daemon while its tasks run side by side

`Tasks` says how the tasks interleave at their locks, and `Monitor` what the daemon is for.  Here they meet: the
monitor gets pages of its own, with the exact rates of every threshold.

* `Serves.step`: the rules of the daemon are those of the configuration in force.
* `service_refines_monitor`: in every interleaving the payloads sent are those of the monitor, and every page shows
  its exact rates in one tick, with its alert states after that tick or the one before.
-/

namespace NetAlert

/-! ## The pages of the monitor -/

/-- The configuration that a reload puts in force, if it loads and none of its prefixes has host bits. -/
def Event.installs (T : IpText) : Event → Option Config
  | .reload parsed =>
    (Config.load T parsed).toOption.filter fun c => c.rules.all fun r => r.ipPrefix.trunc = r.ipPrefix
  | _ => none

/-- The configuration in force after some events. -/
def Config.after (T : IpText) (c : Config) (events : List Event) : Config :=
  (events.filterMap (Event.installs T)).getLast?.getD c

/-- The rates of the flows of the window, for each threshold of each rule. -/
def Config.exactRates (T : IpText) (c : Config) (windowSecs currentTime : ℕ) (flows : List FlowRecord) :
    List RateSnapshot :=
  c.rules.flatMap fun r => r.bufferKeys.map fun k =>
    exactSnapshot T windowSecs r k (r.windowFlows k windowSecs currentTime flows)

abbrev Page := List RateSnapshot × List AlertStateSnapshot

/-- The same page, with its rates in any order. -/
def Page.Same (page page' : Page) : Prop := page.1.Perm page'.1 ∧ page.2 = page'.2

namespace Monitor

variable (T : IpText)

/-- What the monitor shows from event `i` of a run on. -/
def display (m : Monitor) (c : Config) (events : List Event) (i : ℕ) : Option Page :=
  let before := events.take i
  let m' := (m.run T before).1
  match events[i]? with
  | some (.tick currentTime now) => some ((c.after T before).exactRates T m'.windowSecs currentTime m'.flows,
      AlertManager.stateSnapshots ⟨(m'.tick T currentTime now).1.alerts, none⟩)
  | _ => none

/-- What the monitor shows in a run, tick by tick. -/
def displays (m : Monitor) (c : Config) (events : List Event) : List Page :=
  (List.range events.length).filterMap (m.display T c events)

variable {T}

theorem TimelyRun.take {m : Monitor} {events : List Event} (h : m.TimelyRun T events) (i : ℕ) :
    m.TimelyRun T (events.take i) := by
  intro e he
  rw [List.mem_zipIdx_iff_getElem?, List.getElem?_take] at he
  split_ifs at he with hlt
  rw [List.take_take, min_eq_left hlt.le]
  exact h e (List.mem_zipIdx_iff_getElem?.mpr he)

theorem TimelyRun.getElem {m : Monitor} {events : List Event} (h : m.TimelyRun T events) {i : ℕ} {e : Event}
    (he : events[i]? = some e) : (m.run T (events.take i)).1.Timely e :=
  h (e, i) (List.mem_zipIdx_iff_getElem?.mpr he)

end Monitor

/-! ## The rules in force -/

/-- The layout of a configured rule. -/
structure RuleLayout.Of (r : RuleConfig) (l : RuleLayout) : Prop where
  ipPrefix : l.ipPrefix = r.ipPrefix
  labels : l.labels = r.labels
  sizes : ∀ k, (l.sizes k).isSome = true ↔ k ∈ r.bufferKeys

/-- The daemon refines the monitor, and its rules are those of the configuration. -/
structure Serves (T : IpText) (c : Config) (d : Daemon) (m : Monitor) : Prop where
  refines : Refines T d m
  rules : List.Forall₂ RuleLayout.Of c.rules d.processor.layout.rules

section Rules

variable {T : IpText} {c : Config} {d : Daemon} {m : Monitor} {r r' : RuleConfig} {W : ℕ} {flows : List FlowRecord}
  {rule : ProcessedRule}

theorem isSome_sizes (rule : ProcessedRule) (k : BufferKey) :
    (rule.layout.sizes k).isSome = (rule.buffers.lookup k).isSome := by
  simp [ProcessedRule.layout, bufferSizes]

theorem Built.layout {cap : ℕ} (h : Built r W cap rule) : RuleLayout.Of r rule.layout where
  ipPrefix := h.ipPrefix
  labels := h.labels
  sizes k := by
    rw [isSome_sizes, h.buffers]
    split_ifs with hk <;> simp [hk]

/-- Which of the rules with its layout has counted for it does not matter. -/
theorem Counts.transfer (h : Counts r' W flows rule) (hof : RuleLayout.Of r rule.layout) :
    Counts r W flows rule := by
  have hnet : r'.ipPrefix = r.ipPrefix := h.ipPrefix.symm.trans hof.ipPrefix
  have hsizes : ∀ k, (rule.buffers.lookup k).isSome = true ↔ k ∈ r.bufferKeys := by
    intro k
    rw [← isSome_sizes, hof.sizes k]
  have hadds : ∀ k, r'.adds k flows = r.adds k flows := by
    intro k
    refine congrArg (List.map _) (List.filter_congr fun f _ => decide_eq_decide.mpr ?_)
    rw [RuleConfig.Hits, RuleConfig.Hits, hnet]
  refine ⟨hof.ipPrefix, h.network.trans hnet, hof.labels, fun k hk => ?_, fun k hk => ?_⟩
  · exact Option.not_isSome_iff_eq_none.mp fun hsome => hk ((hsizes k).mp hsome)
  · obtain ⟨b, hb⟩ := Option.isSome_iff_exists.mp ((hsizes k).mpr hk)
    obtain ⟨-, hlength, hring⟩ := h.lookup_cases hb
    exact ⟨b, hb, hlength, by rw [hring, hadds]⟩

/-- A rule shows the exact rates of its thresholds. -/
theorem Counts.shows (h : Counts r W flows rule)
    (hflows : flows.Pairwise fun f g => f.timeReceived < g.timeReceived + W) {now : ℕ} (hW : W ≤ now + 1)
    (hnow : ∀ f ∈ flows, f.timeReceived ≤ now) (ord : HashOrder) :
    ((ord.iter rule.buffers.toPairs).map (FlowProcessor.snapshot T now rule)).Perm
      (r.bufferKeys.map fun k => exactSnapshot T W r k (r.windowFlows k W now flows)) := by
  have hsnapshots : rule.buffers.toPairs.map (FlowProcessor.snapshot T now rule) =
      (rule.buffers.toPairs.map Prod.fst).map fun k => exactSnapshot T W r k (r.windowFlows k W now flows) := by
    rw [List.map_map]
    exact List.map_congr_left fun e he => h.snapshot T hflows hW hnow he
  exact ((ord.perm _).map _).trans (hsnapshots ▸ h.keys_perm.map _)

/-- **Rates**: what a tick computes is what the monitor shows. -/
theorem Serves.rates (h : Serves T c d m) {currentTime : ℕ} {now : Instant}
    (ht : m.Timely (.tick currentTime now)) (ord : HashOrder) :
    (d.processor.computeAllRates T ord currentTime).Perm (c.exactRates T m.windowSecs currentTime m.flows) := by
  obtain ⟨c', -, hcounts⟩ := h.refines.loaded
  have hrules : List.Forall₂ (fun rule r => Counts r m.windowSecs m.flows rule) d.processor.rules c.rules := by
    refine (Relate.forall₂_mem (List.forall₂_map_right_iff.mp h.rules)).flip.imp ?_
    rintro rule r ⟨-, hrule, hof⟩
    obtain ⟨r', -, hr'⟩ := Relate.forall₂_left_of_mem hcounts hrule
    exact hr'.transfer hof
  exact Relate.forall₂_flatMap_perm (fun _ _ hr => hr.shows h.refines.timely ht.1 ht.2 ord) hrules

/-! ## Events -/

theorem Serves.load {p₀ p : FlowProcessor} (hp : p₀.reloadConfig T c = .ok p) (h : Refines T d m)
    (hd : d.processor = p) : Serves T c d m := by
  refine ⟨h, ?_⟩
  rw [hd]
  exact List.forall₂_map_right_iff.mpr ((reloadConfig_ok hp).1.imp fun _ _ hbuilt => hbuilt.layout)

theorem Serves.start (hd : Daemon.start T (.ok c) = .ok d) (hW : 1 ≤ c.global.window.asSecs) :
    Serves T c d (Monitor.start T c) := by
  have hrefines := Refines.start hd hW
  obtain ⟨-, p, hp, rfl⟩ := Daemon.start_ok hd
  exact .load hp hrefines rfl

/-- **A reload** puts its configuration in force or leaves the rules alone. -/
theorem Serves.reload (h : Serves T c d m) (parsed : Except String Config) :
    Serves T (((Event.reload parsed).installs T).getD c) (d.reloadConfig T parsed) (m.reload T parsed) := by
  have hrefines := h.refines.reload parsed
  cases hload : Config.load T parsed with
  | error e =>
    have hsame : d.reloadConfig T parsed = d := by simp only [Daemon.reloadConfig, hload]
    refine ⟨hrefines, ?_⟩
    rw [hsame, Event.installs, hload]
    exact h.rules
  | ok c' =>
    cases hp : d.processor.reloadConfig T c' with
    | ok p =>
      have hinstalls : (Event.reload parsed).installs T = some c' := by
        simpa [Event.installs, hload, Except.toOption, Option.filter_eq_some_iff] using trunc_eq_of_reload hp
      rw [hinstalls]
      exact .load hp hrefines (by simp only [Daemon.reloadConfig, hload, hp])
    | error e =>
      have hbits : ¬ ∀ r ∈ c'.rules, r.ipPrefix.trunc = r.ipPrefix := by
        intro hbits
        obtain ⟨p, hp'⟩ := reloadConfig_total T d.processor hbits
        cases hp.symm.trans hp'
      have hinstalls : (Event.reload parsed).installs T = none := by
        simpa [Event.installs, hload, Except.toOption, Option.filter_eq_none_iff] using hbits
      refine ⟨hrefines, ?_⟩
      rw [hinstalls]
      simp only [Daemon.reloadConfig, hload, hp]
      exact h.rules

/-- **One event.** -/
theorem Serves.step (h : Serves T c d m) {e : Event} (ht : m.Timely e) (orders : TickOrders) :
    ∃ d' payloads, d.step T orders e = some (d', payloads) ∧ Serves T ((e.installs T).getD c) d' (m.step T e).1 ∧
      payloads.map AlertPayload.bare = (m.step T e).2 := by
  obtain ⟨d', payloads, hstep, hrefines, hsent⟩ := h.refines.step ht orders
  refine ⟨d', payloads, hstep, ?_, hsent⟩
  cases e with
  | reload parsed =>
    cases hstep
    exact h.reload parsed
  | receive | process | tick =>
    refine ⟨hrefines, ?_⟩
    rw [step_layout (by trivial) hstep]
    exact h.rules

theorem Config.after_concat (T : IpText) (c : Config) (events : List Event) (e : Event) :
    c.after T (events ++ [e]) = (e.installs T).getD (c.after T events) := by
  rw [Config.after, List.filterMap_append, List.getLast?_append]
  cases he : e.installs T <;> simp [he, Config.after]

/-- **Runs.** -/
theorem Serves.run (h : Serves T c d m) {events : List Event} (ht : m.TimelyRun T events)
    (orders : ℕ → TickOrders) : ∃ s, d.run T orders events = some s ∧
      Serves T (c.after T events) s.1 (m.run T events).1 ∧
      s.2.map (List.map AlertPayload.bare) = (m.run T events).2 := by
  refine simulates (R := fun before => Serves T (c.after T before))
    (fun before e d m orders h ht => ?_) h ht orders
  rw [Config.after_concat]
  exact h.step ht orders

/-! ## Pages -/

/-- **An event** shows what it shows in the monitor. -/
theorem Serves.display (h : Serves T c d m) {events : List Event} (ht : m.TimelyRun T events)
    (orders : ℕ → TickOrders) (i : ℕ) :
    Option.Rel Page.Same (d.display T orders events i) (m.display T c events i) := by
  obtain ⟨s, hs, hserves, -⟩ := h.run (ht.take i) orders
  rw [Daemon.display, hs, Monitor.display]
  cases he : events[i]? with
  | none => exact .none
  | some e =>
    cases e with
    | tick currentTime now =>
      have htick := ht.getElem he
      obtain ⟨hafter, -⟩ := hserves.refines.tick htick (orders i)
      refine .some ⟨hserves.rates htick _, ?_⟩
      simp only [AlertManager.stateSnapshots, hafter.alerts]
    | _ => exact .none

/-- **Runs.** -/
theorem Serves.displays (h : Serves T c d m) {events : List Event} (ht : m.TimelyRun T events)
    (orders : ℕ → TickOrders) :
    List.Forall₂ Page.Same (d.displays T orders events) (m.displays T c events) := by
  have hsame : List.Forall₂ (fun i j => i = j) (List.range events.length) (List.range events.length) :=
    List.forall₂_same.mpr fun _ _ => rfl
  refine List.rel_filterMap ?_ hsame
  rintro i _ rfl
  exact h.display ht orders i

end Rules

/-- **The service.**  In any interleaving of the sections of the tasks in which no tick falls between the last two
sections of a reload, and whose flows come in time, the daemon sends the payloads of the monitor, suggestions
aside, and has its alerts whenever no reload is under way.  Every page shows, for each threshold of each rule in
force, the exact rates of its traffic in one tick, and the states that the alerts of the monitor have after that
tick or the one before; later pages show no earlier ticks. -/
theorem service_refines_monitor (T : IpText) (c : Config) (d : Daemon) (hd : Daemon.start T (.ok c) = .ok d)
    (hW : 1 ≤ c.global.window.asSecs) (orders : ℕ → TickOrders) (moves : List TaskMove) (s : Tasks)
    (hs : (Tasks.start c d).run T orders moves = some s) (hwhole : (Tasks.start c d).WholeRun T orders moves)
    (ht : (Monitor.start T c).TimelyRun T s.history) :
    let m := (Monitor.start T c).run T s.history
    s.sent.map AlertPayload.bare = m.2.flatten ∧
      (s.system.stage = .idle → s.system.daemon.alertManager.alerts = m.1.alerts) ∧
      ∃ versions ks, List.Forall₂ Page.Same versions
          (([], []) :: (Monitor.start T c).displays T c s.history) ∧
        List.Forall₂ (Publish.Shows versions) s.board.views ks ∧ ks.Pairwise (· ≤ ·) := by
  obtain ⟨d', hlinear⟩ := (Linear.start T orders c d).run hwhole hs
  obtain ⟨payloads, hrun, hsent⟩ := hlinear.events
  have hstart := Serves.start hd hW
  obtain ⟨s', hs', hserves, hbare⟩ := hstart.run ht orders
  obtain rfl := Option.some.inj (hrun.symm.trans hs')
  refine ⟨?_, fun hidle => ?_, ?_⟩
  · rw [← hsent, List.map_flatten, hbare]
  · have hstage := hlinear.stage
    rw [hidle] at hstage
    rw [← hserves.refines.alerts, hstage]
  · obtain ⟨ks, hks, hmono, -⟩ := (run_boardSound ⟨Publish.sound_start [] [], rfl⟩ hs).sound.views
    refine ⟨s.board.versions, ks, ?_, hks, hmono⟩
    rw [hlinear.versions]
    exact .cons ⟨List.Perm.refl _, rfl⟩ (hstart.displays ht orders)

theorem service_refines_monitor_crossing : ∃ d s, Daemon.start IpText.dotted (.ok instant) = .ok d ∧
    (Tasks.start instant d).run IpText.dotted storedOrders crossingTasks = some s ∧
    s.sent.map AlertPayload.bare =
      ((Monitor.start IpText.dotted instant).run IpText.dotted s.history).2.flatten ∧
    (s.sent.map AlertPayload.value, s.board.views.map fun page => page.1.map RateSnapshot.bps) =
      ([8000], [[], [8000], [8000]]) := by
  have hrun : ((Daemon.start IpText.dotted (.ok instant)).toOption.bind fun d =>
      ((Tasks.start instant d).run IpText.dotted storedOrders crossingTasks).map fun s =>
        ((s.sent.map AlertPayload.value, s.board.views.map fun page => page.1.map RateSnapshot.bps),
          decide ((Tasks.start instant d).WholeRun IpText.dotted storedOrders crossingTasks),
          decide ((Monitor.start IpText.dotted instant).TimelyRun IpText.dotted s.history))) =
      some (([8000], [[], [8000], [8000]]), true, true) := by
    decide +kernel
  obtain ⟨d, hd, hrun⟩ := Option.bind_eq_some_iff.mp hrun
  obtain ⟨s, hs, heq⟩ := Option.map_eq_some_iff.mp hrun
  obtain ⟨hseen, heq⟩ := Prod.mk.inj heq
  obtain ⟨hwhole, htimely⟩ := Prod.mk.inj heq
  obtain ⟨hsent, -⟩ := service_refines_monitor IpText.dotted instant d (Fold.except_toOption.mp hd) (by decide)
    storedOrders crossingTasks s hs (of_decide_eq_true hwhole) (of_decide_eq_true htimely)
  exact ⟨d, s, Fold.except_toOption.mp hd, hs, hsent, hseen⟩

end NetAlert

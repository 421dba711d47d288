import NetAlert.Generations
import NetAlert.Lib.Publish
import NetAlert.Pipeline
import NetAlert.Staleness

/-!
# NetAlert.Tasks — the tasks of the daemon at their locks (`main.rs`, `prometheus.rs`)

The receivers, the flow processor, the ticker, the thread of the metrics page and the handler of SIGHUP share their
parts under locks of their own.  A reload takes three of them one after the other, the ticker publishes under two
more, and the page is rendered under both of these.  `Tasks.run` is any interleaving of the sections under locks.

* `pages_consistent`: a page shows one tick, or its rates with the alert states of the tick before.
* `tasks_linearizable`: unless a tick falls between the last two sections of a reload, an interleaving is a run of
  `Daemon`, in which a reload is one event.
-/

namespace NetAlert

abbrev Board := Publish (List RateSnapshot) (List AlertStateSnapshot)

/-- The tasks and what they share.  A receiver may hold a record that it has looked up the rate for and not sent.
`sent` and `history` are histories, which no task reads. -/
structure Tasks where
  system : System
  hands : Source → Option FlowRecord
  board : Board
  sent : List AlertPayload
  history : List Event

inductive TaskMove where
  | lookup (source : Source) (samplerAddress : Option IpAddr) (flow : FlowRecord)
  | send (source : Source)
  | process
  | tick (currentTime : ℕ) (now : Instant)
  | publishSnapshots
  | publishStates
  | readSnapshots
  | readStates
  | respond
  | sighup (parsed : Except String Config)
  | advance

namespace Tasks

/-- After the first load of the configuration. -/
def start (c : Config) (d : Daemon) : Tasks where
  system := ⟨d, .idle, c⟩
  hands := fun _ => none
  board := .start [] []
  sent := []
  history := []

variable (T : IpText) (s : Tasks)

def withDaemon (daemon : Daemon) : Tasks := { s with system := { s.system with daemon := daemon } }

/-- The lock of the exporter rates. -/
def lookup (source : Source) (samplerAddress : Option IpAddr) (flow : FlowRecord) : Option Tasks :=
  match s.hands source with
  | some _ => none
  | none =>
    let flow := match samplerAddress.bind fun address => s.system.daemon.exporterRates.lookup address with
      | some rate => { flow with samplingRate := rate }
      | none => flow
    some { s with hands := Function.update s.hands source (some flow) }

/-- `try_send`. -/
def send (source : Source) : Option Tasks := do
  let flow ← s.hands source
  return { s.withDaemon (s.system.daemon.receive none flow) with
    hands := Function.update s.hands source none
    history := s.history ++ [.receive none flow] }

/-- The lock of the processor. -/
def process : Option Tasks := do
  let daemon ← s.system.daemon.process
  return { s.withDaemon daemon with history := s.history ++ [.process] }

/-- The locks of the processor and, inside, of the alert manager. -/
def tick (orders : TickOrders) (currentTime : ℕ) (now : Instant) : Option Tasks := do
  let snapshots := s.system.daemon.processor.computeAllRates T orders.rates currentTime
  let (daemon, payloads) := s.system.daemon.tick T orders currentTime now
  let board ← s.board.compute snapshots daemon.alertManager.stateSnapshots
  return { s.withDaemon daemon with
    board := board
    sent := s.sent ++ payloads
    history := s.history ++ [.tick currentTime now] }

def onBoard (f : Board → Option Board) : Option Tasks := do
  let board ← f s.board
  return { s with board := board }

/-- The handler of SIGHUP, which enters a reload into the history when it comes to the processor. -/
def reload (orders : TickOrders) (action : Action) : Option Tasks := do
  let system ← s.system.step T orders action
  let history := match s.system.stage with
    | .ratesWritten config => s.history ++ [.reload (.ok config)]
    | _ => s.history
  return { s with system := system, history := history }

/-- One section of any task, if it can go on. -/
def step (orders : ℕ → TickOrders) : TaskMove → Option Tasks
  | .lookup source samplerAddress flow => s.lookup source samplerAddress flow
  | .send source => s.send source
  | .process => s.process
  | .tick currentTime now => s.tick T (orders s.history.length) currentTime now
  | .publishSnapshots => s.onBoard Publish.writeFirst
  | .publishStates => s.onBoard Publish.writeSecond
  | .readSnapshots => s.onBoard Publish.readFirst
  | .readStates => s.onBoard Publish.readSecond
  | .respond => s.onBoard Publish.finish
  | .sighup parsed => s.reload T (orders s.history.length) (.sighup parsed)
  | .advance => s.reload T (orders s.history.length) .advance

def run (orders : ℕ → TickOrders) (moves : List TaskMove) : Option Tasks :=
  moves.foldlM (fun s move => s.step T orders move) s

end Tasks

/-! ## Pages -/

section Pages

variable {T : IpText} {orders : ℕ → TickOrders} {s s' : Tasks}

/-- **One section** leaves the board alone or is a step of the writer or of the reader. -/
theorem step_board {move : TaskMove} (h : s.step T orders move = some s') :
    s'.board = s.board ∨ Publish.Step s.board s'.board := by
  have hon : ∀ f : Board → Option Board, s.onBoard f = some s' → f s.board = some s'.board := by
    intro f h
    obtain ⟨board, hboard, heq⟩ := Option.bind_eq_some_iff.mp h
    cases heq
    exact hboard
  cases move with
  | lookup source samplerAddress flow =>
    left
    simp only [Tasks.step, Tasks.lookup] at h
    split at h
    · cases h
    · cases h
      rfl
  | send source =>
    obtain ⟨flow, -, heq⟩ := Option.bind_eq_some_iff.mp h
    cases heq
    exact .inl rfl
  | process =>
    obtain ⟨daemon, -, heq⟩ := Option.bind_eq_some_iff.mp h
    cases heq
    exact .inl rfl
  | tick currentTime now =>
    obtain ⟨board, hboard, heq⟩ := Option.bind_eq_some_iff.mp h
    cases heq
    exact .inr (.compute _ _ hboard)
  | publishSnapshots => exact .inr (.writeFirst (hon _ h))
  | publishStates => exact .inr (.writeSecond (hon _ h))
  | readSnapshots => exact .inr (.readFirst (hon _ h))
  | readStates => exact .inr (.readSecond (hon _ h))
  | respond => exact .inr (.finish (hon _ h))
  | sighup parsed =>
    obtain ⟨system, -, heq⟩ := Option.bind_eq_some_iff.mp h
    cases heq
    exact .inl rfl
  | advance =>
    obtain ⟨system, -, heq⟩ := Option.bind_eq_some_iff.mp h
    cases heq
    exact .inl rfl

/-- What holds of the board in every interleaving. -/
structure BoardSound (s : Tasks) : Prop where
  sound : s.board.Sound
  empty : s.board.versions.head? = some ([], [])

theorem run_boardSound {moves : List TaskMove} (h : BoardSound s) (hs : s.run T orders moves = some s') :
    BoardSound s' := by
  refine Fold.option_ok BoardSound (fun move s s' hb hstep => ?_) h hs
  rcases step_board hstep with heq | hstep
  · exact ⟨heq ▸ hb.sound, heq ▸ hb.empty⟩
  · obtain ⟨more, hmore⟩ := hstep.versions
    refine ⟨hstep.sound hb.sound, ?_⟩
    rw [← hmore, List.head?_append, hb.empty]
    rfl

/-- **Pages.**  In any interleaving, every page shows the rates computed in a tick and the alert states after that
tick or the tick before; no page shows less recent rates or states than an earlier one.  Before the first tick is
published pages are empty. -/
theorem pages_consistent (T : IpText) (orders : ℕ → TickOrders) (c : Config) (d : Daemon) (moves : List TaskMove)
    (s : Tasks) (hs : (Tasks.start c d).run T orders moves = some s) :
    ∃ ks : List (ℕ × ℕ), List.Forall₂ (Publish.Shows s.board.versions) s.board.views ks ∧ ks.Pairwise (· ≤ ·) ∧
      s.board.versions.head? = some ([], []) := by
  have hboard := run_boardSound ⟨Publish.sound_start [] [], rfl⟩ hs
  obtain ⟨ks, hks, hmono, -⟩ := hboard.sound.views
  exact ⟨ks, hks, hmono, hboard.empty⟩

end Pages

/-! ## Reloads -/

/-- What the ticker computes for the page in event `i` of a run. -/
def Daemon.display (T : IpText) (orders : ℕ → TickOrders) (d : Daemon) (events : List Event) (i : ℕ) :
    Option (List RateSnapshot × List AlertStateSnapshot) := do
  let s ← d.run T orders (events.take i)
  match events[i]? with
  | some (.tick currentTime now) => some (s.1.processor.computeAllRates T (orders i).rates currentTime,
      (s.1.tick T (orders i) currentTime now).1.alertManager.stateSnapshots)
  | _ => none

/-- What the ticker computes for the page in the events of a run. -/
def Daemon.displays (T : IpText) (orders : ℕ → TickOrders) (d : Daemon) (events : List Event) :
    List (List RateSnapshot × List AlertStateSnapshot) :=
  (List.range events.length).filterMap (d.display T orders events)

/-- The daemon beside the tasks, in which a reload is over as soon as the processor is reloaded. -/
def ReloadStage.Matches (T : IpText) : ReloadStage → Daemon → Daemon → Prop
  | .idle, d, d' => d' = d
  | .loaded c, d, d' => c.validate T = .ok () ∧ d' = d
  | .ratesWritten c, d, d' => c.validate T = .ok () ∧ d = { d' with exporterRates := c.exporterSamplingRates }
  | .processorReloaded c, d, d' => d' = { d with alertManager := d.alertManager.reloadConfig T c }

/-- A tick does not fall between the last two sections of a reload. -/
def Tasks.Whole (s : Tasks) : TaskMove → Prop
  | .tick _ _ => ∀ c, s.system.stage ≠ .processorReloaded c
  | _ => True

instance (s : Tasks) : DecidablePred s.Whole
  | .tick _ _ => match h : s.system.stage with
    | .processorReloaded c => .isFalse fun hwhole => hwhole c h
    | .idle => .isTrue fun c hc => by rw [h] at hc; cases hc
    | .loaded _ => .isTrue fun c hc => by rw [h] at hc; cases hc
    | .ratesWritten _ => .isTrue fun c hc => by rw [h] at hc; cases hc
  | .lookup _ _ _ | .send _ | .process | .publishSnapshots | .publishStates | .readSnapshots | .readStates
  | .respond | .sighup _ | .advance => .isTrue trivial

/-- No tick of an interleaving falls there. -/
def Tasks.WholeRun (T : IpText) (orders : ℕ → TickOrders) (s : Tasks) (moves : List TaskMove) : Prop :=
  ∀ e ∈ moves.zipIdx, ∀ s' ∈ s.run T orders (moves.take e.2), s'.Whole e.1

instance (T : IpText) (orders : ℕ → TickOrders) (s : Tasks) (moves : List TaskMove) :
    Decidable (s.WholeRun T orders moves) :=
  List.decidableBAll _ _

/-- The history of the tasks is a run of the daemon. -/
structure Linear (T : IpText) (orders : ℕ → TickOrders) (d : Daemon) (s : Tasks) (d' : Daemon) : Prop where
  events : ∃ payloads, d.run T orders s.history = some (d', payloads) ∧ payloads.flatten = s.sent
  versions : s.board.versions = ([], []) :: d.displays T orders s.history
  stage : s.system.stage.Matches T s.system.daemon d'

section Linear

variable {T : IpText} {orders : ℕ → TickOrders} {d d' : Daemon} {s s' : Tasks}

theorem Linear.start (T : IpText) (orders : ℕ → TickOrders) (c : Config) (d : Daemon) :
    Linear T orders d (.start c d) d :=
  ⟨⟨[], rfl, rfl⟩, rfl, rfl⟩

theorem displays_concat (T : IpText) (orders : ℕ → TickOrders) (d : Daemon) (events : List Event) (e : Event) :
    d.displays T orders (events ++ [e]) =
      d.displays T orders events ++ (d.display T orders (events ++ [e]) events.length).toList := by
  rw [Daemon.displays, List.length_append, List.length_singleton, List.range_succ, List.filterMap_append]
  have hbefore : ∀ i ∈ List.range events.length,
      d.display T orders (events ++ [e]) i = d.display T orders events i := by
    intro i hi
    have hlt := List.mem_range.mp hi
    rw [Daemon.display, List.take_append_of_le_length hlt.le, List.getElem?_append_left hlt, Daemon.display]
  rw [List.filterMap_congr hbefore]
  cases h : d.display T orders (events ++ [e]) events.length <;> simp [Daemon.displays, h]

/-- **One event** more in the history. -/
theorem Linear.event (h : Linear T orders d s d') {e : Event} {d₁ : Daemon} {payloads : List AlertPayload}
    (hstep : d'.step T (orders s.history.length) e = some (d₁, payloads))
    (hhistory : s'.history = s.history ++ [e])
    (hsent : s'.sent = s.sent ++ payloads)
    (hversions : s'.board.versions =
      s.board.versions ++ (d.display T orders (s.history ++ [e]) s.history.length).toList)
    (hstage : s'.system.stage.Matches T s'.system.daemon d₁) : Linear T orders d s' d₁ := by
  obtain ⟨⟨before, hrun, hflat⟩, hbefore, -⟩ := h
  refine ⟨⟨before ++ [payloads], ?_, ?_⟩, ?_, hstage⟩
  · rw [hhistory, Daemon.run_concat, hrun]
    simp [hstep]
  · rw [hsent, ← hflat]
    simp
  · rw [hversions, hbefore, hhistory, displays_concat]
    rfl

/-- No event but a tick is displayed. -/
theorem display_of_ne {events : List Event} {e : Event} (he : ∀ currentTime now, e ≠ .tick currentTime now) :
    d.display T orders (events ++ [e]) events.length = none := by
  unfold Daemon.display
  cases d.run T orders ((events ++ [e]).take events.length) with
  | none => rfl
  | some s =>
    rw [List.getElem?_concat_length]
    cases e with
    | tick currentTime now => exact absurd rfl (he currentTime now)
    | _ => rfl

/-- **An event** that sends nothing and is not displayed. -/
theorem Linear.silent (h : Linear T orders d s d') {e : Event} (he : ∀ currentTime now, e ≠ .tick currentTime now)
    {d₁ : Daemon} (hstep : d'.step T (orders s.history.length) e = some (d₁, []))
    (hhistory : s'.history = s.history ++ [e]) (hsent : s'.sent = s.sent)
    (hversions : s'.board.versions = s.board.versions) (hstage : s'.system.stage.Matches T s'.system.daemon d₁) :
    Linear T orders d s' d₁ := by
  refine h.event hstep hhistory (by rw [hsent, List.append_nil]) ?_ hstage
  rw [display_of_ne he, hversions]
  exact (List.append_nil _).symm

/-- **A section that is no event** of the daemon. -/
theorem Linear.other (h : Linear T orders d s d') (hhistory : s'.history = s.history) (hsent : s'.sent = s.sent)
    (hversions : s'.board.versions = s.board.versions) (hstage : s'.system.stage.Matches T s'.system.daemon d') :
    Linear T orders d s' d' := by
  obtain ⟨hrun, hbefore, -⟩ := h
  refine ⟨?_, ?_, hstage⟩
  · rw [hhistory, hsent]
    exact hrun
  · rw [hversions, hhistory, hbefore]

/-! ### The daemon beside the tasks -/

section Matches

variable {r : ReloadStage} {d d' : Daemon}

/-- A record is sent whatever the rates of the exporters are. -/
theorem ReloadStage.Matches.receive (h : r.Matches T d d') (flow : FlowRecord) :
    r.Matches T (d.receive none flow) (d'.receive none flow) := by
  cases r with
  | idle =>
    obtain rfl := h
    exact rfl
  | loaded c =>
    obtain ⟨hvalid, rfl⟩ := h
    exact ⟨hvalid, rfl⟩
  | ratesWritten c =>
    obtain ⟨hvalid, rfl⟩ := h
    refine ⟨hvalid, ?_⟩
    simp only [Daemon.receive, Option.bind_none]
    split_ifs <;> rfl
  | processorReloaded c =>
    obtain rfl := h
    show _ = _
    simp only [Daemon.receive, Option.bind_none]
    split_ifs <;> rfl

/-- The processing of a flow uses neither the rates of the exporters nor the alerts. -/
theorem process_frame {d₁ : Daemon} (h : d.process = some d₁) : ∃ channel processor,
    d₁ = { d with channel := channel, processor := processor } ∧ ∀ rates m,
      Daemon.process { d with exporterRates := rates, alertManager := m } =
        some { d with exporterRates := rates, alertManager := m, channel := channel, processor := processor } := by
  unfold Daemon.process at h
  cases hd : d.channel with
  | nil =>
    rw [hd] at h
    cases h
    exact ⟨[], d.processor, by rw [← hd], fun rates m => by simp only [Daemon.process]⟩
  | cons flow channel =>
    rw [hd] at h
    obtain ⟨processor, hp, heq⟩ := Option.bind_eq_some_iff.mp h
    cases heq
    exact ⟨channel, processor, rfl, fun rates m => by simp [Daemon.process, hp]⟩

theorem ReloadStage.Matches.process (h : r.Matches T d d') {d₁ : Daemon} (hd : d.process = some d₁) :
    ∃ d₁', d'.process = some d₁' ∧ r.Matches T d₁ d₁' := by
  obtain ⟨channel, processor, rfl, hframe⟩ := process_frame hd
  cases r with
  | idle =>
    obtain rfl := h
    exact ⟨_, hd, rfl⟩
  | loaded c =>
    obtain ⟨hvalid, rfl⟩ := h
    exact ⟨_, hd, hvalid, rfl⟩
  | ratesWritten c =>
    obtain ⟨hvalid, rfl⟩ := h
    exact ⟨_, hframe d'.exporterRates d'.alertManager, hvalid, rfl⟩
  | processorReloaded c =>
    obtain rfl := h
    exact ⟨_, hframe d.exporterRates (d.alertManager.reloadConfig T c), rfl⟩

theorem ReloadStage.Matches.tick (h : r.Matches T d d') (hwhole : ∀ c, r ≠ .processorReloaded c) (o : TickOrders)
    (currentTime : ℕ) (now : Instant) :
    r.Matches T (d.tick T o currentTime now).1 (d'.tick T o currentTime now).1 ∧
      (d'.tick T o currentTime now).2 = (d.tick T o currentTime now).2 ∧
      d'.processor = d.processor ∧
      (d'.tick T o currentTime now).1.alertManager = (d.tick T o currentTime now).1.alertManager := by
  cases r with
  | idle =>
    obtain rfl := h
    exact ⟨rfl, rfl, rfl, rfl⟩
  | loaded c =>
    obtain ⟨hvalid, rfl⟩ := h
    exact ⟨⟨hvalid, rfl⟩, rfl, rfl, rfl⟩
  | ratesWritten c =>
    obtain ⟨hvalid, rfl⟩ := h
    exact ⟨⟨hvalid, rfl⟩, rfl, rfl, rfl⟩
  | processorReloaded c => exact absurd rfl (hwhole c)

end Matches

theorem Linear.onBoard (h : Linear T orders d s d') {f : Board → Option Board} (hs : s.onBoard f = some s')
    (hf : ∀ board, f s.board = some board → s.board.writeFirst = some board ∨ s.board.writeSecond = some board ∨
      s.board.readFirst = some board ∨ s.board.readSecond = some board ∨ s.board.finish = some board) :
    Linear T orders d s' d' := by
  obtain ⟨board, hboard, heq⟩ := Option.bind_eq_some_iff.mp hs
  cases heq
  exact h.other rfl rfl (Publish.versions_eq (hf board hboard)) h.stage

/-- **A section of a reload.** -/
theorem Linear.reload (h : Linear T orders d s d') {o : TickOrders} {action : Action}
    (hs : s.reload T o action = some s') (haction : ∀ e he, action ≠ .task e he) :
    ∃ d₁, Linear T orders d s' d₁ := by
  have hstage := h.stage
  obtain ⟨system, hsystem, heq⟩ := Option.bind_eq_some_iff.mp hs
  cases heq
  cases action with
  | task e he => exact absurd rfl (haction e he)
  | sighup parsed =>
    cases hat : s.system.stage with
    | idle =>
      rw [hat] at hstage
      simp only [System.step, hat] at hsystem
      cases hload : Config.load T parsed with
      | error e =>
        simp only [hload, Option.some.injEq] at hsystem
        obtain rfl := hsystem
        exact ⟨d', h.other rfl rfl rfl (by rw [← hat] at hstage; exact hstage)⟩
      | ok c =>
        simp only [hload, Option.some.injEq] at hsystem
        obtain rfl := hsystem
        exact ⟨d', h.other rfl rfl rfl ⟨(Config.load_ok_iff.mp hload).2, hstage⟩⟩
    | _ => simp [System.step, hat] at hsystem
  | advance =>
    cases hat : s.system.stage with
    | idle => simp [System.step, hat] at hsystem
    | loaded c =>
      rw [hat] at hstage
      simp only [System.step, hat, Option.some.injEq] at hsystem
      obtain rfl := hsystem
      obtain ⟨hvalid, rfl⟩ := hstage
      exact ⟨s.system.daemon, h.other rfl rfl rfl ⟨hvalid, rfl⟩⟩
    | ratesWritten c =>
      rw [hat] at hstage
      obtain ⟨hvalid, hd⟩ := hstage
      have hload : Config.load T (.ok c) = .ok c := Config.load_ok_iff.mpr ⟨rfl, hvalid⟩
      have hprocessor : d'.processor = s.system.daemon.processor := by rw [hd]
      refine ⟨d'.reloadConfig T (.ok c), h.silent (e := .reload (.ok c)) (by simp) rfl rfl rfl rfl ?_⟩
      simp only [System.step, hat] at hsystem
      cases hp : s.system.daemon.processor.reloadConfig T c with
      | error e =>
        simp only [hp, Option.some.injEq] at hsystem
        obtain rfl := hsystem
        show d'.reloadConfig T (.ok c) = s.system.daemon
        rw [← hprocessor] at hp
        rw [hd]
        simp only [Daemon.reloadConfig, hload, hp]
      | ok processor =>
        simp only [hp, Option.some.injEq] at hsystem
        obtain rfl := hsystem
        show d'.reloadConfig T (.ok c) = { s.system.daemon with
          processor := processor, alertManager := s.system.daemon.alertManager.reloadConfig T c }
        rw [← hprocessor] at hp
        rw [Daemon.reloadConfig_ok hvalid hp, hd]
    | processorReloaded c =>
      rw [hat] at hstage
      simp only [System.step, hat, Option.some.injEq] at hsystem
      obtain rfl := hsystem
      exact ⟨d', h.other rfl rfl rfl hstage⟩

/-- **One section** of any task. -/
theorem Linear.step (h : Linear T orders d s d') {move : TaskMove} (hwhole : s.Whole move)
    (hs : s.step T orders move = some s') : ∃ d₁, Linear T orders d s' d₁ := by
  have hstage := h.stage
  cases move with
  | lookup source samplerAddress flow =>
    simp only [Tasks.step, Tasks.lookup] at hs
    split at hs
    · cases hs
    · cases hs
      exact ⟨d', h.other rfl rfl rfl hstage⟩
  | send source =>
    obtain ⟨flow, -, heq⟩ := Option.bind_eq_some_iff.mp hs
    cases heq
    exact ⟨d'.receive none flow,
      h.silent (e := .receive none flow) (by simp) rfl rfl rfl rfl (hstage.receive flow)⟩
  | process =>
    obtain ⟨daemon, hdaemon, heq⟩ := Option.bind_eq_some_iff.mp hs
    cases heq
    obtain ⟨d₁, hd₁, hmatches⟩ := hstage.process hdaemon
    exact ⟨d₁, h.silent (e := .process) (by simp) (by rw [Daemon.step, hd₁]; rfl) rfl rfl rfl hmatches⟩
  | tick currentTime now =>
    obtain ⟨board, hboard, heq⟩ := Option.bind_eq_some_iff.mp hs
    cases heq
    obtain ⟨hmatches, hpayloads, hprocessor, hmanager⟩ :=
      hstage.tick hwhole (orders s.history.length) currentTime now
    obtain ⟨before, hrun, -⟩ := h.events
    refine ⟨_, h.event (e := .tick currentTime now) rfl rfl (congrArg (s.sent ++ ·) hpayloads.symm) ?_ hmatches⟩
    have hdisplay : d.display T orders (s.history ++ [.tick currentTime now]) s.history.length =
        some (s.system.daemon.processor.computeAllRates T (orders s.history.length).rates currentTime,
          (s.system.daemon.tick T (orders s.history.length) currentTime now).1.alertManager.stateSnapshots) := by
      rw [Daemon.display, List.take_left, hrun, List.getElem?_concat_length, ← hmanager, ← hprocessor]
      rfl
    rw [hdisplay]
    exact Publish.compute_versions hboard
  | publishSnapshots => exact ⟨d', h.onBoard hs fun _ h => .inl h⟩
  | publishStates => exact ⟨d', h.onBoard hs fun _ h => .inr (.inl h)⟩
  | readSnapshots => exact ⟨d', h.onBoard hs fun _ h => .inr (.inr (.inl h))⟩
  | readStates => exact ⟨d', h.onBoard hs fun _ h => .inr (.inr (.inr (.inl h)))⟩
  | respond => exact ⟨d', h.onBoard hs fun _ h => .inr (.inr (.inr (.inr h)))⟩
  | sighup parsed => exact h.reload hs (by simp)
  | advance => exact h.reload hs (by simp)

theorem run_concat (moves : List TaskMove) (move : TaskMove) :
    s.run T orders (moves ++ [move]) = (s.run T orders moves).bind fun s' => s'.step T orders move := by
  simp [Tasks.run, List.foldlM_append]

theorem Tasks.WholeRun.concat {moves : List TaskMove} {move : TaskMove}
    (h : s.WholeRun T orders (moves ++ [move])) : s.WholeRun T orders moves ∧
      ∀ s' ∈ s.run T orders moves, s'.Whole move := by
  simp only [Tasks.WholeRun, List.zipIdx_append, List.mem_append, or_imp, forall_and] at h
  obtain ⟨hbefore, hlast⟩ := h
  refine ⟨fun e he => ?_, by simpa using hlast⟩
  have hle : e.2 ≤ moves.length := (List.snd_lt_of_mem_zipIdx he).le
  simpa only [List.take_append_of_le_length hle] using hbefore e he

/-- **Interleavings** whose ticks do not fall between the last two sections of a reload. -/
theorem Linear.run {moves : List TaskMove} (h : Linear T orders d s d') (hwhole : s.WholeRun T orders moves)
    (hs : s.run T orders moves = some s') : ∃ d₁, Linear T orders d s' d₁ := by
  induction moves using List.reverseRecOn generalizing s' with
  | nil =>
    cases hs
    exact ⟨d', h⟩
  | append_singleton moves move ih =>
    rw [run_concat] at hs
    obtain ⟨s₁, h₁, hs⟩ := Option.bind_eq_some_iff.mp hs
    obtain ⟨hbefore, hlast⟩ := hwhole.concat
    obtain ⟨d₁, hlinear⟩ := ih hbefore h₁
    exact hlinear.step (hlast s₁ h₁) hs

end Linear

/-- **A reload is one event.**  In any interleaving of the sections in which no tick falls between the last two
sections of a reload, the tasks behave like the daemon in which events are atomic.  The history lists the records
sent, the flows processed, the ticks, and the reloads at the section of the processor; the run of the daemon with
that history sends the same payloads in the same order, computes the same pages, and ends where the tasks are once
no reload is under way. -/
theorem tasks_linearizable (T : IpText) (orders : ℕ → TickOrders) (c : Config) (d : Daemon) (moves : List TaskMove)
    (s : Tasks) (hs : (Tasks.start c d).run T orders moves = some s)
    (hwhole : (Tasks.start c d).WholeRun T orders moves) :
    ∃ d' payloads, d.run T orders s.history = some (d', payloads) ∧ payloads.flatten = s.sent ∧
      s.board.versions = ([], []) :: d.displays T orders s.history ∧
      (s.system.stage = .idle → d' = s.system.daemon) := by
  obtain ⟨d', hlinear⟩ := (Linear.start T orders c d).run hwhole hs
  obtain ⟨payloads, hrun, hsent⟩ := hlinear.events
  refine ⟨d', payloads, hrun, hsent, hlinear.versions, fun hidle => ?_⟩
  have hstage := hlinear.stage
  rw [hidle] at hstage
  exact hstage

/-- An attack that fires an alert, with a reload around its second flow and a page rendered while the rates of the
first tick are published. -/
def crossingTasks : List TaskMove :=
  let flow : FlowRecord := ⟨.V4 0xC6336401, .V4 0x0A020307, 4242, 53, 17, 0, 10000, 10, 1000, 1⟩
  [.lookup .netflow none flow, .readSnapshots, .send .netflow, .sighup (.ok instant), .advance, .readStates,
    .process, .respond, .tick 1000 0, .publishSnapshots, .advance, .lookup .sflow none flow, .readSnapshots,
    .send .sflow, .process, .readStates, .respond, .advance, .publishStates,
    .tick 1001 (Duration.fromSecs 1), .publishSnapshots, .publishStates, .readSnapshots, .readStates, .respond]

theorem pages_consistent_crossing : ∃ d s, Daemon.start IpText.dotted (.ok instant) = .ok d ∧
    (Tasks.start instant d).run IpText.dotted storedOrders crossingTasks = some s ∧
    (s.board.views.map fun page => (page.1.map RateSnapshot.bps, page.2.map AlertStateSnapshot.state)) =
      [([], []), ([8000], []), ([8000], [2])] ∧
    ∃ ks : List (ℕ × ℕ), List.Forall₂ (Publish.Shows s.board.versions) s.board.views ks ∧ ks.Pairwise (· ≤ ·) := by
  have hrun : ((Daemon.start IpText.dotted (.ok instant)).toOption.bind fun d =>
      ((Tasks.start instant d).run IpText.dotted storedOrders crossingTasks).map fun s =>
        s.board.views.map fun page => (page.1.map RateSnapshot.bps, page.2.map AlertStateSnapshot.state)) =
      some [([], []), ([8000], []), ([8000], [2])] := by
    decide +kernel
  obtain ⟨d, hd, hrun⟩ := Option.bind_eq_some_iff.mp hrun
  obtain ⟨s, hs, hviews⟩ := Option.map_eq_some_iff.mp hrun
  obtain ⟨ks, hks, hmono, -⟩ := pages_consistent IpText.dotted storedOrders instant d crossingTasks s hs
  exact ⟨d, s, Fold.except_toOption.mp hd, hs, hviews, ks, hks, hmono⟩

theorem tasks_linearizable_crossing : ∃ d s d' payloads, Daemon.start IpText.dotted (.ok instant) = .ok d ∧
    (Tasks.start instant d).run IpText.dotted storedOrders crossingTasks = some s ∧
    d.run IpText.dotted storedOrders s.history = some (d', payloads) ∧ payloads.flatten = s.sent ∧
    s.sent.map AlertPayload.action = ["trigger"] := by
  have hrun : ((Daemon.start IpText.dotted (.ok instant)).toOption.bind fun d =>
      ((Tasks.start instant d).run IpText.dotted storedOrders crossingTasks).map fun s =>
        (s.sent.map AlertPayload.action,
          decide ((Tasks.start instant d).WholeRun IpText.dotted storedOrders crossingTasks))) =
      some (["trigger"], true) := by
    decide +kernel
  obtain ⟨d, hd, hrun⟩ := Option.bind_eq_some_iff.mp hrun
  obtain ⟨s, hs, heq⟩ := Option.map_eq_some_iff.mp hrun
  obtain ⟨hactions, hwhole⟩ := Prod.mk.inj heq
  obtain ⟨d', payloads, hhistory, hsent, -⟩ :=
    tasks_linearizable IpText.dotted storedOrders instant d crossingTasks s hs (of_decide_eq_true hwhole)
  exact ⟨d, s, d', payloads, Fold.except_toOption.mp hd, hs, hhistory, hsent, hactions⟩

end NetAlert

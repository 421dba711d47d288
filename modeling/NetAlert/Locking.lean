import NetAlert.Lib.Fold
import NetAlert.Lib.Locks
import NetAlert.Startup
import NetAlert.Tasks

/-!
# NetAlert.Locking — the tasks lock by lock (`main.rs`, `prometheus.rs`)

In `Tasks` a section under locks is one step, which is possible when no other task is in its way.  Here every use
of a lock is a step of its own: a task asks for it, waits in its queue, gets a guard and drops it.

* `AtWork.ready`: under its locks, a section can do what it does in `Tasks`.
* `tasks_finish`: the tasks never deadlock, and every job that they have taken up comes to its end.
-/

namespace NetAlert

open Locks (Instr Mode works)

/-! ## Tasks, locks and jobs -/

inductive Task where
  | receiver (source : Source)
  | flowProcessor
  | ticker
  | metrics
  | main
  deriving DecidableEq

instance : Fintype Task :=
  ⟨{.receiver .netflow, .receiver .sflow, .flowProcessor, .ticker, .metrics, .main}, fun t => by
    cases t with
    | receiver source => cases source <;> decide
    | _ => decide⟩

/-- What the locks protect.  Only the ticker and the thread of the page use the last two. -/
inductive Resource where
  | exporterRates
  | processor
  | alertManager
  | snapshots
  | alertStates

/-- The order in which tasks take several locks. -/
def Resource.rank : Resource → ℕ
  | exporterRates => 0
  | processor => 1
  | alertManager => 2
  | snapshots => 3
  | alertStates => 4

instance : LinearOrder Resource :=
  LinearOrder.lift' Resource.rank fun r r' h => by cases r <;> cases r' <;> first | rfl | cases h

@[simp] theorem Resource.lt_iff {r r' : Resource} : r < r' ↔ r.rank < r'.rank := Iff.rfl

/-- What a task takes up when it has waited for it: a record that came in, a flow from the channel, a tick, a
request for the page, or a signal. -/
inductive Job where
  | record (source : Source) (samplerAddress : Option IpAddr) (flow : FlowRecord)
  | processing
  | evaluation (currentTime : ℕ) (now : Instant)
  | page
  | sighup (parsed : Except String Config)

namespace Job

def owner : Job → Task
  | record source _ _ => .receiver source
  | processing => .flowProcessor
  | evaluation _ _ => .ticker
  | page => .metrics
  | sighup _ => .main

/-- The bodies of the loops of `run_receiver_loop`, `run_flow_processor`, `run_ticker` and `prometheus::spawn`, and
`reload_config`.  A receiver looks no rate up for a record without an address; the lock of the alert manager is
taken under that of the processor; a page is rendered under two locks. -/
def program : Job → List (Instr Resource TaskMove)
  | record source none flow => [.work (.lookup source none flow), .work (.send source)]
  | record source (some address) flow =>
    [.acquire .exporterRates .shared, .work (.lookup source (some address) flow), .release .exporterRates,
      .work (.send source)]
  | processing => [.acquire .processor .exclusive, .work .process, .release .processor]
  | evaluation currentTime now =>
    [.acquire .processor .exclusive, .acquire .alertManager .exclusive, .work (.tick currentTime now),
      .release .alertManager, .release .processor,
      .acquire .snapshots .exclusive, .work .publishSnapshots, .release .snapshots,
      .acquire .alertStates .exclusive, .work .publishStates, .release .alertStates]
  | page =>
    [.acquire .snapshots .shared, .work .readSnapshots, .acquire .alertStates .shared, .work .readStates,
      .work .respond, .release .alertStates, .release .snapshots]
  | sighup parsed =>
    [.work (.sighup parsed), .acquire .exporterRates .exclusive, .work .advance, .release .exporterRates,
      .acquire .processor .exclusive, .work .advance, .release .processor,
      .acquire .alertManager .exclusive, .work .advance, .release .alertManager]

end Job

def ReloadStage.underWay : ReloadStage → Bool
  | .idle => false
  | _ => true

/-- `reload_config` returns if the file does not load or the processor refuses the configuration. -/
def TaskMove.goesOn (s : Tasks) : TaskMove → Bool
  | .sighup _ | .advance => s.system.stage.underWay
  | _ => true

/-- A section of `Tasks`. -/
def Tasks.exec (T : IpText) (orders : ℕ → TickOrders) (move : TaskMove) (s : Tasks) : Option (Tasks × Bool) :=
  (s.step T orders move).map fun s' => (s', move.goesOn s')

abbrev Locked := Locks Task Resource TaskMove Tasks

namespace Locked

/-- After the first load of the configuration. -/
def start (c : Config) (d : Daemon) : Locked := Locks.start (.start c d)

variable (T : IpText) (orders : ℕ → TickOrders) (s : Locked)

def go (t : Task) : Option Locked := Locks.go (Tasks.exec T orders) s t

def goes (schedule : List Task) : Option Locked := Locks.goes (Tasks.exec T orders) s schedule

def run (actions : List (Locks.Action Job Task)) : Option Locked :=
  Locks.run (Tasks.exec T orders) Job.owner Job.program s actions

end Locked

/-! ## Guards -/

/-- The locks are taken in order; the ticker publishes as the only holder of the lock; and the page is rendered
under guards that it keeps from the first value it reads to the end. -/
def Guarded (guards : List (Resource × Mode)) (rest : List (Instr Resource TaskMove)) : Prop :=
  Locks.InOrder guards rest ∧
    (rest.head? = some (.work .publishSnapshots) → (.snapshots, .exclusive) ∈ guards) ∧
    (rest.head? = some (.work .publishStates) → (.alertStates, .exclusive) ∈ guards) ∧
    (works rest = [.readStates, .respond] ∨ works rest = [.respond] → (.snapshots, .shared) ∈ guards) ∧
    (works rest = [.respond] → (.alertStates, .shared) ∈ guards)

theorem guarded_discipline : Locks.Discipline Guarded where
  inOrder _ _ h := h.1
  abandon guards := by
    refine Locks.always_abandon (by simp [Guarded, Locks.InOrder, works]) (fun g guards => ?_) guards
    refine ⟨trivial, by simp [Locks.abandon], by simp [Locks.abandon], ?_, ?_⟩ <;>
      simp [show works (Locks.abandon (g :: guards) : List (Instr Resource TaskMove)) = [] from
        Locks.works_abandon _]

theorem guarded_program (job : Job) : Locks.Always Guarded [] job.program := by
  cases job with
  | record source samplerAddress flow =>
    cases samplerAddress <;>
      simp [Job.program, Locks.Always, Guarded, Locks.InOrder, works, Locks.drop]
  | processing | evaluation | page | sighup =>
    simp [Job.program, Locks.Always, Guarded, Locks.InOrder, works, Locks.drop, Resource.rank]

/-! ## Phases -/

/-- How far the task has come, as the shared data tell. -/
def Tasks.phase (s : Tasks) : Task → ℕ
  | .receiver source => if (s.hands source).isSome then 1 else 0
  | .flowProcessor => 0
  | .ticker =>
    match s.board.writer with
    | .idle => 0
    | .computed _ _ => 1
    | .half _ => 2
  | .metrics =>
    match s.board.reader with
    | .idle => 0
    | .one _ => 1
    | .both _ _ => 2
  | .main =>
    match s.system.stage with
    | .idle => 0
    | .loaded _ => 1
    | .ratesWritten _ => 2
    | .processorReloaded _ => 3

/-- The sections that a task has ahead in a phase. -/
inductive Fits : Task → ℕ → List TaskMove → Prop where
  | rest (t : Task) : Fits t 0 []
  | record (source : Source) (samplerAddress : Option IpAddr) (flow : FlowRecord) :
      Fits (.receiver source) 0 [.lookup source samplerAddress flow, .send source]
  | found (source : Source) : Fits (.receiver source) 1 [.send source]
  | processing : Fits .flowProcessor 0 [.process]
  | evaluation (currentTime : ℕ) (now : Instant) :
      Fits .ticker 0 [.tick currentTime now, .publishSnapshots, .publishStates]
  | computed : Fits .ticker 1 [.publishSnapshots, .publishStates]
  | half : Fits .ticker 2 [.publishStates]
  | page : Fits .metrics 0 [.readSnapshots, .readStates, .respond]
  | one : Fits .metrics 1 [.readStates, .respond]
  | both : Fits .metrics 2 [.respond]
  | sighup (parsed : Except String Config) : Fits .main 0 [.sighup parsed, .advance, .advance, .advance]
  | loaded : Fits .main 1 [.advance, .advance, .advance]
  | ratesWritten : Fits .main 2 [.advance, .advance]
  | processorReloaded : Fits .main 3 [.advance]

theorem Fits.eq_zero {t : Task} {n : ℕ} (h : Fits t n []) : n = 0 := by
  cases h
  rfl

/-- It is the ticker that publishes. -/
theorem Fits.ne_metrics {t : Task} {n : ℕ} {move : TaskMove} {ahead : List TaskMove} (h : Fits t n (move :: ahead))
    (hmove : move = .publishSnapshots ∨ move = .publishStates) : t ≠ .metrics := by
  rintro rfl
  cases h <;> simp at hmove

theorem fits_program (job : Job) : Fits job.owner 0 (works job.program) := by
  cases job with
  | record source samplerAddress flow => cases samplerAddress <;> exact .record source _ flow
  | processing => exact .processing
  | evaluation currentTime now => exact .evaluation currentTime now
  | page => exact .page
  | sighup parsed => exact .sighup parsed

variable {T : IpText} {orders : ℕ → TickOrders} {s s' : Tasks} {t : Task}

theorem phase_frame (hands : ∀ source, t ≠ .receiver source → s'.hands source = s.hands source)
    (writer : t ≠ .ticker → s'.board.writer = s.board.writer)
    (reader : t ≠ .metrics → s'.board.reader = s.board.reader)
    (stage : t ≠ .main → s'.system.stage = s.system.stage) (t' : Task) (ht : t' ≠ t) :
    s'.phase t' = s.phase t' := by
  cases t' with
  | receiver source => simp only [Tasks.phase, hands source ht.symm]
  | flowProcessor => rfl
  | ticker => simp only [Tasks.phase, writer ht.symm]
  | metrics => simp only [Tasks.phase, reader ht.symm]
  | main => simp only [Tasks.phase, stage ht.symm]

/-- A section in its phase: what it leaves ahead, and for the other tasks. -/
structure Done (T : IpText) (orders : ℕ → TickOrders) (s : Tasks) (t : Task) (move : TaskMove)
    (ahead : List TaskMove) (s' : Tasks) : Prop where
  step : s.step T orders move = some s'
  fits : Fits t (s'.phase t) (if move.goesOn s' then ahead else [])
  others : ∀ t', t' ≠ t → s'.phase t' = s.phase t'
  solid : Solid s'.system.daemon.processor

/-- A section of the ticker's publication or of the page. -/
theorem Done.onBoard {move : TaskMove} {ahead : List TaskMove} {f : Board → Option Board} {board : Board}
    (hmove : s.step T orders move = s.onBoard f) (hf : f s.board = some board)
    (hfits : Fits t (Tasks.phase { s with board := board } t)
      (if move.goesOn { s with board := board } then ahead else []))
    (hwriter : t ≠ .ticker → board.writer = s.board.writer)
    (hreader : t ≠ .metrics → board.reader = s.board.reader) (hsolid : Solid s.system.daemon.processor) :
    ∃ s', Done T orders s t move ahead s' := by
  refine ⟨{ s with board := board }, ?_, hfits, phase_frame (fun _ _ => rfl) hwriter hreader fun _ => rfl, hsolid⟩
  rw [hmove, Tasks.onBoard, hf]
  rfl

/-- A section of a reload. -/
theorem Done.onSystem {move : TaskMove} {ahead : List TaskMove} {action : Action} {system : System}
    (hmove : s.step T orders move = s.reload T (orders s.history.length) action)
    (hsystem : s.system.step T (orders s.history.length) action = some system)
    (hfits : ∀ history, Fits .main (Tasks.phase { s with system := system, history := history } .main)
      (if move.goesOn { s with system := system, history := history } then ahead else []))
    (hsolid : Solid system.daemon.processor) : ∃ s', Done T orders s .main move ahead s' := by
  obtain ⟨history, hstep⟩ : ∃ history, s.step T orders move =
      some { s with system := system, history := history } := by
    rw [hmove, Tasks.reload, hsystem]
    exact ⟨_, rfl⟩
  exact ⟨_, hstep, hfits history,
    phase_frame (fun _ _ => rfl) (fun _ => rfl) (fun _ => rfl) fun h => absurd rfl h, hsolid⟩

/-! ## Sections -/

section Sections

variable (hsolid : Solid s.system.daemon.processor)

include hsolid

theorem Done.lookup (source : Source) (samplerAddress : Option IpAddr) (flow : FlowRecord)
    (hphase : s.phase (.receiver source) = 0) :
    ∃ s', Done T orders s (.receiver source) (.lookup source samplerAddress flow) [.send source] s' := by
  have hhands : s.hands source = none := by simpa [Tasks.phase] using hphase
  obtain ⟨found, hfound⟩ : ∃ found, s.step T orders (.lookup source samplerAddress flow) =
      some { s with hands := Function.update s.hands source (some found) } := by
    simp only [Tasks.step, Tasks.lookup, hhands]
    exact ⟨_, rfl⟩
  refine ⟨_, hfound, ?_, ?_, hsolid⟩
  · simpa [Tasks.phase, TaskMove.goesOn] using Fits.found source
  · exact phase_frame (fun _ h => Function.update_of_ne (fun heq => h (congrArg Task.receiver heq.symm)) _ _)
      (fun _ => rfl) (fun _ => rfl) fun _ => rfl

theorem Done.send (source : Source) (hphase : s.phase (.receiver source) = 1) :
    ∃ s', Done T orders s (.receiver source) (.send source) [] s' := by
  obtain ⟨flow, hflow⟩ : ∃ flow, s.hands source = some flow := by
    cases hhands : s.hands source with
    | none => simp [Tasks.phase, hhands] at hphase
    | some flow => exact ⟨flow, rfl⟩
  have hstep : s.step T orders (.send source) = some { s.withDaemon (s.system.daemon.receive none flow) with
      hands := Function.update s.hands source none
      history := s.history ++ [.receive none flow] } := by
    simp only [Tasks.step, Tasks.send, hflow]
    rfl
  refine ⟨_, hstep, ?_, ?_, ?_⟩
  · simpa [Tasks.phase, TaskMove.goesOn] using Fits.rest (.receiver source)
  · exact phase_frame (fun _ h => Function.update_of_ne (fun heq => h (congrArg Task.receiver heq.symm)) _ _)
      (fun _ => rfl) (fun _ => rfl) fun _ => rfl
  · obtain ⟨d', payloads, hd', hsolid'⟩ := hsolid.step (T := T) (orders 0) (.receive none flow)
    cases hd'
    exact hsolid'

theorem Done.process : ∃ s', Done T orders s .flowProcessor .process [] s' := by
  obtain ⟨d', payloads, hd', hsolid'⟩ := hsolid.step (T := T) (orders 0) .process
  obtain ⟨d₁, hprocess, heq⟩ := Option.map_eq_some_iff.mp hd'
  cases heq
  have hstep : s.step T orders .process =
      some { s.withDaemon d' with history := s.history ++ [.process] } := by
    simp only [Tasks.step, Tasks.process, hprocess]
    rfl
  exact ⟨_, hstep, .rest _, phase_frame (fun _ _ => rfl) (fun _ => rfl) (fun _ => rfl) fun _ => rfl, hsolid'⟩

theorem Done.tick (currentTime : ℕ) (now : Instant) (hphase : s.phase .ticker = 0) :
    ∃ s', Done T orders s .ticker (.tick currentTime now) [.publishSnapshots, .publishStates] s' := by
  have hwriter : s.board.writer = .idle := by
    cases hw : s.board.writer with
    | idle => rfl
    | computed | half => simp [Tasks.phase, hw] at hphase
  obtain ⟨d', payloads, hd', hsolid'⟩ := hsolid.step (T := T) (orders s.history.length) (.tick currentTime now)
  cases hd'
  obtain ⟨first, second, hstep⟩ : ∃ first second, s.step T orders (.tick currentTime now) =
      some { s.withDaemon (s.system.daemon.tick T (orders s.history.length) currentTime now).1 with
        board := { s.board with
          writer := .computed first second, versions := s.board.versions ++ [(first, second)] }
        sent := s.sent ++ (s.system.daemon.tick T (orders s.history.length) currentTime now).2
        history := s.history ++ [.tick currentTime now] } := by
    simp only [Tasks.step, Tasks.tick, Publish.compute, hwriter]
    exact ⟨_, _, rfl⟩
  exact ⟨_, hstep, .computed, phase_frame (fun _ _ => rfl) (fun h => absurd rfl h) (fun _ => rfl) fun _ => rfl,
    hsolid'⟩

theorem Done.publishSnapshots (hphase : s.phase .ticker = 1) (hmetrics : s.phase .metrics = 0) :
    ∃ s', Done T orders s .ticker .publishSnapshots [.publishStates] s' := by
  have hreader : s.board.reader = .idle := by
    cases hr : s.board.reader with
    | idle => rfl
    | one | both => simp [Tasks.phase, hr] at hmetrics
  cases hw : s.board.writer with
  | idle | half => simp [Tasks.phase, hw] at hphase
  | computed first second =>
    have hwrite : s.board.writeFirst = some { s.board with first := first, writer := .half second } := by
      simp only [Publish.writeFirst, hw, hreader]
    exact Done.onBoard rfl hwrite .half (fun h => absurd rfl h) (fun _ => rfl) hsolid

theorem Done.publishStates (hphase : s.phase .ticker = 2) (hmetrics : s.phase .metrics ≠ 2) :
    ∃ s', Done T orders s .ticker .publishStates [] s' := by
  cases hw : s.board.writer with
  | idle | computed => simp [Tasks.phase, hw] at hphase
  | half second =>
    have hwrite : s.board.writeSecond = some { s.board with second := second, writer := .idle } := by
      cases hr : s.board.reader with
      | both => simp [Tasks.phase, hr] at hmetrics
      | idle | one => simp only [Publish.writeSecond, hw, hr]
    exact Done.onBoard rfl hwrite (.rest _) (fun h => absurd rfl h) (fun _ => rfl) hsolid

theorem Done.readSnapshots (hphase : s.phase .metrics = 0) :
    ∃ s', Done T orders s .metrics .readSnapshots [.readStates, .respond] s' := by
  have hread : s.board.readFirst = some { s.board with reader := .one s.board.first } := by
    cases hr : s.board.reader with
    | idle => simp only [Publish.readFirst, hr]
    | one | both => simp [Tasks.phase, hr] at hphase
  exact Done.onBoard rfl hread .one (fun _ => rfl) (fun h => absurd rfl h) hsolid

theorem Done.readStates (hphase : s.phase .metrics = 1) :
    ∃ s', Done T orders s .metrics .readStates [.respond] s' := by
  cases hr : s.board.reader with
  | idle | both => simp [Tasks.phase, hr] at hphase
  | one first =>
    have hread : s.board.readSecond = some { s.board with reader := .both first s.board.second } := by
      simp only [Publish.readSecond, hr]
    exact Done.onBoard rfl hread .both (fun _ => rfl) (fun h => absurd rfl h) hsolid

theorem Done.respond (hphase : s.phase .metrics = 2) : ∃ s', Done T orders s .metrics .respond [] s' := by
  cases hr : s.board.reader with
  | idle | one => simp [Tasks.phase, hr] at hphase
  | both first second =>
    have hrespond : s.board.finish =
        some { s.board with reader := .idle, views := s.board.views ++ [(first, second)] } := by
      simp only [Publish.finish, hr]
    exact Done.onBoard rfl hrespond (.rest _) (fun _ => rfl) (fun h => absurd rfl h) hsolid

theorem Done.sighup (parsed : Except String Config) (hphase : s.phase .main = 0) :
    ∃ s', Done T orders s .main (.sighup parsed) [.advance, .advance, .advance] s' := by
  cases hstage : s.system.stage with
  | loaded | ratesWritten | processorReloaded => simp [Tasks.phase, hstage] at hphase
  | idle =>
    cases hload : Config.load T parsed with
    | ok config =>
      have hsystem : s.system.step T (orders s.history.length) (.sighup parsed) =
          some { s.system with stage := .loaded config } := by
        simp only [System.step, hstage, hload]
      exact Done.onSystem rfl hsystem (fun _ => .loaded) hsolid
    | error e =>
      have hsystem : s.system.step T (orders s.history.length) (.sighup parsed) = some s.system := by
        simp only [System.step, hstage, hload]
      refine Done.onSystem rfl hsystem (fun _ => ?_) hsolid
      simpa [Tasks.phase, TaskMove.goesOn, ReloadStage.underWay, hstage] using Fits.rest .main

theorem Done.writeRates (hphase : s.phase .main = 1) :
    ∃ s', Done T orders s .main .advance [.advance, .advance] s' := by
  cases hstage : s.system.stage with
  | idle | ratesWritten | processorReloaded => simp [Tasks.phase, hstage] at hphase
  | loaded config =>
    have hsystem : s.system.step T (orders s.history.length) .advance = some { s.system with
        daemon := { s.system.daemon with exporterRates := config.exporterSamplingRates }
        stage := .ratesWritten config } := by
      simp only [System.step, hstage]
    exact Done.onSystem rfl hsystem (fun _ => .ratesWritten) hsolid

theorem Done.reloadProcessor (hphase : s.phase .main = 2) :
    ∃ s', Done T orders s .main .advance [.advance] s' := by
  cases hstage : s.system.stage with
  | idle | loaded | processorReloaded => simp [Tasks.phase, hstage] at hphase
  | ratesWritten config =>
    cases hp : s.system.daemon.processor.reloadConfig T config with
    | error e =>
      have hsystem : s.system.step T (orders s.history.length) .advance =
          some { s.system with stage := .idle } := by
        simp only [System.step, hstage, hp]
      exact Done.onSystem rfl hsystem (fun _ => .rest _) hsolid
    | ok processor =>
      have hsystem : s.system.step T (orders s.history.length) .advance = some { s.system with
          daemon := { s.system.daemon with processor := processor }
          stage := .processorReloaded config } := by
        simp only [System.step, hstage, hp]
      exact Done.onSystem rfl hsystem (fun _ => .processorReloaded)
        (Solid.of_reload hp (hsolid.reloadWindow_pos config))

theorem Done.reloadAlerts (hphase : s.phase .main = 3) : ∃ s', Done T orders s .main .advance [] s' := by
  cases hstage : s.system.stage with
  | idle | loaded | ratesWritten => simp [Tasks.phase, hstage] at hphase
  | processorReloaded config =>
    have hsystem : s.system.step T (orders s.history.length) .advance = some
        { daemon := { s.system.daemon with alertManager := s.system.daemon.alertManager.reloadConfig T config }
          stage := .idle
          current := config } := by
      simp only [System.step, hstage]
    exact Done.onSystem rfl hsystem (fun _ => .rest _) hsolid

/-- **One section**, if no one reads what the ticker is about to write. -/
theorem Fits.done {move : TaskMove} {ahead : List TaskMove} (h : Fits t (s.phase t) (move :: ahead))
    (hsnapshots : move = .publishSnapshots → s.phase .metrics = 0)
    (hstates : move = .publishStates → s.phase .metrics ≠ 2) : ∃ s', Done T orders s t move ahead s' := by
  generalize hphase : s.phase t = n at h
  generalize hmoves : move :: ahead = moves at h
  cases h with
  | rest => cases hmoves
  | record source samplerAddress flow =>
    cases hmoves
    exact Done.lookup hsolid source samplerAddress flow hphase
  | found source =>
    cases hmoves
    exact Done.send hsolid source hphase
  | processing =>
    cases hmoves
    exact Done.process hsolid
  | evaluation currentTime now =>
    cases hmoves
    exact Done.tick hsolid currentTime now hphase
  | computed =>
    cases hmoves
    exact Done.publishSnapshots hsolid hphase (hsnapshots rfl)
  | half =>
    cases hmoves
    exact Done.publishStates hsolid hphase (hstates rfl)
  | page =>
    cases hmoves
    exact Done.readSnapshots hsolid hphase
  | one =>
    cases hmoves
    exact Done.readStates hsolid hphase
  | both =>
    cases hmoves
    exact Done.respond hsolid hphase
  | sighup parsed =>
    cases hmoves
    exact Done.sighup hsolid parsed hphase
  | loaded =>
    cases hmoves
    exact Done.writeRates hsolid hphase
  | ratesWritten =>
    cases hmoves
    exact Done.reloadProcessor hsolid hphase
  | processorReloaded =>
    cases hmoves
    exact Done.reloadAlerts hsolid hphase

end Sections

/-! ## Runs -/

/-- The instructions of the longest program of a task. -/
def Task.size : Task → ℕ
  | .receiver _ => 4
  | .flowProcessor => 3
  | .ticker => 11
  | .metrics => 7
  | .main => 10

/-- What holds in every run that began with `s₀`. -/
structure AtWork (T : IpText) (orders : ℕ → TickOrders) (s₀ : Tasks) (s : Locked) : Prop where
  sound : Locks.Sound Guarded s
  fits : ∀ t, Fits t (s.data.phase t) (works (s.rest t))
  solid : Solid s.data.system.daemon.processor
  short : ∀ t, (s.rest t).length ≤ t.size
  reached : ∃ moves, s₀.run T orders moves = some s.data

section AtWork

variable {s₀ : Tasks} {s s' : Locked} {t : Task}

theorem AtWork.start (T : IpText) (orders : ℕ → TickOrders) (hsolid : Solid s₀.system.daemon.processor)
    (hphase : ∀ t, s₀.phase t = 0) :
    AtWork T orders s₀ (Locks.start s₀) where
  sound := .start (by simp [Guarded, Locks.InOrder, works]) s₀
  fits t := hphase t ▸ .rest t
  solid := hsolid
  short _ := Nat.zero_le _
  reached := ⟨[], rfl⟩

/-- **Under its locks** a section finds no one in its way. -/
theorem AtWork.ready (h : AtWork T orders s₀ s) {move : TaskMove} {rest : List (Instr Resource TaskMove)}
    (hrest : s.rest t = .work move :: rest) : ∃ data, Done T orders s.data t move (works rest) data := by
  have hfits := h.fits t
  rw [hrest] at hfits
  have hpoint := (h.sound.points t).here
  rw [hrest] at hpoint
  obtain ⟨-, hsnapshots, hstates, -, -⟩ := hpoint
  -- the reader holds a lock that the ticker writes under, or has not read anything yet
  obtain ⟨-, -, -, hreading, hrendering⟩ := (h.sound.points .metrics).here
  have hreader := h.fits .metrics
  have hother : ∀ lock, (lock, Mode.exclusive) ∈ s.guards t → (lock, Mode.shared) ∈ s.guards .metrics →
      t = .metrics := fun lock h₁ h₂ => h.sound.excluded _ _ _ _ h₁ h₂
  generalize hphase : s.data.phase .metrics = n at hreader
  generalize hworks : works (s.rest .metrics) = ws at hreader
  refine hfits.done h.solid ?_ ?_
  · rintro rfl
    have hguard := hsnapshots rfl
    cases hreader with
    | rest | page => exact hphase
    | one => exact absurd (hother _ hguard (hreading (.inl hworks))) (hfits.ne_metrics (.inl rfl))
    | both => exact absurd (hother _ hguard (hreading (.inr hworks))) (hfits.ne_metrics (.inl rfl))
  · rintro rfl hboth
    have hguard := hstates rfl
    rw [hphase] at hboth
    subst hboth
    cases hreader with
    | both => exact hfits.ne_metrics (.inr rfl) (hother _ hguard (hrendering hworks))

/-- **One step** of a task. -/
theorem AtWork.go (h : AtWork T orders s₀ s) (hs : Locks.Step (Tasks.exec T orders) s t s') :
    AtWork T orders s₀ s' := by
  have hsound := h.sound.step guarded_discipline hs
  have hshort : ∀ t', (s'.rest t').length ≤ t'.size := fun t' =>
    (hs.length_le guarded_discipline h.sound t').trans (h.short t')
  cases hs with
  | ask => exact ⟨hsound, h.fits, h.solid, hshort, h.reached⟩
  | acquire hrest | release hrest =>
    refine ⟨hsound, fun t' => ?_, h.solid, hshort, h.reached⟩
    have hfits := h.fits t'
    by_cases ht : t' = t
    · subst ht
      rw [hrest] at hfits
      simpa [works] using hfits
    · simpa [ht] using hfits
  | @work move rest data goesOn hrest hdata =>
    obtain ⟨s₁, hdone⟩ := h.ready hrest
    obtain ⟨s₂, hstep, heq⟩ := Option.map_eq_some_iff.mp hdata
    obtain rfl := Option.some.inj (hdone.step.symm.trans hstep)
    cases heq
    refine ⟨hsound, fun t' => ?_, hdone.solid, hshort, ?_⟩
    · by_cases ht : t' = t
      · subst ht
        have hfits := hdone.fits
        simp only [Function.update_self]
        split_ifs at hfits ⊢ with hgo
        · exact hfits
        · rwa [Locks.works_abandon]
      · simpa [ht, hdone.others t' ht] using h.fits t'
    · obtain ⟨moves, hmoves⟩ := h.reached
      exact ⟨moves ++ [move], by rw [run_concat, hmoves]; exact hstep⟩

/-- **A new job.** -/
theorem AtWork.begin (h : AtWork T orders s₀ s) {job : Job}
    (hs : Locks.begin Job.owner Job.program s job = some s') : AtWork T orders s₀ s' := by
  have hsound := h.sound.begin guarded_discipline (guarded_program job) hs
  unfold Locks.begin at hs
  split_ifs at hs with hrest
  cases hs
  have hphase : s.data.phase job.owner = 0 := by
    have hfits := h.fits job.owner
    rw [hrest] at hfits
    exact hfits.eq_zero
  refine ⟨hsound, fun t => ?_, h.solid, fun t => ?_, h.reached⟩
  · by_cases ht : t = job.owner
    · subst ht
      simpa [hphase] using fits_program job
    · simpa [ht] using h.fits t
  · by_cases ht : t = job.owner
    · subst ht
      cases job with
      | record source samplerAddress flow => cases samplerAddress <;> simp [Job.owner, Job.program, Task.size]
      | _ => simp [Job.owner, Job.program, Task.size]
    · simpa [ht] using h.short t

theorem AtWork.run (h : AtWork T orders s₀ s) {actions : List (Locks.Action Job Task)}
    (hs : Locked.run T orders s actions = some s') : AtWork T orders s₀ s' := by
  refine Fold.option_ok (AtWork T orders s₀) (fun action s s' h hstep => ?_) h hs
  cases action with
  | begin job => exact h.begin hstep
  | go t => exact h.go (Locks.go_step hstep)

theorem AtWork.goes (h : AtWork T orders s₀ s) {schedule : List Task}
    (hs : Locked.goes T orders s schedule = some s') : AtWork T orders s₀ s' :=
  Fold.option_ok (AtWork T orders s₀) (fun _ _ _ h hstep => h.go (Locks.go_step hstep)) h hs

end AtWork

/-- **The tasks never deadlock, and finish what they have begun.**  In every run of single uses of the locks, with
any jobs and whoever goes on at each step, the data are those of an interleaving of whole sections.  From there
the tasks can make 78 steps at most without new jobs, in whatever order; and when no task can go on, all are at
rest. -/
theorem tasks_finish (T : IpText) (c : Config) (d : Daemon) (hd : Daemon.start T (.ok c) = .ok d)
    (hW : 1 ≤ c.global.window.asSecs) (orders : ℕ → TickOrders) (actions : List (Locks.Action Job Task))
    (s : Locked) (hs : Locked.run T orders (Locked.start c d) actions = some s) :
    (∃ moves, (Tasks.start c d).run T orders moves = some s.data) ∧
      ∀ schedule s', Locked.goes T orders s schedule = some s' →
        schedule.length ≤ 78 ∧ ((∀ t, Locked.go T orders s' t = none) → ∀ t, s'.rest t = []) := by
  have hsolid : Solid d.processor := by
    obtain ⟨-, p, hp, rfl⟩ := Daemon.start_ok hd
    refine Solid.of_reload hp ?_
    rw [reloadWindow_start]
    exact hW
  have hphase : ∀ t, (Tasks.start c d).phase t = 0 := fun t => by cases t <;> rfl
  have hwork := (AtWork.start T orders hsolid hphase).run hs
  refine ⟨hwork.reached, fun schedule s' hs' => ⟨?_, fun hstuck => ?_⟩⟩
  · have hgoes := hwork.sound.goes guarded_discipline hs'
    have hleft : s.left ≤ 2 * ∑ t, Task.size t := Locks.left_le hwork.short
    have hsize : ∑ t, Task.size t = 39 := rfl
    omega
  · by_contra hbusy
    have hwork' := hwork.goes hs'
    have hready : ∀ t move rest, s'.rest t = .work move :: rest →
        (Tasks.exec T orders move s'.data).isSome = true := by
      intro t move rest hrest
      obtain ⟨data, hdone⟩ := hwork'.ready hrest
      simp [Tasks.exec, hdone.step]
    obtain ⟨t, s₁, hgo⟩ := hwork'.sound.progress guarded_discipline hready (not_forall.mp hbusy)
    cases (hstuck t).symm.trans hgo

/-- A tick that waits for the reader of a page, while a reload and a receiver are under way. -/
def contended : List (Locks.Action Job Task) :=
  let flow : FlowRecord := ⟨.V4 0xC6336401, .V4 0x0A020307, 4242, 53, 17, 0, 10000, 10, 1000, 1⟩
  [.begin .page, .go .metrics, .go .metrics, .go .metrics, .begin (.evaluation 1000 0)] ++
    List.replicate 8 (.go .ticker) ++
    [.begin (.sighup (.ok instant)), .go .main, .go .main, .go .main, .begin (.record .sflow (some (.V4 1)) flow),
      .go (.receiver .sflow)]

theorem tasks_finish_contended : ∃ d s, Daemon.start IpText.dotted (.ok instant) = .ok d ∧
    Locked.run IpText.dotted storedOrders (Locked.start instant d) contended = some s ∧
    Locked.go IpText.dotted storedOrders s .ticker = none ∧
    Locked.go IpText.dotted storedOrders s (.receiver .sflow) = none ∧
    ∀ schedule s', Locked.goes IpText.dotted storedOrders s schedule = some s' →
      schedule.length ≤ 78 ∧ ((∀ t, Locked.go IpText.dotted storedOrders s' t = none) → ∀ t, s'.rest t = []) := by
  have hrun : ((Daemon.start IpText.dotted (.ok instant)).toOption.bind fun d =>
      (Locked.run IpText.dotted storedOrders (Locked.start instant d) contended).map fun s =>
        ((Locked.go IpText.dotted storedOrders s .ticker).isNone,
          (Locked.go IpText.dotted storedOrders s (.receiver .sflow)).isNone)) = some (true, true) := by
    decide
  obtain ⟨d, hd, hrun⟩ := Option.bind_eq_some_iff.mp hrun
  obtain ⟨s, hs, heq⟩ := Option.map_eq_some_iff.mp hrun
  obtain ⟨hticker, hreceiver⟩ := Prod.mk.inj heq
  obtain ⟨-, hfinish⟩ := tasks_finish IpText.dotted instant d (Fold.except_toOption.mp hd) (by decide) storedOrders
    contended s hs
  exact ⟨d, s, Fold.except_toOption.mp hd, hs, Option.isNone_iff_eq_none.mp hticker,
    Option.isNone_iff_eq_none.mp hreceiver, hfinish⟩

end NetAlert

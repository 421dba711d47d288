import NetAlert.Daemon
import NetAlert.LifeCycle
import NetAlert.Trigger

/-!
# NetAlert.Scripts — the tasks that call the alert script (`alert.rs`)

`execute_script` spawns a task for every payload: it starts the script, writes the payload to it and waits.
The runtime polls the spawned tasks in any order, between the events of the daemon and as often as it takes;
`Scheduled.run` is any such run.

* `scripts_scheduled`: the tasks are spawned in the order of emission, each starts the script at most once and
  in its first poll, and a key's invocations keep the order of emission if its tasks are first polled in it.
* `resolve_overtakes`: nothing else keeps it.
-/

namespace NetAlert

/-- Where a task stands: before the script is started, writing to it, waiting for it, or at its end. -/
inductive TaskStage where
  | spawned
  | writing
  | waiting
  | finished
  deriving DecidableEq

structure ScriptTask where
  scriptPath : String
  payload : AlertPayload
  stage : TaskStage

/-- What a poll of a task meets. -/
inductive Reply where
  | ok
  | failed
  | pending
  deriving DecidableEq

/-- One poll. -/
def ScriptTask.poll (task : ScriptTask) (reply : Reply) : ScriptTask :=
  match task.stage, reply with
  -- the script cannot be started
  | .spawned, .failed => { task with stage := .finished }
  | .spawned, _ => { task with stage := .writing }
  | .writing, .ok => { task with stage := .waiting }
  | .writing, .failed => { task with stage := .finished }
  | .writing, .pending => task
  -- it exits, or is killed after 30 seconds
  | .waiting, .ok => { task with stage := .finished }
  | .waiting, .failed => { task with stage := .finished }
  | .waiting, .pending => task
  | .finished, _ => task

/-- The tasks in the order spawned.  `polled` and `invocations` are histories: the tasks in the order of their
first polls, and those that have started the script, in the order they did. -/
structure Scripts where
  tasks : List ScriptTask := []
  polled : List ℕ := []
  invocations : List ℕ := []

namespace Scripts

/-- `execute_script`. -/
def execute (scriptPath : Option String) (s : Scripts) (payload : AlertPayload) : Scripts :=
  match scriptPath with
  | some scriptPath => { s with tasks := s.tasks ++ [⟨scriptPath, payload, .spawned⟩] }
  | none => s

/-- The runtime polls a task. -/
def poll (s : Scripts) (i : ℕ) (reply : Reply) : Scripts :=
  match s.tasks[i]? with
  | some task =>
    { tasks := s.tasks.set i (task.poll reply)
      polled := if task.stage = .spawned then s.polled ++ [i] else s.polled
      invocations := if task.stage = .spawned ∧ reply ≠ .failed then s.invocations ++ [i] else s.invocations }
  | none => s

end Scripts

/-- The daemon, its tasks, and the payloads emitted while a script was configured. -/
structure Scheduled where
  daemon : Daemon
  scripts : Scripts
  emitted : List AlertPayload

inductive Scheduled.Move where
  | event (orders : TickOrders) (e : Event)
  | poll (i : ℕ) (reply : Reply)

namespace Scheduled

def start (d : Daemon) : Scheduled := ⟨d, {}, []⟩

variable (T : IpText)

def step (s : Scheduled) : Move → Option Scheduled
  | .event orders e => do
    let (d, payloads) ← s.daemon.step T orders e
    return {
      daemon := d
      scripts := payloads.foldl (Scripts.execute s.daemon.alertManager.scriptPath) s.scripts
      emitted := if s.daemon.alertManager.scriptPath.isSome then s.emitted ++ payloads else s.emitted }
  | .poll i reply => some { s with scripts := s.scripts.poll i reply }

def run (s : Scheduled) (moves : List Move) : Option Scheduled := moves.foldlM (step T) s

/-- The emitted payload of a number is about the key. -/
def About (s : Scheduled) (K : AlertKey) (i : ℕ) : Prop := ∃ p ∈ s.emitted[i]?, p.isFor K

instance (s : Scheduled) (K : AlertKey) (i : ℕ) : Decidable (s.About K i) :=
  inferInstanceAs (Decidable (∃ p ∈ s.emitted[i]?, p.isFor K))

/-- Those of some tasks that are about the key, in the order of emission. -/
def InOrder (s : Scheduled) (K : AlertKey) (tasks : List ℕ) : Prop :=
  (tasks.filter fun i => s.About K i).Pairwise (· < ·)

instance (s : Scheduled) (K : AlertKey) (tasks : List ℕ) : Decidable (s.InOrder K tasks) :=
  inferInstanceAs (Decidable (List.Pairwise _ _))

/-- Whenever a payload of the key is emitted, the tasks of its earlier payloads have been polled. -/
def KeepsUp (s : Scheduled) (K : AlertKey) (moves : List Move) : Prop :=
  ∀ before orders e after s₁ d payloads, moves = before ++ .event orders e :: after →
    s.run T before = some s₁ → s₁.daemon.step T orders e = some (d, payloads) →
    (payloads.filter fun p => p.isFor K).length ≤ 1 ∧
      ((∃ p ∈ payloads, p.isFor K) → ∀ i, s₁.About K i → i ∈ s₁.scripts.polled)

/-! ## What the tasks keep -/

/-- One task for every payload, and histories that fit their stages. -/
structure Sound (s : Scheduled) : Prop where
  payloads : s.scripts.tasks.map ScriptTask.payload = s.emitted
  polled : ∀ i task, s.scripts.tasks[i]? = some task → (i ∈ s.scripts.polled ↔ task.stage ≠ .spawned)
  spawned : ∀ i ∈ s.scripts.polled, i < s.scripts.tasks.length
  nodup : s.scripts.polled.Nodup
  invocations : s.scripts.invocations.Sublist s.scripts.polled

theorem sound_start (d : Daemon) : (start d).Sound where
  payloads := rfl
  polled i task h := by cases h
  spawned i h := by cases h
  nodup := List.nodup_nil
  invocations := List.Sublist.refl _

end Scheduled

theorem ScriptTask.payload_poll (task : ScriptTask) (reply : Reply) :
    (task.poll reply).payload = task.payload := by
  unfold ScriptTask.poll
  split <;> rfl

/-- A polled task has left its first stage. -/
theorem ScriptTask.stage_poll (task : ScriptTask) (reply : Reply) : (task.poll reply).stage ≠ .spawned := by
  obtain ⟨scriptPath, payload, stage⟩ := task
  cases stage <;> cases reply <;> exact TaskStage.noConfusion

/-- The calls of one tick. -/
theorem Scripts.foldl_execute (scriptPath : String) (s : Scripts) (payloads : List AlertPayload) :
    payloads.foldl (Scripts.execute (some scriptPath)) s =
      { s with tasks := s.tasks ++ payloads.map fun payload => ⟨scriptPath, payload, .spawned⟩ } := by
  induction payloads generalizing s with
  | nil => simp
  | cons payload payloads ih =>
    rw [List.foldl_cons, ih]
    simp [Scripts.execute]

theorem Scripts.foldl_execute_none (s : Scripts) (payloads : List AlertPayload) :
    payloads.foldl (Scripts.execute none) s = s := by
  induction payloads with
  | nil => rfl
  | cons payload payloads ih => exact ih

namespace Scheduled

variable {T : IpText} {s s' : Scheduled}

/-- **An event** spawns a task for each payload, if a script is configured. -/
theorem event_spec {orders : TickOrders} {e : Event} (h : s.step T (.event orders e) = some s') :
    ∃ d payloads, s.daemon.step T orders e = some (d, payloads) ∧
      (s' = { s with daemon := d } ∨ ∃ scriptPath, s' =
        { daemon := d
          scripts := { s.scripts with
            tasks := s.scripts.tasks ++ payloads.map fun payload => ⟨scriptPath, payload, .spawned⟩ }
          emitted := s.emitted ++ payloads }) := by
  obtain ⟨⟨d, payloads⟩, hd, h⟩ := Option.bind_eq_some_iff.mp h
  refine ⟨d, payloads, hd, ?_⟩
  cases hpath : s.daemon.alertManager.scriptPath with
  | none =>
    simp only [hpath, Scripts.foldl_execute_none, Option.isSome_none, Bool.false_eq_true, if_false] at h
    exact .inl (Option.some.inj h).symm
  | some scriptPath =>
    simp only [hpath, Scripts.foldl_execute, Option.isSome_some, if_true] at h
    exact .inr ⟨scriptPath, (Option.some.inj h).symm⟩

/-- **A poll** changes one task, and shows in the histories if it is the first one. -/
theorem poll_spec {i : ℕ} {reply : Reply} (h : s.step T (.poll i reply) = some s') :
    s' = s ∨ ∃ task, s.scripts.tasks[i]? = some task ∧ s'.daemon = s.daemon ∧ s'.emitted = s.emitted ∧
      s'.scripts.tasks = s.scripts.tasks.set i (task.poll reply) ∧
      ((task.stage ≠ .spawned ∧ s'.scripts.polled = s.scripts.polled ∧
          s'.scripts.invocations = s.scripts.invocations) ∨
        (task.stage = .spawned ∧ s'.scripts.polled = s.scripts.polled ++ [i] ∧
          (s'.scripts.invocations = s.scripts.invocations ∨
            s'.scripts.invocations = s.scripts.invocations ++ [i]))) := by
  obtain rfl := Option.some.inj h
  unfold Scripts.poll
  cases htask : s.scripts.tasks[i]? with
  | none => exact .inl rfl
  | some task =>
    refine .inr ⟨task, rfl, rfl, rfl, rfl, ?_⟩
    by_cases hstage : task.stage = .spawned
    · refine .inr ⟨hstage, if_pos hstage, ?_⟩
      by_cases hreply : reply ≠ .failed
      · exact .inr (if_pos ⟨hstage, hreply⟩)
      · exact .inl (if_neg fun h => hreply h.2)
    · exact .inl ⟨hstage, if_neg hstage, if_neg fun h => hstage h.1⟩

theorem set_self {α : Type} {l : List α} {i : ℕ} {x : α} (h : l[i]? = some x) : l.set i x = l := by
  obtain ⟨hlt, rfl⟩ := List.getElem?_eq_some_iff.mp h
  exact List.set_getElem_self hlt

theorem Sound.event (hs : s.Sound) {orders : TickOrders} {e : Event} (h : s.step T (.event orders e) = some s') :
    s'.Sound := by
  obtain ⟨d, payloads, -, rfl | ⟨scriptPath, rfl⟩⟩ := event_spec h
  · exact ⟨hs.payloads, hs.polled, hs.spawned, hs.nodup, hs.invocations⟩
  · refine ⟨?_, fun i task htask => ?_, fun i hi => ?_, hs.nodup, hs.invocations⟩
    · simp [hs.payloads, Function.comp_def]
    · -- a new task has not been polled
      rcases Nat.lt_or_ge i s.scripts.tasks.length with hlt | hge
      · rw [List.getElem?_append_left hlt] at htask
        exact hs.polled i task htask
      · rw [List.getElem?_append_right hge, List.getElem?_map] at htask
        obtain ⟨payload, -, rfl⟩ := Option.map_eq_some_iff.mp htask
        exact iff_of_false (fun hi => absurd (hs.spawned i hi) (Nat.not_lt.mpr hge)) fun hne => hne rfl
    · rw [List.length_append]
      exact Nat.lt_add_right _ (hs.spawned i hi)

theorem Sound.poll (hs : s.Sound) {i : ℕ} {reply : Reply} (h : s.step T (.poll i reply) = some s') :
    s'.Sound := by
  obtain rfl | ⟨task, htask, -, hemitted, htasks, hhist⟩ := poll_spec h
  · exact hs
  have hlt : i < s.scripts.tasks.length := (List.getElem?_eq_some_iff.mp htask).1
  -- whether or not it is its first poll, the task has been polled afterwards
  have hmem : ∀ j, j ∈ s'.scripts.polled ↔ j ∈ s.scripts.polled ∨ j = i := by
    intro j
    rcases hhist with ⟨hstage, hpolled, -⟩ | ⟨-, hpolled, -⟩
    · have hi : i ∈ s.scripts.polled := (hs.polled i task htask).mpr hstage
      rw [hpolled]
      exact ⟨.inl, fun hj => hj.elim id fun heq => heq ▸ hi⟩
    · rw [hpolled, List.mem_append, List.mem_singleton]
  refine ⟨?_, fun j t ht => ?_, fun j hj => ?_, ?_, ?_⟩
  · rw [htasks, hemitted, ← hs.payloads, List.map_set, task.payload_poll]
    apply set_self
    rw [List.getElem?_map, htask]
    rfl
  · rw [htasks] at ht
    by_cases hj : j = i
    · subst hj
      rw [List.getElem?_set_self hlt] at ht
      obtain rfl := Option.some.inj ht
      exact iff_of_true ((hmem j).mpr (.inr rfl)) (task.stage_poll reply)
    · rw [List.getElem?_set_ne (Ne.symm hj)] at ht
      rw [hmem, or_iff_left hj]
      exact hs.polled j t ht
  · rw [htasks, List.length_set]
    rcases (hmem j).mp hj with hj | rfl
    · exact hs.spawned j hj
    · exact hlt
  · rcases hhist with ⟨-, hpolled, -⟩ | ⟨hstage, hpolled, -⟩
    · rw [hpolled]
      exact hs.nodup
    · have hi : i ∉ s.scripts.polled := fun hi => (hs.polled i task htask).mp hi hstage
      rw [hpolled, ← List.concat_eq_append]
      exact hs.nodup.concat hi
  · rcases hhist with ⟨-, hpolled, hinv⟩ | ⟨-, hpolled, hinv | hinv⟩
    · rw [hpolled, hinv]
      exact hs.invocations
    · rw [hpolled, hinv]
      exact hs.invocations.trans (List.sublist_append_left _ _)
    · rw [hpolled, hinv]
      exact hs.invocations.append (List.Sublist.refl _)

theorem step_sound (m : Move) (s s' : Scheduled) (hs : s.Sound) (h : s.step T m = some s') : s'.Sound := by
  cases m with
  | event orders e => exact hs.event h
  | poll i reply => exact hs.poll h

theorem run_sound {d : Daemon} {moves : List Move} (h : (start d).run T moves = some s) : s.Sound := by
  unfold run at h
  exact Fold.option_ok Sound step_sound (sound_start d) h

/-! ## Keeping up -/

/-- The first polls of a key's tasks have been in order, and a task of the key that waits for its own comes after
all others. -/
structure Prompt (s : Scheduled) (K : AlertKey) : Prop where
  order : s.InOrder K s.scripts.polled
  last : ∀ i, s.About K i → i ∉ s.scripts.polled → ∀ j, s.About K j → j ≤ i

/-- Of the payloads of a tick, one at most is about the key. -/
theorem index_unique {α : Type} {P : α → Bool} {l : List α} (h : (l.filter P).length ≤ 1) {i j : ℕ} {x y : α}
    (hi : l[i]? = some x) (hx : P x = true) (hj : l[j]? = some y) (hy : P y = true) : i = j := by
  induction l generalizing i j with
  | nil => cases hi
  | cons a l ih =>
    have hnone : P a = true → ∀ (k : ℕ) (z : α), l[k]? = some z → P z = true → False := by
      intro ha k z hk hz
      rw [List.filter_cons_of_pos ha, List.length_cons] at h
      have hmem : z ∈ l.filter P := List.mem_filter.mpr ⟨List.mem_of_getElem? hk, hz⟩
      have hpos := List.length_pos_of_mem hmem
      omega
    have htail : (l.filter P).length ≤ 1 := le_trans ((List.sublist_cons_self a l).filter P).length_le h
    cases i with
    | zero =>
      cases j with
      | zero => rfl
      | succ j =>
        obtain rfl : a = x := by simpa using hi
        exact (hnone hx j y (by simpa using hj) hy).elim
    | succ i =>
      cases j with
      | zero =>
        obtain rfl : a = y := by simpa using hj
        exact (hnone hy i x (by simpa using hi) hx).elim
      | succ j => exact congrArg Nat.succ (ih htail (by simpa using hi) (by simpa using hj))

theorem About.lt {K : AlertKey} {i : ℕ} (h : s.About K i) : i < s.emitted.length := by
  obtain ⟨p, hp, -⟩ := h
  exact (List.getElem?_eq_some_iff.mp hp).1

/-- What was emitted stays where it is. -/
theorem about_append {K : AlertKey} {payloads : List AlertPayload} (hs' : s'.emitted = s.emitted ++ payloads)
    {i : ℕ} :
    s'.About K i ↔ s.About K i ∨ ∃ k p, i = s.emitted.length + k ∧ payloads[k]? = some p ∧ p.isFor K := by
  unfold About
  rw [hs']
  rcases Nat.lt_or_ge i s.emitted.length with hlt | hge
  · rw [List.getElem?_append_left hlt]
    refine (or_iff_left ?_).symm
    rintro ⟨k, p, rfl, -⟩
    omega
  · obtain ⟨k, rfl⟩ := Nat.exists_eq_add_of_le hge
    rw [List.getElem?_append_right hge, Nat.add_sub_cancel_left, List.getElem?_eq_none hge]
    simp

/-- The order of first polls depends on what they are about only. -/
theorem inOrder_congr {K : AlertKey} {polled : List ℕ} (h : ∀ i ∈ polled, s'.About K i ↔ s.About K i) :
    s'.InOrder K polled ↔ s.InOrder K polled := by
  have hfilter : polled.filter (fun i => s'.About K i) = polled.filter fun i => s.About K i :=
    List.filter_congr fun i hi => by rw [decide_eq_decide, h i hi]
  rw [InOrder, InOrder, hfilter]

/-- **Payloads** that come when all tasks of their key have been polled. -/
theorem Prompt.event {K : AlertKey} (hs : s.Sound) (hp : s.Prompt K) {orders : TickOrders} {e : Event}
    (h : s.step T (.event orders e) = some s')
    (hkeeps : ∀ d payloads, s.daemon.step T orders e = some (d, payloads) →
      (payloads.filter fun p => p.isFor K).length ≤ 1 ∧
        ((∃ p ∈ payloads, p.isFor K) → ∀ i, s.About K i → i ∈ s.scripts.polled)) : s'.Prompt K := by
  obtain ⟨d, payloads, hd, rfl | ⟨scriptPath, heq⟩⟩ := event_spec h
  · exact ⟨hp.order, hp.last⟩
  obtain ⟨hone, hall⟩ := hkeeps d payloads hd
  have hemitted : s'.emitted = s.emitted ++ payloads := by rw [heq]
  have hpolled : s'.scripts.polled = s.scripts.polled := by rw [heq]
  refine ⟨?_, fun i hi hnot j hj => ?_⟩
  · rw [hpolled, inOrder_congr fun i hi => ?_]
    · exact hp.order
    · rw [about_append hemitted]
      refine or_iff_left ?_
      rintro ⟨k, p, rfl, -⟩
      have hlt := hs.spawned _ hi
      have hlen := congrArg List.length hs.payloads
      rw [List.length_map] at hlen
      omega
  · rw [hpolled] at hnot
    rcases (about_append hemitted).mp hi with hold | ⟨k, p, rfl, hk, hpK⟩
    · -- an old one waits, so nothing new is about the key
      rcases (about_append hemitted).mp hj with hold' | ⟨k, p, rfl, hk, hpK⟩
      · exact hp.last i hold hnot j hold'
      · exact absurd (hall ⟨p, List.mem_of_getElem? hk, hpK⟩ i hold) hnot
    · -- the new one comes last
      rcases (about_append hemitted).mp hj with hold | ⟨k', p', rfl, hk', hpK'⟩
      · exact le_trans hold.lt.le (Nat.le_add_right _ _)
      · exact Nat.add_le_add_left (index_unique hone hk' (by simpa using hpK') hk (by simpa using hpK)).le _

/-- **A poll**: if it is the first one of a task of the key, all others of the key come before. -/
theorem Prompt.poll {K : AlertKey} (hs : s.Sound) (hp : s.Prompt K) {i : ℕ} {reply : Reply}
    (h : s.step T (.poll i reply) = some s') : s'.Prompt K := by
  obtain rfl | ⟨task, htask, -, hemitted, -, hhist⟩ := poll_spec h
  · exact hp
  have habout : ∀ j, s'.About K j ↔ s.About K j := fun j => by rw [About, About, hemitted]
  rcases hhist with ⟨-, hpolled, -⟩ | ⟨hstage, hpolled, -⟩
  · refine ⟨?_, fun j hj hnot k hk => ?_⟩
    · rw [hpolled, inOrder_congr fun j _ => habout j]
      exact hp.order
    · rw [hpolled] at hnot
      exact hp.last j ((habout j).mp hj) hnot k ((habout k).mp hk)
  · have hi : i ∉ s.scripts.polled := fun hi => (hs.polled i task htask).mp hi hstage
    refine ⟨?_, fun j hj hnot k hk => ?_⟩
    · rw [hpolled, inOrder_congr fun j _ => habout j, InOrder, List.filter_append, List.pairwise_append]
      refine ⟨hp.order, (List.pairwise_singleton _ i).filter _, fun j hj k hk => ?_⟩
      obtain ⟨hj, hjK⟩ := List.mem_filter.mp hj
      obtain ⟨hk, hkK⟩ := List.mem_filter.mp hk
      obtain rfl := List.mem_singleton.mp hk
      have hle := hp.last k (of_decide_eq_true hkK) hi j (of_decide_eq_true hjK)
      exact lt_of_le_of_ne hle fun hjk => hi (hjk ▸ hj)
    · rw [hpolled, List.mem_append, not_or] at hnot
      exact hp.last j ((habout j).mp hj) hnot.1 k ((habout k).mp hk)

/-- **Runs that keep up** poll a key's tasks in order. -/
theorem run_prompt {K : AlertKey} {d : Daemon} {moves : List Move} (h : (start d).run T moves = some s)
    (hkeeps : (start d).KeepsUp T K moves) : s.Prompt K := by
  induction moves using List.reverseRecOn generalizing s with
  | nil =>
    obtain rfl := Option.some.inj h
    refine ⟨List.Pairwise.nil, ?_⟩
    rintro i ⟨p, hp, -⟩
    cases hp
  | append_singleton moves m ih =>
    rw [run, List.foldlM_append] at h
    obtain ⟨s₁, hs₁, hrest⟩ := Option.bind_eq_some_iff.mp h
    obtain ⟨s₂, hm, hs₂⟩ := Option.bind_eq_some_iff.mp hrest
    obtain rfl := Option.some.inj hs₂
    have hp : s₁.Prompt K := by
      apply ih hs₁
      rintro before orders e after s₂ d' payloads rfl
      exact hkeeps before orders e (after ++ [m]) s₂ d' payloads (by simp)
    cases m with
    | event orders e =>
      exact hp.event (run_sound hs₁) hm fun d' payloads hd' =>
        hkeeps moves orders e [] s₁ d' payloads (by simp) hs₁ hd'
    | poll i reply => exact hp.poll (run_sound hs₁) hm

end Scheduled

/-- **Script calls.**  In every run and under any scheduling each emitted payload gets one task, in the order of
emission; a task starts the script at most once and in its first poll.  So the invocations of a key keep the order
of emission if its tasks are first polled in it, which they are if the tasks keep up with the key. -/
theorem scripts_scheduled (T : IpText) (d : Daemon) (moves : List Scheduled.Move) (s : Scheduled)
    (h : (Scheduled.start d).run T moves = some s) :
    s.scripts.tasks.map ScriptTask.payload = s.emitted ∧
      s.scripts.invocations.Nodup ∧ (∀ i ∈ s.scripts.invocations, i < s.emitted.length) ∧
      s.scripts.invocations.Sublist s.scripts.polled ∧
      (∀ K, s.InOrder K s.scripts.polled → s.InOrder K s.scripts.invocations) ∧
      ∀ K, (Scheduled.start d).KeepsUp T K moves → s.InOrder K s.scripts.polled := by
  have hs := Scheduled.run_sound h
  refine ⟨hs.payloads, hs.nodup.sublist hs.invocations, fun i hi => ?_, hs.invocations, fun K hK => ?_,
    fun K hkeeps => (Scheduled.run_prompt h hkeeps).order⟩
  · rw [← hs.payloads, List.length_map]
    exact hs.spawned i (hs.invocations.subset hi)
  · exact List.Pairwise.sublist (hs.invocations.filter _) hK

/-! ## A resolve that overtakes its trigger -/

/-- An alert that fires at once, with a script. -/
def scripted : Config :=
  { instant with global := { instant.global with alertScript := some "/etc/netalert/alert.sh" } }

def scriptedKey : AlertKey := ⟨"10.2.3.0/24", .any, .inbound, .bps⟩

/-- A flow, a tick that arms the alert and one that fires it. -/
def firing : List Scheduled.Move :=
  [.receive none ⟨.V4 0xC6336401, .V4 0x0A020307, 443, 30000, 6, 0x10, 10000, 10, 1000, 1⟩, .process, .tick 1000 0,
    .tick 1001 (Duration.fromSecs 1)].map (.event ⟨HashOrder.stored, fun _ _ => HashOrder.stored⟩)

/-- Two ticks later the window is empty and the alert resolves. -/
def resolving : List Scheduled.Move :=
  [.tick 1020 (Duration.fromSecs 20), .tick 1021 (Duration.fromSecs 21)].map
    (.event ⟨HashOrder.stored, fun _ _ => HashOrder.stored⟩)

/-- A fresh daemon after some moves. -/
def scheduledAfter (moves : List Scheduled.Move) : Option Scheduled := do
  let d ← (Daemon.start IpText.dotted (.ok scripted)).toOption
  (Scheduled.start d).run IpText.dotted moves

theorem scheduledAfter_some {moves : List Scheduled.Move} {s : Scheduled} (h : scheduledAfter moves = some s) :
    ∃ d, Daemon.start IpText.dotted (.ok scripted) = .ok d ∧
      (Scheduled.start d).run IpText.dotted moves = some s := by
  unfold scheduledAfter at h
  obtain ⟨d, hd, h⟩ := Option.bind_eq_some_iff.mp h
  exact ⟨d, Fold.except_toOption.mp hd, h⟩

theorem scripts_scheduled_prompt : ∃ s, scheduledAfter (firing ++ [.poll 0 .ok] ++ resolving ++ [.poll 1 .ok]) =
    some s ∧ s.scripts.invocations = [0, 1] ∧ s.InOrder scriptedKey s.scripts.invocations := by
  have hrun : (scheduledAfter (firing ++ [.poll 0 .ok] ++ resolving ++ [.poll 1 .ok])).map (fun s =>
      (s.scripts.invocations, decide (s.InOrder scriptedKey s.scripts.polled))) = some ([0, 1], true) := by
    decide +kernel
  obtain ⟨s, hs, h⟩ := Option.map_eq_some_iff.mp hrun
  obtain ⟨hinv, hpolled⟩ := Prod.mk.inj h
  obtain ⟨d, -, hd⟩ := scheduledAfter_some hs
  exact ⟨s, hs, hinv, (scripts_scheduled IpText.dotted d _ s hd).2.2.2.2.1 scriptedKey (of_decide_eq_true hpolled)⟩

/-- **A resolve before its trigger.**  Both tasks are waiting when the runtime polls the later one first. -/
theorem resolve_overtakes : ∃ s, scheduledAfter (firing ++ resolving ++ [.poll 1 .ok, .poll 0 .ok]) = some s ∧
    traceOf scriptedKey s.emitted = [("trigger", .v4 0), ("resolve", .v4 0)] ∧ s.scripts.invocations = [1, 0] ∧
    ¬ s.InOrder scriptedKey s.scripts.invocations := by
  have hrun : (scheduledAfter (firing ++ resolving ++ [.poll 1 .ok, .poll 0 .ok])).map (fun s =>
      (decide (traceOf scriptedKey s.emitted = [("trigger", .v4 0), ("resolve", .v4 0)]), s.scripts.invocations,
        decide (s.InOrder scriptedKey s.scripts.invocations))) = some (true, [1, 0], false) := by
    decide +kernel
  obtain ⟨s, hs, h⟩ := Option.map_eq_some_iff.mp hrun
  obtain ⟨htrace, h⟩ := Prod.mk.inj h
  obtain ⟨hinv, horder⟩ := Prod.mk.inj h
  exact ⟨s, hs, of_decide_eq_true htrace, hinv, of_decide_eq_false horder⟩

end NetAlert

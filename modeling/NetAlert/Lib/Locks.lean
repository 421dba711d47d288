import Mathlib.Tactic

/-!
# NetAlert.Lib.Locks — tasks that take locks

A task runs programs, which take locks, give them back and work on what the tasks share.  Several tasks may hold a
lock to read, or one to write.  Who asks for a lock waits in its queue, first come, first served.  Work may end a
program early; its guards are dropped then.

* `Always`: what holds at every point of a program, with the guards that it has there.
* `Sound.progress`: if all programs take their locks in order, tasks never wait for each other in a circle.
* `Sound.goes`: nor do they go on for ever.
-/

namespace Locks

inductive Mode where
  | shared
  | exclusive
  deriving DecidableEq

inductive Instr (L M : Type) where
  | acquire (lock : L) (mode : Mode)
  | release (lock : L)
  | work (move : M)

section Programs

variable {L M : Type}

/-- The guards that are left when one of them is dropped. -/
def drop [DecidableEq L] (lock : L) (guards : List (L × Mode)) : List (L × Mode) :=
  guards.eraseP fun g => g.1 = lock

/-- The end of a program that returns early. -/
def abandon (guards : List (L × Mode)) : List (Instr L M) := guards.map fun g => .release g.1

/-- The work that is ahead. -/
def works : List (Instr L M) → List M
  | [] => []
  | .work move :: rest => move :: works rest
  | _ :: rest => works rest

@[simp] theorem works_abandon (guards : List (L × Mode)) : works (abandon guards : List (Instr L M)) = [] := by
  induction guards with
  | nil => rfl
  | cons g guards ih => exact ih

/-- `P` holds of what is ahead, and of the guards, at every point of a program. -/
def Always [DecidableEq L] (P : List (L × Mode) → List (Instr L M) → Prop) :
    List (L × Mode) → List (Instr L M) → Prop
  | guards, [] => P guards []
  | guards, .acquire lock mode :: rest =>
    P guards (.acquire lock mode :: rest) ∧ Always P ((lock, mode) :: guards) rest
  | guards, .release lock :: rest => P guards (.release lock :: rest) ∧ Always P (drop lock guards) rest
  | guards, .work move :: rest => P guards (.work move :: rest) ∧ Always P guards rest

/-- The next lock comes after all that are held, and none is kept at the end. -/
def InOrder [LinearOrder L] (guards : List (L × Mode)) : List (Instr L M) → Prop
  | [] => guards = []
  | .acquire lock _ :: _ => ∀ g ∈ guards, g.1 < lock
  | _ => True

/-- A discipline that programs keep: they take their locks in order, and may return at any point. -/
structure Discipline [LinearOrder L] (P : List (L × Mode) → List (Instr L M) → Prop) : Prop where
  inOrder : ∀ guards rest, P guards rest → InOrder guards rest
  abandon : ∀ guards, Always P guards (abandon guards)

theorem Always.here [DecidableEq L] {P : List (L × Mode) → List (Instr L M) → Prop} {guards : List (L × Mode)}
    {rest : List (Instr L M)} (h : Always P guards rest) : P guards rest := by
  match rest, h with
  | [], h => exact h
  | .acquire _ _ :: _, h => exact h.1
  | .release _ :: _, h => exact h.1
  | .work _ :: _, h => exact h.1

@[simp] theorem drop_cons [DecidableEq L] (g : L × Mode) (guards : List (L × Mode)) :
    drop g.1 (g :: guards) = guards := by
  simp [drop]

theorem length_le_drop [DecidableEq L] (lock : L) (guards : List (L × Mode)) :
    guards.length ≤ (drop lock guards).length + 1 := by
  rw [drop, List.length_eraseP]
  split_ifs <;> omega

/-- What holds when nothing but releases is ahead holds all along an early return. -/
theorem always_abandon [DecidableEq L] {P : List (L × Mode) → List (Instr L M) → Prop} (hnil : P [] [])
    (hrelease : ∀ g guards, P (g :: guards) (abandon (g :: guards))) (guards : List (L × Mode)) :
    Always P guards (abandon guards) := by
  induction guards with
  | nil => exact hnil
  | cons g guards ih =>
    refine ⟨hrelease g guards, ?_⟩
    rw [drop_cons]
    exact ih

/-- A program gives all its guards back. -/
theorem length_le_of_always [LinearOrder L] {P : List (L × Mode) → List (Instr L M) → Prop}
    (hP : ∀ guards rest, P guards rest → InOrder guards rest) {guards : List (L × Mode)}
    {rest : List (Instr L M)} (h : Always P guards rest) : guards.length ≤ rest.length := by
  induction rest generalizing guards with
  | nil => simp [show guards = [] from hP _ _ h]
  | cons i rest ih =>
    cases i with
    | acquire lock mode => exact (Nat.le_succ _).trans ((ih h.2).trans (Nat.le_succ _))
    | release lock => exact (length_le_drop lock guards).trans (Nat.succ_le_succ (ih h.2))
    | work move => exact (ih h.2).trans (Nat.le_succ _)

end Programs

end Locks

/-- The tasks, what they share, and who waits for which lock. -/
structure Locks (τ L M D : Type) where
  data : D
  rest : τ → List (Locks.Instr L M)
  guards : τ → List (L × Locks.Mode)
  queue : L → List (τ × Locks.Mode)

namespace Locks

variable {τ L M D J : Type}

section Left

variable [DecidableEq τ] {s s' : Locks τ L M D} {t : τ}

/-- The steps that a task has left at most: two for each instruction, and one less while it waits. -/
def cost (s : Locks τ L M D) (t : τ) : ℕ :=
  match s.rest t with
  | .acquire lock mode :: rest => 2 * rest.length + if (t, mode) ∈ s.queue lock then 1 else 2
  | rest => 2 * rest.length

def left [Fintype τ] (s : Locks τ L M D) : ℕ := ∑ t, s.cost t

theorem cost_le (s : Locks τ L M D) (t : τ) : s.cost t ≤ 2 * (s.rest t).length := by
  unfold cost
  split
  · rename_i hrest
    rw [hrest, List.length_cons]
    split_ifs <;> omega
  · exact le_rfl

theorem cost_congr (hrest : s'.rest t = s.rest t)
    (hqueue : ∀ lock mode, (t, mode) ∈ s'.queue lock ↔ (t, mode) ∈ s.queue lock) : s'.cost t = s.cost t := by
  simp only [cost, hrest, hqueue]

theorem left_le [Fintype τ] {size : τ → ℕ} (h : ∀ t, (s.rest t).length ≤ size t) : s.left ≤ 2 * ∑ t, size t := by
  rw [Finset.mul_sum]
  exact Finset.sum_le_sum fun t _ => (s.cost_le t).trans (Nat.mul_le_mul_left 2 (h t))

end Left

variable [LinearOrder L]

section Steps

variable [DecidableEq τ] [Fintype τ] (exec : M → D → Option (D × Bool)) (owner : J → τ)
  (program : J → List (Instr L M)) (s : Locks τ L M D)

/-- No task is in the way of a guard. -/
def Free (lock : L) (mode : Mode) : Prop :=
  ∀ t, ∀ g ∈ s.guards t, g.1 = lock → mode = .shared ∧ g.2 = .shared

instance (lock : L) (mode : Mode) : Decidable (s.Free lock mode) :=
  inferInstanceAs (Decidable (∀ t, ∀ g ∈ s.guards t, g.1 = lock → mode = .shared ∧ g.2 = .shared))

/-- The next step of a task, if it can go on: it asks for a lock, gets one, drops a guard, or does some work, which
tells whether the program goes on. -/
def go (t : τ) : Option (Locks τ L M D) :=
  match s.rest t with
  | [] => none
  | .acquire lock mode :: rest =>
    if (s.queue lock).head? = some (t, mode) ∧ s.Free lock mode then
      some { s with
        rest := Function.update s.rest t rest
        guards := Function.update s.guards t ((lock, mode) :: s.guards t)
        queue := Function.update s.queue lock (s.queue lock).tail }
    else if (t, mode) ∈ s.queue lock then none
    else some { s with queue := Function.update s.queue lock (s.queue lock ++ [(t, mode)]) }
  | .release lock :: rest =>
    some { s with
      rest := Function.update s.rest t rest
      guards := Function.update s.guards t (drop lock (s.guards t)) }
  | .work move :: rest => do
    let (data, goesOn) ← exec move s.data
    return { s with
      data := data
      rest := Function.update s.rest t (if goesOn then rest else abandon (s.guards t)) }

/-- A task at rest takes up a job. -/
def begin (job : J) : Option (Locks τ L M D) :=
  if s.rest (owner job) = [] then some { s with rest := Function.update s.rest (owner job) (program job) }
  else none

inductive Action (J τ : Type) where
  | begin (job : J)
  | go (t : τ)

def step : Action J τ → Option (Locks τ L M D)
  | .begin job => s.begin owner program job
  | .go t => s.go exec t

def run (actions : List (Action J τ)) : Option (Locks τ L M D) :=
  actions.foldlM (fun s action => s.step exec owner program action) s

/-- Steps of the tasks, without new jobs. -/
def goes (schedule : List τ) : Option (Locks τ L M D) := schedule.foldlM (fun s t => s.go exec t) s

/-- All tasks at rest. -/
def start (data : D) : Locks τ L M D where
  data := data
  rest := fun _ => []
  guards := fun _ => []
  queue := fun _ => []

end Steps

/-! ## What holds in every run -/

/-- Every task is at a point of its program, and waits only for its next lock; no task holds a lock that another
one writes under. -/
structure Sound (P : List (L × Mode) → List (Instr L M) → Prop) (s : Locks τ L M D) : Prop where
  points : ∀ t, Always P (s.guards t) (s.rest t)
  queued : ∀ lock t mode, (t, mode) ∈ s.queue lock → ∃ rest, s.rest t = .acquire lock mode :: rest
  nodup : ∀ lock, (s.queue lock).Nodup
  excluded : ∀ t t' lock mode, (lock, Mode.exclusive) ∈ s.guards t → (lock, mode) ∈ s.guards t' → t = t'

variable {P : List (L × Mode) → List (Instr L M) → Prop} {s s' : Locks τ L M D} {t : τ}

theorem Sound.start (hP : P [] []) (data : D) : Sound P (start data : Locks τ L M D) where
  points _ := hP
  queued _ _ _ h := by cases h
  nodup _ := List.nodup_nil
  excluded _ _ _ _ h := by cases h

/-- A task that does not ask for a lock waits for none. -/
theorem Sound.not_queued (h : Sound P s) (hrest : ∀ lock mode rest, s.rest t ≠ .acquire lock mode :: rest)
    {lock : L} {t' : τ} {mode : Mode} (hqueue : (t', mode) ∈ s.queue lock) : t' ≠ t := by
  rintro rfl
  obtain ⟨rest, heq⟩ := h.queued _ _ _ hqueue
  exact hrest _ _ _ heq

/-- No task waits in two queues. -/
theorem Sound.queued_once (h : Sound P s) {lock lock' : L} {mode mode' : Mode} {rest : List (Instr L M)}
    (hrest : s.rest t = .acquire lock mode :: rest) (hqueue : (t, mode') ∈ s.queue lock') :
    lock' = lock ∧ mode' = mode := by
  obtain ⟨rest', heq⟩ := h.queued _ _ _ hqueue
  rw [hrest] at heq
  cases heq
  exact ⟨rfl, rfl⟩

variable [DecidableEq τ] {exec : M → D → Option (D × Bool)}

/-- What one step does. -/
inductive Step (exec : M → D → Option (D × Bool)) (s : Locks τ L M D) (t : τ) : Locks τ L M D → Prop where
  | ask {lock : L} {mode : Mode} {rest : List (Instr L M)} (hrest : s.rest t = .acquire lock mode :: rest)
      (hqueue : (t, mode) ∉ s.queue lock) :
      Step exec s t { s with queue := Function.update s.queue lock (s.queue lock ++ [(t, mode)]) }
  | acquire {lock : L} {mode : Mode} {rest : List (Instr L M)} {waiting : List (τ × Mode)}
      (hrest : s.rest t = .acquire lock mode :: rest) (hqueue : s.queue lock = (t, mode) :: waiting)
      (hfree : s.Free lock mode) :
      Step exec s t { s with
        rest := Function.update s.rest t rest
        guards := Function.update s.guards t ((lock, mode) :: s.guards t)
        queue := Function.update s.queue lock waiting }
  | release {lock : L} {rest : List (Instr L M)} (hrest : s.rest t = .release lock :: rest) :
      Step exec s t { s with
        rest := Function.update s.rest t rest
        guards := Function.update s.guards t (drop lock (s.guards t)) }
  | work {move : M} {rest : List (Instr L M)} {data : D} {goesOn : Bool} (hrest : s.rest t = .work move :: rest)
      (hdata : exec move s.data = some (data, goesOn)) :
      Step exec s t { s with
        data := data
        rest := Function.update s.rest t (if goesOn then rest else abandon (s.guards t)) }

theorem go_step [Fintype τ] (h : s.go exec t = some s') : Step exec s t s' := by
  unfold go at h
  split at h
  · cases h
  · rename_i lock mode rest hrest
    split_ifs at h with hfirst hwaits
    · cases h
      obtain ⟨waiting, hqueue⟩ := List.head?_eq_some_iff.mp hfirst.1
      rw [hqueue]
      exact .acquire hrest hqueue hfirst.2
    · cases h
      exact .ask hrest hwaits
  · rename_i hrest
    cases h
    exact .release hrest
  · rename_i hrest
    obtain ⟨⟨data, goesOn⟩, hdata, h⟩ := Option.bind_eq_some_iff.mp h
    cases h
    exact .work hrest hdata

/-- **A step** of a task that asks for no lock. -/
theorem Sound.moved (h : Sound P s) (data : D)
    (hrest : ∀ lock mode rest, s.rest t ≠ .acquire lock mode :: rest) {rest : List (Instr L M)}
    {guards : List (L × Mode)} (hpoint : Always P guards rest) (hguards : guards ⊆ s.guards t) :
    Sound P { s with
      data := data
      rest := Function.update s.rest t rest
      guards := Function.update s.guards t guards } where
  points t' := by
    by_cases ht : t' = t
    · subst ht
      simpa using hpoint
    · simpa [ht] using h.points t'
  queued lock t' mode hqueue := by
    simpa [h.not_queued hrest hqueue] using h.queued lock t' mode hqueue
  nodup := h.nodup
  excluded t₁ t₂ lock mode h₁ h₂ := by
    have hold : ∀ t' g, g ∈ Function.update s.guards t guards t' → g ∈ s.guards t' := by
      intro t' g hg
      by_cases ht : t' = t
      · subst ht
        exact hguards (by simpa using hg)
      · simpa [ht] using hg
    exact h.excluded t₁ t₂ lock mode (hold _ _ h₁) (hold _ _ h₂)

/-- **One step.** -/
theorem Sound.step (hP : Discipline P) (h : Sound P s) (hs : Step exec s t s') : Sound P s' := by
  have hpoint := h.points t
  cases hs with
  | @ask lock mode rest hrest hqueue =>
    have hlast : (s.queue lock ++ [(t, mode)]).Nodup := by
      refine List.nodup_append.mpr ⟨h.nodup lock, List.nodup_singleton _, fun e he e' he' heq => hqueue ?_⟩
      rwa [← List.mem_singleton.mp he', ← heq]
    refine ⟨h.points, fun lock' t' mode' hmem => ?_, fun lock' => ?_, h.excluded⟩
    · simp only [Function.update_apply] at hmem
      split_ifs at hmem with hlock
      · rcases List.mem_append.mp hmem with hmem | hmem
        · exact h.queued _ _ _ (hlock ▸ hmem)
        · cases List.mem_singleton.mp hmem
          exact ⟨rest, hlock ▸ hrest⟩
      · exact h.queued _ _ _ hmem
    · simp only [Function.update_apply]
      split_ifs
      · exact hlast
      · exact h.nodup lock'
  | @acquire lock mode rest waiting hrest hqueue hfree =>
    rw [hrest] at hpoint
    have hnodup := h.nodup lock
    rw [hqueue] at hnodup
    have hother : ∀ lock' t' mode', (t', mode') ∈ Function.update s.queue lock waiting lock' →
        t' ≠ t ∧ (t', mode') ∈ s.queue lock' := by
      intro lock' t' mode' hmem
      simp only [Function.update_apply] at hmem
      split_ifs at hmem with hlock
      · have hmem' : (t', mode') ∈ s.queue lock := hqueue ▸ List.mem_cons_of_mem _ hmem
        refine ⟨?_, hlock ▸ hmem'⟩
        rintro rfl
        obtain ⟨-, rfl⟩ := h.queued_once hrest hmem'
        exact (List.nodup_cons.mp hnodup).1 hmem
      · refine ⟨?_, hmem⟩
        rintro rfl
        exact hlock (h.queued_once hrest hmem).1
    have hguards : ∀ t' g, g ∈ Function.update s.guards t ((lock, mode) :: s.guards t) t' →
        g ∈ s.guards t' ∨ t' = t ∧ g = (lock, mode) := by
      intro t' g hg
      by_cases ht : t' = t
      · subst ht
        rw [Function.update_self] at hg
        exact (List.mem_cons.mp hg).symm.imp_right fun hg => ⟨rfl, hg⟩
      · exact .inl (by simpa [ht] using hg)
    refine ⟨fun t' => ?_, fun lock' t' mode' hmem => ?_, fun lock' => ?_, fun t₁ t₂ lock' mode' h₁ h₂ => ?_⟩
    · by_cases ht : t' = t
      · subst ht
        simpa using hpoint.2
      · simpa [ht] using h.points t'
    · obtain ⟨hne, hmem⟩ := hother _ _ _ hmem
      simpa [hne] using h.queued _ _ _ hmem
    · by_cases hlock : lock' = lock
      · subst hlock
        simpa using (List.nodup_cons.mp hnodup).2
      · simpa [hlock] using h.nodup lock'
    · rcases hguards _ _ h₁ with hold₁ | ⟨rfl, heq₁⟩ <;> rcases hguards _ _ h₂ with hold₂ | ⟨rfl, heq₂⟩
      · exact h.excluded _ _ _ _ hold₁ hold₂
      · cases heq₂
        cases (hfree t₁ (lock, .exclusive) hold₁ rfl).2
      · cases heq₁
        cases (hfree t₂ (lock, mode') hold₂ rfl).1
      · rfl
  | release hrest =>
    rw [hrest] at hpoint
    exact h.moved s.data (by simp [hrest]) hpoint.2 List.eraseP_subset
  | @work move rest data goesOn hrest hdata =>
    rw [hrest] at hpoint
    have hpoint' : Always P (s.guards t) (if goesOn then rest else abandon (s.guards t)) := by
      split_ifs
      · exact hpoint.2
      · exact hP.abandon _
    simpa using h.moved data (by simp [hrest]) hpoint' (List.Subset.refl _)

/-- **A new job.** -/
theorem Sound.begin (hP : Discipline P) (h : Sound P s) {owner : J → τ} {program : J → List (Instr L M)}
    {job : J} (hjob : Always P [] (program job)) (hs : s.begin owner program job = some s') : Sound P s' := by
  unfold Locks.begin at hs
  split_ifs at hs with hrest
  cases hs
  have hpoint := h.points (owner job)
  rw [hrest] at hpoint
  have hguards : s.guards (owner job) = [] := hP.inOrder _ _ hpoint
  simpa using h.moved s.data (by simp [hrest]) (hguards ▸ hjob) (List.Subset.refl _)

/-! ## Progress -/

/-- The lock that a task waits for. -/
def wants (s : Locks τ L M D) (t : τ) : WithBot L :=
  match s.rest t with
  | .acquire lock _ :: _ => lock
  | _ => ⊥

/-- **No deadlock.**  As long as a program is not finished, some task can go on. -/
theorem Sound.progress [Fintype τ] (hP : Discipline P) (h : Sound P s)
    (hwork : ∀ t move rest, s.rest t = .work move :: rest → (exec move s.data).isSome = true)
    (hbusy : ∃ t, s.rest t ≠ []) : ∃ t s', s.go exec t = some s' := by
  by_contra hstuck
  have hnone : ∀ t, s.go exec t = none := fun t =>
    Option.eq_none_iff_forall_not_mem.mpr fun s' hs' => hstuck ⟨t, s', hs'⟩
  have hwaits : ∀ t, s.rest t ≠ [] → ∃ lock mode rest, s.rest t = .acquire lock mode :: rest ∧
      (t, mode) ∈ s.queue lock := by
    intro t hrest
    have ht := hnone t
    unfold go at ht
    split at ht
    · exact absurd ‹_› hrest
    · rename_i lock mode rest heq
      split_ifs at ht with _ hqueue
      exact ⟨lock, mode, rest, heq, hqueue⟩
    · cases ht
    · rename_i move rest heq
      obtain ⟨r, hr⟩ := Option.isSome_iff_exists.mp (hwork t move rest heq)
      rw [hr] at ht
      cases ht
  -- a task that waits for the last lock: whoever holds that one waits for a later one
  obtain ⟨u, hbusy⟩ := hbusy
  obtain ⟨t, -, hmax⟩ := Finset.exists_max_image Finset.univ s.wants ⟨u, Finset.mem_univ u⟩
  have hlock : ∃ lock mode rest, s.rest t = .acquire lock mode :: rest ∧ (t, mode) ∈ s.queue lock := by
    refine hwaits t fun hrest => ?_
    obtain ⟨lock, mode, rest, hbusy, -⟩ := hwaits u hbusy
    have hle := hmax u (Finset.mem_univ u)
    simp [wants, hrest, hbusy] at hle
  obtain ⟨lock, mode, rest, hrest, hqueue⟩ := hlock
  obtain ⟨⟨t₀, mode₀⟩, waiting, hfirst⟩ := List.exists_cons_of_ne_nil (List.ne_nil_of_mem hqueue)
  obtain ⟨rest₀, hrest₀⟩ := h.queued lock t₀ mode₀ (hfirst ▸ List.mem_cons_self)
  have hheld : ¬ s.Free lock mode₀ := by
    intro hfree
    have hstep := hnone t₀
    simp only [go, hrest₀] at hstep
    rw [if_pos ⟨by rw [hfirst, List.head?_cons], hfree⟩] at hstep
    cases hstep
  simp only [Free, not_forall] at hheld
  obtain ⟨t₁, g, hg, rfl, -⟩ := hheld
  have hpoint := hP.inOrder _ _ (h.points t₁).here
  have hbusy₁ : s.rest t₁ ≠ [] := by
    intro hrest₁
    rw [hrest₁] at hpoint
    rw [show s.guards t₁ = [] from hpoint] at hg
    cases hg
  obtain ⟨lock₁, mode₁, rest₁, hrest₁, -⟩ := hwaits t₁ hbusy₁
  rw [hrest₁] at hpoint
  have hlater := hmax t₁ (Finset.mem_univ t₁)
  simp only [wants, hrest, hrest₁, WithBot.coe_le_coe] at hlater
  exact absurd (hpoint g hg) (not_lt.mpr hlater)

/-! ## Termination -/

/-- An early return drops no more guards than the program would. -/
theorem length_ahead_le (hP : Discipline P) {guards : List (L × Mode)} {move : M} {rest : List (Instr L M)}
    (h : Always P guards (.work move :: rest)) (goesOn : Bool) :
    (if goesOn then rest else abandon guards).length ≤ rest.length := by
  split_ifs
  · exact le_rfl
  · rw [abandon, List.length_map]
    exact length_le_of_always hP.inOrder h.2

theorem Step.length_le (hP : Discipline P) (h : Sound P s) (hs : Step exec s t s') (t' : τ) :
    (s'.rest t').length ≤ (s.rest t').length := by
  have hpoint := h.points t
  by_cases ht : t' = t
  · subst ht
    cases hs with
    | ask => exact le_rfl
    | acquire hrest | release hrest => simp [hrest]
    | @work move rest data goesOn hrest hdata =>
      rw [hrest] at hpoint
      have hahead := length_ahead_le hP hpoint goesOn
      simp only [Function.update_self, hrest, List.length_cons]
      exact hahead.trans (Nat.le_succ _)
  · cases hs <;> simp [ht]

/-- **A step** brings its task nearer to the end of its program, and no task farther away from it. -/
theorem Step.cost (hP : Discipline P) (h : Sound P s) (hs : Step exec s t s') :
    s'.cost t < s.cost t ∧ ∀ t', t' ≠ t → s'.cost t' = s.cost t' := by
  have hpoint := h.points t
  cases hs with
  | @ask lock mode rest hrest hqueue =>
    refine ⟨by simp [Locks.cost, hrest, hqueue], fun t' ht => cost_congr rfl fun lock' mode' => ?_⟩
    simp only [Function.update_apply]
    split_ifs with hlock
    · simp [hlock, ht]
    · exact Iff.rfl
  | @acquire lock mode rest waiting hrest hqueue hfree =>
    refine ⟨?_, fun t' ht => cost_congr (by simp [ht]) fun lock' mode' => ?_⟩
    · refine (cost_le _ t).trans_lt ?_
      simp [Locks.cost, hrest, hqueue]
    · simp only [Function.update_apply]
      split_ifs with hlock
      · simp [hlock, hqueue, ht]
      · exact Iff.rfl
  | release hrest =>
    refine ⟨(cost_le _ t).trans_lt ?_, fun t' ht => cost_congr (by simp [ht]) fun _ _ => Iff.rfl⟩
    simp [Locks.cost, hrest]
  | @work move rest data goesOn hrest hdata =>
    refine ⟨(cost_le _ t).trans_lt ?_, fun t' ht => cost_congr (by simp [ht]) fun _ _ => Iff.rfl⟩
    rw [hrest] at hpoint
    have hahead := length_ahead_le hP hpoint goesOn
    simp only [Function.update_self, Locks.cost, hrest, List.length_cons]
    omega

theorem Step.left_lt [Fintype τ] (hP : Discipline P) (h : Sound P s) (hs : Step exec s t s') :
    s'.left < s.left := by
  obtain ⟨hlt, heq⟩ := hs.cost hP h
  refine Finset.sum_lt_sum (fun t' _ => ?_) ⟨t, Finset.mem_univ t, hlt⟩
  by_cases ht : t' = t
  · exact ht ▸ hlt.le
  · exact (heq t' ht).le

/-- **Schedules** without new jobs come to an end, whoever goes on at each step. -/
theorem Sound.goes [Fintype τ] (hP : Discipline P) (h : Sound P s) {schedule : List τ}
    (hs : s.goes exec schedule = some s') : schedule.length + s'.left ≤ s.left := by
  induction schedule generalizing s with
  | nil =>
    cases hs
    simp
  | cons t schedule ih =>
    rw [Locks.goes, List.foldlM_cons] at hs
    obtain ⟨s₁, h₁, hs⟩ := Option.bind_eq_some_iff.mp hs
    have hstep := go_step h₁
    have hlt := hstep.left_lt hP h
    have hrest := ih (h.step hP hstep) hs
    rw [List.length_cons]
    omega

end Locks

import NetAlert.Debounce
import NetAlert.Lib.Relate
import NetAlert.Lib.Handover

/-!
# NetAlert.Manager — what reloads and ticks do to the alerts

* `Rebuilt`: two instances that differ in state and id only.  Reloads and ticks change nothing else.
* `evaluateAlerts_evaluated`: a tick takes the alerts one by one, each as `Evaluated` says.
* `ManagerRun`: an alert manager with the ids and payloads it has issued, over any sequence of
  reloads and ticks.
-/

namespace NetAlert

/-! ## Instances that differ in state and id -/

/-- The same alert in another state and with another id. -/
def Rebuilt (a a' : AlertInstance) : Prop := a' = { a with state := a'.state, alertId := a'.alertId }

namespace Rebuilt

variable {a a' a'' : AlertInstance}

theorem refl (a : AlertInstance) : Rebuilt a a := rfl

theorem mk (s : AlertState) (id : Uuid) : Rebuilt a { a with state := s, alertId := id } := rfl

theorem trans (h : Rebuilt a a') (h' : Rebuilt a' a'') : Rebuilt a a'' := by
  calc a'' = { a' with state := a''.state, alertId := a''.alertId } := h'
    _ = { a with state := a''.state, alertId := a''.alertId } := by rw [h]

theorem key_eq (h : Rebuilt a a') : a'.key = a.key := by
  rw [h]
  rfl

/-- Instances are equal if their states and ids are. -/
theorem eq_of (h : Rebuilt a a') (h' : Rebuilt a a'') (hs : a'.state = a''.state)
    (hid : a'.alertId = a''.alertId) : a' = a'' := by
  rw [h, h', hs, hid]

end Rebuilt

/-! ## Handing state over -/

/-- The new instances ask for the stored states in order. -/
theorem carryOver_eq (previous : HashMap AlertKey (AlertState × Uuid)) (alerts : List AlertInstance) :
    (carryOver previous alerts).map (fun a => (a.state, a.alertId)) =
      List.zipWith (fun (o : Option (AlertState × Uuid)) (a : AlertInstance) => o.getD (a.state, a.alertId))
        (Handover.consume previous (alerts.map AlertInstance.key)) alerts := by
  induction alerts generalizing previous with
  | nil => rfl
  | cons a alerts ih =>
    simp only [carryOver, List.map_cons, Handover.consume, List.zipWith_cons_cons]
    cases h : previous.lookup a.key with
    | some v => simp [ih]
    | none =>
      have herase : previous.erase a.key = previous := by
        apply AList.ext
        exact List.kerase_of_notMem_keys (AList.lookup_eq_none.mp h)
      simp [ih, herase]

theorem carryOver_empty (alerts : List AlertInstance) : carryOver ∅ alerts = alerts := by
  induction alerts with
  | nil => rfl
  | cons a alerts ih => simp [carryOver, ih]

theorem carryOver_rebuilt (previous : HashMap AlertKey (AlertState × Uuid)) (alerts : List AlertInstance) :
    List.Forall₂ Rebuilt alerts (carryOver previous alerts) := by
  induction alerts generalizing previous with
  | nil => exact .nil
  | cons a alerts ih =>
    unfold carryOver
    split
    · exact .cons (Rebuilt.mk _ _) (ih _)
    · exact .cons (Rebuilt.refl a) (ih _)

theorem forall₂_rebuilt_keys {l l' : List AlertInstance} (h : List.Forall₂ Rebuilt l l') :
    l'.map AlertInstance.key = l.map AlertInstance.key :=
  (Relate.forall₂_map_eq (fun _ _ hr => hr.key_eq.symm) h).symm

/-- Instances rebuilt from the same ones are told apart by states and ids. -/
theorem forall₂_rebuilt_ext {l l₁ l₂ : List AlertInstance} (h₁ : List.Forall₂ Rebuilt l l₁)
    (h₂ : List.Forall₂ Rebuilt l l₂)
    (h : l₁.map (fun a => (a.state, a.alertId)) = l₂.map fun a => (a.state, a.alertId)) : l₁ = l₂ := by
  induction h₁ generalizing l₂ with
  | nil => cases h₂; rfl
  | cons hr _ ih =>
    cases h₂ with
    | cons hr' h₂ =>
      simp only [List.map_cons, List.cons.injEq, Prod.mk.injEq] at h
      rw [hr.eq_of hr' h.1.1 h.1.2, ih h₂ h.2]

/-! ## One tick -/

/-- The mitigation rules of a payload. -/
def AlertInstance.advice (T : IpText) (ord : ℕ → HashOrder) (a : AlertInstance) (flows : List FlowRecord)
    (currentRate : ℚ) : AlertAction → List MitigationRule
  | .resolve => []
  | _ => a.suggest T ord flows currentRate

section Tick

variable (T : IpText) (ords : ℕ → ℕ → HashOrder) (snapshots : List RateSnapshot) (now : Instant)

/-- What an alert does in a tick. -/
def AlertInstance.reaction (a : AlertInstance) : Option AlertAction :=
  (a.evaluate (a.rate snapshots) now).2

/-- One alert of a tick: its new state and id, the payload it adds and the drain it makes. -/
structure Evaluated (t t' : Tick) (a a' : AlertInstance) : Prop where
  rebuilt : Rebuilt a a'
  state : a'.state = (a.evaluate (a.rate snapshots) now).1.state
  alertId : a'.alertId = if a.reaction snapshots now = some .fire then .v4 t.issued else a.alertId
  issued : t'.issued = if a.reaction snapshots now = some .fire then t.issued + 1 else t.issued
  payloads : t'.payloads = t.payloads ++ (a.reaction snapshots now).toList.map fun action =>
    a'.buildPayload (a.rate snapshots) action.toString
      (a.advice T (ords t.payloads.length) (t.drain T a.ipPrefix a.direction).1 (a.rate snapshots) action)
  drained : (t'.processor = t.processor ∧ t'.drained = t.drained) ∨
    (t'.processor = (t.drain T a.ipPrefix a.direction).2.processor ∧
      t'.drained = (t.drain T a.ipPrefix a.direction).2.drained)

/-- The alerts of a tick, one after the other. -/
inductive AllEvaluated : Tick → List AlertInstance → Tick → List AlertInstance → Prop
  | nil (t) : AllEvaluated t [] t []
  | cons {t t' t'' a a' as as'} (h : Evaluated T ords snapshots now t t' a a')
      (hs : AllEvaluated t' as t'' as') : AllEvaluated t (a :: as) t'' (a' :: as')

variable {T ords snapshots now}

theorem Tick.drain_payloads (t : Tick) (ipPrefix : String) (direction : Direction) :
    (t.drain T ipPrefix direction).2.payloads = t.payloads := by
  unfold Tick.drain
  split <;> rfl

/-- **One alert.** -/
theorem evaluateAlert_evaluated (t : Tick) (a : AlertInstance) :
    Evaluated T ords snapshots now t (evaluateAlert T ords snapshots now t a).1 a
      (evaluateAlert T ords snapshots now t a).2 := by
  obtain ⟨s, action, hev⟩ : ∃ s action, a.evaluate (a.rate snapshots) now = ({ a with state := s }, action) :=
    ⟨_, _, Prod.ext (a.evaluate_frame _ _) rfl⟩
  have hp := t.drain_payloads (T := T) a.ipPrefix a.direction
  have hr : a.reaction snapshots now = action := by rw [AlertInstance.reaction, hev]
  simp only [evaluateAlert, hev]
  cases action with
  | none => exact ⟨rfl, by rw [hev], by simp [hr], by simp [hr], by simp [hr], .inl ⟨rfl, rfl⟩⟩
  | some action =>
    cases action with
    | resolve => exact ⟨rfl, by rw [hev]; rfl, by simp [hr, act], by simp [hr, act],
        by simp [hr, act, AlertInstance.advice], .inl ⟨rfl, rfl⟩⟩
    | _ => exact ⟨rfl, by rw [hev]; rfl, by simp [hr, act], by simp [hr, act],
        by simp [hr, act, AlertInstance.advice, AlertInstance.suggest, hp], .inr ⟨rfl, rfl⟩⟩

/-- **One tick.** -/
theorem evaluateAlerts_evaluated (T : IpText) (ords : ℕ → ℕ → HashOrder) (snapshots : List RateSnapshot)
    (now : Instant) (t : Tick) (alerts : List AlertInstance) :
    AllEvaluated T ords snapshots now t alerts (evaluateAlerts T ords snapshots now t alerts).1
      (evaluateAlerts T ords snapshots now t alerts).2 := by
  induction alerts generalizing t with
  | nil => exact .nil t
  | cons a alerts ih => exact .cons (evaluateAlert_evaluated t a) (ih _)

theorem AllEvaluated.rebuilt {t t' : Tick} {as as' : List AlertInstance}
    (h : AllEvaluated T ords snapshots now t as t' as') : List.Forall₂ Rebuilt as as' := by
  induction h with
  | nil t => exact .nil
  | cons h _ ih => exact .cons h.rebuilt ih

end Tick

/-! ## Runs of a manager -/

/-- What a tick is called with. -/
structure TickInput where
  ords : ℕ → ℕ → HashOrder
  snapshots : List RateSnapshot
  processor : FlowProcessor
  now : Instant

/-- What can happen to an alert manager. -/
inductive ManagerEvent where
  | reload (config : Config)
  | evaluate (input : TickInput)

/-- An alert manager, the number of ids issued and the payloads sent so far. -/
structure ManagerRun where
  manager : AlertManager
  issued : ℕ
  sent : List AlertPayload

namespace ManagerRun

variable (T : IpText)

def start (scriptPath : Option String) : ManagerRun := ⟨AlertManager.new scriptPath, 0, []⟩

def step (s : ManagerRun) : ManagerEvent → ManagerRun
  | .reload config => { s with manager := s.manager.reloadConfig T config }
  | .evaluate input =>
    let (manager, t) := s.manager.evaluate T input.ords input.snapshots input.now input.processor s.issued
    ⟨manager, t.issued, s.sent ++ t.payloads⟩

def run (s : ManagerRun) (events : List ManagerEvent) : ManagerRun := events.foldl (step T) s

variable {T}

theorem run_concat (s : ManagerRun) (events : List ManagerEvent) (e : ManagerEvent) :
    s.run T (events ++ [e]) = (s.run T events).step T e := by
  simp [run]

/-- A tick keeps the alerts but for states and ids. -/
theorem step_rebuilt (s : ManagerRun) (input : TickInput) :
    List.Forall₂ Rebuilt s.manager.alerts (s.step T (.evaluate input)).manager.alerts :=
  (evaluateAlerts_evaluated _ _ _ _ _ _).rebuilt

end ManagerRun

end NetAlert

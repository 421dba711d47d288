import Mathlib.Tactic

/-!
# NetAlert.Lib.Method — methods that change their object and may fail

A `Method ε σ α` changes a state and returns a value, or fails with an error.  A failure takes nothing back:
what was changed before it stays changed.

* `exec`: the outcome and the state that is left.
* `Keeps I E m`: from a state with `I` the method leaves one with `I`, and fails with errors of `E` only.
* `Implements m f`: the method returns exactly where the partial function `f` has a result, and leaves that.
-/

abbrev Method (ε σ α : Type) := ExceptT ε (StateM σ) α

namespace Method

variable {ε σ α β : Type}

/-- The outcome of a method and the state that it leaves. -/
def exec (m : Method ε σ α) (s : σ) : Except ε α × σ := Id.run (m.run.run s)

@[simp] theorem exec_pure (a : α) (s : σ) : exec (pure a : Method ε σ α) s = (.ok a, s) := rfl

@[simp] theorem exec_throw (e : ε) (s : σ) : exec (throw e : Method ε σ α) s = (.error e, s) := rfl

@[simp] theorem exec_modify (f : σ → σ) (s : σ) : exec (modify f : Method ε σ PUnit) s = (.ok ⟨⟩, f s) := rfl

/-- A method reads the state that it was given. -/
@[simp] theorem exec_get_bind (f : σ → Method ε σ α) (s : σ) : exec (get >>= f) s = exec (f s) s := rfl

@[simp] theorem exec_lift (x : Except ε α) (s : σ) : exec (liftM x : Method ε σ α) s = (x, s) := rfl

theorem exec_bind (m : Method ε σ α) (f : α → Method ε σ β) (s : σ) : exec (m >>= f) s =
    match exec m s with
    | (.ok a, s') => exec (f a) s'
    | (.error e, s') => (.error e, s') := by
  unfold exec
  rw [ExceptT.run_bind, StateT.run_bind, Id.run_bind]
  rcases Id.run (m.run.run s) with ⟨e | a, s'⟩ <;> rfl

theorem exec_bind_eq_ok {m : Method ε σ α} {f : α → Method ε σ β} {s s'' : σ} {b : β} :
    exec (m >>= f) s = (.ok b, s'') ↔ ∃ a s', exec m s = (.ok a, s') ∧ exec (f a) s' = (.ok b, s'') := by
  rw [exec_bind]
  generalize exec m s = r
  rcases r with ⟨e | a, s'⟩
  · simp
  · simp only [Prod.mk.injEq, Except.ok.injEq]
    constructor
    · exact fun h => ⟨a, s', ⟨rfl, rfl⟩, h⟩
    · rintro ⟨_, _, ⟨rfl, rfl⟩, h⟩
      exact h

/-! ## What a method keeps -/

/-- A method has left a state with `I`, and its error, if there is one, is in `E`. -/
structure Ends (I : σ → Prop) (E : ε → Prop) (r : Except ε α × σ) : Prop where
  state : I r.2
  error : ∀ e, r.1 = .error e → E e

/-- From a state with `I` the method leaves one with `I`, also where it fails, and its errors are in `E`. -/
def Keeps (I : σ → Prop) (E : ε → Prop) (m : Method ε σ α) : Prop := ∀ s, I s → Ends I E (m.exec s)

section Keeps

variable {I : σ → Prop} {E : ε → Prop}

theorem Ends.ok {s : σ} {a : α} (hs : I s) : Ends I E ((.ok a, s) : Except ε α × σ) :=
  ⟨hs, fun e he => by cases he⟩

theorem Ends.fail {s : σ} {e : ε} (hs : I s) (he : E e) : Ends I E ((.error e, s) : Except ε α × σ) := by
  refine ⟨hs, fun e' he' => ?_⟩
  cases he'
  exact he

theorem Keeps.bind {m : Method ε σ α} {f : α → Method ε σ β} (hm : Keeps I E m) (hf : ∀ a, Keeps I E (f a)) :
    Keeps I E (m >>= f) := by
  intro s hs
  have hends := hm s hs
  rw [exec_bind]
  generalize exec m s = r at hends
  rcases r with ⟨e | a, s'⟩
  · exact .fail hends.state (hends.error e rfl)
  · exact hf a s' hends.state

/-- **A loop** keeps what its body keeps. -/
theorem Keeps.forM {f : β → Method ε σ PUnit} {l : List β} (hf : ∀ x ∈ l, Keeps I E (f x)) :
    Keeps I E (l.forM f) := by
  induction l with
  | nil => exact fun s hs => .ok hs
  | cons x l ih =>
    exact Keeps.bind (hf x List.mem_cons_self) fun _ => ih fun y hy => hf y (List.mem_cons_of_mem _ hy)

end Keeps

/-! ## Methods as partial functions -/

/-- The method returns where the function has a result, and leaves that. -/
def Implements (m : Method ε σ PUnit) (f : σ → Option σ) : Prop :=
  ∀ s s', exec m s = (.ok ⟨⟩, s') ↔ f s = some s'

theorem Implements.congr {m : Method ε σ PUnit} {f g : σ → Option σ} (h : Implements m f)
    (hfg : ∀ s, f s = g s) : Implements m g := fun s s' => by
  rw [← hfg s]
  exact h s s'

/-- The method fails and there is no result, or it leaves the result. -/
theorem Implements.cases {m : Method ε σ PUnit} {f : σ → Option σ} (h : Implements m f) (s : σ) :
    (∃ e s', exec m s = (.error e, s') ∧ f s = none) ∨ ∃ s', exec m s = (.ok ⟨⟩, s') ∧ f s = some s' := by
  have hs := h s
  generalize exec m s = r at hs
  rcases r with ⟨e | ⟨⟨⟩⟩, s'⟩
  · refine .inl ⟨e, s', rfl, ?_⟩
    cases hf : f s with
    | none => rfl
    | some s₁ => cases (hs s₁).mpr hf
  · exact .inr ⟨s', rfl, (hs s').mp rfl⟩

/-- **A loop** implements the loop of the functions that its body implements. -/
theorem Implements.forM {m : β → Method ε σ PUnit} {f : σ → β → Option σ}
    (h : ∀ x, Implements (m x) fun s => f s x) (l : List β) : Implements (l.forM m) fun s => l.foldlM f s := by
  induction l with
  | nil =>
    intro s s'
    show exec (pure ⟨⟩ : Method ε σ PUnit) s = _ ↔ some s = some s'
    simp
  | cons x l ih =>
    intro s s'
    show exec (m x >>= fun _ => l.forM m) s = _ ↔ (f s x >>= fun s₁ => l.foldlM f s₁) = _
    rw [exec_bind_eq_ok, Option.bind_eq_bind, Option.bind_eq_some_iff]
    constructor
    · rintro ⟨_, s₁, h₁, h₂⟩
      exact ⟨s₁, (h x s s₁).mp h₁, (ih s₁ s').mp h₂⟩
    · rintro ⟨s₁, h₁, h₂⟩
      exact ⟨⟨⟩, s₁, (h x s s₁).mpr h₁, (ih s₁ s').mpr h₂⟩

end Method

import Mathlib.Tactic

/-!
# NetAlert.Lib.Fold — invariant rules for folds that may fail

The rules carry an invariant indexed by the part of the list already consumed, so a loop body is
judged knowing what came before it.  `option_total` proves that a loop succeeds, `except_ok` and
`option_ok_prefix` reason about a loop that did.  `option_map` compares two loops.
-/

namespace Fold

variable {σ ε : Type} {β : Type*}

/-- **Total correctness** of a loop in `Option`. -/
theorem option_total {f : σ → β → Option σ} {l : List β} (I : List β → σ → Prop)
    (hstep : ∀ pre x s, pre ++ [x] <+: l → I pre s → ∃ s', f s x = some s' ∧ I (pre ++ [x]) s')
    {s : σ} (h0 : I [] s) : ∃ s', l.foldlM f s = some s' ∧ I l s' := by
  have key : ∀ rest pre s, pre ++ rest = l → I pre s → ∃ s', rest.foldlM f s = some s' ∧ I l s' := by
    intro rest
    induction rest with
    | nil =>
      intro pre s hl hI
      rw [List.append_nil] at hl
      exact ⟨s, rfl, hl ▸ hI⟩
    | cons x rest ih =>
      intro pre s hl hI
      obtain ⟨s1, h1, hI1⟩ := hstep pre x s ⟨rest, by simpa using hl⟩ hI
      obtain ⟨s', h2, hI'⟩ := ih (pre ++ [x]) s1 (by simpa using hl) hI1
      exact ⟨s', by rw [List.foldlM_cons, h1]; exact h2, hI'⟩
  exact key l [] s rfl h0

/-- Two steps in `Except` that succeed. -/
theorem except_bind_ok {α β : Type} {x : Except ε α} {f : α → Except ε β} {b : β} :
    (x >>= f) = .ok b ↔ ∃ a, x = .ok a ∧ f a = .ok b := by
  cases x with
  | error e =>
    constructor
    · intro h
      cases h
    · rintro ⟨_, h, -⟩
      cases h
  | ok a =>
    constructor
    · exact fun h => ⟨a, rfl, h⟩
    · rintro ⟨_, h, hf⟩
      rw [Except.ok.inj h]
      exact hf

/-- Two steps in `Except` that fail. -/
theorem except_bind_error {α β : Type} {x : Except ε α} {f : α → Except ε β} {e : ε} :
    (x >>= f) = .error e ↔ x = .error e ∨ ∃ a, x = .ok a ∧ f a = .error e := by
  cases x with
  | error e' =>
    constructor
    · exact fun h => .inl (congrArg Except.error (Except.error.inj h))
    · rintro (h | ⟨_, h, -⟩)
      · rw [Except.error.inj h]
        rfl
      · cases h
  | ok a =>
    constructor
    · exact fun h => .inr ⟨a, rfl, h⟩
    · rintro (h | ⟨_, h, hf⟩)
      · cases h
      · rw [Except.ok.inj h]
        exact hf

theorem except_isOk {α : Type} {x : Except ε α} : x.isOk = true ↔ ∃ a, x = .ok a := by
  cases x <;> simp [Except.isOk, Except.toBool]

theorem except_toOption {α : Type} {x : Except ε α} {a : α} : x.toOption = some a ↔ x = .ok a := by
  cases x <;> simp [Except.toOption]

/-- **Partial correctness** of a loop in `Except`. -/
theorem except_ok {f : σ → β → Except ε σ} {l : List β} (I : List β → σ → Prop)
    (hstep : ∀ pre x s s', pre ++ [x] <+: l → I pre s → f s x = .ok s' → I (pre ++ [x]) s')
    {s s' : σ} (h0 : I [] s) (hs : l.foldlM f s = .ok s') : I l s' := by
  have key : ∀ rest pre s, pre ++ rest = l → I pre s → rest.foldlM f s = .ok s' → I l s' := by
    intro rest
    induction rest with
    | nil =>
      intro pre s hl hI hs
      rw [List.append_nil] at hl
      cases hs
      exact hl ▸ hI
    | cons x rest ih =>
      intro pre s hl hI hs
      rw [List.foldlM_cons] at hs
      cases h1 : f s x with
      | error e => rw [h1] at hs; cases hs
      | ok s1 =>
        rw [h1] at hs
        exact ih (pre ++ [x]) s1 (by simpa using hl) (hstep pre x s s1 ⟨rest, by simpa using hl⟩ hI h1) hs
  exact key l [] s rfl h0 hs

/-- A traversal in `Except` succeeds iff its body succeeds on every element. -/
theorem except_forM_ok {f : β → Except ε Unit} {l : List β} :
    l.forM f = .ok () ↔ ∀ x ∈ l, f x = .ok () := by
  induction l with
  | nil => simp [List.forM, pure, Except.pure]
  | cons x l ih =>
    show (f x >>= fun _ => l.forM f) = _ ↔ _
    rw [except_bind_ok, List.forall_mem_cons]
    constructor
    · rintro ⟨_, hx, hl⟩
      exact ⟨hx, ih.mp hl⟩
    · rintro ⟨hx, hl⟩
      exact ⟨(), hx, ih.mpr hl⟩

/-- A traversal in `Except` fails with the error of the first element whose body fails. -/
theorem except_forM_error {f : β → Except ε Unit} {l : List β} {e : ε} (h : l.forM f = .error e) :
    ∃ pre x, pre ++ [x] <+: l ∧ (∀ y ∈ pre, f y = .ok ()) ∧ f x = .error e := by
  induction l with
  | nil => cases h
  | cons y l ih =>
    rcases except_bind_error.mp (show (f y >>= fun _ => l.forM f) = .error e from h) with hy | ⟨_, hy, hl⟩
    · exact ⟨[], y, ⟨l, rfl⟩, by simp, hy⟩
    · obtain ⟨pre, x, hpre, hok, hx⟩ := ih hl
      exact ⟨y :: pre, x, (List.cons_prefix_cons).mpr ⟨rfl, hpre⟩, List.forall_mem_cons.mpr ⟨hy, hok⟩, hx⟩

/-- A loop in `Except` whose body never fails succeeds. -/
theorem except_total {f : σ → β → Except ε σ} {l : List β}
    (hstep : ∀ s, ∀ x ∈ l, ∃ s', f s x = .ok s') (s : σ) : ∃ s', l.foldlM f s = .ok s' := by
  induction l generalizing s with
  | nil => exact ⟨s, rfl⟩
  | cons x l ih =>
    obtain ⟨s1, h1⟩ := hstep s x List.mem_cons_self
    obtain ⟨s', h2⟩ := ih (fun s y hy => hstep s y (List.mem_cons_of_mem _ hy)) s1
    exact ⟨s', by rw [List.foldlM_cons, h1]; exact h2⟩

/-- **Partial correctness** of a loop in `Option`. -/
theorem option_ok_prefix {f : σ → β → Option σ} {l : List β} (I : List β → σ → Prop)
    (hstep : ∀ pre x s s', pre ++ [x] <+: l → I pre s → f s x = some s' → I (pre ++ [x]) s')
    {s s' : σ} (h0 : I [] s) (hs : l.foldlM f s = some s') : I l s' := by
  have key : ∀ rest pre s, pre ++ rest = l → I pre s → rest.foldlM f s = some s' → I l s' := by
    intro rest
    induction rest with
    | nil =>
      intro pre s hl hI hs
      rw [List.append_nil] at hl
      rw [← hl, ← Option.some.inj hs]
      exact hI
    | cons x rest ih =>
      intro pre s hl hI hs
      rw [List.foldlM_cons] at hs
      obtain ⟨s1, h1, h2⟩ := Option.bind_eq_some_iff.mp hs
      exact ih (pre ++ [x]) s1 (by simpa using hl) (hstep pre x s s1 ⟨rest, by simpa using hl⟩ hI h1) h2
  exact key l [] s rfl h0 hs

/-- The same, for an invariant that does not look at the list. -/
theorem option_ok {f : σ → β → Option σ} (I : σ → Prop) (hstep : ∀ x s s', I s → f s x = some s' → I s')
    {l : List β} {s s' : σ} (h0 : I s) (hs : l.foldlM f s = some s') : I s' :=
  option_ok_prefix (fun _ => I) (fun _ x s s' _ => hstep x s s') h0 hs

/-- **Two loops** whose bodies commute with a map of their states. -/
theorem option_map {τ : Type} {f : σ → β → Option σ} {f' : τ → β → Option τ} (g : σ → τ)
    (hstep : ∀ x s, f' (g s) x = (f s x).map g) (l : List β) (s : σ) :
    l.foldlM f' (g s) = (l.foldlM f s).map g := by
  induction l generalizing s with
  | nil => rfl
  | cons x l ih =>
    rw [List.foldlM_cons, List.foldlM_cons, hstep]
    cases f s x with
    | none => rfl
    | some s' => exact ih s'

end Fold

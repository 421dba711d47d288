import Mathlib.Tactic

/-!
# NetAlert.Lib.Relate — two computations side by side

`Option.Rel R` relates two steps that fail together and otherwise end in related states.  It goes through
binds (`bind_rel`) and loops over one list (`foldlM_rel`).  Lists are related pointwise, by `List.Forall₂`.
-/

namespace Relate

variable {σ τ β γ δ : Type}

/-! ## Steps that may fail -/

theorem cases_of_rel {R : σ → τ → Prop} {o : Option σ} {o' : Option τ} (h : Option.Rel R o o') :
    (o = none ∧ o' = none) ∨ ∃ s t, o = some s ∧ o' = some t ∧ R s t := by
  cases h with
  | none => exact .inl ⟨rfl, rfl⟩
  | some h => exact .inr ⟨_, _, rfl, rfl, h⟩

theorem isSome_eq {R : σ → τ → Prop} {o : Option σ} {o' : Option τ} (h : Option.Rel R o o') :
    o.isSome = o'.isSome := by
  cases h <;> rfl

/-- Related values, each with a successor. -/
theorem rel_square {R : σ → τ → Prop} {S : σ → γ → Prop} {S' : τ → δ → Prop} {Q : γ → δ → Prop} {o : Option σ}
    {o' : Option τ} {p : Option γ} {p' : Option δ} (h : Option.Rel R o o') (hS : Option.Rel S o p)
    (hS' : Option.Rel S' o' p')
    (hstep : ∀ s t c d, o = some s → o' = some t → R s t → S s c → S' t d → Q c d) : Option.Rel Q p p' := by
  cases h with
  | none =>
    cases hS
    cases hS'
    exact .none
  | some h =>
    obtain ⟨hS⟩ := hS
    obtain ⟨hS'⟩ := hS'
    exact .some (hstep _ _ _ _ rfl rfl h hS hS')

/-- Two steps, the second of which respects what the first has established. -/
theorem bind_rel {R : σ → τ → Prop} {Q : γ → δ → Prop} {o : Option σ} {o' : Option τ} {f : σ → Option γ}
    {g : τ → Option δ} (h : Option.Rel R o o') (hstep : ∀ s t, R s t → Option.Rel Q (f s) (g t)) :
    Option.Rel Q (o >>= f) (o' >>= g) := by
  cases h with
  | none => exact .none
  | some h => exact hstep _ _ h

/-- **Two loops over one list** whose bodies respect a relation fail together or end in related states. -/
theorem foldlM_rel {R : σ → τ → Prop} {f : σ → β → Option σ} {g : τ → β → Option τ}
    (hstep : ∀ x s t, R s t → Option.Rel R (f s x) (g t x)) (l : List β) {s : σ} {t : τ} (h : R s t) :
    Option.Rel R (l.foldlM f s) (l.foldlM g t) := by
  induction l generalizing s t with
  | nil => exact .some h
  | cons x l ih =>
    rw [List.foldlM_cons, List.foldlM_cons]
    exact bind_rel (hstep x s t h) fun _ _ => ih

/-! ## Pointwise related lists -/

theorem forall₂_left_of_mem {R : σ → τ → Prop} {l : List σ} {l' : List τ} (h : List.Forall₂ R l l') {b : τ}
    (hb : b ∈ l') : ∃ a ∈ l, R a b := by
  induction h with
  | nil => cases hb
  | cons hR _ ih =>
    rcases List.mem_cons.mp hb with rfl | hb
    · exact ⟨_, List.mem_cons_self, hR⟩
    · obtain ⟨a, ha, hab⟩ := ih hb
      exact ⟨a, List.mem_cons_of_mem _ ha, hab⟩

theorem forall₂_trans {R : σ → τ → Prop} {S : τ → β → Prop} {Q : σ → β → Prop}
    (hQ : ∀ a b c, R a b → S b c → Q a c) {l₁ : List σ} {l₂ : List τ} {l₃ : List β}
    (h : List.Forall₂ R l₁ l₂) (h' : List.Forall₂ S l₂ l₃) : List.Forall₂ Q l₁ l₃ := by
  induction h generalizing l₃ with
  | nil => cases h'; exact .nil
  | cons hR _ ih =>
    cases h' with
    | cons hS h' => exact .cons (hQ _ _ _ hR hS) (ih h')

/-- Related lists, each with a successor. -/
theorem forall₂_square {R : σ → τ → Prop} {S : σ → γ → Prop} {S' : τ → δ → Prop} {Q : γ → δ → Prop}
    (hQ : ∀ a b c d, R a b → S a c → S' b d → Q c d) {l : List σ} {l' : List τ} {m : List γ} {m' : List δ}
    (h : List.Forall₂ R l l') (hS : List.Forall₂ S l m) (hS' : List.Forall₂ S' l' m') : List.Forall₂ Q m m' := by
  induction h generalizing m m' with
  | nil =>
    cases hS
    cases hS'
    exact .nil
  | cons hR _ ih =>
    cases hS with
    | cons hc hS =>
      cases hS' with
      | cons hd hS' => exact .cons (hQ _ _ _ _ hR hc hd) (ih hS hS')

theorem forall₂_map_eq {γ : Type} {R : σ → τ → Prop} {f : σ → γ} {g : τ → γ} (hfg : ∀ a b, R a b → f a = g b)
    {l : List σ} {l' : List τ} (h : List.Forall₂ R l l') : l.map f = l'.map g := by
  induction h with
  | nil => rfl
  | cons hR _ ih => rw [List.map_cons, List.map_cons, hfg _ _ hR, ih]

theorem forall₂_flatMap_perm {R : σ → τ → Prop} {f : σ → List γ} {g : τ → List γ}
    (hfg : ∀ a b, R a b → (f a).Perm (g b)) {l : List σ} {l' : List τ} (h : List.Forall₂ R l l') :
    (l.flatMap f).Perm (l'.flatMap g) := by
  induction h with
  | nil => exact List.Perm.refl []
  | cons hR _ ih =>
    rw [List.flatMap_cons, List.flatMap_cons]
    exact (hfg _ _ hR).append ih

theorem forall₂_filterMap_eq {R : σ → τ → Prop} {f : σ → Option γ} {g : τ → Option γ}
    (hfg : ∀ a b, R a b → f a = g b) {l : List σ} {l' : List τ} (h : List.Forall₂ R l l') :
    l.filterMap f = l'.filterMap g := by
  induction h with
  | nil => rfl
  | cons hR _ ih => rw [List.filterMap_cons, List.filterMap_cons, hfg _ _ hR, ih]

theorem forall₂_mem {R : σ → τ → Prop} {l : List σ} {l' : List τ} (h : List.Forall₂ R l l') :
    List.Forall₂ (fun a b => a ∈ l ∧ b ∈ l' ∧ R a b) l l' := by
  induction h with
  | nil => exact .nil
  | cons hR _ ih =>
    refine .cons ⟨List.mem_cons_self, List.mem_cons_self, hR⟩ (ih.imp ?_)
    rintro a b ⟨ha, hb, h⟩
    exact ⟨List.mem_cons_of_mem _ ha, List.mem_cons_of_mem _ hb, h⟩

/-- Pairs of related elements, seen through a function of the first. -/
theorem forall₂_zip_map {f : σ → γ} {g : τ → γ} {l : List σ} {l' : List τ}
    (h : List.Forall₂ (fun a b => g b = f a) l l') :
    (l.zip l').map (fun e => (e.1, g e.2)) = l.map fun a => (a, f a) := by
  induction h with
  | nil => rfl
  | cons hab _ ih => rw [List.zip_cons_cons, List.map_cons, List.map_cons, ih, hab]

theorem forall₂_of_map_eq {f : σ → γ} {g : τ → γ} {l : List σ} {l' : List τ} (h : l.map f = l'.map g) :
    List.Forall₂ (fun a b => f a = g b) l l' := by
  rw [← List.forall₂_eq_eq_eq, List.forall₂_map_left_iff, List.forall₂_map_right_iff] at h
  exact h

theorem forall₂_getElem? {R : σ → τ → Prop} {l : List σ} {l' : List τ} (h : List.Forall₂ R l l') (i : ℕ) :
    Option.Rel R l[i]? l'[i]? := by
  induction h generalizing i with
  | nil => exact .none
  | cons hR _ ih =>
    cases i with
    | zero => exact .some hR
    | succ i => exact ih i

theorem forall₂_some_left {R : σ → τ → Prop} {l : List σ} {l' : List τ} (h : List.Forall₂ R l l') {i : ℕ} {a : σ}
    (ha : l[i]? = some a) : ∃ b, l'[i]? = some b ∧ R a b := by
  have hrel := forall₂_getElem? h i
  rw [ha] at hrel
  generalize l'[i]? = o at hrel
  obtain ⟨hrel⟩ := hrel
  exact ⟨_, rfl, hrel⟩

theorem forall₂_some_right {R : σ → τ → Prop} {l : List σ} {l' : List τ} (h : List.Forall₂ R l l') {i : ℕ} {b : τ}
    (hb : l'[i]? = some b) : ∃ a, l[i]? = some a ∧ R a b := by
  have hrel := forall₂_getElem? h i
  rw [hb] at hrel
  generalize l[i]? = o at hrel
  obtain ⟨hrel⟩ := hrel
  exact ⟨_, rfl, hrel⟩

/-- Lists from which related elements are taken out together. -/
theorem forall₂_filter {R : σ → τ → Prop} {p : σ → Bool} {q : τ → Bool} (hpq : ∀ a b, R a b → p a = q b)
    {l : List σ} {l' : List τ} (h : List.Forall₂ R l l') : List.Forall₂ R (l.filter p) (l'.filter q) :=
  List.rel_filter (fun a b hab => iff_of_eq (congrArg (· = true) (hpq a b hab))) h

theorem forall₂_getLast? {R : σ → τ → Prop} {l : List σ} {l' : List τ} (h : List.Forall₂ R l l') :
    Option.Rel R l.getLast? l'.getLast? := by
  rw [List.getLast?_eq_getElem?, List.getLast?_eq_getElem?, ← h.length_eq]
  exact forall₂_getElem? h _

theorem forall₂_set {R : σ → τ → Prop} {l : List σ} {l' : List τ} (h : List.Forall₂ R l l') (i : ℕ) {a : σ}
    {b : τ} (hab : R a b) : List.Forall₂ R (l.set i a) (l'.set i b) := by
  induction h generalizing i with
  | nil => exact .nil
  | cons hR hl ih =>
    cases i with
    | zero => exact .cons hab hl
    | succ i => exact .cons hR (ih i)

theorem forall₂_findSome? {R : σ → τ → Prop} {Q : γ → δ → Prop} {f : σ → Option γ} {g : τ → Option δ}
    (hfg : ∀ a b, R a b → Option.Rel Q (f a) (g b)) {l : List σ} {l' : List τ} (h : List.Forall₂ R l l') :
    Option.Rel Q (l.findSome? f) (l'.findSome? g) := by
  induction h with
  | nil => exact .none
  | cons hR _ ih =>
    rw [List.findSome?_cons, List.findSome?_cons]
    rcases cases_of_rel (hfg _ _ hR) with ⟨hf, hg⟩ | ⟨c, d, hf, hg, hQ⟩
    · rw [hf, hg]
      exact ih
    · rw [hf, hg]
      exact .some hQ

/-- A list related to a concatenation falls into one segment for each part. -/
theorem forall₂_segments {R : σ → τ → Prop} {f : β → List σ} {l : List β} {m : List τ}
    (h : List.Forall₂ R (l.flatMap f) m) : ∃ segs : List (List τ), m = segs.flatten ∧
      List.Forall₂ (fun x seg => List.Forall₂ R (f x) seg) l segs := by
  induction l generalizing m with
  | nil =>
    rw [List.flatMap_nil, List.forall₂_nil_left_iff] at h
    exact ⟨[], h, .nil⟩
  | cons x l ih =>
    rw [List.flatMap_cons] at h
    have hfirst := List.forall₂_take (f x).length h
    have hrest := List.forall₂_drop (f x).length h
    rw [List.take_left] at hfirst
    rw [List.drop_left] at hrest
    obtain ⟨segs, hm, hsegs⟩ := ih hrest
    refine ⟨m.take (f x).length :: segs, ?_, .cons hfirst hsegs⟩
    rw [List.flatten_cons, ← hm, List.take_append_drop]

end Relate

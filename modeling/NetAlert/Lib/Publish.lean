import Mathlib.Tactic

/-!
# NetAlert.Lib.Publish — two values that are published one after the other

A writer computes version after version and writes the two parts of a version under two locks, one after the other.
A reader takes the first lock, then the second one, and holds both until it is done with what it has read.

* `Publish.Sound`: what holds in any interleaving.
* `Publish.Sound.views`: a reader sees the parts of one version, or the second part of the version before, and
  later readers see no older parts.
-/

namespace Publish

inductive Writer (α β : Type*) where
  | idle
  | computed (first : α) (second : β)
  | half (second : β)

/-- What the reader has read under the locks that it holds. -/
inductive Reader (α β : Type*) where
  | idle
  | one (first : α)
  | both (first : α) (second : β)

end Publish

/-- The two values, the tasks, and histories: the versions computed and what readers have seen. -/
structure Publish (α β : Type*) where
  first : α
  second : β
  writer : Publish.Writer α β
  reader : Publish.Reader α β
  versions : List (α × β)
  views : List (α × β)

namespace Publish

variable {α β : Type*}

/-- The initial values are version 0. -/
def start (first : α) (second : β) : Publish α β where
  first := first
  second := second
  writer := .idle
  reader := .idle
  versions := [(first, second)]
  views := []

variable (s : Publish α β)

def compute (first : α) (second : β) : Option (Publish α β) :=
  match s.writer with
  | .idle => some { s with writer := .computed first second, versions := s.versions ++ [(first, second)] }
  | _ => none

/-- The writer waits for a reader that holds the first lock. -/
def writeFirst : Option (Publish α β) :=
  match s.writer, s.reader with
  | .computed first second, .idle => some { s with first := first, writer := .half second }
  | _, _ => none

def writeSecond : Option (Publish α β) :=
  match s.writer, s.reader with
  | .half _, .both _ _ => none
  | .half second, _ => some { s with second := second, writer := .idle }
  | _, _ => none

def readFirst : Option (Publish α β) :=
  match s.reader with
  | .idle => some { s with reader := .one s.first }
  | _ => none

def readSecond : Option (Publish α β) :=
  match s.reader with
  | .one first => some { s with reader := .both first s.second }
  | _ => none

/-- The reader gives the locks back. -/
def finish : Option (Publish α β) :=
  match s.reader with
  | .both first second => some { s with reader := .idle, views := s.views ++ [(first, second)] }
  | _ => none

/-- Any task goes on. -/
inductive Step (s : Publish α β) : Publish α β → Prop where
  | compute {s'} (first : α) (second : β) (h : s.compute first second = some s') : Step s s'
  | writeFirst {s'} (h : s.writeFirst = some s') : Step s s'
  | writeSecond {s'} (h : s.writeSecond = some s') : Step s s'
  | readFirst {s'} (h : s.readFirst = some s') : Step s s'
  | readSecond {s'} (h : s.readSecond = some s') : Step s s'
  | finish {s'} (h : s.finish = some s') : Step s s'

/-! ## Versions -/

/-- The versions whose parts are in place. -/
def firstVersion : ℕ :=
  match s.writer with
  | .computed _ _ => s.versions.length - 2
  | _ => s.versions.length - 1

def secondVersion : ℕ :=
  match s.writer with
  | .idle => s.versions.length - 1
  | _ => s.versions.length - 2

/-- The parts of the view are those of versions `k.1` and `k.2`, which is the same or the one before. -/
structure Shows (versions : List (α × β)) (view : α × β) (k : ℕ × ℕ) : Prop where
  first : versions[k.1]?.map Prod.fst = some view.1
  second : versions[k.2]?.map Prod.snd = some view.2
  le : k.2 ≤ k.1
  recent : k.1 ≤ k.2 + 1

/-- What the writer has still to write. -/
def Pending (s : Publish α β) : Prop :=
  match s.writer with
  | .idle => 1 ≤ s.versions.length
  | .computed first second => 2 ≤ s.versions.length ∧ s.versions.getLast? = some (first, second)
  | .half second => 2 ≤ s.versions.length ∧ s.versions.getLast?.map Prod.snd = some second

/-- What the reader has read is in place. -/
def Held (s : Publish α β) : Prop :=
  match s.reader with
  | .idle => True
  | .one first => first = s.first
  | .both first second => first = s.first ∧ second = s.second

structure Sound (s : Publish α β) : Prop where
  pending : s.Pending
  held : s.Held
  current : Shows s.versions (s.first, s.second) (s.firstVersion, s.secondVersion)
  views : ∃ ks : List (ℕ × ℕ), List.Forall₂ (Shows s.versions) s.views ks ∧ ks.Pairwise (· ≤ ·) ∧
    ∀ k ∈ ks, k ≤ (s.firstVersion, s.secondVersion)

theorem sound_start (first : α) (second : β) : (start first second).Sound where
  pending := le_rfl
  held := trivial
  current := ⟨rfl, rfl, le_rfl, Nat.le_succ _⟩
  views := ⟨[], .nil, .nil, by simp⟩

variable {s : Publish α β} {s' : Publish α β}

theorem getElem?_map_append {γ δ : Type*} {l : List γ} {f : γ → δ} {i : ℕ} {x : δ} (h : l[i]?.map f = some x)
    (more : List γ) : (l ++ more)[i]?.map f = some x := by
  obtain ⟨e, he, rfl⟩ := Option.map_eq_some_iff.mp h
  obtain ⟨hi, -⟩ := List.getElem?_eq_some_iff.mp he
  rw [List.getElem?_append_left hi, he]
  rfl

theorem Shows.append {versions : List (α × β)} {view : α × β} {k : ℕ × ℕ} (h : Shows versions view k)
    (more : List (α × β)) : Shows (versions ++ more) view k :=
  ⟨getElem?_map_append h.first more, getElem?_map_append h.second more, h.le, h.recent⟩

/-- Nobody looks again at what was seen. -/
theorem Sound.views_mono (h : s.Sound) (hviews : s'.views = s.views) (hversions : s.versions <+: s'.versions)
    (hcurrent : (s.firstVersion, s.secondVersion) ≤ (s'.firstVersion, s'.secondVersion)) :
    ∃ ks : List (ℕ × ℕ), List.Forall₂ (Shows s'.versions) s'.views ks ∧ ks.Pairwise (· ≤ ·) ∧
      ∀ k ∈ ks, k ≤ (s'.firstVersion, s'.secondVersion) := by
  obtain ⟨ks, hks, hmono, hle⟩ := h.views
  obtain ⟨more, hmore⟩ := hversions
  refine ⟨ks, ?_, hmono, fun k hk => (hle k hk).trans hcurrent⟩
  rw [hviews, ← hmore]
  exact hks.imp fun _ _ hshows => hshows.append more

section Steps

variable (hs : s.Sound)

include hs

theorem compute_sound {first : α} {second : β} (h : s.compute first second = some s') : s'.Sound := by
  have hpending := hs.pending
  have hcurrent := hs.current
  unfold compute at h
  cases hw : s.writer with
  | computed _ _ => simp [hw] at h
  | half _ => simp [hw] at h
  | idle =>
    simp only [Pending, firstVersion, secondVersion, hw] at hpending hcurrent h
    obtain rfl := Option.some.inj h
    have hlength : (s.versions ++ [(first, second)]).length - 2 = s.versions.length - 1 := by
      rw [List.length_append, List.length_singleton]
      omega
    refine ⟨⟨?_, by simp⟩, hs.held, ?_, hs.views_mono rfl (List.prefix_append _ _) ?_⟩
    · rw [List.length_append, List.length_singleton]
      omega
    · simp only [firstVersion, secondVersion, hlength]
      exact hcurrent.append _
    · simp only [firstVersion, secondVersion, hw, hlength, le_refl]

theorem writeFirst_sound (h : s.writeFirst = some s') : s'.Sound := by
  have hpending := hs.pending
  have hcurrent := hs.current
  unfold writeFirst at h
  cases hw : s.writer with
  | idle => simp [hw] at h
  | half _ => simp [hw] at h
  | computed first second =>
    cases hr : s.reader with
    | one _ => simp [hw, hr] at h
    | both _ _ => simp [hw, hr] at h
    | idle =>
      simp only [Pending, firstVersion, secondVersion, hw, hr] at hpending hcurrent h
      obtain rfl := Option.some.inj h
      obtain ⟨hlength, hlast⟩ := hpending
      refine ⟨⟨hlength, by rw [hlast]; rfl⟩, trivial, ⟨?_, hcurrent.second, ?_, ?_⟩,
        hs.views_mono rfl (List.prefix_refl _) ?_⟩
      · simp only [firstVersion, ← List.getLast?_eq_getElem?, hlast, Option.map_some]
      · simp only [firstVersion, secondVersion]
        omega
      · simp only [firstVersion, secondVersion]
        omega
      · simp only [firstVersion, secondVersion, hw, Prod.mk_le_mk]
        omega

theorem writeSecond_sound (h : s.writeSecond = some s') : s'.Sound := by
  have hpending := hs.pending
  have hheld := hs.held
  have hcurrent := hs.current
  unfold writeSecond at h
  cases hw : s.writer with
  | idle => simp [hw] at h
  | computed _ _ => simp [hw] at h
  | half second =>
    have hfree : s' = { s with second := second, writer := .idle } ∧ ∀ a b, s.reader ≠ .both a b := by
      cases hr : s.reader with
      | both _ _ => simp [hw, hr] at h
      | idle =>
        simp only [hw, hr] at h
        exact ⟨(Option.some.inj h).symm, by simp⟩
      | one _ =>
        simp only [hw, hr] at h
        exact ⟨(Option.some.inj h).symm, by simp⟩
    obtain ⟨rfl, hfree⟩ := hfree
    simp only [Pending, Held, firstVersion, secondVersion, hw] at hpending hheld hcurrent
    obtain ⟨hlength, hlast⟩ := hpending
    refine ⟨by simp only [Pending]; omega, ?_, ⟨hcurrent.first, ?_, le_rfl, Nat.le_succ _⟩,
      hs.views_mono rfl (List.prefix_refl _) ?_⟩
    · simp only [Held]
      cases hr : s.reader with
      | idle => trivial
      | one first => simpa [hr] using hheld
      | both a b => exact absurd hr (hfree a b)
    · simp only [secondVersion, ← List.getLast?_eq_getElem?, hlast]
    · simp only [firstVersion, secondVersion, hw, Prod.mk_le_mk]
      omega

theorem readFirst_sound (h : s.readFirst = some s') : s'.Sound := by
  unfold readFirst at h
  split at h
  · obtain rfl := Option.some.inj h
    exact ⟨hs.pending, rfl, hs.current, hs.views⟩
  · cases h

theorem readSecond_sound (h : s.readSecond = some s') : s'.Sound := by
  have hheld := hs.held
  unfold readSecond at h
  cases hr : s.reader with
  | idle => simp [hr] at h
  | both _ _ => simp [hr] at h
  | one first =>
    simp only [Held, hr] at hheld h
    obtain rfl := Option.some.inj h
    exact ⟨hs.pending, ⟨hheld, rfl⟩, hs.current, hs.views⟩

/-- What the reader takes with it is what is in place. -/
theorem finish_sound (h : s.finish = some s') : s'.Sound := by
  have hheld := hs.held
  unfold finish at h
  cases hr : s.reader with
  | idle => simp [hr] at h
  | one _ => simp [hr] at h
  | both first second =>
    simp only [Held, hr] at hheld h
    obtain ⟨rfl, rfl⟩ := hheld
    obtain rfl := Option.some.inj h
    obtain ⟨ks, hks, hmono, hle⟩ := hs.views
    refine ⟨hs.pending, trivial, hs.current, ks ++ [(s.firstVersion, s.secondVersion)], ?_, ?_, ?_⟩
    · exact List.rel_append hks (.cons hs.current .nil)
    · rw [List.pairwise_append]
      exact ⟨hmono, List.pairwise_singleton _ _, by simpa using hle⟩
    · intro k hk
      rcases List.mem_append.mp hk with hk | hk
      · exact hle k hk
      · rw [List.mem_singleton.mp hk]
        exact le_rfl

end Steps

/-- **One step** of any task. -/
theorem Step.sound (h : Step s s') (hs : s.Sound) : s'.Sound := by
  cases h with
  | compute first second h => exact compute_sound hs h
  | writeFirst h => exact writeFirst_sound hs h
  | writeSecond h => exact writeSecond_sound hs h
  | readFirst h => exact readFirst_sound hs h
  | readSecond h => exact readSecond_sound hs h
  | finish h => exact finish_sound hs h

theorem compute_versions {first : α} {second : β} (h : s.compute first second = some s') :
    s'.versions = s.versions ++ [(first, second)] := by
  unfold compute at h
  split at h <;> cases h
  rfl

/-- Only the writer adds versions, when it computes one. -/
theorem versions_eq (h : s.writeFirst = some s' ∨ s.writeSecond = some s' ∨ s.readFirst = some s' ∨
    s.readSecond = some s' ∨ s.finish = some s') : s'.versions = s.versions := by
  rcases h with h | h | h | h | h
  · unfold writeFirst at h
    split at h <;> cases h
    rfl
  · unfold writeSecond at h
    split at h <;> cases h
    rfl
  · unfold readFirst at h
    split at h <;> cases h
    rfl
  · unfold readSecond at h
    split at h <;> cases h
    rfl
  · unfold finish at h
    split at h <;> cases h
    rfl

theorem Step.versions (h : Step s s') : s.versions <+: s'.versions := by
  cases h with
  | compute first second h =>
    rw [compute_versions h]
    exact List.prefix_append _ _
  | writeFirst h => rw [versions_eq (.inl h)]
  | writeSecond h => rw [versions_eq (.inr (.inl h))]
  | readFirst h => rw [versions_eq (.inr (.inr (.inl h)))]
  | readSecond h => rw [versions_eq (.inr (.inr (.inr (.inl h))))]
  | finish h => rw [versions_eq (.inr (.inr (.inr (.inr h))))]

end Publish

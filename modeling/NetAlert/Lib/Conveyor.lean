import Mathlib.Tactic
import Mathlib.Algebra.BigOperators.Group.List.Basic
import Mathlib.Data.List.Range

/-!
# NetAlert.Lib.Conveyor — producers that number their items and put them on one belt

Every producer has at most one item in hand, the last it has issued, and then puts it at the end of the
belt or loses it.  `Step.sound`: what a producer has put on the belt stays in the order issued, and each
of its numbers is on the belt, lost or in hand exactly once.  `Sound.total` counts them.
-/

structure Conveyor (σ : Type) where
  issued : σ → ℕ
  hand : σ → Option ℕ
  belt : List (σ × ℕ)
  lost : List (σ × ℕ)

namespace Conveyor

variable {σ : Type} [DecidableEq σ]

/-- The numbers of one producer. -/
def numbers (s : σ) (items : List (σ × ℕ)) : List ℕ := (items.filter fun e => e.1 = s).map Prod.snd

def empty : Conveyor σ := ⟨fun _ => 0, fun _ => none, [], []⟩

inductive Step (c : Conveyor σ) : Conveyor σ → Prop where
  | issue (s : σ) (h : c.hand s = none) :
    Step c { c with issued := Function.update c.issued s (c.issued s + 1)
                    hand := Function.update c.hand s (some (c.issued s)) }
  | deposit (s : σ) (n : ℕ) (h : c.hand s = some n) :
    Step c { c with hand := Function.update c.hand s none, belt := c.belt ++ [(s, n)] }
  | lose (s : σ) (n : ℕ) (h : c.hand s = some n) :
    Step c { c with hand := Function.update c.hand s none, lost := c.lost ++ [(s, n)] }

/-- One producer's numbers: in order on the belt and up to the hand, and all of them somewhere, once. -/
structure SoundAt (s : σ) (c : Conveyor σ) : Prop where
  order : (numbers s c.belt ++ (c.hand s).toList).Pairwise (· < ·)
  once : (numbers s c.belt ++ numbers s c.lost ++ (c.hand s).toList).Perm (List.range (c.issued s))

def Sound (c : Conveyor σ) : Prop := ∀ s, SoundAt s c

theorem numbers_append (s : σ) (items items' : List (σ × ℕ)) :
    numbers s (items ++ items') = numbers s items ++ numbers s items' := by
  simp [numbers]

@[simp] theorem numbers_self (s : σ) (n : ℕ) : numbers s [(s, n)] = [n] := by simp [numbers]

theorem numbers_ne {s s' : σ} (h : s' ≠ s) (n : ℕ) : numbers s [(s', n)] = [] := by simp [numbers, h]

theorem sound_empty : Sound (empty : Conveyor σ) := fun _ => ⟨List.Pairwise.nil, List.Perm.refl _⟩

/-- **One step** keeps the order and loses no number. -/
theorem Step.sound {c c' : Conveyor σ} (h : Step c c') (hc : Sound c) : Sound c' := by
  intro s
  obtain ⟨horder, honce⟩ := hc s
  cases h with
  | issue s' hnone =>
    by_cases hs : s = s'
    · subst hs
      rw [hnone, Option.toList_none, List.append_nil] at horder honce
      refine ⟨?_, ?_⟩ <;> dsimp only
      · -- what is on the belt was issued before
        rw [Function.update_self, Option.toList_some, List.pairwise_append]
        refine ⟨horder, List.pairwise_singleton _ _, fun m hm n hn => ?_⟩
        obtain rfl := List.mem_singleton.mp hn
        exact List.mem_range.mp (honce.mem_iff.mp (List.mem_append_left _ hm))
      · rw [Function.update_self, Function.update_self, Option.toList_some, List.range_succ]
        exact honce.append_right _
    · refine ⟨?_, ?_⟩ <;> dsimp only
      · rwa [Function.update_of_ne hs]
      · rwa [Function.update_of_ne hs, Function.update_of_ne hs]
  | deposit s' n hn =>
    by_cases hs : s = s'
    · subst hs
      rw [hn, Option.toList_some] at horder honce
      refine ⟨?_, ?_⟩ <;> dsimp only
      · rwa [Function.update_self, Option.toList_none, List.append_nil, numbers_append, numbers_self]
      · rw [Function.update_self, Option.toList_none, List.append_nil, numbers_append, numbers_self]
        refine List.Perm.trans ?_ honce
        rw [List.append_assoc, List.append_assoc]
        exact List.Perm.append_left _ List.perm_append_comm
    · refine ⟨?_, ?_⟩ <;> dsimp only
      · rwa [Function.update_of_ne hs, numbers_append, numbers_ne (Ne.symm hs), List.append_nil]
      · rwa [Function.update_of_ne hs, numbers_append, numbers_ne (Ne.symm hs), List.append_nil]
  | lose s' n hn =>
    by_cases hs : s = s'
    · subst hs
      rw [hn, Option.toList_some] at horder honce
      refine ⟨?_, ?_⟩ <;> dsimp only
      · rw [Function.update_self, Option.toList_none, List.append_nil]
        exact (List.pairwise_append.mp horder).1
      · rw [Function.update_self, Option.toList_none, List.append_nil, numbers_append, numbers_self,
          ← List.append_assoc]
        exact honce
    · refine ⟨?_, ?_⟩ <;> dsimp only
      · rwa [Function.update_of_ne hs]
      · rwa [Function.update_of_ne hs, numbers_append, numbers_ne (Ne.symm hs), List.append_nil]

/-- Every item belongs to one producer. -/
theorem sum_numbers [Fintype σ] (items : List (σ × ℕ)) :
    ∑ s, (numbers s items).length = items.length := by
  induction items with
  | nil => simp [numbers]
  | cons e items ih =>
    have hsplit : ∀ s,
        (numbers s (e :: items)).length = (if e.1 = s then 1 else 0) + (numbers s items).length := by
      intro s
      by_cases h : e.1 = s <;> simp [numbers, h, Nat.add_comm]
    simp only [hsplit, Finset.sum_add_distrib, ih, Finset.sum_ite_eq, Finset.mem_univ, if_true, List.length_cons]
    exact Nat.add_comm 1 items.length

/-- **What was issued** is on the belt, lost or in hand. -/
theorem Sound.total [Fintype σ] {c : Conveyor σ} (h : Sound c) :
    ∑ s, c.issued s = c.belt.length + c.lost.length + ∑ s, (c.hand s).toList.length := by
  have hone : ∀ s, c.issued s =
      (numbers s c.belt).length + (numbers s c.lost).length + (c.hand s).toList.length := by
    intro s
    have hlen := (h s).once.length_eq
    rw [List.length_append, List.length_append, List.length_range] at hlen
    exact hlen.symm
  rw [Finset.sum_congr rfl fun s _ => hone s, Finset.sum_add_distrib, Finset.sum_add_distrib, sum_numbers,
    sum_numbers]

end Conveyor

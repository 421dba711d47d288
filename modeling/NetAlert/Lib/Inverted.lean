import Mathlib.Tactic
import NetAlert.Lib.HashMap

/-!
# NetAlert.Lib.Inverted — inverted indices of a list

A list whose elements have keys, and a map that gives for every key the positions of its elements.
The map is built along with the list: `enter` appends the next position to the entry of its key, or opens
one (`Inverts.enter`).  `gather` reads the entries of all keys that a test selects; on an inverted index it
finds the positions of the selected elements, each once (`Inverts.mem_gather`, `Inverts.nodup_gather`).
-/

namespace Inverted

variable {α κ : Type} [DecidableEq κ]

/-- The positions of the elements with the key, in increasing order. -/
def positions (key : α → κ) (xs : List α) (k : κ) : List ℕ := xs.findIdxs fun x => key x = k

/-- The map has an entry for every key of an element, with its positions. -/
def Inverts (key : α → κ) (xs : List α) (m : HashMap κ (List ℕ)) : Prop :=
  ∀ k, m.lookup k = if positions key xs k = [] then none else some (positions key xs k)

/-- Append a position to the entry of the key, or open one. -/
def enter (m : HashMap κ (List ℕ)) (k : κ) (i : ℕ) : HashMap κ (List ℕ) :=
  match m.lookup k with
  | some existing => m.insert k (existing ++ [i])
  | none => m.insert k [i]

/-- The entries of the selected keys. -/
def gather (sel : κ → Bool) (m : HashMap κ (List ℕ)) : List ℕ :=
  (m.toPairs.filter fun e => sel e.1).flatMap fun e => e.2

variable {key : α → κ} {xs : List α} {k : κ} {i : ℕ} {m : HashMap κ (List ℕ)}

theorem mem_positions : i ∈ positions key xs k ↔ ∃ x, xs[i]? = some x ∧ key x = k := by
  rw [positions, List.mem_findIdxs_iff_exists_getElem_pos]
  constructor
  · rintro ⟨hi, hk⟩
    exact ⟨xs[i], List.getElem?_eq_getElem hi, of_decide_eq_true hk⟩
  · rintro ⟨x, hx, hk⟩
    obtain ⟨hi, rfl⟩ := List.getElem?_eq_some_iff.mp hx
    exact ⟨hi, decide_eq_true hk⟩

theorem sorted_positions (key : α → κ) (xs : List α) (k : κ) : (positions key xs k).Pairwise (· < ·) :=
  List.pairwise_findIdxs

theorem nodup_positions (key : α → κ) (xs : List α) (k : κ) : (positions key xs k).Nodup :=
  List.nodup_findIdxs

theorem positions_concat (key : α → κ) (xs : List α) (x : α) (k : κ) :
    positions key (xs ++ [x]) k = positions key xs k ++ if key x = k then [xs.length] else [] := by
  rw [positions, List.findIdxs_append, List.findIdxs_singleton, Nat.zero_add]
  simp only [decide_eq_true_eq]
  rfl

/-- The positions depend on the keys of the elements only. -/
theorem positions_map (key : α → κ) (xs : List α) (k : κ) :
    positions key xs k = (xs.map key).findIdxs fun k' => k' = k := by
  rw [List.findIdxs_map]
  rfl

/-! ## The index of a list -/

theorem Inverts.empty (key : α → κ) : Inverts key [] ∅ := fun k => by simp [positions]

/-- **Entering an element** under its key. -/
theorem Inverts.enter (h : Inverts key xs m) (x : α) :
    Inverts key (xs ++ [x]) (Inverted.enter m (key x) xs.length) := by
  intro k
  unfold Inverted.enter
  rw [h (key x), positions_concat]
  by_cases hk : k = key x
  · subst hk
    by_cases he : positions key xs (key x) = [] <;> simp [he]
  · have hne : ¬ key x = k := fun h' => hk h'.symm
    by_cases he : positions key xs (key x) = [] <;> simp [he, hne, AList.lookup_insert_ne hk, h k]

/-- Elements may be replaced by others with the same keys. -/
theorem Inverts.congr {ys : List α} (h : Inverts key xs m) (hkeys : xs.map key = ys.map key) :
    Inverts key ys m := by
  intro k
  rw [h k, positions_map key xs, positions_map key ys, hkeys]

/-- The entry of a key, an absent one read as empty. -/
theorem Inverts.getD_lookup (h : Inverts key xs m) (k : κ) : (m.lookup k).getD [] = positions key xs k := by
  rw [h k]
  split_ifs with he
  · exact he.symm
  · rfl

theorem Inverts.mem_toPairs (h : Inverts key xs m) {l : List ℕ} :
    (k, l) ∈ m.toPairs ↔ l = positions key xs k ∧ l ≠ [] := by
  rw [HashMap.mem_toPairs, h k]
  split_ifs with he
  · simp [he]
  · simp only [Option.some.injEq]
    constructor
    · rintro rfl
      exact ⟨rfl, he⟩
    · exact fun hl => hl.1.symm

/-! ## Reading several entries -/

theorem Inverts.mem_gather (h : Inverts key xs m) (sel : κ → Bool) :
    i ∈ gather sel m ↔ ∃ x, xs[i]? = some x ∧ sel (key x) = true := by
  simp only [gather, List.mem_flatMap, List.mem_filter]
  constructor
  · rintro ⟨⟨k, l⟩, ⟨hm, hs⟩, hi⟩
    rw [(h.mem_toPairs.mp hm).1] at hi
    obtain ⟨x, hx, rfl⟩ := mem_positions.mp hi
    exact ⟨x, hx, hs⟩
  · rintro ⟨x, hx, hs⟩
    have hi : i ∈ positions key xs (key x) := mem_positions.mpr ⟨x, hx, rfl⟩
    exact ⟨(key x, positions key xs (key x)), ⟨h.mem_toPairs.mpr ⟨rfl, List.ne_nil_of_mem hi⟩, hs⟩, hi⟩

/-- No position is read twice: the entries repeat none, and an element has one key. -/
theorem Inverts.nodup_gather (h : Inverts key xs m) (sel : κ → Bool) : (gather sel m).Nodup := by
  rw [gather, List.nodup_flatMap]
  refine ⟨?_, ?_⟩
  · rintro ⟨k, l⟩ hm
    rw [(h.mem_toPairs.mp (List.mem_filter.mp hm).1).1]
    exact nodup_positions key xs k
  · have hkeys := HashMap.nodup_toPairs m
    rw [List.Nodup, List.pairwise_map] at hkeys
    refine (hkeys.sublist List.filter_sublist).imp_of_mem fun {a b} ha hb hab => ?_
    obtain ⟨k, l⟩ := a
    obtain ⟨k', l'⟩ := b
    simp only [Function.onFun, List.disjoint_left]
    intro i hi hi'
    rw [(h.mem_toPairs.mp (List.mem_filter.mp ha).1).1, mem_positions] at hi
    rw [(h.mem_toPairs.mp (List.mem_filter.mp hb).1).1, mem_positions] at hi'
    obtain ⟨x, hx, rfl⟩ := hi
    obtain ⟨x', hx', rfl⟩ := hi'
    rw [hx] at hx'
    cases hx'
    exact hab rfl

end Inverted

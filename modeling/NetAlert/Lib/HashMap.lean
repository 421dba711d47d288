import Mathlib.Tactic
import Mathlib.Data.List.AList

/-!
# NetAlert.Lib.HashMap — finite maps whose iteration order is not specified

`HashMap κ α` is Mathlib's `AList`: a list of entries with distinct keys.  A program that walks a
hash map sees the entries in some order; `HashOrder` is an arbitrary such order, so a statement
over every `HashOrder` is a statement over every iteration order.
-/

/-- A finite map from `κ` to `α`. -/
abbrev HashMap (κ α : Type) := AList (fun _ : κ => α)

/-- An iteration order: any rearrangement of the entries. -/
structure HashOrder where
  iter : {α : Type} → List α → List α
  perm : ∀ {α : Type} (l : List α), (iter l).Perm l

namespace HashOrder

/-- The order of the entry list itself. -/
def stored : HashOrder := ⟨fun l => l, fun l => List.Perm.refl l⟩

def reversed : HashOrder := ⟨List.reverse, fun l => List.reverse_perm l⟩

@[simp] theorem mem_iter (ord : HashOrder) {α : Type} {l : List α} {x : α} : x ∈ ord.iter l ↔ x ∈ l :=
  (ord.perm l).mem_iff

end HashOrder

namespace HashMap

variable {κ α : Type} [DecidableEq κ]

/-- The entries as pairs. -/
def toPairs (m : HashMap κ α) : List (κ × α) := m.entries.map (fun e => (e.1, e.2))

/-- Collect pairs into a map; the last pair of a key wins. -/
def ofPairs (l : List (κ × α)) : HashMap κ α := l.foldl (fun m e => m.insert e.1 e.2) ∅

omit [DecidableEq κ] in
theorem map_fst_toPairs (m : HashMap κ α) : m.toPairs.map Prod.fst = m.keys := by
  simp [toPairs, AList.keys, List.keys, Function.comp_def]

omit [DecidableEq κ] in
theorem nodup_toPairs (m : HashMap κ α) : (m.toPairs.map Prod.fst).Nodup := by
  rw [map_fst_toPairs]
  exact m.keys_nodup

theorem mem_toPairs {m : HashMap κ α} {k : κ} {v : α} : (k, v) ∈ m.toPairs ↔ m.lookup k = some v := by
  have h : (k, v) ∈ m.toPairs ↔ (⟨k, v⟩ : Sigma fun _ : κ => α) ∈ m.entries := by
    simp only [toPairs, List.mem_map]
    constructor
    · rintro ⟨⟨a, b⟩, hm, he⟩
      obtain ⟨rfl, rfl⟩ := Prod.mk.injEq .. ▸ he
      exact hm
    · exact fun hm => ⟨_, hm, rfl⟩
  rw [h]
  exact AList.mem_lookup_iff.symm

theorem lookup_insert' (m : HashMap κ α) (k k' : κ) (v : α) :
    (m.insert k v).lookup k' = if k' = k then some v else m.lookup k' := by
  by_cases h : k' = k
  · subst h
    simp
  · rw [AList.lookup_insert_ne h, if_neg h]

/-- A collected map answers with the last pair of the key. -/
theorem lookup_ofPairs_concat (l : List (κ × α)) (e : κ × α) (k : κ) :
    (ofPairs (l ++ [e])).lookup k = if k = e.1 then some e.2 else (ofPairs l).lookup k := by
  simp only [ofPairs, List.foldl_append, List.foldl_cons, List.foldl_nil, lookup_insert']

/-- A collected map answers with the last pair of the key, if there is one. -/
theorem lookup_ofPairs (l : List (κ × α)) (k : κ) :
    (ofPairs l).lookup k = (l.filter fun e => e.1 = k).getLast?.map Prod.snd := by
  induction l using List.reverseRecOn with
  | nil => simp [ofPairs]
  | append_singleton l e ih =>
    rw [lookup_ofPairs_concat, ih]
    by_cases h : k = e.1
    · simp [h]
    · have h' : ¬ e.1 = k := fun he => h he.symm
      simp [h, h']

/-- A map collected from pairs with different keys answers with these pairs. -/
theorem lookup_ofPairs_nodup {l : List (κ × α)} (h : (l.map Prod.fst).Nodup) {k : κ} {v : α} :
    (ofPairs l).lookup k = some v ↔ (k, v) ∈ l := by
  induction l using List.reverseRecOn with
  | nil => simp [ofPairs]
  | append_singleton l e ih =>
    obtain ⟨k', v'⟩ := e
    rw [List.map_append, List.nodup_append] at h
    rw [lookup_ofPairs_concat, List.mem_append, List.mem_singleton, Prod.mk.injEq]
    split_ifs with hk
    · obtain rfl : k = k' := hk
      have hnot : (k, v) ∉ l := fun hmem => h.2.2 k (List.mem_map.mpr ⟨_, hmem, rfl⟩) k (by simp) rfl
      simp [hnot, eq_comm]
    · simp [ih h.1, hk]

/-- A map has no more entries than there are keys that it may have. -/
theorem length_toPairs_le {m : HashMap κ α} {keys : List κ} (h : ∀ k v, m.lookup k = some v → k ∈ keys) :
    m.toPairs.length ≤ keys.length := by
  rw [← List.length_map (f := Prod.fst)]
  refine (List.subperm_of_subset m.nodup_toPairs fun k hk => ?_).length_le
  obtain ⟨⟨k, v⟩, he, rfl⟩ := List.mem_map.mp hk
  exact h k v (mem_toPairs.mp he)

theorem length_ofPairs_le (l : List (κ × α)) : (ofPairs l).toPairs.length ≤ l.length := by
  have hkeys : ∀ k v, (ofPairs l).lookup k = some v → k ∈ l.map Prod.fst := by
    intro k v hk
    rw [lookup_ofPairs] at hk
    obtain ⟨e, he, -⟩ := Option.map_eq_some_iff.mp hk
    obtain ⟨hmem, hkey⟩ := List.mem_filter.mp (List.mem_of_getLast? he)
    exact List.mem_map.mpr ⟨e, hmem, of_decide_eq_true hkey⟩
  have hle := length_toPairs_le hkeys
  rwa [List.length_map] at hle

/-- In any order, the entry found for a key is the one looked up. -/
theorem find?_iter (ord : HashOrder) (m : HashMap κ α) (k : κ) :
    (ord.iter m.toPairs).find? (fun e => e.1 = k) = (m.lookup k).map fun v => (k, v) := by
  cases h : m.lookup k with
  | none =>
    refine List.find?_eq_none.mpr fun e he hk => ?_
    obtain rfl : e.1 = k := by simpa using hk
    rw [HashOrder.mem_iter, mem_toPairs, h] at he
    cases he
  | some v =>
    have hmem : (k, v) ∈ ord.iter m.toPairs := (ord.mem_iter).mpr (mem_toPairs.mpr h)
    cases hf : (ord.iter m.toPairs).find? (fun e => e.1 = k) with
    | none => simpa using List.find?_eq_none.mp hf _ hmem
    | some e =>
      obtain ⟨k', v'⟩ := e
      obtain rfl : k' = k := by simpa using List.find?_some hf
      have he := mem_toPairs.mp ((ord.mem_iter).mp (List.mem_of_find?_eq_some hf))
      rw [h] at he
      cases he
      rfl

end HashMap

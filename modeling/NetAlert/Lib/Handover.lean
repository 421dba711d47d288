import NetAlert.Lib.HashMap

/-!
# NetAlert.Lib.Handover — values handed over by key

The old owners' values are collected in a map, where the last of one key wins; the new owners then
ask for theirs in order, and a value is given out once, so the first of one key wins.
`consume_ofPairs` says when every owner of a list gets back its own value.
-/

namespace Handover

variable {κ β : Type} [DecidableEq κ]

/-- Ask for the keys in order; the map forgets a key that has been asked for. -/
def consume : HashMap κ β → List κ → List (Option β)
  | _, [] => []
  | m, k :: ks => m.lookup k :: consume (m.erase k) ks

/-- Only the first request for a key gets its value. -/
theorem getElem?_consume (ks : List κ) (m : HashMap κ β) (i : ℕ) :
    (consume m ks)[i]? = ks[i]?.map fun k => if k ∈ ks.take i then none else m.lookup k := by
  induction ks generalizing m i with
  | nil => simp [consume]
  | cons k ks ih =>
    cases i with
    | zero => simp [consume]
    | succ i =>
      simp only [consume, List.getElem?_cons_succ, List.take_succ_cons, ih]
      refine Option.map_congr fun k' _ => ?_
      by_cases hk : k' = k
      · subst hk
        simp
      · simp [hk, AList.lookup_erase_ne hk]

/-- A key that occurs is answered with the last value it occurs with. -/
theorem lookup_ofPairs_last (l : List (κ × β)) {i : ℕ} {e : κ × β} (hi : l[i]? = some e) :
    ∃ j v, i ≤ j ∧ l[j]? = some (e.1, v) ∧ (HashMap.ofPairs l).lookup e.1 = some v := by
  induction l using List.reverseRecOn with
  | nil => simp at hi
  | append_singleton l x ih =>
    rw [HashMap.lookup_ofPairs_concat]
    by_cases hx : e.1 = x.1
    · refine ⟨l.length, x.2, ?_, by simp [hx], by simp [hx]⟩
      have := (List.getElem?_eq_some_iff.mp hi).1
      simp only [List.length_append, List.length_singleton] at this
      omega
    · have hlt : i < l.length := by
        have := (List.getElem?_eq_some_iff.mp hi).1
        rw [List.length_append, List.length_singleton] at this
        by_contra hge
        have hil : i = l.length := by omega
        subst hil
        simp only [List.getElem?_concat_length, Option.some.injEq] at hi
        exact hx (by rw [hi])
      rw [List.getElem?_append_left hlt] at hi
      obtain ⟨j, v, hij, hj, hv⟩ := ih hi
      refine ⟨j, v, hij, ?_, by rw [if_neg hx, hv]⟩
      rw [List.getElem?_append_left (List.getElem?_eq_some_iff.mp hj).1]
      exact hj

theorem getElem?_consume_ofPairs (d : β) {l : List (κ × β)} {i : ℕ} {e : κ × β} (hi : l[i]? = some e) :
    ((consume (HashMap.ofPairs l) (l.map Prod.fst)).map fun o => o.getD d)[i]? =
      some (if e.1 ∈ (l.map Prod.fst).take i then d else ((HashMap.ofPairs l).lookup e.1).getD d) := by
  rw [List.getElem?_map, getElem?_consume, List.getElem?_map, hi]
  by_cases hm : e.1 ∈ (l.map Prod.fst).take i <;> simp [hm]

omit [DecidableEq κ] in
theorem mem_take_keys (l : List (κ × β)) (i : ℕ) (k : κ) :
    k ∈ (l.map Prod.fst).take i ↔ ∃ j < i, ∃ e, l[j]? = some e ∧ e.1 = k := by
  rw [List.mem_take_iff_getElem]
  constructor
  · rintro ⟨j, hj, he⟩
    simp only [List.length_map, lt_min_iff] at hj
    exact ⟨j, hj.1, l[j], List.getElem?_eq_getElem hj.2, by simpa using he⟩
  · rintro ⟨j, hj, e, he, hk⟩
    obtain ⟨hlt, rfl⟩ := List.getElem?_eq_some_iff.mp he
    exact ⟨j, by simp [hj, hlt], by simpa using hk⟩

/-- What a consumer with a value of its own has been handed. -/
theorem value_of_consume {l : List (κ × β)} {d : β}
    (heq : (consume (HashMap.ofPairs l) (l.map Prod.fst)).map (fun o => o.getD d) = l.map Prod.snd) {i : ℕ}
    {e : κ × β} (hi : l[i]? = some e) :
    (if e.1 ∈ (l.map Prod.fst).take i then d else ((HashMap.ofPairs l).lookup e.1).getD d) = e.2 := by
  have h := getElem?_consume_ofPairs d hi
  rw [heq, List.getElem?_map, hi] at h
  exact (Option.some.inj h).symm

theorem default_of_consume {l : List (κ × β)} {d : β}
    (heq : (consume (HashMap.ofPairs l) (l.map Prod.fst)).map (fun o => o.getD d) = l.map Prod.snd) {i j : ℕ}
    {e e' : κ × β} (hi : l[i]? = some e) (hj : l[j]? = some e') (hij : i ≠ j) (hk : e.1 = e'.1) : e.2 = d := by
  -- an owner that is not the first of its key gets the default
  have hlater : ∀ {i j : ℕ} {e e' : κ × β}, l[i]? = some e → l[j]? = some e' → j < i → e.1 = e'.1 → e.2 = d := by
    intro i j e e' hi hj hji hk
    rw [← value_of_consume heq hi, if_pos ((mem_take_keys l i e.1).mpr ⟨j, hji, e', hj, hk.symm⟩)]
  rcases Nat.lt_or_gt_of_ne hij with hlt | hgt
  · by_cases hm : e.1 ∈ (l.map Prod.fst).take i
    · rw [← value_of_consume heq hi, if_pos hm]
    · -- the first one gets the last one's value, which is the default
      obtain ⟨n, v, hjn, hn, hv⟩ := lookup_ofPairs_last l hj
      have hvd : v = d := hlater hn hi (lt_of_lt_of_le hlt hjn) hk.symm
      rw [← value_of_consume heq hi, if_neg hm, hk, hv, hvd]
      rfl
  · exact hlater hi hj hgt hk

theorem consume_of_default {l : List (κ × β)} {d : β} (h : ∀ (i j : ℕ) (e e' : κ × β), l[i]? = some e →
      l[j]? = some e' → i ≠ j → e.1 = e'.1 → e.2 = d) :
    (consume (HashMap.ofPairs l) (l.map Prod.fst)).map (fun o => o.getD d) = l.map Prod.snd := by
  refine List.ext_getElem? fun i => ?_
  cases hi : l[i]? with
  | none =>
    have hlen : (consume (HashMap.ofPairs l) (l.map Prod.fst))[i]? = none := by
      rw [getElem?_consume, List.getElem?_map, hi]
      rfl
    rw [List.getElem?_map, List.getElem?_map, hi, hlen]
    rfl
  | some e =>
    rw [getElem?_consume_ofPairs d hi, List.getElem?_map, hi]
    congr 1
    split_ifs with hm
    · obtain ⟨j, hji, e', hj, hk⟩ := (mem_take_keys l i e.1).mp hm
      exact (h i j e e' hi hj (by omega) hk.symm).symm
    · obtain ⟨n, v, hin, hn, hv⟩ := lookup_ofPairs_last l hi
      rw [hv]
      by_cases hne : i = n
      · subst hne
        rw [hi] at hn
        rw [← (Option.some.inj hn).symm]
        rfl
      · have h1 := h n i (e.1, v) e hn hi (Ne.symm hne) rfl
        have h2 := h i n e (e.1, v) hi hn hne rfl
        rw [h2]
        exact h1

/-- **Everyone gets their own value back** iff whoever shares a key holds the default. -/
theorem consume_ofPairs (l : List (κ × β)) (d : β) :
    (consume (HashMap.ofPairs l) (l.map Prod.fst)).map (fun o => o.getD d) = l.map Prod.snd ↔
      ∀ (i j : ℕ) (e e' : κ × β), l[i]? = some e → l[j]? = some e' → i ≠ j → e.1 = e'.1 → e.2 = d :=
  ⟨fun heq _ _ _ _ hi hj hij hk => default_of_consume heq hi hj hij hk, consume_of_default⟩

end Handover

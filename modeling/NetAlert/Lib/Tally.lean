import NetAlert.Lib.HashMap

/-!
# NetAlert.Lib.Tally — weights collected by key

`tally key weight l` adds up the weights of the elements of `l` under their keys; an element without
a key is left out.  Its answer for a key is the weight of the elements of that key (`lookup_tally`),
and the entries whose key has a property weigh what the elements with such keys do (`sum_tally`).
-/

namespace Tally

variable {α κ M : Type} [DecidableEq κ] [AddCommMonoid M]

/-- Add a weight to the entry of a key, which starts at zero. -/
def add (m : HashMap κ M) (k : κ) (w : M) : HashMap κ M := m.insert k ((m.lookup k).getD 0 + w)

def tallyStep (key : α → Option κ) (weight : α → M) (m : HashMap κ M) (x : α) : HashMap κ M :=
  match key x with
  | none => m
  | some k => add m k (weight x)

def tally (key : α → Option κ) (weight : α → M) (l : List α) : HashMap κ M :=
  l.foldl (tallyStep key weight) ∅

/-- The weight of the elements of a key. -/
def share (key : α → Option κ) (weight : α → M) (l : List α) (k : κ) : M :=
  ((l.filter fun x => key x = some k).map weight).sum

variable {key : α → Option κ} {weight : α → M} {l : List α}

theorem share_eq_zero {k : κ} (h : ∀ x ∈ l, key x ≠ some k) : share key weight l k = 0 := by
  have : (l.filter fun x => key x = some k) = [] := List.filter_eq_nil_iff.mpr fun x hx => by simpa using h x hx
  rw [share, this]
  rfl

/-- **Lookup** in a tally. -/
theorem lookup_tally (k : κ) : (tally key weight l).lookup k =
    if ∃ x ∈ l, key x = some k then some (share key weight l k) else none := by
  induction l using List.reverseRecOn with
  | nil => simp [tally]
  | append_singleton l x ih =>
    have hstep : tally key weight (l ++ [x]) = tallyStep key weight (tally key weight l) x := by
      simp [tally]
    have hshare : share key weight (l ++ [x]) k =
        share key weight l k + if key x = some k then weight x else 0 := by
      by_cases hx : key x = some k <;> simp [share, hx]
    have hex : (∃ y ∈ l ++ [x], key y = some k) ↔ (∃ y ∈ l, key y = some k) ∨ key x = some k := by
      simp [or_and_right, exists_or]
    simp only [hstep, hshare, hex]
    cases hk : key x with
    | none => simp [tallyStep, hk, ih]
    | some k' =>
      simp only [tallyStep, hk, add, HashMap.lookup_insert', Option.some.injEq, @eq_comm _ k']
      by_cases hkk : k = k'
      · subst hkk
        by_cases hl : ∃ y ∈ l, key y = some k
        · simp [ih, hl]
        · have h0 : share key weight l k = 0 := share_eq_zero fun y hy hyk => hl ⟨y, hy, hyk⟩
          simp [ih, hl, h0]
      · simp [hkk, ih]

/-- A tally of converted weights is the tally, converted. -/
theorem lookup_tally_map {N : Type} [AddCommMonoid N] (φ : M →+ N) (k : κ) :
    (tally key (fun x => φ (weight x)) l).lookup k = ((tally key weight l).lookup k).map φ := by
  have hshare : share key (fun x => φ (weight x)) l k = φ (share key weight l k) := by
    rw [share, share, map_list_sum, List.map_map]
    rfl
  rw [lookup_tally, lookup_tally, hshare]
  split_ifs <;> rfl

/-- Shares over distinct keys add up to the weight of the elements that have one of them. -/
theorem sum_shares {ks : List κ} (hks : ks.Nodup) (l : List α) :
    (ks.map (share key weight l)).sum =
      ((l.filter fun x => (key x).any fun k => decide (k ∈ ks)).map weight).sum := by
  induction ks with
  | nil => simp
  | cons k ks ih =>
    obtain ⟨hk, hks⟩ := List.nodup_cons.mp hks
    rw [List.map_cons, List.sum_cons, ih hks]
    clear ih
    induction l with
    | nil => simp [share]
    | cons x l ih =>
      have hx : share key weight (x :: l) k =
          (if key x = some k then weight x else 0) + share key weight l k := by
        by_cases hkx : key x = some k <;> simp [share, hkx]
      rw [hx]
      cases hkx : key x with
      | none => simpa [hkx] using ih
      | some k' =>
        by_cases hkk : k' = k
        · subst hkk
          have : ¬ (k' ∈ ks) := hk
          simp [hkx, this, add_assoc, ih]
        · by_cases hm : k' ∈ ks
          · simp only [hkx, List.filter_cons, Option.any_some, hm, decide_true, if_true, List.map_cons,
              List.sum_cons, List.mem_cons, or_true, Option.some.injEq, hkk, if_false, zero_add]
            rw [add_left_comm, ih]
            simp [List.mem_cons]
          · simpa [hkx, hkk, hm] using ih

/-- **The entries with a property** weigh what the elements with such keys do. -/
theorem sum_tally (p : κ → Bool) :
    (((tally key weight l).toPairs.filter fun e => p e.1).map Prod.snd).sum =
      ((l.filter fun x => (key x).any p).map weight).sum := by
  have hsnd : ((tally key weight l).toPairs.filter fun e => p e.1).map Prod.snd =
      ((((tally key weight l).toPairs.filter fun e => p e.1).map Prod.fst)).map (share key weight l) := by
    rw [List.map_map]
    apply List.map_congr_left
    intro e he
    have h := HashMap.mem_toPairs.mp (List.mem_of_mem_filter he)
    rw [lookup_tally] at h
    split_ifs at h
    exact (Option.some.inj h).symm
  have hnd : (((tally key weight l).toPairs.filter fun e => p e.1).map Prod.fst).Nodup :=
    (HashMap.nodup_toPairs _).sublist (List.filter_sublist.map _)
  rw [hsnd, sum_shares hnd]
  congr 2
  apply List.filter_congr
  intro x hx
  cases hk : key x with
  | none => rfl
  | some k =>
    have hmem : (k, share key weight l k) ∈ (tally key weight l).toPairs := by
      rw [HashMap.mem_toPairs, lookup_tally, if_pos ⟨x, hx, hk⟩]
    rw [Option.any_some, Option.any_some, Bool.eq_iff_iff, decide_eq_true_eq, List.mem_map]
    constructor
    · rintro ⟨e, he, rfl⟩
      exact (List.mem_filter.mp he).2
    · exact fun hp => ⟨_, List.mem_filter.mpr ⟨hmem, hp⟩, rfl⟩

end Tally

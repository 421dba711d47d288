import Mathlib.Tactic

/-!
# NetAlert.Lib.Best — greatest elements of a list

`keep` is the body of a loop that remembers the first entry of greatest score, `maxBy` is the last
element of greatest key.  `foldl_keep_flatMap_perm`: where blocks of entries may come in other orders,
the loop still remembers the same entry if no block has a tie for it.
-/

namespace Best

variable {α β : Type} [LinearOrder β]

/-- Replace the best entry so far by one of greater score. -/
def keep (best : Option (α × β)) (x : α × β) : Option (α × β) :=
  match best with
  | none => some x
  | some b => if b.2 < x.2 then some x else best

/-- The loop from `o` on remembers the first entry of greatest score, `o` before those of the list. -/
theorem foldl_keep_from (o : Option (α × β)) (l : List (α × β)) :
    (l.foldl keep o = none ↔ o = none ∧ l = []) ∧
      ∀ r, l.foldl keep o = some r → (o = some r ∨ (r ∈ l ∧ ∀ b, o = some b → b.2 < r.2)) ∧
        ∀ x, o = some x ∨ x ∈ l → x.2 ≤ r.2 := by
  induction l using List.reverseRecOn with
  | nil =>
    refine ⟨by simp, fun r hr => ⟨.inl hr, ?_⟩⟩
    rintro x (hx | hx)
    · rw [Option.some.inj (hx.symm.trans hr)]
    · cases hx
  | append_singleton l x ih =>
    obtain ⟨ih1, ih2⟩ := ih
    rw [List.foldl_append, List.foldl_cons, List.foldl_nil]
    cases hacc : l.foldl keep o with
    | none =>
      obtain ⟨rfl, rfl⟩ := ih1.mp hacc
      simp [keep]
    | some b =>
      obtain ⟨hfrom, hmax⟩ := ih2 b hacc
      unfold keep
      simp only
      split_ifs with hlt
      · refine ⟨by simp, fun r hr => ?_⟩
        obtain rfl := Option.some.inj hr
        refine ⟨.inr ⟨by simp, fun b' hb' => (hmax b' (.inl hb')).trans_lt hlt⟩, ?_⟩
        rintro y (hy | hy)
        · exact (hmax y (.inl hy)).trans hlt.le
        · rcases List.mem_append.mp hy with hy | hy
          · exact (hmax y (.inr hy)).trans hlt.le
          · rw [List.mem_singleton.mp hy]
      · refine ⟨by simp, fun r hr => ?_⟩
        obtain rfl := Option.some.inj hr
        refine ⟨hfrom.imp_right fun h => ⟨List.mem_append_left _ h.1, h.2⟩, ?_⟩
        rintro y (hy | hy)
        · exact hmax y (.inl hy)
        · rcases List.mem_append.mp hy with hy | hy
          · exact hmax y (.inr hy)
          · rw [List.mem_singleton.mp hy]
            exact not_lt.mp hlt

/-- What the loop remembers is an entry of greatest score; it remembers nothing of an empty list. -/
theorem foldl_keep (l : List (α × β)) :
    (l.foldl keep none = none → l = []) ∧
      ∀ b, l.foldl keep none = some b → b ∈ l ∧ ∀ x ∈ l, x.2 ≤ b.2 := by
  obtain ⟨h1, h2⟩ := foldl_keep_from none l
  refine ⟨fun h => (h1.mp h).2, fun b hb => ?_⟩
  obtain ⟨hfrom, hmax⟩ := h2 b hb
  refine ⟨?_, fun x hx => hmax x (.inr hx)⟩
  rcases hfrom with h | h
  · cases h
  · exact h.1

/-- The loop remembers the first such entry. -/
theorem foldl_keep_first {l : List (α × β)} {b : α × β} (h : l.foldl keep none = some b) :
    ∃ before after, l = before ++ b :: after ∧ ∀ x ∈ before, x.2 < b.2 := by
  induction l using List.reverseRecOn with
  | nil => cases h
  | append_singleton l x ih =>
    rw [List.foldl_append, List.foldl_cons, List.foldl_nil] at h
    cases hacc : l.foldl keep none with
    | none =>
      rw [hacc] at h
      obtain rfl := Option.some.inj h
      rw [(foldl_keep l).1 hacc]
      exact ⟨[], [], rfl, by simp⟩
    | some c =>
      have hmax := ((foldl_keep l).2 c hacc).2
      rw [hacc, keep] at h
      split_ifs at h with hlt
      · obtain rfl := Option.some.inj h
        exact ⟨l, [], rfl, fun y hy => (hmax y hy).trans_lt hlt⟩
      · obtain ⟨before, after, rfl, hbefore⟩ := ih (hacc.trans h)
        exact ⟨before, after ++ [x], by simp, hbefore⟩

theorem foldl_keep_eq_none {l : List (α × β)} : l.foldl keep none = none ↔ l = [] :=
  ⟨(foldl_keep l).1, fun h => by rw [h]; rfl⟩

/-- A loop that skips some entries is the loop over the others. -/
theorem foldl_skip {γ σ : Type} (p : γ → Bool) (f : σ → γ → σ) (l : List γ) (s : σ) :
    l.foldl (fun s x => if p x then s else f s x) s = (l.filter fun x => !p x).foldl f s := by
  induction l generalizing s with
  | nil => rfl
  | cons x l ih =>
    by_cases hx : p x = true
    · simpa [hx] using ih s
    · simpa [hx] using ih (f s x)

/-- The last element of greatest key. -/
def maxBy (key : α → β) : List α → Option α
  | [] => none
  | x :: l => some (l.foldl (fun best y => if key best ≤ key y then y else best) x)

theorem maxBy_pair (key : α → β) (x y : α) : maxBy key [x, y] = some (if key x ≤ key y then y else x) := rfl

theorem maxBy_mem {key : α → β} {l : List α} {b : α} (h : maxBy key l = some b) : b ∈ l := by
  cases l with
  | nil => cases h
  | cons x l =>
    cases h
    induction l using List.reverseRecOn with
    | nil => simp
    | append_singleton l y ih =>
      rw [List.foldl_append, List.foldl_cons, List.foldl_nil]
      split_ifs
      · simp
      · rcases List.mem_cons.mp ih with h | h
        · rw [h]
          exact List.mem_cons_self
        · exact List.mem_cons_of_mem _ (List.mem_append_left _ h)

/-! ## Lists in other orders -/

/-- Two loops have best entries of one score, the same ones if the score is `M`. -/
def Agree (M : β) (o o' : Option (α × β)) : Prop :=
  Option.Rel (fun b b' => b.2 = b'.2 ∧ (b.2 = M → b = b')) o o'

omit [LinearOrder β] in
theorem Agree.symm {M : β} {o o' : Option (α × β)} (h : Agree M o o') : Agree M o' o := by
  cases h with
  | none => exact .none
  | some h => exact .some ⟨h.1.symm, fun hM => (h.2 (h.1.trans hM)).symm⟩

omit [LinearOrder β] in
theorem Agree.some_left {M : β} {o o' : Option (α × β)} (h : Agree M o o') {b : α × β} (hb : o = some b) :
    ∃ b', o' = some b' ∧ b.2 = b'.2 ∧ (b.2 = M → b = b') := by
  subst hb
  cases h with
  | some h => exact ⟨_, rfl, h⟩

/-- The best score after a block is at least what the other loop has remembered. -/
theorem Agree.score_le {M : β} {o o' : Option (α × β)} (h : Agree M o o') {l l' : List (α × β)}
    (hperm : l.Perm l') {r r' : α × β} (hr : l.foldl keep o = some r) (hr' : l'.foldl keep o' = some r') :
    r.2 ≤ r'.2 := by
  have hmax' := ((foldl_keep_from o' l').2 r' hr').2
  rcases ((foldl_keep_from o l).2 r hr).1 with h' | ⟨h', -⟩
  · obtain ⟨b', hb', heq, -⟩ := h.some_left h'
    exact heq.le.trans (hmax' b' (.inl hb'))
  · exact hmax' r (.inr (hperm.mem_iff.mp h'))

/-- **A block in another order**, in which only one entry has the greatest score `M`, unless one has had it
before. -/
theorem Agree.block {M : β} {o o' : Option (α × β)} (h : Agree M o o') {l l' : List (α × β)} (hperm : l.Perm l')
    (huniq : (∀ b, o = some b → b.2 ≠ M) → ∀ x ∈ l, ∀ y ∈ l, x.2 = M → y.2 = M → x = y) :
    Agree M (l.foldl keep o) (l'.foldl keep o') := by
  obtain ⟨hnone, hsome⟩ := foldl_keep_from o l
  obtain ⟨hnone', hsome'⟩ := foldl_keep_from o' l'
  have hiff : l.foldl keep o = none ↔ l'.foldl keep o' = none := by
    rw [hnone, hnone']
    refine and_congr ?_ ⟨fun h => List.nil_perm.mp (h ▸ hperm), fun h => List.perm_nil.mp (h ▸ hperm)⟩
    cases h <;> simp
  cases hr : l.foldl keep o with
  | none =>
    rw [hiff.mp hr]
    exact .none
  | some r =>
    obtain ⟨r', hr'⟩ := Option.ne_none_iff_exists'.mp fun h' => by
      rw [hiff.mpr h'] at hr
      cases hr
    rw [hr']
    have heq : r.2 = r'.2 := le_antisymm (h.score_le hperm hr hr') (h.symm.score_le hperm.symm hr' hr)
    refine .some ⟨heq, fun hM => ?_⟩
    rcases (hsome r hr).1 with hold | ⟨hmem, hnew⟩
    · obtain ⟨b', hb', hbeq, hsame⟩ := h.some_left hold
      rcases (hsome' r' hr').1 with hold' | ⟨-, hnew'⟩
      · exact (hsame hM).trans (Option.some.inj (hb'.symm.trans hold'))
      · exact absurd (hnew' b' hb') (by rw [← hbeq, heq]; exact lt_irrefl _)
    · rcases (hsome' r' hr').1 with hold' | ⟨hmem', -⟩
      · obtain ⟨b, hb, hbeq, -⟩ := h.symm.some_left hold'
        exact absurd (hnew b hb) (by rw [← hbeq, heq]; exact lt_irrefl _)
      · exact huniq (fun b hb => hM ▸ (hnew b hb).ne) r hmem r' (hperm.mem_iff.mpr hmem') hM (heq ▸ hM)

/-- An entry with a score that no entry exceeds has its score remembered. -/
theorem foldl_keep_max {l : List (α × β)} {z : α × β} (hz : z ∈ l) (hmax : ∀ x ∈ l, x.2 ≤ z.2) :
    ∃ b, l.foldl keep none = some b ∧ b.2 = z.2 := by
  cases hacc : l.foldl keep none with
  | none =>
    rw [foldl_keep_eq_none.mp hacc] at hz
    cases hz
  | some b =>
    obtain ⟨hb, hle⟩ := (foldl_keep l).2 b hacc
    exact ⟨b, rfl, le_antisymm (hmax b hb) (hle z hz)⟩

section Blocks

variable {γ : Type} {L : List γ} {g g' : γ → List (α × β)}

/-- **Blocks in other orders**, if no score exceeds `M` and only one entry of the first block with that score
has it. -/
theorem agree_blocks {M : β} (hM : ∀ c ∈ L, ∀ z ∈ g c, z.2 ≤ M) (hperm : ∀ c ∈ L, (g c).Perm (g' c))
    (huniq : ∀ before c after, L = before ++ c :: after → (∀ c' ∈ before, ∀ z ∈ g c', z.2 ≠ M) →
      ∀ x ∈ g c, ∀ y ∈ g c, x.2 = M → y.2 = M → x = y) :
    Agree M ((L.flatMap g).foldl keep none) ((L.flatMap g').foldl keep none) := by
  have key : ∀ before after, L = before ++ after →
      Agree M ((before.flatMap g).foldl keep none) ((before.flatMap g').foldl keep none) := by
    intro before
    induction before using List.reverseRecOn with
    | nil => exact fun _ _ => .none
    | append_singleton before c ih =>
      intro after hL
      have hL' : L = before ++ c :: after := by rw [hL, List.append_assoc, List.singleton_append]
      have hc : c ∈ L := by rw [hL']; simp
      rw [List.flatMap_append, List.flatMap_append, List.foldl_append, List.foldl_append,
        List.flatMap_singleton, List.flatMap_singleton]
      refine (ih _ hL').block (hperm c hc) fun hnew => huniq before c after hL' fun c' hc' z hz hzM => ?_
      -- an entry of score `M` in an earlier block would be remembered
      have hmax : ∀ x ∈ before.flatMap g, x.2 ≤ z.2 := by
        intro x hx
        obtain ⟨c₀, hc₀, hx⟩ := List.mem_flatMap.mp hx
        rw [hzM]
        exact hM c₀ (by rw [hL']; exact List.mem_append_left _ hc₀) x hx
      obtain ⟨b, hb, hbz⟩ := foldl_keep_max (List.mem_flatMap.mpr ⟨c', hc', hz⟩) hmax
      exact hnew b hb (hbz.trans hzM)
  exact key L [] (List.append_nil L).symm

/-- **Blocks in other orders.**  The loop over the blocks remembers the same entry, if in the first block that
has an entry of greatest score only one entry has it. -/
theorem foldl_keep_flatMap_perm (hperm : ∀ c ∈ L, (g c).Perm (g' c))
    (huniq : ∀ before c after, L = before ++ c :: after → ∀ x ∈ g c, (∀ c' ∈ L, ∀ z ∈ g c', z.2 ≤ x.2) →
      (∀ c' ∈ before, ∀ z ∈ g c', z.2 ≠ x.2) → ∀ y ∈ g c, y.2 = x.2 → y = x) :
    (L.flatMap g).foldl keep none = (L.flatMap g').foldl keep none := by
  cases hr : (L.flatMap g).foldl keep none with
  | none =>
    have hnil := foldl_keep_eq_none.mp hr
    rw [eq_comm, foldl_keep_eq_none, List.flatMap_eq_nil_iff]
    intro c hc
    have h := hperm c hc
    rw [List.flatMap_eq_nil_iff.mp hnil c hc] at h
    exact List.nil_perm.mp h
  | some b =>
    have hmax : ∀ c ∈ L, ∀ z ∈ g c, z.2 ≤ b.2 := fun c hc z hz =>
      ((foldl_keep _).2 b hr).2 z (List.mem_flatMap.mpr ⟨c, hc, hz⟩)
    have h := agree_blocks hmax hperm fun before c after hL hnew x hx y hy hxM hyM =>
      (huniq before c after hL x hx (by rwa [hxM]) (by rwa [hxM]) y hy (hyM.trans hxM.symm)).symm
    rw [hr] at h
    generalize (L.flatMap g').foldl keep none = o' at h
    cases h with
    | some h => rw [h.2 rfl]

end Blocks

end Best

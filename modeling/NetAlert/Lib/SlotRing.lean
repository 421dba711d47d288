import Mathlib.Tactic
import Mathlib.Algebra.BigOperators.Intervals
import Mathlib.Data.List.DropRight

/-!
# NetAlert.Lib.SlotRing — a ring of lazily reset counters

`W` slots share the seconds modulo `W`.  A slot holds the second it counts (its stamp) and the
amount counted for it; an add for another second of the slot overwrites both.  `content W h t` is
what the history `h` of adds leaves for second `t`, and `sum_content_eq` says that for a history
without late adds the seconds of a window hold exactly the adds stamped inside it.  After any other
history they hold those of `kept W h` (`sum_content_kept`), and an add outside the window takes away
what one of them holds (`sum_read_add`).
-/

namespace SlotRing

variable {M : Type*} [AddCommMonoid M]

/-- One slot: the second it counts and the amount. -/
structure Slot (M : Type*) where
  stamp : ℕ
  val : M

/-- Slots by index; only indices below `W` are used. -/
abbrev Ring (M : Type*) := ℕ → Slot M

/-- All slots stamped `0`, with nothing counted. -/
def empty : Ring M := fun _ => ⟨0, 0⟩

/-- Count `v` for second `t`, resetting the slot first if it holds another second. -/
def add (W : ℕ) (r : Ring M) (t : ℕ) (v : M) : Ring M :=
  Function.update r (t % W) (if (r (t % W)).stamp = t then ⟨t, (r (t % W)).val + v⟩ else ⟨t, v⟩)

/-- What the ring holds for second `t`. -/
def read (W : ℕ) (r : Ring M) (t : ℕ) : M := if (r (t % W)).stamp = t then (r (t % W)).val else 0

@[simp] theorem read_empty (W t : ℕ) : read W (empty : Ring M) t = 0 := by
  unfold read empty
  split_ifs <;> rfl

/-- **One add.**  It is counted for its own second and empties the other seconds of its slot. -/
theorem read_add (W : ℕ) (r : Ring M) (s t : ℕ) (v : M) :
    read W (add W r s v) t =
      if s = t then read W r t + v else if s % W = t % W then 0 else read W r t := by
  by_cases hst : s = t
  · subst hst
    by_cases hs : (r (s % W)).stamp = s <;> simp [read, add, hs]
  · rw [if_neg hst]
    by_cases hm : s % W = t % W
    · rw [if_pos hm]
      by_cases hs : (r (t % W)).stamp = s <;> simp [read, add, hm, hs, hst]
    · rw [if_neg hm]
      simp [read, add, Function.update_of_ne (Ne.symm hm)]

/-- Count a history of adds, oldest first. -/
def addAll (W : ℕ) (r : Ring M) (h : List (ℕ × M)) : Ring M := h.foldl (fun r e => add W r e.1 e.2) r

/-- What the history leaves for second `t`: the amounts stamped `t` since the last add of another
second of the same slot. -/
def content (W : ℕ) (h : List (ℕ × M)) (t : ℕ) : M :=
  h.foldl (fun acc e => if e.1 = t then acc + e.2 else if e.1 % W = t % W then 0 else acc) 0

theorem content_concat (W : ℕ) (h : List (ℕ × M)) (e : ℕ × M) (t : ℕ) :
    content W (h ++ [e]) t =
      if e.1 = t then content W h t + e.2 else if e.1 % W = t % W then 0 else content W h t := by
  simp only [content, List.foldl_append, List.foldl_cons, List.foldl_nil]

/-- **A run of adds**: after any history, in any order, the ring reads as `content`. -/
theorem read_addAll (W : ℕ) (h : List (ℕ × M)) (t : ℕ) : read W (addAll W empty h) t = content W h t := by
  induction h using List.reverseRecOn with
  | nil => simp [addAll, content]
  | append_singleton h e ih =>
    rw [content_concat, ← ih]
    simp only [addAll, List.foldl_append, List.foldl_cons, List.foldl_nil]
    exact read_add W _ e.1 t e.2

/-! ## Histories without late adds -/

/-- Every add is stamped later than each earlier one minus `W`. -/
def Timely (W : ℕ) (h : List (ℕ × M)) : Prop := h.Pairwise (fun a b => a.1 < b.1 + W)

/-- The sum of the amounts stamped `t`. -/
def stamped (h : List (ℕ × M)) (t : ℕ) : M := ((h.filter (fun e => e.1 = t)).map Prod.snd).sum

theorem stamped_concat (h : List (ℕ × M)) (e : ℕ × M) (t : ℕ) :
    stamped (h ++ [e]) t = if e.1 = t then stamped h t + e.2 else stamped h t := by
  by_cases he : e.1 = t <;> simp [stamped, he]

theorem stamped_eq_zero {h : List (ℕ × M)} {t : ℕ} (hne : ∀ e ∈ h, e.1 ≠ t) : stamped h t = 0 := by
  have : h.filter (fun e => e.1 = t) = [] := by simpa [List.filter_eq_nil_iff] using hne
  rw [stamped, this]
  rfl

theorem lt_add_of_mod_eq {W s t : ℕ} (hm : s % W = t % W) (hst : s < t) : s + W ≤ t := by
  have hdvd : W ∣ t - s := (Nat.modEq_iff_dvd' hst.le).mp hm
  have := Nat.le_of_dvd (by omega) hdvd
  omega

/-- A timely history loses nothing of a second whose slot no stamp has passed. -/
theorem content_of_timely {W : ℕ} {h : List (ℕ × M)} (hT : Timely W h) {t : ℕ}
    (ht : ∀ e ∈ h, e.1 < t + W) : content W h t = stamped h t := by
  induction h using List.reverseRecOn with
  | nil => simp [content, stamped]
  | append_singleton h e ih =>
    obtain ⟨hT1, -, hT2⟩ := List.pairwise_append.mp hT
    rw [content_concat, stamped_concat, ih hT1 (fun e' he' => ht e' (by simp [he']))]
    by_cases he : e.1 = t
    · rw [if_pos he, if_pos he]
    · rw [if_neg he, if_neg he]
      split_ifs with hm
      · -- an add that recycles the slot of `t` is older than `t`, so nothing stamped `t` came before it
        have hlt : e.1 < t := by
          by_contra hge
          have := lt_add_of_mod_eq hm.symm (by omega)
          have := ht e (by simp)
          omega
        have hW := lt_add_of_mod_eq hm hlt
        refine (stamped_eq_zero fun e' he' h' => ?_).symm
        have := hT2 e' he' e (by simp)
        omega
      · rfl

/-- The sum of the amounts stamped in the window of `W` seconds that ends with `now`. -/
def inWindow (W : ℕ) (h : List (ℕ × M)) (now : ℕ) : M :=
  ((h.filter (fun e => now < e.1 + W ∧ e.1 ≤ now)).map Prod.snd).sum

/-- Each stamp of a full window is reached by exactly one offset from `now`. -/
theorem sum_stamped (W : ℕ) (h : List (ℕ × M)) {now : ℕ} (hW : W ≤ now + 1) :
    ∑ i ∈ Finset.range W, stamped h (now - i) = inWindow W h now := by
  induction h using List.reverseRecOn with
  | nil => simp [stamped, inWindow]
  | append_singleton h e ih =>
    have hone : ∑ i ∈ Finset.range W, (if e.1 = now - i then e.2 else 0) =
        if now < e.1 + W ∧ e.1 ≤ now then e.2 else 0 := by
      by_cases he : now < e.1 + W ∧ e.1 ≤ now
      · rw [if_pos he, Finset.sum_eq_single (now - e.1)]
        · rw [if_pos (by omega)]
        · intro i hi hne
          have := Finset.mem_range.mp hi
          rw [if_neg (by omega)]
        · intro hi
          exact absurd (Finset.mem_range.mpr (by omega)) hi
      · rw [if_neg he]
        refine Finset.sum_eq_zero fun i hi => ?_
        have := Finset.mem_range.mp hi
        rw [if_neg (by omega)]
    have hsplit : ∀ i, stamped (h ++ [e]) (now - i) =
        stamped h (now - i) + (if e.1 = now - i then e.2 else 0) := by
      intro i
      rw [stamped_concat]
      split_ifs <;> simp
    rw [Finset.sum_congr rfl (fun i _ => hsplit i), Finset.sum_add_distrib, ih, hone]
    by_cases he : now < e.1 + W ∧ e.1 ≤ now <;> simp [inWindow, he]

/-- **The window sum.**  After a timely history read no earlier than its last stamp, the seconds of
the window hold exactly the adds stamped inside the window. -/
theorem sum_content_eq {W : ℕ} {h : List (ℕ × M)} (hT : Timely W h) {now : ℕ} (hW : W ≤ now + 1)
    (hnow : ∀ e ∈ h, e.1 ≤ now) :
    ∑ i ∈ Finset.range W, content W h (now - i) = inWindow W h now := by
  rw [← sum_stamped W h hW]
  refine Finset.sum_congr rfl fun i hi => content_of_timely hT fun e he => ?_
  have := Finset.mem_range.mp hi
  have := hnow e he
  omega

/-! ## Histories in any order -/

variable {A B : Type*}

/-- The adds of second `t` that come after the last add of another second of its slot. -/
def since (W : ℕ) (h : List (ℕ × A)) (t : ℕ) : List (ℕ × A) :=
  (h.rtakeWhile fun e => e.1 = t ∨ e.1 % W ≠ t % W).filter fun e => e.1 = t

theorem since_concat (W : ℕ) (h : List (ℕ × A)) (e : ℕ × A) (t : ℕ) :
    since W (h ++ [e]) t =
      if e.1 = t then since W h t ++ [e] else if e.1 % W = t % W then [] else since W h t := by
  unfold since
  rw [List.rtakeWhile_concat]
  by_cases he : e.1 = t
  · simp [he]
  · by_cases hm : e.1 % W = t % W <;> simp [he, hm]

theorem since_map (W : ℕ) (f : A → B) (h : List (ℕ × A)) (t : ℕ) :
    since W (h.map fun e => (e.1, f e.2)) t = (since W h t).map fun e => (e.1, f e.2) := by
  induction h using List.reverseRecOn with
  | nil => rfl
  | append_singleton h e ih =>
    rw [List.map_append, List.map_singleton, since_concat, since_concat, ih]
    split_ifs <;> simp

/-- The adds that no later add of another second of their slot has discarded. -/
def kept (W : ℕ) : List (ℕ × A) → List (ℕ × A)
  | [] => []
  | e :: h => if ∃ e' ∈ h, e'.1 ≠ e.1 ∧ e'.1 % W = e.1 % W then kept W h else e :: kept W h

theorem kept_sublist (W : ℕ) (h : List (ℕ × A)) : (kept W h).Sublist h := by
  induction h with
  | nil => exact List.Sublist.slnil
  | cons e h ih =>
    rw [kept]
    split_ifs
    · exact ih.cons e
    · exact ih.cons_cons e

theorem kept_map (W : ℕ) (f : A → B) (h : List (ℕ × A)) :
    kept W (h.map fun e => (e.1, f e.2)) = (kept W h).map fun e => (e.1, f e.2) := by
  induction h with
  | nil => rfl
  | cons e h ih =>
    rw [List.map_cons, kept, kept, ih]
    simp only [List.mem_map, exists_exists_and_eq_and]
    split_ifs <;> rfl

theorem kept_concat (W : ℕ) (h : List (ℕ × A)) (e : ℕ × A) :
    kept W (h ++ [e]) = (kept W h).filter (fun e' => e'.1 = e.1 ∨ e'.1 % W ≠ e.1 % W) ++ [e] := by
  induction h with
  | nil => simp [kept]
  | cons a h ih =>
    rw [List.cons_append, kept, kept, ih]
    simp only [List.mem_append, List.mem_singleton, or_and_right, exists_or, exists_eq_left]
    by_cases ha : ∃ e' ∈ h, e'.1 ≠ a.1 ∧ e'.1 % W = a.1 % W
    · rw [if_pos (.inl ha), if_pos ha]
    · by_cases he : e.1 ≠ a.1 ∧ e.1 % W = a.1 % W
      · have hdrop : ¬ (a.1 = e.1 ∨ a.1 % W ≠ e.1 % W) := fun h' =>
          h'.elim (fun h1 => he.1 h1.symm) fun h1 => h1 he.2.symm
        rw [if_pos (.inr he), if_neg ha, List.filter_cons_of_neg (by simpa using hdrop)]
      · have hkeep : a.1 = e.1 ∨ a.1 % W ≠ e.1 % W := by
          by_cases h1 : a.1 = e.1
          · exact .inl h1
          · exact .inr fun h2 => he ⟨Ne.symm h1, h2.symm⟩
        rw [if_neg (not_or.mpr ⟨ha, he⟩), if_neg ha, List.filter_cons_of_pos (by simpa using hkeep),
          List.cons_append]

/-- Second by second, these are the adds since the last one of another second. -/
theorem since_eq (W : ℕ) (h : List (ℕ × A)) (t : ℕ) : since W h t = (kept W h).filter fun e => e.1 = t := by
  induction h using List.reverseRecOn with
  | nil => rfl
  | append_singleton h e ih =>
    rw [since_concat, kept_concat, List.filter_append, List.filter_filter, ih]
    by_cases he : e.1 = t
    · subst he
      simp only [if_pos, List.filter_singleton, decide_true, Bool.cond_true, List.append_cancel_right_eq]
      refine List.filter_congr fun e' _ => ?_
      by_cases h' : e'.1 = e.1 <;> simp [h']
    · rw [if_neg he, List.filter_singleton]
      simp only [he, decide_false, Bool.cond_false, List.append_nil]
      by_cases hm : e.1 % W = t % W
      · rw [if_pos hm, eq_comm, List.filter_eq_nil_iff]
        rintro e' -
        simp only [Bool.and_eq_true, decide_eq_true_eq, not_and, not_or, not_not]
        rintro rfl
        exact ⟨fun h1 => he h1.symm, hm.symm⟩
      · rw [if_neg hm]
        refine List.filter_congr fun e' _ => ?_
        by_cases h' : e'.1 = t
        · simp [h', Ne.symm hm]
        · simp [h']

/-- **The content of a second** is the sum of its adds since then. -/
theorem content_since (W : ℕ) (h : List (ℕ × M)) (t : ℕ) : content W h t = ((since W h t).map Prod.snd).sum := by
  induction h using List.reverseRecOn with
  | nil => rfl
  | append_singleton h e ih =>
    rw [content_concat, since_concat, ih]
    split_ifs <;> simp

/-- **The window sum**, whatever the history. -/
theorem sum_content_kept {W : ℕ} (h : List (ℕ × M)) {now : ℕ} (hW : W ≤ now + 1) :
    ∑ i ∈ Finset.range W, content W h (now - i) = inWindow W (kept W h) now := by
  rw [← sum_stamped W (kept W h) hW]
  refine Finset.sum_congr rfl fun i _ => ?_
  rw [content_since, since_eq]
  rfl

/-! ## An add outside the window -/

/-- Every slot has a second in a full window. -/
theorem exists_mod_eq {W now : ℕ} (hW : 0 < W) (hnow : W ≤ now + 1) (t : ℕ) :
    ∃ i < W, (now - i) % W = t % W := by
  have hlt := Nat.mod_lt t hW
  have hi := Nat.mod_lt (now + (W - t % W)) hW
  refine ⟨(now + (W - t % W)) % W, hi, ?_⟩
  have hdiv := Nat.div_add_mod (now + (W - t % W)) W
  have hshift : now - (now + (W - t % W)) % W + W = W * ((now + (W - t % W)) / W) + t % W := by omega
  rw [← Nat.add_mod_right, hshift, Nat.mul_add_mod, Nat.mod_mod]

/-- No slot has two. -/
theorem eq_of_mod_eq {W now i j : ℕ} (hnow : W ≤ now + 1) (hi : i < W) (hj : j < W)
    (h : (now - i) % W = (now - j) % W) : i = j := by
  by_contra hne
  rcases Nat.lt_or_gt_of_ne hne with hlt | hlt
  · have := lt_add_of_mod_eq h.symm (by omega)
    omega
  · have := lt_add_of_mod_eq h (by omega)
    omega

/-- **An add outside the window** takes away what the ring holds for the one second of the window in its slot,
and nothing else. -/
theorem sum_read_add {W : ℕ} (r : Ring M) {now t : ℕ} (hW : 0 < W) (hnow : W ≤ now + 1)
    (ht : ¬ (now < t + W ∧ t ≤ now)) (v : M) :
    ∃ s, (now < s + W ∧ s ≤ now ∧ s % W = t % W) ∧
      ∑ i ∈ Finset.range W, read W r (now - i) =
        ∑ i ∈ Finset.range W, read W (add W r t v) (now - i) + read W r s := by
  obtain ⟨i, hi, hmod⟩ := exists_mod_eq hW hnow t
  have hread : ∀ j ∈ Finset.range W, read W (add W r t v) (now - j) = if j = i then 0 else read W r (now - j) := by
    intro j hj
    have hj := Finset.mem_range.mp hj
    rw [read_add, if_neg (by omega)]
    refine if_congr ⟨fun h => ?_, fun h => ?_⟩ rfl rfl
    · exact eq_of_mod_eq hnow hj hi (h.symm.trans hmod.symm)
    · rw [h, hmod]
  refine ⟨now - i, ⟨by omega, Nat.sub_le _ _, hmod⟩, ?_⟩
  rw [Finset.sum_congr rfl hread, ← Finset.add_sum_erase _ _ (Finset.mem_range.mpr hi),
    ← Finset.add_sum_erase _ (fun j => if j = i then 0 else read W r (now - j)) (Finset.mem_range.mpr hi),
    if_pos rfl, zero_add, add_comm]
  congr 1
  refine Finset.sum_congr rfl fun j hj => ?_
  rw [if_neg (Finset.ne_of_mem_erase hj)]

end SlotRing

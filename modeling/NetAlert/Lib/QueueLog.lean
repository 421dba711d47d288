import NetAlert.Lib.Backlog

/-!
# NetAlert.Lib.QueueLog — which entries of a bounded queue are still there

A log says for every step which entry was pushed in it and which entries were taken out.  An entry that was
pushed and not taken out since is `Waiting`, unless it was `Displaced` by newer ones: the queue drops its
oldest entry for a new one, so an entry goes when another is pushed while `cap - 1` newer ones wait.
`Holds L cap n q`: after `n` steps of the log, `q` holds the entries that wait and have not been displaced, in
the order in which they were pushed.  Pushes and drains keep it (`Holds.push`, `Holds.drain`).
-/

namespace Backlog

variable {α : Type}

/-- What happened to a queue in every step. -/
structure Log (α : Type) where
  pushed : ℕ → Option α
  taken : ℕ → α → Bool

namespace Log

variable (L : Log α)

/-- The entry pushed in step `i`, unless it is taken out in a later one before step `n`. -/
def waiting (n i : ℕ) : Option α :=
  (L.pushed i).filter fun x => decide (∀ l ∈ Finset.Ioo i n, L.taken l x = false)

/-- How many entries pushed after step `i` wait before step `n`. -/
def newer (n i : ℕ) : ℕ := ((Finset.Ioo i n).filter fun m => (L.waiting n m).isSome).card

/-- Another entry was pushed while too many entries newer than that of step `i` waited. -/
def Displaced (cap n i : ℕ) : Prop := ∃ l ∈ Finset.Ioo i n, (L.pushed l).isSome = true ∧ cap ≤ L.newer l i + 1

instance (cap n : ℕ) : DecidablePred (L.Displaced cap n) := fun _ => inferInstanceAs (Decidable (∃ _ ∈ _, _))

/-- The entries of the queue after `n` steps, each with the step in which it was pushed. -/
structure Entries (cap n : ℕ) (es : List (ℕ × α)) : Prop where
  sorted : es.Pairwise fun e e' => e.1 < e'.1
  mem_iff : ∀ i x, (i, x) ∈ es ↔ i < n ∧ L.waiting n i = some x ∧ ¬ L.Displaced cap n i
  length_le : es.length ≤ max cap 1

/-- The queue after `n` steps. -/
def Holds (cap n : ℕ) (q : List α) : Prop := ∃ es, q = es.map Prod.snd ∧ L.Entries cap n es

variable {L} {cap n i m : ℕ} {x y : α} {q : List α} {es before after : List (ℕ × α)}

theorem waiting_eq_some : L.waiting n i = some x ↔
    L.pushed i = some x ∧ ∀ l, i < l → l < n → L.taken l x = false := by
  simp only [waiting, Option.filter_eq_some_iff, Finset.mem_Ioo, decide_eq_true_eq, and_imp]

/-! ## One step more -/

theorem waiting_succ (hi : i < n) : L.waiting (n + 1) i = some x ↔
    L.waiting n i = some x ∧ L.taken n x = false := by
  rw [waiting_eq_some, waiting_eq_some, and_assoc]
  refine and_congr_right fun _ => ⟨fun h => ⟨fun l hil hln => h l hil (by omega), h n hi (by omega)⟩, ?_⟩
  rintro ⟨h, hn⟩ l hil hln
  rcases Nat.lt_succ_iff_lt_or_eq.mp hln with hln | rfl
  · exact h l hil hln
  · exact hn

theorem waiting_last : L.waiting (n + 1) n = L.pushed n := by
  ext x
  rw [waiting_eq_some]
  exact ⟨fun h => h.1, fun h => ⟨h, fun l hl hl' => by omega⟩⟩

theorem displaced_succ (hi : i < n) : L.Displaced cap (n + 1) i ↔
    L.Displaced cap n i ∨ ((L.pushed n).isSome = true ∧ cap ≤ L.newer n i + 1) := by
  simp only [Displaced, Finset.mem_Ioo]
  constructor
  · rintro ⟨l, ⟨hil, hln⟩, hl⟩
    rcases Nat.lt_succ_iff_lt_or_eq.mp hln with hln | rfl
    · exact .inl ⟨l, ⟨hil, hln⟩, hl⟩
    · exact .inr hl
  · rintro (⟨l, ⟨hil, hln⟩, hl⟩ | hl)
    · exact ⟨l, ⟨hil, by omega⟩, hl⟩
    · exact ⟨n, ⟨hi, by omega⟩, hl⟩

theorem not_displaced_last : ¬ L.Displaced cap (n + 1) n := by
  rintro ⟨l, hl, -⟩
  rw [Finset.mem_Ioo] at hl
  omega

/-- An entry that is displaced goes after all older ones. -/
theorem Displaced.older (h : L.Displaced cap n m) (hi : i < m) : L.Displaced cap n i := by
  obtain ⟨l, hl, hpushed, hcap⟩ := h
  rw [Finset.mem_Ioo] at hl
  refine ⟨l, Finset.mem_Ioo.mpr ⟨by omega, hl.2⟩, hpushed, hcap.trans (Nat.succ_le_succ ?_)⟩
  exact Finset.card_le_card (Finset.filter_subset_filter _ (Finset.Ioo_subset_Ioo_left hi.le))

/-! ## Queues -/

/-- The entries behind one in the queue are those that came after it and wait. -/
theorem Entries.newer_eq (h : L.Entries cap n es) (hsplit : es = before ++ (i, x) :: after) :
    L.newer n i = after.length := by
  subst hsplit
  obtain ⟨-, hsorted, hbefore⟩ := List.pairwise_append.mp h.sorted
  obtain ⟨hafter, htail⟩ := List.pairwise_cons.mp hsorted
  have hnodup : (after.map Prod.fst).Nodup := by
    rw [List.Nodup, List.pairwise_map]
    exact htail.imp Nat.ne_of_lt
  have hset : ((Finset.Ioo i n).filter fun m => (L.waiting n m).isSome) = (after.map Prod.fst).toFinset := by
    ext m
    rw [Finset.mem_filter, Finset.mem_Ioo, List.mem_toFinset, List.mem_map]
    constructor
    · rintro ⟨⟨him, hmn⟩, hsome⟩
      obtain ⟨y, hy⟩ := Option.isSome_iff_exists.mp hsome
      have hi := ((h.mem_iff i x).mp (by simp)).2.2
      have hm : (m, y) ∈ before ++ (i, x) :: after :=
        (h.mem_iff m y).mpr ⟨hmn, hy, fun hd => hi (hd.older him)⟩
      rcases List.mem_append.mp hm with hm | hm
      · have hlt := hbefore _ hm (i, x) (by simp)
        simp only at hlt
        omega
      · rcases List.mem_cons.mp hm with heq | hm
        · cases heq
          omega
        · exact ⟨(m, y), hm, rfl⟩
    · rintro ⟨⟨m', y⟩, hm, rfl⟩
      obtain ⟨hmn, hy, -⟩ := (h.mem_iff m' y).mp (by simp [hm])
      exact ⟨⟨hafter _ hm, hmn⟩, by rw [hy]; rfl⟩
  rw [newer, hset, List.toFinset_card_of_nodup hnodup, List.length_map]

/-- The entry that goes for a new one is the one with enough newer ones. -/
theorem Entries.mem_room_iff (h : L.Entries cap n es) :
    (i, x) ∈ room cap es ↔ (i, x) ∈ es ∧ L.newer n i + 1 < cap := by
  have hlength := h.length_le
  unfold room
  split_ifs with hfull
  · constructor
    · intro hi
      obtain ⟨e, rest, rfl⟩ := List.exists_cons_of_ne_nil (List.ne_nil_of_mem (List.mem_of_mem_tail hi))
      obtain ⟨before, after, hsplit⟩ := List.append_of_mem (show (i, x) ∈ rest from hi)
      have hsplit' : e :: rest = (e :: before) ++ (i, x) :: after := by rw [hsplit, List.cons_append]
      have hnewer := h.newer_eq hsplit'
      rw [hsplit] at hlength
      simp only [List.length_cons, List.length_append] at hlength
      exact ⟨List.mem_of_mem_tail hi, by omega⟩
    · rintro ⟨hi, hlt⟩
      obtain ⟨before, after, hsplit⟩ := List.append_of_mem hi
      have hnewer := h.newer_eq hsplit
      rw [hsplit] at hfull ⊢
      cases before with
      | nil =>
        simp only [List.nil_append, List.length_cons] at hfull
        omega
      | cons e before => simp
  · refine ⟨fun hi => ⟨hi, ?_⟩, fun hi => hi.1⟩
    obtain ⟨before, after, hsplit⟩ := List.append_of_mem hi
    have hnewer := h.newer_eq hsplit
    rw [hsplit] at hfull
    simp only [List.length_cons, List.length_append] at hfull
    omega

/-- **A push.** -/
theorem Holds.push (h : L.Holds cap n q) (hx : L.pushed n = some x) (htaken : ∀ y, L.taken n y = false) :
    L.Holds cap (n + 1) (push cap q x) := by
  obtain ⟨es, rfl, h⟩ := h
  refine ⟨room cap es ++ [(n, x)], ?_, ?_, fun i y => ?_, length_push_le h.length_le _⟩
  · have hroom : room cap (es.map Prod.snd) = (room cap es).map Prod.snd := by
      unfold room
      rw [List.length_map]
      split_ifs
      · exact List.map_tail.symm
      · rfl
    rw [Backlog.push, List.map_append, hroom]
    rfl
  · refine List.pairwise_append.mpr ⟨h.sorted.sublist (room_sublist cap es), List.pairwise_singleton _ _, ?_⟩
    rintro ⟨i, y⟩ hi e he
    rw [List.mem_singleton.mp he]
    exact ((h.mem_iff i y).mp ((room_sublist cap es).subset hi)).1
  · rw [List.mem_append, List.mem_singleton, Prod.mk.injEq, h.mem_room_iff, h.mem_iff]
    rcases Nat.lt_trichotomy i n with hi | rfl | hi
    · rw [waiting_succ hi, displaced_succ hi, hx, htaken y]
      simp only [hi, hi.ne, Nat.lt_succ_of_lt hi, Option.isSome_some, true_and, and_true, false_and, or_false,
        not_or, not_le, and_assoc]
    · rw [waiting_last, hx]
      simp [not_displaced_last, eq_comm]
    · simp [Nat.not_lt_of_gt hi, hi.ne', Nat.not_lt_of_ge (Nat.succ_le_of_lt hi)]

/-- **A drain**, or a step without any. -/
theorem Holds.drain (h : L.Holds cap n q) (hx : L.pushed n = none) :
    L.Holds cap (n + 1) (q.filter fun x => !L.taken n x) := by
  obtain ⟨es, rfl, h⟩ := h
  refine ⟨es.filter fun e => !L.taken n e.2, ?_, h.sorted.sublist List.filter_sublist, fun i y => ?_,
    (List.length_filter_le _ _).trans h.length_le⟩
  · rw [List.filter_map]
    rfl
  · rw [List.mem_filter, h.mem_iff]
    rcases Nat.lt_trichotomy i n with hi | rfl | hi
    · rw [waiting_succ hi, displaced_succ hi, hx]
      simp only [hi, Nat.lt_succ_of_lt hi, true_and, Option.isSome_none, Bool.false_eq_true, false_and, or_false,
        Bool.not_eq_true']
      tauto
    · rw [waiting_last, hx]
      simp
    · simp [Nat.not_lt_of_gt hi, Nat.not_lt_of_ge (Nat.succ_le_of_lt hi)]

/-- **A fresh start**: all entries are taken out, and from then on the queue may have another capacity. -/
theorem Holds.clear (cap : ℕ) (hx : L.pushed n = none) (htaken : ∀ y, L.taken n y = true) :
    L.Holds cap (n + 1) [] := by
  refine ⟨[], rfl, List.Pairwise.nil, fun i y => ?_, Nat.zero_le _⟩
  rcases Nat.lt_trichotomy i n with hi | rfl | hi
  · simp [waiting_succ hi, htaken y]
  · simp [waiting_last, hx]
  · simp [Nat.not_lt_of_ge (Nat.succ_le_of_lt hi)]

theorem Holds.start (L : Log α) (cap : ℕ) : L.Holds cap 0 [] :=
  ⟨[], rfl, List.Pairwise.nil, fun i y => by simp, Nat.zero_le _⟩

/-- **The entries of the queue.** -/
theorem Holds.mem_iff (h : L.Holds cap n q) :
    x ∈ q ↔ ∃ i < n, L.waiting n i = some x ∧ ¬ L.Displaced cap n i := by
  obtain ⟨es, rfl, h⟩ := h
  rw [List.mem_map]
  constructor
  · rintro ⟨⟨i, y⟩, he, rfl⟩
    exact ⟨i, (h.mem_iff i y).mp he⟩
  · rintro ⟨i, hi⟩
    exact ⟨(i, x), (h.mem_iff i x).mpr hi, rfl⟩

end Log

end Backlog

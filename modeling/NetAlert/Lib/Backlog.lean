import Mathlib.Tactic

/-!
# NetAlert.Lib.Backlog — bounded queues that are drained by kind

A queue holds at most `max cap 1` entries; a full one drops its oldest entry for a new one (`push`).
Some entries are of the kind `p`, and a drain takes all entries of a kind.  `Ahead p q q'`: the two
queues had the same pushes, and `q` has in addition been drained of `p` at times.  `CaughtUp p q q'`:
both have been drained of `p` since.  Both relations outlive pushes and drains on both sides; then
the two hold the same entries of kind `p` (`CaughtUp.filter_eq`).
-/

namespace Backlog

variable {α : Type}

/-- Drop the oldest entry of a full queue. -/
def room (cap : ℕ) (q : List α) : List α := if q.length ≥ cap then q.tail else q

def push (cap : ℕ) (q : List α) (x : α) : List α := room cap q ++ [x]

theorem room_sublist (cap : ℕ) (q : List α) : (room cap q).Sublist q := by
  unfold room
  split_ifs
  · exact List.tail_sublist q
  · exact List.Sublist.refl q

theorem length_push_le {cap : ℕ} {q : List α} (h : q.length ≤ max cap 1) (x : α) :
    (push cap q x).length ≤ max cap 1 := by
  unfold push room
  rw [List.length_append, List.length_singleton]
  split_ifs
  · rw [List.length_tail]
    omega
  · omega

theorem push_sublist (cap : ℕ) (q : List α) (x : α) : (push cap q x).Sublist (q ++ [x]) :=
  (room_sublist cap q).append (List.Sublist.refl [x])

/-- A queue that holds no more than its capacity drops its oldest entry only if it is full. -/
theorem push_cases {cap : ℕ} {q : List α} (hcap : 1 ≤ cap) (h : q.length ≤ cap) (x : α) :
    push cap q x = q ++ [x] ∨
      (q.length = cap ∧ ∃ oldest rest, q = oldest :: rest ∧ push cap q x = rest ++ [x]) := by
  unfold push room
  split_ifs with hfull
  · obtain ⟨oldest, rest, rfl⟩ := List.exists_cons_of_length_pos (hcap.trans hfull)
    exact .inr ⟨le_antisymm h hfull, oldest, rest, rfl, rfl⟩
  · exact .inl rfl

/-! ## Two queues with the same pushes -/

/-- The first queue holds what the second does and older entries that are not of the kind. -/
def CaughtUp (p : α → Bool) (q q' : List α) : Prop := ∃ v, q = v ++ q' ∧ ∀ x ∈ v, p x = false

/-- The oldest entries `y` of the second queue are of any kind; the first has the others of them only,
perhaps with older ones. -/
def Ahead (p : α → Bool) (q q' : List α) : Prop :=
  ∃ v y r, q = v ++ r ∧ q' = y ++ r ∧ (∀ x ∈ v, p x = false) ∧ y.filter (fun x => !p x) <:+ v

variable {p : α → Bool} {q q' : List α}

theorem CaughtUp.refl (p : α → Bool) (q : List α) : CaughtUp p q q := ⟨[], rfl, by simp⟩

theorem CaughtUp.ahead (h : CaughtUp p q q') : Ahead p q q' := by
  obtain ⟨v, hq, hv⟩ := h
  exact ⟨v, [], q', hq, rfl, hv, List.nil_suffix⟩

theorem filter_eq_nil_of_false {v : List α} (hv : ∀ x ∈ v, p x = false) : v.filter p = [] :=
  List.filter_eq_nil_iff.mpr fun x hx => by simp [hv x hx]

theorem filter_not_eq_self {v : List α} (hv : ∀ x ∈ v, p x = false) : v.filter (fun x => !p x) = v :=
  List.filter_eq_self.mpr fun x hx => by simp [hv x hx]

/-- **Caught up**, the two queues hold the same entries of the kind. -/
theorem CaughtUp.filter_eq (h : CaughtUp p q q') : q.filter p = q'.filter p := by
  obtain ⟨v, rfl, hv⟩ := h
  rw [List.filter_append, filter_eq_nil_of_false hv, List.nil_append]

/-! ## Pushes -/

/-- A shorter suffix of a list is a suffix of its tail. -/
theorem suffix_tail {s l : List α} (h : s <:+ l) (hlt : s.length < l.length) : s <:+ l.tail := by
  cases l with
  | nil => simp at hlt
  | cons a l =>
    rcases List.suffix_cons_iff.mp h with rfl | h
    · simp at hlt
    · exact h

theorem tail_append_of_pos {v r : List α} (h : 0 < v.length) : (v ++ r).tail = v.tail ++ r :=
  List.tail_append_of_ne_nil (List.ne_nil_of_length_pos h)

/-- A queue without capacity has room for one entry, whatever it held. -/
theorem room_zero (h : q.length ≤ 1) : room 0 q = [] := by
  unfold room
  rw [if_pos (Nat.zero_le _)]
  exact List.length_eq_zero_iff.mp (by rw [List.length_tail]; omega)

/-- If the second queue is full, so is the first, and they are the same. -/
theorem CaughtUp.room {cap : ℕ} (h : CaughtUp p q q') (hq : q.length ≤ max cap 1) :
    CaughtUp p (room cap q) (room cap q') := by
  rcases Nat.eq_zero_or_pos cap with rfl | hcap
  · have hq' : q'.length ≤ q.length := by
      obtain ⟨v, rfl, -⟩ := h
      simp
    rw [room_zero (by omega), room_zero (by omega)]
    exact .refl p []
  obtain ⟨v, rfl, hv⟩ := h
  rw [List.length_append] at hq
  unfold Backlog.room
  rw [List.length_append]
  by_cases hfull' : q'.length ≥ cap
  · have hv0 : v = [] := List.length_eq_zero_iff.mp (by omega)
    subst hv0
    simpa using CaughtUp.refl p _
  · rw [if_neg hfull']
    split_ifs with hfull
    · rw [tail_append_of_pos (by omega)]
      exact ⟨v.tail, rfl, fun x hx => hv x (List.mem_of_mem_tail hx)⟩
    · exact ⟨v, rfl, hv⟩

theorem Ahead.room {cap : ℕ} (h : Ahead p q q') (hq : q.length ≤ max cap 1) (hq' : q'.length ≤ max cap 1) :
    Ahead p (room cap q) (room cap q') := by
  rcases Nat.eq_zero_or_pos cap with rfl | hcap
  · rw [room_zero (by omega), room_zero (by omega)]
    exact (CaughtUp.refl p []).ahead
  obtain ⟨v, y, r, rfl, rfl, hv, hy⟩ := h
  cases y with
  | nil => exact (CaughtUp.room ⟨v, rfl, hv⟩ hq).ahead
  | cons a t =>
    have hle : ((a :: t).filter fun x => !p x).length ≤ t.length + 1 := List.length_filter_le _ _
    have hv' : ∀ x ∈ v.tail, p x = false := fun x hx => hv x (List.mem_of_mem_tail hx)
    have ht : t.filter (fun x => !p x) <:+ v :=
      (List.IsSuffix.filter _ (List.suffix_cons a t)).trans hy
    have hle' : (t.filter fun x => !p x).length ≤ t.length := List.length_filter_le _ _
    simp only [List.length_append, List.length_cons] at hq hq'
    unfold Backlog.room
    simp only [List.length_append, List.length_cons, List.cons_append, List.tail_cons]
    by_cases hfull' : t.length + r.length + 1 ≥ cap
    · rw [if_pos hfull']
      split_ifs with hfull
      · -- the first queue drops an entry that the second never had or has dropped
        rw [tail_append_of_pos (by omega)]
        exact ⟨v.tail, t, r, rfl, rfl, hv', suffix_tail ht (by omega)⟩
      · exact ⟨v, t, r, rfl, rfl, hv, ht⟩
    · rw [if_neg hfull']
      split_ifs with hfull
      · rw [tail_append_of_pos (by omega)]
        exact ⟨v.tail, a :: t, r, rfl, rfl, hv', suffix_tail hy (by omega)⟩
      · exact ⟨v, a :: t, r, rfl, rfl, hv, hy⟩

/-- **A push** on both sides. -/
theorem CaughtUp.push {cap : ℕ} (h : CaughtUp p q q') (hq : q.length ≤ max cap 1) (x : α) :
    CaughtUp p (push cap q x) (push cap q' x) := by
  obtain ⟨v, hr, hv⟩ := h.room hq
  exact ⟨v, by rw [Backlog.push, Backlog.push, hr, List.append_assoc], hv⟩

theorem Ahead.push {cap : ℕ} (h : Ahead p q q') (hq : q.length ≤ max cap 1) (hq' : q'.length ≤ max cap 1)
    (x : α) : Ahead p (push cap q x) (push cap q' x) := by
  obtain ⟨v, y, r, hr, hr', hv, hy⟩ := h.room hq hq'
  refine ⟨v, y, r ++ [x], ?_, ?_, hv, hy⟩
  · rw [Backlog.push, hr, List.append_assoc]
  · rw [Backlog.push, hr', List.append_assoc]

/-! ## Drains -/

/-- **A drain** of the kind on both sides lets the second queue catch up. -/
theorem Ahead.drain (h : Ahead p q q') :
    CaughtUp p (q.filter fun x => !p x) (q'.filter fun x => !p x) := by
  obtain ⟨v, y, r, rfl, rfl, hv, s, hs⟩ := h
  refine ⟨s, ?_, fun x hx => hv x (by rw [← hs]; exact List.mem_append_left _ hx)⟩
  rw [List.filter_append, List.filter_append, filter_not_eq_self hv, ← hs, List.append_assoc]

/-- A drain of the kind on the first side only. -/
theorem Ahead.drain_left (h : Ahead p q q') : Ahead p (q.filter fun x => !p x) q' := by
  obtain ⟨v, y, r, rfl, rfl, hv, hy⟩ := h
  refine ⟨v ++ r.filter (fun x => !p x), y ++ r, [], ?_, by simp, ?_, ?_⟩
  · rw [List.filter_append, filter_not_eq_self hv, List.append_nil]
  · intro x hx
    rcases List.mem_append.mp hx with hx | hx
    · exact hv x hx
    · simpa using (List.mem_filter.mp hx).2
  · obtain ⟨s, hs⟩ := hy
    exact ⟨s, by rw [List.filter_append, ← List.append_assoc, hs]⟩

/-- A drain of the other kind on both sides. -/
theorem Ahead.keep (h : Ahead p q q') : Ahead p (q.filter p) (q'.filter p) := by
  obtain ⟨v, y, r, rfl, rfl, hv, -⟩ := h
  refine ⟨[], y.filter p, r.filter p, ?_, List.filter_append .., by simp, ?_⟩
  · rw [List.filter_append, filter_eq_nil_of_false hv]
  · rw [List.filter_filter]
    simp

theorem CaughtUp.keep (h : CaughtUp p q q') : CaughtUp p (q.filter p) (q'.filter p) := by
  rw [h.filter_eq]
  exact .refl p _

/-! ## Either relation -/

/-- A relation that outlives pushes and drains of the other kind. -/
structure Stable (C : (α → Bool) → List α → List α → Prop) : Prop where
  push : ∀ {p q q' cap}, C p q q' → q.length ≤ max cap 1 → q'.length ≤ max cap 1 → ∀ x,
    C p (push cap q x) (push cap q' x)
  keep : ∀ {p q q'}, C p q q' → C p (q.filter p) (q'.filter p)

theorem stable_ahead : Stable (Ahead (α := α)) := ⟨fun h hq hq' x => h.push hq hq' x, Ahead.keep⟩

theorem stable_caughtUp : Stable (CaughtUp (α := α)) := ⟨fun h hq _ x => h.push hq x, CaughtUp.keep⟩

end Backlog

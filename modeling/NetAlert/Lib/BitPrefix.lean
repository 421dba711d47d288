import Mathlib.Tactic

/-!
# NetAlert.Lib.BitPrefix — prefixes of `w`-bit addresses

A prefix is an address with a length `len ≤ w`.  The `w - len` low bits of the address are host
bits: containment does not look at them, `trunc` clears them.  Prefixes without host bits form a binary
tree: one that is inside another is inside one of its halves (`halves_spec`).
-/

/-- An address with the number of its leading bits that count. -/
structure BitPrefix (w : ℕ) where
  addr : BitVec w
  len : ℕ
  len_le : len ≤ w
  deriving DecidableEq

namespace BitPrefix

variable {w : ℕ}

/-- `a` agrees with the prefix on its leading `len` bits. -/
def contains (p : BitPrefix w) (a : BitVec w) : Bool := a >>> (w - p.len) == p.addr >>> (w - p.len)

/-- The prefix with its host bits cleared. -/
def trunc (p : BitPrefix w) : BitPrefix w :=
  ⟨(p.addr >>> (w - p.len)) <<< (w - p.len), p.len, p.len_le⟩

/-- The prefix of the single address `a`. -/
def host (a : BitVec w) : BitPrefix w := ⟨a, w, le_rfl⟩

/-- The two halves of a prefix that is not a single address, low half first. -/
def halves (p : BitPrefix w) (h : p.len < w) : List (BitPrefix w) :=
  [⟨p.trunc.addr, p.len + 1, h⟩, ⟨p.trunc.addr ||| (1#w <<< (w - p.len - 1)), p.len + 1, h⟩]

@[simp] theorem contains_host (a b : BitVec w) : (host a).contains b = decide (b = a) := by
  simp only [contains, host, Nat.sub_self, BitVec.ushiftRight_zero]
  rfl

@[simp] theorem contains_trunc (p : BitPrefix w) (a : BitVec w) : p.trunc.contains a = p.contains a := by
  have h : ((p.addr >>> (w - p.len)) <<< (w - p.len)) >>> (w - p.len) = p.addr >>> (w - p.len) := by
    ext i hi
    simp only [BitVec.getElem_ushiftRight, BitVec.getLsbD_shiftLeft, BitVec.getLsbD_ushiftRight]
    by_cases hlt : w - p.len + i < w
    · simp [hlt]
    · have hge : w ≤ w - p.len + i := Nat.le_of_not_lt hlt
      simp [BitVec.getLsbD_of_ge p.addr _ hge]
  simp only [contains, trunc, h]

/-! ## Bits -/

theorem contains_iff {p : BitPrefix w} {a : BitVec w} :
    p.contains a = true ↔ ∀ i, w - p.len ≤ i → a.getLsbD i = p.addr.getLsbD i := by
  rw [contains, beq_iff_eq, BitVec.eq_of_getLsbD_eq_iff]
  simp only [BitVec.getLsbD_ushiftRight]
  constructor
  · intro h i hi
    by_cases hw : i < w
    · have hbit := h (i - (w - p.len)) (by omega)
      rwa [Nat.add_sub_cancel' hi] at hbit
    · rw [BitVec.getLsbD_of_ge _ _ (Nat.le_of_not_lt hw), BitVec.getLsbD_of_ge _ _ (Nat.le_of_not_lt hw)]
  · intro h i _
    exact h _ (Nat.le_add_right _ _)

theorem getLsbD_trunc (p : BitPrefix w) (i : ℕ) :
    p.trunc.addr.getLsbD i = (decide (w - p.len ≤ i) && p.addr.getLsbD i) := by
  simp only [trunc, BitVec.getLsbD_shiftLeft, BitVec.getLsbD_ushiftRight]
  by_cases hi : w - p.len ≤ i
  · by_cases hw : i < w
    · simp [hi, hw, Nat.not_lt.mpr hi, Nat.add_sub_cancel' hi]
    · simp [hw, BitVec.getLsbD_of_ge p.addr i (Nat.le_of_not_lt hw)]
  · simp [hi, Nat.lt_of_not_le hi]

/-- A prefix without host bits. -/
def Aligned (p : BitPrefix w) : Prop := p.trunc = p

theorem ext_bits {p q : BitPrefix w} (hlen : p.len = q.len) (h : ∀ i, p.addr.getLsbD i = q.addr.getLsbD i) :
    p = q := by
  have haddr : p.addr = q.addr := BitVec.eq_of_getLsbD_eq fun i _ => h i
  cases p
  cases q
  simp only at hlen haddr
  subst hlen haddr
  rfl

theorem aligned_iff {p : BitPrefix w} : p.Aligned ↔ ∀ i, i < w - p.len → p.addr.getLsbD i = false := by
  constructor
  · intro h i hi
    rw [← h, getLsbD_trunc]
    simp [Nat.not_le.mpr hi]
  · intro h
    refine ext_bits rfl fun i => ?_
    rw [getLsbD_trunc]
    by_cases hi : w - p.len ≤ i
    · simp [hi]
    · simp [hi, h i (Nat.lt_of_not_le hi)]

/-- A longer prefix that starts like `p` holds no address outside it. -/
theorem contains_of_longer {p q : BitPrefix w} {a : BitVec w} (hlen : p.len ≤ q.len)
    (hq : p.contains q.addr = true) (ha : q.contains a = true) : p.contains a = true := by
  rw [contains_iff] at hq ha ⊢
  intro i hi
  rw [ha i (by omega), hq i hi]

/-- Of two aligned prefixes of one length, no address is in both. -/
theorem eq_of_contains {p q : BitPrefix w} (hp : p.Aligned) (hq : q.Aligned) (hlen : p.len = q.len)
    {a : BitVec w} (hpa : p.contains a = true) (hqa : q.contains a = true) : p = q := by
  rw [contains_iff] at hpa hqa
  rw [aligned_iff] at hp hq
  refine ext_bits hlen fun i => ?_
  by_cases hi : w - p.len ≤ i
  · rw [← hpa i hi, hqa i (hlen ▸ hi)]
  · rw [hp i (by omega), hq i (by omega)]

/-! ## Halves -/

section Halves

variable {p q : BitPrefix w} {h : p.len < w} {bit : Bool} {a : BitVec w}

/-- The lower half or the upper one. -/
def half (p : BitPrefix w) (h : p.len < w) (bit : Bool) : BitPrefix w :=
  ⟨if bit then p.trunc.addr ||| (1#w <<< (w - p.len - 1)) else p.trunc.addr, p.len + 1, h⟩

theorem halves_eq (p : BitPrefix w) (h : p.len < w) : p.halves h = [p.half h false, p.half h true] := rfl

/-- A half starts like the prefix and goes on with its bit. -/
theorem getLsbD_half (i : ℕ) : (p.half h bit).addr.getLsbD i =
    if i = w - p.len - 1 then bit else p.trunc.addr.getLsbD i := by
  have hbit : (1#w <<< (w - p.len - 1)).getLsbD i = decide (i = w - p.len - 1) := by
    rw [BitVec.getLsbD_shiftLeft, BitVec.getLsbD_one]
    by_cases hi : i = w - p.len - 1
    · subst hi
      simp
      omega
    · have : i < w - p.len - 1 ∨ i - (w - p.len - 1) ≠ 0 := by omega
      rcases this with hlt | hne <;> simp [*]
  have htrunc : p.trunc.addr.getLsbD (w - p.len - 1) = false := by
    rw [getLsbD_trunc]
    have : ¬ w - p.len ≤ w - p.len - 1 := by omega
    simp [this]
  cases bit
  · split_ifs with hi
    · rw [hi]
      exact htrunc
    · rfl
  · simp only [half, if_true, BitVec.getLsbD_or, hbit]
    split_ifs with hi <;> simp [hi]

theorem aligned_half : (p.half h bit).Aligned := by
  refine aligned_iff.mpr fun i hi => ?_
  have hlen : (p.half h bit).len = p.len + 1 := rfl
  rw [hlen] at hi
  rw [getLsbD_half, if_neg (by omega), getLsbD_trunc]
  simp only [Bool.and_eq_false_iff, decide_eq_false_iff_not]
  exact .inl (by omega)

/-- **A half** holds the addresses of the prefix with its bit. -/
theorem contains_half : (p.half h bit).contains a = true ↔
    p.contains a = true ∧ a.getLsbD (w - p.len - 1) = bit := by
  have hlen : (p.half h bit).len = p.len + 1 := rfl
  simp only [contains_iff, hlen, getLsbD_half, getLsbD_trunc]
  constructor
  · intro hall
    refine ⟨fun i hi => ?_, ?_⟩
    · rw [hall i (by omega), if_neg (by omega)]
      simp [hi]
    · rw [hall _ (by omega), if_pos rfl]
  · rintro ⟨hall, hbit⟩ i hi
    split_ifs with heq
    · rw [heq, hbit]
    · have hle : w - p.len ≤ i := by omega
      simp [hle, hall i hle]

/-- No address is in both halves. -/
theorem contains_upper (ha : (p.half h false).contains a = true) : (p.half h true).contains a = false := by
  rw [Bool.eq_false_iff]
  intro hupper
  have hbit := (contains_half.mp hupper).2
  rw [(contains_half.mp ha).2] at hbit
  cases hbit

/-- An aligned prefix inside another and longer. -/
structure StrictSub (q p : BitPrefix w) : Prop where
  aligned : q.Aligned
  longer : p.len < q.len
  inside : p.contains q.addr = true

theorem strictSub_half : (p.half h bit).StrictSub p := by
  refine ⟨aligned_half, Nat.lt_succ_self _, ?_⟩
  have hself : (p.half h bit).contains (p.half h bit).addr = true := contains_iff.mpr fun _ _ => rfl
  exact (contains_half.mp hself).1

/-- **A prefix inside another** is one of its halves or inside one. -/
theorem StrictSub.half (hq : q.StrictSub p) (h : p.len < w) :
    ∃ bit, q = p.half h bit ∨ q.StrictSub (p.half h bit) := by
  refine ⟨q.addr.getLsbD (w - p.len - 1), ?_⟩
  have hin : (p.half h (q.addr.getLsbD (w - p.len - 1))).contains q.addr = true :=
    contains_half.mpr ⟨hq.inside, rfl⟩
  rcases Nat.lt_or_ge (p.len + 1) q.len with hlt | hge
  · exact .inr ⟨hq.aligned, hlt, hin⟩
  · have hself : q.contains q.addr = true := contains_iff.mpr fun _ _ => rfl
    exact .inl (eq_of_contains hq.aligned aligned_half (le_antisymm hge hq.longer) hself hin)

/-- **The halves** are inside the prefix and disjoint, and whatever is inside it is inside one of them. -/
theorem halves_spec (p : BitPrefix w) (h : p.len < w) :
    (p.half h false).StrictSub p ∧ (p.half h true).StrictSub p ∧
      (∀ a, (p.half h false).contains a = true → (p.half h true).contains a = false) ∧
      ∀ q : BitPrefix w, q.StrictSub p → (q = p.half h false ∨ q.StrictSub (p.half h false)) ∨
        q = p.half h true ∨ q.StrictSub (p.half h true) := by
  refine ⟨strictSub_half, strictSub_half, fun a => contains_upper, fun q hq => ?_⟩
  obtain ⟨bit, hbit⟩ := hq.half h
  cases bit
  · exact .inl hbit
  · exact .inr hbit

end Halves

end BitPrefix

import Mathlib.Tactic

/-!
# NetAlert.Lib.FieldText — numbers between separators

A text is a first number followed by fields, each a separator and a number; every number has its own
base (at most 16, lower-case digits).  `read_write` says that such a text reads back.
-/

namespace FieldText

def isDigit (c : Char) : Bool := c.isDigit || ('a' ≤ c && c ≤ 'f')

def digitValue (c : Char) : ℕ := if c.isDigit then c.toNat - 48 else c.toNat - 87

def value (b : ℕ) (cs : List Char) : ℕ := cs.foldl (fun n c => b * n + digitValue c) 0

theorem digitValue_digitChar : ∀ d < 16, digitValue (Nat.digitChar d) = d := by decide

theorem isDigit_digitChar : ∀ d < 16, isDigit (Nat.digitChar d) = true := by decide

/-- The digits of a number are digits and have its value. -/
theorem toDigits_spec {b : ℕ} (hb : 1 < b) (hb' : b ≤ 16) (n : ℕ) :
    value b (Nat.toDigits b n) = n ∧ ∀ c ∈ Nat.toDigits b n, isDigit c = true := by
  induction n using Nat.strong_induction_on with
  | _ n ih =>
    by_cases h : n < b
    · rw [Nat.toDigits_of_lt_base h]
      exact ⟨by simp [value, digitValue_digitChar n (by omega)],
        by simpa using isDigit_digitChar n (by omega)⟩
    · obtain ⟨h1, h2⟩ := ih (n / b) (Nat.div_lt_self (by omega) hb)
      have hlt : n % b < b := Nat.mod_lt _ (by omega)
      rw [Nat.toDigits_of_base_le hb (by omega)]
      refine ⟨?_, ?_⟩
      · rw [value] at h1 ⊢
        rw [List.foldl_append, h1]
        simp [digitValue_digitChar (n % b) (by omega), Nat.div_add_mod]
      · intro c hc
        rcases List.mem_append.mp hc with hc | hc
        · exact h2 c hc
        · rw [List.mem_singleton.mp hc]
          exact isDigit_digitChar _ (by omega)

/-- A number in base `b` and its fields: separator, base and number. -/
def write : ℕ → ℕ → List (Char × ℕ × ℕ) → List Char
  | b, n, [] => Nat.toDigits b n
  | b, n, (sep, b', n') :: fs => Nat.toDigits b n ++ sep :: write b' n' fs

/-- Read a number in base `b` and the fields of the given separators and bases. -/
def read : ℕ → List (Char × ℕ) → List Char → Option (List ℕ)
  | b, [], cs => some [value b cs]
  | b, (sep, b') :: fs, cs =>
    match cs.dropWhile isDigit with
    | c :: rest =>
      if c = sep then (read b' fs rest).map (value b (cs.takeWhile isDigit) :: ·) else none
    | [] => none

theorem dropWhile_digits {b : ℕ} (hb : 1 < b) (hb' : b ≤ 16) (n : ℕ) {sep : Char}
    (hs : isDigit sep = false) (rest : List Char) :
    (Nat.toDigits b n ++ sep :: rest).dropWhile isDigit = sep :: rest ∧
      (Nat.toDigits b n ++ sep :: rest).takeWhile isDigit = Nat.toDigits b n := by
  have h := (toDigits_spec hb hb' n).2
  rw [List.dropWhile_append_of_pos h, List.takeWhile_append_of_pos h]
  simp [hs]

/-- **Round trip.** -/
theorem read_write {b : ℕ} (hb : 1 < b) (hb' : b ≤ 16) (n : ℕ) (fs : List (Char × ℕ × ℕ))
    (hfs : ∀ f ∈ fs, isDigit f.1 = false ∧ 1 < f.2.1 ∧ f.2.1 ≤ 16) :
    read b (fs.map fun f => (f.1, f.2.1)) (write b n fs) = some (n :: fs.map fun f => f.2.2) := by
  induction fs generalizing b n with
  | nil => simp [read, write, (toDigits_spec hb hb' n).1]
  | cons f fs ih =>
    obtain ⟨sep, b2, n2⟩ := f
    obtain ⟨hs, h2, h2'⟩ := hfs _ List.mem_cons_self
    obtain ⟨hd, ht⟩ := dropWhile_digits hb hb' n hs (write b2 n2 fs)
    have ih' := ih h2 h2' n2 (fun g hg => hfs g (List.mem_cons_of_mem _ hg))
    simp only [List.map_cons, read, write, hd, ht, if_true, ih', Option.map_some,
      (toDigits_spec hb hb' n).1]

/-- A text whose first separator is another one does not read. -/
theorem read_write_ne {b b' : ℕ} (hb : 1 < b) (hb' : b ≤ 16) (n : ℕ) {sep sep' : Char} (hne : sep ≠ sep')
    (hs : isDigit sep = false) (c : ℕ) (fs : List (Char × ℕ)) (f : ℕ × ℕ) (gs : List (Char × ℕ × ℕ)) :
    read b' ((sep', c) :: fs) (write b n ((sep, f) :: gs)) = none := by
  obtain ⟨hd, -⟩ := dropWhile_digits hb hb' n hs (write f.1 f.2 gs)
  simp only [read, write, hd, if_neg hne]

end FieldText

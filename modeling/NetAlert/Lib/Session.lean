import Mathlib.Tactic

/-!
# NetAlert.Lib.Session — traces made of sessions

A session starts, goes on any number of times and stops; every entry of it carries its id.  A
`History` is a list of sessions that have stopped and perhaps one that has not, and `trace` is what
it looks like from outside.
-/

namespace Session

variable {α ι : Type}

/-- Sessions by id and number of middle entries. -/
structure History (ι : Type) where
  closed : List (ι × ℕ)
  opened : Option (ι × ℕ)

namespace History

/-- The entries of a session that has not stopped. -/
def running (start mid : α) (s : ι × ℕ) : List (α × ι) := (start, s.1) :: List.replicate s.2 (mid, s.1)

def trace (start mid stop : α) (h : History ι) : List (α × ι) :=
  h.closed.flatMap (fun s => running start mid s ++ [(stop, s.1)]) ++ h.opened.toList.flatMap (running start mid)

def ids (h : History ι) : List ι := (h.closed ++ h.opened.toList).map Prod.fst

def empty : History ι := ⟨[], none⟩

variable {start mid stop : α} {closed : List (ι × ℕ)} {id : ι} {n : ℕ}

theorem trace_start : trace start mid stop ⟨closed, some (id, 0)⟩ =
    trace start mid stop ⟨closed, none⟩ ++ [(start, id)] := by
  simp [trace, running]

theorem trace_mid : trace start mid stop ⟨closed, some (id, n + 1)⟩ =
    trace start mid stop ⟨closed, some (id, n)⟩ ++ [(mid, id)] := by
  simp [trace, running, List.replicate_succ']

theorem trace_stop : trace start mid stop ⟨closed ++ [(id, n)], none⟩ =
    trace start mid stop ⟨closed, some (id, n)⟩ ++ [(stop, id)] := by
  simp [trace, running]

theorem ids_start : ids ⟨closed, some (id, 0)⟩ = ids ⟨closed, none⟩ ++ [id] := by
  simp [ids]

theorem ids_mid : ids ⟨closed, some (id, n + 1)⟩ = ids ⟨closed, some (id, n)⟩ := by
  simp [ids]

theorem ids_stop : ids ⟨closed ++ [(id, n)], none⟩ = ids ⟨closed, some (id, n)⟩ := by
  simp [ids]

end History

end Session

import Mathlib.Tactic
import Mathlib.Data.List.Infix

/-!
# NetAlert.Lib.Overflow — bounded queues that turn newcomers away

A queue with `cap` places gives an arrival a place or, when it is full, turns it away.  `Overflow` says what its
length and its losses are after some events, from what the events are alone: the losses are the additional places
it would have needed (`Overflow.isLeast`).  It is kept by an arrival that gets a place (`enter`), one that does not
(`turnAway`), a departure (`leave`) and any other event (`idle`).
-/

namespace Overflow

/-- What an event is to the queue. -/
inductive Op where
  | arrive
  | depart
  deriving DecidableEq

variable {ε : Type*} (op : ε → Option Op)

def arrivals (events : List ε) : ℕ := events.countP fun e => op e = some .arrive

def departures (events : List ε) : ℕ := events.countP fun e => op e = some .depart

/-- With `n` additional places a queue that starts with `waiting` entries has room for all. -/
def RoomFor (cap waiting : ℕ) (events : List ε) (n : ℕ) : Prop :=
  ∀ pre, pre <+: events → waiting + arrivals op pre ≤ departures op pre + cap + n

end Overflow

/-- The length and the losses of a queue that started with `waiting` entries. -/
structure Overflow {ε : Type*} (op : ε → Option Overflow.Op) (cap waiting : ℕ) (events : List ε)
    (length lost : ℕ) : Prop where
  balance : length + lost + Overflow.departures op events = waiting + Overflow.arrivals op events
  capacity : length ≤ cap
  room : Overflow.RoomFor op cap waiting events lost
  /-- At some time all of the additional places would have been taken. -/
  tight : lost = 0 ∨ ∃ pre, pre <+: events ∧
    waiting + Overflow.arrivals op pre = Overflow.departures op pre + cap + lost

namespace Overflow

variable {ε : Type*} {op : ε → Option Op} {cap waiting length lost : ℕ} {events : List ε} {e : ε}

/-! ## Counting -/

theorem counts_arrive (events : List ε) (he : op e = some .arrive) :
    arrivals op (events ++ [e]) = arrivals op events + 1 ∧
      departures op (events ++ [e]) = departures op events := by
  simp [arrivals, departures, List.countP_append, he]

theorem counts_depart (events : List ε) (he : op e = some .depart) :
    arrivals op (events ++ [e]) = arrivals op events ∧
      departures op (events ++ [e]) = departures op events + 1 := by
  simp [arrivals, departures, List.countP_append, he]

theorem counts_idle (events : List ε) (he : op e = none) :
    arrivals op (events ++ [e]) = arrivals op events ∧ departures op (events ++ [e]) = departures op events := by
  simp [arrivals, departures, List.countP_append, he]

theorem RoomFor.concat {n m : ℕ} (h : RoomFor op cap waiting events n) (hnm : n ≤ m)
    (hlast : waiting + arrivals op (events ++ [e]) ≤ departures op (events ++ [e]) + cap + m) :
    RoomFor op cap waiting (events ++ [e]) m := by
  intro pre hpre
  rcases List.prefix_concat_iff.mp hpre with rfl | hpre
  · exact hlast
  · exact (h pre hpre).trans (Nat.add_le_add_left hnm _)

/-- What has been tight stays so, if nothing more is lost. -/
theorem tight_concat (h : Overflow op cap waiting events length lost) (e : ε) :
    lost = 0 ∨ ∃ pre, pre <+: events ++ [e] ∧ waiting + arrivals op pre = departures op pre + cap + lost :=
  h.tight.imp_right fun ⟨pre, hpre, heq⟩ => ⟨pre, hpre.trans (List.prefix_append events [e]), heq⟩

/-! ## Events -/

theorem start (h : waiting ≤ cap) : Overflow op cap waiting ([] : List ε) waiting 0 where
  balance := rfl
  capacity := h
  room pre hpre := by
    obtain rfl := List.prefix_nil.mp hpre
    simpa [arrivals, departures] using h
  tight := .inl rfl

/-- **An arrival** that gets a place. -/
theorem enter (h : Overflow op cap waiting events length lost) (he : op e = some .arrive) (hroom : length < cap) :
    Overflow op cap waiting (events ++ [e]) (length + 1) lost := by
  obtain ⟨harrive, hdepart⟩ := counts_arrive events he
  have hbalance := h.balance
  exact ⟨by omega, hroom, h.room.concat le_rfl (by omega), h.tight_concat e⟩

/-- **An arrival** that finds the queue full: with the additional places taken as well, it would need one more. -/
theorem turnAway (h : Overflow op cap waiting events length lost) (he : op e = some .arrive)
    (hfull : cap ≤ length) : Overflow op cap waiting (events ++ [e]) length (lost + 1) := by
  obtain ⟨harrive, hdepart⟩ := counts_arrive events he
  have hbalance := h.balance
  have hcapacity := h.capacity
  have htight : waiting + arrivals op (events ++ [e]) = departures op (events ++ [e]) + cap + (lost + 1) := by
    omega
  exact ⟨by omega, hcapacity, h.room.concat (Nat.le_succ lost) htight.le,
    .inr ⟨events ++ [e], List.prefix_refl _, htight⟩⟩

/-- **A departure.** -/
theorem leave (h : Overflow op cap waiting events (length + 1) lost) (he : op e = some .depart) :
    Overflow op cap waiting (events ++ [e]) length lost := by
  obtain ⟨harrive, hdepart⟩ := counts_depart events he
  have hbalance := h.balance
  have hcapacity := h.capacity
  exact ⟨by omega, by omega, h.room.concat le_rfl (by omega), h.tight_concat e⟩

/-- **Any other event.** -/
theorem idle (h : Overflow op cap waiting events length lost) (he : op e = none) :
    Overflow op cap waiting (events ++ [e]) length lost := by
  obtain ⟨harrive, hdepart⟩ := counts_idle events he
  have hbalance := h.balance
  have hcapacity := h.capacity
  exact ⟨by omega, hcapacity, h.room.concat le_rfl (by omega), h.tight_concat e⟩

/-- **The losses** are the additional places that the queue would have needed. -/
theorem isLeast (h : Overflow op cap waiting events length lost) :
    IsLeast {n | RoomFor op cap waiting events n} lost := by
  refine ⟨h.room, fun n hn => ?_⟩
  rcases h.tight with rfl | ⟨pre, hpre, heq⟩
  · exact Nat.zero_le n
  · have hroom : waiting + arrivals op pre ≤ departures op pre + cap + n := hn pre hpre
    omega

end Overflow

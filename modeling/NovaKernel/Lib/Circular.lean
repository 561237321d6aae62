import Mathlib.Data.Nat.ModEq

set_option autoImplicit false

/-- A circular buffer of `cap` cells that keeps one cell empty. -/
structure Circular (α : Type) where
  cells : Nat → α
  head : Nat
  tail : Nat

namespace Circular

variable {α : Type} {cap : Nat} {r : Circular α} {xs : List α} {x : α}

def next (cap i : Nat) : Nat := (i + 1) % cap

def push (cap : Nat) (r : Circular α) (x : α) : Circular α :=
  if next cap r.head = r.tail then r
  else { r with cells := fun i => if i = r.head then x else r.cells i, head := next cap r.head }

/-- The ring holds `xs`, the oldest first. -/
structure Holds (cap : Nat) (r : Circular α) (xs : List α) : Prop where
  tail_lt : r.tail < cap
  room : xs.length < cap
  head_eq : r.head = (r.tail + xs.length) % cap
  cell : ∀ i (live : i < xs.length), r.cells ((r.tail + i) % cap) = xs[i]

theorem holds_nil {i : Nat} (inside : i < cap) (cells : Nat → α) : Holds cap ⟨cells, i, i⟩ [] where
  tail_lt := inside
  room := by simpa using Nat.zero_lt_of_lt inside
  head_eq := (Nat.mod_eq_of_lt inside).symm
  cell i live := absurd live (by simp)

-- Fewer than `cap` steps from one cell never lead to one cell twice.
theorem step_inj {start i j : Nat} (hi : i < cap) (hj : j < cap)
    (same : (start + i) % cap = (start + j) % cap) : i = j := by
  have low : Nat.ModEq cap i j := Nat.ModEq.add_left_cancel' start same
  rwa [Nat.ModEq, Nat.mod_eq_of_lt hi, Nat.mod_eq_of_lt hj] at low

theorem next_step (start i : Nat) : next cap ((start + i) % cap) = (start + (i + 1)) % cap := by
  simp [next, Nat.add_assoc]

namespace Holds

theorem head_lt (holds : Holds cap r xs) : r.head < cap := by
  rw [holds.head_eq]
  exact Nat.mod_lt _ (Nat.zero_lt_of_lt holds.tail_lt)

theorem tail_eq (holds : Holds cap r xs) : r.tail = (r.tail + 0) % cap :=
  (Nat.mod_eq_of_lt holds.tail_lt).symm

theorem empty_iff (holds : Holds cap r xs) : r.head = r.tail ↔ xs = [] := by
  constructor
  · intro same
    have positive := Nat.zero_lt_of_lt holds.tail_lt
    have zero := step_inj holds.room positive ((holds.head_eq.symm.trans same).trans holds.tail_eq)
    exact List.eq_nil_of_length_eq_zero zero
  · rintro rfl
    exact holds.head_eq.trans (Nat.mod_eq_of_lt holds.tail_lt)

theorem full_iff (holds : Holds cap r xs) : next cap r.head = r.tail ↔ xs.length + 1 = cap := by
  have room := holds.room
  rw [holds.head_eq, next_step]
  constructor
  · intro same
    by_cases full : xs.length + 1 < cap
    · have zero := step_inj full (Nat.zero_lt_of_lt full) (same.trans holds.tail_eq)
      omega
    · omega
  · intro full
    rw [full, Nat.add_mod_right]
    exact Nat.mod_eq_of_lt holds.tail_lt

theorem push_full (holds : Holds cap r xs) (full : xs.length + 1 = cap) : push cap r x = r :=
  if_pos (holds.full_iff.mpr full)

theorem push_room (holds : Holds cap r xs) (room : xs.length + 1 < cap) :
    Holds cap (push cap r x) (xs ++ [x]) := by
  have free : ¬ next cap r.head = r.tail := fun full => by
    have := holds.full_iff.mp full
    omega
  rw [push, if_neg free]
  refine ⟨holds.tail_lt, by simpa using room, ?_, fun i live => ?_⟩
  · rw [holds.head_eq, next_step]
    simp
  · rw [List.length_append, List.length_singleton] at live
    by_cases old : i < xs.length
    · have apart : (r.tail + i) % cap ≠ r.head := by
        intro same
        have := step_inj (by omega) holds.room (same.trans holds.head_eq)
        omega
      simp only [if_neg apart, List.getElem_append_left old]
      exact holds.cell i old
    · have last : i = xs.length := by omega
      subst last
      simp [← holds.head_eq]

theorem push (holds : Holds cap r xs) (x : α) :
    Holds cap (push cap r x) (if xs.length + 1 < cap then xs ++ [x] else xs) := by
  by_cases room : xs.length + 1 < cap
  · rw [if_pos room]
    exact holds.push_room room
  · have full : xs.length + 1 = cap := by
      have := holds.room
      omega
    rw [if_neg room, holds.push_full full]
    exact holds

theorem oldest (holds : Holds cap r (x :: xs)) : r.cells r.tail = x := by
  have first := holds.cell 0 (Nat.succ_pos _)
  rw [← holds.tail_eq] at first
  exact first

theorem pop (holds : Holds cap r (x :: xs)) : Holds cap { r with tail := next cap r.tail } xs := by
  have room := holds.room
  rw [List.length_cons] at room
  have advance (i : Nat) : (next cap r.tail + i) % cap = (r.tail + (i + 1)) % cap := by
    simp [next, Nat.add_assoc, Nat.add_comm 1 i]
  refine ⟨Nat.mod_lt _ (by omega), by omega, ?_, fun i live => ?_⟩
  · rw [advance]
    exact holds.head_eq
  · rw [advance]
    exact holds.cell (i + 1) (Nat.succ_lt_succ live)

end Holds

end Circular

import Mathlib.Data.List.Range
import Mathlib.Logic.Function.Basic

set_option autoImplicit false

namespace FirstFit

variable {used : Nat → Bool} {limit i : Nat}

@[irreducible] def firstFree (used : Nat → Bool) (limit : Nat) : Option Nat :=
  (List.range limit).find? fun i => !used i

theorem firstFree_eq_some_iff :
    firstFree used limit = some i ↔ i < limit ∧ used i = false ∧ ∀ j < i, used j = true := by
  simp only [firstFree, List.find?_range_eq_some, List.mem_range, Bool.not_eq_true', Bool.not_not]
  exact ⟨fun ⟨free, within, before⟩ => ⟨within, free, before⟩,
    fun ⟨within, free, before⟩ => ⟨free, within, before⟩⟩

theorem firstFree_eq_none_iff : firstFree used limit = none ↔ ∀ j < limit, used j = true := by
  simp [firstFree, List.find?_eq_none]

def freeCount (used : Nat → Bool) (limit : Nat) : Nat :=
  (List.range limit).countP fun i => !used i

theorem freeCount_pos_iff : 0 < freeCount used limit ↔ ∃ i < limit, used i = false := by
  simp [freeCount, List.countP_pos_iff]

theorem freeCount_mark (within : i < limit) (free : used i = false) :
    freeCount used limit = freeCount (Function.update used i true) limit + 1 := by
  induction limit with
  | zero => omega
  | succ limit ih =>
    simp only [freeCount, List.range_succ, List.countP_append, List.countP_singleton] at ih ⊢
    by_cases last : i = limit
    · subst last
      have same : (List.range i).countP (fun j => !Function.update used i true j) =
          (List.range i).countP fun j => !used j := by
        apply List.countP_congr
        intro j member
        have : j ≠ i := Nat.ne_of_lt (List.mem_range.mp member)
        simp [Function.update, this]
      simp [same, free]
    · have rest := ih (by omega)
      have kept : Function.update used i true limit = used limit :=
        Function.update_of_ne (Ne.symm last) _ _
      simp only [kept] at rest ⊢
      omega

end FirstFit

import Mathlib.Data.Finset.Card

set_option autoImplicit false

variable {Holder Resource : Type}

structure Custody (holds : Holder → Option Resource) (live : Finset Resource) : Prop where
  live_of_holds : ∀ p a, holds p = some a → a ∈ live
  unique : ∀ p q a, holds p = some a → holds q = some a → p = q
  covered : ∀ a ∈ live, ∃ p, holds p = some a

namespace Custody

variable {holds holds' : Holder → Option Resource} {live : Finset Resource}

theorem congr (custody : Custody holds live) (same : ∀ p, holds' p = holds p) :
    Custody holds' live := by
  obtain rfl : holds' = holds := funext same
  exact custody

section Change

variable [DecidableEq Resource]

theorem take (custody : Custody holds live) {p : Holder} {a : Resource} (free : holds p = none)
    (new : a ∉ live) (holder : holds' p = some a) (others : ∀ q, q ≠ p → holds' q = holds q) :
    Custody holds' (insert a live) := by
  constructor
  case live_of_holds =>
    intro q b held
    by_cases here : q = p
    · subst here
      obtain rfl := Option.some.inj (held.symm.trans holder)
      exact Finset.mem_insert_self _ _
    · rw [others q here] at held
      exact Finset.mem_insert_of_mem (custody.live_of_holds q b held)
  case unique =>
    intro q r b held held'
    by_cases here : q = p <;> by_cases there : r = p
    · rw [here, there]
    · rw [here, holder] at held
      rw [others r there, ← held] at held'
      exact absurd (custody.live_of_holds r a held') new
    · rw [there, holder] at held'
      rw [others q here, ← held'] at held
      exact absurd (custody.live_of_holds q a held) new
    · rw [others q here] at held
      rw [others r there] at held'
      exact custody.unique q r b held held'
  case covered =>
    intro b member
    rcases Finset.mem_insert.mp member with rfl | old
    · exact ⟨p, holder⟩
    · obtain ⟨q, held⟩ := custody.covered b old
      have other : q ≠ p := by
        rintro rfl
        exact absurd (held.symm.trans free) (by simp)
      exact ⟨q, (others q other).trans held⟩

theorem drop (custody : Custody holds live) {p : Holder} {a : Resource} (held : holds p = some a)
    (released : holds' p = none) (others : ∀ q, q ≠ p → holds' q = holds q) :
    Custody holds' (live.erase a) := by
  have kept : ∀ q b, holds' q = some b → q ≠ p ∧ holds q = some b := fun q b still => by
    have other : q ≠ p := by
      rintro rfl
      exact absurd (still.symm.trans released) (by simp)
    exact ⟨other, (others q other).symm.trans still⟩
  constructor
  case live_of_holds =>
    intro q b still
    obtain ⟨other, was⟩ := kept q b still
    refine Finset.mem_erase.mpr ⟨?_, custody.live_of_holds q b was⟩
    rintro rfl
    exact other (custody.unique q p b was held)
  case unique =>
    intro q r b still still'
    exact custody.unique q r b (kept q b still).2 (kept r b still').2
  case covered =>
    intro b member
    obtain ⟨other, old⟩ := Finset.mem_erase.mp member
    obtain ⟨q, was⟩ := custody.covered b old
    have notHere : q ≠ p := by
      rintro rfl
      exact other (Option.some.inj (was.symm.trans held))
    exact ⟨q, (others q notHere).trans was⟩

end Change

theorem move (custody : Custody holds live) {p q : Holder} {a : Resource} (held : holds p = some a)
    (free : holds q = none) (released : holds' p = none) (taken : holds' q = some a)
    (others : ∀ r, r ≠ p → r ≠ q → holds' r = holds r) : Custody holds' live := by
  have moved : ∀ r b, holds' r = some b → r = q ∧ b = a ∨ r ≠ p ∧ r ≠ q ∧ holds r = some b :=
    fun r b still => by
    by_cases here : r = q
    · subst here
      exact .inl ⟨rfl, Option.some.inj (still.symm.trans taken)⟩
    · have other : r ≠ p := by
        rintro rfl
        exact absurd (still.symm.trans released) (by simp)
      exact .inr ⟨other, here, (others r other here).symm.trans still⟩
  constructor
  case live_of_holds =>
    intro r b still
    rcases moved r b still with ⟨-, rfl⟩ | ⟨-, -, was⟩
    · exact custody.live_of_holds p b held
    · exact custody.live_of_holds r b was
  case unique =>
    intro r t b still still'
    rcases moved r b still with ⟨rfl, rfl⟩ | ⟨other, -, was⟩ <;>
      rcases moved t b still' with ⟨rfl, same⟩ | ⟨other', -, was'⟩
    · rfl
    · exact absurd (custody.unique t p b was' held) other'
    · rw [same] at was
      exact absurd (custody.unique r p a was held) other
    · exact custody.unique r t b was was'
  case covered =>
    intro b member
    obtain ⟨r, was⟩ := custody.covered b member
    by_cases here : r = p
    · subst here
      obtain rfl := Option.some.inj (was.symm.trans held)
      exact ⟨q, taken⟩
    · have other : r ≠ q := by
        rintro rfl
        exact absurd (was.symm.trans free) (by simp)
      exact ⟨r, (others r here other).trans was⟩

end Custody

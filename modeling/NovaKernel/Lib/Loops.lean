import Mathlib.Data.List.Nodup
import Mathlib.Logic.Function.Basic

set_option autoImplicit false

namespace Loops

variable {σ α : Type}

theorem foldlM_eq_some (inv : σ → Prop) (step : σ → α → Option σ) (value : σ → α → σ)
    (xs : List α) (s : σ) (initial : inv s)
    (succeeds : ∀ s, inv s → ∀ x ∈ xs, step s x = some (value s x) ∧ inv (value s x)) :
    xs.foldlM step s = some (xs.foldl value s) ∧ inv (xs.foldl value s) := by
  induction xs generalizing s with
  | nil => exact ⟨rfl, initial⟩
  | cons x rest ih =>
    obtain ⟨taken, kept⟩ := succeeds s initial x (by simp)
    have later := ih (value s x) kept fun s hs y member => succeeds s hs y (by simp [member])
    simpa only [List.foldlM_cons, taken, Option.bind_eq_bind, Option.bind_some,
      List.foldl_cons] using later

theorem foldlM_map (f : σ → σ) (step : σ → α → Option σ)
    (commutes : ∀ s x, step (f s) x = (step s x).map f) (xs : List α) (s : σ) :
    xs.foldlM step (f s) = (xs.foldlM step s).map f := by
  induction xs generalizing s with
  | nil => rfl
  | cons x rest ih =>
    rw [List.foldlM_cons, List.foldlM_cons, commutes]
    cases step s x with
    | none => rfl
    | some t => exact ih t

theorem countP_change (p q : α → Bool) (xs : List α) (nodup : xs.Nodup) (a : α) (member : a ∈ xs)
    (agree : ∀ x ∈ xs, x ≠ a → p x = q x) :
    xs.countP p + (q a).toNat = xs.countP q + (p a).toNat := by
  induction xs with
  | nil => simp at member
  | cons x rest ih =>
    obtain ⟨fresh, restNodup⟩ := List.nodup_cons.mp nodup
    rcases List.mem_cons.mp member with rfl | later
    · have same : rest.countP p = rest.countP q :=
        List.countP_congr fun y hy => by
          have other : y ≠ a := fun h => fresh (h ▸ hy)
          rw [agree y (by simp [hy]) other]
      rw [List.countP_cons, List.countP_cons, same]
      cases p a <;> cases q a <;> simp
    · have other : x ≠ a := fun h => fresh (h ▸ later)
      have rest' := ih restNodup later fun y hy => agree y (by simp [hy])
      have head := agree x (by simp) other
      rw [List.countP_cons, List.countP_cons, head]
      omega

end Loops

import Mathlib.Init

set_option autoImplicit false

namespace Commands

abbrev Command (σ α : Type) := StateT σ Option α

variable {σ α β : Type}

def Command.call (f : σ → α × σ) : Command σ α := fun s => some (f s)

def forever (body : Command σ Bool) : Nat → Command σ Unit
  | 0 => fun _ => none
  | n + 1 => do if ← body then forever body n

/-- The command ends, and what it returns and leaves satisfies `post`. -/
def Ends (c : Command σ α) (s : σ) (post : α → σ → Prop) : Prop :=
  ∃ a t, c s = some (a, t) ∧ post a t

variable {c : Command σ α} {s : σ} {post : α → σ → Prop}

theorem Ends.pure {a : α} (holds : post a s) : Ends (Pure.pure a) s post := ⟨a, s, rfl, holds⟩

theorem Ends.call {f : σ → α × σ} (holds : post (f s).1 (f s).2) : Ends (Command.call f) s post :=
  ⟨(f s).1, (f s).2, rfl, holds⟩

theorem Ends.mono {post' : α → σ → Prop} (ends : Ends c s post)
    (weaker : ∀ a t, post a t → post' a t) :
    Ends c s post' := by
  obtain ⟨a, t, run, holds⟩ := ends
  exact ⟨a, t, run, weaker a t holds⟩

theorem Ends.bind {mid : α → σ → Prop} {next : α → Command σ β} {post : β → σ → Prop}
    (first : Ends c s mid) (rest : ∀ a t, mid a t → Ends (next a) t post) :
    Ends (c >>= next) s post := by
  obtain ⟨a, t, run, holds⟩ := first
  obtain ⟨b, u, run', holds'⟩ := rest a t holds
  refine ⟨b, u, ?_, holds'⟩
  have sequence : (c >>= next) s = (c s).bind fun r => next r.1 r.2 := rfl
  rw [sequence, run, Option.bind_some, run']

theorem Ends.call_bind {f : σ → α × σ} {next : α → Command σ β} {post : β → σ → Prop} {a : α}
    {t : σ} (run : f s = (a, t)) (rest : Ends (next a) t post) :
    Ends (Command.call f >>= next) s post := by
  have called : Ends (Command.call f) s fun b u => b = a ∧ u = t := by
    refine Ends.call ?_
    rw [run]
    exact ⟨rfl, rfl⟩
  refine called.bind ?_
  rintro _ _ ⟨rfl, rfl⟩
  exact rest

theorem Ends.forever {body : Command σ Bool} (inv : Nat → σ → Prop) {post : Unit → σ → Prop}
    (round : ∀ k s, inv k s → Ends body s fun more t => if more then ∃ j < k, inv j t else post () t)
    {n k : Nat} (enough : k < n) (start : inv k s) : Ends (forever body n) s post := by
  induction n generalizing k s with
  | zero => exact absurd enough (Nat.not_lt_zero k)
  | succ n ih =>
    refine (round k s start).bind fun more t after => ?_
    cases more with
    | true =>
      obtain ⟨j, smaller, again⟩ := after
      exact ih (by omega) again
    | false => exact Ends.pure after

end Commands

import Mathlib.Init

set_option autoImplicit false

namespace Failstop

/-- Where a system has stopped for good, and what it keeps from then on. -/
structure Halt (σ δ : Type) where
  stopped : σ → Prop
  kept : σ → δ

variable {σ δ α β : Type} {halt : Halt σ δ}

/-- What a call of a system that may stop makes of a state, next to what it makes of it in one that
does not. -/
structure Tracks (halt : Halt σ δ) (s : σ) (r r' : α × σ) : Prop where
  idle : halt.stopped s → halt.stopped r.2 ∧ halt.kept r.2 = halt.kept s
  agrees : r = r' ∨ halt.stopped r.2

def Follows (halt : Halt σ δ) (f f' : σ → α × σ) : Prop := ∀ s, Tracks halt s (f s) (f' s)

theorem Tracks.through {s : σ} {r r' : α × σ} {g h : α × σ → β × σ} (first : Tracks halt s r r')
    (rest : ∀ a, Follows halt (fun t => g (a, t)) fun t => h (a, t)) :
    Tracks halt s (g r) (h r') := by
  obtain ⟨a, t⟩ := r
  constructor
  · intro stopped
    obtain ⟨stopped₁, kept₁⟩ := first.idle stopped
    obtain ⟨stopped₂, kept₂⟩ := (rest a t).idle stopped₁
    exact ⟨stopped₂, kept₂.trans kept₁⟩
  · rcases first.agrees with same | stopped
    · rw [← same]
      exact (rest a t).agrees
    · exact .inr ((rest a t).idle stopped).1

namespace Follows

variable {f f' : σ → α × σ}

theorem result (value : σ → α) : Follows halt (fun s => (value s, s)) fun s => (value s, s) :=
  fun _ => ⟨fun stopped => ⟨stopped, rfl⟩, .inl rfl⟩

theorem bind {g g' : α → σ → β × σ} (first : Follows halt f f')
    (rest : ∀ a, Follows halt (g a) (g' a)) :
    Follows halt (fun s => g (f s).1 (f s).2) fun s => g' (f' s).1 (f' s).2 := by
  intro s
  exact Tracks.through (g := fun r => g r.1 r.2) (h := fun r => g' r.1 r.2) (first s) rest

theorem ite {g g' : σ → α × σ} (c : Prop) [Decidable c] (holds : Follows halt f f')
    (fails : Follows halt g g') :
    Follows halt (fun s => if c then f s else g s) fun s => if c then f' s else g' s := by
  by_cases h : c
  · simpa only [if_pos h] using holds
  · simpa only [if_neg h] using fails

end Follows

end Failstop

import Mathlib.Init

set_option autoImplicit false

namespace Transition

variable {State Event Abstract : Type}

inductive Run (step : State → Event → State → Prop) (s : State) : List Event → State → Prop
  | nil : Run step s [] s
  | snoc {events : List Event} {t u : State} {event : Event} :
      Run step s events t → step t event u → Run step s (events ++ [event]) u

variable {step : State → Event → State → Prop} {s t u : State} {events : List Event}

theorem Run.single {event : Event} (taken : step s event t) : Run step s [event] t :=
  show Run step s ([] ++ [event]) t from .snoc .nil taken

theorem Run.append {later : List Event} (first : Run step s events t)
    (second : Run step t later u) :
    Run step s (events ++ later) u := by
  induction second with
  | nil => simpa using first
  | snoc _ taken ih => simpa [← List.append_assoc] using Run.snoc ih taken

theorem Run.cons {event : Event} (taken : step s event t) (later : Run step t events u) :
    Run step s (event :: events) u :=
  (Run.single taken).append later

theorem Run.last {event : Event} (run : Run step s (events ++ [event]) u) :
    ∃ t, Run step s events t ∧ step t event u := by
  generalize whole : events ++ [event] = trace at run
  cases run with
  | nil => simp at whole
  | snoc earlier taken =>
    obtain ⟨rfl, same⟩ := List.append_inj' whole rfl
    obtain rfl := List.singleton_inj.mp same
    exact ⟨_, earlier, taken⟩

theorem Run.invariant (inv : State → Prop)
    (preserved : ∀ t event u, inv t → step t event u → inv u)
    (run : Run step s events t) (initial : inv s) : inv t := by
  induction run with
  | nil => exact initial
  | snoc _ taken ih => exact preserved _ _ _ ih taken

theorem Run.mono {weaker : State → Event → State → Prop}
    (weaken : ∀ t event u, step t event u → weaker t event u)
    (run : Run step s events t) : Run weaker s events t := by
  induction run with
  | nil => exact .nil
  | snoc _ taken ih => exact .snoc ih (weaken _ _ _ taken)

-- Forward simulation with the same labels: the abstract run replays every event.
theorem Run.simulates {abstractStep : Abstract → Event → Abstract → Prop}
    (relation : State → Abstract → Prop)
    (simulated : ∀ t event u a, relation t a → step t event u →
      ∃ b, abstractStep a event b ∧ relation u b)
    (run : Run step s events t) {a : Abstract} (initial : relation s a) :
    ∃ b, Run abstractStep a events b ∧ relation t b := by
  induction run with
  | nil => exact ⟨a, .nil, initial⟩
  | snoc _ taken ih =>
    obtain ⟨b, abstractRun, related⟩ := ih
    obtain ⟨c, abstractTaken, related'⟩ := simulated _ _ _ _ related taken
    exact ⟨c, abstractRun.snoc abstractTaken, related'⟩

def Guarded (condition : State → Event → Prop) (step : State → Event → State → Prop) :
    State → Event → State → Prop :=
  fun t event u => condition t event ∧ step t event u

theorem guarded_iff {condition : State → Event → Prop} {fact : State → Prop} (inv : State → Prop)
    (preserved : ∀ t event u, inv t → step t event u → inv u)
    (kept : ∀ t event u, inv t → fact t → condition t event → step t event u → fact u)
    (needed : ∀ t event u, inv t → step t event u → fact u → condition t event)
    (initial : inv s) (holds : fact s) :
    Run (Guarded condition step) s events t ↔
      Run (fun t event u => step t event u ∧ fact u) s events t := by
  constructor
  · intro run
    have both : Run (fun t event u => step t event u ∧ fact u) s events t ∧ inv t ∧ fact t := by
      induction run with
      | nil => exact ⟨.nil, initial, holds⟩
      | snoc _ taken ih =>
        obtain ⟨earlier, invariant, before⟩ := ih
        have after := kept _ _ _ invariant before taken.1 taken.2
        exact ⟨earlier.snoc ⟨taken.2, after⟩, preserved _ _ _ invariant taken.2, after⟩
    exact both.1
  · intro run
    have both : Run (Guarded condition step) s events t ∧ inv t := by
      induction run with
      | nil => exact ⟨.nil, initial⟩
      | snoc _ taken ih =>
        obtain ⟨earlier, invariant⟩ := ih
        exact ⟨earlier.snoc ⟨needed _ _ _ invariant taken.1 taken.2, taken.1⟩,
          preserved _ _ _ invariant taken.1⟩
    exact both.1

theorem Run.guarded_last {condition : State → Event → Prop} {fact : State → Prop}
    (inv : State → Prop) (preserved : ∀ t event u, inv t → step t event u → inv u)
    (kept : ∀ t event u, inv t → fact t → condition t event → step t event u → fact u)
    (run : Run (Guarded condition step) s events t) (initial : inv s) (holds : fact s) :
    inv t ∧ fact t :=
  run.invariant (fun t => inv t ∧ fact t)
    (fun _ _ _ both taken => ⟨preserved _ _ _ both.1 taken.2, kept _ _ _ both.1 both.2 taken.1 taken.2⟩)
    ⟨initial, holds⟩

/-- The fact holds of every event and of the state it finds. -/
def Along (next : State → Event → State) (fact : State → Event → Prop) : State → List Event → Prop
  | _, [] => True
  | s, event :: events => fact s event ∧ Along next fact (next s event) events

-- Two facts agree along a run if they agree wherever the one of them has held so far.
theorem along_iff {next : State → Event → State} {fact fact' : State → Event → Prop}
    (inv : State → Prop) (agree : ∀ s event, inv s → (fact s event ↔ fact' s event))
    (kept : ∀ s event, inv s → fact s event → inv (next s event)) (holds : inv s) :
    Along next fact s events ↔ Along next fact' s events := by
  induction events generalizing s with
  | nil => exact Iff.rfl
  | cons event events ih =>
    rw [Along, Along, ← agree s event holds]
    exact and_congr_right fun here => ih (kept s event holds here)

end Transition

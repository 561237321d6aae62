import NovaKernel.SchedTable

set_option autoImplicit false

namespace NovaKernel

open RoundRobin Transition

def KernelEvent.dispatched : KernelEvent → Option Nat
  | .interrupt _ _ (.switched next) => some next
  | .interrupt _ _ (.died next) => some next
  | _ => none

theorem endingOf_dispatched (regs : Regs) (cr2 : Nat) (k k' : Kernel) :
    (KernelEvent.interrupt regs cr2 (endingOf k k')).dispatched = some k'.current := by
  unfold endingOf
  split <;> rfl

theorem dispatched_other {event : KernelEvent}
    (other : ∀ regs cr2 ending, event ≠ .interrupt regs cr2 ending) :
    event.dispatched = none := by
  cases event with
  | interrupt regs cr2 ending => exact absurd rfl (other regs cr2 ending)
  | userStore => rfl
  | cacheFill => rfl
  | threadStore => rfl
  | shell => rfl
  | spawn => rfl

namespace Kernel

variable {acc : Access} {k k' : Kernel} {a : Arrival}

theorem Served.current (served : k.Served acc a k') : k'.current = k.current := by
  cases served with
  | ignored => rfl
  | kept => exact taken_current
  | charged => exact taken_current
  | pid => exact taken_current
  | slept => exact taken_current
  | called _ call =>
    obtain ⟨m, value, -, rfl⟩ := call
    exact taken_current
  | resolved => rfl
  | forked _ _ _ exit => exact exit.current.trans taken_current

theorem Dispatches.follows (dispatches : k.Dispatches acc a k') :
    ∃ ready, Follows ready k.current k'.current ∧ ∀ u, u ≠ k.current →
      ready u = k.readySlots u := by
  cases dispatches with
  | expired _ _ follows => exact ⟨_, follows, fun _ _ => rfl⟩
  | exits _ _ departs =>
    refine ⟨fun i => ((k.taken a).deadTasks i).ready, ?_, fun u other => ?_⟩
    · simpa [exited] using departs.follows
    simp [deadTasks, Function.update_of_ne other, readySlots]
  | killed _ _ _ departs =>
    refine ⟨_, departs.follows, fun u other => ?_⟩
    have other' : u ≠ (k.entered a).current := other
    simp only [deadTasks, Function.update_of_ne other']
    rfl

end Kernel

theorem current_step {acc : Access} {s t : System} {event : KernelEvent} (table : Table s.kernel)
    (step : KernelStep acc s event t) :
    event.dispatched = none ∧ t.kernel.current = s.kernel.current ∨
      event.dispatched = some t.kernel.current ∧
        ∃ ready, Follows ready s.kernel.current t.kernel.current ∧
        ∀ u, u ≠ s.kernel.current → ready u = s.kernel.readySlots u := by
  cases scheduler_step table step with
  | returned _ served => exact .inl ⟨rfl, served.current⟩
  | dispatched _ dispatches => exact .inr ⟨endingOf_dispatched _ _ _ _, dispatches.follows⟩
  | created _ _ exit => exact .inl ⟨rfl, exit.current⟩
  | other same _ _ event =>
    refine .inl ⟨dispatched_other event, ?_⟩
    rw [same]

end NovaKernel

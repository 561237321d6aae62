import NovaKernel.SpaceSwitches

set_option autoImplicit false

namespace NovaKernel

variable {acc : Access} {s t : System} {event : KernelEvent} (table : Table s.kernel)
    (step : KernelStep acc s event t)
include table step

theorem ready_stays {i : Nat} (ready : (s.kernel.tasks i).ready = true) :
    (t.kernel.tasks i).ready = true ∨
    i = s.kernel.current ∧ ∃ regs cr2 next, event = .interrupt regs cr2 (.died next) := by
  cases undispatched : event.dispatched with
  | none => exact .inl (ready_kept table step undispatched ready)
  | some next =>
    have running := (table_step table step).running
    cases scheduler_step table step with
    | returned => cases undispatched
    | @dispatched a k _ dispatches =>
      by_cases still : (k.tasks i).ready = true
      · exact .inl still
      · have other : i ≠ k.current := fun here => still (here ▸ running)
        have here : i = s.kernel.current := by
          by_contra away
          rw [dispatches.task_kept away other] at still
          exact still ready
        subst here
        exact .inr ⟨rfl, a.regs, a.cr2, k.current, by rw [endingOf, if_neg still]⟩
    | created => cases undispatched
    | other _ _ _ elsewhere =>
      rw [dispatched_other elsewhere] at undispatched
      cases undispatched

theorem ready_before {next : Nat} (dispatched : event.dispatched = some next) {i : Nat}
    (ready : (t.kernel.tasks i).ready = true) : (s.kernel.tasks i).ready = true := by
  cases scheduler_step table step with
  | returned => cases dispatched
  | @dispatched a k _ dispatches =>
    by_cases here : i = s.kernel.current
    · rw [here]
      exact table.running
    by_cases there : i = k.current
    · subst there
      obtain ⟨slots, follows, same⟩ := dispatches.follows
      exact (same k.current here).symm.trans follows.1
    · rw [← dispatches.task_kept here there]
      exact ready
  | created => cases dispatched
  | other _ _ _ elsewhere =>
    rw [dispatched_other elsewhere] at dispatched
    cases dispatched

theorem allocated_kept {next : Nat} (dispatched : event.dispatched = some next) :
    t.kernel.heap.allocated = s.kernel.heap.allocated ∧ t.buffers = s.buffers := by
  cases scheduler_step table step with
  | returned => cases dispatched
  | @dispatched a k _ dispatches =>
    have taken : (s.kernel.taken a).heap.allocated = s.kernel.heap.allocated :=
      (congrArg Heap.allocated (Kernel.taken_heap (k := s.kernel) (a := a))).trans rfl
    refine ⟨?_, rfl⟩
    cases dispatches with
    | expired => exact taken
    | exits => exact taken
    | killed => rfl
  | created => cases dispatched
  | other _ _ _ elsewhere =>
    rw [dispatched_other elsewhere] at dispatched
    cases dispatched

theorem died_dead {regs : Regs} {cr2 next : Nat} (died : event = .interrupt regs cr2 (.died next)) :
    (t.kernel.tasks s.kernel.current).ready = false := by
  cases scheduler_step table step with
  | returned => cases died
  | @dispatched a k =>
    have ending := (KernelEvent.interrupt.inj died).2.2
    by_contra live
    rw [Bool.not_eq_false] at live
    change (k.tasks s.kernel.current).ready = true at live
    rw [endingOf, if_pos live] at ending
    cases ending
  | created => cases died
  | other _ _ _ elsewhere => exact absurd died (elsewhere _ _ _)

theorem died_user {regs : Regs} {cr2 next : Nat} (died : event = .interrupt regs cr2 (.died next)) :
    (s.kernel.tasks s.kernel.current).flags = .user := by
  cases scheduler_step table step with
  | returned => cases died
  | @dispatched a k arrives dispatches =>
    have ending := (KernelEvent.interrupt.inj died).2.2
    cases dispatches with
    | @expired next' =>
      have live : (((s.kernel.taken a).switched a.r next').tasks s.kernel.current).ready = true :=
        (((s.kernel.taken a).slicedTasks_same a.r next' _).2.1.trans (Kernel.taken_ready _)).trans table.running
      rw [endingOf, if_pos live] at ending
      cases ending
    | exits vector => exact interrupt_user arrives (by omega)
    | killed vector => exact interrupt_user arrives (by omega)
  | created => cases died
  | other _ _ _ elsewhere => exact absurd died (elsewhere _ _ _)

theorem caller_user {regs : Regs} {cr2 : Nat} (returned : event = .interrupt regs cr2 .returned)
    (vector : regs.intNo = 128) : (s.kernel.tasks s.kernel.current).flags = .user := by
  have undispatched : event.dispatched = none := by
    rw [returned]
    rfl
  cases scheduler_step table step with
  | returned arrives =>
    obtain ⟨rfl, -, -⟩ := KernelEvent.interrupt.inj returned
    exact interrupt_user arrives (by omega)
  | dispatched =>
    rw [endingOf_dispatched] at undispatched
    cases undispatched
  | created => cases returned
  | other _ _ _ elsewhere => exact absurd returned (elsewhere _ _ _)

end NovaKernel

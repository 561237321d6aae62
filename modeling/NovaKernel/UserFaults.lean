import NovaKernel.SpaceRuns

set_option autoImplicit false

namespace NovaKernel

open Machine RoundRobin Transition

structure Killed (s : System) (k : Kernel) : Prop where
  dead : (k.tasks s.kernel.current).ready = false
  released : (s.kernel.tasks s.kernel.current).cr3 ∈ s.kernel.sys.live ∧
    k.sys.live = s.kernel.sys.live.erase (s.kernel.tasks s.kernel.current).cr3
  next : k.current ≠ s.kernel.current ∧ (s.kernel.tasks k.current).ready = true
  -- With a new time slice.
  dispatched : k.tasks k.current = { s.kernel.tasks k.current with sliceLeft := 5 }
  others : ∀ i, i ≠ s.kernel.current → i ≠ k.current → k.tasks i = s.kernel.tasks i
  memory : ∀ pd ∈ k.sys.live, ∀ v, contents k.sys.machine pd v = contents s.kernel.sys.machine pd v

/-- What a ring-3 exception may lead to. -/
inductive Handled (acc : Access) (s : System) (a : Arrival) : Outcome → Prop
  | resolved {m : Machine} :
      pagingCowFault acc s.kernel.sys.machine a.cr2 (BitVec.ofNat 32 a.regs.errCode) =
        some (true, m) →
      Handled acc s a (.returns { s.kernel.entered a with sys := ⟨m, s.kernel.sys.live⟩ })
  | killed {k : Kernel} : Killed s k → Handled acc s a (.unwinds k (s.kernel.tasks k.current).esp)

section Exit

variable {acc : Access} {within : Nat → Prop} (reaches : Reaches acc within) {s : System}
    (table : Table s.kernel)
  (spaces : Spaces within s) (user : (s.kernel.tasks s.kernel.current).flags = .user)
include reaches table spaces user

theorem exit_kills : ∃ k, s.kernel.schedExitCurrent acc =
    .unwinds k (s.kernel.tasks k.current).esp ∧
    Killed s k := by
  obtain ⟨next, other, follows, outcome⟩ := s.kernel.schedExitCurrent_cases acc table user
  have own := Kernel.spaceIn_process table.running user
  have member := spaces.live_process own
  have ready : (s.kernel.tasks next).ready = true := by
    have still : (s.kernel.deadTasks next).ready = true := follows.1
    rwa [Kernel.deadTasks, Function.update_of_ne other] at still
  have switched := ready_switched spaces.good.ready _ (spaces.loadable ready)
  have destroyed := destroy_ok reaches switched member
  rw [if_neg (spaces.live_ne member).2, destroyed] at outcome
  refine ⟨_, outcome, ?_⟩
  constructor
  case dead =>
    change (Function.update s.kernel.deadTasks next _ s.kernel.current).ready = false
    rw [Function.update_of_ne (Ne.symm other), Kernel.deadTasks, Function.update_self]
  case released => exact ⟨member, rfl⟩
  case next => exact ⟨other, ready⟩
  case dispatched => exact Function.update_self _ _ _
  case others => exact fun i notCurrent notNext => Kernel.exited_other _ notCurrent notNext
  -- Destroying releases frames and writes none.
  case memory => exact fun _ _ _ => rfl

end Exit

section Fault

variable {acc : Access} {within : Nat → Prop} (reaches : Reaches acc within) {s : System}
    {a : Arrival}
  (table : Table s.kernel) (spaces : Spaces within s) (arrives : Arrives s a)
include reaches table spaces arrives

theorem handled_iff (exception : a.regs.intNo < 32)
    (inside : a.regs.intNo = 14 → CowInside within s.kernel.sys.machine (a.cr2 / 2 ^ 12)) :
    Handled acc s a (s.kernel.interrupt acc a) ↔
      a.regs.intNo = 14 ∧ hasFlag (BitVec.ofNat 32 a.regs.errCode) pteU = true := by
  have user := interrupt_user arrives (by omega)
  have sys : (s.kernel.entered a).sys = s.kernel.sys := rfl
  unfold Kernel.interrupt Kernel.isrCommonHandler
  simp only [Kernel.entered_intNo, Kernel.entered_errCode, exception, if_true, sys]
  constructor
  · intro handled
    by_contra other
    rw [if_neg other] at handled
    cases handled
  · intro fault
    rw [if_pos fault]
    rcases cowFault_cases spaces.good.ready (BitVec.ofNat 32 a.regs.errCode) arrives.cr2 (inside fault.1) with
      refused | ⟨-, nf, m, -, copied⟩
    · rw [refused acc reaches]
      have entered : Spaces within (s.setKernel (s.kernel.entered a)) :=
        spaces.kept reaches rfl rfl fun _ => rfl
      obtain ⟨k, exits, killed⟩ := exit_kills reaches (table.entered a) entered user
      have same : ({ s.kernel.entered a with sys := ⟨s.kernel.sys.machine, s.kernel.sys.live⟩ } : Kernel) =
          s.kernel.entered a := rfl
      simp only [same]
      rw [show (s.kernel.entered a).schedExitCurrent acc = _ from exits]
      exact .killed ⟨killed.dead, killed.released, killed.next, killed.dispatched, killed.others,
        killed.memory⟩
    · rw [copied acc reaches]
      exact .resolved (copied acc reaches)

end Fault

/-- A ring-3 exception kills its process alone, or is resolved, exactly if it is a page fault of
ring 3. -/
theorem exception_handled_iff {image : BootImage} {events : List KernelEvent} {s : System}
    {a : Arrival} (few : s.kernel.created < 2 ^ 32) (arrives : Arrives s a)
    (exception : a.regs.intNo < 32) :
    (Run (KernelStep physical) (bootSystem image) events s →
      (Handled physical s a (s.kernel.interrupt physical a) ↔
        a.regs.intNo = 14 ∧ hasFlag (BitVec.ofNat 32 a.regs.errCode) pteU = true)) ∧
    (Run (Guarded (KernelInside (· < userPgStart)) (KernelStep translated)) (bootSystem image) events s →
      KernelInside (· < userPgStart) s (.interrupt a.regs a.cr2 .returned) →
      (Handled translated s a (s.kernel.interrupt translated a) ↔
        a.regs.intNo = 14 ∧ hasFlag (BitVec.ofNat 32 a.regs.errCode) pteU = true)) := by
  constructor
  · intro run
    have steady := steady_physical run
    refine handled_iff physical_reaches steady.table
      (steady.spaces few) arrives exception fun _ => ?_
    exact fun _ _ _ => ⟨trivial, fun _ _ _ => trivial⟩
  · intro run inside
    have steady := steady_run translated_faithful.reaches ⟨by decide, by decide⟩ run
    exact handled_iff translated_faithful.reaches steady.table
      (steady.spaces few) arrives exception inside.2

theorem exception_handled_unmapped : ∃ s a, a.regs.intNo = 14 ∧ Handled physical s a
    (s.kernel.interrupt physical a) := by
  obtain ⟨events, s, spawned, current, user, -, run⟩ :=
    running_run physical_reaches (fun _ _ => trivial) zeroImage
  rw [← current] at user
  have arrives : Arrives s (s.arrival 14 4 0 0 0) := arrives_user user (by decide) 14 4 0 0
  have few : s.kernel.created < 2 ^ 32 := by
    rw [spawned.created]
    decide
  have exception : (s.arrival 14 4 0 0 0).regs.intNo < 32 := show 14 < 32 by decide
  have fromUser : hasFlag (BitVec.ofNat 32 (s.arrival 14 4 0 0 0).regs.errCode) pteU = true :=
    show hasFlag (BitVec.ofNat 32 4) pteU = true by decide
  exact ⟨s, _, rfl, ((exception_handled_iff few arrives exception).1 run).mpr ⟨rfl, fromUser⟩⟩

/-- The first process divides by zero: the kernel halts in PANIC. -/
theorem exception_unhandled : ¬ ∀ (image : BootImage) (events : List KernelEvent) (s : System) (a : Arrival),
    Run (KernelStep physical) (bootSystem image) events s →
      s.kernel.created < 2 ^ 32 → Arrives s a →
      a.regs.intNo < 32 → Handled physical s a (s.kernel.interrupt physical a) := by
  intro handled
  obtain ⟨events, s, spawned, current, user, -, run⟩ :=
    running_run physical_reaches (fun _ _ => trivial) zeroImage
  rw [← current] at user
  have arrives : Arrives s (s.arrival 0 0 0 0 0) := arrives_user user (by decide) 0 0 0 0
  have few : s.kernel.created < 2 ^ 32 := by
    rw [spawned.created]
    decide
  have exception : (s.arrival 0 0 0 0 0).regs.intNo < 32 := show 0 < 32 by decide
  have steady := steady_physical run
  have fault := (handled_iff physical_reaches steady.table (steady.spaces few) arrives exception
    fun _ _ _ _ =>
      ⟨trivial, fun _ _ _ => trivial⟩).mp (handled zeroImage events s _ run few arrives exception)
  exact absurd fault.1 (show 0 ≠ 14 by decide)

end NovaKernel

import NovaKernel.SpaceRuns

set_option autoImplicit false

namespace NovaKernel

open Machine Mm RoundRobin Transition

def Restored (t : System) : Prop :=
  ∀ c, t.preempted t.kernel.current = some c → t.kernel.sys.machine.cr3 = c

def Restores (event : KernelEvent) (t : System) : Prop := event.dispatched ≠ none → Restored t

/-- No tick takes the CPU from the shell between its two calls of `paging_switch`. -/
def Unswitched (s : System) (event : KernelEvent) : Prop :=
  event.dispatched ≠ none → s.kernel.current = 0 → s.spawn.switched = none

section Dispatch

variable {acc : Access} {within : Nat → Prop} (reaches : Reaches acc within) {s : System}
    {a : Arrival} {k : Kernel}
  (table : Table s.kernel) (spaces : Spaces within s)
include table spaces

theorem Spaces.departs_loaded (reaches : Reaches acc within) {next : Nat} {sys : Sys}
    (user : (s.kernel.tasks s.kernel.current).flags = .user)
    (departs : s.kernel.Departs acc next sys) :
    (s.kernel.tasks next).ready = true ∧
      sys.machine.cr3 = Kernel.spaceOf (s.kernel.tasks next) := by
  have member := spaces.live_process (Kernel.spaceIn_process table.running user)
  obtain ⟨other, follows, spaceless | ⟨-, m, destroyed, rfl⟩⟩ := departs
  · exact absurd spaceless.1 (spaces.live_ne member).2
  have ready : (s.kernel.tasks next).ready = true := by
    have still : (s.kernel.deadTasks next).ready = true := follows.1
    rwa [Kernel.deadTasks, Function.update_of_ne other] at still
  refine ⟨ready, ?_⟩
  rw [destroy_ok reaches (ready_switched spaces.good.ready _ (spaces.loadable ready)) member] at destroyed
  obtain rfl := Option.some.inj destroyed
  rfl

include reaches

theorem dispatches_loaded (arrives : Arrives s a) (dispatches : s.kernel.Dispatches acc a k) :
    k.current ≠ s.kernel.current ∧ (s.kernel.tasks k.current).ready = true ∧ k.sys.machine.cr3 =
      if (s.kernel.tasks s.kernel.current).flags = .user ∨ (s.kernel.tasks k.current).flags = .user then
        Kernel.spaceOf (s.kernel.tasks k.current) else s.kernel.sys.machine.cr3 := by
  have taken : Spaces within (s.setKernel (s.kernel.taken a)) :=
    spaces.kept reaches Kernel.taken_sys Kernel.taken_current (Kernel.taken_spaceIn a)
  have entered : Spaces within (s.setKernel (s.kernel.entered a)) :=
    spaces.kept reaches rfl rfl fun _ => rfl
  have same : ∀ i, Kernel.spaceOf ((s.kernel.taken a).tasks i) =
      Kernel.spaceOf (s.kernel.tasks i) := fun i => by
    rw [Kernel.spaceOf, Kernel.spaceOf, Kernel.taken_flags, Kernel.taken_cr3]
  have user := interrupt_user arrives
  cases dispatches with
  | @expired next _ _ follows =>
    refine ⟨?_, follows.1, ?_⟩
    · -- The other two threads are ready.
      intro (here : next = s.kernel.current)
      rw [here] at follows
      have alone : ∀ i < 3, i = s.kernel.current := fun i low => by
        by_contra other
        have idle : (s.kernel.tasks i).ready = false := follows.alone other
        rw [(table.threads i low).1] at idle
        cases idle
      exact absurd ((alone 0 (by decide)).trans (alone 1 (by decide)).symm) (by decide)
    · change ((s.kernel.taken a).setCr3 next).machine.cr3 =
        if (s.kernel.tasks s.kernel.current).flags = .user ∨ (s.kernel.tasks next).flags = .user then
          Kernel.spaceOf (s.kernel.tasks next) else s.kernel.sys.machine.cr3
      rw [Kernel.setCr3, Kernel.taken_current, Kernel.taken_flags, Kernel.taken_flags,
        Kernel.taken_sys, same]
      by_cases user : (s.kernel.tasks s.kernel.current).flags = .user ∨
        (s.kernel.tasks next).flags = .user
      next =>
        rw [if_pos user, if_pos user]
        rfl
      next => rw [if_neg user, if_neg user]
  | @exits next sys vector _ departs =>
    have user' := user (by omega)
    obtain ⟨ready, loaded⟩ := taken.departs_loaded (table.taken a) reaches
      (by simpa [System.setKernel] using user') departs
    refine ⟨?_, ?_, ?_⟩
    · have other := departs.other
      rwa [Kernel.taken_current] at other
    · exact (Kernel.taken_ready next).symm.trans ready
    · rw [if_pos (.inl user')]
      exact loaded.trans (same next)
  | @killed next sys vector _ _ departs =>
    have user' := user (by omega)
    obtain ⟨ready, loaded⟩ := entered.departs_loaded (table.entered a) reaches user' departs
    refine ⟨departs.other, ready, ?_⟩
    rw [if_pos (.inl user')]
    exact loaded

end Dispatch

theorem ready_kept {acc : Access} {s t : System} {event : KernelEvent} (table : Table s.kernel)
    (step : KernelStep acc s event t) (undispatched : event.dispatched = none) {i : Nat}
    (ready : (s.kernel.tasks i).ready = true) : (t.kernel.tasks i).ready = true := by
  have running := (table_step table step).running
  cases scheduler_step table step with
  | @returned a k _ served =>
    change (k.tasks i).ready = true
    change (k.tasks k.current).ready = true at running
    by_cases here : i = s.kernel.current
    · rw [here, ← served.current]
      exact running
    · rw [served.task_kept here ready]
      exact ready
  | dispatched =>
    rw [endingOf_dispatched] at undispatched
    cases undispatched
  | @created k _ _ _ _ _ _ exit =>
    change (k.tasks i).ready = true
    rw [exit.task_kept ready]
    exact ready
  | other same =>
    rw [same]
    exact ready

theorem preempted_kept {acc : Access} {s t : System} {event : KernelEvent} (table : Table s.kernel)
    (step : KernelStep acc s event t) (undispatched : event.dispatched = none) :
    t.preempted = s.preempted := by
  cases scheduler_step table step with
  | returned => rfl
  | dispatched =>
    rw [endingOf_dispatched] at undispatched
    cases undispatched
  | created => rfl
  | other _ _ same => exact same

theorem spaceIn_ready {k : Kernel} {i pd : Nat} (held : k.spaceIn i = some pd) :
    (k.tasks i).ready = true := by
  unfold Kernel.spaceIn at held
  split at held
  next process => exact process.1
  next => cases held

section Shell

variable {s t : System}

def ShellLoaded (s : System) : Prop :=
  ∀ cr3 old, s.spawn.switched = some (cr3, old) → s.kernel.current = 0 ∧
    s.kernel.sys.machine.cr3 = cr3

theorem ShellLoaded.stage (shell : ShellLoaded s) (current : t.kernel.current = s.kernel.current)
    (loaded : s.kernel.current = 0 → t.kernel.sys.machine.cr3 = s.kernel.sys.machine.cr3)
    (switched : t.spawn.switched = s.spawn.switched) : ShellLoaded t := by
  intro cr3 old inside
  obtain ⟨here, before⟩ := shell cr3 old (switched.symm.trans inside)
  exact ⟨current.trans here, (loaded here).trans before⟩

theorem ShellLoaded.outside (outside : t.spawn.switched = none) : ShellLoaded t := fun _ _ inside =>
  absurd (outside.symm.trans inside) (by simp)

variable {acc : Access} {within : Nat → Prop} (reaches : Reaches acc within)
    (table : Table s.kernel)
  (spaces : Spaces within s) (shell : ShellLoaded s)
include reaches table spaces shell

theorem shellLoaded_step {event : KernelEvent} (unswitched : Unswitched s event)
    (step : KernelStep acc s event t) :
    ShellLoaded t := by
  have thread : s.kernel.current = 0 → (s.kernel.tasks s.kernel.current).flags = .kernel :=
    fun here => by
    rw [here]
    exact (table.threads 0 (by decide)).2
  cases step with
  | @returned a k arrives returned =>
    have served := interrupt_returns table arrives returned
    refine shell.stage (t := s.setKernel k) served.current (fun here => ?_) rfl
    -- Only interrupts of the PIC reach a thread.
    obtain ⟨-, low, high, -⟩ := arrives.kernel (thread here)
    change k.sys.machine.cr3 = _
    cases served with
    | ignored => omega
    | kept => rw [Kernel.taken_sys]
    | charged =>
      change (s.kernel.taken a).sys.machine.cr3 = _
      rw [Kernel.taken_sys]
    | pid => omega
    | slept => omega
    | called => omega
    | resolved => omega
    | forked => omega
  | @unwound a k esp arrives unwound resumed =>
    intro cr3 old inside
    have outside := unswitched (by rw [endingOf_dispatched]; simp) (shell cr3 old inside).1
    exact absurd (outside.symm.trans inside) (by simp)
  | userStore user =>
    refine shell.stage rfl (fun here => ?_) rfl
    rw [thread here] at user
    cases user
  | cacheFill => exact shell.stage rfl (fun _ => rfl) rfl
  | threadStore => exact shell.stage rfl (fun _ => rfl) rfl
  | alloc _ _ _ returned =>
    obtain ⟨-, rfl⟩ := Prod.mk.inj returned
    exact shell.stage rfl (fun _ => rfl) rfl
  | free => exact shell.stage rfl (fun _ => rfl) rfl
  | bufferStore => exact shell.stage rfl (fun _ => rfl) rfl
  | sti => exact shell.stage rfl (fun _ => rfl) rfl
  | notCreated => exact .outside rfl
  | created => exact .outside rfl
  | @entered cr3 here =>
    intro cr3' old inside
    obtain ⟨rfl, -⟩ := Prod.mk.inj (Option.some.inj inside)
    exact ⟨here, rfl⟩
  | @mapped k cr3 old vaddr nbytes ok here stage low high returned =>
    have loaded := (spaces.mapped_run reaches (by rw [stage]; rfl) low high returned).2
    obtain ⟨m, -, rfl⟩ := Kernel.mapUserRegion_some returned
    exact shell.stage rfl (fun _ => loaded) (by rw [stage]; rfl)
  | filled here stage stored =>
    exact shell.stage rfl (fun _ => (stored_run reaches spaces.good stored).2) (by rw [stage]; rfl)
  | loaded here stage => exact shell.stage rfl (fun _ => rfl) (by rw [stage]; rfl)
  | rejected here stage => exact shell.stage rfl (fun _ => rfl) (by rw [stage]; rfl)
  | @stacked k cr3 old entry here stage returned =>
    have loaded :=
      (spaces.mapped_run reaches (by rw [stage]; rfl) (by decide) (by decide) returned).2
    obtain ⟨m, -, rfl⟩ := Kernel.mapUserRegion_some returned
    exact shell.stage rfl (fun _ => loaded) (by rw [stage]; rfl)
  | @notStacked k cr3 old entry here stage returned =>
    have loaded :=
      (spaces.mapped_run reaches (by rw [stage]; rfl) (by decide) (by decide) returned).2
    obtain ⟨m, -, rfl⟩ := Kernel.mapUserRegion_some returned
    exact shell.stage rfl (fun _ => loaded) (by rw [stage]; rfl)
  | @taskCreated k cr3 old entry pid here stage returned =>
    have exit := Kernel.taskCreateUser_exits table returned
    have sys : k.sys = s.kernel.sys := by
      cases exit <;> rfl
    exact shell.stage exit.current (fun _ => congrArg (fun sys => sys.machine.cr3) sys)
      (by rw [stage]; rfl)
  | finished => exact .outside rfl
  | notFinished => exact .outside rfl
  | aborted => exact .outside rfl
  | dropped => exact .outside rfl

end Shell

/-- What the scheduler remembers of a process is the process's own address space, and of a thread
the kernel's. -/
structure Remembered (s : System) : Prop where
  fresh : ∀ i, (s.kernel.tasks i).ready = false → s.preempted i = none
  process : ∀ i pd c, s.kernel.spaceIn i = some pd → s.preempted i = some c → c = pd
  thread : ∀ i < 3, ∀ c, s.preempted i = some c → c = kernelPd
  shell : ShellLoaded s

section Steps

variable {acc : Access} {within : Nat → Prop} (reaches : Reaches acc within) {s t : System}
    {event : KernelEvent}
  (table : Table s.kernel) (spaces : Spaces within s) (remembered : Remembered s)

section Dispatched

variable {a : Arrival} {k : Kernel} (away : s.kernel.current = 0 → s.spawn.switched = none)
include spaces remembered away

theorem thread_loaded (thread : (s.kernel.tasks s.kernel.current).flags = .kernel) :
    s.kernel.sys.machine.cr3 = kernelPd := by
  have spaceless : s.kernel.spaceIn s.kernel.current = none := if_neg fun process => by
    rw [thread] at process
    cases process.2
  rcases spaces.thread spaceless with kernel | ⟨old, inside⟩
  · exact kernel
  · exact absurd ((away (remembered.shell _ _ inside).1).symm.trans inside) (by simp)

include reaches table

theorem dispatched_loaded (arrives : Arrives s a) (dispatches : s.kernel.Dispatches acc a k) :
    k.current ≠ s.kernel.current ∧ (s.kernel.tasks k.current).ready = true ∧
      k.sys.machine.cr3 = Kernel.spaceOf (s.kernel.tasks k.current) := by
  obtain ⟨other, ready, loaded⟩ := dispatches_loaded reaches table spaces arrives dispatches
  refine ⟨other, ready, loaded.trans ?_⟩
  split
  next => rfl
  next threads =>
    obtain ⟨here, there⟩ := not_or.mp threads
    have kernel : (s.kernel.tasks s.kernel.current).flags = .kernel := by
      cases flags : (s.kernel.tasks s.kernel.current).flags with
      | kernel => rfl
      | user => exact absurd flags here
    rw [thread_loaded spaces remembered away kernel, Kernel.spaceOf, if_neg there]

end Dispatched

include reaches table spaces remembered

theorem remembered_step (unswitched : Unswitched s event) (step : KernelStep acc s event t) :
    Remembered t ∧ Restores event t := by
  have kept : ∀ i pd, t.kernel.spaceIn i = some pd → (s.kernel.tasks i).ready = true →
      s.kernel.spaceIn i = some pd :=
    fun i pd held ready => (task_same table step ready (spaceIn_ready held)).spaceIn.symm.trans held
  have table' := table_step table step
  have shell' := shellLoaded_step reaches table spaces remembered.shell unswitched step
  cases dispatched : event.dispatched with
  | none =>
    have ghost := preempted_kept table step dispatched
    refine ⟨⟨fun i idle => ?_, fun i pd c held preempted => ?_, fun i low c preempted => ?_, shell'⟩,
      fun some' => absurd dispatched some'⟩
    · rw [ghost]
      refine remembered.fresh i ?_
      by_contra ready
      rw [ready_kept table step dispatched (by simpa using ready)] at idle
      cases idle
    · rw [ghost] at preempted
      by_cases ready : (s.kernel.tasks i).ready = true
      next => exact remembered.process i pd c (kept i pd held ready) preempted
      next =>
        rw [remembered.fresh i (by simpa using ready)] at preempted
        cases preempted
    · rw [ghost] at preempted
      exact remembered.thread i low c preempted
  | some next =>
    have away := unswitched (by rw [dispatched]; simp)
    cases scheduler_step table step with
    | returned => cases dispatched
    | created => cases dispatched
    | other _ _ _ event =>
      rw [dispatched_other event] at dispatched
      cases dispatched
    | @dispatched a k arrives dispatches =>
      obtain ⟨other, ready, loaded⟩ :=
        dispatched_loaded reaches table spaces remembered away arrives dispatches
      have ghost : ∀ i, (k.tasks i).ready = true → (s.dispatched k).preempted i =
          if i = s.kernel.current then some s.kernel.sys.machine.cr3 else s.preempted i := fun i live =>
        if_neg (by rw [live]; simp)
      refine ⟨⟨fun i idle => if_pos idle, fun i pd c held preempted => ?_, fun i low c preempted => ?_, shell'⟩,
        fun _ c preempted => ?_⟩
      · rw [ghost i (spaceIn_ready held)] at preempted
        by_cases here : i = s.kernel.current
        next =>
          rw [if_pos here] at preempted
          subst here
          rw [← Option.some.inj preempted]
          exact spaces.process pd (kept _ pd held table.running)
        next =>
          rw [if_neg here] at preempted
          by_cases ready : (s.kernel.tasks i).ready = true
          next => exact remembered.process i pd c (kept i pd held ready) preempted
          next =>
            rw [remembered.fresh i (by simpa using ready)] at preempted
            cases preempted
      · rw [ghost i (table'.threads i low).1] at preempted
        by_cases here : i = s.kernel.current
        next =>
          rw [if_pos here] at preempted
          subst here
          rw [← Option.some.inj preempted]
          exact thread_loaded spaces remembered away (table.threads _ low).2
        next =>
          rw [if_neg here] at preempted
          exact remembered.thread i low c preempted
      · change k.sys.machine.cr3 = c
        change (s.dispatched k).preempted k.current = some c at preempted
        have running : (k.tasks k.current).ready = true := table'.running
        rw [ghost _ running, if_neg other] at preempted
        rw [loaded]
        cases flags : (s.kernel.tasks k.current).flags with
        | user =>
          rw [Kernel.spaceOf, if_pos flags]
          exact (remembered.process _ _ c (Kernel.spaceIn_process ready flags) preempted).symm
        | kernel =>
          have low : k.current < 3 := by
            by_contra high
            rw [(table.user_iff ready).mpr (by omega)] at flags
            cases flags
          rw [remembered.thread _ low c preempted, Kernel.spaceOf, if_neg (by rw [flags]; decide)]

end Steps

theorem remembered_boot (image : BootImage) : Remembered (bootSystem image) :=
  ⟨fun _ _ => rfl, fun _ _ _ _ preempted => absurd preempted (show (none : Option Nat) ≠ _ by simp),
    fun _ _ _ preempted => absurd preempted (show (none : Option Nat) ≠ _ by simp), .outside rfl⟩

end NovaKernel

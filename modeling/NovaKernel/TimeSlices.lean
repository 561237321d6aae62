import NovaKernel.SavedFrames

set_option autoImplicit false

namespace NovaKernel

open RoundRobin Transition

/-- A timer tick charged to the running task. -/
def KernelEvent.charged : KernelEvent → Bool
  | .interrupt regs _ .returned => regs.intNo = 32
  | _ => false

def sleepSlice (ebx : Nat) : Nat := if min ebx 1000 ≠ 0 then min ebx 1000 else 1

/-- A caller of `sleep` asks for no more ticks than it has left. -/
def SleepWithin (s : System) : KernelEvent → Prop
  | .interrupt regs _ _ => regs.intNo = 128 → regs.eax = nrSleep →
      sleepSlice regs.ebx ≤ (s.kernel.tasks s.kernel.current).sliceLeft
  | _ => True

namespace Kernel

variable {acc : Access} {k k' : Kernel} {a : Arrival}

def Slices (k : Kernel) : Prop := ∀ i, (k.tasks i).sliceLeft ≤ 5

theorem Slices.addTask {slot : Nat} {t : Task} (slices : k.Slices) (small : t.sliceLeft ≤ 5) :
    ∀ i, ((k.addTask slot t).tasks i).sliceLeft ≤ 5 := fun i => by
  by_cases here : i = slot
  next =>
    rw [here, show (k.addTask slot t).tasks slot = t from Function.update_self _ _ _]
    exact small
  next =>
    rw [show (k.addTask slot t).tasks i = k.tasks i from Function.update_of_ne here _ _]
    exact slices i

theorem Slices.taken (slices : k.Slices) (a : Arrival) : (k.taken a).Slices := fun i => by
  rw [taken_sliceLeft]
  exact slices i

theorem Slices.setEax (slices : k.Slices) (r value : Nat) : (k.setEax r value).Slices := slices

theorem Slices.modify {slot : Nat} {change : Task → Task} (slices : k.Slices)
    (small : (change (k.tasks slot)).sliceLeft ≤ 5) : (k.modify slot change).Slices := fun i => by
  by_cases here : i = slot
  next =>
    rw [here, modify_self]
    exact small
  next =>
    rw [modify_other _ here]
    exact slices i

theorem Slices.forkExit {r parent pid : Nat} (slices : k.Slices)
    (exit : k.ForkExit acc r parent pid k') :
    k'.Slices := by
  cases exit with
  | tableFull => exact slices
  | noSpace => exact slices
  | noCopy => exact slices
  | noStack => exact slices.addTask (Nat.zero_le 5)
  | forked => exact slices.addTask (Nat.le_refl 5)

theorem Slices.createExit {entry cr3 pid : Nat} (slices : k.Slices)
    (exit : k.CreateExit entry cr3 pid k') :
    k'.Slices := by
  cases exit with
  | tableFull => exact slices
  | noStack => exact slices.addTask (Nat.zero_le 5)
  | noArea => exact slices.addTask (Nat.le_refl 5)
  | created => exact slices.addTask (Nat.le_refl 5)

theorem Slices.exited {next : Nat} (slices : k.Slices) (sys : Sys) :
    (k.exited next sys).Slices := fun i => by
  by_cases here : i = next
  next =>
    rw [here, show (k.exited next sys).tasks next = _ from Function.update_self _ _ _]
  next =>
    rw [show (k.exited next sys).tasks i = k.deadTasks i from Function.update_of_ne here _ _,
      deadTasks]
    by_cases own : i = k.current
    next =>
      rw [own, Function.update_self]
      exact slices k.current
    next =>
      rw [Function.update_of_ne own]
      exact slices i

theorem Slices.served (slices : k.Slices) (served : k.Served acc a k')
    (asked : a.regs.intNo = 128 → a.regs.eax = nrSleep → sleepSlice a.regs.ebx ≤ (k.tasks k.current).sliceLeft) :
    k'.Slices := by
  cases served with
  | ignored => exact slices
  | kept => exact slices.taken a
  | charged =>
    refine (slices.taken a).modify ?_
    exact Nat.le_trans (Nat.sub_le _ 1) (slices.taken a k.current)
  | pid => exact slices.taken a
  | slept vector sleep =>
    refine Slices.setEax ((slices.taken a).modify ?_) _ _
    exact Nat.le_trans (asked vector sleep) (slices k.current)
  | called _ call =>
    obtain ⟨m, value, -, rfl⟩ := call
    exact slices.taken a
  | resolved => exact slices
  | forked _ _ _ exit => exact Slices.setEax ((slices.taken a).forkExit exit) _ _

theorem Slices.dispatches (slices : k.Slices) (dispatches : k.Dispatches acc a k') : k'.Slices := by
  cases dispatches with
  | expired =>
    intro i
    change ((k.taken a).slicedTasks a.r _ i).sliceLeft ≤ 5
    rw [slicedTasks_slice]
    split
    next => exact Nat.le_refl 5
    next => exact slices.taken a i
  | exits => exact (slices.taken a).exited _
  | killed => exact Slices.exited (k := k.entered a) slices _

theorem Served.slice (table : Table k) (served : k.Served acc a k')
    (asked : a.regs.intNo = 128 → a.regs.eax = nrSleep → sleepSlice a.regs.ebx ≤ (k.tasks k.current).sliceLeft) :
    (k'.tasks k.current).sliceLeft + (if a.regs.intNo = 32 then 1 else 0) ≤ (k.tasks k.current).sliceLeft := by
  have taken : ((k.taken a).tasks k.current).sliceLeft = (k.tasks k.current).sliceLeft :=
    taken_sliceLeft _
  cases served with
  | ignored high => rw [if_neg (by omega)]; exact Nat.le_refl _
  | kept low =>
    rw [if_neg (by omega), taken]
    exact Nat.le_refl _
  | charged timer left =>
    rw [if_pos timer, modify_self]
    change ((k.taken a).tasks k.current).sliceLeft - 1 + 1 ≤ _
    rw [taken]
    omega
  | pid vector =>
    rw [if_neg (by omega), setEax_tasks, taken]
    exact Nat.le_refl _
  | slept vector sleep =>
    have uncharged : (if a.regs.intNo = 32 then 1 else 0) = 0 := if_neg (by omega)
    rw [uncharged, setEax_tasks, modify_self]
    exact asked vector sleep
  | called vector call =>
    obtain ⟨m, value, -, rfl⟩ := call
    rw [if_neg (by omega), setEax_tasks, taken]
    exact Nat.le_refl _
  | resolved vector => rw [if_neg (by omega)]; exact Nat.le_refl _
  | forked vector _ _ exit =>
    have running : ((k.taken a).tasks k.current).ready = true := by simpa using table.running
    rw [if_neg (by omega), setEax_tasks, exit.task_kept running, taken]
    exact Nat.le_refl _

end Kernel

theorem charged_other {event : KernelEvent}
    (other : ∀ regs cr2 ending, event ≠ .interrupt regs cr2 ending) :
    event.charged = false := by
  cases event with
  | interrupt regs cr2 ending => exact absurd rfl (other regs cr2 ending)
  | userStore => rfl
  | cacheFill => rfl
  | threadStore => rfl
  | shell => rfl
  | spawn => rfl

theorem slices_step {acc : Access} {s t : System} {event : KernelEvent} (table : Table s.kernel)
    (slices : s.kernel.Slices) (asked : SleepWithin s event) (step : KernelStep acc s event t) :
      t.kernel.Slices := by
  cases scheduler_step table step with
  | returned _ served => exact slices.served served asked
  | dispatched _ dispatches => exact slices.dispatches dispatches
  | created _ _ exit => exact slices.createExit exit
  | other same =>
    rw [same]
    exact slices

theorem slice_step {acc : Access} {s t : System} {event : KernelEvent} (table : Table s.kernel)
    (asked : SleepWithin s event) (undispatched : event.dispatched = none)
    (step : KernelStep acc s event t) :
    (t.kernel.tasks t.kernel.current).sliceLeft + event.charged.toNat ≤
      (s.kernel.tasks s.kernel.current).sliceLeft := by
  cases scheduler_step table step with
  | @returned a k arrives served =>
    have slice := served.slice table asked
    change (k.tasks k.current).sliceLeft + (decide (a.regs.intNo = 32)).toNat ≤ _
    rw [served.current]
    by_cases timer : a.regs.intNo = 32
    next => simpa [timer] using slice
    next => simpa [timer] using slice
  | dispatched =>
    rw [endingOf_dispatched] at undispatched
    cases undispatched
  | @created k _ _ _ _ _ _ exit =>
    change (k.tasks k.current).sliceLeft ≤ _
    rw [exit.current, exit.task_kept table.running]
  | other same _ _ event =>
    rw [charged_other event, same]
    exact Nat.le_refl _

theorem slices_boot (image : BootImage) : (bootSystem image).kernel.Slices := by
  obtain ⟨heap, booted, -⟩ := boot_kernel image
  have tasks : (bootSystem image).kernel.tasks = bootTasks image.demoA image.demoB :=
    congrArg Kernel.tasks booted
  intro i
  rw [tasks]
  match i with
  | 0 | 1 | 2 => exact Nat.le_refl 5
  | i + 3 => exact Nat.zero_le 5

theorem charged_run {acc : Access} {s t : System} {events : List KernelEvent}
    (table : Table s.kernel) (run : Run (Guarded SleepWithin (KernelStep acc)) s events t)
    (undispatched : ∀ event ∈ events, event.dispatched = none) : Table t.kernel ∧
      (t.kernel.tasks t.kernel.current).sliceLeft + events.countP KernelEvent.charged ≤
        (s.kernel.tasks s.kernel.current).sliceLeft := by
  induction run with
  | nil => exact ⟨table, Nat.le_refl _⟩
  | @snoc events u v event _ taken ih =>
    obtain ⟨table', paid⟩ :=
      ih fun event member => undispatched event (List.mem_append_left _ member)
    have last := undispatched event (List.mem_append_right _ List.mem_cons_self)
    have slice := slice_step table' taken.1 last taken.2
    refine ⟨table_step table' taken.2, ?_⟩
    have count : [event].countP KernelEvent.charged = event.charged.toNat := by
      cases charged : event.charged <;> simp [charged]
    rw [List.countP_append, count]
    omega

/-- If no `sleep` asks for more than is left, every slice is at most 5, and so are the ticks any task is charged
between two dispatches. -/
theorem cpu_bounded {acc : Access} {image : BootImage} {earlier events : List KernelEvent}
    {s t : System} (before : Run (Guarded SleepWithin (KernelStep acc)) (bootSystem image) earlier s)
    (run : Run (Guarded SleepWithin (KernelStep acc)) s events t) :
    (∀ i, (t.kernel.tasks i).sliceLeft ≤ 5) ∧
      ((∀ event ∈ events, event.dispatched = none) → events.countP KernelEvent.charged ≤ 5) := by
  have kept : ∀ {s t : System} {events : List KernelEvent}, Run (Guarded SleepWithin (KernelStep acc)) s events t →
      Table s.kernel ∧ s.kernel.Slices → Table t.kernel ∧ t.kernel.Slices := fun run start =>
    run.invariant (fun s => Table s.kernel ∧ s.kernel.Slices)
      (fun _ _ _ inv taken => ⟨table_step inv.1 taken.2, slices_step inv.1 inv.2 taken.1 taken.2⟩) start
  have start := kept before ⟨table_boot image, slices_boot image⟩
  refine ⟨(kept run start).2, fun undispatched => ?_⟩
  have paid := (charged_run start.1 run undispatched).2
  have slice := start.2 s.kernel.current
  omega

theorem cpu_bounded_tick : ∃ event t, Run (KernelStep translated) (bootSystem zeroImage) [.shell, event] t ∧
    event.charged = true ∧ ∀ i, (t.kernel.tasks i).sliceLeft ≤ 5 := by
  have turns := enabled_turns zeroImage
  obtain ⟨heap, booted, -⟩ := boot_kernel zeroImage
  have kernel : (enabledSystem zeroImage).kernel = zeroImage.booted heap := booted
  have left : 0 < ((enabledSystem zeroImage).kernel.tasks (enabledSystem zeroImage).kernel.current).sliceLeft := by
    rw [kernel, BootImage.booted]
    exact show 0 < 5 by decide
  have step := tick_charges translated turns.table turns.mem turns.enabled left
  have before : Run (Guarded SleepWithin (KernelStep translated)) (bootSystem zeroImage) [.shell] (enabledSystem zeroImage) :=
    .single ⟨trivial, enabled_step translated zeroImage⟩
  have asked : SleepWithin (enabledSystem zeroImage)
      (.interrupt (enabledSystem zeroImage).tick.regs (enabledSystem zeroImage).tick.cr2 .returned) :=
    fun vector => absurd vector (show 32 ≠ 128 by decide)
  have run : Run (Guarded SleepWithin (KernelStep translated)) (enabledSystem zeroImage) _ _ :=
    .single ⟨asked, step⟩
  have whole := (before.append run).mono fun _ _ _ taken => taken.2
  exact ⟨_, _, whole, rfl, (cpu_bounded before run).1⟩

theorem sleep_step (acc : Access) {s : System}
    (user : (s.kernel.tasks s.kernel.current).flags = .user) (ticks : Nat) :
    ∃ t, KernelStep acc s (.interrupt (s.arrival 128 0 nrSleep ticks 0).regs
      (s.arrival 128 0 nrSleep ticks 0).cr2 .returned) t ∧
      (t.kernel.tasks s.kernel.current).sliceLeft = sleepSlice ticks := by
  have arrives : Arrives s (s.arrival 128 0 nrSleep ticks 0) :=
    arrives_user user (by decide) 128 0 nrSleep ticks
  have vector : (s.arrival 128 0 nrSleep ticks 0).regs.intNo = 128 := rfl
  have call : (s.arrival 128 0 nrSleep ticks 0).regs.eax = nrSleep := rfl
  have asked : (s.arrival 128 0 nrSleep ticks 0).regs.ebx = ticks := rfl
  generalize s.arrival 128 0 nrSleep ticks 0 = a at *
  have returned : s.kernel.interrupt acc a =
    .returns (((s.kernel.taken a).modify (s.kernel.taken a).current fun t =>
      { t with sliceLeft := sleepSlice ticks }).setEax a.r 0) := by
    unfold Kernel.interrupt Kernel.isrCommonHandler
    simp only [Kernel.entered_intNo, vector]
    change (s.kernel.taken a).syscallDispatch acc a.others a.r = _
    unfold Kernel.syscallDispatch
    simp only [Kernel.taken_word, Kernel.entered_eax, Kernel.entered_ebx, call, asked]
    rfl
  refine ⟨_, .returned arrives returned, ?_⟩
  change ((Kernel.setEax _ a.r 0).tasks s.kernel.current).sliceLeft = _
  rw [Kernel.setEax_tasks, Kernel.taken_current, Kernel.modify_self]

/-- The first process asks for 1000 ticks. -/
theorem cpu_unbounded : ¬ ∀ (acc : Access) (image : BootImage) (events : List KernelEvent) (t : System),
    Run (KernelStep acc) (bootSystem image) events t → ∀ i, (t.kernel.tasks i).sliceLeft ≤ 5 := by
  intro bounded
  obtain ⟨events, s, -, current, user, -, run⟩ :=
    running_run translated_faithful.reaches (fun _ low => low) zeroImage
  rw [← current] at user
  obtain ⟨t, step, slice⟩ := sleep_step translated user 1000
  have small := bounded translated zeroImage _ t (run.snoc step) s.kernel.current
  rw [slice] at small
  exact absurd small (by decide)

end NovaKernel

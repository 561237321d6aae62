import NovaKernel.TaskSpaces

set_option autoImplicit false

namespace NovaKernel

open Machine Transition

def Kernel.Counted (k : Kernel) : Prop := k.nextPid = (k.created + 1) % 2 ^ 32

theorem Kernel.Counted.numbered {k : Kernel} (counted : k.Counted) (few : k.created + 1 < 2 ^ 32) :
    k.nextPid ≠ 0 := by
  rw [counted, Nat.mod_eq_of_lt few]
  omega

namespace Kernel

variable {acc : Access} {k k' : Kernel} {a : Arrival}

theorem ForkExit.counters {r parent pid : Nat} (exit : k.ForkExit acc r parent pid k') :
    k'.nextPid = k.nextPid ∧ k'.created = k.created ∨
      k'.nextPid = (k.nextPid + 1) % 2 ^ 32 ∧ k'.created = k.created + 1 := by
  cases exit with
  | tableFull => exact .inl ⟨rfl, rfl⟩
  | noSpace => exact .inl ⟨rfl, rfl⟩
  | noCopy => exact .inl ⟨rfl, rfl⟩
  | noStack => exact .inr ⟨rfl, rfl⟩
  | forked => exact .inr ⟨rfl, rfl⟩

theorem CreateExit.counters {entry cr3 pid : Nat} (exit : k.CreateExit entry cr3 pid k') :
    k'.nextPid = k.nextPid ∧ k'.created = k.created ∨
      k'.nextPid = (k.nextPid + 1) % 2 ^ 32 ∧ k'.created = k.created + 1 := by
  cases exit with
  | tableFull => exact .inl ⟨rfl, rfl⟩
  | noStack => exact .inr ⟨rfl, rfl⟩
  | noArea => exact .inr ⟨rfl, rfl⟩
  | created => exact .inr ⟨rfl, rfl⟩

theorem Served.counters (served : k.Served acc a k') :
    k'.nextPid = k.nextPid ∧ k'.created = k.created ∨
    k'.nextPid = (k.nextPid + 1) % 2 ^ 32 ∧ k'.created = k.created + 1 := by
  have taken : (k.taken a).nextPid = k.nextPid ∧ (k.taken a).created = k.created :=
    ⟨taken_nextPid, taken_created⟩
  cases served with
  | ignored => exact .inl ⟨rfl, rfl⟩
  | kept => exact .inl taken
  | charged => exact .inl taken
  | pid => exact .inl taken
  | slept => exact .inl taken
  | called _ call =>
    obtain ⟨m, value, -, rfl⟩ := call
    exact .inl taken
  | resolved => exact .inl ⟨rfl, rfl⟩
  | @forked pid k₁ _ _ _ exit =>
    have counters := exit.counters
    rw [taken.1, taken.2] at counters
    exact counters

theorem Dispatches.counters (dispatches : k.Dispatches acc a k') :
    k'.nextPid = k.nextPid ∧ k'.created = k.created := by
  cases dispatches with
  | expired => exact ⟨taken_nextPid, taken_created⟩
  | exits => exact ⟨taken_nextPid, taken_created⟩
  | killed => exact ⟨rfl, rfl⟩

end Kernel

theorem counted_step {acc : Access} {s t : System} {event : KernelEvent} (table : Table s.kernel)
    (counted : s.kernel.Counted) (step : KernelStep acc s event t) :
    t.kernel.Counted ∧ s.kernel.created ≤ t.kernel.created := by
  have counters : t.kernel.nextPid = s.kernel.nextPid ∧ t.kernel.created = s.kernel.created ∨
      t.kernel.nextPid = (s.kernel.nextPid + 1) % 2 ^ 32 ∧
        t.kernel.created = s.kernel.created + 1 := by
    cases scheduler_step table step with
    | returned _ served => exact served.counters
    | dispatched _ dispatches => exact .inl dispatches.counters
    | created _ _ exit => exact exit.counters
    | other same =>
      rw [same]
      exact .inl ⟨rfl, rfl⟩
  unfold Kernel.Counted at *
  rcases counters with ⟨pid, created⟩ | ⟨pid, created⟩
  · exact ⟨by rw [pid, created, counted], by omega⟩
  · exact ⟨by rw [pid, created, counted]; omega, by omega⟩

theorem task_same {acc : Access} {s t : System} {event : KernelEvent} (table : Table s.kernel)
    (step : KernelStep acc s event t) {i : Nat} (ready : (s.kernel.tasks i).ready = true)
    (still : (t.kernel.tasks i).ready = true) : (s.kernel.tasks i).Same (t.kernel.tasks i) := by
  have refl : ∀ t : Task, t.Same t := fun t => ⟨_, _, _, rfl⟩
  have exited : ∀ {k : Kernel} {next : Nat} {sys : Sys}, ((k.exited next sys).tasks i).ready = true →
    next ≠ k.current →
      (k.tasks i).Same ((k.exited next sys).tasks i) := fun {k next sys} live other => by
    have slot : (k.exited next sys).tasks next = { k.tasks next with sliceLeft := 5 } :=
      Function.update_self _ _ _
    by_cases here : i = next
    · subst here
      rw [slot]
      exact ⟨_, _, _, rfl⟩
    · by_cases own : i = k.current
      · subst own
        have dead : (k.exited next sys).tasks k.current = k.deadTasks k.current :=
          Function.update_of_ne here _ _
        rw [dead, Kernel.deadTasks, Function.update_self] at live
        exact absurd live (by simp)
      · rw [Kernel.exited_other sys own here]
        exact refl _
  cases scheduler_step table step with
  | @returned a k _ served =>
    change (s.kernel.tasks i).Same (k.tasks i)
    have taken := taken_same s.kernel a i
    cases served with
    | ignored => exact refl _
    | kept => exact taken
    | charged => exact taken.trans (modify_slice _ _ (· - 1) i)
    | pid => exact taken
    | slept =>
      exact taken.trans (modify_slice _ _ (fun _ => if min a.regs.ebx 1000 ≠ 0 then min a.regs.ebx 1000 else 1) i)
    | called _ call =>
      obtain ⟨m, value, -, rfl⟩ := call
      exact taken
    | resolved => exact refl _
    | @forked pid k₁ _ _ _ exit =>
      change (s.kernel.tasks i).Same (k₁.tasks i)
      rw [exit.task_kept (by simpa using ready)]
      exact taken
  | @dispatched a k _ dispatches =>
    change (s.kernel.tasks i).Same (k.tasks i)
    change (k.tasks i).ready = true at still
    have taken := taken_same s.kernel a i
    cases dispatches with
    | expired => exact taken.trans (slicedTasks_kept _ _ _ i)
    | exits _ _ departs => exact taken.trans (exited still departs.other)
    | killed _ _ _ departs => exact exited (k := s.kernel.entered a) still departs.other
  | @created k cr3 old entry pid _ _ exit =>
    change (s.kernel.tasks i).Same (k.tasks i)
    rw [exit.task_kept ready]
    exact refl _
  | other same =>
    rw [same]
    exact refl _

theorem Task.Same.spaceIn {k k' : Kernel} {i : Nat} (same : (k.tasks i).Same (k'.tasks i)) :
    k'.spaceIn i = k.spaceIn i := by
  obtain ⟨_, _, _, task⟩ := same
  exact Kernel.spaceIn_congr (by rw [task]; exact ⟨rfl, rfl, rfl⟩)

theorem bootTasks_flags (demoA demoB i : Nat) : (bootTasks demoA demoB i).flags = .kernel := by
  match i with
  | 0 | 1 | 2 => rfl
  | i + 3 => rfl

def Threads (image : BootImage) (k : Kernel) : Prop :=
  ∀ i < 3, (bootTasks image.demoA image.demoB i).Same (k.tasks i)

theorem threads_step {acc : Access} {image : BootImage} {s t : System} {event : KernelEvent}
    (table : Table s.kernel) (threads : Threads image s.kernel) (step : KernelStep acc s event t) :
    Threads image t.kernel := by
  intro i low
  have table' := table_step table step
  exact (threads i low).trans (task_same table step (table.threads i low).1 (table'.threads i low).1)

theorem threads_boot (image : BootImage) : Threads image (bootSystem image).kernel := by
  obtain ⟨heap, booted, -⟩ := boot_kernel image
  have tasks : (bootSystem image).kernel.tasks = bootTasks image.demoA image.demoB :=
    congrArg Kernel.tasks booted
  intro i _
  rw [tasks]
  exact ⟨_, _, _, rfl⟩

section Steps

variable {acc : Access} {within : Nat → Prop} (reaches : Reaches acc within)
include reaches

theorem spaces_step {s t : System} {event : KernelEvent} (table : Table s.kernel)
    (counted : s.kernel.Counted) (spaces : Spaces within s) (few : t.kernel.created < 2 ^ 32)
    (inside : KernelInside within s event) (step : KernelStep acc s event t) : Spaces within t := by
  have same : ∀ {t : System}, t.kernel.sys = s.kernel.sys → t.kernel.tasks = s.kernel.tasks →
      t.kernel.current = s.kernel.current → t.spawn = s.spawn → Spaces within t :=
        fun {t} sys tasks current stage => by
    have kept : Spaces within (s.setKernel t.kernel) := spaces.kept reaches sys current fun i =>
      Kernel.spaceIn_congr (by rw [tasks]; exact ⟨rfl, rfl, rfl⟩)
    have holds : t.holds = (s.setKernel t.kernel).holds := by
      funext p
      cases p with
      | none => exact congrArg Spawn.space stage
      | some i => rfl
    constructor
    case good => exact kept.good
    case custody =>
      rw [holds]
      exact kept.custody
    case process => exact kept.process
    case thread =>
      rw [stage]
      exact kept.thread
    case old =>
      rw [stage]
      exact kept.old
  have table' := table_step table step
  cases step with
  | returned arrives returned =>
    exact spaces.served reaches table arrives inside (interrupt_returns table arrives returned)
  | @unwound a k esp arrives unwound resumed =>
    obtain ⟨dispatches, -⟩ := interrupt_unwinds table arrives unwound
    have taken : Spaces within (s.setKernel (s.kernel.taken a)) :=
      spaces.kept reaches Kernel.taken_sys Kernel.taken_current (Kernel.taken_spaceIn a)
    have entered : Spaces within (s.setKernel (s.kernel.entered a)) :=
      spaces.kept reaches rfl rfl fun _ => rfl
    have user := interrupt_user arrives
    cases dispatches with
    | expired _ _ follows =>
      have after := taken.switched reaches a.r ((Kernel.taken_ready _).trans follows.1)
      exact ⟨after.good, after.custody, after.process, after.thread, after.old⟩
    | exits vector _ departs =>
      have after := taken.departs reaches (table.taken a)
        (by simpa [System.setKernel] using user (by omega)) departs
      exact ⟨after.good, after.custody, after.process, after.thread, after.old⟩
    | killed vector _ _ departs =>
      have after := entered.departs reaches (table.entered a) (user (by omega)) departs
      exact ⟨after.good, after.custody, after.process, after.thread, after.old⟩
  | @userStore v off value translation user bounded inPage inUse ring writable =>
    have own := Kernel.spaceIn_process table.running user
    have member : s.kernel.sys.machine.cr3 ∈ s.kernel.sys.live := by
      rw [spaces.process _ own]
      exact spaces.live_process own
    have found := inUse_walk spaces.good.cached inUse
    have inside' : Inside within s.kernel.sys (.write v off value) := fun t' found' readOnly => by
      obtain rfl := Option.some.inj (found'.symm.trans found)
      exact absurd (writable.symm.trans readOnly) (by simp)
    have step : Step acc s.kernel.sys (.write v off value) _ :=
      .write member bounded inPage (.direct inUse ring writable)
    obtain ⟨run, same⟩ := SysRun.call reaches spaces.good (by exact trivial) inside' (by simp) step
    exact spaces.changed reaches run same rfl (.same rfl fun _ => rfl)
  | @cacheFill v translation bounded found =>
    have step : Step acc s.kernel.sys (.cacheFill v) _ := .cacheFill bounded found
    obtain ⟨run, same⟩ :=
      SysRun.call reaches spaces.good (by exact trivial) (by exact trivial) (by simp) step
    exact spaces.changed reaches run same rfl (.same rfl fun _ => rfl)
  | threadStore => exact same rfl rfl rfl rfl
  | alloc _ _ _ returned =>
    obtain ⟨-, rfl⟩ := Prod.mk.inj returned
    exact same rfl rfl rfl rfl
  | free => exact same rfl rfl rfl rfl
  | bufferStore => exact same rfl rfl rfl rfl
  | sti => exact same rfl rfl rfl rfl
  | @notCreated k shell idle returned =>
    obtain ⟨m, refused, rfl⟩ := Kernel.createAddrSpace_some returned
    have step : Step acc s.kernel.sys (.create none) ⟨m, s.kernel.sys.live⟩ := .create refused
    have inside' : Inside within s.kernel.sys (.create none) := inside
    obtain ⟨run, loaded⟩ :=
      SysRun.call reaches spaces.good (by exact trivial) inside' (by simp) step
    have kernel := spaces.kernel_loaded table shell (by rw [idle]; rfl)
    exact spaces.stage table reaches shell run rfl rfl rfl (by rw [idle])
      (.inl (loaded.trans kernel)) (by simp [Spawn.switched])
  | created shell idle returned => exact spaces.created reaches table inside shell idle returned
  | @entered cr3 shell stage =>
    have kernel := spaces.kernel_loaded table shell (by rw [stage]; rfl)
    have member : cr3 ∈ s.kernel.sys.live :=
      spaces.custody.live_of_holds none cr3 (by rw [System.holds, stage]; rfl)
    have step : Step acc s.kernel.sys (.switch cr3) _ := .switch (.inl member)
    refine spaces.stage table reaches shell
      (.single (by exact trivial) (by exact trivial) step) rfl rfl rfl
      (by rw [stage]; rfl) (.inr ⟨_, rfl⟩) fun cr3' old inside => ?_
    obtain ⟨-, rfl⟩ := Prod.mk.inj (Option.some.inj inside)
    exact kernel
  | mapped shell stage low high returned =>
    exact spaces.mapped reaches table shell (by rw [stage]; rfl) low high returned (by rw [stage])
      (by rw [stage])
  | @filled m cr3 old shell stage stored =>
    obtain ⟨run, loaded⟩ := stored_run reaches spaces.good stored
    refine spaces.stage table reaches shell run rfl rfl rfl (by rw [stage]) ?_ ?_
    · change m.cr3 = kernelPd ∨ ∃ old', (Spawn.loading cr3 old).switched = some (m.cr3, old')
      rw [loaded, ← stage]
      exact spaces.thread (shell_spaceless table shell)
    · rw [← stage]
      exact spaces.old
  | loaded shell stage =>
    refine spaces.stage table reaches shell (.refl _) rfl rfl rfl (by rw [stage]; rfl) ?_ ?_
    · have loaded := spaces.thread (shell_spaceless table shell)
      rwa [stage] at loaded
    · have old := spaces.old
      rwa [stage] at old
  | rejected shell stage =>
    refine spaces.stage table reaches shell (.refl _) rfl rfl rfl (by rw [stage]; rfl) ?_ ?_
    · have loaded := spaces.thread (shell_spaceless table shell)
      rwa [stage] at loaded
    · have old := spaces.old
      rwa [stage] at old
  | stacked shell stage returned =>
    exact spaces.mapped reaches table shell (by rw [stage]; rfl) (by decide) (by decide) returned
      (by rw [stage]; rfl)
      (by rw [stage]; rfl)
  | notStacked shell stage returned =>
    exact spaces.mapped reaches table shell (by rw [stage]; rfl) (by decide) (by decide) returned
      (by rw [stage]; rfl)
      (by rw [stage]; rfl)
  | @taskCreated k cr3 old entry pid shell stage returned =>
    refine spaces.taskCreated table (fun new => counted.numbered ?_) shell stage
      (Kernel.taskCreateUser_exits table returned)
    change k.created < 2 ^ 32 at few
    omega
  | finished shell stage numbered =>
    exact spaces.left reaches table shell (by rw [stage]; rfl)
      (by rw [stage]; exact (if_neg numbered).symm) rfl
  | notFinished shell stage =>
    exact spaces.left reaches table shell (by rw [stage]; rfl) (by rw [stage]; rfl) rfl
  | aborted shell stage =>
    exact spaces.left reaches table shell (by rw [stage]; rfl) (by rw [stage]; rfl) rfl
  | dropped shell stage returned => exact spaces.dropped reaches table shell stage returned

omit reaches in
theorem spaces_boot (kernel : within kernelPd ∧ within kernelPt) (image : BootImage) :
    Spaces within (bootSystem image) := by
  obtain ⟨heap, booted, -⟩ := boot_kernel image
  have same : (bootSystem image).kernel = image.booted heap := booted
  have sys : (bootSystem image).kernel.sys = bootSys image.mem := by rw [same, BootImage.booted]
  have tasks : (bootSystem image).kernel.tasks = bootTasks image.demoA image.demoB :=
    congrArg Kernel.tasks booted
  have none' : ∀ i, (bootSystem image).kernel.spaceIn i = none := fun i => by
    refine if_neg fun process => ?_
    have user := process.2
    rw [tasks, bootTasks_flags] at user
    exact absurd user (by decide)
  constructor
  case good =>
    rw [sys]
    exact good_boot kernel image.mem
  case custody =>
    rw [sys]
    refine ⟨fun p pd held => ?_, fun p q pd held => ?_,
      fun pd member => absurd member (Finset.notMem_empty _)⟩
    all_goals
      cases p with
      | none => exact absurd held (show (none : Option Nat) ≠ some pd by simp)
      | some i => exact absurd (held.symm.trans (none' i)) (by simp)
  case process => exact fun pd owned => absurd (owned.symm.trans (none' _)) (by simp)
  case thread =>
    intro _
    left
    rw [sys, bootSys]
    exact (boot_mm image.mem).2.1
  case old => exact fun cr3 old inside => absurd inside (show (none : Option (Nat × Nat)) ≠ some (cr3, old) by simp)

end Steps

/-- What holds of the tasks, their memory and their address spaces between two steps. -/
structure Steady (within : Nat → Prop) (t : System) : Prop where
  table : Table t.kernel
  mem : Memory t.kernel t.buffers
  saved : Saved t.kernel
  counted : t.kernel.Counted
  spaces : t.kernel.created < 2 ^ 32 → Spaces within t

theorem steady_step {acc : Access} {within : Nat → Prop} (reaches : Reaches acc within)
    {s t : System} {event : KernelEvent} (steady : Steady within s)
    (inside : KernelInside within s event) (step : KernelStep acc s event t) : Steady within t := by
  obtain ⟨counted, monotone⟩ := counted_step steady.table steady.counted step
  refine ⟨table_step steady.table step, memory_step steady.table steady.mem step,
    saved_step steady.table steady.mem steady.saved step, counted, fun few => ?_⟩
  have spaces := steady.spaces (Nat.lt_of_le_of_lt monotone few)
  exact spaces_step reaches steady.table steady.counted spaces few inside step

theorem steady_boot {within : Nat → Prop} (kernel : within kernelPd ∧ within kernelPt)
    (image : BootImage) :
    Steady within (bootSystem image) := by
  obtain ⟨heap, booted, -⟩ := boot_kernel image
  have same : (bootSystem image).kernel = image.booted heap := booted
  refine ⟨table_boot image, memory_boot image, saved_boot image, ?_,
    fun _ => spaces_boot kernel image⟩
  rw [same, Kernel.Counted, BootImage.booted]
  exact show 4 = (3 + 1) % 2 ^ 32 by decide

theorem steady_run {acc : Access} {within : Nat → Prop} (reaches : Reaches acc within)
    (kernel : within kernelPd ∧ within kernelPt) {image : BootImage} {events : List KernelEvent}
    {t : System} (run : Run (Guarded (KernelInside within) (KernelStep acc)) (bootSystem image) events t) : Steady within t :=
  run.invariant (Steady within) (fun _ _ _ steady taken => steady_step reaches steady taken.1 taken.2)
    (steady_boot kernel image)

theorem steady_physical {image : BootImage} {events : List KernelEvent} {t : System}
    (run : Run (KernelStep physical) (bootSystem image) events t) : Steady (fun _ => True) t :=
  steady_run physical_reaches ⟨trivial, trivial⟩ (run.mono fun s event _ taken => ⟨kernelInside_everywhere s event, taken⟩)

end NovaKernel

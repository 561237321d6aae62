import NovaKernel.InterruptedTables
import NovaKernel.TaskList

set_option autoImplicit false

namespace NovaKernel

open Machine Transition

def Task.OnIrqStack (t : Task) (w : Nat) : Prop := t.irqStackTop - irqStack ≤ w ∧ w < t.irqStackTop

def Task.InFrame (t : Task) (w : Nat) : Prop := t.esp ≤ w ∧ w < t.esp + 4 * frameWords t.flags

structure System.Runs (t : System) : Prop where
  slot : t.kernel.current < t.kernel.taskCount ∧ t.kernel.taskCount ≤ maxTasks
  ready : (t.kernel.tasks t.kernel.current).ready = true
  loaded : t.kernel.sys.machine.cr3 = (t.kernel.tasks t.kernel.current).cr3
  live : t.kernel.sys.machine.cr3 ∈ t.kernel.sys.live
  alone : ∀ j, j ≠ t.kernel.current → (t.kernel.tasks j).ready = true →
    Kernel.spaceOf (t.kernel.tasks j) ≠ t.kernel.sys.machine.cr3
  esp0 : t.kernel.esp0 = (t.kernel.tasks t.kernel.current).irqStackTop
  irqStacks : ∀ i j, i ≠ j → (t.kernel.tasks i).ready = true →
    (t.kernel.tasks j).ready = true → ∀ w,
    (t.kernel.tasks i).OnIrqStack w → ¬ (t.kernel.tasks j).OnIrqStack w
  frames : ∀ j, j ≠ t.kernel.current → (t.kernel.tasks j).ready = true → ∀ w,
    (t.kernel.tasks j).InFrame w → ¬ (t.kernel.tasks t.kernel.current).OnIrqStack w

theorem bootTasks_irqStack (demoA demoB : Nat) {i : Nat} (thread : i < 3) :
    (bootTasks demoA demoB i).irqStackTop = 0 ∨
      ((bootTasks demoA demoB i).irqStackTop - irqStack, irqStack) ∈ (bootTasks demoA demoB i).blocks ∧
        irqStack ≤ (bootTasks demoA demoB i).irqStackTop := by
  obtain ⟨-, first, second⟩ := bootTasks_blocks demoA demoB
  match i with
  | 0 => exact .inl rfl
  | 1 =>
    have top : (bootTasks demoA demoB 1).irqStackTop = 0x306018 := rfl
    rw [top, first]
    exact .inr ⟨List.mem_cons_of_mem _ List.mem_cons_self, by decide⟩
  | 2 =>
    have top : (bootTasks demoA demoB 2).irqStackTop = 0x30C030 := rfl
    rw [top, second]
    exact .inr ⟨List.mem_cons_of_mem _ List.mem_cons_self, by decide⟩

section Stacks

variable {image : BootImage} {k : Kernel} {buffers : Finset Nat} (table : Table k)
    (mem : Memory k buffers)
  (threads : ∀ i < 3, (bootTasks image.demoA image.demoB i).Same (k.tasks i))
include table mem threads

theorem irqStack_owned {i : Nat} (ready : (k.tasks i).ready = true) : (k.tasks i).irqStackTop = 0 ∨
    irqStack ≤ (k.tasks i).irqStackTop ∧
      k.Owns i ((k.tasks i).irqStackTop - irqStack) irqStack := by
  by_cases thread : i < 3
  next =>
    obtain ⟨esp, saved, slice, same⟩ := threads i thread
    rcases bootTasks_irqStack image.demoA image.demoB thread with none' | ⟨member, room⟩
    next =>
      left
      rw [same]
      exact none'
    next =>
      right
      have top : (k.tasks i).irqStackTop = (bootTasks image.demoA image.demoB i).irqStackTop := by rw [same]
      have blocks : (k.tasks i).blocks = (bootTasks image.demoA image.demoB i).blocks := by
        rw [same]
        rfl
      rw [← top, ← blocks] at member
      rw [← top] at room
      exact ⟨room, .block member (Nat.le_refl _) (Nat.le_refl _)⟩
  next =>
    obtain ⟨user, room⟩ := table.processes i (by omega) ready
    right
    have own := mem.stack i ready
    have low : k.stackLow i = (k.tasks i).irqStackTop - irqStack := by
      simp only [Kernel.stackLow, user]
    have high : k.stackHigh i = (k.tasks i).irqStackTop := by simp only [Kernel.stackHigh, user]
    refine ⟨room, own.mono (Nat.le_of_eq low) ?_⟩
    rw [low, high]
    omega

theorem irqStack_word {i w : Nat} (ready : (k.tasks i).ready = true)
    (inside : (k.tasks i).OnIrqStack w) :
    k.Owns i w 1 := by
  obtain ⟨low, high⟩ := inside
  rcases irqStack_owned table mem threads ready with none' | ⟨room, own⟩
  · omega
  · exact own.mono low (by omega)

theorem irqStacks_apart {i j w : Nat} (distinct : i ≠ j) (ready : (k.tasks i).ready = true)
    (ready' : (k.tasks j).ready = true) (inside : (k.tasks i).OnIrqStack w) :
    ¬ (k.tasks j).OnIrqStack w := by
  intro inside'
  have own := irqStack_word table mem threads ready inside
  have own' := irqStack_word table mem threads ready' inside'
  have apart := mem.separate distinct ready ready' own own'
  omega

theorem frame_apart (saved : Saved k) (process : 3 ≤ k.current) {j w : Nat} (other : j ≠ k.current)
    (ready : (k.tasks j).ready = true) (inside : (k.tasks j).InFrame w) :
    ¬ (k.tasks k.current).OnIrqStack w := by
  intro onStack
  have own := irqStack_word table mem threads table.running onStack
  obtain ⟨low, high⟩ := inside
  by_cases present : (k.tasks j).esp = 0
  next =>
    -- A task without a frame: its words would lie below all memory in use.
    have words := frameWords_le (k.tasks j).flags
    cases own with
    | block member first last =>
      have payload := Heap.Payload.inside mem.sound (mem.held _ table.running _ member)
      simp only [heapStart] at payload
      omega
    | bootStack boot => omega
  next =>
    have parked := saved j other ready present
    have apart := mem.separate other ready table.running parked.own own
    omega

end Stacks

theorem Steady.runs {within : Nat → Prop} {image : BootImage} {t : System}
    (steady : Steady within t) (threads : Threads image t.kernel) (few : t.kernel.created < 2 ^ 32)
    (user : (t.kernel.tasks t.kernel.current).flags = .user) : t.Runs := by
  have table := steady.table
  have spaces := steady.spaces few
  have own := Kernel.spaceIn_process table.running user
  have loaded := spaces.process _ own
  have member := spaces.live_process own
  have process := (table.user_iff table.running).mp user
  constructor
  case slot => exact ⟨table.current_lt, table.bounded⟩
  case ready => exact table.running
  case loaded => exact loaded
  case live =>
    rw [loaded]
    exact member
  case alone =>
    intro j other ready
    rw [loaded]
    cases held : t.kernel.spaceIn j with
    | none =>
      rw [spaceOf_thread ready held]
      exact (spaces.live_ne member).1.symm
    | some pd =>
      rw [spaceIn_spaceOf held]
      rintro rfl
      exact other (Option.some.inj (spaces.custody.unique (some j) (some t.kernel.current) _ held own))
  case esp0 => exact table.esp0 user
  case irqStacks =>
    intro i j distinct ready ready' w
    exact irqStacks_apart table steady.mem threads distinct ready ready'
  case frames =>
    intro j other ready w
    exact frame_apart table steady.mem threads steady.saved process other ready

theorem Steady.based {within : Nat → Prop} {image : BootImage} {s : System}
    (steady : Steady within s) (threads : Threads image s.kernel) : Based s := by
  obtain ⟨_, _, _, boot⟩ := threads 0 (by decide)
  refine ⟨steady.table, steady.mem, ?_⟩
  rw [boot]
  rfl

theorem Threads.interrupted {image : BootImage} {k k' : Kernel} (threads : Threads image k)
    (between : k.Interrupted k') : Threads image k' :=
    fun i low => (threads i low).trans (between.same i)

theorem steady_invariant {acc : Access} {within : Nat → Prop} (reaches : Reaches acc within)
    (image : BootImage) :
    Invariant acc (KernelInside within) fun s => Steady within s ∧ Threads image s.kernel where
  based _ inv := inv.1.based inv.2
  step _ _ _ inv inside step :=
    ⟨steady_step reaches inv.1 inside step, threads_step inv.1.table inv.2 step⟩
  interrupted _ _ inv shell between :=
    ⟨inv.1.interrupted reaches shell between, inv.2.interrupted between⟩

theorem interleaved_runs {acc : Access} {within : Nat → Prop} (reaches : Reaches acc within)
    (kernel : within kernelPd ∧ within kernelPt) {image : BootImage}
    {events : List InterleavedEvent} {f : Interleaved} (few : f.system.kernel.created < 2 ^ 32)
    (user : (f.system.kernel.tasks f.system.kernel.current).flags = .user)
    (run : Run (Guarded Undisturbed (Guarded (Whole (KernelInside within)) (InterleavedStep acc)))
      ⟨bootSystem image, none⟩ events f) : f.system.Runs := by
  have ongoing :=
    ongoing_run (steady_invariant reaches image) ⟨steady_boot kernel image, threads_boot image⟩ run
  obtain ⟨steady, threads⟩ := ongoing.between_calls fun shell => by
    cases ongoing with
    | between holds =>
      rw [shell, (holds.1.table.threads 0 (by decide)).2] at user
      cases user
    | inside _ _ _ _ _ _ between =>
      have thread := between.runs.thread
      change (_ : Kernel).current = 0 at shell
      rw [shell] at user
      exact absurd (user.symm.trans thread) (by decide)
  exact steady.runs threads few user

/-- In every run with fewer than 2^32 creations in which no tick takes the CPU from the shell inside
a call. -/
theorem process_runs (image : BootImage) (events : List InterleavedEvent) (f : Interleaved)
    (few : f.system.kernel.created < 2 ^ 32)
    (user : (f.system.kernel.tasks f.system.kernel.current).flags = .user) :
    (Run (Guarded Undisturbed (InterleavedStep physical)) ⟨bootSystem image, none⟩ events f → f.system.Runs) ∧
      (Run (Guarded Undisturbed (Guarded (Whole (KernelInside (· < userPgStart))) (InterleavedStep translated)))
        ⟨bootSystem image, none⟩ events f → f.system.Runs) := by
  constructor
  · intro run
    refine interleaved_runs physical_reaches ⟨trivial, trivial⟩ few user
      (run.mono fun f _ _ taken => ?_)
    exact ⟨taken.1, fun _ _ => kernelInside_everywhere f.system _, taken.2⟩
  · exact interleaved_runs translated_faithful.reaches ⟨by decide, by decide⟩ few user

theorem based_run {image : BootImage} {events : List KernelEvent} {t : System}
    (run : Run (KernelStep physical) (bootSystem image) events t) : Based t := by
  have invariant := steady_invariant physical_reaches image
  have boot : Steady (fun _ => True) (bootSystem image) ∧ Threads image (bootSystem image).kernel :=
    ⟨steady_boot ⟨trivial, trivial⟩ image, threads_boot image⟩
  exact invariant.based t (run.invariant (fun s => Steady (fun _ => True) s ∧ Threads image s.kernel)
    (fun s event t inv taken => invariant.step s event t inv (kernelInside_everywhere s event) taken) boot)

theorem refused_run {s : System} {pd : Nat} (shell : s.kernel.current = 0)
    (created : s.spawn = .created pd) :
    ∃ events m, Run (KernelStep physical) s events
      (s.spawning { s.kernel with sys := ⟨m, s.kernel.sys.live.erase pd⟩ } .idle) := by
  have entered : KernelStep physical _ _ _ := .entered shell created
  have rejected : KernelStep physical
      (s.spawning (s.kernel.pagingSwitch pd) (.loading pd s.kernel.sys.machine.cr3)) _ _ :=
        .rejected shell rfl
  have aborted : KernelStep physical
      (s.spawning (s.kernel.pagingSwitch pd) (.failing pd s.kernel.sys.machine.cr3)) _ _ :=
        .aborted shell rfl
  obtain ⟨m, destroyed⟩ :=
    pagingDestroyAddrSpace_total ((s.kernel.sys.machine.pagingSwitch pd).pagingSwitch s.kernel.sys.machine.cr3) pd
  have gone : ((s.kernel.pagingSwitch pd).pagingSwitch s.kernel.sys.machine.cr3).destroyAddrSpace physical pd =
      some { s.kernel with sys := ⟨m, s.kernel.sys.live.erase pd⟩ } := by
    simp only [Kernel.destroyAddrSpace, Kernel.pagingSwitch, destroyed]
    rfl
  have dropped : KernelStep physical
      (s.spawning ((s.kernel.pagingSwitch pd).pagingSwitch s.kernel.sys.machine.cr3) (.dropping pd)) _ _ :=
    .dropped shell rfl gone
  exact ⟨_, m, (((Run.single entered).snoc rejected).snoc aborted).snoc dropped⟩

section Interrupted

variable {s : System} (spawned : Spawned (fun _ => True) s)
include spawned

theorem Spawned.filled : Filled s.kernel.sys.machine 0x134 := by
  obtain ⟨m, first, machine⟩ := spawned.space
  rw [machine]
  exact first.filled

theorem Spawned.seen (acc : Access) (condition : System → KernelEvent → Prop) (based : Based s)
    (shell : s.kernel.current = 0)
    (met : ∀ whole, ShellCall.createAddrSpace.Ends whole → condition s whole) :
    ∃ events, Run (Guarded Undisturbed (Guarded (Whole condition) (InterleavedStep acc))) ⟨s, none⟩ events
      ⟨s, some (.createAddrSpace, Stepwise.seenFrame acc 0x134 s.buffers)⟩ := by
  have used : ∀ g < 0x134, s.kernel.sys.machine.mm.bitmap g = true := fun g below =>
    (spawned.filled g (Nat.lt_trans below (by decide))).mpr (.inl below)
  have free : s.kernel.sys.machine.mm.bitmap 0x134 = false := by
    simpa using mt (spawned.filled 0x134 (by decide)).mp (by decide)
  exact seen_run based shell spawned.spawn met used free (by decide)

end Interrupted

theorem booted_seen : ∃ s events, Spawned (fun _ => True) s ∧ s.kernel.current = 0 ∧
    Run (KernelStep physical) (bootSystem zeroImage) ([.shell] ++ spawnEvents) s ∧
    Run (Guarded Undisturbed (InterleavedStep physical)) ⟨s, none⟩ events
      ⟨s, some (.createAddrSpace, Stepwise.seenFrame physical 0x134 s.buffers)⟩ := by
  obtain ⟨s, spawned, shell, -, -, booted⟩ :=
    booted_run physical_reaches (fun _ _ => trivial) zeroImage
  obtain ⟨events, seen⟩ :=
    spawned.seen physical (fun _ _ => True) (based_run booted) shell fun _ _ => trivial
  exact ⟨s, events, spawned, shell, booted,
    seen.mono fun _ _ _ taken => And.intro taken.1 taken.2.2⟩

-- Ticks come to the shell inside a second `paging_create_addr_space`, and then the first process
-- has its turn.
theorem process_runs_spawned : ∃ f : Interleaved,
    f.system.kernel.current = 3 ∧ f.system.spawn = .created 0x134 ∧
    f.system.Runs := by
  obtain ⟨s, events₁, spawned, shell, booted, seen⟩ := booted_seen
  obtain ⟨events₂, t, ticks, turns, turned, returned, -, current, sys, -⟩ :=
    spawned.turns.charged physical _ rfl
  have coarse := ticks.mono fun _ _ _ taken => taken.2
  have shell' : t.kernel.current = 0 := current.trans shell
  obtain ⟨events₃, m, taken⟩ :=
    taken_run (based_run (booted.append coarse)) shell' (f := 0x134) (n := 0x135)
    (by decide) (filled_mark (sys ▸ spawned.filled) fun g => by
      simp only [Function.update_apply]
      by_cases here : g = 0x134
      · simp [here]
      · simp [here]) s.buffers
  have after := turns.resys ⟨m, insert 0x134 t.kernel.sys.live⟩ (.created 0x134)
  obtain ⟨events₄, f, run₄, -, turns₄, turned₄, current₄, -, -⟩ :=
    after.round physical (by decide) 3
  have process : f.kernel.current = 3 := by
    rw [current₄]
    exact congrArg (fun n => (n + 3) % 4) shell'
  have run := (((undisturbed_run booted).append seen).append (returned_run coarse returned _)).append taken
  rw [← turned.buffers] at run
  have few : f.kernel.created < 2 ^ 32 := by
    rw [turned₄.created]
    change t.kernel.created < 2 ^ 32
    rw [turned.created, spawned.created]
    decide
  have user : (f.kernel.tasks f.kernel.current).flags = .user := by
    rw [process]
    exact (turns₄.table.processes 3 (by decide) ((turns₄.ready 3).mpr (by decide))).1
  exact ⟨⟨f, none⟩, process, turned₄.spawn,
    (process_runs zeroImage _ ⟨f, none⟩ few user).1 (run.append (undisturbed_run run₄))⟩

/-- The shell has seen that a frame is free when the running process forks and takes it. The shell goes on with the
page directory of the child, gives it up, and the child runs on a freed one. -/
theorem addrSpace_shared : ¬ ∀ (image : BootImage) (events : List InterleavedEvent) (f : Interleaved),
    f.system.kernel.created < 2 ^ 32 →
      (f.system.kernel.tasks f.system.kernel.current).flags = .user →
    Run (Guarded InBuffers (InterleavedStep physical)) ⟨bootSystem image, none⟩ events f →
      f.system.Runs := by
  intro all
  obtain ⟨s, events₁, spawned, shell, booted, seen⟩ := booted_seen
  -- The process forks.
  obtain ⟨events₂, s₂, turns₂, interrupts₂, spawned₂, current₂, user₂, -⟩ :=
    spawned.first_turn physical shell
  rw [← current₂] at user₂
  obtain ⟨t, step₃, forked⟩ :=
    fork_step spawned₂ (steady_physical (booted.append turns₂)) current₂ user₂
  obtain ⟨events₄, s₄, run₄, interrupts₄, turns₄, turned₄, current₄, live₄, mm₄⟩ :=
    forked.turns.round physical (by decide) 2
  have shell₄ : s₄.kernel.current = 0 := by rw [current₄, forked.current]
  have based₄ := based_run (((booted.append turns₂).snoc step₃).append run₄)
  -- The shell takes the frame as well.
  obtain ⟨events₅, m₅, taken⟩ :=
    taken_run based₄ shell₄ (f := 0x134) (n := 0x136) (by decide) (fun g bounded => by
    rw [mm₄]
    simp only [Function.update_apply]
    by_cases here : g = 0x134
    · simp [here]
    · rw [if_neg here, forked.filled g bounded]) s.buffers
  -- It gives the page directory up, and the child has its turn.
  have buffers : s₄.buffers = s.buffers := by
    rw [turned₄.buffers, forked.buffers, spawned₂.buffers, spawned.buffers]
  obtain ⟨events₆, m₆, refused⟩ := refused_run (s := s₄.left { s₄.kernel with
    sys := ⟨m₅, insert 0x134 s₄.kernel.sys.live⟩ } (.created 0x134) s.buffers) shell₄ rfl
  have after := turns₄.resys ⟨m₆, (insert 0x134 s₄.kernel.sys.live).erase 0x134⟩ .idle
  obtain ⟨events₇, f, run₇, -, turns₇, turned₇, current₇, live₇, -⟩ :=
    after.round physical (by decide) 4
  have child : f.kernel.current = 4 := by
    rw [current₇]
    exact congrArg (fun n => (n + 4) % 5) shell₄
  have run := inBuffers_run (undisturbed_run booted)
  have run := run.append (inBuffers_run seen)
  have run := run.append (interrupted_run turns₂ interrupts₂ _)
  have run := run.snoc ⟨by simp [InBuffers], .kernel step₃ fun _ _ => ⟨_, _, _, rfl⟩⟩
  have run := run.append (interrupted_run run₄ interrupts₄ _)
  have run := run.append (inBuffers_run taken)
  have run := run.append (inBuffers_run (undisturbed_run refused))
  have space : (f.kernel.tasks 4).cr3 = 0x134 := by
    obtain ⟨_, _, _, same⟩ := (turned₄.tasks 4).trans (turned₇.tasks 4)
    rw [same]
    exact forked.cr3
  have few : f.kernel.created < 2 ^ 32 := by
    rw [turned₇.created]
    change s₄.kernel.created < 2 ^ 32
    rw [turned₄.created, forked.created]
    decide
  have user : (f.kernel.tasks f.kernel.current).flags = .user := by
    rw [child]
    exact (turns₇.table.processes 4 (by decide) ((turns₇.ready 4).mpr (by decide))).1
  rw [← buffers] at run
  have runs := all zeroImage _ ⟨f, none⟩ few user
    (run.append (inBuffers_run (undisturbed_run run₇)))
  have live := runs.live
  rw [runs.loaded] at live
  change (f.kernel.tasks f.kernel.current).cr3 ∈ f.kernel.sys.live at live
  rw [child, space, live₇] at live
  exact Finset.notMem_erase 0x134 _ live

end NovaKernel

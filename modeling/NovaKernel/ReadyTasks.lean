import NovaKernel.RunningProcess
import NovaKernel.SavedFrames

set_option autoImplicit false

namespace NovaKernel

open Arena Machine RoundRobin Statements Transition

/-- The task can be resumed: its frame lies in memory that is allocated and its own alone. -/
structure Kernel.Resumable (k : Kernel) (buffers : Finset Nat) (i : Nat) : Prop where
  parked : k.Parked i
  held : ∀ b ∈ (k.tasks i).blocks, k.heap.Payload b.1 b.2
  alone : ∀ j, j ≠ i → (k.tasks j).ready = true → ∀ lo n, k.Owns j lo n →
    (k.tasks i).esp + 4 * frameWords (k.tasks i).flags ≤ lo ∨ lo + n ≤ (k.tasks i).esp
  apart : ∀ p ∈ buffers, ∀ size, k.heap.Payload p size →
    (k.tasks i).esp + 4 * frameWords (k.tasks i).flags ≤ p ∨ p + size ≤ (k.tasks i).esp

theorem Memory.resumable {k : Kernel} {buffers : Finset Nat} (mem : Memory k buffers) {i : Nat}
    (ready : (k.tasks i).ready = true) (parked : k.Parked i) : k.Resumable buffers i where
  parked := parked
  held := mem.held i ready
  alone _ other ready' _ _ own := mem.separate (Ne.symm other) ready ready' parked.own own
  apart _ member _ payload := mem.separate_buffer ready parked.own member payload

structure Waiting (image : BootImage) (s : System) : Prop where
  table : Table s.kernel
  mem : Memory s.kernel s.buffers
  threads : Threads image s.kernel
  saved : Saved s.kernel
  present : Present s.kernel

namespace Waiting

variable {image : BootImage} {s : System} (waiting : Waiting image s)
include waiting

theorem based : Based s where
  table := waiting.table
  mem := waiting.mem
  stack := by
    obtain ⟨_, _, _, boot⟩ := waiting.threads 0 (by decide)
    rw [boot]
    rfl

theorem resumable {i : Nat} (ready : (s.kernel.tasks i).ready = true)
    (other : i ≠ s.kernel.current) :
    s.kernel.Resumable s.buffers i :=
  waiting.mem.resumable ready (waiting.saved i other ready (waiting.present i other ready))

theorem resys (sys : Sys) : Waiting image (s.setKernel { s.kernel with sys := sys }) where
  table := waiting.table.congr rfl rfl rfl rfl rfl fun _ => ⟨rfl, rfl, rfl⟩
  mem := waiting.mem.retask rfl rfl fun _ ready => ⟨ready, rfl, rfl, rfl, rfl⟩
  threads := waiting.threads
  saved j other ready present :=
    (waiting.saved j other ready present).carry rfl rfl fun _ _ _ _ _ _ => rfl
  present := waiting.present

theorem interrupted {k : Kernel} (shell : s.kernel.current = 0) (between : s.kernel.Interrupted k) :
    Waiting image (s.setKernel k) where
  table := waiting.table.interrupted between
  mem := (waiting.mem.interrupted between).1
  threads := waiting.threads.interrupted between
  saved := waiting.saved.interrupted between waiting.mem shell
  present := waiting.present.interrupted between shell

end Waiting

theorem waiting_boot (image : BootImage) : Waiting image (bootSystem image) :=
  ⟨table_boot image, memory_boot image, threads_boot image, saved_boot image, present_boot image⟩

theorem waiting_invariant (acc : Access) (image : BootImage) :
    Invariant acc AreaFound (Waiting image) where
  based _ waiting := waiting.based
  step _ _ _ waiting found step :=
    { table := table_step waiting.table step
      mem := memory_step waiting.table waiting.mem step
      threads := threads_step waiting.table waiting.threads step
      saved := saved_step waiting.table waiting.mem waiting.saved step
      present := present_step waiting.table waiting.mem waiting.present found step }
  interrupted _ _ waiting := waiting.interrupted

def ShellCall.Stores : ShellCall → Prop
  | .kmalloc _ | .kfree _ | .createTask => True
  | _ => False

/-- The shell runs inside such a call, and what it works on is half written. -/
def Interleaved.Halfway (f : Interleaved) : Prop :=
  f.system.kernel.current = 0 ∧ ∃ call rest, f.call = some (call, rest) ∧ call.Stores

theorem Calls.resys {acc : Access} {s : System} {call : ShellCall} {code rest : Remaining}
    {k : Kernel} (calls : Calls acc s call code) (other : ¬ call.Stores)
    (moves : code.Moves s.kernel rest k) :
    ∃ sys, k = { s.kernel with sys := sys } := by
  have tables : ∀ {α : Type} (c : Code Machine α),
      (c.on Stepwise.machine).Keeps (fun k k' => ∃ sys, k' = { k with sys := sys }) fun _ => True :=
    fun c => (Code.Keeps.anything c).on fun k m _ => ⟨⟨m, k.sys.live⟩, rfl⟩
  have ended : ∀ {α : Type} {c : Code Kernel α} {result : α → Spawn × Finset Nat},
      c.Keeps (fun k k' => ∃ sys, k' = { k with sys := sys }) (fun _ => True) →
      (c >>= fun a => return result a).Moves s.kernel rest k → ∃ sys, k = { s.kernel with sys := sys } := by
    intro α c result keeps moves
    refine moves.keeps (keeps.result result) (fun k => ⟨k.sys, rfl⟩) ?_
    rintro k k' k'' ⟨_, rfl⟩ ⟨sys, rfl⟩
    exact ⟨sys, rfl⟩
  cases calls with
  | kmalloc => exact absurd trivial other
  | kfree => exact absurd trivial other
  | createTask => exact absurd trivial other
  | createAddrSpace =>
    refine ended (c := Stepwise.createAddrSpace acc) ?_ moves
    exact (tables _).bind fun _ _ => .changed (fun _ => ⟨_, rfl⟩) trivial
  | mapSegment => exact ended (tables _) moves
  | mapStack => exact ended (tables _) moves
  | @destroyAddrSpace cr3 =>
    refine ended (c := Stepwise.destroyAddrSpace acc cr3) ?_ moves
    exact (tables _).bind fun _ _ _ => ⟨⟨_, rfl⟩, trivial⟩

theorem Ongoing.resumable {acc : Access} {image : BootImage} {f : Interleaved}
    (ongoing : Ongoing acc AreaFound (Waiting image) f) (whole : ¬ f.Halfway) {i : Nat}
    (ready : (f.system.kernel.tasks i).ready = true) (other : i ≠ f.system.kernel.current) :
    f.system.kernel.Resumable f.system.buffers i := by
  cases ongoing with
  | between waiting => exact waiting.resumable ready other
  | @inside s call code rest k k' waiting shell calls met moves ignores between =>
    obtain ⟨sys, rfl⟩ :=
      calls.resys (fun stores => whole ⟨between.runs.current, call, rest, rfl, stores⟩) moves
    exact ((waiting.resys sys).interrupted shell between).resumable ready other

/-- In a run in which no tick takes the CPU from the shell inside a call and no process is created without its first
frame, every task that waits can be resumed. -/
theorem ready_resumable (acc : Access) (image : BootImage) (events : List InterleavedEvent)
    (f : Interleaved)
    (run : Run (Guarded Undisturbed (Guarded (Whole AreaFound) (InterleavedStep acc)))
      ⟨bootSystem image, none⟩ events f)
    (whole : ¬ f.Halfway) (i : Nat) (ready : (f.system.kernel.tasks i).ready = true)
    (other : i ≠ f.system.kernel.current) : f.system.kernel.Resumable f.system.buffers i :=
  (ongoing_run (waiting_invariant acc image) (waiting_boot image) run).resumable whole ready other

-- The first process waits for its first turn, and the shell is inside a second
-- `paging_create_addr_space`.
theorem ready_resumable_spawned : ∃ f : Interleaved,
    f.call ≠ none ∧ (f.system.kernel.tasks 3).ready = true ∧ f.system.kernel.Resumable f.system.buffers 3 := by
  obtain ⟨s, spawned, shell, -, -, run₀⟩ :=
    spawn_run physical_reaches (fun _ _ => trivial) (enabled_unspawned zeroImage)
  have booted := (enabled_found physical zeroImage).append run₀
  have met : ∀ event, ShellCall.createAddrSpace.Ends event → AreaFound s event := by
    rintro event ⟨stage, rfl, other⟩
    cases stage with
    | finishing cr3 old pid => exact absurd rfl (other cr3 old pid)
    | _ => trivial
  obtain ⟨events, seen⟩ :=
    spawned.seen physical AreaFound (based_run (booted.mono fun _ _ _ taken => taken.2)) shell met
  have ready : (s.kernel.tasks 3).ready = true := (spawned.turns.ready 3).mpr (by decide)
  refine ⟨⟨s, some (.createAddrSpace, Stepwise.seenFrame physical 0x134 s.buffers)⟩, by simp, ready, ?_⟩
  refine ready_resumable physical zeroImage _ _ ((interleaved_run booted).append seen) ?_ 3 ready ?_
  · rintro ⟨-, call, rest, inside, stores⟩
    obtain ⟨rfl, -⟩ := Prod.mk.inj (Option.some.inj inside)
    exact stores
  · rw [shell]
    decide

theorem unset_step {acc : Access} {s t : System} {event : KernelEvent} (table : Table s.kernel)
    (step : KernelStep acc s event t) (refused : ¬ AreaFound s event) : ¬ Present t.kernel := by
  intro present
  cases step with
  | @taskCreated k cr3 old entry pid shell stage returned =>
    refine refused fun slot base h free stack full => ?_
    have exit := Kernel.taskCreateUser_exits table returned
    have present : Present k := present
    cases exit with
    | tableFull ready => exact absurd (ready slot free.inside) (by simp [free.free])
    | noStack _ none' => exact absurd (stack.symm.trans none') (by simp)
    | @noArea slot' base' h' free' stack' _ =>
      refine present slot' ?_ ?_ ?_
      · change slot' ≠ s.kernel.current
        rw [shell]
        have process := free'.process
        omega
      · rw [show (_ : Kernel).tasks slot' = _ from Function.update_self _ _ _]
        rfl
      · rw [show (_ : Kernel).tasks slot' = _ from Function.update_self _ _ _]
        rfl
    | created _ stack' area =>
      obtain ⟨-, rfl⟩ := Prod.mk.inj (stack.symm.trans stack')
      rw [area] at full
      cases full
  | _ => exact refused trivial

theorem Stepwise.taskCreateUser_moves {k : Kernel} {slot base : Nat} {h : Heap}
    (free : k.FreeSlot slot) (found : k.allocSlot = (slot, k.withSlot slot))
    (stack : k.heap.kmalloc irqStack = (some base, h)) (entry cr3 : Nat) :
    (Stepwise.taskCreateUser entry cr3).Moves k
      (Stepwise.taskSetupUserStack slot entry >>= fun _ => .read fun k => (k.tasks slot).pid)
      { k.addTask slot (k.userTask cr3 base) with heap := h } := by
  have allocated : Stepwise.allocSlot.run k = some (slot, k.withSlot slot) := by
    rw [Stepwise.allocSlot_run, found]
  have filled := Stepwise.initUserTask_run (k.withSlot slot) slot
  have owned : (Stepwise.allocIrqStack slot).run ((k.withSlot slot).initTask slot .user) =
    some (true,
      { (k.withSlot slot).initTask slot .user with heap := h }.modify slot
        fun t => { t with irqStackTop := base + irqStack }) := by
    rw [Stepwise.allocIrqStack_run]
    rcases Kernel.allocIrqStack_cases (Kernel.initTask_fresh (k.withSlot slot) slot .user) with
      ⟨full, -⟩ | ⟨base', h', stack', call⟩
    · exact absurd (stack.symm.trans full) (by simp)
    · obtain ⟨same, rfl⟩ := Prod.mk.inj (stack.symm.trans stack')
      obtain rfl := Option.some.inj same
      rw [call]
  refine ((Code.moves_of_run allocated).bind _).trans ?_
  change Code.Moves (if maxTasks ≤ slot then _ else _) _ _ _
  rw [if_neg (Nat.not_le.mpr free.inside)]
  refine ((Code.moves_of_run filled).bind _).trans (((Code.moves_of_run owned).bind _).trans ?_)
  refine .step (.step ?_)
  have same : (({ (k.withSlot slot).initTask slot .user with heap := h }.modify slot
      fun t => { t with irqStackTop := base + irqStack }).modify slot
        fun t => { t with cr3 := cr3 }).modify slot (fun t => { t with sliceLeft := 5 }) =
      { k.addTask slot (k.userTask cr3 base) with heap := h } := by
    simp [Kernel.addTask, Kernel.withSlot, Kernel.initTask, Kernel.modify, Kernel.newTask, Kernel.userTask]
  rw [← same]
  exact .refl

/-- The slice of the shell ends inside `task_create_user`: the new process is ready and has no frame. -/
theorem ready_unresumable : ¬ ∀ (acc : Access) (image : BootImage) (events : List InterleavedEvent) (f : Interleaved),
    Run (Guarded InBuffers (InterleavedStep acc)) ⟨bootSystem image, none⟩ events f → ¬ f.Halfway →
    ∀ i, (f.system.kernel.tasks i).ready = true → i ≠ f.system.kernel.current →
      f.system.kernel.Resumable f.system.buffers i := by
  intro resumable
  obtain ⟨s, start, enabled⟩ : ∃ s, Unspawned zeroImage s ∧
      KernelStep physical (bootSystem zeroImage) .shell s :=
    ⟨_, enabled_unspawned zeroImage, enabled_step physical zeroImage⟩
  obtain ⟨m, -, stages⟩ :=
    stacked_run physical_reaches (fun _ _ => trivial) start.idle start.shell start.sys
  have resys := start.turns.resys ⟨m, insert 0x130 ∅⟩ (.stacked 0x130 kernelPd userTextBase)
  obtain ⟨events, t, ticks, turns, turned, -, expired, current, -, -⟩ :=
    resys.charged physical _ rfl
  have shell : t.kernel.current = 0 := current.trans start.shell
  have booted := ((Run.single enabled).append (stages.mono fun _ _ _ taken => taken.2)).append
    (ticks.mono fun _ _ _ taken => taken.2)
  have based := based_run booted
  -- The slot of the process is filled in, up to its `esp`.
  have owned : Owned t.kernel.heap bootBlocks := turned.blocks _ start.owned
  obtain ⟨h, stack, -⟩ := owned.kmalloc_found irqStack 0x30C03C
    [⟨taskStack, false⟩, ⟨irqStack, false⟩, ⟨taskStack, false⟩, ⟨irqStack, false⟩, ⟨irqStack, false⟩,
      ⟨0xF1FB8, true⟩] (by decide)
  rcases Kernel.allocSlot_cases turns.table with ⟨slot, free, found⟩ | ⟨full, -⟩
  case inr => exact absurd ((turns.ready 3).mp (full 3 (by decide))) (by decide)
  have process := free.process
  have calls : Calls physical t .createTask _ := .createTask turned.spawn
  obtain ⟨n, inside⟩ := moves_run physical (fun _ _ => True)
    ((Stepwise.taskCreateUser_moves free found stack userTextBase 0x130).bind _) (based.runs shell)
    (calls.ignores turns.table turns.mem) t .createTask
  have begins : InterleavedStep physical ⟨t, none⟩ (.begins .createTask) ⟨t, some (.createTask, _)⟩ := .begins shell calls
  have mem := turns.mem.userTask free stack 0x130
  have table : Table { t.kernel.addTask slot (t.kernel.userTask 0x130 0x30C03C) with heap := h } :=
    (turns.table.addTask (t := t.kernel.userTask 0x130 0x30C03C) free fun _ => ⟨rfl, Nat.le_add_left ..⟩).congr
      rfl rfl rfl rfl rfl fun _ => ⟨rfl, rfl, rfl⟩
  generalize here : { t.kernel.addTask slot (t.kernel.userTask 0x130 0x30C03C) with heap := h } =
    k at inside mem table
  have others : ∀ i, i ≠ slot → k.tasks i = t.kernel.tasks i := fun i other => by
    rw [← here]
    exact Function.update_of_ne other _ _
  have new : k.tasks slot = t.kernel.userTask 0x130 0x30C03C := by
    rw [← here]
    exact Function.update_self _ _ _
  have current : k.current = 0 := by
    rw [← here]
    exact shell
  -- A tick dispatches slot 1.
  have slice : (k.tasks k.current).sliceLeft = 0 := by
    rw [shell] at expired
    rw [current, others 0 (by omega)]
    exact expired
  have follows : Follows k.readySlots k.current 1 := by
    rw [current]
    exact ⟨(table.threads 1 (by decide)).1, .inl ⟨by decide, fun x low high => by omega⟩⟩
  have present : (k.tasks 1).esp ≠ 0 := by
    rw [others 1 (by omega)]
    exact turns.present 1 (by decide) (by rw [shell]; decide)
  have away : 1 ≠ k.current := by
    rw [current]
    decide
  have step := tick_switches physical
      (s := t.setKernel k) table mem turns.enabled slice follows away present
  generalize next : ((t.setKernel k).kernel.taken (t.setKernel k).tick).switched (t.setKernel k).tick.r 1 = k' at step
  have task : k'.tasks slot = t.kernel.userTask 0x130 0x30C03C := by
    have other : slot ≠ (t.setKernel k).kernel.current := by
      change slot ≠ k.current
      omega
    rw [← next, Kernel.switched_other _ (by simpa using other) (by omega), ← new]
    exact k.alike_taken (t.setKernel k).tick |>.others slot other
  have second : k'.current = 1 := by
    rw [← next]
    rfl
  have run := (inBuffers_run (undisturbed_run booted)).snoc ⟨by simp [InBuffers], begins⟩
  have run := run.append (inBuffers_run (inside.mono fun _ _ _ taken => ⟨taken.1, taken.2.2⟩))
  have run := run.snoc ⟨by simp [InBuffers], .kernel step fun _ _ => ⟨_, _, _, rfl⟩⟩
  have whole : k'.current ≠ 0 := by
    rw [second]
    decide
  have ready : (k'.tasks slot).ready = true := by
    rw [task]
    rfl
  have frame := resumable physical zeroImage _ _ run (fun halfway => whole halfway.1) slot ready
    (show slot ≠ k'.current by omega)
  refine frame.parked.present ?_
  change (k'.tasks slot).esp = 0
  rw [task]
  rfl

end NovaKernel

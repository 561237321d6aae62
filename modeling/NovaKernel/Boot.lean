import NovaKernel.SchedTable
import Mathlib.Tactic.IntervalCases

set_option autoImplicit false

namespace NovaKernel

open Arena FirstFit

namespace Kernel

variable {k : Kernel}

def threadTask (k : Kernel) (fn bottom base : Nat) : Task :=
  { k.newTask .kernel with
    stackBottom := bottom
    irqStackTop := base + irqStack
    sliceLeft := 5
    esp := bottom + taskStack - 4 * 17
    saved := kernelFrame fn }

def newStack (h : Heap) (bottom fn : Nat) (fill : List Nat) : Heap :=
  ⟨(h.ram.writeWords bottom fill).writeWords (bottom + taskStack - 4 * 17) (kernelFrame fn), h.allocated⟩

theorem kmalloc_eq {size p : Nat} {h : Heap} (returned : k.heap.kmalloc size = (some p, h)) :
    k.kmalloc size = (some p, { k with heap := h }) := by
  rw [kmalloc, returned]

theorem allocIrqStack_eq {slot base : Nat} {h : Heap} (fresh : (k.tasks slot).irqStackTop = 0)
    (returned : k.heap.kmalloc irqStack = (some base, h)) : k.allocIrqStack slot =
      (true, { k with heap := h }.modify slot fun t => { t with irqStackTop := base + irqStack }) := by
  rw [allocIrqStack, if_neg (by simp [fresh]), kmalloc_eq returned]

theorem newStack_eq {slot : Nat} (bottom fn : Nat) (fill : List Nat)
    (thread : (k.tasks slot).flags = .kernel) (stack : (k.tasks slot).stackBottom = bottom) :
    ((k.writeWords bottom fill).modify slot fun t => { t with sliceLeft := 5 }).taskSetupStack slot fn =
      { k with heap := newStack k.heap bottom fn fill }.modify slot fun t =>
        { t with sliceLeft := 5, esp := bottom + taskStack - 4 * 17, saved := kernelFrame fn } := by
  have frame := Ram.readWords_writeWords (k.heap.ram.writeWords bottom fill)
    (bottom + taskStack - 4 * 17) (kernelFrame fn)
  have words : (kernelFrame fn).length = 17 := rfl
  rw [words] at frame
  simp only [taskSetupStack, newStack, modify, Function.update_self, writeWords, stack, setEsp,
    thread, frameWords, frame, Function.update_idem]

theorem allocSlot_fresh (full : ∀ i < k.taskCount, (k.tasks i).ready = true)
    (room : k.taskCount < maxTasks) :
    k.allocSlot = (k.taskCount, k.withSlot k.taskCount) := by
  have none : firstFree (fun i => (k.tasks i).ready) k.taskCount = none :=
    firstFree_eq_none_iff.mpr full
  simp [allocSlot, none, room, withSlot]

theorem taskCreate_ok {slot bottom base : Nat} {h h' : Heap} (fn : Nat) (inside : slot < maxTasks)
    (found : k.allocSlot = (slot, k.withSlot slot))
    (stack : k.heap.kmalloc taskStack = (some bottom, h))
    (irq : h.kmalloc irqStack = (some base, h')) :
    k.taskCreate fn = (k.nextPid,
      { k.addTask slot (k.threadTask fn bottom base) with heap := newStack h' bottom fn stackFill }) := by
  rw [taskCreate, found]
  simp only [Nat.not_le.mpr inside, if_false]
  rw [kmalloc_eq (k := (k.withSlot slot).initTask slot .kernel) stack]
  simp only
  rw [allocIrqStack_eq (by simp [modify, initTask, Task.zero]) irq]
  simp only
  rw [newStack_eq bottom fn stackFill (by simp [modify, initTask]) (by simp [modify])]
  simp [addTask, threadTask, newTask, withSlot, modify, initTask]
end Kernel

def bootBlocks : List Block :=
  [⟨taskStack, false⟩, ⟨irqStack, false⟩, ⟨taskStack, false⟩, ⟨irqStack, false⟩, ⟨0xF3FC4, true⟩]

def bootTasks (demoA demoB : Nat) : Nat → Task
  | 0 => { Task.zero with pid := 1, ready := true, sliceLeft := 5 }
  | 1 =>
    { Task.zero with
      pid := 2, ready := true, sliceLeft := 5, stackBottom := 0x30000C, irqStackTop := 0x306018
      esp := 0x303FC8, saved := Kernel.kernelFrame demoA }
  | 2 =>
    { Task.zero with
      pid := 3, ready := true, sliceLeft := 5, stackBottom := 0x306024, irqStackTop := 0x30C030
      esp := 0x309FE0, saved := Kernel.kernelFrame demoB }
  | _ => Task.zero

theorem bootTasks_eq (demoA demoB : Nat) :
    Function.update (Function.update (Function.update (fun _ => Task.zero) 0
      { Task.zero with pid := 1, ready := true, sliceLeft := 5 }) 1 (bootTasks demoA demoB 1)) 2
      (bootTasks demoA demoB 2) = bootTasks demoA demoB := by
  funext i
  match i with
  | 0 | 1 | 2 => rfl
  | i + 3 => simp [bootTasks]

theorem outsideFree_before (used : List Block) {last : Block} {w : Nat}
    (none : ∀ b ∈ used, b.free = false) (low : w < heapStart + span sizeofBlock used) :
    OutsideFree (used ++ [last]) w := by
  intro x b member free
  rw [layout_append, List.mem_append] at member
  rcases member with before | here
  · rw [none b (layout_mem before)] at free
    exact absurd free (by simp)
  · exact .inl (Nat.lt_of_lt_of_le low (layout_bounds here).1)

theorem heap_kmalloc {h : Heap} {blocks blocks' : List Block} (heap : HeapAt h.ram blocks)
    {n p : Nat} (found : alloc sizeofBlock 8 (roundSize n) heapStart blocks = some (p, blocks')) :
    ∃ h', h.kmalloc n = (some p, h') ∧ HeapAt h'.ram blocks' ∧ h'.allocated = insert p h.allocated ∧
      ∀ w, OutsideFree blocks w → h'.ram w = h.ram w := by
  obtain ⟨m, returned, heap', kept⟩ := kmalloc_of_alloc heap found
  exact ⟨⟨m, insert p h.allocated⟩, by simp [Heap.kmalloc, returned], heap', rfl, kept⟩

theorem newStack_outside (h : Heap) (bottom fn : Nat) {w : Nat}
    (outside : w < bottom ∨ bottom + taskStack ≤ w) :
    (Kernel.newStack h bottom fn Kernel.stackFill).ram w = h.ram w := by
  have words : (Kernel.kernelFrame fn).length = 17 := rfl
  have fill : Kernel.stackFill.length = taskStack / 4 := List.length_replicate
  simp only [Kernel.newStack, taskStack] at *
  rw [Ram.writeWords_outside _ _ (by rw [words]; omega),
    Ram.writeWords_outside _ _ (by rw [fill]; omega)]

theorem newStack_words (h : Heap) (bottom fn : Nat) (fill : List Nat) :
    (Kernel.newStack h bottom fn fill).ram.readWords (bottom + taskStack - 4 * 17) 17 =
      Kernel.kernelFrame fn :=
  Ram.readWords_writeWords _ _ _

theorem taskCreate_boot {k : Kernel} {blocks after : List Block} {slot bottom base : Nat} (fn : Nat)
    (heap : HeapAt k.heap.ram blocks) (found : k.allocSlot = (slot, k.withSlot slot))
    (inside : slot < maxTasks) {mid : List Block}
    (first : alloc sizeofBlock 8 (roundSize taskStack) heapStart blocks = some (bottom, mid))
    (second : alloc sizeofBlock 8 (roundSize irqStack) heapStart mid = some (base, after))
    (held : (bottom, taskStack) ∈ taken sizeofBlock heapStart after) :
    ∃ h : Heap, k.taskCreate fn = (k.nextPid, { k.addTask slot (k.threadTask fn bottom base) with heap := h }) ∧
      HeapAt h.ram after ∧ h.allocated = insert base (insert bottom k.heap.allocated) ∧
      h.ram.readWords (bottom + taskStack - 4 * 17) 17 = Kernel.kernelFrame fn ∧
      ∀ w, OutsideFree blocks w → OutsideFree mid w → (w < bottom ∨ bottom + taskStack ≤ w) →
        h.ram w = k.heap.ram w := by
  obtain ⟨h₁, stack, heap₁, allocated₁, kept₁⟩ := heap_kmalloc heap first
  obtain ⟨h₂, irq, heap₂, allocated₂, kept₂⟩ := heap_kmalloc heap₁ second
  refine ⟨Kernel.newStack h₂ bottom fn Kernel.stackFill,
    Kernel.taskCreate_ok fn inside found stack irq, heap₂.payload held fun w => newStack_outside h₂ bottom fn, ?_, newStack_words h₂ bottom fn _,
    fun w before between outside => ?_⟩
  · change h₂.allocated = _
    rw [allocated₂, allocated₁]
  · rw [newStack_outside h₂ bottom fn outside, kept₂ w between, kept₁ w before]

structure Fresh (k : Kernel) : Prop where
  tasks : k.tasks = fun _ => Task.zero
  taskCount : k.taskCount = 0
  nextPid : k.nextPid = 1
  created : k.created = 0
  heap : HeapAt k.heap.ram initialBlocks
  allocated : k.heap.allocated = ∅

theorem schedAdoptCurrent_fresh {k : Kernel} (fresh : Fresh k) : k.schedAdoptCurrent.2 = { k with
    tasks := Function.update (fun _ => Task.zero) 0 { Task.zero with pid := 1, ready := true, sliceLeft := 5 }
    taskCount := 1, current := 0, nextPid := 2, created := 1 } := by
  simp [Kernel.schedAdoptCurrent, fresh.taskCount, fresh.tasks, fresh.nextPid, fresh.created,
    maxTasks, Kernel.initTask, Kernel.modify, Task.zero]

theorem taskCreate_fresh {k : Kernel} (fresh : Fresh k) (demoA demoB : Nat) : ∃ heap : Heap,
    k.startThreads demoA demoB = { k with
      heap := heap, tasks := bootTasks demoA demoB, taskCount := 3, current := 0, nextPid :=
        4, created := 3 } ∧
    HeapAt heap.ram bootBlocks ∧ heap.allocated = {0x30A030, 0x306024, 0x304018, 0x30000C} ∧
    heap.ram.readWords 0x303FC8 17 = Kernel.kernelFrame demoA ∧
    heap.ram.readWords 0x309FE0 17 = Kernel.kernelFrame demoB := by
  have adopted := schedAdoptCurrent_fresh fresh
  unfold Kernel.startThreads
  generalize here : k.schedAdoptCurrent.2 = k₀ at adopted
  have slot₁ : k₀.allocSlot = (1, k₀.withSlot 1) := by
    rw [adopted]
    refine Kernel.allocSlot_fresh (fun i low => ?_) (show 1 < maxTasks by decide)
    obtain rfl : i = 0 := by simpa using low
    rfl
  have heap₀ : HeapAt k₀.heap.ram initialBlocks := by
    rw [adopted]
    exact fresh.heap
  obtain ⟨h₁, call₁, heap₁, allocated₁, frame₁, -⟩ := taskCreate_boot demoA heap₀ slot₁ (by decide)
    (show alloc sizeofBlock 8 (roundSize taskStack) heapStart initialBlocks =
      some (0x30000C, [⟨0x4000, false⟩, ⟨0xFBFE8, true⟩]) by decide)
    (show _ = some (0x304018, [⟨0x4000, false⟩, ⟨0x2000, false⟩, ⟨0xF9FDC, true⟩]) by decide) (by decide)
  generalize here₁ : { k₀.addTask 1 (k₀.threadTask demoA 0x30000C 0x304018) with heap := h₁ } =
    k₁ at call₁
  have count₁ : k₁.taskCount = 2 := by
    rw [← here₁, adopted]
    rfl
  have slot₂ : k₁.allocSlot = (2, k₁.withSlot 2) := by
    have found := Kernel.allocSlot_fresh (k := k₁) (fun i low => ?_) (by rw [count₁]; decide)
    · rwa [count₁] at found
    · rw [count₁] at low
      rw [← here₁, adopted]
      obtain rfl | rfl : i = 0 ∨ i = 1 := by omega
      all_goals rfl
  have heap₁' : HeapAt k₁.heap.ram [⟨0x4000, false⟩, ⟨0x2000, false⟩, ⟨0xF9FDC, true⟩] := by
    rw [← here₁]
    exact heap₁
  obtain ⟨h₂, call₂, heap₂, allocated₂, frame₂, kept₂⟩ :=
    taskCreate_boot demoB heap₁' slot₂ (by decide)
    (show _ = some (0x306024, [⟨0x4000, false⟩, ⟨0x2000, false⟩, ⟨0x4000, false⟩, ⟨0xF5FD0, true⟩]) by decide)
    (show _ = some (0x30A030, bootBlocks) by decide) (by decide)
  refine ⟨h₂, ?_, heap₂, ?_, ?_, frame₂⟩
  · rw [call₁, call₂, ← here₁, adopted]
    have tasks := bootTasks_eq demoA demoB
    simpa [Kernel.addTask, Kernel.withSlot, Kernel.threadTask, Kernel.newTask, fresh.nextPid, fresh.created, Task.zero,
      taskStack, irqStack, bootTasks] using tasks
  · rw [allocated₂, ← here₁]
    change insert _ (insert _ h₁.allocated) = _
    rw [allocated₁, adopted]
    change insert _ (insert _ (insert _ (insert _ k.heap.allocated))) = _
    rw [fresh.allocated, insert_empty_eq]
  · rw [← frame₁]
    apply Ram.readWords_congr
    intro w low high
    rw [← here₁] at kept₂
    refine kept₂ w ?_ ?_ (.inl (by omega))
    · exact outsideFree_before [⟨0x4000, false⟩, ⟨0x2000, false⟩] (by simp)
        (Nat.lt_of_lt_of_le high (by decide))
    · exact outsideFree_before [⟨0x4000, false⟩, ⟨0x2000, false⟩, ⟨0x4000, false⟩] (by simp)
        (Nat.lt_of_lt_of_le high (by decide))

def BootImage.booted (image : BootImage) (heap : Heap) : Kernel where
  sys := bootSys image.mem
  heap := heap
  tasks := bootTasks image.demoA image.demoB
  taskCount := 3
  current := 0
  nextPid := 4
  schedReady := false
  frame := 0
  zombieCr3 := 0
  esp0 := image.sysStackTop
  bootStack := image.stack
  created := 3

theorem boot_kernel (image : BootImage) : ∃ heap : Heap,
    image.kernel = image.booted heap ∧
    HeapAt heap.ram bootBlocks ∧ heap.allocated = {0x30A030, 0x306024, 0x304018, 0x30000C} ∧
    heap.ram.readWords 0x303FC8 17 = Kernel.kernelFrame image.demoA ∧
    heap.ram.readWords 0x309FE0 17 = Kernel.kernelFrame image.demoB := by
  have fresh : Fresh image.initial := ⟨rfl, rfl, rfl, rfl, heapAt_init image.ram, rfl⟩
  obtain ⟨heap, booted, rest⟩ := taskCreate_fresh fresh image.demoA image.demoB
  refine ⟨heap, ?_, rest⟩
  rw [BootImage.kernel, booted]
  rfl

theorem table_boot (image : BootImage) : Table (bootSystem image).kernel := by
  obtain ⟨heap, booted, -⟩ := boot_kernel image
  have tasks : ∀ i, 3 ≤ i → bootTasks image.demoA image.demoB i = Task.zero := fun i high => by
    obtain ⟨j, rfl⟩ := Nat.exists_eq_add_of_le' high
    rfl
  change Table image.kernel
  rw [booted]
  constructor
  · exact show 3 ≤ maxTasks by decide
  · intro i high
    exact congrArg Task.ready (tasks i high)
  · rfl
  · intro i low
    interval_cases i <;> exact ⟨rfl, rfl⟩
  · intro i high ready
    exact absurd ((congrArg Task.ready (tasks i high)).symm.trans ready) (by decide)
  · intro user
    exact absurd user (show TaskFlags.kernel ≠ .user by decide)
  · rfl
  · have inside := image.inside
    change image.stack ≠ 0
    omega

end NovaKernel

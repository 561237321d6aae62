import NovaKernel.KernelSystem
import NovaKernel.Lib.RoundRobin

set_option autoImplicit false

namespace NovaKernel

open FirstFit RoundRobin

namespace Kernel

def readySlots (k : Kernel) (i : Nat) : Bool := (k.tasks i).ready

end Kernel

structure Table (k : Kernel) : Prop where
  bounded : k.taskCount ≤ maxTasks
  beyond : ∀ i, k.taskCount ≤ i → (k.tasks i).ready = false
  running : (k.tasks k.current).ready = true
  threads : ∀ i < 3, (k.tasks i).ready = true ∧ (k.tasks i).flags = .kernel
  processes : ∀ i, 3 ≤ i → (k.tasks i).ready = true →
    (k.tasks i).flags = .user ∧ irqStack ≤ (k.tasks i).irqStackTop
  esp0 : (k.tasks k.current).flags = .user → k.esp0 = (k.tasks k.current).irqStackTop
  zombie : k.zombieCr3 = 0
  bootStack : k.bootStack ≠ 0

namespace Table

variable {k : Kernel} (table : Table k)
include table

theorem slot_lt {i : Nat} (ready : (k.tasks i).ready = true) : i < k.taskCount := by
  by_contra beyond
  rw [table.beyond i (by omega)] at ready
  exact absurd ready (by simp)

theorem current_lt : k.current < k.taskCount := table.slot_lt table.running

theorem three_le : 3 ≤ k.taskCount := by
  have third := table.slot_lt (table.threads 2 (by decide)).1
  omega

theorem user_iff {i : Nat} (ready : (k.tasks i).ready = true) :
    (k.tasks i).flags = .user ↔ 3 ≤ i := by
  constructor
  · intro user
    by_contra thread
    rw [(table.threads i (by omega)).2] at user
    exact absurd user (by simp)
  · exact fun high => (table.processes i high ready).1

end Table

namespace Kernel

variable {k : Kernel}

theorem modify_self (slot : Nat) (change : Task → Task) :
    (k.modify slot change).tasks slot = change (k.tasks slot) := Function.update_self _ _ _

theorem modify_other {slot i : Nat} (change : Task → Task) (other : i ≠ slot) :
    (k.modify slot change).tasks i = k.tasks i := Function.update_of_ne other _ _

structure FreeSlot (k : Kernel) (slot : Nat) : Prop where
  free : (k.tasks slot).ready = false
  inside : slot < maxTasks
  process : 3 ≤ slot
  earlier : ∀ i < slot, (k.tasks i).ready = true

def withSlot (k : Kernel) (slot : Nat) : Kernel :=
  { k with taskCount := max k.taskCount (slot + 1) }

theorem allocSlot_cases (table : Table k) :
    (∃ slot, FreeSlot k slot ∧ k.allocSlot = (slot, k.withSlot slot)) ∨
      (∀ i < maxTasks, (k.tasks i).ready = true) ∧ k.allocSlot = (maxTasks, k) := by
  have bounded := table.bounded
  unfold allocSlot
  split
  · next i found =>
    obtain ⟨within, free, earlier⟩ := firstFree_eq_some_iff.mp found
    have process : 3 ≤ i := by
      by_contra thread
      rw [(table.threads i (by omega)).1] at free
      exact absurd free (by simp)
    have same : max k.taskCount (i + 1) = k.taskCount := by omega
    exact .inl ⟨i, ⟨free, by omega, process, earlier⟩, by simp [withSlot, same]⟩
  · next full =>
    have allReady := firstFree_eq_none_iff.mp full
    split
    · next room =>
      have same : max k.taskCount (k.taskCount + 1) = k.taskCount + 1 := by omega
      exact .inl ⟨k.taskCount, ⟨table.beyond _ (Nat.le_refl _), room, table.three_le, allReady⟩,
        by simp [withSlot]⟩
    · next none =>
      exact .inr ⟨fun i inside => allReady i (by omega), rfl⟩

def newTask (k : Kernel) (flags : TaskFlags) : Task :=
  { Task.zero with pid := k.nextPid, ready := true, flags := flags }

def addTask (k : Kernel) (slot : Nat) (t : Task) : Kernel :=
  { k.withSlot slot with
    tasks := Function.update k.tasks slot t
    nextPid := (k.nextPid + 1) % 2 ^ 32
    created := k.created + 1 }

def frameCopy (h : Heap) (copy r : Nat) : Heap :=
  ⟨h.ram.writeWords copy (h.ram.readWords r (frameBytes / 4)), h.allocated⟩

def childFrame (h : Heap) (copy : Nat) : Heap := ⟨h.ram.set (copy + 44) 0, h.allocated⟩

def childTask (k : Kernel) (child base copy : Nat) (h : Heap) : Task :=
  { k.newTask .user with
    cr3 := child
    sliceLeft := 5
    irqStackTop := base + irqStack
    firstFrame := (copy, frameBytes)
    esp := copy
    saved := h.ram.readWords copy 19 }

inductive ForkExit (acc : Access) (k : Kernel) (r parent : Nat) : Nat → Kernel → Prop
  | tableFull : (∀ i < maxTasks, (k.tasks i).ready = true) → ForkExit acc k r parent 0 k
  | noSpace {slot : Nat} {m : Machine} :
      FreeSlot k slot → pagingForkAddrSpace acc k.sys.machine parent = some (none, m) →
      ForkExit acc k r parent 0 { k.withSlot slot with sys := ⟨m, k.sys.live⟩ }
  | noCopy {slot child : Nat} {m m' : Machine} :
      FreeSlot k slot → pagingForkAddrSpace acc k.sys.machine parent = some (some child, m) →
      k.heap.kmalloc frameBytes = (none, k.heap) → pagingDestroyAddrSpace acc m child = some m' →
      ForkExit acc k r parent 0 { k.withSlot slot with sys := ⟨m', (insert child k.sys.live).erase child⟩ }
  | noStack {slot child copy : Nat} {m m' : Machine} {h : Heap} :
      FreeSlot k slot → pagingForkAddrSpace acc k.sys.machine parent = some (some child, m) →
      k.heap.kmalloc frameBytes = (some copy, h) → r + frameBytes ≤ heapEnd →
      (frameCopy h copy r).kmalloc irqStack = (none, frameCopy h copy r) →
      pagingDestroyAddrSpace acc m child = some m' →
      ForkExit acc k r parent 0
        { k.addTask slot { k.newTask .user with ready := false } with
          sys := ⟨m', (insert child k.sys.live).erase child⟩
          heap := (frameCopy h copy r).kfree copy }
  | forked {slot child copy base : Nat} {m : Machine} {h h' : Heap} :
      FreeSlot k slot → pagingForkAddrSpace acc k.sys.machine parent = some (some child, m) →
      k.heap.kmalloc frameBytes = (some copy, h) → r + frameBytes ≤ heapEnd →
      (frameCopy h copy r).kmalloc irqStack = (some base, h') →
      ForkExit acc k r parent k.nextPid
        { k.addTask slot (k.childTask child base copy (childFrame h' copy)) with
          sys := ⟨m, insert child k.sys.live⟩
          heap := childFrame h' copy }

theorem kmalloc_cases (size : Nat) :
    (k.heap.kmalloc size = (none, k.heap) ∧ k.kmalloc size = (none, k)) ∨
      ∃ p h, k.heap.kmalloc size = (some p, h) ∧
        k.kmalloc size = (some p, { k with heap := h }) := by
  rcases call : k.heap.kmalloc size with ⟨_ | p, h⟩
  · obtain rfl := Heap.kmalloc_none call
    exact .inl ⟨rfl, by simp [kmalloc, call]⟩
  · exact .inr ⟨p, h, rfl, by simp [kmalloc, call]⟩

theorem initTask_fresh (k : Kernel) (slot : Nat) (flags : TaskFlags) :
    ((k.initTask slot flags).tasks slot).irqStackTop = 0 := by
  simp [initTask, Task.zero]

theorem allocIrqStack_cases {slot : Nat} (fresh : (k.tasks slot).irqStackTop = 0) :
    (k.heap.kmalloc irqStack = (none, k.heap) ∧ k.allocIrqStack slot = (false, k)) ∨
      ∃ base h, k.heap.kmalloc irqStack = (some base, h) ∧ k.allocIrqStack slot =
        (true, { k with heap := h }.modify slot fun t => { t with irqStackTop := base + irqStack }) := by
  rcases k.kmalloc_cases irqStack with ⟨full, call⟩ | ⟨base, h, found, call⟩
  · exact .inl ⟨full, by simp [allocIrqStack, fresh, call]⟩
  · exact .inr ⟨base, h, found, by simp [allocIrqStack, fresh, call]⟩

theorem forkAddrSpace_some {acc : Access} {parent : Nat} {child : Option Nat} {k' : Kernel}
    (returned : k.forkAddrSpace acc parent = some (child, k')) :
    ∃ m, pagingForkAddrSpace acc k.sys.machine parent = some (child, m) ∧
      k' = { k with sys := ⟨m, child.elim k.sys.live (insert · k.sys.live)⟩ } := by
  obtain ⟨⟨child', m⟩, forked, same⟩ := Option.bind_eq_some_iff.mp returned
  obtain ⟨rfl, rfl⟩ := Prod.mk.inj (Option.some.inj same)
  exact ⟨m, forked, rfl⟩

theorem createAddrSpace_some {acc : Access} {cr3 : Option Nat} {k' : Kernel}
    (returned : k.createAddrSpace acc = some (cr3, k')) :
    ∃ m, pagingCreateAddrSpace acc k.sys.machine = some (cr3, m) ∧
      k' = { k with sys := ⟨m, cr3.elim k.sys.live (insert · k.sys.live)⟩ } := by
  obtain ⟨⟨cr3', m⟩, created, same⟩ := Option.bind_eq_some_iff.mp returned
  obtain ⟨rfl, rfl⟩ := Prod.mk.inj (Option.some.inj same)
  exact ⟨m, created, rfl⟩

theorem mapUserRegion_some {acc : Access} {cr3 vaddr nbytes : Nat} {ok : Bool} {k' : Kernel}
    (returned : k.mapUserRegion acc cr3 vaddr nbytes = some (ok, k')) :
    ∃ m, pagingMapUserRegion acc k.sys.machine cr3 vaddr nbytes = some (ok, m) ∧
      k' = { k with sys := ⟨m, k.sys.live⟩ } := by
  obtain ⟨⟨ok', m⟩, mapped, same⟩ := Option.bind_eq_some_iff.mp returned
  obtain ⟨rfl, rfl⟩ := Prod.mk.inj (Option.some.inj same)
  exact ⟨m, mapped, rfl⟩

theorem destroyAddrSpace_some {acc : Access} {cr3 : Nat} {k' : Kernel}
    (returned : k.destroyAddrSpace acc cr3 = some k') :
    ∃ m, pagingDestroyAddrSpace acc k.sys.machine cr3 = some m ∧
      k' = { k with sys := ⟨m, k.sys.live.erase cr3⟩ } := by
  obtain ⟨m, destroyed, same⟩ := Option.bind_eq_some_iff.mp returned
  exact ⟨m, destroyed, (Option.some.inj same).symm⟩

theorem copyFrame_some {dst src : Nat} {k' : Kernel} (returned : k.copyFrame dst src = some k') :
    src + frameBytes ≤ heapEnd ∧ k' = { k with heap := frameCopy k.heap dst src } := by
  unfold copyFrame at returned
  split at returned
  next inside => exact ⟨inside, (Option.some.inj returned).symm⟩
  next => cases returned

theorem taskForkUser_exits {acc : Access} {r parent pid : Nat} {k' : Kernel} (table : Table k)
    (returned : k.taskForkUser acc r parent = some (pid, k')) : ForkExit acc k r parent pid k' := by
  unfold taskForkUser at returned
  rcases allocSlot_cases table with ⟨slot, free, found⟩ | ⟨full, found⟩
  · rw [found] at returned
    simp only [Nat.not_le.mpr free.inside, if_false] at returned
    obtain ⟨⟨child, k₁⟩, called, returned⟩ := Option.bind_eq_some_iff.mp returned
    obtain ⟨m, forked, rfl⟩ := forkAddrSpace_some called
    cases child with
    | none =>
      obtain ⟨rfl, rfl⟩ := Prod.mk.inj (Option.some.inj returned)
      exact .noSpace free forked
    | some child =>
      rcases kmalloc_cases (k := { k.withSlot slot with sys := ⟨m, insert child k.sys.live⟩ }) frameBytes with
        ⟨full, call⟩ | ⟨copy, h, copied, call⟩
      · simp only [Option.elim_some, withSlot] at returned call
        simp only [call] at returned
        obtain ⟨k₁, called, last⟩ := Option.bind_eq_some_iff.mp returned
        obtain ⟨m', destroyed, rfl⟩ := destroyAddrSpace_some called
        obtain ⟨rfl, rfl⟩ := Prod.mk.inj (Option.some.inj last)
        exact .noCopy free forked full destroyed
      · simp only [Option.elim_some, withSlot] at returned call
        simp only [call] at returned
        obtain ⟨k₁, called, returned⟩ := Option.bind_eq_some_iff.mp returned
        obtain ⟨inside, rfl⟩ := copyFrame_some called
        have fresh := initTask_fresh
          { k.withSlot slot with sys := ⟨m, insert child k.sys.live⟩, heap := frameCopy h copy r } slot .user
        simp only [withSlot] at fresh
        rcases allocIrqStack_cases fresh with ⟨full, call'⟩ | ⟨base, h', stack, call'⟩
        · simp only [call'] at returned
          obtain ⟨k₂, called, last⟩ := Option.bind_eq_some_iff.mp returned
          obtain ⟨m', destroyed, rfl⟩ := destroyAddrSpace_some called
          obtain ⟨rfl, rfl⟩ := Prod.mk.inj (Option.some.inj last)
          have exit := ForkExit.noStack free forked copied inside full destroyed
          simpa [addTask, withSlot, initTask, modify, newTask, kfree] using exit
        · simp only [call', Option.pure_def, Option.some.injEq, Prod.mk.injEq] at returned
          obtain ⟨rfl, rfl⟩ := returned
          have exit := ForkExit.forked free forked copied inside stack
          simpa [addTask, withSlot, initTask, modify, newTask, setWord, setEsp, childTask, childFrame,
            frameWords] using exit
  · rw [found] at returned
    simp only [Nat.le_refl, if_true, Option.some.injEq, Prod.mk.injEq] at returned
    obtain ⟨rfl, rfl⟩ := returned
    exact .tableFull full

def userTask (k : Kernel) (cr3 base : Nat) : Task :=
  { k.newTask .user with cr3 := cr3, sliceLeft := 5, irqStackTop := base + irqStack }

def entryFrame (h : Heap) (area entry : Nat) : Heap :=
  ⟨h.ram.writeWords (area + 0x1000 - 4 * 19) (userFrame entry), h.allocated⟩

def startedTask (k : Kernel) (cr3 base area : Nat) (h : Heap) : Task :=
  { k.userTask cr3 base with
    firstFrame := (area, 0x1000)
    esp := area + 0x1000 - 4 * 19
    saved := h.ram.readWords (area + 0x1000 - 4 * 19) 19 }

inductive CreateExit (k : Kernel) (entry cr3 : Nat) : Nat → Kernel → Prop
  | tableFull : (∀ i < maxTasks, (k.tasks i).ready = true) → CreateExit k entry cr3 0 k
  | noStack {slot : Nat} :
      FreeSlot k slot → k.heap.kmalloc irqStack = (none, k.heap) →
      CreateExit k entry cr3 0 (k.addTask slot { k.newTask .user with ready := false })
  | noArea {slot base : Nat} {h : Heap} :
      FreeSlot k slot → k.heap.kmalloc irqStack = (some base, h) → h.kmalloc 0x1000 = (none, h) →
      CreateExit k entry cr3 k.nextPid { k.addTask slot (k.userTask cr3 base) with heap := h }
  | created {slot base area : Nat} {h h' : Heap} :
      FreeSlot k slot → k.heap.kmalloc irqStack = (some base, h) →
        h.kmalloc 0x1000 = (some area, h') →
      CreateExit k entry cr3 k.nextPid
        { k.addTask slot (k.startedTask cr3 base area (entryFrame h' area entry)) with
          heap := entryFrame h' area entry }

theorem taskCreateUser_exits {entry cr3 pid : Nat} {k' : Kernel} (table : Table k)
    (returned : k.taskCreateUser entry cr3 = (pid, k')) : CreateExit k entry cr3 pid k' := by
  unfold taskCreateUser at returned
  rcases allocSlot_cases table with ⟨slot, free, found⟩ | ⟨full, found⟩
  · rw [found] at returned
    simp only [Nat.not_le.mpr free.inside, if_false] at returned
    rcases allocIrqStack_cases (initTask_fresh (k.withSlot slot) slot .user) with
      ⟨full, call⟩ | ⟨base, h, stack, call⟩
    · simp only [call, Prod.mk.injEq] at returned
      obtain ⟨rfl, rfl⟩ := returned
      have exit : CreateExit k entry cr3 _ _ := .noStack free full
      simpa [addTask, withSlot, initTask, modify, newTask] using exit
    · simp only [call, Prod.mk.injEq] at returned
      obtain ⟨rfl, rfl⟩ := returned
      unfold taskSetupUserStack
      rcases second : h.kmalloc 0x1000 with ⟨_ | area, h'⟩
      · obtain rfl := Heap.kmalloc_none second
        have exit : CreateExit k entry cr3 _ _ := .noArea free stack second
        simpa [addTask, withSlot, initTask, modify, newTask, userTask, kmalloc, second] using exit
      · have exit : CreateExit k entry cr3 _ _ := .created free stack second
        simpa [addTask, withSlot, initTask, modify, newTask, userTask, startedTask, kmalloc, second,
          writeWords, entryFrame, setEsp, frameWords] using exit
  · rw [found] at returned
    simp only [Nat.le_refl, if_true, Prod.mk.injEq] at returned
    obtain ⟨rfl, rfl⟩ := returned
    exact .tableFull full

-- What the scheduler loads into CR3 for a task.
def spaceOf (t : Task) : Nat := if t.flags = .user then t.cr3 else kernelPd

def setCr3 (k : Kernel) (next : Nat) : Sys :=
  if (k.tasks k.current).flags = .user ∨ (k.tasks next).flags = .user then
    ⟨k.sys.machine.pagingSwitch (spaceOf (k.tasks next)), k.sys.live⟩
  else k.sys

def setEsp0 (k : Kernel) (next : Nat) : Nat :=
  if (k.tasks next).irqStackTop ≠ 0 then (k.tasks next).irqStackTop else k.esp0

def parked (k : Kernel) (frame : Nat) : Task :=
  { k.tasks k.current with
    esp := frame
    saved := k.heap.ram.readWords frame (frameWords (k.tasks k.current).flags) }

theorem userSetKernelStack_eq (k : Kernel) (top : Nat) :
    k.userSetKernelStack top = { k with esp0 := if top ≠ 0 then top else k.esp0 } := by
  unfold userSetKernelStack
  split <;> rfl

theorem switchTo_eq {frame next : Nat} (inside : k.current < maxTasks) (inside' : next < maxTasks)
    (ready : (k.tasks next).ready = true) :
    k.switchTo frame next = .unwinds
      { k with
        sys := k.setCr3 next
        tasks := Function.update k.tasks k.current (k.parked frame)
        esp0 := k.setEsp0 next
        current := next }
      (Function.update k.tasks k.current (k.parked frame) next).esp := by
  have guard : ¬ (maxTasks ≤ next ∨ maxTasks ≤ k.current ∨ (k.tasks next).ready = false) := by
    simp only [ready, Bool.true_eq_false, or_false]
    omega
  have kept : (Function.update k.tasks k.current (k.parked frame) next).irqStackTop =
      (k.tasks next).irqStackTop := by
    by_cases same : next = k.current
    · rw [same, Function.update_self]
      rfl
    · rw [Function.update_of_ne same]
  rw [switchTo, if_neg guard]
  simp only [parked] at kept ⊢
  by_cases user : (k.tasks k.current).flags = .user ∨ (k.tasks next).flags = .user <;>
    by_cases own : (k.tasks next).irqStackTop ≠ 0 <;>
      simp only [user, if_true, if_false, setEsp, modify, pagingSwitch, userSetKernelStack, setCr3,
        setEsp0, own, kept, spaceOf, ne_eq, not_false_eq_true]

def slicedTasks (k : Kernel) (frame next : Nat) : Nat → Task :=
  let tasks := Function.update k.tasks k.current { k.parked frame with sliceLeft := 5 }
  Function.update tasks next { tasks next with sliceLeft := 5 }

def switched (k : Kernel) (frame next : Nat) : Kernel :=
  { k with
    sys := k.setCr3 next
    tasks := k.slicedTasks frame next
    esp0 := k.setEsp0 next
    current := next }

theorem slicedTasks_same (k : Kernel) (frame next i : Nat) :
    (k.slicedTasks frame next i).flags = (k.tasks i).flags ∧
      (k.slicedTasks frame next i).ready = (k.tasks i).ready ∧
      (k.slicedTasks frame next i).cr3 = (k.tasks i).cr3 ∧
      (k.slicedTasks frame next i).irqStackTop = (k.tasks i).irqStackTop := by
  unfold slicedTasks
  by_cases here : i = next <;> by_cases old : i = k.current <;> by_cases self : next = k.current <;>
    simp_all [Function.update_apply, parked]

theorem slicedTasks_parked (k : Kernel) (frame next : Nat) :
    k.slicedTasks frame next k.current = { k.parked frame with sliceLeft := 5 } := by
  unfold slicedTasks
  by_cases self : k.current = next
  · simp [self]
  · simp [Function.update_of_ne self]

theorem sliced_eq (k : Kernel) (frame next : Nat) :
    ((k.setEsp k.current frame).modify k.current fun t => { t with sliceLeft := 5 }).modify next
        (fun t => { t with sliceLeft := 5 }) = { k with tasks := k.slicedTasks frame next } := by
  simp [setEsp, modify, slicedTasks, parked]

theorem switchTo_sliced (table : Table k) (frame : Nat) {next : Nat}
    (ready : (k.tasks next).ready = true) :
    ({ k with tasks := k.slicedTasks frame next } : Kernel).switchTo frame next =
      .unwinds (k.switched frame next) ((k.switched frame next).tasks next).esp := by
  have bounded := table.bounded
  have inside := table.current_lt
  have inside' := table.slot_lt ready
  have current := slicedTasks_same k frame next k.current
  have target := slicedTasks_same k frame next next
  have parkedAgain : ({ k with tasks := k.slicedTasks frame next } : Kernel).parked frame =
      k.slicedTasks frame next k.current := by
    simp only [parked, slicedTasks_parked]
  have slept : Function.update (k.slicedTasks frame next) k.current (k.slicedTasks frame next k.current) =
      k.slicedTasks frame next := Function.update_eq_self _ _
  have cr3 : ({ k with tasks := k.slicedTasks frame next } : Kernel).setCr3 next =
      k.setCr3 next := by
    simp only [setCr3, spaceOf, current.1, target.1, target.2.2.1]
  have esp0 : ({ k with tasks := k.slicedTasks frame next } : Kernel).setEsp0 next =
      k.setEsp0 next := by
    simp only [setEsp0, target.2.2.2]
  rw [switchTo_eq (by simp only; omega) (by omega) (by rw [target.2.1, ready])]
  simp only [parkedAgain, slept, cr3, esp0, switched]

theorem schedTick_cases (table : Table k) (observed : k.schedReady = true) (live : k.frame ≠ 0) :
    (0 < (k.tasks k.current).sliceLeft ∧ k.schedTick =
      .returns (k.modify k.current fun t => { t with sliceLeft := t.sliceLeft - 1 })) ∨
    (k.tasks k.current).sliceLeft = 0 ∧ ∃ next, Follows k.readySlots k.current next ∧
      k.schedTick = .unwinds (k.switched k.frame next) ((k.switched k.frame next).tasks next).esp := by
  have three := table.three_le
  have inside := table.current_lt
  have bounded := table.bounded
  by_cases charged : 0 < (k.tasks k.current).sliceLeft
  · refine .inl ⟨charged, ?_⟩
    rw [schedTick, if_neg (by omega), if_neg (by omega), if_neg (by simp [observed]),
      if_pos charged]
  · refine .inr ⟨by omega, ?_⟩
    have scan := scan_follows inside table.beyond
      (fun next => next < k.taskCount && (k.tasks next).ready)
      (fun i _ _ => by simp [Nat.mod_lt _ (Nat.lt_of_lt_of_le (by decide) three)]) (.inl rfl)
    cases found : (k.slotsAfter k.taskCount).find? fun next => next < k.taskCount && (k.tasks next).ready with
    | none =>
      have idle := scan.2 found k.current
      rw [table.running] at idle
      exact absurd idle (by simp)
    | some next =>
      have follows := scan.1 next found
      have inside' := table.slot_lt follows.1
      refine ⟨next, follows, ?_⟩
      rw [schedTick, if_neg (by omega), if_neg (by omega), if_neg (by simp [observed]),
        if_neg charged, found]
      simp only [live, if_false, sliced_eq]
      exact switchTo_sliced table k.frame follows.1

def deadTasks (k : Kernel) : Nat → Task :=
  Function.update k.tasks k.current { k.tasks k.current with ready := false, cr3 := 0 }

def exited (k : Kernel) (next : Nat) (s : Sys) : Kernel :=
  { k with
    sys := s
    tasks := Function.update k.deadTasks next { k.tasks next with sliceLeft := 5 }
    esp0 := k.setEsp0 next
    zombieCr3 := 0
    current := next }

theorem parkSpace_eq (table : Table k) (user : (k.tasks k.current).flags = .user) :
    (if (k.tasks k.current).flags = .user ∧ (k.tasks k.current).cr3 ≠ 0 then
        { k.modify k.current fun t => { t with cr3 := 0 } with zombieCr3 := (k.tasks k.current).cr3 }
      else k : Kernel).modify k.current (fun t => { t with ready := false }) =
      { k with tasks := k.deadTasks, zombieCr3 := (k.tasks k.current).cr3 } := by
  by_cases none : (k.tasks k.current).cr3 = 0
  · have zombie := table.zombie
    simp only [none, ne_eq, not_true_eq_false, and_false, if_false, modify, deadTasks]
    rw [← zombie]
  · simp only [user, none, ne_eq, not_false_eq_true, and_true, if_true, modify, deadTasks,
      Function.update_self, Function.update_idem]

theorem schedExitCurrent_cases (acc : Access) (table : Table k)
    (user : (k.tasks k.current).flags = .user) :
    ∃ next, next ≠ k.current ∧ Follows (fun i => (k.deadTasks i).ready) k.current next ∧
      k.schedExitCurrent acc =
        if (k.tasks k.current).cr3 = 0 then
          .unwinds (k.exited next ⟨k.sys.machine.pagingSwitch (spaceOf (k.tasks next)), k.sys.live⟩)
            (k.tasks next).esp
        else
          match pagingDestroyAddrSpace acc (k.sys.machine.pagingSwitch (spaceOf (k.tasks next)))
            (k.tasks k.current).cr3 with
          | none => .panics
          | some m => .unwinds (k.exited next ⟨m, k.sys.live.erase (k.tasks k.current).cr3⟩) (k.tasks next).esp := by
  have three := table.three_le
  have inside := table.current_lt
  have dead : (k.deadTasks k.current).ready = false := by simp [deadTasks]
  have others : ∀ i, i ≠ k.current → k.deadTasks i = k.tasks i := fun i other => by
    rw [deadTasks, Function.update_of_ne other]
  have beyond : ∀ i, k.taskCount ≤ i → (k.deadTasks i).ready = false := fun i high => by
    rw [others i (by omega), table.beyond i high]
  have process := (table.user_iff table.running).mp user
  have scan := scan_follows (m := k.taskCount - 1) inside beyond
    (fun next => next != k.current && (k.deadTasks next).ready) (fun i first last => by
      by_cases same : (k.current + i) % k.taskCount = k.current <;> simp [same, dead])
    (.inr ⟨by omega, dead⟩)
  cases found : (k.slotsAfter (k.taskCount - 1)).find? fun next =>
      next != k.current && (k.deadTasks next).ready with
  | none =>
    -- The boot thread is always there to be dispatched.
    have idle := scan.2 found 0
    rw [others 0 (by omega), (table.threads 0 (by decide)).1] at idle
    exact absurd idle (by simp)
  | some next =>
    have follows := scan.1 next found
    have other : next ≠ k.current := fun same => by
      rw [same] at follows
      exact absurd (follows.1.symm.trans dead) (by simp)
    have kept := others next other
    have loaded : (if (k.tasks next).flags = .user then (k.tasks next).cr3 else kernelPd) =
        spaceOf (k.tasks next) := rfl
    refine ⟨next, other, follows, ?_⟩
    unfold schedExitCurrent
    simp only
    rw [parkSpace_eq table user]
    simp only [slotsAfter] at found
    simp only [slotsAfter, found, modify, userSetKernelStack_eq, pagingSwitch, reapZombies, kept,
      Function.update_self, loaded]
    by_cases spaceless : (k.tasks k.current).cr3 = 0
    · simp [spaceless, exited, setEsp0]
    · cases destroyed : pagingDestroyAddrSpace acc (k.sys.machine.pagingSwitch (spaceOf (k.tasks next)))
        (k.tasks k.current).cr3 with
      | none => simp [spaceless, destroyAddrSpace, destroyed]
      | some m => simp [spaceless, destroyAddrSpace, destroyed, exited, setEsp0]

section Exits

variable {acc : Access} {k' : Kernel} {u : Nat}

theorem ForkExit.current {r parent pid : Nat} (exit : k.ForkExit acc r parent pid k') :
    k'.current = k.current := by
  cases exit <;> rfl

theorem ForkExit.bootStack {r parent pid : Nat} (exit : k.ForkExit acc r parent pid k') :
    k'.bootStack = k.bootStack := by
  cases exit <;> rfl

theorem CreateExit.current {entry cr3 pid : Nat} (exit : k.CreateExit entry cr3 pid k') :
    k'.current = k.current := by
  cases exit <;> rfl

theorem addTask_other {slot : Nat} (t : Task) (free : k.FreeSlot slot)
    (ready : (k.tasks u).ready = true) :
    (k.addTask slot t).tasks u = k.tasks u := by
  have other : u ≠ slot := by
    rintro rfl
    exact absurd (ready.symm.trans free.free) (by simp)
  exact Function.update_of_ne other _ _

theorem ForkExit.task_kept {r parent pid : Nat} (exit : k.ForkExit acc r parent pid k')
    (ready : (k.tasks u).ready = true) : k'.tasks u = k.tasks u := by
  cases exit with
  | tableFull => rfl
  | noSpace => rfl
  | noCopy => rfl
  | noStack free => exact addTask_other _ free ready
  | forked free => exact addTask_other _ free ready

theorem CreateExit.task_kept {entry cr3 pid : Nat} (exit : k.CreateExit entry cr3 pid k')
    (ready : (k.tasks u).ready = true) : k'.tasks u = k.tasks u := by
  cases exit with
  | tableFull => rfl
  | noStack free => exact addTask_other _ free ready
  | noArea free => exact addTask_other _ free ready
  | created free => exact addTask_other _ free ready

end Exits

end Kernel

end NovaKernel

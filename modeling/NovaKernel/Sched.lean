import NovaKernel.KernelMemory
import NovaKernel.User

set_option autoImplicit false

namespace NovaKernel

open FirstFit Machine

def maxTasks : Nat := 16
def taskStack : Nat := 0x4000
def irqStack : Nat := 0x2000
def frameBytes : Nat := 0x100

def gdtCodeSel : Nat := 0x08
def gdtUcodeSel : Nat := 0x1B
def gdtUdataSel : Nat := 0x23

inductive TaskFlags
  | kernel
  | user
  deriving DecidableEq

-- The words of an interrupt frame: `user_esp` and `user_ss` are pushed on entry from ring 3 only.
def frameWords : TaskFlags → Nat
  | .kernel => 17
  | .user => 19

-- `cr3` is a frame number, like every page directory address.
structure Task where
  pid : Nat
  ready : Bool
  flags : TaskFlags
  esp : Nat
  stackBottom : Nat
  irqStackTop : Nat
  cr3 : Nat
  sliceLeft : Nat
  -- Not in the source: the block the first frame was built in, and the frame `esp` was set to.
  firstFrame : Nat × Nat
  saved : List Nat
  deriving DecidableEq

-- What `memset(t, 0, sizeof(*t))` leaves.
def Task.zero : Task where
  pid := 0
  ready := false
  flags := .kernel
  esp := 0
  stackBottom := 0
  irqStackTop := 0
  cr3 := 0
  sliceLeft := 0
  firstFrame := (0, 0)
  saved := []

-- `sys` and `heap` are the memory with the address spaces and blocks handed out so far.
structure Kernel where
  sys : Sys
  heap : Heap
  tasks : Nat → Task
  taskCount : Nat
  current : Nat
  nextPid : Nat
  schedReady : Bool
  -- `sched_current_frame`, 0 for NULL.
  frame : Nat
  zombieCr3 : Nat
  -- The TSS entry.
  esp0 : Nat
  -- Where the linker put the stack of the boot thread.
  bootStack : Nat
  -- Not in the source: the task structures set up so far.
  created : Nat

/-- How a handler ends: it returns to the stub, it unwinds another frame, no task is left, or
the kernel halts in PANIC. -/
inductive Outcome
  | returns (k : Kernel)
  | unwinds (k : Kernel) (esp : Nat)
  | halts (k : Kernel)
  | panics

namespace Kernel

def kmalloc (k : Kernel) (size : Nat) : Option Nat × Kernel :=
  let (ptr, heap) := k.heap.kmalloc size
  (ptr, { k with heap := heap })

def kfree (k : Kernel) (ptr : Nat) : Kernel := { k with heap := k.heap.kfree ptr }

def setWord (k : Kernel) (addr value : Nat) : Kernel :=
  { k with heap := ⟨k.heap.ram.set addr value, k.heap.allocated⟩ }

def writeWords (k : Kernel) (addr : Nat) (words : List Nat) : Kernel :=
  { k with heap := ⟨k.heap.ram.writeWords addr words, k.heap.allocated⟩ }

def createAddrSpace (acc : Access) (k : Kernel) : Option (Option Nat × Kernel) := do
  let (cr3, m) ← pagingCreateAddrSpace acc k.sys.machine
  return (cr3, { k with sys := ⟨m, cr3.elim k.sys.live (insert · k.sys.live)⟩ })

def forkAddrSpace (acc : Access) (k : Kernel) (parent : Nat) : Option (Option Nat × Kernel) := do
  let (cr3, m) ← pagingForkAddrSpace acc k.sys.machine parent
  return (cr3, { k with sys := ⟨m, cr3.elim k.sys.live (insert · k.sys.live)⟩ })

def destroyAddrSpace (acc : Access) (k : Kernel) (cr3 : Nat) : Option Kernel := do
  let m ← pagingDestroyAddrSpace acc k.sys.machine cr3
  return { k with sys := ⟨m, k.sys.live.erase cr3⟩ }

def mapUserRegion (acc : Access) (k : Kernel) (cr3 vaddr nbytes : Nat) :
    Option (Bool × Kernel) := do
  let (ok, m) ← pagingMapUserRegion acc k.sys.machine cr3 vaddr nbytes
  return (ok, { k with sys := ⟨m, k.sys.live⟩ })

def pagingSwitch (k : Kernel) (cr3 : Nat) : Kernel :=
  { k with sys := ⟨k.sys.machine.pagingSwitch cr3, k.sys.live⟩ }

def userSetKernelStack (k : Kernel) (top : Nat) : Kernel :=
  if top ≠ 0 then { k with esp0 := top } else k

def modify (k : Kernel) (slot : Nat) (change : Task → Task) : Kernel :=
  { k with tasks := Function.update k.tasks slot (change (k.tasks slot)) }

def setEsp (k : Kernel) (slot sp : Nat) : Kernel :=
  k.modify slot fun t => { t with esp := sp, saved := k.heap.ram.readWords sp (frameWords t.flags) }

-- MAX_TASKS when the table is full.
def allocSlot (k : Kernel) : Nat × Kernel :=
  match firstFree (fun i => (k.tasks i).ready) k.taskCount with
  | some i => (i, k)
  | none =>
    if k.taskCount < maxTasks then (k.taskCount, { k with taskCount := k.taskCount + 1 })
    else (maxTasks, k)

def initTask (k : Kernel) (slot : Nat) (flags : TaskFlags) : Kernel :=
  { k with
    tasks := Function.update k.tasks slot { Task.zero with pid := k.nextPid, ready := true, flags := flags }
    nextPid := (k.nextPid + 1) % 2 ^ 32
    created := k.created + 1 }

def allocIrqStack (k : Kernel) (slot : Nat) : Bool × Kernel :=
  if (k.tasks slot).irqStackTop ≠ 0 then (true, k)
  else
    match k.kmalloc irqStack with
    | (none, k) => (false, k)
    | (some base, k) => (true, k.modify slot fun t => { t with irqStackTop := base + irqStack })

-- From the last push up: err_code, int_no, pushad and the segments, all zero, then the return
-- frame.
def kernelFrame (fn : Nat) : List Nat :=
  List.replicate 14 0 ++ [fn, gdtCodeSel, 0x202]

def taskSetupStack (k : Kernel) (slot fn : Nat) : Kernel :=
  let sp := (k.tasks slot).stackBottom + taskStack - 4 * 17
  (k.writeWords sp (kernelFrame fn)).setEsp slot sp

def userFrame (entry : Nat) : List Nat :=
  List.replicate 14 0 ++ [entry, gdtUcodeSel, 0x202, userStackTop, gdtUdataSel]

def taskSetupUserStack (k : Kernel) (slot entry : Nat) : Kernel :=
  match k.kmalloc 0x1000 with
  | (none, k) => k
  | (some area, k) =>
    let sp := area + 0x1000 - 4 * 19
    let k := k.modify slot fun t => { t with firstFrame := (area, 0x1000) }
    (k.writeWords sp (userFrame entry)).setEsp slot sp

def schedAdoptCurrent (k : Kernel) : Nat × Kernel :=
  if maxTasks ≤ k.taskCount then (0, k)
  else
    let pid := k.nextPid
    let k := (k.initTask k.taskCount .kernel).modify k.taskCount fun t => { t with sliceLeft := 5 }
    (pid, { k with current := k.taskCount, taskCount := k.taskCount + 1 })

-- `memset(stack_bottom, 0xCC, TASK_STACK)`.
def stackFill : List Nat := List.replicate (taskStack / 4) 0xCCCCCCCC

def taskCreate (k : Kernel) (fn : Nat) : Nat × Kernel :=
  let (slot, k) := k.allocSlot
  if maxTasks ≤ slot then (0, k)
  else
    let pid := k.nextPid
    let k := k.initTask slot .kernel
    match k.kmalloc taskStack with
    | (none, k) => (0, k.modify slot fun t => { t with ready := false })
    | (some bottom, k) =>
      let k := k.modify slot fun t => { t with stackBottom := bottom }
      match k.allocIrqStack slot with
      | (false, k) => (0, k.modify slot fun t => { t with ready := false })
      | (true, k) =>
        let k := k.writeWords bottom stackFill
        let k := k.modify slot fun t => { t with sliceLeft := 5 }
        (pid, k.taskSetupStack slot fn)

def taskCreateUser (k : Kernel) (entry cr3 : Nat) : Nat × Kernel :=
  let (slot, k) := k.allocSlot
  if maxTasks ≤ slot then (0, k)
  else
    let pid := k.nextPid
    let k := k.initTask slot .user
    match k.allocIrqStack slot with
    | (false, k) => (0, k.modify slot fun t => { t with ready := false })
    | (true, k) =>
      let k := k.modify slot fun t => { t with cr3 := cr3, sliceLeft := 5 }
      (pid, k.taskSetupUserStack slot entry)

-- `memcpy` of FRAME_BYTES bytes of kernel memory. The source runs past the top of the caller's
-- stack, and the last page mapped is the last one of the heap.
def copyFrame (k : Kernel) (dst src : Nat) : Option Kernel :=
  if src + frameBytes ≤ heapEnd then
    some (k.writeWords dst (k.heap.ram.readWords src (frameBytes / 4)))
  else none

-- `none` is a fault in ring 0.
def taskForkUser (acc : Access) (k : Kernel) (parentFrame parentCr3 : Nat) :
    Option (Nat × Kernel) :=
  let (slot, k) := k.allocSlot
  if maxTasks ≤ slot then some (0, k)
  else do
    let (childCr3, k) ← k.forkAddrSpace acc parentCr3
    match childCr3 with
    | none => return (0, k)
    | some childCr3 =>
      match k.kmalloc frameBytes with
      | (none, k) =>
        let k ← k.destroyAddrSpace acc childCr3
        return (0, k)
      | (some copy, k) =>
        let k ← k.copyFrame copy parentFrame
        let pid := k.nextPid
        let k := k.initTask slot .user
        match k.allocIrqStack slot with
        | (false, k) =>
          let k := k.modify slot fun t => { t with ready := false }
          let k ← (k.kfree copy).destroyAddrSpace acc childCr3
          return (0, k)
        | (true, k) =>
          let k := k.modify slot fun t =>
            { t with cr3 := childCr3, sliceLeft := 5, firstFrame := (copy, frameBytes) }
          -- The pushad eax slot of the child.
          return (pid, (k.setWord (copy + 44) 0).setEsp slot copy)

def reapZombies (acc : Access) (k : Kernel) : Option Kernel :=
  if k.zombieCr3 ≠ 0 then do
    let k ← k.destroyAddrSpace acc k.zombieCr3
    return { k with zombieCr3 := 0 }
  else some k

def switchTo (k : Kernel) (frame next : Nat) : Outcome :=
  let old := k.current
  if maxTasks ≤ next ∨ maxTasks ≤ old ∨ (k.tasks next).ready = false then .returns k
  else
    let k :=
      if (k.tasks old).flags = .user ∨ (k.tasks next).flags = .user then
        k.pagingSwitch (if (k.tasks next).flags = .user then (k.tasks next).cr3 else kernelPd)
      else k
    let k := k.setEsp old frame
    let k := k.userSetKernelStack (k.tasks next).irqStackTop
    .unwinds { k with current := next } (k.tasks next).esp

-- The slots after the current one, cyclically, as the two loops visit them.
def slotsAfter (k : Kernel) (n : Nat) : List Nat :=
  (List.range' 1 n).map fun i => (k.current + i) % k.taskCount

def schedTick (k : Kernel) : Outcome :=
  if k.taskCount < 2 then .returns k
  else if k.taskCount ≤ k.current then .returns k
  else if k.schedReady = false then .returns k
  else if 0 < (k.tasks k.current).sliceLeft then
    .returns (k.modify k.current fun t => { t with sliceLeft := t.sliceLeft - 1 })
  else
    match (k.slotsAfter k.taskCount).find? fun next => next < k.taskCount && (k.tasks next).ready with
    | none => .returns k
    | some next =>
      if k.frame = 0 then .returns k
      else
        let k := (k.setEsp k.current k.frame).modify k.current fun t => { t with sliceLeft := 5 }
        let k := k.modify next fun t => { t with sliceLeft := 5 }
        k.switchTo k.frame next

def schedExitCurrent (acc : Access) (k : Kernel) : Outcome :=
  let me := k.current
  let k :=
    if (k.tasks me).flags = .user ∧ (k.tasks me).cr3 ≠ 0 then
      { k.modify me fun t => { t with cr3 := 0 } with zombieCr3 := (k.tasks me).cr3 }
    else k
  let k := k.modify me fun t => { t with ready := false }
  match (k.slotsAfter (k.taskCount - 1)).find? fun next => next != me && (k.tasks next).ready with
  | none => .halts k
  | some next =>
    let k := k.modify next fun t => { t with sliceLeft := 5 }
    let k := k.pagingSwitch (if (k.tasks next).flags = .user then (k.tasks next).cr3 else kernelPd)
    let k := k.userSetKernelStack (k.tasks next).irqStackTop
    match k.reapZombies acc with
    | none => .panics
    | some k => .unwinds { k with current := next } (k.tasks next).esp

def schedEnterIrq (k : Kernel) (r : Nat) : Kernel :=
  let k :=
    if k.schedReady = false ∧ 0 < k.taskCount ∧ (k.tasks k.current).esp = 0 then k.setEsp k.current r
    else k
  { k with frame := r, schedReady := true }

end Kernel

end NovaKernel

import NovaKernel.Isr
import NovaKernel.Isolation

set_option autoImplicit false

namespace NovaKernel

open Machine

-- The calls `user_spawn` makes one after the other; the shell may be preempted between them.
inductive Spawn
  | idle
  | created (cr3 : Nat)
  -- Inside `user_load_elf`.
  | loading (cr3 old : Nat)
  | loaded (cr3 old entry : Nat)
  | stacked (cr3 old entry : Nat)
  | finishing (cr3 old pid : Nat)
  | failing (cr3 old : Nat)
  | dropping (cr3 : Nat)
  deriving DecidableEq

structure System where
  kernel : Kernel
  spawn : Spawn
  -- What the shell's command has allocated.
  buffers : Finset Nat
  -- The IF flag of the kernel threads, once the boot thread has set it.
  enabled : Bool
  -- Not in the source: the CR3 that was loaded when the task was last preempted.
  preempted : Nat → Option Nat

inductive UserStored : Machine → Machine → Prop
  | nil {s : Machine} : UserStored s s
  | cons {s u : Machine} {v off : Nat} {value : Byte} {t : Translation} :
      InUserWindow v → off < 0x1000 → s.walk v = some t → t.writable = true →
      UserStored (s.putByte t.frame off value) u → UserStored s u

/-- A console or file system call stores to user buffers and to the caller's eax. -/
def FileCall (k : Kernel) (r : Nat) (k' : Kernel) : Prop :=
  ∃ m value, UserStored k.sys.machine m ∧
    k' = { k with sys := ⟨m, k.sys.live⟩ : Kernel }.setEax r value

structure Arrival where
  regs : Regs
  cr2 : Nat
  -- Where the frame is built, and what the handler's calls leave below it.
  r : Nat
  scratch : Ram
  others : Kernel → Nat → Option Kernel

structure Arrives (s : System) (a : Arrival) : Prop where
  cr2 : a.cr2 < 2 ^ 32
  others : ∀ k r k', a.others k r = some k' → FileCall k r k'
  user : (s.kernel.tasks s.kernel.current).flags = .user →
    a.regs.cs % 4 = 3 ∧ a.r = s.kernel.esp0 - 4 * 19
  kernel : (s.kernel.tasks s.kernel.current).flags = .kernel →
    s.enabled = true ∧ 32 ≤ a.regs.intNo ∧ a.regs.intNo ≤ 47 ∧ a.regs.cs = gdtCodeSel ∧
      a.r % 4 = 0 ∧ s.kernel.stackLow s.kernel.current ≤ a.r ∧
      a.r + 4 * 17 ≤ s.kernel.stackHigh s.kernel.current

def Kernel.entered (k : Kernel) (a : Arrival) : Kernel :=
  k.pushFrame (k.stackLow k.current) a.r (a.regs.words.take (frameWords (k.tasks k.current).flags)) a.scratch

def Kernel.interrupt (acc : Access) (k : Kernel) (a : Arrival) : Outcome :=
  (k.entered a).isrCommonHandler acc a.others a.cr2 a.r

inductive Ending
  | returned
  | switched (next : Nat)
  | died (next : Nat)
  deriving DecidableEq

inductive KernelEvent
  | interrupt (regs : Regs) (cr2 : Nat) (ending : Ending)
  | userStore
  | cacheFill
  | threadStore
  | shell
  -- The shell enters this stage of `user_spawn`.
  | spawn (stage : Spawn)

namespace System

def setKernel (s : System) (k : Kernel) : System := { s with kernel := k }

-- The task that was running is preempted, unless it is gone; a slot without a task starts afresh.
def dispatched (s : System) (k : Kernel) : System where
  kernel := k
  spawn := s.spawn
  buffers := s.buffers
  enabled := s.enabled
  preempted i :=
    if (k.tasks i).ready = false then none
    else if i = s.kernel.current then some s.kernel.sys.machine.cr3
    else s.preempted i

def spawning (s : System) (k : Kernel) (stage : Spawn) : System :=
  { s with kernel := k, spawn := stage }

end System

def endingOf (k k' : Kernel) : Ending :=
  if (k'.tasks k.current).ready then .switched k'.current else .died k'.current

inductive KernelStep (acc : Access) : System → KernelEvent → System → Prop
  | returned {s : System} {a : Arrival} {k : Kernel} :
      Arrives s a → s.kernel.interrupt acc a = .returns k →
      KernelStep acc s (.interrupt a.regs a.cr2 .returned) (s.setKernel k)
  -- From ESP 0 the CPU does not come back.
  | unwound {s : System} {a : Arrival} {k : Kernel} {esp : Nat} :
      Arrives s a → s.kernel.interrupt acc a = .unwinds k esp → esp ≠ 0 →
      KernelStep acc s (.interrupt a.regs a.cr2 (endingOf s.kernel k)) (s.dispatched k)
  | userStore {s : System} {v off : Nat} {value : Byte} {t : Translation} :
      (s.kernel.tasks s.kernel.current).flags = .user → v < 2 ^ 20 → off < 0x1000 →
      InUse s.kernel.sys.machine v t → t.user = true → t.writable = true →
      KernelStep acc s .userStore
        (s.setKernel { s.kernel with sys := ⟨s.kernel.sys.machine.putByte t.frame off value, s.kernel.sys.live⟩ })
  | cacheFill {s : System} {v : Nat} {t : Translation} :
      v < 2 ^ 20 → s.kernel.sys.machine.walk v = some t →
      KernelStep acc s .cacheFill
        (s.setKernel { s.kernel with
          sys := ⟨{ s.kernel.sys.machine with tlb := (v, t) :: s.kernel.sys.machine.tlb }, s.kernel.sys.live⟩ })
  | threadStore {s : System} {addr value : Nat} :
      (s.kernel.tasks s.kernel.current).flags = .kernel →
        s.kernel.stackLow s.kernel.current ≤ addr →
      addr < s.kernel.stackHigh s.kernel.current →
      KernelStep acc s .threadStore (s.setKernel (s.kernel.setWord addr value))
  | alloc {s : System} {size : Nat} {result : Option Nat} {k : Kernel} :
      s.kernel.current = 0 → s.spawn = .idle → size ≤ heapEnd - heapStart →
      s.kernel.kmalloc size = (result, k) →
      KernelStep acc s .shell
        { s with kernel := k, buffers := result.elim s.buffers (insert · s.buffers) }
  | free {s : System} {ptr : Nat} :
      s.kernel.current = 0 → s.spawn = .idle → ptr ∈ s.buffers →
      KernelStep acc s .shell { s with kernel := s.kernel.kfree ptr, buffers := s.buffers.erase ptr }
  | bufferStore {s : System} {ptr addr value : Nat} :
      s.kernel.current = 0 → ptr ∈ s.buffers → ptr ≤ addr →
      addr < ptr + s.kernel.heap.ram.blockSize (ptr - sizeofBlock) →
      KernelStep acc s .shell (s.setKernel (s.kernel.setWord addr value))
  | sti {s : System} :
      s.kernel.current = 0 → s.spawn = .idle → KernelStep acc s .shell { s with enabled := true }
  | notCreated {s : System} {k : Kernel} :
      s.kernel.current = 0 → s.spawn = .idle → s.kernel.createAddrSpace acc = some (none, k) →
      KernelStep acc s (.spawn .idle) (s.spawning k .idle)
  | created {s : System} {k : Kernel} {cr3 : Nat} :
      s.kernel.current = 0 → s.spawn = .idle → s.kernel.createAddrSpace acc = some (some cr3, k) →
      KernelStep acc s (.spawn (.created cr3)) (s.spawning k (.created cr3))
  | entered {s : System} {cr3 : Nat} :
      s.kernel.current = 0 → s.spawn = .created cr3 →
      KernelStep acc s (.spawn (.loading cr3 s.kernel.sys.machine.cr3))
        (s.spawning (s.kernel.pagingSwitch cr3) (.loading cr3 s.kernel.sys.machine.cr3))
  -- The loader maps a segment and fills it in.
  | mapped {s : System} {k : Kernel} {cr3 old vaddr nbytes : Nat} {ok : Bool} :
      s.kernel.current = 0 → s.spawn = .loading cr3 old → userTextBase ≤ vaddr →
      vaddr + nbytes ≤ userStackTop → s.kernel.mapUserRegion acc cr3 vaddr nbytes = some (ok, k) →
      KernelStep acc s (.spawn (.loading cr3 old)) (s.spawning k (.loading cr3 old))
  | filled {s : System} {m : Machine} {cr3 old : Nat} :
      s.kernel.current = 0 → s.spawn = .loading cr3 old → UserStored s.kernel.sys.machine m →
      KernelStep acc s (.spawn (.loading cr3 old))
        (s.spawning { s.kernel with sys := ⟨m, s.kernel.sys.live⟩ } (.loading cr3 old))
  | loaded {s : System} {cr3 old entry : Nat} :
      s.kernel.current = 0 → s.spawn = .loading cr3 old → entry ≠ 0 →
      KernelStep acc s (.spawn (.loaded cr3 old entry)) (s.spawning s.kernel (.loaded cr3 old entry))
  | rejected {s : System} {cr3 old : Nat} :
      s.kernel.current = 0 → s.spawn = .loading cr3 old →
      KernelStep acc s (.spawn (.failing cr3 old)) (s.spawning s.kernel (.failing cr3 old))
  | stacked {s : System} {k : Kernel} {cr3 old entry : Nat} :
      s.kernel.current = 0 → s.spawn = .loaded cr3 old entry →
      s.kernel.mapUserRegion acc cr3 (userStackTop - 0x2000) 0x2000 = some (true, k) →
      KernelStep acc s (.spawn (.stacked cr3 old entry)) (s.spawning k (.stacked cr3 old entry))
  | notStacked {s : System} {k : Kernel} {cr3 old entry : Nat} :
      s.kernel.current = 0 → s.spawn = .loaded cr3 old entry →
      s.kernel.mapUserRegion acc cr3 (userStackTop - 0x2000) 0x2000 = some (false, k) →
      KernelStep acc s (.spawn (.failing cr3 old)) (s.spawning k (.failing cr3 old))
  | taskCreated {s : System} {k : Kernel} {cr3 old entry pid : Nat} :
      s.kernel.current = 0 → s.spawn = .stacked cr3 old entry →
      s.kernel.taskCreateUser entry cr3 = (pid, k) →
      KernelStep acc s (.spawn (.finishing cr3 old pid)) (s.spawning k (.finishing cr3 old pid))
  | finished {s : System} {cr3 old pid : Nat} :
      s.kernel.current = 0 → s.spawn = .finishing cr3 old pid → pid ≠ 0 →
      KernelStep acc s (.spawn .idle) (s.spawning (s.kernel.pagingSwitch old) .idle)
  | notFinished {s : System} {cr3 old : Nat} :
      s.kernel.current = 0 → s.spawn = .finishing cr3 old 0 →
      KernelStep acc s (.spawn (.dropping cr3)) (s.spawning (s.kernel.pagingSwitch old) (.dropping cr3))
  | aborted {s : System} {cr3 old : Nat} :
      s.kernel.current = 0 → s.spawn = .failing cr3 old →
      KernelStep acc s (.spawn (.dropping cr3)) (s.spawning (s.kernel.pagingSwitch old) (.dropping cr3))
  | dropped {s : System} {k : Kernel} {cr3 : Nat} :
      s.kernel.current = 0 → s.spawn = .dropping cr3 → s.kernel.destroyAddrSpace acc cr3 = some k →
      KernelStep acc s (.spawn .idle) (s.spawning k .idle)

/-- What the boot finds: the memory, and where the linker put the stacks and the threads. -/
structure BootImage where
  mem : Nat → Nat → Word
  ram : Ram
  stack : Nat
  sysStackTop : Nat
  demoA : Nat
  demoB : Nat
  inside : 0x100000 ≤ stack ∧ stack + taskStack ≤ 0x130000
  aligned : stack % 0x1000 = 0

def BootImage.initial (image : BootImage) : Kernel where
  sys := bootSys image.mem
  heap := ⟨kheapInit image.ram, ∅⟩
  tasks _ := Task.zero
  taskCount := 0
  current := 0
  nextPid := 1
  schedReady := false
  frame := 0
  zombieCr3 := 0
  esp0 := image.sysStackTop
  bootStack := image.stack
  created := 0

-- The threads `kernel_main` starts.
def Kernel.startThreads (k : Kernel) (demoA demoB : Nat) : Kernel :=
  ((k.schedAdoptCurrent.2.taskCreate demoA).2.taskCreate demoB).2

def BootImage.kernel (image : BootImage) : Kernel :=
  image.initial.startThreads image.demoA image.demoB

-- The boot thread is about to run `try_load_user_app`, which is what the shell's `run` does.
def bootSystem (image : BootImage) : System where
  kernel := image.kernel
  spawn := .idle
  buffers := ∅
  enabled := false
  preempted _ := none

end NovaKernel

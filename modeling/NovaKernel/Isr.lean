import NovaKernel.Sched

set_option autoImplicit false

namespace NovaKernel

-- `struct regs`, in the order of the words.
structure Regs where
  gs : Nat
  fs : Nat
  es : Nat
  ds : Nat
  edi : Nat
  esi : Nat
  ebp : Nat
  esp : Nat
  ebx : Nat
  edx : Nat
  ecx : Nat
  eax : Nat
  intNo : Nat
  errCode : Nat
  eip : Nat
  cs : Nat
  eflags : Nat
  userEsp : Nat
  userSs : Nat

namespace Regs

def words (r : Regs) : List Nat :=
  [r.gs, r.fs, r.es, r.ds, r.edi, r.esi, r.ebp, r.esp, r.ebx, r.edx, r.ecx, r.eax, r.intNo,
    r.errCode, r.eip, r.cs, r.eflags, r.userEsp, r.userSs]

def offEbx : Nat := 32
def offEax : Nat := 44
def offIntNo : Nat := 48
def offErrCode : Nat := 52

end Regs

def nrGetpid : Nat := 1
def nrExit : Nat := 2
def nrFork : Nat := 3
def nrSleep : Nat := 7

namespace Kernel

def word (k : Kernel) (addr : Nat) : Nat := k.heap.ram addr

def setEax (k : Kernel) (r value : Nat) : Kernel := k.setWord (r + Regs.offEax) value

-- `others` stands for the console and file system calls, which touch no task; `none` is a fault
-- in ring 0.
def syscallDispatch (acc : Access) (others : Kernel → Nat → Option Kernel) (k : Kernel) (r : Nat) :
    Outcome :=
  let nr := k.word (r + Regs.offEax)
  if nr = nrGetpid then .returns (k.setEax r (k.tasks k.current).pid)
  else if nr = nrExit then k.schedExitCurrent acc
  else if nr = nrFork then
    if (k.tasks k.current).flags = .user then
      match k.taskForkUser acc r (k.tasks k.current).cr3 with
      | none => .panics
      | some (pid, k) => .returns (k.setEax r pid)
    else .returns (k.setEax r (2 ^ 32 - 1))
  else if nr = nrSleep then
    let want := min (k.word (r + Regs.offEbx)) 1000
    let k := k.modify k.current fun t => { t with sliceLeft := if want ≠ 0 then want else 1 }
    .returns (k.setEax r 0)
  else
    match others k r with
    | none => .panics
    | some k => .returns k

-- The stub passes `r`, the address of the frame it built.
def isrCommonHandler (acc : Access) (others : Kernel → Nat → Option Kernel) (cr2 : Nat) (k : Kernel)
    (r : Nat) : Outcome :=
  let intNo := k.word (r + Regs.offIntNo)
  let errCode := BitVec.ofNat 32 (k.word (r + Regs.offErrCode))
  if intNo < 32 then
    if intNo = 14 ∧ hasFlag errCode pteU = true then
      match pagingCowFault acc k.sys.machine cr2 errCode with
      | none => .panics
      | some (true, m) => .returns { k with sys := ⟨m, k.sys.live⟩ }
      | some (false, m) => { k with sys := ⟨m, k.sys.live⟩ : Kernel }.schedExitCurrent acc
    else .panics
  else if intNo ≤ 47 then
    let k := k.schedEnterIrq r
    -- The timer is the only handler that concerns the scheduler.
    if intNo = 32 then k.schedTick else .returns k
  else if intNo = 128 then (k.schedEnterIrq r).syscallDispatch acc others r
  else .returns k

/-- The CPU and the stub push the frame; below it lies what the handler's calls leave there. -/
def pushFrame (k : Kernel) (low r : Nat) (words : List Nat) (scratch : Ram) : Kernel :=
  { k with heap :=
      ⟨fun a => if low ≤ a ∧ a < r then scratch a else k.heap.ram.writeWords r words a, k.heap.allocated⟩ }

def stackLow (k : Kernel) (slot : Nat) : Nat :=
  match (k.tasks slot).flags with
  | .user => (k.tasks slot).irqStackTop - irqStack
  | .kernel => if (k.tasks slot).stackBottom = 0 then k.bootStack else (k.tasks slot).stackBottom

def stackHigh (k : Kernel) (slot : Nat) : Nat :=
  match (k.tasks slot).flags with
  | .user => (k.tasks slot).irqStackTop
  | .kernel => k.stackLow slot + taskStack

end Kernel

end NovaKernel

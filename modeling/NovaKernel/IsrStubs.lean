import NovaKernel.IsrSpec

set_option autoImplicit false

namespace NovaKernel

/-! The stubs between the CPU and the handlers, one push and pop after the other. -/

/-- The registers, and memory as the kernel addresses it. While the kernel runs `eip` is the address it is to go
back to. -/
structure Cpu where
  gs : Nat
  fs : Nat
  es : Nat
  ds : Nat
  edi : Nat
  esi : Nat
  ebp : Nat
  esp : Nat
  ebx : Nat
  edx : Nat
  ecx : Nat
  eax : Nat
  eip : Nat
  cs : Nat
  eflags : Nat
  ss : Nat
  ram : Ram

def gdtDataSel : Nat := 0x10

namespace Cpu

section Instructions

variable (c : Cpu)

def push (v : Nat) : Cpu := { c with esp := c.esp - 4, ram := c.ram.set (c.esp - 4) v }

def pop : Nat × Cpu := (c.ram c.esp, { c with esp := c.esp + 4 })

-- The value pushed for ESP is the one before the first push.
def pusha : Cpu :=
  let esp := c.esp
  (((((((c.push c.eax).push c.ecx).push c.edx).push c.ebx).push esp).push c.ebp).push c.esi).push c.edi

-- The word for ESP is skipped.
def popa : Cpu :=
  let (edi, c) := c.pop
  let (esi, c) := c.pop
  let (ebp, c) := c.pop
  let (_, c) := c.pop
  let (ebx, c) := c.pop
  let (edx, c) := c.pop
  let (ecx, c) := c.pop
  let (eax, c) := c.pop
  { c with edi := edi, esi := esi, ebp := ebp, ebx := ebx, edx := edx, ecx := ecx, eax := eax }

def fromUser : Bool := c.cs % 4 = 3

/-- An interrupt gate: from ring 3 the CPU changes to the stack of the TSS first. Some exceptions push an error
code. -/
def gate (esp0 : Nat) (code : Option Nat) : Cpu :=
  let e := if c.fromUser then ({ c with ss := gdtDataSel, esp := esp0 }.push c.ss).push c.esp else c
  let e := ((e.push c.eflags).push c.cs).push c.eip
  let e := { e with cs := gdtCodeSel, eflags := c.eflags - c.eflags / 0x200 % 2 * 0x200 }
  match code with
  | none => e
  | some v => e.push v

-- Back to ring 3 the CPU takes the stack from the frame.
def iret : Cpu :=
  let (eip, c) := c.pop
  let (cs, c) := c.pop
  let (eflags, c) := c.pop
  let c := { c with eip := eip, cs := cs, eflags := eflags }
  if c.fromUser then
    let (esp, c) := c.pop
    let (ss, c) := c.pop
    { c with esp := esp, ss := ss }
  else c

end Instructions

-- The vectors the stubs take to have an error code.
def isrErr (n : Nat) : Bool := n == 8 || (10 ≤ n && n ≤ 14)

def isrStub (n : Nat) (c : Cpu) : Cpu := if isrErr n then c.push n else (c.push 0).push n

def isrCommon (handler back : Nat) (c : Cpu) : Cpu :=
  let c := ((((c.pusha).push c.ds).push c.es).push c.fs).push c.gs
  let c := { c with ds := gdtDataSel, es := gdtDataSel, fs := gdtDataSel, gs := gdtDataSel, eax := handler }
  (c.push c.esp).push back

def unwind (c : Cpu) : Cpu :=
  let (gs, c) := c.pop
  let (fs, c) := c.pop
  let (es, c) := c.pop
  let (ds, c) := c.pop
  let c := { c with gs := gs, fs := fs, es := es, ds := ds }.popa
  iret { c with esp := c.esp + 8 }

-- The handler has returned to `isr_common`, which drops its argument.
def isrReturn (c : Cpu) : Cpu := unwind { c with esp := c.esp + 4 }

-- The end of `switch_to` and of `sched_exit_current`.
def resume (esp : Nat) (c : Cpu) : Cpu := unwind { c with esp := esp }

section Frame

variable (c : Cpu) (esp0 n : Nat) (code : Option Nat)

def frameSize : Nat := if c.fromUser then 19 else 17

def frameTop : Nat := if c.fromUser then esp0 else c.esp

def frameAt : Nat := c.frameTop esp0 - 4 * c.frameSize

def frameRegs : Regs where
  gs := c.gs
  fs := c.fs
  es := c.es
  ds := c.ds
  edi := c.edi
  esi := c.esi
  ebp := c.ebp
  esp := c.frameAt esp0 + 48
  ebx := c.ebx
  edx := c.edx
  ecx := c.ecx
  eax := c.eax
  intNo := n
  errCode := code.getD 0
  eip := c.eip
  cs := c.cs
  eflags := c.eflags
  userEsp := c.esp
  userSs := c.ss

def frame : List Nat := (c.frameRegs esp0 n code).words.take c.frameSize

def interrupted (handler back : Nat) : Cpu := isrCommon handler back (isrStub n (c.gate esp0 code))

end Frame

-- Pushing the words from the last to the first.
def pushWords : List Nat → Cpu → Cpu
  | [], c => c
  | w :: ws, c => (pushWords ws c).push w

theorem pushWords_esp (ws : List Nat) (c : Cpu) : (pushWords ws c).esp = c.esp - 4 * ws.length := by
  induction ws with
  | nil => rfl
  | cons w ws ih =>
    have one : (pushWords (w :: ws) c).esp = (pushWords ws c).esp - 4 := rfl
    rw [one, ih, List.length_cons]
    omega

theorem pushWords_ram (ws : List Nat) (c : Cpu) (room : 4 * ws.length ≤ c.esp) :
    (pushWords ws c).ram = c.ram.writeWords (c.esp - 4 * ws.length) ws := by
  induction ws with
  | nil => rfl
  | cons w ws ih =>
    rw [List.length_cons] at room ⊢
    have next : c.esp - 4 * (ws.length + 1) + 4 = c.esp - 4 * ws.length := by omega
    have place : (pushWords ws c).esp - 4 = c.esp - 4 * (ws.length + 1) := by
      rw [pushWords_esp]
      omega
    rw [pushWords, push]
    simp only [place]
    rw [ih (by omega), Ram.writeWords_set _ _ (by omega), Ram.writeWords, next]

section Entry

variable {c : Cpu} {esp0 n : Nat} {code : Option Nat} (handler back : Nat)

theorem interrupted_pushes (room : 4 * c.frameSize ≤ c.frameTop esp0)
    (agrees : code.isSome = isrErr n) :
    (c.interrupted esp0 n code handler back).esp = c.frameAt esp0 - 4 - 4 ∧
      (c.interrupted esp0 n code handler back).ram =
        ((pushWords (c.frame esp0 n code) { c with esp := c.frameTop esp0 }).ram.set (c.frameAt esp0 - 4)
          (c.frameAt esp0)).set (c.frameAt esp0 - 4 - 4) back := by
  have errors : isrErr n = code.isSome := agrees.symm
  -- Every address below the top of the stack, as one difference.
  cases user : c.fromUser
  · simp only [frameSize, frameTop, user, Bool.false_eq_true, if_false] at room
    have saved : c.esp - 68 + 48 = c.esp - 20 := by omega
    cases code <;>
      simp only [frameSize, frameTop, frameAt, frame, frameRegs, Regs.words, List.take, pushWords,
        interrupted, isrCommon, isrStub, gate, pusha, push, user, errors, Option.isSome,
        Option.getD, Bool.false_eq_true, if_false, if_true, Nat.sub_sub, Nat.reduceAdd,
        Nat.reduceMul, saved, and_self]
  · simp only [frameSize, frameTop, user, if_true] at room
    have saved : esp0 - 76 + 48 = esp0 - 28 := by omega
    cases code <;>
      simp only [frameSize, frameTop, frameAt, frame, frameRegs, Regs.words, List.take, pushWords,
        interrupted, isrCommon, isrStub, gate, pusha, push, user, errors, Option.isSome,
        Option.getD, Bool.false_eq_true, if_false, if_true, Nat.sub_sub, Nat.reduceAdd,
        Nat.reduceMul, saved, and_self]

theorem interrupted_ram (room : 4 * c.frameSize ≤ c.frameTop esp0)
    (agrees : code.isSome = isrErr n) :
    (c.interrupted esp0 n code handler back).ram =
      ((c.ram.writeWords (c.frameAt esp0) (c.frame esp0 n code)).set (c.frameAt esp0 - 4) (c.frameAt esp0)).set
        (c.frameAt esp0 - 4 - 4) back := by
  have size : (c.frame esp0 n code).length = c.frameSize := by
    have whole : (c.frameRegs esp0 n code).words.length = 19 := rfl
    have fits : c.frameSize ≤ 19 := by
      rw [frameSize]
      split <;> decide
    rw [frame, List.length_take, whole, Nat.min_eq_left fits]
  rw [(interrupted_pushes handler back room agrees).2, pushWords_ram _ _ (by rw [size]; exact room), size]
  rfl

end Entry

section Exit

def restored (g : Regs) (r : Nat) (d : Cpu) : Cpu where
  gs := g.gs
  fs := g.fs
  es := g.es
  ds := g.ds
  edi := g.edi
  esi := g.esi
  ebp := g.ebp
  esp := if g.cs % 4 = 3 then g.userEsp else r + 68
  ebx := g.ebx
  edx := g.edx
  ecx := g.ecx
  eax := g.eax
  eip := g.eip
  cs := g.cs
  eflags := g.eflags
  ss := if g.cs % 4 = 3 then g.userSs else d.ss
  ram := d.ram

variable {g : Regs} {r size : Nat} {d : Cpu}

theorem read_word (words : d.ram.readWords r size = g.words.take size) {i : Nat} (inside : i < size)
    (whole : i < 19) : d.ram (r + 4 * i) = g.words.getD i 0 := by
  have same := congrArg (fun ws => ws.getD i 0) words
  have long : i < g.words.length := whole
  simpa [Ram.readWords, inside, long] using same

theorem resume_eq (words : d.ram.readWords r size = g.words.take size)
    (whole : size = if g.cs % 4 = 3 then 19 else 17) : resume r d = restored g r d := by
  have low : 17 ≤ size := by
    rw [whole]
    split <;> decide
  have word : ∀ i, i < 17 → d.ram (r + 4 * i) = g.words.getD i 0 := fun i inside =>
    read_word words (by omega) (by omega)
  have gs : d.ram r = g.gs := word 0 (by decide)
  have fs : d.ram (r + 4) = g.fs := word 1 (by decide)
  have es : d.ram (r + 8) = g.es := word 2 (by decide)
  have ds : d.ram (r + 12) = g.ds := word 3 (by decide)
  have edi : d.ram (r + 16) = g.edi := word 4 (by decide)
  have esi : d.ram (r + 20) = g.esi := word 5 (by decide)
  have ebp : d.ram (r + 24) = g.ebp := word 6 (by decide)
  have ebx : d.ram (r + 32) = g.ebx := word 8 (by decide)
  have edx : d.ram (r + 36) = g.edx := word 9 (by decide)
  have ecx : d.ram (r + 40) = g.ecx := word 10 (by decide)
  have eax : d.ram (r + 44) = g.eax := word 11 (by decide)
  have eip : d.ram (r + 56) = g.eip := word 14 (by decide)
  have cs : d.ram (r + 60) = g.cs := word 15 (by decide)
  have eflags : d.ram (r + 64) = g.eflags := word 16 (by decide)
  by_cases user : g.cs % 4 = 3
  · rw [if_pos user] at whole
    have userEsp : d.ram (r + 68) = g.userEsp := read_word (i := 17) words (by omega) (by decide)
    have userSs : d.ram (r + 72) = g.userSs := read_word (i := 18) words (by omega) (by decide)
    simp only [resume, unwind, pop, popa, iret, fromUser, restored, Nat.add_assoc, Nat.reduceAdd,
      gs, fs, es, ds, edi, esi, ebp, ebx, edx, ecx, eax, eip, cs, eflags, user, userEsp, userSs,
      decide_true, if_true]
  · simp only [resume, unwind, pop, popa, iret, fromUser, restored, Nat.add_assoc, Nat.reduceAdd,
      gs, fs, es, ds, edi, esi, ebp, ebx, edx, ecx, eax, eip, cs, eflags, user, decide_false,
      if_false, Bool.false_eq_true]

theorem restored_frameRegs {c : Cpu} {esp0 n : Nat} {code : Option Nat}
    (room : 4 * c.frameSize ≤ c.frameTop esp0) (ss : c.fromUser = false → c.ss = d.ss) :
    restored (c.frameRegs esp0 n code) (c.frameAt esp0) d = { c with ram := d.ram } := by
  cases user : c.fromUser
  · have ring : ¬ c.cs % 4 = 3 := of_decide_eq_false user
    simp only [frameSize, frameTop, user, Bool.false_eq_true, if_false] at room
    have back : c.esp - 4 * 17 + 68 = c.esp := by omega
    simp only [restored, frameRegs, frameAt, frameTop, frameSize, user, ring, if_false,
      Bool.false_eq_true, back, ss user]
  · have ring : c.cs % 4 = 3 := of_decide_eq_true user
    simp only [restored, frameRegs, ring, if_true]

end Exit

end Cpu

end NovaKernel

import NovaKernel.SchedSpec

set_option autoImplicit false

namespace NovaKernel

open Machine RoundRobin

theorem Regs.words_length (r : Regs) : r.words.length = 19 := rfl

theorem frameWords_le (flags : TaskFlags) : 17 ≤ frameWords flags ∧ frameWords flags ≤ 19 := by
  cases flags <;> decide

theorem cowFault_refused {acc : Access} {s m : Machine} {cr2 : Nat} {err : Word}
    (refused : pagingCowFault acc s cr2 err = some (false, m)) : m = s := by
  unfold pagingCowFault at refused
  split at refused
  · exact (Prod.mk.inj (Option.some.inj refused)).2.symm
  · split at refused
    · exact (Prod.mk.inj (Option.some.inj refused)).2.symm
    · obtain ⟨pde, -, refused⟩ := Option.bind_eq_some_iff.mp refused
      split at refused
      · exact (Prod.mk.inj (Option.some.inj refused)).2.symm
      · obtain ⟨pte, -, refused⟩ := Option.bind_eq_some_iff.mp refused
        split at refused
        · exact (Prod.mk.inj (Option.some.inj refused)).2.symm
        · split at refused
          · exact (Prod.mk.inj (Option.some.inj refused)).2.symm
          · split at refused
            · next full =>
              rw [← (Prod.mk.inj (Option.some.inj refused)).2]
              exact (machine_frameAlloc_none full).1
            · obtain ⟨_, -, refused⟩ := Option.bind_eq_some_iff.mp refused
              obtain ⟨_, -, refused⟩ := Option.bind_eq_some_iff.mp refused
              exact absurd (Prod.mk.inj (Option.some.inj refused)).1 (by simp)

namespace Kernel

variable {k : Kernel} {a : Arrival}

-- The kernel when an IRQ or system call handler runs.
def taken (k : Kernel) (a : Arrival) : Kernel := (k.entered a).schedEnterIrq a.r

theorem entered_word {i : Nat} (inside : i < 17) :
    (k.entered a).word (a.r + 4 * i) = a.regs.words.getD i 0 := by
  have notBelow : ¬ (k.stackLow k.current ≤ a.r + 4 * i ∧ a.r + 4 * i < a.r) := by omega
  have room := frameWords_le (k.tasks k.current).flags
  have whole : i < a.regs.words.length := by
    rw [Regs.words_length]
    omega
  have long : i < (a.regs.words.take (frameWords (k.tasks k.current).flags)).length := by
    rw [List.length_take]
    omega
  simp only [word, entered, pushFrame, notBelow, if_false]
  rw [Ram.writeWords_at _ _ _ long, List.getElem_take, List.getD_eq_getElem?_getD,
    List.getElem?_eq_getElem whole, Option.getD_some]

@[simp] theorem entered_eax : (k.entered a).word (a.r + Regs.offEax) = a.regs.eax :=
  entered_word (i := 11) (by decide)

@[simp] theorem entered_ebx : (k.entered a).word (a.r + Regs.offEbx) = a.regs.ebx :=
  entered_word (i := 8) (by decide)

@[simp] theorem entered_intNo : (k.entered a).word (a.r + Regs.offIntNo) = a.regs.intNo :=
  entered_word (i := 12) (by decide)

@[simp] theorem entered_errCode : (k.entered a).word (a.r + Regs.offErrCode) = a.regs.errCode :=
  entered_word (i := 13) (by decide)

-- The first interrupt pins the boot thread to its frame.
theorem taken_task (k : Kernel) (a : Arrival) (i : Nat) : (k.taken a).tasks i = k.tasks i ∨
    k.schedReady = false ∧ (k.tasks i).esp = 0 ∧ i = k.current ∧ (k.taken a).tasks i =
      { k.tasks i with
        esp := a.r
        saved := (k.entered a).heap.ram.readWords a.r (frameWords (k.tasks i).flags) } := by
  unfold taken schedEnterIrq
  split
  next first =>
    by_cases here : i = k.current
    · subst here
      exact .inr ⟨first.1, first.2.2, rfl, by simp [setEsp, modify, entered, pushFrame]⟩
    · exact .inl (by simp [setEsp, modify, Function.update_of_ne here, entered, pushFrame])
  next => exact .inl rfl

@[simp] theorem taken_sys : (k.taken a).sys = k.sys := by unfold taken schedEnterIrq; split <;> rfl
@[simp] theorem taken_heap : (k.taken a).heap = (k.entered a).heap := by
  unfold taken schedEnterIrq; split <;> rfl
@[simp] theorem taken_taskCount : (k.taken a).taskCount = k.taskCount := by
  unfold taken schedEnterIrq; split <;> rfl
@[simp] theorem taken_current : (k.taken a).current = k.current := by
  unfold taken schedEnterIrq; split <;> rfl
@[simp] theorem taken_nextPid : (k.taken a).nextPid = k.nextPid := by
  unfold taken schedEnterIrq; split <;> rfl
@[simp] theorem taken_created : (k.taken a).created = k.created := by
  unfold taken schedEnterIrq; split <;> rfl
@[simp] theorem taken_esp0 : (k.taken a).esp0 = k.esp0 := by
  unfold taken schedEnterIrq; split <;> rfl
@[simp] theorem taken_zombieCr3 : (k.taken a).zombieCr3 = k.zombieCr3 := by
  unfold taken schedEnterIrq; split <;> rfl
@[simp] theorem taken_bootStack : (k.taken a).bootStack = k.bootStack := by
  unfold taken schedEnterIrq; split <;> rfl

theorem taken_kept (k : Kernel) (a : Arrival) (i : Nat) : ∃ esp saved,
    (k.taken a).tasks i = { k.tasks i with esp := esp, saved := saved } := by
  rcases k.taken_task a i with same | ⟨-, -, -, same⟩
  · exact ⟨_, _, same⟩
  · exact ⟨_, _, same⟩

@[simp] theorem taken_ready (i : Nat) : ((k.taken a).tasks i).ready = (k.tasks i).ready := by
  obtain ⟨_, _, same⟩ := k.taken_kept a i
  rw [same]
@[simp] theorem taken_flags (i : Nat) : ((k.taken a).tasks i).flags = (k.tasks i).flags := by
  obtain ⟨_, _, same⟩ := k.taken_kept a i
  rw [same]
@[simp] theorem taken_sliceLeft (i : Nat) :
    ((k.taken a).tasks i).sliceLeft = (k.tasks i).sliceLeft := by
  obtain ⟨_, _, same⟩ := k.taken_kept a i
  rw [same]
@[simp] theorem taken_cr3 (i : Nat) : ((k.taken a).tasks i).cr3 = (k.tasks i).cr3 := by
  obtain ⟨_, _, same⟩ := k.taken_kept a i
  rw [same]
@[simp] theorem taken_pid (i : Nat) : ((k.taken a).tasks i).pid = (k.tasks i).pid := by
  obtain ⟨_, _, same⟩ := k.taken_kept a i
  rw [same]
@[simp] theorem taken_irqStackTop (i : Nat) :
    ((k.taken a).tasks i).irqStackTop = (k.tasks i).irqStackTop := by
  obtain ⟨_, _, same⟩ := k.taken_kept a i
  rw [same]

@[simp] theorem taken_word (addr : Nat) : (k.taken a).word addr = (k.entered a).word addr := by
  simp [word]

@[simp] theorem setEax_tasks (r value : Nat) : (k.setEax r value).tasks = k.tasks := rfl

inductive Served (acc : Access) (k : Kernel) (a : Arrival) : Kernel → Prop
  | ignored : 47 < a.regs.intNo → a.regs.intNo ≠ 128 → Served acc k a (k.entered a)
  | kept : 32 < a.regs.intNo → a.regs.intNo ≤ 47 → Served acc k a (k.taken a)
  | charged : a.regs.intNo = 32 → 0 < (k.tasks k.current).sliceLeft →
      Served acc k a ((k.taken a).modify k.current fun t => { t with sliceLeft := t.sliceLeft - 1 })
  | pid : a.regs.intNo = 128 → a.regs.eax = nrGetpid →
      Served acc k a ((k.taken a).setEax a.r (k.tasks k.current).pid)
  | slept : a.regs.intNo = 128 → a.regs.eax = nrSleep →
      Served acc k a (((k.taken a).modify k.current fun t =>
        { t with sliceLeft := if min a.regs.ebx 1000 ≠ 0 then min a.regs.ebx 1000 else 1 }).setEax a.r 0)
  | called {k' : Kernel} : a.regs.intNo = 128 → FileCall (k.taken a) a.r k' → Served acc k a k'
  | resolved {m : Machine} :
      a.regs.intNo = 14 → hasFlag (BitVec.ofNat 32 a.regs.errCode) pteU = true →
      pagingCowFault acc k.sys.machine a.cr2 (BitVec.ofNat 32 a.regs.errCode) = some (true, m) →
      Served acc k a { k.entered a with sys := ⟨m, k.sys.live⟩ }
  | forked {pid : Nat} {k' : Kernel} :
      a.regs.intNo = 128 → a.regs.eax = nrFork → (k.tasks k.current).flags = .user →
      ForkExit acc (k.taken a) a.r (k.tasks k.current).cr3 pid k' →
        Served acc k a (k'.setEax a.r pid)

structure Departs (acc : Access) (k : Kernel) (next : Nat) (s : Sys) : Prop where
  other : next ≠ k.current
  follows : Follows (fun i => (k.deadTasks i).ready) k.current next
  spaces : (k.tasks k.current).cr3 = 0 ∧
      s = ⟨k.sys.machine.pagingSwitch (spaceOf (k.tasks next)), k.sys.live⟩ ∨
    (k.tasks k.current).cr3 ≠ 0 ∧ ∃ m,
      pagingDestroyAddrSpace acc (k.sys.machine.pagingSwitch (spaceOf (k.tasks next)))
        (k.tasks k.current).cr3 = some m ∧ s = ⟨m, k.sys.live.erase (k.tasks k.current).cr3⟩

inductive Dispatches (acc : Access) (k : Kernel) (a : Arrival) : Kernel → Prop
  | expired {next : Nat} :
      a.regs.intNo = 32 → (k.tasks k.current).sliceLeft = 0 → Follows k.readySlots k.current next →
      Dispatches acc k a ((k.taken a).switched a.r next)
  | exits {next : Nat} {s : Sys} :
      a.regs.intNo = 128 → a.regs.eax = nrExit → Departs acc (k.taken a) next s →
      Dispatches acc k a ((k.taken a).exited next s)
  | killed {next : Nat} {s : Sys} :
      a.regs.intNo = 14 → hasFlag (BitVec.ofNat 32 a.regs.errCode) pteU = true →
      pagingCowFault acc k.sys.machine a.cr2 (BitVec.ofNat 32 a.regs.errCode) =
        some (false, k.sys.machine) →
      Departs acc (k.entered a) next s → Dispatches acc k a ((k.entered a).exited next s)

theorem exit_unwinds {acc : Access} {k' : Kernel} {esp : Nat} (table : Table k)
    (user : (k.tasks k.current).flags = .user)
    (unwound : k.schedExitCurrent acc = .unwinds k' esp) :
    ∃ next s, Departs acc k next s ∧ k' = k.exited next s ∧ esp = (k.tasks next).esp := by
  obtain ⟨next, other, follows, outcome⟩ := schedExitCurrent_cases acc table user
  rw [outcome] at unwound
  split at unwound
  next spaceless =>
    obtain ⟨rfl, rfl⟩ := Outcome.unwinds.inj unwound
    exact ⟨next, _, ⟨other, follows, .inl ⟨spaceless, rfl⟩⟩, rfl, rfl⟩
  next spaced =>
    split at unwound
    next => cases unwound
    next m destroyed =>
      obtain ⟨rfl, rfl⟩ := Outcome.unwinds.inj unwound
      exact ⟨next, _, ⟨other, follows, .inr ⟨spaced, m, destroyed, rfl⟩⟩, rfl, rfl⟩

theorem exit_not_returns {acc : Access} {k' : Kernel} (table : Table k)
    (user : (k.tasks k.current).flags = .user) : k.schedExitCurrent acc ≠ .returns k' := by
  obtain ⟨next, -, -, outcome⟩ := schedExitCurrent_cases acc table user
  rw [outcome]
  split
  next => simp
  next => split <;> simp

end Kernel

namespace Table

variable {k : Kernel} (table : Table k)
include table

theorem congr {k' : Kernel} (count : k'.taskCount = k.taskCount) (current : k'.current = k.current)
    (esp0 : k'.esp0 = k.esp0) (zombie : k'.zombieCr3 = k.zombieCr3)
    (bootStack : k'.bootStack = k.bootStack)
    (tasks : ∀ i, (k'.tasks i).ready = (k.tasks i).ready ∧ (k'.tasks i).flags = (k.tasks i).flags ∧
      (k'.tasks i).irqStackTop = (k.tasks i).irqStackTop) : Table k' where
  bounded := by rw [count]; exact table.bounded
  beyond i high := by rw [(tasks i).1]; exact table.beyond i (by rwa [count] at high)
  running := by rw [current, (tasks _).1]; exact table.running
  threads i low := by rw [(tasks i).1, (tasks i).2.1]; exact table.threads i low
  processes i high ready := by
    rw [(tasks i).1] at ready
    rw [(tasks i).2.1, (tasks i).2.2]
    exact table.processes i high ready
  esp0 user := by
    rw [current, (tasks _).2.1] at user
    rw [current, (tasks _).2.2, esp0]
    exact table.esp0 user
  zombie := by rw [zombie]; exact table.zombie
  bootStack := by rw [bootStack]; exact table.bootStack

theorem entered (a : Arrival) : Table (k.entered a) :=
  table.congr rfl rfl rfl rfl rfl fun _ => ⟨rfl, rfl, rfl⟩

theorem taken (a : Arrival) : Table (k.taken a) :=
  table.congr (by simp) (by simp) (by simp) (by simp) (by simp) fun i => by simp

end Table

section Interrupt

variable {acc : Access} {s : System} {a : Arrival} {k' : Kernel} (table : Table s.kernel)
    (arrives : Arrives s a)
include table arrives

omit table in
theorem interrupt_user (vector : ¬ (32 ≤ a.regs.intNo ∧ a.regs.intNo ≤ 47)) :
    (s.kernel.tasks s.kernel.current).flags = .user := by
  cases flags : (s.kernel.tasks s.kernel.current).flags with
  | user => rfl
  | kernel => exact absurd ⟨(arrives.kernel flags).2.1, (arrives.kernel flags).2.2.1⟩ vector

theorem frame_ne_zero : a.r ≠ 0 := by
  cases flags : (s.kernel.tasks s.kernel.current).flags with
  | user =>
    have process := (table.user_iff table.running).mp flags
    have room := (table.processes _ process table.running).2
    have esp0 := table.esp0 flags
    have place := (arrives.user flags).2
    simp only [irqStack] at room
    omega
  | kernel =>
    obtain ⟨-, -, -, -, -, low, -⟩ := arrives.kernel flags
    have stack := table.bootStack
    simp only [Kernel.stackLow, flags] at low
    split at low <;> omega

theorem interrupt_returns (returned : s.kernel.interrupt acc a = .returns k') :
    s.kernel.Served acc a k' := by
  have table' := table.taken a
  unfold Kernel.interrupt Kernel.isrCommonHandler at returned
  simp only [Kernel.entered_intNo, Kernel.entered_errCode] at returned
  split at returned
  next exception =>
    split at returned
    next fault =>
      split at returned
      next => cases returned
      next m resolved =>
        obtain rfl := Outcome.returns.inj returned
        exact .resolved fault.1 fault.2 resolved
      next m refused =>
        have user := interrupt_user arrives (by omega)
        exact absurd returned (Kernel.exit_not_returns (table.congr rfl rfl rfl rfl rfl fun _ => ⟨rfl, rfl, rfl⟩) user)
    next => cases returned
  next =>
    split at returned
    next =>
      split at returned
      next timer =>
        rcases (s.kernel.taken a).schedTick_cases table' rfl (frame_ne_zero table arrives) with ⟨slice, tick⟩ | ⟨-, next, -, tick⟩
        · obtain rfl := Outcome.returns.inj (tick.symm.trans returned)
          simp only [Kernel.taken_current] at slice ⊢
          exact .charged timer (by simpa using slice)
        · exact absurd (tick.symm.trans returned) (by simp)
      next =>
        obtain rfl := Outcome.returns.inj returned
        exact .kept (by omega) (by omega)
    next =>
      split at returned
      next syscall =>
        have user := interrupt_user arrives (by omega)
        have user' : ((s.kernel.taken a).tasks (s.kernel.taken a).current).flags = .user := by
          simpa using user
        change (s.kernel.taken a).syscallDispatch acc a.others a.r = _ at returned
        unfold Kernel.syscallDispatch at returned
        simp only [Kernel.taken_word, Kernel.entered_eax, Kernel.entered_ebx] at returned
        split at returned
        next =>
          obtain rfl := Outcome.returns.inj returned
          have served : s.kernel.Served acc a _ := .pid syscall ‹_›
          simpa using served
        next =>
          split at returned
          next => exact absurd returned (Kernel.exit_not_returns table' user')
          next =>
            split at returned
            next fork =>
              split at returned
              next => cases returned
              next pid k₁ called =>
                obtain rfl := Outcome.returns.inj returned
                refine .forked syscall fork user ?_
                simpa using Kernel.taskForkUser_exits table' called
            next =>
              split at returned
              next sleep =>
                obtain rfl := Outcome.returns.inj returned
                have served : s.kernel.Served acc a _ := .slept syscall sleep
                simpa using served
              next =>
                split at returned
                next => cases returned
                next k₁ called =>
                  obtain rfl := Outcome.returns.inj returned
                  exact .called syscall (arrives.others _ _ _ called)
      next =>
        obtain rfl := Outcome.returns.inj returned
        exact .ignored (by omega) ‹_›

theorem interrupt_unwinds {esp : Nat} (unwound : s.kernel.interrupt acc a = .unwinds k' esp) :
    s.kernel.Dispatches acc a k' ∧ esp = (k'.tasks k'.current).esp := by
  have table' := table.taken a
  unfold Kernel.interrupt Kernel.isrCommonHandler at unwound
  simp only [Kernel.entered_intNo, Kernel.entered_errCode] at unwound
  split at unwound
  next exception =>
    split at unwound
    next fault =>
      split at unwound
      next => cases unwound
      next => cases unwound
      next m refused =>
        obtain rfl := cowFault_refused refused
        have user := interrupt_user arrives (by omega)
        obtain ⟨next, spaces, departs, rfl, rfl⟩ :=
          Kernel.exit_unwinds (table.entered a) user unwound
        exact ⟨.killed fault.1 fault.2 refused departs, by simp [Kernel.exited]⟩
    next => cases unwound
  next =>
    split at unwound
    next =>
      split at unwound
      next timer =>
        rcases (s.kernel.taken a).schedTick_cases table' rfl (frame_ne_zero table arrives) with
          ⟨-, tick⟩ | ⟨slice, next, follows, tick⟩
        · exact absurd (tick.symm.trans unwound) (by simp)
        · obtain ⟨rfl, rfl⟩ := Outcome.unwinds.inj (tick.symm.trans unwound)
          refine ⟨.expired timer (by simpa using slice) ?_, rfl⟩
          have ready : (s.kernel.taken a).readySlots = s.kernel.readySlots := by
            funext i
            simp [Kernel.readySlots]
          simpa [ready] using follows
      next => cases unwound
    next =>
      split at unwound
      next syscall =>
        have user := interrupt_user arrives (by omega)
        have user' : ((s.kernel.taken a).tasks (s.kernel.taken a).current).flags = .user := by
          simpa using user
        change (s.kernel.taken a).syscallDispatch acc a.others a.r = _ at unwound
        unfold Kernel.syscallDispatch at unwound
        simp only [Kernel.taken_word, Kernel.entered_eax, Kernel.entered_ebx] at unwound
        split at unwound
        next => cases unwound
        next =>
          split at unwound
          next exit =>
            obtain ⟨next, spaces, departs, rfl, rfl⟩ := Kernel.exit_unwinds table' user' unwound
            exact ⟨.exits syscall exit departs, by simp [Kernel.exited]⟩
          next =>
            split at unwound
            next =>
              split at unwound
              next => cases unwound
              next => cases unwound
            next =>
              split at unwound
              next => cases unwound
              next => split at unwound <;> cases unwound
      next => cases unwound

end Interrupt

end NovaKernel

import NovaKernel.IsrStubs
import NovaKernel.SavedFrames
import NovaKernel.Ticks

set_option autoImplicit false

namespace NovaKernel

open Machine RoundRobin Transition

/-- The interrupt of `c` as the handlers see it; below the frame lies what the stub pushes after it. -/
def Cpu.arrival (c : Cpu) (esp0 n : Nat) (code : Option Nat) (handler back cr2 : Nat)
    (others : Kernel → Nat → Option Kernel) : Arrival where
  regs := c.frameRegs esp0 n code
  cr2 := cr2
  r := c.frameAt esp0
  scratch := (c.interrupted esp0 n code handler back).ram
  others := others

structure Cpu.Running (c : Cpu) (k : Kernel) : Prop where
  memory : c.ram = k.heap.ram
  ring : c.fromUser = decide ((k.tasks k.current).flags = .user)
  stack : c.fromUser = false → c.ss = gdtDataSel

section Interrupt

variable {acc : Access} {s : System} {a : Arrival} {c : Cpu} {n handler back cr2 : Nat}
    {code : Option Nat}
  {others : Kernel → Nat → Option Kernel}

theorem Cpu.Running.frameSize (running : c.Running s.kernel) :
    c.frameSize = frameWords (s.kernel.tasks s.kernel.current).flags := by
  cases flags : (s.kernel.tasks s.kernel.current).flags
  · have ring : c.fromUser = false := by rw [running.ring, flags]; rfl
    rw [Cpu.frameSize, ring]
    rfl
  · have ring : c.fromUser = true := by rw [running.ring, flags]; rfl
    rw [Cpu.frameSize, ring]
    rfl

theorem frame_room (table : Table s.kernel)
    (arrives : Arrives s (c.arrival s.kernel.esp0 n code handler back cr2 others)) :
    4 * c.frameSize ≤ c.frameTop s.kernel.esp0 := by
  have above : c.frameAt s.kernel.esp0 ≠ 0 := frame_ne_zero table arrives
  rw [Cpu.frameAt] at above
  omega

theorem entered_ram (table : Table s.kernel) (running : c.Running s.kernel)
    (agrees : code.isSome = Cpu.isrErr n)
    (arrives : Arrives s (c.arrival s.kernel.esp0 n code handler back cr2 others))
    (room : s.kernel.stackLow s.kernel.current + 8 ≤ c.frameAt s.kernel.esp0) :
    (s.kernel.entered (c.arrival s.kernel.esp0 n code handler back cr2 others)).heap.ram =
      (c.interrupted s.kernel.esp0 n code handler back).ram := by
  have pushed := Cpu.interrupted_ram handler back (frame_room table arrives) agrees
  funext w
  by_cases below : s.kernel.stackLow s.kernel.current ≤ w ∧ w < c.frameAt s.kernel.esp0
  · exact if_pos below
  · refine (if_neg below).trans ?_
    rw [pushed, Ram.set_ne _ _ (by omega), Ram.set_ne _ _ (by omega), running.memory]
    exact congrArg (fun size => s.kernel.heap.ram.writeWords _ (List.take size _) w) running.frameSize.symm

end Interrupt

section Frames

variable {acc : Access} {s t : System} {a : Arrival} {k : Kernel}

theorem entered_frame (s : System) (a : Arrival) :
    (s.kernel.entered a).heap.ram.readWords a.r (frameWords (s.kernel.tasks s.kernel.current).flags) =
      a.regs.words.take (frameWords (s.kernel.tasks s.kernel.current).flags) := by
  have words := frameWords_le (s.kernel.tasks s.kernel.current).flags
  have length : (a.regs.words.take (frameWords (s.kernel.tasks s.kernel.current).flags)).length =
      frameWords (s.kernel.tasks s.kernel.current).flags := by
    rw [List.length_take, Regs.words_length]
    omega
  have written := Ram.readWords_writeWords s.kernel.heap.ram a.r
    (a.regs.words.take (frameWords (s.kernel.tasks s.kernel.current).flags))
  rw [length] at written
  refine Eq.trans (Ram.readWords_congr fun w low _ => ?_) written
  have above : ¬ (s.kernel.stackLow s.kernel.current ≤ w ∧ w < a.r) := by omega
  exact if_neg above

theorem preempted_task (dispatches : s.kernel.Dispatches acc a k)
    (alive : (k.tasks s.kernel.current).ready = true) (away : k.current ≠ s.kernel.current) :
    (k.tasks s.kernel.current).esp = a.r ∧
      (k.tasks s.kernel.current).flags = (s.kernel.tasks s.kernel.current).flags ∧
      (k.tasks s.kernel.current).saved =
        a.regs.words.take (frameWords (s.kernel.tasks s.kernel.current).flags) := by
  cases dispatches with
  | @expired next =>
    have task : ((s.kernel.taken a).switched a.r next).tasks s.kernel.current =
        { (s.kernel.taken a).parked a.r with sliceLeft := 5 } := by
      have slot := (s.kernel.taken a).slicedTasks_parked a.r next
      rwa [Kernel.taken_current] at slot
    rw [task]
    refine ⟨rfl, ?_, ?_⟩
    · simp only [Kernel.parked, Kernel.taken_current, Kernel.taken_flags]
    · simp only [Kernel.parked, Kernel.taken_current, Kernel.taken_flags, Kernel.taken_heap]
      exact entered_frame s a
  | @exits next sys =>
    have dead : (((s.kernel.taken a).exited next sys).tasks s.kernel.current).ready = false := by
      have other : s.kernel.current ≠ next := Ne.symm away
      refine (congrArg Task.ready (Function.update_of_ne other _ _)).trans ?_
      rw [Kernel.deadTasks, Kernel.taken_current, Function.update_self]
    rw [dead] at alive
    cases alive
  | @killed next sys =>
    have dead : (((s.kernel.entered a).exited next sys).tasks s.kernel.current).ready = false := by
      have other : s.kernel.current ≠ next := Ne.symm away
      refine (congrArg Task.ready (Function.update_of_ne other _ _)).trans ?_
      have current : (s.kernel.entered a).current = s.kernel.current := rfl
      rw [Kernel.deadTasks, current, Function.update_self]
    rw [dead] at alive
    cases alive

theorem task_waits {i : Nat} {event : KernelEvent} (table : Table s.kernel)
    (step : KernelStep acc s event t) (ready : (s.kernel.tasks i).ready = true)
    (before : s.kernel.current ≠ i) (after : t.kernel.current ≠ i) :
    t.kernel.tasks i = s.kernel.tasks i := by
  cases scheduler_step table step with
  | returned _ served => exact served.task_kept (Ne.symm before) ready
  | dispatched _ dispatches => exact dispatches.task_kept (Ne.symm before) (Ne.symm after)
  | created _ _ exit => exact exit.task_kept ready
  | other same =>
    rw [same]

theorem task_waits_run {i : Nat} {events : List KernelEvent}
    (run : Run (Guarded (fun u _ => u.kernel.current ≠ i) (KernelStep acc)) s events t)
    (table : Table s.kernel) (ready : (s.kernel.tasks i).ready = true)
    (after : t.kernel.current ≠ i) :
    Table t.kernel ∧ t.kernel.tasks i = s.kernel.tasks i := by
  induction run with
  | nil => exact ⟨table, rfl⟩
  | @snoc events u v event _ taken ih =>
    obtain ⟨table', same⟩ := ih taken.1
    have ready' : (u.kernel.tasks i).ready = true := by rwa [same]
    exact ⟨table_step table' taken.2, (task_waits table' taken.2 ready' taken.1 after).trans same⟩

theorem dispatched_frame (table : Table s.kernel) (mem : Memory s.kernel s.buffers)
    (saved : Saved s.kernel) (arrives : Arrives s a) (dispatches : s.kernel.Dispatches acc a k)
    (away : s.kernel.current ≠ k.current) (ready : (s.kernel.tasks k.current).ready = true)
    (present : (s.kernel.tasks k.current).esp ≠ 0) :
    (k.tasks k.current).esp = (s.kernel.tasks k.current).esp ∧
      k.heap.ram.readWords (s.kernel.tasks k.current).esp (frameWords (s.kernel.tasks k.current).flags) =
        (s.kernel.tasks k.current).saved := by
  have parked := saved k.current (Ne.symm away) ready present
  have found : ∀ k' : Kernel, k'.heap = (s.kernel.entered a).heap → s.kernel.Alike k' →
      k'.heap.ram.readWords (s.kernel.tasks k.current).esp (frameWords (s.kernel.tasks k.current).flags) =
        (s.kernel.tasks k.current).saved := by
    intro k' heap alike
    have same := alike.others k.current (Ne.symm away)
    have kept := (keeps_alike table arrives mem heap alike).2 k.current (Ne.symm away)
      (by rw [same]; exact ready)
      fun _ => parked
    have stored := kept.stored
    rwa [same] at stored
  have taken := s.kernel.alike_taken a
  have esp : ((s.kernel.taken a).tasks k.current).esp = (s.kernel.tasks k.current).esp :=
    congrArg Task.esp (taken.others k.current (Ne.symm away))
  cases dispatches with
  | @expired next =>
    have other : next ≠ s.kernel.current := Ne.symm away
    refine ⟨Eq.trans ?_ esp, found (s.kernel.taken a) Kernel.taken_heap taken⟩
    have task : ((s.kernel.taken a).switched a.r next).tasks next =
        { (s.kernel.taken a).tasks next with sliceLeft := 5 } := by
      refine (Function.update_self _ _ _).trans ?_
      rw [Function.update_of_ne (by rw [Kernel.taken_current]; exact other)]
    exact (congrArg Task.esp task).trans rfl
  | @exits next sys =>
    refine ⟨Eq.trans ?_ esp, found (s.kernel.taken a) Kernel.taken_heap taken⟩
    have task : ((s.kernel.taken a).exited next sys).tasks next =
        { (s.kernel.taken a).tasks next with sliceLeft := 5 } := Function.update_self _ _ _
    exact (congrArg Task.esp task).trans rfl
  | @killed next sys =>
    have entered : s.kernel.Alike (s.kernel.entered a) :=
      ⟨rfl, rfl, fun _ => ⟨rfl, rfl, rfl, rfl, rfl⟩, fun _ _ => rfl⟩
    refine ⟨?_, found (s.kernel.entered a) rfl entered⟩
    have task : ((s.kernel.entered a).exited next sys).tasks next =
        { (s.kernel.entered a).tasks next with sliceLeft := 5 } := Function.update_self _ _ _
    exact (congrArg Task.esp task).trans rfl

end Frames

section Transparent

variable {acc : Access} {image : BootImage} {events between : List KernelEvent} {s t : System}
    {b : Arrival}
  {k k' : Kernel} {c : Cpu} {n handler back cr2 esp esp' : Nat} {code : Option Nat}
  {others : Kernel → Nat → Option Kernel}

theorem frameRegs_ring (c : Cpu) (esp0 n : Nat) (code : Option Nat) :
    c.frameSize = if (c.frameRegs esp0 n code).cs % 4 = 3 then 19 else 17 := by
  by_cases ring : c.cs % 4 = 3 <;> simp [Cpu.frameSize, Cpu.fromUser, Cpu.frameRegs, ring]

theorem resume_frame {esp0 : Nat} (room : 4 * c.frameSize ≤ c.frameTop esp0) {d : Cpu}
    (words : d.ram.readWords (c.frameAt esp0) c.frameSize = (c.frameRegs esp0 n code).words.take c.frameSize)
    (ss : c.fromUser = false → c.ss = d.ss) :
    d.resume (c.frameAt esp0) = { c with ram := d.ram } := by
  rw [Cpu.resume_eq words (frameRegs_ring c esp0 n code), Cpu.restored_frameRegs room ss]

theorem served_heap {a : Arrival} (served : s.kernel.Served acc a k) (call : a.regs.intNo ≠ 128) :
    k.heap = (s.kernel.entered a).heap := by
  cases served with
  | ignored => rfl
  | kept => exact Kernel.taken_heap
  | charged => exact Kernel.taken_heap
  | pid vector => exact absurd vector call
  | slept vector => exact absurd vector call
  | called vector => exact absurd vector call
  | resolved => rfl
  | forked vector => exact absurd vector call

/-- In every run, the handler of an interrupt finds in memory what the CPU and the stub have pushed, and when it
returns, other than from a system call, the stub gives every register back. -/
theorem interrupt_transparent (run : Run (KernelStep acc) (bootSystem image) events s)
    (running : c.Running s.kernel) (agrees : code.isSome = Cpu.isrErr n)
    (arrives : Arrives s (c.arrival s.kernel.esp0 n code handler back cr2 others))
    (room : s.kernel.stackLow s.kernel.current + 8 ≤ c.frameAt s.kernel.esp0) :
    (s.kernel.entered (c.arrival s.kernel.esp0 n code handler back cr2 others)).heap.ram =
        (c.interrupted s.kernel.esp0 n code handler back).ram ∧
      (n ≠ 128 → s.kernel.interrupt acc (c.arrival s.kernel.esp0 n code handler back cr2 others) = .returns k →
        ∀ d : Cpu, d.ram = k.heap.ram → d.esp + 4 = c.frameAt s.kernel.esp0 → d.ss = gdtDataSel →
          d.isrReturn = { c with ram := k.heap.ram }) := by
  obtain ⟨table, -, -⟩ := saved_run run
  refine ⟨entered_ram table running agrees arrives room, fun call returned d memory stack ss => ?_⟩
  have heap := served_heap (interrupt_returns table arrives returned) call
  have words := entered_frame s (c.arrival s.kernel.esp0 n code handler back cr2 others)
  rw [← heap, ← running.frameSize, ← memory] at words
  have popped := resume_frame (frame_room table arrives) words fun thread =>
    (running.stack thread).trans ss.symm
  rw [← memory, ← popped, ← stack]
  rfl

theorem guarded_first {fact : System → Prop} {u : System}
    (run : Run (Guarded (fun u _ => fact u) (KernelStep acc)) u between t)
    (last : fact t) : fact u := by
  induction run with
  | nil => exact last
  | snoc _ taken ih => exact ih taken.1

/-- In every run, a task that loses the CPU to a tick gets every register back when it is dispatched again, whatever
happens in between. -/
theorem resumed_registers (run : Run (KernelStep acc) (bootSystem image) events s)
    (running : c.Running s.kernel)
    (arrives : Arrives s (c.arrival s.kernel.esp0 n code handler back cr2 others))
    (preempted : s.kernel.interrupt acc (c.arrival s.kernel.esp0 n code handler back cr2 others) =
      .unwinds k esp) (present : esp ≠ 0)
    (alive : (k.tasks s.kernel.current).ready = true)
    (away : Run (Guarded (fun u _ => u.kernel.current ≠ s.kernel.current) (KernelStep acc)) (s.dispatched k)
      between t)
    (other : t.kernel.current ≠ s.kernel.current) (arrives' : Arrives t b)
    (returned : t.kernel.interrupt acc b = .unwinds k' esp') (here : k'.current = s.kernel.current)
    (d : Cpu) (memory : d.ram = k'.heap.ram) (ss : d.ss = gdtDataSel) :
    d.resume esp' = { c with ram := k'.heap.ram } := by
  obtain ⟨table, -, -⟩ := saved_run run
  obtain ⟨dispatches, -⟩ := interrupt_unwinds table arrives preempted
  have step := KernelStep.unwound arrives preempted present
  have later : Run (KernelStep acc) (bootSystem image) _ t :=
    (run.snoc step).append (away.mono fun _ _ _ taken => taken.2)
  obtain ⟨table', mem', saved'⟩ := saved_run later
  obtain ⟨dispatches', place⟩ := interrupt_unwinds table' arrives' returned
  obtain ⟨esp₁, flags₁, saved₁⟩ := preempted_task dispatches alive (guarded_first away other)
  obtain ⟨-, same⟩ := task_waits_run away (table_step table step) alive other
  have task : t.kernel.tasks k'.current = k.tasks s.kernel.current := by rw [here, same]; rfl
  have nonzero : (t.kernel.tasks k'.current).esp ≠ 0 := by
    rw [task, esp₁]
    exact frame_ne_zero table arrives
  obtain ⟨kept, words⟩ :=
    dispatched_frame table' mem' saved' arrives' dispatches' (by rw [here]; exact other)
    (by rw [task]; exact alive) nonzero
  rw [task, esp₁, flags₁, saved₁, ← running.frameSize, ← memory] at words
  rw [place, kept, task, esp₁, ← memory]
  exact resume_frame (frame_room table arrives) words fun thread =>
    (running.stack thread).trans ss.symm

end Transparent

def threadCpu (k : Kernel) : Cpu where
  gs := gdtDataSel
  fs := gdtDataSel
  es := gdtDataSel
  ds := gdtDataSel
  edi := 1
  esi := 2
  ebp := 3
  esp := k.stackLow k.current + 76
  ebx := 4
  edx := 5
  ecx := 6
  eax := 7
  eip := 0x101234
  cs := gdtCodeSel
  eflags := 0x202
  ss := gdtDataSel
  ram := k.heap.ram

section Thread

variable {s : System}

theorem threadCpu_fromUser (k : Kernel) : (threadCpu k).fromUser = false := by
  simp [Cpu.fromUser, threadCpu, gdtCodeSel]

theorem threadCpu_running (thread : (s.kernel.tasks s.kernel.current).flags = .kernel) :
    (threadCpu s.kernel).Running s.kernel where
  memory := rfl
  ring := by
    rw [thread, threadCpu_fromUser]
    rfl
  stack _ := rfl

def threadArrival (s : System) (n : Nat) : Arrival :=
  (threadCpu s.kernel).arrival s.kernel.esp0 n none 0x100000 0x100010 0 fun _ _ => none

theorem threadCpu_frameAt (k : Kernel) :
    (threadCpu k).frameAt k.esp0 = k.stackLow k.current + 8 := by
  have esp : (threadCpu k).esp = k.stackLow k.current + 76 := rfl
  simp only [Cpu.frameAt, Cpu.frameTop, Cpu.frameSize, threadCpu_fromUser, esp, Bool.false_eq_true, if_false]
  omega

theorem threadArrival_arrives (table : Table s.kernel) (mem : Memory s.kernel s.buffers)
    (enabled : s.enabled = true)
    (thread : (s.kernel.tasks s.kernel.current).flags = .kernel) {n : Nat} (low : 32 ≤ n)
    (high : n ≤ 47) :
    Arrives s (threadArrival s n) := by
  have aligned := mem.stackLow_aligned table.running thread
  have place : (threadArrival s n).r = s.kernel.stackLow s.kernel.current + 8 :=
    threadCpu_frameAt s.kernel
  refine ⟨show 0 < 2 ^ 32 by decide, fun _ _ _ called => ?_, fun user => ?_, fun _ => ?_⟩
  · exact absurd called (by simp [threadArrival, Cpu.arrival])
  · exact absurd (thread.symm.trans user) (by simp)
  · rw [place]
    refine ⟨enabled, low, high, rfl, ?_, ?_, ?_⟩
    · omega
    · omega
    · simp only [Kernel.stackHigh, thread, taskStack]
      omega

theorem tick_unwinds (acc : Access) {a : Arrival} (table : Table s.kernel) (arrives : Arrives s a)
    (vector : a.regs.intNo = 32) {next : Nat}
    (expired : (s.kernel.tasks s.kernel.current).sliceLeft = 0)
    (follows : Follows s.kernel.readySlots s.kernel.current next)
    (other : next ≠ s.kernel.current) :
    s.kernel.interrupt acc a =
      .unwinds ((s.kernel.taken a).switched a.r next) (s.kernel.tasks next).esp := by
  have slots : (s.kernel.taken a).readySlots = s.kernel.readySlots := by
    funext i
    simp [Kernel.readySlots]
  have task : (s.kernel.taken a).tasks next = s.kernel.tasks next :=
    (s.kernel.alike_taken a).others next other
  have resumed : (((s.kernel.taken a).switched a.r next).tasks next).esp =
      (s.kernel.tasks next).esp := by
    rw [← task]
    simp [Kernel.switched, Kernel.slicedTasks, Function.update_of_ne other]
  have handled : s.kernel.interrupt acc a = (s.kernel.taken a).schedTick := by
    unfold Kernel.interrupt Kernel.isrCommonHandler
    simp only [Kernel.entered_intNo, Kernel.entered_errCode, vector]
    rfl
  rw [handled]
  rcases (s.kernel.taken a).schedTick_cases (table.taken _) rfl (frame_ne_zero table arrives) with
    ⟨left, -⟩ | ⟨-, next', follows', tick⟩
  · simp only [Kernel.taken_current, Kernel.taken_sliceLeft] at left
    omega
  · rw [slots, Kernel.taken_current] at follows'
    obtain rfl := follows'.unique follows
    rw [tick, ← resumed]
    rfl

end Thread

theorem enabled_boot (image : BootImage) : (enabledSystem image).kernel.current = 0 ∧
    ((enabledSystem image).kernel.tasks (enabledSystem image).kernel.current).flags = .kernel := by
  obtain ⟨heap, booted, -⟩ := boot_kernel image
  have current : (enabledSystem image).kernel.current = 0 := congrArg Kernel.current booted
  have tasks : (enabledSystem image).kernel.tasks = bootTasks image.demoA image.demoB :=
    congrArg Kernel.tasks booted
  rw [current, tasks]
  exact ⟨rfl, rfl⟩

theorem interrupt_transparent_thread : ∃ k,
    (enabledSystem zeroImage).kernel.interrupt translated (threadArrival (enabledSystem zeroImage) 33) =
      .returns k ∧
      ∀ d : Cpu, d.ram = k.heap.ram →
        d.esp + 4 = (threadCpu (enabledSystem zeroImage).kernel).frameAt (enabledSystem zeroImage).kernel.esp0 →
        d.ss = gdtDataSel →
        d.isrReturn = { threadCpu (enabledSystem zeroImage).kernel with ram := k.heap.ram } := by
  have run : Run (KernelStep translated) (bootSystem zeroImage) _ (enabledSystem zeroImage) :=
    .single (enabled_step translated zeroImage)
  have turns := enabled_turns zeroImage
  have thread := (enabled_boot zeroImage).2
  generalize enabledSystem zeroImage = s at run turns thread ⊢
  have vector : (threadArrival s 33).regs.intNo = 33 := rfl
  have returned : s.kernel.interrupt translated (threadArrival s 33) =
      .returns (s.kernel.taken (threadArrival s 33)) := by
    unfold Kernel.interrupt Kernel.isrCommonHandler
    simp only [Kernel.entered_intNo, Kernel.entered_errCode, vector]
    rfl
  have arrives := threadArrival_arrives turns.table turns.mem turns.enabled thread (n := 33)
    (by decide) (by decide)
  exact ⟨_, returned, (interrupt_transparent run (threadCpu_running thread) (by decide) arrives
    (Nat.le_of_eq (threadCpu_frameAt s.kernel).symm)).2 (by decide) returned⟩

section Turns

variable {acc : Access} {s t : System} {n : Nat}

theorem returned_current {events : List KernelEvent} (run : Run (KernelStep acc) s events t)
    (table : Table s.kernel)
    (returned : ∀ event ∈ events, ∃ regs cr2, event = .interrupt regs cr2 .returned) :
    Run (Guarded (fun u _ => u.kernel.current = s.kernel.current) (KernelStep acc)) s events t ∧
      t.kernel.current = s.kernel.current ∧ Table t.kernel := by
  induction run with
  | nil => exact ⟨.nil, rfl, table⟩
  | @snoc events t u event _ taken ih =>
    obtain ⟨run', same, table'⟩ := ih fun e member => returned e (List.mem_append_left _ member)
    refine ⟨run'.snoc ⟨same, taken⟩, ?_, table_step table' taken⟩
    obtain ⟨regs, cr2, last⟩ := returned event (List.mem_append_right _ List.mem_cons_self)
    cases scheduler_step table' taken with
    | returned _ served => exact served.current.trans same
    | @dispatched a k =>
      rw [endingOf] at last
      split at last <;> cases last
    | created => cases last
    | other _ _ _ elsewhere => exact absurd last (elsewhere _ _ _)

theorem Turns.preempted {a : Arrival} (turns : Turns n s) (arrives : Arrives s a)
    {next : Nat} (step : KernelStep acc s
      (.interrupt a.regs a.cr2 (endingOf s.kernel ((s.kernel.taken a).switched a.r next)))
      (s.dispatched ((s.kernel.taken a).switched a.r next))) :
    Turns n (s.dispatched ((s.kernel.taken a).switched a.r next)) := by
  have same : ∀ i, (s.kernel.tasks i).Same (((s.kernel.taken a).switched a.r next).tasks i) := fun i =>
    (taken_same _ _ i).trans (slicedTasks_kept _ _ _ i)
  refine ⟨table_step turns.table step, memory_step turns.table turns.mem step, turns.enabled,
    fun i => ?_, fun i low => ?_, fun i low apart => ?_⟩
  · rw [← turns.ready i]
    exact iff_of_eq (congrArg (· = true) (same i).ready)
  · have bound := turns.slices i low
    have value := slicedTasks_slice (s.kernel.taken a) a.r next i
    rw [Kernel.taken_sliceLeft] at value
    refine Nat.le_trans (Nat.le_of_eq value) ?_
    split <;> omega
  · by_cases old : i = s.kernel.current
    · have esp : (((s.kernel.taken a).switched a.r next).tasks i).esp = a.r := by
        have slot := (s.kernel.taken a).slicedTasks_parked a.r next
        rw [Kernel.taken_current] at slot
        rw [old]
        exact (congrArg Task.esp slot).trans rfl
      exact fun zero => frame_ne_zero turns.table arrives (esp.symm.trans zero)
    · have task : ((s.kernel.taken a).switched a.r next).tasks i = s.kernel.tasks i :=
        (Function.update_of_ne apart _ _).trans ((Function.update_of_ne (by simpa using old) _ _).trans
          ((s.kernel.alike_taken a).others i old))
      have before := turns.present i low old
      rw [← task] at before
      exact before

variable (acc) in
theorem Turns.away (turns : Turns 3 s) (current : s.kernel.current = 1) : ∃ between t,
    Run (Guarded (fun u _ => u.kernel.current ≠ 0) (KernelStep acc)) s between t ∧ Turns 3 t ∧
      t.kernel.current = 2 ∧ (t.kernel.tasks t.kernel.current).sliceLeft = 0 := by
  obtain ⟨events₁, event, t₁, run₁, turns₁, -, returned₁, -, current₁, -⟩ :=
    turns.turn acc 2 (by rw [current]; rfl) (by omega)
  obtain ⟨u, before, -, last⟩ := run₁.last
  obtain ⟨first, here, -⟩ :=
    returned_current (before.mono fun _ _ _ taken => taken.2) turns.table returned₁
  obtain ⟨events₂, t, run₂, turns₂, -, returned₂, expired, current₂, -⟩ := turns₁.charged acc _ rfl
  obtain ⟨second, -, -⟩ :=
    returned_current (run₂.mono fun _ _ _ taken => taken.2) turns₁.table returned₂
  have one : Run (Guarded (fun u _ => u.kernel.current ≠ 0) (KernelStep acc)) s (events₁ ++ [event]) t₁ :=
    (first.mono fun v _ _ taken => ⟨by simp only [taken.1, current]; decide, taken.2⟩).snoc
      ⟨by simp only [here, current]; decide, last⟩
  have two : Run (Guarded (fun u _ => u.kernel.current ≠ 0) (KernelStep acc)) t₁ events₂ t :=
    second.mono fun v _ _ taken => ⟨by simp only [taken.1, current₁]; decide, taken.2⟩
  exact ⟨_, t, one.append two, turns₂, current₂.trans current₁, expired⟩

end Turns

theorem resumed_registers_thread : ∃ (s t : System) (k k' : Kernel) (esp esp' : Nat) (b : Arrival),
    (∃ events, Run (KernelStep translated) (bootSystem zeroImage) events s) ∧
      s.kernel.interrupt translated (threadArrival s 32) = .unwinds k esp ∧
      t.kernel.interrupt translated b = .unwinds k' esp' ∧ k'.current = s.kernel.current ∧
      ∀ d : Cpu, d.ram = k'.heap.ram → d.ss = gdtDataSel →
        d.resume esp' = { threadCpu s.kernel with ram := k'.heap.ram } := by
  obtain ⟨first, thread₀⟩ := enabled_boot zeroImage
  obtain ⟨events, s, run, turns, turned, -, expired, current, -⟩ :=
    (enabled_turns zeroImage).charged translated _ rfl
  have start : Run (KernelStep translated) (bootSystem zeroImage) _ s :=
    .cons (enabled_step translated zeroImage) (run.mono fun _ _ _ taken => taken.2)
  have thread : (s.kernel.tasks s.kernel.current).flags = .kernel := by
    obtain ⟨_, _, _, same⟩ := turned.tasks s.kernel.current
    rw [same]
    rwa [← current] at thread₀
  rw [first] at current
  -- The boot thread is preempted.
  have arrives := threadArrival_arrives turns.table turns.mem turns.enabled thread (n := 32)
    (by decide) (by decide)
  have follows : Follows s.kernel.readySlots s.kernel.current 1 := by
    have after := follows_next (c := s.kernel.current) turns.ready (by omega)
    rwa [current] at after ⊢
  have unwound := tick_unwinds translated turns.table arrives rfl expired follows (by omega)
  have present := turns.present 1 (by decide) (by omega)
  have step := KernelStep.unwound arrives unwound present
  have turns₁ := turns.preempted arrives step
  have alive : (((s.kernel.taken (threadArrival s 32)).switched (threadArrival s 32).r 1).tasks
      s.kernel.current).ready = true := (turns₁.ready _).mpr (by omega)
  -- The other two threads have their turns.
  obtain ⟨between, t, away, turns₂, current₂, expired₂⟩ := turns₁.away translated rfl
  have other : t.kernel.current ≠ s.kernel.current := by omega
  have arrives₂ := arrives_tick turns₂.table turns₂.mem turns₂.enabled
  have follows₂ : Follows t.kernel.readySlots t.kernel.current 0 := by
    have after := follows_next (c := t.kernel.current) turns₂.ready (by omega)
    rwa [current₂] at after ⊢
  have unwound₂ := tick_unwinds translated turns₂.table arrives₂ rfl expired₂ follows₂ (by omega)
  rw [← current] at away
  refine ⟨s, t, _, _, _, _, t.tick, ⟨_, start⟩, unwound, unwound₂, current.symm,
    fun d memory ss => ?_⟩
  exact resumed_registers start (threadCpu_running thread) arrives unwound present alive away other arrives₂ unwound₂
    current.symm d memory ss

end NovaKernel

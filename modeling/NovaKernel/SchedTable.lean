import NovaKernel.IsrSpec

set_option autoImplicit false

namespace NovaKernel

open Machine RoundRobin Transition

namespace Table

variable {k : Kernel} (table : Table k)
include table

theorem withSlot {slot : Nat} (free : k.FreeSlot slot) : Table (k.withSlot slot) where
  bounded := by
    have inside := free.inside
    exact Nat.max_le.mpr ⟨table.bounded, inside⟩
  beyond i high := table.beyond i (Nat.le_trans (Nat.le_max_left _ _) high)
  running := table.running
  threads := table.threads
  processes := table.processes
  esp0 := table.esp0
  zombie := table.zombie
  bootStack := table.bootStack

theorem current_ne {slot : Nat} (free : k.FreeSlot slot) : k.current ≠ slot := by
  rintro rfl
  exact absurd (table.running.symm.trans free.free) (by simp)

theorem addTask {slot : Nat} {t : Task} (free : k.FreeSlot slot)
    (process : t.ready = true → t.flags = .user ∧ irqStack ≤ t.irqStackTop) :
    Table (k.addTask slot t) := by
  have process3 := free.process
  have current := table.current_ne free
  have at_ne : ∀ i, i ≠ slot → (k.addTask slot t).tasks i = k.tasks i := fun i other =>
    Function.update_of_ne other _ _
  have at_slot : (k.addTask slot t).tasks slot = t := Function.update_self _ _ _
  have running := at_ne _ current
  constructor
  · exact (table.withSlot free).bounded
  · intro i high
    have past : slot < i := Nat.lt_of_succ_le (Nat.le_trans (Nat.le_max_right k.taskCount _) high)
    rw [at_ne i (by omega)]
    exact (table.withSlot free).beyond i high
  · exact (congrArg Task.ready running).trans table.running
  · intro i low
    rw [at_ne i (by omega)]
    exact table.threads i low
  · intro i high ready
    by_cases here : i = slot
    · subst here
      rw [at_slot] at ready ⊢
      exact process ready
    · rw [at_ne i here] at ready ⊢
      exact table.processes i high ready
  · intro user
    have same : ((k.addTask slot t).tasks (k.addTask slot t).current) = k.tasks k.current := running
    rw [same] at user ⊢
    exact table.esp0 user
  · exact table.zombie
  · exact table.bootStack

theorem setEsp0_user {next : Nat} (ready : (k.tasks next).ready = true)
    (user : (k.tasks next).flags = .user) :
    k.setEsp0 next = (k.tasks next).irqStackTop := by
  have room := (table.processes next ((table.user_iff ready).mp user) ready).2
  have own : (k.tasks next).irqStackTop ≠ 0 := by
    simp only [irqStack] at room
    omega
  rw [Kernel.setEsp0, if_pos own]

theorem switched (frame : Nat) {next : Nat} (ready : (k.tasks next).ready = true) :
    Table (k.switched frame next) := by
  have same := k.slicedTasks_same frame next
  constructor
  · exact table.bounded
  · intro i high
    exact (same i).2.1.trans (table.beyond i high)
  · exact (same next).2.1.trans ready
  · intro i low
    rw [show (k.switched frame next).tasks i = k.slicedTasks frame next i from rfl, (same i).2.1,
      (same i).1]
    exact table.threads i low
  · intro i high live
    rw [show (k.switched frame next).tasks i = k.slicedTasks frame next i from rfl] at live ⊢
    rw [(same i).2.1] at live
    rw [(same i).1, (same i).2.2.2]
    exact table.processes i high live
  · intro user
    have user' : (k.tasks next).flags = .user := (same next).1.symm.trans user
    exact (table.setEsp0_user ready user').trans (same next).2.2.2.symm
  · exact table.zombie
  · exact table.bootStack

theorem exited {acc : Access} {next : Nat} {s : Sys} (user : (k.tasks k.current).flags = .user)
    (departs : k.Departs acc next s) : Table (k.exited next s) := by
  have process := (table.user_iff table.running).mp user
  have other := departs.other
  have dead : ∀ i, i ≠ k.current → k.deadTasks i = k.tasks i := fun i distinct => by
    rw [Kernel.deadTasks, Function.update_of_ne distinct]
  have ready : (k.tasks next).ready = true := by
    rw [← dead next other]
    exact departs.follows.1
  have at_next : (k.exited next s).tasks next = { k.tasks next with sliceLeft := 5 } :=
    Function.update_self _ _ _
  have at_current : ((k.exited next s).tasks k.current).ready = false := by
    simp [Kernel.exited, Function.update_of_ne (Ne.symm other), Kernel.deadTasks]
  have at_ne : ∀ i, i ≠ next → i ≠ k.current → (k.exited next s).tasks i = k.tasks i :=
    fun i h h' => by
    simp [Kernel.exited, Function.update_of_ne h, dead i h']
  constructor
  · exact table.bounded
  · intro i high
    have notNext : i ≠ next := by
      rintro rfl
      exact absurd (ready.symm.trans (table.beyond i high)) (by simp)
    by_cases here : i = k.current
    · rw [here]
      exact at_current
    · rw [at_ne i notNext here]
      exact table.beyond i high
  · exact (congrArg Task.ready at_next).trans ready
  · intro i low
    by_cases here : i = next
    · subst here
      rw [at_next]
      exact table.threads i low
    · rw [at_ne i here (by omega)]
      exact table.threads i low
  · intro i high live
    by_cases here : i = next
    · subst here
      rw [at_next] at live ⊢
      exact table.processes i high live
    · by_cases gone : i = k.current
      · rw [gone, at_current] at live
        exact absurd live (by simp)
      · rw [at_ne i here gone] at live ⊢
        exact table.processes i high live
  · intro user'
    have same : (k.exited next s).tasks (k.exited next s).current =
        { k.tasks next with sliceLeft := 5 } := at_next
    rw [same] at user' ⊢
    exact table.setEsp0_user ready user'
  · rfl
  · exact table.bootStack

theorem modify {slot : Nat} {change : Task → Task}
    (kept : ∀ t, (change t).ready = t.ready ∧ (change t).flags = t.flags ∧
      (change t).irqStackTop = t.irqStackTop) : Table (k.modify slot change) :=
  table.congr rfl rfl rfl rfl rfl fun i => by
    by_cases here : i = slot
    · subst here
      simp [Kernel.modify, kept]
    · simp [Kernel.modify, Function.update_of_ne here]

theorem setEax (r value : Nat) : Table (k.setEax r value) :=
  table.congr rfl rfl rfl rfl rfl fun _ => ⟨rfl, rfl, rfl⟩

theorem forkExit {acc : Access} {r parent pid : Nat} {k' : Kernel}
    (exit : k.ForkExit acc r parent pid k') : Table k' := by
  cases exit with
  | tableFull => exact table
  | noSpace free _ => exact (table.withSlot free).congr rfl rfl rfl rfl rfl fun _ => ⟨rfl, rfl, rfl⟩
  | noCopy free _ _ _ =>
    exact (table.withSlot free).congr rfl rfl rfl rfl rfl fun _ =>
      ⟨rfl, rfl, rfl⟩
  | noStack free _ _ _ _ _ =>
    refine Table.congr (table.addTask free ?_) rfl rfl rfl rfl rfl fun _ => ⟨rfl, rfl, rfl⟩
    exact fun ready => absurd ready (by simp)
  | forked free _ _ _ _ =>
    refine Table.congr (table.addTask free ?_) rfl rfl rfl rfl rfl fun _ => ⟨rfl, rfl, rfl⟩
    exact fun _ => ⟨rfl, Nat.le_add_left _ _⟩

theorem createExit {entry cr3 pid : Nat} {k' : Kernel} (exit : k.CreateExit entry cr3 pid k') :
    Table k' := by
  cases exit with
  | tableFull => exact table
  | noStack free _ => exact table.addTask free fun ready => absurd ready (by simp)
  | noArea free _ _ =>
    refine Table.congr (table.addTask free ?_) rfl rfl rfl rfl rfl fun _ => ⟨rfl, rfl, rfl⟩
    exact fun _ => ⟨rfl, Nat.le_add_left _ _⟩
  | created free _ _ =>
    refine Table.congr (table.addTask free ?_) rfl rfl rfl rfl rfl fun _ => ⟨rfl, rfl, rfl⟩
    exact fun _ => ⟨rfl, Nat.le_add_left _ _⟩

theorem served {acc : Access} {a : Arrival} {k' : Kernel} (served : k.Served acc a k') :
    Table k' := by
  have table' := table.taken a
  cases served with
  | ignored _ _ => exact table.entered a
  | kept _ _ => exact table'
  | charged _ _ => exact table'.modify fun _ => ⟨rfl, rfl, rfl⟩
  | pid _ _ => exact table'.setEax _ _
  | slept _ _ =>
    apply Table.setEax
    exact table'.modify fun _ => ⟨rfl, rfl, rfl⟩
  | called _ call =>
    obtain ⟨m, value, -, rfl⟩ := call
    exact table'.congr rfl rfl rfl rfl rfl fun _ => ⟨rfl, rfl, rfl⟩
  | resolved _ _ _ => exact (table.entered a).congr rfl rfl rfl rfl rfl fun _ => ⟨rfl, rfl, rfl⟩
  | forked _ _ _ exit => exact (table'.forkExit exit).setEax _ _

theorem dispatches {acc : Access} {a : Arrival} {k' : Kernel}
    (user : ¬ (32 ≤ a.regs.intNo ∧ a.regs.intNo ≤ 47) →
    (k.tasks k.current).flags = .user) (dispatches : k.Dispatches acc a k') : Table k' := by
  have table' := table.taken a
  cases dispatches with
  | expired _ _ follows => exact table'.switched _ ((Kernel.taken_ready _).trans follows.1)
  | exits vector _ departs => exact table'.exited (by simpa using user (by omega)) departs
  | killed vector _ _ departs => exact (table.entered a).exited (user (by omega)) departs

end Table

/-- What a step outside the scheduler does to the heap and to the shell's buffers. -/
inductive HeapEffect (s : System) : Heap → Finset Nat → Prop
  | same : HeapEffect s s.kernel.heap s.buffers
  | threadStore {addr value : Nat} :
      (s.kernel.tasks s.kernel.current).flags = .kernel →
        s.kernel.stackLow s.kernel.current ≤ addr →
      addr < s.kernel.stackHigh s.kernel.current →
      HeapEffect s ⟨s.kernel.heap.ram.set addr value, s.kernel.heap.allocated⟩ s.buffers
  | alloc {size : Nat} {result : Option Nat} {h : Heap} :
      size ≤ heapEnd - heapStart → s.kernel.heap.kmalloc size = (result, h) →
      HeapEffect s h (result.elim s.buffers (insert · s.buffers))
  | free {ptr : Nat} : ptr ∈ s.buffers →
    HeapEffect s (s.kernel.heap.kfree ptr) (s.buffers.erase ptr)
  | bufferStore {ptr addr value : Nat} :
      ptr ∈ s.buffers → ptr ≤ addr → addr < ptr + s.kernel.heap.ram.blockSize (ptr - sizeofBlock) →
      HeapEffect s ⟨s.kernel.heap.ram.set addr value, s.kernel.heap.allocated⟩ s.buffers

inductive SchedulerStep (acc : Access) (s : System) : KernelEvent → System → Prop
  | returned {a : Arrival} {k : Kernel} :
      Arrives s a → s.kernel.Served acc a k →
      SchedulerStep acc s (.interrupt a.regs a.cr2 .returned) (s.setKernel k)
  | dispatched {a : Arrival} {k : Kernel} :
      Arrives s a → s.kernel.Dispatches acc a k → (k.tasks k.current).esp ≠ 0 →
      SchedulerStep acc s (.interrupt a.regs a.cr2 (endingOf s.kernel k)) (s.dispatched k)
  | created {k : Kernel} {cr3 old entry pid : Nat} :
      s.kernel.current = 0 → s.spawn = .stacked cr3 old entry →
        s.kernel.CreateExit entry cr3 pid k →
      SchedulerStep acc s (.spawn (.finishing cr3 old pid)) (s.spawning k (.finishing cr3 old pid))
  | other {t : System} {event : KernelEvent} {sys : Sys} {heap : Heap} :
      t.kernel = { s.kernel with sys := sys, heap := heap } → HeapEffect s heap t.buffers →
      t.preempted = s.preempted → (∀ regs cr2 ending, event ≠ .interrupt regs cr2 ending) →
      SchedulerStep acc s event t

theorem scheduler_step {acc : Access} {s t : System} {event : KernelEvent} (table : Table s.kernel)
    (step : KernelStep acc s event t) : SchedulerStep acc s event t := by
  have same : ∀ {t : System} {event : KernelEvent} (sys : Sys),
      t.kernel = { s.kernel with sys := sys } → t.buffers = s.buffers → t.preempted = s.preempted →
      (∀ regs cr2 ending, event ≠ .interrupt regs cr2 ending) → SchedulerStep acc s event t :=
    fun _ kernel buffers ghost event => .other kernel (buffers ▸ .same) ghost event
  cases step with
  | returned arrives returned => exact .returned arrives (interrupt_returns table arrives returned)
  | unwound arrives unwound resumed =>
    obtain ⟨dispatches, rfl⟩ := interrupt_unwinds table arrives unwound
    exact .dispatched arrives dispatches resumed
  | userStore => exact same _ rfl rfl rfl (by simp)
  | cacheFill => exact same _ rfl rfl rfl (by simp)
  | threadStore thread low high => exact .other rfl (.threadStore thread low high) rfl (by simp)
  | alloc _ _ small returned =>
    obtain ⟨result, rfl⟩ := Prod.mk.inj returned
    exact .other rfl (.alloc small (Prod.ext result rfl)) rfl (by simp)
  | free _ _ held => exact .other rfl (.free held) rfl (by simp)
  | bufferStore _ held low high => exact .other rfl (.bufferStore held low high) rfl (by simp)
  | sti => exact same _ rfl rfl rfl (by simp)
  | notCreated _ _ returned =>
    obtain ⟨_, -, rfl⟩ := Kernel.createAddrSpace_some returned
    exact same _ rfl rfl rfl (by simp)
  | created _ _ returned =>
    obtain ⟨_, -, rfl⟩ := Kernel.createAddrSpace_some returned
    exact same _ rfl rfl rfl (by simp)
  | entered => exact same _ rfl rfl rfl (by simp)
  | mapped _ _ _ _ returned =>
    obtain ⟨_, -, rfl⟩ := Kernel.mapUserRegion_some returned
    exact same _ rfl rfl rfl (by simp)
  | filled => exact same _ rfl rfl rfl (by simp)
  | loaded => exact same _ rfl rfl rfl (by simp)
  | rejected => exact same _ rfl rfl rfl (by simp)
  | stacked _ _ returned =>
    obtain ⟨_, -, rfl⟩ := Kernel.mapUserRegion_some returned
    exact same _ rfl rfl rfl (by simp)
  | notStacked _ _ returned =>
    obtain ⟨_, -, rfl⟩ := Kernel.mapUserRegion_some returned
    exact same _ rfl rfl rfl (by simp)
  | taskCreated running stage returned =>
    exact .created running stage (Kernel.taskCreateUser_exits table returned)
  | finished => exact same _ rfl rfl rfl (by simp)
  | notFinished => exact same _ rfl rfl rfl (by simp)
  | aborted => exact same _ rfl rfl rfl (by simp)
  | dropped _ _ returned =>
    obtain ⟨_, -, rfl⟩ := Kernel.destroyAddrSpace_some returned
    exact same _ rfl rfl rfl (by simp)

theorem table_step {acc : Access} {s t : System} {event : KernelEvent} (table : Table s.kernel)
    (step : KernelStep acc s event t) : Table t.kernel := by
  cases scheduler_step table step with
  | returned _ served => exact table.served served
  | dispatched arrives dispatches => exact table.dispatches (interrupt_user arrives) dispatches
  | created _ _ exit => exact table.createExit exit
  | other same =>
    rw [same]
    exact table.congr rfl rfl rfl rfl rfl fun _ => ⟨rfl, rfl, rfl⟩

theorem table_run {acc : Access} {s t : System} {events : List KernelEvent} (table : Table s.kernel)
    (run : Run (KernelStep acc) s events t) : Table t.kernel :=
  run.invariant (fun s => Table s.kernel) (fun _ _ _ => table_step) table

end NovaKernel

import NovaKernel.UserFaults
import Mathlib.Order.Interval.Finset.Nat
import Mathlib.Data.Nat.Count

set_option autoImplicit false

namespace NovaKernel

open Machine Transition

namespace Kernel

def schedTaskCount (k : Kernel) : Nat := Nat.count (fun i => (k.tasks i).ready = true) k.taskCount

def schedTaskPid (k : Kernel) (slot : Nat) : Nat :=
  if slot < k.taskCount then (k.tasks slot).pid else 0

def schedTaskState (k : Kernel) (slot : Nat) : Bool :=
  if slot < k.taskCount then (k.tasks slot).ready else false

structure PsRow where
  slot : Nat
  pid : Nat
  state : String
  deriving DecidableEq

-- The names are left out: no other function reads them.
def cmdPs (k : Kernel) : List PsRow :=
  (List.range k.schedTaskCount).map fun i =>
    ⟨i, k.schedTaskPid i, if k.schedTaskState i then "ready" else "dead"⟩

def ShowsReady (k : Kernel) : Prop :=
  ∀ i, (k.tasks i).ready = true → k.cmdPs.countP (fun row => row.pid = (k.tasks i).pid) = 1

def NoGap (k : Kernel) : Prop := ∀ i, (k.tasks i).ready = true → ∀ j < i, (k.tasks j).ready = true

end Kernel

theorem countP_range (p : Nat → Prop) [DecidablePred p] (n : Nat) :
    (List.range n).countP (fun i => p i) = Nat.count p n := by
  induction n with
  | zero => rfl
  | succ n ih =>
    rw [List.range_succ, List.countP_append, ih, Nat.count_succ, List.countP_singleton]; simp

theorem below_count_iff (p : Nat → Prop) [DecidablePred p] (n : Nat) :
    (∀ i < n, p i → i < Nat.count p n) ↔ ∀ i < n, p i → ∀ j < i, p j := by
  constructor
  · intro below
    -- As many members as there are slots below that number.
    have all : Nat.count p (Nat.count p n) = Nat.count p n := by
      rw [Nat.count_eq_card_filter_range p (Nat.count p n)]
      conv_rhs => rw [Nat.count_eq_card_filter_range]
      congr 1
      ext i
      have small := Nat.count_le (p := p) (n := n)
      simp only [Finset.mem_filter, Finset.mem_range]
      exact ⟨fun ⟨low, member⟩ => ⟨by omega, member⟩,
        fun ⟨inside, member⟩ => ⟨below i inside member, member⟩⟩
    intro i inside member j earlier
    exact (Nat.count_iff_forall.mp all) j (Nat.lt_trans earlier (below i inside member))
  · intro closed i inside member
    have all : Nat.count p (i + 1) = i + 1 := Nat.count_iff_forall.mpr fun j low => by
      rcases Nat.lt_succ_iff_lt_or_eq.mp low with earlier | rfl
      · exact closed i inside member j earlier
      · exact member
    have more := Nat.count_monotone p (show i + 1 ≤ n from inside)
    omega

theorem count_one_iff (p : Nat → Prop) [DecidablePred p] {n i : Nat} (inside : i < n)
    (member : p i) :
    Nat.count p n = 1 ↔ ∀ j < n, p j → j = i := by
  rw [Nat.count_eq_card_filter_range, Finset.card_eq_one]
  constructor
  · rintro ⟨k, only⟩ j low other
    have first : i ∈ ({k} : Finset Nat) :=
      only ▸ Finset.mem_filter.mpr ⟨Finset.mem_range.mpr inside, member⟩
    have second : j ∈ ({k} : Finset Nat) :=
      only ▸ Finset.mem_filter.mpr ⟨Finset.mem_range.mpr low, other⟩
    rw [Finset.mem_singleton] at first second
    rw [first, second]
  · intro only
    refine ⟨i, Finset.ext fun j => ?_⟩
    rw [Finset.mem_filter, Finset.mem_range, Finset.mem_singleton]
    constructor
    · rintro ⟨low, other⟩
      exact only j low other
    · rintro rfl
      exact ⟨inside, member⟩

namespace Kernel

variable {k : Kernel}

theorem rows_count (k : Kernel) (pid : Nat) :
    k.cmdPs.countP (fun row => row.pid = pid) = Nat.count (fun i => (k.tasks i).pid = pid) k.schedTaskCount := by
  have few : k.schedTaskCount ≤ k.taskCount := Nat.count_le _
  rw [← countP_range, cmdPs, List.countP_map]
  refine List.countP_congr fun i member => ?_
  have inside : i < k.taskCount := Nat.lt_of_lt_of_le (List.mem_range.mp member) few
  simp [schedTaskPid, inside]

theorem noGap_iff (table : Table k) :
    k.NoGap ↔ ∀ i, (k.tasks i).ready = true → i < k.schedTaskCount := by
  have shown := below_count_iff (fun i => (k.tasks i).ready = true) k.taskCount
  constructor
  · intro closed i ready
    exact shown.mpr (fun i _ ready => closed i ready) i (table.slot_lt ready) ready
  · intro below i ready
    exact shown.mp (fun i _ ready => below i ready) i (table.slot_lt ready) ready

structure Pids (k : Kernel) : Prop where
  old : ∀ i, (k.tasks i).pid ≤ k.created
  distinct : ∀ i j, i ≠ j → (k.tasks i).pid = (k.tasks j).pid → (k.tasks i).pid = 0
  ready : ∀ i, (k.tasks i).ready = true → (k.tasks i).pid ≠ 0

theorem Pids.shows_iff (table : Table k) (pids : k.Pids) : k.ShowsReady ↔ k.NoGap := by
  rw [noGap_iff table]
  refine forall₂_congr fun i ready => ?_
  have only : ∀ j, (k.tasks j).pid = (k.tasks i).pid → j = i := fun j same => by
    by_contra other
    exact pids.ready i ready (pids.distinct i j (Ne.symm other) same.symm)
  rw [rows_count]
  constructor
  · intro once
    by_contra outside
    have none : Nat.count (fun j => (k.tasks j).pid = (k.tasks i).pid) k.schedTaskCount = 0 := by
      rw [Nat.count_eq_card_filter_range, Finset.card_eq_zero, Finset.filter_eq_empty_iff]
      intro j low same
      exact outside (only j same ▸ Finset.mem_range.mp low)
    omega
  · intro inside
    exact (count_one_iff (fun j => (k.tasks j).pid = (k.tasks i).pid) inside rfl).mpr fun j _ same => only j same

theorem NoGap.shows_iff (table : Table k) (closed : k.NoGap) : k.ShowsReady ↔
    ∀ i j, (k.tasks i).ready = true → (k.tasks j).ready = true →
      (k.tasks i).pid = (k.tasks j).pid → i = j := by
  have below := (noGap_iff table).mp closed
  have rows : ∀ j < k.schedTaskCount, (k.tasks j).ready = true := by
    have all : Nat.count (fun i => (k.tasks i).ready = true) k.schedTaskCount = k.schedTaskCount := by
      conv_rhs => rw [schedTaskCount, Nat.count_eq_card_filter_range]
      rw [Nat.count_eq_card_filter_range]
      congr 1
      ext i
      simp only [Finset.mem_filter, Finset.mem_range]
      exact ⟨fun ⟨_, ready⟩ => ⟨table.slot_lt ready, ready⟩,
        fun ⟨_, ready⟩ => ⟨below i ready, ready⟩⟩
    exact Nat.count_iff_forall.mp all
  constructor
  · intro shows i j ready ready' same
    have once := shows j ready'
    rw [rows_count] at once
    exact (count_one_iff (fun i => (k.tasks i).pid = (k.tasks j).pid) (below j ready') rfl).mp once i (below i ready) same
  · intro distinct i ready
    rw [rows_count]
    exact (count_one_iff (fun j => (k.tasks j).pid = (k.tasks i).pid) (below i ready) rfl).mpr fun j low same =>
      distinct j i (rows j low) ready same

/-- What a step does to the pids. -/
inductive PidEffect (k k' : Kernel) : Prop
  | kept : (∀ i, (k'.tasks i).pid = (k.tasks i).pid ∧ ((k'.tasks i).ready = true → (k.tasks i).ready = true)) →
      k'.created = k.created → PidEffect k k'
  | added {slot : Nat} : (k'.tasks slot).pid = k.nextPid →
      (∀ i, i ≠ slot → (k'.tasks i).pid = (k.tasks i).pid ∧
        ((k'.tasks i).ready = true → (k.tasks i).ready = true)) →
      k'.created = k.created + 1 → PidEffect k k'

theorem PidEffect.created_le {k' : Kernel} (effect : k.PidEffect k') :
    k'.created ≤ k.created + 1 := by
  cases effect with
  | kept _ created => omega
  | added _ _ created => omega

theorem Pids.effect {k' : Kernel} (pids : k.Pids) (counted : k.Counted) (few : k'.created < 2 ^ 32)
    (effect : k.PidEffect k') : k'.Pids := by
  cases effect with
  | kept same created =>
    constructor
    · intro i
      rw [(same i).1, created]
      exact pids.old i
    · intro i j other
      rw [(same i).1, (same j).1]
      exact pids.distinct i j other
    · intro i ready
      rw [(same i).1]
      exact pids.ready i ((same i).2 ready)
  | @added slot next others created =>
    have fresh : (k'.tasks slot).pid = k.created + 1 := by
      rw [next, counted]
      exact Nat.mod_eq_of_lt (created ▸ few)
    constructor
    · intro i
      rw [created]
      by_cases here : i = slot
      · rw [here, fresh]
      · rw [(others i here).1]
        exact Nat.le_succ_of_le (pids.old i)
    · intro i j other same
      -- The new pid is above all the others.
      by_cases here : i = slot
      · subst here
        rw [fresh, (others j (Ne.symm other)).1] at same
        have old := pids.old j
        omega
      · rw [(others i here).1] at same ⊢
        by_cases there : j = slot
        · subst there
          rw [fresh] at same
          have old := pids.old i
          omega
        · rw [(others j there).1] at same
          exact pids.distinct i j other same
    · intro i ready
      by_cases here : i = slot
      · rw [here, fresh]
        exact Nat.succ_ne_zero _
      · rw [(others i here).1]
        exact pids.ready i ((others i here).2 ready)

section Effects

variable {acc : Access} {k' : Kernel} {a : Arrival}

theorem PidEffect.congr {k₁ k₁' : Kernel} (effect : k.PidEffect k')
    (before : k₁.tasks = k.tasks ∧ k₁.nextPid = k.nextPid ∧
    k₁.created = k.created) (after : k₁'.tasks = k'.tasks ∧ k₁'.created = k'.created) :
      k₁.PidEffect k₁' := by
  obtain ⟨tasks, pid, created⟩ := before
  obtain ⟨tasks', created'⟩ := after
  cases effect with
  | kept same counter => exact .kept (by rwa [tasks, tasks']) (by rw [created', created, counter])
  | added next others counter =>
    exact .added (by rw [tasks', pid, next]) (by rwa [tasks, tasks'])
      (by rw [created', created, counter])

theorem PidEffect.of_same (same : ∀ i, (k.tasks i).Same (k'.tasks i))
    (created : k'.created = k.created) :
    k.PidEffect k' := by
  refine .kept (fun i => ?_) created
  obtain ⟨_, _, _, task⟩ := same i
  rw [task]
  exact ⟨rfl, id⟩

theorem PidEffect.of_addTask {slot : Nat} {t : Task}
    (tasks : k'.tasks = Function.update k.tasks slot t) (pid : t.pid = k.nextPid)
    (created : k'.created = k.created + 1) : k.PidEffect k' := by
  have here : (k'.tasks slot).pid = k.nextPid := by rw [tasks, Function.update_self, pid]
  refine .added here (fun i other => ?_) created
  rw [tasks, Function.update_of_ne other]
  exact ⟨rfl, id⟩

theorem PidEffect.of_taken (effect : (k.taken a).PidEffect k') : k.PidEffect k' := by
  have kept : ∀ i, (k'.tasks i).pid = ((k.taken a).tasks i).pid ∧
      ((k'.tasks i).ready = true → ((k.taken a).tasks i).ready = true) →
      (k'.tasks i).pid = (k.tasks i).pid ∧ ((k'.tasks i).ready = true → (k.tasks i).ready = true) :=
        fun i same => by
    simpa using same
  cases effect with
  | kept same created => exact .kept (fun i => kept i (same i)) (by rw [created, taken_created])
  | added next others created =>
    refine .added ?_ (fun i other => kept i (others i other)) (by rw [created, taken_created])
    rw [next, taken_nextPid]

theorem ForkExit.pidEffect {r parent pid : Nat} (exit : k.ForkExit acc r parent pid k') :
    k.PidEffect k' := by
  cases exit with
  | tableFull => exact .kept (fun _ => ⟨rfl, id⟩) rfl
  | noSpace => exact .kept (fun _ => ⟨rfl, id⟩) rfl
  | noCopy => exact .kept (fun _ => ⟨rfl, id⟩) rfl
  | noStack => exact .of_addTask rfl rfl rfl
  | forked => exact .of_addTask rfl rfl rfl

theorem CreateExit.pidEffect {entry cr3 pid : Nat} (exit : k.CreateExit entry cr3 pid k') :
    k.PidEffect k' := by
  cases exit with
  | tableFull => exact .kept (fun _ => ⟨rfl, id⟩) rfl
  | noStack => exact .of_addTask rfl rfl rfl
  | noArea => exact .of_addTask rfl rfl rfl
  | created => exact .of_addTask rfl rfl rfl

theorem Departs.ready {next : Nat} {sys : Sys} (departs : Departs acc k next sys) :
    (k.tasks next).ready = true := by
  have live : (k.deadTasks next).ready = true := departs.follows.1
  rwa [deadTasks, Function.update_of_ne departs.other] at live

theorem Departs.pidEffect {next : Nat} {sys : Sys} (departs : Departs acc k next sys) :
    k.PidEffect (k.exited next sys) := by
  refine .kept (fun i => ?_) rfl
  by_cases here : i = next
  · rw [here, show (k.exited next sys).tasks next = _ from Function.update_self _ _ _]
    exact ⟨rfl, fun _ => departs.ready⟩
  · by_cases own : i = k.current
    · rw [show (k.exited next sys).tasks i = k.deadTasks i from Function.update_of_ne here _ _, own,
        deadTasks, Function.update_self]
      exact ⟨rfl, fun live => absurd live (by simp)⟩
    · rw [exited_other sys own here]
      exact ⟨rfl, id⟩

theorem Served.pidEffect (served : k.Served acc a k') : k.PidEffect k' := by
  have taken : k.PidEffect (k.taken a) := .of_same (taken_same k a) taken_created
  cases served with
  | ignored => exact .kept (fun _ => ⟨rfl, id⟩) rfl
  | kept => exact taken
  | charged => exact .of_taken (.of_same (modify_slice _ _ (· - 1)) rfl)
  | pid => exact taken.congr ⟨rfl, rfl, rfl⟩ ⟨rfl, rfl⟩
  | slept =>
    exact .of_taken (.of_same
      (modify_slice _ _ fun _ => if min a.regs.ebx 1000 ≠ 0 then min a.regs.ebx 1000 else 1) rfl)
  | called _ call =>
    obtain ⟨m, value, -, rfl⟩ := call
    exact taken.congr ⟨rfl, rfl, rfl⟩ ⟨rfl, rfl⟩
  | resolved => exact .kept (fun _ => ⟨rfl, id⟩) rfl
  | forked _ _ _ exit => exact (PidEffect.of_taken exit.pidEffect).congr ⟨rfl, rfl, rfl⟩ ⟨rfl, rfl⟩

theorem Dispatches.pidEffect (dispatches : k.Dispatches acc a k') : k.PidEffect k' := by
  cases dispatches with
  | expired => exact .of_taken (.of_same (slicedTasks_kept _ _ _) rfl)
  | exits _ _ departs => exact .of_taken departs.pidEffect
  | killed _ _ _ departs => exact departs.pidEffect.congr ⟨rfl, rfl, rfl⟩ ⟨rfl, rfl⟩

end Effects

end Kernel

theorem pidEffect_step {acc : Access} {s t : System} {event : KernelEvent} (table : Table s.kernel)
    (step : KernelStep acc s event t) : s.kernel.PidEffect t.kernel := by
  cases scheduler_step table step with
  | returned _ served => exact served.pidEffect
  | dispatched _ dispatches => exact dispatches.pidEffect
  | created _ _ exit => exact exit.pidEffect
  | other same =>
    rw [same]
    exact .kept (fun _ => ⟨rfl, id⟩) rfl

theorem pids_boot (image : BootImage) : (bootSystem image).kernel.Pids := by
  obtain ⟨heap, booted, -⟩ := boot_kernel image
  have same : (bootSystem image).kernel = image.booted heap := booted
  rw [same]
  constructor
  · intro i
    change (bootTasks image.demoA image.demoB i).pid ≤ 3
    match i with
    | 0 => exact show 1 ≤ 3 by decide
    | 1 => exact show 2 ≤ 3 by decide
    | 2 => exact Nat.le_refl 3
    | i + 3 => exact Nat.zero_le 3
  · intro i j other
    change (bootTasks image.demoA image.demoB i).pid = (bootTasks image.demoA image.demoB j).pid →
      (bootTasks image.demoA image.demoB i).pid = 0
    match i, j with
    | 0, 0 | 1, 1 | 2, 2 => exact absurd rfl other
    | 0, 1 | 0, 2 | 1, 0 | 1, 2 | 2, 0 | 2, 1 => exact fun same => absurd same (by simp [bootTasks])
    | 0, j + 3 | 1, j + 3 | 2, j + 3 =>
      exact fun same =>
        absurd same (by simp [bootTasks, Task.zero])
    | i + 3, _ => exact fun _ => rfl
  · intro i
    change (bootTasks image.demoA image.demoB i).ready = true →
      (bootTasks image.demoA image.demoB i).pid ≠ 0
    match i with
    | 0 | 1 | 2 => exact fun _ => by simp [bootTasks]
    | i + 3 => exact fun ready => absurd ready (by simp [bootTasks, Task.zero])

theorem pids_run {acc : Access} {image : BootImage} {events : List KernelEvent} {t : System}
    (run : Run (KernelStep acc) (bootSystem image) events t) (few : t.kernel.created < 2 ^ 32) :
      t.kernel.Pids := by
  have boot : (bootSystem image).kernel.Counted :=
    (@steady_boot (fun _ => True) ⟨trivial, trivial⟩ image).counted
  refine (run.invariant (fun s => Table s.kernel ∧ s.kernel.Counted ∧ (s.kernel.created < 2 ^ 32 → s.kernel.Pids))
    (fun s event t inv step => ?_) ⟨table_boot image, boot, fun _ => pids_boot image⟩).2.2 few
  obtain ⟨table, counted, pids⟩ := inv
  obtain ⟨counted', more⟩ := counted_step table counted step
  exact ⟨table_step table step, counted',
    fun few => (pids (by omega)).effect counted few (pidEffect_step table step)⟩

/-- `ps` shows every ready task's pid once exactly while no dead slot lies before a ready one and the ready tasks' pids
differ; the pids differ unless 2^32 tasks were created. -/
theorem cmdPs_shows_iff {acc : Access} {image : BootImage} {events : List KernelEvent} {t : System}
    (run : Run (KernelStep acc) (bootSystem image) events t) :
    (t.kernel.created < 2 ^ 32 → (t.kernel.ShowsReady ↔ t.kernel.NoGap)) ∧
      (t.kernel.NoGap → (t.kernel.ShowsReady ↔ ∀ i j, (t.kernel.tasks i).ready = true →
        (t.kernel.tasks j).ready = true →
          (t.kernel.tasks i).pid = (t.kernel.tasks j).pid → i = j)) := by
  have table := table_run (table_boot image) run
  exact ⟨fun few => (pids_run run few).shows_iff table, fun closed => closed.shows_iff table⟩

theorem Kernel.taskForkUser_forks {acc : Access} {k : Kernel} {r parent child copy base : Nat}
    {m : Machine} {h h' : Heap}
    (table : Table k) (room : ∃ i < maxTasks, (k.tasks i).ready = false)
    (forked : pagingForkAddrSpace acc k.sys.machine parent = some (some child, m))
    (copied : k.heap.kmalloc frameBytes = (some copy, h)) (inside : r + frameBytes ≤ heapEnd)
    (stack : (frameCopy h copy r).kmalloc irqStack = (some base, h')) :
    ∃ k', k.taskForkUser acc r parent = some (k.nextPid, k') := by
  rcases allocSlot_cases table with ⟨slot, free, found⟩ | ⟨full, -⟩
  · have notFull := Nat.not_le.mpr free.inside
    have stack' : Heap.kmalloc ⟨h.ram.writeWords copy (h.ram.readWords r (frameBytes / 4)), h.allocated⟩ irqStack =
        (some base, h') := stack
    simp [taskForkUser, found, notFull, forkAddrSpace,
      withSlot, forked, kmalloc, copied, copyFrame, inside, writeWords, allocIrqStack, initTask,
      Task.zero, stack']
  · obtain ⟨i, low, dead⟩ := room
    exact absurd ((full i low).symm.trans dead) (by simp)

structure Forked (s t : System) : Prop where
  turns : Turns 5 t
  current : t.kernel.current = 3
  created : t.kernel.created = 5
  cr3 : (t.kernel.tasks 4).cr3 = 0x134
  filled : Filled t.kernel.sys.machine 0x136
  buffers : t.buffers = s.buffers

section Child

variable {s : System} (spawned : Spawned (fun _ => True) s) (steady : Steady (fun _ => True) s)
  (current : s.kernel.current = 3) (user : (s.kernel.tasks s.kernel.current).flags = .user)
include spawned steady current user

theorem fork_step : ∃ t, KernelStep physical s (.interrupt (s.arrival 128 0 nrFork 0 0).regs
    (s.arrival 128 0 nrFork 0 0).cr2 .returned) t ∧ Forked s t := by
  have arrives : Arrives s (s.arrival 128 0 nrFork 0 0) :=
    arrives_user user (by decide) 128 0 nrFork 0
  have vector : (s.arrival 128 0 nrFork 0 0).regs.intNo = 128 := rfl
  have call : (s.arrival 128 0 nrFork 0 0).regs.eax = nrFork := rfl
  have place := (arrives.user user).2
  generalize s.arrival 128 0 nrFork 0 0 = a at *
  have esp0 : s.kernel.esp0 = 0x30E03C :=
    (steady.table.esp0 user).trans (by rw [current, spawned.irqStackTop])
  have few : s.kernel.created < 2 ^ 32 := by
    rw [spawned.created]
    decide
  -- The page directory, its table and the two blocks are found.
  have ready := (steady.spaces few).good.ready
  have member : 0x130 ∈ s.kernel.sys.live := by
    rw [spawned.live]
    exact Finset.mem_insert_self _ _
  obtain ⟨m, first, machine⟩ := spawned.space
  have filled : Filled s.kernel.sys.machine 0x134 := by
    rw [machine]
    exact first.filled
  have forked := fork_ok physical_reaches ready member (filled_allocTables filled (by decide))
    ⟨trivial, trivial⟩
  have filled' := filled_forked filled 0x130
  have owned := spawned.blocks.entered steady.table steady.mem arrives
  obtain ⟨h, copied, owned₁⟩ := owned.kmalloc_found frameBytes 0x30F054
    [⟨taskStack, false⟩, ⟨irqStack, false⟩, ⟨taskStack, false⟩, ⟨irqStack, false⟩, ⟨irqStack, false⟩,
      ⟨0x1000, false⟩, ⟨frameBytes, false⟩, ⟨0xF0EA0, true⟩] (by decide)
  have payload : h.Payload 0x30F054 frameBytes :=
    (Heap.payload_iff owned₁).mpr ⟨frameBytes, by decide, Nat.le_refl _⟩
  have owned₂ : Owned (Kernel.frameCopy h 0x30F054 a.r) _ :=
    payload.stores owned₁ fun w outside => frameCopy_outside h 0x30F054 a.r outside
  obtain ⟨h', stack, -⟩ := owned₂.kmalloc_found irqStack 0x30F160
    [⟨taskStack, false⟩, ⟨irqStack, false⟩, ⟨taskStack, false⟩, ⟨irqStack, false⟩, ⟨irqStack, false⟩,
      ⟨0x1000, false⟩, ⟨frameBytes, false⟩, ⟨irqStack, false⟩, ⟨0xEEE94, true⟩] (by decide)
  have inside : a.r + frameBytes ≤ heapEnd := by
    rw [place, esp0]
    decide
  have slots : ∀ i, ((s.kernel.taken a).tasks i).ready = true ↔ i < 4 := fun i => by
    rw [Kernel.taken_ready]
    exact spawned.turns.ready i
  have room : ((s.kernel.taken a).tasks 4).ready = false := by
    have dead := mt (slots 4).mp (by decide)
    simpa using dead
  obtain ⟨k, called⟩ := Kernel.taskForkUser_forks (steady.table.taken a) ⟨4, by decide, room⟩
    (by rwa [Kernel.taken_sys]) (by rwa [Kernel.taken_heap]) inside stack
  have exit := Kernel.taskForkUser_exits (steady.table.taken a) called
  have returned : s.kernel.interrupt physical a =
      .returns (k.setEax a.r (s.kernel.taken a).nextPid) := by
    unfold Kernel.interrupt Kernel.isrCommonHandler
    simp only [Kernel.entered_intNo, vector]
    change (s.kernel.taken a).syscallDispatch physical a.others a.r = _
    have process : ((s.kernel.taken a).tasks (s.kernel.taken a).current).flags = .user := by
      simpa using user
    have space : ((s.kernel.taken a).tasks (s.kernel.taken a).current).cr3 = 0x130 := by
      simpa [current] using spawned.cr3
    unfold Kernel.syscallDispatch
    simp only [Kernel.taken_word, Kernel.entered_eax, call, process, space, called]
    rfl
  have step := KernelStep.returned arrives returned
  refine ⟨_, step, ?_⟩
  have number : (s.kernel.taken a).nextPid = 5 := Kernel.taken_nextPid.trans spawned.nextPid
  generalize (s.kernel.taken a).nextPid = pid at exit returned called number step ⊢
  cases exit with
  | tableFull => cases number
  | noSpace => cases number
  | noCopy => cases number
  | noStack => cases number
  | @forked slot child copy base m h₁ h₁' free space copied' _ _ =>
    rw [Kernel.taken_heap, copied] at copied'
    obtain ⟨rfl⟩ : 0x30F054 = copy := Option.some.inj (Prod.mk.inj copied').1
    rw [Kernel.taken_sys, forked] at space
    obtain ⟨child_eq, rfl⟩ := Prod.mk.inj (Option.some.inj space)
    obtain rfl := Option.some.inj child_eq
    have fourth : slot = 4 := by
      have low : ¬ slot < 4 :=
        fun low => absurd (((slots slot).mpr low).symm.trans free.free) (by simp)
      have high : ¬ 4 < slot := fun high => absurd ((free.earlier 4 high).symm.trans room) (by simp)
      omega
    subst fourth
    have table := table_step steady.table step
    have mem := memory_step steady.table steady.mem step
    generalize made : (s.kernel.taken a).childTask 0x134 base 0x30F054 (Kernel.childFrame h₁' 0x30F054) = t at *
    have fields : t.ready = true ∧ t.cr3 = 0x134 ∧ t.sliceLeft = 5 ∧ t.esp = 0x30F054 := by
      rw [← made]
      exact ⟨rfl, rfl, rfl, rfl⟩
    have tasks : ∀ i, (Function.update (s.kernel.taken a).tasks 4 t) i =
        if i = 4 then t else (s.kernel.taken a).tasks i := fun i => Function.update_apply ..
    refine ⟨⟨table, mem, spawned.turns.enabled, fun i => ?_, fun i below => ?_, fun i below other => ?_⟩,
      Kernel.taken_current.trans current, ?_, ?_, filled', rfl⟩
    · change ((Function.update (s.kernel.taken a).tasks 4 t) i).ready = true ↔ i < 5
      rw [tasks]
      by_cases here : i = 4
      · simp [here, fields.1]
      · rw [if_neg here, slots]
        omega
    · change ((Function.update (s.kernel.taken a).tasks 4 t) i).sliceLeft ≤ 5
      rw [tasks]
      by_cases here : i = 4
      · simp [here, fields.2.2.1]
      · rw [if_neg here, Kernel.taken_sliceLeft]
        exact spawned.turns.slices i (by omega)
    · change ((Function.update (s.kernel.taken a).tasks 4 t) i).esp ≠ 0
      have notThree : i ≠ 3 :=
        fun same => other (same.trans (Kernel.taken_current.trans current).symm)
      rw [tasks]
      by_cases here : i = 4
      · rw [if_pos here, fields.2.2.2]
        decide
      · rw [if_neg here, (s.kernel.alike_taken a).others i (by rwa [current])]
        exact spawned.turns.present i (by omega) (by rwa [current])
    · change (s.kernel.taken a).created + 1 = 5
      rw [Kernel.taken_created, spawned.created]
    · change ((Function.update (s.kernel.taken a).tasks 4 t) 4).cr3 = 0x134
      rw [Function.update_self, fields.2.1]

end Child

theorem kill_step {s : System} (steady : Steady (fun _ => True) s) (few : s.kernel.created < 2 ^ 32)
    (user : (s.kernel.tasks s.kernel.current).flags = .user)
    (present : ∀ i, i ≠ s.kernel.current → (s.kernel.tasks i).ready = true → (s.kernel.tasks i).esp ≠ 0) :
    ∃ event k, KernelStep physical s event (s.dispatched k) ∧ Killed s k := by
  have arrives : Arrives s (s.arrival 14 4 0 0 0) := arrives_user user (by decide) 14 4 0 0
  have exception : (s.arrival 14 4 0 0 0).regs.intNo < 32 := show 14 < 32 by decide
  have fromUser : hasFlag (BitVec.ofNat 32 (s.arrival 14 4 0 0 0).regs.errCode) pteU = true :=
    show hasFlag (BitVec.ofNat 32 4) pteU = true by decide
  have handled := (handled_iff physical_reaches steady.table (steady.spaces few) arrives exception
    fun _ _ _ _ => ⟨trivial, fun _ _ _ => trivial⟩).mpr ⟨rfl, fromUser⟩
  have read : ∀ m, pagingCowFault physical s.kernel.sys.machine (s.arrival 14 4 0 0 0).cr2
      (BitVec.ofNat 32 (s.arrival 14 4 0 0 0).regs.errCode) ≠ some (true, m) := fun m resolved => by
    have write : hasFlag (BitVec.ofNat 32 (s.arrival 14 4 0 0 0).regs.errCode) pteW = false :=
      show hasFlag (BitVec.ofNat 32 4) pteW = false by decide
    simp [pagingCowFault, fromUser, write] at resolved
  generalize s.arrival 14 4 0 0 0 = a at *
  generalize outcome : s.kernel.interrupt physical a = result at handled
  cases handled with
  | resolved copied => exact absurd copied (read _)
  | @killed k killed =>
    exact ⟨_, k, .unwound arrives outcome (present k.current killed.next.1 killed.next.2), killed⟩

theorem orphaned_run : ∃ events t, Run (KernelStep physical) (bootSystem zeroImage) events t ∧
    t.kernel.created < 2 ^ 32 ∧ (t.kernel.tasks 3).ready = false ∧
      (t.kernel.tasks 4).ready = true := by
  obtain ⟨events, s, spawned, current, user, -, run⟩ :=
    running_run physical_reaches (fun _ _ => trivial) zeroImage
  rw [← current] at user
  obtain ⟨t, forked, ⟨turns, current', created, -, -, -⟩⟩ :=
    fork_step spawned (steady_physical run) current user
  have child : (t.kernel.tasks 4).ready = true := (turns.ready 4).mpr (by decide)
  have present : ∀ i, i ≠ t.kernel.current → (t.kernel.tasks i).ready = true →
      (t.kernel.tasks i).esp ≠ 0 :=
    fun i other ready => turns.present i ((turns.ready i).mp ready) other
  have run₁ := run.snoc forked
  have steady := steady_physical run₁
  have user' : (t.kernel.tasks t.kernel.current).flags = .user := by
    rw [current']
    exact ((steady.table.user_iff (current' ▸ steady.table.running)).mpr (Nat.le_refl 3))
  obtain ⟨event, k, step, killed⟩ := kill_step steady (by rw [created]; decide) user' present
  have few : (t.dispatched k).kernel.created < 2 ^ 32 := by
    have more := (pidEffect_step steady.table step).created_le
    omega
  refine ⟨_, t.dispatched k, run₁.snoc step, few, current' ▸ killed.dead, ?_⟩
  change (k.tasks 4).ready = true
  by_cases next : 4 = k.current
  · rw [next, killed.dispatched, ← next]
    exact child
  · rw [killed.others 4 (by omega) next]
    exact child

-- `ps` after that: slot 3 is dead and slot 4 is not.
theorem cmdPs_shows_orphan : ∃ t : System, (t.kernel.tasks 3).ready = false ∧ (t.kernel.tasks 4).ready = true ∧
    (t.kernel.created < 2 ^ 32 → (t.kernel.ShowsReady ↔ t.kernel.NoGap)) ∧
      (t.kernel.NoGap → (t.kernel.ShowsReady ↔ ∀ i j, (t.kernel.tasks i).ready = true →
        (t.kernel.tasks j).ready = true →
          (t.kernel.tasks i).pid = (t.kernel.tasks j).pid → i = j)) := by
  obtain ⟨events, t, run, -, dead, live⟩ := orphaned_run
  exact ⟨t, dead, live, cmdPs_shows_iff run⟩

/-- `ps` does not show the child. -/
theorem cmdPs_hides : ¬ ∀ (acc : Access) (image : BootImage) (events : List KernelEvent) (t : System),
    Run (KernelStep acc) (bootSystem image) events t → t.kernel.ShowsReady := by
  intro all
  obtain ⟨events, t, run, few, dead, live⟩ := orphaned_run
  have closed := ((pids_run run few).shows_iff (steady_physical run).table).mp (all _ _ _ _ run)
  exact absurd ((closed 4 live 3 (by decide)).symm.trans dead) (by simp)

end NovaKernel

import NovaKernel.TaskMemorySteps
import NovaKernel.Dispatching

set_option autoImplicit false

namespace NovaKernel

open Arena RoundRobin Transition

-- What the CPU and the stub push; the registers that no handler reads are zero.
def pushedRegs (flags : TaskFlags) (intNo errCode eax ebx : Nat) : Regs where
  gs := 0
  fs := 0
  es := 0
  ds := 0
  edi := 0
  esi := 0
  ebp := 0
  esp := 0
  ebx := ebx
  edx := 0
  ecx := 0
  eax := eax
  intNo := intNo
  errCode := errCode
  eip := 0
  cs := match flags with
    | .kernel => gdtCodeSel
    | .user => gdtUcodeSel
  eflags := 0x202
  userEsp := 0
  userSs := 0

def System.arrival (s : System) (intNo errCode eax ebx cr2 : Nat) : Arrival where
  regs := pushedRegs (s.kernel.tasks s.kernel.current).flags intNo errCode eax ebx
  cr2 := cr2
  r := match (s.kernel.tasks s.kernel.current).flags with
    | .kernel => s.kernel.stackLow s.kernel.current
    | .user => s.kernel.esp0 - 4 * 19
  scratch _ := 0
  others _ _ := none

def System.tick (s : System) : Arrival := s.arrival 32 0 0 0 0

theorem stackBottom_block {t : Task} (stack : t.stackBottom ≠ 0) :
    (t.stackBottom, taskStack) ∈ t.blocks := by
  simp [Task.blocks, stack]

theorem Memory.stackLow_aligned {k : Kernel} {buffers : Finset Nat} (mem : Memory k buffers)
    {i : Nat} (ready : (k.tasks i).ready = true) (thread : (k.tasks i).flags = .kernel) :
    k.stackLow i % 4 = 0 := by
  simp only [Kernel.stackLow, thread]
  by_cases stack : (k.tasks i).stackBottom = 0
  · rw [if_pos stack]
    exact mem.aligned
  · rw [if_neg stack]
    exact (Heap.Payload.inside mem.sound (mem.held i ready _ (stackBottom_block stack))).2.2

section Arrivals

variable {s : System}

theorem arrives_user (user : (s.kernel.tasks s.kernel.current).flags = .user) {cr2 : Nat}
    (bounded : cr2 < 2 ^ 32) (intNo errCode eax ebx : Nat) :
    Arrives s (s.arrival intNo errCode eax ebx cr2) where
  cr2 := bounded
  others _ _ _ called := absurd called (by simp [System.arrival])
  user _ := by simp [System.arrival, pushedRegs, user, gdtUcodeSel]
  kernel thread := absurd (user.symm.trans thread) (by simp)

theorem arrives_tick (table : Table s.kernel) (mem : Memory s.kernel s.buffers)
    (enabled : s.enabled = true) :
    Arrives s s.tick := by
  cases flags : (s.kernel.tasks s.kernel.current).flags with
  | user => exact arrives_user flags (by decide) 32 0 0 0
  | kernel =>
    refine ⟨show 0 < 2 ^ 32 by decide,
      fun _ _ _ called => absurd called (by simp [System.tick, System.arrival]), fun user =>
        absurd (flags.symm.trans user) (by simp), fun _ => ?_⟩
    have aligned := mem.stackLow_aligned table.running flags
    simp [System.tick, System.arrival, pushedRegs, flags, enabled, aligned, Kernel.stackHigh,
      taskStack]

end Arrivals

section Tick

variable (acc : Access) {s : System} (table : Table s.kernel) (mem : Memory s.kernel s.buffers)
  (enabled : s.enabled = true)
include table mem enabled

omit table mem enabled in
theorem tick_eq : s.kernel.interrupt acc s.tick = (s.kernel.taken s.tick).schedTick := by
  have vector : s.tick.regs.intNo = 32 := rfl
  unfold Kernel.interrupt Kernel.isrCommonHandler
  simp only [Kernel.entered_intNo, Kernel.entered_errCode, vector]
  rfl

theorem tick_charges (left : 0 < (s.kernel.tasks s.kernel.current).sliceLeft) :
    KernelStep acc s (.interrupt s.tick.regs s.tick.cr2 .returned)
      (s.setKernel ((s.kernel.taken s.tick).modify s.kernel.current fun t =>
        { t with sliceLeft := t.sliceLeft - 1 })) := by
  have arrives := arrives_tick table mem enabled
  refine .returned arrives ?_
  rw [tick_eq]
  rcases (s.kernel.taken s.tick).schedTick_cases (table.taken _) rfl (frame_ne_zero table arrives) with
    ⟨-, tick⟩ | ⟨expired, -⟩
  · rw [tick, Kernel.taken_current]
  · simp only [Kernel.taken_current, Kernel.taken_sliceLeft] at expired
    omega

theorem tick_switches {next : Nat} (expired : (s.kernel.tasks s.kernel.current).sliceLeft = 0)
    (follows : Follows s.kernel.readySlots s.kernel.current next) (other : next ≠ s.kernel.current)
    (present : (s.kernel.tasks next).esp ≠ 0) :
    KernelStep acc s
      (.interrupt s.tick.regs s.tick.cr2 (endingOf s.kernel ((s.kernel.taken s.tick).switched s.tick.r next)))
      (s.dispatched ((s.kernel.taken s.tick).switched s.tick.r next)) := by
  have arrives := arrives_tick table mem enabled
  have slots : (s.kernel.taken s.tick).readySlots = s.kernel.readySlots := by
    funext i
    simp [Kernel.readySlots]
  have task : (s.kernel.taken s.tick).tasks next = s.kernel.tasks next :=
    (s.kernel.alike_taken s.tick).others next other
  have resumed : (((s.kernel.taken s.tick).switched s.tick.r next).tasks next).esp =
      (s.kernel.tasks next).esp := by
    rw [← task]
    simp [Kernel.switched, Kernel.slicedTasks, Function.update_of_ne other]
  refine .unwound arrives ?_ present
  rw [tick_eq]
  rcases (s.kernel.taken s.tick).schedTick_cases (table.taken _) rfl (frame_ne_zero table arrives) with
    ⟨left, -⟩ | ⟨-, next', follows', tick⟩
  · simp only [Kernel.taken_current, Kernel.taken_sliceLeft] at left
    omega
  · rw [slots, Kernel.taken_current] at follows'
    obtain rfl := follows'.unique follows
    rw [tick, ← resumed]
    rfl

end Tick

theorem Owned.entered {s : System} {a : Arrival} {blocks : List Block} (table : Table s.kernel)
    (mem : Memory s.kernel s.buffers) (arrives : Arrives s a) (owned : Owned s.kernel.heap blocks) :
    Owned (s.kernel.entered a).heap blocks := by
  have outside := fun w => entered_outside table arrives (w := w)
  have boot := mem.bootStack
  cases mem.stack _ table.running with
  | block member low high =>
    exact (mem.held _ table.running _ member).stores owned fun w apart => outside w (by omega)
  | bootStack _ low high =>
    refine ⟨owned.heap.congr fun x b found w below _ => outside w ?_, owned.payloads⟩
    have := layout_bounds found
    omega

/-- The tasks in the first `n` slots, and no others, are ready and take turns. -/
structure Turns (n : Nat) (s : System) : Prop where
  table : Table s.kernel
  mem : Memory s.kernel s.buffers
  enabled : s.enabled = true
  ready : ∀ i, s.kernel.readySlots i = true ↔ i < n
  slices : ∀ i < n, (s.kernel.tasks i).sliceLeft ≤ 5
  present : ∀ i < n, i ≠ s.kernel.current → (s.kernel.tasks i).esp ≠ 0

def Task.Same (t t' : Task) : Prop :=
  ∃ esp saved sliceLeft, t' = { t with esp := esp, saved := saved, sliceLeft := sliceLeft }

theorem Task.Same.trans {t t' t'' : Task} (first : t.Same t') (second : t'.Same t'') :
    t.Same t'' := by
  obtain ⟨_, _, _, rfl⟩ := first
  obtain ⟨esp, saved, slice, rfl⟩ := second
  exact ⟨esp, saved, slice, rfl⟩

structure Turned (s t : System) : Prop where
  spawn : t.spawn = s.spawn
  buffers : t.buffers = s.buffers
  tasks : ∀ i, (s.kernel.tasks i).Same (t.kernel.tasks i)
  nextPid : t.kernel.nextPid = s.kernel.nextPid
  created : t.kernel.created = s.kernel.created
  taskCount : t.kernel.taskCount = s.kernel.taskCount
  blocks : ∀ blocks, Owned s.kernel.heap blocks → Owned t.kernel.heap blocks

theorem Turned.trans {s t u : System} (first : Turned s t) (second : Turned t u) : Turned s u where
  spawn := second.spawn.trans first.spawn
  buffers := second.buffers.trans first.buffers
  tasks i := (first.tasks i).trans (second.tasks i)
  nextPid := second.nextPid.trans first.nextPid
  created := second.created.trans first.created
  taskCount := second.taskCount.trans first.taskCount
  blocks l owned := second.blocks l (first.blocks l owned)

theorem taken_same (k : Kernel) (a : Arrival) (i : Nat) :
    (k.tasks i).Same ((k.taken a).tasks i) := by
  obtain ⟨esp, saved, same⟩ := k.taken_kept a i
  exact ⟨esp, saved, _, same⟩

theorem modify_slice (k : Kernel) (slot : Nat) (slice : Nat → Nat) (i : Nat) :
    (k.tasks i).Same ((k.modify slot fun t => { t with sliceLeft := slice t.sliceLeft }).tasks i) := by
  by_cases here : i = slot
  · rw [here, Kernel.modify_self]
    exact ⟨_, _, _, rfl⟩
  · rw [Kernel.modify_other _ here]
    exact ⟨_, _, _, rfl⟩

theorem slicedTasks_kept (k : Kernel) (frame next i : Nat) :
    (k.tasks i).Same (k.slicedTasks frame next i) := by
  have parked : (k.tasks k.current).Same { k.parked frame with sliceLeft := 5 } := ⟨_, _, _, rfl⟩
  have sliced : ∀ tasks : Nat → Task, (tasks next).Same { tasks next with sliceLeft := 5 } :=
    fun _ => ⟨_, _, _, rfl⟩
  unfold Kernel.slicedTasks
  by_cases here : i = next
  · subst here
    rw [Function.update_self]
    refine Task.Same.trans ?_ (sliced _)
    by_cases old : i = k.current
    · subst old
      rwa [Function.update_self]
    · rw [Function.update_of_ne old]
      exact ⟨_, _, _, rfl⟩
  · rw [Function.update_of_ne here]
    by_cases old : i = k.current
    · subst old
      rwa [Function.update_self]
    · rw [Function.update_of_ne old]
      exact ⟨_, _, _, rfl⟩

theorem slicedTasks_slice (k : Kernel) (frame next i : Nat) :
    (k.slicedTasks frame next i).sliceLeft =
    if i = next ∨ i = k.current then 5 else (k.tasks i).sliceLeft := by
  unfold Kernel.slicedTasks
  by_cases here : i = next
  · simp [here]
  · rw [Function.update_of_ne here]
    by_cases old : i = k.current
    · simp [old]
    · simp [here, old]

theorem setCr3_congr {k k' : Kernel} {next : Nat} (sys : k'.sys = k.sys)
    (current : k'.current = k.current) (same : ∀ i, (k.tasks i).Same (k'.tasks i)) :
    k'.setCr3 next = k.setCr3 next := by
  obtain ⟨_, _, _, old⟩ := same k.current
  obtain ⟨_, _, _, new⟩ := same next
  simp only [Kernel.setCr3, Kernel.spaceOf, sys, current, old, new]

theorem Task.Same.ready {t t' : Task} (same : t.Same t') : t'.ready = t.ready := by
  obtain ⟨_, _, _, rfl⟩ := same
  rfl

def AllReady (n : Nat) (s : System) (_ : KernelEvent) : Prop :=
  ∀ i < n, s.kernel.readySlots i = true

section Turn

variable (acc : Access) {n : Nat}

theorem Turns.charged (m : Nat) {s : System} (turns : Turns n s)
    (slice : (s.kernel.tasks s.kernel.current).sliceLeft = m) :
    ∃ events t, Run (Guarded (AllReady n) (KernelStep acc)) s events t ∧ Turns n t ∧ Turned s t ∧
      (∀ event ∈ events, ∃ regs cr2, event = .interrupt regs cr2 .returned) ∧
      (t.kernel.tasks t.kernel.current).sliceLeft = 0 ∧ t.kernel.current = s.kernel.current ∧
      t.kernel.sys = s.kernel.sys ∧ t.preempted = s.preempted := by
  induction m generalizing s with
  | zero =>
    refine ⟨[], s, .nil, turns, ⟨rfl, rfl, fun i => ⟨_, _, _, rfl⟩, rfl, rfl, rfl, fun _ owned => owned⟩, ?_,
      slice,
      rfl, rfl, rfl⟩
    exact fun _ member => absurd member List.not_mem_nil
  | succ m ih =>
    have step := tick_charges acc turns.table turns.mem turns.enabled (by omega)
    have arrives := arrives_tick turns.table turns.mem turns.enabled
    generalize here : (s.kernel.taken s.tick).modify s.kernel.current
      (fun t => { t with sliceLeft := t.sliceLeft - 1 }) = k at step
    have same : ∀ i, (s.kernel.tasks i).Same (k.tasks i) := fun i => by
      rw [← here]
      exact (taken_same _ _ i).trans (modify_slice _ _ (· - 1) i)
    have slices : ∀ i, (k.tasks i).sliceLeft =
        if i = s.kernel.current then (s.kernel.tasks i).sliceLeft - 1 else (s.kernel.tasks i).sliceLeft := fun i => by
      rw [← here]
      by_cases own : i = s.kernel.current
      · rw [if_pos own, own, Kernel.modify_self]
        simp
      · rw [if_neg own, Kernel.modify_other _ own]
        simp
    have others : ∀ i, i ≠ s.kernel.current → (k.tasks i).esp = (s.kernel.tasks i).esp :=
      fun i other => by
      rw [← here, Kernel.modify_other _ other, (s.kernel.alike_taken s.tick).others i other]
    have current : k.current = s.kernel.current := by
      rw [← here]
      exact Kernel.taken_current
    have turns' : Turns n (s.setKernel k) := by
      refine ⟨table_step turns.table step, memory_step turns.table turns.mem step, turns.enabled,
        fun i => ?_, fun i below => ?_, fun i below other => ?_⟩
      · rw [← turns.ready i]
        exact iff_of_eq (congrArg (· = true) (same i).ready)
      · have bound := turns.slices i below
        have value : ((s.setKernel k).kernel.tasks i).sliceLeft = _ := slices i
        rw [value]
        split <;> omega
      · have other' : i ≠ s.kernel.current := by rwa [← current]
        have esp : ((s.setKernel k).kernel.tasks i).esp = _ := others i other'
        rw [esp]
        exact turns.present i below other'
    have left : ((s.setKernel k).kernel.tasks (s.setKernel k).kernel.current).sliceLeft = m := by
      change (k.tasks k.current).sliceLeft = m
      rw [slices, current, if_pos rfl, slice]
      rfl
    have turned : Turned s (s.setKernel k) := by
      refine ⟨rfl, rfl, same, ?_, ?_, ?_, fun blocks owned => ?_⟩
      · change k.nextPid = _
        rw [← here]
        exact Kernel.taken_nextPid
      · change k.created = _
        rw [← here]
        exact Kernel.taken_created
      · change k.taskCount = _
        rw [← here]
        exact Kernel.taken_taskCount
      · change Owned k.heap blocks
        rw [← here]
        change Owned (s.kernel.taken s.tick).heap blocks
        rw [Kernel.taken_heap]
        exact owned.entered turns.table turns.mem arrives
    obtain ⟨events, t, run, turns'', turned', returned, expired, running, sys, ghost⟩ :=
      ih turns' left
    refine ⟨_, t, .cons ⟨fun i below => (turns.ready i).mpr below, step⟩ run, turns'',
      turned.trans turned', ?_, expired, running.trans current, sys.trans ?_, ghost⟩
    · intro event member
      rcases List.mem_cons.mp member with rfl | later
      · exact ⟨_, _, rfl⟩
      · exact returned event later
    · change k.sys = s.kernel.sys
      rw [← here]
      exact Kernel.taken_sys

omit acc in
theorem follows_next {ready : Nat → Bool} {c : Nat} (slots : ∀ i, ready i = true ↔ i < n)
    (inside : c < n) :
    Follows ready c (if c + 1 < n then c + 1 else 0) := by
  have idle : ∀ i, n ≤ i → ready i = false := fun i high => by
    by_contra some'
    have below := (slots i).mp (by simpa using some')
    omega
  split
  next later => exact ⟨(slots _).mpr later, .inl ⟨by omega, fun x low high => by omega⟩⟩
  next last =>
    exact ⟨(slots _).mpr (by omega),
      .inr ⟨Nat.zero_le _, fun x low => idle x (by omega), fun x low => by omega⟩⟩

theorem Turns.turn {s : System} (turns : Turns n s) (next : Nat)
    (follows : next = if s.kernel.current + 1 < n then s.kernel.current + 1 else 0)
    (other : next ≠ s.kernel.current) :
    ∃ events event t, Run (Guarded (AllReady n) (KernelStep acc)) s (events ++ [event]) t ∧
      Turns n t ∧
      Turned s t ∧ (∀ event ∈ events, ∃ regs cr2, event = .interrupt regs cr2 .returned) ∧
      event.dispatched = some next ∧ t.kernel.current = next ∧ t.kernel.sys = s.kernel.setCr3 next ∧
      t.preempted = fun i =>
        if i = s.kernel.current then some s.kernel.sys.machine.cr3 else if i < n then s.preempted i else none := by
  obtain ⟨events, u, run, turns', turned, returned, expired, running, sys, ghost⟩ :=
    turns.charged acc _ rfl
  have inside : u.kernel.current < n := (turns'.ready _).mp turns'.table.running
  have next' : Follows u.kernel.readySlots u.kernel.current next := by
    rw [follows, ← running]
    exact follows_next turns'.ready inside
  have below := (turns'.ready next).mp next'.1
  rw [← running] at other
  have step := tick_switches acc turns'.table turns'.mem turns'.enabled expired next' other
    (turns'.present next below other)
  have arrives := arrives_tick turns'.table turns'.mem turns'.enabled
  generalize here : (u.kernel.taken u.tick).switched u.tick.r next = k at step
  have same : ∀ i, (u.kernel.tasks i).Same (k.tasks i) := fun i => by
    rw [← here]
    exact (taken_same _ _ i).trans (slicedTasks_kept _ _ _ i)
  have current : k.current = next := by
    rw [← here]
    rfl
  have ready : (k.tasks u.kernel.current).ready = true := (same _).ready.trans turns'.table.running
  have dispatched : (KernelEvent.interrupt u.tick.regs u.tick.cr2 (endingOf u.kernel k)).dispatched =
      some next := by
    rw [endingOf_dispatched, current]
  have slices : ∀ i, (k.tasks i).sliceLeft =
      if i = next ∨ i = u.kernel.current then 5 else (u.kernel.tasks i).sliceLeft := fun i => by
    rw [← here]
    exact (slicedTasks_slice _ _ _ i).trans (by simp)
  have present : ∀ i < n, i ≠ next → (k.tasks i).esp ≠ 0 := fun i low apart => by
    rw [← here]
    by_cases old : i = u.kernel.current
    · have esp : (((u.kernel.taken u.tick).switched u.tick.r next).tasks i).esp = u.tick.r := by
        have slot := (u.kernel.taken u.tick).slicedTasks_parked u.tick.r next
        rw [Kernel.taken_current] at slot
        rw [old]
        exact congrArg Task.esp slot
      rw [esp]
      exact frame_ne_zero turns'.table arrives
    · have task : ((u.kernel.taken u.tick).switched u.tick.r next).tasks i = u.kernel.tasks i :=
        (Function.update_of_ne apart _ _).trans ((Function.update_of_ne (by simpa using old) _ _).trans
          ((u.kernel.alike_taken u.tick).others i old))
      rw [task]
      exact turns'.present i low old
  have turns'' : Turns n (u.dispatched k) := by
    refine ⟨table_step turns'.table step, memory_step turns'.table turns'.mem step, turns'.enabled,
      fun i => ?_, fun i low => ?_, fun i low apart => present i low (by rwa [← current])⟩
    · rw [← turns'.ready i]
      exact iff_of_eq (congrArg (· = true) (same i).ready)
    · have bound := turns'.slices i low
      have value : ((u.dispatched k).kernel.tasks i).sliceLeft = _ := slices i
      rw [value]
      split <;> omega
  have turned' : Turned u (u.dispatched k) := by
    refine ⟨rfl, rfl, same, ?_, ?_, ?_, fun blocks owned => ?_⟩
    · change k.nextPid = _
      rw [← here]
      exact Kernel.taken_nextPid
    · change k.created = _
      rw [← here]
      exact Kernel.taken_created
    · change k.taskCount = _
      rw [← here]
      exact Kernel.taken_taskCount
    · change Owned k.heap blocks
      rw [← here]
      change Owned (u.kernel.taken u.tick).heap blocks
      rw [Kernel.taken_heap]
      exact owned.entered turns'.table turns'.mem arrives
  refine ⟨events, _, _, run.snoc ⟨fun i low => (turns'.ready i).mpr low, step⟩, turns'',
    turned.trans turned', returned,
    dispatched, current, ?_, ?_⟩
  · rw [← setCr3_congr sys running turned.tasks]
    change k.sys = _
    rw [← here]
    exact setCr3_congr Kernel.taken_sys Kernel.taken_current (taken_same _ _)
  · funext i
    change (if (k.tasks i).ready = false then none else if i = u.kernel.current then some u.kernel.sys.machine.cr3
      else u.preempted i) = _
    have live : (k.tasks i).ready = true ↔ i < n := turns''.ready i
    rw [← running, ← sys, ← ghost]
    by_cases alive : i < n
    next => rw [if_neg (by rw [live.mpr alive]; simp), if_pos alive]
    next =>
      have dead : (k.tasks i).ready = false := by
        rw [← Bool.not_eq_true, live]
        exact alive
      have other : i ≠ u.kernel.current := by
        rintro rfl
        exact alive inside
      rw [if_pos dead, if_neg other, if_neg alive]

omit acc in
theorem turn_interrupts {events : List KernelEvent} {event : KernelEvent} {next : Nat}
    (returned : ∀ event ∈ events, ∃ regs cr2, event = .interrupt regs cr2 .returned)
    (dispatched : event.dispatched = some next) :
    ∀ e ∈ events ++ [event], ∃ regs cr2 ending, e = .interrupt regs cr2 ending := by
  intro e member
  rcases List.mem_append.mp member with earlier | last
  · obtain ⟨regs, cr2, rfl⟩ := returned e earlier
    exact ⟨regs, cr2, .returned, rfl⟩
  · obtain rfl := List.mem_singleton.mp last
    cases e with
    | interrupt regs cr2 ending => exact ⟨regs, cr2, ending, rfl⟩
    | _ => cases dispatched

theorem Turns.round {s : System} (turns : Turns n s) (several : 2 ≤ n) (k : Nat) :
    ∃ events t, Run (KernelStep acc) s events t ∧
      (∀ event ∈ events, ∃ regs cr2 ending, event = .interrupt regs cr2 ending) ∧
        Turns n t ∧ Turned s t ∧
      t.kernel.current = (s.kernel.current + k) % n ∧ t.kernel.sys.live = s.kernel.sys.live ∧
      t.kernel.sys.machine.mm = s.kernel.sys.machine.mm := by
  induction k with
  | zero =>
    refine ⟨[], s, .nil, fun _ member => absurd member List.not_mem_nil, turns,
      ⟨rfl, rfl, fun i => ⟨_, _, _, rfl⟩, rfl, rfl, rfl, fun _ owned => owned⟩, ?_, rfl, rfl⟩
    exact (Nat.mod_eq_of_lt ((turns.ready _).mp turns.table.running)).symm
  | succ k ih =>
    obtain ⟨events, t, run, interrupts, turns', turned, current, live, mm⟩ := ih
    have inside : t.kernel.current < n := (turns'.ready _).mp turns'.table.running
    have next : (s.kernel.current + (k + 1)) % n =
        if t.kernel.current + 1 < n then t.kernel.current + 1 else 0 := by
      rw [← Nat.add_assoc, ← Nat.mod_add_mod, ← current]
      split
      next below => exact Nat.mod_eq_of_lt below
      next last =>
        have full : t.kernel.current + 1 = n := by omega
        rw [full, Nat.mod_self]
    have other : (s.kernel.current + (k + 1)) % n ≠ t.kernel.current := by
      rw [next]
      split <;> omega
    obtain ⟨events', event, u, run', turns'', turned', returned, dispatched, current', sys, -⟩ :=
      turns'.turn acc _ next other
    have kept : u.kernel.sys.live = t.kernel.sys.live ∧
        u.kernel.sys.machine.mm = t.kernel.sys.machine.mm := by
      rw [sys, Kernel.setCr3]
      split <;> exact ⟨rfl, rfl⟩
    refine ⟨_, u, run.append (run'.mono fun _ _ _ taken => taken.2), fun e member => ?_, turns'',
      turned.trans turned', current', kept.1.trans live, kept.2.trans mm⟩
    rcases List.mem_append.mp member with earlier | later
    · exact interrupts e earlier
    · exact turn_interrupts returned dispatched e later

end Turn

def zeroImage : BootImage where
  mem _ _ := 0
  ram _ := 0
  stack := 0x110000
  sysStackTop := 0x120000
  demoA := 0x101000
  demoB := 0x102000
  inside := by decide
  aligned := by decide

def enabledSystem (image : BootImage) : System := { bootSystem image with enabled := true }

theorem enabled_step (acc : Access) (image : BootImage) :
    KernelStep acc (bootSystem image) .shell (enabledSystem image) := by
  obtain ⟨heap, booted, -⟩ := boot_kernel image
  refine .sti ?_ rfl
  change image.kernel.current = 0
  rw [booted]
  rfl

theorem enabled_turns (image : BootImage) : Turns 3 (enabledSystem image) := by
  obtain ⟨heap, booted, -⟩ := boot_kernel image
  have tasks : (enabledSystem image).kernel.tasks = bootTasks image.demoA image.demoB :=
    congrArg Kernel.tasks booted
  have current : (enabledSystem image).kernel.current = 0 := congrArg Kernel.current booted
  refine ⟨table_boot image, memory_boot image, rfl, fun i => ?_, fun i below => ?_,
    fun i below other => ?_⟩
  · rw [Kernel.readySlots, tasks]
    rcases i with _ | _ | _ | i
    case succ.succ.succ => simp [bootTasks, Task.zero]
    all_goals simp [bootTasks]
  · rw [tasks]
    interval_cases i <;> simp [bootTasks]
  · rw [tasks]
    rw [current] at other
    interval_cases i <;> simp_all [bootTasks]

end NovaKernel

import NovaKernel.TaskList

set_option autoImplicit false

namespace NovaKernel

open Arena FirstFit Machine Mm Transition

structure ForkMade (s : System) (a : Arrival) (k : Kernel) (child : Nat) : Prop where
  new : (s.kernel.tasks child).ready = false ∧ (k.tasks child).ready = true
  pid : (k.tasks child).pid ≠ 0 ∧ ∀ i, (s.kernel.tasks i).ready = true →
    (s.kernel.tasks i).pid ≠ (k.tasks child).pid
  frame : k.heap.ram.readWords (k.tasks child).esp (frameWords .user) = a.regs.words.set 11 0
  memory : contents k.sys.machine (k.tasks child).cr3 =
    contents s.kernel.sys.machine (s.kernel.tasks s.kernel.current).cr3
  eax : k.heap.ram (a.r + Regs.offEax) = (k.tasks child).pid

structure ForkUndone (s : System) (a : Arrival) (k : Kernel) : Prop where
  tasks : ∀ i, (k.tasks i).ready = (s.kernel.tasks i).ready
  frames : mmFreeFrames k.sys.machine.mm = mmFreeFrames s.kernel.sys.machine.mm
  heap : kheapUsed k.heap.ram = kheapUsed s.kernel.heap.ram
  memory : ∀ i pd, s.kernel.spaceIn i = some pd →
    contents k.sys.machine pd = contents s.kernel.sys.machine pd
  eax : k.heap.ram (a.r + Regs.offEax) = 2 ^ 32 - 1

/-- Exactly one of the two. -/
def AllOrNothing (s : System) (a : Arrival) (outcome : Outcome) : Prop :=
  ∃ k, outcome = .returns k ∧ Xor (∃ child, ForkMade s a k child) (ForkUndone s a k)

/-- What `fork` needs: a slot, two frames, the blocks of the frame copy and of the stack, and memory that is
mapped as far as the frame is copied. -/
structure Kernel.ForkRoom (k : Kernel) (r : Nat) : Prop where
  slot : ∃ i < maxTasks, (k.tasks i).ready = false
  frames : 2 ≤ mmFreeFrames k.sys.machine.mm
  blocks : ∃ copy h base h', k.heap.kmalloc frameBytes = (some copy, h) ∧
    h.kmalloc irqStack = (some base, h')
  inside : r + frameBytes ≤ heapEnd

theorem free_of_full {used : Nat → Bool} {limit : Nat} (full : ∀ f < limit, used f = true) :
    freeCount used limit = 0 := by
  by_contra some'
  obtain ⟨f, bounded, free⟩ := freeCount_pos_iff.mp (Nat.pos_of_ne_zero some')
  exact absurd ((full f bounded).symm.trans free) (by simp)

theorem allocTables_iff {s : Machine} :
    (∃ pd pt m, allocTables s = (some (pd, pt), m)) ↔ 2 ≤ mmFreeFrames s.mm := by
  constructor
  · rintro ⟨pd, pt, m, allocated⟩
    obtain ⟨-, pdBounded, ptBounded, other, pdFree, ptFree⟩ := allocTables_some allocated
    have ptFree' : Function.update s.mm.bitmap pd true pt = false := by
      rwa [Function.update_of_ne (Ne.symm other)]
    rw [mmFreeFrames, freeCount_mark pdBounded pdFree, freeCount_mark ptBounded ptFree']
    omega
  · intro enough
    rw [mmFreeFrames] at enough
    rcases first : s.frameAlloc with ⟨_ | pd, s₁⟩
    · have none' := free_of_full (machine_frameAlloc_none first).2
      omega
    · obtain ⟨rfl, bounded, free, -⟩ := machine_frameAlloc_some first
      rcases second : (takeFrame s pd).frameAlloc with ⟨_ | pt, s₂⟩
      · have one : freeCount (Function.update s.mm.bitmap pd true) frameCount = 0 :=
          free_of_full (machine_frameAlloc_none second).2
        rw [freeCount_mark bounded free] at enough
        omega
      · exact ⟨pd, pt, s₂, by simp [allocTables, first, second]⟩

def TwoFit (blocks : List Block) : Prop :=
  ∃ copy later base last, alloc sizeofBlock 8 (roundSize frameBytes) heapStart blocks =
    some (copy, later) ∧
    alloc sizeofBlock 8 (roundSize irqStack) heapStart later = some (base, last)

theorem Owned.twoFit_iff {h : Heap} {blocks : List Block} (owned : Owned h blocks)
    (fill : Nat → Heap → Heap) (kept : ∀ copy h' later, h.kmalloc frameBytes = (some copy, h') → Owned h' later → Owned (fill copy h') later) :
    TwoFit blocks ↔ ∃ copy h₁ base h₂, h.kmalloc frameBytes = (some copy, h₁) ∧
      (fill copy h₁).kmalloc irqStack = (some base, h₂) := by
  constructor
  · rintro ⟨copy, later, base, last, copied, stack⟩
    obtain ⟨h₁, copied', owned₁⟩ := owned.kmalloc_found frameBytes copy later copied
    obtain ⟨h₂, stack', -⟩ :=
      (kept copy h₁ later copied' owned₁).kmalloc_found irqStack base last stack
    exact ⟨copy, h₁, base, h₂, copied', stack'⟩
  · rintro ⟨copy, h₁, base, h₂, copied, stack⟩
    cases found : alloc sizeofBlock 8 (roundSize frameBytes) heapStart blocks with
    | none =>
      rw [owned.kmalloc_refused frameBytes found] at copied
      cases copied
    | some hit =>
      obtain ⟨copy', later⟩ := hit
      obtain ⟨h', copied', owned₁⟩ := owned.kmalloc_found frameBytes copy' later found
      obtain ⟨same, rfl⟩ := Prod.mk.inj (copied.symm.trans copied')
      obtain rfl := Option.some.inj same
      cases found' : alloc sizeofBlock 8 (roundSize irqStack) heapStart later with
      | none =>
        rw [(kept copy h₁ later copied owned₁).kmalloc_refused irqStack found'] at stack
        cases stack
      | some hit => exact ⟨copy, later, hit.1, hit.2, found, found'⟩

theorem entered_user_word {k : Kernel} {a : Arrival} (user : (k.tasks k.current).flags = .user)
    {i : Nat} (inside : i < 19) : (k.entered a).heap.ram (a.r + 4 * i) = a.regs.words[i] := by
  have notBelow : ¬ (k.stackLow k.current ≤ a.r + 4 * i ∧ a.r + 4 * i < a.r) := by omega
  have all : a.regs.words.take (frameWords (k.tasks k.current).flags) = a.regs.words := by
    rw [user]
    rfl
  simp only [Kernel.entered, Kernel.pushFrame, notBelow, if_false, all]
  exact Ram.writeWords_at _ _ _ inside

section Fork

variable {acc : Access} {within : Nat → Prop} (reaches : Reaches acc within) {s : System}
    {a : Arrival}
  (steady : Steady within s) (arrives : Arrives s a) (vector : a.regs.intNo = 128) (call : a.regs.eax = nrFork)
  (user : (s.kernel.tasks s.kernel.current).flags = .user)

include vector call user in
theorem fork_outcome : s.kernel.interrupt acc a =
    match (s.kernel.taken a).taskForkUser acc a.r (s.kernel.tasks s.kernel.current).cr3 with
    | none => .panics
    | some (pid, k) => .returns (k.setEax a.r pid) := by
  unfold Kernel.interrupt Kernel.isrCommonHandler
  simp only [Kernel.entered_intNo, vector]
  change (s.kernel.taken a).syscallDispatch acc a.others a.r = _
  have process : ((s.kernel.taken a).tasks (s.kernel.taken a).current).flags = .user := by
    simpa using user
  have space : ((s.kernel.taken a).tasks (s.kernel.taken a).current).cr3 =
      (s.kernel.tasks s.kernel.current).cr3 := by simp
  unfold Kernel.syscallDispatch
  simp only [Kernel.taken_word, Kernel.entered_eax, call, process, space]
  rfl

include steady arrives in
theorem fork_blocks_iff : (∃ copy h base h', s.kernel.heap.kmalloc frameBytes = (some copy, h) ∧
      h.kmalloc irqStack = (some base, h')) ↔
    ∃ copy h base h', (s.kernel.taken a).heap.kmalloc frameBytes = (some copy, h) ∧
      (Kernel.frameCopy h copy a.r).kmalloc irqStack = (some base, h') := by
  obtain ⟨blocks, owned⟩ := steady.mem.sound
  have entered : Owned (s.kernel.taken a).heap blocks := by
    rw [Kernel.taken_heap]
    exact owned.entered steady.table steady.mem arrives
  rw [← owned.twoFit_iff (fun _ h => h) fun _ _ _ _ owned' => owned']
  refine entered.twoFit_iff (fun copy h => Kernel.frameCopy h copy a.r) fun copy h later copied owned' => ?_
  obtain ⟨-, -, -, payload⟩ := Heap.kmalloc_extends ⟨blocks, entered⟩ (by decide) copied
  exact payload.stores owned' fun w outside => frameCopy_outside h copy a.r outside

section Space

variable {child : Nat} {m : Machine} (few : s.kernel.created < 2 ^ 32)
  (forked : pagingForkAddrSpace acc s.kernel.sys.machine (s.kernel.tasks s.kernel.current).cr3 = some (some child, m))
include reaches steady user few forked

theorem fork_tables : ∃ pd pt m', allocTables s.kernel.sys.machine = (some (pd, pt), m') := by
  have spaces := steady.spaces few
  have member := spaces.live_process (Kernel.spaceIn_process steady.table.running user)
  rcases allocated : allocTables s.kernel.sys.machine with ⟨_ | ⟨pd, pt⟩, m'⟩
  · rw [fork_full reaches spaces.good.ready member allocated] at forked
    cases forked
  · exact ⟨pd, pt, m', rfl⟩

theorem fork_contents (inside : KernelInside within s (.interrupt a.regs a.cr2 .returned))
    (vector : a.regs.intNo = 128) (call : a.regs.eax = nrFork) :
    contents m child = contents s.kernel.sys.machine (s.kernel.tasks s.kernel.current).cr3 := by
  have spaces := steady.spaces few
  have member := spaces.live_process (Kernel.spaceIn_process steady.table.running user)
  obtain ⟨pd, pt, m', allocated⟩ := fork_tables reaches steady user few forked
  rw [fork_ok reaches spaces.good.ready member allocated (inside.1 vector call _ _ _ allocated)] at forked
  obtain ⟨same, rfl⟩ := Prod.mk.inj (Option.some.inj forked)
  obtain rfl := Option.some.inj same
  exact (contents_forked spaces.good.ready member allocated).1

end Space

section Child

variable {h h' : Heap} {copy base : Nat}
    (copied : (s.kernel.taken a).heap.kmalloc frameBytes = (some copy, h))
    (stack : (Kernel.frameCopy h copy a.r).kmalloc irqStack = (some base, h'))
include steady arrives user copied stack

theorem fork_heap : Kernel.Forked (s.kernel.taken a).heap h' a.r copy base := by
  have taken := (keeps_alike steady.table arrives steady.mem Kernel.taken_heap (s.kernel.alike_taken a)).1
  have ready : ((s.kernel.taken a).tasks (s.kernel.taken a).current).ready = true := by
    simpa using steady.table.running
  have own := frame_owned steady.table arrives steady.mem user
  have same : (s.kernel.taken a).SameWords { s.kernel.taken a with heap := h }
      (s.kernel.taken a).current :=
    taken.extended (Heap.kmalloc_extends taken.sound (by decide) copied).1 rfl ready
  exact Kernel.forked_heap taken.sound copied stack fun i below =>
    same _ _ own _ (by omega) (by omega)

theorem fork_frame : (Kernel.childFrame h' copy).ram.readWords copy 19 = a.regs.words.set 11 0 := by
  have heap := fork_heap steady arrives user copied stack
  apply List.ext_getElem
  · rw [Ram.readWords_length, List.length_set, Regs.words_length]
  · intro i inside inside'
    rw [Ram.readWords_length] at inside
    have word := heap.words i inside
    rw [Kernel.taken_heap, entered_user_word user inside] at word
    simp only [Ram.readWords, List.getElem_map, List.getElem_range, word, List.getElem_set]
    by_cases eax : i = 11
    · rw [if_pos eax, if_pos eax.symm]
    · rw [if_neg eax, if_neg (Ne.symm eax)]
      rfl

end Child

section Result

variable (pids : s.kernel.Pids) (few : s.kernel.created + 1 < 2 ^ 32)
  (inside : KernelInside within s (.interrupt a.regs a.cr2 .returned))
include reaches steady arrives vector call user few

theorem room_of_result (result : AllOrNothing s a (s.kernel.interrupt acc a)) :
    s.kernel.ForkRoom a.r := by
  obtain ⟨k, returned, result⟩ := result
  rw [fork_outcome vector call user] at returned
  have zero : ∀ k' : Kernel, k = k'.setEax a.r 0 → False := by
    rintro k' rfl
    have eax : (k'.setEax a.r 0).heap.ram (a.r + Regs.offEax) = 0 := Ram.set_self _ _ _
    rcases result with ⟨⟨child, made⟩, -⟩ | ⟨undone, -⟩
    · exact made.pid.1 (made.eax.symm.trans eax)
    · exact absurd (undone.eax.symm.trans eax) (by decide)
  split at returned
  next => cases returned
  next pid k' forked =>
    obtain rfl := Outcome.returns.inj returned
    have exit := Kernel.taskForkUser_exits (steady.table.taken a) forked
    cases exit with
    | tableFull => exact (zero _ rfl).elim
    | noSpace => exact (zero _ rfl).elim
    | noCopy => exact (zero _ rfl).elim
    | noStack => exact (zero _ rfl).elim
    | @forked slot child copy base m h h' free space copied room stack =>
      rw [Kernel.taken_sys] at space
      have tables := fork_tables reaches steady user (by omega) space
      refine ⟨⟨slot, free.inside, ?_⟩, allocTables_iff.mp tables,
        (fork_blocks_iff steady arrives).mpr ⟨copy, h, base, h', copied, stack⟩, room⟩
      rw [← Kernel.taken_ready (a := a)]
      exact free.free

include inside

include pids in
theorem result_of_room (room : s.kernel.ForkRoom a.r) :
    AllOrNothing s a (s.kernel.interrupt acc a) := by
  have table := steady.table.taken a
  have spaces := steady.spaces (by omega)
  have member := spaces.live_process (Kernel.spaceIn_process steady.table.running user)
  obtain ⟨pd, pt, m', allocated⟩ := allocTables_iff.mpr room.frames
  have space := fork_ok reaches spaces.good.ready member allocated
    (inside.1 vector call _ _ _ allocated)
  obtain ⟨copy, h, base, h', copied, stack⟩ := (fork_blocks_iff steady arrives).mp room.blocks
  have slots : ∃ i < maxTasks, ((s.kernel.taken a).tasks i).ready = false := by
    simpa using room.slot
  obtain ⟨k, forked⟩ :=
    Kernel.taskForkUser_forks table slots (by rwa [Kernel.taken_sys]) copied room.inside stack
  have exit := Kernel.taskForkUser_exits table forked
  have outcome : s.kernel.interrupt acc a = _ := fork_outcome vector call user
  rw [forked] at outcome
  have number : (s.kernel.taken a).nextPid ≠ 0 := by
    rw [Kernel.taken_nextPid]
    exact steady.counted.numbered few
  have steady' := steady_step reaches steady inside (.returned arrives outcome)
  refine ⟨_, outcome, ?_⟩
  have fresh : ∀ i, (s.kernel.tasks i).pid ≠ (s.kernel.taken a).nextPid := fun i same => by
    have old := pids.old i
    rw [same, Kernel.taken_nextPid, steady.counted, Nat.mod_eq_of_lt few] at old
    omega
  generalize (s.kernel.taken a).nextPid = pid at exit number steady' fresh ⊢
  cases exit with
  | tableFull => exact absurd rfl number
  | noSpace => exact absurd rfl number
  | noCopy => exact absurd rfl number
  | noStack => exact absurd rfl number
  | @forked slot child copy base m h h' free space copied _ stack =>
    have dead : (s.kernel.tasks slot).ready = false :=
      (Kernel.taken_ready slot).symm.trans free.free
    generalize made : Kernel.setEax _ a.r (s.kernel.taken a).nextPid = k at steady' ⊢
    have task : k.tasks slot =
        (s.kernel.taken a).childTask child base copy (Kernel.childFrame h' copy) := by
      rw [← made]
      exact Function.update_self _ _ _
    have ready : (k.tasks slot).ready = true := by
      rw [task]
      rfl
    have current : k.current = (s.kernel.taken a).current := by
      rw [← made]
      rfl
    have other : slot ≠ k.current := by
      rw [current]
      rintro rfl
      exact absurd (table.running.symm.trans free.free) (by simp)
    have heap := fork_heap steady arrives user copied stack
    have present : (k.tasks slot).esp ≠ 0 := by
      rw [task]
      exact heap.copied.ne_zero heap.extended.sound
    have parked := steady'.saved slot other ready present
    refine .inl ⟨⟨slot, ⟨dead, ready⟩, ?_, ?_, ?_, ?_⟩, fun undone => ?_⟩
    · rw [task]
      exact ⟨number, fun i _ => fresh i⟩
    · have stored : k.heap.ram.readWords (k.tasks slot).esp (frameWords (k.tasks slot).flags) =
          (k.tasks slot).saved := parked.stored
      rw [task] at stored ⊢
      exact stored.trans (fork_frame steady arrives user copied stack)
    · rw [Kernel.taken_sys] at space
      have same := fork_contents reaches steady user (by omega) space inside vector call
      rw [task, ← same, ← made]
      rfl
    · rw [task, ← made]
      exact Ram.set_self _ _ _
    · exact absurd ((undone.tasks slot).symm.trans ready) (by rw [dead]; simp)

theorem fork_iff (pids : s.kernel.Pids) :
    AllOrNothing s a (s.kernel.interrupt acc a) ↔ s.kernel.ForkRoom a.r :=
  ⟨room_of_result reaches steady arrives vector call user few,
    result_of_room reaches steady arrives vector call user pids few inside⟩

end Result

end Fork

/-- While fewer than 2^32 tasks were created `fork` makes a child or does nothing exactly when there is room for the
child. -/
theorem fork_allOrNothing_iff {image : BootImage} {events : List KernelEvent} {s : System}
    {a : Arrival} (few : s.kernel.created + 1 < 2 ^ 32) (arrives : Arrives s a)
    (vector : a.regs.intNo = 128) (call : a.regs.eax = nrFork) :
    (Run (KernelStep physical) (bootSystem image) events s →
      (AllOrNothing s a (s.kernel.interrupt physical a) ↔ s.kernel.ForkRoom a.r)) ∧
    (Run (Guarded (KernelInside (· < userPgStart)) (KernelStep translated)) (bootSystem image) events s →
      KernelInside (· < userPgStart) s (.interrupt a.regs a.cr2 .returned) →
      (AllOrNothing s a (s.kernel.interrupt translated a) ↔ s.kernel.ForkRoom a.r)) := by
  have user := interrupt_user arrives (by omega)
  constructor
  · intro run
    exact fork_iff physical_reaches (steady_physical run) arrives vector call user few
      (kernelInside_everywhere s _) (pids_run run (by omega))
  · intro run inside
    have steady := steady_run translated_faithful.reaches ⟨by decide, by decide⟩ run
    exact fork_iff translated_faithful.reaches steady arrives vector call user few inside
      (pids_run (run.mono fun _ _ _ taken => taken.2) (by omega))

theorem fork_allOrNothing_spawned : ∃ s a, a.regs.eax = nrFork ∧
    (AllOrNothing s a (s.kernel.interrupt physical a) ↔ s.kernel.ForkRoom a.r) := by
  obtain ⟨events, s, spawned, current, user, -, run⟩ :=
    running_run physical_reaches (fun _ _ => trivial) zeroImage
  rw [← current] at user
  have arrives : Arrives s (s.arrival 128 0 nrFork 0 0) :=
    arrives_user user (by decide) 128 0 nrFork 0
  exact ⟨s, _, rfl, (fork_allOrNothing_iff (by rw [spawned.created]; decide) arrives rfl rfl).1 run⟩

def usedUpBlocks : List Block :=
  [⟨taskStack, false⟩, ⟨irqStack, false⟩, ⟨taskStack, false⟩, ⟨irqStack, false⟩, ⟨irqStack, false⟩,
    ⟨0x1000, false⟩, ⟨0xF0FAC, false⟩]

theorem usedUp_run : ∃ events t, Run (KernelStep physical) (bootSystem zeroImage) events t ∧
    t.kernel.created = 4 ∧ (t.kernel.tasks t.kernel.current).flags = .user ∧
      Owned t.kernel.heap usedUpBlocks := by
  obtain ⟨t₀, spawned, current₀, -, -, run₀⟩ :=
    booted_run physical_reaches (fun _ _ => trivial) zeroImage
  obtain ⟨h, taken, owned⟩ := spawned.blocks.kmalloc_found 0xF0FA8 0x30F054 usedUpBlocks (by decide)
  have step := @KernelStep.alloc physical t₀ 0xF0FA8
      (some 0x30F054) { t₀.kernel with heap := h } current₀
    spawned.spawn (by decide) (by simp only [Kernel.kmalloc, taken])
  have turns := spawned.turns
  have turns₀ : Turns 4 { t₀ with kernel := { t₀.kernel with heap := h }, buffers := insert 0x30F054 t₀.buffers } :=
    ⟨table_step turns.table step, memory_step turns.table turns.mem step, turns.enabled, turns.ready, turns.slices,
      turns.present⟩
  obtain ⟨events₁, event₁, t₁, run₁, turns₁, turned₁, -, -, current₁, -⟩ :=
    turns₀.turn physical 1 (by simp [current₀]) (by simp [current₀])
  obtain ⟨events₂, event₂, t₂, run₂, turns₂, turned₂, -, -, current₂, -⟩ :=
    turns₁.turn physical 2 (by simp [current₁]) (by simp [current₁])
  obtain ⟨events₃, event₃, t₃, run₃, turns₃, turned₃, -, -, current₃, -⟩ :=
    turns₂.turn physical 3 (by simp [current₂]) (by simp [current₂])
  have turned := (turned₁.trans turned₂).trans turned₃
  refine ⟨_, t₃, (run₀.snoc step).append (((run₁.append run₂).append run₃).mono fun _ _ _ taken => taken.2),
    turned.created.trans spawned.created, ?_, turned.blocks _ owned⟩
  rw [current₃]
  exact (turns₃.table.processes 3 (Nat.le_refl 3) ((turns₃.ready 3).mpr (by decide))).1

/-- The fork fails and the caller sees 0, as its child would. -/
theorem fork_returns_zero : ¬ ∀ (image : BootImage) (events : List KernelEvent) (s : System) (a : Arrival),
    Run (KernelStep physical) (bootSystem image) events s → Arrives s a → a.regs.intNo = 128 →
      a.regs.eax = nrFork → AllOrNothing s a (s.kernel.interrupt physical a) := by
  intro all
  obtain ⟨events, s, run, created, user, owned⟩ := usedUp_run
  have arrives : Arrives s (s.arrival 128 0 nrFork 0 0) :=
    arrives_user user (by decide) 128 0 nrFork 0
  have room := room_of_result physical_reaches (steady_physical run) arrives rfl rfl user
    (by rw [created]; decide)
    (all zeroImage events s _ run arrives rfl rfl)
  obtain ⟨copy, h, base, h', copied, -⟩ := room.blocks
  rw [owned.kmalloc_refused frameBytes (by decide)] at copied
  cases copied

end NovaKernel

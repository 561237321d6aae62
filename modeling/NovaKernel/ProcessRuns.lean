import NovaKernel.Ticks
import NovaKernel.LowFrames

set_option autoImplicit false

namespace NovaKernel

open Machine Mm Arena RoundRobin Transition

structure FirstSpace (within : Nat → Prop) (m : Machine) : Prop where
  ready : Ready within m (insert 0x130 ∅)
  loaded : m.cr3 = 0x130
  uncached : m.tlb = []
  filled : Filled m 0x134
  table : tableOf m 0x130 = 0x131
  pages : ∀ j, InUserWindow j →
    m.mem 0x131 j = if 0x2EE ≤ j ∧ j < 0x2F0 then entry (0x132 + (j - 0x2EE)) 7 else 0

theorem Turns.resys {n : Nat} {s : System} (turns : Turns n s) (sys : Sys) (stage : Spawn) :
    Turns n (s.spawning { s.kernel with sys := sys } stage) where
  table := turns.table.congr rfl rfl rfl rfl rfl fun _ => ⟨rfl, rfl, rfl⟩
  mem := turns.mem.retask rfl rfl fun _ ready => ⟨ready, rfl, rfl, rfl, rfl⟩
  enabled := turns.enabled
  ready := turns.ready
  slices := turns.slices
  present := turns.present

theorem Owned.kmalloc_found {h : Heap} {blocks : List Block} (owned : Owned h blocks) (n p : Nat)
    (blocks' : List Block) (found : alloc sizeofBlock 8 (roundSize n) heapStart blocks = some (p, blocks')) :
    ∃ h', h.kmalloc n = (some p, h') ∧ Owned h' blocks' := by
  obtain ⟨m, returned, heap, -⟩ := kmalloc_of_alloc owned.heap found
  exact ⟨⟨m, insert p h.allocated⟩, by simp [Heap.kmalloc, returned], owned.carved found heap⟩

theorem Owned.kmalloc_refused {h : Heap} {blocks : List Block} (owned : Owned h blocks) (n : Nat)
    (full : alloc sizeofBlock 8 (roundSize n) heapStart blocks = none) :
    h.kmalloc n = (none, h) := by
  rcases kmalloc_spec owned.heap n with ⟨refused, -⟩ | ⟨_, _, _, -, found, -⟩
  · simp [Heap.kmalloc, refused]
  · exact absurd (full.symm.trans found) (by simp)

def processBlocks : List Block :=
  [⟨taskStack, false⟩, ⟨irqStack, false⟩, ⟨taskStack, false⟩, ⟨irqStack, false⟩, ⟨irqStack, false⟩,
    ⟨0x1000, false⟩, ⟨0xF0FAC, true⟩]

/-- `task_setup_user_stack` finds its block whenever `task_create_user` gets that far. -/
def AreaFound (s : System) : KernelEvent → Prop
  | .spawn (.finishing _ _ _) => ∀ slot base h, s.kernel.FreeSlot slot →
      s.kernel.heap.kmalloc irqStack = (some base, h) → (h.kmalloc 0x1000).1 ≠ none
  | _ => True

theorem Owned.areaFound {s : System} (owned : Owned s.kernel.heap bootBlocks)
    (event : KernelEvent) :
    AreaFound s event := by
  obtain ⟨h, stack, owned₁⟩ := owned.kmalloc_found irqStack 0x30C03C
    [⟨taskStack, false⟩, ⟨irqStack, false⟩, ⟨taskStack, false⟩, ⟨irqStack, false⟩, ⟨irqStack, false⟩,
      ⟨0xF1FB8, true⟩] (by decide)
  obtain ⟨h', area, -⟩ := owned₁.kmalloc_found 0x1000 0x30E048 processBlocks (by decide)
  unfold AreaFound
  split
  next =>
    intro slot base h₁ free stack'
    obtain ⟨-, rfl⟩ := Prod.mk.inj (stack.symm.trans stack')
    rw [area]
    simp
  next => trivial

section Stages

variable {acc : Access} {within : Nat → Prop} (reaches : Reaches acc within)
    (low : ∀ f < userPgStart, within f)
include reaches low

theorem firstSpace_calls (mem : Nat → Nat → Word) : ∃ m₁ m, FirstSpace within m ∧
    pagingCreateAddrSpace acc (boot mem) = some (some 0x130, m₁) ∧ m₁.cr3 = kernelPd ∧
    pagingMapUserRegion acc (m₁.pagingSwitch 0x130) 0x130 (userStackTop - 0x2000) 0x2000 =
      some (true, m) := by
  have booted : Ready within (boot mem) ∅ := ready_boot ⟨low _ (by decide), low _ (by decide)⟩ mem
  have filled := filled_boot mem
  obtain ⟨created, ready⟩ := create_next reaches booted filled (by decide)
    ⟨low _ (by decide), low _ (by decide)⟩
  have filled₁ := filled_created filled
  have space : pagingCreateAddrSpace acc (boot mem) =
      some (some 0x130, createdSpace (boot mem) 0x130 (0x130 + 1)) :=
    create_ok reaches booted (filled_allocTables filled (by decide)) ⟨low _ (by decide), low _ (by decide)⟩
  have kernel : (createdSpace (boot mem) 0x130 (0x130 + 1)).cr3 = kernelPd := rfl
  generalize created_eq : createdSpace (boot mem) 0x130 (0x130 + 1) = m₁ at *
  have member : 0x130 ∈ insert 0x130 (∅ : Finset Nat) := Finset.mem_insert_self _ _
  have spaces := booted.spaces.created (filled_allocTables filled (by decide))
  have table : tableOf m₁ 0x130 = 0x131 := created_eq ▸ spaces.2.1
  have empty : ∀ j, InUserWindow j → m₁.mem 0x131 j = 0#32 := by
    intro j inside
    rw [← created_eq, createdSpace_table _ (by decide)]
    exact if_pos inside
  have ready₂ := ready_switched ready 0x130 (.inl member)
  obtain ⟨mapped, ready₃⟩ :=
    mapRegion_next reaches ready₂ (n := 0x132) (i := 0x2EE) (k := 2) filled₁ (by decide)
    member (by decide) (by decide) (by decide) (by
      intro j start stop
      have inside : InUserWindow j :=
        ⟨Nat.le_trans (by decide) start, Nat.lt_trans stop (by decide)⟩
      change hasFlag (m₁.mem (tableOf m₁ 0x130) j) pteP = false
      rw [table, empty j inside]
      exact hasFlag_zero pteP)
  have table₂ : tableOf (m₁.pagingSwitch 0x130) 0x130 = 0x131 := table
  rw [table₂] at mapped ready₃
  have filled₃ :=
    filled_mapFrom 0x131 2 0x2EE (show Filled (m₁.pagingSwitch 0x130) 0x132 from filled₁)
  have entries := mapFrom_mem 0x131 2 0x2EE 0x132 (m₁.pagingSwitch 0x130)
  have loaded := mapFrom_cr3 0x131 2 0x2EE 0x132 (m₁.pagingSwitch 0x130)
  generalize mapFrom 0x131 2 0x2EE 0x132 (m₁.pagingSwitch 0x130) = m at *
  refine ⟨m₁, m, ⟨ready₃, loaded.1, loaded.2, filled₃, ?_, fun j inside => ?_⟩, space, kernel, ?_⟩
  · rw [tableOf, entries, if_neg (by decide)]
    exact table
  · rw [entries]
    by_cases stack : 0x2EE ≤ j ∧ j < 0x2F0
    · rw [if_pos ⟨rfl, stack.1, by omega⟩, if_pos stack]
    · rw [if_neg (by omega), if_neg stack]
      exact empty j inside
  · cases mapped with
    | mapRegion _ _ _ returned => exact returned

def stackedEvents : List KernelEvent :=
  [.spawn (.created 0x130), .spawn (.loading 0x130 kernelPd), .spawn (.loaded 0x130 kernelPd userTextBase),
    .spawn (.stacked 0x130 kernelPd userTextBase)]

theorem stacked_run {s : System} {mem : Nat → Nat → Word} (idle : s.spawn = .idle)
    (shell : s.kernel.current = 0) (sys : s.kernel.sys = bootSys mem) : ∃ m, FirstSpace within m ∧
      Run (Guarded AreaFound (KernelStep acc)) s stackedEvents (s.spawning { s.kernel with sys := ⟨m, insert 0x130 ∅⟩ }
        (.stacked 0x130 kernelPd userTextBase)) := by
  obtain ⟨m₁, m, first, created, kernel, mapped⟩ := firstSpace_calls reaches low mem
  rw [bootSys] at sys
  have step₁ : KernelStep acc s (.spawn (.created 0x130))
      (s.spawning { s.kernel with sys := ⟨m₁, insert 0x130 ∅⟩ } (.created 0x130)) := by
    refine .created shell idle ?_
    simp only [Kernel.createAddrSpace, sys, created]
    rfl
  have step₂ := @KernelStep.entered acc
    (s.spawning { s.kernel with sys := ⟨m₁, insert 0x130 ∅⟩ } (.created 0x130)) _ shell rfl
  have old : (s.spawning { s.kernel with sys := ⟨m₁, insert 0x130 ∅⟩ } (.created 0x130)).kernel.sys.machine.cr3 =
      kernelPd := kernel
  rw [old] at step₂
  have step₃ := @KernelStep.loaded acc (s.spawning { s.kernel with
    sys := ⟨m₁.pagingSwitch 0x130, insert 0x130 ∅⟩ } (.loading 0x130 kernelPd)) _ _ userTextBase shell rfl (by decide)
  have step₄ : KernelStep acc (s.spawning { s.kernel with sys := ⟨m₁.pagingSwitch 0x130, insert 0x130 ∅⟩ }
      (.loaded 0x130 kernelPd userTextBase)) (.spawn (.stacked 0x130 kernelPd userTextBase))
      (s.spawning { s.kernel with sys := ⟨m, insert 0x130 ∅⟩ } (.stacked 0x130 kernelPd userTextBase)) := by
    refine .stacked shell rfl ?_
    simp only [System.spawning, Kernel.mapUserRegion, mapped]
    rfl
  exact ⟨m, first, (Run.single ⟨trivial, step₄⟩).cons ⟨trivial, step₃⟩ |>.cons ⟨trivial, step₂⟩ |>.cons ⟨trivial, step₁⟩⟩

/-- One process, with pid 4, in slot 3; the shell has returned from `user_spawn`. -/
structure Spawned (within : Nat → Prop) (t : System) : Prop where
  turns : Turns 4 t
  pid : (t.kernel.tasks 3).pid = 4
  cr3 : (t.kernel.tasks 3).cr3 = 0x130
  irqStackTop : (t.kernel.tasks 3).irqStackTop = 0x30E03C
  firstFrame : (t.kernel.tasks 3).firstFrame = (0x30E048, 0x1000)
  nextPid : t.kernel.nextPid = 5
  created : t.kernel.created = 4
  live : t.kernel.sys.live = insert 0x130 ∅
  space : ∃ m, FirstSpace within m ∧ t.kernel.sys.machine = m.pagingSwitch t.kernel.sys.machine.cr3
  blocks : Owned t.kernel.heap processBlocks
  spawn : t.spawn = .idle
  buffers : t.buffers = ∅

def spawnEvents : List KernelEvent :=
  stackedEvents ++ [.spawn (.finishing 0x130 kernelPd 4), .spawn .idle]

omit reaches low in
theorem taskCreateUser_first {k : Kernel} (table : Table k)
    (slots : ∀ i, k.readySlots i = true ↔ i < 3) (owned : Owned k.heap bootBlocks)
    (entry cr3 : Nat) : ∃ h : Heap, Owned h processBlocks ∧
      k.taskCreateUser entry cr3 = (k.nextPid,
        { k.addTask 3 (k.startedTask cr3 0x30C03C 0x30E048 (Kernel.entryFrame h 0x30E048 entry)) with
          heap := Kernel.entryFrame h 0x30E048 entry }) ∧
      Owned (Kernel.entryFrame h 0x30E048 entry) processBlocks := by
  obtain ⟨h, stack, owned₁⟩ := owned.kmalloc_found irqStack 0x30C03C
    [⟨taskStack, false⟩, ⟨irqStack, false⟩, ⟨taskStack, false⟩, ⟨irqStack, false⟩, ⟨irqStack, false⟩,
      ⟨0xF1FB8, true⟩] (by decide)
  obtain ⟨h', area, owned₂⟩ := owned₁.kmalloc_found 0x1000 0x30E048 processBlocks (by decide)
  have payload : h'.Payload 0x30E048 0x1000 :=
    (Heap.payload_iff owned₂).mpr ⟨0x1000, by decide, Nat.le_refl _⟩
  have frame := payload.stores owned₂ fun w outside => entryFrame_outside h' 0x30E048 entry outside
  rcases call : k.taskCreateUser entry cr3 with ⟨pid, k'⟩
  refine ⟨h', owned₂, ?_, frame⟩
  cases Kernel.taskCreateUser_exits table call with
  | tableFull full => exact absurd ((slots 3).mp (full 3 (by decide))) (by decide)
  | noStack _ full => exact absurd (stack.symm.trans full) (by simp)
  | noArea _ stack' full =>
    obtain ⟨-, rfl⟩ := Prod.mk.inj (stack.symm.trans stack')
    exact absurd (area.symm.trans full) (by simp)
  | @created slot _ _ _ _ free stack' area' =>
    obtain ⟨same, rfl⟩ := Prod.mk.inj (stack.symm.trans stack')
    obtain rfl := Option.some.inj same
    obtain ⟨same', rfl⟩ := Prod.mk.inj (area.symm.trans area')
    obtain rfl := Option.some.inj same'
    have third : slot = 3 := by
      by_contra other
      have process := free.process
      exact absurd ((slots 3).mp (free.earlier 3 (by omega))) (by decide)
    rw [third]

variable (acc) in
omit reaches low in
theorem finished_run {s : System} {m : Machine} (turns : Turns 3 s) (shell : s.kernel.current = 0)
    (stage : s.spawn = .stacked 0x130 kernelPd userTextBase) (pid : s.kernel.nextPid = 4)
    (created : s.kernel.created = 3)
    (sys : s.kernel.sys = ⟨m, insert 0x130 ∅⟩) (first : FirstSpace within m)
    (owned : Owned s.kernel.heap bootBlocks) (none' : s.buffers = ∅) : ∃ t, Spawned within t ∧
    t.kernel.current = 0 ∧
      t.kernel.sys.machine.cr3 = kernelPd ∧ t.preempted = s.preempted ∧
      Run (Guarded AreaFound (KernelStep acc)) s [.spawn (.finishing 0x130 kernelPd 4), .spawn .idle] t := by
  obtain ⟨h, -, call, frame⟩ :=
    taskCreateUser_first turns.table turns.ready owned userTextBase 0x130
  rw [pid] at call
  have step₁ := @KernelStep.taskCreated acc _ _ _ _ _ _ shell stage call
  generalize Kernel.entryFrame h 0x30E048 userTextBase = heap' at step₁ frame
  have step₂ := @KernelStep.finished acc (s.spawning { s.kernel.addTask 3
    (s.kernel.startedTask 0x130 0x30C03C 0x30E048 heap') with heap :=
      heap' } (.finishing 0x130 kernelPd 4)) _ _ _ shell
    rfl (by decide)
  have run := (Run.single (show Guarded AreaFound (KernelStep acc) _ _ _ from ⟨owned.areaFound _, step₁⟩)).snoc
    (show Guarded AreaFound (KernelStep acc) _ (.spawn .idle) _ from ⟨trivial, step₂⟩)
  have at_slot : (s.kernel.addTask 3 (s.kernel.startedTask 0x130 0x30C03C 0x30E048 heap')).tasks 3 =
      s.kernel.startedTask 0x130 0x30C03C 0x30E048 heap' := by
    simp [Kernel.addTask]
  have at_ne : ∀ i, i ≠ 3 → (s.kernel.addTask 3 (s.kernel.startedTask 0x130 0x30C03C 0x30E048 heap')).tasks i =
      s.kernel.tasks i := fun i other => by
    simp [Kernel.addTask, Function.update_of_ne other]
  have esp : 0x30E048 + 0x1000 - 4 * 19 ≠ 0 := by decide
  have table := table_step turns.table step₁
  have mem := memory_step turns.table turns.mem step₁
  refine ⟨_, ⟨⟨table_step table step₂, memory_step table mem step₂, turns.enabled, fun i => ?_, fun i below => ?_,
    fun i below other =>
      ?_⟩, ?_, ?_, ?_, ?_, ?_, ?_, ?_, ⟨m, first, ?_⟩, frame, rfl, none'⟩, shell, rfl, rfl, run⟩
  · change ((s.kernel.addTask 3 _).tasks i).ready = true ↔ i < 4
    by_cases here : i = 3
    · rw [here, at_slot]
      exact ⟨fun _ => by decide, fun _ => rfl⟩
    · rw [at_ne i here]
      have slot : (s.kernel.tasks i).ready = true ↔ i < 3 := turns.ready i
      rw [slot]
      omega
  · change ((s.kernel.addTask 3 _).tasks i).sliceLeft ≤ 5
    by_cases here : i = 3
    · rw [here, at_slot]
      exact Nat.le_refl 5
    · rw [at_ne i here]
      exact turns.slices i (by omega)
  · change ((s.kernel.addTask 3 _).tasks i).esp ≠ 0
    by_cases here : i = 3
    · rw [here, at_slot]
      exact esp
    · rw [at_ne i here]
      exact turns.present i (by omega) other
  · exact (congrArg Task.pid at_slot).trans pid
  · exact congrArg Task.cr3 at_slot
  · exact congrArg Task.irqStackTop at_slot
  · exact congrArg Task.firstFrame at_slot
  · change (s.kernel.nextPid + 1) % 2 ^ 32 = 5
    simp [pid]
  · exact congrArg (· + 1) created
  · exact congrArg Sys.live sys
  · change s.kernel.sys.machine.pagingSwitch kernelPd = m.pagingSwitch kernelPd
    rw [sys]

structure Unspawned (image : BootImage) (s : System) : Prop where
  turns : Turns 3 s
  shell : s.kernel.current = 0
  sys : s.kernel.sys = bootSys image.mem
  pid : s.kernel.nextPid = 4
  created : s.kernel.created = 3
  owned : Owned s.kernel.heap bootBlocks
  idle : s.spawn = .idle
  buffers : s.buffers = ∅
  preempted : s.preempted = fun _ => none

omit reaches low in
theorem enabled_unspawned (image : BootImage) : Unspawned image (enabledSystem image) := by
  obtain ⟨heap, booted, blocks, allocated, -⟩ := boot_kernel image
  have kernel : (enabledSystem image).kernel = image.booted heap := booted
  refine ⟨enabled_turns image, ?_, ?_, ?_, ?_, ?_, rfl, rfl, rfl⟩
  · rw [kernel, BootImage.booted]
  · rw [kernel, BootImage.booted]
  · rw [kernel, BootImage.booted]
  · rw [kernel, BootImage.booted]
  · rw [kernel, BootImage.booted]
    exact bootBlocks_owned blocks allocated

theorem spawn_run {image : BootImage} {s : System} (start : Unspawned image s) :
    ∃ t, Spawned within t ∧
    t.kernel.current = 0 ∧ t.kernel.sys.machine.cr3 = kernelPd ∧ t.preempted = (fun _ => none) ∧
    Run (Guarded AreaFound (KernelStep acc)) s spawnEvents t := by
  obtain ⟨m, first, stages⟩ := stacked_run reaches low start.idle start.shell start.sys
  have turns := start.turns.resys ⟨m, insert 0x130 ∅⟩ (.stacked 0x130 kernelPd userTextBase)
  obtain ⟨t, spawned, current, loaded, preempted, run⟩ :=
    finished_run acc turns start.shell rfl start.pid start.created rfl first start.owned start.buffers
  exact ⟨t, spawned, current, loaded, preempted.trans start.preempted, stages.append run⟩

theorem booted_run (image : BootImage) : ∃ t, Spawned within t ∧
    t.kernel.current = 0 ∧ t.kernel.sys.machine.cr3 = kernelPd ∧ t.preempted = (fun _ => none) ∧
    Run (KernelStep acc) (bootSystem image) ([.shell] ++ spawnEvents) t := by
  obtain ⟨t, spawned, shell, loaded, preempted, run⟩ :=
    spawn_run reaches low (enabled_unspawned image)
  have enabled := Run.single (enabled_step acc image)
  exact ⟨t, spawned, shell, loaded, preempted,
    enabled.append (run.mono fun _ _ _ taken => taken.2)⟩

omit reaches low in
theorem Spawned.turned {s t : System} {next : Nat} (spawned : Spawned within s) (turns : Turns 4 t)
    (turned : Turned s t) (sys : t.kernel.sys = s.kernel.setCr3 next) : Spawned within t := by
  obtain ⟨_, _, _, task⟩ := turned.tasks 3
  obtain ⟨m, first, machine⟩ := spawned.space
  have switched : t.kernel.sys.live = s.kernel.sys.live ∧
      t.kernel.sys.machine = m.pagingSwitch t.kernel.sys.machine.cr3 := by
    rw [sys, Kernel.setCr3]
    split
    · refine ⟨rfl, ?_⟩
      rw [machine]
      rfl
    · exact ⟨rfl, machine⟩
  refine ⟨turns, ?_, ?_, ?_, ?_, turned.nextPid.trans spawned.nextPid,
    turned.created.trans spawned.created, switched.1.trans spawned.live,
    ⟨m, first, switched.2⟩, turned.blocks _ spawned.blocks, turned.spawn.trans spawned.spawn,
    turned.buffers.trans spawned.buffers⟩
  · rw [task]
    exact spawned.pid
  · rw [task]
    exact spawned.cr3
  · rw [task]
    exact spawned.irqStackTop
  · rw [task]
    exact spawned.firstFrame

variable (acc) in
omit reaches low in
theorem Spawned.first_turn {s : System} (spawned : Spawned within s)
    (shell : s.kernel.current = 0) :
    ∃ events t, Run (KernelStep acc) s events t ∧
      (∀ event ∈ events, ∃ regs cr2 ending, event = .interrupt regs cr2 ending) ∧ Spawned within t ∧
      t.kernel.current = 3 ∧ (t.kernel.tasks 3).flags = .user ∧
        t.kernel.sys.machine.cr3 = 0x130 := by
  have weaken : ∀ t event u, Guarded (AllReady 4) (KernelStep acc) t event u →
      KernelStep acc t event u :=
    fun t event u taken => taken.2
  obtain ⟨events₁, event₁, t₁, run₁, turns₁, turned₁, returned₁, dispatched₁, current₁, sys₁, -⟩ :=
    spawned.turns.turn acc 1 (by simp [shell]) (by simp [shell])
  have spawned₁ := spawned.turned turns₁ turned₁ sys₁
  obtain ⟨events₂, event₂, t₂, run₂, turns₂, turned₂, returned₂, dispatched₂, current₂, sys₂, -⟩ :=
    turns₁.turn acc 2 (by simp [current₁]) (by simp [current₁])
  have spawned₂ := spawned₁.turned turns₂ turned₂ sys₂
  obtain ⟨events₃, event₃, t₃, run₃, turns₃, turned₃, returned₃, dispatched₃, current₃, sys₃, -⟩ :=
    turns₂.turn acc 3 (by simp [current₂]) (by simp [current₂])
  have spawned₃ := spawned₂.turned turns₃ turned₃ sys₃
  have user : (t₂.kernel.tasks 3).flags = .user :=
    (turns₂.table.processes 3 (Nat.le_refl 3) ((turns₂.ready 3).mpr (by decide))).1
  have loaded : t₃.kernel.sys.machine.cr3 = 0x130 := by
    rw [sys₃, Kernel.setCr3, if_pos (.inr user), Kernel.spaceOf, if_pos user, spawned₂.cr3]
    rfl
  refine ⟨_, t₃, ((run₁.append run₂).append run₃).mono weaken, fun event member => ?_, spawned₃,
    current₃, ?_, loaded⟩
  · rcases List.mem_append.mp member with early | third
    · rcases List.mem_append.mp early with first | second
      · exact turn_interrupts returned₁ dispatched₁ event first
      · exact turn_interrupts returned₂ dispatched₂ event second
    · exact turn_interrupts returned₃ dispatched₃ event third
  exact (turns₃.table.processes 3 (Nat.le_refl 3) ((turns₃.ready 3).mpr (by decide))).1

theorem running_run (image : BootImage) : ∃ events t, Spawned within t ∧ t.kernel.current = 3 ∧
    (t.kernel.tasks 3).flags = .user ∧ t.kernel.sys.machine.cr3 = 0x130 ∧
    Run (KernelStep acc) (bootSystem image) events t := by
  obtain ⟨s, spawned, shell, -, -, booted⟩ := booted_run reaches low image
  obtain ⟨events, t, turns, -, spawned', current, user, loaded⟩ := spawned.first_turn acc shell
  exact ⟨_, t, spawned', current, user, loaded, booted.append turns⟩

end Stages

theorem enabled_found (acc : Access) (image : BootImage) :
    Run (Guarded AreaFound (KernelStep acc)) (bootSystem image) [.shell] (enabledSystem image) :=
  .single ⟨trivial, enabled_step acc image⟩

end NovaKernel

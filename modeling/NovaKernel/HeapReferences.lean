import NovaKernel.Departures
import NovaKernel.TaskList

set_option autoImplicit false

namespace NovaKernel

open Transition

def Kernel.Refers (k : Kernel) (p : Nat) : Prop :=
  ∃ i, (k.tasks i).ready = true ∧ ∃ b ∈ (k.tasks i).blocks, b.1 = p

/-- Each used block is a ready task's or the shell command's. -/
def System.Referenced (s : System) : Prop :=
  ∀ p ∈ s.kernel.heap.allocated, s.kernel.Refers p ∨ p ∈ s.buffers

/-- The step is no process's end: none exits and none is killed. -/
def Undying (_ : System) (event : KernelEvent) : Prop :=
  ∀ regs cr2 next, event ≠ .interrupt regs cr2 (.died next)

namespace Kernel

variable {acc : Access} {k k' : Kernel}

theorem refers_of_task {slot : Nat} {t : Task} (task : k.tasks slot = t) (ready : t.ready = true)
    {b : Nat × Nat} (block : b ∈ t.blocks) : k.Refers b.1 := by
  subst task
  exact ⟨slot, ready, b, block, rfl⟩

theorem fork_allocated {h h₁ h₂ : Heap} {r copy base : Nat} (sound : h.Sound)
    (copied : h.kmalloc frameBytes = (some copy, h₁))
    (stack : (frameCopy h₁ copy r).kmalloc irqStack = (some base, h₂)) :
    h₂.allocated = insert base (insert copy h.allocated) ∧ base ≠ 0 ∧ copy ≠ 0 := by
  obtain ⟨extended₁, fresh, allocated₁, payload₁⟩ := Heap.kmalloc_extends sound (by decide) copied
  obtain ⟨extended₂, -⟩ :=
    extended₁.stores fresh payload₁ fun w outside => frameCopy_outside h₁ copy r outside
  change h.Extends (frameCopy h₁ copy r) at extended₂
  obtain ⟨extended₃, -, allocated₃, payload₃⟩ :=
    Heap.kmalloc_extends extended₂.sound (by decide) stack
  refine ⟨?_, payload₃.ne_zero extended₃.sound, payload₁.ne_zero extended₁.sound⟩
  rw [allocated₃, ← allocated₁]
  rfl

section Exits

variable (sound : k.heap.Sound)
include sound

theorem ForkExit.refers {r parent pid : Nat} (exit : k.ForkExit acc r parent pid k') :
    ∀ p ∈ k'.heap.allocated, p ∈ k.heap.allocated ∨ k'.Refers p := by
  intro p held
  cases exit with
  | tableFull => exact .inl held
  | noSpace => exact .inl held
  | noCopy => exact .inl held
  | @noStack slot child copy m m' h _ _ copied =>
    obtain ⟨-, -, allocated, -⟩ := Heap.kmalloc_extends sound (by decide) copied
    obtain ⟨other, held⟩ := Finset.mem_erase.mp held
    change p ∈ h.allocated at held
    rw [allocated] at held
    exact .inl (Finset.mem_of_mem_insert_of_ne held other)
  | @forked slot child copy base m h h' _ _ copied _ stack =>
    obtain ⟨allocated, stacked, built⟩ := fork_allocated sound copied stack
    have blocks := k.childTask_blocks child (childFrame h' copy) stacked built
    have refers {b : Nat × Nat} (block : b ∈ (k.childTask child base copy (childFrame h' copy)).blocks) :=
      refers_of_task (k := { k.addTask slot (k.childTask child base copy (childFrame h' copy)) with
        sys := ⟨m, insert child k.sys.live⟩, heap :=
          childFrame h' copy }) (Function.update_self _ _ _) rfl block
    rw [blocks] at refers
    change p ∈ h'.allocated at held
    rw [allocated, Finset.mem_insert, Finset.mem_insert] at held
    rcases held with rfl | rfl | old
    · exact .inr (refers (List.mem_pair.mpr (.inl rfl)))
    · exact .inr (refers (List.mem_pair.mpr (.inr rfl)))
    · exact .inl old

theorem CreateExit.refers {entry cr3 pid : Nat} (exit : k.CreateExit entry cr3 pid k') :
    ∀ p ∈ k'.heap.allocated, p ∈ k.heap.allocated ∨ k'.Refers p := by
  intro p held
  cases exit with
  | tableFull => exact .inl held
  | noStack => exact .inl held
  | @noArea slot base h _ stack =>
    obtain ⟨extended, -, allocated, payload⟩ := Heap.kmalloc_extends sound (by decide) stack
    have blocks := k.userTask_blocks cr3 (payload.ne_zero extended.sound)
    change p ∈ h.allocated at held
    rw [allocated] at held
    rcases Finset.mem_insert.mp held with rfl | old
    · refine .inr (refers_of_task (b := (p, irqStack)) (Function.update_self _ _ _) rfl ?_)
      rw [blocks]
      exact List.mem_singleton_self _
    · exact .inl old
  | @created slot base area h h' _ stack second =>
    obtain ⟨extended, -, allocated, payload⟩ := Heap.kmalloc_extends sound (by decide) stack
    obtain ⟨extended', -, allocated', payload'⟩ :=
      Heap.kmalloc_extends extended.sound (by decide) second
    have blocks :=
      k.startedTask_blocks cr3 (entryFrame h' area entry) (payload.ne_zero extended.sound)
      (payload'.ne_zero extended'.sound)
    have refers {b : Nat × Nat} (block : b ∈ (k.startedTask cr3 base area (entryFrame h' area entry)).blocks) :=
      refers_of_task (k := { k.addTask slot (k.startedTask cr3 base area (entryFrame h' area entry)) with
        heap := entryFrame h' area entry }) (Function.update_self _ _ _) rfl block
    rw [blocks] at refers
    change p ∈ h'.allocated at held
    rw [allocated', allocated, Finset.mem_insert, Finset.mem_insert] at held
    rcases held with rfl | rfl | old
    · exact .inr (refers (List.mem_pair.mpr (.inr rfl)))
    · exact .inr (refers (List.mem_pair.mpr (.inl rfl)))
    · exact .inl old

end Exits

theorem Served.refers {a : Arrival} (taken : (k.taken a).heap.Sound) (served : k.Served acc a k') :
    ∀ p ∈ k'.heap.allocated, p ∈ k.heap.allocated ∨ k'.Refers p := by
  have entered : (k.taken a).heap.allocated = k.heap.allocated :=
    (congrArg Heap.allocated (taken_heap (k := k) (a := a))).trans rfl
  intro p held
  cases served with
  | ignored => exact .inl held
  | kept => exact .inl (entered ▸ held)
  | charged => exact .inl (entered ▸ held)
  | pid => exact .inl (entered ▸ held)
  | slept => exact .inl (entered ▸ held)
  | called _ call =>
    obtain ⟨m, value, -, rfl⟩ := call
    exact .inl (entered ▸ held)
  | resolved => exact .inl held
  | forked _ _ _ exit =>
    rw [← entered]
    exact exit.refers taken p held

end Kernel

-- The shell allocates into its buffers and frees from them.
theorem HeapEffect.allocated {s : System} {h : Heap} {buffers : Finset Nat}
    (effect : HeapEffect s h buffers) (sound : s.kernel.heap.Sound) {p : Nat}
    (held : p ∈ h.allocated) :
    p ∈ s.kernel.heap.allocated ∧ (p ∈ s.buffers → p ∈ buffers) ∨ p ∈ buffers := by
  cases effect with
  | same => exact .inl ⟨held, id⟩
  | threadStore => exact .inl ⟨held, id⟩
  | @alloc _ result _ small returned =>
    cases result with
    | none =>
      obtain rfl := Heap.kmalloc_none returned
      exact .inl ⟨held, id⟩
    | some q =>
      obtain ⟨-, -, allocated, -⟩ := Heap.kmalloc_extends sound small returned
      rw [allocated] at held
      rcases Finset.mem_insert.mp held with rfl | old
      · exact .inr (Finset.mem_insert_self _ _)
      · exact .inl ⟨old, Finset.mem_insert_of_mem⟩
  | free =>
    obtain ⟨other, old⟩ := Finset.mem_erase.mp held
    exact .inl ⟨old, fun buffer => Finset.mem_erase.mpr ⟨other, buffer⟩⟩
  | bufferStore => exact .inl ⟨held, id⟩

section Steps

variable {acc : Access} {s t : System} {event : KernelEvent} (table : Table s.kernel)
include table

theorem refers_kept (undying : Undying s event) (step : KernelStep acc s event t) {p : Nat}
    (refers : s.kernel.Refers p) : t.kernel.Refers p := by
  obtain ⟨i, ready, b, block, rfl⟩ := refers
  rcases ready_stays table step ready with still | ⟨-, regs, cr2, next, died⟩
  · obtain ⟨esp, saved, slice, same⟩ := task_same table step ready still
    refine ⟨i, still, b, ?_, rfl⟩
    rw [same]
    exact block
  · exact absurd died (undying regs cr2 next)

variable (mem : Memory s.kernel s.buffers)
include mem

theorem allocated_step (step : KernelStep acc s event t) {p : Nat}
    (held : p ∈ t.kernel.heap.allocated) :
    p ∈ s.kernel.heap.allocated ∧ (p ∈ s.buffers → p ∈ t.buffers) ∨ t.kernel.Refers p ∨
      p ∈ t.buffers := by
  cases scheduler_step table step with
  | @returned a k arrives served =>
    have taken := (keeps_alike table arrives mem Kernel.taken_heap (s.kernel.alike_taken a)).1.sound
    rcases served.refers taken p held with old | refers
    · exact .inl ⟨old, id⟩
    · exact .inr (.inl refers)
  | dispatched =>
    obtain ⟨allocated, buffers⟩ := allocated_kept table step (endingOf_dispatched _ _ _ _)
    rw [allocated] at held
    exact .inl ⟨held, fun buffer => buffers ▸ buffer⟩
  | created _ _ exit =>
    rcases exit.refers mem.sound p held with old | refers
    · exact .inl ⟨old, id⟩
    · exact .inr (.inl refers)
  | other same effect =>
    rw [same] at held
    rcases effect.allocated mem.sound held with old | buffer
    · exact .inl old
    · exact .inr (.inr buffer)

theorem System.Referenced.step (referenced : s.Referenced) (undying : Undying s event)
    (step : KernelStep acc s event t) : t.Referenced := by
  intro p held
  rcases allocated_step table mem step held with ⟨old, buffer⟩ | new
  · rcases referenced p old with refers | own
    · exact .inl (refers_kept table undying step refers)
    · exact .inr (buffer own)
  · exact new

theorem System.Referenced.undying (referenced : t.Referenced) (step : KernelStep acc s event t) :
    Undying s event := by
  rintro regs cr2 next rfl
  have died := died_dead table step rfl
  have user := died_user table step rfl
  obtain ⟨allocated, buffers⟩ := allocated_kept table step rfl
  have process := (table.user_iff table.running).mp user
  cases mem.stack s.kernel.current table.running with
  | @block b block =>
    have held := (mem.held _ table.running b block).1
    rcases referenced b.1 (allocated ▸ held) with ⟨i, ready, c, block', same⟩ | buffer
    · have before := ready_before table step rfl ready
      obtain ⟨esp, saved, slice, kept⟩ := task_same table step before ready
      rw [kept] at block'
      have here : i = s.kernel.current := mem.apart _ _ before table.running c block' b block same
      rw [here, died] at ready
      cases ready
    · rw [buffers] at buffer
      exact (mem.buffers _ buffer).2 _ table.running b block rfl
  | bootStack here => omega

end Steps

theorem referenced_boot (image : BootImage) : (bootSystem image).Referenced := by
  obtain ⟨heap, booted, -, allocated, -⟩ := boot_kernel image
  obtain ⟨-, first, second⟩ := bootTasks_blocks image.demoA image.demoB
  have kernel : (bootSystem image).kernel = image.booted heap := booted
  intro p held
  rw [kernel] at held ⊢
  change p ∈ heap.allocated at held
  rw [allocated] at held
  simp only [Finset.mem_insert, Finset.mem_singleton] at held
  left
  rcases held with rfl | rfl | rfl | rfl
  · exact ⟨2, rfl, (0x30A030, irqStack), second ▸ by simp, rfl⟩
  · exact ⟨2, rfl, (0x306024, taskStack), second ▸ by simp, rfl⟩
  · exact ⟨1, rfl, (0x304018, irqStack), first ▸ by simp, rfl⟩
  · exact ⟨1, rfl, (0x30000C, taskStack), first ▸ by simp, rfl⟩

def Consistent (s : System) : Prop := Table s.kernel ∧ Memory s.kernel s.buffers

section Runs

variable {acc : Access} {image : BootImage} {events : List KernelEvent} {s t : System}
    {event : KernelEvent}

theorem consistent_boot (image : BootImage) : Consistent (bootSystem image) :=
    ⟨table_boot image, memory_boot image⟩

theorem consistent_step (consistent : Consistent s) (step : KernelStep acc s event t) :
    Consistent t :=
  ⟨table_step consistent.1 step, memory_step consistent.1 consistent.2 step⟩

theorem allocated_run (run : Run (Guarded Undying (KernelStep acc)) (bootSystem image) events t)
    (p : Nat) :
    p ∈ t.kernel.heap.allocated ↔ t.kernel.Refers p ∨ p ∈ t.buffers := by
  obtain ⟨⟨-, mem⟩, referenced⟩ := run.guarded_last Consistent (fun _ _ _ => consistent_step)
    (fun _ _ _ consistent referenced undying step => referenced.step consistent.1 consistent.2 undying step)
    (consistent_boot image) (referenced_boot image)
  constructor
  · exact referenced p
  · rintro (⟨i, ready, b, block, rfl⟩ | buffer)
    · exact (mem.held i ready b block).1
    · exact (mem.buffers p buffer).1

/-- The runs in which no process ends are those in which every used block is referred to in every state. -/
theorem blocks_referenced (acc : Access) (image : BootImage) (events : List KernelEvent)
    (t : System) :
    (Run (Guarded Undying (KernelStep acc)) (bootSystem image) events t ↔
      Run (fun s event u => KernelStep acc s event u ∧ u.Referenced) (bootSystem image) events t) ∧
    (Run (Guarded Undying (KernelStep acc)) (bootSystem image) events t →
      ∀ p, p ∈ t.kernel.heap.allocated ↔ t.kernel.Refers p ∨ p ∈ t.buffers) := by
  constructor
  · exact guarded_iff Consistent (fun _ _ _ => consistent_step)
      (fun _ _ _ consistent referenced undying step => referenced.step consistent.1 consistent.2 undying step)
      (fun _ _ _ consistent step referenced => referenced.undying consistent.1 consistent.2 step)
      (consistent_boot image) (referenced_boot image)
  · exact allocated_run

end Runs

/-- The first process is killed, and its stack stays allocated. -/
theorem blocks_lost : ¬ ∀ (acc : Access) (image : BootImage) (events : List KernelEvent) (t : System),
    Run (KernelStep acc) (bootSystem image) events t → t.Referenced := by
  intro all
  obtain ⟨events, s, spawned, current, user, -, run⟩ :=
    running_run physical_reaches (fun _ _ => trivial) zeroImage
  rw [← current] at user
  have steady := steady_physical run
  have present : ∀ i, i ≠ s.kernel.current → (s.kernel.tasks i).ready = true →
      (s.kernel.tasks i).esp ≠ 0 :=
    fun i other live => spawned.turns.present i ((spawned.turns.ready i).mp live) other
  obtain ⟨event, k, step, killed⟩ := kill_step steady (by rw [spawned.created]; decide) user present
  rcases ready_stays steady.table step steady.table.running with still | ⟨-, regs, cr2, next, died⟩
  · exact absurd (still.symm.trans killed.dead) (by simp)
  · have referenced := all _ _ _ _ (run.snoc step)
    have mem := (memory_run run).2
    exact referenced.undying steady.table mem step regs cr2 next died

end NovaKernel

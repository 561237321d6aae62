import NovaKernel.ProcessRuns

set_option autoImplicit false

namespace NovaKernel

open Arena Machine RoundRobin Transition

namespace Kernel

variable {acc : Access} {k k' : Kernel} {a : Arrival} {j : Nat}

theorem Served.task_kept (served : k.Served acc a k') (other : j ≠ k.current)
    (ready : (k.tasks j).ready = true) :
    k'.tasks j = k.tasks j := by
  have taken := (k.alike_taken a).others j other
  cases served with
  | ignored => rfl
  | kept => exact taken
  | charged => exact (modify_other _ other).trans taken
  | pid => exact taken
  | slept =>
    rw [setEax_tasks]
    exact (modify_other _ other).trans taken
  | called _ call =>
    obtain ⟨m, value, -, rfl⟩ := call
    exact taken
  | resolved => rfl
  | forked _ _ _ exit => exact (exit.task_kept (by simpa using ready)).trans taken

theorem exited_other {next : Nat} (s : Sys) (other : j ≠ k.current) (notNext : j ≠ next) :
    (k.exited next s).tasks j = k.tasks j := by
  refine (Function.update_of_ne notNext _ _).trans ?_
  rw [deadTasks, Function.update_of_ne other]

theorem switched_other {next : Nat} (frame : Nat) (other : j ≠ k.current) (notNext : j ≠ next) :
    (k.switched frame next).tasks j = k.tasks j :=
  (Function.update_of_ne notNext _ _).trans (Function.update_of_ne other _ _)

theorem Dispatches.task_kept (dispatches : k.Dispatches acc a k') (other : j ≠ k.current)
    (notNext : j ≠ k'.current) : k'.tasks j = k.tasks j := by
  have taken := (k.alike_taken a).others j other
  cases dispatches with
  | expired => exact (switched_other _ (by simpa using other) notNext).trans taken
  | exits => exact (exited_other _ (by simpa using other) notNext).trans taken
  | killed => exact exited_other _ other notNext

end Kernel

/-- Every ready task but the running one that has a saved `esp` has its frame there. -/
def Saved (k : Kernel) : Prop :=
  ∀ j, j ≠ k.current → (k.tasks j).ready = true → (k.tasks j).esp ≠ 0 → k.Parked j

theorem saved_step {acc : Access} {s t : System} {event : KernelEvent} (table : Table s.kernel)
    (mem : Memory s.kernel s.buffers) (saved : Saved s.kernel) (step : KernelStep acc s event t) :
    Saved t.kernel := by
  intro j notRunning ready present
  cases scheduler_step table step with
  | @returned a k arrives served =>
    have other : j ≠ s.kernel.current := by
      rw [← served.current]
      exact notRunning
    refine (keeps_served table arrives mem served).2 j other ready fun old => saved j other old ?_
    rwa [← served.task_kept other old]
  | @dispatched a k arrives dispatches =>
    refine (keeps_dispatches table arrives mem dispatches).2 j notRunning ready fun other old =>
      saved j other old ?_
    rwa [← dispatches.task_kept other notRunning]
  | @created k cr3 old entry pid _ _ exit =>
    have other : j ≠ s.kernel.current := by
      rw [← exit.current]
      exact notRunning
    obtain ⟨-, words, new⟩ := mem.createExit exit
    by_cases old : (s.kernel.tasks j).ready = true
    · have same := exit.task_kept old
      refine (saved j other old ?_).carry same ?_ (words j old)
      · rwa [← same]
      · cases exit <;> rfl
    · rcases new j ready with old' | parked | ⟨unset, -⟩
      · exact absurd old' old
      · exact parked
      · exact absurd unset present
  | @other t event sys heap same effect _ _ =>
    obtain ⟨-, words⟩ := mem.effect table effect
    rw [same] at notRunning ready present ⊢
    exact (saved j notRunning ready present).carry rfl rfl (words j notRunning ready)

theorem kernelFrame_ring (fn : Nat) : (Kernel.kernelFrame fn).getD 15 0 % 4 = 0 := by
  simp [Kernel.kernelFrame, gdtCodeSel]

theorem saved_boot (image : BootImage) : Saved (bootSystem image).kernel := by
  obtain ⟨heap, booted, blocks, -, first, second⟩ := boot_kernel image
  obtain ⟨-, stack₁, stack₂⟩ := bootTasks_blocks image.demoA image.demoB
  have parked₁ : (image.booted heap).Parked 1 := by
    refine .built (t := bootTasks image.demoA image.demoB 1)
      (b := (0x30000C, taskStack)) rfl ?_ ?_ ?_ ?_ first ?_
    · exact show 0x303FC8 ≠ 0 by decide
    · rw [stack₁]
      exact List.mem_cons_self
    · exact show 0x30000C ≤ 0x303FC8 by decide
    · exact show 0x303FC8 + 4 * 17 ≤ 0x30000C + 0x4000 by decide
    · exact kernelFrame_ring image.demoA
  have parked₂ : (image.booted heap).Parked 2 := by
    refine .built (t := bootTasks image.demoA image.demoB 2)
      (b := (0x306024, taskStack)) rfl ?_ ?_ ?_ ?_ second ?_
    · exact show 0x309FE0 ≠ 0 by decide
    · rw [stack₂]
      exact List.mem_cons_self
    · exact show 0x306024 ≤ 0x309FE0 by decide
    · exact show 0x309FE0 + 4 * 17 ≤ 0x306024 + 0x4000 by decide
    · exact kernelFrame_ring image.demoB
  change Saved image.kernel
  rw [booted]
  intro j notRunning ready _
  match j with
  | 0 => exact absurd rfl notRunning
  | 1 => exact parked₁
  | 2 => exact parked₂
  | j + 3 => exact absurd (show false = true from ready) (by decide)

theorem saved_run {acc : Access} {image : BootImage} {events : List KernelEvent} {t : System}
    (run : Run (KernelStep acc) (bootSystem image) events t) :
    Table t.kernel ∧ Memory t.kernel t.buffers ∧ Saved t.kernel := by
  refine run.invariant (fun s => Table s.kernel ∧ Memory s.kernel s.buffers ∧ Saved s.kernel)
    (fun s event t inv step => ?_) ⟨table_boot image, memory_boot image, saved_boot image⟩
  obtain ⟨table, mem, saved⟩ := inv
  exact ⟨table_step table step, memory_step table mem step, saved_step table mem saved step⟩

def Present (k : Kernel) : Prop :=
  ∀ j, j ≠ k.current → (k.tasks j).ready = true → (k.tasks j).esp ≠ 0

theorem present_step {acc : Access} {s t : System} {event : KernelEvent} (table : Table s.kernel)
    (mem : Memory s.kernel s.buffers) (present : Present s.kernel) (found : AreaFound s event)
    (step : KernelStep acc s event t) : Present t.kernel := by
  intro j notRunning ready
  cases scheduler_step table step with
  | @returned a k arrives served =>
    have other : j ≠ s.kernel.current := by
      rw [← served.current]
      exact notRunning
    by_cases old : (s.kernel.tasks j).ready = true
    · change (k.tasks j).esp ≠ 0
      rw [served.task_kept other old]
      exact present j other old
    · exact ((keeps_served table arrives mem served).2 j other ready fun old' => absurd old' old).present
  | @dispatched a k arrives dispatches =>
    by_cases here : j = s.kernel.current
    · exact ((keeps_dispatches table arrives mem dispatches).2 j notRunning ready fun other => absurd here other).present
    · have same := dispatches.task_kept here notRunning
      change (k.tasks j).esp ≠ 0
      rw [same]
      refine present j here ?_
      rw [← same]
      exact ready
  | @created k cr3 old entry pid _ _ exit =>
    have other : j ≠ s.kernel.current := by
      rw [← exit.current]
      exact notRunning
    obtain ⟨-, -, new⟩ := mem.createExit exit
    by_cases old : (s.kernel.tasks j).ready = true
    · have same := exit.task_kept old
      change (k.tasks j).esp ≠ 0
      rw [same]
      exact present j other old
    · rcases new j ready with old' | parked | ⟨-, free, base, h, stack, full⟩
      · exact absurd old' old
      · exact parked.present
      · exact absurd (congrArg Prod.fst full) (found j base h free stack)
  | @other t event sys heap same _ _ _ =>
    rw [same] at notRunning ready ⊢
    exact present j notRunning ready

theorem present_boot (image : BootImage) : Present (bootSystem image).kernel := by
  obtain ⟨heap, booted, -⟩ := boot_kernel image
  change Present image.kernel
  rw [booted]
  intro j notRunning ready
  match j with
  | 0 => exact absurd rfl notRunning
  | 1 => exact show 0x303FC8 ≠ 0 by decide
  | 2 => exact show 0x309FE0 ≠ 0 by decide
  | j + 3 => exact absurd (show false = true from ready) (by decide)

end NovaKernel

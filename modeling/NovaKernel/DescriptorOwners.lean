import NovaKernel.Departures
import NovaKernel.DescriptorTable
import NovaKernel.TaskList

set_option autoImplicit false

namespace NovaKernel

open Transition

def nrWrite : Nat := 0
def nrOpen : Nat := 4
def nrRead : Nat := 5
def nrClose : Nat := 6
def nrLseek : Nat := 9

def Regs.tableCall (regs : Regs) (mem : UserMem) : Option TableCall :=
  let ebx : Word := BitVec.ofNat 32 regs.ebx
  let ecx : Word := BitVec.ofNat 32 regs.ecx
  let edx : Word := BitVec.ofNat 32 regs.edx
  if regs.intNo ≠ 128 then none
  else if regs.eax = nrOpen then some (.open mem ebx ecx edx)
  else if regs.eax = nrRead then some (.call ebx (.read ecx edx))
  -- The descriptors below 3 are the console.
  else if regs.eax = nrWrite ∧ ¬ ebx < 3 then some (.call ebx (.write mem ecx edx))
  else if regs.eax = nrClose then some (.close ebx)
  else if regs.eax = nrLseek then some (.call ebx (.lseek ecx edx))
  else none

def KernelEvent.tableCall (mem : UserMem) : KernelEvent → Option TableCall
  | .interrupt regs _ .returned => regs.tableCall mem
  | _ => none

def KernelEvent.forks : KernelEvent → Prop
  | .interrupt regs _ .returned => regs.intNo = 128 ∧ regs.eax = nrFork
  | _ => False

/-- The kernel with the descriptor table. Not in the source: which task opened or inherited which entry. -/
structure Shared where
  system : System
  files : Files
  holds : Nat → Nat → Prop

namespace Shared

def process (s : Shared) (i : Nat) : Prop :=
  (s.system.kernel.tasks i).ready = true ∧ (s.system.kernel.tasks i).flags = .user

-- A child inherits what its parent holds; what has gone holds nothing.
def inherited (s : Shared) (event : KernelEvent) (t : System) (i fd : Nat) : Prop :=
  (t.kernel.tasks i).ready = true ∧
    if (s.system.kernel.tasks i).ready = true then s.holds i fd
    else event.forks ∧ s.holds s.system.kernel.current fd

-- The caller holds what it has opened, and nobody what is closed.
def granted (s : Shared) (files : Files) (i fd : Nat) : Prop :=
  (files.ofiles fd).used = true ∧
    if (s.files.ofiles fd).used = true then s.holds i fd else i = s.system.kernel.current

inductive Step (acc : Access) (ata : Ata) (vol : Volume) : Shared → KernelEvent → Shared → Prop
  | kernel {s : Shared} {event : KernelEvent} {t : System} (io : Io) :
      KernelStep acc s.system event t → (∀ mem, event.tableCall mem = none) →
      Step acc ata vol s event ⟨t, { s.files with io }, s.inherited event t⟩
  | call {s : Shared} {event : KernelEvent} {t : System} {mem : UserMem} {call : TableCall} :
      KernelStep acc s.system event t → event.tableCall mem = some call →
      Step acc ata vol s event ⟨t, call.run ata vol s.files, s.granted (call.run ata vol s.files)⟩

def boot (image : BootImage) (io : Io) : Shared :=
  ⟨bootSystem image, zeroTable io, fun _ _ => False⟩

/-- A live process has opened or inherited each entry that is used. -/
def Kept (s : Shared) : Prop :=
  ∀ fd, (s.files.ofiles fd).used = true → ∃ i, s.process i ∧ s.holds i fd

/-- A file write stores to the buffer of its own entry; what lies behind that are the other entries. -/
def InBounds (s : Shared) (event : KernelEvent) : Prop :=
  ∀ mem call, event.tableCall mem = some call → call.Reaching FdCall.StoresInside s.files

/-- A process goes when each descriptor it holds is closed, or held by another live process. -/
def ClosesFirst (s : Shared) (event : KernelEvent) : Prop :=
  ∀ regs cr2 next, event = .interrupt regs cr2 (.died next) →
    ∀ fd, (s.files.ofiles fd).used = true →
    s.holds s.system.kernel.current fd → ∃ i, i ≠ s.system.kernel.current ∧
      s.process i ∧ s.holds i fd

end Shared

namespace Shared

variable {acc : Access} {ata : Ata} {vol : Volume} {s u : Shared} {event : KernelEvent}

theorem Step.kernelStep (step : Step acc ata vol s event u) :
    KernelStep acc s.system event u.system := by
  cases step with
  | kernel _ taken => exact taken
  | call taken => exact taken

theorem returned_of_tableCall {mem : UserMem} {call : TableCall}
    (made : event.tableCall mem = some call) :
    ∃ regs cr2, event = .interrupt regs cr2 .returned ∧ regs.intNo = 128 := by
  unfold KernelEvent.tableCall at made
  split at made
  next regs cr2 =>
    refine ⟨regs, cr2, rfl, ?_⟩
    by_contra other
    simp [Regs.tableCall, other] at made
  next => cases made

section Steps

variable (table : Table s.system.kernel)
include table

theorem Step.process (step : Step acc ata vol s event u) {i : Nat} (process : s.process i)
    (ready : (u.system.kernel.tasks i).ready = true) : u.process i := by
  obtain ⟨esp, saved, slice, same⟩ := task_same table step.kernelStep process.1 ready
  refine ⟨ready, ?_⟩
  rw [same]
  exact process.2

theorem Step.stays (step : Step acc ata vol s event u) {i : Nat} (process : s.process i) :
    u.process i ∨ i = s.system.kernel.current ∧
      ∃ regs cr2 next, event = .interrupt regs cr2 (.died next) := by
  rcases ready_stays table step.kernelStep process.1 with ready | gone
  · exact .inl (step.process table process ready)
  · exact .inr gone

theorem Kept.step (kept : s.Kept) (closes : s.ClosesFirst event)
    (step : Step acc ata vol s event u) :
    u.Kept := by
  intro fd used
  have stays := fun {i} => step.stays table (i := i)
  cases step with
  | kernel _ taken quiet =>
    obtain ⟨i, process, holds⟩ := kept fd used
    rcases stays process with still | ⟨rfl, regs, cr2, next, died⟩
    · exact ⟨i, still, still.1, by rwa [if_pos process.1]⟩
    · obtain ⟨j, other, process', holds'⟩ := closes regs cr2 next died fd used holds
      rcases stays process' with still | ⟨here, -⟩
      · exact ⟨j, still, still.1, by rwa [if_pos process'.1]⟩
      · exact absurd here other
  | call taken made =>
    obtain ⟨regs, cr2, rfl, vector⟩ := returned_of_tableCall made
    by_cases old : (s.files.ofiles fd).used = true
    · obtain ⟨i, process, holds⟩ := kept fd old
      rcases stays process with still | ⟨-, _, _, _, died⟩
      · exact ⟨i, still, used, by rwa [if_pos old]⟩
      · cases died
    · -- The caller has opened it.
      have user := caller_user table taken rfl vector
      rcases stays ⟨table.running, user⟩ with still | ⟨-, _, _, _, died⟩
      · exact ⟨s.system.kernel.current, still, used, by rw [if_neg old]⟩
      · cases died

theorem Kept.closes (kept : u.Kept) (step : Step acc ata vol s event u) : s.ClosesFirst event := by
  rintro regs cr2 next rfl fd used -
  have dead := died_dead table step.kernelStep rfl
  cases step with
  | @kernel t _ taken quiet =>
    obtain ⟨i, process, ready, holds⟩ := kept fd used
    have other : i ≠ s.system.kernel.current := by
      rintro rfl
      exact absurd (ready.symm.trans dead) (by simp)
    by_cases old : (s.system.kernel.tasks i).ready = true
    · rw [if_pos old] at holds
      obtain ⟨esp, saved, slice, same⟩ := task_same table taken old ready
      have user := process.2
      change (t.kernel.tasks i).flags = .user at user
      rw [same] at user
      exact ⟨i, other, ⟨old, user⟩, holds⟩
    · rw [if_neg old] at holds
      exact holds.1.elim
  | call _ made => cases made

end Steps

theorem kept_boot (image : BootImage) (io : Io) : (boot image io).Kept :=
    fun _ used => absurd used (by simp [boot, zeroTable, emptySlot])

variable {image : BootImage} {io : Io} {events : List KernelEvent}

theorem kernel_run (run : Run (Step acc ata vol) (boot image io) events u) :
    Run (KernelStep acc) (bootSystem image) events u.system := by
  induction run with
  | nil => exact .nil
  | snoc _ taken ih => exact ih.snoc taken.kernelStep

theorem table_shared (table : Table s.system.kernel) (step : Step acc ata vol s event u) :
    Table u.system.kernel :=
  table_step table step.kernelStep

theorem kept_run (run : Run (Guarded ClosesFirst (Guarded InBounds (Step acc ata vol))) (boot image io) events u) :
    u.Kept :=
  (run.guarded_last (fun s => Table s.system.kernel) (fun _ _ _ table step => table_shared table step.2)
    (fun _ _ _ table kept closes step => kept.step table closes step.2) (table_boot image)
    (kept_boot image io)).2

theorem run_kept_iff : Run (Guarded ClosesFirst (Guarded InBounds (Step acc ata vol))) (boot image io) events u ↔
    Run (fun s event u => Guarded InBounds (Step acc ata vol) s event u ∧ u.Kept) (boot image io) events u :=
  guarded_iff (fun s => Table s.system.kernel) (fun _ _ _ table step => table_shared table step.2)
    (fun _ _ _ table kept closes step => kept.step table closes step.2)
    (fun _ _ _ table step kept => kept.closes table step.2) (table_boot image) (kept_boot image io)

theorem Kept.unused (kept : u.Kept) (gone : ∀ i, ¬ u.process i) :
    allocFd u.files = some fdFirstFile := by
  have free : ∀ fd, (u.files.ofiles fd).used = false := by
    intro fd
    by_contra used
    obtain ⟨i, process, -⟩ := kept fd (by simpa using used)
    exact gone i process
  simp only [allocFd, free]
  rfl

/-- Of the runs whose writes stay in their buffers, those in which processes go under the condition, and no others, have
a live holder for every used entry in every state; without processes the whole table is free. -/
theorem descriptors_returned (acc : Access) (ata : Ata) (vol : Volume) (image : BootImage) (io : Io)
    (events : List KernelEvent) (u : Shared) :
    (Run (Guarded ClosesFirst (Guarded InBounds (Step acc ata vol))) (boot image io) events u ↔
      Run (fun s event u => Guarded InBounds (Step acc ata vol) s event u ∧ u.Kept) (boot image io) events u) ∧
    (Run (Guarded ClosesFirst (Guarded InBounds (Step acc ata vol))) (boot image io) events u →
      u.Kept ∧ ((∀ i, ¬ u.process i) → allocFd u.files = some fdFirstFile)) :=
  ⟨run_kept_iff, fun run => ⟨kept_run run, fun gone => (kept_run run).unused gone⟩⟩

theorem lift_run (ata : Ata) (vol : Volume) (io : Io) {t : System}
    (run : Run (KernelStep acc) (bootSystem image) events t) :
    ∃ u : Shared, u.system = t ∧ Run (Step acc ata vol) (boot image io) events u := by
  induction run with
  | nil => exact ⟨_, rfl, .nil⟩
  | @snoc events t t' event _ taken ih =>
    obtain ⟨u, rfl, run⟩ := ih
    by_cases quiet : ∀ mem, event.tableCall mem = none
    · exact ⟨_, rfl, run.snoc (.kernel u.files.io taken quiet)⟩
    · push Not at quiet
      obtain ⟨mem, made⟩ := quiet
      obtain ⟨call, made⟩ := Option.ne_none_iff_exists'.mp made
      exact ⟨_, rfl, run.snoc (.call taken made)⟩

theorem sysOpen_creates {files : Files} (free : allocFd files = some fdFirstFile) :
    ((sysOpen ata vol letters 0x200000 1 oCreat files).2.ofiles fdFirstFile).used = true := by
  have valid : ¬ (!userRangeOk 0x200000 1) = true := by decide
  have named : ¬ ((1 : Word) = 0 ∨ nameSize - 1 < (1 : Word).toNat) := by decide
  have creates : ¬ oCreat &&& oCreat = 0 := by decide
  unfold sysOpen
  rw [if_neg valid, if_neg named]
  dsimp only
  rw [free]
  dsimp only
  rw [if_neg fun failed => creates failed.2]
  simp [Files.set]

def openRegs (s : System) : Regs :=
  { pushedRegs (s.kernel.tasks s.kernel.current).flags 128 0 nrOpen 0x200000 with ecx := 1, edx := 2 }

theorem openRegs_call (s : System) :
    (openRegs s).tableCall letters = some (.open letters 0x200000 1 oCreat) := by
  simp [openRegs, Regs.tableCall, pushedRegs, nrOpen, oCreat]

def openArrival (s : System) : Arrival :=
  { s.arrival 128 0 nrOpen 0x200000 0 with
    regs := openRegs s
    others := fun k r => some (k.setEax r fdFirstFile) }

theorem open_step {s : System} (user : (s.kernel.tasks s.kernel.current).flags = .user) :
    KernelStep acc s (.interrupt (openRegs s) 0 .returned)
      (s.setKernel ((s.kernel.taken (openArrival s)).setEax (openArrival s).r fdFirstFile)) := by
  have plain := arrives_user user (by decide : 0 < 2 ^ 32) 128 0 nrOpen 0x200000
  have arrives : Arrives s (openArrival s) := by
    refine ⟨plain.cr2, fun k r k' made => ?_, plain.user,
      fun thread => absurd (user.symm.trans thread) (by simp)⟩
    obtain rfl := Option.some.inj made
    exact ⟨k.sys.machine, fdFirstFile, .nil, rfl⟩
  have vector : (openArrival s).regs.intNo = 128 := rfl
  have call : (openArrival s).regs.eax = nrOpen := rfl
  have others : (openArrival s).others = fun k r => some (k.setEax r fdFirstFile) := rfl
  have returned : s.kernel.interrupt acc (openArrival s) =
      .returns ((s.kernel.taken (openArrival s)).setEax (openArrival s).r fdFirstFile) := by
    generalize openArrival s = a at *
    unfold Kernel.interrupt Kernel.isrCommonHandler
    simp only [Kernel.entered_intNo, vector]
    change (s.kernel.taken a).syscallDispatch acc a.others a.r = _
    unfold Kernel.syscallDispatch
    simp only [Kernel.taken_word, Kernel.entered_eax, call, others]
    rfl
  exact .returned arrives returned

structure Holding (u : Shared) : Prop where
  used : ∃ fd, (u.files.ofiles fd).used = true
  current : u.system.kernel.current = 3
  ready : ∀ i, (u.system.kernel.tasks i).ready = true ↔ i < 4
  created : u.system.kernel.created = 4
  present : ∀ i, i ≠ 3 → (u.system.kernel.tasks i).ready = true → (u.system.kernel.tasks i).esp ≠ 0

theorem holding_run (ata : Ata) (vol : Volume) (io : Io) :
    ∃ events u, Run (Step physical ata vol) (boot zeroImage io) events u ∧ u.Holding := by
  obtain ⟨events, s, spawned, current, user, -, run⟩ :=
    running_run physical_reaches (fun _ _ => trivial) zeroImage
  obtain ⟨u, rfl, shared⟩ := lift_run ata vol io run
  have ready : ∀ i, (u.system.kernel.tasks i).ready = true ↔ i < 4 := spawned.turns.ready
  have present : ∀ i, i ≠ 3 → (u.system.kernel.tasks i).ready = true →
      (u.system.kernel.tasks i).esp ≠ 0 :=
    fun i other live => spawned.turns.present i ((ready i).mp live) (by rwa [current])
  by_cases used : ∃ fd, (u.files.ofiles fd).used = true
  · exact ⟨events, u, shared, used, current, ready, spawned.created, present⟩
  · have free : allocFd u.files = some fdFirstFile := by
      have unused : ∀ fd, (u.files.ofiles fd).used = false := fun fd => by
        by_contra live
        exact used ⟨fd, by simpa using live⟩
      simp only [allocFd, unused]
      rfl
    rw [← current] at user
    have made : (KernelEvent.interrupt (openRegs u.system) 0 .returned).tableCall letters = _ :=
      openRegs_call u.system
    have step := @Step.call physical ata vol _ _ _ _ _ (open_step user) made
    refine ⟨_, _, shared.snoc step, ⟨fdFirstFile, sysOpen_creates free⟩, ?_, fun i => ?_, ?_,
      fun i other => ?_⟩
    · exact Kernel.taken_current.trans current
    · exact (Eq.congr_left (Kernel.taken_ready i)).trans (ready i)
    · exact Kernel.taken_created.trans spawned.created
    · change ((u.system.kernel.taken (openArrival u.system)).tasks i).ready = true →
        ((u.system.kernel.taken (openArrival u.system)).tasks i).esp ≠ 0
      rcases u.system.kernel.taken_task (openArrival u.system) i with same | ⟨-, -, here, -⟩
      · rw [same]
        exact present i other
      · exact absurd (here.trans current) other

/-- The process dies, and its entry stays used. -/
theorem descriptors_leak : ¬ ∀ (acc : Access) (ata : Ata) (vol : Volume) (image : BootImage) (io : Io)
    (events : List KernelEvent) (u : Shared), Run (Step acc ata vol) (boot image io) events u →
    u.Kept := by
  intro all
  obtain ⟨events, u, run, holding⟩ := holding_run (device fun _ _ _ => false) floppy bootFiles.io
  have current := holding.current
  have steady := steady_physical (kernel_run run)
  have live : (u.system.kernel.tasks u.system.kernel.current).ready = true := steady.table.running
  have user : (u.system.kernel.tasks u.system.kernel.current).flags = .user := by
    rw [current] at live ⊢
    exact (steady.table.user_iff live).mpr (Nat.le_refl 3)
  obtain ⟨event, k, step, killed⟩ := kill_step steady (by rw [holding.created]; decide) user
    (by rw [current]; exact holding.present)
  have died : ∃ regs cr2 next, event = .interrupt regs cr2 (.died next) := by
    rcases ready_stays steady.table step live with still | ⟨-, died⟩
    · exact absurd (still.symm.trans killed.dead) (by simp)
    · exact died
  obtain ⟨regs, cr2, next, rfl⟩ := died
  have run' := run.snoc (.kernel u.files.io step fun _ => rfl)
  obtain ⟨fd, used⟩ := holding.used
  obtain ⟨i, ⟨ready, process⟩, -⟩ := all _ _ _ _ _ _ _ run' fd used
  change (k.tasks i).ready = true at ready
  -- No other process was there.
  have third : 3 ≤ i := ((table_step steady.table step).user_iff ready).mp process
  have before : (u.system.kernel.tasks i).ready = true := by
    have other : i ≠ u.system.kernel.current := by
      rintro rfl
      exact absurd (ready.symm.trans killed.dead) (by simp)
    by_cases dispatched : i = k.current
    · rw [dispatched]
      exact killed.next.2
    · rwa [killed.others i other dispatched] at ready
  have here : i = u.system.kernel.current := by
    have low := (holding.ready i).mp before
    omega
  subst here
  exact absurd (ready.symm.trans killed.dead) (by simp)

end Shared

end NovaKernel

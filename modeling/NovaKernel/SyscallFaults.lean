import NovaKernel.UserPointers
import NovaKernel.UserFaults

set_option autoImplicit false

namespace NovaKernel

open Machine Checked Transition

def Kernel.pageEntry (k : Kernel) (x : Word) : Word :=
  k.sys.machine.mem (tableOf k.sys.machine (k.tasks k.current).cr3) (x.toNat / 0x1000)

def Kernel.Present (k : Kernel) (x : Word) : Prop := hasFlag (k.pageEntry x) pteP = true

def Kernel.Unshared (k : Kernel) (x : Word) : Prop :=
  k.Present x ∧ hasFlag (k.pageEntry x) pteW = true

def Kernel.TouchesMapped (k : Kernel) (ata : Ata) (vol : Volume) (regs : Regs)
    (files : Files) : Prop :=
  Touchable ata vol k.sys.machine.userMem k.Present k.Unshared regs.eax (BitVec.ofNat 32 regs.ebx)
    (BitVec.ofNat 32 regs.ecx) (BitVec.ofNat 32 regs.edx) files

theorem fileOthers_call {ata : Ata} {vol : Volume} {ticks : Word} {files : Files} {k k' : Kernel}
    {r : Nat} (returned : fileOthers ata vol ticks files k r = some k') : FileCall k r k' := by
  unfold fileOthers at returned
  split at returned
  next => cases returned
  next value files' m called =>
    obtain rfl := Option.some.inj returned
    exact ⟨m, value.toNat, fileCall_stored called, rfl⟩

section Entries

variable {within : Nat → Prop} {s : System} (table : Table s.kernel) (spaces : Spaces within s)
  (user : (s.kernel.tasks s.kernel.current).flags = .user) {x : Word} (window : InUserWindow (x.toNat / 0x1000))
include table spaces user window

theorem walk_pageEntry : s.kernel.sys.machine.walk (x.toNat / 0x1000) =
    translationOf (s.kernel.pageEntry x) := by
  have ready := spaces.good.ready
  obtain ⟨pde, bounded⟩ := ready.spaces.loadedTable ready.loaded
  have loaded := spaces.process _ (Kernel.spaceIn_process table.running user)
  rw [walk_eq pde bounded (Nat.lt_trans window.2 (by decide)), Kernel.pageEntry, loaded]

theorem loadable_iff : s.kernel.sys.machine.Loadable x ↔ s.kernel.Present x := by
  rw [Loadable, walk_pageEntry table spaces user window, Kernel.Present, translationOf]
  by_cases present : hasFlag (s.kernel.pageEntry x) pteP = true
  · simp [present]
  · simp [present]

theorem storable_iff : s.kernel.sys.machine.Storable x ↔ s.kernel.Unshared x := by
  rw [Storable, walk_pageEntry table spaces user window, Kernel.Unshared, Kernel.Present,
    translationOf]
  by_cases present : hasFlag (s.kernel.pageEntry x) pteP = true
  · simp [present]
  · simp [present]

end Entries

section Dispatch

variable {acc : Access} {within : Nat → Prop} {s : System} {a : Arrival}
    (vector : a.regs.intNo = 128)
include vector

theorem syscall_eq : s.kernel.interrupt acc a =
    (s.kernel.taken a).syscallDispatch acc a.others a.r := by
  unfold Kernel.interrupt Kernel.isrCommonHandler
  simp only [Kernel.entered_intNo, vector]
  rfl

theorem fileCall_outcome {ata : Ata} {vol : Volume} {ticks : Word} {files : Files}
    (others : a.others = fileOthers ata vol ticks files)
    (elsewhere : a.regs.eax ≠ nrGetpid ∧ a.regs.eax ≠ nrExit ∧ a.regs.eax ≠ nrFork ∧
      a.regs.eax ≠ nrSleep) :
    s.kernel.interrupt acc a ≠ .panics ↔
      ∃ result, fileCall ata vol s.kernel.sys.machine ticks a.regs.eax (BitVec.ofNat 32 a.regs.ebx)
        (BitVec.ofNat 32 a.regs.ecx) (BitVec.ofNat 32 a.regs.edx) files = .ok result := by
  have ecx : (s.kernel.entered a).word (a.r + Regs.offEcx) = a.regs.ecx :=
    Kernel.entered_word (i := 10) (by decide)
  have edx : (s.kernel.entered a).word (a.r + Regs.offEdx) = a.regs.edx :=
    Kernel.entered_word (i := 9) (by decide)
  rw [syscall_eq vector, Kernel.syscallDispatch]
  simp only [Kernel.taken_word, Kernel.entered_eax, elsewhere, if_false, others, fileOthers,
    Kernel.entered_ebx, ecx, edx, Kernel.taken_sys]
  rcases fileCall ata vol s.kernel.sys.machine ticks a.regs.eax (BitVec.ofNat 32 a.regs.ebx)
    (BitVec.ofNat 32 a.regs.ecx) (BitVec.ofNat 32 a.regs.edx) files with e | ⟨value, files', m⟩
  · simp
  · simp

omit vector in
theorem untouched {ata : Ata} {vol : Volume} {files : Files} {mem : UserMem}
    {loads stores : Word → Prop} {nr : Nat} {ebx ecx edx : Word}
    (own : nr = nrGetpid ∨ nr = nrExit ∨ nr = nrFork ∨ nr = nrSleep) :
    Touchable ata vol mem loads stores nr ebx ecx edx files := by
  rcases own with rfl | rfl | rfl | rfl <;> exact trivial

theorem touches_iff (reaches : Reaches acc within) (table : Table s.kernel)
    (spaces : Spaces within s) (arrives : Arrives s a) {ata : Ata} {vol : Volume} {ticks : Word}
    {files : Files} (others : a.others = fileOthers ata vol ticks files) :
    (a.regs.eax ≠ nrFork → s.kernel.interrupt acc a ≠ .panics) ↔
      s.kernel.TouchesMapped ata vol a.regs files := by
  have user := interrupt_user arrives (by omega)
  by_cases own : a.regs.eax ∈ [nrGetpid, nrExit, nrFork, nrSleep]
  · simp only [List.mem_cons, List.not_mem_nil, or_false] at own
    refine iff_of_true (fun noFork => ?_) (untouched own)
    simp only [noFork, false_or] at own
    rw [syscall_eq vector, Kernel.syscallDispatch]
    simp only [Kernel.taken_word, Kernel.entered_eax]
    rcases own with pid | exit | sleep
    · simp [pid]
    · have taken : Spaces within (s.setKernel (s.kernel.taken a)) :=
        spaces.kept reaches Kernel.taken_sys Kernel.taken_current (Kernel.taken_spaceIn a)
      have user' : ((s.kernel.taken a).tasks (s.kernel.taken a).current).flags = .user := by
        simpa using user
      obtain ⟨k, exits, -⟩ := exit_kills reaches (table.taken a) taken user'
      rw [exit, if_neg (by decide), if_pos rfl]
      change (s.kernel.taken a).schedExitCurrent acc = _ at exits
      rw [exits]
      simp
    · rw [sleep, if_neg (by decide), if_neg (by decide), if_neg (by decide), if_pos rfl]
      simp
  · have elsewhere : a.regs.eax ≠ nrGetpid ∧ a.regs.eax ≠ nrExit ∧ a.regs.eax ≠ nrFork ∧
        a.regs.eax ≠ nrSleep := by
      simpa [not_or] using own
    rw [imp_iff_right elsewhere.2.2.1, fileCall_outcome vector others elsewhere,
      (fileCall_exactly ata vol spaces.good.ready ticks _ _ _ _ files).ok_iff]
    exact Touchable.congr (fun x window => loadable_iff table spaces user window) fun x window =>
      storable_iff table spaces user window

end Dispatch

/-- In every run, whatever the loader, the forks and the copies on write have made of the page tables: a system call
halts the kernel at no user address exactly if each page it reads from is mapped, and each one it stores to is
mapped writable. -/
theorem syscall_touches_iff {image : BootImage} {events : List KernelEvent} {s : System}
    {a : Arrival} {ata : Ata} {vol : Volume} {ticks : Word} {files : Files}
    (few : s.kernel.created < 2 ^ 32) (arrives : Arrives s a) (vector : a.regs.intNo = 128)
    (others : a.others = fileOthers ata vol ticks files) :
    (Run (KernelStep physical) (bootSystem image) events s →
      ((a.regs.eax ≠ nrFork → s.kernel.interrupt physical a ≠ .panics) ↔
        s.kernel.TouchesMapped ata vol a.regs files)) ∧
    (Run (Guarded (KernelInside (· < userPgStart)) (KernelStep translated)) (bootSystem image) events s →
      ((a.regs.eax ≠ nrFork → s.kernel.interrupt translated a ≠ .panics) ↔
        s.kernel.TouchesMapped ata vol a.regs files)) := by
  constructor
  · intro run
    have steady := steady_physical run
    exact touches_iff vector physical_reaches steady.table (steady.spaces few) arrives others
  · intro run
    have steady := steady_run translated_faithful.reaches ⟨by decide, by decide⟩ run
    exact touches_iff vector translated_faithful.reaches steady.table
      (steady.spaces few) arrives others

/-- `write(1, buf, 1)` -/
def System.writeArrival (s : System) (buf : Nat) : Arrival :=
  { s.arrival 128 0 nrWrite 1 0 with
    regs := { pushedRegs (s.kernel.tasks s.kernel.current).flags 128 0 nrWrite 1 with ecx := buf, edx := 1 }
    others := fileOthers (device fun _ _ _ => false) floppy 0 bootFiles }

theorem writeArrival_arrives {s : System} (user : (s.kernel.tasks s.kernel.current).flags = .user)
    (buf : Nat) :
    Arrives s (s.writeArrival buf) := by
  have plain := arrives_user user (by decide : 0 < 2 ^ 32) 128 0 nrWrite 1
  exact ⟨plain.cr2, fun k r k' made => fileOthers_call made, plain.user,
    fun thread => absurd (user.symm.trans thread) (by simp)⟩

section First

variable {s : System} (spawned : Spawned (fun _ => True) s) (current : s.kernel.current = 3) {v : Nat}
  (window : InUserWindow v)
include spawned current window

theorem Spawned.entries : s.kernel.sys.machine.mem
    (tableOf s.kernel.sys.machine (s.kernel.tasks s.kernel.current).cr3) v =
      if 0x2EE ≤ v ∧ v < 0x2F0 then entry (0x132 + (v - 0x2EE)) 7 else 0 := by
  obtain ⟨m, first, machine⟩ := spawned.space
  rw [current, spawned.cr3, machine]
  change m.mem (tableOf m 0x130) v = _
  rw [first.table, first.pages v window]

end First

theorem write_touches {s : System} {buf : Nat} (word : buf < 2 ^ 32)
    (valid : userRangeOk (BitVec.ofNat 32 buf) 1 = true) :
    s.kernel.TouchesMapped (device fun _ _ _ => false) floppy (s.writeArrival buf).regs bootFiles ↔
      hasFlag (s.kernel.sys.machine.mem (tableOf s.kernel.sys.machine (s.kernel.tasks s.kernel.current).cr3)
        (buf / 0x1000)) pteP = true := by
  have console : (BitVec.ofNat 32 1 : Word) < 3 := by decide
  have one : Spans s.kernel.Present (BitVec.ofNat 32 buf) 1 ↔
      s.kernel.Present (BitVec.ofNat 32 buf) :=
    spans_succ.trans (and_iff_left spans_zero)
  have page : (BitVec.ofNat 32 buf).toNat = buf := by
    rw [BitVec.toNat_ofNat]
    exact Nat.mod_eq_of_lt word
  rw [Kernel.Present, Kernel.pageEntry, page] at one
  change Touchable _ _ _ _ _ nrWrite (BitVec.ofNat 32 1) (BitVec.ofNat 32 buf) (BitVec.ofNat 32 1) _ ↔ _
  rw [Touchable, if_pos rfl, if_pos console]
  exact (imp_iff_right valid).trans one

theorem syscall_touches_stack :
    ∃ (s : System) (a : Arrival), a.regs.intNo = 128 ∧ a.regs.eax = nrWrite ∧
    s.kernel.interrupt physical a ≠ .panics := by
  obtain ⟨events, s, spawned, current, user, -, run⟩ :=
    running_run physical_reaches (fun _ _ => trivial) zeroImage
  rw [← current] at user
  have few : s.kernel.created < 2 ^ 32 := by
    rw [spawned.created]
    decide
  have touched := (@write_touches s 0x2EE000 (by decide) (by decide)).mpr (by
    rw [spawned.entries current (show InUserWindow (0x2EE000 / 0x1000) by decide),
      if_pos (by decide), present_entry]
    decide)
  exact ⟨s, s.writeArrival 0x2EE000, rfl, rfl,
    ((syscall_touches_iff few (writeArrival_arrives user 0x2EE000) rfl rfl).1 run).mpr touched
      (show nrWrite ≠ nrFork by decide)⟩

/-- From above the stack, which no program has mapped: the kernel halts in PANIC. -/
theorem syscall_halts : ¬ ∀ (image : BootImage) (events : List KernelEvent) (s : System) (a : Arrival)
    (ata : Ata) (vol : Volume) (ticks : Word) (files : Files),
    Run (KernelStep physical) (bootSystem image) events s →
      s.kernel.created < 2 ^ 32 → Arrives s a →
      a.regs.intNo = 128 → a.others = fileOthers ata vol ticks files → a.regs.eax ≠ nrFork →
        s.kernel.interrupt physical a ≠ .panics := by
  intro all
  obtain ⟨events, s, spawned, current, user, -, run⟩ :=
    running_run physical_reaches (fun _ _ => trivial) zeroImage
  rw [← current] at user
  have few : s.kernel.created < 2 ^ 32 := by
    rw [spawned.created]
    decide
  have arrives := writeArrival_arrives user 0x2F0000
  have steady := steady_physical run
  have touched := (touches_iff rfl physical_reaches steady.table (steady.spaces few) arrives rfl).mp
    (all zeroImage events s _ _ _ _ _ run few arrives rfl rfl)
  rw [write_touches (by decide) (by decide),
    spawned.entries current (show InUserWindow (0x2F0000 / 0x1000) by decide),
    if_neg (by decide)] at touched
  exact absurd touched (by decide)

end NovaKernel

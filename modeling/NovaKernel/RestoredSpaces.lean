import NovaKernel.RunningProcess
import NovaKernel.SpaceSwitches

set_option autoImplicit false

namespace NovaKernel

open Machine Statements Transition

namespace Stepwise

def SameCr3 (m m' : Machine) : Prop := m'.cr3 = m.cr3

section Tables

variable (acc : Access)

theorem load_keeps (page idx : Nat) : (load acc page idx).Keeps SameCr3 fun _ => True := by
  refine .atom (fun _ => rfl) (fun m w m' loaded => ?_) fun _ => trivial
  obtain ⟨w', -, same⟩ := Option.map_eq_some_iff.mp loaded
  obtain ⟨-, rfl⟩ := Prod.mk.inj same
  rfl

theorem store_keeps (page idx : Nat) (w : Word) :
    (store acc page idx w).Keeps SameCr3 fun _ => True := by
  refine .atom (fun _ => rfl) (fun m _ m' stored => ?_) fun _ => trivial
  obtain ⟨m'', stored, same⟩ := Option.map_eq_some_iff.mp stored
  obtain ⟨frame, -, rfl⟩ := Option.map_eq_some_iff.mp stored
  obtain ⟨-, rfl⟩ := Prod.mk.inj same
  rfl

theorem frameAllocFrom_keeps (n i : Nat) : (frameAllocFrom n i).Keeps SameCr3 fun _ => True := by
  induction n generalizing i with
  | zero => trivial
  | succ n ih =>
    refine .read (fun _ => rfl) fun used => ?_
    cases used with
    | true => exact ih (i + 1)
    | false => exact .changed (fun _ => rfl) trivial

theorem mmRefInc_keeps (f : Nat) : (mmRefInc f).Keeps SameCr3 fun _ => True := by
  refine .test (fun _ => rfl) fun room => ?_
  cases room with
  | true => exact fun _ => ⟨rfl, trivial⟩
  | false => trivial

theorem mapUserPage_keeps (pt idx : Nat) :
    (mapUserPage acc pt idx).Keeps SameCr3 fun _ => True := by
  refine (load_keeps acc pt idx).bind fun w _ => ?_
  split
  next => trivial
  next =>
    refine (frameAllocFrom_keeps frameCount 0).bind fun frame _ => ?_
    cases frame with
    | none => trivial
    | some f =>
      exact (store_keeps acc pt idx _).bind fun _ _ =>
        (mmRefInc_keeps f).bind fun _ _ => trivial

theorem mapUserPages_keeps (pt : Nat) (pages : List Nat) :
    (mapUserPages acc pt pages).Keeps SameCr3 fun _ => True := by
  induction pages with
  | nil => trivial
  | cons i rest ih =>
    refine (mapUserPage_keeps acc pt i).bind fun mapped _ => ?_
    cases mapped with
    | true => exact ih
    | false => trivial

theorem pagingMapUserRegion_keeps (cr3 vaddr nbytes : Nat) :
    (pagingMapUserRegion acc cr3 vaddr nbytes).Keeps SameCr3 fun _ => True := by
  unfold pagingMapUserRegion
  split
  next => trivial
  next =>
    refine (load_keeps acc cr3 _).bind fun pde _ => ?_
    split
    next => trivial
    next => exact mapUserPages_keeps acc _ _

end Tables

def SpacesStay (k k' : Kernel) : Prop := k'.sys = k.sys ∧ k.created ≤ k'.created

theorem spacesStay_refl (k : Kernel) : SpacesStay k k := ⟨rfl, Nat.le_refl _⟩

theorem ram_keeps {α : Type} (c : Code Ram α) : (c.on ram).Keeps SpacesStay fun _ => True :=
  (Code.Keeps.anything c).on fun _ _ _ => ⟨rfl, Nat.le_refl _⟩

theorem kmalloc_keeps (size : Nat) : (kmalloc size).Keeps SpacesStay fun _ => True :=
  (ram_keeps _).bind fun _ _ => .changed (fun _ => ⟨rfl, Nat.le_refl _⟩) trivial

theorem freeSlotFrom_keeps (fuel i : Nat) :
    (freeSlotFrom fuel i).Keeps SpacesStay fun _ => True := by
  induction fuel generalizing i with
  | zero => trivial
  | succ fuel ih =>
    refine .test spacesStay_refl fun last => ?_
    cases last with
    | true => trivial
    | false =>
      refine .read spacesStay_refl fun ready => ?_
      cases ready with
      | true => exact ih (i + 1)
      | false => trivial

theorem allocSlot_keeps : allocSlot.Keeps SpacesStay fun _ => True := by
  refine .read spacesStay_refl fun count => (freeSlotFrom_keeps _ 0).bind fun free _ => ?_
  cases free with
  | some i => trivial
  | none =>
    refine .test spacesStay_refl fun room => ?_
    cases room with
    | true =>
      refine .atom spacesStay_refl (fun k i k' taken => ?_) fun _ => trivial
      obtain ⟨-, rfl⟩ := Prod.mk.inj (Option.some.inj taken)
      exact ⟨rfl, Nat.le_refl _⟩
    | false => trivial

theorem initUserTask_keeps (slot : Nat) : (initUserTask slot).Keeps SpacesStay fun _ => True :=
  .changed (fun _ => ⟨rfl, Nat.le_refl _⟩) (.changed (fun _ => ⟨rfl, Nat.le_succ _⟩)
    (.changed (fun _ => ⟨rfl, Nat.le_refl _⟩) (.changed (fun _ => ⟨rfl, Nat.le_refl _⟩)
      fun _ => ⟨⟨rfl, Nat.le_refl _⟩, trivial⟩)))

theorem allocIrqStack_keeps (slot : Nat) : (allocIrqStack slot).Keeps SpacesStay fun _ => True := by
  refine .test spacesStay_refl fun has => ?_
  cases has with
  | true => trivial
  | false =>
    refine (kmalloc_keeps irqStack).bind fun base _ => ?_
    cases base with
    | none => trivial
    | some base => exact .changed (fun _ => ⟨rfl, Nat.le_refl _⟩) trivial

theorem pushWords_keeps (words : List Nat) (sp : Nat) :
    (pushWords words sp).Keeps SpacesStay fun _ => True := by
  induction words with
  | nil => trivial
  | cons w ws ih => exact ih.bind fun _ _ => .changed (fun _ => ⟨rfl, Nat.le_refl _⟩) trivial

theorem taskSetupUserStack_keeps (slot entry : Nat) :
    (taskSetupUserStack slot entry).Keeps SpacesStay fun _ => True := by
  refine (kmalloc_keeps 0x1000).bind fun area _ => ?_
  cases area with
  | none => trivial
  | some area =>
    generalize Kernel.userFrame entry = words
    exact (pushWords_keeps words (area + 0x1000)).bind fun sp _ => fun k => ⟨⟨rfl, Nat.le_refl _⟩, trivial⟩

theorem taskCreateUser_keeps (entry cr3 : Nat) :
    (taskCreateUser entry cr3).Keeps SpacesStay fun _ => True := by
  refine allocSlot_keeps.bind fun slot _ => ?_
  split
  next => trivial
  next =>
    refine (initUserTask_keeps slot).bind fun _ _ =>
      (allocIrqStack_keeps slot).bind fun found _ => ?_
    cases found with
    | true =>
      exact .changed (fun _ => ⟨rfl, Nat.le_refl _⟩) (.changed (fun _ => ⟨rfl, Nat.le_refl _⟩)
        ((taskSetupUserStack_keeps slot entry).bind fun _ _ k => ⟨spacesStay_refl k, trivial⟩))
    | false => exact .changed (fun _ => ⟨rfl, Nat.le_refl _⟩) trivial

end Stepwise

theorem Calls.loaded {acc : Access} {s : System} {call : ShellCall} {code rest : Remaining}
    {k : Kernel} (calls : Calls acc s call code) (inside : s.spawn.switched ≠ none)
    (moves : code.Moves s.kernel rest k) :
    k.sys.machine.cr3 = s.kernel.sys.machine.cr3 ∧ s.kernel.created ≤ k.created := by
  have mapped : ∀ {cr3 vaddr nbytes : Nat} {result : Bool → Spawn × Finset Nat},
      (Stepwise.mapUserRegion acc cr3 vaddr nbytes >>= fun ok => return result ok).Moves s.kernel rest k →
      k.sys.machine.cr3 = s.kernel.sys.machine.cr3 ∧ s.kernel.created ≤ k.created := by
    intro cr3 vaddr nbytes result moves
    have keeps : (Stepwise.mapUserRegion acc cr3 vaddr nbytes).Keeps
        (fun k k' => k'.sys.machine.cr3 = k.sys.machine.cr3 ∧ k.created ≤ k'.created) fun _ => True :=
      (Stepwise.pagingMapUserRegion_keeps acc cr3 vaddr nbytes).on fun _ _ same => ⟨same, Nat.le_refl _⟩
    exact moves.keeps (keeps.result result) (fun _ => ⟨rfl, Nat.le_refl _⟩)
      fun first second => ⟨second.1.trans first.1, Nat.le_trans first.2 second.2⟩
  cases calls with
  | kmalloc idle => exact absurd (by rw [idle]; rfl) inside
  | kfree idle => exact absurd (by rw [idle]; rfl) inside
  | createAddrSpace idle => exact absurd (by rw [idle]; rfl) inside
  | destroyAddrSpace dropping => exact absurd (by rw [dropping]; rfl) inside
  | mapSegment => exact mapped moves
  | mapStack => exact mapped moves
  | @createTask cr3 old entry =>
    obtain ⟨sys, created⟩ : Stepwise.SpacesStay s.kernel k :=
      moves.keeps ((Stepwise.taskCreateUser_keeps entry cr3).result _)
        Stepwise.spacesStay_refl fun first second => ⟨second.1.trans first.1, Nat.le_trans first.2 second.2⟩
    exact ⟨congrArg (fun sys => sys.machine.cr3) sys, created⟩

theorem Remembered.interrupted {s : System} {k : Kernel} (remembered : Remembered s)
    (between : s.kernel.Interrupted k) : Remembered (s.setKernel k) where
  fresh i idle := remembered.fresh i ((Stepwise.interrupted_ready between i).symm.trans idle)
  process i pd c held preempted :=
    remembered.process i pd c ((between.same i).spaceIn.symm.trans held) preempted
  thread := remembered.thread
  shell cr3 old inside := by
    obtain ⟨here, loaded⟩ := remembered.shell cr3 old inside
    refine ⟨between.current.trans here, ?_⟩
    change k.sys.machine.cr3 = cr3
    rw [between.sys]
    exact loaded

/-- Between its two calls of `paging_switch` the shell works on the new address space, and then goes back to the
kernel's. -/
def ShellInside (t : System) : Prop :=
  t.kernel.current = 0 → ∀ cr3 old, t.spawn.switched = some (cr3, old) →
    t.kernel.sys.machine.cr3 = cr3 ∧ old = kernelPd

def Resumed (within : Nat → Prop) (image : BootImage) (s : System) : Prop :=
  (Steady within s ∧ Threads image s.kernel) ∧ (s.kernel.created < 2 ^ 32 → Remembered s)

def Returning (within : Nat → Prop) (s : System) (event : KernelEvent) : Prop :=
  KernelInside within s event ∧ Unswitched s event

section Runs

variable {acc : Access} {within : Nat → Prop} (reaches : Reaches acc within) {image : BootImage}
include reaches

theorem resumed_step {s t : System} {event : KernelEvent} (resumed : Resumed within image s)
    (returning : Returning within s event) (step : KernelStep acc s event t) :
    Resumed within image t ∧ (t.kernel.created < 2 ^ 32 → Restores event t) := by
  obtain ⟨⟨steady, threads⟩, remembered⟩ := resumed
  have after := And.intro (steady_step reaches steady returning.1 step)
    (threads_step steady.table threads step)
  have kept : t.kernel.created < 2 ^ 32 → Remembered t ∧ Restores event t := fun few => by
    have fewer := Nat.lt_of_le_of_lt (counted_step steady.table steady.counted step).2 few
    exact remembered_step reaches steady.table (steady.spaces fewer)
      (remembered fewer) returning.2 step
  exact ⟨⟨after, fun few => (kept few).1⟩, fun few => (kept few).2⟩

omit reaches in
theorem resumed_invariant (acc : Access) (reaches : Reaches acc within) (image : BootImage) :
    Invariant acc (Returning within) (Resumed within image) where
  based _ resumed := resumed.1.1.based resumed.1.2
  step _ _ _ resumed returning step := (resumed_step reaches resumed returning step).1
  interrupted s k resumed shell between := by
    refine ⟨⟨resumed.1.1.interrupted reaches shell between, resumed.1.2.interrupted between⟩,
      fun few => ?_⟩
    refine (resumed.2 ?_).interrupted between
    obtain ⟨-, h', esp, saved, slice, frame, observed, -, rfl⟩ := between
    exact few

omit reaches in
theorem Resumed.shellInside {s : System} (resumed : Resumed within image s)
    (few : s.kernel.created < 2 ^ 32) :
    ShellInside s := fun _ cr3 old inside =>
  ⟨((resumed.2 few).shell cr3 old inside).2, (resumed.1.1.spaces few).old cr3 old inside⟩

omit reaches in
theorem Ongoing.shellInside {f : Interleaved}
    (ongoing : Ongoing acc (Returning within) (Resumed within image) f)
    (few : f.system.kernel.created < 2 ^ 32) : ShellInside f.system := by
  cases ongoing with
  | between resumed => exact resumed.shellInside few
  | @inside s call code rest k k' resumed shell calls met moves ignores between =>
    intro _ cr3 old inside
    change s.spawn.switched = some (cr3, old) at inside
    obtain ⟨loaded, created⟩ := calls.loaded (by rw [inside]; simp) moves
    have few' : k.created < 2 ^ 32 := by
      obtain ⟨-, h', esp, saved, slice, frame, observed, -, rfl⟩ := between
      exact few
    obtain ⟨before, kernel⟩ :=
      resumed.shellInside (Nat.lt_of_le_of_lt created few') shell cr3 old inside
    refine ⟨?_, kernel⟩
    change k'.sys.machine.cr3 = cr3
    rw [between.sys, loaded, before]

end Runs

def InterleavedEvent.Restores (event : InterleavedEvent) (f : Interleaved) : Prop :=
  ∀ e, event = .kernel e → NovaKernel.Restores e f.system

section Restored

variable {acc : Access} {within : Nat → Prop} (reaches : Reaches acc within)
  (kernel : within kernelPd ∧ within kernelPt) {image : BootImage} {events : List InterleavedEvent}
  {event : InterleavedEvent} {f : Interleaved}
include reaches kernel

theorem interleaved_restored (few : f.system.kernel.created < 2 ^ 32)
    (run : Run (Guarded Undisturbed (Guarded (Whole (Returning within)) (InterleavedStep acc)))
      ⟨bootSystem image, none⟩ (events ++ [event]) f) : event.Restores f ∧
        ShellInside f.system := by
  have booted : Resumed within image (bootSystem image) :=
    ⟨⟨steady_boot kernel image, threads_boot image⟩, fun _ => remembered_boot image⟩
  have invariant := resumed_invariant acc reaches image
  refine ⟨?_, (ongoing_run invariant booted run).shellInside few⟩
  rintro e rfl dispatched
  obtain ⟨g, earlier, undisturbed, whole, step⟩ := run.last
  cases ongoing_run invariant booted earlier with
  | between resumed =>
    cases step with
    | kernel step => exact (resumed_step reaches resumed (whole e rfl) step).2 few dispatched
  | inside _ _ _ _ _ _ between =>
    have outside := undisturbed.1 ⟨dispatched, between.runs.current⟩
    cases outside

end Restored

/-- Every dispatch restores the address space the task was preempted in, in every run with fewer than 2^32 creations in
which no tick takes the CPU from the shell inside a call or between its two calls of `paging_switch`. -/
theorem spaces_restored (image : BootImage) (events : List InterleavedEvent)
    (event : InterleavedEvent) (f : Interleaved) (few : f.system.kernel.created < 2 ^ 32) :
    (Run (Guarded Undisturbed (Guarded (Whole Unswitched) (InterleavedStep physical))) ⟨bootSystem image, none⟩
        (events ++ [event]) f → event.Restores f ∧ ShellInside f.system) ∧
      (Run (Guarded Undisturbed (Guarded (Whole (Returning (· < userPgStart))) (InterleavedStep translated)))
        ⟨bootSystem image, none⟩ (events ++ [event]) f →
          event.Restores f ∧ ShellInside f.system) := by
  constructor
  · intro run
    refine interleaved_restored physical_reaches ⟨trivial,
      trivial⟩ few (run.mono fun g e _ taken => ?_)
    exact ⟨taken.1, fun whole means => ⟨kernelInside_everywhere g.system whole, taken.2.1 whole means⟩, taken.2.2⟩
  · exact interleaved_restored translated_faithful.reaches ⟨by decide, by decide⟩ few

theorem unswitched_run {acc : Access} {s t : System} {events : List KernelEvent}
    (run : Run (KernelStep acc) s events t)
    (undispatched : ∀ event ∈ events, event.dispatched = none) :
    Run (Guarded Unswitched (KernelStep acc)) s events t := by
  induction run with
  | nil => exact .nil
  | snoc earlier taken ih =>
    have last := undispatched _ (List.mem_append_right _ List.mem_cons_self)
    refine (ih fun event member => undispatched event (List.mem_append_left _ member)).snoc
      ⟨fun here => ?_, taken⟩
    exact absurd last here

theorem interrupts_unswitched {acc : Access} {s t : System} {events : List KernelEvent}
    (run : Run (KernelStep acc) s events t) (outside : s.spawn.switched = none)
    (interrupts : ∀ event ∈ events, ∃ regs cr2 ending, event = .interrupt regs cr2 ending) :
    Run (Guarded Unswitched (KernelStep acc)) s events t ∧ t.spawn = s.spawn := by
  induction run with
  | nil => exact ⟨.nil, rfl⟩
  | @snoc s' t events event _ taken ih =>
    obtain ⟨earlier, stage⟩ :=
      ih fun event member => interrupts event (List.mem_append_left _ member)
    refine ⟨earlier.snoc ⟨fun _ _ => stage ▸ outside, taken⟩, ?_⟩
    obtain ⟨regs, cr2, ending, same⟩ :=
      interrupts event (List.mem_append_right _ List.mem_cons_self)
    rw [← stage]
    cases taken with
    | returned => rfl
    | unwound => rfl
    | _ => cases same

theorem Turns.around (acc : Access) {s : System} (turns : Turns 4 s)
    (shell : s.kernel.current = 0) :
    ∃ events event t, Run (KernelStep acc) s (events ++ [event]) t ∧
      (∀ e ∈ events ++ [event], ∃ regs cr2 ending, e = .interrupt regs cr2 ending) ∧
        event.dispatched = some 0 ∧
      t.kernel.current = 0 ∧ t.kernel.created = s.kernel.created ∧
      t.preempted 0 = some s.kernel.sys.machine.cr3 ∧ t.kernel.sys.machine.cr3 = kernelPd := by
  have weaken : ∀ t event u, Guarded (AllReady 4) (KernelStep acc) t event u →
      KernelStep acc t event u :=
    fun t event u taken => taken.2
  obtain ⟨events₁, event₁, t₁, run₁, turns₁, turned₁, returned₁, dispatched₁, current₁, -, preempted₁⟩ :=
    turns.turn acc 1 (by simp [shell]) (by simp [shell])
  obtain ⟨events₂, event₂, t₂, run₂, turns₂, turned₂, returned₂, dispatched₂, current₂, -, preempted₂⟩ :=
    turns₁.turn acc 2 (by simp [current₁]) (by simp [current₁])
  obtain ⟨events₃, event₃, t₃, run₃, turns₃, turned₃, returned₃, dispatched₃, current₃, -, preempted₃⟩ :=
    turns₂.turn acc 3 (by simp [current₂]) (by simp [current₂])
  obtain ⟨events₄, event₄, t₄, run₄, -, turned₄, returned₄, dispatched₄, current₄, sys₄, preempted₄⟩ :=
    turns₃.turn acc 0 (by simp [current₃]) (by simp [current₃])
  have preempted : t₄.preempted 0 = some s.kernel.sys.machine.cr3 := by
    rw [preempted₄, current₃, preempted₃, current₂, preempted₂, current₁, preempted₁, shell]
    rfl
  have user : (t₃.kernel.tasks 3).flags = .user :=
    (turns₃.table.processes 3 (Nat.le_refl 3) ((turns₃.ready 3).mpr (by decide))).1
  have thread : (t₃.kernel.tasks 0).flags ≠ .user := by
    rw [(turns₃.table.threads 0 (by decide)).2]
    decide
  have loaded : t₄.kernel.sys.machine.cr3 = kernelPd := by
    rw [sys₄, Kernel.setCr3, current₃, if_pos (.inl user), Kernel.spaceOf, if_neg thread]
    rfl
  have run := ((run₁.append run₂).append run₃).append run₄
  rw [← List.append_assoc] at run
  refine ⟨_, event₄, t₄, run.mono weaken, fun e member => ?_, dispatched₄, current₄,
    (((turned₁.trans turned₂).trans turned₃).trans turned₄).created, preempted, loaded⟩
  rw [List.append_assoc] at member
  rcases List.mem_append.mp member with early | fourth
  · rcases List.mem_append.mp early with early | third
    · rcases List.mem_append.mp early with first | second
      · exact turn_interrupts returned₁ dispatched₁ e first
      · exact turn_interrupts returned₂ dispatched₂ e second
    · exact turn_interrupts returned₃ dispatched₃ e third
  · exact turn_interrupts returned₄ dispatched₄ e fourth

-- The shell has spawned a process, and everyone has had a turn.
theorem spaces_restored_round :
    ∃ event f, InterleavedEvent.Restores event f ∧ ShellInside f.system ∧
    f.system.kernel.current = 0 ∧ f.system.preempted 0 = some kernelPd := by
  obtain ⟨s, spawned, shell, kernel, -, booted⟩ :=
    booted_run physical_reaches (fun _ _ => trivial) zeroImage
  obtain ⟨events, event, t, run, interrupts, -, current, created, preempted, -⟩ :=
    spawned.turns.around physical shell
  have turns := (interrupts_unswitched run (by rw [spawned.spawn]; rfl) interrupts).1
  have whole := interleaved_run ((unswitched_run booted (by decide)).append turns)
  rw [← List.append_assoc, List.map_append] at whole
  have few : t.kernel.created < 2 ^ 32 := by
    rw [created, spawned.created]
    decide
  obtain ⟨restores, inside⟩ := (spaces_restored zeroImage _ (.kernel event) ⟨t, none⟩ few).1 whole
  exact ⟨.kernel event, ⟨t, none⟩, restores, inside, current,
    preempted.trans (congrArg some kernel)⟩

/-- The shell is preempted while the address space of a second process is loaded, the first process has its turn,
and the shell is resumed in the kernel's address space. -/
theorem spaces_unrestored : ¬ ∀ (acc : Access) (image : BootImage) (events : List InterleavedEvent)
    (event : InterleavedEvent) (f : Interleaved), f.system.kernel.created < 2 ^ 32 →
    Run (Guarded InBuffers (InterleavedStep acc)) ⟨bootSystem image, none⟩ (events ++ [event]) f →
    event.Restores f := by
  intro restores
  obtain ⟨s, spawned, shell, kernel, -, booted⟩ :=
    booted_run translated_faithful.reaches (fun _ low => low) zeroImage
  obtain ⟨m, first, machine⟩ := spawned.space
  rw [kernel] at machine
  -- The second call of `user_spawn`, up to the first `paging_switch`.
  have filled : Filled (m.pagingSwitch kernelPd) 0x134 := first.filled
  have ready := ready_switched first.ready kernelPd (.inr rfl)
  have created :=
    create_ok translated_faithful.reaches ready (filled_allocTables filled (by decide))
    ⟨by decide, by decide⟩
  generalize createdSpace (m.pagingSwitch kernelPd) 0x134 (0x134 + 1) = m₁ at created
  have step₁ : KernelStep translated s (.spawn (.created 0x134)) (s.spawning { s.kernel with
      sys := ⟨m₁, insert 0x134 s.kernel.sys.live⟩ } (.created 0x134)) := by
    refine .created shell spawned.spawn ?_
    simp only [Kernel.createAddrSpace, machine, created]
    rfl
  have step₂ := @KernelStep.entered translated (s.spawning { s.kernel with
    sys := ⟨m₁, insert 0x134 s.kernel.sys.live⟩ } (.created 0x134)) 0x134 shell rfl
  have entered := (booted.snoc step₁).snoc step₂
  have turns := spawned.turns.resys ⟨m₁.pagingSwitch 0x134, insert 0x134 s.kernel.sys.live⟩
    (.loading 0x134 m₁.cr3)
  obtain ⟨events, event, t, run, -, dispatched, current, same, preempted, loaded⟩ :=
    turns.around translated shell
  have few : t.kernel.created < 2 ^ 32 := by
    rw [same]
    change s.kernel.created < 2 ^ 32
    rw [spawned.created]
    decide
  have whole := undisturbed_run (entered.append run)
  rw [← List.append_assoc, List.map_append] at whole
  have back := restores translated zeroImage _ (.kernel event) ⟨t, none⟩ few
    (inBuffers_run whole) event rfl
    (by rw [dispatched]; simp) 0x134 (by rw [current]; exact preempted)
  exact absurd (loaded.symm.trans back) (by decide)

end NovaKernel

import NovaKernel.Lib.Custody
import NovaKernel.SavedFrames
import NovaKernel.IdentityAccess

set_option autoImplicit false

namespace NovaKernel

open Machine Mm RoundRobin Transition

namespace Spawn

def space : Spawn → Option Nat
  | .idle => none
  | .created cr3 => some cr3
  | .loading cr3 _ => some cr3
  | .loaded cr3 _ _ => some cr3
  | .stacked cr3 _ _ => some cr3
  | .finishing cr3 _ pid => if pid = 0 then some cr3 else none
  | .failing cr3 _ => some cr3
  | .dropping cr3 => some cr3

def switched : Spawn → Option (Nat × Nat)
  | .loading cr3 old => some (cr3, old)
  | .loaded cr3 old _ => some (cr3, old)
  | .stacked cr3 old _ => some (cr3, old)
  | .finishing cr3 old _ => some (cr3, old)
  | .failing cr3 old => some (cr3, old)
  | _ => none

end Spawn

def Kernel.spaceIn (k : Kernel) (i : Nat) : Option Nat :=
  if (k.tasks i).ready = true ∧ (k.tasks i).flags = .user then some (k.tasks i).cr3 else none

def System.holds (s : System) : Option Nat → Option Nat
  | none => s.spawn.space
  | some i => s.kernel.spaceIn i

structure Spaces (within : Nat → Prop) (s : System) : Prop where
  good : Good within s.kernel.sys
  custody : Custody s.holds s.kernel.sys.live
  process : ∀ pd, s.kernel.spaceIn s.kernel.current = some pd → s.kernel.sys.machine.cr3 = pd
  -- A thread keeps what is loaded when no process comes between.
  thread : s.kernel.spaceIn s.kernel.current = none → s.kernel.sys.machine.cr3 = kernelPd ∨
    ∃ old, s.spawn.switched = some (s.kernel.sys.machine.cr3, old)
  old : ∀ cr3 old, s.spawn.switched = some (cr3, old) → old = kernelPd

/-- The frames that become tables or take part in a copy are reachable. -/
def KernelInside (within : Nat → Prop) (s : System) : KernelEvent → Prop
  | .interrupt regs cr2 _ =>
    (regs.intNo = 128 → regs.eax = nrFork → Inside within s.kernel.sys (.fork 0 none)) ∧
      (regs.intNo = 14 → CowInside within s.kernel.sys.machine (cr2 / 2 ^ 12))
  | .spawn _ => Inside within s.kernel.sys (.create none)
  | _ => True

theorem kernelInside_everywhere (s : System) (event : KernelEvent) :
    KernelInside (fun _ => True) s event := by
  cases event with
  | interrupt regs cr2 ending =>
    exact ⟨fun _ _ _ _ _ _ => ⟨trivial, trivial⟩, fun _ _ _ _ => ⟨trivial, fun _ _ _ => trivial⟩⟩
  | spawn stage => exact fun _ _ _ _ => ⟨trivial, trivial⟩
  | userStore => trivial
  | cacheFill => trivial
  | threadStore => trivial
  | shell => trivial

def SysRun (acc : Access) (within : Nat → Prop) (s u : Sys) : Prop :=
  ∃ events, Run (Guarded (fun s e => Unloaded s e ∧ Inside within s e) (Step acc)) s events u

section SysRuns

variable {acc : Access} {within : Nat → Prop} {s u v : Sys}

theorem SysRun.refl (s : Sys) : SysRun acc within s s := ⟨[], .nil⟩

theorem SysRun.single {event : Event} (unloaded : Unloaded s event) (inside : Inside within s event)
    (taken : Step acc s event u) : SysRun acc within s u :=
    ⟨[event], .single ⟨⟨unloaded, inside⟩, taken⟩⟩

theorem SysRun.trans (first : SysRun acc within s u) (second : SysRun acc within u v) :
    SysRun acc within s v := by
  obtain ⟨events, run⟩ := first
  obtain ⟨later, run'⟩ := second
  exact ⟨events ++ later, run.append run'⟩

theorem SysRun.good (reaches : Reaches acc within) (run : SysRun acc within s u)
    (good : Good within s) :
    Good within u := by
  obtain ⟨events, run⟩ := run
  exact run.invariant (Good within)
    (fun _ _ _ good taken => (step_refines reaches good taken.1.1 taken.1.2 taken.2).1) good

theorem walk_user {m : Machine} {live : Finset Nat} (ready : Ready within m live) {v : Nat}
    {t : Translation} (window : InUserWindow v) (found : m.walk v = some t) :
    m.cr3 ∈ live ∧ t.user = true := by
  have bounded : v < 2 ^ 20 := Nat.lt_trans window.2 (by decide)
  have member : m.cr3 ∈ live := by
    rcases ready.loaded with member | kernel
    · exact member
    · rw [kernel_window_unmapped ready.spaces kernel window] at found
      exact absurd found (by simp)
  refine ⟨member, ?_⟩
  obtain ⟨-, entry'⟩ := walk_window ready.spaces ready.loaded bounded found
  unfold translationOf at entry'
  split at entry'
  next present =>
    obtain rfl := Option.some.inj entry'
    have user : hasFlag (m.mem (tableOf m m.cr3) v) pteU = true := by
      rcases (windowEntry_frame (ready.spaces.window _ member v window) present).2 with ⟨shape, -⟩ | ⟨shape, -⟩
      all_goals
        rw [shape, user_entry]
        decide
    exact user
  next => cases entry'

theorem stored_run (reaches : Reaches acc within) {m m' : Machine} {live : Finset Nat}
    (good : Good within ⟨m, live⟩)
    (stored : UserStored m m') : SysRun acc within ⟨m, live⟩ ⟨m', live⟩ ∧ m'.cr3 = m.cr3 := by
  induction stored with
  | nil => exact ⟨.refl _, rfl⟩
  | @cons m m' v off value t window inPage found writable later ih =>
    have bounded : v < 2 ^ 20 := Nat.lt_trans window.2 (by decide)
    obtain ⟨member, user⟩ := walk_user good.ready window found
    have first : SysRun acc within ⟨m, live⟩ ⟨m.putByte t.frame off value, live⟩ := by
      refine @SysRun.single acc within _ _ (.write v off value) trivial
        (fun t' found' readOnly => ?_)
        (.write member bounded inPage (.direct (.inr found) user writable))
      obtain rfl := Option.some.inj (found'.symm.trans found)
      exact absurd (writable.symm.trans readOnly) (by simp)
    obtain ⟨rest, same⟩ := ih (first.good reaches good)
    exact ⟨first.trans rest, same⟩

theorem refStep_current {r r' : RefState} {event : Event} (step : RefStep r event r')
    (stays : ∀ cr3, event ≠ .switch cr3) : r'.current = r.current := by
  cases step with
  | switched => exact absurd rfl (stays _)
  | notCreated => rfl
  | created => rfl
  | mapped => rfl
  | notForked => rfl
  | forked => rfl
  | destroyed => rfl
  | cowFault => rfl
  | cacheFill => rfl
  | read => rfl
  | written => rfl

section Calls

variable (reaches : Reaches acc within) (good : Good within s)
include reaches good

theorem SysRun.call {event : Event} (unloaded : Unloaded s event) (inside : Inside within s event)
    (stays : ∀ cr3, event ≠ .switch cr3) (taken : Step acc s event u) :
    SysRun acc within s u ∧ u.machine.cr3 = s.machine.cr3 :=
  ⟨.single unloaded inside taken, refStep_current (step_refines reaches good unloaded inside taken).2 stays⟩

theorem fork_new {parent child : Nat} (inside : Inside within s (.fork parent (some child)))
    (taken : Step acc s (.fork parent (some child)) u) : child ∉ s.live := by
  intro member
  have step := (fork_refines reaches good inside taken).2
  generalize observe u = r at step
  cases step with
  | forked _ dead => exact absurd ((observe_mem member).symm.trans dead) (by simp)

theorem create_new {pd : Nat} (inside : Inside within s (.create (some pd)))
    (taken : Step acc s (.create (some pd)) u) : pd ∉ s.live := by
  intro member
  have step := (create_refines reaches good inside taken).2
  generalize observe u = r at step
  cases step with
  | created dead => exact absurd ((observe_mem member).symm.trans dead) (by simp)

end Calls

end SysRuns

/-- What a call does to the address spaces the tasks hold. -/
inductive SpaceChange (k k' : Kernel) : Prop
  | same : k'.sys.live = k.sys.live → (∀ i, k'.spaceIn i = k.spaceIn i) → SpaceChange k k'
  | added {slot child : Nat} : slot ≠ k.current → k.spaceIn slot = none → child ∉ k.sys.live →
    k'.sys.live = insert child k.sys.live →
      k'.spaceIn slot = some child → (∀ i, i ≠ slot → k'.spaceIn i = k.spaceIn i) → SpaceChange k k'

namespace Kernel

variable {acc : Access} {within : Nat → Prop} {k k' : Kernel}

theorem spaceIn_congr {i : Nat} (task : (k'.tasks i).ready = (k.tasks i).ready ∧
    (k'.tasks i).flags = (k.tasks i).flags ∧ (k'.tasks i).cr3 = (k.tasks i).cr3) : k'.spaceIn i =
      k.spaceIn i := by
  rw [spaceIn, spaceIn, task.1, task.2.1, task.2.2]

theorem spaceIn_idle {i : Nat} (idle : (k.tasks i).ready = false) : k.spaceIn i = none := by
  simp [spaceIn, idle]

theorem addTask_spaceIn {slot : Nat} (t : Task) {i : Nat} (other : i ≠ slot) :
    (k.addTask slot t).spaceIn i = k.spaceIn i := by
  have same : (k.addTask slot t).tasks i = k.tasks i := Function.update_of_ne other _ _
  exact spaceIn_congr (by rw [same]; exact ⟨rfl, rfl, rfl⟩)

theorem addTask_idle {slot : Nat} {t : Task} (free : k.FreeSlot slot) (idle : t.ready = false)
    (i : Nat) :
    (k.addTask slot t).spaceIn i = k.spaceIn i := by
  by_cases here : i = slot
  · subst here
    have own : (k.addTask i t).tasks i = t := Function.update_self _ _ _
    rw [spaceIn_idle free.free, spaceIn_idle (by rw [own, idle])]
  · exact addTask_spaceIn t here

theorem dropped_child {parent child : Nat} {m m' : Machine} (reaches : Reaches acc within)
    (good : Good within k.sys)
    (member : parent ∈ k.sys.live) (loaded : k.sys.machine.cr3 = parent)
    (inside : Inside within k.sys (.fork parent (some child)))
    (forked : pagingForkAddrSpace acc k.sys.machine parent = some (some child, m))
    (destroyed : pagingDestroyAddrSpace acc m child = some m') :
    SysRun acc within k.sys ⟨m', (insert child k.sys.live).erase child⟩ ∧
      m'.cr3 = k.sys.machine.cr3 ∧
      (insert child k.sys.live).erase child = k.sys.live := by
  have step : Step acc k.sys (.fork parent (some child)) ⟨m, insert child k.sys.live⟩ :=
    .fork member forked
  obtain ⟨run, same⟩ := SysRun.call reaches good (by exact trivial) inside (by simp) step
  have new := fork_new reaches good inside step
  have step' : Step acc ⟨m, insert child k.sys.live⟩ (.destroy child) ⟨m', (insert child k.sys.live).erase child⟩ :=
    .destroy (Finset.mem_insert_self _ _) destroyed
  have unloaded : Unloaded ⟨m, insert child k.sys.live⟩ (.destroy child) := by
    intro here
    change child = m.cr3 at here
    rw [here, show m.cr3 = k.sys.machine.cr3 from same, loaded] at new
    exact new member
  obtain ⟨run', same'⟩ :=
    SysRun.call reaches (run.good reaches good) unloaded trivial (by simp) step'
  exact ⟨run.trans run', same'.trans same, Finset.erase_insert new⟩

theorem ForkExit.spaces {r parent pid : Nat} (table : Table k) (reaches : Reaches acc within)
    (good : Good within k.sys)
    (member : parent ∈ k.sys.live) (loaded : k.sys.machine.cr3 = parent)
    (inside : Inside within k.sys (.fork 0 none)) (exit : k.ForkExit acc r parent pid k') :
    SysRun acc within k.sys k'.sys ∧ k'.sys.machine.cr3 = k.sys.machine.cr3 ∧ SpaceChange k k' := by
  have inside' : ∀ result, Inside within k.sys (.fork parent result) := fun _ => inside
  cases exit with
  | tableFull => exact ⟨.refl _, rfl, .same rfl fun _ => rfl⟩
  | @noSpace slot m free forked =>
    have step : Step acc k.sys (.fork parent none) ⟨m, k.sys.live⟩ := .fork member forked
    obtain ⟨run, same⟩ := SysRun.call reaches good (by exact trivial) (inside' _) (by simp) step
    exact ⟨run, same, .same rfl fun _ => rfl⟩
  | @noCopy slot child m m' free forked full destroyed =>
    obtain ⟨run, same, live⟩ :=
      dropped_child reaches good member loaded (inside' _) forked destroyed
    exact ⟨run, same, .same live fun _ => rfl⟩
  | @noStack slot child copy m m' h free forked copied room full destroyed =>
    obtain ⟨run, same, live⟩ :=
      dropped_child reaches good member loaded (inside' _) forked destroyed
    exact ⟨run, same, .same live fun i => addTask_idle free rfl i⟩
  | @forked slot child copy base m h h' free forked copied room stack =>
    have step : Step acc k.sys (.fork parent (some child)) ⟨m, insert child k.sys.live⟩ :=
      .fork member forked
    obtain ⟨run, same⟩ := SysRun.call reaches good (by exact trivial) (inside' _) (by simp) step
    have new := fork_new reaches good (inside' _) step
    refine ⟨run, same, .added (table.current_ne free).symm (spaceIn_idle free.free) new rfl ?_ fun i other => addTask_spaceIn _ other⟩
    have own : (k.addTask slot (k.childTask child base copy (childFrame h' copy))).tasks slot =
        k.childTask child base copy (childFrame h' copy) := Function.update_self _ _ _
    change (k.addTask slot (k.childTask child base copy (childFrame h' copy))).spaceIn slot =
      some child
    rw [spaceIn, own]
    rfl

theorem taken_spaceIn (a : Arrival) (i : Nat) : (k.taken a).spaceIn i = k.spaceIn i :=
  spaceIn_congr ⟨taken_ready i, taken_flags i, taken_cr3 i⟩

theorem modify_spaceIn {slot : Nat} {change : Task → Task}
    (kept : ∀ t, (change t).ready = t.ready ∧ (change t).flags = t.flags ∧ (change t).cr3 = t.cr3)
    (i : Nat) :
    (k.modify slot change).spaceIn i = k.spaceIn i := by
  by_cases here : i = slot
  · subst here
    exact spaceIn_congr (by rw [modify_self]; exact kept _)
  · exact spaceIn_congr (by rw [modify_other _ here]; exact ⟨rfl, rfl, rfl⟩)

theorem setEax_spaceIn (r value i : Nat) : (k.setEax r value).spaceIn i = k.spaceIn i := rfl

theorem spaceIn_process {i : Nat} (ready : (k.tasks i).ready = true)
    (user : (k.tasks i).flags = .user) :
    k.spaceIn i = some (k.tasks i).cr3 := if_pos ⟨ready, user⟩

end Kernel

theorem SpaceChange.taken {k k' : Kernel} {a : Arrival} (change : SpaceChange (k.taken a) k') :
    SpaceChange k k' := by
  have sys : (k.taken a).sys = k.sys := Kernel.taken_sys
  cases change with
  | same live kept =>
    rw [sys] at live
    exact .same live fun i => (kept i).trans (Kernel.taken_spaceIn a i)
  | added other free new live held kept =>
    rw [sys] at new live
    rw [Kernel.taken_spaceIn] at free
    rw [Kernel.taken_current] at other
    exact .added other free new live held fun i other =>
      (kept i other).trans (Kernel.taken_spaceIn a i)

section Steps

variable {acc : Access} {within : Nat → Prop} (reaches : Reaches acc within) {s : System}
    {a : Arrival}
  {k' : Kernel} (table : Table s.kernel) (arrives : Arrives s a) (spaces : Spaces within s)
include spaces

theorem Spaces.live_process {i : Nat} {pd : Nat} (held : s.kernel.spaceIn i = some pd) :
    pd ∈ s.kernel.sys.live :=
  spaces.custody.live_of_holds (some i) pd held

theorem Spaces.changed (reaches : Reaches acc within) (run : SysRun acc within s.kernel.sys k'.sys)
    (loaded : k'.sys.machine.cr3 = s.kernel.sys.machine.cr3)
    (current : k'.current = s.kernel.current) (change : SpaceChange s.kernel k') :
    Spaces within (s.setKernel k') := by
  have running : k'.spaceIn k'.current = s.kernel.spaceIn s.kernel.current := by
    rw [current]
    cases change with
    | same _ kept => exact kept _
    | added other _ _ _ _ kept => exact kept _ (Ne.symm other)
  constructor
  case good => exact run.good reaches spaces.good
  case custody =>
    cases change with
    | same live kept =>
      change Custody _ k'.sys.live
      rw [live]
      refine spaces.custody.congr fun p => ?_
      cases p with
      | none => rfl
      | some i => exact kept i
    | @added slot child other free new live held kept =>
      change Custody _ k'.sys.live
      rw [live]
      refine spaces.custody.take (p := some slot) free new held fun q other' => ?_
      cases q with
      | none => rfl
      | some i => exact kept i fun same => other' (congrArg some same)
  case process =>
    intro pd held
    exact loaded.trans (spaces.process pd (running.symm.trans held))
  case thread =>
    intro none'
    change k'.sys.machine.cr3 = kernelPd ∨ ∃ old, s.spawn.switched = some (k'.sys.machine.cr3, old)
    rw [loaded]
    exact spaces.thread (running.symm.trans none')
  case old => exact spaces.old

theorem Spaces.kept (reaches : Reaches acc within) (sys : k'.sys = s.kernel.sys)
    (current : k'.current = s.kernel.current)
    (held : ∀ i, k'.spaceIn i = s.kernel.spaceIn i) : Spaces within (s.setKernel k') := by
  refine spaces.changed reaches ?_ ?_ current (.same ?_ held)
  · rw [sys]
    exact .refl _
  · rw [sys]
  · rw [sys]

include reaches table arrives

theorem Spaces.served {ending : Ending}
    (inside : KernelInside within s (.interrupt a.regs a.cr2 ending))
    (served : s.kernel.Served acc a k') : Spaces within (s.setKernel k') := by
  have current := served.current
  have sys : (s.kernel.taken a).sys = s.kernel.sys := Kernel.taken_sys
  cases served with
  | ignored => exact spaces.kept reaches rfl rfl fun _ => rfl
  | kept => exact spaces.kept reaches sys current (Kernel.taken_spaceIn a)
  | charged =>
    refine spaces.kept reaches sys current fun i => ?_
    refine (Kernel.modify_spaceIn ?_ i).trans (Kernel.taken_spaceIn a i)
    exact fun _ => ⟨rfl, rfl, rfl⟩
  | pid => exact spaces.kept reaches sys current (Kernel.taken_spaceIn a)
  | slept =>
    refine spaces.kept reaches sys current fun i => ?_
    refine (Kernel.setEax_spaceIn _ _ i).trans
      ((Kernel.modify_spaceIn ?_ i).trans (Kernel.taken_spaceIn a i))
    exact fun _ => ⟨rfl, rfl, rfl⟩
  | called _ call =>
    obtain ⟨m, value, stored, rfl⟩ := call
    rw [sys] at stored
    obtain ⟨run, same⟩ := stored_run reaches spaces.good stored
    refine spaces.changed reaches ?_ same current (.same ?_ (Kernel.taken_spaceIn a))
    · change SysRun acc within s.kernel.sys ⟨m, (s.kernel.taken a).sys.live⟩
      rw [sys]
      exact run
    · change (s.kernel.taken a).sys.live = s.kernel.sys.live
      rw [sys]
  | @resolved m vector _ resolved =>
    have step : Step acc s.kernel.sys (.cowFault a.cr2 (BitVec.ofNat 32 a.regs.errCode) true)
        ⟨m, s.kernel.sys.live⟩ := .cowFault spaces.good.ready.loaded arrives.cr2 resolved
    have inside' : Inside within s.kernel.sys (.cowFault a.cr2 (BitVec.ofNat 32 a.regs.errCode) true) :=
      inside.2 vector
    obtain ⟨run, same⟩ := SysRun.call reaches spaces.good (by exact trivial) inside' (by simp) step
    exact spaces.changed reaches run same current (.same rfl fun _ => rfl)
  | @forked pid k₁ vector fork user exit =>
    have parent := Kernel.spaceIn_process table.running user
    have good : Good within (s.kernel.taken a).sys := by
      rw [sys]
      exact spaces.good
    have inside' : Inside within (s.kernel.taken a).sys (.fork 0 none) := by
      rw [sys]
      exact inside.1 vector fork
    obtain ⟨run, same, change⟩ := exit.spaces (table.taken a) reaches good
      (by rw [sys]; exact spaces.live_process parent) (by rw [sys]; exact spaces.process _ parent) inside'
    rw [sys] at run same
    have change' : SpaceChange s.kernel (k₁.setEax a.r pid) := by
      cases change.taken with
      | same live kept => exact .same live kept
      | added other free new live held kept => exact .added other free new live held kept
    exact spaces.changed reaches run same current change'

end Steps

section Dispatch

variable {acc : Access} {within : Nat → Prop} (reaches : Reaches acc within) {s : System}
    (table : Table s.kernel)
  (spaces : Spaces within s)
include spaces

theorem Spaces.live_ne {pd : Nat} (member : pd ∈ s.kernel.sys.live) : pd ≠ kernelPd ∧ pd ≠ 0 := by
  have allocatable := (spaces.good.ready.spaces.tables pd member).1
  refine ⟨(allocatable_ne_kernel allocatable).1, ?_⟩
  rintro rfl
  exact absurd allocatable.1 (by decide)

theorem Spaces.loadable {i : Nat} (ready : (s.kernel.tasks i).ready = true) :
    Kernel.spaceOf (s.kernel.tasks i) ∈ s.kernel.sys.live ∨
      Kernel.spaceOf (s.kernel.tasks i) = kernelPd := by
  unfold Kernel.spaceOf
  split
  next user => exact .inl (spaces.live_process (Kernel.spaceIn_process ready user))
  next => exact .inr rfl

omit spaces in
theorem spaceIn_spaceOf {k : Kernel} {i pd : Nat} (held : k.spaceIn i = some pd) :
    Kernel.spaceOf (k.tasks i) = pd := by
  unfold Kernel.spaceIn at held
  split at held
  next process => exact (if_pos process.2).trans (Option.some.inj held)
  next => cases held

omit spaces in
theorem spaceOf_thread {k : Kernel} {i : Nat} (ready : (k.tasks i).ready = true)
    (none' : k.spaceIn i = none) :
    Kernel.spaceOf (k.tasks i) = kernelPd := by
  unfold Kernel.spaceIn at none'
  split at none'
  next => cases none'
  next thread => exact if_neg fun user => thread ⟨ready, user⟩

include reaches

theorem Spaces.switched (frame : Nat) {next : Nat} (ready : (s.kernel.tasks next).ready = true) :
    Spaces within (s.setKernel (s.kernel.switched frame next)) := by
  have held : ∀ i, (s.kernel.switched frame next).spaceIn i = s.kernel.spaceIn i := fun i => by
    obtain ⟨flags, ready, cr3, -⟩ := s.kernel.slicedTasks_same frame next i
    exact Kernel.spaceIn_congr ⟨ready, flags, cr3⟩
  have custody : Custody (s.setKernel (s.kernel.switched frame next)).holds s.kernel.sys.live := by
    refine spaces.custody.congr fun p => ?_
    cases p with
    | none => rfl
    | some i => exact held i
  by_cases user : (s.kernel.tasks s.kernel.current).flags = .user ∨
    (s.kernel.tasks next).flags = .user
  next =>
    have sys : (s.kernel.switched frame next).sys =
        ⟨s.kernel.sys.machine.pagingSwitch (Kernel.spaceOf (s.kernel.tasks next)), s.kernel.sys.live⟩ := if_pos user
    have step : Step acc s.kernel.sys (.switch (Kernel.spaceOf (s.kernel.tasks next))) _ :=
      .switch (spaces.loadable ready)
    have run : SysRun acc within s.kernel.sys _ :=
      .single (by exact trivial) (by exact trivial) step
    constructor
    case good =>
      change Good within (s.kernel.switched frame next).sys
      rw [sys]
      exact run.good reaches spaces.good
    case custody =>
      change Custody _ (s.kernel.switched frame next).sys.live
      rw [sys]
      exact custody
    case process =>
      intro pd owned
      change (s.kernel.switched frame next).sys.machine.cr3 = pd
      rw [sys]
      exact spaceIn_spaceOf ((held next).symm.trans owned)
    case thread =>
      intro none'
      left
      change (s.kernel.switched frame next).sys.machine.cr3 = kernelPd
      rw [sys]
      exact spaceOf_thread ready ((held next).symm.trans none')
    case old => exact spaces.old
  next =>
    have threads := not_or.mp user
    have sys : (s.kernel.switched frame next).sys = s.kernel.sys := if_neg user
    have running : s.kernel.spaceIn s.kernel.current = none :=
      if_neg fun process => threads.1 process.2
    have none' : (s.kernel.switched frame next).spaceIn next = none :=
      (held next).trans (if_neg fun process => threads.2 process.2)
    constructor
    case good =>
      change Good within (s.kernel.switched frame next).sys
      rw [sys]
      exact spaces.good
    case custody =>
      change Custody _ (s.kernel.switched frame next).sys.live
      rw [sys]
      exact custody
    case process => exact fun pd owned => absurd (owned.symm.trans none') (by simp)
    case thread =>
      intro _
      change (s.kernel.switched frame next).sys.machine.cr3 = kernelPd ∨
        ∃ old, s.spawn.switched = some ((s.kernel.switched frame next).sys.machine.cr3, old)
      rw [sys]
      exact spaces.thread running
    case old => exact spaces.old

include table

theorem Spaces.departs {next : Nat} {sys : Sys}
    (user : (s.kernel.tasks s.kernel.current).flags = .user)
    (departs : s.kernel.Departs acc next sys) :
    Spaces within (s.setKernel (s.kernel.exited next sys)) := by
  have own := Kernel.spaceIn_process table.running user
  have member := spaces.live_process own
  obtain ⟨other, follows, spaceless | ⟨-, m, destroyed, rfl⟩⟩ := departs
  · exact absurd spaceless.1 (spaces.live_ne member).2
  have ready : (s.kernel.tasks next).ready = true := by
    have still : (s.kernel.deadTasks next).ready = true := follows.1
    rwa [Kernel.deadTasks, Function.update_of_ne other] at still
  have step : Step acc s.kernel.sys (.switch (Kernel.spaceOf (s.kernel.tasks next))) _ :=
    .switch (spaces.loadable ready)
  have run : SysRun acc within s.kernel.sys _ := .single (by exact trivial) (by exact trivial) step
  have unloaded : (s.kernel.tasks s.kernel.current).cr3 ≠ Kernel.spaceOf (s.kernel.tasks next) := by
    cases held : s.kernel.spaceIn next with
    | none =>
      rw [spaceOf_thread ready held]
      exact (spaces.live_ne member).1
    | some pd =>
      rw [spaceIn_spaceOf held]
      intro same
      have slots := spaces.custody.unique (some next) (some s.kernel.current) pd held (same ▸ own)
      exact other (Option.some.inj slots)
  have step' : Step acc ⟨s.kernel.sys.machine.pagingSwitch (Kernel.spaceOf (s.kernel.tasks next)), s.kernel.sys.live⟩
      (.destroy (s.kernel.tasks s.kernel.current).cr3) ⟨m, s.kernel.sys.live.erase (s.kernel.tasks s.kernel.current).cr3⟩ :=
    .destroy member destroyed
  have unloaded' : Unloaded ⟨s.kernel.sys.machine.pagingSwitch (Kernel.spaceOf (s.kernel.tasks next)), s.kernel.sys.live⟩
      (.destroy (s.kernel.tasks s.kernel.current).cr3) := unloaded
  obtain ⟨run', same⟩ :=
    SysRun.call reaches (run.good reaches spaces.good) unloaded' (by exact trivial) (by simp) step'
  change m.cr3 = Kernel.spaceOf (s.kernel.tasks next) at same
  generalize destroyedSys : (⟨m, s.kernel.sys.live.erase (s.kernel.tasks s.kernel.current).cr3⟩ : Sys) =
    sys at run'
  have gone : (s.kernel.exited next sys).spaceIn s.kernel.current = none := by
    apply Kernel.spaceIn_idle
    change (Function.update s.kernel.deadTasks next _ s.kernel.current).ready = false
    rw [Function.update_of_ne (Ne.symm other), Kernel.deadTasks, Function.update_self]
  have held : ∀ i, i ≠ s.kernel.current →
      (s.kernel.exited next sys).spaceIn i = s.kernel.spaceIn i :=
    fun i distinct => by
    apply Kernel.spaceIn_congr
    change (Function.update s.kernel.deadTasks next _ i).ready = _ ∧
      (Function.update s.kernel.deadTasks next _ i).flags = _ ∧
      (Function.update s.kernel.deadTasks next _ i).cr3 = _
    by_cases here : i = next
    · subst here
      rw [Function.update_self]
      exact ⟨rfl, rfl, rfl⟩
    · rw [Function.update_of_ne here, Kernel.deadTasks, Function.update_of_ne distinct]
      exact ⟨rfl, rfl, rfl⟩
  constructor
  case good => exact (run.trans run').good reaches spaces.good
  case custody =>
    change Custody _ sys.live
    rw [← destroyedSys]
    refine spaces.custody.drop (p := some s.kernel.current) own gone fun q distinct => ?_
    cases q with
    | none => rfl
    | some i => exact held i fun here => distinct (congrArg some here)
  case process =>
    intro pd owned
    change sys.machine.cr3 = pd
    rw [← destroyedSys]
    exact same.trans (spaceIn_spaceOf ((held next other).symm.trans owned))
  case thread =>
    intro none'
    left
    change sys.machine.cr3 = kernelPd
    rw [← destroyedSys]
    exact same.trans (spaceOf_thread ready ((held next other).symm.trans none'))
  case old => exact spaces.old

end Dispatch

section Shell

variable {acc : Access} {within : Nat → Prop} (reaches : Reaches acc within) {s : System}
    (table : Table s.kernel)
  (spaces : Spaces within s) {k' : Kernel}

theorem shell_spaceless {k : Kernel} (table : Table k) (shell : k.current = 0) :
    k.spaceIn k.current = none := by
  rw [shell]
  exact if_neg fun process =>
    absurd ((table.threads 0 (by decide)).2.symm.trans process.2) (by simp)

theorem Spaces.kernel_loaded (table : Table s.kernel) (spaces : Spaces within s)
    (shell : s.kernel.current = 0) (outside : s.spawn.switched = none) :
    s.kernel.sys.machine.cr3 = kernelPd := by
  rcases spaces.thread (shell_spaceless table shell) with kernel | ⟨old, inside⟩
  · exact kernel
  · exact absurd (outside.symm.trans inside) (by simp)

include table spaces

theorem Spaces.stage (reaches : Reaches acc within) {stage : Spawn} (shell : s.kernel.current = 0)
    (run : SysRun acc within s.kernel.sys k'.sys) (live : k'.sys.live = s.kernel.sys.live)
    (tasks : k'.tasks = s.kernel.tasks) (current : k'.current = s.kernel.current)
    (space : stage.space = s.spawn.space)
    (loaded : k'.sys.machine.cr3 = kernelPd ∨ ∃ old, stage.switched = some (k'.sys.machine.cr3, old)) (old : ∀ cr3 old, stage.switched = some (cr3, old) → old = kernelPd) :
      Spaces within (s.spawning k' stage) := by
  have held : ∀ i, k'.spaceIn i = s.kernel.spaceIn i := fun i =>
    Kernel.spaceIn_congr (by rw [tasks]; exact ⟨rfl, rfl, rfl⟩)
  have none' : k'.spaceIn k'.current = none := by
    rw [held, current]
    exact shell_spaceless table shell
  constructor
  case good => exact run.good reaches spaces.good
  case custody =>
    change Custody _ k'.sys.live
    rw [live]
    refine spaces.custody.congr fun p => ?_
    cases p with
    | none => exact space
    | some i => exact held i
  case process => exact fun pd owned => absurd (owned.symm.trans none') (by simp)
  case thread => exact fun _ => loaded
  case old => exact old

include reaches

omit table in
theorem Spaces.mapped_run {cr3 vaddr nbytes : Nat} {ok : Bool} (mine : s.spawn.space = some cr3)
    (low : userTextBase ≤ vaddr) (high : vaddr + nbytes ≤ userStackTop)
    (returned : s.kernel.mapUserRegion acc cr3 vaddr nbytes = some (ok, k')) :
    SysRun acc within s.kernel.sys k'.sys ∧ k'.sys.machine.cr3 = s.kernel.sys.machine.cr3 := by
  obtain ⟨m, mapped, rfl⟩ := Kernel.mapUserRegion_some returned
  have step : Step acc s.kernel.sys (.mapRegion cr3 vaddr nbytes ok) ⟨m, s.kernel.sys.live⟩ :=
    .mapRegion (spaces.custody.live_of_holds none cr3 mine) low (Nat.le_trans high (by decide)) mapped
  exact SysRun.call reaches spaces.good (by exact trivial) (by exact trivial) (by simp) step

theorem Spaces.mapped {cr3 vaddr nbytes : Nat} {ok : Bool} {stage : Spawn}
    (shell : s.kernel.current = 0) (mine : s.spawn.space = some cr3) (low : userTextBase ≤ vaddr)
    (high : vaddr + nbytes ≤ userStackTop)
    (returned : s.kernel.mapUserRegion acc cr3 vaddr nbytes = some (ok, k'))
    (space : stage.space = s.spawn.space) (switched : stage.switched = s.spawn.switched) :
    Spaces within (s.spawning k' stage) := by
  obtain ⟨run, same⟩ := spaces.mapped_run reaches mine low high returned
  obtain ⟨m, -, rfl⟩ := Kernel.mapUserRegion_some returned
  have loaded := spaces.thread (shell_spaceless table shell)
  refine spaces.stage table reaches shell run rfl rfl rfl space ?_ fun cr3 old inside => ?_
  · rw [same, switched]
    exact loaded
  · exact spaces.old cr3 old (switched.symm.trans inside)

theorem Spaces.left {cr3 old : Nat} {stage : Spawn} (shell : s.kernel.current = 0)
    (inside : s.spawn.switched = some (cr3, old)) (space : stage.space = s.spawn.space)
    (outside : stage.switched = none) :
    Spaces within (s.spawning (s.kernel.pagingSwitch old) stage) := by
  obtain rfl := spaces.old cr3 old inside
  have step : Step acc s.kernel.sys (.switch kernelPd) _ := .switch (.inr rfl)
  refine spaces.stage table reaches shell
    (.single (by exact trivial) (by exact trivial) step) rfl rfl rfl space (.inl rfl) ?_
  exact fun cr3 old inside => absurd (outside.symm.trans inside) (by simp)

theorem Spaces.created {cr3 : Nat} (inside : Inside within s.kernel.sys (.create none))
    (shell : s.kernel.current = 0)
    (idle : s.spawn = .idle) (returned : s.kernel.createAddrSpace acc = some (some cr3, k')) :
    Spaces within (s.spawning k' (.created cr3)) := by
  obtain ⟨m, created, rfl⟩ := Kernel.createAddrSpace_some returned
  have step : Step acc s.kernel.sys (.create (some cr3)) ⟨m, insert cr3 s.kernel.sys.live⟩ :=
    .create created
  have inside' : Inside within s.kernel.sys (.create (some cr3)) := inside
  obtain ⟨run, same⟩ := SysRun.call reaches spaces.good (by exact trivial) inside' (by simp) step
  have none' := shell_spaceless table shell
  have mine : s.holds none = none := by
    change s.spawn.space = none
    rw [idle]
    rfl
  constructor
  case good => exact run.good reaches spaces.good
  case custody =>
    refine spaces.custody.take (p := none) mine
      (create_new reaches spaces.good inside' step) rfl fun q other => ?_
    cases q with
    | none => exact absurd rfl other
    | some i => rfl
  case process => exact fun pd owned => absurd (owned.symm.trans none') (by simp)
  case thread => exact fun _ => .inl (same.trans (spaces.kernel_loaded table shell (by rw [idle]; rfl)))
  case old => exact fun cr3 old switched => absurd switched (by simp [System.spawning, Spawn.switched])

theorem Spaces.dropped {cr3 : Nat} (shell : s.kernel.current = 0)
    (dropping : s.spawn = .dropping cr3) (returned : s.kernel.destroyAddrSpace acc cr3 = some k') :
    Spaces within (s.spawning k' .idle) := by
  obtain ⟨m, destroyed, rfl⟩ := Kernel.destroyAddrSpace_some returned
  have mine : s.holds none = some cr3 := by
    change s.spawn.space = some cr3
    rw [dropping]
    rfl
  have member := spaces.custody.live_of_holds none cr3 mine
  have kernel := spaces.kernel_loaded table shell (by rw [dropping]; rfl)
  have step : Step acc s.kernel.sys (.destroy cr3) ⟨m, s.kernel.sys.live.erase cr3⟩ :=
    .destroy member destroyed
  have unloaded : Unloaded s.kernel.sys (.destroy cr3) := by
    change cr3 ≠ s.kernel.sys.machine.cr3
    rw [kernel]
    exact (spaces.live_ne member).1
  obtain ⟨run, same⟩ := SysRun.call reaches spaces.good unloaded (by exact trivial) (by simp) step
  have none' := shell_spaceless table shell
  constructor
  case good => exact run.good reaches spaces.good
  case custody =>
    refine spaces.custody.drop (p := none) mine rfl fun q other => ?_
    cases q with
    | none => exact absurd rfl other
    | some i => rfl
  case process => exact fun pd owned => absurd (owned.symm.trans none') (by simp)
  case thread => exact fun _ => .inl (same.trans kernel)
  case old => exact fun cr3 old switched => absurd switched (by simp [System.spawning, Spawn.switched])

omit reaches in
theorem Spaces.taskCreated {cr3 old entry pid : Nat}
    (numbered : s.kernel.created < k'.created → s.kernel.nextPid ≠ 0)
    (shell : s.kernel.current = 0) (stacked : s.spawn = .stacked cr3 old entry)
    (exit : s.kernel.CreateExit entry cr3 pid k') :
    Spaces within (s.spawning k' (.finishing cr3 old pid)) := by
  have mine : s.holds none = some cr3 := by
    change s.spawn.space = some cr3
    rw [stacked]
    rfl
  have switched : (Spawn.finishing cr3 old pid).switched = s.spawn.switched := by
    rw [stacked]
    rfl
  have none' := shell_spaceless (table.createExit exit) (exit.current.trans shell)
  have sys : k'.sys = s.kernel.sys := by
    cases exit <;> rfl
  have custody : Custody (s.spawning k' (.finishing cr3 old pid)).holds s.kernel.sys.live := by
    have handed : ∀ {slot : Nat} {t : Task} {h : Heap}, s.kernel.nextPid ≠ 0 →
      s.kernel.FreeSlot slot →
        t.ready = true → t.flags = .user → t.cr3 = cr3 →
          Custody (s.spawning { s.kernel.addTask slot t with heap := h }
          (.finishing cr3 old s.kernel.nextPid)).holds s.kernel.sys.live := by
      intro slot t h numbered free ready user own
      have at_slot : (s.kernel.addTask slot t).tasks slot = t := Function.update_self _ _ _
      refine spaces.custody.move (p := none) (q := some slot) mine (Kernel.spaceIn_idle free.free)
        (if_neg numbered) ?_
        fun r other other' => ?_
      · change (s.kernel.addTask slot t).spaceIn slot = some cr3
        rw [Kernel.spaceIn_process (by rw [at_slot]; exact ready) (by rw [at_slot]; exact user),
          at_slot, own]
      · cases r with
        | none => exact absurd rfl other
        | some i => exact Kernel.addTask_spaceIn t fun here => other' (congrArg some here)
    have kept : ∀ {k : Kernel}, (∀ i, k.spaceIn i = s.kernel.spaceIn i) →
        Custody (s.spawning k (.finishing cr3 old 0)).holds s.kernel.sys.live := fun held => by
      refine spaces.custody.congr fun p => ?_
      cases p with
      | none => exact mine.symm
      | some i => exact held i
    cases exit with
    | tableFull => exact kept fun _ => rfl
    | noStack free => exact kept (Kernel.addTask_idle free rfl)
    | noArea free => exact handed (numbered (Nat.lt_succ_self _)) free rfl rfl rfl
    | created free => exact handed (numbered (Nat.lt_succ_self _)) free rfl rfl rfl
  constructor
  case good =>
    change Good within k'.sys
    rw [sys]
    exact spaces.good
  case custody =>
    change Custody _ k'.sys.live
    rw [sys]
    exact custody
  case process => exact fun pd owned => absurd (owned.symm.trans none') (by simp)
  case thread =>
    intro _
    change k'.sys.machine.cr3 = kernelPd ∨ ∃ old', (Spawn.finishing cr3 old pid).switched =
      some (k'.sys.machine.cr3, old')
    rw [sys, switched]
    exact spaces.thread (shell_spaceless table shell)
  case old =>
    intro cr3' old' inside
    exact spaces.old cr3' old' (switched.symm.trans inside)

end Shell

end NovaKernel

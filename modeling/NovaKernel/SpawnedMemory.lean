import NovaKernel.LoadedBytes
import NovaKernel.SpaceRuns

set_option autoImplicit false

namespace NovaKernel

open Machine Mm FirstFit Checked Transition

namespace Kernel

def withSys (k : Kernel) (sys : Sys) : Kernel := { k with sys := sys }

def abandonSpawn (acc : Access) (k : Kernel) (cr3 : Nat) : Except Stray (Nat × Kernel) :=
  match k.destroyAddrSpace acc cr3 with
  | none => .error .tables
  | some k => .ok (0, k)

def userSpawn (acc : Access) (img : Nat → Byte) (size : Nat) (k : Kernel) :
    Except Stray (Nat × Kernel) :=
  match k.createAddrSpace acc with
  | none => .error .tables
  | some (none, k) => .ok (0, k)
  | some (some cr3, k) => do
    let old := k.sys.machine.cr3
    let k := k.pagingSwitch cr3
    let (entry, m) ← userLoadElf img size acc k.sys.machine cr3
    let k := k.withSys ⟨m, k.sys.live⟩
    if entry = 0 then abandonSpawn acc (k.pagingSwitch old) cr3
    else
      match k.mapUserRegion acc cr3 (userStackTop - 0x2000) 0x2000 with
      | none => .error .tables
      | some (false, k) => abandonSpawn acc (k.pagingSwitch old) cr3
      | some (true, k) =>
        let (pid, k) := k.taskCreateUser entry cr3
        let k := k.pagingSwitch old
        if pid = 0 then abandonSpawn acc k cr3 else .ok (pid, k)

end Kernel

namespace Kernel

section System

variable (k : Kernel) (sys : Sys)

@[simp] theorem withSys_sys : (k.withSys sys).sys = sys := rfl

@[simp] theorem withSys_withSys (sys' : Sys) : (k.withSys sys).withSys sys' = k.withSys sys' := rfl

@[simp] theorem withSys_switch (cr3 : Nat) :
    (k.withSys sys).pagingSwitch cr3 = k.withSys ⟨sys.machine.pagingSwitch cr3, sys.live⟩ := rfl

theorem allocSlot_sys : (k.withSys sys).allocSlot = (k.allocSlot.1, k.allocSlot.2.withSys sys) := by
  have tasks : (k.withSys sys).tasks = k.tasks := rfl
  have count : (k.withSys sys).taskCount = k.taskCount := rfl
  unfold allocSlot
  rw [tasks, count]
  cases firstFree (fun i => (k.tasks i).ready) k.taskCount with
  | some i => rfl
  | none =>
    by_cases room : k.taskCount < maxTasks
    · simp only [if_pos room]
      rfl
    · simp only [if_neg room]

theorem allocIrqStack_sys (slot : Nat) :
    (k.withSys sys).allocIrqStack slot =
      ((k.allocIrqStack slot).1, (k.allocIrqStack slot).2.withSys sys) := by
  have tasks : (k.withSys sys).tasks = k.tasks := rfl
  have heap : (k.withSys sys).heap = k.heap := rfl
  unfold allocIrqStack kmalloc
  rw [tasks, heap]
  by_cases kept : (k.tasks slot).irqStackTop ≠ 0
  · simp only [if_pos kept]
  · simp only [if_neg kept]
    rcases k.heap.kmalloc irqStack with ⟨_ | base, h⟩ <;> rfl

theorem taskSetupUserStack_sys (slot entry : Nat) :
    (k.withSys sys).taskSetupUserStack slot entry =
      (k.taskSetupUserStack slot entry).withSys sys := by
  have heap : (k.withSys sys).heap = k.heap := rfl
  unfold taskSetupUserStack kmalloc
  rw [heap]
  rcases k.heap.kmalloc 0x1000 with ⟨_ | area, h⟩ <;> rfl

theorem taskCreateUser_sys (entry cr3 : Nat) :
    (k.withSys sys).taskCreateUser entry cr3 =
      ((k.taskCreateUser entry cr3).1, (k.taskCreateUser entry cr3).2.withSys sys) := by
  unfold taskCreateUser
  rw [allocSlot_sys]
  rcases k.allocSlot with ⟨slot, k₁⟩
  by_cases full : maxTasks ≤ slot
  · simp only [if_pos full]
  · have init : (k₁.withSys sys).initTask slot .user = (k₁.initTask slot .user).withSys sys := rfl
    have pid : (k₁.withSys sys).nextPid = k₁.nextPid := rfl
    simp only [if_neg full, init, pid, allocIrqStack_sys]
    rcases (k₁.initTask slot .user).allocIrqStack slot with ⟨_ | _, k₂⟩
    · rfl
    · exact congrArg (Prod.mk k₁.nextPid)
        (taskSetupUserStack_sys (k₂.modify slot fun t => { t with cr3 := cr3, sliceLeft := 5 }) sys slot entry)

theorem mapUserRegion_sys {acc : Access} {pd vaddr memsz : Nat} {ok : Bool} {s' : Machine}
    (mapped : pagingMapUserRegion acc sys.machine pd vaddr memsz = some (ok, s')) :
    (k.withSys sys).mapUserRegion acc pd vaddr memsz = some (ok, k.withSys ⟨s', sys.live⟩) := by
  simp only [mapUserRegion, withSys_sys, mapped]
  rfl

end System

theorem taskCreateUser_slot {k : Kernel} (table : Table k) {entry cr3 : Nat}
    (success : (k.taskCreateUser entry cr3).1 ≠ 0) :
    ∃ slot, ((k.tasks slot).ready = false ∧ ((k.taskCreateUser entry cr3).2.tasks slot).ready = true) ∧
      ∀ i, (k.tasks i).ready = false → ((k.taskCreateUser entry cr3).2.tasks i).ready = true →
        ((k.taskCreateUser entry cr3).2.tasks i).cr3 = cr3 := by
  rcases call : k.taskCreateUser entry cr3 with ⟨pid, k'⟩
  rw [call] at success
  have one : ∀ (slot : Nat) (t : Task) (k' : Kernel), (k.tasks slot).ready = false →
    t.ready = true →
    t.cr3 = cr3 →
      k'.tasks = Function.update k.tasks slot t →
      ∃ slot, ((k.tasks slot).ready = false ∧ (k'.tasks slot).ready = true) ∧
        ∀ i, (k.tasks i).ready = false → (k'.tasks i).ready = true → (k'.tasks i).cr3 = cr3 := by
    intro slot t k' free ready space tasks
    rw [tasks]
    refine ⟨slot, ⟨free, by rwa [Function.update_self]⟩, fun i dead alive => ?_⟩
    by_cases here : i = slot
    · rwa [here, Function.update_self]
    · rw [Function.update_of_ne here, dead] at alive
      cases alive
  cases taskCreateUser_exits table call with
  | tableFull => exact absurd rfl success
  | noStack => exact absurd rfl success
  | @noArea slot base h free => exact one slot (k.userTask cr3 base) _ free.free rfl rfl rfl
  | @created slot base area h h' free =>
    exact one slot (k.startedTask cr3 base area (entryFrame h' area entry)) _ free.free rfl rfl rfl

theorem abandonSpawn_pid {acc : Access} {k k' : Kernel} {cr3 pid : Nat}
    (returned : k.abandonSpawn acc cr3 = .ok (pid, k')) : pid = 0 := by
  unfold abandonSpawn at returned
  split at returned
  · cases returned
  · exact (Prod.mk.inj (Except.ok.inj returned)).1.symm

end Kernel

def imageBytes (img : Nat → Byte) : Nat → Option Byte :=
  segmentsBytes img (elf32Hdr img).phoff (elf32Hdr img).phnum 0 fun _ => none

structure Spawnable (img : Nat → Byte) (size : Nat) (m : Machine) (r : Room) : Prop where
  fits : ImageFits img size (freshRoom m)
  header : accepted img size = true
  entry : (elf32Hdr img).entry ≠ 0
  room : ∃ r', segmentsRoom img size (elf32Hdr img).phoff (elf32Hdr img).phnum 0 (freshRoom m) = some r' ∧
    r'.map (userStackTop - 0x2000) 0x2000 = some r

section Spawn

variable {k : Kernel} {img : Nat → Byte} {size pd pt : Nat} {m : Machine} {r : Room}
  (ready : Ready (fun _ => True) k.sys.machine k.sys.live)
  (allocated : allocTables k.sys.machine = (some (pd, pt), m))
include ready

theorem created_kernel (allocated : allocTables k.sys.machine = (some (pd, pt), m)) :
    k.createAddrSpace physical =
      some (some pd, k.withSys ⟨createdSpace k.sys.machine pd pt, insert pd k.sys.live⟩) := by
  rw [Kernel.createAddrSpace, create_ok physical_reaches ready allocated ⟨trivial, trivial⟩]
  rfl

theorem spawnable_shows (allocated : allocTables k.sys.machine = (some (pd, pt), m))
    (spawnable : Spawnable img size m r) :
    ∃ s₁ s', userLoadElf img size physical ((createdSpace k.sys.machine pd pt).pagingSwitch pd) pd =
        .ok ((elf32Hdr img).entry, s₁) ∧
      pagingMapUserRegion physical s₁ pd (userStackTop - 0x2000) 0x2000 = some (true, s') ∧
      Loading (fun _ => True) (insert pd k.sys.live) pd s' r ∧ Shows pd k.sys.machine (imageBytes img) s' := by
  obtain ⟨fits, header, entry, r', room, stack⟩ := spawnable
  obtain ⟨⟨entry', s₁⟩, load, result, shown⟩ :=
    (userLoadElf_shows ready allocated img size).succeeds fits
  rw [if_pos ⟨header, by rw [room]; rfl⟩] at result
  obtain ⟨loading, shows'⟩ := shown header r' room
  obtain ⟨s', mapped, loading'⟩ := (mapRegion_room physical_reaches loading _ _).1 r stack
  simp only at result
  subst result
  exact ⟨s₁, s', load, mapped, loading', mapRegion_shows loading shows' mapped⟩

theorem userSpawn_eq (allocated : allocTables k.sys.machine = (some (pd, pt), m))
    (spawnable : Spawnable img size m r) :
    ∃ s', Loading (fun _ => True) (insert pd k.sys.live) pd s' r ∧ Shows pd k.sys.machine (imageBytes img) s' ∧
      ((k.taskCreateUser (elf32Hdr img).entry pd).1 ≠ 0 →
        k.userSpawn physical img size = .ok ((k.taskCreateUser (elf32Hdr img).entry pd).1,
          ((k.taskCreateUser (elf32Hdr img).entry pd).2.withSys ⟨s', insert pd k.sys.live⟩).pagingSwitch
            k.sys.machine.cr3)) := by
  obtain ⟨s₁, s', load, mapped, loading, shows'⟩ := spawnable_shows ready allocated spawnable
  refine ⟨s', loading, shows', fun success => ?_⟩
  have mapped' := Kernel.mapUserRegion_sys k ⟨s₁, insert pd k.sys.live⟩ mapped
  have old : (createdSpace k.sys.machine pd pt).cr3 = k.sys.machine.cr3 := rfl
  unfold Kernel.userSpawn
  rw [created_kernel ready allocated]
  simp only [Kernel.withSys_switch, Kernel.withSys_sys, Kernel.withSys_withSys, load, ok_bind, spawnable.entry,
    if_false, mapped', Kernel.taskCreateUser_sys, success, old]

theorem userSpawn_spawnable {k₁ : Kernel} {pid : Nat}
    (spawned : k.userSpawn physical img size = .ok (pid, k₁)) (success : pid ≠ 0) :
    ∃ pd pt m r, allocTables k.sys.machine = (some (pd, pt), m) ∧ Spawnable img size m r ∧
      (k.taskCreateUser (elf32Hdr img).entry pd).1 ≠ 0 := by
  rcases allocated : allocTables k.sys.machine with ⟨_ | ⟨pd, pt⟩, m⟩
  · have none' : k.createAddrSpace physical =
        some (none, k.withSys ⟨k.sys.machine, k.sys.live⟩) := by
      rw [Kernel.createAddrSpace, create_full allocated]
      rfl
    unfold Kernel.userSpawn at spawned
    rw [none'] at spawned
    exact absurd (Prod.mk.inj (Except.ok.inj spawned)).1.symm success
  · have exact' := userLoadElf_shows ready allocated img size
    unfold Kernel.userSpawn at spawned
    rw [created_kernel ready allocated] at spawned
    simp only [Kernel.withSys_switch, Kernel.withSys_sys, Kernel.withSys_withSys] at spawned
    rcases load : userLoadElf img size physical ((createdSpace k.sys.machine pd pt).pagingSwitch pd) pd with
      e | ⟨entry, s₁⟩
    · rw [load] at spawned
      cases spawned
    · obtain ⟨result, shown⟩ := exact'.holds load
      simp only at result shown
      rw [load] at spawned
      simp only [ok_bind] at spawned
      by_cases refused : entry = 0
      · rw [if_pos refused] at spawned
        exact absurd (Kernel.abandonSpawn_pid spawned) success
      · rw [if_neg refused] at spawned
        have loaded : accepted img size = true ∧
            (segmentsRoom img size (elf32Hdr img).phoff (elf32Hdr img).phnum 0 (freshRoom m)).isSome := by
          by_contra fails
          rw [if_neg fails] at result
          exact refused result
        rw [if_pos loaded] at result
        subst result
        obtain ⟨r', room⟩ := Option.isSome_iff_exists.mp loaded.2
        obtain ⟨loading, -⟩ := shown loaded.1 r' room
        obtain ⟨enough, short⟩ :=
          mapRegion_room physical_reaches loading (userStackTop - 0x2000) 0x2000
        cases stack : r'.map (userStackTop - 0x2000) 0x2000 with
        | none =>
          obtain ⟨s', mapped, -⟩ := short stack
          simp only [Kernel.mapUserRegion, Kernel.withSys_sys, mapped] at spawned
          exact absurd (Kernel.abandonSpawn_pid spawned) success
        | some r =>
          obtain ⟨s', mapped, -⟩ := enough r stack
          have created : (k.taskCreateUser (elf32Hdr img).entry pd).1 ≠ 0 := by
            intro failed
            simp only [Kernel.mapUserRegion_sys k ⟨s₁, insert pd k.sys.live⟩ mapped,
              Kernel.taskCreateUser_sys, failed, if_true] at spawned
            exact success (Kernel.abandonSpawn_pid spawned)
          exact ⟨pd, pt, m, r, rfl, ⟨exact'.ok_iff.mp ⟨_, load⟩, loaded.1, refused, r', room, stack⟩, created⟩

end Spawn

/-- What the process in `slot` reads. -/
def processByte (k : Kernel) (slot a : Nat) : Option Byte :=
  userByte (k.sys.machine.pagingSwitch (k.tasks slot).cr3) a

/-- Other contents in the frames that are free. -/
def Machine.refilled (s : Machine) (fill : Nat → Nat → Word) : Machine :=
  { s with mem := fun f => if f < frameCount ∧ s.mm.bitmap f = false then fill f else s.mem f }

def Kernel.refilled (k : Kernel) (fill : Nat → Nat → Word) : Kernel :=
  k.withSys ⟨k.sys.machine.refilled fill, k.sys.live⟩

theorem refilled_used {s : Machine} (fill : Nat → Nat → Word) {f : Nat}
    (used : f < frameCount → s.mm.bitmap f = true) :
    (s.refilled fill).mem f = s.mem f := by
  apply if_neg
  rintro ⟨bounded, free⟩
  rw [used bounded] at free
  cases free

theorem ready_refilled {s : Machine} {live : Finset Nat} (ready : Ready (fun _ => True) s live)
    (fill : Nat → Nat → Word) : Ready (fun _ => True) (s.refilled fill) live := by
  have inv := ready.spaces
  have reserved : ∀ f, Reserved f → (s.refilled fill).mem f = s.mem f := fun f reserved =>
    refilled_used fill fun bounded => (inv.used f bounded).mpr (.inl reserved)
  have tables : ∀ a ∈ live, ∀ f, f = a ∨ f = tableOf s a → (s.refilled fill).mem f = s.mem f :=
    fun a member f table =>
    refilled_used fill fun bounded => (inv.used f bounded).mpr (.inr (.inl ⟨a, member, table⟩))
  have spaces : AddrSpaces (s.refilled fill) live :=
    inv.frame_congr rfl ⟨reserved kernelPd (by decide), reserved kernelPt (by decide)⟩ fun a member =>
      ⟨tables a member a (.inl rfl), tables a member _ (.inr rfl)⟩
  exact ⟨spaces, ready.loaded, ready.kernel, fun _ _ => ⟨trivial, trivial⟩⟩

theorem allocTables_mem (s : Machine) (mem : Nat → Nat → Word) :
    allocTables { s with mem := mem } =
      ((allocTables s).1, { (allocTables s).2 with mem := mem }) := by
  unfold allocTables Machine.frameAlloc
  rcases s.mm.frameAlloc with ⟨first, mm₁⟩
  rcases second : mm₁.frameAlloc with ⟨second', mm₂⟩
  cases first with
  | none => cases second' <;> simp only [second] <;> rfl
  | some pd =>
    cases second' <;> simp only [second]
    rfl

section Views

variable {k k₁ : Kernel} {img : Nat → Byte} {size pid : Nat}

theorem spawn_views (ready : Ready (fun _ => True) k.sys.machine k.sys.live) {pd pt : Nat}
    {m : Machine} {r : Room}
    (allocated : allocTables k.sys.machine = (some (pd, pt), m))
    (spawnable : Spawnable img size m r)
    (created : (k.taskCreateUser (elf32Hdr img).entry pd).1 ≠ 0) :
    ∃ k₁ s', k.userSpawn physical img size =
      .ok ((k.taskCreateUser (elf32Hdr img).entry pd).1, k₁) ∧
      k₁.tasks = (k.taskCreateUser (elf32Hdr img).entry pd).2.tasks ∧
      Loading (fun _ => True) (insert pd k.sys.live) pd s' r ∧ Shows pd k.sys.machine (imageBytes img) s' ∧
      ∀ slot, (k₁.tasks slot).cr3 = pd → ∀ a < 2 ^ 32, processByte k₁ slot a = seen s' pd a := by
  obtain ⟨s', loading, shows', call⟩ := userSpawn_eq ready allocated spawnable
  refine ⟨_, s', call created, rfl, loading, shows', fun slot space a word => ?_⟩
  rw [← userByte_seen loading word, processByte, space]
  apply userByte_congr
  · rfl
  · exact loading.loaded.symm

theorem refilled_views (ready : Ready (fun _ => True) k.sys.machine k.sys.live) {pd pt : Nat}
    {m : Machine} {r : Room}
    (allocated : allocTables k.sys.machine = (some (pd, pt), m))
    (spawnable : Spawnable img size m r)
    (created : (k.taskCreateUser (elf32Hdr img).entry pd).1 ≠ 0) (fill : Nat → Nat → Word) :
    ∃ k₂ s₂, (k.refilled fill).userSpawn physical img size =
        .ok ((k.taskCreateUser (elf32Hdr img).entry pd).1, k₂) ∧
      k₂.tasks = (k.taskCreateUser (elf32Hdr img).entry pd).2.tasks ∧
      Loading (fun _ => True) (insert pd k.sys.live) pd s₂ r ∧
      Shows pd (k.sys.machine.refilled fill) (imageBytes img) s₂ ∧
      ∀ slot, (k₂.tasks slot).cr3 = pd → ∀ a < 2 ^ 32, processByte k₂ slot a = seen s₂ pd a := by
  have task := Kernel.taskCreateUser_sys k ⟨k.sys.machine.refilled fill, k.sys.live⟩
    (elf32Hdr img).entry pd
  have allocated' : allocTables (k.sys.machine.refilled fill) = (some (pd, pt), { m with
      mem := (k.sys.machine.refilled fill).mem }) := by
    have same := allocTables_mem k.sys.machine (k.sys.machine.refilled fill).mem
    rw [allocated] at same
    exact same
  have spawnable' : Spawnable img size { m with mem := (k.sys.machine.refilled fill).mem } r :=
    ⟨spawnable.fits, spawnable.header, spawnable.entry, spawnable.room⟩
  obtain ⟨k₂, s₂, call, tasks, loading, shows', views⟩ := spawn_views (k := k.refilled fill)
    (ready_refilled ready fill) allocated' spawnable' (by rw [Kernel.refilled, task]; exact created)
  rw [Kernel.refilled, task] at call tasks
  exact ⟨k₂, s₂, call, tasks, loading, shows', views⟩

theorem spawnable_pages {m : Machine} {r : Room} (spawnable : Spawnable img size m r) (p : Nat) :
    InUserWindow p ∧ r.mapped p = true ↔
      p ∈ stackPages ∨ ∃ i, IsLoad img i ∧ p ∈ segmentPages (segment img i) := by
  obtain ⟨fits, header, -, r', room, stack⟩ := spawnable
  have last : r.mapped p = true ↔ r'.mapped p = true ∨ p ∈ stackPages := by
    rw [map_pages stack, stackPages]
    simp
  have segments := segmentsRoom_pages (elf32Hdr img).phnum 0 room p
  have loads : (∃ j, 0 ≤ j ∧ j < 0 + (elf32Hdr img).phnum ∧
      (elf32Phdr img ((elf32Hdr img).phoff + j * sizeofPhdr)).type = 1 ∧
        p ∈ segmentPages (elf32Phdr img ((elf32Hdr img).phoff + j * sizeofPhdr))) ↔
      ∃ i, IsLoad img i ∧ p ∈ segmentPages (segment img i) := by
    simp only [Nat.zero_le, true_and, Nat.zero_add, IsLoad, segment, and_assoc]
  rw [last, segments, loads]
  constructor
  · rintro ⟨inside, (fresh | load) | top⟩
    · simp [freshRoom, inside] at fresh
    · exact .inr load
    · exact .inl top
  · rintro (top | ⟨i, load, member⟩)
    · exact ⟨stackPages_window top, .inr top⟩
    · have inside := segments_inside (elf32Hdr img).phnum 0 (fits header) room (Nat.zero_le i)
        (by simpa using load.1) load.2
      exact ⟨segmentPages_window inside member, .inl (.inr ⟨i, load, member⟩)⟩

theorem imageBytes_none (a : Nat) : imageBytes img a = none ↔
    ¬ ∃ i, IsLoad img i ∧ (segment img i).vaddr ≤ a ∧
      a < (segment img i).vaddr + segmentSize (segment img i) := by
  rw [imageBytes, segmentsBytes_none]
  simp only [Nat.zero_le, true_and, Nat.zero_add, IsLoad, segment, and_assoc]

theorem uncovered_view {k₂ : Kernel} {pd slot : Nat} {s₂ : Machine} {r : Room} {a : Nat}
    {live : Finset Nat} {fill : Nat → Nat → Word} {m : Machine} (spawnable : Spawnable img size m r)
    (loading : Loading (fun _ => True) live pd s₂ r)
    (shows' : Shows pd (k.sys.machine.refilled fill) (imageBytes img) s₂)
    (views : ∀ a < 2 ^ 32, processByte k₂ slot a = seen s₂ pd a)
    (touched : a / 0x1000 ∈ stackPages ∨ ∃ i, IsLoad img i ∧ a / 0x1000 ∈ segmentPages (segment img i))
    (uncovered : imageBytes img a = none) :
    ∃ f, processByte k₂ slot a = some (byteAt (fill f (a % 0x1000 / 4)) (a % 0x1000 % 4)) := by
  have mapped := (spawnable_pages spawnable _).mpr touched
  have inside := mapped.1
  simp only [InUserWindow, userPgStart, userPgEnd] at inside
  obtain ⟨f, bounded, free, shown⟩ :=
    shows'.old a uncovered ((seen_ne_none_iff loading a).mpr mapped)
  have filled : (k.sys.machine.refilled fill).mem f = fill f := if_pos ⟨bounded, free⟩
  refine ⟨f, ?_⟩
  rw [views a (by omega), shown, getByte, filled]

theorem covered_view (covered : Covered img) {pd : Nat} {live : Finset Nat}
    {s₀ s₁ s' s₂ m : Machine} {r : Room} (spawnable : Spawnable img size m r)
    (loading : Loading (fun _ => True) live pd s' r) (shows' : Shows pd s₀ (imageBytes img) s')
    (loading₂ : Loading (fun _ => True) live pd s₂ r) (shows₂ : Shows pd s₁ (imageBytes img) s₂)
    (a : Nat) :
    seen s₂ pd a = seen s' pd a := by
  by_cases touched : a / 0x1000 ∈ stackPages ∨ ∃ i, IsLoad img i ∧
    a / 0x1000 ∈ segmentPages (segment img i)
  · have stored : imageBytes img a ≠ none :=
      fun none' => imageBytes_none a |>.mp none' (covered a touched)
    obtain ⟨b, stored⟩ := Option.ne_none_iff_exists'.mp stored
    rw [shows₂.written a b stored, shows'.written a b stored]
  · have unmapped := mt (spawnable_pages spawnable (a / 0x1000)).mp touched
    rw [not_not.mp (mt (seen_ne_none_iff loading a).mp unmapped),
      not_not.mp (mt (seen_ne_none_iff loading₂ a).mp unmapped)]

/-- The new process sees the same whatever the free frames hold. -/
def Determined (k k₁ : Kernel) (img : Nat → Byte) (size : Nat) : Prop :=
  ∀ fill pid₂ k₂, (k.refilled fill).userSpawn physical img size = .ok (pid₂, k₂) → pid₂ ≠ 0 →
    ∀ slot, (k.tasks slot).ready = false → (k₁.tasks slot).ready = true →
      ∀ a < 2 ^ 32, processByte k₂ slot a = processByte k₁ slot a

-- An uncovered byte reads 0x00 or 0xFF with the free frames.
theorem covered_of_determined (ready : Ready (fun _ => True) k.sys.machine k.sys.live)
    (table : Table k) (spawned : k.userSpawn physical img size = .ok (pid, k₁)) (success : pid ≠ 0)
    (same : Determined k k₁ img size) : Covered img := by
  obtain ⟨pd, pt, m, r, allocated, spawnable, created⟩ := userSpawn_spawnable ready spawned success
  obtain ⟨k', s', call, tasks, loading, shows', views⟩ :=
    spawn_views ready allocated spawnable created
  obtain ⟨rfl, rfl⟩ := Prod.mk.inj (Except.ok.inj (spawned.symm.trans call))
  obtain ⟨slot, ⟨dead, alive⟩, space⟩ := Kernel.taskCreateUser_slot table created
  intro a touched
  by_contra uncovered
  have unstored := (imageBytes_none a).mpr uncovered
  have word : a < 2 ^ 32 := by
    have inside := ((spawnable_pages spawnable _).mpr touched).1
    simp only [InUserWindow, userPgStart, userPgEnd] at inside
    omega
  have byte : ∀ w : Word, processByte k₁ slot a = some (byteAt w (a % 0x1000 % 4)) := by
    intro w
    obtain ⟨k₂, s₂, call₂, tasks₂, loading₂, shows₂, views₂⟩ :=
      refilled_views ready allocated spawnable created fun _ _ => w
    have space₂ : (k₂.tasks slot).cr3 = pd := by
      rw [tasks₂]
      exact space slot dead alive
    obtain ⟨f, shown⟩ :=
      uncovered_view spawnable loading₂ shows₂ (views₂ slot space₂) touched unstored
    rw [← tasks] at alive
    rw [← same _ _ _ call₂ created slot dead alive a word, shown]
  have zeros := byte 0
  rw [byte 0xFFFFFFFF#32, Option.some.injEq] at zeros
  have low : a % 0x1000 % 4 < 4 := Nat.mod_lt _ (by decide)
  revert zeros
  generalize a % 0x1000 % 4 = i at low
  interval_cases i <;> decide

-- Every byte that is mapped is stored.
theorem determined_of_covered (ready : Ready (fun _ => True) k.sys.machine k.sys.live)
    (table : Table k) (spawned : k.userSpawn physical img size = .ok (pid, k₁)) (success : pid ≠ 0)
    (covered : Covered img) : Determined k k₁ img size := by
  intro fill pid₂ k₂ spawned₂ success₂ slot dead alive a word
  obtain ⟨pd, pt, m, r, allocated, spawnable, created⟩ := userSpawn_spawnable ready spawned success
  obtain ⟨k', s', call, tasks, loading, shows', views⟩ :=
    spawn_views ready allocated spawnable created
  obtain ⟨rfl, rfl⟩ := Prod.mk.inj (Except.ok.inj (spawned.symm.trans call))
  obtain ⟨k', s₂, call₂, tasks₂, loading₂, shows₂, views₂⟩ :=
    refilled_views ready allocated spawnable created fill
  obtain ⟨rfl, rfl⟩ := Prod.mk.inj (Except.ok.inj (spawned₂.symm.trans call₂))
  obtain ⟨-, -, space⟩ := Kernel.taskCreateUser_slot table created
  rw [tasks] at alive
  have space₁ : (k₁.tasks slot).cr3 = pd := by
    rw [tasks]
    exact space slot dead alive
  have space₂ : (k₂.tasks slot).cr3 = pd := by
    rw [tasks₂]
    exact space slot dead alive
  rw [views slot space₁ a word, views₂ slot space₂ a word]
  exact covered_view covered spawnable loading shows' loading₂ shows₂ a

end Views

structure OneSegment (img : Nat → Byte) (size : Nat) (ph : Elf32Phdr) : Prop where
  header : accepted img size = true
  entry : (elf32Hdr img).entry ≠ 0
  table : (elf32Hdr img).phoff + sizeofPhdr ≤ size
  count : (elf32Hdr img).phnum = 1
  segment : segment img 0 = ph
  load : ph.type = 1
  taken : rejected size ph = false
  inside : SegmentInside size ph
  some' : ph.memsz ≠ 0
  dir : ph.vaddr / 2 ^ 22 % 1024 = 0

section OneSegment

variable {img : Nat → Byte} {size : Nat} {ph : Elf32Phdr} (one : OneSegment img size ph)
include one

theorem OneSegment.header_eq :
    elf32Phdr img ((elf32Hdr img).phoff + 0 * sizeofPhdr) = ph := one.segment

theorem OneSegment.fits (r : Room) : ImageFits img size r := by
  intro _
  rw [one.count]
  simp only [SegmentsFit, one.header_eq, one.load, one.taken]
  refine ⟨by simpa using one.table, ?_⟩
  rw [if_neg (by decide), if_neg (by decide)]
  cases r.map ph.vaddr ph.memsz with
  | none => trivial
  | some r' =>
    refine ⟨⟨one.inside.file, one.inside.stop, fun v low high => ?_⟩, trivial⟩
    have sized := one.inside.sized
    omega

theorem OneSegment.spawnable {m : Machine}
    (free : (regionPages ph.vaddr ph.memsz).length + 2 ≤ freeCount m.mm.bitmap frameCount) :
    ∃ r, Spawnable img size m r := by
  have stack : regionPages (userStackTop - 0x2000) 0x2000 = [0x2EE, 0x2EF] := by decide
  have missing : (freshRoom m).missing (regionPages ph.vaddr ph.memsz) ≤
      (regionPages ph.vaddr ph.memsz).length :=
    List.countP_le_length
  have before : (regionPages ph.vaddr ph.memsz).length + 2 ≤ (freshRoom m).free := by
    simp only [freshRoom]
    exact free
  have loaded : (freshRoom m).map ph.vaddr ph.memsz =
      some ((freshRoom m).add (regionPages ph.vaddr ph.memsz)) := by
    rw [Room.map, if_neg one.some', if_neg (not_not.mpr one.dir), if_pos (by omega)]
  have room : 2 ≤ ((freshRoom m).add (regionPages ph.vaddr ph.memsz)).free := by
    simp only [Room.add]
    omega
  have topped : ((freshRoom m).add (regionPages ph.vaddr ph.memsz)).map (userStackTop - 0x2000) 0x2000 =
      some (((freshRoom m).add (regionPages ph.vaddr ph.memsz)).add [0x2EE, 0x2EF]) := by
    rw [Room.map, if_neg (by decide), if_neg (by decide), stack, if_pos]
    exact Nat.le_trans List.countP_le_length room
  refine ⟨_, one.fits _, one.header, one.entry, _, ?_, topped⟩
  rw [one.count]
  simp only [segmentsRoom, one.header_eq, one.load, one.taken]
  rw [if_neg (by decide), if_neg (by decide), loaded]
  rfl

theorem OneSegment.covered_iff : Covered img ↔
    ∀ a, a / 0x1000 ∈ stackPages ∨ a / 0x1000 ∈ segmentPages ph →
      ph.vaddr ≤ a ∧ a < ph.vaddr + segmentSize ph := by
  have only : ∀ q : Nat → Prop, (∃ i, IsLoad img i ∧ q i) ↔ q 0 := by
    intro q
    constructor
    · rintro ⟨i, ⟨first, -⟩, holds⟩
      rw [one.count, Nat.lt_one_iff] at first
      rwa [first] at holds
    · intro holds
      refine ⟨0, ⟨?_, ?_⟩, holds⟩
      · rw [one.count]
        exact Nat.one_pos
      · rw [one.segment]
        exact one.load
  simp only [Covered, only, one.segment]

end OneSegment

theorem small_segment : OneSegment (elfImage 0x200000 0x200000 84 0x1000) 84 ⟨1, 0, 0x200000, 84, 0x1000⟩ where
  header := by decide
  entry := by decide
  table := by decide
  count := rfl
  segment := rfl
  load := rfl
  taken := by decide
  inside := ⟨by decide, by decide, by decide, by decide⟩
  some' := by decide
  dir := by decide

theorem stack_segment : OneSegment (elfImage 0x2EE000 0x2EE000 84 0x2000) 84 ⟨1, 0, 0x2EE000, 84, 0x2000⟩ where
  header := by decide
  entry := by decide
  table := by decide
  count := rfl
  segment := rfl
  load := rfl
  taken := by decide
  inside := ⟨by decide, by decide, by decide, by decide⟩
  some' := by decide
  dir := by decide

theorem unspawned_ready {image : BootImage} {s : System} (start : Unspawned image s) :
    Ready (fun _ => True) s.kernel.sys.machine s.kernel.sys.live := by
  rw [start.sys]
  exact ready_boot ⟨trivial, trivial⟩ image.mem

theorem OneSegment.spawned {image : BootImage} {s : System} (start : Unspawned image s)
    {img : Nat → Byte} {size : Nat}
    {ph : Elf32Phdr} (one : OneSegment img size ph)
    (small : (regionPages ph.vaddr ph.memsz).length ≤ 2) :
    ∃ pid k₁, s.kernel.userSpawn physical img size = .ok (pid, k₁) ∧ pid ≠ 0 := by
  have filled := filled_boot image.mem
  have free : 4 ≤ freeCount _ frameCount :=
    filled_free (filled_takeFrame (filled_takeFrame filled)) 4 (by decide) (by decide)
  have allocated : allocTables s.kernel.sys.machine =
      (some (0x130, 0x131), takeFrame (takeFrame (boot image.mem) 0x130) 0x131) := by
    rw [start.sys]
    exact filled_allocTables filled (by decide)
  obtain ⟨r, spawnable⟩ := one.spawnable (Nat.le_trans (Nat.add_le_add_right small 2) free)
  obtain ⟨h, -, call, -⟩ := taskCreateUser_first start.turns.table start.turns.ready start.owned
    (elf32Hdr img).entry 0x130
  have created : (s.kernel.taskCreateUser (elf32Hdr img).entry 0x130).1 ≠ 0 := by
    rw [call, start.pid]
    exact Nat.succ_ne_zero 3
  obtain ⟨k₁, -, spawned, -⟩ := spawn_views (unspawned_ready start) allocated spawnable created
  exact ⟨_, k₁, spawned, created⟩

section Determined

variable {k k₁ : Kernel} {img : Nat → Byte} {size pid : Nat}

/-- A new process sees nothing of what the free frames held exactly when the segments of its image cover
every byte of their pages and of the stack. -/
theorem spawn_determined_iff (ready : Ready (fun _ => True) k.sys.machine k.sys.live)
    (table : Table k) (spawned : k.userSpawn physical img size = .ok (pid, k₁))
    (success : pid ≠ 0) :
    Determined k k₁ img size ↔ Covered img := by
  constructor
  · exact covered_of_determined ready table spawned success
  · exact determined_of_covered ready table spawned success

end Determined

theorem spawn_determined_stack : ∃ pid k₁, (enabledSystem zeroImage).kernel.userSpawn physical
    (elfImage 0x2EE000 0x2EE000 84 0x2000) 84 = .ok (pid, k₁) ∧
      Determined (enabledSystem zeroImage).kernel k₁ (elfImage 0x2EE000 0x2EE000 84 0x2000) 84 := by
  have start := enabled_unspawned zeroImage
  obtain ⟨pid, k₁, spawned, success⟩ := stack_segment.spawned start (by decide)
  refine ⟨pid, k₁, spawned,
    (spawn_determined_iff (unspawned_ready start) start.turns.table spawned success).mpr ?_⟩
  rw [stack_segment.covered_iff]
  intro a touched
  have stack : stackPages = [0x2EE, 0x2EF] := by decide
  have segment : segmentPages ⟨1, 0, 0x2EE000, 84, 0x2000⟩ = [0x2EE, 0x2EF] := by decide
  have stored : segmentSize ⟨1, 0, 0x2EE000, 84, 0x2000⟩ = 0x2000 := by decide
  rw [stack, segment, or_self, List.mem_pair] at touched
  simp only [stored]
  omega

/-- The stack of the first process after the boot shows what its frames held. -/
theorem spawn_undetermined : ¬ ∀ (image : BootImage) (events : List KernelEvent) (t : System),
    Run (KernelStep physical) (bootSystem image) events t →
      ∀ (img : Nat → Byte) (size pid : Nat) (k₁ : Kernel),
      t.kernel.userSpawn physical img size = .ok (pid, k₁) → pid ≠ 0 →
        Determined t.kernel k₁ img size := by
  intro all
  have start := enabled_unspawned zeroImage
  obtain ⟨pid, k₁, spawned, success⟩ := small_segment.spawned start (by decide)
  have same := all zeroImage _ _
    (Run.single (enabled_step physical zeroImage)) _ _ _ _ spawned success
  have covered :=
    covered_of_determined (unspawned_ready start) start.turns.table spawned success same
  rw [small_segment.covered_iff] at covered
  exact absurd (covered 0x2EF000 (.inl (by decide))) (by decide)

end NovaKernel

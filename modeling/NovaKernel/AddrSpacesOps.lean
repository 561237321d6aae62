import NovaKernel.AddrSpacesPages

set_option autoImplicit false

namespace NovaKernel

open Machine Mm

structure Ready (within : Nat → Prop) (s : Machine) (live : Finset Nat) : Prop where
  spaces : AddrSpaces s live
  loaded : Loaded s live
  kernel : within kernelPd ∧ within kernelPt
  tables : ∀ pd ∈ live, within pd ∧ within (tableOf s pd)

theorem ready_boot {within : Nat → Prop} (kernel : within kernelPd ∧ within kernelPt)
    (mem : Nat → Nat → Word) : Ready within (boot mem) ∅ where
  spaces := addrSpaces_boot mem
  loaded := .inr (boot_mm mem).2.1
  kernel := kernel
  tables _ member := absurd member (Finset.notMem_empty _)

theorem loaded_within {within : Nat → Prop} {s : Machine} {live : Finset Nat}
    (ready : Ready within s live) : within s.cr3 ∧ within (tableOf s s.cr3) := by
  rcases ready.loaded with member | kernel
  · exact ready.tables _ member
  · rw [kernel, ready.spaces.tableOf_kernelPd]
    exact ready.kernel

theorem fresh_loaded {s : Machine} {live : Finset Nat} (inv : AddrSpaces s live)
    (loaded : Loaded s live) {f : Nat} (bounded : f < frameCount) (free : s.mm.bitmap f = false) :
    f ≠ s.cr3 ∧ f ≠ tableOf s s.cr3 := by
  obtain ⟨handed, -, fresh⟩ := inv.fresh bounded free
  rcases loaded with member | kernel
  · exact fresh _ member
  · rw [kernel, inv.tableOf_kernelPd]
    exact allocatable_ne_kernel handed

theorem table_ne_loaded {s : Machine} {live : Finset Nat} (inv : AddrSpaces s live)
    (loaded : Loaded s live) {pd : Nat} (member : pd ∈ live) : tableOf s pd ≠ s.cr3 := by
  rcases loaded with current | kernel
  · exact Ne.symm (inv.distinct _ current pd member).1
  · rw [kernel]
    exact (allocatable_ne_kernel (inv.tables pd member).2).1

section Calls

variable {acc : Access} {within : Nat → Prop} (reaches : Reaches acc within)
  {s : Machine} {live : Finset Nat} (ready : Ready within s live)
include reaches ready

omit reaches ready in
theorem create_full {s₁ : Machine} (full : allocTables s = (none, s₁)) :
    pagingCreateAddrSpace acc s = some (none, s) := by
  rw [pagingCreateAddrSpace, full, allocTables_none full]

theorem create_ok {pd pt : Nat} {s₁ : Machine} (allocated : allocTables s = (some (pd, pt), s₁))
    (inside : within pd ∧ within pt) :
    pagingCreateAddrSpace acc s = some (some pd, createdSpace s pd pt) := by
  obtain ⟨-, pdBounded, ptBounded, -, pdFree, ptFree⟩ := allocTables_some allocated
  have handed := (ready.spaces.fresh ptBounded ptFree).1
  exact create_eq reaches (ready.spaces.lowIdentity ready.loaded) allocated inside.1 inside.2
    ready.kernel (fresh_loaded ready.spaces ready.loaded pdBounded pdFree)
    (fresh_loaded ready.spaces ready.loaded ptBounded ptFree) (allocatable_ne_kernel handed).1

theorem fork_full {parent : Nat} {s₁ : Machine} (member : parent ∈ live)
    (full : allocTables s = (none, s₁)) : pagingForkAddrSpace acc s parent = some (none, s) :=
  fork_none reaches (ready.spaces.lowIdentity ready.loaded) full (ready.tables parent member).1

theorem fork_ok {parent pd pt : Nat} {s₁ : Machine} (member : parent ∈ live)
    (allocated : allocTables s = (some (pd, pt), s₁)) (inside : within pd ∧ within pt) :
    pagingForkAddrSpace acc s parent = some (some pd, forkedSpace s parent pd pt) := by
  obtain ⟨-, pdBounded, ptBounded, -, pdFree, ptFree⟩ := allocTables_some allocated
  have inv := ready.spaces
  have present : hasFlag (s.mem parent 0) pteP = true := by
    rw [inv.tableOf_dir member, present_entry]
    decide
  refine fork_eq reaches (inv.lowIdentity ready.loaded) allocated present
    (ready.tables parent member) inside.1 inside.2
    ⟨table_ne_loaded inv ready.loaded member, Ne.symm (inv.distinct parent member parent member).1⟩
    ⟨(fresh_loaded inv ready.loaded pdBounded pdFree).1,
      (fresh_loaded inv ready.loaded pdBounded pdFree).2, (inv.fresh pdBounded pdFree).2.2 parent member⟩
    ⟨(fresh_loaded inv ready.loaded ptBounded ptFree).1,
      (fresh_loaded inv ready.loaded ptBounded ptFree).2, (inv.fresh ptBounded ptFree).2.2 parent member⟩
    (fun i inside mapped => allocatable_lt (inv.mapped_frame member inside mapped).1) ?_
  intro f
  have refs := inv.refs_lt f
  have one := inv.once parent member f
  omega

theorem destroy_ok {pd : Nat} (member : pd ∈ live) :
    pagingDestroyAddrSpace acc s pd = some (destroyedSpace s pd) := by
  have inv := ready.spaces
  have handed := inv.tables pd member
  have present : hasFlag (s.mem pd 0) pteP = true := by
    rw [inv.tableOf_dir member, present_entry]
    decide
  refine destroy_eq reaches (inv.lowIdentity ready.loaded) (ready.tables pd member).1
    (ready.tables pd member).2 (allocatable_ne_kernel handed.1).1
    ⟨(allocatable_ne_kernel handed.2).2, (allocatable_ne_kernel handed.2).1⟩ present ?_ ?_
    (inv.mapCount_le_refs member)
  · intro d positive bounded
    rw [inv.dir pd member d bounded, if_neg (by omega)]
  · intro i inside mapped
    have frame := inv.mapped_frame member inside mapped
    exact ⟨allocatable_lt frame.1, frame.2.2⟩

omit reaches in
theorem mapUserPage_cases (idx : Nat) {pd : Nat} (member : pd ∈ live) :
    hasFlag (s.mem (tableOf s pd) idx) pteP = true ∧
      (∀ acc, Reaches acc within → mapUserPage acc s (tableOf s pd) idx = some (true, s)) ∨
    hasFlag (s.mem (tableOf s pd) idx) pteP = false ∧ (∃ s₁, s.frameAlloc = (none, s₁)) ∧
      (∀ acc, Reaches acc within → mapUserPage acc s (tableOf s pd) idx = some (false, s)) ∨
    hasFlag (s.mem (tableOf s pd) idx) pteP = false ∧ ∃ f s₁, s.frameAlloc = (some f, s₁) ∧
      ∀ acc, Reaches acc within →
        mapUserPage acc s (tableOf s pd) idx = some (true, mappedPage s (tableOf s pd) idx f) := by
  have low := ready.spaces.lowIdentity ready.loaded
  have inside := (ready.tables pd member).2
  by_cases mapped : hasFlag (s.mem (tableOf s pd) idx) pteP = true
  · exact .inl ⟨mapped, fun _ reaches => mapUserPage_present reaches low inside mapped⟩
  · have unmapped : hasFlag (s.mem (tableOf s pd) idx) pteP = false := by simpa using mapped
    rcases allocated : s.frameAlloc with ⟨_ | f, s₁⟩
    · exact .inr (.inl ⟨unmapped, ⟨s₁, rfl⟩,
        fun _ reaches => mapUserPage_full reaches low inside unmapped allocated⟩)
    · obtain ⟨-, bounded, free, -⟩ := machine_frameAlloc_some allocated
      exact .inr (.inr ⟨unmapped, f, s₁, rfl, fun _ reaches =>
        mapUserPage_fresh reaches low inside unmapped allocated (ready.spaces.fresh bounded free).2.1⟩)

end Calls

section Kept

variable {within : Nat → Prop} {s : Machine} {live : Finset Nat} (ready : Ready within s live)
include ready

theorem ready_created {pd pt : Nat} {s₁ : Machine}
    (allocated : allocTables s = (some (pd, pt), s₁)) (inside : within pd ∧ within pt) :
    Ready within (createdSpace s pd pt) (insert pd live) := by
  obtain ⟨spaces, table, -, tables⟩ := ready.spaces.created allocated
  refine ⟨spaces, ready.loaded.imp_left fun h => Finset.mem_insert_of_mem h, ready.kernel, ?_⟩
  intro a member
  rcases Finset.mem_insert.mp member with rfl | ha
  · rwa [table]
  · rw [tables a ha]
    exact ready.tables a ha

theorem ready_forked {parent pd pt : Nat} {s₁ : Machine} (live' : parent ∈ live)
    (allocated : allocTables s = (some (pd, pt), s₁)) (inside : within pd ∧ within pt) :
    Ready within (forkedSpace s parent pd pt) (insert pd live) := by
  obtain ⟨spaces, table, -, tables⟩ := ready.spaces.forked allocated live'
  refine ⟨spaces, ready.loaded.imp_left fun h => Finset.mem_insert_of_mem h, ready.kernel, ?_⟩
  intro a member
  rcases Finset.mem_insert.mp member with rfl | ha
  · rwa [table]
  · rw [tables a ha]
    exact ready.tables a ha

theorem ready_destroyed {pd : Nat} (member : pd ∈ live) (other : pd ≠ s.cr3) :
    Ready within (destroyedSpace s pd) (live.erase pd) where
  spaces := ready.spaces.destroyed member
  loaded := ready.loaded.imp_left fun h => Finset.mem_erase.mpr ⟨Ne.symm other, h⟩
  kernel := ready.kernel
  tables a ha := ready.tables a (Finset.mem_of_mem_erase ha)

theorem ready_mapped {pd idx f : Nat} {s₁ : Machine} (member : pd ∈ live)
    (inside : InUserWindow idx) (unmapped : hasFlag (s.mem (tableOf s pd) idx) pteP = false)
    (allocated : s.frameAlloc = (some f, s₁)) :
    Ready within (mappedPage s (tableOf s pd) idx f) live := by
  obtain ⟨spaces, tables⟩ := ready.spaces.mapped member inside unmapped allocated
  refine ⟨spaces, ready.loaded, ready.kernel, fun a ha => ?_⟩
  rw [tables a ha]
  exact ready.tables a ha

theorem ready_copied {pd idx nf v : Nat} {s₁ : Machine} (member : pd ∈ live)
    (inside : InUserWindow idx) (present : hasFlag (s.mem (tableOf s pd) idx) pteP = true)
    (readOnly : hasFlag (s.mem (tableOf s pd) idx) pteW = false)
    (allocated : s.frameAlloc = (some nf, s₁)) :
    Ready within
      (copiedPage s (tableOf s pd) idx (frameOf (s.mem (tableOf s pd) idx)) nf v) live := by
  obtain ⟨spaces, tables⟩ := ready.spaces.copied (v := v) member inside present readOnly allocated
  refine ⟨spaces, ready.loaded, ready.kernel, fun a ha => ?_⟩
  rw [tables a ha]
  exact ready.tables a ha

theorem ready_switched (cr3 : Nat) (loaded : cr3 ∈ live ∨ cr3 = kernelPd) :
    Ready within (s.pagingSwitch cr3) live where
  spaces := ready.spaces.frame_congr rfl ⟨rfl, rfl⟩ fun _ _ => ⟨rfl, rfl⟩
  loaded := loaded
  kernel := ready.kernel
  tables := ready.tables

end Kept

def CowPage (s : Machine) (live : Finset Nat) (v : Nat) : Prop :=
  s.cr3 ∈ live ∧ InUserWindow v ∧ hasFlag (s.mem (tableOf s s.cr3) v) pteP = true ∧
    hasFlag (s.mem (tableOf s s.cr3) v) pteW = false

theorem walk_cowPage {s : Machine} {live : Finset Nat} (inv : AddrSpaces s live) {v : Nat}
    (page : CowPage s live v) :
    s.walk v = some { frame := frameOf (s.mem (tableOf s s.cr3) v), writable := false, user := true } := by
  obtain ⟨member, inside, present, readOnly⟩ := page
  have first : v < 1024 := Nat.lt_trans inside.2 (by decide)
  have loaded := inv.loadedTable (.inl member)
  rw [walk_eq loaded.1 loaded.2 first, translationOf, if_pos present, readOnly]
  rcases (windowEntry_frame (inv.window _ member v inside) present).2 with ⟨-, writable⟩ | ⟨shape, -⟩
  · exact absurd (readOnly.symm.trans writable) (by simp)
  · have user : hasFlag (s.mem (tableOf s s.cr3) v) pteU = true := by
      rw [shape, user_entry]
      decide
    rw [user]

theorem cowFault_cases {within : Nat → Prop} {s : Machine} {live : Finset Nat}
    (ready : Ready within s live) {cr2 : Nat} (err : Word) (bounded : cr2 < 2 ^ 32)
    (inside : ∀ t, s.walk (cr2 / 2 ^ 12) = some t → t.writable = false →
      within t.frame ∧ ∀ f s₁, s.frameAlloc = (some f, s₁) → within f) :
    (∀ acc, Reaches acc within → pagingCowFault acc s cr2 err = some (false, s)) ∨
    CowPage s live (cr2 / 2 ^ 12) ∧ ∃ nf s₁, s.frameAlloc = (some nf, s₁) ∧
      ∀ acc, Reaches acc within →
        pagingCowFault acc s cr2 err = some (true, copiedPage s (tableOf s s.cr3) (cr2 / 2 ^ 12)
          (frameOf (s.mem (tableOf s s.cr3) (cr2 / 2 ^ 12))) nf (cr2 / 2 ^ 12)) := by
  have inv := ready.spaces
  have low := inv.lowIdentity ready.loaded
  have reachable := loaded_within ready
  by_cases fromUser : hasFlag err pteU = true
  case neg => exact .inl fun acc _ => by simp [pagingCowFault, fromUser]
  by_cases onWrite : hasFlag err pteW = true
  case neg => exact .inl fun acc _ => by simp [pagingCowFault, fromUser, onWrite]
  by_cases first : cr2 / 2 ^ 22 % 1024 = 0
  case neg =>
    -- Only directory entry 0 is present.
    have zero : s.mem s.cr3 (cr2 / 2 ^ 22 % 1024) = 0#32 := by
      have index : cr2 / 2 ^ 22 % 1024 < 1024 := Nat.mod_lt _ (by decide)
      rcases ready.loaded with member | kernel
      · rw [inv.dir _ member _ index, if_neg first]
        rfl
      · rw [kernel, inv.kernelDir _ index, if_neg first]
        rfl
    refine .inl fun acc reaches => ?_
    have dirRead := load_eq reaches low reachable.1 (cr2 / 2 ^ 22 % 1024)
    rw [zero] at dirRead
    simp only [pagingCowFault, fromUser, onWrite, dirRead, hasFlag_zero, Bool.not_true,
      Bool.not_false, Bool.false_eq_true, if_false, if_true, Option.bind_eq_bind, Option.bind_some,
      Option.pure_def]
  have page : cr2 / 2 ^ 12 < 1024 := by omega
  have index : cr2 / 2 ^ 12 % 1024 = cr2 / 2 ^ 12 := Nat.mod_eq_of_lt page
  have pde := (inv.loadedTable ready.loaded).1
  have dirPresent : hasFlag (s.mem s.cr3 0) pteP = true := by
    rw [pde, present_entry]
    decide
  have dirRead := fun acc (reaches : Reaches acc within) => load_eq reaches low reachable.1 0
  have tableRead := fun acc (reaches : Reaches acc within) =>
    load_eq reaches low reachable.2 (cr2 / 2 ^ 12)
  by_cases present : hasFlag (s.mem (tableOf s s.cr3) (cr2 / 2 ^ 12)) pteP = true
  case neg =>
    have absent : hasFlag (s.mem (tableOf s s.cr3) (cr2 / 2 ^ 12)) pteP = false := by
      simpa using present
    simp only [tableOf] at tableRead absent
    refine .inl fun acc reaches => ?_
    simp only [pagingCowFault, fromUser, onWrite, first, index, dirRead acc reaches, dirPresent,
      tableRead acc reaches, absent, Bool.not_true, Bool.not_false, Bool.false_eq_true, if_false,
      if_true, Option.bind_eq_bind, Option.bind_some, Option.pure_def]
  by_cases writable : hasFlag (s.mem (tableOf s s.cr3) (cr2 / 2 ^ 12)) pteW = true
  case pos =>
    simp only [tableOf] at tableRead present writable
    refine .inl fun acc reaches => ?_
    simp only [pagingCowFault, fromUser, onWrite, first, index, dirRead acc reaches, dirPresent,
      tableRead acc reaches, present, writable, Bool.not_true, Bool.false_eq_true, if_false,
      if_true, Option.bind_eq_bind, Option.bind_some, Option.pure_def]
  have readOnly : hasFlag (s.mem (tableOf s s.cr3) (cr2 / 2 ^ 12)) pteW = false := by
    simpa using writable
  have window : InUserWindow (cr2 / 2 ^ 12) := by
    by_contra below
    rw [inv.outside_identity ready.loaded page below, writable_entry] at readOnly
    exact absurd readOnly (by decide)
  have member : s.cr3 ∈ live := by
    rcases ready.loaded with member | kernel
    · exact member
    · have zero : s.mem (tableOf s s.cr3) (cr2 / 2 ^ 12) = 0#32 := by
        rw [kernel, inv.tableOf_kernelPd, inv.kernelTable _ page, if_pos window]
        rfl
      rw [zero, hasFlag_zero] at present
      exact absurd present (by simp)
  have cow : CowPage s live (cr2 / 2 ^ 12) := ⟨member, window, present, readOnly⟩
  obtain ⟨oldInside, newInside⟩ := inside _ (walk_cowPage inv cow) rfl
  rcases allocated : s.frameAlloc with ⟨_ | nf, s₁⟩
  · obtain ⟨rfl, -⟩ := machine_frameAlloc_none allocated
    simp only [tableOf] at tableRead present readOnly
    refine .inl fun acc reaches => ?_
    simp only [pagingCowFault, fromUser, onWrite, first, index, dirRead acc reaches, dirPresent,
      tableRead acc reaches, present, readOnly, allocated, Bool.not_true, Bool.false_eq_true,
      if_false, Option.bind_eq_bind, Option.bind_some, Option.pure_def]
  · obtain ⟨-, nfBounded, nfFree, -⟩ := machine_frameAlloc_some allocated
    refine .inr ⟨cow, nf, s₁, rfl, fun acc reaches => ?_⟩
    have copy := cowFault_copy reaches low cr2 fromUser onWrite reachable.1
      (by rwa [first]) (by rw [first]; exact reachable.2) (by rw [first, index]; exact present)
      (by rw [first, index]; exact readOnly) (by rw [first, index]; exact oldInside) allocated
      (newInside nf s₁ allocated) (fresh_loaded inv ready.loaded nfBounded nfFree)
    rw [first, index] at copy
    exact copy

end NovaKernel

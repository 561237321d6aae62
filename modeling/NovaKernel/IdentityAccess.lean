import NovaKernel.LowFrames

set_option autoImplicit false

namespace NovaKernel

open Machine Mm Transition

/-! Does the kernel reach every frame it names at the frame's own address? -/

/-- The call never faults, and it makes no difference to it when every pointer that is not
mapped to itself outside the user window faults. -/
def IdentityMapped {α : Type} (call : Access → Option α) : Prop :=
  (call identityOnly).isSome ∧ call identityOnly = call translated

def KernelIdentity (s : Sys) : Event → Prop
  | .create _ => IdentityMapped fun acc => pagingCreateAddrSpace acc s.machine
  | .mapRegion cr3 vaddr nbytes _ =>
    IdentityMapped fun acc => pagingMapUserRegion acc s.machine cr3 vaddr nbytes
  | .fork parent _ => IdentityMapped fun acc => pagingForkAddrSpace acc s.machine parent
  | .destroy cr3 => IdentityMapped fun acc => pagingDestroyAddrSpace acc s.machine cr3
  | .cowFault cr2 err _ => IdentityMapped fun acc => pagingCowFault acc s.machine cr2 err
  | .write v off _ => IdentityMapped fun acc => pagingCowFault acc s.machine (v * 0x1000 + off) 7
  | _ => True

def Called (s : Sys) : Event → Prop
  | .mapRegion cr3 vaddr nbytes _ =>
    cr3 ∈ s.live ∧ userPgStart * 0x1000 ≤ vaddr ∧ vaddr + nbytes ≤ userPgEnd * 0x1000
  | .fork parent _ => parent ∈ s.live
  | .destroy cr3 => cr3 ∈ s.live
  | .cowFault cr2 _ _ => cr2 < 2 ^ 32
  | .write v off _ => v < 2 ^ 20 ∧ off < 0x1000
  | _ => True

theorem identityMapped_of {α : Type} (call : Access → Option α) {value : α}
    (returns : ∀ acc, Reaches acc (· < userPgStart) → call acc = some value) :
    IdentityMapped call := by
  have identity := returns identityOnly identityOnly_faithful.reaches
  have ordinary := returns translated translated_faithful.reaches
  exact ⟨by rw [identity]; rfl, identity.trans ordinary.symm⟩

theorem cowFault_identity {s : Machine} {live : Finset Nat} (ready : Ready (· < userPgStart) s live)
    {cr2 : Nat} (err : Word) (bounded : cr2 < 2 ^ 32) (low : LowCopy s (cr2 / 2 ^ 12)) :
    IdentityMapped fun acc => pagingCowFault acc s cr2 err := by
  have inside : ∀ t, s.walk (cr2 / 2 ^ 12) = some t → t.writable = false →
      t.frame < userPgStart ∧ ∀ f s₁, s.frameAlloc = (some f, s₁) → f < userPgStart :=
    fun t found readOnly => ⟨(low t found readOnly).1,
      fun _ _ allocated => lowFree_frameAlloc (low t found readOnly).2 allocated⟩
  rcases cowFault_cases ready err bounded inside with same | ⟨-, nf, s₁, -, copied⟩
  · exact identityMapped_of _ same
  · exact identityMapped_of _ copied

theorem mapRegion_identity {s : Machine} {live : Finset Nat}
    (ready : Ready (· < userPgStart) s live) {pd vaddr nbytes : Nat} (member : pd ∈ live)
    (start : userPgStart * 0x1000 ≤ vaddr) (stop : vaddr + nbytes ≤ userPgEnd * 0x1000) :
    IdentityMapped fun acc => pagingMapUserRegion acc s pd vaddr nbytes := by
  by_cases empty : nbytes = 0
  · exact identityMapped_of _ fun acc _ => by rw [pagingMapUserRegion, if_pos empty]
  · obtain ⟨ok, s', run, -⟩ := mapUserPages_spec member (regionPages vaddr nbytes)
      (regionPages_window start stop empty) s ready
    exact identityMapped_of _ fun acc reaches =>
      (mapRegion_pages reaches ready member start stop empty).trans (run acc reaches)

/-- In every run that meets the condition, each call reaches all its frames at their own address. -/
theorem kernel_identity {mem : Nat → Nat → Word} {events : List Event} {t : Sys} (event : Event)
    (run : LowRun mem events t) (called : Called t event) (low : LowFrames t event) :
    KernelIdentity t event := by
  have ready := (lowRun_refines run).1.ready
  cases event with
  | create =>
    rcases allocated : allocTables t.machine with ⟨_ | ⟨pd, pt⟩, m⟩
    · exact identityMapped_of (fun acc => pagingCreateAddrSpace acc t.machine)
        fun acc _ => create_full allocated
    · exact identityMapped_of (fun acc => pagingCreateAddrSpace acc t.machine)
        fun acc reaches => create_ok reaches ready allocated (lowFree_allocTables low allocated)
  | mapRegion => exact mapRegion_identity ready called.1 called.2.1 called.2.2
  | fork parent =>
    rcases allocated : allocTables t.machine with ⟨_ | ⟨pd, pt⟩, m⟩
    · exact identityMapped_of (fun acc => pagingForkAddrSpace acc t.machine parent)
        fun acc reaches => fork_full reaches ready called allocated
    · exact identityMapped_of (fun acc => pagingForkAddrSpace acc t.machine parent)
        fun acc reaches =>
          fork_ok reaches ready called allocated (lowFree_allocTables low allocated)
  | destroy cr3 =>
    exact identityMapped_of (fun acc => pagingDestroyAddrSpace acc t.machine cr3)
      fun acc reaches => destroy_ok reaches ready called
  | cowFault => exact cowFault_identity ready _ called low
  | write v off =>
    exact cowFault_identity ready 7 (address_bounded called.1 called.2)
      (by rwa [page_of_address called.2])
  | switch => trivial
  | cacheFill => trivial
  | read => trivial

theorem lowReady_boot : Ready (· < userPgStart) (boot fun _ _ => 0) ∅ :=
  ready_boot ⟨by decide, by decide⟩ _

theorem kernel_identity_fork :
    ∃ t, LowRun (fun _ _ => 0) [.create (some 0x130), .switch 0x130] t ∧
      KernelIdentity t (.fork 0x130 (some 0x132)) := by
  have filled := filled_boot fun _ _ => 0
  obtain ⟨created, -⟩ := create_next translated_faithful.reaches lowReady_boot filled (by decide)
    ⟨by decide, by decide⟩
  have member : 0x130 ∈ insert 0x130 (∅ : Finset Nat) := Finset.mem_insert_self _ _
  have low := (filled_lowFree filled (by decide)).1
  have low' := (filled_lowFree (filled_created filled) (by decide)).1
  have run : LowRun (fun _ _ => 0) [.create (some 0x130), .switch 0x130] _ :=
    (Run.single ⟨⟨by exact trivial, by exact trivial⟩, .switch (.inl member)⟩).cons
      ⟨⟨by exact trivial, low⟩, created⟩
  exact ⟨_, run, kernel_identity (.fork 0x130 (some 0x132)) run member low'⟩

/-! A program that fills the user window takes the low frames, and the next address space
gets its tables inside the window. -/

theorem mapUserPages_present {acc : Access} {within : Nat → Prop} (reaches : Reaches acc within)
    {s : Machine} (low : LowIdentity s) {pt : Nat} (inside : within pt) (pages : List Nat)
    (mapped : ∀ i ∈ pages, hasFlag (s.mem pt i) pteP = true) :
    mapUserPages acc pt pages s = some (true, s) := by
  induction pages with
  | nil => rfl
  | cons i rest ih =>
    have step := mapUserPage_present reaches low inside (mapped i (by simp))
    simp only [mapUserPages, step, Option.bind_eq_bind, Option.bind_some, if_true]
    exact ih fun j hj => mapped j (by simp [hj])

theorem kernel_window_unmapped {s : Machine} {live : Finset Nat} (inv : AddrSpaces s live)
    (kernel : s.cr3 = kernelPd) {v : Nat} (inside : InUserWindow v) : s.walk v = none := by
  have first : v < 1024 := Nat.lt_trans inside.2 (by decide)
  obtain ⟨pde, bounded⟩ := inv.loadedTable (.inr kernel)
  rw [walk_eq pde bounded first, kernel, inv.tableOf_kernelPd, inv.kernelTable v first,
    if_pos inside]
  exact if_neg (by simp)

theorem create_faults {s : Machine} {live : Finset Nat} (inv : AddrSpaces s live)
    (kernel : s.cr3 = kernelPd) {pd pt : Nat} {s₁ : Machine}
    (allocated : allocTables s = (some (pd, pt), s₁)) (inside : InUserWindow pt) :
    pagingCreateAddrSpace translated s = none := by
  obtain ⟨rfl, -⟩ := allocTables_some allocated
  have unmapped : (takeFrame (takeFrame s pd) pt).walk pt = none :=
    (walk_congr rfl rfl rfl).trans (kernel_window_unmapped inv kernel inside)
  simp only [pagingCreateAddrSpace, allocated, copyPage, translated, unmapped, Option.bind_none,
    Option.bind_eq_bind]

/-- Spawning a program of 0xF0000 bytes leaves no low frame for the next spawn. -/
theorem kernel_identity_fails :
    ∃ t, Run (Guarded Unloaded (Step translated)) (bootSys fun _ _ => 0)
        [.create (some 0x130), .switch 0x130, .mapRegion 0x130 0x200000 0xF0000 true,
          .mapRegion 0x130 0x2EE000 0x2000 true, .switch kernelPd] t ∧
      Called t (.create none) ∧ ¬ KernelIdentity t (.create none) := by
  have filled := filled_boot fun _ _ => 0
  obtain ⟨created, ready⟩ :=
    create_next translated_faithful.reaches lowReady_boot filled (by decide)
    ⟨by decide, by decide⟩
  have filled₁ := filled_created filled
  generalize created_eq : createdSpace (boot fun _ _ => 0) 0x130 (0x130 + 1) = m₁ at *
  have member : 0x130 ∈ insert 0x130 (∅ : Finset Nat) := Finset.mem_insert_self _ _
  have spaces := lowReady_boot.spaces.created (filled_allocTables filled (by decide))
  have table : tableOf m₁ 0x130 = 0x131 := created_eq ▸ spaces.2.1
  have empty : ∀ j, InUserWindow j → m₁.mem 0x131 j = 0#32 := by
    intro j inside
    rw [← created_eq, createdSpace_table _ (by decide)]
    exact if_pos inside
  have ready₂ := ready_switched ready 0x130 (.inl member)
  obtain ⟨mapped, ready₃⟩ := mapRegion_next translated_faithful.reaches ready₂ (n := 0x132)
    (i := 0x200) (k := 0xF0) filled₁ (by decide) member (by decide) (by decide)
    (by decide) (by
      intro j low high
      have inside : InUserWindow j := ⟨low, Nat.lt_trans high (by decide)⟩
      change hasFlag (m₁.mem (tableOf m₁ 0x130) j) pteP = false
      rw [table, empty j inside]
      exact hasFlag_zero pteP)
  have table₂ : tableOf (m₁.pagingSwitch 0x130) 0x130 = 0x131 := table
  rw [table₂] at mapped ready₃
  have filled₃ := filled_mapFrom 0x131 0xF0 0x200
    (show Filled (m₁.pagingSwitch 0x130) 0x132 from filled₁)
  have entries := mapFrom_mem 0x131 0xF0 0x200 0x132 (m₁.pagingSwitch 0x130)
  generalize mapFrom 0x131 0xF0 0x200 0x132 (m₁.pagingSwitch 0x130) = m₃ at *
  have table₃ : tableOf m₃ 0x130 = 0x131 := by
    rw [tableOf, entries, if_neg (by decide)]
    exact table
  have stack : pagingMapUserRegion translated m₃ 0x130 0x2EE000 0x2000 = some (true, m₃) := by
    have pages : regionPages 0x2EE000 0x2000 = [0x2EE, 0x2EF] := by decide
    rw [mapRegion_pages translated_faithful.reaches ready₃ member (by decide) (by decide) (by decide),
      pages]
    apply mapUserPages_present translated_faithful.reaches
      (ready₃.spaces.lowIdentity ready₃.loaded) (ready₃.tables _ member).2
    intro i hi
    have range : 0x200 ≤ i ∧ i < 0x200 + 0xF0 := by
      simp only [List.mem_cons, List.not_mem_nil, or_false] at hi
      omega
    rw [table₃, entries, if_pos ⟨rfl, range⟩, present_entry]
    decide
  have allocated := filled_allocTables
    (show Filled (m₃.pagingSwitch kernelPd) 0x222 from filled₃) (by decide)
  have ready₅ := ready_switched ready₃ kernelPd (.inr rfl)
  have faults := create_faults ready₅.spaces rfl allocated (by decide)
  have loading : Step translated ⟨m₁, insert 0x130 ∅⟩ (.switch 0x130)
      ⟨m₁.pagingSwitch 0x130, insert 0x130 ∅⟩ := .switch (.inl member)
  have mapping : Step translated ⟨m₃, insert 0x130 ∅⟩ (.mapRegion 0x130 0x2EE000 0x2000 true)
      ⟨m₃, insert 0x130 ∅⟩ := .mapRegion member (by decide) (by decide) stack
  have returning : Step translated ⟨m₃, insert 0x130 ∅⟩ (.switch kernelPd)
      ⟨m₃.pagingSwitch kernelPd, insert 0x130 ∅⟩ := .switch (.inr rfl)
  have run : Run (Guarded Unloaded (Step translated)) (bootSys fun _ _ => 0) _ _ :=
    (Run.single ⟨by exact trivial, returning⟩)
    |>.cons ⟨by exact trivial, mapping⟩
    |>.cons ⟨by exact trivial, mapped⟩
    |>.cons ⟨by exact trivial, loading⟩
    |>.cons ⟨by exact trivial, created⟩
  refine ⟨_, run, trivial, fun identity => ?_⟩
  have succeeds := identity.1
  rw [identity.2] at succeeds
  simp only [faults] at succeeds
  exact absurd succeeds (by simp)

end NovaKernel

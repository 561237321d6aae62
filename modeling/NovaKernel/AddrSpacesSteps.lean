import NovaKernel.AddrSpaces

set_option autoImplicit false

namespace NovaKernel

open Machine Mm

theorem takeFrame_bitmap (s : Machine) (f g : Nat) :
    (takeFrame s f).mm.bitmap g = true ↔ g = f ∨ s.mm.bitmap g = true := by
  by_cases same : g = f <;> simp [takeFrame, same]

theorem sharedTable_window {t : Nat → Word} {i : Nat} (shape : WindowEntry (t i))
    (inside : InUserWindow i) :
    WindowEntry (sharedTable t i) ∧ hasFlag (sharedTable t i) pteW = false ∧
      hasFlag (sharedTable t i) pteP = hasFlag (t i) pteP ∧
      frameOf (sharedTable t i) = frameOf (t i) := by
  by_cases present : hasFlag (t i) pteP = true
  · obtain ⟨handed, shape⟩ := windowEntry_frame shape present
    have shared : sharedTable t i = entry (frameOf (t i)) 5 := by
      rw [sharedTable, if_pos ⟨inside, present⟩]
      rcases shape with ⟨same, _⟩ | ⟨same, _⟩
      · exact (congrArg (· &&& ~~~pteW) same).trans (entry_downgrade _ (by decide) (by decide))
      · exact (congrArg (· &&& ~~~pteW) same).trans (entry_downgrade _ (by decide) (by decide))
    refine ⟨.inr ⟨_, handed, .inr shared⟩, ?_, ?_, ?_⟩
    · rw [shared, writable_entry]
      decide
    · rw [shared, present_entry, present]
      decide
    · rw [shared]
      exact frameOf_entry (allocatable_lt handed) (by decide)
  · have same : sharedTable t i = t i := by
      rw [sharedTable, if_neg fun h => present h.2]
    rw [same]
    refine ⟨shape, ?_, rfl, rfl⟩
    by_contra writable
    exact present (windowEntry_writable shape (by simpa using writable))

theorem mapCount_sharedTable {t : Nat → Word} (shape : ∀ i, InUserWindow i → WindowEntry (t i))
    (f : Nat) : mapCount (sharedTable t) f = mapCount t f :=
  mapCount_congr f fun i inside => by
    obtain ⟨-, -, present, frame⟩ := sharedTable_window (shape i inside) inside
    rw [maps, maps, present, frame]

theorem createdSpace_kept (s : Machine) {pd pt g : Nat} (notDir : g ≠ pd) (notTable : g ≠ pt) :
    (createdSpace s pd pt).mem g = s.mem g := by
  rw [createdSpace, setFrame_mem_ne _ _ notDir, setFrame_mem_ne _ _ notTable]
  rfl

theorem createdSpace_table (s : Machine) {pd pt : Nat} (other : pd ≠ pt) :
    (createdSpace s pd pt).mem pt = emptyTable s := by
  rw [createdSpace, setFrame_mem_ne _ _ (Ne.symm other), setFrame_mem_self]

theorem forkedSpace_flushed {s : Machine} {parent : Nat} (loaded : parent = s.cr3) (pd pt : Nat) :
    (forkedSpace s parent pd pt).tlb = [] := if_pos loaded

theorem forkedSpace_mem (s : Machine) (parent pd pt : Nat) :
    (forkedSpace s parent pd pt).mem = ((((takeFrame (takeFrame s pd) pt).setFrame pt
      (sharedTable (s.mem (tableOf s parent)))).setFrame (tableOf s parent)
      (sharedTable (s.mem (tableOf s parent)))).setFrame pd
        (Function.update (s.mem parent) 0 (entry pt 7))).mem := rfl

theorem forkedSpace_kept (s : Machine) {parent pd pt g : Nat} (notDir : g ≠ pd) (notChild : g ≠ pt)
    (notTable : g ≠ tableOf s parent) : (forkedSpace s parent pd pt).mem g = s.mem g := by
  rw [forkedSpace_mem, setFrame_mem_ne _ _ notDir, setFrame_mem_ne _ _ notTable,
    setFrame_mem_ne _ _ notChild]
  rfl

theorem forkedSpace_child (s : Machine) (parent : Nat) {pd pt : Nat} (other : pd ≠ pt) :
    (forkedSpace s parent pd pt).mem pt = sharedTable (s.mem (tableOf s parent)) := by
  rw [forkedSpace_mem, setFrame_mem_ne _ _ (Ne.symm other), setFrame_mem]
  split
  · rfl
  · rw [setFrame_mem_self]

theorem forkedSpace_parent (s : Machine) {parent pd : Nat} (pt : Nat)
    (notDir : pd ≠ tableOf s parent) :
    (forkedSpace s parent pd pt).mem (tableOf s parent) =
      sharedTable (s.mem (tableOf s parent)) := by
  rw [forkedSpace_mem, setFrame_mem_ne _ _ (Ne.symm notDir), setFrame_mem_self]

namespace AddrSpaces

variable {s : Machine} {live : Finset Nat} (inv : AddrSpaces s live)
include inv

theorem insert_space {s' : Machine} {pd pt : Nat}
    (taken : pd < frameCount ∧ pt < frameCount ∧ pd ≠ pt ∧
      s.mm.bitmap pd = false ∧ s.mm.bitmap pt = false)
    (kernel : s'.mem kernelPd = s.mem kernelPd ∧ s'.mem kernelPt = s.mem kernelPt)
    (dirs : ∀ a ∈ live, s'.mem a = s.mem a)
    (newDir : ∀ d < 1024, s'.mem pd d = if d = 0 then entry pt 7 else 0)
    (outside : ∀ t, t = pt ∨ (∃ a ∈ live, t = tableOf s a) →
      ∀ i < 1024, ¬ InUserWindow i → s'.mem t i = entry i 3)
    (window : ∀ t, t = pt ∨ (∃ a ∈ live, t = tableOf s a) →
      ∀ i, InUserWindow i → WindowEntry (s'.mem t i))
    (counts : ∀ a ∈ live, ∀ f, mapCount (s'.mem (tableOf s a)) f = mapCount (s.mem (tableOf s a)) f)
    (once : ∀ f, mapCount (s'.mem pt) f ≤ 1)
    (shared : ∀ f, s.mm.frameRefs f = 0 → mapCount (s'.mem pt) f = 0)
    (refs : ∀ f, s'.mm.frameRefs f = s.mm.frameRefs f + mapCount (s'.mem pt) f)
    (owned : ∀ t, t = pt ∨ (∃ a ∈ live, t = tableOf s a) → ∀ i, InUserWindow i →
      hasFlag (s'.mem t i) pteW = true → s'.mm.frameRefs (frameOf (s'.mem t i)) = 1)
    (bitmap : ∀ f, s'.mm.bitmap f = true ↔ f = pd ∨ f = pt ∨ s.mm.bitmap f = true) :
    AddrSpaces s' (insert pd live) ∧ tableOf s' pd = pt ∧ pd ∉ live ∧
      ∀ a ∈ live, tableOf s' a = tableOf s a := by
  obtain ⟨pdBounded, ptBounded, other, pdFree, ptFree⟩ := taken
  obtain ⟨pdHanded, pdRefs, pdFresh⟩ := inv.fresh pdBounded pdFree
  obtain ⟨ptHanded, ptRefs, ptFresh⟩ := inv.fresh ptBounded ptFree
  have newTable : tableOf s' pd = pt := by
    rw [tableOf, newDir 0 (by decide), if_pos rfl]
    exact frameOf_entry ptBounded (by decide)
  have oldTable : ∀ a ∈ live, tableOf s' a = tableOf s a := fun a ha => by
    rw [tableOf, tableOf, dirs a ha]
  have notLive : pd ∉ live := fun member => (pdFresh pd member).1 rfl
  have table : ∀ a ∈ insert pd live, tableOf s' a = pt ∨
      ∃ b ∈ live, tableOf s' a = tableOf s b := by
    intro a member
    rcases Finset.mem_insert.mp member with rfl | ha
    · exact .inl newTable
    · exact .inr ⟨a, ha, oldTable a ha⟩
  refine ⟨?_, newTable, notLive, oldTable⟩
  constructor
  · rw [kernel.1]; exact inv.kernelDir
  · rw [kernel.2]; exact inv.kernelTable
  · intro a member
    rcases Finset.mem_insert.mp member with rfl | ha
    · rw [newTable]
      exact ⟨pdHanded, ptHanded⟩
    · rw [oldTable a ha]
      exact inv.tables a ha
  · intro a member
    rcases Finset.mem_insert.mp member with rfl | ha
    · rw [newTable]
      exact newDir
    · rw [oldTable a ha, dirs a ha]
      exact inv.dir a ha
  · exact fun a member => outside _ (table a member)
  · exact fun a member => window _ (table a member)
  · intro a ma b mb
    rcases Finset.mem_insert.mp ma with rfl | ha <;> rcases Finset.mem_insert.mp mb with rfl | hb
    · rw [newTable]
      exact ⟨other, fun _ => rfl⟩
    · rw [newTable, oldTable b hb]
      exact ⟨(pdFresh b hb).2, fun same => absurd same (ptFresh b hb).2⟩
    · rw [newTable, oldTable a ha]
      exact ⟨Ne.symm (ptFresh a ha).1, fun same => absurd same.symm (ptFresh a ha).2⟩
    · rw [oldTable a ha, oldTable b hb]
      exact inv.distinct a ha b hb
  · intro a member
    rcases Finset.mem_insert.mp member with rfl | ha
    · rw [newTable, refs, refs, pdRefs, ptRefs, shared _ pdRefs, shared _ ptRefs]
      exact ⟨rfl, rfl⟩
    · obtain ⟨dirRefs, tableRefs⟩ := inv.unshared a ha
      rw [oldTable a ha, refs, refs, dirRefs, tableRefs, shared _ dirRefs, shared _ tableRefs]
      exact ⟨rfl, rfl⟩
  · intro a member f
    rcases Finset.mem_insert.mp member with rfl | ha
    · rw [newTable]
      exact once f
    · rw [oldTable a ha, counts a ha]
      exact inv.once a ha f
  · intro f
    rw [Finset.sum_insert notLive, newTable, refs, inv.counted f, Nat.add_comm]
    congr 1
    exact Finset.sum_congr rfl fun a ha => by rw [oldTable a ha, counts a ha]
  · exact fun a member => owned _ (table a member)
  · intro f bounded
    have tables : IsTable s' (insert pd live) f ↔ f = pd ∨ f = pt ∨ IsTable s live f := by
      simp only [IsTable, Finset.mem_insert]
      constructor
      · rintro ⟨a, rfl | ha, holds⟩
        · rw [newTable] at holds
          tauto
        · rw [oldTable a ha] at holds
          exact .inr (.inr ⟨a, ha, holds⟩)
      · rintro (rfl | rfl | ⟨a, ha, holds⟩)
        · exact ⟨f, .inl rfl, .inl rfl⟩
        · exact ⟨pd, .inl rfl, .inr newTable.symm⟩
        · exact ⟨a, .inr ha, by rwa [oldTable a ha]⟩
    have held : 0 < s'.mm.frameRefs f ↔ 0 < s.mm.frameRefs f := by
      rw [refs]
      refine ⟨fun positive => ?_, fun positive => by omega⟩
      by_contra none
      have zero : s.mm.frameRefs f = 0 := by omega
      rw [shared f zero] at positive
      omega
    rw [bitmap, inv.used f bounded, tables, held]
    simp only [or_assoc, or_left_comm]

theorem created {pd pt : Nat} {s₁ : Machine} (allocated : allocTables s = (some (pd, pt), s₁)) :
    AddrSpaces (createdSpace s pd pt) (insert pd live) ∧ tableOf (createdSpace s pd pt) pd = pt ∧
      pd ∉ live ∧ ∀ a ∈ live, tableOf (createdSpace s pd pt) a = tableOf s a := by
  obtain ⟨-, pdBounded, ptBounded, other, pdFree, ptFree⟩ := allocTables_some allocated
  obtain ⟨pdHanded, -, pdFresh⟩ := inv.fresh pdBounded pdFree
  obtain ⟨ptHanded, -, ptFresh⟩ := inv.fresh ptBounded ptFree
  have kept : ∀ g, g ≠ pd → g ≠ pt → (createdSpace s pd pt).mem g = s.mem g :=
    fun g => createdSpace_kept s
  have newTable := createdSpace_table s other
  have oldTable : ∀ a ∈ live, (createdSpace s pd pt).mem (tableOf s a) = s.mem (tableOf s a) :=
    fun a ha => kept _ (Ne.symm (pdFresh a ha).2) (Ne.symm (ptFresh a ha).2)
  have empty : ∀ i, InUserWindow i → emptyTable s i = 0 := fun i hi => if_pos hi
  have none : ∀ f, mapCount (emptyTable s) f = 0 := by
    intro f
    apply List.countP_eq_zero.mpr
    intro i member
    simp [maps, empty i (mem_userPages.mp member)]
  apply inv.insert_space ⟨pdBounded, ptBounded, other, pdFree, ptFree⟩
  · have pdKernel := allocatable_ne_kernel pdHanded
    have ptKernel := allocatable_ne_kernel ptHanded
    exact ⟨kept _ (Ne.symm pdKernel.1) (Ne.symm ptKernel.1),
      kept _ (Ne.symm pdKernel.2) (Ne.symm ptKernel.2)⟩
  · exact fun a ha => kept a (Ne.symm (pdFresh a ha).1) (Ne.symm (ptFresh a ha).1)
  · intro d within
    rw [createdSpace, setFrame_mem_self]
    by_cases first : d = 0
    · simp [first]
    · simp [first, inv.kernelDir d within]
  · rintro t (rfl | ⟨a, ha, rfl⟩) i within below
    · rw [newTable, emptyTable, if_neg below, inv.kernelTable i within, if_neg below]
    · rw [oldTable a ha]
      exact inv.outside a ha i within below
  · rintro t (rfl | ⟨a, ha, rfl⟩) i inside
    · rw [newTable, empty i inside]
      exact .inl rfl
    · rw [oldTable a ha]
      exact inv.window a ha i inside
  · exact fun a ha f => by rw [oldTable a ha]
  · exact fun f => by rw [newTable, none]; exact Nat.zero_le _
  · exact fun f _ => by rw [newTable, none]
  · exact fun f => by rw [newTable, none]; rfl
  · rintro t (rfl | ⟨a, ha, rfl⟩) i inside writable
    · rw [newTable, empty i inside] at writable
      simp at writable
    · rw [oldTable a ha] at writable ⊢
      exact inv.owned a ha i inside writable
  · intro f
    change (takeFrame (takeFrame s pd) pt).mm.bitmap f = true ↔ _
    rw [takeFrame_bitmap, takeFrame_bitmap]
    exact or_left_comm

theorem forked {parent pd pt : Nat} {s₁ : Machine}
    (allocated : allocTables s = (some (pd, pt), s₁)) (member : parent ∈ live) :
    AddrSpaces (forkedSpace s parent pd pt) (insert pd live) ∧
      tableOf (forkedSpace s parent pd pt) pd = pt ∧ pd ∉ live ∧
      ∀ a ∈ live, tableOf (forkedSpace s parent pd pt) a = tableOf s a := by
  obtain ⟨-, pdBounded, ptBounded, other, pdFree, ptFree⟩ := allocTables_some allocated
  obtain ⟨pdHanded, -, pdFresh⟩ := inv.fresh pdBounded pdFree
  obtain ⟨ptHanded, -, ptFresh⟩ := inv.fresh ptBounded ptFree
  have kept : ∀ g, g ≠ pd → g ≠ pt → g ≠ tableOf s parent →
      (forkedSpace s parent pd pt).mem g = s.mem g := fun g => forkedSpace_kept s
  have newTable := forkedSpace_child s parent other
  have parentTable := forkedSpace_parent s pt (pdFresh parent member).2
  have oldTable : ∀ a ∈ live, a ≠ parent →
      (forkedSpace s parent pd pt).mem (tableOf s a) = s.mem (tableOf s a) := fun a ha notParent =>
    kept _ (Ne.symm (pdFresh a ha).2) (Ne.symm (ptFresh a ha).2) fun same =>
      notParent ((inv.distinct a ha parent member).2 same)
  have shape := inv.window parent member
  have counts := mapCount_sharedTable shape
  have refs : ∀ f, (forkedSpace s parent pd pt).mm.frameRefs f =
      s.mm.frameRefs f + mapCount (s.mem (tableOf s parent)) f := fun _ => rfl
  apply inv.insert_space ⟨pdBounded, ptBounded, other, pdFree, ptFree⟩
  · have pdKernel := allocatable_ne_kernel pdHanded
    have ptKernel := allocatable_ne_kernel ptHanded
    have tableKernel := allocatable_ne_kernel (inv.tables parent member).2
    exact ⟨kept _ (Ne.symm pdKernel.1) (Ne.symm ptKernel.1) (Ne.symm tableKernel.1),
      kept _ (Ne.symm pdKernel.2) (Ne.symm ptKernel.2) (Ne.symm tableKernel.2)⟩
  · exact fun a ha => kept a (Ne.symm (pdFresh a ha).1) (Ne.symm (ptFresh a ha).1)
      (inv.distinct a ha parent member).1
  · intro d within
    rw [forkedSpace_mem, setFrame_mem_self]
    by_cases first : d = 0
    · simp [first]
    · simp [first, inv.dir parent member d within]
  · have unchanged : ∀ i < 1024, ¬ InUserWindow i →
        sharedTable (s.mem (tableOf s parent)) i = entry i 3 := by
      intro i within below
      rw [sharedTable, if_neg fun h => below h.1]
      exact inv.outside parent member i within below
    rintro t (rfl | ⟨a, ha, rfl⟩) i within below
    · rw [newTable]
      exact unchanged i within below
    · by_cases same : a = parent
      · rw [same, parentTable]
        exact unchanged i within below
      · rw [oldTable a ha same]
        exact inv.outside a ha i within below
  · rintro t (rfl | ⟨a, ha, rfl⟩) i inside
    · rw [newTable]
      exact (sharedTable_window (shape i inside) inside).1
    · by_cases same : a = parent
      · rw [same, parentTable]
        exact (sharedTable_window (shape i inside) inside).1
      · rw [oldTable a ha same]
        exact inv.window a ha i inside
  · intro a ha f
    by_cases same : a = parent
    · rw [same, parentTable, counts]
    · rw [oldTable a ha same]
  · exact fun f => by rw [newTable, counts]; exact inv.once parent member f
  · exact fun f zero => by rw [newTable, counts]; exact inv.unmapped_of_refs zero member
  · exact fun f => by rw [newTable, counts]; rfl
  · -- Child and parent keep no writable entry; nobody else maps a frame of the parent writably.
    rintro t (rfl | ⟨a, ha, rfl⟩) i inside writable
    · rw [newTable, (sharedTable_window (shape i inside) inside).2.1] at writable
      exact absurd writable (by simp)
    · by_cases same : a = parent
      · rw [same, parentTable, (sharedTable_window (shape i inside) inside).2.1] at writable
        exact absurd writable (by simp)
      · rw [oldTable a ha same] at writable ⊢
        have one := inv.owned a ha i inside writable
        have none : mapCount (s.mem (tableOf s parent)) (frameOf (s.mem (tableOf s a) i)) = 0 := by
          by_contra positive
          obtain ⟨j, hj, present, frame⟩ := exists_of_mapCount_pos (Nat.pos_of_ne_zero positive)
          exact same (inv.sole ha member inside hj writable present frame).1.symm
        rw [refs, one, none]
  · intro f
    change (takeFrame (takeFrame s pd) pt).mm.bitmap f = true ↔ _
    rw [takeFrame_bitmap, takeFrame_bitmap]
    exact or_left_comm

theorem destroyed {pd : Nat} (member : pd ∈ live) :
    AddrSpaces (destroyedSpace s pd) (live.erase pd) := by
  have handed := inv.tables pd member
  have pdBounded := allocatable_lt handed.1
  have ptBounded := allocatable_lt handed.2
  have memory : (destroyedSpace s pd).mem = s.mem := rfl
  have refs : ∀ f, (destroyedSpace s pd).mm.frameRefs f =
      s.mm.frameRefs f - mapCount (s.mem (tableOf s pd)) f := by
    intro f
    simp [destroyedSpace, Mm.frameFree, Nat.not_le.mpr pdBounded, Nat.not_le.mpr ptBounded, dropRefs]
  have bitmap : ∀ f, (destroyedSpace s pd).mm.bitmap f = true ↔
      f ≠ pd ∧ f ≠ tableOf s pd ∧ ¬ (0 < mapCount (s.mem (tableOf s pd)) f ∧
        s.mm.frameRefs f = mapCount (s.mem (tableOf s pd)) f) ∧ s.mm.bitmap f = true := by
    intro f
    simp only [destroyedSpace, Mm.frameFree, Nat.not_le.mpr pdBounded, Nat.not_le.mpr ptBounded,
      dropRefs, if_false]
    by_cases dir : f = pd
    · simp [dir]
    · by_cases table : f = tableOf s pd
      · rw [Function.update_of_ne dir, table, Function.update_self]
        simp
      · rw [Function.update_of_ne dir, Function.update_of_ne table]
        by_cases last : 0 < mapCount (s.mem (tableOf s pd)) f ∧
            s.mm.frameRefs f = mapCount (s.mem (tableOf s pd)) f
        · rw [if_pos last]
          simp [last]
        · rw [if_neg last]
          exact ⟨fun used => ⟨dir, table, last, used⟩, fun h => h.2.2.2⟩
  have kept : ∀ a ∈ live.erase pd, a ∈ live := fun a => Finset.mem_of_mem_erase
  constructor
  · exact inv.kernelDir
  · exact inv.kernelTable
  · exact fun a ha => inv.tables a (kept a ha)
  · exact fun a ha => inv.dir a (kept a ha)
  · exact fun a ha => inv.outside a (kept a ha)
  · exact fun a ha => inv.window a (kept a ha)
  · exact fun a ha b hb => inv.distinct a (kept a ha) b (kept b hb)
  · intro a ha
    obtain ⟨dirRefs, tableRefs⟩ := inv.unshared a (kept a ha)
    rw [refs, refs]
    change s.mm.frameRefs a - _ = 0 ∧ s.mm.frameRefs (tableOf s a) - _ = 0
    omega
  · exact fun a ha => inv.once a (kept a ha)
  · intro f
    have total := Finset.add_sum_erase live (fun a => mapCount (s.mem (tableOf s a)) f) member
    rw [refs, inv.counted f]
    change _ = ∑ a ∈ live.erase pd, mapCount (s.mem (tableOf s a)) f
    omega
  · intro a ha i inside writable
    have one := inv.owned a (kept a ha) i inside writable
    have none : mapCount (s.mem (tableOf s pd)) (frameOf (s.mem (tableOf s a) i)) = 0 := by
      by_contra positive
      obtain ⟨j, hj, present, frame⟩ := exists_of_mapCount_pos (Nat.pos_of_ne_zero positive)
      have same := (inv.sole (kept a ha) member inside hj writable present frame).1
      exact Finset.ne_of_mem_erase ha same.symm
    rw [refs]
    change s.mm.frameRefs (frameOf (s.mem (tableOf s a) i)) -
      mapCount (s.mem (tableOf s pd)) (frameOf (s.mem (tableOf s a) i)) = 1
    rw [one, none]
  · intro f bounded
    have tables : IsTable (destroyedSpace s pd) (live.erase pd) f ↔
        IsTable s live f ∧ f ≠ pd ∧ f ≠ tableOf s pd := by
      simp only [IsTable, Finset.mem_erase]
      constructor
      · rintro ⟨a, ⟨other, ha⟩, rfl | rfl⟩
        · exact ⟨⟨_, ha, .inl rfl⟩, other, (inv.distinct _ ha pd member).1⟩
        · exact ⟨⟨a, ha, .inr rfl⟩, Ne.symm (inv.distinct pd member a ha).1,
            fun same => other ((inv.distinct a ha pd member).2 same)⟩
      · rintro ⟨⟨a, ha, holds⟩, notDir, notTable⟩
        refine ⟨a, ⟨?_, ha⟩, holds⟩
        rintro rfl
        exact holds.elim notDir notTable
    have atMost := inv.mapCount_le_refs member f
    rw [bitmap, inv.used f bounded, tables, refs]
    by_cases mapped : 0 < mapCount (s.mem (tableOf s pd)) f
    · -- A frame the dying space mapped is neither reserved nor a table.
      obtain ⟨i, hi, present, rfl⟩ := exists_of_mapCount_pos mapped
      have notReserved := allocatable_not_reserved (inv.mapped_frame member hi present).1
      have notTable : ¬ IsTable s live (frameOf (s.mem (tableOf s pd) i)) := by
        rintro ⟨a, ha, holds⟩
        have other := inv.mapped_ne_table member ha hi present
        exact holds.elim other.1 other.2
      have others := inv.mapped_ne_table member member hi present
      simp only [notReserved, notTable, others, mapped, false_or, false_and, ne_eq,
        not_false_eq_true, true_and]
      omega
    · have zero : mapCount (s.mem (tableOf s pd)) f = 0 := by omega
      have dirs : f = pd ∨ f = tableOf s pd → ¬ Reserved f ∧ s.mm.frameRefs f = 0 := by
        rintro (rfl | rfl)
        · exact ⟨allocatable_not_reserved handed.1, (inv.unshared _ member).1⟩
        · exact ⟨allocatable_not_reserved handed.2, (inv.unshared _ member).2⟩
      rw [zero, Nat.sub_zero]
      by_cases own : f = pd ∨ f = tableOf s pd
      · obtain ⟨notReserved, unshared⟩ := dirs own
        have : ¬ (f ≠ pd ∧ f ≠ tableOf s pd) := by tauto
        simp only [notReserved, unshared, this, Nat.lt_irrefl, and_false, or_self, false_or,
          iff_false]
        tauto
      · have : f ≠ pd ∧ f ≠ tableOf s pd := by tauto
        simp [this]

end AddrSpaces

end NovaKernel

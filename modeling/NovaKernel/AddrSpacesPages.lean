import NovaKernel.AddrSpacesSteps

set_option autoImplicit false

namespace NovaKernel

open Machine Mm Loops

theorem maps_entry {f g : Nat} {flags : Word} (t : Nat → Word) (idx : Nat)
    (bounded : f < frameCount) (narrow : flags.toNat < 0x1000)
    (present : hasFlag flags pteP = true) :
    maps (Function.update t idx (entry f flags)) g idx = decide (g = f) := by
  simp [maps, present, frameOf_entry bounded narrow, Bool.beq_eq_decide_eq, eq_comm]

theorem mapCount_update {t : Nat → Word} {idx f : Nat} (flags : Word) (inside : InUserWindow idx)
    (bounded : f < frameCount) (narrow : flags.toNat < 0x1000) (present : hasFlag flags pteP = true)
    (g : Nat) :
    mapCount (Function.update t idx (entry f flags)) g + (maps t g idx).toNat =
      mapCount t g + (decide (g = f)).toNat := by
  have moved := countP_change (maps (Function.update t idx (entry f flags)) g) (maps t g) userPages
    userPages_nodup idx (mem_userPages.mpr inside) (fun j _ other => by simp [maps, other])
  rwa [maps_entry t idx bounded narrow present] at moved

theorem mappedPage_mem (s : Machine) (pt idx f : Nat) :
    (mappedPage s pt idx f).mem = (s.setWord pt idx (entry f 7)).mem := rfl

theorem copiedPage_cr3 (s : Machine) (pt idx old nf v : Nat) :
    (copiedPage s pt idx old nf v).cr3 = s.cr3 := rfl

theorem copiedPage_mem (s : Machine) (pt idx old nf v : Nat) :
    (copiedPage s pt idx old nf v).mem =
      ((s.setFrame nf (s.mem old)).setWord pt idx (entry nf 7)).mem := rfl

namespace AddrSpaces

variable {s : Machine} {live : Finset Nat} (inv : AddrSpaces s live)
include inv

theorem repointed {s' : Machine} {pd idx nf : Nat} (member : pd ∈ live) (inside : InUserWindow idx)
    (bounded : nf < frameCount) (free : s.mm.bitmap nf = false)
    (readOnly : hasFlag (s.mem (tableOf s pd) idx) pteW = false)
    (table : s'.mem (tableOf s pd) = Function.update (s.mem (tableOf s pd)) idx (entry nf 7))
    (others : ∀ g, g ≠ tableOf s pd → g ≠ nf → s'.mem g = s.mem g)
    (refs : ∀ g, s'.mm.frameRefs g + (maps (s.mem (tableOf s pd)) g idx).toNat =
      s.mm.frameRefs g + (decide (g = nf)).toNat)
    (bitmap : ∀ g, s'.mm.bitmap g = true ↔ g = nf ∨ s.mm.bitmap g = true ∧
      ¬ (maps (s.mem (tableOf s pd)) g idx = true ∧ s.mm.frameRefs g = 1)) :
    AddrSpaces s' live ∧ ∀ a ∈ live, tableOf s' a = tableOf s a := by
  obtain ⟨handed, unshared, fresh⟩ := inv.fresh bounded free
  have kernel := allocatable_ne_kernel handed
  have tableKernel := allocatable_ne_kernel (inv.tables pd member).2
  have dirs : ∀ a ∈ live, s'.mem a = s.mem a := fun a ha =>
    others a (inv.distinct a ha pd member).1 (Ne.symm (fresh a ha).1)
  have tables : ∀ a ∈ live, tableOf s' a = tableOf s a := fun a ha => by
    rw [tableOf, tableOf, dirs a ha]
  have entries : ∀ a ∈ live, a ≠ pd → s'.mem (tableOf s a) = s.mem (tableOf s a) :=
    fun a ha other => others _ (fun same => other ((inv.distinct a ha pd member).2 same))
      (Ne.symm (fresh a ha).2)
  have moved := mapCount_update (t := s.mem (tableOf s pd)) (f := nf) 7 inside bounded
    (by decide) (by decide)
  -- Only a mapped frame loses its reference, so a table still has none.
  have tableRefs : ∀ g, s.mm.frameRefs g = 0 → g ≠ nf → s'.mm.frameRefs g = 0 := by
    intro g none other
    have := refs g
    rw [none, decide_eq_false other] at this
    simp only [Bool.toNat_false] at this
    omega
  refine ⟨?_, tables⟩
  constructor
  · rw [others _ (Ne.symm tableKernel.1) (Ne.symm kernel.1)]
    exact inv.kernelDir
  · rw [others _ (Ne.symm tableKernel.2) (Ne.symm kernel.2)]
    exact inv.kernelTable
  · intro a ha
    rw [tables a ha]
    exact inv.tables a ha
  · intro a ha
    rw [tables a ha, dirs a ha]
    exact inv.dir a ha
  · intro a ha i within below
    rw [tables a ha]
    by_cases same : a = pd
    · have other : i ≠ idx := fun h => below (h ▸ inside)
      rw [same, table, Function.update_of_ne other]
      exact inv.outside pd member i within below
    · rw [entries a ha same]
      exact inv.outside a ha i within below
  · intro a ha i hi
    rw [tables a ha]
    by_cases same : a = pd
    · by_cases hit : i = idx
      · rw [same, table, hit, Function.update_self]
        exact .inr ⟨nf, handed, .inl rfl⟩
      · rw [same, table, Function.update_of_ne hit]
        exact inv.window pd member i hi
    · rw [entries a ha same]
      exact inv.window a ha i hi
  · intro a ha b hb
    rw [tables a ha, tables b hb]
    exact inv.distinct a ha b hb
  · intro a ha
    rw [tables a ha]
    exact ⟨tableRefs a (inv.unshared a ha).1 (Ne.symm (fresh a ha).1),
      tableRefs _ (inv.unshared a ha).2 (Ne.symm (fresh a ha).2)⟩
  · intro a ha g
    rw [tables a ha]
    by_cases same : a = pd
    · have before := inv.once pd member g
      have after := moved g
      rw [same, table]
      by_cases hit : g = nf
      · have zero := inv.unmapped_of_refs (f := g) (by rw [hit]; exact unshared) member
        rw [hit] at after zero ⊢
        rw [zero, decide_eq_true rfl] at after
        simp only [Bool.toNat_true] at after
        omega
      · rw [decide_eq_false hit] at after
        simp only [Bool.toNat_false] at after
        omega
    · rw [entries a ha same]
      exact inv.once a ha g
  · intro g
    have rest : ∑ a ∈ live.erase pd, mapCount (s'.mem (tableOf s' a)) g =
        ∑ a ∈ live.erase pd, mapCount (s.mem (tableOf s a)) g :=
      Finset.sum_congr rfl fun a ha => by
        rw [tables a (Finset.mem_of_mem_erase ha),
          entries a (Finset.mem_of_mem_erase ha) (Finset.ne_of_mem_erase ha)]
    have before := Finset.add_sum_erase live (fun a => mapCount (s.mem (tableOf s a)) g) member
    have after := Finset.add_sum_erase live (fun a => mapCount (s'.mem (tableOf s' a)) g) member
    have total := inv.counted g
    have change := refs g
    have moved := moved g
    simp only [tables pd member, table, rest] at after
    simp only [← total] at before
    omega
  · intro a ha i hi writable
    rw [tables a ha] at writable ⊢
    by_cases hit : a = pd ∧ i = idx
    · obtain ⟨rfl, rfl⟩ := hit
      have own := refs nf
      have unmapped : maps (s.mem (tableOf s a)) nf i = false := by
        by_contra mapped
        have none := inv.unmapped_of_refs unshared member
        have := List.countP_pos_iff.mpr ⟨i, mem_userPages.mpr inside, by simpa using mapped⟩
        rw [mapCount] at none
        omega
      rw [unmapped, unshared, decide_eq_true rfl] at own
      rw [table, Function.update_self, frameOf_entry bounded (by decide)]
      simpa using own
    · have kept : s'.mem (tableOf s a) i = s.mem (tableOf s a) i := by
        by_cases same : a = pd
        · have other : i ≠ idx := fun h => hit ⟨same, h⟩
          rw [same, table, Function.update_of_ne other]
        · rw [entries a ha same]
      rw [kept] at writable ⊢
      have one := inv.owned a ha i hi writable
      have notNew : frameOf (s.mem (tableOf s a) i) ≠ nf := by
        intro same
        rw [same, unshared] at one
        omega
      have notOld : maps (s.mem (tableOf s pd)) (frameOf (s.mem (tableOf s a) i)) idx = false := by
        by_contra mapped
        simp only [maps, Bool.and_eq_true, beq_iff_eq, Bool.not_eq_false] at mapped
        obtain ⟨same, index⟩ := inv.sole ha member hi inside writable mapped.1 mapped.2
        exact hit ⟨same.symm, index.symm⟩
      have change := refs (frameOf (s.mem (tableOf s a) i))
      rw [one, notOld, decide_eq_false notNew] at change
      simpa using change
  · intro g within
    have tableIff : IsTable s' live g ↔ IsTable s live g :=
      exists_congr fun a => and_congr_right fun ha => by rw [tables a ha]
    have change := refs g
    rw [bitmap, inv.used g within, tableIff]
    by_cases new : g = nf
    · have positive : 0 < s'.mm.frameRefs g := by
        have unmapped : maps (s.mem (tableOf s pd)) g idx = false := by
          by_contra mapped
          have none := inv.unmapped_of_refs (f := g) (by rw [new]; exact unshared) member
          have := List.countP_pos_iff.mpr ⟨idx, mem_userPages.mpr inside, by simpa using mapped⟩
          rw [mapCount] at none
          omega
        rw [unmapped, decide_eq_true new] at change
        simp only [Bool.toNat_true, Bool.toNat_false] at change
        omega
      exact ⟨fun _ => .inr (.inr positive), fun _ => .inl new⟩
    · rw [decide_eq_false new] at change
      by_cases left : maps (s.mem (tableOf s pd)) g idx = true
      · have mapped := left
        simp only [maps, Bool.and_eq_true, beq_iff_eq] at mapped
        obtain ⟨present, rfl⟩ := mapped
        have notReserved := allocatable_not_reserved (inv.mapped_frame member inside present).1
        have notTable : ¬ IsTable s live (frameOf (s.mem (tableOf s pd) idx)) := by
          rintro ⟨a, ha, holds⟩
          have other := inv.mapped_ne_table member ha inside present
          exact holds.elim other.1 other.2
        rw [left] at change
        simp only [Bool.toNat_true, Bool.toNat_false] at change
        simp only [new, left, notReserved, notTable, false_or, true_and]
        omega
      · have kept : maps (s.mem (tableOf s pd)) g idx = false := by simpa using left
        rw [kept] at change
        simp only [Bool.toNat_false, Nat.add_zero] at change
        simp [new, kept, change]

theorem mapped {pd idx f : Nat} {s₁ : Machine} (member : pd ∈ live) (inside : InUserWindow idx)
    (unmapped : hasFlag (s.mem (tableOf s pd) idx) pteP = false)
    (allocated : s.frameAlloc = (some f, s₁)) :
    AddrSpaces (mappedPage s (tableOf s pd) idx f) live ∧
      ∀ a ∈ live, tableOf (mappedPage s (tableOf s pd) idx f) a = tableOf s a := by
  obtain ⟨-, bounded, free, -⟩ := machine_frameAlloc_some allocated
  have fresh := inv.fresh bounded free
  have nowhere : ∀ g, maps (s.mem (tableOf s pd)) g idx = false := by simp [maps, unmapped]
  apply inv.repointed member inside bounded free
  · by_contra writable
    have := windowEntry_writable (inv.window pd member idx inside) (by simpa using writable)
    rw [unmapped] at this
    exact absurd this (by simp)
  · simp [mappedPage_mem, setWord]
  · intro g other _
    rw [mappedPage_mem, setWord_mem_ne _ _ _ other]
  · intro g
    rw [nowhere]
    by_cases same : g = f <;> simp [mappedPage, addRefs, takeFrame, same]
  · intro g
    rw [nowhere]
    by_cases same : g = f <;> simp [mappedPage, addRefs, takeFrame, same]

theorem copied {pd idx nf v : Nat} {s₁ : Machine} (member : pd ∈ live) (inside : InUserWindow idx)
    (present : hasFlag (s.mem (tableOf s pd) idx) pteP = true)
    (readOnly : hasFlag (s.mem (tableOf s pd) idx) pteW = false)
    (allocated : s.frameAlloc = (some nf, s₁)) :
    AddrSpaces (copiedPage s (tableOf s pd) idx (frameOf (s.mem (tableOf s pd) idx)) nf v) live ∧
      ∀ a ∈ live, tableOf (copiedPage s (tableOf s pd) idx (frameOf (s.mem (tableOf s pd) idx)) nf v) a =
        tableOf s a := by
  obtain ⟨-, bounded, free, -⟩ := machine_frameAlloc_some allocated
  obtain ⟨handed, unshared, fresh⟩ := inv.fresh bounded free
  obtain ⟨oldHanded, held, used⟩ := inv.mapped_frame member inside present
  generalize old_eq : frameOf (s.mem (tableOf s pd) idx) = old at oldHanded held used
  have left : ∀ g, maps (s.mem (tableOf s pd)) g idx = decide (g = old) := by
    intro g
    rw [maps, present, old_eq, Bool.true_and, Bool.beq_eq_decide_eq, decide_eq_decide.mpr eq_comm]
  have other : old ≠ nf := by
    intro same
    rw [same, unshared] at held
    omega
  have dec : (takeFrame s nf).mm.mmRefDec old =
      { bitmap := if s.mm.frameRefs old = 1 then Function.update (takeFrame s nf).mm.bitmap old false
          else (takeFrame s nf).mm.bitmap
        frameRefs := Function.update s.mm.frameRefs old (s.mm.frameRefs old - 1) } :=
    mmRefDec_eq (allocatable_lt oldHanded) held (by simp [takeFrame, other, used])
  have inc : ((takeFrame s nf).mm.mmRefDec old).mmRefInc nf =
      { (takeFrame s nf).mm.mmRefDec old with
        frameRefs := Function.update ((takeFrame s nf).mm.mmRefDec old).frameRefs nf 1 } := by
    have zero : ((takeFrame s nf).mm.mmRefDec old).frameRefs nf = 0 := by
      simp [dec, Ne.symm other, unshared]
    rw [mmRefInc_eq bounded (by omega), zero]
  apply inv.repointed member inside bounded free readOnly
  · simp [copiedPage_mem, setWord, setFrame, Ne.symm (fresh pd member).2]
  · intro g notTable notNew
    rw [copiedPage_mem, setWord_mem_ne _ _ _ notTable, setFrame_mem_ne _ _ notNew]
  · intro g
    rw [left]
    change (((takeFrame s nf).mm.mmRefDec old).mmRefInc nf).frameRefs g + _ = _
    rw [inc, dec]
    by_cases new : g = nf
    · subst new
      simp [Ne.symm other, unshared]
    · by_cases was : g = old
      · subst was
        simp [new]
        omega
      · simp [new, was]
  · intro g
    rw [left]
    change (((takeFrame s nf).mm.mmRefDec old).mmRefInc nf).bitmap g = true ↔ _
    rw [inc, dec]
    by_cases last : s.mm.frameRefs old = 1
    · by_cases was : g = old
      · subst was
        simp [last, other]
      · by_cases new : g = nf <;> simp [last, was, new, takeFrame]
        simp [Ne.symm other]
    · by_cases new : g = nf
      · simp [last, new, takeFrame]
      · simp only [last, if_false, takeFrame, Function.update_of_ne new, new, false_or,
          decide_eq_true_eq]
        constructor
        · refine fun marked => ⟨marked, ?_⟩
          rintro ⟨rfl, one⟩
          exact last one
        · exact fun h => h.1

end AddrSpaces

theorem pagingSwitch_mem (s : Machine) (cr3 : Nat) : (s.pagingSwitch cr3).mem = s.mem := rfl

theorem identityTable_eq (s : Machine) : s.identityTable = s.setFrame kernelPt fun i =>
    if i < 1024 then (if InUserWindow i then 0 else entry i 3) else s.mem kernelPt i := by
  rw [identityTable, foldl_setWord kernelPt fun i => if InUserWindow i then 0 else entry i 3]
  simp only [List.mem_range]

theorem pagingInit_kernelPd (s : Machine) (d : Nat) :
    (pagingInit s).mem kernelPd d = if d = 0 then entry kernelPt 7 else s.mem kernelPd d := by
  have other : kernelPd ≠ kernelPt := by decide
  rw [pagingInit, pagingSwitch_mem, setWord_mem, identityTable_eq, setFrame_mem_ne _ _ other]
  by_cases first : d = 0 <;> simp [first]

theorem pagingInit_kernelPt (s : Machine) {i : Nat} (within : i < 1024) :
    (pagingInit s).mem kernelPt i = if InUserWindow i then 0 else entry i 3 := by
  have other : kernelPt ≠ kernelPd := by decide
  rw [pagingInit, pagingSwitch_mem, setWord_mem_ne _ _ _ other, identityTable_eq,
    setFrame_mem_self, if_pos within]

theorem boot_mm (mem : Nat → Nat → Word) :
    (boot mem).mm = mmInit ∧ (boot mem).cr3 = kernelPd ∧ (boot mem).tlb = [] := by
  rw [boot, pagingInit, identityTable_eq]
  exact ⟨by simp only [pagingSwitch, setWord_mm, setFrame_mm], rfl, rfl⟩

theorem boot_mem_kept (mem : Nat → Nat → Word) {f : Nat} (notDir : f ≠ kernelPd)
    (notTable : f ≠ kernelPt) : (boot mem).mem f = mem f := by
  funext j
  rw [boot, pagingInit, pagingSwitch_mem, setWord_mem_ne _ _ _ notDir, identityTable_eq,
    setFrame_mem_ne _ _ notTable]
  simp [loaderTables, notDir, notTable]

theorem addrSpaces_boot (mem : Nat → Nat → Word) : AddrSpaces (boot mem) ∅ := by
  constructor
  · intro d _
    have other : kernelPd ≠ kernelPt := by decide
    rw [boot, pagingInit_kernelPd]
    by_cases first : d = 0 <;> simp [first, loaderTables, Function.update_of_ne other]
  · exact fun i within => pagingInit_kernelPt _ within
  all_goals try (intro a ha; exact absurd ha (Finset.notMem_empty a))
  · intro f
    simp [boot_mm]
  · intro f bounded
    have none : ¬ IsTable (boot mem) ∅ f := by
      rintro ⟨a, ha, _⟩
      exact Finset.notMem_empty a ha
    rw [(boot_mm mem).1, mmInit_bitmap f bounded, mmInit_frameRefs]
    simp [none]

end NovaKernel

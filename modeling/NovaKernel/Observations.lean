import NovaKernel.AddrSpacesSystem

set_option autoImplicit false

namespace NovaKernel

open Machine Mm

/-- No cached translation is stale. -/
def Cached (s : Machine) : Prop :=
  ∀ v t, (v, t) ∈ s.tlb → v < 2 ^ 20 ∧ s.walk v = some t

theorem contents_none {s : Machine} {pd v : Nat}
    (unmapped : InUserWindow v → hasFlag (s.mem (tableOf s pd) v) pteP = false) :
    contents s pd v = none := by
  rw [contents, if_neg]
  rintro ⟨inside, present⟩
  exact absurd (unmapped inside ▸ present) (by simp)

theorem contents_ne_none {s : Machine} {pd v : Nat} (inside : InUserWindow v)
    (present : hasFlag (s.mem (tableOf s pd) v) pteP = true) : contents s pd v ≠ none := by
  rw [contents, if_pos ⟨inside, present⟩]
  exact Option.some_ne_none _

theorem contents_congr {s s' : Machine} {a b v : Nat}
    (present : InUserWindow v →
      hasFlag (s'.mem (tableOf s' b) v) pteP = hasFlag (s.mem (tableOf s a) v) pteP)
    (frames : InUserWindow v → hasFlag (s.mem (tableOf s a) v) pteP = true →
      s'.mem (frameOf (s'.mem (tableOf s' b) v)) = s.mem (frameOf (s.mem (tableOf s a) v))) :
    contents s' b v = contents s a v := by
  by_cases inside : InUserWindow v
  · by_cases mapped : hasFlag (s.mem (tableOf s a) v) pteP = true
    · rw [contents, contents, if_pos ⟨inside, (present inside).trans mapped⟩,
        if_pos ⟨inside, mapped⟩]
      congr 1
      funext off
      rw [getByte, getByte, frames inside mapped]
    · rw [contents, contents, if_neg fun h => mapped ((present inside).symm.trans h.2),
        if_neg fun h => mapped h.2]
  · rw [contents, contents, if_neg fun h => inside h.1, if_neg fun h => inside h.1]

theorem walk_window {s : Machine} {live : Finset Nat} (inv : AddrSpaces s live)
    (loaded : Loaded s live) {v : Nat} {t : Translation} (bounded : v < 2 ^ 20)
    (found : s.walk v = some t) : v < 1024 ∧
    translationOf (s.mem (tableOf s s.cr3) v) = some t := by
  have first : v < 1024 := by
    by_contra beyond
    rw [inv.walk_beyond loaded (Nat.not_lt.mp beyond) bounded] at found
    exact absurd found (by simp)
  obtain ⟨pde, table⟩ := inv.loadedTable loaded
  rw [walk_eq pde table first] at found
  exact ⟨first, found⟩

theorem user_page {s : Machine} {live : Finset Nat} (inv : AddrSpaces s live)
    (member : s.cr3 ∈ live) {v : Nat} {t : Translation} (bounded : v < 2 ^ 20)
    (found : s.walk v = some t) (user : t.user = true) :
    InUserWindow v ∧ hasFlag (s.mem (tableOf s s.cr3) v) pteP = true ∧
      t.frame = frameOf (s.mem (tableOf s s.cr3) v) ∧
      t.writable = hasFlag (s.mem (tableOf s s.cr3) v) pteW := by
  obtain ⟨first, entry⟩ := walk_window inv (.inl member) bounded found
  have inside : InUserWindow v := by
    by_contra below
    rw [inv.outside _ member v first below,
      translationOf_identity (Nat.lt_of_lt_of_le first (by decide))] at entry
    rw [← Option.some.inj entry] at user
    exact absurd user (by simp)
  rw [translationOf] at entry
  split at entry
  · next present =>
    obtain rfl := Option.some.inj entry
    exact ⟨inside, present, rfl, rfl⟩
  · exact absurd entry (by simp)

theorem inUse_walk {s : Machine} (cached : Cached s) {v : Nat} {t : Translation}
    (found : InUse s v t) : s.walk v = some t :=
  found.elim (fun hit => (cached v t hit).2) id

theorem cached_kept {s s' : Machine} {live live' : Finset Nat} (inv : AddrSpaces s live)
    (inv' : AddrSpaces s' live') (loaded : Loaded s live) (loaded' : Loaded s' live')
    (cached : Cached s) (tlb : ∀ v t, (v, t) ∈ s'.tlb → (v, t) ∈ s.tlb)
    (entries : ∀ v t, (v, t) ∈ s'.tlb → translationOf (s.mem (tableOf s s.cr3) v) = some t →
      s'.mem (tableOf s' s'.cr3) v = s.mem (tableOf s s.cr3) v) : Cached s' := by
  intro v t hit
  obtain ⟨bounded, found⟩ := cached v t (tlb v t hit)
  obtain ⟨first, entry⟩ := walk_window inv loaded bounded found
  obtain ⟨pde, table⟩ := inv'.loadedTable loaded'
  refine ⟨bounded, ?_⟩
  rw [walk_eq pde table first, entries v t hit entry, entry]

section Tables

variable {s : Machine} {live : Finset Nat} (inv : AddrSpaces s live) (loaded : Loaded s live)
include inv loaded

-- The loaded table belongs to nobody but the loaded address space.
theorem loadedTable_ne {a : Nat} (member : a ∈ live) (other : a ≠ s.cr3) :
    tableOf s s.cr3 ≠ tableOf s a := by
  rcases loaded with current | kernel
  · exact fun same => other ((inv.distinct _ current a member).2 same).symm
  · rw [kernel, inv.tableOf_kernelPd]
    exact Ne.symm (allocatable_ne_kernel (inv.tables a member).2).2

theorem loadedDir_ne {a : Nat} (member : a ∈ live) : s.cr3 ≠ tableOf s a := by
  exact Ne.symm (table_ne_loaded inv loaded member)

end Tables

section Operations

variable {within : Nat → Prop} {s : Machine} {live : Finset Nat} (ready : Ready within s live)
include ready

theorem contents_created {pd pt : Nat} {s₁ : Machine}
    (allocated : allocTables s = (some (pd, pt), s₁)) :
    contents (createdSpace s pd pt) pd = (fun _ => none) ∧
      ∀ a ∈ live, contents (createdSpace s pd pt) a = contents s a := by
  have inv := ready.spaces
  obtain ⟨-, pdBounded, ptBounded, other, pdFree, ptFree⟩ := allocTables_some allocated
  obtain ⟨-, pdRefs, pdFresh⟩ := inv.fresh pdBounded pdFree
  obtain ⟨-, ptRefs, ptFresh⟩ := inv.fresh ptBounded ptFree
  obtain ⟨-, newTable, -, oldTable⟩ := inv.created allocated
  constructor
  · funext v
    apply contents_none
    intro inside
    rw [newTable, createdSpace_table s other, emptyTable, if_pos inside]
    exact hasFlag_zero pteP
  · intro a ha
    funext v
    have table : (createdSpace s pd pt).mem (tableOf s a) = s.mem (tableOf s a) :=
      createdSpace_kept s (Ne.symm (pdFresh a ha).2) (Ne.symm (ptFresh a ha).2)
    apply contents_congr
    · intro _
      rw [oldTable a ha, table]
    · intro inside present
      have held := (inv.mapped_frame ha inside present).2.1
      rw [oldTable a ha, table]
      refine createdSpace_kept s ?_ ?_ <;> rintro same <;> rw [same] at held <;> omega

theorem cached_created {pd pt : Nat} {s₁ : Machine}
    (allocated : allocTables s = (some (pd, pt), s₁)) (inside : within pd ∧ within pt)
    (cached : Cached s) : Cached (createdSpace s pd pt) := by
  have inv := ready.spaces
  obtain ⟨-, pdBounded, ptBounded, -, pdFree, ptFree⟩ := allocTables_some allocated
  have pdFresh := fresh_loaded inv ready.loaded pdBounded pdFree
  have ptFresh := fresh_loaded inv ready.loaded ptBounded ptFree
  have ready' := ready_created ready allocated inside
  apply cached_kept inv ready'.spaces ready.loaded ready'.loaded cached fun _ _ hit => hit
  intro v t _ _
  have dir : (createdSpace s pd pt).mem s.cr3 = s.mem s.cr3 :=
    createdSpace_kept s (Ne.symm pdFresh.1) (Ne.symm ptFresh.1)
  change (createdSpace s pd pt).mem (tableOf (createdSpace s pd pt) s.cr3) v = _
  rw [tableOf_congr dir, createdSpace_kept s (Ne.symm pdFresh.2) (Ne.symm ptFresh.2)]

theorem contents_forked {parent pd pt : Nat} {s₁ : Machine} (member : parent ∈ live)
    (allocated : allocTables s = (some (pd, pt), s₁)) :
    contents (forkedSpace s parent pd pt) pd = contents s parent ∧
      ∀ a ∈ live, contents (forkedSpace s parent pd pt) a = contents s a := by
  have inv := ready.spaces
  obtain ⟨-, pdBounded, ptBounded, other, pdFree, ptFree⟩ := allocTables_some allocated
  obtain ⟨-, pdRefs, pdFresh⟩ := inv.fresh pdBounded pdFree
  obtain ⟨-, ptRefs, ptFresh⟩ := inv.fresh ptBounded ptFree
  obtain ⟨-, newTable, -, oldTable⟩ := inv.forked allocated member
  have frames : ∀ a ∈ live, ∀ v, InUserWindow v → hasFlag (s.mem (tableOf s a) v) pteP = true →
      (forkedSpace s parent pd pt).mem (frameOf (s.mem (tableOf s a) v)) =
        s.mem (frameOf (s.mem (tableOf s a) v)) := by
    intro a ha v inside present
    have held := (inv.mapped_frame ha inside present).2.1
    apply forkedSpace_kept
    · rintro same
      rw [same] at held
      omega
    · rintro same
      rw [same] at held
      omega
    · exact (inv.mapped_ne_table ha member inside present).2
  have shared := fun v (inside : InUserWindow v) =>
    (sharedTable_window (inv.window parent member v inside) inside).2.2
  have child := forkedSpace_child s parent other
  have downgraded := forkedSpace_parent s pt (pdFresh parent member).2
  constructor
  · funext v
    apply contents_congr
    · intro inside
      rw [newTable, child, (shared v inside).1]
    · intro inside present
      rw [newTable, child, (shared v inside).2]
      exact frames parent member v inside present
  · intro a ha
    funext v
    by_cases same : a = parent
    · subst same
      apply contents_congr
      · intro inside
        rw [oldTable a ha, downgraded, (shared v inside).1]
      · intro inside present
        rw [oldTable a ha, downgraded, (shared v inside).2]
        exact frames a ha v inside present
    · have kept : (forkedSpace s parent pd pt).mem (tableOf s a) = s.mem (tableOf s a) :=
        forkedSpace_kept s (Ne.symm (pdFresh a ha).2) (Ne.symm (ptFresh a ha).2)
          fun table => same ((inv.distinct a ha parent member).2 table)
      apply contents_congr
      · intro _
        rw [oldTable a ha, kept]
      · intro inside present
        rw [oldTable a ha, kept]
        exact frames a ha v inside present

theorem cached_forked {parent pd pt : Nat} {s₁ : Machine} (member : parent ∈ live)
    (allocated : allocTables s = (some (pd, pt), s₁)) (inside : within pd ∧ within pt)
    (cached : Cached s) : Cached (forkedSpace s parent pd pt) := by
  have inv := ready.spaces
  by_cases current : parent = s.cr3
  · -- CR3 was reloaded, so nothing is cached.
    intro v t hit
    rw [forkedSpace_flushed current] at hit
    exact absurd hit (List.not_mem_nil)
  · obtain ⟨-, pdBounded, ptBounded, -, pdFree, ptFree⟩ := allocTables_some allocated
    have pdFresh := fresh_loaded inv ready.loaded pdBounded pdFree
    have ptFresh := fresh_loaded inv ready.loaded ptBounded ptFree
    have ready' := ready_forked ready member allocated inside
    have unflushed : (forkedSpace s parent pd pt).tlb = s.tlb := if_neg current
    apply cached_kept inv ready'.spaces ready.loaded ready'.loaded cached
      fun v t hit => by rwa [unflushed] at hit
    intro v t _ _
    have dir : (forkedSpace s parent pd pt).mem s.cr3 = s.mem s.cr3 :=
      forkedSpace_kept s (Ne.symm pdFresh.1) (Ne.symm ptFresh.1)
        (loadedDir_ne inv ready.loaded member)
    change (forkedSpace s parent pd pt).mem (tableOf (forkedSpace s parent pd pt) s.cr3) v = _
    rw [tableOf_congr dir]
    exact congrFun (forkedSpace_kept s (Ne.symm pdFresh.2) (Ne.symm ptFresh.2)
      (loadedTable_ne inv ready.loaded member current)) v

theorem contents_copied {pd idx nf v : Nat} {s₁ : Machine} (member : pd ∈ live)
    (inside : InUserWindow idx) (present : hasFlag (s.mem (tableOf s pd) idx) pteP = true)
    (readOnly : hasFlag (s.mem (tableOf s pd) idx) pteW = false)
    (allocated : s.frameAlloc = (some nf, s₁)) (a : Nat) (ha : a ∈ live) :
    contents (copiedPage s (tableOf s pd) idx (frameOf (s.mem (tableOf s pd) idx)) nf v) a =
      contents s a := by
  have inv := ready.spaces
  obtain ⟨-, bounded, free, -⟩ := machine_frameAlloc_some allocated
  obtain ⟨-, unshared, fresh⟩ := inv.fresh bounded free
  have tables := (inv.copied (v := v) member inside present readOnly allocated).2
  -- A mapped frame is neither the new frame nor a table.
  have frames : ∀ w, InUserWindow w → hasFlag (s.mem (tableOf s a) w) pteP = true →
      (copiedPage s (tableOf s pd) idx (frameOf (s.mem (tableOf s pd) idx)) nf v).mem
        (frameOf (s.mem (tableOf s a) w)) = s.mem (frameOf (s.mem (tableOf s a) w)) := by
    intro w hw mapped
    have held := (inv.mapped_frame ha hw mapped).2.1
    rw [copiedPage_mem, setWord_mem_ne _ _ _ (inv.mapped_ne_table ha member hw mapped).2,
      setFrame_mem_ne]
    intro same
    rw [same] at held
    omega
  funext w
  by_cases hit : a = pd ∧ w = idx
  · obtain ⟨rfl, rfl⟩ := hit
    have repointed : (copiedPage s (tableOf s a) w (frameOf (s.mem (tableOf s a) w)) nf v).mem
        (tableOf s a) w = entry nf 7 := by
      rw [copiedPage_mem, setWord_mem, if_pos ⟨rfl, rfl⟩]
    apply contents_congr
    · intro _
      rw [tables a ha, repointed, present, present_entry]
      decide
    · intro _ _
      rw [tables a ha, repointed, frameOf_entry bounded (by decide), copiedPage_mem,
        setWord_mem_ne _ _ _ (fresh a ha).2, setFrame_mem_self]
  · have kept : (copiedPage s (tableOf s pd) idx (frameOf (s.mem (tableOf s pd) idx)) nf v).mem
        (tableOf s a) w = s.mem (tableOf s a) w := by
      rw [copiedPage_mem, setWord_mem, if_neg, setFrame_mem_ne _ _ (Ne.symm (fresh a ha).2)]
      rintro ⟨table, index⟩
      exact hit ⟨(inv.distinct a ha pd member).2 table, index⟩
    apply contents_congr
    · intro _
      rw [tables a ha, kept]
    · intro hw mapped
      rw [tables a ha, kept]
      exact frames w hw mapped

theorem cached_copied {idx nf : Nat} {s₁ : Machine} (page : CowPage s live idx)
    (allocated : s.frameAlloc = (some nf, s₁)) (cached : Cached s) :
    Cached (copiedPage s (tableOf s s.cr3) idx (frameOf (s.mem (tableOf s s.cr3) idx)) nf idx) := by
  obtain ⟨member, inside, present, readOnly⟩ := page
  have inv := ready.spaces
  obtain ⟨-, bounded, free, -⟩ := machine_frameAlloc_some allocated
  have fresh := fresh_loaded inv ready.loaded bounded free
  have ready' := ready_copied (v := idx) ready member inside present readOnly allocated
  have remains : ∀ v t, (v, t) ∈ (copiedPage s (tableOf s s.cr3) idx
      (frameOf (s.mem (tableOf s s.cr3) idx)) nf idx).tlb → (v, t) ∈ s.tlb ∧ v ≠ idx := by
    intro v t hit
    obtain ⟨kept, other⟩ := List.mem_filter.mp hit
    exact ⟨kept, by simpa using other⟩
  apply cached_kept inv ready'.spaces ready.loaded ready'.loaded cached
    fun v t hit => (remains v t hit).1
  intro v t hit _
  have tables := (inv.copied (v := idx) member inside present readOnly allocated).2
  change (copiedPage _ _ _ _ _ _).mem (tableOf (copiedPage _ _ _ _ _ _) s.cr3) v = _
  rw [tables _ member, copiedPage_mem, setWord_mem, if_neg (fun h => (remains v t hit).2 h.2),
    setFrame_mem_ne _ _ (Ne.symm fresh.2)]

end Operations

structure MappedMore (live : Finset Nat) (pd : Nat) (pages : List Nat) (ok : Bool)
    (s s' : Machine) : Prop where
  cr3 : s'.cr3 = s.cr3
  table : tableOf s' pd = tableOf s pd
  cached : Cached s → Cached s'
  others : ∀ a ∈ live, a ≠ pd → contents s' a = contents s a
  grown : ∀ v, contents s' pd v = contents s pd v ∨ contents s pd v = none ∧ v ∈ pages
  filled : ok = true → ∀ v ∈ pages, contents s' pd v ≠ none

theorem mappedMore_page {within : Nat → Prop} {s : Machine} {live : Finset Nat}
    (ready : Ready within s live) {pd idx f : Nat} {s₁ : Machine} (member : pd ∈ live)
    (inside : InUserWindow idx) (unmapped : hasFlag (s.mem (tableOf s pd) idx) pteP = false)
    (allocated : s.frameAlloc = (some f, s₁)) :
    MappedMore live pd [idx] true s (mappedPage s (tableOf s pd) idx f) := by
  have inv := ready.spaces
  obtain ⟨-, bounded, free, -⟩ := machine_frameAlloc_some allocated
  obtain ⟨spaces, tables⟩ := inv.mapped member inside unmapped allocated
  have ready' := ready_mapped ready member inside unmapped allocated
  have entries : ∀ g v, ¬ (g = tableOf s pd ∧ v = idx) →
      (mappedPage s (tableOf s pd) idx f).mem g v = s.mem g v := by
    intro g v other
    rw [mappedPage_mem, setWord_mem, if_neg other]
  have same : ∀ a ∈ live, ∀ v, ¬ (a = pd ∧ v = idx) →
      contents (mappedPage s (tableOf s pd) idx f) a v = contents s a v := by
    intro a ha v other
    have kept := entries (tableOf s a) v fun h => other ⟨(inv.distinct a ha pd member).2 h.1, h.2⟩
    apply contents_congr
    · intro _
      rw [tables a ha, kept]
    · intro hv present
      rw [tables a ha, kept]
      funext j
      exact entries _ j fun h => (inv.mapped_ne_table ha member hv present).2 h.1
  constructor
  · rfl
  · exact tables pd member
  · intro cached
    apply cached_kept inv ready'.spaces ready.loaded ready'.loaded cached fun _ _ hit => hit
    intro v t _ found
    have table : tableOf (mappedPage s (tableOf s pd) idx f) s.cr3 = tableOf s s.cr3 :=
      tableOf_congr (funext fun d => entries _ d fun h => loadedDir_ne inv ready.loaded member h.1)
    change (mappedPage _ _ _ _).mem (tableOf (mappedPage _ _ _ _) s.cr3) v = _
    rw [table]
    -- The new entry was empty, so nothing cached came from it.
    apply entries
    rintro ⟨loaded, rfl⟩
    rw [loaded, translationOf, unmapped] at found
    exact absurd found (by simp)
  · intro a ha other
    funext v
    exact same a ha v fun h => other h.1
  · intro v
    by_cases hit : v = idx
    · subst hit
      exact .inr ⟨contents_none fun _ => unmapped, by simp⟩
    · exact .inl (same pd member v fun h => hit h.2)
  · intro _ v hit
    obtain rfl := List.mem_singleton.mp hit
    apply contents_ne_none inside
    rw [tables pd member, mappedPage_mem, setWord_mem, if_pos ⟨rfl, rfl⟩, present_entry]
    decide

theorem mapUserPages_spec {within : Nat → Prop} {live : Finset Nat} {pd : Nat} (member : pd ∈ live)
    (pages : List Nat) (window : ∀ i ∈ pages, InUserWindow i) (s : Machine)
    (ready : Ready within s live) :
    ∃ ok s', (∀ acc, Reaches acc within → mapUserPages acc (tableOf s pd) pages s = some (ok, s')) ∧
      Ready within s' live ∧ MappedMore live pd pages ok s s' := by
  induction pages generalizing s with
  | nil =>
    refine ⟨true, s, fun _ _ => rfl, ready, rfl, rfl, id, fun _ _ _ => rfl, fun _ => .inl rfl, ?_⟩
    simp
  | cons i rest ih =>
    have inside := window i (by simp)
    have later := fun j (hj : j ∈ rest) => window j (by simp [hj])
    rcases mapUserPage_cases ready i member with
      ⟨mapped, step⟩ | ⟨-, -, step⟩ | ⟨unmapped, f, s₁, allocated, step⟩
    · obtain ⟨ok, s', run, ready', more⟩ := ih later s ready
      refine ⟨ok, s', fun acc reaches => ?_, ready', more.cr3, more.table, more.cached, more.others,
        ?_, ?_⟩
      · simp only [mapUserPages, step acc reaches, Option.bind_eq_bind, Option.bind_some, if_true,
          run acc reaches]
      · exact fun v => (more.grown v).imp_right fun h => ⟨h.1, by simp [h.2]⟩
      · intro succeeded v hv
        rcases List.mem_cons.mp hv with rfl | hv
        · rcases more.grown v with kept | ⟨none, -⟩
          · rw [kept]
            exact contents_ne_none inside mapped
          · exact absurd none (contents_ne_none inside mapped)
        · exact more.filled succeeded v hv
    · refine ⟨false, s, fun acc reaches => ?_, ready, rfl, rfl, id, fun _ _ _ => rfl,
        fun _ => .inl rfl, ?_⟩
      · simp only [mapUserPages, step acc reaches, Option.bind_eq_bind, Option.bind_some,
          Bool.false_eq_true, if_false, Option.pure_def]
      · simp
    · have page := mappedMore_page ready member inside unmapped allocated
      obtain ⟨ok, s', run, ready', more⟩ := ih later _
        (ready_mapped ready member inside unmapped allocated)
      rw [page.table] at run
      refine ⟨ok, s', fun acc reaches => ?_, ready', more.cr3.trans page.cr3,
        more.table.trans page.table, more.cached ∘ page.cached, ?_, ?_, ?_⟩
      · simp only [mapUserPages, step acc reaches, Option.bind_eq_bind, Option.bind_some, if_true,
          run acc reaches]
      · exact fun a ha other => (more.others a ha other).trans (page.others a ha other)
      · intro v
        rcases more.grown v with kept | ⟨none, hv⟩
        · rw [kept]
          exact (page.grown v).imp_right fun h => ⟨h.1, by rw [List.mem_singleton.mp h.2]; simp⟩
        · rcases page.grown v with kept | ⟨none', hv'⟩
          · exact .inr ⟨kept ▸ none, by simp [hv]⟩
          · exact .inr ⟨none', by simp [hv]⟩
      · intro succeeded v hv
        rcases List.mem_cons.mp hv with rfl | hv
        · have filled := page.filled rfl v (by simp)
          rcases more.grown v with kept | ⟨none, -⟩
          · rwa [kept]
          · exact absurd none filled
        · exact more.filled succeeded v hv

theorem inRegion_iff {vaddr nbytes : Nat} (start : userPgStart * 0x1000 ≤ vaddr)
    (stop : vaddr + nbytes ≤ userPgEnd * 0x1000) (nonempty : nbytes ≠ 0) (page : Nat) :
    page ∈ regionPages vaddr nbytes ↔ InRegion vaddr nbytes page := by
  simp only [regionPages, List.mem_range'_1, InRegion, userPgStart, userPgEnd] at *
  constructor
  · rintro ⟨first, last⟩
    by_cases below : page * 0x1000 < vaddr
    · exact ⟨vaddr, by omega, by omega, by omega⟩
    · exact ⟨page * 0x1000, by omega, by omega, by omega⟩
  · rintro ⟨addr, low, high, rfl⟩
    omega

theorem regionPages_window {vaddr nbytes : Nat} (start : userPgStart * 0x1000 ≤ vaddr)
    (stop : vaddr + nbytes ≤ userPgEnd * 0x1000) (nonempty : nbytes ≠ 0) :
    ∀ i ∈ regionPages vaddr nbytes, InUserWindow i := by
  intro i member
  obtain ⟨addr, low, high, rfl⟩ := (inRegion_iff start stop nonempty i).mp member
  simp only [InUserWindow, userPgStart, userPgEnd] at *
  omega

theorem mapRegion_pages {acc : Access} {within : Nat → Prop} (reaches : Reaches acc within)
    {s : Machine} {live : Finset Nat} (ready : Ready within s live) {pd vaddr nbytes : Nat}
    (member : pd ∈ live) (start : userPgStart * 0x1000 ≤ vaddr)
    (stop : vaddr + nbytes ≤ userPgEnd * 0x1000) (nonempty : nbytes ≠ 0) :
    pagingMapUserRegion acc s pd vaddr nbytes =
      mapUserPages acc (tableOf s pd) (regionPages vaddr nbytes) s := by
  have inv := ready.spaces
  have pde := load_eq reaches (inv.lowIdentity ready.loaded) (ready.tables pd member).1 0
  have first : vaddr / 2 ^ 22 % 1024 = 0 := by
    simp only [userPgStart, userPgEnd] at start stop
    omega
  have present : hasFlag (s.mem pd 0) pteP = true := by
    rw [inv.tableOf_dir member, present_entry]
    decide
  simp only [pagingMapUserRegion, nonempty, if_false, first, pde, present, Option.bind_eq_bind,
    Option.bind_some, Bool.not_true, Bool.false_eq_true]
  rfl

end NovaKernel

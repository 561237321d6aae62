import NovaKernel.Lib.Checked
import NovaKernel.User
import NovaKernel.LowFrames

set_option autoImplicit false

namespace NovaKernel

open Machine Mm FirstFit Checked

structure Room where
  mapped : Nat → Bool
  free : Nat

def room (s : Machine) (pd : Nat) : Room where
  mapped i := hasFlag (s.mem (tableOf s pd) i) pteP
  free := freeCount s.mm.bitmap frameCount

namespace Room

def missing (r : Room) (pages : List Nat) : Nat :=
  pages.countP fun i => !r.mapped i

def add (r : Room) (pages : List Nat) : Room where
  mapped i := r.mapped i || decide (i ∈ pages)
  free := r.free - r.missing pages

def map (r : Room) (vaddr memsz : Nat) : Option Room :=
  if memsz = 0 then some r
  else if vaddr / 2 ^ 22 % 1024 ≠ 0 then none
  else if r.missing (regionPages vaddr memsz) ≤ r.free then some (r.add (regionPages vaddr memsz))
  else none

end Room

/-- The sums the loader checks do not wrap, and what the file has beyond the segment's memory
lands below the stack top on mapped pages. -/
structure SegmentFits (size : Nat) (r : Room) (ph : Elf32Phdr) : Prop where
  file : ph.offset + ph.filesz ≤ size
  memory : ph.vaddr + ph.memsz ≤ userStackTop
  excess : ∀ v, ph.vaddr + ph.memsz ≤ v → v < ph.vaddr + ph.filesz →
    v < userStackTop ∧ r.mapped (v / 0x1000) = true

-- Of the segments that are reached: one that is rejected or cannot be mapped ends the loop.
def SegmentsFit (img : Nat → Byte) (size phoff : Nat) : Nat → Nat → Room → Prop
  | 0, _, _ => True
  | n + 1, i, r =>
    let ph := elf32Phdr img (phoff + i * sizeofPhdr)
    phoff + i * sizeofPhdr + sizeofPhdr ≤ size ∧
      if ph.type ≠ 1 then SegmentsFit img size phoff n (i + 1) r
      else if rejected size ph then True
      else match r.map ph.vaddr ph.memsz with
        | none => True
        | some r' => SegmentFits size r' ph ∧ SegmentsFit img size phoff n (i + 1) r'

/-- The image is refused at once, or its program headers and segments fit. -/
def ImageFits (img : Nat → Byte) (size : Nat) (r : Room) : Prop :=
  accepted img size = true →
    SegmentsFit img size (elf32Hdr img).phoff (elf32Hdr img).phnum 0 r

/-- The loaded address space is `pd`, it shares no page, and `r` describes it. -/
structure Loading (within : Nat → Prop) (live : Finset Nat) (pd : Nat) (s : Machine) (r : Room) :
    Prop where
  ready : Ready within s live
  member : pd ∈ live
  loaded : s.cr3 = pd
  unshared : ∀ i, InUserWindow i → hasFlag (s.mem (tableOf s pd) i) pteP = true →
    hasFlag (s.mem (tableOf s pd) i) pteW = true
  mapped : ∀ i < 1024, r.mapped i = hasFlag (s.mem (tableOf s pd) i) pteP
  free : r.free = freeCount s.mm.bitmap frameCount

section Loads

variable {within : Nat → Prop} {live : Finset Nat} {pd : Nat}

theorem loading_outside {s : Machine} {r : Room} (loading : Loading within live pd s r) {i : Nat}
    (first : i < 1024) (unmapped : r.mapped i = false) : InUserWindow i := by
  by_contra below
  rw [loading.mapped i first, loading.ready.spaces.outside pd loading.member i first below,
    present_entry] at unmapped
  exact absurd unmapped (by decide)

theorem loading_mapped {s s₁ : Machine} {r : Room} {i f : Nat}
    (loading : Loading within live pd s r) (inside : InUserWindow i)
    (unmapped : hasFlag (s.mem (tableOf s pd) i) pteP = false)
    (allocated : s.frameAlloc = (some f, s₁)) :
    Loading within live pd (mappedPage s (tableOf s pd) i f)
      { mapped := fun j => r.mapped j || decide (j = i), free := r.free - 1 } := by
  obtain ⟨-, bounded, free, -⟩ := machine_frameAlloc_some allocated
  have ready := loading.ready
  have table := (ready.spaces.mapped loading.member inside unmapped allocated).2 pd loading.member
  have entries : ∀ j, (mappedPage s (tableOf s pd) i f).mem (tableOf s pd) j =
      if j = i then entry f 7 else s.mem (tableOf s pd) j := by
    intro j
    rw [mappedPage_mem, setWord_mem]
    by_cases same : j = i <;> simp [same]
  constructor
  · exact ready_mapped ready loading.member inside unmapped allocated
  · exact loading.member
  · exact loading.loaded
  · intro j window present
    rw [table, entries] at present ⊢
    by_cases same : j = i
    · rw [if_pos same, writable_entry]
      decide
    · rw [if_neg same] at present ⊢
      exact loading.unshared j window present
  · intro j first
    rw [table, entries]
    by_cases same : j = i
    · rw [if_pos same, present_entry]
      simp [same]
      decide
    · rw [if_neg same, ← loading.mapped j first]
      simp [same]
  · have total := freeCount_takeFrame bounded free
    have count : freeCount (mappedPage s (tableOf s pd) i f).mm.bitmap frameCount =
        freeCount (takeFrame s f).mm.bitmap frameCount := rfl
    change r.free - 1 = _
    rw [count, loading.free]
    omega

theorem missing_cons_mapped {r : Room} {i : Nat} (mapped : r.mapped i = true) (pages : List Nat) :
    r.missing (i :: pages) = r.missing pages := by
  simp [Room.missing, mapped]

theorem missing_cons {r : Room} {i : Nat} (unmapped : r.mapped i = false) {pages : List Nat}
    (fresh : i ∉ pages) (free : Nat) :
    r.missing (i :: pages) =
      Room.missing { mapped := fun j => r.mapped j || decide (j = i), free := free } pages + 1 := by
  have same : pages.countP (fun j => !(r.mapped j || decide (j = i))) =
      pages.countP fun j => !r.mapped j :=
    List.countP_congr fun j hj => by
      have other : j ≠ i := fun h => fresh (h ▸ hj)
      simp [other]
  simp only [Room.missing, same, List.countP_cons, unmapped, Bool.not_false, if_true]

theorem mapUserPages_room {acc : Access} (reaches : Reaches acc within) (pages : List Nat)
    (nodup : pages.Nodup) (first : ∀ i ∈ pages, i < 1024) {s : Machine} {r : Room}
    (loading : Loading within live pd s r) :
    (r.missing pages ≤ r.free → ∃ s', mapUserPages acc (tableOf s pd) pages s = some (true, s') ∧
      Loading within live pd s' (r.add pages)) ∧
    (r.free < r.missing pages → ∃ s', mapUserPages acc (tableOf s pd) pages s = some (false, s') ∧
      ∃ r', Loading within live pd s' r') := by
  induction pages generalizing s r with
  | nil =>
    refine ⟨fun _ => ⟨s, rfl, ?_⟩, fun none => absurd none (Nat.not_lt_zero _)⟩
    exact { loading with
      mapped := fun i hi => by simpa [Room.add] using loading.mapped i hi
      free := by simpa [Room.add, Room.missing] using loading.free }
  | cons i rest ih =>
    obtain ⟨fresh, restNodup⟩ := List.nodup_cons.mp nodup
    have below := first i (by simp)
    have later := fun j (hj : j ∈ rest) => first j (by simp [hj])
    have tracked := loading.mapped i below
    rcases mapUserPage_cases loading.ready i loading.member with
      ⟨mapped, step⟩ | ⟨unmapped, ⟨s₁, full⟩, step⟩ | ⟨unmapped, f, s₁, allocated, step⟩
    · -- Mapped before: the count and the room do not change.
      rw [mapped] at tracked
      obtain ⟨enough, short⟩ := ih restNodup later loading
      have same : r.add (i :: rest) = r.add rest := by
        simp only [Room.add, missing_cons_mapped tracked, Room.mk.injEq, and_true]
        funext j
        by_cases hit : j = i <;> simp [hit, tracked]
      rw [missing_cons_mapped tracked, same]
      constructor
      · intro fits
        obtain ⟨s', run, loading'⟩ := enough fits
        refine ⟨s', ?_, loading'⟩
        simp only [mapUserPages, step acc reaches, Option.bind_eq_bind, Option.bind_some, if_true, run]
      · intro lacks
        obtain ⟨s', run, loading'⟩ := short lacks
        refine ⟨s', ?_, loading'⟩
        simp only [mapUserPages, step acc reaches, Option.bind_eq_bind, Option.bind_some, if_true, run]
    · -- No frame is left.
      rw [unmapped] at tracked
      have exhausted : r.free = 0 := by
        rw [loading.free]
        by_contra positive
        obtain ⟨g, bounded, unused⟩ := freeCount_pos_iff.mp (Nat.pos_of_ne_zero positive)
        have used := (machine_frameAlloc_none full).2 g bounded
        exact absurd (unused.symm.trans used) (by simp)
      have needs := missing_cons tracked fresh 0
      refine ⟨fun fits => by omega, fun _ => ⟨s, ?_, r, loading⟩⟩
      simp only [mapUserPages, step acc reaches, Option.bind_eq_bind, Option.bind_some,
        Bool.false_eq_true, if_false, Option.pure_def]
    · rw [unmapped] at tracked
      have inside := loading_outside loading below tracked
      have loading' := loading_mapped loading inside unmapped allocated
      have table := (loading.ready.spaces.mapped loading.member inside unmapped allocated).2 pd
        loading.member
      obtain ⟨-, bounded, free, -⟩ := machine_frameAlloc_some allocated
      have positive : 0 < r.free := by
        rw [loading.free]
        exact freeCount_pos_iff.mpr ⟨f, bounded, free⟩
      obtain ⟨enough, short⟩ := ih restNodup later loading'
      have needs := missing_cons tracked fresh (r.free - 1)
      rw [table] at enough short
      constructor
      · intro fits
        obtain ⟨s', run, loading''⟩ := enough (by simp only; omega)
        have same : Room.add { mapped := fun j => r.mapped j || decide (j = i), free := r.free - 1 } rest =
            r.add (i :: rest) := by
          simp only [Room.add, needs, Room.mk.injEq]
          constructor
          · funext j
            by_cases hit : j = i <;> simp [hit]
          · omega
        refine ⟨s', ?_, same ▸ loading''⟩
        simp only [mapUserPages, step acc reaches, Option.bind_eq_bind, Option.bind_some, if_true, run]
      · intro lacks
        obtain ⟨s', run, loading''⟩ := short (by simp only; omega)
        refine ⟨s', ?_, loading''⟩
        simp only [mapUserPages, step acc reaches, Option.bind_eq_bind, Option.bind_some, if_true, run]

theorem regionPages_first (vaddr nbytes : Nat) : ∀ i ∈ regionPages vaddr nbytes, i < 1024 := by
  intro i member
  simp only [regionPages, List.mem_range'_1] at member
  have last : (vaddr + nbytes + (2 ^ 32 - 1)) % 2 ^ 32 / 0x1000 % 1024 < 1024 :=
    Nat.mod_lt _ (by decide)
  omega

theorem mapRegion_call {acc : Access} (reaches : Reaches acc within) {s : Machine} {r : Room}
    (loading : Loading within live pd s r) {vaddr memsz : Nat} (nonempty : memsz ≠ 0) :
    pagingMapUserRegion acc s pd vaddr memsz =
      if vaddr / 2 ^ 22 % 1024 = 0 then mapUserPages acc (tableOf s pd) (regionPages vaddr memsz) s
      else some (false, s) := by
  have inv := loading.ready.spaces
  have pde := load_eq reaches (inv.lowIdentity loading.ready.loaded)
    (loading.ready.tables pd loading.member).1
    (vaddr / 2 ^ 22 % 1024)
  have index : vaddr / 2 ^ 22 % 1024 < 1024 := Nat.mod_lt _ (by decide)
  by_cases first : vaddr / 2 ^ 22 % 1024 = 0
  · have present : hasFlag (s.mem pd 0) pteP = true := by
      rw [inv.tableOf_dir loading.member, present_entry]
      decide
    have table : frameOf (s.mem pd 0) = tableOf s pd := rfl
    rw [first] at pde
    simp only [pagingMapUserRegion, nonempty, if_false, first, pde, present, table,
      Option.bind_eq_bind, Option.bind_some, Bool.not_true, Bool.false_eq_true, if_true]
  · have zero : s.mem pd (vaddr / 2 ^ 22 % 1024) = 0#32 := by
      rw [inv.dir pd loading.member _ index, if_neg first]
      rfl
    simp only [pagingMapUserRegion, nonempty, if_false, pde, zero, hasFlag_zero, Bool.not_false,
      if_true, Option.bind_eq_bind, Option.bind_some, Option.pure_def, first]

theorem mapRegion_room {acc : Access} (reaches : Reaches acc within) {s : Machine} {r : Room}
    (loading : Loading within live pd s r) (vaddr memsz : Nat) :
    (∀ r', r.map vaddr memsz = some r' → ∃ s', pagingMapUserRegion acc s pd vaddr memsz = some (true, s') ∧
      Loading within live pd s' r') ∧
    (r.map vaddr memsz = none → ∃ s', pagingMapUserRegion acc s pd vaddr memsz = some (false, s') ∧
      ∃ r', Loading within live pd s' r') := by
  by_cases empty : memsz = 0
  · rw [Room.map, if_pos empty, pagingMapUserRegion, if_pos empty]
    refine ⟨fun r' same => ⟨s, rfl, ?_⟩, fun h => absurd h (by simp)⟩
    obtain rfl := Option.some.inj same
    exact loading
  · rw [mapRegion_call reaches loading empty]
    by_cases beyond : vaddr / 2 ^ 22 % 1024 ≠ 0
    · rw [Room.map, if_neg empty, if_pos beyond, if_neg beyond]
      exact ⟨fun r' h => absurd h (by simp), fun _ => ⟨s, rfl, r, loading⟩⟩
    · have first : vaddr / 2 ^ 22 % 1024 = 0 := not_not.mp beyond
      obtain ⟨enough, short⟩ :=
        mapUserPages_room reaches (regionPages vaddr memsz) List.nodup_range'
        (regionPages_first vaddr memsz) loading
      rw [if_pos first, Room.map, if_neg empty, if_neg beyond]
      by_cases fits : r.missing (regionPages vaddr memsz) ≤ r.free
      · rw [if_pos fits]
        refine ⟨fun r' same => ?_, fun h => absurd h (by simp)⟩
        obtain rfl := Option.some.inj same
        exact enough fits
      · rw [if_neg fits]
        exact ⟨fun r' h => absurd h (by simp), fun _ => short (Nat.not_le.mp fits)⟩

def Writable (r : Room) (v : Nat) : Prop :=
  userTextBase ≤ v ∧ v < userStackTop ∧ r.mapped (v / 0x1000) = true

theorem userStore_mapped {s : Machine} {r : Room} (loading : Loading within live pd s r) {v : Nat}
    (inWindow : userTextBase ≤ v ∧ v < userStackTop)
    (present : hasFlag (s.mem (tableOf s pd) (v / 0x1000)) pteP = true) (value : Byte) :
    userStore s v value = .ok (s.putByte (frameOf (s.mem (tableOf s pd) (v / 0x1000))) (v % 0x1000) value) ∧
      Loading within live pd (s.putByte (frameOf (s.mem (tableOf s pd) (v / 0x1000))) (v % 0x1000) value) r := by
  have inv := loading.ready.spaces
  have member : s.cr3 ∈ live := loading.loaded ▸ loading.member
  have inside : InUserWindow (v / 0x1000) := by
    simp only [userTextBase, userStackTop, InUserWindow, userPgStart, userPgEnd] at inWindow ⊢
    omega
  have first : v / 0x1000 < 1024 := Nat.lt_trans inside.2 (by decide)
  obtain ⟨pde, bounded⟩ := inv.loadedTable loading.ready.loaded
  have walked := walk_eq pde bounded first
  rw [loading.loaded] at walked
  have writable := loading.unshared _ inside present
  rw [translationOf, if_pos present, writable] at walked
  have ready := ready_putByte loading.ready (v := v / 0x1000) member inside
    (by rwa [loading.loaded]) (v % 0x1000) value
  rw [loading.loaded] at ready
  have tables := inv.mapped_ne_table loading.member loading.member inside present
  have table : tableOf (s.putByte (frameOf (s.mem (tableOf s pd) (v / 0x1000))) (v % 0x1000) value)
      pd = tableOf s pd := tableOf_congr (setWord_mem_ne _ _ _ (Ne.symm tables.1))
  have entries : (s.putByte (frameOf (s.mem (tableOf s pd) (v / 0x1000))) (v % 0x1000) value).mem
      (tableOf s pd) = s.mem (tableOf s pd) := setWord_mem_ne _ _ _ (Ne.symm tables.2)
  refine ⟨by simp only [userStore, if_pos inWindow, walked, if_true],
    ready, loading.member, loading.loaded, ?_, ?_, loading.free⟩
  · rw [table, entries]
    exact loading.unshared
  · rw [table, entries]
    exact loading.mapped

theorem userStore_room {s : Machine} {r : Room} (loading : Loading within live pd s r) (v : Nat)
    (value : Byte) : Exactly (Writable r v) (Loading within live pd · r) (userStore s v value) := by
  by_cases inWindow : userTextBase ≤ v ∧ v < userStackTop
  · have first : v / 0x1000 < 1024 := by
      simp only [userTextBase, userStackTop] at inWindow
      omega
    have tracked := loading.mapped _ first
    by_cases present : hasFlag (s.mem (tableOf s pd) (v / 0x1000)) pteP = true
    · obtain ⟨stored, loading'⟩ := userStore_mapped loading inWindow present value
      have done : Exactly True (Loading within live pd · r) (userStore s v value) := by
        rw [stored]
        exact Exactly.ok loading'
      exact done.congr ⟨fun _ => ⟨inWindow.1, inWindow.2, tracked.trans present⟩, fun _ => trivial⟩
    · have absent : hasFlag (s.mem (tableOf s pd) (v / 0x1000)) pteP =
          false := by simpa using present
      obtain ⟨pde, bounded⟩ := loading.ready.spaces.loadedTable loading.ready.loaded
      have walked := walk_eq pde bounded first
      rw [loading.loaded, translationOf, if_neg present] at walked
      have refused : userStore s v value = .error (.address v) := by
        simp only [userStore, if_pos inWindow, walked]
      rw [refused]
      refine (Exactly.error _).congr ⟨False.elim, fun allowed => ?_⟩
      rw [Writable, tracked, absent] at allowed
      exact absurd allowed.2.2 (by simp)
  · have refused : userStore s v value = .error (.address v) := by
      simp only [userStore, if_neg inWindow]
    rw [refused]
    exact (Exactly.error _).congr ⟨False.elim, fun allowed => inWindow ⟨allowed.1, allowed.2.1⟩⟩

theorem memcpyImage_room (img : Nat → Byte) (size n dst src : Nat) {s : Machine} {r : Room}
    (loading : Loading within live pd s r) :
    Exactly (∀ k < n, src + k < size ∧ Writable r (dst + k)) (Loading within live pd · r)
      (memcpyImage img size dst src n s) := by
  induction n generalizing dst src s with
  | zero =>
    have unchanged : Exactly True (Loading within live pd · r) (memcpyImage img size dst src 0 s) :=
      Exactly.ok loading
    exact unchanged.congr ⟨fun _ k none => absurd none k.not_lt_zero, fun _ => trivial⟩
  | succ n ih =>
    have read : Exactly (src < size) (fun _ => True) (imageByte img size src) :=
      (Exactly.guard fun _ => Exactly.ok trivial).congr (and_iff_left trivial)
    have run := read.bind fun _ value _ =>
      (userStore_room loading dst value).bind fun _ s₁ loading₁ => ih (dst + 1) (src + 1) loading₁
    refine run.congr ?_
    rw [forall_lt_succ]
    simp only [Nat.add_zero, and_assoc, Nat.add_assoc, Nat.add_comm 1]

theorem memsetUser_room (n dst : Nat) {s : Machine} {r : Room}
    (loading : Loading within live pd s r) :
    Exactly (∀ k < n, Writable r (dst + k)) (Loading within live pd · r) (memsetUser dst n s) := by
  induction n generalizing dst s with
  | zero =>
    have unchanged : Exactly True (Loading within live pd · r) (memsetUser dst 0 s) :=
      Exactly.ok loading
    exact unchanged.congr ⟨fun _ k none => absurd none k.not_lt_zero, fun _ => trivial⟩
  | succ n ih =>
    have run := (userStore_room loading dst 0).bind fun _ s₁ loading₁ => ih (dst + 1) loading₁
    refine run.congr ?_
    rw [forall_lt_succ]
    simp only [Nat.add_zero, Nat.add_assoc, Nat.add_comm 1]

theorem map_mapped {r r' : Room} {vaddr memsz v : Nat} (mapped : r.map vaddr memsz = some r')
    (start : userTextBase ≤ vaddr) (stop : vaddr + memsz ≤ userStackTop) (low : vaddr ≤ v)
    (high : v < vaddr + memsz) : r'.mapped (v / 0x1000) = true := by
  have nonempty : memsz ≠ 0 := by omega
  have member : v / 0x1000 ∈ regionPages vaddr memsz := by
    simp only [regionPages, List.mem_range'_1, userTextBase, userStackTop] at *
    omega
  simp only [Room.map, if_neg nonempty] at mapped
  split at mapped
  · cases mapped
  · split at mapped
    · cases mapped
      simp [Room.add, member]
    · cases mapped

theorem segmentFits_iff {size : Nat} {r r' : Room} {ph : Elf32Phdr} (off : ph.offset < 2 ^ 32)
    (addr : ph.vaddr < 2 ^ 32) (accepted : rejected size ph = false)
    (mapped : r.map ph.vaddr ph.memsz = some r') :
    SegmentFits size r' ph ↔
      (∀ k < ph.filesz, ph.offset + k < size ∧ Writable r' (ph.vaddr + k)) ∧
        if ph.filesz < ph.memsz then
          ∀ k < ph.memsz - ph.filesz, Writable r' (ph.vaddr + ph.filesz + k)
        else True := by
  simp only [rejected, Bool.or_eq_false_iff, decide_eq_false_iff_not, Nat.not_lt] at accepted
  obtain ⟨⟨text, memory⟩, file⟩ := accepted
  constructor
  · intro fits
    have inside : ∀ v, ph.vaddr ≤ v → v < ph.vaddr + ph.memsz → Writable r' v := fun v low high =>
      ⟨Nat.le_trans text low, Nat.lt_of_lt_of_le high fits.memory,
        map_mapped mapped text fits.memory low high⟩
    constructor
    · intro k short
      refine ⟨by have := fits.file; omega, ?_⟩
      by_cases within' : k < ph.memsz
      · exact inside _ (by omega) (by omega)
      · obtain ⟨below, present⟩ := fits.excess (ph.vaddr + k) (by omega) (by omega)
        exact ⟨by omega, below, present⟩
    · split
      · exact fun k short => inside _ (by omega) (by omega)
      · trivial
  · rintro ⟨copied, filled⟩
    constructor
    · by_cases empty : ph.filesz = 0
      · rw [empty] at file ⊢
        omega
      · have last := (copied (ph.filesz - 1) (by omega)).1
        omega
    · by_cases empty : ph.memsz = 0
      · rw [empty] at memory ⊢
        omega
      · by_cases more : ph.filesz < ph.memsz
        · rw [if_pos more] at filled
          have last := (filled (ph.memsz - ph.filesz - 1) (by omega)).2.1
          omega
        · have last := (copied (ph.memsz - 1) (by omega)).2.2.1
          omega
    · intro v low high
      have copy := (copied (v - ph.vaddr) (by omega)).2
      rw [Nat.add_sub_cancel' (by omega)] at copy
      exact copy.2

theorem segment_room {α : Type} {img : Nat → Byte} {size : Nat} {r r' : Room} {ph : Elf32Phdr}
    {rest : Prop} {post : α → Prop} {next : Machine → Except Stray α} {s : Machine}
    (off : ph.offset < 2 ^ 32) (addr : ph.vaddr < 2 ^ 32) (accepted : rejected size ph = false)
    (mapped : r.map ph.vaddr ph.memsz = some r') (loading : Loading within live pd s r')
    (following : ∀ s', Loading within live pd s' r' → Exactly rest post (next s')) :
    Exactly (SegmentFits size r' ph ∧ rest) post (do
      let s ← memcpyImage img size ph.vaddr ph.offset ph.filesz s
      let s ← fillSegment ph s
      next s) := by
  have fill : ∀ s', Loading within live pd s' r' →
      Exactly (if ph.filesz < ph.memsz then ∀ k < ph.memsz - ph.filesz, Writable r' (ph.vaddr + ph.filesz + k)
        else True) (Loading within live pd · r')
        (fillSegment ph s') := fun s' loading' =>
    Exactly.ite (fun _ => memsetUser_room _ _ loading') fun _ => Exactly.ok loading'
  have copy := memcpyImage_room img size ph.filesz ph.vaddr ph.offset loading
  refine (copy.bind fun _ s₁ loading₁ => (fill s₁ loading₁).bind fun _ s₂ loading₂ =>
    following s₂ loading₂).congr ?_
  rw [segmentFits_iff off addr accepted mapped, and_assoc]

theorem loadSegments_room {acc : Access} (reaches : Reaches acc within) (img : Nat → Byte)
    (size phoff n i : Nat) {s : Machine} {r : Room} (loading : Loading within live pd s r) :
    Exactly (SegmentsFit img size phoff n i r) (fun result => ∃ r', Loading within live pd result.2 r')
      (loadSegments img size acc pd phoff n i s) := by
  induction n generalizing i s r with
  | zero => exact Exactly.ok ⟨r, loading⟩
  | succ n ih =>
    simp only [SegmentsFit, loadSegments]
    have read : Exactly (phoff + i * sizeofPhdr + sizeofPhdr ≤ size)
        (elf32Phdr img (phoff + i * sizeofPhdr) = ·) (imagePhdr img size (phoff + i * sizeofPhdr)) :=
      (Exactly.guard fun _ => Exactly.ok rfl).congr (and_iff_left trivial)
    refine read.bind ?_
    rintro - ph rfl
    refine Exactly.ite (fun _ => ih (i + 1) loading) fun _ => ?_
    refine Exactly.ite (fun _ => Exactly.ok ⟨r, loading⟩) fun accepted => ?_
    obtain ⟨enough, short⟩ := mapRegion_room reaches loading
      (elf32Phdr img (phoff + i * sizeofPhdr)).vaddr (elf32Phdr img (phoff + i * sizeofPhdr)).memsz
    cases mapped : r.map (elf32Phdr img (phoff + i * sizeofPhdr)).vaddr
        (elf32Phdr img (phoff + i * sizeofPhdr)).memsz with
    | none =>
      obtain ⟨s', run, r', loading'⟩ := short mapped
      rw [run]
      exact Exactly.ok ⟨r', loading'⟩
    | some r' =>
      obtain ⟨s', run, loading'⟩ := enough r' mapped
      rw [run]
      exact segment_room (u32At_lt _ _) (u32At_lt _ _) (by simpa using accepted) mapped loading'
        fun s₂ loading₂ => ih (i + 1) loading₂

theorem userLoadElf_room {acc : Access} (reaches : Reaches acc within) (img : Nat → Byte)
    (size : Nat) {s : Machine} {r : Room} (loading : Loading within live pd s r) :
    Exactly (ImageFits img size r) (fun result => ∃ r', Loading within live pd result.2 r')
      (userLoadElf img size acc s pd) := by
  by_cases valid : accepted img size = true
  · rw [userLoadElf, if_pos valid]
    have run := (loadSegments_room reaches img size (elf32Hdr img).phoff (elf32Hdr img).phnum 0 loading).bind fun _ result loading' =>
        (Exactly.ok loading' : Exactly True (fun result : Nat × Machine => ∃ r', Loading within live pd result.2 r')
          (.ok (if result.1 then (elf32Hdr img).entry else 0, result.2) : Except Stray (Nat × Machine)))
    exact run.congr ⟨fun h _ => h.1, fun h => ⟨h valid, trivial⟩⟩
  · rw [userLoadElf, if_neg valid]
    have refused : Exactly True (fun result : Nat × Machine => ∃ r', Loading within live pd result.2 r')
        (.ok (0, s) : Except Stray (Nat × Machine)) := Exactly.ok ⟨r, loading⟩
    exact refused.congr ⟨fun _ h => absurd h valid, fun _ => trivial⟩

end Loads

end NovaKernel

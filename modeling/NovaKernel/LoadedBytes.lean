import NovaKernel.UserImage

set_option autoImplicit false

namespace NovaKernel

open Machine Mm FirstFit Checked

def userByte (s : Machine) (a : Nat) : Option Byte :=
  (s.walk (a / 0x1000)).bind fun t => if t.user then some (s.getByte t.frame (a % 0x1000)) else none

theorem userByte_congr {s s' : Machine} (mem : s'.mem = s.mem) (cr3 : s'.cr3 = s.cr3) (a : Nat) :
    userByte s' a = userByte s a := by
  have walk : s'.walk (a / 0x1000) = s.walk (a / 0x1000) := by
    rw [Machine.walk, Machine.walk, mem, cr3]
  have byte : s'.getByte = s.getByte := by
    funext f off
    rw [getByte, getByte, mem]
  rw [userByte, userByte, walk, byte]

-- The bytes of a segment that are stored: those of the file, and zeros.
def segmentSize (ph : Elf32Phdr) : Nat := max ph.filesz ph.memsz

def segmentPages (ph : Elf32Phdr) : List Nat :=
  if ph.memsz = 0 then [] else regionPages ph.vaddr ph.memsz

def stackPages : List Nat := regionPages (userStackTop - 0x2000) 0x2000

def Covered (img : Nat → Byte) : Prop :=
  ∀ a, a / 0x1000 ∈ stackPages ∨ (∃ i, IsLoad img i ∧ a / 0x1000 ∈ segmentPages (segment img i)) →
    ∃ i, IsLoad img i ∧ (segment img i).vaddr ≤ a ∧
      a < (segment img i).vaddr + segmentSize (segment img i)

-- The stores of a segment over those before it.
def segmentBytes (img : Nat → Byte) (ph : Elf32Phdr) (bytes : Nat → Option Byte) :
    Nat → Option Byte := fun a =>
  if ph.vaddr ≤ a ∧ a < ph.vaddr + segmentSize ph then some (segmentByte img ph (a - ph.vaddr)) else bytes a

def segmentsBytes (img : Nat → Byte) (phoff : Nat) :
    Nat → Nat → (Nat → Option Byte) → Nat → Option Byte
  | 0, _, bytes => bytes
  | n + 1, i, bytes =>
    let ph := elf32Phdr img (phoff + i * sizeofPhdr)
    segmentsBytes img phoff n (i + 1) (if ph.type ≠ 1 then bytes else segmentBytes img ph bytes)

def segmentsRoom (img : Nat → Byte) (size phoff : Nat) : Nat → Nat → Room → Option Room
  | 0, _, r => some r
  | n + 1, i, r =>
    let ph := elf32Phdr img (phoff + i * sizeofPhdr)
    if ph.type ≠ 1 then segmentsRoom img size phoff n (i + 1) r
    else if rejected size ph then none
    else (r.map ph.vaddr ph.memsz).bind (segmentsRoom img size phoff n (i + 1))

structure Shows (pd : Nat) (s₀ : Machine) (bytes : Nat → Option Byte) (s : Machine) : Prop where
  free : ∀ f < frameCount, s.mm.bitmap f = false → s₀.mm.bitmap f = false ∧ s.mem f = s₀.mem f
  written : ∀ a b, bytes a = some b → seen s pd a = some b
  old : ∀ a, bytes a = none → seen s pd a ≠ none →
    ∃ f < frameCount, s₀.mm.bitmap f = false ∧ seen s pd a = some (s₀.getByte f (a % 0x1000))

def writeBytes (bytes : Nat → Option Byte) (dst n : Nat) (value : Nat → Byte) :
    Nat → Option Byte := fun a =>
  if dst ≤ a ∧ a < dst + n then some (value (a - dst)) else bytes a

theorem writeBytes_zero (bytes : Nat → Option Byte) (dst : Nat) (value : Nat → Byte) :
    writeBytes bytes dst 0 value = bytes := by
  funext a
  rw [writeBytes, if_neg (by omega)]

theorem writeBytes_succ (bytes : Nat → Option Byte) (dst n : Nat) (value : Nat → Byte) :
    writeBytes (writeBytes bytes dst 1 fun _ => value 0) (dst + 1) n (fun k => value (k + 1)) =
      writeBytes bytes dst (n + 1) value := by
  funext a
  rw [writeBytes, writeBytes, writeBytes]
  by_cases later : dst + 1 ≤ a ∧ a < dst + 1 + n
  · have shift : a - (dst + 1) + 1 = a - dst := by omega
    rw [if_pos later, if_pos (by omega), shift]
  · rw [if_neg later]
    by_cases here : dst ≤ a ∧ a < dst + 1
    · have start : a - dst = 0 := by omega
      rw [if_pos here, if_pos (by omega), start]
    · rw [if_neg here, if_neg (by omega)]

section Shown

variable {live : Finset Nat} {pd : Nat} {s₀ s : Machine} {bytes : Nat → Option Byte} {r : Room}

theorem seen_ne_none_iff (loading : Loading (fun _ => True) live pd s r) (a : Nat) :
    seen s pd a ≠ none ↔ InUserWindow (a / 0x1000) ∧ r.mapped (a / 0x1000) = true := by
  constructor
  · intro mapped
    obtain ⟨inside, present⟩ := seen_present mapped
    rw [loading.mapped _ (Nat.lt_trans inside.2 (by decide))]
    exact ⟨inside, present⟩
  · rintro ⟨inside, present⟩
    rw [loading.mapped _ (Nat.lt_trans inside.2 (by decide))] at present
    rw [seen, contents, if_pos ⟨inside, present⟩]
    exact Option.some_ne_none _

theorem shows_wrote {s' : Machine} {dst n : Nat} {value : Nat → Byte} (shows' : Shows pd s₀ bytes s)
    (wrote : Wrote pd s s' dst n value) (bitmap : s'.mm.bitmap = s.mm.bitmap)
    (free : ∀ f < frameCount, s.mm.bitmap f = false → s'.mem f = s.mem f) :
    Shows pd s₀ (writeBytes bytes dst n value) s' := by
  constructor
  · intro f bounded unused
    rw [bitmap] at unused
    obtain ⟨before, same⟩ := shows'.free f bounded unused
    exact ⟨before, (free f bounded unused).trans same⟩
  · intro a b stored
    rw [wrote a]
    rw [writeBytes] at stored
    split at stored
    · next here => rw [if_pos here, stored]
    · next other =>
      rw [if_neg other]
      exact shows'.written a b stored
  · intro a unstored mapped
    rw [writeBytes] at unstored
    rw [wrote a] at mapped ⊢
    split at unstored
    · cases unstored
    · next other =>
      rw [if_neg other] at mapped ⊢
      exact shows'.old a unstored mapped

theorem mapped_used (loading : Loading (fun _ => True) live pd s r) {i f : Nat}
    (inside : InUserWindow i) (present : hasFlag (s.mem (tableOf s pd) i) pteP = true)
    (bounded : f < frameCount) (unused : s.mm.bitmap f = false) :
    f ≠ frameOf (s.mem (tableOf s pd) i) := by
  rintro rfl
  have held := (loading.ready.spaces.mapped_frame loading.member inside present).2.1
  have used := (loading.ready.spaces.used _ bounded).mpr (.inr (.inr held))
  rw [used] at unused
  cases unused

theorem userStore_shows (loading : Loading (fun _ => True) live pd s r)
    (shows' : Shows pd s₀ bytes s) (v : Nat) (value : Byte) :
    Exactly (Writable r v) (fun s' => Loading (fun _ => True) live pd s' r ∧
      Shows pd s₀ (writeBytes bytes v 1 fun _ => value) s') (userStore s v value) := by
  have exact' := userStore_room loading v value
  refine ⟨fun writable => ?_, exact'.refuses⟩
  obtain ⟨text, top, mapped⟩ := writable
  have inside : InUserWindow (v / 0x1000) := by
    simp only [userTextBase, userStackTop, InUserWindow, userPgStart, userPgEnd] at *
    omega
  rw [loading.mapped _ (Nat.lt_trans inside.2 (by decide))] at mapped
  obtain ⟨stored, loading'⟩ := userStore_mapped loading ⟨text, top⟩ mapped value
  refine ⟨_, stored, loading', shows_wrote shows' (stored_wrote loading inside mapped value) rfl ?_⟩
  intro f bounded unused
  exact setWord_mem_ne _ _ _ (mapped_used loading inside mapped bounded unused)

theorem memcpyImage_shows (img : Nat → Byte) (size n dst src : Nat)
    (loading : Loading (fun _ => True) live pd s r) (shows' : Shows pd s₀ bytes s) :
    Exactly (∀ k < n, src + k < size ∧ Writable r (dst + k))
      (fun s' => Loading (fun _ => True) live pd s' r ∧
        Shows pd s₀ (writeBytes bytes dst n fun k => img (src + k)) s')
      (memcpyImage img size dst src n s) := by
  induction n generalizing dst src s bytes with
  | zero =>
    have unchanged : Exactly True (fun s' => Loading (fun _ => True) live pd s' r ∧
        Shows pd s₀ (writeBytes bytes dst 0 fun k => img (src + k)) s') (memcpyImage img size dst src 0 s) :=
      Exactly.ok ⟨loading, by rwa [writeBytes_zero]⟩
    exact unchanged.congr ⟨fun _ k none => absurd none k.not_lt_zero, fun _ => trivial⟩
  | succ n ih =>
    have read : Exactly (src < size) (img src = ·) (imageByte img size src) :=
      (Exactly.guard fun _ => Exactly.ok rfl).congr (and_iff_left trivial)
    have first := userStore_shows loading shows' dst (img (src + 0))
    have rest := first.bind fun _ s₁ shown₁ => ih (dst + 1) (src + 1) shown₁.1 shown₁.2
    have later : (fun k => img (src + 1 + k)) = fun k => img (src + (k + 1)) := by
      funext k
      rw [Nat.add_assoc, Nat.add_comm 1 k]
    rw [later, writeBytes_succ bytes dst n fun k => img (src + k)] at rest
    refine (read.bind (q := Writable r dst ∧ ∀ k < n, src + 1 + k < size ∧ Writable r (dst + 1 + k)) ?_).congr ?_
    · rintro - value rfl
      exact rest
    · rw [forall_lt_succ]
      simp only [Nat.add_zero, and_assoc, Nat.add_assoc, Nat.add_comm 1]

theorem memsetUser_shows (n dst : Nat) (loading : Loading (fun _ => True) live pd s r)
    (shows' : Shows pd s₀ bytes s) :
    Exactly (∀ k < n, Writable r (dst + k))
      (fun s' => Loading (fun _ => True) live pd s' r ∧ Shows pd s₀ (writeBytes bytes dst n fun _ => 0) s')
      (memsetUser dst n s) := by
  induction n generalizing dst s bytes with
  | zero =>
    have unchanged : Exactly True (fun s' => Loading (fun _ => True) live pd s' r ∧
        Shows pd s₀ (writeBytes bytes dst 0 fun _ => 0) s') (memsetUser dst 0 s) :=
      Exactly.ok ⟨loading, by rwa [writeBytes_zero]⟩
    exact unchanged.congr ⟨fun _ k none => absurd none k.not_lt_zero, fun _ => trivial⟩
  | succ n ih =>
    have run := (userStore_shows loading shows' dst 0).bind fun _ s₁ shown₁ =>
      ih (dst + 1) shown₁.1 shown₁.2
    rw [writeBytes_succ bytes dst n fun _ => 0] at run
    refine run.congr ?_
    rw [forall_lt_succ]
    simp only [Nat.add_zero, Nat.add_assoc, Nat.add_comm 1]

theorem shows_mapped (loading : Loading (fun _ => True) live pd s r) (shows' : Shows pd s₀ bytes s)
    {i f : Nat} {s₁ : Machine} (inside : InUserWindow i)
    (unmapped : hasFlag (s.mem (tableOf s pd) i) pteP = false)
    (allocated : s.frameAlloc = (some f, s₁)) :
    Shows pd s₀ bytes (mappedPage s (tableOf s pd) i f) := by
  have ready := loading.ready
  have more := mappedMore_page ready loading.member inside unmapped allocated
  obtain ⟨-, bounded, unused, -⟩ := machine_frameAlloc_some allocated
  have fresh := ready.spaces.fresh bounded unused
  have frame : (mappedPage s (tableOf s pd) i f).mem f = s.mem f := by
    rw [mappedPage_mem, setWord_mem_ne _ _ _ (fresh.2.2 pd loading.member).2]
  constructor
  · intro g low free
    have other : g ≠ f := by
      rintro rfl
      have taken : (mappedPage s (tableOf s pd) i g).mm.bitmap g = true := Function.update_self ..
      rw [taken] at free
      cases free
    have before : s.mm.bitmap g = false := (Function.update_of_ne other _ _).symm.trans free
    have table : g ≠ tableOf s pd := by
      rintro rfl
      have used := (ready.spaces.used _ low).mpr (.inr (.inl ⟨pd, loading.member, .inr rfl⟩))
      rw [used] at before
      cases before
    obtain ⟨first, same⟩ := shows'.free g low before
    refine ⟨first, Eq.trans ?_ same⟩
    rw [mappedPage_mem, setWord_mem_ne _ _ _ table]
  · intro a b stored
    have shown := shows'.written a b stored
    rcases more.grown (a / 0x1000) with same | ⟨none', -⟩
    · rw [seen, same]
      exact shown
    · rw [seen, none'] at shown
      cases shown
  · intro a unstored mapped
    by_cases page : a / 0x1000 = i
    · have entry' : (mappedPage s (tableOf s pd) i f).mem (tableOf s pd) i = entry f 7 := by
        rw [mappedPage_mem, setWord_mem, if_pos ⟨rfl, rfl⟩]
      have present : hasFlag (entry f 7) pteP = true := by
        rw [present_entry]
        decide
      obtain ⟨first, same⟩ := shows'.free f bounded unused
      refine ⟨f, bounded, first, ?_⟩
      rw [seen, contents, page, more.table, entry', if_pos ⟨inside, present⟩, Option.map_some,
        frameOf_entry bounded (by decide), getByte, getByte, frame, same]
    · rcases more.grown (a / 0x1000) with same | ⟨-, here⟩
      · rw [seen, same] at mapped ⊢
        exact shows'.old a unstored mapped
      · exact absurd (List.mem_singleton.mp here) page

theorem mapUserPages_shows (pages : List Nat) (first : ∀ i ∈ pages, i < 1024) {s s' : Machine}
    {r : Room} {ok : Bool}
    (loading : Loading (fun _ => True) live pd s r) (shows' : Shows pd s₀ bytes s)
    (run : mapUserPages physical (tableOf s pd) pages s = some (ok, s')) :
    Shows pd s₀ bytes s' := by
  induction pages generalizing s r with
  | nil =>
    obtain ⟨-, rfl⟩ := Prod.mk.inj (Option.some.inj run)
    exact shows'
  | cons i rest ih =>
    have later := fun j (hj : j ∈ rest) => first j (List.mem_cons_of_mem i hj)
    have below := first i (List.mem_cons_self ..)
    rcases mapUserPage_cases loading.ready i loading.member with
      ⟨-, step⟩ | ⟨-, -, step⟩ | ⟨unmapped, f, s₁, allocated, step⟩
    · simp only [mapUserPages, step physical physical_reaches, Option.bind_eq_bind,
        Option.bind_some, if_true] at run
      exact ih later loading shows' run
    · simp only [mapUserPages, step physical physical_reaches, Option.bind_eq_bind,
        Option.bind_some, Bool.false_eq_true, if_false, Option.pure_def] at run
      obtain ⟨-, rfl⟩ := Prod.mk.inj (Option.some.inj run)
      exact shows'
    · have inside := loading_outside loading below ((loading.mapped i below).trans unmapped)
      have table := (loading.ready.spaces.mapped loading.member inside unmapped allocated).2 pd loading.member
      simp only [mapUserPages, step physical physical_reaches, Option.bind_eq_bind,
        Option.bind_some, if_true] at run
      apply ih (s := mappedPage s (tableOf s pd) i f) later (loading_mapped loading inside unmapped allocated)
        (shows_mapped loading shows' inside unmapped allocated)
      rwa [table]

theorem mapRegion_shows (loading : Loading (fun _ => True) live pd s r)
    (shows' : Shows pd s₀ bytes s) {vaddr memsz : Nat} {ok : Bool} {s' : Machine}
    (run : pagingMapUserRegion physical s pd vaddr memsz = some (ok, s')) :
    Shows pd s₀ bytes s' := by
  by_cases empty : memsz = 0
  · rw [pagingMapUserRegion, if_pos empty] at run
    obtain ⟨-, rfl⟩ := Prod.mk.inj (Option.some.inj run)
    exact shows'
  · rw [mapRegion_call physical_reaches loading empty] at run
    split at run
    · exact mapUserPages_shows (regionPages vaddr memsz)
        (regionPages_first vaddr memsz) loading shows' run
    · obtain ⟨-, rfl⟩ := Prod.mk.inj (Option.some.inj run)
      exact shows'

theorem segmentBytes_filled (img : Nat → Byte) {ph : Elf32Phdr} (more : ph.filesz < ph.memsz) :
    writeBytes (writeBytes bytes ph.vaddr ph.filesz fun k => img (ph.offset + k)) (ph.vaddr + ph.filesz)
      (ph.memsz - ph.filesz) (fun _ => 0) = segmentBytes img ph bytes := by
  have size : segmentSize ph = ph.memsz := Nat.max_eq_right (Nat.le_of_lt more)
  funext a
  rw [writeBytes, writeBytes, segmentBytes, size, segmentByte]
  by_cases zeros : ph.vaddr + ph.filesz ≤ a ∧ a < ph.vaddr + ph.filesz + (ph.memsz - ph.filesz)
  · rw [if_pos zeros, if_pos (by omega), if_neg (by omega)]
  · by_cases file : ph.vaddr ≤ a ∧ a < ph.vaddr + ph.filesz
    · rw [if_neg zeros, if_pos file, if_pos (by omega), if_pos (by omega)]
    · rw [if_neg zeros, if_neg file, if_neg (by omega)]

theorem segmentBytes_file (img : Nat → Byte) {ph : Elf32Phdr} (all : ¬ ph.filesz < ph.memsz) :
    (writeBytes bytes ph.vaddr ph.filesz fun k => img (ph.offset + k)) = segmentBytes img ph bytes := by
  have size : segmentSize ph = ph.filesz := Nat.max_eq_left (Nat.le_of_not_lt all)
  funext a
  rw [writeBytes, segmentBytes, size, segmentByte]
  by_cases file : ph.vaddr ≤ a ∧ a < ph.vaddr + ph.filesz
  · rw [if_pos file, if_pos file, if_pos (by omega)]
  · rw [if_neg file, if_neg file]

theorem fillSegment_shows (img : Nat → Byte) (ph : Elf32Phdr)
    (loading : Loading (fun _ => True) live pd s r)
    (shows' : Shows pd s₀ (writeBytes bytes ph.vaddr ph.filesz fun k => img (ph.offset + k)) s) :
    Exactly (if ph.filesz < ph.memsz then
        ∀ k < ph.memsz - ph.filesz, Writable r (ph.vaddr + ph.filesz + k) else True)
      (fun s' => Loading (fun _ => True) live pd s' r ∧ Shows pd s₀ (segmentBytes img ph bytes) s')
      (fillSegment ph s) := by
  apply Exactly.ite
  · intro more
    rw [← segmentBytes_filled img more]
    exact memsetUser_shows _ _ loading shows'
  · intro all
    rw [← segmentBytes_file img all]
    exact Exactly.ok ⟨loading, shows'⟩

theorem segment_shows {α : Type} {img : Nat → Byte} {size : Nat} {r' : Room} {ph : Elf32Phdr}
    {rest : Prop} {post : α → Prop} {next : Machine → Except Stray α} (off : ph.offset < 2 ^ 32)
    (addr : ph.vaddr < 2 ^ 32) (accepted : rejected size ph = false)
    (mapped : r.map ph.vaddr ph.memsz = some r') (loading : Loading (fun _ => True) live pd s r')
    (shows' : Shows pd s₀ bytes s)
    (following : ∀ s', Loading (fun _ => True) live pd s' r' → Shows pd s₀ (segmentBytes img ph bytes) s' →
      Exactly rest post (next s')) :
    Exactly (SegmentFits size r' ph ∧ rest) post (do
      let s ← memcpyImage img size ph.vaddr ph.offset ph.filesz s
      let s ← fillSegment ph s
      next s) := by
  have copy := memcpyImage_shows img size ph.filesz ph.vaddr ph.offset loading shows'
  refine (copy.bind fun _ s₁ shown₁ => (fillSegment_shows img ph shown₁.1 shown₁.2).bind fun _ s₂ shown₂ =>
    following s₂ shown₂.1 shown₂.2).congr ?_
  rw [segmentFits_iff off addr accepted mapped, and_assoc]

theorem loadSegments_shows (img : Nat → Byte) (size phoff n i : Nat)
    (loading : Loading (fun _ => True) live pd s r)
    (shows' : Shows pd s₀ bytes s) :
    Exactly (SegmentsFit img size phoff n i r)
      (fun result => result.1 = (segmentsRoom img size phoff n i r).isSome ∧
        ∀ r', segmentsRoom img size phoff n i r = some r' →
          Loading (fun _ => True) live pd result.2 r' ∧
          Shows pd s₀ (segmentsBytes img phoff n i bytes) result.2)
      (loadSegments img size physical pd phoff n i s) := by
  induction n generalizing i s r bytes with
  | zero =>
    refine Exactly.ok ⟨rfl, fun r' same => ?_⟩
    obtain rfl := Option.some.inj same
    exact ⟨loading, shows'⟩
  | succ n ih =>
    simp only [SegmentsFit, loadSegments, segmentsRoom, segmentsBytes]
    have read : Exactly (phoff + i * sizeofPhdr + sizeofPhdr ≤ size)
        (elf32Phdr img (phoff + i * sizeofPhdr) = ·) (imagePhdr img size (phoff + i * sizeofPhdr)) :=
      (Exactly.guard fun _ => Exactly.ok rfl).congr (and_iff_left trivial)
    refine read.bind ?_
    rintro - ph rfl
    by_cases other : (elf32Phdr img (phoff + i * sizeofPhdr)).type ≠ 1
    · simp only [if_pos other]
      exact ih (i + 1) loading shows'
    · simp only [if_neg other]
      by_cases refused : rejected size (elf32Phdr img (phoff + i * sizeofPhdr)) = true
      · simp only [if_pos refused]
        exact Exactly.ok ⟨rfl, fun r' none' => by cases none'⟩
      · simp only [if_neg refused]
        obtain ⟨enough, short⟩ := mapRegion_room physical_reaches loading
          (elf32Phdr img (phoff + i * sizeofPhdr)).vaddr (elf32Phdr img (phoff + i * sizeofPhdr)).memsz
        cases mapped : r.map (elf32Phdr img (phoff + i * sizeofPhdr)).vaddr
            (elf32Phdr img (phoff + i * sizeofPhdr)).memsz with
        | none =>
          obtain ⟨s', run, -⟩ := short mapped
          rw [run]
          exact Exactly.ok ⟨rfl, fun r' none' => by cases none'⟩
        | some r' =>
          obtain ⟨s', run, loading'⟩ := enough r' mapped
          have shown := mapRegion_shows loading shows' run
          rw [run]
          exact segment_shows (u32At_lt _ _) (u32At_lt _ _)
            (by simpa using refused) mapped loading' shown
            fun s₂ loading₂ shown₂ => ih (i + 1) loading₂ shown₂

theorem userByte_seen (loading : Loading (fun _ => True) live pd s r) {a : Nat}
    (word : a < 2 ^ 32) :
    userByte s a = seen s pd a := by
  by_cases mapped : seen s pd a = none
  · rw [mapped, userByte, Option.bind_eq_none_iff]
    intro t found
    rw [if_neg]
    intro user
    have member : s.cr3 ∈ live := loading.loaded ▸ loading.member
    obtain ⟨inside, present, -⟩ := user_page loading.ready.spaces member (by omega) found user
    rw [loading.loaded] at present
    rw [seen, contents, if_pos ⟨inside, present⟩] at mapped
    cases mapped
  · obtain ⟨inside, present⟩ := seen_present mapped
    rw [userByte, loading_walk loading inside present, seen, contents, if_pos ⟨inside, present⟩]
    rfl

end Shown

def freshRoom (s : Machine) : Room where
  mapped i := !decide (InUserWindow i)
  free := freeCount s.mm.bitmap frameCount

section Fresh

variable {live : Finset Nat} {s m : Machine} {pd pt : Nat}

theorem freshSpace_shows (ready : Ready (fun _ => True) s live)
    (allocated : allocTables s = (some (pd, pt), m)) :
    Loading (fun _ => True) (insert pd live) pd ((createdSpace s pd pt).pagingSwitch pd) (freshRoom m) ∧
      Shows pd s (fun _ => none) ((createdSpace s pd pt).pagingSwitch pd) := by
  obtain ⟨taken, pdBounded, ptBounded, other, pdFree, ptFree⟩ := allocTables_some allocated
  obtain ⟨-, newTable, new, -⟩ := ready.spaces.created allocated
  have member := Finset.mem_insert_self pd live
  have ready₁ := ready_switched (ready_created ready allocated ⟨trivial, trivial⟩) pd (.inl member)
  have table : tableOf ((createdSpace s pd pt).pagingSwitch pd) pd = pt := newTable
  have entries : ∀ i < 1024, ((createdSpace s pd pt).pagingSwitch pd).mem pt i =
      if InUserWindow i then 0#32 else entry i 3 := by
    intro i first
    refine (congrFun (createdSpace_table s other) i).trans ?_
    rw [emptyTable]
    split
    · rfl
    · next outside => rw [ready.spaces.kernelTable i first, if_neg outside]
  have unseen : ∀ a, seen ((createdSpace s pd pt).pagingSwitch pd) pd a = none := by
    intro a
    have none' : contents ((createdSpace s pd pt).pagingSwitch pd) pd = fun _ => none :=
      (contents_created ready allocated).1
    rw [seen, none']
    rfl
  constructor
  · refine ⟨ready₁, member, rfl, fun i inside present => ?_, fun i first => ?_, ?_⟩
    · rw [table, entries i (Nat.lt_trans inside.2 (by decide)), if_pos inside,
        hasFlag_zero] at present
      cases present
    · rw [table, entries i first, freshRoom]
      by_cases inside : InUserWindow i
      · simp [inside]
      · rw [if_neg inside, present_entry]
        simp only [inside, decide_false, Bool.not_false]
        decide
    · have mm : ((createdSpace s pd pt).pagingSwitch pd).mm = m.mm := by
        rw [taken]
        rfl
      rw [mm, freshRoom]
  · refine ⟨fun f _ free => ?_, fun _ _ stored => (by cases stored),
      fun a _ mapped => absurd (unseen a) mapped⟩
    have bitmap : ((createdSpace s pd pt).pagingSwitch pd).mm.bitmap =
        Function.update (Function.update s.mm.bitmap pd true) pt true := rfl
    rw [bitmap] at free
    by_cases isTable : f = pt
    · rw [isTable, Function.update_self] at free
      cases free
    · rw [Function.update_of_ne isTable] at free
      by_cases isDir : f = pd
      · rw [isDir, Function.update_self] at free
        cases free
      · rw [Function.update_of_ne isDir] at free
        exact ⟨free, createdSpace_kept s isDir isTable⟩

theorem userLoadElf_shows (ready : Ready (fun _ => True) s live)
    (allocated : allocTables s = (some (pd, pt), m)) (img : Nat → Byte) (size : Nat) :
    Exactly (ImageFits img size (freshRoom m))
      (fun result =>
        result.1 = (if accepted img size = true ∧
          (segmentsRoom img size (elf32Hdr img).phoff (elf32Hdr img).phnum 0 (freshRoom m)).isSome then
            (elf32Hdr img).entry else 0) ∧
        (accepted img size = true → ∀ r',
          segmentsRoom img size (elf32Hdr img).phoff (elf32Hdr img).phnum 0 (freshRoom m) = some r' →
          Loading (fun _ => True) (insert pd live) pd result.2 r' ∧
            Shows pd s (segmentsBytes img (elf32Hdr img).phoff (elf32Hdr img).phnum 0 fun _ => none) result.2))
      (userLoadElf img size physical ((createdSpace s pd pt).pagingSwitch pd) pd) := by
  obtain ⟨loading, shows'⟩ := freshSpace_shows ready allocated
  by_cases valid : accepted img size = true
  · have run := loadSegments_shows img size (elf32Hdr img).phoff
      (elf32Hdr img).phnum 0 loading shows'
    rw [userLoadElf, if_pos valid]
    refine (run.bind (q := True) ?_).congr ⟨fun h _ => h.1, fun h => ⟨h valid, trivial⟩⟩
    rintro - ⟨loaded, s'⟩ ⟨flag, shown⟩
    refine Exactly.ok ⟨?_, fun _ => shown⟩
    simp only at flag
    simp only [flag, valid, true_and]
  · rw [userLoadElf, if_neg valid]
    have refused : (0 : Nat) = if accepted img size = true ∧
        (segmentsRoom img size (elf32Hdr img).phoff (elf32Hdr img).phnum 0 (freshRoom m)).isSome then
          (elf32Hdr img).entry else 0 := (if_neg fun both => valid both.1).symm
    exact (Exactly.ok ⟨refused, fun valid' => absurd valid' valid⟩).congr
      ⟨fun _ h => absurd h valid, fun _ => trivial⟩

end Fresh

section Images

variable {img : Nat → Byte} {size phoff : Nat}

theorem mem_segmentPages (ph : Elf32Phdr) (p : Nat) :
    p ∈ segmentPages ph ↔ ph.memsz ≠ 0 ∧ p ∈ regionPages ph.vaddr ph.memsz := by
  rw [segmentPages]
  split
  · next empty => simp [empty]
  · next nonempty => simp [nonempty]

theorem map_pages {r r' : Room} {vaddr memsz : Nat} (mapped : r.map vaddr memsz = some r')
    (p : Nat) :
    r'.mapped p = true ↔ r.mapped p = true ∨ memsz ≠ 0 ∧ p ∈ regionPages vaddr memsz := by
  rw [Room.map] at mapped
  split at mapped
  · next empty =>
    obtain rfl := Option.some.inj mapped
    simp [empty]
  · next nonempty =>
    split at mapped
    · cases mapped
    · split at mapped
      · obtain rfl := Option.some.inj mapped
        simp [nonempty, Room.add]
      · cases mapped

theorem exists_from_succ (q : Nat → Prop) (i n : Nat) :
    (∃ j, i ≤ j ∧ j < i + (n + 1) ∧ q j) ↔ q i ∨ ∃ j, i + 1 ≤ j ∧ j < i + 1 + n ∧ q j := by
  constructor
  · rintro ⟨j, low, high, holds⟩
    rcases Nat.eq_or_lt_of_le low with rfl | later
    · exact .inl holds
    · exact .inr ⟨j, later, by omega, holds⟩
  · rintro (holds | ⟨j, low, high, holds⟩)
    · exact ⟨i, Nat.le_refl i, by omega, holds⟩
    · exact ⟨j, by omega, by omega, holds⟩

theorem segmentsRoom_pages (n i : Nat) {r r' : Room}
    (room : segmentsRoom img size phoff n i r = some r') (p : Nat) :
    r'.mapped p = true ↔ r.mapped p = true ∨ ∃ j, i ≤ j ∧ j < i + n ∧
      (elf32Phdr img (phoff + j * sizeofPhdr)).type = 1 ∧
        p ∈ segmentPages (elf32Phdr img (phoff + j * sizeofPhdr)) := by
  induction n generalizing i r with
  | zero =>
    obtain rfl := Option.some.inj room
    constructor
    · exact .inl
    · rintro (mapped | ⟨j, low, high, -⟩)
      · exact mapped
      · omega
  | succ n ih =>
    rw [exists_from_succ]
    simp only [segmentsRoom] at room
    split at room
    · next other =>
      rw [ih (i + 1) room]
      simp [other]
    · next load =>
      split at room
      · cases room
      · obtain ⟨r₁, mapped, room'⟩ := Option.bind_eq_some_iff.mp room
        rw [ih (i + 1) room', map_pages mapped, ← mem_segmentPages, or_assoc]
        simp [not_not.mp load]

theorem segmentsBytes_none (n i : Nat) (bytes : Nat → Option Byte) (a : Nat) :
    segmentsBytes img phoff n i bytes a = none ↔ bytes a = none ∧ ¬ ∃ j, i ≤ j ∧ j < i + n ∧
      (elf32Phdr img (phoff + j * sizeofPhdr)).type = 1 ∧
        (elf32Phdr img (phoff + j * sizeofPhdr)).vaddr ≤ a ∧
        a < (elf32Phdr img (phoff + j * sizeofPhdr)).vaddr +
          segmentSize (elf32Phdr img (phoff + j * sizeofPhdr)) := by
  induction n generalizing i bytes with
  | zero =>
    constructor
    · intro none'
      refine ⟨none', ?_⟩
      rintro ⟨j, low, high, -⟩
      omega
    · exact And.left
  | succ n ih =>
    rw [exists_from_succ, segmentsBytes, ih, not_or, ← and_assoc]
    apply and_congr_left'
    by_cases load : (elf32Phdr img (phoff + i * sizeofPhdr)).type = 1
    · rw [if_neg (not_not.mpr load), segmentBytes]
      split
      · next here => simp [load, here]
      · next other => simp [load, other]
    · simp [load]

theorem segments_inside (n i : Nat) {r r' : Room} (fits : SegmentsFit img size phoff n i r)
    (room : segmentsRoom img size phoff n i r = some r') {j : Nat} (low : i ≤ j) (high : j < i + n)
    (load : (elf32Phdr img (phoff + j * sizeofPhdr)).type = 1) :
    userTextBase ≤ (elf32Phdr img (phoff + j * sizeofPhdr)).vaddr ∧
      (elf32Phdr img (phoff + j * sizeofPhdr)).vaddr + (elf32Phdr img (phoff + j * sizeofPhdr)).memsz ≤
        userStackTop := by
  induction n generalizing i r with
  | zero => omega
  | succ n ih =>
    obtain ⟨-, fits⟩ := fits
    simp only [segmentsRoom] at room
    by_cases other : (elf32Phdr img (phoff + i * sizeofPhdr)).type ≠ 1
    · rw [if_pos other] at fits room
      rcases Nat.eq_or_lt_of_le low with rfl | later
      · exact absurd load other
      · exact ih (i + 1) fits room later (by omega)
    · rw [if_neg other] at fits room
      by_cases refused : rejected size (elf32Phdr img (phoff + i * sizeofPhdr)) = true
      · rw [if_pos refused] at room
        cases room
      · rw [if_neg refused] at fits room
        obtain ⟨r₁, mapped, room'⟩ := Option.bind_eq_some_iff.mp room
        rw [mapped] at fits
        rcases Nat.eq_or_lt_of_le low with rfl | later
        · have checks : rejected size (elf32Phdr img (phoff + i * sizeofPhdr)) =
              false := by simpa using refused
          simp only [rejected, Bool.or_eq_false_iff, decide_eq_false_iff_not, Nat.not_lt] at checks
          exact ⟨checks.1.1, fits.1.memory⟩
        · exact ih (i + 1) fits.2 room' later (by omega)

theorem segmentPages_window {ph : Elf32Phdr}
    (inside : userTextBase ≤ ph.vaddr ∧ ph.vaddr + ph.memsz ≤ userStackTop)
    {p : Nat} (member : p ∈ segmentPages ph) : InUserWindow p := by
  obtain ⟨nonempty, member⟩ := (mem_segmentPages ph p).mp member
  exact regionPages_window inside.1 (Nat.le_trans inside.2 (by decide)) nonempty p member

theorem stackPages_window {p : Nat} (member : p ∈ stackPages) : InUserWindow p :=
  regionPages_window (by decide) (by decide) (by decide) p member

end Images

end NovaKernel

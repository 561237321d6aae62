import NovaKernel.LoaderSafety

set_option autoImplicit false

namespace NovaKernel

open Machine Mm FirstFit Checked

def seen (s : Machine) (pd a : Nat) : Option Byte :=
    (contents s pd (a / 0x1000)).map fun page => page (a % 0x1000)

structure Building (live : Finset Nat) (pd : Nat) (s₀ s : Machine) : Prop where
  fresh : pd ∉ live
  loading : ∃ r, Loading (fun _ => True) (insert pd live) pd s r
  kept : ∀ a ∈ live, s.mem a = s₀.mem a ∧ s.mem (tableOf s₀ a) = s₀.mem (tableOf s₀ a)

/-- The `n` bytes from `dst` on are written, and no other. -/
def Wrote (pd : Nat) (s s' : Machine) (dst n : Nat) (value : Nat → Byte) : Prop :=
  ∀ a, seen s' pd a = if dst ≤ a ∧ a < dst + n then some (value (a - dst)) else seen s pd a

section Writes

variable {live : Finset Nat} {pd : Nat} {s₀ s : Machine}

theorem seen_present {a : Nat} (mapped : seen s pd a ≠ none) :
    InUserWindow (a / 0x1000) ∧ hasFlag (s.mem (tableOf s pd) (a / 0x1000)) pteP = true := by
  by_contra absent
  rw [seen, contents, if_neg absent] at mapped
  exact mapped rfl

theorem Building.table (building : Building live pd s₀ s) {a : Nat} (member : a ∈ live) :
    tableOf s a = tableOf s₀ a := tableOf_congr (building.kept a member).1

theorem Wrote.nothing (s : Machine) (dst : Nat) (value : Nat → Byte) :
    Wrote pd s s dst 0 value := by
  intro a
  rw [if_neg (by omega)]

theorem Wrote.cons {s₁ s' : Machine} {dst n : Nat} {value : Nat → Byte}
    (first : Wrote pd s s₁ dst 1 value) (rest : Wrote pd s₁ s' (dst + 1) n fun k => value (k + 1)) :
    Wrote pd s s' dst (n + 1) value := by
  intro a
  rw [rest a]
  by_cases later : dst + 1 ≤ a ∧ a < dst + 1 + n
  · have shift : a - (dst + 1) + 1 = a - dst := by omega
    rw [if_pos later, if_pos (by omega)]
    exact congrArg (some ∘ value) shift
  · rw [if_neg later, first a]
    by_cases here : a = dst
    · rw [if_pos (by omega), if_pos (by omega)]
    · rw [if_neg (by omega), if_neg (by omega)]

theorem Wrote.mapped {s' : Machine} {dst n a : Nat} {value : Nat → Byte}
    (wrote : Wrote pd s s' dst n value) (mapped : seen s pd a ≠ none) : seen s' pd a ≠ none := by
  rw [wrote a]
  split
  · exact Option.some_ne_none _
  · exact mapped

theorem stored_wrote {live : Finset Nat} {r : Room} (loading : Loading (fun _ => True) live pd s r)
    {v : Nat} (inside : InUserWindow (v / 0x1000))
    (present : hasFlag (s.mem (tableOf s pd) (v / 0x1000)) pteP = true) (value : Byte) :
    Wrote pd s (s.putByte (frameOf (s.mem (tableOf s pd) (v / 0x1000))) (v % 0x1000) value) v 1 fun _ => value := by
  intro a
  have member : s.cr3 ∈ live := loading.loaded ▸ loading.member
  have writable := loading.unshared _ inside present
  have put := contents_putByte loading.ready.spaces (v := v / 0x1000) member inside
    (by rwa [loading.loaded]) (by rwa [loading.loaded]) (v % 0x1000) value pd loading.member (a / 0x1000)
  rw [loading.loaded] at put
  rw [seen, put]
  by_cases page : a / 0x1000 = v / 0x1000
  · rw [if_pos ⟨rfl, page⟩, Option.map_some]
    by_cases here : a = v
    · rw [if_pos (by omega), here, Function.update_self]
    · rw [if_neg (by omega), Function.update_of_ne (by omega), seen, page, contents,
        if_pos ⟨inside, present⟩, Option.map_some]
  · rw [if_neg fun h => page h.2, if_neg (by omega), seen]

theorem userStore_wrote (building : Building live pd s₀ s) {v : Nat}
    (inWindow : userTextBase ≤ v ∧ v < userStackTop) (mapped : seen s pd v ≠ none) (value : Byte) :
    ∃ s', userStore s v value = .ok s' ∧ Building live pd s₀ s' ∧
      Wrote pd s s' v 1 fun _ => value := by
  obtain ⟨r, loading⟩ := building.loading
  obtain ⟨inside, present⟩ := seen_present mapped
  obtain ⟨stored, loading'⟩ := userStore_mapped loading inWindow present value
  refine ⟨_, stored, ⟨building.fresh, ⟨r, loading'⟩, fun a member => ?_⟩,
    stored_wrote loading inside present value⟩
  have tables := loading.ready.spaces.mapped_ne_table loading.member
    (Finset.mem_insert_of_mem member) inside present
  obtain ⟨dir, table⟩ := building.kept a member
  rw [building.table member] at tables
  exact ⟨(setWord_mem_ne _ _ _ (Ne.symm tables.1)).trans dir,
    (setWord_mem_ne _ _ _ (Ne.symm tables.2)).trans table⟩

variable (img : Nat → Byte) (size : Nat)

theorem memcpyImage_wrote (n dst src : Nat) (building : Building live pd s₀ s)
    (source : src + n ≤ size) (window : userTextBase ≤ dst ∧ dst + n ≤ userStackTop)
    (mapped : ∀ k < n, seen s pd (dst + k) ≠ none) :
    ∃ s', memcpyImage img size dst src n s = .ok s' ∧ Building live pd s₀ s' ∧
      Wrote pd s s' dst n fun k => img (src + k) := by
  induction n generalizing dst src s with
  | zero => exact ⟨s, rfl, building, .nothing s dst _⟩
  | succ n ih =>
    obtain ⟨s₁, stored, building₁, wrote⟩ := userStore_wrote building ⟨window.1, by omega⟩
      (mapped 0 (Nat.succ_pos n)) (img src)
    obtain ⟨s', copied, building', rest⟩ :=
      ih (dst + 1) (src + 1) building₁ (by omega) (by omega) fun k low =>
      wrote.mapped (by rw [Nat.add_assoc, Nat.add_comm 1 k]; exact mapped (k + 1) (by omega))
    have byte : imageByte img size src = .ok (img src) := if_pos (by omega)
    have first : Wrote pd s s₁ dst 1 fun k => img (src + k) := fun a => by
      rw [wrote a]
      by_cases here : dst ≤ a ∧ a < dst + 1
      · have start : src + (a - dst) = src := by omega
        rw [if_pos here, if_pos here]
        simp only [start]
      · rw [if_neg here, if_neg here]
    have later : Wrote pd s₁ s' (dst + 1) n fun k => img (src + (k + 1)) := fun a => by
      rw [rest a]
      simp only [Nat.add_assoc, Nat.add_comm 1]
    exact ⟨s', by simp only [memcpyImage, byte, ok_bind, stored, copied], building',
      .cons first later⟩

theorem memsetUser_wrote (n dst : Nat) (building : Building live pd s₀ s)
    (window : userTextBase ≤ dst ∧ dst + n ≤ userStackTop)
    (mapped : ∀ k < n, seen s pd (dst + k) ≠ none) :
    ∃ s', memsetUser dst n s = .ok s' ∧ Building live pd s₀ s' ∧
      Wrote pd s s' dst n fun _ => 0 := by
  induction n generalizing dst s with
  | zero => exact ⟨s, rfl, building, .nothing s dst _⟩
  | succ n ih =>
    obtain ⟨s₁, stored, building₁, wrote⟩ := userStore_wrote building ⟨window.1, by omega⟩
      (mapped 0 (Nat.succ_pos n)) 0
    obtain ⟨s', filled, building', rest⟩ := ih (dst + 1) building₁ (by omega) fun k low =>
      wrote.mapped (by rw [Nat.add_assoc, Nat.add_comm 1 k]; exact mapped (k + 1) (by omega))
    exact ⟨s', by simp only [memsetUser, ok_bind, stored, filled], building', .cons wrote rest⟩

end Writes

section Maps

variable {live : Finset Nat} {pd : Nat}

theorem mapUserPages_mem (pages : List Nat) {s : Machine} (ready : Ready (fun _ => True) s live)
    (member : pd ∈ live)
    (window : ∀ i ∈ pages, InUserWindow i) {ok : Bool} {s' : Machine}
    (run : mapUserPages physical (tableOf s pd) pages s = some (ok, s')) {g : Nat}
    (other : g ≠ tableOf s pd) :
    s'.mem g = s.mem g := by
  induction pages generalizing s with
  | nil =>
    obtain ⟨-, rfl⟩ := Prod.mk.inj (Option.some.inj run)
    rfl
  | cons i rest ih =>
    have later := fun j (hj : j ∈ rest) => window j (List.mem_cons_of_mem i hj)
    rcases mapUserPage_cases ready i member with
      ⟨-, step⟩ | ⟨-, -, step⟩ | ⟨unmapped, f, s₁, allocated, step⟩
    · simp only [mapUserPages, step physical physical_reaches, Option.bind_eq_bind,
        Option.bind_some, if_true] at run
      exact ih ready later run other
    · simp only [mapUserPages, step physical physical_reaches, Option.bind_eq_bind,
        Option.bind_some, Bool.false_eq_true, if_false, Option.pure_def] at run
      obtain ⟨-, rfl⟩ := Prod.mk.inj (Option.some.inj run)
      rfl
    · have inside := window i (List.mem_cons_self ..)
      have ready' := ready_mapped ready member inside unmapped allocated
      have table := (ready.spaces.mapped member inside unmapped allocated).2 pd member
      simp only [mapUserPages, step physical physical_reaches, Option.bind_eq_bind,
        Option.bind_some, if_true] at run
      have rest' := ih (s := mappedPage s (tableOf s pd) i f) ready' later
      rw [table] at rest'
      rw [rest' run other, mappedPage_mem, setWord_mem_ne _ _ _ other]

theorem mapRegion_building {s₀ s : Machine} (building : Building live pd s₀ s) {vaddr memsz : Nat}
    (window : userTextBase ≤ vaddr ∧ vaddr + memsz ≤ userStackTop) :
    ∃ ok s', pagingMapUserRegion physical s pd vaddr memsz = some (ok, s') ∧
      Building live pd s₀ s' ∧
      (∀ a, seen s pd a ≠ none → seen s' pd a = seen s pd a) ∧
      (ok = true → ∀ k < memsz, seen s' pd (vaddr + k) ≠ none) := by
  obtain ⟨r, loading⟩ := building.loading
  by_cases empty : memsz = 0
  · refine ⟨true, s, if_pos empty, building, fun _ _ => rfl, fun _ k low => ?_⟩
    omega
  · have start : userPgStart * 0x1000 ≤ vaddr := window.1
    have stop : vaddr + memsz ≤ userPgEnd * 0x1000 := Nat.le_trans window.2 (by decide)
    have pages := regionPages_window start stop empty
    obtain ⟨ok, s', run, -, more⟩ :=
      mapUserPages_spec loading.member (regionPages vaddr memsz) pages s loading.ready
    have call := mapRegion_pages physical_reaches loading.ready loading.member start stop empty
    rw [run physical physical_reaches] at call
    have loading' : ∃ r', Loading (fun _ => True) (insert pd live) pd s' r' := by
      obtain ⟨enough, short⟩ := mapRegion_room physical_reaches loading vaddr memsz
      cases mapped : r.map vaddr memsz with
      | none =>
        obtain ⟨s'', call', r', loading'⟩ := short mapped
        obtain rfl := (Prod.mk.inj (Option.some.inj (call'.symm.trans call))).2
        exact ⟨r', loading'⟩
      | some r' =>
        obtain ⟨s'', call', loading'⟩ := enough r' mapped
        obtain rfl := (Prod.mk.inj (Option.some.inj (call'.symm.trans call))).2
        exact ⟨r', loading'⟩
    refine ⟨ok, s', call, ⟨building.fresh, loading', fun a member => ?_⟩, fun a mapped => ?_,
      fun done k low => ?_⟩
    · have other : a ≠ pd := fun same => building.fresh (same ▸ member)
      have member' : a ∈ insert pd live := Finset.mem_insert_of_mem member
      have distinct := loading.ready.spaces.distinct a member' pd loading.member
      obtain ⟨dir, table⟩ := building.kept a member
      have notTable : tableOf s₀ a ≠ tableOf s pd := fun same =>
        other (distinct.2 ((building.table member).trans same))
      have kept {g : Nat} :=
        mapUserPages_mem (regionPages vaddr memsz) loading.ready loading.member pages
        (run physical physical_reaches) (g := g)
      exact ⟨(kept distinct.1).trans dir, (kept notTable).trans table⟩
    · rcases more.grown (a / 0x1000) with same | ⟨none', -⟩
      · rw [seen, same, seen]
      · rw [seen, none'] at mapped
        exact absurd rfl mapped
    · have page : (vaddr + k) / 0x1000 ∈ regionPages vaddr memsz :=
        (inRegion_iff start stop empty _).mpr ⟨vaddr + k, by omega, by omega, rfl⟩
      have filled := more.filled done _ page
      rw [seen, Ne, Option.map_eq_none_iff]
      exact filled

end Maps

-- `ph[i]`
def segment (img : Nat → Byte) (i : Nat) : Elf32Phdr :=
  elf32Phdr img ((elf32Hdr img).phoff + i * sizeofPhdr)

def IsLoad (img : Nat → Byte) (i : Nat) : Prop :=
  i < (elf32Hdr img).phnum ∧ (segment img i).type = 1

def segmentByte (img : Nat → Byte) (ph : Elf32Phdr) (k : Nat) : Byte :=
  if k < ph.filesz then img (ph.offset + k) else 0

structure SegmentInside (size : Nat) (ph : Elf32Phdr) : Prop where
  sized : ph.filesz ≤ ph.memsz
  start : userTextBase ≤ ph.vaddr
  stop : ph.vaddr + ph.memsz ≤ userStackTop
  file : ph.offset + ph.filesz ≤ size

/-- An executable whose headers and segments lie in the file, without segments that overlap. -/
structure WellFormedImage (img : Nat → Byte) (size : Nat) : Prop where
  header : accepted img size = true
  table : (elf32Hdr img).phoff + (elf32Hdr img).phnum * sizeofPhdr ≤ size
  inside : ∀ i, IsLoad img i → SegmentInside size (segment img i)
  apart : ∀ i j, IsLoad img i → IsLoad img j → i ≠ j →
    ∀ k < (segment img i).memsz, ∀ l < (segment img j).memsz,
    (segment img i).vaddr + k ≠ (segment img j).vaddr + l

def Held (img : Nat → Byte) (pd i : Nat) (s : Machine) : Prop :=
  ∀ k < (segment img i).memsz, seen s pd ((segment img i).vaddr + k) =
    some (segmentByte img (segment img i) k)

section Segments

variable {live : Finset Nat} {pd : Nat} {s₀ s : Machine} {img : Nat → Byte} {size : Nat}

theorem segment_wrote {ph : Elf32Phdr} (inside : SegmentInside size ph)
    (building : Building live pd s₀ s) (mapped : ∀ k < ph.memsz, seen s pd (ph.vaddr + k) ≠ none) :
    ∃ s₁ s', memcpyImage img size ph.vaddr ph.offset ph.filesz s = .ok s₁ ∧
      fillSegment ph s₁ = .ok s' ∧
      Building live pd s₀ s' ∧ Wrote pd s s' ph.vaddr ph.memsz (segmentByte img ph) := by
  obtain ⟨sized, start, stop, file⟩ := inside
  obtain ⟨s₁, copied, building₁, wrote₁⟩ :=
    memcpyImage_wrote img size ph.filesz ph.vaddr ph.offset building file
    ⟨start, by omega⟩ fun k low => mapped k (by omega)
  by_cases more : ph.filesz < ph.memsz
  · obtain ⟨s', filled, building', wrote'⟩ :=
      memsetUser_wrote (ph.memsz - ph.filesz) (ph.vaddr + ph.filesz) building₁
      ⟨by omega, by omega⟩ fun k low => wrote₁.mapped (by rw [Nat.add_assoc]; exact mapped _ (by omega))
    refine ⟨s₁, s', copied, (if_pos more).trans filled, building', fun a => ?_⟩
    rw [wrote' a, wrote₁ a]
    by_cases tail : ph.vaddr + ph.filesz ≤ a ∧ a < ph.vaddr + ph.filesz + (ph.memsz - ph.filesz)
    · rw [if_pos tail, if_pos (by omega), segmentByte, if_neg (by omega)]
    · rw [if_neg tail]
      by_cases here : ph.vaddr ≤ a ∧ a < ph.vaddr + ph.filesz
      · rw [if_pos here, if_pos (by omega), segmentByte, if_pos (by omega)]
      · rw [if_neg here, if_neg (by omega)]
  · refine ⟨s₁, s₁, copied, if_neg more, building₁, fun a => ?_⟩
    rw [wrote₁ a, show ph.memsz = ph.filesz by omega]
    by_cases here : ph.vaddr ≤ a ∧ a < ph.vaddr + ph.filesz
    · rw [if_pos here, if_pos here, segmentByte, if_pos (by omega)]
    · rw [if_neg here, if_neg here]

theorem segment_held (wellFormed : WellFormedImage img size) {i : Nat} (load : IsLoad img i)
    {s₁ s' : Machine} (kept : ∀ a, seen s pd a ≠ none → seen s₁ pd a = seen s pd a)
    (wrote : Wrote pd s₁ s' (segment img i).vaddr (segment img i).memsz (segmentByte img (segment img i)))
    (held : ∀ j < i, IsLoad img j → Held img pd j s) : ∀ j < i + 1, IsLoad img j →
    Held img pd j s' := by
  intro j low load' k short
  by_cases here : j = i
  · subst here
    rw [wrote, if_pos (by omega), Nat.add_sub_cancel_left]
  · have there := held j (by omega) load' k short
    have other : ¬ ((segment img i).vaddr ≤ (segment img j).vaddr + k ∧
        (segment img j).vaddr + k < (segment img i).vaddr + (segment img i).memsz) := fun inside =>
      wellFormed.apart j i load' load here k short ((segment img j).vaddr + k - (segment img i).vaddr) (by omega)
        (by omega)
    rw [wrote, if_neg other, kept _ (by rw [there]; exact Option.some_ne_none _), there]

theorem loadSegments_held (wellFormed : WellFormedImage img size) (n i : Nat)
    (total : i + n = (elf32Hdr img).phnum) (building : Building live pd s₀ s)
    (held : ∀ j < i, IsLoad img j → Held img pd j s) :
    ∃ ok s', loadSegments img size physical pd (elf32Hdr img).phoff n i s = .ok (ok, s') ∧
      Building live pd s₀ s' ∧
      (ok = true → ∀ j, IsLoad img j → Held img pd j s') := by
  induction n generalizing i s with
  | zero => exact ⟨true, s, rfl, building, fun _ j load => held j (by have := load.1; omega) load⟩
  | succ n ih =>
    have header : imagePhdr img size ((elf32Hdr img).phoff + i * sizeofPhdr) =
        .ok (segment img i) := by
      have table := wellFormed.table
      rw [← total, Nat.add_mul, Nat.add_mul, Nat.one_mul] at table
      exact if_pos (by omega)
    by_cases load : (segment img i).type = 1
    · have isLoad : IsLoad img i := ⟨by omega, load⟩
      have inside := wellFormed.inside i isLoad
      have accepts : rejected size (segment img i) = false := by
        obtain ⟨sized, start, stop, file⟩ := inside
        have last := Nat.mod_le ((segment img i).vaddr + (segment img i).memsz) (2 ^ 32)
        have last' := Nat.mod_le ((segment img i).offset + (segment img i).filesz) (2 ^ 32)
        simp only [rejected, Bool.or_eq_false_iff, decide_eq_false_iff_not, Nat.not_lt]
        omega
      obtain ⟨ok, s₁, run, building₁, kept, filled⟩ :=
        mapRegion_building building ⟨inside.start, inside.stop⟩
      cases ok with
      | false =>
        refine ⟨false, s₁, ?_, building₁, fun done => absurd done (by simp)⟩
        simp only [loadSegments, header, ok_bind, load, ne_eq, not_true_eq_false, if_false, accepts,
          Bool.false_eq_true, run]
        rfl
      | true =>
        obtain ⟨s₂, s₃, copied, zeroed, building₃, wrote⟩ :=
          segment_wrote inside building₁ (filled rfl)
        obtain ⟨ok, s', rest, building', all⟩ := ih (i + 1) (by omega) building₃
          (segment_held wellFormed isLoad kept wrote held)
        refine ⟨ok, s', ?_, building', all⟩
        simp only [loadSegments, header, ok_bind, load, ne_eq, not_true_eq_false, if_false, accepts,
          Bool.false_eq_true, run, copied, zeroed, rest]
    · obtain ⟨ok, s', rest, building', all⟩ := ih (i + 1) (by omega) building fun j low load' => by
        rcases Nat.eq_or_lt_of_le (Nat.le_of_lt_succ low) with rfl | before
        · exact absurd load'.2 load
        · exact held j before load'
      refine ⟨ok, s', ?_, building', all⟩
      simp only [loadSegments, header, ok_bind, ne_eq, load, not_false_eq_true, if_true, rest]

end Segments

def Machine.readByte (s : Machine) (a : Nat) : Option Byte :=
  (s.walk (a / 0x1000)).map fun t => s.getByte t.frame (a % 0x1000)

/-- The image is in memory: its pages are writable, each on a frame that no other page of a live address
space maps, and its bytes are read there. -/
structure LoadedImage (live : Finset Nat) (pd : Nat) (img : Nat → Byte) (s : Machine) : Prop where
  bytes : ∀ i, IsLoad img i → ∀ k < (segment img i).memsz,
    s.readByte ((segment img i).vaddr + k) = some (segmentByte img (segment img i) k)
  pages : ∀ i, IsLoad img i → ∀ k < (segment img i).memsz,
    ∃ f, s.walk (((segment img i).vaddr + k) / 0x1000) =
      some { frame := f, writable := true, user := true } ∧
      ∀ a ∈ live, ∀ v, InUserWindow v → hasFlag (s.mem (tableOf s a) v) pteP = true →
        frameOf (s.mem (tableOf s a) v) = f → a = pd ∧ v = ((segment img i).vaddr + k) / 0x1000

section Fresh

variable {live : Finset Nat} {pd : Nat} {s₀ s s₁ : Machine}

theorem created_space (ready : Ready (fun _ => True) s live)
    (created : pagingCreateAddrSpace physical s = some (some pd, s₁)) :
    ∃ pt m, allocTables s = (some (pd, pt), m) ∧ s₁ = createdSpace s pd pt := by
  rcases allocated : allocTables s with ⟨_ | ⟨pd', pt⟩, m⟩
  · rw [create_full allocated] at created
    cases created
  · rw [create_ok physical_reaches ready allocated ⟨trivial, trivial⟩] at created
    obtain ⟨same, rfl⟩ := Prod.mk.inj (Option.some.inj created)
    obtain rfl := Option.some.inj same
    exact ⟨pt, m, rfl, rfl⟩

theorem building_created (ready : Ready (fun _ => True) s live)
    (created : pagingCreateAddrSpace physical s = some (some pd, s₁)) :
    Building live pd s (s₁.pagingSwitch pd) := by
  obtain ⟨pt, m, allocated, rfl⟩ := created_space ready created
  obtain ⟨-, pdBounded, ptBounded, other, pdFree, ptFree⟩ := allocTables_some allocated
  obtain ⟨-, -, pdFresh⟩ := ready.spaces.fresh pdBounded pdFree
  obtain ⟨-, -, ptFresh⟩ := ready.spaces.fresh ptBounded ptFree
  obtain ⟨-, newTable, new, -⟩ := ready.spaces.created allocated
  have member := Finset.mem_insert_self pd live
  have ready₁ := ready_switched (ready_created ready allocated ⟨trivial, trivial⟩) pd (.inl member)
  refine ⟨new, ⟨_, loading_room ready₁ member rfl fun i inside present => ?_⟩,
    fun a live' => ⟨?_, ?_⟩⟩
  · have table : tableOf ((createdSpace s pd pt).pagingSwitch pd) pd = pt := newTable
    have empty : ((createdSpace s pd pt).pagingSwitch pd).mem pt i = 0#32 :=
      (congrFun (createdSpace_table s other) i).trans (if_pos inside)
    rw [table, empty, hasFlag_zero] at present
    cases present
  · exact createdSpace_kept s (Ne.symm (pdFresh a live').1) (Ne.symm (ptFresh a live').1)
  · exact createdSpace_kept s (Ne.symm (pdFresh a live').2) (Ne.symm (ptFresh a live').2)

theorem loading_walk {live : Finset Nat} {r : Room} (loading : Loading (fun _ => True) live pd s r)
    {v : Nat} (inside : InUserWindow v) (present : hasFlag (s.mem (tableOf s pd) v) pteP = true) :
    s.walk v = some { frame := frameOf (s.mem (tableOf s pd) v), writable := true, user := true } := by
  have inv := loading.ready.spaces
  obtain ⟨pde, bounded⟩ := inv.loadedTable loading.ready.loaded
  have writable := loading.unshared _ inside present
  have user : hasFlag (s.mem (tableOf s pd) v) pteU = true := by
    rcases (windowEntry_frame (inv.window pd loading.member _ inside) present).2 with ⟨shape, -⟩ | ⟨-, readOnly⟩
    · rw [shape, user_entry]
      decide
    · rw [writable] at readOnly
      cases readOnly
  have walked := walk_eq pde bounded (Nat.lt_trans inside.2 (by decide))
  rwa [loading.loaded, translationOf, if_pos present, writable, user] at walked

theorem seen_walk (building : Building live pd s₀ s) {a : Nat} (mapped : seen s pd a ≠ none) :
    s.readByte a = seen s pd a ∧
      s.walk (a / 0x1000) =
        some { frame := frameOf (s.mem (tableOf s pd) (a / 0x1000)), writable := true, user := true } := by
  obtain ⟨r, loading⟩ := building.loading
  obtain ⟨inside, present⟩ := seen_present mapped
  have walked := loading_walk loading inside present
  refine ⟨?_, walked⟩
  rw [readByte, walked, seen, contents, if_pos ⟨inside, present⟩]
  rfl

theorem loadedImage_of_held {img : Nat → Byte} (building : Building live pd s₀ s)
    (held : ∀ i, IsLoad img i → Held img pd i s) : LoadedImage (insert pd live) pd img s := by
  obtain ⟨r, loading⟩ := building.loading
  have mapped : ∀ i, IsLoad img i →
      ∀ k < (segment img i).memsz, seen s pd ((segment img i).vaddr + k) ≠ none :=
    fun i load k short => by
      rw [held i load k short]
      exact Option.some_ne_none _
  constructor
  · intro i load k short
    rw [(seen_walk building (mapped i load k short)).1, held i load k short]
  · intro i load k short
    obtain ⟨inside, present⟩ := seen_present (mapped i load k short)
    refine ⟨_, (seen_walk building (mapped i load k short)).2,
      fun a member v window present' same => ?_⟩
    exact loading.ready.spaces.sole loading.member member inside window
      (loading.unshared _ inside present) present'
      same

theorem AddrSpaces.mmFreeFrames_congr (inv : AddrSpaces s live) (inv' : AddrSpaces s₁ live)
    (same : ∀ a ∈ live, s₁.mem a = s.mem a ∧ s₁.mem (tableOf s a) = s.mem (tableOf s a)) :
    mmFreeFrames s₁.mm = mmFreeFrames s.mm := by
  have table : ∀ a ∈ live, tableOf s₁ a = tableOf s a :=
    fun a member => tableOf_congr (same a member).1
  have refs : ∀ f, s₁.mm.frameRefs f = s.mm.frameRefs f := fun f => by
    rw [inv.counted, inv'.counted]
    exact Finset.sum_congr rfl fun a member => by rw [table a member, (same a member).2]
  have tables : ∀ f, IsTable s₁ live f ↔ IsTable s live f := fun f =>
    exists_congr fun a => and_congr_right fun member => by rw [table a member]
  rw [mmFreeFrames, mmFreeFrames, freeCount, freeCount]
  refine List.countP_congr fun f member => ?_
  have bounded : f < frameCount := List.mem_range.mp member
  have used := inv.used f bounded
  have used' := inv'.used f bounded
  rw [tables, refs, ← used] at used'
  rw [Bool.eq_iff_iff.mpr used']

theorem destroy_restores (ready : Ready (fun _ => True) s₀ live)
    (building : Building live pd s₀ s) :
    ∃ s', pagingDestroyAddrSpace physical (s.pagingSwitch s₀.cr3) pd = some s' ∧
      mmFreeFrames s'.mm = mmFreeFrames s₀.mm := by
  obtain ⟨r, loading⟩ := building.loading
  have old : s₀.cr3 ∈ insert pd live ∨ s₀.cr3 = kernelPd :=
    ready.loaded.imp_left fun member => Finset.mem_insert_of_mem member
  have ready' := ready_switched loading.ready s₀.cr3 old
  refine ⟨_, destroy_ok physical_reaches ready' loading.member, ?_⟩
  have spaces := ready'.spaces.destroyed loading.member
  rw [Finset.erase_insert building.fresh] at spaces
  exact ready.spaces.mmFreeFrames_congr spaces building.kept

/-- An executable that is loaded into a fresh address space is there when the entry point is returned,
and destroying the address space restores the number of free frames whatever is returned. -/
theorem userLoadElf_loads {img : Nat → Byte} {size : Nat} (ready : Ready (fun _ => True) s live)
    (created : pagingCreateAddrSpace physical s = some (some pd, s₁))
    (wellFormed : WellFormedImage img size) :
    ∃ entry s', userLoadElf img size physical (s₁.pagingSwitch pd) pd = .ok (entry, s') ∧
      (entry ≠ 0 → entry = (elf32Hdr img).entry ∧ LoadedImage (insert pd live) pd img s') ∧
      ∃ s₂, pagingDestroyAddrSpace physical (s'.pagingSwitch s.cr3) pd = some s₂ ∧
        mmFreeFrames s₂.mm = mmFreeFrames s.mm := by
  have building := building_created ready created
  obtain ⟨ok, s', run, building', held⟩ :=
    loadSegments_held wellFormed (elf32Hdr img).phnum 0 (Nat.zero_add _) building
    fun j low => absurd low (Nat.not_lt_zero j)
  refine ⟨if ok then (elf32Hdr img).entry else 0, s', ?_, fun nonzero => ?_,
    destroy_restores ready building'⟩
  · simp only [userLoadElf, wellFormed.header, if_true, run, ok_bind]
    rfl
  · cases ok with
    | false => exact absurd rfl nonzero
    | true => exact ⟨if_pos rfl, loadedImage_of_held building' (held rfl)⟩

end Fresh

theorem small_wellFormed : WellFormedImage (elfImage 0x200000 0x200000 84 0x1000) 84 := by
  have fields : elf32Hdr (elfImage 0x200000 0x200000 84 0x1000) =
      ⟨[0x7F, 0x45, 0x4C, 0x46], 2, 3, 0x200000, 52, 1⟩ := by
    rfl
  have only : ∀ i, IsLoad (elfImage 0x200000 0x200000 84 0x1000) i → i = 0 := fun i load => by
    have low := load.1
    rw [fields] at low
    simp only at low
    omega
  have header : segment (elfImage 0x200000 0x200000 84 0x1000) 0 =
      ⟨1, 0, 0x200000, 84, 0x1000⟩ := by
    rfl
  refine ⟨by decide, by rw [fields]; decide, fun i load => ?_, fun i j load load' other => ?_⟩
  · rw [only i load, header]
    exact ⟨by decide, by decide, by decide, by decide⟩
  · exact absurd ((only i load).trans (only j load').symm) other

theorem small_mapped : ∃ m, pagingMapUserRegion physical
    ((createdSpace (boot fun _ _ => 0) 0x130 0x131).pagingSwitch 0x130) 0x130 0x200000 0x1000 = some (true, m) := by
  have booted : Ready (fun _ => True) (boot fun _ _ => 0) ∅ := ready_boot ⟨trivial, trivial⟩ _
  have filled := filled_boot fun _ _ => 0
  have ready := ready_switched (create_next physical_reaches booted filled (by decide) ⟨trivial, trivial⟩).2 0x130
    (.inl (Finset.mem_insert_self _ _))
  have table : tableOf ((createdSpace (boot fun _ _ => 0) 0x130 0x131).pagingSwitch 0x130) 0x130 = 0x131 :=
    (booted.spaces.created (filled_allocTables filled (by decide))).2.1
  obtain ⟨mapped, -⟩ := mapRegion_next physical_reaches ready (n := 0x132) (i := 0x200) (k := 1)
    (filled_created filled) (by decide) (Finset.mem_insert_self 0x130 _) (by decide) (by decide) (by decide) (by
      intro j low high
      have window : InUserWindow j := ⟨low, by simp only [userPgEnd]; omega⟩
      rw [table]
      have empty : (createdSpace (boot fun _ _ => 0) 0x130 0x131).mem 0x131 j = 0#32 :=
        (congrFun (createdSpace_table _ (by decide)) j).trans (if_pos window)
      change hasFlag ((createdSpace (boot fun _ _ => 0) 0x130 0x131).mem 0x131 j) pteP = false
      rw [empty]
      exact hasFlag_zero pteP)
  cases mapped with
  | mapRegion _ _ _ returned => exact ⟨_, returned⟩

theorem small_entry {entry : Nat} {m m' s' : Machine} (region :
    pagingMapUserRegion physical m 0x130 0x200000 0x1000 = some (true, m'))
    (loaded : userLoadElf (elfImage 0x200000 0x200000 84 0x1000) 84 physical m 0x130 = .ok (entry, s')) :
    entry ≠ 0 := by
  have accepts : accepted (elfImage 0x200000 0x200000 84 0x1000) 84 = true := by decide
  have fields : elf32Hdr (elfImage 0x200000 0x200000 84 0x1000) =
      ⟨[0x7F, 0x45, 0x4C, 0x46], 2, 3, 0x200000, 52, 1⟩ := by
    rfl
  have header : imagePhdr (elfImage 0x200000 0x200000 84 0x1000) 84 (52 + 0 * sizeofPhdr) =
      .ok ⟨1, 0, 0x200000, 84, 0x1000⟩ := by
    rfl
  have taken : rejected 84 ⟨1, 0, 0x200000, 84, 0x1000⟩ = false := by decide
  simp only [userLoadElf, accepts, if_true, fields, loadSegments, header, ok_bind, ne_eq,
    not_true_eq_false, if_false, taken, Bool.false_eq_true, region] at loaded
  obtain ⟨⟨done, m₄⟩, segments, last⟩ := of_bind loaded
  obtain ⟨m₂, -, rest⟩ := of_bind segments
  obtain ⟨m₃, -, end'⟩ := of_bind rest
  obtain ⟨rfl, rfl⟩ := Prod.mk.inj (Except.ok.inj end')
  obtain ⟨rfl, -⟩ := Prod.mk.inj (Except.ok.inj last)
  exact show 0x200000 ≠ 0 by decide

theorem userLoadElf_loads_small :
    ∃ entry s', entry ≠ 0 ∧ userLoadElf (elfImage 0x200000 0x200000 84 0x1000) 84 physical
        ((createdSpace (boot fun _ _ => 0) 0x130 0x131).pagingSwitch 0x130) 0x130 = .ok (entry, s') ∧
      (entry ≠ 0 → entry = (elf32Hdr (elfImage 0x200000 0x200000 84 0x1000)).entry ∧
        LoadedImage (insert 0x130 ∅) 0x130 (elfImage 0x200000 0x200000 84 0x1000) s') ∧
      ∃ s₂, pagingDestroyAddrSpace physical (s'.pagingSwitch (boot fun _ _ => 0).cr3) 0x130 = some s₂ ∧
        mmFreeFrames s₂.mm = mmFreeFrames (boot fun _ _ => 0).mm := by
  have ready : Ready (fun _ => True) (boot fun _ _ => 0) ∅ := ready_boot ⟨trivial, trivial⟩ _
  have allocated := filled_allocTables (filled_boot fun _ _ => 0) (by decide)
  obtain ⟨entry, s', loaded, correct, restored⟩ :=
    userLoadElf_loads ready (create_ok physical_reaches ready allocated ⟨trivial, trivial⟩) small_wellFormed
  obtain ⟨m, mapped⟩ := small_mapped
  exact ⟨entry, s', small_entry mapped loaded, loaded, correct, restored⟩

end NovaKernel

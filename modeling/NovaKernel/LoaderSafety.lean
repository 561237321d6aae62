import NovaKernel.UserLoad
import NovaKernel.IdentityAccess

set_option autoImplicit false

namespace NovaKernel

open Machine Checked

section Loaded

variable {within : Nat → Prop} {live : Finset Nat} {pd : Nat} {s : Machine}

theorem loading_room (ready : Ready within s live) (member : pd ∈ live) (loaded : s.cr3 = pd)
    (unshared : ∀ i, InUserWindow i → hasFlag (s.mem (tableOf s pd) i) pteP = true →
      hasFlag (s.mem (tableOf s pd) i) pteW = true) :
    Loading within live pd s (room s pd) where
  ready := ready
  member := member
  loaded := loaded
  unshared := unshared
  mapped _ _ := by simp only [room]
  free := by simp only [room]

/-- The loader stays inside the image and inside the mapped pages of the user window, and keeps the
page tables of every address space, exactly when the image fits. -/
theorem userLoadElf_safe {acc : Access} (reaches : Reaches acc within) (img : Nat → Byte)
    (size : Nat) (ready : Ready within s live) (member : pd ∈ live) (loaded : s.cr3 = pd)
    (unshared : ∀ i, InUserWindow i → hasFlag (s.mem (tableOf s pd) i) pteP = true →
      hasFlag (s.mem (tableOf s pd) i) pteW = true) :
    (∃ entry s', userLoadElf img size acc s pd = .ok (entry, s') ∧ Ready within s' live) ↔
      ImageFits img size (room s pd) := by
  have exact' := userLoadElf_room reaches img size (loading_room ready member loaded unshared)
  constructor
  · rintro ⟨entry, s', returned, -⟩
    exact exact'.ok_iff.mp ⟨_, returned⟩
  · intro fits
    obtain ⟨⟨entry, s'⟩, returned, r', loading'⟩ := exact'.succeeds fits
    exact ⟨entry, s', returned, loading'.ready⟩

end Loaded

section Images

def u32Bytes (n : Nat) : List Nat := [n % 256, n / 256 % 256, n / 65536 % 256, n / 16777216]

def elfImage (entry vaddr filesz memsz : Nat) : Nat → Byte := fun i =>
  BitVec.ofNat 8 (([0x7F, 0x45, 0x4C, 0x46, 1, 1, 1, 0, 0, 0, 0, 0, 0, 0, 0, 0, 2, 0, 3, 0] ++
    u32Bytes 1 ++ u32Bytes entry ++ u32Bytes 52 ++ u32Bytes 0 ++ u32Bytes 0 ++
    [52, 0, 32, 0, 1, 0, 0, 0, 0, 0, 0, 0] ++ u32Bytes 1 ++ u32Bytes 0 ++ u32Bytes vaddr ++
    u32Bytes vaddr ++ u32Bytes filesz ++ u32Bytes memsz ++ u32Bytes 7 ++ u32Bytes 0x1000).getD i 0)

-- The first address space after boot, loaded.
def firstSpace : Machine := (createdSpace (boot fun _ _ => 0) 0x130 0x131).pagingSwitch 0x130

theorem firstSpace_ready : Ready (· < userPgStart) firstSpace {0x130} ∧
    ∀ i, InUserWindow i → firstSpace.mem (tableOf firstSpace 0x130) i = 0#32 := by
  have filled := filled_boot fun _ _ => 0
  obtain ⟨-, ready⟩ := create_next translated_faithful.reaches lowReady_boot filled (by decide)
    ⟨by decide, by decide⟩
  have spaces := lowReady_boot.spaces.created (filled_allocTables filled (by decide))
  refine ⟨ready_switched ready 0x130 (.inl (Finset.mem_insert_self _ _)), fun i inside => ?_⟩
  have table : tableOf firstSpace 0x130 = 0x131 := spaces.2.1
  rw [table]
  change (createdSpace (boot fun _ _ => 0) 0x130 0x131).mem 0x131 i = 0#32
  rw [createdSpace_table _ (by decide)]
  exact if_pos inside

theorem firstSpace_unshared (i : Nat) (inside : InUserWindow i)
    (present : hasFlag (firstSpace.mem (tableOf firstSpace 0x130) i) pteP = true) :
    hasFlag (firstSpace.mem (tableOf firstSpace 0x130) i) pteW = true := by
  rw [firstSpace_ready.2 i inside, hasFlag_zero] at present
  cases present

theorem small_fits (r : Room) : ImageFits (elfImage 0x200000 0x200000 84 0x1000) 84 r := by
  intro _
  have fields : elf32Hdr (elfImage 0x200000 0x200000 84 0x1000) =
      ⟨[0x7F, 0x45, 0x4C, 0x46], 2, 3, 0x200000, 52, 1⟩ := by
    rfl
  have header : elf32Phdr (elfImage 0x200000 0x200000 84 0x1000) (52 + 0 * sizeofPhdr) =
      ⟨1, 0, 0x200000, 84, 0x1000⟩ := by
    rfl
  rw [fields]
  simp only [SegmentsFit, header]
  refine ⟨by decide, ?_⟩
  rw [if_neg (by decide), if_neg (by decide)]
  cases r.map 0x200000 0x1000 with
  | none => trivial
  | some r' =>
    refine ⟨⟨by decide, by decide, fun v low high => ?_⟩, trivial⟩
    simp only at low high
    omega

theorem userLoadElf_safe_small :
    ∃ entry s', userLoadElf (elfImage 0x200000 0x200000 84 0x1000) 84 translated firstSpace 0x130 =
      .ok (entry, s') ∧ Ready (· < userPgStart) s' {0x130} :=
  (userLoadElf_safe translated_faithful.reaches _ 84 firstSpace_ready.1
    (Finset.mem_singleton_self _) rfl firstSpace_unshared).mpr (small_fits _)

-- The checks add 0xFFF00000 to 0x300000, and the region of the segment has no page.
theorem wrapped_segment {within : Nat → Prop} {live : Finset Nat} {pd : Nat} {s : Machine}
    {r : Room} {acc : Access} (reaches : Reaches acc within)
    (loading : Loading within live pd s r) :
    userLoadElf (elfImage 0x200000 0x300000 4 0xFFF00000) 84 acc s pd =
      .error (.address 0x300000) := by
  have valid : accepted (elfImage 0x200000 0x300000 4 0xFFF00000) 84 = true := by
    decide
  have fields : elf32Hdr (elfImage 0x200000 0x300000 4 0xFFF00000) =
      ⟨[0x7F, 0x45, 0x4C, 0x46], 2, 3, 0x200000, 52, 1⟩ := by
    rfl
  have header : imagePhdr (elfImage 0x200000 0x300000 4 0xFFF00000) 84 (52 + 0 * sizeofPhdr) =
      .ok ⟨1, 0, 0x300000, 4, 0xFFF00000⟩ := by
    rfl
  have byte : imageByte (elfImage 0x200000 0x300000 4 0xFFF00000) 84 0 = .ok 0x7F := by
    rfl
  have rejects : rejected 84 ⟨1, 0, 0x300000, 4, 0xFFF00000⟩ = false := by
    decide
  have pages : r.map 0x300000 0xFFF00000 = some (r.add []) := by
    have none' : regionPages 0x300000 0xFFF00000 = [] := by
      decide
    rw [Room.map, if_neg (by decide), if_neg (by decide), none']
    exact if_pos (Nat.zero_le _)
  obtain ⟨s', mapped, -⟩ := (mapRegion_room reaches loading 0x300000 0xFFF00000).1 _ pages
  have store : userStore s' 0x300000 0x7F = .error (.address 0x300000) := if_neg (by decide)
  simp only [userLoadElf, valid, if_true, fields, loadSegments, header, ok_bind, ne_eq,
    not_true_eq_false, if_false, rejects, Bool.false_eq_true, mapped, memcpyImage, byte, store,
    error_bind]

theorem userLoadElf_unsafe :
    Ready (· < userPgStart) firstSpace {0x130} ∧ firstSpace.cr3 = 0x130 ∧
      userLoadElf (elfImage 0x200000 0x300000 4 0xFFF00000) 84 translated firstSpace 0x130 =
        .error (.address 0x300000) :=
  ⟨firstSpace_ready.1, rfl, wrapped_segment translated_faithful.reaches
    (loading_room firstSpace_ready.1 (Finset.mem_singleton_self _) rfl firstSpace_unshared)⟩

end Images

end NovaKernel

import NovaKernel.FatTable

set_option autoImplicit false

namespace NovaKernel

def putFat (vol : Volume) (copy c x : Nat) (disk : Nat → Byte) : Nat → Byte :=
  let a := fatAddr vol copy c
  Function.update (Function.update disk a (entryLo c x (disk a))) (a + 1) (entryHi c x (disk (a + 1)))

-- Only the first of the two bytes.
def putHalf (vol : Volume) (copy c x : Nat) (disk : Nat → Byte) : Nat → Byte :=
  let a := fatAddr vol copy c
  Function.update disk a (entryLo c x (disk a))

-- The sector that holds the first byte of an entry, and whether the second is in the next one.
def fatSector (vol : Volume) (copy c : Nat) : Nat :=
  vol.fatLba + copy * vol.fatSectors + (c + c / 2) / 512

def Split (c : Nat) : Prop := (c + c / 2) % 512 = 511

def BadEntry (faults : Faults) (vol : Volume) (copy c : Nat) : Prop :=
  Bad faults (fatSector vol copy c) ∨ (Split c ∧ Bad faults (fatSector vol copy c + 1))

theorem fatGet_cases (faults : Faults) (vol : Volume) (c : Nat) (s : Io) :
    ∃ x s', fatGet (device faults) vol c s = (x, s') ∧ s'.disk = s.disk ∧
      (x = fatEntry vol s.disk 0 c ∨ (x = 0xFFF ∧ BadEntry faults vol 0 c)) := by
  have sector : fatSector vol 0 c = vol.fatLba + (c + c / 2) / 512 := by
    simp only [fatSector, Nat.zero_mul, Nat.add_zero]
  have addr : fatAddr vol 0 c = 512 * (vol.fatLba + (c + c / 2) / 512) + (c + c / 2) % 512 := by
    simp only [fatAddr, Nat.zero_mul, Nat.add_zero]
    omega
  rcases loadSecbuf_cases faults (vol.fatLba + (c + c / 2) / 512) s with
    ⟨s₁, failed, disk, bad⟩ | ⟨s₁, loaded, disk, buf⟩
  · refine ⟨0xFFF, s₁, ?_, disk, .inr ⟨rfl, .inl (sector ▸ bad)⟩⟩
    simp only [fatGet, fatNextCluster, failed]
  · by_cases split : (c + c / 2) % 512 = 511
    · rcases loadSecbuf_cases faults (vol.fatLba + (c + c / 2) / 512 + 1) s₁ with
        ⟨s₂, failed, disk₂, bad⟩ | ⟨s₂, loaded₂, disk₂, buf₂⟩
      · refine ⟨0xFFF, s₂, ?_, disk₂.trans disk, .inr ⟨rfl, .inr ⟨split, sector ▸ bad⟩⟩⟩
        simp only [fatGet, fatNextCluster, loaded, if_pos split, failed]
      · refine ⟨_, s₂, ?_, disk₂.trans disk, .inl rfl⟩
        have next : 512 * (vol.fatLba + (c + c / 2) / 512 + 1) + 0 = fatAddr vol 0 c + 1 := by omega
        simp only [fatGet, fatNextCluster, loaded, if_pos split, loaded₂, buf, buf₂, disk, sectorOf,
          next, fatEntry]
        rw [addr, split]
    · refine ⟨_, s₁, ?_, disk, .inl rfl⟩
      simp only [fatGet, fatNextCluster, loaded, if_neg split, buf, sectorOf, fatEntry]
      rw [addr, Nat.add_assoc]

theorem putHalf_next (vol : Volume) (copy c x : Nat) (disk : Nat → Byte) :
    putFat vol copy c x disk = Function.update (putHalf vol copy c x disk) (fatAddr vol copy c + 1)
      (entryHi c x (putHalf vol copy c x disk (fatAddr vol copy c + 1))) := by
  simp only [putFat, putHalf]
  rw [Function.update_of_ne (Nat.succ_ne_self _)]

theorem storePatched_cases (faults : Faults) (lba : Nat) (buf : Sector) (s : Io) :
    (∃ s', storeSecbuf (device faults) lba { s with secbuf := buf } = (false, s') ∧
      s'.disk = s.disk ∧ Bad faults lba) ∨
      ∃ s', storeSecbuf (device faults) lba { s with secbuf := buf } = (true, s') ∧
        s'.disk = putSector s.disk lba buf := by
  rcases storeSecbuf_cases faults lba { s with secbuf := buf } with failed | ⟨s', stored, disk, -⟩
  · exact .inl failed
  · exact .inr ⟨s', stored, disk⟩

theorem fatSetCopy_cases (faults : Faults) (vol : Volume) (copy c x : Nat) (s : Io) :
    (∃ s', fatSetCopy (device faults) vol copy c x s = (true, s') ∧ s'.disk = putFat vol copy c x s.disk) ∨
      ∃ s', fatSetCopy (device faults) vol copy c x s = (false, s') ∧ BadEntry faults vol copy c ∧
        (s'.disk = s.disk ∨ s'.disk = putHalf vol copy c x s.disk ∧ Split c ∧
          Bad faults (fatSector vol copy c + 1)) := by
  have sector : vol.fatLba + copy * vol.fatSectors + (c + c / 2) / 512 = fatSector vol copy c := rfl
  have addr : fatAddr vol copy c = 512 * fatSector vol copy c + (c + c / 2) % 512 := by
    simp only [fatAddr, fatSector]
    omega
  have bounded : (c + c / 2) % 512 < 512 := Nat.mod_lt _ (by decide)
  have half : putSector s.disk (fatSector vol copy c)
      (Function.update (sectorOf s.disk (fatSector vol copy c)) ((c + c / 2) % 512)
        (entryLo c x (sectorOf s.disk (fatSector vol copy c) ((c + c / 2) % 512)))) =
      putHalf vol copy c x s.disk := by
    rw [putSector_update _ _ _ bounded, putSector_sectorOf, sectorOf, putHalf, addr]
  simp only [fatSetCopy, sector]
  rcases loadSecbuf_cases faults (fatSector vol copy c) s with
    ⟨s₁, failed, disk, bad⟩ | ⟨s₁, loaded, disk, buf⟩
  · exact .inr ⟨s₁, by rw [failed], .inl bad, .inl disk⟩
  simp only [loaded, buf]
  by_cases split : (c + c / 2) % 512 = 511
  · rw [if_pos split]
    rw [split] at half
    rcases storePatched_cases faults (fatSector vol copy c) (Function.update
        (sectorOf s.disk (fatSector vol copy c)) 511
          (entryLo c x (sectorOf s.disk (fatSector vol copy c) 511))) s₁ with
      ⟨s₂, failed, disk₂, bad⟩ | ⟨s₂, stored, disk₂⟩
    · exact .inr ⟨s₂, by rw [failed], .inl bad, .inl (disk₂.trans disk)⟩
    simp only [stored]
    rw [disk, half] at disk₂
    -- The first byte is on the disk from here on.
    rcases loadSecbuf_cases faults (fatSector vol copy c + 1) s₂ with
      ⟨s₃, failed, disk₃, bad⟩ | ⟨s₃, loaded₃, disk₃, buf₃⟩
    · exact .inr ⟨s₃, by rw [failed], .inr ⟨split, bad⟩, .inr ⟨disk₃.trans disk₂, split, bad⟩⟩
    simp only [loaded₃, buf₃]
    rcases storePatched_cases faults (fatSector vol copy c + 1) (Function.update
        (sectorOf s₂.disk (fatSector vol copy c + 1)) 0
          (entryHi c x (sectorOf s₂.disk (fatSector vol copy c + 1) 0))) s₃ with
      ⟨s₄, failed, disk₄, bad⟩ | ⟨s₄, stored₄, disk₄⟩
    · exact .inr ⟨s₄, failed, .inr ⟨split, bad⟩, .inr ⟨disk₄.trans (disk₃.trans disk₂), split, bad⟩⟩
    · refine .inl ⟨s₄, stored₄, ?_⟩
      have next : 512 * (fatSector vol copy c + 1) + 0 = fatAddr vol copy c + 1 := by omega
      rw [disk₄, disk₃, putSector_update _ _ _ (by decide), putSector_sectorOf, putHalf_next, disk₂,
        sectorOf, next]
  · rw [if_neg split]
    have second : (c + c / 2) % 512 + 1 < 512 := by omega
    rcases storePatched_cases faults (fatSector vol copy c) (Function.update (Function.update
        (sectorOf s.disk (fatSector vol copy c)) ((c + c / 2) % 512)
          (entryLo c x (sectorOf s.disk (fatSector vol copy c) ((c + c / 2) % 512))))
        ((c + c / 2) % 512 + 1) (entryHi c x (Function.update
          (sectorOf s.disk (fatSector vol copy c)) ((c + c / 2) % 512)
          (entryLo c x (sectorOf s.disk (fatSector vol copy c) ((c + c / 2) % 512)))
            ((c + c / 2) % 512 + 1)))) s₁ with
      ⟨s₂, failed, disk₂, bad⟩ | ⟨s₂, stored, disk₂⟩
    · exact .inr ⟨s₂, failed, .inl bad, .inl (disk₂.trans disk)⟩
    · refine .inl ⟨s₂, stored, ?_⟩
      have next : 512 * fatSector vol copy c + ((c + c / 2) % 512 + 1) =
          fatAddr vol copy c + 1 := by omega
      rw [disk₂, disk, putSector_update _ _ _ second, half, next,
        Function.update_of_ne (Nat.succ_ne_self _), sectorOf, next, putFat, putHalf]

end NovaKernel

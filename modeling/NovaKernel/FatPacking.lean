import NovaKernel.FatSpec
import NovaKernel.Floppy

set_option autoImplicit false

namespace NovaKernel

def InCopy (vol : Volume) (c : Nat) : Prop := c + c / 2 + 1 < 512 * vol.fatSectors

instance (vol : Volume) (c : Nat) : Decidable (InCopy vol c) :=
  inferInstanceAs (Decidable (c + c / 2 + 1 < 512 * vol.fatSectors))

def FatSector (vol : Volume) (lba : Nat) : Prop :=
  vol.fatLba ≤ lba ∧ lba < vol.fatLba + 2 * vol.fatSectors

instance (vol : Volume) : DecidablePred (FatSector vol) := fun lba =>
  inferInstanceAs (Decidable (vol.fatLba ≤ lba ∧ lba < vol.fatLba + 2 * vol.fatSectors))

/-- The disk with every other sector protected against writing. -/
def protect (allowed : Nat → Prop) [DecidablePred allowed] (faults : Faults) : Faults :=
  fun n write lba => faults n write lba || (write && !decide (allowed lba))

section Protected

variable {allowed : Nat → Prop} [DecidablePred allowed] (faults : Faults)

theorem loadSecbuf_protect (lba : Nat) (s : Io) :
    loadSecbuf (device (protect allowed faults)) lba s = loadSecbuf (device faults) lba s := by
  simp only [loadSecbuf, device, protect, Bool.false_and, Bool.or_false]

theorem storeSecbuf_protect {lba : Nat} (open' : allowed lba) (s : Io) :
    storeSecbuf (device (protect allowed faults)) lba s = storeSecbuf (device faults) lba s := by
  simp only [storeSecbuf, device, protect, open', decide_true, Bool.not_true, Bool.and_false,
    Bool.or_false]

end Protected

section Entries

variable {faults : Faults} {vol : Volume} {c : Nat}

theorem fatSector_within {copy : Nat} (first : copy < 2) (inside : InCopy vol c) :
    FatSector vol (fatSector vol copy c) ∧
      (Split c → FatSector vol (fatSector vol copy c + 1)) := by
  have copies : copy = 0 ∨ copy = 1 := by omega
  simp only [InCopy] at inside
  simp only [FatSector, fatSector, Split]
  rcases copies with rfl | rfl <;> omega

variable (faults) in
theorem fatSetCopy_protect {copy : Nat} (first : copy < 2) (inside : InCopy vol c) (v : Nat)
    (s : Io) :
    fatSetCopy (device (protect (FatSector vol) faults)) vol copy c v s =
      fatSetCopy (device faults) vol copy c v s := by
  obtain ⟨here, next⟩ := fatSector_within first inside
  have sector : vol.fatLba + copy * vol.fatSectors + (c + c / 2) / 512 = fatSector vol copy c := rfl
  simp only [fatSetCopy, sector, loadSecbuf_protect, storeSecbuf_protect faults here]
  by_cases split : (c + c / 2) % 512 = 511
  · simp only [storeSecbuf_protect faults (next split)]
  · simp only [if_neg split]

variable (faults) in
theorem fatSet_protect (inside : InCopy vol c) (v : Nat) (s : Io) :
    fatSet (device (protect (FatSector vol) faults)) vol c v s =
      fatSet (device faults) vol c v s := by
  simp only [fatSet, fatSetCopy_protect faults (show 0 < 2 by decide) inside,
    fatSetCopy_protect faults (show 1 < 2 by decide) inside]

theorem fatSet_stored {v : Nat} {s s' : Io}
    (stored : fatSet (device faults) vol c v s = (true, s')) :
    s'.disk = putFat vol 1 c v (putFat vol 0 c v s.disk) := by
  rcases fatSetCopy_cases faults vol 0 c v s with ⟨s₁, done, disk⟩ | ⟨s₁, failed, -⟩
  · rcases fatSetCopy_cases faults vol 1 c v s₁ with ⟨s₂, done₂, disk₂⟩ | ⟨s₂, failed, -⟩
    · simp only [fatSet, done, done₂, Prod.mk.injEq, true_and] at stored
      rw [← stored, disk₂, disk]
    · simp [fatSet, done, failed] at stored
  · simp [fatSet, failed] at stored

variable (faults) in
theorem fatSetCopy_beyond {copy : Nat} (beyond : diskSectors ≤ fatSector vol copy c) (v : Nat)
    (s : Io) :
    (fatSetCopy (device faults) vol copy c v s).1 = false := by
  have sector : vol.fatLba + copy * vol.fatSectors + (c + c / 2) / 512 = fatSector vol copy c := rfl
  simp only [fatSetCopy, sector, loadSecbuf, device, beyond, decide_true, Bool.or_true, if_true]

-- A store that is reported done reached the second copy, so the first one lies on the disk.
theorem fatSet_room {v : Nat} {s s' : Io} (stored : fatSet (device faults) vol c v s = (true, s')) :
    vol.fatLba + vol.fatSectors < diskSectors := by
  rcases fatSetCopy_cases faults vol 0 c v s with ⟨s₁, done, -⟩ | ⟨s₁, failed, -⟩
  · by_contra beyond
    have far : diskSectors ≤ fatSector vol 1 c := by
      simp only [fatSector]
      omega
    have failed := fatSetCopy_beyond faults far v s₁
    simp only [fatSet, done] at stored
    rw [stored] at failed
    cases failed
  · simp [fatSet, failed] at stored

theorem fatGet_entry (reliable : Reliable faults) (room : vol.fatLba + vol.fatSectors < diskSectors)
    (inside : InCopy vol c) (s : Io) :
    (fatGet (device faults) vol c s).1 = fatEntry vol s.disk 0 c := by
  obtain ⟨x, s', call, -, rfl | ⟨-, bad⟩⟩ := fatGet_cases faults vol c s
  · rw [call]
  · exfalso
    simp only [InCopy] at inside
    rcases bad with bad | ⟨-, bad⟩
    · exact reliable.good (by simp only [fatSector]; omega) bad
    · exact reliable.good (by simp only [fatSector]; omega) bad

theorem fatAddr_first (vol : Volume) (c : Nat) :
    fatAddr vol 0 c = 512 * vol.fatLba + (c + c / 2) := by
  simp only [fatAddr, Nat.zero_mul, Nat.add_zero]

theorem fatAddr_second (vol : Volume) (c : Nat) :
    fatAddr vol 1 c = 512 * (vol.fatLba + vol.fatSectors) + (c + c / 2) := by
  simp only [fatAddr, Nat.one_mul]

theorem fatEntry_mirror (inside : InCopy vol c) (d v : Nat) (disk : Nat → Byte) :
    fatEntry vol (putFat vol 1 d v disk) 0 c = fatEntry vol disk 0 c := by
  have place := fatAddr_first vol c
  have place' := fatAddr_second vol d
  simp only [InCopy] at inside
  rw [fatEntry, fatEntry, putFat_kept _ _ _ _ _ (by omega) (by omega),
    putFat_kept _ _ _ _ _ (by omega) (by omega)]

theorem putFat_outside {copy : Nat} (first : copy < 2) (inside : InCopy vol c) (v : Nat)
    (disk : Nat → Byte) {lba : Nat} (outside : ¬ FatSector vol lba) {j : Nat} (low : j < 512) :
    sectorOf (putFat vol copy c v disk) lba j = sectorOf disk lba j := by
  have copies : copy = 0 ∨ copy = 1 := by omega
  simp only [InCopy] at inside
  simp only [FatSector, not_and_or, Nat.not_le, Nat.not_lt] at outside
  rw [sectorOf, sectorOf, putFat_kept]
  all_goals
    simp only [fatAddr]
    rcases copies with rfl | rfl <;> omega

/-- A store that is done sets the one entry in both copies, keeps every other entry and every other
sector, and writes to no other sector. -/
theorem fatSet_entries (reliable : Reliable faults) (inside : InCopy vol c) {v : Nat}
    (small : v < 2 ^ 12) {s s' : Io} (stored : fatSet (device faults) vol c v s = (true, s')) :
    (fatGet (device faults) vol c s').1 = v ∧
      (∀ d, d ≠ c → InCopy vol d →
        (fatGet (device faults) vol d s').1 = (fatGet (device faults) vol d s).1) ∧
      (CopiesAgree vol s.disk → CopiesAgree vol s'.disk) ∧
      (∀ lba, ¬ FatSector vol lba → ∀ j < 512, sectorOf s'.disk lba j = sectorOf s.disk lba j) ∧
      fatSet (device (protect (FatSector vol) faults)) vol c v s = (true, s') := by
  have disk := fatSet_stored stored
  have room := fatSet_room stored
  have entry : ∀ d, InCopy vol d →
      fatEntry vol s'.disk 0 d = if d = c then v % 4096 else fatEntry vol s.disk 0 d :=
        fun d member => by
    rw [disk, fatEntry_mirror member, fatEntry_putFat]
  refine ⟨?_, ?_, ?_, ?_, ?_⟩
  · rw [fatGet_entry reliable room inside, entry c inside, if_pos rfl]
    exact Nat.mod_eq_of_lt small
  · intro d other member
    rw [fatGet_entry reliable room member, fatGet_entry reliable room member, entry d member,
      if_neg other]
  · rw [disk]
    exact copiesAgree_putFat inside v
  · intro lba outside j low
    rw [disk, putFat_outside (by decide) inside v _ outside low,
      putFat_outside (by decide) inside v _ outside low]
  · rw [fatSet_protect faults inside, stored]

theorem fatSet_entries_straddling :
    Split 341 ∧ ∃ s', fatSet (device noFaults) floppy 341 0xABC blankIo = (true, s') ∧
      (fatGet (device noFaults) floppy 341 s').1 = 0xABC := by
  refine ⟨by unfold Split; decide, (fatSet (device noFaults) floppy 341 0xABC blankIo).2, ?_, ?_⟩
  · exact Prod.ext (by decide +kernel) rfl
  · exact (fatSet_entries noFaults_reliable (by decide) (by decide)
      (Prod.ext (by decide +kernel) rfl)).1

end Entries

end NovaKernel

import NovaKernel.Common

set_option autoImplicit false

namespace NovaKernel

-- The bytes of one sector; only the first 512 are used.
abbrev Sector := Nat → Byte

/-- What the FAT code works on: the disk, one byte after the other, and the one sector buffer. -/
structure Io where
  disk : Nat → Byte
  secbuf : Sector
  -- The sector accesses made so far.
  accesses : Nat

structure Ata where
  readSector : Nat → Io → Option Sector × Io
  writeSector : Nat → Sector → Io → Bool × Io

def sectorOf (disk : Nat → Byte) (lba : Nat) : Sector := fun j => disk (512 * lba + j)

def putSector (disk : Nat → Byte) (lba : Nat) (data : Sector) : Nat → Byte :=
  fun a => if a / 512 = lba then data (a % 512) else disk a

def diskSectors : Nat := 2880

/-- Which accesses fail, by the number of the access, whether it is a write, and its sector. -/
abbrev Faults := Nat → Bool → Nat → Bool

/-- The disk of 2880 sectors. An access that fails, or lies beyond the last sector, changes nothing. -/
def device (faults : Faults) : Ata where
  readSector lba s :=
    if faults s.accesses false lba || decide (diskSectors ≤ lba) then
      (none, { s with accesses := s.accesses + 1 })
    else (some (sectorOf s.disk lba), { s with accesses := s.accesses + 1 })
  writeSector lba data s :=
    if faults s.accesses true lba || decide (diskSectors ≤ lba) then
      (false, { s with accesses := s.accesses + 1 })
    else (true, { s with disk := putSector s.disk lba data, accesses := s.accesses + 1 })

section Buffered

variable (ata : Ata)

-- `ata_read_sector(lba, secbuf)`.
def loadSecbuf (lba : Nat) (s : Io) : Bool × Io :=
  match ata.readSector lba s with
  | (none, s) => (false, s)
  | (some data, s) => (true, { s with secbuf := data })

-- `ata_write_sector(lba, secbuf)`.
def storeSecbuf (lba : Nat) (s : Io) : Bool × Io :=
  ata.writeSector lba s.secbuf s

end Buffered

end NovaKernel

import NovaKernel.Ata
import Mathlib.Logic.Function.Basic

set_option autoImplicit false

namespace NovaKernel

/-- What a mount leaves in the driver. -/
structure Volume where
  mounted : Bool
  rootLba : Nat
  dataLba : Nat
  rootSectors : Nat
  fatLba : Nat
  fatSectors : Nat
  spc : Nat

def u8 (n : Nat) : Byte := BitVec.ofNat 8 n

def u16Of (b : Nat → Byte) (off : Nat) : Nat :=
  (b off).toNat ||| (b (off + 1)).toNat <<< 8

def u32Of (b : Nat → Byte) (off : Nat) : Nat :=
  (b off).toNat ||| (b (off + 1)).toNat <<< 8 ||| (b (off + 2)).toNat <<< 16 |||
    (b (off + 3)).toNat <<< 24

-- The entry of `cluster` in the two bytes that hold it.
def entryOf (cluster : Nat) (lo hi : Byte) : Nat :=
  let v := lo.toNat ||| hi.toNat <<< 8
  if cluster % 2 = 1 then v >>> 4 else v &&& 0x0FFF

def entryLo (cluster value : Nat) (old : Byte) : Byte :=
  if cluster % 2 = 1 then (old &&& (0x0F : Byte)) ||| (u8 (value <<< 4) &&& (0xF0 : Byte))
  else u8 (value &&& 0xFF)

def entryHi (cluster value : Nat) (old : Byte) : Byte :=
  if cluster % 2 = 1 then u8 ((value >>> 4) &&& 0xFF)
  else (old &&& (0xF0 : Byte)) ||| (u8 (value >>> 8) &&& (0x0F : Byte))

def upcase (c : Byte) : Byte :=
  if 0x61 ≤ c.toNat ∧ c.toNat ≤ 0x7A then c - 32 else c

def normName (name : List Byte) : List Byte :=
  let base := (name.take 8).takeWhile (· ≠ 0x2E)
  let ext := match name.drop base.length with
    | c :: rest => if c = 0x2E then rest.take 3 else []
    | [] => []
  (base.map upcase ++ List.replicate (8 - base.length) 0x20) ++
    (ext.map upcase ++ List.replicate (3 - ext.length) 0x20)

def dirMatch (e : Nat → Byte) (norm : List Byte) : Bool :=
  (List.range 11).all fun i => e i == norm.getD i 0

def entryAt (buf : Nat → Byte) (off : Nat) : Nat → Byte := fun j => buf (off + j)

section Fat

variable (ata : Ata) (vol : Volume)

def fatNextCluster (cluster : Nat) (s : Io) : Nat × Io :=
  let offset := cluster + cluster / 2
  let lba := vol.fatLba + offset / 512
  let off := offset % 512
  match loadSecbuf ata lba s with
  | (false, s) => (0x0FFF, s)
  | (true, s) =>
    if off = 511 then
      let lo := s.secbuf 511
      match loadSecbuf ata (lba + 1) s with
      | (false, s) => (0x0FFF, s)
      | (true, s) => (entryOf cluster lo (s.secbuf 0), s)
    else (entryOf cluster (s.secbuf off) (s.secbuf (off + 1)), s)

def fatMount (present : Bool) (s : Io) : Volume × Io :=
  if !present then ({ vol with mounted := false }, s)
  else match loadSecbuf ata 0 s with
    | (false, s) => ({ vol with mounted := false }, s)
    | (true, s) =>
      let b := s.secbuf
      if u16Of b 11 ≠ 512 then ({ vol with mounted := false }, s)
      else
        let fatLba := u16Of b 14
        let fatSectors := u16Of b 22
        let rootLba := fatLba + (b 16).toNat * fatSectors
        let rootSectors := (u16Of b 17 * 32 + 511) / 512
        ({ mounted := true, fatLba := fatLba, fatSectors := fatSectors, rootLba := rootLba,
           rootSectors := rootSectors, dataLba := rootLba + rootSectors,
           spc := if (b 13).toNat ≠ 0 then (b 13).toNat else 1 }, s)

inductive Found
  | entry (off : Nat)
  | endMark
  | more

-- The last `n` entries of the sector in `buf`, from `off` on.
def scanEntries (norm : List Byte) (buf : Nat → Byte) : Nat → Nat → Found
  | 0, _ => .more
  | n + 1, off =>
    if buf off = 0x00 then .endMark
    else if buf off = 0xE5 ∨ buf (off + 11) = 0x0F then scanEntries norm buf n (off + 32)
    else if dirMatch (entryAt buf off) norm then .entry off
    else scanEntries norm buf n (off + 32)

-- `fat_read` and `fat_stat` look an entry up in this way; it is then at the offset in `secbuf`.
def dirLocate (norm : List Byte) : Nat → Nat → Io → Option Nat × Io
  | 0, _, s => (none, s)
  | n + 1, i, s =>
    match loadSecbuf ata (vol.rootLba + i) s with
    | (false, s) => (none, s)
    | (true, s) =>
      match scanEntries norm s.secbuf 16 0 with
      | .entry off => (some off, s)
      | .endMark => (none, s)
      | .more => dirLocate norm n (i + 1) s

structure Slot where
  lba : Nat
  off : Nat
  existed : Bool

inductive SlotFound
  | done (slot : Option Slot)
  | more (firstFree : Option (Nat × Nat))

def freeSlot (firstFree : Option (Nat × Nat)) : Option Slot :=
  firstFree.map fun p => { lba := p.1, off := p.2, existed := false }

def scanSlots (norm : List Byte) (buf : Nat → Byte) (lba : Nat) :
    Nat → Nat → Option (Nat × Nat) → SlotFound
  | 0, _, firstFree => .more firstFree
  | n + 1, off, firstFree =>
    if buf off = 0xE5 ∨ buf off = 0x00 then
      let firstFree := firstFree.or (some (lba, off))
      if buf off = 0x00 then .done (freeSlot firstFree)
      else scanSlots norm buf lba n (off + 32) firstFree
    else if buf (off + 11) = 0x0F then scanSlots norm buf lba n (off + 32) firstFree
    else if dirMatch (entryAt buf off) norm then
      .done (some { lba := lba, off := off, existed := true })
    else scanSlots norm buf lba n (off + 32) firstFree

def dirFindSlotFrom (norm : List Byte) : Nat → Nat → Option (Nat × Nat) → Io → Option Slot × Io
  | 0, _, firstFree, s => (freeSlot firstFree, s)
  | n + 1, i, firstFree, s =>
    match loadSecbuf ata (vol.rootLba + i) s with
    | (false, s) => (none, s)
    | (true, s) =>
      match scanSlots norm s.secbuf (vol.rootLba + i) 16 0 firstFree with
      | .done slot => (slot, s)
      | .more firstFree => dirFindSlotFrom norm n (i + 1) firstFree s

def dirFindSlot (norm : List Byte) (s : Io) : Option Slot × Io :=
  dirFindSlotFrom ata vol norm vol.rootSectors 0 none s

-- The sectors of a cluster that are left. `out` holds what has been read.
def readCluster (fsize max : Nat) : Nat → Nat → List Byte → Io → Option (List Byte) × Io
  | 0, _, out, s => (some out, s)
  | n + 1, lba, out, s =>
    if out.length < fsize ∧ out.length < max then
      match ata.readSector lba s with
      | (none, s) => (none, s)
      | (some buf, s) =>
        let count := min (min (fsize - out.length) 512) (max - out.length)
        readCluster fsize max n (lba + 1) (out ++ (List.range count).map buf) s
    else (some out, s)

-- The first argument is what is left of the guard.
def readChain (fsize max : Nat) : Nat → Nat → List Byte → Io → Option (List Byte) × Io
  | 0, _, out, s => (some out, s)
  | n + 1, cluster, out, s =>
    if 2 ≤ cluster ∧ cluster < 0xFF0 ∧ out.length < fsize ∧ out.length < max then
      match readCluster ata fsize max vol.spc (vol.dataLba + (cluster - 2) * vol.spc) out s with
      | (none, s) => (none, s)
      | (some out, s) =>
        let (next, s) := fatNextCluster ata vol cluster s
        readChain fsize max n next out s
    else (some out, s)

/-- The size it reports and the bytes it stores in the buffer, or nothing when it returns 0. -/
def fatRead (name : List Byte) (max : Nat) (s : Io) : Option (Nat × List Byte) × Io :=
  if !vol.mounted then (none, s)
  else match dirLocate ata vol (normName name) vol.rootSectors 0 s with
    | (none, s) => (none, s)
    | (some off, s) =>
      let e := entryAt s.secbuf off
      let fsize := u32Of e 28
      match readChain ata vol fsize max 65536 (u16Of e 26) [] s with
      | (none, s) => (none, s)
      | (some out, s) => (some (if out.length < fsize then out.length else fsize, out), s)

structure Stat where
  size : Nat
  cluster : Nat
  attr : Byte

def fatStat (name : List Byte) (s : Io) : Option Stat × Io :=
  if !vol.mounted then (none, s)
  else match dirLocate ata vol (normName name) vol.rootSectors 0 s with
    | (none, s) => (none, s)
    | (some off, s) =>
      let e := entryAt s.secbuf off
      (some { size := u32Of e 28, cluster := u16Of e 26, attr := e 11 }, s)

def dataClustersMax : Nat :=
  let dataSectors := (2880 + 2 ^ 32 - vol.dataLba) % 2 ^ 32
  dataSectors / (if vol.spc ≠ 0 then vol.spc else 1)

def clustersEnd : Nat := (dataClustersMax vol + 2) % 2 ^ 32

def fatGet (cluster : Nat) (s : Io) : Nat × Io := fatNextCluster ata vol cluster s

def fatSetCopy (copy cluster value : Nat) (s : Io) : Bool × Io :=
  let offset := cluster + cluster / 2
  let lba := vol.fatLba + copy * vol.fatSectors + offset / 512
  let off := offset % 512
  match loadSecbuf ata lba s with
  | (false, s) => (false, s)
  | (true, s) =>
    if off = 511 then
      let patched := Function.update s.secbuf 511 (entryLo cluster value (s.secbuf 511))
      match storeSecbuf ata lba { s with secbuf := patched } with
      | (false, s) => (false, s)
      | (true, s) =>
        match loadSecbuf ata (lba + 1) s with
        | (false, s) => (false, s)
        | (true, s) =>
          let patched := Function.update s.secbuf 0 (entryHi cluster value (s.secbuf 0))
          storeSecbuf ata (lba + 1) { s with secbuf := patched }
    else
      let patched := Function.update s.secbuf off (entryLo cluster value (s.secbuf off))
      let patched := Function.update patched (off + 1) (entryHi cluster value (patched (off + 1)))
      storeSecbuf ata lba { s with secbuf := patched }

def fatSet (cluster value : Nat) (s : Io) : Bool × Io :=
  match fatSetCopy ata vol 0 cluster value s with
  | (false, s) => (false, s)
  | (true, s) => fatSetCopy ata vol 1 cluster value s

def zeroSectors : Nat → Nat → Io → Bool × Io
  | 0, _, s => (true, s)
  | n + 1, lba, s =>
    let zeroed : Sector := fun i => if i < 512 then 0 else s.secbuf i
    match storeSecbuf ata lba { s with secbuf := zeroed } with
    | (false, s) => (false, s)
    | (true, s) => zeroSectors n (lba + 1) s

def fatAllocFrom : Nat → Nat → Io → Nat × Io
  | 0, _, s => (0, s)
  | n + 1, c, s =>
    match fatGet ata vol c s with
    | (v, s) =>
      if v = 0 then
        match fatSet ata vol c 0x0FFF s with
        | (false, s) => (0, s)
        | (true, s) =>
          match zeroSectors ata vol.spc (vol.dataLba + (c - 2) * vol.spc) s with
          | (false, s) => (0, s)
          | (true, s) => (c, s)
      else fatAllocFrom n (c + 1) s

def fatAllocCluster (s : Io) : Nat × Io :=
  fatAllocFrom ata vol (clustersEnd vol - 2) 2 s

def freeChainFrom : Nat → Nat → Io → Io
  | 0, _, s => s
  | n + 1, cluster, s =>
    if 2 ≤ cluster ∧ cluster < 0xFF0 then
      let (next, s) := fatGet ata vol cluster s
      let (_, s) := fatSet ata vol cluster 0 s
      freeChainFrom n next s
    else s

def fatFreeChain (cluster : Nat) (s : Io) : Io := freeChainFrom ata vol 65536 cluster s

def countFree : Nat → Nat → Nat → Io → Nat × Io
  | 0, _, freec, s => (freec, s)
  | n + 1, c, freec, s =>
    match fatGet ata vol c s with
    | (v, s) => countFree n (c + 1) (if v = 0 then freec + 1 else freec) s

def fatFreeBytes (s : Io) : Nat × Io :=
  if !vol.mounted then (0, s)
  else
    let (freec, s) := countFree ata vol (clustersEnd vol - 2) 2 0 s
    (freec * vol.spc * 512 % 2 ^ 32, s)

def fatDelete (name : List Byte) (s : Io) : Bool × Io :=
  if !vol.mounted then (false, s)
  else match dirFindSlot ata vol (normName name) s with
    | (none, s) => (false, s)
    | (some slot, s) =>
      if !slot.existed then (false, s)
      else match loadSecbuf ata slot.lba s with
        | (false, s) => (false, s)
        | (true, s) =>
          let cluster := u16Of s.secbuf (slot.off + 26)
          match storeSecbuf ata slot.lba { s with secbuf := Function.update s.secbuf slot.off 0xE5 } with
          | (false, s) => (false, s)
          | (true, s) => (true, fatFreeChain ata vol cluster s)

def allocChain : Nat → Nat → Nat → Io → Option Nat × Io
  | 0, first, _, s => (some first, s)
  | n + 1, first, prev, s =>
    match fatAllocCluster ata vol s with
    | (c, s) =>
      if c = 0 then (none, if first ≠ 0 then fatFreeChain ata vol first s else s)
      else
        let s := if prev ≠ 0 then (fatSet ata vol prev (c % 2 ^ 16) s).2 else s
        allocChain n (if first = 0 then c else first) c s

-- The sectors of a cluster that are left; the result is the number of bytes written so far.
def writeSectors (data : Nat → Byte) (len : Nat) : Nat → Nat → Nat → Io → Option Nat × Io
  | 0, _, written, s => (some written, s)
  | n + 1, lba, written, s =>
    if written < len then
      let filled : Sector := fun i =>
        if i < 512 then (if written + i < len then data (written + i) else 0) else s.secbuf i
      match storeSecbuf ata lba { s with secbuf := filled } with
      | (false, s) => (none, s)
      | (true, s) => writeSectors data len n (lba + 1) (min (written + 512) len) s
    else (some written, s)

-- A pass writes a sector at least, so `len` passes are enough for `len` bytes.
def writeChain (data : Nat → Byte) (len first : Nat) : Nat → Nat → Nat → Io → Bool × Io
  | 0, _, _, s => (true, s)
  | n + 1, c, written, s =>
    if 2 ≤ c ∧ written < len then
      match writeSectors ata data len vol.spc (vol.dataLba + (c - 2) * vol.spc) written s with
      | (none, s) => (false, fatFreeChain ata vol first s)
      | (some written, s) =>
        if written < len then
          let (next, s) := fatGet ata vol c s
          writeChain data len first n next written s
        else writeChain data len first n c written s
    else (true, s)

def newEntry (norm : List Byte) (first len : Nat) : Nat → Byte := fun j =>
  if j < 11 then norm.getD j 0
  else if j = 11 then 0x20
  else if j < 26 then 0
  else if j = 26 then u8 (first &&& 0xFF)
  else if j = 27 then u8 ((first >>> 8) &&& 0xFF)
  else if j = 28 then u8 (len &&& 0xFF)
  else if j = 29 then u8 ((len >>> 8) &&& 0xFF)
  else if j = 30 then u8 ((len >>> 16) &&& 0xFF)
  else u8 ((len >>> 24) &&& 0xFF)

def putEntry (buf : Nat → Byte) (off : Nat) (e : Nat → Byte) : Nat → Byte :=
  fun j => if off ≤ j ∧ j < off + 32 then e (j - off) else buf j

def writeEntry (slot : Slot) (norm : List Byte) (first len : Nat) (s : Io) : Bool × Io :=
  match loadSecbuf ata slot.lba s with
  | (false, s) => (false, s)
  | (true, s) =>
    storeSecbuf ata slot.lba { s with secbuf := putEntry s.secbuf slot.off (newEntry norm first len) }

-- The old chain of the file is dropped before the new one is allocated.
def dropOld (slot : Slot) (s : Io) : Bool × Io :=
  if slot.existed then
    match loadSecbuf ata slot.lba s with
    | (false, s) => (false, s)
    | (true, s) => (true, fatFreeChain ata vol (u16Of s.secbuf (slot.off + 26)) s)
  else (true, s)

def clustersFor (len : Nat) : Nat :=
  let perCluster := vol.spc * 512
  (len + perCluster + (2 ^ 32 - 1)) % 2 ^ 32 / perCluster

def fatWrite (name : List Byte) (data : Nat → Byte) (len : Nat) (s : Io) : Bool × Io :=
  if !vol.mounted then (false, s)
  else match dirFindSlot ata vol (normName name) s with
    | (none, s) => (false, s)
    | (some slot, s) =>
      match dropOld ata vol slot s with
      | (false, s) => (false, s)
      | (true, s) =>
        match allocChain ata vol (clustersFor vol len) 0 0 s with
        | (none, s) => (false, s)
        | (some first, s) =>
          match writeChain ata vol data len first len first 0 s with
          | (false, s) => (false, s)
          | (true, s) => writeEntry ata slot (normName name) first len s

end Fat

end NovaKernel

import NovaKernel.Ata

set_option autoImplicit false

namespace NovaKernel

namespace AtaPio

abbrev Half := BitVec 16

inductive Transfer
  | none
  -- The words that have been read so far.
  | reading (lba word : Nat)
  | writing (lba : Nat) (words : List Half)

def Transfer.asks : Transfer → Bool
  | .none => false
  | _ => true

structure Drive where
  attached : Bool
  sectors : Nat
  disk : Nat → Byte
  device : Byte
  count : Byte
  low : Byte
  mid : Byte
  high : Byte
  error : Bool
  transfer : Transfer
  -- The status reads that still show BSY.
  busy : Nat
  commands : Nat

/-- How long a command takes, in status reads, and how long the drive takes to ask for the data of a write. -/
structure Timing where
  delay : Nat → Nat
  request : Nat → Nat

def wordAt (disk : Nat → Byte) (a : Nat) : Half := disk (a + 1) ++ disk a

def bytesOf (words : List Half) : Sector := fun j =>
  let w := words.getD (j / 2) 0
  if j % 2 = 0 then w.setWidth 8 else w.extractLsb' 8 8

def wordsOf (buf : Sector) : List Half := (List.range 256).map fun k => wordAt buf (2 * k)

namespace Drive

variable (t : Timing) (d : Drive)

def lba : Nat :=
  d.device.toNat % 16 * 2 ^ 24 + d.high.toNat * 2 ^ 16 + d.mid.toNat * 2 ^ 8 + d.low.toNat

-- A new command clears the error of the one before; without a sector to read there is no data.
def command (v : Byte) : Drive :=
  let d := { d with error := false, commands := d.commands + 1 }
  if v = 0x20 then
    if d.lba < d.sectors then { d with transfer := .reading d.lba 0, busy := t.delay d.commands }
    else { d with error := true, busy := t.delay d.commands }
  else if v = 0x30 then { d with transfer := .writing d.lba [], busy := t.request d.commands }
  else { d with busy := t.delay d.commands }

def register (port : Nat) (v : Byte) : Drive :=
  match port with
  | 2 => { d with count := v }
  | 3 => { d with low := v }
  | 4 => { d with mid := v }
  | 5 => { d with high := v }
  | 6 => { d with device := v }
  | 7 => if d.transfer.asks then d else d.command t v
  | _ => d

-- A drive that is busy takes nothing, and one that moves data takes no command.
def outb (port : Nat) (v : Byte) : Drive :=
  if !d.attached || decide (0 < d.busy) then d else d.register t port v

def status : Byte × Drive :=
  if !d.attached then (0xFF, d)
  else if 0 < d.busy then (0x80, { d with busy := d.busy - 1 })
  else
    (0x40 ||| (if d.transfer.asks then 0x08 else 0x00) ||| (if d.error then 0x01 else 0x00), d)

def inw : Half × Drive :=
  match d.transfer with
  | .reading lba k =>
    if 0 < d.busy then (0, d)
    else (wordAt d.disk (512 * lba + 2 * k),
      { d with transfer := if k + 1 < 256 then .reading lba (k + 1) else .none })
  | _ => (0, d)

def finish (lba : Nat) (words : List Half) : Drive :=
  if lba < d.sectors then
    { d with transfer := .none, disk := putSector d.disk lba (bytesOf words), busy := t.delay d.commands }
  else { d with transfer := .none, error := true, busy := t.delay d.commands }

def outw (w : Half) : Drive :=
  match d.transfer with
  | .writing lba words =>
    if 0 < d.busy then d
    else if words.length + 1 < 256 then { d with transfer := .writing lba (words ++ [w]) }
    else d.finish t lba (words ++ [w])
  | _ => d

structure Idle : Prop where
  attached : d.attached = true
  done : d.transfer = .none
  ready : d.busy = 0

end Drive

def pollLimit : Nat := 2000000

def pollBusy : Nat → Drive → Drive
  | 0, d => d
  | n + 1, d =>
    match d.status with
    | (st, d) => if st &&& 0x80 = 0 then d else pollBusy n d

-- Until the drive is ready for a command: not BSY, and DRDY.
def pollReady : Nat → Drive → Drive
  | 0, d => d
  | n + 1, d =>
    match d.status with
    | (st, d) => if st &&& 0x80 = 0 ∧ st &&& 0x40 ≠ 0 then d else pollReady n d

def insw : Nat → Drive → List Half × Drive
  | 0, d => ([], d)
  | n + 1, d =>
    let (w, d) := d.inw
    let (ws, d) := insw n d
    (w :: ws, d)

section Driver

variable (t : Timing)

def outsw : List Half → Drive → Drive
  | [], d => d
  | w :: ws, d => outsw ws (d.outw t w)

-- The writes to the task file that `ata_read_sector` and `ata_write_sector` share.
def select (lba : Word) (d : Drive) : Drive :=
  let d := d.outb t 6 ((0xE0#32 ||| ((lba >>> 24) &&& 0x0F)).setWidth 8)
  let d := d.outb t 2 1
  let d := d.outb t 3 ((lba &&& 0xFF).setWidth 8)
  let d := d.outb t 4 (((lba >>> 8) &&& 0xFF).setWidth 8)
  d.outb t 5 (((lba >>> 16) &&& 0xFF).setWidth 8)

def ataInit (d : Drive) : Bool × Drive :=
  let d := pollBusy pollLimit (d.outb t 6 0xE0)
  let (st, d) := d.status
  (st != 0xFF, d)

def ataReadSector (present : Bool) (lba : Word) (d : Drive) : Option Sector × Drive :=
  if !present then (none, d)
  else
    let d := pollBusy pollLimit ((select t lba d).outb t 7 0x20)
    let (st, d) := d.status
    if st &&& 0x01 ≠ 0 then (none, d)
    else
      let (ws, d) := insw 256 d
      (some (bytesOf ws), d)

def ataWriteSector (present : Bool) (lba : Word) (buf : Sector) (d : Drive) : Bool × Drive :=
  if !present then (false, d)
  else
    let d := pollReady pollLimit (pollBusy pollLimit d)
    let d := outsw t (wordsOf buf) ((select t lba d).outb t 7 0x30)
    let d := pollBusy pollLimit (d.outb t 7 0xE7)
    let (st, d) := d.status
    (st &&& 0x01 = 0, d)

end Driver

end AtaPio

end NovaKernel

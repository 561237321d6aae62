import NovaKernel.Common
import Mathlib.Data.List.Basic
import Mathlib.Tactic.Common

set_option autoImplicit false

namespace NovaKernel

namespace BootSector

abbrev Half := BitVec 16

abbrev Bytes := Nat → Byte

def lo (r : Half) : Byte := BitVec.ofNat 8 (r.toNat % 256)

def hi (r : Half) : Byte := BitVec.ofNat 8 (r.toNat / 256)

def pair (high low : Byte) : Half := BitVec.ofNat 16 (high.toNat * 256 + low.toNat)

def withLo (r : Half) (v : Byte) : Half := pair (hi r) v

def withHi (r : Half) (v : Byte) : Half := pair v (lo r)

def word (mem : Bytes) (a : Nat) : Half := pair (mem (a + 1)) (mem a)

def setByte (mem : Bytes) (a : Nat) (v : Byte) : Bytes :=
  fun b => if b = a then v else mem b

def setWord (mem : Bytes) (a : Nat) (v : Half) : Bytes :=
  setByte (setByte mem a (lo v)) (a + 1) (hi v)

structure Regs where
  ax : Half
  bx : Half
  cx : Half
  dx : Half
  es : Half

def sectPerTrack : Half := 18

def heads : Half := 2

def div (dx ax divisor : Half) : Option (Half × Half) :=
  let value := dx.toNat * 65536 + ax.toNat
  if divisor.toNat = 0 ∨ 65536 ≤ value / divisor.toNat then none
  else some (BitVec.ofNat 16 (value / divisor.toNat), BitVec.ofNat 16 (value % divisor.toNat))

def Regs.buffer (r : Regs) : Nat := r.es.toNat * 16 + r.bx.toNat

structure Read where
  cylinder : Nat
  head : Nat
  sector : Nat
  drive : Byte
  count : Nat
  address : Nat

-- Bits 6 and 7 of CL are the high bits of the cylinder.
def Regs.read (r : Regs) : Read where
  cylinder := (lo r.cx).toNat / 64 * 256 + (hi r.cx).toNat
  head := (hi r.dx).toNat
  sector := (lo r.cx).toNat % 64
  drive := lo r.dx
  count := (lo r.ax).toNat
  address := r.buffer

/-- `int 0x13`: registers, memory and carry flag afterwards. Of the boot sector's own memory it
changes at most what lies in the 512 bytes of the transfer. -/
structure Bios where
  int13 : Regs → Bytes → Regs × Bytes × Bool
  frame : ∀ r mem a, 0x7C00 ≤ a → a < 0x7E00 → (a < r.buffer ∨ r.buffer + 512 ≤ a) →
    (int13 r mem).2.1 a = mem a

/-- Where the assembler puts the variables: `boot_drive`, `cur_drive`, then four words. -/
structure Layout where
  bootDrive : Nat
  first : 0x7C00 ≤ bootDrive
  last : bootDrive + 10 ≤ 0x7DFE

namespace Layout

variable (l : Layout)

def curDrive : Nat := l.bootDrive + 1

def sectLeft : Nat := l.bootDrive + 2

def bufOff : Nat := l.bootDrive + 4

def bufSeg : Nat := l.bootDrive + 6

def curLba : Nat := l.bootDrive + 8

end Layout

structure BootState where
  regs : Regs
  mem : Bytes
  reads : List Read

/-- How an iteration of `.rs_loop` ends. -/
inductive Next
  | again (s : BootState)
  | done (s : BootState)
  | error (s : BootState)
  | divideError

def chs (l : Layout) (mem : Bytes) (r : Regs) : Option Regs := do
  let r := { r with ax := word mem l.curLba }
  let r := { r with dx := 0 }
  let r := { r with cx := sectPerTrack }
  let (ax, dx) ← div r.dx r.ax r.cx
  let r := { r with ax := ax, dx := dx }
  let r := { r with bx := withLo r.bx (lo r.dx) }
  let r := { r with bx := withLo r.bx (lo r.bx + 1) }
  let r := { r with dx := 0 }
  let r := { r with cx := heads }
  let (ax, dx) ← div r.dx r.ax r.cx
  let r := { r with ax := ax, dx := dx }
  let r := { r with cx := withHi r.cx (lo r.ax) }
  let r := { r with dx := withHi r.dx (lo r.dx) }
  let r := { r with cx := withLo r.cx (lo r.bx) }
  let r := { r with dx := withLo r.dx (mem l.curDrive) }
  let r := { r with ax := word mem l.bufSeg }
  let r := { r with es := r.ax }
  let r := { r with bx := word mem l.bufOff }
  some { r with ax := 0x0201 }

def advance (l : Layout) (mem : Bytes) : Bytes :=
  let off := word mem l.bufOff
  let mem := setWord mem l.bufOff (off + 512)
  if 65536 ≤ off.toNat + 512 then setWord mem l.bufSeg (word mem l.bufSeg + 0x1000) else mem

def rsLoop (bios : Bios) (l : Layout) (s : BootState) : Next :=
  match chs l s.mem s.regs with
  | none => .divideError
  | some r =>
    let (regs, mem, carry) := bios.int13 r s.mem
    let reads := s.reads ++ [r.read]
    if carry then .error ⟨regs, mem, reads⟩
    else
      let mem := advance l mem
      let mem := setWord mem l.curLba (word mem l.curLba + 1)
      let left := word mem l.sectLeft - 1
      let mem := setWord mem l.sectLeft left
      if left ≠ 0 then .again ⟨regs, mem, reads⟩ else .done ⟨regs, mem, reads⟩

def rsLoops (bios : Bios) (l : Layout) : Nat → BootState → Option Next
  | 0, _ => none
  | fuel + 1, s =>
    match rsLoop bios l s with
    | .again s => rsLoops bios l fuel s
    | last => some last

structure Args where
  drive : Byte
  lba : BitVec 32
  seg : Half
  off : Half
  count : Half

def prologue (l : Layout) (args : Args) (mem : Bytes) : Bytes :=
  let mem := setWord mem l.sectLeft args.count
  let mem := setWord mem l.bufOff args.off
  let mem := setWord mem l.bufSeg args.seg
  let mem := setWord mem l.curLba (args.lba.setWidth 16)
  setByte mem l.curDrive args.drive

def readSectors (bios : Bios) (l : Layout) (args : Args) (regs : Regs) (mem : Bytes) (fuel : Nat) :
    Option Next :=
  rsLoops bios l fuel ⟨regs, prologue l args mem, []⟩

theorem pair_toNat (high low : Byte) : (pair high low).toNat = high.toNat * 256 + low.toNat := by
  rw [pair, BitVec.toNat_ofNat]
  omega

theorem lo_toNat (r : Half) : (lo r).toNat = r.toNat % 256 := by
  rw [lo, BitVec.toNat_ofNat]
  omega

theorem hi_toNat (r : Half) : (hi r).toNat = r.toNat / 256 := by
  rw [hi, BitVec.toNat_ofNat]
  omega

theorem lo_pair (high low : Byte) : lo (pair high low) = low := by
  apply BitVec.eq_of_toNat_eq
  rw [lo_toNat, pair_toNat]
  omega

theorem hi_pair (high low : Byte) : hi (pair high low) = high := by
  apply BitVec.eq_of_toNat_eq
  rw [hi_toNat, pair_toNat]
  omega

theorem pair_hi_lo (r : Half) : pair (hi r) (lo r) = r := by
  apply BitVec.eq_of_toNat_eq
  rw [pair_toNat, hi_toNat, lo_toNat]
  omega

theorem setByte_same (mem : Bytes) (a : Nat) (v : Byte) : setByte mem a v a = v := if_pos rfl

theorem setByte_other (mem : Bytes) {a b : Nat} (v : Byte) (apart : b ≠ a) :
    setByte mem a v b = mem b := if_neg apart

theorem word_setWord (mem : Bytes) (a : Nat) (v : Half) : word (setWord mem a v) a = v := by
  rw [word, setWord, setByte_same, setByte_other _ _ (by omega), setByte_same, pair_hi_lo]

theorem setWord_other (mem : Bytes) {a b : Nat} (v : Half) (apart : b < a ∨ a + 2 ≤ b) :
    setWord mem a v b = mem b := by
  rw [setWord, setByte_other _ _ (by omega), setByte_other _ _ (by omega)]

theorem word_congr {mem mem' : Bytes} {a : Nat} (low : mem' a = mem a)
    (high : mem' (a + 1) = mem (a + 1)) : word mem' a = word mem a := by
  rw [word, word, low, high]

theorem word_setWord_other (mem : Bytes) {a b : Nat} (v : Half) (apart : b + 2 ≤ a ∨ a + 2 ≤ b) :
    word (setWord mem a v) b = word mem b :=
  word_congr (setWord_other mem v (by omega)) (setWord_other mem v (by omega))

theorem word_setByte_other (mem : Bytes) {a b : Nat} (v : Byte) (apart : b + 2 ≤ a ∨ a + 1 ≤ b) :
    word (setByte mem a v) b = word mem b :=
  word_congr (setByte_other mem v (by omega)) (setByte_other mem v (by omega))

theorem div_eq (ax divisor : Half) (positive : 0 < divisor.toNat) :
    div 0 ax divisor =
      some (BitVec.ofNat 16 (ax.toNat / divisor.toNat), BitVec.ofNat 16 (ax.toNat % divisor.toNat)) := by
  have small : ax.toNat / divisor.toNat < 65536 :=
    Nat.lt_of_le_of_lt (Nat.div_le_self _ _) ax.isLt
  have nonzero : ¬ divisor.toNat = 0 := by omega
  simp [div, nonzero, Nat.not_le.mpr small]

def Read.Names (read : Read) (lba : Nat) : Prop :=
  (read.cylinder * 2 + read.head) * 18 + read.sector - 1 = lba ∧
    1 ≤ read.sector ∧ read.sector ≤ 18 ∧ read.head ≤ 1

theorem names_chs (l : Layout) (mem : Bytes) (r : Regs) (bound : (word mem l.curLba).toNat < 2880) :
    ∃ r', chs l mem r = some r' ∧ r'.read.Names (word mem l.curLba).toNat ∧ r'.read.count = 1 ∧
      r'.read.drive = mem l.curDrive ∧
      r'.buffer = (word mem l.bufSeg).toNat * 16 + (word mem l.bufOff).toNat := by
  generalize hlba : (word mem l.curLba).toNat = lba at bound
  have first : div 0 (word mem l.curLba) sectPerTrack =
      some (BitVec.ofNat 16 (lba / 18), BitVec.ofNat 16 (lba % 18)) := by
    rw [div_eq _ _ (by decide), hlba]
    rfl
  have second : div 0 (BitVec.ofNat 16 (lba / 18)) heads =
      some (BitVec.ofNat 16 (lba / 18 / 2), BitVec.ofNat 16 (lba / 18 % 2)) := by
    rw [div_eq _ _ (by decide), BitVec.toNat_ofNat, Nat.mod_eq_of_lt (by omega)]
    rfl
  simp only [chs, first, second, Option.bind_eq_bind, Option.bind_some]
  refine ⟨_, rfl, ?_⟩
  simp only [Regs.read, Regs.buffer, Read.Names, withLo, withHi, lo_pair, hi_pair, lo_toNat,
    BitVec.toNat_add, BitVec.toNat_ofNat]
  have sector : (lba % 18 % 2 ^ 16 % 256 + BitVec.toNat (1 : Byte)) % 2 ^ 8 = lba % 18 + 1 := by
    change (lba % 18 % 2 ^ 16 % 256 + 1) % 2 ^ 8 = lba % 18 + 1
    omega
  have cylinder : lba / 18 / 2 % 2 ^ 16 % 256 = lba / 18 / 2 := by omega
  have head : lba / 18 % 2 % 2 ^ 16 % 256 = lba / 18 % 2 := by omega
  rw [sector, cylinder, head]
  have whole : (lba / 18 / 2 * 2 + lba / 18 % 2) * 18 + lba % 18 = lba := by omega
  refine ⟨⟨?_, ?_, ?_, ?_⟩, rfl, trivial, trivial⟩ <;> omega

/-- The reads made so far: one per sector, in order, each into its own part of the buffer. -/
def Sequence (args : Args) (reads : List Read) : Prop :=
  ∀ i (made : i < reads.length),
    reads[i].Names (args.lba.toNat + i) ∧ reads[i].count = 1 ∧ reads[i].drive = args.drive ∧
      reads[i].address = args.seg.toNat * 16 + args.off.toNat + 512 * i

/-- The sectors are on the floppy, and the buffer stays below 1 MB. -/
structure Asked (args : Args) : Prop where
  floppy : args.lba.toNat + args.count.toNat ≤ 2880
  some : args.count ≠ 0
  aligned : args.off.toNat % 512 = 0
  below : args.seg.toNat * 16 + args.off.toNat + 512 * args.count.toNat ≤ 0x100000

/-- The transfers also stay clear of the boot sector that runs them. -/
structure Clear (args : Args) : Prop extends Asked args where
  apart : args.seg.toNat * 16 + args.off.toNat + 512 * args.count.toNat ≤ 0x7C00 ∨
    0x7E00 ≤ args.seg.toNat * 16 + args.off.toNat

/-- The loop invariant, before the transfer of sector `i`. -/
structure Before (l : Layout) (args : Args) (i : Nat) (s : BootState) : Prop where
  made : s.reads.length = i
  sequence : Sequence args s.reads
  lba : (word s.mem l.curLba).toNat = args.lba.toNat + i
  left : (word s.mem l.sectLeft).toNat + i = args.count.toNat
  aligned : (word s.mem l.bufOff).toNat % 512 = 0
  pointer : (word s.mem l.bufSeg).toNat * 16 + (word s.mem l.bufOff).toNat =
    args.seg.toNat * 16 + args.off.toNat + 512 * i
  drive : s.mem l.curDrive = args.drive

theorem word_prologue (l : Layout) (args : Args) (mem : Bytes) :
    word (prologue l args mem) l.sectLeft = args.count ∧
      word (prologue l args mem) l.bufOff = args.off ∧
      word (prologue l args mem) l.bufSeg = args.seg ∧
      word (prologue l args mem) l.curLba = args.lba.setWidth 16 ∧
      prologue l args mem l.curDrive = args.drive := by
  simp only [prologue, Layout.sectLeft, Layout.bufOff, Layout.bufSeg, Layout.curLba,
    Layout.curDrive]
  refine ⟨?_, ?_, ?_, ?_, setByte_same _ _ _⟩
  · rw [word_setByte_other _ _ (by omega), word_setWord_other _ _ (by omega),
      word_setWord_other _ _ (by omega), word_setWord_other _ _ (by omega), word_setWord]
  · rw [word_setByte_other _ _ (by omega), word_setWord_other _ _ (by omega),
      word_setWord_other _ _ (by omega), word_setWord]
  · rw [word_setByte_other _ _ (by omega), word_setWord_other _ _ (by omega), word_setWord]
  · rw [word_setByte_other _ _ (by omega), word_setWord]

theorem before_prologue {l : Layout} {args : Args} (clear : Clear args) (regs : Regs)
    (mem : Bytes) :
    Before l args 0 ⟨regs, prologue l args mem, []⟩ := by
  obtain ⟨left, off, seg, lba, drive⟩ := word_prologue l args mem
  have floppy := clear.floppy
  refine ⟨rfl, fun i made => absurd made (by simp), ?_, ?_, ?_, ?_, drive⟩
  · rw [lba, BitVec.toNat_setWidth]
    omega
  · rw [left]
    rfl
  · rw [off]
    exact clear.aligned
  · rw [off, seg]
    rfl

-- The offset is a multiple of 512, so it passes 64 KB exactly at 0, where the segment takes the
-- carry.
theorem advance_pointer (l : Layout) (mem : Bytes) (aligned : (word mem l.bufOff).toNat % 512 = 0)
    (room : (word mem l.bufSeg).toNat * 16 + (word mem l.bufOff).toNat + 512 < 0x100000) :
    (word (advance l mem) l.bufOff).toNat % 512 = 0 ∧
      (word (advance l mem) l.bufSeg).toNat * 16 + (word (advance l mem) l.bufOff).toNat =
        (word mem l.bufSeg).toNat * 16 + (word mem l.bufOff).toNat + 512 := by
  have far : l.bufOff + 2 ≤ l.bufSeg := Nat.le_refl _
  have sum : ((word mem l.bufOff) + 512).toNat = ((word mem l.bufOff).toNat + 512) % 65536 :=
    BitVec.toNat_add _ _
  have small := (word mem l.bufOff).isLt
  by_cases wraps : 65536 ≤ (word mem l.bufOff).toNat + 512
  · have carry : ((word mem l.bufSeg) + 0x1000).toNat =
        ((word mem l.bufSeg).toNat + 4096) % 65536 :=
      BitVec.toNat_add _ _
    simp only [advance, if_pos wraps]
    rw [word_setWord_other _ _ (.inl far), word_setWord, word_setWord,
      word_setWord_other _ _ (.inr far), sum, carry]
    omega
  · simp only [advance, if_neg wraps]
    rw [word_setWord, word_setWord_other _ _ (.inr far), sum]
    omega

theorem advance_other (l : Layout) (mem : Bytes) {a : Nat}
    (apart : a < l.bufOff ∨ l.bufSeg + 2 ≤ a) :
    advance l mem a = mem a := by
  have far : l.bufOff + 2 = l.bufSeg := rfl
  by_cases wraps : 65536 ≤ (word mem l.bufOff).toNat + 512
  · simp only [advance, if_pos wraps]
    rw [setWord_other _ _ (by omega), setWord_other _ _ (by omega)]
  · simp only [advance, if_neg wraps]
    rw [setWord_other _ _ (by omega)]

theorem transfer_frame {bios : Bios} {l : Layout} {r : Regs} (mem : Bytes)
    (apart : r.buffer + 512 ≤ l.bootDrive ∨ l.bootDrive + 10 ≤ r.buffer) {k : Nat}
    (inside : k < 10) :
    (bios.int13 r mem).2.1 (l.bootDrive + k) = mem (l.bootDrive + k) := by
  have first := l.first
  have last := l.last
  exact bios.frame r mem _ (by omega) (by omega) (by omega)

theorem sequence_snoc {args : Args} {reads : List Read} {read : Read} (made : Sequence args reads)
    (next : read.Names (args.lba.toNat + reads.length) ∧ read.count = 1 ∧ read.drive = args.drive ∧
      read.address = args.seg.toNat * 16 + args.off.toNat + 512 * reads.length) :
    Sequence args (reads ++ [read]) := by
  intro i hi
  rw [List.length_append, List.length_singleton] at hi
  by_cases old : i < reads.length
  · rw [List.getElem_append_left old]
    exact made i old
  · have last : i = reads.length := by omega
    subst last
    simpa using next

variable {bios : Bios} {l : Layout} {args : Args} {s : BootState} {i : Nat}

theorem moved_on {mem : Bytes} (before : Before l args i s)
    (same : ∀ k < 10, mem (l.bootDrive + k) = s.mem (l.bootDrive + k)) (next : Half) (left : Half) :
    let moved := setWord (setWord (advance l mem) l.curLba next) l.sectLeft left
    word (advance l mem) l.curLba = word s.mem l.curLba ∧
      word (setWord (advance l mem) l.curLba next) l.sectLeft = word s.mem l.sectLeft ∧
      word moved l.curLba = next ∧ word moved l.sectLeft = left ∧
      word moved l.bufOff = word (advance l mem) l.bufOff ∧
      word moved l.bufSeg = word (advance l mem) l.bufSeg ∧ moved l.curDrive = args.drive := by
  have seg : l.bufSeg = l.bootDrive + 6 := rfl
  have off : l.bufOff = l.bootDrive + 4 := rfl
  have lba : l.curLba = l.bootDrive + 8 := rfl
  have cnt : l.sectLeft = l.bootDrive + 2 := rfl
  have drv : l.curDrive = l.bootDrive + 1 := rfl
  refine ⟨?_, ?_, ?_, word_setWord _ _ _, ?_, ?_, ?_⟩
  · refine word_congr ?_ ?_
    · rw [advance_other l mem (by omega)]
      exact same 8 (by decide)
    · rw [advance_other l mem (by omega)]
      exact same 9 (by decide)
  · rw [word_setWord_other _ _ (by omega)]
    refine word_congr ?_ ?_
    · rw [advance_other l mem (by omega)]
      exact same 2 (by decide)
    · rw [advance_other l mem (by omega)]
      exact same 3 (by decide)
  · rw [word_setWord_other _ _ (by omega), word_setWord]
  · rw [word_setWord_other _ _ (by omega), word_setWord_other _ _ (by omega)]
  · rw [word_setWord_other _ _ (by omega), word_setWord_other _ _ (by omega)]
  · rw [setWord_other _ _ (by omega), setWord_other _ _ (by omega), advance_other l mem (by omega)]
    exact (same 1 (by decide)).trans before.drive

theorem rsLoop_eq {r : Regs} {regs : Regs} {mem : Bytes} (call : chs l s.mem s.regs = some r)
    (answer : bios.int13 r s.mem = (regs, mem, false)) :
    rsLoop bios l s =
      let counted := setWord (advance l mem) l.curLba (word (advance l mem) l.curLba + 1)
      let left := word counted l.sectLeft - 1
      let next := ⟨regs, setWord counted l.sectLeft left, s.reads ++ [r.read]⟩
      if left ≠ 0 then .again next else .done next := by
  simp only [rsLoop, call, answer]
  rfl

theorem loop_step (succeeds : ∀ r mem, (bios.int13 r mem).2.2 = false) (clear : Clear args)
    (before : Before l args i s) (more : i < args.count.toNat) :
    ∃ s', s'.reads.length = i + 1 ∧ Sequence args s'.reads ∧
      (i + 1 < args.count.toNat ∧ rsLoop bios l s = .again s' ∧ Before l args (i + 1) s' ∨
        i + 1 = args.count.toNat ∧ rsLoop bios l s = .done s') := by
  have floppy := clear.floppy
  have below := clear.below
  obtain ⟨r, call, names, one, drive, buffer⟩ := names_chs l s.mem s.regs
    (by rw [before.lba]; omega)
  rw [before.lba] at names
  rw [before.drive] at drive
  rw [before.pointer] at buffer
  have apart : r.buffer + 512 ≤ l.bootDrive ∨ l.bootDrive + 10 ≤ r.buffer := by
    have first := l.first
    have last := l.last
    have outside := clear.apart
    omega
  obtain ⟨⟨regs, mem, carry⟩, answer⟩ : ∃ answer, bios.int13 r s.mem = answer := ⟨_, rfl⟩
  have success : carry = false := by
    rw [← succeeds r s.mem, answer]
  subst success
  have same (k : Nat) (inside : k < 10) : mem (l.bootDrive + k) = s.mem (l.bootDrive + k) := by
    rw [← transfer_frame s.mem apart inside, answer]
  have sequence : Sequence args (s.reads ++ [r.read]) :=
    sequence_snoc before.sequence (by rw [before.made]; exact ⟨names, one, drive, buffer⟩)
  have length : (s.reads ++ [r.read]).length = i + 1 := by simp [before.made]
  obtain ⟨lba, left, -⟩ := moved_on before same 0 0
  obtain ⟨-, left', newLba, newLeft, newOff, newSeg, newDrive⟩ :=
    moved_on before same (word s.mem l.curLba + 1) (word s.mem l.sectLeft - 1)
  have off : word mem l.bufOff = word s.mem l.bufOff :=
    word_congr (same 4 (by decide)) (same 5 (by decide))
  have seg : word mem l.bufSeg = word s.mem l.bufSeg :=
    word_congr (same 6 (by decide)) (same 7 (by decide))
  have count := before.left
  have down : (word s.mem l.sectLeft - 1).toNat = args.count.toNat - (i + 1) := by
    rw [BitVec.toNat_sub]
    have small := (word s.mem l.sectLeft).isLt
    change (2 ^ 16 - 1 + (word s.mem l.sectLeft).toNat) % 2 ^ 16 = _
    omega
  refine ⟨⟨regs, setWord (setWord (advance l mem) l.curLba (word s.mem l.curLba + 1)) l.sectLeft
    (word s.mem l.sectLeft - 1), s.reads ++ [r.read]⟩, length, sequence, ?_⟩
  by_cases last : i + 1 = args.count.toNat
  · right
    have zero : word s.mem l.sectLeft - 1 = 0 := BitVec.eq_of_toNat_eq (by rw [down, last]; simp)
    refine ⟨last, ?_⟩
    rw [rsLoop_eq call answer]
    simp only [lba, left', zero]
    rfl
  · left
    have nonzero : word s.mem l.sectLeft - 1 ≠ 0 := by
      intro zero
      rw [zero] at down
      change 0 = _ at down
      omega
    obtain ⟨aligned, pointer⟩ := advance_pointer l mem (by rw [off]; exact before.aligned)
      (by rw [off, seg, before.pointer]; omega)
    rw [off, seg, before.pointer] at pointer
    refine ⟨by omega, ?_, length, sequence, ?_, ?_, ?_, ?_, newDrive⟩
    · rw [rsLoop_eq call answer]
      simp only [lba, left', if_pos nonzero]
    · rw [newLba, BitVec.toNat_add, before.lba]
      change (args.lba.toNat + i + 1) % 2 ^ 16 = _
      omega
    · rw [newLeft, down]
      omega
    · rw [newOff]
      exact aligned
    · rw [newSeg, newOff, pointer]
      omega

-- Induction on the sectors that are left; `fuel` is at least that many.
theorem loops_run (succeeds : ∀ r mem, (bios.int13 r mem).2.2 = false) (clear : Clear args)
    {left fuel : Nat} (enough : left ≤ fuel) (before : Before l args i s)
    (rest : i + left = args.count.toNat) (more : i < args.count.toNat) :
    ∃ s', rsLoops bios l fuel s = some (.done s') ∧ s'.reads.length = args.count.toNat ∧
      Sequence args s'.reads := by
  induction left generalizing i s fuel with
  | zero => omega
  | succ left ih =>
    obtain ⟨fuel, rfl⟩ : ∃ less, fuel = less + 1 := ⟨fuel - 1, by omega⟩
    obtain ⟨s', length, sequence, ⟨more', step, before'⟩ | ⟨last, step⟩⟩ :=
      loop_step succeeds clear before more
    · obtain ⟨t, run, result⟩ := ih (Nat.le_of_succ_le_succ enough) before' (by omega) more'
      refine ⟨t, ?_, result⟩
      rw [rsLoops, step]
      exact run
    · refine ⟨s', ?_, length.trans last, sequence⟩
      rw [rsLoops, step]

/-- `read_sectors` asks for exactly the sectors it was given, in order, each into its place. -/
theorem read_sectors_loads (succeeds : ∀ r mem, (bios.int13 r mem).2.2 = false) (clear : Clear args)
    (regs : Regs) (mem : Bytes) {fuel : Nat} (enough : args.count.toNat ≤ fuel) :
    ∃ s', readSectors bios l args regs mem fuel = some (.done s') ∧
      s'.reads.length = args.count.toNat ∧ Sequence args s'.reads := by
  have positive : 0 < args.count.toNat := by
    have nonzero : args.count.toNat ≠ 0 := fun zero => clear.some (BitVec.eq_of_toNat_eq zero)
    omega
  exact loops_run succeeds clear enough (before_prologue clear regs mem) (Nat.zero_add _) positive

-- The code of the boot sector as it is assembled.
def bootCode : List Byte :=
  [ 0xFA, 0x31, 0xC0, 0x8E, 0xD8, 0x8E, 0xC0, 0x8E, 0xD0, 0xBC, 0x00, 0x7C, 0xFB, 0x88, 0x16, 0xCC,
    0x7C, 0xBE, 0xD6, 0x7C, 0xE8, 0xA4, 0x00, 0x8A, 0x16, 0xCC, 0x7C, 0x66, 0xBB, 0x01, 0x00, 0x00,
    0x00, 0xB8, 0x00, 0x00, 0x8E, 0xC0, 0xBF, 0x00, 0x7E, 0xB9, 0x02, 0x00, 0xE8, 0x24, 0x00, 0x8A,
    0x16, 0xCC, 0x7C, 0x66, 0xBB, 0x03, 0x00, 0x00, 0x00, 0xB8, 0x00, 0x10, 0x8E, 0xC0, 0xBF, 0x00,
    0x00, 0xB9, 0xC8, 0x00, 0xE8, 0x0C, 0x00, 0xBE, 0xE8, 0x7C, 0xE8, 0x6E, 0x00, 0x6A, 0x00, 0x68,
    0x00, 0x7E, 0xCB, 0x60, 0x89, 0x0E, 0xCE, 0x7C, 0x89, 0x3E, 0xD0, 0x7C, 0x8C, 0x06, 0xD2, 0x7C,
    0x89, 0x1E, 0xD4, 0x7C, 0x88, 0x16, 0xCD, 0x7C, 0xA1, 0xD4, 0x7C, 0x31, 0xD2, 0xB9, 0x12, 0x00,
    0xF7, 0xF1, 0x88, 0xD3, 0xFE, 0xC3, 0x31, 0xD2, 0xB9, 0x02, 0x00, 0xF7, 0xF1, 0x88, 0xC5, 0x88,
    0xD6, 0x88, 0xD9, 0x8A, 0x16, 0xCD, 0x7C, 0xA1, 0xD2, 0x7C, 0x8E, 0xC0, 0x8B, 0x1E, 0xD0, 0x7C,
    0xB8, 0x01, 0x02, 0xCD, 0x13, 0x72, 0x1B, 0x81, 0x06, 0xD0, 0x7C, 0x00, 0x02, 0x73, 0x06, 0x81,
    0x06, 0xD2, 0x7C, 0x00, 0x10, 0xFF, 0x06, 0xD4, 0x7C, 0xFF, 0x0E, 0xCE, 0x7C, 0x75, 0xB9, 0x61,
    0xF8, 0xC3, 0xBE, 0xF7, 0x7C, 0xE8, 0x03, 0x00, 0x61, 0xF9, 0xC3, 0x60, 0xAC, 0x08, 0xC0, 0x74,
    0x09, 0xB4, 0x0E, 0xBB, 0x07, 0x00, 0xCD, 0x10, 0xEB, 0xF2, 0x61, 0xC3 ]

def asciz (s : String) : List Byte := s.toList.map (fun c => BitVec.ofNat 8 c.toNat) ++ [0]

def bootSector : List Byte :=
  let data := bootCode ++ List.replicate 10 0 ++ asciz "NovaOS boot v0.1\n" ++ asciz "kernel loaded\n" ++
    asciz "disk error\n"
  data ++ List.replicate (510 - data.length) 0 ++ [0x55, 0xAA]

-- The variables stand right after the code.
def bootLayout : Layout := ⟨0x7CCC, by decide, by decide⟩

example : 0x7C00 + bootCode.length = bootLayout.bootDrive := by decide +kernel

def floppy : Bios where
  int13 r mem :=
    (r, fun a => if r.buffer ≤ a ∧ a < r.buffer + 512 then bootSector.getD (a - r.buffer) 0 else mem a, false)
  frame r mem a _ _ outside := if_neg (by omega)

theorem floppy_succeeds (r : Regs) (mem : Bytes) : (floppy.int13 r mem).2.2 = false := rfl

def booted : Bytes := fun a => if 0x7C00 ≤ a ∧ a < 0x7E00 then bootSector.getD (a - 0x7C00) 0 else 0

def noRegs : Regs := ⟨0, 0, 0, 0, 0⟩

-- The kernel, to 0x1000:0x0000 as `_start` asks for it: the reads cross tracks and a 64 KB
-- boundary.
theorem read_sectors_kernel :
    ∃ s', readSectors floppy bootLayout ⟨0, 3, 0x1000, 0, 200⟩ noRegs booted 200 = some (.done s') ∧
      s'.reads.length = 200 ∧ Sequence ⟨0, 3, 0x1000, 0, 200⟩ s'.reads :=
  read_sectors_loads floppy_succeeds
    ⟨⟨by decide, by decide, by decide, by decide⟩, .inr (by decide)⟩ noRegs booted (by decide)

theorem reads_loop {t : BootState} (step : rsLoop bios l s = .again t ∨ rsLoop bios l s = .done t) :
    t.reads.length = s.reads.length + 1 := by
  unfold rsLoop at step
  cases call : chs l s.mem s.regs with
  | none => simp [call] at step
  | some r =>
    simp only [call] at step
    split at step
    next => simp at step
    next =>
      split at step
      next =>
        obtain step | step := step
        · cases step
          exact List.length_append
        · cases step
      next =>
        obtain step | step := step
        · cases step
        · cases step
          exact List.length_append

theorem reads_grow {fuel : Nat} {s' : BootState} (run : rsLoops bios l fuel s = some (.done s')) :
    s.reads.length < s'.reads.length := by
  induction fuel generalizing s with
  | zero => cases run
  | succ fuel ih =>
    rw [rsLoops] at run
    cases step : rsLoop bios l s with
    | error | divideError =>
      rw [step] at run
      cases run
    | again t =>
      rw [step] at run
      have more := ih run
      have one := reads_loop (.inl step)
      omega
    | done t =>
      rw [step] at run
      cases run
      have one := reads_loop (.inr step)
      omega

theorem loop_again (bios : Bios) (s : BootState) {r regs : Regs} {mem : Bytes}
    (call : chs l s.mem s.regs = some r)
    (answer : bios.int13 r s.mem = (regs, mem, false)) (low : mem l.sectLeft = 0)
    (high : mem (l.sectLeft + 1) = 0) : ∃ t, rsLoop bios l s = .again t := by
  have off : l.bufOff = l.sectLeft + 2 := rfl
  have lba : l.curLba = l.sectLeft + 6 := rfl
  have cleared (v : Half) : word (setWord (advance l mem) l.curLba v) l.sectLeft = 0 := by
    rw [word_setWord_other _ _ (by omega), word, advance_other l mem (by omega),
      advance_other l mem (by omega), low, high]
    rfl
  have nonzero : (0 : Half) - 1 ≠ 0 := by decide
  rw [rsLoop_eq call answer]
  simp only [cleared, if_pos nonzero]
  exact ⟨_, rfl⟩

/-- The boot sector loaded over itself: the first transfer clears `sect_left`, and the loop goes on. -/
theorem read_sectors_overlaps :
    ¬ ∀ (bios : Bios) (l : Layout) (args : Args) (regs : Regs) (mem : Bytes),
      (∀ r mem, (bios.int13 r mem).2.2 = false) → Asked args →
      ∃ fuel s', readSectors bios l args regs mem fuel = some (.done s') ∧
        s'.reads.length = args.count.toNat ∧ Sequence args s'.reads := by
  intro all
  let args : Args := ⟨0, 0, 0x07C0, 0, 1⟩
  obtain ⟨fuel, s', run, length, -⟩ := all floppy bootLayout args noRegs booted floppy_succeeds
    ⟨by decide, by decide, by decide, by decide⟩
  obtain ⟨-, off, seg, lba, -⟩ := word_prologue bootLayout args booted
  obtain ⟨r, call, -, -, -, buffer⟩ := names_chs bootLayout (prologue bootLayout args booted) noRegs
    (by rw [lba]; decide)
  rw [seg, off] at buffer
  have start : r.buffer = 0x7C00 := by simpa [args] using buffer
  have inside : r.buffer ≤ bootLayout.sectLeft ∧ bootLayout.sectLeft < r.buffer + 512 := by
    rw [start]
    exact show 0x7C00 ≤ 0x7CCE ∧ 0x7CCE < 0x7E00 by decide
  have inside' : r.buffer ≤ bootLayout.sectLeft + 1 ∧ bootLayout.sectLeft + 1 < r.buffer + 512 := by
    rw [start]
    exact show 0x7C00 ≤ 0x7CCF ∧ 0x7CCF < 0x7E00 by decide
  have zero : bootSector.getD (bootLayout.sectLeft - 0x7C00) 0 = 0 ∧
      bootSector.getD (bootLayout.sectLeft + 1 - 0x7C00) 0 = 0 := by decide +kernel
  obtain ⟨t, again⟩ := loop_again floppy ⟨noRegs, prologue bootLayout args booted, []⟩ call rfl
    ((if_pos inside).trans (by rw [start]; exact zero.1))
    ((if_pos inside').trans (by rw [start]; exact zero.2))
  cases fuel with
  | zero => cases run
  | succ fuel =>
    rw [readSectors, rsLoops, again] at run
    have one := reads_loop (.inl again)
    have more := reads_grow run
    change s'.reads.length = 1 at length
    change t.reads.length = 0 + 1 at one
    omega

end BootSector

end NovaKernel

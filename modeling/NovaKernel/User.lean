import NovaKernel.AddrSpacesSystem

set_option autoImplicit false

namespace NovaKernel

open Machine

def userTextBase : Nat := 0x200000
def userStackTop : Nat := 0x2F0000

/-- An access the loader must not make: outside the image, outside the user window or to a
page that is not mapped, or a page-table access that faults. -/
inductive Stray
  | image (offset : Nat)
  | address (vaddr : Nat)
  | tables
  deriving DecidableEq

def u16At (img : Nat → Byte) (off : Nat) : Nat :=
  (img off).toNat + 2 ^ 8 * (img (off + 1)).toNat

def u32At (img : Nat → Byte) (off : Nat) : Nat :=
  u16At img off + 2 ^ 16 * u16At img (off + 2)

structure Elf32Hdr where
  magic : List Nat
  type : Nat
  machine : Nat
  entry : Nat
  phoff : Nat
  phnum : Nat

structure Elf32Phdr where
  type : Nat
  offset : Nat
  vaddr : Nat
  filesz : Nat
  memsz : Nat
  deriving DecidableEq

def sizeofHdr : Nat := 52
def sizeofPhdr : Nat := 32

def elf32Hdr (img : Nat → Byte) : Elf32Hdr where
  magic := (List.range 4).map fun i => (img i).toNat
  type := u16At img 16
  machine := u16At img 18
  entry := u32At img 24
  phoff := u32At img 28
  phnum := u16At img 44

def elf32Phdr (img : Nat → Byte) (off : Nat) : Elf32Phdr where
  type := u32At img off
  offset := u32At img (off + 4)
  vaddr := u32At img (off + 8)
  filesz := u32At img (off + 16)
  memsz := u32At img (off + 20)

section Loader

variable (img : Nat → Byte) (size : Nat)

def imageByte (off : Nat) : Except Stray Byte :=
  if off < size then .ok (img off) else .error (.image off)

-- `ph[i]` is one object of the image.
def imagePhdr (off : Nat) : Except Stray Elf32Phdr :=
  if off + sizeofPhdr ≤ size then .ok (elf32Phdr img off) else .error (.image off)

def userStore (s : Machine) (vaddr : Nat) (value : Byte) : Except Stray Machine :=
  if userTextBase ≤ vaddr ∧ vaddr < userStackTop then
    match s.walk (vaddr / 0x1000) with
    | some t =>
      if t.writable then .ok (s.putByte t.frame (vaddr % 0x1000) value) else .error (.address vaddr)
    | none => .error (.address vaddr)
  else .error (.address vaddr)

def memcpyImage (dst src : Nat) : Nat → Machine → Except Stray Machine
  | 0, s => .ok s
  | n + 1, s => do
    let value ← imageByte img size src
    let s ← userStore s dst value
    memcpyImage (dst + 1) (src + 1) n s

def memsetUser (dst : Nat) : Nat → Machine → Except Stray Machine
  | 0, s => .ok s
  | n + 1, s => do
    let s ← userStore s dst 0
    memsetUser (dst + 1) n s

def fillSegment (ph : Elf32Phdr) (s : Machine) : Except Stray Machine :=
  if ph.filesz < ph.memsz then memsetUser (ph.vaddr + ph.filesz) (ph.memsz - ph.filesz) s
  else .ok s

-- The three range checks of a segment. Their sums are u32 sums.
def rejected (ph : Elf32Phdr) : Bool :=
  ph.vaddr < userTextBase || userStackTop < (ph.vaddr + ph.memsz) % 2 ^ 32 ||
    size < (ph.offset + ph.filesz) % 2 ^ 32

-- The `n` program headers from `ph[i]` on; the result says whether all were accepted.
def loadSegments (acc : Access) (cr3 phoff : Nat) :
    Nat → Nat → Machine → Except Stray (Bool × Machine)
  | 0, _, s => .ok (true, s)
  | n + 1, i, s => do
    let ph ← imagePhdr img size (phoff + i * sizeofPhdr)
    if ph.type ≠ 1 then loadSegments acc cr3 phoff n (i + 1) s
    else if rejected size ph then return (false, s)
    else
      match pagingMapUserRegion acc s cr3 ph.vaddr ph.memsz with
      | none => .error .tables
      | some (false, s) => return (false, s)
      | some (true, s) =>
        let s ← memcpyImage img size ph.vaddr ph.offset ph.filesz s
        let s ← fillSegment ph s
        loadSegments acc cr3 phoff n (i + 1) s

-- The header checks before the loop; `e_phoff + e_phnum * 32` is a u32 sum.
def accepted : Bool :=
  let h := elf32Hdr img
  sizeofHdr ≤ size && h.magic == [0x7F, 0x45, 0x4C, 0x46] && h.machine == 3 && h.type == 2 &&
    (h.phoff + h.phnum * sizeofPhdr) % 2 ^ 32 ≤ size

def userLoadElf (acc : Access) (s : Machine) (cr3 : Nat) : Except Stray (Nat × Machine) :=
  if accepted img size then do
    let (loaded, s) ← loadSegments img size acc cr3 (elf32Hdr img).phoff (elf32Hdr img).phnum 0 s
    return (if loaded then (elf32Hdr img).entry else 0, s)
  else .ok (0, s)

end Loader

theorem u16At_lt (img : Nat → Byte) (off : Nat) : u16At img off < 2 ^ 16 := by
  have low := (img off).isLt
  have high := (img (off + 1)).isLt
  rw [u16At]
  omega

theorem u32At_lt (img : Nat → Byte) (off : Nat) : u32At img off < 2 ^ 32 := by
  have low := u16At_lt img off
  have high := u16At_lt img (off + 2)
  rw [u32At]
  omega

end NovaKernel

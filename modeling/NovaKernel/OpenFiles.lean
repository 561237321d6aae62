import NovaKernel.Fat

set_option autoImplicit false

namespace NovaKernel

/-! `fat_read` with the bytes it has stored in the caller's buffer, also when it fails half way. -/

section Buffers

variable (ata : Ata) (vol : Volume)

def readClusterBuf (fsize max : Nat) : Nat → Nat → List Byte → Io → (Bool × List Byte) × Io
  | 0, _, out, s => ((true, out), s)
  | n + 1, lba, out, s =>
    if out.length < fsize ∧ out.length < max then
      match ata.readSector lba s with
      | (none, s) => ((false, out), s)
      | (some buf, s) =>
        let count := min (min (fsize - out.length) 512) (max - out.length)
        readClusterBuf fsize max n (lba + 1) (out ++ (List.range count).map buf) s
    else ((true, out), s)

def readChainBuf (fsize max : Nat) : Nat → Nat → List Byte → Io → (Bool × List Byte) × Io
  | 0, _, out, s => ((true, out), s)
  | n + 1, cluster, out, s =>
    if 2 ≤ cluster ∧ cluster < 0xFF0 ∧ out.length < fsize ∧ out.length < max then
      match readClusterBuf ata fsize max vol.spc (vol.dataLba + (cluster - 2) * vol.spc) out s with
      | ((false, out), s) => ((false, out), s)
      | ((true, out), s) =>
        let (next, s) := fatNextCluster ata vol cluster s
        readChainBuf fsize max n next out s
    else ((true, out), s)

def fatReadBuf (name : List Byte) (max : Nat) (s : Io) : (Option Nat × List Byte) × Io :=
  if !vol.mounted then ((none, []), s)
  else match dirLocate ata vol (normName name) vol.rootSectors 0 s with
    | (none, s) => ((none, []), s)
    | (some off, s) =>
      let e := entryAt s.secbuf off
      let fsize := u32Of e 28
      match readChainBuf ata vol fsize max 65536 (u16Of e 26) [] s with
      | ((false, out), s) => ((none, out), s)
      | ((true, out), s) => ((some (if out.length < fsize then out.length else fsize), out), s)

theorem readCluster_eq (fsize max n lba : Nat) (out : List Byte) (s : Io) :
    readCluster ata fsize max n lba out s =
      (if (readClusterBuf ata fsize max n lba out s).1.1 = true then
        some (readClusterBuf ata fsize max n lba out s).1.2 else none,
        (readClusterBuf ata fsize max n lba out s).2) := by
  induction n generalizing lba out s with
  | zero => rfl
  | succ n ih =>
    by_cases more : out.length < fsize ∧ out.length < max
    next =>
      rw [readCluster, readClusterBuf, if_pos more, if_pos more]
      rcases ata.readSector lba s with ⟨_ | buf, s'⟩
      · rfl
      · exact ih (lba + 1) _ s'
    next =>
      rw [readCluster, readClusterBuf, if_neg more, if_neg more]
      rfl

theorem readChain_eq (fsize max n cluster : Nat) (out : List Byte) (s : Io) :
    readChain ata vol fsize max n cluster out s =
      (if (readChainBuf ata vol fsize max n cluster out s).1.1 = true then
        some (readChainBuf ata vol fsize max n cluster out s).1.2 else none,
        (readChainBuf ata vol fsize max n cluster out s).2) := by
  induction n generalizing cluster out s with
  | zero => rfl
  | succ n ih =>
    by_cases more : 2 ≤ cluster ∧ cluster < 0xFF0 ∧ out.length < fsize ∧ out.length < max
    next =>
      rw [readChain, readChainBuf, if_pos more, if_pos more, readCluster_eq]
      rcases readClusterBuf ata fsize max vol.spc (vol.dataLba + (cluster - 2) * vol.spc) out s
        with ⟨⟨_ | _, out'⟩, s'⟩
      · rfl
      · exact ih _ out' _
    next =>
      rw [readChain, readChainBuf, if_neg more, if_neg more]
      rfl

theorem fatRead_eq (name : List Byte) (max : Nat) (s : Io) :
    fatRead ata vol name max s =
      ((fatReadBuf ata vol name max s).1.1.map fun size => (size, (fatReadBuf ata vol name max s).1.2),
        (fatReadBuf ata vol name max s).2) := by
  unfold fatRead fatReadBuf
  by_cases mounted : vol.mounted = true
  next =>
    simp only [mounted, Bool.not_true, Bool.false_eq_true, if_false]
    rcases dirLocate ata vol (normName name) vol.rootSectors 0 s with ⟨_ | off, s'⟩
    · rfl
    · simp only [readChain_eq]
      rcases readChainBuf ata vol (u32Of (entryAt s'.secbuf off) 28) max 65536
        (u16Of (entryAt s'.secbuf off) 26) [] s' with ⟨⟨_ | _, out⟩, s''⟩ <;> rfl
  next => simp [mounted]

theorem readClusterBuf_length (fsize max n lba : Nat) {out : List Byte} (s : Io)
    (short : out.length ≤ min fsize max) :
    (readClusterBuf ata fsize max n lba out s).1.2.length ≤ min fsize max := by
  induction n generalizing lba out s with
  | zero => exact short
  | succ n ih =>
    rw [readClusterBuf]
    split
    next more =>
      rcases ata.readSector lba s with ⟨_ | buf, s'⟩
      · exact short
      · refine ih (lba + 1) s' ?_
        simp only [List.length_append, List.length_map, List.length_range]
        omega
    next => exact short

theorem readChainBuf_length (fsize max n cluster : Nat) {out : List Byte} (s : Io)
    (short : out.length ≤ min fsize max) :
    (readChainBuf ata vol fsize max n cluster out s).1.2.length ≤ min fsize max := by
  induction n generalizing cluster out s with
  | zero => exact short
  | succ n ih =>
    rw [readChainBuf]
    split
    next more =>
      have within := readClusterBuf_length ata fsize max vol.spc
        (vol.dataLba + (cluster - 2) * vol.spc) s short
      generalize readClusterBuf ata fsize max vol.spc (vol.dataLba + (cluster - 2) * vol.spc) out s = r
        at within ⊢
      obtain ⟨⟨_ | _, out'⟩, s'⟩ := r
      · exact within
      · exact ih _ _ within
    next => exact short

theorem fatReadBuf_length (name : List Byte) (max : Nat) (s : Io) :
    (fatReadBuf ata vol name max s).1.2.length ≤ max ∧
      ∀ size, (fatReadBuf ata vol name max s).1.1 = some size →
        size = (fatReadBuf ata vol name max s).1.2.length := by
  unfold fatReadBuf
  split
  next => exact ⟨Nat.zero_le _, by simp⟩
  next =>
    rcases dirLocate ata vol (normName name) vol.rootSectors 0 s with ⟨_ | off, s'⟩
    · exact ⟨Nat.zero_le _, by simp⟩
    · dsimp only
      have empty : ([] : List Byte).length ≤
          min (u32Of (entryAt s'.secbuf off) 28) max := Nat.zero_le _
      have within := readChainBuf_length ata vol (u32Of (entryAt s'.secbuf off) 28) max 65536
        (u16Of (entryAt s'.secbuf off) 26) s' empty
      generalize readChainBuf ata vol (u32Of (entryAt s'.secbuf off) 28) max 65536
        (u16Of (entryAt s'.secbuf off) 26) [] s' = r at within ⊢
      obtain ⟨⟨_ | _, out⟩, s''⟩ := r
      · dsimp only at within ⊢
        exact ⟨by omega, by simp⟩
      · dsimp only at within ⊢
        refine ⟨by omega, fun size same => ?_⟩
        rw [← Option.some.inj same]
        split <;> omega

end Buffers

def userMemStart : Word := 0x200000
def userMemEnd : Word := 0x300000
def ofileCap : Word := 2048
def maxOpenFiles : Nat := 8
def fdFirstFile : Nat := 3
def nameSize : Nat := 32

def refused : Word := 0xFFFFFFFF

def oWronly : Word := 1
def oCreat : Word := 2
def oTrunc : Word := 4

/-- An entry of `ofiles`; `data` is what lies from its `data` array on, of 2048 bytes. -/
structure OpenFile where
  used : Bool
  writable : Bool
  dirty : Bool
  size : Word
  pos : Word
  name : List Byte
  data : Nat → Byte

structure Files where
  ofiles : Nat → OpenFile
  io : Io

abbrev UserMem := Word → Byte

def userRangeOk (addr len : Word) : Bool :=
  if len = 0 then true
  else if addr < userMemStart then false
  else if userMemEnd < addr then false
  else if userMemEnd - addr < len then false
  else true

def Files.set (s : Files) (fd : Nat) (f : OpenFile) : Files :=
  { s with ofiles := Function.update s.ofiles fd f }

/-- The loop of `sys_write_file`, one byte of the caller's buffer after the other. -/
def storeBytes (data : Nat → Byte) (pos : Word) (mem : UserMem) (buf : Word)
    (n : Nat) : Nat → Byte :=
  (List.range n).foldl (fun data i =>
    Function.update data (pos + BitVec.ofNat 32 i).toNat (mem (buf + BitVec.ofNat 32 i))) data

def OpenFile.write (f : OpenFile) (mem : UserMem) (buf len : Word) : Word × OpenFile :=
  let room := ofileCap - f.pos
  let len := if room < len then room else len
  let f := { f with data := storeBytes f.data f.pos mem buf len.toNat, pos := f.pos + len }
  (len, { f with size := if f.size < f.pos then f.pos else f.size, dirty := true })

def OpenFile.read (f : OpenFile) (len : Word) : List Byte × OpenFile :=
  let avail := f.size - f.pos
  let len := if avail < len then avail else len
  ((List.range len.toNat).map fun i => f.data (f.pos + BitVec.ofNat 32 i).toNat,
    { f with pos := f.pos + len })

def OpenFile.lseek (f : OpenFile) (off whence : Word) : OpenFile :=
  let base := if whence = 0 then 0 else if whence = 1 then f.pos else f.size
  let np := base + off
  let np := if np.slt 0 then 0 else np
  let np := if ofileCap < np then ofileCap else np
  { f with pos := np }

section Calls

def sysWriteFile (mem : UserMem) (fd buf len : Word) (s : Files) : Word × Files :=
  if maxOpenFiles ≤ fd.toNat then (refused, s)
  else
    let f := s.ofiles fd.toNat
    if !f.used || !f.writable then (refused, s)
    else if !userRangeOk buf len then (refused, s)
    else
      let (n, f) := f.write mem buf len
      (n, s.set fd.toNat f)

def sysRead (fd buf len : Word) (s : Files) : (Word × List Byte) × Files :=
  if maxOpenFiles ≤ fd.toNat then ((refused, []), s)
  else
    let f := s.ofiles fd.toNat
    if !f.used then ((refused, []), s)
    else if !userRangeOk buf len then ((refused, []), s)
    else
      let (bytes, f) := f.read len
      ((BitVec.ofNat 32 bytes.length, bytes), s.set fd.toNat f)

def sysLseek (fd off whence : Word) (s : Files) : Word × Files :=
  if maxOpenFiles ≤ fd.toNat then (refused, s)
  else
    let f := s.ofiles fd.toNat
    if !f.used then (refused, s)
    else (((f.lseek off whence).pos), s.set fd.toNat (f.lseek off whence))

def allocFd (s : Files) : Option Nat :=
  ((List.range maxOpenFiles).drop fdFirstFile).find? fun i => !(s.ofiles i).used

/-- A name of `len` bytes copied from the caller, as a C string. -/
def copyName (mem : UserMem) (name len : Word) : List Byte :=
  ((List.range len.toNat).map fun i => mem (name + BitVec.ofNat 32 i)).takeWhile (· ≠ 0)

variable (ata : Ata) (vol : Volume)

def sysSync (fd : Nat) (s : Files) : Word × Files :=
  if maxOpenFiles ≤ fd then (refused, s)
  else
    let f := s.ofiles fd
    if !f.used || !f.dirty then (0, s)
    else
      match fatWrite ata vol f.name f.data f.size.toNat s.io with
      | (false, io) => (refused, { s with io })
      | (true, io) => (1, { s with io }.set fd { f with dirty := false })

def sysOpen (mem : UserMem) (name len flags : Word) (s : Files) : Word × Files :=
  if !userRangeOk name len then (refused, s)
  else if len = 0 ∨ nameSize - 1 < len.toNat then (refused, s)
  else
    let local' := copyName mem name len
    match allocFd s with
    | none => (refused, s)
    | some fd =>
      let f := s.ofiles fd
      let ((size, stored), io) := fatReadBuf ata vol local' ofileCap.toNat s.io
      -- the bytes go to the slot even when the call is refused
      let f := { f with data := fun i => stored.getD i (f.data i) }
      let s := { s with io }.set fd f
      if size = none ∧ flags &&& oCreat = 0 then (refused, s)
      else
        let f := { f with
          used := true
          writable := decide (flags &&& (oWronly ||| oCreat ||| oTrunc) ≠ 0)
          dirty := decide (flags &&& oTrunc ≠ 0)
          size := if flags &&& oTrunc ≠ 0 then 0 else BitVec.ofNat 32 (size.getD 0)
          pos := 0
          name := local' }
        (BitVec.ofNat 32 fd, s.set fd f)

def sysClose (fd : Word) (s : Files) : Word × Files :=
  if maxOpenFiles ≤ fd.toNat then (refused, s)
  else if !(s.ofiles fd.toNat).used then (refused, s)
  else
    let (rc, s) := sysSync ata vol fd.toNat s
    (if rc = refused then refused else 0,
      s.set fd.toNat { s.ofiles fd.toNat with used := false, writable := false, dirty := false })

end Calls

end NovaKernel

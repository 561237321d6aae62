import NovaKernel.OpenFileSpec
import Mathlib.Data.List.GetD

set_option autoImplicit false

namespace NovaKernel

/-- A file of at most 2048 bytes with a position: what a descriptor is for. -/
structure ByteFile where
  writable : Bool
  bytes : List Byte
  pos : Nat
  short : bytes.length ≤ 2048
  within : pos ≤ 2048

def overwrite (bytes : List Byte) (pos : Nat) (new : List Byte) : List Byte :=
  (List.range (max bytes.length (pos + new.length))).map fun i =>
    if pos ≤ i ∧ i < pos + new.length then new.getD (i - pos) 0 else bytes.getD i 0

theorem overwrite_length (bytes : List Byte) (pos : Nat) (new : List Byte) :
    (overwrite bytes pos new).length = max bytes.length (pos + new.length) := by
  rw [overwrite, List.length_map, List.length_range]

theorem overwrite_getD (bytes : List Byte) (pos : Nat) (new : List Byte) (i : Nat) :
    (overwrite bytes pos new).getD i 0 =
      if pos ≤ i ∧ i < pos + new.length then new.getD (i - pos) 0 else bytes.getD i 0 := by
  by_cases inside : i < max bytes.length (pos + new.length)
  next => simp [overwrite, List.getD_eq_getElem?_getD, inside]
  next =>
    rw [if_neg (by omega), List.getD_eq_default _ _ (by rw [overwrite_length]; omega),
      List.getD_eq_default _ _ (by omega)]

namespace ByteFile

/-- Bytes beyond the cap are not stored, and storing none changes nothing. -/
def write (r : ByteFile) (new : List Byte) : Nat × ByteFile :=
  let stored := new.take (2048 - r.pos)
  if stored = [] then (0, r)
  else
    (stored.length, { r with
      bytes := overwrite r.bytes r.pos stored
      pos := r.pos + stored.length
      short := by
        have short := r.short
        have within := r.within
        rw [overwrite_length, List.length_take]
        omega
      within := by
        have within := r.within
        rw [List.length_take]
        omega })

def read (r : ByteFile) (len : Nat) : List Byte × ByteFile :=
  let got := (r.bytes.drop r.pos).take len
  (got, { r with
    pos := r.pos + got.length
    within := by
      have short := r.short
      have within := r.within
      simp only [got, List.length_take, List.length_drop]
      omega })

def seek (r : ByteFile) (target : Int) : ByteFile :=
  { r with pos := (max 0 (min 2048 target)).toNat, within := by omega }

end ByteFile

structure UserBuffer where
  addr : Word
  len : Word
  valid : userRangeOk addr len = true

inductive Whence
  | set | cur | fileEnd
  deriving DecidableEq

def Whence.word : Whence → Word
  | .set => 0
  | .cur => 1
  | .fileEnd => 2

/-- The calls on one descriptor; a write comes with the caller's memory. -/
inductive DescriptorCall
  | write (buf : UserBuffer) (mem : UserMem)
  | read (buf : UserBuffer)
  | lseek (off : Word) (whence : Whence)

def UserBuffer.bytes (buf : UserBuffer) (mem : UserMem) : List Byte :=
  (List.range buf.len.toNat).map fun i => mem (buf.addr + BitVec.ofNat 32 i)

def ByteFile.base (r : ByteFile) : Whence → Nat
  | .set => 0
  | .cur => r.pos
  | .fileEnd => r.bytes.length

abbrev CallResult := Word × List Byte

def DescriptorCall.onTable (fd : Word) (s : Files) : DescriptorCall → CallResult × Files
  | .write buf mem =>
    let (n, s) := sysWriteFile mem fd buf.addr buf.len s
    ((n, []), s)
  | .read buf => sysRead fd buf.addr buf.len s
  | .lseek off whence =>
    let (pos, s) := sysLseek fd off whence.word s
    ((pos, []), s)

def DescriptorCall.onFile (r : ByteFile) : DescriptorCall → CallResult × ByteFile
  | .write buf mem =>
    if r.writable then
      let (n, r) := r.write (buf.bytes mem)
      ((BitVec.ofNat 32 n, []), r)
    else ((refused, []), r)
  | .read buf =>
    let (bytes, r) := r.read buf.len.toNat
    ((BitVec.ofNat 32 bytes.length, bytes), r)
  | .lseek off whence =>
    let r := r.seek (r.base whence + off.toInt)
    ((BitVec.ofNat 32 r.pos, []), r)

structure OpenFile.Holds (f : OpenFile) (r : ByteFile) : Prop where
  used : f.used = true
  writable : f.writable = r.writable
  size : f.size.toNat = r.bytes.length
  pos : f.pos.toNat = r.pos
  bytes : ∀ i < r.bytes.length, f.data i = r.bytes.getD i 0

def OpenFile.base (f : OpenFile) : Whence → Nat
  | .set => 0
  | .cur => f.pos.toNat
  | .fileEnd => f.size.toNat

/-- When a call on the slot does what it should. -/
def DescriptorCall.Regular (f : OpenFile) : DescriptorCall → Prop
  -- nothing is stored, or the gap that a store closes is already zero
  | .write buf _ => f.writable = false ∨ f.pos ≤ f.size ∨
      buf.len ≠ 0 ∧ f.pos < ofileCap ∧ ∀ i, f.size.toNat ≤ i → i < f.pos.toNat → f.data i = 0
  | .read buf => f.pos ≤ f.size ∨ buf.len = 0
  | .lseek off whence => f.base whence + off.toInt < 2 ^ 31

theorem OpenFile.lseek_spec {f : OpenFile} (small : f.size.toNat ≤ 2048)
    (within : f.pos.toNat ≤ 2048) (off : Word) (whence : Whence) :
    (f.lseek off whence.word).pos.toNat =
      if f.base whence + off.toInt < 2 ^ 31 then (max 0 (min 2048 (f.base whence + off.toInt))).toNat
      else 0 := by
  obtain ⟨base, same, bound, sought⟩ : ∃ base : Word, f.base whence = base.toNat ∧
    base.toNat ≤ 2048 ∧
      (f.lseek off whence.word).pos =
        (let np := base + off
         let np := if np.slt 0 then 0 else np
         if ofileCap < np then ofileCap else np) := by
    cases whence with
    | set => exact ⟨0, rfl, by decide, rfl⟩
    | cur => exact ⟨f.pos, rfl, within, rfl⟩
    | fileEnd => exact ⟨f.size, rfl, small, rfl⟩
  have offset := off.isLt
  have signed := BitVec.toInt_eq_toNat_cond off
  have sum : (base + off).toNat = (base.toNat + off.toNat) % 2 ^ 32 := BitVec.toNat_add _ _
  have negative : (base + off).slt 0 = decide (2 ^ 31 ≤ (base + off).toNat) := by
    have top := (base + off).isLt
    rw [BitVec.slt_eq_decide, BitVec.toInt_eq_toNat_cond, show (0 : Word).toInt = 0 by decide]
    refine decide_eq_decide.mpr ?_
    split <;> omega
  rw [same, sought]
  dsimp only
  rw [negative]
  by_cases low : 2 ^ 31 ≤ (base + off).toNat
  next =>
    -- the sum is negative, or it overflowed
    have zero : ¬ ofileCap < (0 : Word) := by decide
    simp only [low, decide_true, if_true, zero, if_false]
    split at signed <;> split <;> simp <;> omega
  next =>
    simp only [low, decide_false, Bool.false_eq_true, if_false]
    have capped : (if ofileCap < base + off then ofileCap else base + off).toNat =
        min (base + off).toNat 2048 := clip_toNat ofileCap (base + off)
    rw [capped]
    split at signed <;> split <;> omega

theorem UserBuffer.stored_length (buf : UserBuffer) (mem : UserMem) (room : Nat) :
    ((buf.bytes mem).take room).length = min buf.len.toNat room := by
  rw [List.length_take, UserBuffer.bytes, List.length_map, List.length_range, Nat.min_comm]

theorem UserBuffer.stored_getD (buf : UserBuffer) (mem : UserMem) {room i : Nat}
    (inside : i < min buf.len.toNat room) :
    ((buf.bytes mem).take room).getD i 0 = mem (buf.addr + BitVec.ofNat 32 i) := by
  rw [List.getD_eq_getElem?_getD, List.getElem?_take, if_pos (by omega), UserBuffer.bytes,
    List.getElem?_map, List.getElem?_range (by omega)]
  rfl

section Steps

variable {f : OpenFile} {r : ByteFile} (holds : f.Holds r)
include holds

theorem OpenFile.Holds.base (whence : Whence) : f.base whence = r.base whence := by
  cases whence with
  | set => rfl
  | cur => exact holds.pos
  | fileEnd => exact holds.size

theorem OpenFile.Holds.write (buf : UserBuffer) (mem : UserMem) (writable : f.writable = true) :
    ((f.write mem buf.addr buf.len).1 = BitVec.ofNat 32 (r.write (buf.bytes mem)).1 ∧
      (f.write mem buf.addr buf.len).2.Holds (r.write (buf.bytes mem)).2) ↔
      (DescriptorCall.write buf mem).Regular f := by
  have within := r.within
  have short := r.short
  have pos := holds.pos
  have size := holds.size
  obtain ⟨count, moved, grown, data, used, flag⟩ :=
    OpenFile.write_spec (f := f) (by omega) mem buf.addr buf.len
  have length := buf.stored_length mem (2048 - r.pos)
  have order : f.pos ≤ f.size ↔ r.pos ≤ r.bytes.length := by rw [BitVec.le_def]; omega
  have room : f.pos < ofileCap ↔ r.pos < 2048 := by
    rw [BitVec.lt_def, show ofileCap.toNat = 2048 by rfl]
    omega
  have some' : buf.len ≠ 0 ↔ 0 < buf.len.toNat := by
    rw [Ne, ← BitVec.toNat_inj, show (0 : Word).toNat = 0 by rfl]
    omega
  simp only [DescriptorCall.Regular, writable, Bool.true_eq_false, false_or, order, room, some']
  rw [pos] at count moved grown data
  by_cases none' : (buf.bytes mem).take (2048 - r.pos) = []
  next =>
    -- nothing is stored, yet the size is moved up to the position
    rw [none', List.length_nil] at length
    rw [← length] at count moved grown data
    simp only [ByteFile.write, none', if_true]
    rw [count]
    constructor
    next =>
      rintro ⟨-, held⟩
      have size' := held.size
      omega
    next =>
      intro regular
      refine ⟨rfl, used.trans holds.used, flag.trans holds.writable, by omega, by omega,
        fun i below => ?_⟩
      rw [data]
      exact holds.bytes i below
  next =>
    have positive : 0 < min buf.len.toNat (2048 - r.pos) := by
      rw [← length]
      exact List.length_pos_iff.mpr none'
    simp only [ByteFile.write, none', if_false]
    rw [count, ← length]
    have stored (i : Nat) : (f.write mem buf.addr buf.len).2.data i =
        if r.pos ≤ i ∧ i < r.pos + min buf.len.toNat (2048 - r.pos) then
          mem (buf.addr + BitVec.ofNat 32 (i - r.pos)) else f.data i := by
      rw [data, storeBytes_eq _ _ _ _ (by omega), pos]
    have file (i : Nat) :
        (overwrite r.bytes r.pos ((buf.bytes mem).take (2048 - r.pos))).getD i 0 =
          if r.pos ≤ i ∧ i < r.pos + min buf.len.toNat (2048 - r.pos) then
            mem (buf.addr + BitVec.ofNat 32 (i - r.pos)) else r.bytes.getD i 0 := by
      rw [overwrite_getD, length]
      split
      next inside => rw [buf.stored_getD mem (by omega)]
      next => rfl
    rw [← length] at moved grown
    constructor
    next =>
      rintro ⟨-, held⟩
      by_cases gap : r.pos ≤ r.bytes.length
      next => exact .inl gap
      next =>
        refine .inr ⟨by omega, by omega, fun i above below => ?_⟩
        have byte := held.bytes i (by dsimp only; rw [overwrite_length]; omega)
        dsimp only at byte
        rw [stored, file, if_neg (by omega), if_neg (by omega)] at byte
        rw [byte, List.getD_eq_default _ _ (by omega)]
    next =>
      intro regular
      refine ⟨rfl, used.trans holds.used, flag.trans holds.writable, ?_, by dsimp only; omega,
        fun i below => ?_⟩
      next =>
        dsimp only
        rw [overwrite_length]
        omega
      next =>
        dsimp only at below ⊢
        rw [overwrite_length, length] at below
        rw [stored, file]
        split
        next => rfl
        next outside =>
          by_cases old : i < r.bytes.length
          next => exact holds.bytes i old
          next =>
            rcases regular with contiguous | ⟨-, -, zero⟩
            · omega
            · rw [zero i (by omega) (by omega), List.getD_eq_default _ _ (by omega)]

theorem OpenFile.Holds.read (len : Word) :
    ((f.read len).1 = (r.read len.toNat).1 ∧ (f.read len).2.Holds (r.read len.toNat).2) ↔
      (f.pos ≤ f.size ∨ len = 0) := by
  have within := r.within
  have short := r.short
  have pos := holds.pos
  have size := holds.size
  have order : f.pos ≤ f.size ↔ r.pos ≤ r.bytes.length := by rw [BitVec.le_def]; omega
  by_cases inside : f.pos ≤ f.size
  next =>
    refine ⟨fun _ => .inl inside, fun _ => ?_⟩
    obtain ⟨got, moved, rest⟩ := OpenFile.read_spec inside (by omega) len
    have count : min len.toNat (f.size.toNat - f.pos.toNat) = (r.read len.toNat).1.length := by
      simp only [ByteFile.read, List.length_take, List.length_drop]
      omega
    rw [count] at got moved
    refine ⟨?_, ?_⟩
    next =>
      rw [got]
      refine List.ext_getElem (by simp) fun i below below' => ?_
      have old : r.pos + i < r.bytes.length := by
        simp only [ByteFile.read, List.length_take, List.length_drop] at below'
        omega
      rw [List.getElem_map, List.getElem_range, pos, holds.bytes _ old,
        List.getD_eq_getElem _ _ old]
      simp only [ByteFile.read, List.getElem_take, List.getElem_drop]
    next =>
      rw [rest]
      exact ⟨holds.used, holds.writable, holds.size, by dsimp only; rw [moved, pos]; rfl,
        holds.bytes⟩
  next =>
    have beyond : f.size < f.pos := BitVec.not_le.mp inside
    have past : r.bytes.length < r.pos := by
      rw [BitVec.lt_def] at beyond
      omega
    have nothing : (r.read len.toNat).1 = [] := by
      simp only [ByteFile.read]
      rw [List.drop_eq_nil_of_le (by omega), List.take_nil]
    have still : (r.read len.toNat).2.pos = r.pos := by
      have length := congrArg List.length nothing
      simp only [ByteFile.read, List.length_nil] at length ⊢
      omega
    by_cases none' : len = 0
    next =>
      refine ⟨fun _ => .inr none', fun _ => ⟨?_, ?_⟩⟩
      next =>
        rw [nothing, none']
        simp [OpenFile.read]
      next =>
        have same : (f.read len).2 = f := by
          rw [none']
          simp [OpenFile.read]
        rw [same]
        exact ⟨holds.used, holds.writable, holds.size, pos.trans still.symm, holds.bytes⟩
    next =>
      refine ⟨fun both => absurd (both.1.trans nothing) (OpenFile.read_beyond beyond (by omega) none'),
        fun regular => ?_⟩
      rcases regular with order | zero
      · exact absurd order inside
      · exact absurd zero none'

theorem OpenFile.Holds.lseek (off : Word) (whence : Whence) :
    ((f.lseek off whence.word).pos.toNat = (r.seek (r.base whence + off.toInt)).pos ∧
      (f.lseek off whence.word).Holds (r.seek (r.base whence + off.toInt))) ↔
      (DescriptorCall.lseek off whence).Regular f := by
  have within := r.within
  have short := r.short
  have pos := holds.pos
  have size := holds.size
  have sought := OpenFile.lseek_spec (f := f) (by omega) (by omega) off whence
  simp only [DescriptorCall.Regular]
  rw [holds.base] at sought ⊢
  constructor
  next =>
    rintro ⟨same, -⟩
    by_contra beyond
    rw [if_neg beyond] at sought
    rw [sought] at same
    simp only [ByteFile.seek] at same
    omega
  next =>
    intro regular
    rw [if_pos regular] at sought
    exact ⟨sought, holds.used, holds.writable, holds.size, sought, holds.bytes⟩

end Steps

@[simp] theorem Files.set_same (s : Files) (fd : Nat) (f : OpenFile) :
    (s.set fd f).ofiles fd = f := by
  simp [Files.set]

namespace DescriptorCall

/-- A call on a slot that holds the file: the same result and the same file, if and only if regular. -/
def Agrees (fd : Word) (s : Files) (r : ByteFile) (call : DescriptorCall) : Prop :=
  (call.onTable fd s).1 = (call.onFile r).1 ∧
    ((call.onTable fd s).2.ofiles fd.toNat).Holds (call.onFile r).2

theorem agrees_iff {fd : Word} {s : Files} {r : ByteFile} (slot : fd.toNat < maxOpenFiles)
    (holds : (s.ofiles fd.toNat).Holds r) (call : DescriptorCall) :
    call.Agrees fd s r ↔ call.Regular (s.ofiles fd.toNat) := by
  have inside : ¬ maxOpenFiles ≤ fd.toNat := by omega
  have used : (!(s.ofiles fd.toNat).used) = false := by rw [holds.used]; rfl
  cases call with
  | write buf mem =>
    by_cases writable : (s.ofiles fd.toNat).writable = true
    next =>
      have flag : r.writable = true := holds.writable.symm.trans writable
      have step := holds.write buf mem writable
      refine Iff.trans ?_ step
      simp only [Agrees, onTable, onFile, sysWriteFile, inside, used, writable, flag, buf.valid,
        if_false, if_true, Bool.not_true, Bool.or_self, Bool.false_eq_true, Files.set_same,
        Prod.mk.injEq, and_true]
    next =>
      have unwritable := Bool.eq_false_iff.mpr writable
      have flag : r.writable = false := holds.writable.symm.trans unwritable
      simp only [Agrees, onTable, onFile, sysWriteFile, inside, used, unwritable, flag, if_false,
        Regular, Bool.not_false, Bool.or_true, if_true, Bool.false_eq_true, true_and, true_or,
        iff_true]
      exact holds
  | read buf =>
    have step := holds.read buf.len
    refine Iff.trans ?_ step
    simp only [Agrees, onTable, onFile, sysRead, inside, used, buf.valid, if_false, Bool.not_true,
      Bool.false_eq_true, Files.set_same, Prod.mk.injEq]
    constructor
    next => exact fun both => ⟨both.1.2, both.2⟩
    next => exact fun both => ⟨⟨by rw [both.1], both.1⟩, both.2⟩
  | lseek off whence =>
    have step := holds.lseek off whence
    refine Iff.trans ?_ step
    simp only [Agrees, onTable, onFile, sysLseek, inside, used, if_false, Bool.false_eq_true,
      Files.set_same, Prod.mk.injEq, and_true]
    refine and_congr_left fun _ => ?_
    rw [← BitVec.toNat_inj, BitVec.toNat_ofNat]
    have within := (r.seek (r.base whence + off.toInt)).within
    omega

def Throughout (fact : Word → Files → ByteFile → DescriptorCall → Prop) (fd : Word) :
    Files → ByteFile → List DescriptorCall → Prop
  | _, _, [] => True
  | s, r, call :: rest =>
    fact fd s r call ∧ Throughout fact fd (call.onTable fd s).2 (call.onFile r).2 rest

theorem run_agrees {fd : Word} {s : Files} {r : ByteFile} (slot : fd.toNat < maxOpenFiles)
    (holds : (s.ofiles fd.toNat).Holds r) (calls : List DescriptorCall) :
    Throughout Agrees fd s r calls ↔
      Throughout (fun fd s _ call => call.Regular (s.ofiles fd.toNat)) fd s r calls := by
  induction calls generalizing s r with
  | nil => exact Iff.rfl
  | cons call rest ih =>
    have step := agrees_iff slot holds call
    by_cases agrees : call.Agrees fd s r
    next => exact ⟨fun h => ⟨step.mp h.1, (ih agrees.2).mp h.2⟩,
      fun h => ⟨agrees, (ih agrees.2).mpr h.2⟩⟩
    next => exact ⟨fun h => absurd h.1 agrees, fun h => absurd (step.mpr h.1) agrees⟩

end DescriptorCall

section Opening

variable (ata : Ata) (vol : Volume)

def openedFile (mem : UserMem) (name len flags : Word) (s : Files) : ByteFile :=
  let read := fatReadBuf ata vol (copyName mem name len) ofileCap.toNat s.io
  { writable := decide (flags &&& (oWronly ||| oCreat ||| oTrunc) ≠ 0)
    bytes := if flags &&& oTrunc ≠ 0 ∨ read.1.1 = none then [] else read.1.2
    pos := 0
    short := by
      split
      · exact Nat.zero_le _
      · exact (fatReadBuf_length ata vol _ _ _).1
    within := Nat.zero_le _ }

theorem openedSlot_holds (mem : UserMem) (name len flags : Word) (s : Files) (f : OpenFile) :
    (openedSlot ata vol mem name len flags f s.io).Holds (openedFile ata vol mem name len flags s) := by
  obtain ⟨short, exact'⟩ := fatReadBuf_length ata vol (copyName mem name len) ofileCap.toNat s.io
  have cap : ofileCap.toNat = 2048 := rfl
  by_cases emptied : flags &&& oTrunc ≠ 0 ∨
      (fatReadBuf ata vol (copyName mem name len) ofileCap.toNat s.io).1.1 = none
  next =>
    have nothing : (openedFile ata vol mem name len flags s).bytes = [] := if_pos emptied
    refine ⟨rfl, rfl, ?_, rfl, fun i below => ?_⟩
    next =>
      rw [nothing]
      dsimp only [openedSlot]
      by_cases trunc : flags &&& oTrunc ≠ 0
      next => rw [if_pos trunc]; rfl
      next =>
        rw [if_neg trunc, emptied.resolve_left trunc]
        rfl
    next =>
      rw [nothing] at below
      exact absurd below (Nat.not_lt_zero i)
  next =>
    have whole : (openedFile ata vol mem name len flags s).bytes =
        (fatReadBuf ata vol (copyName mem name len) ofileCap.toNat s.io).1.2 := if_neg emptied
    rw [not_or] at emptied
    obtain ⟨size, some'⟩ := Option.ne_none_iff_exists'.mp emptied.2
    have length := exact' size some'
    refine ⟨rfl, rfl, ?_, rfl, fun i below => ?_⟩
    next =>
      rw [whole]
      dsimp only [openedSlot]
      rw [if_neg emptied.1, some', Option.getD_some, BitVec.toNat_ofNat]
      omega
    next =>
      rw [whole] at below ⊢
      dsimp only [openedSlot]
      rw [List.getD_eq_getElem _ _ below, List.getD_eq_getElem _ _ below]

/-- From `open` on, every call gives the file's result and leaves the file's bytes in the slot exactly
when every call is regular. -/
theorem descriptor_isByteFile {mem : UserMem} {name len flags : Word} {s : Files}
    (opened : (sysOpen ata vol mem name len flags s).1 ≠ refused) (calls : List DescriptorCall) :
    DescriptorCall.Throughout DescriptorCall.Agrees (sysOpen ata vol mem name len flags s).1
        (sysOpen ata vol mem name len flags s).2 (openedFile ata vol mem name len flags s) calls ↔
      DescriptorCall.Throughout (fun fd s _ call => call.Regular (s.ofiles fd.toNat))
        (sysOpen ata vol mem name len flags s).1 (sysOpen ata vol mem name len flags s).2
        (openedFile ata vol mem name len flags s) calls := by
  rcases sysOpen_cases ata vol mem name len flags s with failed | ⟨fd, free, -, -, -, -, done⟩
  · exact absurd failed opened
  · obtain ⟨-, slot, -⟩ := allocFd_slot free
    have number : (BitVec.ofNat 32 fd).toNat = fd := by
      rw [BitVec.toNat_ofNat]
      simp only [maxOpenFiles] at slot
      omega
    rw [done]
    refine DescriptorCall.run_agrees (by rw [number]; exact slot) ?_ calls
    dsimp only
    rw [number, Function.update_self]
    exact openedSlot_holds ata vol mem name len flags s (s.ofiles fd)

end Opening

def oneByte : UserBuffer := { addr := 0x200000, len := 1, valid := by decide }

def regularCalls : List DescriptorCall := [.write oneByte letters, .lseek 0 .set, .read oneByte]

theorem descriptor_isByteFile_regular :
    (sysOpen (device fun _ _ _ => false) floppy letters 0x200000 1 oCreat bootFiles).1 ≠ refused ∧
      (DescriptorCall.Throughout DescriptorCall.Agrees
        (sysOpen (device fun _ _ _ => false) floppy letters 0x200000 1 oCreat bootFiles).1
        (sysOpen (device fun _ _ _ => false) floppy letters 0x200000 1 oCreat bootFiles).2
        (openedFile (device fun _ _ _ => false) floppy letters 0x200000 1 oCreat bootFiles) regularCalls ↔
      DescriptorCall.Throughout (fun fd s _ call => call.Regular (s.ofiles fd.toNat))
        (sysOpen (device fun _ _ _ => false) floppy letters 0x200000 1 oCreat bootFiles).1
        (sysOpen (device fun _ _ _ => false) floppy letters 0x200000 1 oCreat bootFiles).2
        (openedFile (device fun _ _ _ => false) floppy letters 0x200000 1 oCreat bootFiles) regularCalls) := by
  have opened : (sysOpen (device fun _ _ _ => false) floppy letters 0x200000 1 oCreat bootFiles).1 ≠
      refused := by decide +kernel
  exact ⟨opened, descriptor_isByteFile _ floppy opened regularCalls⟩

def readPastEnd : List DescriptorCall := [.lseek 4 .set, .read oneByte]

theorem descriptor_readsPastEnd :
    ¬ DescriptorCall.Throughout DescriptorCall.Agrees
      (sysOpen (device fun _ _ _ => false) floppy letters 0x200000 1 oCreat bootFiles).1
      (sysOpen (device fun _ _ _ => false) floppy letters 0x200000 1 oCreat bootFiles).2
      (openedFile (device fun _ _ _ => false) floppy letters 0x200000 1 oCreat bootFiles) readPastEnd := by
  intro all
  have results := all.2.1.1
  revert results
  decide +kernel

end NovaKernel

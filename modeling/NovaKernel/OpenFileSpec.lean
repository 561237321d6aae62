import NovaKernel.OpenFiles
import NovaKernel.Floppy

set_option autoImplicit false

namespace NovaKernel

theorem storeBytes_eq (data : Nat → Byte) (pos : Word) (mem : UserMem) (buf : Word) {n : Nat}
    (fits : pos.toNat + n ≤ 2048) (i : Nat) :
    storeBytes data pos mem buf n i =
      if pos.toNat ≤ i ∧ i < pos.toNat + n then mem (buf + BitVec.ofNat 32 (i - pos.toNat)) else data i := by
  unfold storeBytes
  induction n with
  | zero => rw [if_neg (by omega)]; rfl
  | succ n ih =>
    have earlier := ih (by omega)
    have index : (pos + BitVec.ofNat 32 n).toNat = pos.toNat + n := by
      rw [BitVec.toNat_add, BitVec.toNat_ofNat]
      omega
    rw [List.range_succ, List.foldl_append, List.foldl_cons, List.foldl_nil, index]
    by_cases last : i = pos.toNat + n
    next =>
      rw [last, Function.update_self, if_pos (by omega)]
      congr 3
      omega
    next =>
      rw [Function.update_of_ne last, earlier]
      exact if_congr (by omega) rfl rfl

theorem clip_toNat (avail len : Word) :
    (if avail < len then avail else len).toNat = min len.toNat avail.toNat := by
  split
  next less =>
    rw [BitVec.lt_def] at less
    omega
  next more =>
    rw [BitVec.lt_def] at more
    omega

theorem grow_toNat (size pos : Word) :
    (if size < pos then pos else size).toNat = max size.toNat pos.toNat := by
  split
  next less =>
    rw [BitVec.lt_def] at less
    omega
  next more =>
    rw [BitVec.lt_def] at more
    omega

theorem sub_toNat {a b : Word} (le : b.toNat ≤ a.toNat) : (a - b).toNat = a.toNat - b.toNat := by
  rw [BitVec.toNat_sub]
  omega

-- What each operation of the source does to a slot whose position is inside the buffer.

theorem OpenFile.write_spec {f : OpenFile} (within : f.pos.toNat ≤ 2048) (mem : UserMem)
    (buf len : Word) :
    let n := min len.toNat (2048 - f.pos.toNat)
    (f.write mem buf len).1 = BitVec.ofNat 32 n ∧
      (f.write mem buf len).2.pos.toNat = f.pos.toNat + n ∧
      (f.write mem buf len).2.size.toNat = max f.size.toNat (f.pos.toNat + n) ∧
      (f.write mem buf len).2.data = storeBytes f.data f.pos mem buf n ∧
      (f.write mem buf len).2.used = f.used ∧ (f.write mem buf len).2.writable = f.writable := by
  intro n
  have room : (ofileCap - f.pos).toNat = 2048 - f.pos.toNat := sub_toNat within
  have stored : (if ofileCap - f.pos < len then ofileCap - f.pos else len).toNat = n := by
    rw [clip_toNat, room]
  have moved : (f.pos + if ofileCap - f.pos < len then ofileCap - f.pos else len).toNat =
      f.pos.toNat + n := by
    rw [BitVec.toNat_add, stored]
    omega
  refine ⟨?_, moved, ?_, ?_, rfl, rfl⟩
  next =>
    apply BitVec.eq_of_toNat_eq
    rw [BitVec.toNat_ofNat]
    refine stored.trans ?_
    omega
  next => exact (grow_toNat _ _).trans (by rw [moved])
  next =>
    simp only [OpenFile.write]
    rw [stored]

theorem OpenFile.read_spec {f : OpenFile} (within : f.pos ≤ f.size) (small : f.size.toNat ≤ 2048)
    (len : Word) :
    let n := min len.toNat (f.size.toNat - f.pos.toNat)
    (f.read len).1 = (List.range n).map (fun i => f.data (f.pos.toNat + i)) ∧
      (f.read len).2.pos.toNat = f.pos.toNat + n ∧
      (f.read len).2 = { f with pos := (f.read len).2.pos } := by
  intro n
  rw [BitVec.le_def] at within
  have avail : (f.size - f.pos).toNat = f.size.toNat - f.pos.toNat := sub_toNat within
  have count : (if f.size - f.pos < len then f.size - f.pos else len).toNat = n := by
    rw [clip_toNat, avail]
  refine ⟨?_, ?_, rfl⟩
  next =>
    simp only [OpenFile.read]
    rw [count]
    refine List.map_congr_left fun i member => ?_
    have below := List.mem_range.mp member
    congr 1
    rw [BitVec.toNat_add, BitVec.toNat_ofNat]
    omega
  next =>
    simp only [OpenFile.read]
    rw [BitVec.toNat_add, count]
    omega

theorem OpenFile.read_beyond {f : OpenFile} (beyond : f.size < f.pos) (small : f.pos.toNat ≤ 2048)
    {len : Word} (some' : len ≠ 0) : (f.read len).1 ≠ [] := by
  rw [BitVec.lt_def] at beyond
  have positive : 0 < len.toNat := by
    rcases Nat.eq_zero_or_pos len.toNat with zero | positive
    · exact absurd (BitVec.eq_of_toNat_eq zero) some'
    · exact positive
  have avail : 0 < (f.size - f.pos).toNat := by
    rw [BitVec.toNat_sub]
    omega
  have count : 0 < (if f.size - f.pos < len then f.size - f.pos else len).toNat := by
    rw [clip_toNat]
    omega
  intro empty
  have length := congrArg List.length empty
  simp only [OpenFile.read, List.length_map, List.length_range, List.length_nil] at length
  omega

section Opening

variable (ata : Ata) (vol : Volume)

theorem copyName_string (mem : UserMem) (name len : Word) : ∀ c ∈ copyName mem name len, c ≠ 0 := by
  intro c member
  have all := List.all_eq_true.mp List.all_takeWhile c member
  simpa using all

theorem allocFd_slot {s : Files} {fd : Nat} (free : allocFd s = some fd) :
    fdFirstFile ≤ fd ∧ fd < maxOpenFiles ∧ (s.ofiles fd).used = false := by
  have unused := List.find?_some free
  have member := List.mem_of_find?_eq_some free
  have slots : ∀ i ∈ (List.range maxOpenFiles).drop fdFirstFile, fdFirstFile ≤ i ∧
      i < maxOpenFiles := by
    decide
  exact ⟨(slots fd member).1, (slots fd member).2, by simpa using unused⟩

/-- The slot after a successful `open`; `f` is what an earlier file left in it. -/
def openedSlot (mem : UserMem) (name len flags : Word) (f : OpenFile) (io : Io) : OpenFile :=
  let read := fatReadBuf ata vol (copyName mem name len) ofileCap.toNat io
  { used := true
    writable := decide (flags &&& (oWronly ||| oCreat ||| oTrunc) ≠ 0)
    dirty := decide (flags &&& oTrunc ≠ 0)
    size := if flags &&& oTrunc ≠ 0 then 0 else BitVec.ofNat 32 (read.1.1.getD 0)
    pos := 0
    name := copyName mem name len
    data := fun i => read.1.2.getD i (f.data i) }

theorem sysOpen_cases (mem : UserMem) (name len flags : Word) (s : Files) :
    (sysOpen ata vol mem name len flags s).1 = refused ∨
    ∃ fd, allocFd s = some fd ∧ userRangeOk name len = true ∧ len ≠ 0 ∧ len.toNat < nameSize ∧
      ((fatReadBuf ata vol (copyName mem name len) ofileCap.toNat s.io).1.1 = none →
        flags &&& oCreat ≠ 0) ∧
      sysOpen ata vol mem name len flags s = (BitVec.ofNat 32 fd,
        { ofiles := Function.update s.ofiles fd (openedSlot ata vol mem name len flags (s.ofiles fd) s.io)
          io := (fatReadBuf ata vol (copyName mem name len) ofileCap.toNat s.io).2 }) := by
  unfold sysOpen
  split
  next => exact .inl rfl
  next valid =>
    split
    next => exact .inl rfl
    next fits =>
      dsimp only
      cases free : allocFd s with
      | none => exact .inl rfl
      | some fd =>
        dsimp only
        split
        next => exact .inl rfl
        next found =>
          rw [not_or] at fits
          refine .inr ⟨fd, rfl, by simpa using valid, fits.1,
            by have := fits.2; simp only [nameSize] at *; omega, fun none' creat => found ⟨none', creat⟩, ?_⟩
          simp only [Files.set, openedSlot, Function.update_idem]

end Opening

def emptySlot : OpenFile :=
  { used := false, writable := false, dirty := false, size := 0, pos := 0, name := [], data := fun _ => 0 }

def bootFiles : Files :=
  { ofiles := fun _ => emptySlot, io := { disk := fun _ => 0, secbuf := fun _ => 0, accesses := 0 } }

def letters : UserMem := fun _ => 0x41

end NovaKernel

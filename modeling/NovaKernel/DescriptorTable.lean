import NovaKernel.Session
import NovaKernel.Lib.Transition

set_option autoImplicit false

namespace NovaKernel

open Transition

def OpenFile.writeIndices (f : OpenFile) (len : Word) : List Nat :=
  let room := ofileCap - f.pos
  let len := if room < len then room else len
  (List.range len.toNat).map fun i => (f.pos + BitVec.ofNat 32 i).toNat

def OpenFile.readIndices (f : OpenFile) (len : Word) : List Nat :=
  let avail := f.size - f.pos
  let len := if avail < len then avail else len
  (List.range len.toNat).map fun i => (f.pos + BitVec.ofNat 32 i).toNat

/-- A call with its descriptor, or what other code makes of the disk in between. -/
inductive TableCall
  | open (mem : UserMem) (name len flags : Word)
  | call (fd : Word) (c : FdCall)
  | close (fd : Word)
  | disk (io : Io)

def TableCall.run (ata : Ata) (vol : Volume) (s : Files) : TableCall → Files
  | .open mem name len flags => (sysOpen ata vol mem name len flags s).2
  | .call fd c => c.run fd s
  | .close fd => (sysClose ata vol fd s).2
  | .disk io => { s with io }

def zeroTable (io : Io) : Files := { ofiles := fun _ => emptySlot, io }

/-- The call's subtraction does not wrap, its accesses lie in the buffer, and what it copies out
lies in the file. -/
def FdCall.Inside (f : OpenFile) : FdCall → Prop
  | .write _ buf len => f.writable = true → userRangeOk buf len = true →
      f.pos ≤ ofileCap ∧ ∀ i ∈ f.writeIndices len, i < 2048
  | .read buf len => userRangeOk buf len = true →
      f.pos ≤ f.size ∧ ∀ i ∈ f.readIndices len, i < 2048 ∧ i < f.size.toNat
  | .lseek _ _ => True

/-- A read starts inside the file, or at its end. -/
def FdCall.ReadsBelow (f : OpenFile) : FdCall → Prop
  | .read buf len => userRangeOk buf len = true → f.pos ≤ f.size
  | _ => True

def FdCall.StoresInside (f : OpenFile) : FdCall → Prop
  | .write _ buf len => f.writable = true → userRangeOk buf len = true →
    ∀ i ∈ f.writeIndices len, i < 2048
  | _ => True

def TableCall.Reaching (fact : OpenFile → FdCall → Prop) (s : Files) : TableCall → Prop
  | .call fd c => fd.toNat < maxOpenFiles → (s.ofiles fd.toNat).used = true →
    fact (s.ofiles fd.toNat) c
  | _ => True

def OpenFile.Bounded (f : OpenFile) : Prop := f.pos.toNat ≤ 2048 ∧ f.size.toNat ≤ 2048

def Files.Bounded (s : Files) : Prop := ∀ i, (s.ofiles i).Bounded

section Calls

variable {f : OpenFile} {s : Files}

theorem OpenFile.Bounded.writeIndices (bounded : f.Bounded) (len : Word) :
    ∀ i ∈ f.writeIndices len, i < 2048 := by
  intro i member
  obtain ⟨k, low, rfl⟩ := List.mem_map.mp member
  have room : (ofileCap - f.pos).toNat = 2048 - f.pos.toNat := sub_toNat bounded.1
  rw [List.mem_range, clip_toNat, room] at low
  rw [BitVec.toNat_add, BitVec.toNat_ofNat]
  omega

theorem OpenFile.Bounded.below_cap (bounded : f.Bounded) : f.pos ≤ ofileCap :=
  BitVec.le_def.mpr bounded.1

theorem OpenFile.Bounded.readIndices (bounded : f.Bounded) (below : f.pos ≤ f.size) (len : Word) :
    ∀ i ∈ f.readIndices len, i < 2048 ∧ i < f.size.toNat := by
  intro i member
  obtain ⟨k, less, rfl⟩ := List.mem_map.mp member
  have starts := BitVec.le_def.mp below
  have avail : (f.size - f.pos).toNat = f.size.toNat - f.pos.toNat := sub_toNat starts
  have high := bounded.2
  rw [List.mem_range, clip_toNat, avail] at less
  rw [BitVec.toNat_add, BitVec.toNat_ofNat]
  omega

theorem FdCall.inside_iff (bounded : f.Bounded) (c : FdCall) : c.Inside f ↔ c.ReadsBelow f := by
  cases c with
  | write mem buf len =>
    exact iff_of_true (fun _ _ => ⟨bounded.below_cap, bounded.writeIndices len⟩) trivial
  | read buf len =>
    exact forall_congr' fun _ => and_iff_left_of_imp fun below => bounded.readIndices below len
  | lseek off whence => exact Iff.rfl

theorem OpenFile.lseek_pos (f : OpenFile) (off whence : Word) :
    (f.lseek off whence).pos.toNat ≤ 2048 := by
  simp only [OpenFile.lseek]
  generalize (if BitVec.slt _ 0 = true then 0 else _ : Word) = np
  rw [clip_toNat]
  exact Nat.min_le_right _ _

theorem FdCall.after_bounded (bounded : f.Bounded) {c : FdCall} (below : c.ReadsBelow f) :
    (c.after f).Bounded := by
  obtain ⟨low, high⟩ := bounded
  cases c with
  | write mem buf len =>
    simp only [FdCall.after]
    split
    next =>
      have spec := OpenFile.write_spec low mem buf len
      constructor <;> omega
    next => exact ⟨low, high⟩
  | read buf len =>
    simp only [FdCall.after]
    split
    next valid =>
      have spec := (OpenFile.read_spec (below valid) high len).2
      have size : (f.read len).2.size = f.size := rfl
      have starts := BitVec.le_def.mp (below valid)
      refine ⟨by omega, ?_⟩
      rw [size]
      exact high
    next => exact ⟨low, high⟩
  | lseek off whence => exact ⟨f.lseek_pos off whence, high⟩

theorem Files.Bounded.set (bounded : s.Bounded) (inside : f.Bounded) (fd : Nat) :
    (s.set fd f).Bounded := by
  intro i
  simp only [Files.set, Function.update_apply]
  split
  next => exact inside
  next => exact bounded i

theorem Files.Bounded.refill (bounded : s.Bounded) {io : Io} {fd : Nat}
    (pos : f.pos = (s.ofiles fd).pos) (size : f.size = (s.ofiles fd).size) :
    (Files.set { s with io } fd f).Bounded := by
  have there : ({ s with io } : Files).Bounded := bounded
  refine there.set ?_ fd
  rw [OpenFile.Bounded, pos, size]
  exact bounded fd

theorem FdCall.run_bounded (bounded : s.Bounded) {fd : Word} {c : FdCall}
    (below : (TableCall.call fd c).Reaching FdCall.ReadsBelow s) : (c.run fd s).Bounded := by
  by_cases reaches : fd.toNat < maxOpenFiles ∧ (s.ofiles fd.toNat).used = true
  · rw [FdCall.run_eq reaches.1 reaches.2]
    exact bounded.set (FdCall.after_bounded (bounded _) (below reaches.1 reaches.2)) _
  · have refused : c.run fd s = s := by
      by_cases slot : fd.toNat < maxOpenFiles
      · have unused := Bool.eq_false_iff.mpr fun used => reaches ⟨slot, used⟩
        cases c <;> simp [FdCall.run, sysWriteFile, sysRead, sysLseek, unused]
      · have outside := Nat.le_of_not_lt slot
        cases c <;> simp [FdCall.run, sysWriteFile, sysRead, sysLseek, outside]
    rw [refused]
    exact bounded

variable (ata : Ata) (vol : Volume)

theorem openedSlot_bounded (mem : UserMem) (name len flags : Word) (f : OpenFile) (io : Io) :
    (openedSlot ata vol mem name len flags f io).Bounded := by
  obtain ⟨short, size⟩ := fatReadBuf_length ata vol (copyName mem name len) ofileCap.toNat io
  have cap : ofileCap.toNat = 2048 := rfl
  refine ⟨Nat.zero_le _, ?_⟩
  simp only [openedSlot]
  split
  next => exact Nat.zero_le _
  next =>
    cases read : (fatReadBuf ata vol (copyName mem name len) ofileCap.toNat io).1.1 with
    | none => exact Nat.zero_le _
    | some n =>
      have found := size n read
      rw [Option.getD_some, BitVec.toNat_ofNat]
      omega

theorem sysOpen_bounded (bounded : s.Bounded) (mem : UserMem) (name len flags : Word) :
    (sysOpen ata vol mem name len flags s).2.Bounded := by
  unfold sysOpen
  split
  next => exact bounded
  split
  next => exact bounded
  dsimp only
  split
  next => exact bounded
  next fd _ =>
    have filled : (Files.set { s with io := (fatReadBuf ata vol (copyName mem name len) ofileCap.toNat s.io).2 } fd
        { s.ofiles fd with data := fun i =>
          (fatReadBuf ata vol (copyName mem name len) ofileCap.toNat s.io).1.2.getD i ((s.ofiles fd).data i) }).Bounded :=
      bounded.refill rfl rfl
    split
    next => exact filled
    next => exact filled.set (openedSlot_bounded ata vol mem name len flags (s.ofiles fd) s.io) fd

theorem sysSync_bounded (bounded : s.Bounded) (fd : Nat) : (sysSync ata vol fd s).2.Bounded := by
  unfold sysSync
  split
  next => exact bounded
  dsimp only
  split
  next => exact bounded
  split
  next => exact bounded
  next io _ => exact bounded.refill rfl rfl

theorem sysClose_bounded (bounded : s.Bounded) (fd : Word) : (sysClose ata vol fd s).2.Bounded := by
  unfold sysClose
  split
  next => exact bounded
  split
  next => exact bounded
  exact (sysSync_bounded ata vol bounded fd.toNat).refill rfl rfl

theorem TableCall.run_bounded (bounded : s.Bounded) {call : TableCall}
    (below : call.Reaching FdCall.ReadsBelow s) :
    (call.run ata vol s).Bounded := by
  cases call with
  | «open» mem name len flags => exact sysOpen_bounded ata vol bounded mem name len flags
  | call fd c => exact FdCall.run_bounded bounded below
  | close fd => exact sysClose_bounded ata vol bounded fd
  | disk io => exact bounded

theorem TableCall.inside_iff (bounded : s.Bounded) (call : TableCall) :
    (call.Reaching FdCall.Inside s ∧ (call.run ata vol s).Bounded) ↔
      call.Reaching FdCall.ReadsBelow s := by
  have same : call.Reaching FdCall.Inside s ↔ call.Reaching FdCall.ReadsBelow s := by
    cases call with
    | call fd c => exact forall₂_congr fun _ _ => FdCall.inside_iff (bounded _) c
    | «open» | close | disk => exact Iff.rfl
  rw [same]
  exact and_iff_left_of_imp fun below => run_bounded ata vol bounded below

theorem along_inside_iff (bounded : s.Bounded) (calls : List TableCall) :
    Along (TableCall.run ata vol) (fun s call => call.Reaching FdCall.Inside s ∧ (call.run ata vol s).Bounded) s calls ↔
      Along (TableCall.run ata vol) (fun s call => call.Reaching FdCall.ReadsBelow s) s calls :=
  along_iff Files.Bounded (fun _ call bounded => call.inside_iff ata vol bounded)
    (fun _ _ _ inside => inside.2) bounded

theorem zeroTable_bounded (io : Io) : (zeroTable io).Bounded :=
  fun _ => ⟨Nat.zero_le _, Nat.zero_le _⟩

/-- Every access stays in the buffer, `pos` and `size` stay below its end, nothing wraps and only bytes of the file are
copied out, exactly in the runs in which every read starts inside the file or at its end. -/
theorem descriptors_inside_iff (io : Io) (calls : List TableCall) :
    Along (TableCall.run ata vol) (fun s call => call.Reaching FdCall.Inside s ∧ (call.run ata vol s).Bounded)
        (zeroTable io) calls ↔
      Along (TableCall.run ata vol) (fun s call => call.Reaching FdCall.ReadsBelow s) (zeroTable io) calls :=
  along_inside_iff ata vol (zeroTable_bounded io) calls

def createAndSeek : List TableCall := [.open letters 0x200000 1 oCreat, .call 3 (.lseek 2048 0)]

def sought : Files := createAndSeek.foldl (TableCall.run (device fun _ _ _ => false) floppy)
    (zeroTable bootFiles.io)

def seekAndRead : List TableCall := createAndSeek ++ [.call 3 (.read 0x200000 0x1000)]

theorem descriptors_read_beyond : ¬ ∀ (ata : Ata) (vol : Volume) (io : Io) (calls : List TableCall),
    Along (TableCall.run ata vol) (fun s call => call.Reaching FdCall.Inside s ∧ (call.run ata vol s).Bounded)
      (zeroTable io) calls := by
  intro inside
  have below := (along_inside_iff (device fun _ _ _ => false) floppy (zeroTable_bounded bootFiles.io) seekAndRead).mp
    (inside _ floppy bootFiles.io seekAndRead)
  have used : (sought.ofiles 3).used = true := by decide +kernel
  have starts : (sought.ofiles 3).pos ≤ (sought.ofiles 3).size :=
    below.2.2.1 (by decide) used (by decide)
  exact absurd starts (by decide +kernel)

end Calls

end NovaKernel

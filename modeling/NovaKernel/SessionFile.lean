import NovaKernel.Session

set_option autoImplicit false

namespace NovaKernel

def diskFile (ata : Ata) (vol : Volume) (name : List Byte) (io : Io) : Option (List Byte) :=
  (fatRead ata vol name (2 ^ 32 - 1) io).1.map Prod.snd

theorem sysClose_cases (ata : Ata) (vol : Volume) {fd : Word} {s : Files}
    (slot : fd.toNat < maxOpenFiles) (used : (s.ofiles fd.toNat).used = true) :
    ((s.ofiles fd.toNat).dirty = false ∧ (sysClose ata vol fd s).1 = 0 ∧ (sysClose ata vol fd s).2.io = s.io) ∨
      ((s.ofiles fd.toNat).dirty = true ∧ ∃ ok io, fatWrite ata vol (s.ofiles fd.toNat).name
          (s.ofiles fd.toNat).data (s.ofiles fd.toNat).size.toNat s.io = (ok, io) ∧
        (sysClose ata vol fd s).1 = (if ok then 0 else refused) ∧ (sysClose ata vol fd s).2.io = io) := by
  have inside : ¬ maxOpenFiles ≤ fd.toNat := by omega
  by_cases dirty : (s.ofiles fd.toNat).dirty = true
  · refine .inr ⟨dirty, ?_⟩
    obtain ⟨⟨ok, io⟩, written⟩ : ∃ r, fatWrite ata vol (s.ofiles fd.toNat).name (s.ofiles fd.toNat).data
      (s.ofiles fd.toNat).size.toNat s.io = r := ⟨_, rfl⟩
    refine ⟨ok, io, written, ?_⟩
    cases ok <;>
      simp [sysClose, sysSync, inside, used, dirty, written, Files.set, refused]
  · have clean := Bool.eq_false_iff.mpr dirty
    refine .inl ⟨clean, ?_⟩
    simp [sysClose, sysSync, inside, used, clean, Files.set, refused]

section Reads

variable {faults : Faults} {vol : Volume} (geo : Geometry vol) (reliable : Reliable faults)
  {last : Nat} {chain : Nat → List Nat} {io : Io} (layout : Layout vol (view vol io.disk) last chain)
  {name : List Byte}

include geo reliable layout

theorem fatReadBuf_found {k : Nat} (live : (view vol io.disk).live k = true)
    (named : (view vol io.disk).name k = normName name) (max : Nat) :
    (fatReadBuf (device faults) vol name max io).1 = (some (min ((view vol io.disk).size k) max),
        ((view vol io.disk).file vol k (chain k)).take max) ∧
      (fatReadBuf (device faults) vol name max io).2.disk = io.disk := by
  obtain ⟨io', read, disk⟩ := fatRead_found geo reliable layout live named max
  rw [fatRead_eq] at read
  obtain ⟨result, rfl⟩ := Prod.mk.inj read
  refine ⟨?_, disk⟩
  generalize fatReadBuf (device faults) vol name max io = r at result
  obtain ⟨⟨size, bytes⟩, io'⟩ := r
  cases size with
  | none => simp at result
  | some size =>
    simp only [Option.map_some, Option.some.injEq, Prod.mk.injEq] at result
    rw [result.1, result.2]

theorem fatReadBuf_absent
    (absent : ∀ k, (view vol io.disk).live k = true → (view vol io.disk).name k ≠ normName name)
    (max : Nat) :
    (fatReadBuf (device faults) vol name max io).1.1 = none ∧
      (fatReadBuf (device faults) vol name max io).2.disk = io.disk := by
  obtain ⟨io', read, disk⟩ := fatRead_absent geo reliable layout absent max
  rw [fatRead_eq] at read
  obtain ⟨result, rfl⟩ := Prod.mk.inj read
  exact ⟨Option.map_eq_none_iff.mp result, disk⟩

omit reliable in
theorem Layout.size_lt {k : Nat} (live : (view vol io.disk).live k = true) :
    (view vol io.disk).size k < 2 ^ 32 - 1 := by
  have length := layout.sizes k live
  have short := (layout.chains k live).length_le geo
  have bound := geo.clusters_le
  have fits := (clusters_bounds geo.spc.1 ((view vol io.disk).size k)).1
  have spc := geo.spc.2
  have volume : 512 * vol.spc * (chain k).length ≤ 512 * 255 * 2880 := by
    refine Nat.mul_le_mul (by omega) ?_
    simp only [diskSectors] at bound
    omega
  rw [← length] at fits
  omega

theorem diskFile_eq : diskFile (device faults) vol name io = (view vol io.disk).lookup vol chain
    (normName name) := by
  rcases layout.find_cases (normName name) with ⟨k, -, live, named⟩ | ⟨-, absent⟩
  · obtain ⟨io', read, -⟩ := fatRead_found geo reliable layout live named (2 ^ 32 - 1)
    have length := layout.file_length geo.spc.1 live
    have small := layout.size_lt geo live
    rw [diskFile, read, Option.map_some, List.take_of_length_le (by omega),
      layout.lookup_found live named]
  · obtain ⟨io', read, -⟩ := fatRead_absent geo reliable layout absent (2 ^ 32 - 1)
    rw [diskFile, read, Option.map_none, layout.lookup_absent absent]

end Reads

/-- What a process does with one file: the arguments of `open`, and the calls up to `close`. -/
structure Session where
  mem : UserMem
  name : Word
  len : Word
  flags : Word
  calls : List FdCall

namespace Session

variable (ata : Ata) (vol : Volume) (ses : Session) (s : Files)

def path : List Byte := copyName ses.mem ses.name ses.len

def opened : Word × Files := sysOpen ata vol ses.mem ses.name ses.len ses.flags s

def entry : OpenFile := (ses.opened ata vol s).2.ofiles (ses.opened ata vol s).1.toNat

def beforeClose : Files :=
  ses.calls.foldl (FdCall.run (ses.opened ata vol s).1) (ses.opened ata vol s).2

def finalEntry : OpenFile := (ses.beforeClose ata vol s).ofiles (ses.opened ata vol s).1.toNat

def closed : Word × Files := sysClose ata vol (ses.opened ata vol s).1 (ses.beforeClose ata vol s)

/-- The file on the disk is as long as before, and the bytes that no call wrote are the same. -/
def KeepsUnwritten : Prop :=
  (ses.closed ata vol s).1 = 0 → ∀ old, diskFile ata vol ses.path s.io = some old →
    ∃ new, diskFile ata vol ses.path (ses.closed ata vol s).2.io = some new ∧
      old.length ≤ new.length ∧
      ∀ i < old.length, FdCall.Along (fun f call => ¬ call.writesAt f i) (ses.entry ata vol s) ses.calls →
        new[i]? = old[i]?

/-- After a `close` that returns 0 the disk holds the bytes of the descriptor. -/
def StoresFile : Prop :=
  (ses.closed ata vol s).1 = 0 →
    ∃ st, (fatStat ata vol ses.path (ses.closed ata vol s).2.io).1 = some st ∧
    st.size = (ses.finalEntry ata vol s).size.toNat ∧
    ∀ max, (ses.finalEntry ata vol s).size.toNat ≤ max →
      (fatRead ata vol ses.path max (ses.closed ata vol s).2.io).1 =
        some ((ses.finalEntry ata vol s).size.toNat,
          (List.range (ses.finalEntry ata vol s).size.toNat).map (ses.finalEntry ata vol s).data)

def Idle : Prop :=
  FdCall.Along (fun f call => call.stores f = false) (ses.entry ata vol s) ses.calls

end Session

def writeLetters (len : Nat) : Bool × Io :=
  fatWrite (device noFaults) floppy [0x41] (fun _ => 0x41) len bootFiles.io

def lettersFile (len : Nat) : Files := { ofiles := fun _ => emptySlot, io := (writeLetters len).2 }

theorem writeLetters_wellFormed {len : Nat} (small : len < 2 ^ 31)
    (written : (writeLetters len).1 = true) :
    WellFormed floppy (writeLetters len).2.disk := by
  have blank : WellFormed floppy bootFiles.io.disk := blank_wellFormed floppy
  have usable : Usable (normName [0x41]) := usable_normName (by decide) (by decide)
  unfold writeLetters at written ⊢
  exact fatWrite_wellFormed floppy_geometry noFaults_reliable blank usable small written

def overwriteFirst : Session :=
  { mem := letters, name := 0x200000, len := 1, flags := oWronly, calls := [.write letters 0x200000 1] }

def createOnly : Session :=
  { mem := letters, name := 0x200000, len := 1, flags := oCreat, calls := [] }

end NovaKernel

import NovaKernel.Mkdata
import Mathlib.Tactic.IntervalCases

set_option autoImplicit false

namespace NovaKernel

namespace Mkdata

def sectors : Nat := 2880
def spt : Nat := 18
def heads : Nat := 2
def reserved : Nat := 1
def numFats : Nat := 2
def fatSize : Nat := 9
def rootEntries : Nat := 224
def rootSectors : Nat := (rootEntries * 32 + 512 - 1) / 512
def dataLba : Nat := reserved + numFats * fatSize + rootSectors
def spc : Nat := 1
def nclusters : Nat := (sectors - dataLba) / spc

structure Packed where
  name : List Byte
  data : List Byte

def ascii (text : String) : List Byte := text.toList.map fun c => u8 c.toNat

def helloTxt : List Byte := ascii "Hello from the NovaOS FAT12 data disk!\nCreated by tools/mkdata.py.\n"

def readmeTxt : List Byte :=
  ascii "NovaOS data disk - FAT12\nFiles: HELLO.ELF (ring3 demo program)\n       HELLO.TXT, README.TXT\n"

def files (elf : List Byte) (extra : List (List Byte × List Byte)) : List Packed :=
  ⟨ascii "HELLO   ELF", elf⟩ :: ⟨ascii "HELLO   TXT", helloTxt⟩ :: ⟨ascii "README  TXT", readmeTxt⟩ ::
    extra.map fun p => ⟨packedName p.1, p.2⟩

def writeSector (lba : Nat) (data : List Byte) (disk : Nat → Byte) : Nat → Byte := fun a =>
  if 512 * lba ≤ a ∧ a < 512 * lba + data.length then data.getD (a - 512 * lba) 0 else disk a

-- `struct.pack_into` with `<H` and with `<I`.
def pack16 (n : Nat) : List Byte := [u8 (n &&& 0xFF), u8 ((n >>> 8) &&& 0xFF)]

def pack32 (n : Nat) : List Byte :=
  [u8 (n &&& 0xFF), u8 ((n >>> 8) &&& 0xFF), u8 ((n >>> 16) &&& 0xFF), u8 ((n >>> 24) &&& 0xFF)]

def bpb : List Byte :=
  [0xEB, 0x3C, 0x90] ++ ascii "NOVAOS  " ++ pack16 512 ++ [u8 spc] ++ pack16 reserved ++ [u8 numFats] ++
    pack16 rootEntries ++ pack16 sectors ++ [0xF0] ++ pack16 fatSize ++ pack16 spt ++ pack16 heads ++
    List.replicate 482 0 ++ [0x55, 0xAA]

def need (data : List Byte) : Nat := (data.length + 512 - 1) / 512

def chainEntries (cluster n : Nat) : List Nat :=
  (List.range n).map fun i => if i + 1 < n then cluster + i + 1 else 0xFFF

def fileEntries : Nat → List Packed → List Nat
  | _, [] => []
  | cluster, f :: rest =>
    chainEntries cluster (need f.data) ++ fileEntries (cluster + need f.data) rest

def fatEntries (fs : List Packed) : List Nat :=
  let entries := 0xFF0 :: 0xFFF :: fileEntries 2 fs
  entries ++ List.replicate (nclusters + 2 - entries.length) 0

-- Two entries in three bytes; an entry that is left over is dropped.
def fat12Bytes : List Nat → List Byte
  | a :: b :: rest =>
    u8 (a &&& 0xFF) :: u8 (((a >>> 8) &&& 0x0F) ||| ((b &&& 0x0F) <<< 4)) :: u8 ((b >>> 4) &&& 0xFF) ::
      fat12Bytes rest
  | _ => []

-- `ljust`, and the slice.
def filled (data : List Byte) (n : Nat) : List Byte :=
  (data ++ List.replicate (n - data.length) 0).take n

def fat (fs : List Packed) : List Byte := filled (fat12Bytes (fatEntries fs)) (fatSize * 512)

def dirEntry (name : List Byte) (cluster len : Nat) : List Byte :=
  name ++ [0x20] ++ List.replicate 14 0 ++ pack16 cluster ++ pack32 len

def dirEntries : Nat → List Packed → List Byte
  | _, [] => []
  | cluster, f :: rest =>
    dirEntry f.name cluster f.data.length ++ dirEntries (cluster + need f.data) rest

def root (fs : List Packed) : List Byte := filled (dirEntries 2 fs) (rootSectors * 512)

def writeChunks (data : List Byte) : Nat → Nat → Nat → (Nat → Byte) → Nat → Byte
  | 0, _, _, disk => disk
  | n + 1, i, lba, disk =>
    writeChunks data n (i + 1) (lba + 1) (writeSector lba ((data.drop (512 * i)).take 512) disk)

def writeData : Nat → List Packed → (Nat → Byte) → Nat → Byte
  | _, [], disk => disk
  | cluster, f :: rest, disk =>
    writeData (cluster + need f.data) rest
      (writeChunks f.data (need f.data) 0 (dataLba + (cluster - 2) * spc) disk)

-- The tables are written one after the other.
def writeFats (data : List Byte) : Nat → (Nat → Byte) → Nat → Byte
  | 0, disk => disk
  | n + 1, disk => writeSector (reserved + n * fatSize) data (writeFats data n disk)

def image (fs : List Packed) : Nat → Byte :=
  let disk := writeSector 0 bpb fun _ => 0
  let disk := writeFats (fat fs) numFats disk
  let disk := writeSector (reserved + numFats * fatSize) (root fs) disk
  writeData 2 fs disk

theorem filled_length (data : List Byte) (n : Nat) : (filled data n).length = n := by
  rw [filled, List.length_take, List.length_append, List.length_replicate]
  omega

theorem getD_padded {α : Type} (data : List α) (pad : α) (n i : Nat) :
    (data ++ List.replicate n pad).getD i pad = data.getD i pad := by
  by_cases inside : i < data.length
  · exact List.getD_append _ _ _ _ inside
  · have beyond : data.length ≤ i := Nat.le_of_not_lt inside
    rw [List.getD_append_right _ _ _ _ beyond, List.getD_eq_default _ _ beyond]
    by_cases padded : i - data.length < n
    · rw [List.getD_replicate pad padded]
    · exact List.getD_eq_default _ _ (by rw [List.length_replicate]; omega)

theorem filled_getD (data : List Byte) {n i : Nat} (low : i < n) :
    (filled data n).getD i 0 = data.getD i 0 := by
  rw [filled, ← getD_padded data 0 (n - data.length)]
  simp only [List.getD_eq_getElem?_getD, List.getElem?_take, if_pos low]

theorem writeSector_inside (lba : Nat) (data : List Byte) (disk : Nat → Byte) {i : Nat}
    (low : i < data.length) :
    writeSector lba data disk (512 * lba + i) = data.getD i 0 := by
  rw [writeSector, if_pos (by omega), Nat.add_sub_cancel_left]

theorem writeSector_outside (lba : Nat) (data : List Byte) (disk : Nat → Byte) {a : Nat}
    (outside : a < 512 * lba ∨ 512 * lba + data.length ≤ a) :
    writeSector lba data disk a = disk a := by
  rw [writeSector, if_neg (by omega)]

theorem writeChunks_outside (data : List Byte) (n i lba : Nat) (disk : Nat → Byte) {a : Nat}
    (outside : a < 512 * lba ∨ 512 * (lba + n) ≤ a) : writeChunks data n i lba disk a = disk a := by
  induction n generalizing i lba disk with
  | zero => rfl
  | succ n ih =>
    rw [writeChunks, ih _ _ _ (by omega), writeSector_outside]
    rw [List.length_take]
    omega

theorem writeChunks_inside (data : List Byte) (n i lba : Nat) (disk : Nat → Byte) {o : Nat}
    (low : o < 512 * n) (inside : 512 * i + o < data.length) :
    writeChunks data n i lba disk (512 * lba + o) = data.getD (512 * i + o) 0 := by
  induction n generalizing i lba disk o with
  | zero => omega
  | succ n ih =>
    rw [writeChunks]
    by_cases here : o < 512
    · rw [writeChunks_outside _ _ _ _ _ (by omega), writeSector_inside]
      · simp only [List.getD_eq_getElem?_getD, List.getElem?_take, List.getElem?_drop, if_pos here]
      · rw [List.length_take, List.length_drop]
        omega
    · have place : 512 * lba + o = 512 * (lba + 1) + (o - 512) := by omega
      have index : 512 * i + o = 512 * (i + 1) + (o - 512) := by omega
      rw [place, index]
      exact ih (i + 1) (lba + 1) _ (by omega) (by omega)

def before (fs : List Packed) (k : Nat) : Nat := ((fs.take k).map fun f => need f.data).sum

def total (fs : List Packed) : Nat := (fs.map fun f => need f.data).sum

section Files

variable {f : Packed} {fs : List Packed} {k : Nat}

@[simp] theorem before_zero (fs : List Packed) : before fs 0 = 0 := rfl

@[simp] theorem before_cons (f : Packed) (fs : List Packed) (k : Nat) :
    before (f :: fs) (k + 1) = need f.data + before fs k := by
  simp [before]

@[simp] theorem total_cons (f : Packed) (fs : List Packed) :
    total (f :: fs) = need f.data + total fs := by
  simp [total]

theorem before_succ (here : fs[k]? = some f) : before fs (k + 1) = before fs k + need f.data := by
  induction fs generalizing k with
  | nil => simp at here
  | cons g fs ih =>
    cases k with
    | zero =>
      obtain rfl := Option.some.inj here
      simp
    | succ k =>
      rw [before_cons, before_cons, ih (by simpa using here), Nat.add_assoc]

theorem before_mono {l : Nat} (le : k ≤ l) : before fs k ≤ before fs l := by
  induction fs generalizing k l with
  | nil => simp [before]
  | cons g fs ih =>
    cases k with
    | zero => exact Nat.zero_le _
    | succ k =>
      cases l with
      | zero => omega
      | succ l =>
        rw [before_cons, before_cons]
        exact Nat.add_le_add_left (ih (by omega)) _

theorem before_le_total (fs : List Packed) (k : Nat) : before fs k ≤ total fs := by
  induction fs generalizing k with
  | nil => simp [before, total]
  | cons g fs ih =>
    cases k with
    | zero => exact Nat.zero_le _
    | succ k =>
      rw [before_cons, total_cons]
      exact Nat.add_le_add_left (ih k) _

theorem file_end (here : fs[k]? = some f) : before fs k + need f.data ≤ total fs := by
  rw [← before_succ here]
  exact before_le_total fs (k + 1)

theorem exists_file {p : Nat} (low : p < total fs) :
    ∃ k f i, fs[k]? = some f ∧ i < need f.data ∧ p = before fs k + i := by
  induction fs generalizing p with
  | nil => simp [total] at low
  | cons g fs ih =>
    rw [total_cons] at low
    by_cases here : p < need g.data
    · exact ⟨0, g, p, rfl, here, by simp⟩
    · obtain ⟨k, f, i, file, inside, place⟩ := ih (p := p - need g.data) (by omega)
      refine ⟨k + 1, f, i, by simpa using file, inside, ?_⟩
      rw [before_cons]
      omega

theorem chainEntries_length (cluster n : Nat) : (chainEntries cluster n).length = n := by
  simp [chainEntries]

theorem chainEntries_getD (cluster : Nat) {n i : Nat} (low : i < n) :
    (chainEntries cluster n).getD i 0 = if i + 1 < n then cluster + i + 1 else 0xFFF := by
  rw [List.getD_eq_getElem _ _ (by rwa [chainEntries_length])]
  simp only [chainEntries, List.getElem_map, List.getElem_range]

theorem fileEntries_length (cluster : Nat) (fs : List Packed) :
    (fileEntries cluster fs).length = total fs := by
  induction fs generalizing cluster with
  | nil => rfl
  | cons f fs ih => rw [fileEntries, List.length_append, chainEntries_length, ih, total_cons]

theorem fileEntries_getD (here : fs[k]? = some f) (cluster : Nat) {i : Nat}
    (low : i < need f.data) :
    (fileEntries cluster fs).getD (before fs k + i) 0 =
      if i + 1 < need f.data then cluster + before fs k + i + 1 else 0xFFF := by
  induction fs generalizing k cluster with
  | nil => simp at here
  | cons g fs ih =>
    rw [fileEntries]
    cases k with
    | zero =>
      obtain rfl := Option.some.inj here
      rw [before_zero, Nat.zero_add, List.getD_append _ _ _ _ (by rwa [chainEntries_length]),
        chainEntries_getD _ low]
      simp only [Nat.add_zero]
    | succ k =>
      have later := ih (by simpa using here) (cluster + need g.data)
      rw [before_cons, List.getD_append_right _ _ _ _ (by rw [chainEntries_length]; omega),
        chainEntries_length, Nat.add_assoc, Nat.add_sub_cancel_left, later, Nat.add_assoc cluster]

theorem dirEntry_length {name : List Byte} (long : name.length = 11) (cluster len : Nat) :
    (dirEntry name cluster len).length = 32 := by
  simp [dirEntry, pack16, pack32, long]

theorem dirEntry_getD {name : List Byte} (long : name.length = 11) (cluster len : Nat) {j : Nat}
    (low : j < 32) :
    (dirEntry name cluster len).getD j 0 = newEntry name cluster len j := by
  by_cases inName : j < 11
  · rw [dirEntry, newEntry, if_pos inName, List.append_assoc, List.append_assoc, List.append_assoc,
      List.getD_append _ _ _ _ (by omega)]
  · rw [dirEntry, List.append_assoc, List.append_assoc, List.append_assoc,
      List.getD_append_right _ _ _ _ (by omega), long]
    interval_cases j <;> rfl

theorem dirEntries_length (long : ∀ f ∈ fs, f.name.length = 11) (cluster : Nat) :
    (dirEntries cluster fs).length = 32 * fs.length := by
  induction fs generalizing cluster with
  | nil => rfl
  | cons f fs ih =>
    rw [dirEntries, List.length_append, dirEntry_length (long f (List.mem_cons_self ..)),
      ih fun g member => long g (List.mem_cons_of_mem f member), List.length_cons]
    omega

theorem dirEntries_getD (long : ∀ f ∈ fs, f.name.length = 11) (here : fs[k]? = some f)
    (cluster : Nat) {j : Nat} (low : j < 32) :
    (dirEntries cluster fs).getD (32 * k + j) 0 =
      newEntry f.name (cluster + before fs k) f.data.length j := by
  induction fs generalizing k cluster with
  | nil => simp at here
  | cons g fs ih =>
    have first := dirEntry_length (long g (List.mem_cons_self ..)) cluster g.data.length
    rw [dirEntries]
    cases k with
    | zero =>
      obtain rfl := Option.some.inj here
      rw [Nat.mul_zero, Nat.zero_add, List.getD_append _ _ _ _ (by omega),
        dirEntry_getD (long g (List.mem_cons_self ..)) _ _ low, before_zero, Nat.add_zero]
    | succ k =>
      have later := ih (fun h member => long h (List.mem_cons_of_mem g member))
        (by simpa using here)
        (cluster + need g.data)
      have place : 32 * (k + 1) + j - 32 = 32 * k + j := by omega
      rw [List.getD_append_right _ _ _ _ (by omega), first, place, later, before_cons,
        Nat.add_assoc]

theorem writeData_outside {cluster : Nat} (first : 2 ≤ cluster) (disk : Nat → Byte) {a : Nat}
    (outside : a < 512 * (dataLba + (cluster - 2)) ∨ 512 * (dataLba + (cluster - 2) + total fs) ≤ a) :
    writeData cluster fs disk a = disk a := by
  induction fs generalizing cluster disk with
  | nil => rfl
  | cons f fs ih =>
    rw [total_cons] at outside
    rw [writeData, ih (by omega) _ (by omega), writeChunks_outside]
    simp only [spc]
    omega

theorem writeData_inside (here : fs[k]? = some f) {cluster : Nat} (first : 2 ≤ cluster)
    (disk : Nat → Byte) {o : Nat} (low : o < f.data.length) :
    writeData cluster fs disk (512 * (dataLba + (cluster + before fs k - 2)) + o) =
      f.data.getD o 0 := by
  induction fs generalizing k cluster disk with
  | nil => simp at here
  | cons g fs ih =>
    rw [writeData]
    cases k with
    | zero =>
      obtain rfl := Option.some.inj here
      have size : o < 512 * need g.data := by
        simp only [need]
        omega
      have written :=
        writeChunks_inside g.data (need g.data) 0 (dataLba + (cluster - 2) * spc) disk size
        (by simpa using low)
      rw [Nat.mul_zero, Nat.zero_add] at written
      rw [before_zero, Nat.add_zero, writeData_outside (by omega) _ (by left; omega), ← written,
        spc, Nat.mul_one]
    | succ k =>
      have later := ih (by simpa using here) (show 2 ≤ cluster + need g.data by omega)
        (writeChunks g.data (need g.data) 0 (dataLba + (cluster - 2) * spc) disk)
      rw [before_cons, ← Nat.add_assoc]
      exact later

end Files

end Mkdata

end NovaKernel

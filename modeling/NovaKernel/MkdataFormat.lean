import NovaKernel.MkdataImage
import NovaKernel.FatErase
import NovaKernel.FatStore

set_option autoImplicit false

namespace NovaKernel

open Linked

namespace Mkdata

section Table

variable (l : List Nat)

theorem fat12Bytes_length : (fat12Bytes l).length = 3 * (l.length / 2) := by
  induction l using fat12Bytes.induct with
  | case1 a b rest ih =>
    simp only [fat12Bytes, List.length_cons, ih]
    omega
  | case2 l short =>
    have few : l.length / 2 = 0 := by
      cases l with
      | nil => rfl
      | cons a l =>
        cases l with
        | nil => exact Nat.div_eq_of_lt (Nat.lt_succ_self 1)
        | cons b l => exact absurd rfl (short a b l)
    rw [fat12Bytes, few]
    · rfl
    · exact short

theorem packed_low (a b : Nat) (small : a < 4096) :
    entryOf 0 (u8 (a &&& 0xFF)) (u8 (((a >>> 8) &&& 0x0F) ||| ((b &&& 0x0F) <<< 4))) = a := by
  have high : (a >>> 8) &&& 0x0F < 2 ^ 4 := by
    rw [show (0x0F : Nat) = 2 ^ 4 - 1 by rfl, low_bits]
    exact Nat.mod_lt _ (by decide)
  rw [entryOf_even rfl, u8, u8, BitVec.toNat_ofNat, BitVec.toNat_ofNat, or_shift _ _ high,
    show (0x0F : Nat) = 2 ^ 4 - 1 by rfl, low_bits, low_bits, show (0xFF : Nat) = 2 ^ 8 - 1 by rfl,
    low_bits, Nat.shiftRight_eq_div_pow]
  omega

theorem packed_high (a b : Nat) (small : b < 4096) :
    entryOf 1 (u8 (((a >>> 8) &&& 0x0F) ||| ((b &&& 0x0F) <<< 4))) (u8 ((b >>> 4) &&& 0xFF)) = b := by
  have high : (a >>> 8) &&& 0x0F < 2 ^ 4 := by
    rw [show (0x0F : Nat) = 2 ^ 4 - 1 by rfl, low_bits]
    exact Nat.mod_lt _ (by decide)
  rw [entryOf_odd rfl, u8, u8, BitVec.toNat_ofNat, BitVec.toNat_ofNat, or_shift _ _ high,
    show (0x0F : Nat) = 2 ^ 4 - 1 by rfl, low_bits, low_bits, show (0xFF : Nat) = 2 ^ 8 - 1 by rfl,
    low_bits, Nat.shiftRight_eq_div_pow, Nat.shiftRight_eq_div_pow]
  omega

theorem entryOf_parity (c : Nat) (lo hi : Byte) : entryOf (c + 2) lo hi = entryOf c lo hi := by
  rw [entryOf, entryOf, Nat.add_mod_right]

theorem fat12Bytes_entry (small : ∀ e ∈ l, e < 4096) (c : Nat) :
    entryOf c ((fat12Bytes l).getD (c + c / 2) 0) ((fat12Bytes l).getD (c + c / 2 + 1) 0) =
      if c < 2 * (l.length / 2) then l.getD c 0 else 0 := by
  induction l using fat12Bytes.induct generalizing c with
  | case1 a b rest ih =>
    have pairs : (a :: b :: rest).length / 2 = rest.length / 2 + 1 := by
      simp only [List.length_cons]
      omega
    rw [fat12Bytes, pairs]
    cases c with
    | zero =>
      rw [if_pos (by omega)]
      exact packed_low a b (small a (by simp))
    | succ c =>
      cases c with
      | zero =>
        rw [if_pos (by omega)]
        exact packed_high a b (small b (by simp))
      | succ c =>
        have place : c + 1 + 1 + (c + 1 + 1) / 2 = c + c / 2 + 1 + 1 + 1 := by omega
        have later := ih (fun e member => small e (by simp [member])) c
        rw [entryOf_parity, place]
        simp only [List.getD_cons_succ]
        rw [later]
        by_cases inside : c < 2 * (rest.length / 2)
        · rw [if_pos inside, if_pos (by omega)]
        · rw [if_neg inside, if_neg (by omega)]
  | case2 l short =>
    have none' : (fat12Bytes l) = [] := by rw [fat12Bytes]; exact short
    have few : l.length / 2 = 0 := by
      have length := fat12Bytes_length l
      rw [none', List.length_nil] at length
      omega
    rw [none', few, if_neg (by omega), List.getD_nil, List.getD_nil]
    simp [entryOf]

end Table

section Image

variable {fs : List Packed}

theorem fat_length (fs : List Packed) : (fat fs).length = 512 * 9 := filled_length _ _

theorem root_length (fs : List Packed) : (root fs).length = 512 * 14 := filled_length _ _

theorem writeFats_inside {data : List Byte} (size : data.length = 512 * 9) {n copy : Nat}
    (first : copy < n) (disk : Nat → Byte) {o : Nat} (low : o < 512 * 9) :
    writeFats data n disk (512 * (1 + copy * 9) + o) = data.getD o 0 := by
  induction n with
  | zero => omega
  | succ n ih =>
    rw [writeFats]
    by_cases last : copy = n
    · subst last
      exact writeSector_inside _ _ _ (by omega)
    · rw [writeSector_outside _ _ _ (by simp only [reserved, fatSize]; omega)]
      exact ih (by omega)

theorem writeFats_outside {data : List Byte} (size : data.length = 512 * 9) (n : Nat)
    (disk : Nat → Byte) {a : Nat}
    (outside : a < 512 ∨ 512 * (1 + n * 9) ≤ a) : writeFats data n disk a = disk a := by
  induction n with
  | zero => rfl
  | succ n ih =>
    rw [writeFats, writeSector_outside _ _ _ (by simp only [reserved, fatSize]; omega)]
    exact ih (by omega)

theorem image_before {a : Nat} (low : a < 512 * 33) : image fs a =
    writeSector 19 (root fs) (writeFats (fat fs) 2 (writeSector 0 bpb fun _ => 0)) a :=
  writeData_outside (Nat.le_refl 2) _ (.inl low)

theorem image_bpb {o : Nat} (low : o < 512) : image fs o = bpb.getD o 0 := by
  have size : bpb.length = 512 := by
    simp only [bpb, List.length_append, List.length_replicate]
    rfl
  rw [image_before (by omega), writeSector_outside _ _ _ (by omega),
    writeFats_outside (fat_length fs) _ _ (by omega)]
  have written := writeSector_inside 0 bpb (fun _ => 0) (i := o) (by omega)
  rwa [Nat.mul_zero, Nat.zero_add] at written

theorem image_table {copy : Nat} (first : copy < 2) {o : Nat} (low : o < 512 * 9) :
    image fs (512 * (1 + copy * 9) + o) = (fat fs).getD o 0 := by
  rw [image_before (by omega), writeSector_outside _ _ _ (by omega)]
  exact writeFats_inside (fat_length fs) first _ low

theorem image_root {o : Nat} (low : o < 512 * 14) :
    image fs (512 * 19 + o) = (root fs).getD o 0 := by
  rw [image_before (by omega)]
  exact writeSector_inside 19 (root fs) _ (by rwa [root_length])

theorem image_data {k : Nat} {f : Packed} (here : fs[k]? = some f) {o : Nat}
    (low : o < f.data.length) :
    image fs (512 * (33 + before fs k) + o) = f.data.getD o 0 := by
  have written := writeData_inside here (Nat.le_refl 2)
    (writeSector 19 (root fs) (writeFats (fat fs) 2 (writeSector 0 bpb fun _ => 0))) low
  rwa [Nat.add_sub_cancel_left] at written

theorem image_mounts {faults : Faults} (reliable : Reliable faults) (vol : Volume) {s : Io}
    (disk : s.disk = image fs) : (fatMount (device faults) vol true s).1 = floppy := by
  obtain ⟨s', load, -, bytes⟩ :=
    loadSecbuf_good (s := s) (reliable.good (show 0 < diskSectors by decide))
  have boot : ∀ o < 512, s'.secbuf o = bpb.getD o 0 := by
    intro o low
    rw [bytes, disk, sectorOf, Nat.mul_zero, Nat.zero_add]
    exact image_bpb low
  simp only [fatMount, load, u16Of, boot 11 (by decide), boot (11 + 1) (by decide),
    boot 14 (by decide), boot (14 + 1) (by decide), boot 22 (by decide), boot (22 + 1) (by decide),
    boot 16 (by decide), boot 17 (by decide), boot (17 + 1) (by decide), boot 13 (by decide)]
  rfl

theorem fatEntries_length (fits : total fs ≤ nclusters) : (fatEntries fs).length = 2849 := by
  have count : nclusters = 2847 := by decide
  simp only [fatEntries, List.length_append, List.length_cons, List.length_replicate,
    fileEntries_length]
  omega

theorem mem_fileEntries {cluster e : Nat} (low : cluster + total fs ≤ 0xFF0)
    (member : e ∈ fileEntries cluster fs) :
    e < 4096 := by
  induction fs generalizing cluster with
  | nil => simp [fileEntries] at member
  | cons f fs ih =>
    rw [total_cons] at low
    rw [fileEntries, List.mem_append] at member
    rcases member with own | later
    · obtain ⟨i, inside, rfl⟩ := List.mem_map.mp own
      have below := List.mem_range.mp inside
      split <;> omega
    · exact ih (by omega) later

theorem entries_small (fits : total fs ≤ nclusters) : ∀ e ∈ fatEntries fs, e < 4096 := by
  have count : nclusters = 2847 := by decide
  intro e member
  simp only [fatEntries, List.mem_append, List.mem_cons, List.mem_replicate] at member
  rcases member with (rfl | rfl | own) | ⟨-, rfl⟩
  · decide
  · decide
  · exact mem_fileEntries (by omega) own
  · decide

theorem image_entry (fits : total fs ≤ nclusters) {copy : Nat} (first : copy < 2) {c : Nat}
    (low : c + c / 2 + 1 < 512 * 9) :
    fatEntry floppy (image fs) copy c = if c < 2848 then (fatEntries fs).getD c 0 else 0 := by
  have addr : fatAddr floppy copy c = 512 * (1 + copy * 9) + (c + c / 2) := rfl
  have packed := fat12Bytes_entry (fatEntries fs) (entries_small fits) c
  rw [fatEntries_length fits] at packed
  have stored : ∀ o, o < 512 * 9 →
      image fs (512 * (1 + copy * 9) + o) = (fat12Bytes (fatEntries fs)).getD o 0 := by
    intro o inside
    rw [image_table first inside]
    exact filled_getD _ inside
  rw [fatEntry, addr, Nat.add_assoc, stored _ (by omega), stored _ low]
  exact packed

theorem image_copies (fs : List Packed) : CopiesAgree floppy (image fs) := by
  intro o low
  have one : image fs (512 * (1 + 0 * 9) + o) = (fat fs).getD o 0 := image_table (by decide) low
  have two : image fs (512 * (1 + 1 * 9) + o) = (fat fs).getD o 0 := image_table (by decide) low
  exact one.trans two.symm

theorem fatEntries_file {k i : Nat} {f : Packed} (here : fs[k]? = some f)
    (inside : i < need f.data) :
    (fatEntries fs).getD (2 + before fs k + i) 0 =
      if i + 1 < need f.data then 2 + before fs k + i + 1 else 0xFFF := by
  have last := file_end here
  have place : 2 + before fs k + i = before fs k + i + 1 + 1 := by omega
  rw [fatEntries, List.getD_append _ _ _ _ (by simp only [List.length_cons, fileEntries_length]; omega), place,
    List.getD_cons_succ, List.getD_cons_succ, fileEntries_getD here 2 inside]
  congr 1
  omega

theorem fatEntries_free {c : Nat} (beyond : 2 + total fs ≤ c) : (fatEntries fs).getD c 0 = 0 := by
  have length : (0xFF0 :: 0xFFF :: fileEntries 2 fs).length = 2 + total fs := by
    simp only [List.length_cons, fileEntries_length]
    omega
  rw [fatEntries, getD_padded, List.getD_eq_default _ _ (by omega)]

theorem start_small {k : Nat} (fits : total fs ≤ nclusters) : 2 + before fs k < 0xFF0 := by
  have clusters : nclusters = 2847 := by decide
  have bound := before_le_total fs k
  omega

variable (long : ∀ f ∈ fs, f.name.length = 11) (count : fs.length ≤ rootEntries)
include long count

theorem image_dir {k j : Nat} {f : Packed} (here : fs[k]? = some f) (low : j < 32) :
    (view floppy (image fs)).dir k j = newEntry f.name (2 + before fs k) f.data.length j := by
  obtain ⟨bound, -⟩ := List.getElem?_eq_some_iff.mp here
  simp only [rootEntries] at count
  have slots : k < 16 * floppy.rootSectors := by
    simp only [floppy]
    omega
  have addr : slotAddr floppy k + j = 512 * 19 + (32 * k + j) := Nat.add_assoc ..
  refine (if_pos ⟨slots, low⟩).trans ?_
  rw [addr, image_root (by omega)]
  exact (filled_getD _ (show 32 * k + j < 512 * 14 by omega)).trans
    (dirEntries_getD long here 2 low)

omit count in
theorem image_dir_end {k : Nat} (beyond : fs.length ≤ k) (j : Nat) :
    (view floppy (image fs)).dir k j = 0 := by
  by_cases inside : k < 16 * floppy.rootSectors ∧ j < 32
  · have slots : k < 16 * 14 := inside.1
    have addr : slotAddr floppy k + j = 512 * 19 + (32 * k + j) := Nat.add_assoc ..
    refine (if_pos inside).trans ?_
    rw [addr, image_root (by omega)]
    refine (filled_getD _ (show 32 * k + j < 512 * 14 by omega)).trans (List.getD_eq_default _ _ ?_)
    rw [dirEntries_length long]
    omega
  · exact if_neg inside

theorem image_start {k : Nat} {f : Packed} (fits : total fs ≤ nclusters) (here : fs[k]? = some f) :
    (view floppy (image fs)).start k = 2 + before fs k := by
  have small := start_small (k := k) fits
  have start := newEntry_start f.name (2 + before fs k) f.data.length (by omega)
  rw [View.start, ← start, u16Of, u16Of, image_dir long count here (by decide),
    image_dir long count here (by decide)]

theorem image_size {k : Nat} {f : Packed} (fits : total fs ≤ nclusters) (here : fs[k]? = some f) :
    (view floppy (image fs)).size k = f.data.length := by
  have clusters : nclusters = 2847 := by decide
  have bound := file_end here
  have small : f.data.length < 2 ^ 32 := by
    simp only [need] at bound
    omega
  have size := newEntry_size f.name (2 + before fs k) f.data.length small
  rw [View.size, ← size, u32Of, u32Of, image_dir long count here (by decide),
    image_dir long count here (by decide),
    image_dir long count here (by decide), image_dir long count here (by decide)]

theorem image_name {k : Nat} {f : Packed} (here : fs[k]? = some f) :
    (view floppy (image fs)).name k = f.name := by
  have eleven := newEntry_name (2 + before fs k) f.data.length (long f (List.mem_of_getElem? here))
  rw [View.name, ← eleven]
  refine List.map_congr_left fun j member => ?_
  have low := List.mem_range.mp member
  exact image_dir long count here (by omega)

end Image

end Mkdata

end NovaKernel

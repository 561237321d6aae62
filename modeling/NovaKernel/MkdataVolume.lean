import NovaKernel.MkdataFormat

set_option autoImplicit false

namespace NovaKernel

open Linked

namespace Mkdata

structure Fits (fs : List Packed) : Prop where
  ordinary : ∀ f ∈ fs, Ordinary f.name
  alive : ∀ f ∈ fs, f.name.getD 0 0 ≠ 0xE5
  distinct : (fs.map Packed.name).Nodup
  count : fs.length ≤ rootEntries
  clusters : total fs ≤ nclusters

def Owns (disk : Nat → Byte) (k c : Nat) : Prop := Reached disk ((view floppy disk).start k) c

section Volume

variable {fs : List Packed} (fits : Fits fs)

def run (fs : List Packed) (k : Nat) : List Nat :=
  List.range' (2 + before fs k) (before fs (k + 1) - before fs k)

theorem run_eq {k : Nat} {f : Packed} (here : fs[k]? = some f) :
    run fs k = List.range' (2 + before fs k) (need f.data) := by
  rw [run, before_succ here, Nat.add_sub_cancel_left]

theorem mem_run {k c : Nat} {f : Packed} (here : fs[k]? = some f) :
    c ∈ run fs k ↔ 2 + before fs k ≤ c ∧ c < 2 + before fs k + need f.data := by
  rw [run_eq here, List.mem_range'_1]

theorem run_disjoint {k l : Nat} {f g : Packed} (here : fs[k]? = some f) (there : fs[l]? = some g)
    (other : k ≠ l) :
    (run fs k).Disjoint (run fs l) := by
  intro c member member'
  rw [mem_run here] at member
  rw [mem_run there] at member'
  rcases Nat.lt_or_gt_of_ne other with first | first
  · have apart : before fs (k + 1) ≤ before fs l := before_mono first
    rw [before_succ here] at apart
    omega
  · have apart : before fs (l + 1) ≤ before fs k := before_mono first
    rw [before_succ there] at apart
    omega

theorem floppy_cluster {c : Nat} : Cluster floppy c ↔ 2 ≤ c ∧ c < 2849 := by
  have count : dataClustersMax floppy = 2847 := by decide
  rw [Cluster, count]

include fits

theorem Fits.long : ∀ f ∈ fs, f.name.length = 11 := fun f member => (fits.ordinary f member).1

theorem Fits.link {k i : Nat} {f : Packed} (here : fs[k]? = some f) (inside : i < need f.data)
    (packed : 2 + before fs k + i < 2848) : fatEntry floppy (image fs) 0 (2 + before fs k + i) =
      if i + 1 < need f.data then 2 + before fs k + i + 1 else 0xFFF := by
  rw [image_entry fits.clusters (by decide) (by omega), if_pos packed, fatEntries_file here inside]

theorem Fits.reach {k : Nat} {f : Packed} (here : fs[k]? = some f) (d i : Nat)
    (inside : i + d < need f.data) :
    Reached (image fs) (2 + before fs k + i) (2 + before fs k + i + d) := by
  have clusters : nclusters = 2847 := by decide
  have bound := file_end here
  have fit := fits.clusters
  have linking : Linking (2 + before fs k + i) := ⟨by omega, by omega⟩
  induction d generalizing i with
  | zero => exact .here linking
  | succ d ih =>
    refine .next linking ?_
    rw [fits.link here (by omega) (by omega), if_pos (by omega)]
    have later := ih (i + 1) (by omega) ⟨by omega, by omega⟩
    have place : 2 + before fs k + (i + 1) = 2 + before fs k + i + 1 := rfl
    have place' : 2 + before fs k + (i + 1) + d = 2 + before fs k + i + (d + 1) := by omega
    rwa [place', place] at later

theorem Fits.owns {k : Nat} {f : Packed} (here : fs[k]? = some f) {i : Nat}
    (inside : i < need f.data) :
    Owns (image fs) k (2 + before fs k + i) := by
  rw [Owns, image_start fits.long fits.count fits.clusters here]
  have reach := fits.reach here i 0 (by omega)
  rwa [Nat.add_zero] at reach

theorem Fits.live {k : Nat} {f : Packed} (here : fs[k]? = some f) :
    (view floppy (image fs)).live k = true := by
  have member := List.mem_of_getElem? here
  have first : newEntry f.name (2 + before fs k) f.data.length 0 = f.name.getD 0 0 := rfl
  have attr : newEntry f.name (2 + before fs k) f.data.length 11 = 0x20 := rfl
  have nonempty : 0 < f.name.length := by
    rw [fits.long f member]
    decide
  rw [View.live_iff, image_dir fits.long fits.count here (by decide),
    image_dir fits.long fits.count here (by decide), first, attr]
  refine ⟨?_, fits.alive f member, by decide⟩
  rw [List.getD_eq_getElem _ _ nonempty]
  exact ((fits.ordinary f member).2.1 _ (List.getElem_mem nonempty)).1

theorem Fits.slot {k : Nat} (live : (view floppy (image fs)).live k = true) :
    ∃ f, fs[k]? = some f := by
  by_contra none'
  have beyond : fs.length ≤ k := by
    by_contra inside
    exact none' ⟨_, List.getElem?_eq_getElem (Nat.lt_of_not_le inside)⟩
  exact View.live_of_dead (.inl (image_dir_end fits.long beyond 0)) live

variable (some' : ∀ f ∈ fs, f.data ≠ []) (spare : total fs < nclusters)

omit fits in
theorem need_pos {data : List Byte} (some' : data ≠ []) : 0 < need data := by
  have positive := List.length_pos_iff.mpr some'
  simp only [need]
  omega

include spare in
theorem Fits.chain {k : Nat} {f : Packed} (here : fs[k]? = some f) (m i : Nat)
    (rest : i + (m + 1) = need f.data) :
    FatChain floppy (view floppy (image fs)) (2 + before fs k + i)
      (List.range' (2 + before fs k + i) (m + 1)) := by
  have clusters : nclusters = 2847 := by decide
  have bound := file_end here
  have cluster : Cluster floppy (2 + before fs k + i) := floppy_cluster.mpr ⟨by omega, by omega⟩
  have link : (view floppy (image fs)).link (2 + before fs k + i) =
      if i + 1 < need f.data then 2 + before fs k + i + 1 else 0xFFF :=
    (if_pos cluster).trans (fits.link here (by omega) (by omega))
  induction m generalizing i with
  | zero =>
    refine .cons cluster (.nil ?_)
    rw [link, if_neg (by omega)]
    decide
  | succ m ih =>
    rw [List.range'_succ]
    refine .cons cluster ?_
    rw [link, if_pos (by omega)]
    have next : Cluster floppy (2 + before fs k + (i + 1)) :=
      floppy_cluster.mpr ⟨by omega, by omega⟩
    exact ih (i + 1) (by omega) next ((if_pos next).trans (fits.link here (by omega) (by omega)))

include some' spare in
theorem Fits.fileChain {k : Nat} {f : Packed} (here : fs[k]? = some f) :
    FatChain floppy (view floppy (image fs)) (2 + before fs k) (run fs k) ∧ 0 < need f.data := by
  have positive := need_pos (some' f (List.mem_of_getElem? here))
  obtain ⟨m, more⟩ : ∃ m, need f.data = m + 1 := ⟨need f.data - 1, by omega⟩
  have chain := fits.chain spare here m 0 (by omega)
  rw [Nat.add_zero, ← more, ← run_eq here] at chain
  exact ⟨chain, positive⟩

include some' spare in
theorem Fits.layout : Layout floppy (view floppy (image fs)) fs.length (run fs) := by
  have clusters : nclusters = 2847 := by decide
  constructor
  case bounded => exact fits.count
  case before =>
    intro k inside
    exact (View.live_iff.mp (fits.live (List.getElem?_eq_getElem inside))).1
  case after => exact fun k beyond j => image_dir_end fits.long beyond j
  case distinct =>
    intro k l live live' same
    obtain ⟨f, here⟩ := fits.slot live
    obtain ⟨g, there⟩ := fits.slot live'
    rw [image_name fits.long fits.count here, image_name fits.long fits.count there] at same
    have inside : k < (fs.map Packed.name).length := by
      rw [List.length_map]
      exact (List.getElem?_eq_some_iff.mp here).1
    refine (List.getElem?_inj inside fits.distinct).mp ?_
    rw [List.getElem?_map, List.getElem?_map, here, there, Option.map_some, Option.map_some, same]
  case chains =>
    intro k live
    obtain ⟨f, here⟩ := fits.slot live
    obtain ⟨chain, positive⟩ := fits.fileChain some' spare here
    rw [image_start fits.long fits.count fits.clusters here]
    rw [run_eq here] at chain ⊢
    obtain ⟨m, more⟩ : ∃ m, need f.data = m + 1 := ⟨need f.data - 1, by omega⟩
    rw [more, List.range'_succ] at chain ⊢
    exact .chain chain
  case sizes =>
    intro k live
    obtain ⟨f, here⟩ := fits.slot live
    rw [image_size fits.long fits.count fits.clusters here, run_eq here, List.length_range']
    rfl
  case disjoint =>
    intro k l live live' other
    obtain ⟨f, here⟩ := fits.slot live
    obtain ⟨g, there⟩ := fits.slot live'
    exact run_disjoint here there other
  case covered =>
    intro c inside used
    have bounds := floppy_cluster.mp inside
    have link : (view floppy (image fs)).link c =
        if c < 2848 then (fatEntries fs).getD c 0 else 0 :=
      (if_pos inside).trans (image_entry fits.clusters (by decide) (by omega))
    rw [link] at used
    have low : c < 2 + total fs := by
      by_contra beyond
      rw [fatEntries_free (Nat.le_of_not_lt beyond), ite_self] at used
      exact used rfl
    obtain ⟨k, f, i, here, own, place⟩ := exists_file (show c - 2 < total fs by omega)
    exact ⟨k, fits.live here, (mem_run here).mpr ⟨by omega, by omega⟩⟩

omit fits in
theorem contents_run {vol : Volume} (positive : 0 < vol.spc) (v : View) (c n : Nat) :
    v.contents vol (List.range' c n) =
      (List.range (512 * vol.spc * n)).map fun o => v.data (c + o / (512 * vol.spc)) (o % (512 * vol.spc)) := by
  induction n generalizing c with
  | zero => rfl
  | succ n ih =>
    rw [List.range'_succ, View.contents_cons, ih]
    have size : 0 < 512 * vol.spc := by omega
    generalize 512 * vol.spc = b at size
    rw [Nat.mul_succ, Nat.add_comm (b * n), List.range_add, List.map_append, List.map_map]
    refine congrArg₂ (· ++ ·) (List.map_congr_left fun j member => ?_)
      (List.map_congr_left fun j _ => ?_)
    · have low := List.mem_range.mp member
      rw [Nat.div_eq_of_lt low, Nat.mod_eq_of_lt low, Nat.add_zero]
    · rw [Function.comp_apply, Nat.add_div_left j size, Nat.add_mod_left, Nat.add_assoc,
        Nat.add_comm 1]

theorem Fits.file {k : Nat} {f : Packed} (here : fs[k]? = some f) :
    (view floppy (image fs)).file floppy k (run fs k) = f.data := by
  have clusters : nclusters = 2847 := by decide
  have bound := file_end here
  have fit := fits.clusters
  have spc : 512 * floppy.spc = 512 := rfl
  have size : f.data.length ≤ 512 * need f.data := by
    simp only [need]
    omega
  rw [View.file, image_size fits.long fits.count fits.clusters here, run_eq here,
    contents_run (by decide), spc, ← List.map_take,
    List.take_range, Nat.min_eq_left size]
  refine List.ext_getElem (by rw [List.length_map, List.length_range]) fun o low inside => ?_
  have cluster : Cluster floppy (2 + before fs k + o / 512) := by
    simp only [need] at bound
    exact floppy_cluster.mpr ⟨by omega, by omega⟩
  have addr : dataAddr floppy (2 + before fs k + o / 512) + o % 512 =
      512 * (33 + before fs k) + o := by
    simp only [dataAddr, floppy]
    omega
  rw [List.getElem_map, List.getElem_range]
  refine (if_pos ⟨cluster, Nat.mod_lt o (by decide)⟩).trans ?_
  rw [addr, image_data here inside, List.getD_eq_getElem _ _ inside]

end Volume

/-- The driver mounts the disk and reads every file from it, and the disk is in order for
`fat_write`. -/
structure Agrees (fs : List Packed) (disk : Nat → Byte) : Prop where
  mounts : ∀ (faults : Faults) (vol : Volume) (s : Io), Reliable faults → s.disk = disk →
    (fatMount (device faults) vol true s).1 = floppy
  named : ∀ f ∈ fs, ∃ name, CString name ∧ normName name = f.name
  reads : ∀ f ∈ fs, ∀ (faults : Faults) (name : List Byte) (max : Nat) (s : Io), Reliable faults →
    normName name = f.name → f.data.length ≤ max → s.disk = disk →
      (fatRead (device faults) floppy name max s).1 = some (f.data.length, f.data)
  copies : CopiesAgree floppy disk
  disjoint : ∀ k l, k < fs.length → l < fs.length → k ≠ l → ∀ c, Owns disk k c → ¬ Owns disk l c
  empty : ∀ (k : Nat) (f : Packed), fs[k]? = some f → f.data = [] → ∀ c, ¬ Owns disk k c
  used : ∀ k < fs.length, ∀ c, Owns disk k c → ∀ (faults : Faults) (s : Io), Reliable faults →
    s.disk = disk →
    (fatNextCluster (device faults) floppy c s).1 ≠ 0

section Agreement

variable {fs : List Packed} (fits : Fits fs)
include fits

theorem Fits.agrees (some' : ∀ f ∈ fs, f.data ≠ []) (spare : total fs < nclusters) :
    Agrees fs (image fs) := by
  have layout := fits.layout some' spare
  have owned : ∀ k < fs.length, ∃ f, fs[k]? = some f ∧ ∀ c, Owns (image fs) k c ↔ c ∈ run fs k := by
    intro k inside
    have here := List.getElem?_eq_getElem inside
    have chain : Chain (fatEntry floppy (image fs) 0) (Cluster floppy) (0xFF0 ≤ ·) (2 + before fs k) (run fs k) :=
      (fits.fileChain some' spare here).1.congr fun c member => by
        have cluster := (fits.fileChain some' spare here).1.nodes c member
        exact (if_pos cluster).symm
    refine ⟨_, here, fun c => ?_⟩
    rw [Owns, image_start fits.long fits.count fits.clusters here]
    exact chain.reach_iff (fun a cluster => ⟨cluster.1, by have := floppy_cluster.mp cluster; omega⟩)
      fun a halted linking => absurd linking.2 (Nat.not_lt.mpr halted)
  refine ⟨fun faults vol s reliable disk => image_mounts reliable vol disk, fun f member =>
    ordinary_iff.mpr (fits.ordinary f member), ?_, image_copies fs, ?_, ?_, ?_⟩
  · intro f member faults name max s reliable named enough disk
    obtain ⟨k, here⟩ := List.getElem?_of_mem member
    rw [← disk] at layout
    have live := fits.live here
    have name' := image_name fits.long fits.count here
    rw [← disk] at live name'
    obtain ⟨s', read, -⟩ :=
      fatRead_found floppy_geometry reliable layout live (name'.trans named.symm) max
    rw [read, disk, image_size fits.long fits.count fits.clusters here, fits.file here,
      Nat.min_eq_left enough, List.take_of_length_le enough]
  · intro k l inside inside' other c own own'
    obtain ⟨f, here, clusters⟩ := owned k inside
    obtain ⟨g, there, clusters'⟩ := owned l inside'
    exact run_disjoint here there other ((clusters c).mp own) ((clusters' c).mp own')
  · intro k f here none'
    exact absurd none' (some' f (List.mem_of_getElem? here))
  · intro k inside c own faults s reliable disk
    obtain ⟨f, here, clusters⟩ := owned k inside
    have chain := (fits.fileChain some' spare here).1
    have member := (clusters c).mp own
    have cluster := floppy_cluster.mp (chain.inside member)
    have entry := fatGet_entry reliable
      (show floppy.fatLba + floppy.fatSectors < diskSectors by decide)
      (show InCopy floppy c by simp only [InCopy, floppy]; omega) s
    rw [disk] at entry
    have used := chain.link_ne member
    rw [show (view floppy (image fs)).link c = fatEntry floppy (image fs) 0 c from if_pos (chain.inside member),
      ← entry] at used
    exact used

theorem Fits.nonempty (agrees : Agrees fs (image fs)) : ∀ f ∈ fs, f.data ≠ [] := by
  intro f member none'
  obtain ⟨k, here⟩ := List.getElem?_of_mem member
  refine agrees.empty k f here none' (2 + before fs k) ?_
  rw [Owns, image_start fits.long fits.count fits.clusters here]
  exact .here ⟨Nat.le_add_right 2 _, start_small fits.clusters⟩

theorem Fits.spare (agrees : Agrees fs (image fs)) : total fs < nclusters := by
  have clusters : nclusters = 2847 := by decide
  have fit := fits.clusters
  by_contra full
  obtain ⟨k, f, i, here, inside, place⟩ := exists_file (show 2846 < total fs by omega)
  have own := fits.owns here inside
  have last : 2 + before fs k + i = 2848 := by omega
  rw [last] at own
  have entry := fatGet_entry noFaults_reliable
    (show floppy.fatLba + floppy.fatSectors < diskSectors by decide)
    (show InCopy floppy 2848 by decide) { blankIo with disk := image fs }
  have dropped :=
    image_entry fits.clusters (show 0 < 2 by decide) (show 2848 + 2848 / 2 + 1 < 512 * 9 by decide)
  rw [if_neg (by decide)] at dropped
  exact agrees.used k (List.getElem?_eq_some_iff.mp here).1 2848 own noFaults { blankIo with disk := image fs }
    noFaults_reliable rfl (entry.trans dropped)

theorem Fits.agrees_iff : Agrees fs (image fs) ↔ (∀ f ∈ fs, f.data ≠ []) ∧ total fs < nclusters :=
  ⟨fun agrees => ⟨fits.nonempty agrees, fits.spare agrees⟩, fun good => fits.agrees good.1 good.2⟩

end Agreement

def NameByte (c : Byte) : Prop := c ≠ 0 ∧ upcase c = c ∧ c ≠ 0xE5

instance (c : Byte) : Decidable (NameByte c) :=
  inferInstanceAs (Decidable (c ≠ 0 ∧ upcase c = c ∧ c ≠ 0xE5))

theorem nameByte_packedCase : ∀ c : Byte, c ≠ 0 → c.toNat < 128 → NameByte (packedCase c) := by decide

theorem mem_splitOn {a : Byte} {l part : List Byte} (member : part ∈ l.splitOn a) :
    a ∉ part ∧ ∀ c ∈ part, c ∈ l := by
  induction l generalizing part with
  | nil =>
    rw [List.splitOn_nil, List.mem_singleton] at member
    simp [member]
  | cons x l ih =>
    rw [List.splitOn_cons_eq_if_modifyHead] at member
    split at member
    · rcases List.mem_cons.mp member with rfl | later
      · simp
      · exact ⟨(ih later).1, fun c inside => List.mem_cons_of_mem x ((ih later).2 c inside)⟩
    · next other =>
      cases parts : l.splitOn a with
      | nil => exact absurd parts (List.splitOn_ne_nil a l)
      | cons first rest =>
        rw [parts, List.modifyHead_cons] at member
        rcases List.mem_cons.mp member with rfl | later
        · obtain ⟨without, within⟩ :=
            ih (show first ∈ l.splitOn a by rw [parts]; exact List.mem_cons_self ..)
          have differs : a ≠ x := fun same => other (by simp [same])
          refine ⟨by simp [differs, without], fun c inside => ?_⟩
          rcases List.mem_cons.mp inside with rfl | inside
          · exact List.mem_cons_self ..
          · exact List.mem_cons_of_mem x (within c inside)
        · obtain ⟨without, within⟩ :=
            ih (show part ∈ l.splitOn a by rw [parts]; exact List.mem_cons_of_mem first later)
          exact ⟨without, fun c inside => List.mem_cons_of_mem x (within c inside)⟩

theorem splitOn_getD {a : Byte} (l : List Byte) (i : Nat) :
    a ∉ (l.splitOn a).getD i [] ∧ ∀ c ∈ (l.splitOn a).getD i [], c ∈ l := by
  by_cases inside : i < (l.splitOn a).length
  · rw [List.getD_eq_getElem _ _ inside]
    exact mem_splitOn (List.getElem_mem inside)
  · rw [List.getD_eq_default _ _ (Nat.le_of_not_lt inside)]
    simp

theorem packedBase_mem {part : List Byte} {c : Byte} (member : c ∈ packedBase part) :
    c ∈ part ∨ c = 0x20 := by
  rcases List.mem_append.mp (List.mem_of_mem_take member) with own | pad
  · exact .inl (List.mem_of_mem_take own)
  · exact .inr (List.eq_of_mem_replicate pad)

theorem packedExt_mem {part : List Byte} {c : Byte} (member : c ∈ packedExt part) :
    c ∈ part ∨ c = 0x20 := by
  rcases List.mem_append.mp (List.mem_of_mem_take member) with own | pad
  · exact .inl (List.mem_of_mem_take own)
  · exact .inr (List.eq_of_mem_replicate pad)

theorem packedName_parts (path : List Byte) : ∃ base ext, packedName path = packedBase base ++ ext ∧
    0x2E ∉ base ∧ ext.length = 3 ∧ (∀ c ∈ base, c ∈ (baseName path).map packedCase) ∧
      ∀ c ∈ ext, c ∈ (baseName path).map packedCase ∨ NameByte c := by
  rw [packedName]
  split
  · next dotted =>
    obtain ⟨without, within⟩ := splitOn_getD (a := 0x2E) ((baseName path).map packedCase) 0
    obtain ⟨-, within'⟩ := splitOn_getD (a := 0x2E) ((baseName path).map packedCase) 1
    refine ⟨_, _, rfl, without, ?_, within, fun c member => ?_⟩
    · rw [packedExt, List.length_take, List.length_append, List.length_replicate]
      omega
    · rcases packedExt_mem member with own | rfl
      · exact .inl (within' c own)
      · exact .inr (by decide)
  · next undotted =>
    refine ⟨_, _, rfl, undotted, rfl, fun c member => member, fun c member => .inr ?_⟩
    revert c
    decide

theorem packedName_ordinary {path : List Byte} (ascii : ∀ c ∈ baseName path, c ≠ 0 ∧ c.toNat < 128)
    (long : (packedName path).length = 11) : Ordinary (packedName path) ∧
    ∀ c ∈ packedName path, NameByte c := by
  obtain ⟨base, ext, name, without, three, within, within'⟩ := packedName_parts path
  have cased : ∀ c ∈ (baseName path).map packedCase, NameByte c := by
    intro c member
    obtain ⟨d, inside, rfl⟩ := List.mem_map.mp member
    exact nameByte_packedCase d (ascii d inside).1 (ascii d inside).2
  have bytes : ∀ c ∈ packedName path, NameByte c := by
    rw [name]
    intro c member
    rcases List.mem_append.mp member with first | last
    · rcases packedBase_mem first with own | rfl
      · exact cased c (within c own)
      · decide
    · rcases within' c last with own | fine
      · exact cased c own
      · exact fine
  refine ⟨⟨long, fun c member => ⟨(bytes c member).1, (bytes c member).2.1⟩, fun dot => ?_⟩, bytes⟩
  rw [name, List.length_append, three] at long
  rw [name, List.take_append_of_le_length (by omega)] at dot
  rcases packedBase_mem (List.mem_of_mem_take dot) with own | space
  · exact without own
  · exact absurd space (by decide)

/-- What the builder is run on: paths whose stored names are different and have eleven bytes, and files that
the data area and the root directory have room for. -/
structure Input (elf : List Byte) (extra : List (List Byte × List Byte)) : Prop where
  plain : ∀ p ∈ extra, ∀ c ∈ baseName p.1, c ≠ 0 ∧ c.toNat < 128
  eleven : ∀ p ∈ extra, (packedName p.1).length = 11
  distinct : ((files elf extra).map Packed.name).Nodup
  count : (files elf extra).length ≤ rootEntries
  clusters : total (files elf extra) ≤ nclusters

theorem fixed_names : ∀ name ∈ [ascii "HELLO   ELF", ascii "HELLO   TXT", ascii "README  TXT"],
    name.length = 11 ∧ (∀ c ∈ name, NameByte c) ∧ 0x2E ∉ name.take 8 := by decide

theorem Input.fits {elf : List Byte} {extra : List (List Byte × List Byte)}
    (input : Input elf extra) :
    Fits (files elf extra) := by
  have names : ∀ f ∈ files elf extra, Ordinary f.name ∧ ∀ c ∈ f.name, NameByte c := by
    have fixed : ∀ name ∈ [ascii "HELLO   ELF", ascii "HELLO   TXT", ascii "README  TXT"],
        Ordinary name ∧ ∀ c ∈ name, NameByte c := by
      intro name member
      obtain ⟨long, bytes, noDot⟩ := fixed_names name member
      exact ⟨⟨long, fun c inside => ⟨(bytes c inside).1, (bytes c inside).2.1⟩, noDot⟩, bytes⟩
    intro f member
    simp only [files, List.mem_cons, List.mem_map] at member
    rcases member with rfl | rfl | rfl | ⟨p, inside, rfl⟩
    · exact fixed _ (by simp)
    · exact fixed _ (by simp)
    · exact fixed _ (by simp)
    · exact packedName_ordinary (input.plain p inside) (input.eleven p inside)
  refine ⟨fun f member => (names f member).1, fun f member => ?_, input.distinct, input.count,
    input.clusters⟩
  have nonempty : 0 < f.name.length := by
    rw [(names f member).1.1]
    decide
  rw [List.getD_eq_getElem _ _ nonempty]
  exact ((names f member).2 _ (List.getElem_mem nonempty)).2.2

theorem files_nonempty (elf : List Byte) (extra : List (List Byte × List Byte)) :
    (∀ f ∈ files elf extra, f.data ≠ []) ↔ elf ≠ [] ∧ ∀ p ∈ extra, p.2 ≠ [] := by
  have hello : helloTxt ≠ [] := by decide
  have readme : readmeTxt ≠ [] := by decide
  constructor
  · intro all
    refine ⟨all ⟨_, elf⟩ (List.mem_cons_self ..), fun p member => all ⟨packedName p.1, p.2⟩ ?_⟩
    simp only [files, List.mem_cons]
    exact .inr (.inr (.inr (List.mem_map_of_mem member)))
  · rintro ⟨program, others⟩ f member
    simp only [files, List.mem_cons, List.mem_map] at member
    rcases member with rfl | rfl | rfl | ⟨p, inside, rfl⟩
    · exact program
    · exact hello
    · exact readme
    · exact others p inside

/-- The driver and `fat_write` get from the image what the builder put there exactly when no file is empty and a
cluster is left. -/
theorem image_agrees_iff {elf : List Byte} {extra : List (List Byte × List Byte)}
    (input : Input elf extra) :
    Agrees (files elf extra) (image (files elf extra)) ↔
      (elf ≠ [] ∧ ∀ p ∈ extra, p.2 ≠ []) ∧ total (files elf extra) < nclusters := by
  rw [input.fits.agrees_iff, files_nonempty]

theorem input_program (elf : List Byte) (short : elf.length ≤ 512) : Input elf [] where
  plain _ member := absurd member List.not_mem_nil
  eleven _ member := absurd member List.not_mem_nil
  distinct := by
    simp only [files, List.map_cons, List.map_nil]
    decide
  count := by
    simp only [files, List.map_nil, List.length_cons, List.length_nil]
    decide
  clusters := by
    have clusters : nclusters = 2847 := by decide
    have texts : need helloTxt + need readmeTxt = 2 := by decide
    have none' : total [] = 0 := rfl
    have program : need elf ≤ 1 := by
      simp only [need]
      omega
    simp only [files, List.map_nil, total_cons]
    omega

theorem image_agrees_program : Agrees (files [0x7F] []) (image (files [0x7F] [])) := by
  refine (image_agrees_iff (input_program [0x7F] (by decide))).mpr ⟨⟨by decide, ?_⟩, by decide⟩
  exact fun p member => absurd member List.not_mem_nil

/-- An empty program shares its start with the first text. -/
theorem image_disagrees : ¬ ∀ (elf : List Byte) (extra : List (List Byte × List Byte)), Input elf extra →
    Agrees (files elf extra) (image (files elf extra)) := by
  intro all
  have input := input_program [] (by decide)
  exact input.fits.nonempty (all [] [] input) ⟨ascii "HELLO   ELF", []⟩ (List.mem_cons_self ..) rfl

end Mkdata

end NovaKernel

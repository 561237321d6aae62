import NovaKernel.FatEntry

set_option autoImplicit false

namespace NovaKernel

-- An access to the sector may fail.
def Bad (faults : Faults) (lba : Nat) : Prop :=
  diskSectors ≤ lba ∨ ∃ n w, faults n w lba = true

def Reliable (faults : Faults) : Prop := ∀ n w lba, faults n w lba = false

theorem Reliable.good {faults : Faults} (reliable : Reliable faults) {lba : Nat}
    (bounded : lba < diskSectors) : ¬ Bad faults lba := by
  rintro (beyond | ⟨n, w, failed⟩)
  · omega
  · rw [reliable n w lba] at failed
    cases failed

section Accesses

variable {faults : Faults} {lba : Nat} {s : Io}

theorem fault_bad {n : Nat} {w : Bool}
    (failed : (faults n w lba || decide (diskSectors ≤ lba)) = true) :
    Bad faults lba := by
  rcases Bool.or_eq_true_iff.mp failed with fault | beyond
  · exact .inr ⟨n, w, fault⟩
  · exact .inl (of_decide_eq_true beyond)

theorem readSector_cases (faults : Faults) (lba : Nat) (s : Io) :
    (∃ s', (device faults).readSector lba s = (none, s') ∧ s'.disk = s.disk ∧ Bad faults lba) ∨
      ∃ s', (device faults).readSector lba s = (some (sectorOf s.disk lba), s') ∧
        s'.disk = s.disk := by
  by_cases failed : (faults s.accesses false lba || decide (diskSectors ≤ lba)) = true
  · refine .inl ⟨{ s with accesses := s.accesses + 1 }, ?_, rfl, fault_bad failed⟩
    simp only [device, if_pos failed]
  · refine .inr ⟨{ s with accesses := s.accesses + 1 }, ?_, rfl⟩
    simp only [device, if_neg failed]

theorem loadSecbuf_cases (faults : Faults) (lba : Nat) (s : Io) :
    (∃ s', loadSecbuf (device faults) lba s = (false, s') ∧ s'.disk = s.disk ∧ Bad faults lba) ∨
      ∃ s', loadSecbuf (device faults) lba s = (true, s') ∧ s'.disk = s.disk ∧
        s'.secbuf = sectorOf s.disk lba := by
  rcases readSector_cases faults lba s with ⟨s', failed, disk, bad⟩ | ⟨s', done, disk⟩
  · refine .inl ⟨s', ?_, disk, bad⟩
    simp only [loadSecbuf, failed]
  · refine .inr ⟨{ s' with secbuf := sectorOf s.disk lba }, ?_, disk, rfl⟩
    simp only [loadSecbuf, done]

theorem storeSecbuf_cases (faults : Faults) (lba : Nat) (s : Io) :
    (∃ s', storeSecbuf (device faults) lba s = (false, s') ∧ s'.disk = s.disk ∧ Bad faults lba) ∨
      ∃ s', storeSecbuf (device faults) lba s = (true, s') ∧
        s'.disk = putSector s.disk lba s.secbuf ∧
        lba < diskSectors := by
  by_cases failed : (faults s.accesses true lba || decide (diskSectors ≤ lba)) = true
  · refine .inl ⟨{ s with accesses := s.accesses + 1 }, ?_, rfl, fault_bad failed⟩
    simp only [storeSecbuf, device, if_pos failed]
  · refine .inr ⟨{ s with disk := putSector s.disk lba s.secbuf, accesses := s.accesses + 1 }, ?_, rfl, ?_⟩
    · simp only [storeSecbuf, device, if_neg failed]
    · simp only [Bool.not_eq_true, Bool.or_eq_false_iff, decide_eq_false_iff_not] at failed
      exact Nat.lt_of_not_le failed.2

theorem loadSecbuf_good (good : ¬ Bad faults lba) :
    ∃ s', loadSecbuf (device faults) lba s = (true, s') ∧ s'.disk = s.disk ∧
      s'.secbuf = sectorOf s.disk lba := by
  rcases loadSecbuf_cases faults lba s with ⟨s', -, -, bad⟩ | loaded
  · exact absurd bad good
  · exact loaded

theorem storeSecbuf_good (good : ¬ Bad faults lba) :
    ∃ s', storeSecbuf (device faults) lba s = (true, s') ∧
      s'.disk = putSector s.disk lba s.secbuf := by
  rcases storeSecbuf_cases faults lba s with ⟨s', -, -, bad⟩ | ⟨s', stored, disk, -⟩
  · exact absurd bad good
  · exact ⟨s', stored, disk⟩

theorem putSector_sectorOf (disk : Nat → Byte) (lba : Nat) :
    putSector disk lba (sectorOf disk lba) = disk := by
  funext a
  by_cases here : a / 512 = lba
  · have whole : 512 * lba + a % 512 = a := by omega
    rw [putSector, if_pos here, sectorOf, whole]
  · rw [putSector, if_neg here]

theorem putSector_update (disk : Nat → Byte) (lba : Nat) (buf : Sector) {off : Nat}
    (inside : off < 512) (b : Byte) :
    putSector disk lba (Function.update buf off b) =
      Function.update (putSector disk lba buf) (512 * lba + off) b := by
  funext a
  by_cases place : a = 512 * lba + off
  · have here : a / 512 = lba := by omega
    have offset : a % 512 = off := by omega
    rw [putSector, if_pos here, offset, place, Function.update_self, Function.update_self]
  · rw [Function.update_of_ne place, putSector, putSector]
    by_cases here : a / 512 = lba
    · have other : a % 512 ≠ off := by omega
      rw [if_pos here, if_pos here, Function.update_of_ne other]
    · rw [if_neg here, if_neg here]

end Accesses

/-- A 2880-sector volume with two FAT copies that are large enough for the data clusters. -/
structure Geometry (vol : Volume) : Prop where
  mounted : vol.mounted = true
  spc : 0 < vol.spc ∧ vol.spc < 256
  root : vol.rootLba = vol.fatLba + 2 * vol.fatSectors
  area : vol.dataLba = vol.rootLba + vol.rootSectors
  volume : vol.dataLba ≤ diskSectors
  table : (dataClustersMax vol + 1) + (dataClustersMax vol + 1) / 2 + 1 < 512 * vol.fatSectors

def Cluster (vol : Volume) (c : Nat) : Prop := 2 ≤ c ∧ c < dataClustersMax vol + 2

instance (vol : Volume) (c : Nat) : Decidable (Cluster vol c) :=
  inferInstanceAs (Decidable (2 ≤ c ∧ c < dataClustersMax vol + 2))

def fatAddr (vol : Volume) (copy cluster : Nat) : Nat :=
  512 * (vol.fatLba + copy * vol.fatSectors) + (cluster + cluster / 2)

def slotAddr (vol : Volume) (k : Nat) : Nat := 512 * vol.rootLba + 32 * k

def dataAddr (vol : Volume) (cluster : Nat) : Nat := 512 * (vol.dataLba + (cluster - 2) * vol.spc)

def fatEntry (vol : Volume) (disk : Nat → Byte) (copy cluster : Nat) : Nat :=
  entryOf cluster (disk (fatAddr vol copy cluster)) (disk (fatAddr vol copy cluster + 1))

def CopiesAgree (vol : Volume) (disk : Nat → Byte) : Prop :=
  ∀ o < 512 * vol.fatSectors,
    disk (512 * vol.fatLba + o) = disk (512 * (vol.fatLba + vol.fatSectors) + o)

/-- What the driver sees of a disk: the links of the first FAT, the directory entries and the
contents of the clusters. -/
@[ext] structure View where
  link : Nat → Nat
  dir : Nat → Nat → Byte
  data : Nat → Nat → Byte

def view (vol : Volume) (disk : Nat → Byte) : View where
  link c := if Cluster vol c then fatEntry vol disk 0 c else 0
  dir k j := if k < 16 * vol.rootSectors ∧ j < 32 then disk (slotAddr vol k + j) else 0
  data c j := if Cluster vol c ∧ j < 512 * vol.spc then disk (dataAddr vol c + j) else 0

namespace View

def setLink (v : View) (c x : Nat) : View := { v with link := Function.update v.link c x }

@[simp] theorem setLink_dir (v : View) (c x : Nat) : (v.setLink c x).dir = v.dir := rfl
@[simp] theorem setLink_data (v : View) (c x : Nat) : (v.setLink c x).data = v.data := rfl
@[simp] theorem setLink_link (v : View) (c x : Nat) :
    (v.setLink c x).link = Function.update v.link c x := rfl

end View

section Layout

variable {vol : Volume} (geo : Geometry vol)

include geo

theorem Geometry.clusters : dataClustersMax vol = (diskSectors - vol.dataLba) / vol.spc := by
  have volume := geo.volume
  have some' : vol.spc ≠ 0 := Nat.ne_of_gt geo.spc.1
  simp only [diskSectors] at volume
  have sectors : (2880 + 2 ^ 32 - vol.dataLba) % 2 ^ 32 = diskSectors - vol.dataLba := by
    simp only [diskSectors]
    omega
  simp only [dataClustersMax, sectors, if_pos some']

theorem Geometry.clusters_le : dataClustersMax vol ≤ diskSectors := by
  rw [geo.clusters]
  exact Nat.le_trans (Nat.div_le_self _ _) (Nat.sub_le _ _)

theorem Geometry.clustersEnd : clustersEnd vol - 2 = dataClustersMax vol := by
  have bound := geo.clusters_le
  simp only [diskSectors] at bound
  rw [NovaKernel.clustersEnd, Nat.mod_eq_of_lt (by omega), Nat.add_sub_cancel]

theorem Geometry.cluster_lt {c : Nat} (inside : Cluster vol c) : c < 0xB42 := by
  have bound := geo.clusters_le
  simp only [Cluster, diskSectors] at *
  omega

theorem Geometry.entry_lt {c : Nat} (inside : Cluster vol c) :
    c + c / 2 + 1 < 512 * vol.fatSectors := by
  have table := geo.table
  simp only [Cluster] at inside
  omega

theorem Geometry.cluster_end {c : Nat} (inside : Cluster vol c) :
    vol.dataLba + (c - 2) * vol.spc + vol.spc ≤ diskSectors := by
  have volume := geo.volume
  have count := geo.clusters
  have room : (c - 2 + 1) * vol.spc ≤ diskSectors - vol.dataLba := by
    refine Nat.le_trans (Nat.mul_le_mul_right vol.spc ?_) (Nat.div_mul_le_self _ vol.spc)
    rw [← count]
    simp only [Cluster] at inside
    omega
  rw [Nat.succ_mul] at room
  omega

omit geo in
theorem clusters_apart {c c' : Nat} (inside : Cluster vol c) (before : c < c') :
    (c - 2) * vol.spc + vol.spc ≤ (c' - 2) * vol.spc := by
  have step : (c - 2 + 1) * vol.spc ≤ (c' - 2) * vol.spc :=
    Nat.mul_le_mul_right vol.spc (by simp only [Cluster] at inside; omega)
  rwa [Nat.succ_mul] at step

omit geo in
theorem dataAddr_inj {c c' j j' : Nat} (inside : Cluster vol c) (inside' : Cluster vol c')
    (low : j < 512 * vol.spc) (low' : j' < 512 * vol.spc)
    (same : dataAddr vol c + j = dataAddr vol c' + j') : c = c' ∧ j = j' := by
  simp only [dataAddr] at same
  rcases Nat.lt_trichotomy c c' with before | rfl | after
  · have apart := clusters_apart inside before
    omega
  · exact ⟨rfl, by omega⟩
  · have apart := clusters_apart inside' after
    omega

theorem Geometry.fatAddr_lt {copy c : Nat} (first : copy < 2) (inside : Cluster vol c) :
    fatAddr vol copy c + 1 < 512 * vol.rootLba := by
  have bound := geo.entry_lt inside
  have root := geo.root
  have copies : copy = 0 ∨ copy = 1 := by omega
  rcases copies with rfl | rfl <;> simp only [fatAddr] <;> omega

end Layout

end NovaKernel

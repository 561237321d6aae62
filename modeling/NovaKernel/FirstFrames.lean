import NovaKernel.AddrSpacesOps

set_option autoImplicit false

namespace NovaKernel

open Machine Mm

def Filled (s : Machine) (n : Nat) : Prop :=
  ∀ f < frameCount, s.mm.bitmap f = true ↔ f < n ∨ 0x300 ≤ f

theorem filled_boot (mem : Nat → Nat → Word) : Filled (boot mem) 0x130 := by
  intro f bounded
  rw [(boot_mm mem).1, mmInit_bitmap f bounded, Reserved]
  simp only [bounded, and_true]

theorem filled_mark {s s' : Machine} {n : Nat} (filled : Filled s n)
    (bitmap : ∀ f, s'.mm.bitmap f = true ↔ f = n ∨ s.mm.bitmap f = true) : Filled s' (n + 1) := by
  intro f bounded
  rw [bitmap, filled f bounded]
  omega

theorem filled_frameAlloc {s : Machine} {n : Nat} (filled : Filled s n) (below : n < 0x300) :
    s.frameAlloc = (some n, takeFrame s n) := by
  have bounded : n < frameCount := by
    simp only [frameCount, frameSize]
    omega
  apply machine_frameAlloc_of_first bounded
  · by_contra used
    rcases (filled n bounded).mp (by simpa using used) with same | high
    · exact Nat.lt_irrefl _ same
    · omega
  · exact fun g earlier => (filled g (by omega)).mpr (.inl earlier)

theorem filled_takeFrame {s : Machine} {n : Nat} (filled : Filled s n) :
    Filled (takeFrame s n) (n + 1) :=
  filled_mark filled (takeFrame_bitmap s n)

theorem filled_allocTables {s : Machine} {n : Nat} (filled : Filled s n) (below : n + 1 < 0x300) :
    allocTables s = (some (n, n + 1), takeFrame (takeFrame s n) (n + 1)) := by
  simp only [allocTables, filled_frameAlloc filled (by omega),
    filled_frameAlloc (filled_takeFrame filled) below]

theorem filled_created {s : Machine} {n : Nat} (filled : Filled s n) :
    Filled (createdSpace s n (n + 1)) (n + 2) :=
  filled_takeFrame (filled_takeFrame filled)

theorem filled_forked {s : Machine} {n : Nat} (filled : Filled s n) (parent : Nat) :
    Filled (forkedSpace s parent n (n + 1)) (n + 2) :=
  filled_takeFrame (filled_takeFrame filled)

theorem filled_mapped {s : Machine} {n : Nat} (filled : Filled s n) (pt idx : Nat) :
    Filled (mappedPage s pt idx n) (n + 1) :=
  filled_takeFrame filled

def mapFrom (pt : Nat) : Nat → Nat → Nat → Machine → Machine
  | 0, _, _, s => s
  | k + 1, i, n, s => mapFrom pt k (i + 1) (n + 1) (mappedPage s pt i n)

theorem mapFrom_cr3 (pt k i n : Nat) (s : Machine) :
    (mapFrom pt k i n s).cr3 = s.cr3 ∧ (mapFrom pt k i n s).tlb = s.tlb := by
  induction k generalizing i n s with
  | zero => exact ⟨rfl, rfl⟩
  | succ k ih => exact ih (i + 1) (n + 1) (mappedPage s pt i n)

theorem mapFrom_mem (pt k i n : Nat) (s : Machine) (g j : Nat) :
    (mapFrom pt k i n s).mem g j =
      if g = pt ∧ i ≤ j ∧ j < i + k then entry (n + (j - i)) 7 else s.mem g j := by
  induction k generalizing i n s with
  | zero => rw [mapFrom, if_neg (by omega)]
  | succ k ih =>
    rw [mapFrom, ih, mappedPage_mem, setWord_mem]
    by_cases table : g = pt
    · by_cases first : j = i
      · subst first
        simp [table]
      · by_cases later : i + 1 ≤ j ∧ j < i + 1 + k
        · have offset : n + 1 + (j - (i + 1)) = n + (j - i) := by omega
          rw [if_pos ⟨table, later⟩, if_pos ⟨table, by omega, by omega⟩, offset]
        · rw [if_neg (fun h => later h.2), if_neg (fun h => first h.2), if_neg (by omega)]
    · simp [table]

theorem filled_mapFrom (pt k i : Nat) {n : Nat} {s : Machine} (filled : Filled s n) :
    Filled (mapFrom pt k i n s) (n + k) := by
  induction k generalizing i n s with
  | zero => exact filled
  | succ k ih =>
    have rest := ih (i + 1) (filled_mapped filled pt i)
    rwa [Nat.add_assoc, Nat.add_comm 1 k] at rest

theorem mapUserPages_consecutive {acc : Access} {within : Nat → Prop} (reaches : Reaches acc within)
    {live : Finset Nat} {pd k i n : Nat} {s : Machine} (ready : Ready within s live)
    (member : pd ∈ live) (filled : Filled s n) (below : n + k ≤ 0x300)
    (window : ∀ j, i ≤ j → j < i + k → InUserWindow j)
    (unmapped : ∀ j, i ≤ j → j < i + k → hasFlag (s.mem (tableOf s pd) j) pteP = false) :
    mapUserPages acc (tableOf s pd) (List.range' i k) s =
      some (true, mapFrom (tableOf s pd) k i n s) ∧
    Ready within (mapFrom (tableOf s pd) k i n s) live := by
  induction k generalizing i n s with
  | zero => exact ⟨rfl, ready⟩
  | succ k ih =>
    have inside := window i (Nat.le_refl i) (by omega)
    have empty := unmapped i (Nat.le_refl i) (by omega)
    have allocated := filled_frameAlloc filled (by omega)
    obtain ⟨-, bounded, free, -⟩ := machine_frameAlloc_some allocated
    have step := mapUserPage_fresh reaches (ready.spaces.lowIdentity ready.loaded)
      (ready.tables pd member).2 empty allocated (ready.spaces.fresh bounded free).2.1
    have ready' := ready_mapped ready member inside empty allocated
    have table := (ready.spaces.mapped member inside empty allocated).2 pd member
    have rest := ih (i := i + 1) ready' (filled_mapped filled (tableOf s pd) i) (by omega)
      (fun j low high => window j (by omega) (by omega)) (fun j low high => by
        rw [table, mappedPage_mem, setWord_mem, if_neg (by omega)]
        exact unmapped j (by omega) (by omega))
    rw [table] at rest
    refine ⟨?_, rest.2⟩
    simp only [List.range'_succ, mapUserPages, step, Option.bind_eq_bind, Option.bind_some, if_true]
    exact rest.1

end NovaKernel

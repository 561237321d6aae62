import NovaKernel.FatLayout

set_option autoImplicit false

namespace NovaKernel

def floppy : Volume :=
  { mounted := true, fatLba := 1, fatSectors := 9, rootLba := 19, rootSectors := 14, dataLba := 33, spc := 1 }

def twoClusters : Volume :=
  { mounted := true, fatLba := 1, fatSectors := 9, rootLba := 19, rootSectors := 2859, dataLba := 2878, spc := 1 }

def blankIo : Io := { disk := fun _ => 0, secbuf := fun _ => 0, accesses := 0 }

def noFaults : Faults := fun _ _ _ => false

theorem noFaults_reliable : Reliable noFaults := fun _ _ _ => rfl

theorem floppy_geometry : Geometry floppy := by
  constructor <;> decide

theorem twoClusters_geometry : Geometry twoClusters := by
  constructor <;> decide

theorem blank_wellFormed (vol : Volume) : WellFormed vol fun _ => 0 := by
  have dead : ∀ k, (view vol fun _ => 0).live k ≠ true := fun k => by
    simp [View.live, view]
  refine ⟨fun _ _ => rfl, 0, fun _ => [], ?_⟩
  constructor
  case bounded => exact Nat.zero_le _
  case before => exact fun k low => absurd low (Nat.not_lt_zero k)
  case after => exact fun k _ j => by simp [view]
  case distinct => exact fun k l live _ _ => absurd live (dead k)
  case chains => exact fun k live => absurd live (dead k)
  case sizes => exact fun k live => absurd live (dead k)
  case disjoint => exact fun k l live _ _ => absurd live (dead k)
  case covered =>
    intro c _ used
    have free : (view vol fun _ => 0).link c = 0 := by simp [view, fatEntry, entryOf]
    exact absurd free used

end NovaKernel

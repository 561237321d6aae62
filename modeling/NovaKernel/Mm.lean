import NovaKernel.Lib.FirstFit

set_option autoImplicit false

namespace NovaKernel

open FirstFit

-- A page-aligned physical address is represented by its frame number.
def frameSize : Nat := 0x1000
def frameCount : Nat := 0x400000 / frameSize

@[ext] structure Mm where
  bitmap : Nat → Bool
  frameRefs : Nat → Nat

namespace Mm

def markUsed (m : Mm) (fi : Nat) : Mm :=
  if fi < frameCount then { m with bitmap := Function.update m.bitmap fi true } else m

def mmInit : Mm :=
  let cleared : Mm := { bitmap := fun _ => false, frameRefs := fun _ => 0 }
  let lowMemory := (List.range (0x100000 / frameSize)).foldl markUsed cleared
  let kernelImage :=
    (List.range' (0x100000 / frameSize) (0x30000 / frameSize)).foldl markUsed lowMemory
  (List.range' (0x300000 / frameSize) (frameCount - 0x300000 / frameSize)).foldl markUsed kernelImage

def frameAlloc (m : Mm) : Option Nat × Mm :=
  match firstFree m.bitmap frameCount with
  | none => (none, m)
  | some i => (some i, { m with bitmap := Function.update m.bitmap i true })

def frameFree (m : Mm) (i : Nat) : Mm :=
  if frameCount ≤ i then m else { m with bitmap := Function.update m.bitmap i false }

def mmFreeFrames (m : Mm) : Nat :=
  freeCount m.bitmap frameCount

-- The counter is a u8: it saturates instead of wrapping.
def mmRefInc (m : Mm) (fi : Nat) : Mm :=
  if fi < frameCount ∧ m.frameRefs fi < 255 then
    { m with frameRefs := Function.update m.frameRefs fi (m.frameRefs fi + 1) }
  else m

def mmRefDec (m : Mm) (fi : Nat) : Mm :=
  if frameCount ≤ fi then m
  else
    let m := if 0 < m.frameRefs fi then
      { m with frameRefs := Function.update m.frameRefs fi (m.frameRefs fi - 1) } else m
    if m.frameRefs fi = 0 ∧ m.bitmap fi = true then m.frameFree fi else m

/-- Frames `mm_init` withholds from the allocator. -/
def Reserved (f : Nat) : Prop :=
  f < 0x130 ∨ 0x300 ≤ f ∧ f < frameCount

instance (f : Nat) : Decidable (Reserved f) :=
  inferInstanceAs (Decidable (_ ∨ _))

def Allocatable (f : Nat) : Prop :=
  0x130 ≤ f ∧ f < 0x300

theorem foldl_markUsed (fis : List Nat) (m : Mm) :
    (fis.foldl markUsed m).frameRefs = m.frameRefs ∧
      ∀ i, (fis.foldl markUsed m).bitmap i = true ↔
        m.bitmap i = true ∨ i ∈ fis ∧ i < frameCount := by
  induction fis generalizing m with
  | nil => simp
  | cons fi rest ih =>
    obtain ⟨refs, bits⟩ := ih (m.markUsed fi)
    by_cases within : fi < frameCount
    · refine ⟨by rw [List.foldl_cons, refs]; simp [markUsed, within], fun i => ?_⟩
      rw [List.foldl_cons, bits i]
      by_cases same : i = fi
      · simp [markUsed, within, same]
      · simp [markUsed, within, same, Function.update_of_ne]
    · refine ⟨by rw [List.foldl_cons, refs]; simp [markUsed, within], fun i => ?_⟩
      rw [List.foldl_cons, bits i]
      by_cases same : i = fi
      · simp [markUsed, within, same]
      · simp [markUsed, within, same]

@[simp] theorem mmInit_frameRefs (f : Nat) : mmInit.frameRefs f = 0 := by
  simp [mmInit, foldl_markUsed]

theorem mmInit_bitmap (f : Nat) (within : f < frameCount) :
    mmInit.bitmap f = true ↔ Reserved f := by
  simp only [mmInit, (foldl_markUsed _ _).2, List.mem_range, List.mem_range'_1, Reserved]
  simp only [frameCount, frameSize] at within ⊢
  simp
  omega

theorem frameAlloc_none {m m' : Mm} (failed : m.frameAlloc = (none, m')) :
    m' = m ∧ ∀ f < frameCount, m.bitmap f = true := by
  unfold frameAlloc at failed
  split at failed
  · next full =>
    exact ⟨(Prod.mk.inj failed).2.symm, firstFree_eq_none_iff.mp full⟩
  · exact absurd (Prod.mk.inj failed).1 (by simp)

theorem frameAlloc_some {m m' : Mm} {f : Nat} (allocated : m.frameAlloc = (some f, m')) :
    m' = { m with bitmap := Function.update m.bitmap f true } ∧
      f < frameCount ∧ m.bitmap f = false ∧ ∀ g < f, m.bitmap g = true := by
  unfold frameAlloc at allocated
  split at allocated
  · exact absurd (Prod.mk.inj allocated).1 (by simp)
  · next i found =>
    obtain ⟨rfl, rfl⟩ : i = f ∧ _ = m' := by simpa using allocated
    obtain ⟨within, free, before⟩ := firstFree_eq_some_iff.mp found
    exact ⟨rfl, within, free, before⟩

theorem frameAlloc_of_first {m : Mm} {f : Nat} (within : f < frameCount)
    (free : m.bitmap f = false) (before : ∀ g < f, m.bitmap g = true) :
    m.frameAlloc = (some f, { m with bitmap := Function.update m.bitmap f true }) := by
  have found : firstFree m.bitmap frameCount = some f :=
    firstFree_eq_some_iff.mpr ⟨within, free, before⟩
  unfold frameAlloc
  split
  · next full => exact absurd (found.symm.trans full) (by simp)
  · next i hit =>
    obtain rfl : f = i := Option.some.inj (found.symm.trans hit)
    rfl

theorem frameFree_frameAlloc {m : Mm} {f : Nat} (within : f < frameCount)
    (free : m.bitmap f = false) :
    ({ m with bitmap := Function.update m.bitmap f true } : Mm).frameFree f = m := by
  have restored : Function.update (Function.update m.bitmap f true) f false = m.bitmap := by
    rw [Function.update_idem, ← free, Function.update_eq_self]
  simp [frameFree, Nat.not_le.mpr within, restored]

theorem mmRefInc_eq {m : Mm} {f : Nat} (within : f < frameCount) (room : m.frameRefs f < 255) :
    m.mmRefInc f = { m with frameRefs := Function.update m.frameRefs f (m.frameRefs f + 1) } := by
  simp [mmRefInc, within, room]

theorem mmRefDec_eq {m : Mm} {f : Nat} (within : f < frameCount) (held : 0 < m.frameRefs f)
    (used : m.bitmap f = true) :
    m.mmRefDec f =
      { bitmap := if m.frameRefs f = 1 then Function.update m.bitmap f false else m.bitmap
        frameRefs := Function.update m.frameRefs f (m.frameRefs f - 1) } := by
  by_cases last : m.frameRefs f = 1
  · simp [mmRefDec, frameFree, Nat.not_le.mpr within, used, last]
  · have more : m.frameRefs f - 1 ≠ 0 := by omega
    simp [mmRefDec, Nat.not_le.mpr within, held, last, more]

end Mm

end NovaKernel
